import Mathlib.Algebra.GroupWithZero.Nat
import IronHarness.Lib.Lines

/-!
# Lines and their ends

`str.splitlines` with the end of each line kept beside it.  Put together the lines and the ends are the text
(`whole_cutLines`), so a line begins where the lines and ends before it stop.  An end is one character but for `\r\n`,
so counting one for each end falls short of the text by the number of these (`length_whole`).
-/

namespace TextLines

/-- A line and the boundary it ends with; the last line may have none. -/
abbrev Cut := Line × List Char

def crlf : List Char := ['\r', '\n']

def cutLinesAux (acc : List Char) : List Char → List Cut
  | [] => if acc.isEmpty then [] else [(acc.reverse, [])]
  | '\r' :: '\n' :: r => (acc.reverse, crlf) :: cutLinesAux [] r
  | c :: r => if isBoundary c then (acc.reverse, [c]) :: cutLinesAux [] r else cutLinesAux (c :: acc) r

/-- `str.splitlines(keepends=True)`, with the ends apart. -/
def cutLines (text : List Char) : List Cut := cutLinesAux [] text

/-- The lines with their ends, one after the other. -/
def whole (cuts : List Cut) : List Char := cuts.flatMap fun cut => cut.1 ++ cut.2

@[simp] theorem whole_cons (cut : Cut) (cuts : List Cut) : whole (cut :: cuts) = cut.1 ++ cut.2 ++ whole cuts := rfl

private theorem map_fst_cutLinesAux (acc text : List Char) :
    (cutLinesAux acc text).map (·.1) = splitlinesAux acc text := by
  fun_induction cutLinesAux acc text with
  | case1 acc hempty => simp [splitlinesAux, hempty]
  | case2 acc hempty => simp [splitlinesAux, hempty]
  | case3 acc r ih => simp [splitlinesAux, ih]
  | case4 acc c r hc hb ih =>
    rw [splitlinesAux, if_pos hb, List.map_cons, ih]
    exact hc
  | case5 acc c r hc hb ih =>
    rw [splitlinesAux, if_neg hb, ih]
    exact hc

theorem map_fst_cutLines (text : List Char) : (cutLines text).map (·.1) = splitlines text :=
  map_fst_cutLinesAux [] text

private theorem whole_cutLinesAux (acc text : List Char) : whole (cutLinesAux acc text) = acc.reverse ++ text := by
  fun_induction cutLinesAux acc text with
  | case1 acc hempty => simp [List.isEmpty_iff.1 hempty, whole]
  | case2 acc hempty => simp [whole]
  | case3 acc r ih => simp [ih, crlf]
  | case4 acc c r hc hb ih => simp [ih]
  | case5 acc c r hc hb ih => simp [ih]

/-- The lines and the ends are the text. -/
theorem whole_cutLines (text : List Char) : whole (cutLines text) = text := whole_cutLinesAux [] text

private theorem end_of_cutLinesAux {acc text : List Char} {before after : List Cut} {cut : Cut}
    (h : cutLinesAux acc text = before ++ cut :: after) : ∀ b ∈ before, b.2 = crlf ∨ b.2.length = 1 := by
  fun_induction cutLinesAux acc text generalizing before with
  | case1 acc hempty => simp at h
  | case2 acc hempty =>
    cases before with
    | nil => simp
    | cons b before => simp at h
  | case3 acc r ih =>
    cases before with
    | nil => simp
    | cons b before =>
      obtain ⟨rfl, hrest⟩ := List.cons.inj h
      intro b hb
      rcases List.mem_cons.1 hb with rfl | hb
      · exact .inl rfl
      · exact ih hrest b hb
  | case4 acc c r hc hboundary ih =>
    cases before with
    | nil => simp
    | cons b before =>
      obtain ⟨rfl, hrest⟩ := List.cons.inj h
      intro b hb
      rcases List.mem_cons.1 hb with rfl | hb
      · exact .inr rfl
      · exact ih hrest b hb
  | case5 acc c r hc hboundary ih => exact ih h

/-- Every line with a line behind it has an end, of one character or `\r\n`. -/
theorem end_of_cutLines {text : List Char} {before after : List Cut} {cut : Cut}
    (h : cutLines text = before ++ cut :: after) : ∀ b ∈ before, b.2 = crlf ∨ b.2.length = 1 :=
  end_of_cutLinesAux h

theorem length_whole {cuts : List Cut} (h : ∀ cut ∈ cuts, cut.2 = crlf ∨ cut.2.length = 1) :
    (whole cuts).length = (cuts.map fun cut => cut.1.length + 1).sum + cuts.countP (fun cut => cut.2 = crlf) := by
  induction cuts with
  | nil => rfl
  | cons cut cuts ih =>
    have hrest := ih fun c hc => h c (List.mem_cons_of_mem cut hc)
    rw [whole_cons, List.length_append, List.length_append, hrest, List.map_cons, List.sum_cons, List.countP_cons]
    rcases h cut List.mem_cons_self with hend | hend
    · rw [hend, if_pos (by simp), crlf, List.length_cons, List.length_singleton]
      omega
    · have hne : cut.2 ≠ crlf := by
        intro heq
        rw [heq] at hend
        cases hend
      rw [if_neg (by simpa using hne)]
      omega

/-! ### Texts without carriage returns -/

theorem return_notMem_universal (text : List Char) : '\r' ∉ universal text := by
  fun_induction universal text with
  | case1 r ih => simpa using ih
  | case2 r hr ih => simpa using ih
  | case3 c r hcrlf hreturn ih =>
    intro hmem
    rcases List.mem_cons.1 hmem with heq | hmem
    · exact hreturn heq.symm
    · exact ih hmem
  | case4 => simp

/-- Lines of a text without carriage returns: each one is cut at one boundary, the last one may have none. -/
inductive WellCut : List Cut → Prop where
  | nil : WellCut []
  | last {line : Line} (hline : ∀ c ∈ line, isBoundary c = false) (hne : line ≠ []) : WellCut [(line, [])]
  | cons {line : Line} {boundary : Char} {cuts : List Cut} (hline : ∀ c ∈ line, isBoundary c = false)
      (hboundary : isBoundary boundary = true) (hcuts : WellCut cuts) : WellCut ((line, [boundary]) :: cuts)

private theorem wellCut_cutLinesAux {acc text : List Char} (hacc : ∀ c ∈ acc, isBoundary c = false)
    (h : '\r' ∉ text) : WellCut (cutLinesAux acc text) := by
  have hreverse : ∀ {acc : List Char}, (∀ c ∈ acc, isBoundary c = false) → ∀ c ∈ acc.reverse, isBoundary c = false := by
    intro acc hacc c hc
    exact hacc c (List.mem_reverse.1 hc)
  fun_induction cutLinesAux acc text with
  | case1 acc hempty => exact .nil
  | case2 acc hempty => exact .last (hreverse hacc) (by simpa using hempty)
  | case3 acc r ih => exact absurd List.mem_cons_self h
  | case4 acc c r hc hboundary ih =>
    exact .cons (hreverse hacc) hboundary (ih (by simp) fun hmem => h (List.mem_cons_of_mem c hmem))
  | case5 acc c r hc hboundary ih =>
    refine ih ?_ fun hmem => h (List.mem_cons_of_mem c hmem)
    intro d hd
    rcases List.mem_cons.1 hd with rfl | hd
    · simpa using hboundary
    · exact hacc d hd

theorem wellCut_cutLines {text : List Char} (h : '\r' ∉ text) : WellCut (cutLines text) :=
  wellCut_cutLinesAux (by simp) h

end TextLines
