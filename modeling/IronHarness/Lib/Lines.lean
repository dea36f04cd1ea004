import Mathlib.Data.List.DropRight

/-!
# Lines of a text

The two ways of Python to cut a text into lines: a file opened as text (universal newlines; a line keeps its newline)
and `str.splitlines` (more line boundaries; a line loses its boundary).  Lines without control characters that are
written one after the other, each with a newline, come back as they were (`fileLines_join`), from `splitlines` only
when they contain none of the boundaries beyond the control characters (`splitlines_join`).  Every line of any text
stands in it, with the lines that follow it behind it (`splitlines_eq`).
-/

namespace TextLines

abbrev Line := List Char

/-! ### Character classes -/

/-- The white space of `str.isspace`. -/
def isSpace (c : Char) : Bool :=
  let n := c.toNat
  (0x09 ≤ n ∧ n ≤ 0x0D) ∨ (0x1C ≤ n ∧ n ≤ 0x20) ∨ n = 0x85 ∨ n = 0xA0 ∨ n = 0x1680 ∨ (0x2000 ≤ n ∧ n ≤ 0x200A) ∨
    n = 0x2028 ∨ n = 0x2029 ∨ n = 0x202F ∨ n = 0x205F ∨ n = 0x3000

/-- `not line.strip()`. -/
def isBlank (line : Line) : Bool := line.all isSpace

/-- `line.strip()` -/
def strip (line : Line) : Line := (line.dropWhile isSpace).rdropWhile isSpace

/-- The line boundaries of `str.splitlines` that are no control characters below U+0020. -/
def isSeparator (c : Char) : Bool := c == '\x85' || c == '\u2028' || c == '\u2029'

/-- The line boundaries of `str.splitlines`. -/
def isBoundary (c : Char) : Bool :=
  (0x0A ≤ c.toNat ∧ c.toNat ≤ 0x0D) ∨ (0x1C ≤ c.toNat ∧ c.toNat ≤ 0x1E) ∨ isSeparator c

theorem strip_concat {c : Char} (hc : isSpace c = true) (line : Line) : strip (line ++ [c]) = strip line := by
  unfold strip
  rw [List.dropWhile_append]
  split
  · rename_i hempty
    rw [List.isEmpty_iff.1 hempty, List.dropWhile_cons_of_pos hc]
    rfl
  · exact List.rdropWhile_concat_pos _ _ _ hc

theorem strip_eq_self {line : Line} (h : ∀ c ∈ line, isSpace c = false) : strip line = line := by
  have hfront : line.dropWhile isSpace = line := by
    cases line with
    | nil => rfl
    | cons c line =>
      have hc := h c List.mem_cons_self
      exact List.dropWhile_cons_of_neg (by simp [hc])
  rw [strip, hfront, List.rdropWhile_eq_self_iff]
  intro hne
  have hlast := h _ (List.getLast_mem hne)
  simp [hlast]

/-! ### Cutting -/

/-- A text as a file opened with universal newlines shows it: `\r\n` and `\r` are newlines. -/
def universal : List Char → List Char
  | '\r' :: '\n' :: r => '\n' :: universal r
  | '\r' :: r => '\n' :: universal r
  | c :: r => c :: universal r
  | [] => []

/-- The lines of a text, each with its newline; the last one may have none. -/
def linesKeep : List Char → List Line
  | [] => []
  | c :: r =>
    if c = '\n' then ['\n'] :: linesKeep r
    else match linesKeep r with
      | [] => [[c]]
      | l :: ls => (c :: l) :: ls

/-- The lines a text file yields. -/
def fileLines (text : List Char) : List Line := linesKeep (universal text)

/-- `str.splitlines`, after the characters `acc` of the current line (backwards). -/
def splitlinesAux (acc : List Char) : List Char → List Line
  | [] => if acc.isEmpty then [] else [acc.reverse]
  | '\r' :: '\n' :: r => acc.reverse :: splitlinesAux [] r
  | c :: r => if isBoundary c then acc.reverse :: splitlinesAux [] r else splitlinesAux (c :: acc) r

def splitlines (text : List Char) : List Line := splitlinesAux [] text

/-- Lines written one after the other. -/
def join (lines : List Line) : List Char := lines.flatMap (· ++ ['\n'])

/-! ### Lines that were written -/

/-- No control character below U+0020. -/
def Plain (line : Line) : Prop := ∀ c ∈ line, 0x20 ≤ c.toNat

private theorem universal_plain {line : Line} (h : Plain line) (r : List Char) :
    universal (line ++ '\n' :: r) = line ++ '\n' :: universal r := by
  induction line with
  | nil => simp [universal]
  | cons c line ih =>
    have hc : c ≠ '\r' := by
      rintro rfl
      exact absurd (h '\r' List.mem_cons_self) (by decide)
    have hline : Plain line := fun d hd => h d (List.mem_cons_of_mem c hd)
    rw [List.cons_append, List.cons_append, ← ih hline]
    rw [universal]
    · rintro r' rfl
      exact fun _ => hc rfl
    · rintro rfl
      exact hc rfl

private theorem linesKeep_plain {line : Line} (h : Plain line) (r : List Char) :
    linesKeep (line ++ '\n' :: r) = (line ++ ['\n']) :: linesKeep r := by
  induction line with
  | nil => simp [linesKeep]
  | cons c line ih =>
    have hc : c ≠ '\n' := by
      rintro rfl
      exact absurd (h '\n' List.mem_cons_self) (by decide)
    have hline : Plain line := fun d hd => h d (List.mem_cons_of_mem c hd)
    rw [List.cons_append, linesKeep, if_neg hc, ih hline]
    rfl

private theorem join_cons (l : Line) (lines : List Line) : join (l :: lines) = l ++ '\n' :: join lines := by
  simp [join]

theorem join_append (a b : List Line) : join (a ++ b) = join a ++ join b := List.flatMap_append

/-- Newlines are all that universal newlines leave as they are. -/
theorem universal_join {lines : List Line} (h : ∀ l ∈ lines, Plain l) : universal (join lines) = join lines := by
  induction lines with
  | nil => rfl
  | cons l lines ih =>
    rw [join_cons, universal_plain (h l List.mem_cons_self), ih fun l' hl' => h l' (List.mem_cons_of_mem l hl')]

/-- A text file yields the lines written to it. -/
theorem fileLines_join {lines : List Line} (h : ∀ l ∈ lines, Plain l) :
    fileLines (join lines) = lines.map (· ++ ['\n']) := by
  rw [fileLines, universal_join h]
  induction lines with
  | nil => rfl
  | cons l lines ih =>
    have hrest := ih fun l' hl' => h l' (List.mem_cons_of_mem l hl')
    rw [join_cons, linesKeep_plain (h l List.mem_cons_self), hrest]
    rfl

private theorem isBoundary_plain {c : Char} (h : 0x20 ≤ c.toNat) : isBoundary c = isSeparator c := by
  have h1 : ¬ (0x0A ≤ c.toNat ∧ c.toNat ≤ 0x0D) := by omega
  have h2 : ¬ (0x1C ≤ c.toNat ∧ c.toNat ≤ 0x1E) := by omega
  simp [isBoundary, h1, h2]

private theorem splitlinesAux_cons {c : Char} (hc : c ≠ '\r') (acc r : List Char) :
    splitlinesAux acc (c :: r) =
      if isBoundary c then acc.reverse :: splitlinesAux [] r else splitlinesAux (c :: acc) r := by
  rw [splitlinesAux]
  rintro r' rfl
  exact fun _ => hc rfl

private theorem ne_return {c : Char} (h : 0x20 ≤ c.toNat) : c ≠ '\r' := by
  rintro rfl
  revert h
  decide

private theorem splitlinesAux_plain {line : Line} (h : Plain line) (hsep : ∀ c ∈ line, isSeparator c = false)
    (acc r : List Char) :
    splitlinesAux acc (line ++ '\n' :: r) = (acc.reverse ++ line) :: splitlinesAux [] r := by
  induction line generalizing acc with
  | nil => simp [splitlinesAux_cons (show '\n' ≠ '\r' by decide), isBoundary]
  | cons c line ih =>
    have hc : 0x20 ≤ c.toNat := h c List.mem_cons_self
    have hb : isBoundary c = false := by
      rw [isBoundary_plain hc]
      exact hsep c List.mem_cons_self
    have hline : Plain line := fun d hd => h d (List.mem_cons_of_mem c hd)
    have hsep' : ∀ d ∈ line, isSeparator d = false := fun d hd => hsep d (List.mem_cons_of_mem c hd)
    rw [List.cons_append, splitlinesAux_cons (ne_return hc), hb, if_neg Bool.false_ne_true, ih hline hsep']
    simp

/-- `splitlines` yields the lines written when they contain no separator. -/
theorem splitlines_join_append {lines : List Line} (h : ∀ l ∈ lines, Plain l)
    (hsep : ∀ l ∈ lines, ∀ c ∈ l, isSeparator c = false) (r : List Char) :
    splitlines (join lines ++ r) = lines ++ splitlines r := by
  induction lines with
  | nil => rfl
  | cons l lines ih =>
    have hrest := ih (fun l' hl' => h l' (List.mem_cons_of_mem l hl'))
      (fun l' hl' => hsep l' (List.mem_cons_of_mem l hl'))
    rw [splitlines] at hrest ⊢
    rw [join_cons, List.append_assoc, List.cons_append,
      splitlinesAux_plain (h l List.mem_cons_self) (hsep l List.mem_cons_self), hrest]
    rfl

theorem splitlines_join {lines : List Line} (h : ∀ l ∈ lines, Plain l)
    (hsep : ∀ l ∈ lines, ∀ c ∈ l, isSeparator c = false) : splitlines (join lines) = lines := by
  have hjoin := splitlines_join_append h hsep []
  rwa [List.append_nil, show splitlines [] = [] from rfl, List.append_nil] at hjoin

/-- A line with a separator is cut at the first one. -/
theorem splitlines_cut {front : Line} {sep : Char} (hfront : Plain front)
    (hnone : ∀ c ∈ front, isSeparator c = false) (hsep : isSeparator sep = true) (r : List Char) :
    splitlines (front ++ sep :: r) = front :: splitlines r := by
  have hret : sep ≠ '\r' := by
    rintro rfl
    revert hsep
    decide
  have hb : isBoundary sep = true := by simp [isBoundary, hsep]
  have haux : ∀ acc, splitlinesAux acc (front ++ sep :: r) = (acc.reverse ++ front) :: splitlinesAux [] r := by
    induction front with
    | nil =>
      intro acc
      rw [List.nil_append, splitlinesAux_cons hret, if_pos hb, List.append_nil]
    | cons c front ih =>
      intro acc
      have hc : 0x20 ≤ c.toNat := hfront c List.mem_cons_self
      have hbc : isBoundary c = false := by
        rw [isBoundary_plain hc]
        exact hnone c List.mem_cons_self
      rw [List.cons_append, splitlinesAux_cons (ne_return hc), hbc, if_neg Bool.false_ne_true,
        ih (fun d hd => hfront d (List.mem_cons_of_mem c hd)) (fun d hd => hnone d (List.mem_cons_of_mem c hd))]
      simp
  exact haux []

/-! ### Where the lines stand -/

theorem isSpace_of_isBoundary {c : Char} (h : isBoundary c = true) : isSpace c = true := by
  simp only [isBoundary, isSeparator, Bool.or_eq_true, decide_eq_true_eq, beq_iff_eq] at h
  rcases h with h | h | (rfl | rfl) | rfl
  · simp only [isSpace, decide_eq_true_eq]
    omega
  · simp only [isSpace, decide_eq_true_eq]
    omega
  all_goals decide

private theorem splitlinesAux_blank {acc text : List Char} (h : ∀ l ∈ splitlinesAux acc text, isBlank l = true) :
    isBlank (acc.reverse ++ text) = true := by
  fun_induction splitlinesAux acc text with
  | case1 acc hempty => simp [List.isEmpty_iff.1 hempty, isBlank]
  | case2 acc hempty => simpa using h
  | case3 acc r ih =>
    have hacc := h acc.reverse List.mem_cons_self
    have hr := ih fun l hl => h l (List.mem_cons_of_mem _ hl)
    have hret : isSpace '\r' = true ∧ isSpace '\n' = true := by decide
    simp only [isBlank, List.all_append, List.all_cons, List.reverse_nil, List.nil_append] at hacc hr ⊢
    simp [hacc, hr, hret]
  | case4 acc c r hc hb ih =>
    have hacc := h acc.reverse List.mem_cons_self
    have hr := ih fun l hl => h l (List.mem_cons_of_mem _ hl)
    simp only [isBlank, List.all_append, List.all_cons, List.reverse_nil, List.nil_append] at hacc hr ⊢
    simp [hacc, hr, isSpace_of_isBoundary hb]
  | case5 acc c r hc hb ih => simpa using ih h

/-- A text whose lines are blank is blank. -/
theorem isBlank_of_splitlines {text : List Char} (h : ∀ l ∈ splitlines text, isBlank l = true) : isBlank text = true :=
  splitlinesAux_blank h

private theorem splitlinesAux_eq {acc text : List Char} {before after : List Line} {line : Line}
    (h : splitlinesAux acc text = before ++ line :: after) :
    ∃ front back, acc.reverse ++ text = front ++ line ++ back ∧
      ((∀ l ∈ after, isBlank l = true) → isBlank back = true) := by
  fun_induction splitlinesAux acc text generalizing before with
  | case1 acc hempty => simp at h
  | case2 acc hempty =>
    obtain ⟨rfl, hline, rfl⟩ : before = [] ∧ acc.reverse = line ∧ after = [] := by
      cases before with
      | nil => simpa using h
      | cons b before => simp at h
    exact ⟨[], [], by simp [hline], fun _ => rfl⟩
  | case3 acc r ih =>
    cases before with
    | nil =>
      obtain ⟨rfl, rfl⟩ := List.cons.inj h
      refine ⟨[], '\r' :: '\n' :: r, by simp, fun hafter => ?_⟩
      have hr : isBlank r = true := splitlinesAux_blank hafter
      have hret : isSpace '\r' = true ∧ isSpace '\n' = true := by decide
      simpa [isBlank, hret] using hr
    | cons b before =>
      obtain ⟨front, back, heq, hblank⟩ := ih (List.cons.inj h).2
      rw [List.reverse_nil, List.nil_append] at heq
      exact ⟨acc.reverse ++ '\r' :: '\n' :: front, back, by simp [heq], hblank⟩
  | case4 acc c r hc hb ih =>
    cases before with
    | nil =>
      obtain ⟨rfl, rfl⟩ := List.cons.inj h
      refine ⟨[], c :: r, by simp, fun hafter => ?_⟩
      have hr : isBlank r = true := splitlinesAux_blank hafter
      simpa [isBlank, isSpace_of_isBoundary hb] using hr
    | cons b before =>
      obtain ⟨front, back, heq, hblank⟩ := ih (List.cons.inj h).2
      rw [List.reverse_nil, List.nil_append] at heq
      exact ⟨acc.reverse ++ c :: front, back, by simp [heq], hblank⟩
  | case5 acc c r hc hb ih =>
    obtain ⟨front, back, heq, hblank⟩ := ih h
    exact ⟨front, back, by simpa using heq, hblank⟩

/-- A line stands in the text; where all lines behind it are blank, the text behind it is. -/
theorem splitlines_eq {text : List Char} {before after : List Line} {line : Line}
    (h : splitlines text = before ++ line :: after) :
    ∃ front back, text = front ++ line ++ back ∧ ((∀ l ∈ after, isBlank l = true) → isBlank back = true) :=
  splitlinesAux_eq h

private theorem splitlinesAux_boundary {acc text : List Char} (hacc : ∀ c ∈ acc, isBoundary c = false) {line : Line}
    (h : line ∈ splitlinesAux acc text) : ∀ c ∈ line, isBoundary c = false := by
  fun_induction splitlinesAux acc text with
  | case1 acc hempty => cases h
  | case2 acc hempty =>
    obtain rfl := List.mem_singleton.1 h
    exact fun c hc => hacc c (List.mem_reverse.1 hc)
  | case3 acc r ih =>
    rcases List.mem_cons.1 h with rfl | h
    · exact fun c hc => hacc c (List.mem_reverse.1 hc)
    · exact ih (fun c hc => absurd hc List.not_mem_nil) h
  | case4 acc c r hc hb ih =>
    rcases List.mem_cons.1 h with rfl | h
    · exact fun c hc => hacc c (List.mem_reverse.1 hc)
    · exact ih (fun c hc => absurd hc List.not_mem_nil) h
  | case5 acc c r hc hb ih =>
    apply ih _ h
    intro d hd
    rcases List.mem_cons.1 hd with rfl | hd
    · simpa using hb
    · exact hacc d hd

/-- A line contains no line boundary. -/
theorem splitlines_boundary {text : List Char} {line : Line} (h : line ∈ splitlines text) :
    ∀ c ∈ line, isBoundary c = false :=
  splitlinesAux_boundary (fun _ hc => absurd hc List.not_mem_nil) h

end TextLines
