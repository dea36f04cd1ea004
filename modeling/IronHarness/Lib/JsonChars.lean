import IronHarness.Lib.JsonRoundTrip

/-!
# The characters of a printed value

A printed value contains no control character, so it is one line (`dumps_no_control`), and the characters beyond ASCII
in it are those of its strings and keys, unescaped (`dumps_any`).
-/

namespace JsonText

variable {F : Type}

/-! ### A printed value is one line -/

/-- Not a control character. -/
def Printable (cs : List Char) : Prop := ∀ c ∈ cs, 0x20 ≤ c.toNat

private theorem printable_append {a b : List Char} (ha : Printable a) (hb : Printable b) : Printable (a ++ b) := by
  intro c hc
  rcases List.mem_append.1 hc with hc | hc
  · exact ha c hc
  · exact hb c hc

private theorem printable_cons {c : Char} {cs : List Char} (hc : 0x20 ≤ c.toNat) (h : Printable cs) :
    Printable (c :: cs) := by
  intro d hd
  rcases List.mem_cons.1 hd with rfl | hd
  · exact hc
  · exact h d hd

private theorem printable_nil : Printable [] := by intro c hc; cases hc

private theorem printable_of_all {cs : List Char} (h : cs.all (fun c => decide (0x20 ≤ c.toNat)) = true) :
    Printable cs := by
  intro c hc
  rw [List.all_eq_true] at h
  exact of_decide_eq_true (h c hc)

private theorem printable_digits {ds : List Char} (h : allDigits ds = true) : Printable ds := by
  intro c hc
  have hd : c.isDigit = true := by
    rw [allDigits, List.all_eq_true] at h
    exact h c hc
  have h48 : '0'.toNat ≤ c.toNat := by
    simp only [Char.isDigit, Bool.and_eq_true, decide_eq_true_eq] at hd
    exact hd.1
  exact Nat.le_trans (by decide) h48

private theorem printable_text {l : NumLit} (h : l.valid = true) : Printable l.text := by
  obtain ⟨h1, -, -, h4, h5⟩ := NumLit.valid_parts h
  rw [NumLit.text_eq]
  refine printable_append ?_ (printable_append (printable_digits h1) (printable_append ?_ ?_))
  · cases l.neg with
    | true => exact printable_cons (by decide) printable_nil
    | false => exact printable_nil
  · cases hf : l.frac with
    | none => exact printable_nil
    | some ds => exact printable_cons (by decide) (printable_digits (h4 ds hf).1)
  · cases he : l.exp with
    | none => exact printable_nil
    | some x =>
      obtain ⟨hletter, hsign, hd, -⟩ := h5 x he
      refine printable_cons ?_ (printable_append ?_ (printable_digits hd))
      · rcases hletter with h | h <;> rw [h] <;> decide
      · rcases hsign with h | h | h <;> rw [h]
        · exact printable_nil
        · exact printable_cons (by decide) printable_nil
        · exact printable_cons (by decide) printable_nil

private theorem printable_escape (c : Char) : Printable (escape c) := by
  by_cases hc : c.toNat < 0x20
  · have hall : ∀ n < 0x20, (escape (Char.ofNat n)).all (fun d => decide (0x20 ≤ d.toNat)) = true := by decide
    have h := hall c.toNat hc
    rw [Char.ofNat_toNat] at h
    exact printable_of_all h
  · unfold escape
    repeat' split
    all_goals intro d hd
    all_goals simp only [List.mem_cons, List.not_mem_nil, or_false] at hd
    any_goals (rcases hd with rfl | rfl <;> decide)
    rw [hd]
    omega

private theorem printable_quote (s : String) : Printable (quote s) := by
  refine printable_cons (by decide) (printable_append ?_ (printable_cons (by decide) printable_nil))
  intro c hc
  obtain ⟨d, -, hd⟩ := List.mem_flatMap.1 hc
  exact printable_escape d c hd

mutual

/-- A printed value contains no control character. -/
theorem dumps_no_control [JsonFloat F] (v : Value F) : Printable (dumps v) := by
  match v with
  | .null => rw [dumps]; exact printable_of_all (by decide)
  | .bool true => rw [dumps]; exact printable_of_all (by decide)
  | .bool false => rw [dumps]; exact printable_of_all (by decide)
  | .int n => exact printable_text (intLit_valid n)
  | .float x =>
    rw [dumps]
    have hvalid := JsonFloat.lit_valid x
    cases hl : JsonFloat.lit x with
    | nan => exact printable_of_all (by decide)
    | inf neg => cases neg <;> exact printable_of_all (by decide)
    | num l =>
      rw [hl, FloatLit.valid, Bool.and_eq_true] at hvalid
      exact printable_text hvalid.1
  | .str s => exact printable_quote s
  | .arr [] => exact printable_cons (by decide) (printable_cons (by decide) printable_nil)
  | .arr (w :: ws) =>
    exact printable_cons (by decide) (printable_append (dumps_no_control w) (dumpsElems_no_control ws))
  | .obj [] => exact printable_cons (by decide) (printable_cons (by decide) printable_nil)
  | .obj ((k, w) :: fs) =>
    refine printable_cons (by decide) (printable_append (printable_quote k) ?_)
    refine printable_cons (by decide) (printable_cons (by decide) ?_)
    exact printable_append (dumps_no_control w) (dumpsFields_no_control fs)

private theorem dumpsElems_no_control [JsonFloat F] (vs : List (Value F)) : Printable (dumpsElems vs) := by
  match vs with
  | [] => exact printable_cons (by decide) printable_nil
  | w :: ws =>
    refine printable_cons (by decide) (printable_cons (by decide) ?_)
    exact printable_append (dumps_no_control w) (dumpsElems_no_control ws)

private theorem dumpsFields_no_control [JsonFloat F] (fs : List (String × Value F)) :
    Printable (dumpsFields fs) := by
  match fs with
  | [] => exact printable_cons (by decide) printable_nil
  | (k, w) :: fs =>
    refine printable_cons (by decide) (printable_cons (by decide) (printable_append (printable_quote k) ?_))
    refine printable_cons (by decide) (printable_cons (by decide) ?_)
    exact printable_append (dumps_no_control w) (dumpsFields_no_control fs)

end

/-! ### Characters beyond ASCII -/

/-- Some character of a string or a key has the property. -/
def Value.anyChar (p : Char → Bool) : Value F → Bool
  | .str s => s.toList.any p
  | .arr items => elemsAny items
  | .obj fields => fieldsAny fields
  | _ => false
where
  elemsAny : List (Value F) → Bool
    | [] => false
    | v :: vs => v.anyChar p || elemsAny vs
  fieldsAny : List (String × Value F) → Bool
    | [] => false
    | (k, v) :: fs => k.toList.any p || v.anyChar p || fieldsAny fs

section BeyondAscii

variable {p : Char → Bool} (hp : ∀ c, c.toNat < 0x80 → p c = false)

include hp

private theorem any_ascii {cs : List Char} (h : cs.all (fun c => decide (c.toNat < 0x80)) = true) :
    cs.any p = false := by
  rw [List.all_eq_true] at h
  rw [List.any_eq_false]
  intro c hc
  rw [hp c (of_decide_eq_true (h c hc))]
  exact Bool.false_ne_true

private theorem any_digits {ds : List Char} (h : allDigits ds = true) : ds.any p = false := by
  refine any_ascii hp ?_
  rw [List.all_eq_true]
  intro c hc
  have hd : c.isDigit = true := by
    rw [allDigits, List.all_eq_true] at h
    exact h c hc
  have h57 : c.toNat ≤ '9'.toNat := by
    simp only [Char.isDigit, Bool.and_eq_true, decide_eq_true_eq] at hd
    exact hd.2
  exact decide_eq_true (Nat.lt_of_le_of_lt h57 (by decide))

private theorem any_text {l : NumLit} (h : l.valid = true) : l.text.any p = false := by
  obtain ⟨h1, -, -, h4, h5⟩ := NumLit.valid_parts h
  have hsign : (if l.neg then ['-'] else []).any p = false := by
    refine any_ascii hp ?_
    cases l.neg with
    | true => decide
    | false => decide
  have hfrac : (fracText l.frac).any p = false := by
    cases hf : l.frac with
    | none => rfl
    | some ds =>
      rw [fracText, List.any_cons, hp '.' (by decide), any_digits hp (h4 ds hf).1]
      rfl
  have hexp : (expText l.exp).any p = false := by
    cases he : l.exp with
    | none => rfl
    | some x =>
      obtain ⟨hletter, hs, hd, -⟩ := h5 x he
      have h1 : p x.1 = false := by
        rcases hletter with h | h
        · rw [h]; exact hp 'e' (by decide)
        · rw [h]; exact hp 'E' (by decide)
      have h2 : x.2.1.toList.any p = false := by
        refine any_ascii hp ?_
        rcases hs with h | h | h
        · rw [h]; decide
        · rw [h]; decide
        · rw [h]; decide
      rw [expText, List.any_cons, List.any_append, h1, h2, any_digits hp hd]
      rfl
  rw [NumLit.text_eq, List.any_append, List.any_append, List.any_append, hsign, any_digits hp h1, hfrac, hexp]
  rfl

private theorem any_escape (c : Char) : (escape c).any p = p c := by
  by_cases hc : c.toNat < 0x80
  · have hall : ∀ n < 0x80, (escape (Char.ofNat n)).all (fun d => decide (d.toNat < 0x80)) = true := by decide
    have h := hall c.toNat hc
    rw [Char.ofNat_toNat] at h
    rw [any_ascii hp h, hp c hc]
  · have hself : escape c = [c] := by
      have hne : ∀ d : Char, d.toNat < 0x80 → c ≠ d := by
        rintro d hd rfl
        exact hc hd
      rw [escape, if_neg (hne _ (by decide)), if_neg (hne _ (by decide)), if_neg (hne _ (by decide)),
        if_neg (hne _ (by decide)), if_neg (hne _ (by decide)), if_neg (hne _ (by decide)),
        if_neg (hne _ (by decide)), if_neg (by omega)]
    rw [hself]
    exact Bool.or_false _

private theorem any_quote (s : String) : (quote s).any p = s.toList.any p := by
  have hflat : ∀ cs : List Char, (cs.flatMap escape).any p = cs.any p := by
    intro cs
    induction cs with
    | nil => rfl
    | cons c cs ih => rw [List.flatMap_cons, List.any_append, any_escape hp, ih, List.any_cons]
  rw [quote, List.any_cons, List.any_append, hflat, hp '"' (by decide)]
  simp [hp '"' (by decide)]

mutual

/-- A character beyond ASCII is in the text of a value where it is in a string or a key of it. -/
theorem dumps_any [JsonFloat F] (v : Value F) : (dumps v).any p = v.anyChar p := by
  match v with
  | .null => rw [dumps]; exact any_ascii hp (by decide)
  | .bool true => rw [dumps]; exact any_ascii hp (by decide)
  | .bool false => rw [dumps]; exact any_ascii hp (by decide)
  | .int n => exact any_text hp (intLit_valid n)
  | .float x =>
    rw [dumps]
    have hvalid := JsonFloat.lit_valid x
    cases hl : JsonFloat.lit x with
    | nan => exact any_ascii hp (by decide)
    | inf neg => cases neg <;> exact any_ascii hp (by decide)
    | num l =>
      rw [hl, FloatLit.valid, Bool.and_eq_true] at hvalid
      exact any_text hp hvalid.1
  | .str s => exact any_quote hp s
  | .arr [] => rw [dumps]; exact any_ascii hp (by decide)
  | .arr (w :: ws) =>
    rw [dumps, List.any_cons, List.any_append, hp '[' (by decide), dumps_any w, dumpsElems_any ws]
    rfl
  | .obj [] => rw [dumps]; exact any_ascii hp (by decide)
  | .obj ((k, w) :: fs) =>
    rw [dumps, List.any_cons, List.any_append, List.any_cons, List.any_cons, List.any_append,
      hp '{' (by decide), hp ':' (by decide), hp ' ' (by decide), any_quote hp k, dumps_any w, dumpsFields_any fs]
    simp [Value.anyChar, Value.anyChar.fieldsAny, Bool.or_assoc]

private theorem dumpsElems_any [JsonFloat F] (vs : List (Value F)) :
    (dumpsElems vs).any p = Value.anyChar.elemsAny p vs := by
  match vs with
  | [] => rw [dumpsElems]; exact any_ascii hp (by decide)
  | w :: ws =>
    rw [dumpsElems, List.any_cons, List.any_cons, List.any_append, hp ',' (by decide), hp ' ' (by decide),
      dumps_any w, dumpsElems_any ws]
    rfl

private theorem dumpsFields_any [JsonFloat F] (fs : List (String × Value F)) :
    (dumpsFields fs).any p = Value.anyChar.fieldsAny p fs := by
  match fs with
  | [] => rw [dumpsFields]; exact any_ascii hp (by decide)
  | (k, w) :: fs =>
    rw [dumpsFields, List.any_cons, List.any_cons, List.any_append, List.any_cons, List.any_cons, List.any_append,
      hp ',' (by decide), hp ':' (by decide), hp ' ' (by decide), any_quote hp k, dumps_any w, dumpsFields_any fs]
    simp [Value.anyChar.fieldsAny, Bool.or_assoc]

end

end BeyondAscii

end JsonText
