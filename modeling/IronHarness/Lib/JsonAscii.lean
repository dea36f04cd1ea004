import IronHarness.Lib.JsonCut
import Mathlib.Tactic.FinCases

/-!
# JSON texts in ASCII

`json.dumps` as it escapes every character beyond printable ASCII.  A text that starts inside a string literal of a
printed value and goes on to its end is no JSON text that starts with a brace (`loads_rest_eq_none`): it has an odd
number of quotes.
-/

namespace JsonText

variable {F : Type}

/-! ### The printer -/

/-- `\uXXXX` -/
def escapeCode (n : Nat) : List Char :=
  ['\\', 'u', Nat.digitChar (n / 4096 % 16), Nat.digitChar (n / 256 % 16), Nat.digitChar (n / 16 % 16),
    Nat.digitChar (n % 16)]

/-- One character inside a string literal (`ensure_ascii=True`); beyond the basic plane, a pair of surrogates. -/
def escapeAscii (c : Char) : List Char :=
  if c.toNat < 0x7F then escape c
  else if c.toNat < 0x10000 then escapeCode c.toNat
  else escapeCode (0xD800 + (c.toNat - 0x10000) / 0x400) ++ escapeCode (0xDC00 + (c.toNat - 0x10000) % 0x400)

def quoteAscii (s : String) : List Char := '"' :: (s.toList.flatMap escapeAscii ++ ['"'])

mutual

/-- `json.dumps(value)`. -/
def dumpsAscii [JsonFloat F] : Value F → List Char
  | .null => "null".toList
  | .bool true => "true".toList
  | .bool false => "false".toList
  | .int n => (intLit n).text
  | .float x => (JsonFloat.lit x).text
  | .str s => quoteAscii s
  | .arr [] => ['[', ']']
  | .arr (v :: vs) => '[' :: (dumpsAscii v ++ dumpsAsciiElems vs)
  | .obj [] => ['{', '}']
  | .obj ((k, v) :: fs) => '{' :: (quoteAscii k ++ (':' :: ' ' :: (dumpsAscii v ++ dumpsAsciiFields fs)))

def dumpsAsciiElems [JsonFloat F] : List (Value F) → List Char
  | [] => [']']
  | v :: vs => ',' :: ' ' :: (dumpsAscii v ++ dumpsAsciiElems vs)

def dumpsAsciiFields [JsonFloat F] : List (String × Value F) → List Char
  | [] => ['}']
  | (k, v) :: fs => ',' :: ' ' :: (quoteAscii k ++ (':' :: ' ' :: (dumpsAscii v ++ dumpsAsciiFields fs)))

end

private theorem dumpsAsciiFields_last [JsonFloat F] (fields : List (String × Value F)) :
    ∃ t, dumpsAsciiFields fields = t ++ ['}'] := by
  induction fields with
  | nil => exact ⟨[], rfl⟩
  | cons f fs ih =>
    obtain ⟨k, v⟩ := f
    obtain ⟨t, ht⟩ := ih
    exact ⟨',' :: ' ' :: (quoteAscii k ++ (':' :: ' ' :: (dumpsAscii v ++ t))), by rw [dumpsAsciiFields, ht]; simp⟩

theorem dumpsAscii_obj_last [JsonFloat F] (fields : List (String × Value F)) :
    ∃ t, dumpsAscii (.obj fields) = t ++ ['}'] := by
  cases fields with
  | nil => exact ⟨['{'], rfl⟩
  | cons f fs =>
    obtain ⟨k, v⟩ := f
    obtain ⟨t, ht⟩ := dumpsAsciiFields_last fs
    exact ⟨'{' :: (quoteAscii k ++ (':' :: ' ' :: (dumpsAscii v ++ t))), by rw [dumpsAscii, ht]; simp⟩

/-! ### Where a character stands -/

/-- A character the printer puts outside the literals, other than a quote. -/
def isOuter (c : Char) : Bool :=
  c.isDigit || ['{', '}', '[', ']', ',', ':', ' ', '-', '+', '.', 'e', 'E', 'n', 'u', 'l', 't', 'r', 'f', 'a', 's', 'N', 'I',
    'i', 'y'].contains c

/-- The text reads as a part of a value in ASCII that begins in the phase. -/
def printed : Phase → List Char → Bool
  | _, [] => true
  | .inside, c :: r =>
    if c = '"' then closes r && printed .outside r
    else if c = '\\' then printed .escaped r
    else decide (0x20 ≤ c.toNat) && printed .inside r
  | .escaped, c :: r => decide (0x20 ≤ c.toNat) && printed .inside r
  | .outside, c :: r => if c = '"' then printed .inside r else isOuter c && printed .outside r

private theorem isOuter_spec {c : Char} (h : isOuter c = true) :
    0x20 ≤ c.toNat ∧ c.toNat < 0x80 ∧ c ≠ '\\' ∧ c ≠ '"' := by
  unfold isOuter at h
  rw [Bool.or_eq_true] at h
  rcases h with h | h
  · have hnumber : isNumberChar c = true := by simp [isNumberChar, h]
    obtain ⟨⟨hquote, hback⟩, hascii⟩ := numberChar hnumber
    have hlow : 48 ≤ c.toNat := by
      rw [Char.isDigit, Bool.and_eq_true, decide_eq_true_eq] at h
      exact UInt32.le_iff_toNat_le.1 h.1
    exact ⟨by omega, hascii, hback, hquote⟩
  · rw [List.contains_iff_mem] at h
    fin_cases h <;> decide

theorem fits_of_printed {ph : Phase} {t : List Char} (h : printed ph t = true) : fits ph t = true := by
  induction t generalizing ph with
  | nil => cases ph <;> rfl
  | cons c r ih =>
    cases ph with
    | inside =>
      rw [printed] at h
      rw [fits]
      by_cases hquote : c = '"'
      · rw [if_pos hquote, Bool.and_eq_true] at h ⊢
        exact ⟨h.1, ih h.2⟩
      · rw [if_neg hquote] at h ⊢
        by_cases hback : c = '\\'
        · rw [if_pos hback] at h ⊢
          exact ih h
        · rw [if_neg hback] at h ⊢
          rw [Bool.and_eq_true] at h
          exact ih h.2
    | escaped =>
      rw [printed, Bool.and_eq_true] at h
      exact ih h.2
    | outside =>
      rw [printed] at h
      rw [fits]
      by_cases hquote : c = '"'
      · rw [if_pos hquote] at h ⊢
        exact ih h
      · rw [if_neg hquote, Bool.and_eq_true] at h ⊢
        obtain ⟨-, hascii, hback, -⟩ := isOuter_spec h.1
        exact ⟨decide_eq_true ⟨hascii, hback⟩, ih h.2⟩

/-- What follows in the text begins in some phase, too. -/
theorem printed_append {ph : Phase} {a b : List Char} (h : printed ph (a ++ b) = true) : ∃ ph', printed ph' b = true := by
  induction a generalizing ph with
  | nil => exact ⟨ph, h⟩
  | cons c a ih =>
    rw [List.cons_append] at h
    cases ph with
    | inside =>
      rw [printed] at h
      split at h
      · rw [Bool.and_eq_true] at h
        exact ih h.2
      · split at h
        · exact ih h
        · rw [Bool.and_eq_true] at h
          exact ih h.2
    | escaped =>
      rw [printed, Bool.and_eq_true] at h
      exact ih h.2
    | outside =>
      rw [printed] at h
      split at h
      · exact ih h
      · rw [Bool.and_eq_true] at h
        exact ih h.2

theorem visible_of_printed {ph : Phase} {t : List Char} (h : printed ph t = true) : ∀ c ∈ t, 0x20 ≤ c.toNat := by
  intro c hc
  obtain ⟨a, b, rfl⟩ := List.append_of_mem hc
  obtain ⟨ph', h'⟩ := printed_append h
  cases ph' with
  | inside =>
    rw [printed] at h'
    split at h'
    · rename_i hquote
      rw [hquote]
      decide
    · split at h'
      · rename_i hback
        rw [hback]
        decide
      · rw [Bool.and_eq_true, decide_eq_true_eq] at h'
        exact h'.1
  | escaped =>
    rw [printed, Bool.and_eq_true, decide_eq_true_eq] at h'
    exact h'.1
  | outside =>
    rw [printed] at h'
    split at h'
    · rename_i hquote
      rw [hquote]
      decide
    · rw [Bool.and_eq_true] at h'
      exact (isOuter_spec h'.1).1

/-! ### Printed values -/

private theorem printed_outer {w : List Char} (hw : ∀ c ∈ w, isOuter c = true) (r : List Char) :
    printed .outside (w ++ r) = printed .outside r := by
  induction w with
  | nil => rfl
  | cons c w ih =>
    have hc := hw c List.mem_cons_self
    rw [List.cons_append, printed, if_neg (isOuter_spec hc).2.2.2, hc, Bool.true_and]
    exact ih fun d hd => hw d (List.mem_cons_of_mem c hd)

private theorem printed_inside_bare {w : List Char} (hw : ∀ c ∈ w, c ≠ '"' ∧ c ≠ '\\' ∧ 0x20 ≤ c.toNat)
    (r : List Char) :
    printed .inside (w ++ r) = printed .inside r := by
  induction w with
  | nil => rfl
  | cons c w ih =>
    obtain ⟨hquote, hback, hvisible⟩ := hw c List.mem_cons_self
    rw [List.cons_append, printed, if_neg hquote, if_neg hback, decide_eq_true hvisible, Bool.true_and]
    exact ih fun d hd => hw d (List.mem_cons_of_mem c hd)

private theorem digitChar_visible {n : Nat} (h : n < 16) :
    Nat.digitChar n ≠ '"' ∧ Nat.digitChar n ≠ '\\' ∧ 0x20 ≤ (Nat.digitChar n).toNat := by
  revert n
  decide

private theorem printed_escapeCode (n : Nat) (r : List Char) :
    printed .inside (escapeCode n ++ r) = printed .inside r := by
  have hdigits : ∀ c ∈ [Nat.digitChar (n / 4096 % 16), Nat.digitChar (n / 256 % 16), Nat.digitChar (n / 16 % 16),
      Nat.digitChar (n % 16)], c ≠ '"' ∧ c ≠ '\\' ∧ 0x20 ≤ c.toNat := by
    intro c hc
    simp only [List.mem_cons, List.not_mem_nil, or_false] at hc
    rcases hc with rfl | rfl | rfl | rfl
    all_goals exact digitChar_visible (Nat.mod_lt _ (by decide))
  rw [← printed_inside_bare hdigits r]
  rfl

private theorem printed_escape {c : Char} (hc : c.toNat < 0x7F) (r : List Char) :
    printed .inside (escape c ++ r) = printed .inside r := by
  have hpair : ∀ d : Char, 0x20 ≤ d.toNat → printed .inside (['\\', d] ++ r) = printed .inside r := by
    intro d hd
    show printed .inside ('\\' :: d :: r) = _
    rw [printed, if_neg (by decide), if_pos rfl, printed, decide_eq_true hd, Bool.true_and]
  unfold escape
  by_cases hquote : c = '"'
  · rw [if_pos hquote, hpair _ (by decide)]
  by_cases hback : c = '\\'
  · rw [if_neg hquote, if_pos hback, hpair _ (by decide)]
  rw [if_neg hquote, if_neg hback]
  iterate 5
    split
    · exact hpair _ (by decide)
  split
  · have hcode : ['\\', 'u', '0', '0', Nat.digitChar (c.toNat / 16), Nat.digitChar (c.toNat % 16)] = escapeCode c.toNat := by
      have h1 : c.toNat / 4096 % 16 = 0 := by omega
      have h2 : c.toNat / 256 % 16 = 0 := by omega
      have h3 : c.toNat / 16 % 16 = c.toNat / 16 := by omega
      rw [escapeCode, h1, h2, h3]
      rfl
    rw [hcode, printed_escapeCode]
  · rename_i hvisible
    have hself : ∀ d ∈ [c], d ≠ '"' ∧ d ≠ '\\' ∧ 0x20 ≤ d.toNat := by
      intro d hd
      obtain rfl := List.mem_singleton.1 hd
      exact ⟨hquote, hback, by omega⟩
    exact printed_inside_bare hself r

private theorem printed_escapeAscii (c : Char) (r : List Char) :
    printed .inside (escapeAscii c ++ r) = printed .inside r := by
  unfold escapeAscii
  split
  · rename_i hc
    exact printed_escape hc r
  · split
    · exact printed_escapeCode _ r
    · rw [List.append_assoc, printed_escapeCode, printed_escapeCode]

private theorem printed_quoteAscii {s : String} {r : List Char} (hr : closes r = true) (h : printed .outside r = true) :
    printed .outside (quoteAscii s ++ r) = true := by
  have hbody : ∀ cs : List Char, printed .inside (cs.flatMap escapeAscii ++ ('"' :: r)) = true := by
    intro cs
    induction cs with
    | nil =>
      rw [List.flatMap_nil, List.nil_append, printed, if_pos rfl, hr, h]
      rfl
    | cons c cs ih => rw [List.flatMap_cons, List.append_assoc, printed_escapeAscii, ih]
  rw [quoteAscii, List.cons_append, printed, if_pos rfl, List.append_assoc]
  exact hbody _

private theorem printed_closer {c : Char} {r : List Char} (hc : isOuter c = true) (h : printed .outside r = true) :
    printed .outside (c :: r) = true := by
  rw [printed, if_neg (isOuter_spec hc).2.2.2, hc, h]
  rfl

private theorem closes_dumpsAsciiElems [JsonFloat F] (vs : List (Value F)) (r : List Char) :
    closes (dumpsAsciiElems vs ++ r) = true := by
  cases vs <;> rfl

private theorem closes_dumpsAsciiFields [JsonFloat F] (fs : List (String × Value F)) (r : List Char) :
    closes (dumpsAsciiFields fs ++ r) = true := by
  cases fs <;> rfl

private theorem outer_text {l : NumLit} (h : l.valid = true) : ∀ c ∈ l.text, isOuter c = true := by
  intro c hc
  have hnumber := text_numberChars h c hc
  unfold isNumberChar at hnumber
  rw [Bool.or_eq_true] at hnumber
  rcases hnumber with hdigit | hsign
  · simp [isOuter, hdigit]
  · rw [List.contains_iff_mem] at hsign
    fin_cases hsign <;> decide

mutual

theorem printed_dumpsAscii [JsonFloat F] (v : Value F) {r : List Char} (hr : closes r = true)
    (h : printed .outside r = true) : printed .outside (dumpsAscii v ++ r) = true := by
  have hword : ∀ w : List Char, w.all isOuter = true → printed .outside (w ++ r) = true := by
    intro w hw
    rw [printed_outer (List.all_eq_true.1 hw), h]
  have hnumber : ∀ l : NumLit, l.valid = true → printed .outside (l.text ++ r) = true := by
    intro l hl
    rw [printed_outer (outer_text hl), h]
  match v with
  | .null => exact hword "null".toList (by decide)
  | .bool true => exact hword "true".toList (by decide)
  | .bool false => exact hword "false".toList (by decide)
  | .int n => exact hnumber _ (intLit_valid n)
  | .float x =>
    rw [dumpsAscii]
    have hvalid := JsonFloat.lit_valid x
    cases hl : JsonFloat.lit x with
    | nan => exact hword _ (by decide)
    | inf neg => cases neg <;> exact hword _ (by decide)
    | num l =>
      rw [hl, FloatLit.valid, Bool.and_eq_true] at hvalid
      exact hnumber l hvalid.1
  | .str s => exact printed_quoteAscii hr h
  | .arr [] => exact hword ['[', ']'] (by decide)
  | .arr (w :: ws) =>
    rw [dumpsAscii, List.cons_append, List.append_assoc]
    exact printed_closer (by decide) (printed_dumpsAscii w (closes_dumpsAsciiElems ws r) (printed_dumpsAsciiElems ws h))
  | .obj [] => exact hword ['{', '}'] (by decide)
  | .obj ((k, w) :: fs) =>
    rw [dumpsAscii, List.cons_append, List.append_assoc, List.cons_append, List.cons_append, List.append_assoc]
    refine printed_closer (by decide) (printed_quoteAscii rfl ?_)
    exact printed_closer (by decide) (printed_closer (by decide)
      (printed_dumpsAscii w (closes_dumpsAsciiFields fs r) (printed_dumpsAsciiFields fs h)))

private theorem printed_dumpsAsciiElems [JsonFloat F] (vs : List (Value F)) {r : List Char}
    (h : printed .outside r = true) :
    printed .outside (dumpsAsciiElems vs ++ r) = true := by
  match vs with
  | [] => exact printed_closer (by decide) h
  | w :: ws =>
    rw [dumpsAsciiElems, List.cons_append, List.cons_append, List.append_assoc]
    exact printed_closer (by decide) (printed_closer (by decide)
      (printed_dumpsAscii w (closes_dumpsAsciiElems ws r) (printed_dumpsAsciiElems ws h)))

private theorem printed_dumpsAsciiFields [JsonFloat F] (fs : List (String × Value F)) {r : List Char}
    (h : printed .outside r = true) : printed .outside (dumpsAsciiFields fs ++ r) = true := by
  match fs with
  | [] => exact printed_closer (by decide) h
  | (k, w) :: fs =>
    rw [dumpsAsciiFields, List.cons_append, List.cons_append, List.append_assoc, List.cons_append, List.cons_append,
      List.append_assoc]
    refine printed_closer (by decide) (printed_closer (by decide) (printed_quoteAscii rfl ?_))
    exact printed_closer (by decide) (printed_closer (by decide)
      (printed_dumpsAscii w (closes_dumpsAsciiFields fs r) (printed_dumpsAsciiFields fs h)))

end

/-! ### The rest of a value from inside a literal -/

/-- A text that may follow a value, but not the rest of a literal. -/
def nextKey : List Char := [',', '"', 'x']

/-- A word with a character that never stands outside is inside a literal. -/
theorem inside_of_word {ph : Phase} {word r : List Char} (hbare : Bare word)
    (hword : ∃ c ∈ word.tail, isOuter c = false) (h : printed ph (word ++ r) = true) : printed .inside r = true := by
  have hinside : ∀ w : List Char, Bare w → printed .inside (w ++ r) = true → printed .inside r = true := by
    intro w hw hprinted
    have hvisible := visible_of_printed hprinted
    rwa [printed_inside_bare] at hprinted
    intro c hc
    exact ⟨(hw c hc).1, (hw c hc).2, hvisible c (List.mem_append_left r hc)⟩
  cases word with
  | nil =>
    obtain ⟨c, hc, -⟩ := hword
    cases hc
  | cons d word =>
    have htail : Bare word := fun c hc => hbare c (List.mem_cons_of_mem d hc)
    cases ph with
    | inside => exact hinside _ hbare h
    | escaped =>
      rw [List.cons_append, printed, Bool.and_eq_true] at h
      exact hinside word htail h.2
    | outside =>
      obtain ⟨c, hc, hinner⟩ := hword
      have houter : ∀ w : List Char, Bare w → printed .outside (w ++ r) = true → ∀ c ∈ w, isOuter c = true := by
        intro w hw hprinted
        induction w with
        | nil => exact List.forall_mem_nil _
        | cons e w ih =>
          rw [List.cons_append, printed, if_neg (hw e List.mem_cons_self).1, Bool.and_eq_true] at hprinted
          exact List.forall_mem_cons.2 ⟨hprinted.1, ih (fun c hc => hw c (List.mem_cons_of_mem e hc)) hprinted.2⟩
      have hc' := houter _ hbare h c (List.mem_cons_of_mem d hc)
      rw [hinner] at hc'
      cases hc'

/-- What follows in a value from inside a literal is not read as a value in braces. -/
theorem loads_rest_eq_none [JsonFloat F] {s : List Char} (h : fits .inside ('{' :: s ++ nextKey) = true) :
    (loads ('{' :: s) : Option (Value F)) = none := by
  rw [Option.eq_none_iff_forall_ne_some]
  intro v hv
  obtain ⟨⟨w, r⟩, hscan, hend⟩ := Option.bind_eq_some_iff.1 hv
  rw [skipWs_cons_of_ne (by decide)] at hscan
  dsimp only at hend
  split at hend
  · rename_i hspace
    have hext := (scan_append (Nat.le_refl _) nextKey).1 _ _ _ hscan (Or.inl ⟨'{', rfl, Or.inr (Or.inr rfl)⟩)
    have hrest := fits_skipWs ((fits_scan _).1 _ _ _ h hext).1
    have hskip : skipWs (r ++ nextKey) = nextKey := by
      have hall : r.dropWhile isWs = [] := List.isEmpty_iff.1 hspace
      rw [skipWs, List.dropWhile_append, hall]
      rfl
    rw [hskip] at hrest
    exact absurd hrest (by decide)
  · cases hend

end JsonText
