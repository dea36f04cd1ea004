import IronHarness.Lib.Literal

/-!
# The string literals of a command

The string literals in a line of source, in order, as a reader of the language finds them: text up to a quote, the
literal up to the quote that closes it, and so on.  A literal that `repr` wrote is found whole, whatever follows it
(`literals_repr`), and text without quotes holds none.
-/

namespace PyLiteral

/-- Reads a literal behind its opening quote, with what follows the closing one. -/
def scanRest (quote : Char) : Scan → List Char → Option (PyStr × List Char)
  | _, [] => none
  | .plain, c :: r =>
    if c = quote then some ([], r)
    else if c = '\\' then scanRest quote .slash r
    else (scanRest quote .plain r).map fun (s, rest) => (ofChar c :: s, rest)
  | .slash, c :: r =>
    match escapeOf c with
    | .points s => (scanRest quote .plain r).map fun (s', rest) => (s ++ s', rest)
    | .hex left => scanRest quote (.digits left 0) r
    | .unread => none
  | .digits left acc, c :: r =>
    (JsonText.hexVal c).bind fun d =>
      match left with
      | left + 1 => scanRest quote (.digits left (acc * 16 + d)) r
      | 0 =>
        if h : acc * 16 + d < 0x110000 then
          (scanRest quote .plain r).map fun (s, rest) => (⟨acc * 16 + d, h⟩ :: s, rest)
        else none

private theorem scanRest_length {quote : Char} {st : Scan} {text rest : List Char} {s : PyStr}
    (h : scanRest quote st text = some (s, rest)) : rest.length < text.length := by
  induction text generalizing st s with
  | nil => cases st <;> simp [scanRest] at h
  | cons c r ih =>
    have hlater : ∀ {st s}, scanRest quote st r = some (s, rest) → rest.length < (c :: r).length := by
      intro st s hscan
      have := ih hscan
      simp only [List.length_cons]
      omega
    cases st with
    | plain =>
      rw [scanRest] at h
      split_ifs at h
      · cases h
        simp
      · exact hlater h
      · obtain ⟨⟨s', rest'⟩, hscan, heq⟩ := Option.map_eq_some_iff.1 h
        cases heq
        exact hlater hscan
    | slash =>
      rw [scanRest] at h
      split at h
      · obtain ⟨⟨s', rest'⟩, hscan, heq⟩ := Option.map_eq_some_iff.1 h
        cases heq
        exact hlater hscan
      · exact hlater h
      · cases h
    | digits left acc =>
      rw [scanRest] at h
      obtain ⟨d, -, h⟩ := Option.bind_eq_some_iff.1 h
      cases left with
      | succ left => exact hlater h
      | zero =>
        dsimp only at h
        split at h
        · obtain ⟨⟨s', rest'⟩, hscan, heq⟩ := Option.map_eq_some_iff.1 h
          cases heq
          exact hlater hscan
        · cases h

/-- A literal that fills its text is found in front of more text. -/
theorem scanRest_of_scan {quote : Char} {st : Scan} {text : List Char} {s : PyStr} (h : scan quote st text = some s)
    (more : List Char) : scanRest quote st (text ++ more) = some (s, more) := by
  induction text generalizing st s with
  | nil => cases st <;> simp [scan] at h
  | cons c r ih =>
    rw [List.cons_append]
    cases st with
    | plain =>
      rw [scan] at h
      rw [scanRest]
      split_ifs at h ⊢ with hquote hempty hslash
      · cases h
        rw [List.isEmpty_iff.1 hempty]
        rfl
      · exact ih h
      · obtain ⟨s', hscan, rfl⟩ := Option.map_eq_some_iff.1 h
        rw [ih hscan]
        rfl
    | slash =>
      rw [scan] at h
      rw [scanRest]
      cases hescape : escapeOf c with
      | points front =>
        rw [hescape] at h
        obtain ⟨s', hscan, rfl⟩ := Option.map_eq_some_iff.1 h
        simp [ih hscan]
      | hex left =>
        rw [hescape] at h
        exact ih h
      | unread =>
        rw [hescape] at h
        cases h
    | digits left acc =>
      rw [scan] at h
      rw [scanRest]
      obtain ⟨d, hd, h⟩ := Option.bind_eq_some_iff.1 h
      rw [hd, Option.bind_some]
      cases left with
      | succ left => exact ih h
      | zero =>
        dsimp only at h ⊢
        split at h
        · rename_i hpoint
          obtain ⟨s', hscan, rfl⟩ := Option.map_eq_some_iff.1 h
          rw [dif_pos hpoint, ih hscan]
          rfl
        · cases h

/-- A quote, and three of them at once. -/
def isQuote (c : Char) : Bool := c == '\x27' || c == '"'

/-- The strings that the literals of a line denote; `none` where a literal is not closed or not read.  Literals in
triple quotes are not read. -/
def literalsAux : Nat → List Char → Option (List PyStr)
  | 0, _ => none
  | _ + 1, [] => some []
  | n + 1, c :: r =>
    if isQuote c then
      if [c, c].isPrefixOf r then none
      else (scanRest c .plain r).bind fun (s, rest) => (literalsAux n rest).map (s :: ·)
    else literalsAux n r

def literals (line : List Char) : Option (List PyStr) := literalsAux (line.length + 1) line

private theorem literalsAux_fuel {n m : Nat} {line : List Char} (hn : line.length < n) (hm : line.length < m) :
    literalsAux n line = literalsAux m line := by
  induction n generalizing m line with
  | zero => omega
  | succ n ih =>
    obtain ⟨m, rfl⟩ : ∃ k, m = k + 1 := ⟨m - 1, by omega⟩
    cases line with
    | nil => rfl
    | cons c r =>
      simp only [List.length_cons] at hn hm
      rw [literalsAux, literalsAux, ih (show r.length < n by omega) (show r.length < m by omega)]
      split_ifs
      · rfl
      · cases hscan : scanRest c .plain r with
        | none => rfl
        | some o =>
          obtain ⟨s, rest⟩ := o
          have hlen := scanRest_length hscan
          simp only [Option.bind_some]
          rw [ih (show rest.length < n by omega) (show rest.length < m by omega)]
      · rfl

@[simp] theorem literals_nil : literals [] = some [] := rfl

private theorem literals_cons {c : Char} (h : isQuote c = false) (r : List Char) : literals (c :: r) = literals r := by
  rw [literals, literalsAux, h, if_neg Bool.false_ne_true, List.length_cons]
  rfl

/-- Text without quotes holds no literal. -/
theorem literals_append {text : List Char} (h : ∀ c ∈ text, isQuote c = false) (more : List Char) :
    literals (text ++ more) = literals more := by
  induction text with
  | nil => rfl
  | cons c text ih =>
    rw [List.cons_append, literals_cons (h c List.mem_cons_self), ih fun d hd => h d (List.mem_cons_of_mem c hd)]

/-- A literal that closes is the first one of the text from its opening quote on. -/
theorem literals_quote {quote : Char} (hquote : quote = '\x27' ∨ quote = '"') {text more : List Char} {s : PyStr}
    (htriple : [quote, quote].isPrefixOf (text ++ more) = false) (h : scan quote .plain text = some s) :
    literals (quote :: (text ++ more)) = (literals more).map (s :: ·) := by
  have hisQuote : isQuote quote = true := by rcases hquote with rfl | rfl <;> rfl
  have hscan := scanRest_of_scan h more
  have hlen := scanRest_length hscan
  rw [literals, literalsAux, if_pos hisQuote, htriple, if_neg Bool.false_ne_true, hscan, Option.bind_some]
  dsimp only
  rw [literalsAux_fuel (m := more.length + 1) (by simp only [List.length_cons]; omega) (by omega)]
  rfl

section Repr

variable {isPrintable : Char → Bool}

private theorem reprPoint_head {quote : Char} (hquote : quote = '\x27' ∨ quote = '"') (c : CodePoint) :
    ∃ x r, reprPoint isPrintable quote c = x :: r ∧ x ≠ quote := by
  have hslash : '\\' ≠ quote := by rcases hquote with rfl | rfl <;> decide
  have hescape : ∃ x r, escape c = x :: r ∧ x ≠ quote := by
    unfold escape
    split_ifs
    all_goals exact ⟨'\\', _, rfl, hslash⟩
  unfold reprPoint
  split
  · exact hescape
  · rename_i ch _
    split_ifs with hquoted htab hnewline hreturn hcontrol hascii hprintable
    · exact ⟨'\\', _, rfl, hslash⟩
    · exact ⟨'\\', _, rfl, hslash⟩
    · exact ⟨'\\', _, rfl, hslash⟩
    · exact ⟨'\\', _, rfl, hslash⟩
    · exact hescape
    · exact ⟨ch, _, rfl, fun h => hquoted (.inl h)⟩
    · exact ⟨ch, _, rfl, fun h => hquoted (.inl h)⟩
    · exact hescape

/-- A literal that `repr` wrote denotes its string, whatever follows but a quote. -/
theorem literals_repr (s : PyStr) {more : List Char} (hmore : ∀ c r, more = c :: r → isQuote c = false) :
    literals (repr isPrintable s ++ more) = (literals more).map (s :: ·) := by
  have hquote := quoteOf_cases s
  have hscan := @literalEval_repr isPrintable s
  rw [repr, literalEval, if_pos hquote] at hscan
  rw [repr, List.cons_append]
  refine literals_quote hquote ?_ hscan
  cases s with
  | nil =>
    cases more with
    | nil => rfl
    | cons c r =>
      have hc := hmore c r rfl
      have hne : quoteOf [] ≠ c := by
        rintro rfl
        exact absurd hc (by decide)
      simp [List.isPrefixOf, hne]
  | cons c s =>
    obtain ⟨x, r, hx, hne⟩ := @reprPoint_head isPrintable _ hquote c
    simp [List.isPrefixOf, hx, Ne.symm hne]

end Repr

end PyLiteral
