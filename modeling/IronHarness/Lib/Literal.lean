import IronHarness.Lib.Hex
import Mathlib.Tactic.Ring

/-!
# String literals

`repr` of a string and the string that a literal denotes (`ast.literal_eval`).  A string is a list of code points, so it
may hold lone surrogates; `repr` escapes those and the control characters, so that a literal is a text without control
characters (`repr_printable`) that denotes the string again (`literalEval_repr`).
-/

namespace PyLiteral

open ByteText (digitChar_hex)
open JsonText (hexVal)

abbrev CodePoint := Fin 0x110000

abbrev PyStr := List CodePoint

def ofChar (c : Char) : CodePoint :=
  ⟨c.toNat, by rcases c.valid with h | ⟨-, h⟩ <;> (have : c.toNat = c.val.toNat := rfl; omega)⟩

/-- The character of a code point; a surrogate has none. -/
def char? (c : CodePoint) : Option Char := if c.val.isValidChar then some (Char.ofNat c.val) else none

private theorem char?_eq_some {c : CodePoint} {ch : Char} (h : char? c = some ch) : ofChar ch = c := by
  unfold char? at h
  split at h
  · rename_i hvalid
    obtain rfl := Option.some.inj h
    have hval : (Char.ofNat c.val).toNat = c.val := by
      rw [Char.ofNat, dif_pos hvalid]
      exact UInt32.toNat_ofNatLT
    exact Fin.ext hval
  · cases h

/-! ### Writing -/

/-- The last `width` hexadecimal digits of a number. -/
def hexPad : Nat → Nat → List Char
  | 0, _ => []
  | width + 1, n => Nat.digitChar (n / 16 ^ width % 16) :: hexPad width n

/-- The numeric escape of a code point. -/
def escape (c : CodePoint) : List Char :=
  if c.val < 0x100 then '\\' :: 'x' :: hexPad 2 c.val
  else if c.val < 0x10000 then '\\' :: 'u' :: hexPad 4 c.val
  else '\\' :: 'U' :: hexPad 8 c.val

section Repr

variable (isPrintable : Char → Bool)

def reprPoint (quote : Char) (c : CodePoint) : List Char :=
  match char? c with
  | none => escape c
  | some ch =>
    if ch = quote ∨ ch = '\\' then ['\\', ch]
    else if ch = '\t' then ['\\', 't']
    else if ch = '\n' then ['\\', 'n']
    else if ch = '\r' then ['\\', 'r']
    else if ch.toNat < 0x20 ∨ ch.toNat = 0x7F then escape c
    else if ch.toNat < 0x7F then [ch]
    else if isPrintable ch then [ch]
    else escape c

/-- Single quotes, unless the string holds some and no double quotes. -/
def quoteOf (s : PyStr) : Char :=
  if s.contains (ofChar '\x27') && !s.contains (ofChar '"') then '"' else '\x27'

/-- `repr(s)`; `isPrintable` is the Unicode database behind `str.isprintable`, which is asked beyond ASCII only. -/
def repr (s : PyStr) : List Char :=
  quoteOf s :: (s.flatMap (reprPoint isPrintable (quoteOf s)) ++ [quoteOf s])

end Repr

/-! ### Reading -/

/-- Where the reader of a literal stands: between two characters, behind a backslash, or in a numeric escape with
`left + 1` digits to come. -/
inductive Scan
  | plain
  | slash
  | digits (left acc : Nat)

/-- What follows a backslash. -/
inductive Escape
  | points (s : PyStr)
  | hex (width : Nat)
  | unread

/-- The escapes of a literal.  Octal escapes, `\N` and a continued line are not read. -/
def escapeOf (c : Char) : Escape :=
  if c = '\\' ∨ c = '\x27' ∨ c = '"' then .points [ofChar c]
  else if c = 'a' then .points [7]
  else if c = 'b' then .points [8]
  else if c = 't' then .points [9]
  else if c = 'n' then .points [10]
  else if c = 'v' then .points [11]
  else if c = 'f' then .points [12]
  else if c = 'r' then .points [13]
  else if c = 'x' then .hex 1
  else if c = 'u' then .hex 3
  else if c = 'U' then .hex 7
  else if c.isDigit ∨ c = 'N' ∨ c = '\n' then .unread
  else .points [ofChar '\\', ofChar c]

/-- Reads a literal behind its opening quote; nothing may follow the closing one. -/
def scan (quote : Char) : Scan → List Char → Option PyStr
  | _, [] => none
  | .plain, c :: r =>
    if c = quote then (if r.isEmpty then some [] else none)
    else if c = '\\' then scan quote .slash r
    else (scan quote .plain r).map (ofChar c :: ·)
  | .slash, c :: r =>
    match escapeOf c with
    | .points s => (scan quote .plain r).map (s ++ ·)
    | .hex left => scan quote (.digits left 0) r
    | .unread => none
  | .digits left acc, c :: r =>
    (hexVal c).bind fun d =>
      match left with
      | left + 1 => scan quote (.digits left (acc * 16 + d)) r
      | 0 => if h : acc * 16 + d < 0x110000 then (scan quote .plain r).map (⟨acc * 16 + d, h⟩ :: ·) else none

/-- `ast.literal_eval` of a string literal; `none` is an exception. -/
def literalEval : List Char → Option PyStr
  | [] => none
  | c :: r => if c = '\x27' ∨ c = '"' then scan c .plain r else none

/-! ### Reading what was written -/

private theorem scan_hexPad (quote : Char) (c : CodePoint) (left acc : Nat) (r : List Char)
    (hacc : acc * 16 ^ (left + 1) + c.val % 16 ^ (left + 1) = c.val) :
    scan quote (.digits left acc) (hexPad (left + 1) c.val ++ r) = (scan quote .plain r).map (c :: ·) := by
  induction left generalizing acc with
  | zero =>
    obtain ⟨-, -, hdigit⟩ := digitChar_hex (n := c.val / 16 ^ 0 % 16) (by omega)
    simp only [hexPad, List.cons_append, List.nil_append, scan, hdigit, Option.bind_some]
    have hval : acc * 16 + c.val / 16 ^ 0 % 16 = c.val := by simpa using hacc
    rw [dif_pos (by rw [hval]; exact c.isLt)]
    have hc : (⟨acc * 16 + c.val / 16 ^ 0 % 16, by rw [hval]; exact c.isLt⟩ : CodePoint) = c := Fin.ext hval
    rw [hc]
  | succ left ih =>
    obtain ⟨-, -, hdigit⟩ := digitChar_hex (n := c.val / 16 ^ (left + 1) % 16) (by omega)
    rw [hexPad, List.cons_append, scan, hdigit, Option.bind_some]
    apply ih
    -- the remainder by `16 ^ (left + 2)` is the next digit and the remainder by `16 ^ (left + 1)`
    have hsplit : c.val % 16 ^ (left + 2) = 16 ^ (left + 1) * (c.val / 16 ^ (left + 1) % 16) + c.val % 16 ^ (left + 1) := by
      rw [Nat.pow_succ, Nat.mod_mul]
      omega
    rw [show left + 1 + 1 = left + 2 from rfl, hsplit, Nat.pow_succ] at hacc
    calc (acc * 16 + c.val / 16 ^ (left + 1) % 16) * 16 ^ (left + 1) + c.val % 16 ^ (left + 1)
        = acc * (16 ^ (left + 1) * 16) +
            (16 ^ (left + 1) * (c.val / 16 ^ (left + 1) % 16) + c.val % 16 ^ (left + 1)) := by ring
      _ = c.val := hacc

private theorem scan_escape {quote : Char} (hquote : quote ≠ '\\') (c : CodePoint) (r : List Char) :
    scan quote .plain (escape c ++ r) = (scan quote .plain r).map (c :: ·) := by
  have hc := c.isLt
  unfold escape
  split_ifs with hbyte hword
  · rw [List.cons_append, List.cons_append, scan, if_neg (Ne.symm hquote), if_pos rfl, scan]
    exact scan_hexPad quote c 1 0 r (by simp only [Nat.reducePow, Nat.reduceAdd]; omega)
  · rw [List.cons_append, List.cons_append, scan, if_neg (Ne.symm hquote), if_pos rfl, scan]
    exact scan_hexPad quote c 3 0 r (by simp only [Nat.reducePow, Nat.reduceAdd]; omega)
  · rw [List.cons_append, List.cons_append, scan, if_neg (Ne.symm hquote), if_pos rfl, scan]
    exact scan_hexPad quote c 7 0 r (by simp only [Nat.reducePow, Nat.reduceAdd]; omega)

section Repr

variable {isPrintable : Char → Bool}

private theorem scan_reprPoint {quote : Char} (hquote : quote = '\x27' ∨ quote = '"') (c : CodePoint) (r : List Char) :
    scan quote .plain (reprPoint isPrintable quote c ++ r) = (scan quote .plain r).map (c :: ·) := by
  have hslash : quote ≠ '\\' := by rcases hquote with rfl | rfl <;> decide
  have hescape := scan_escape hslash c r
  unfold reprPoint
  split
  · exact hescape
  · rename_i ch hch
    obtain rfl := char?_eq_some hch
    have hletter : ∀ e s, escapeOf e = .points s →
        scan quote .plain (['\\', e] ++ r) = (scan quote .plain r).map (s ++ ·) := by
      intro e s he
      show scan quote .plain ('\\' :: e :: r) = _
      rw [scan, if_neg (Ne.symm hslash), if_pos rfl, scan, he]
    have hitself : ch ≠ quote → ch ≠ '\\' →
        scan quote .plain ([ch] ++ r) = (scan quote .plain r).map (ofChar ch :: ·) := by
      intro h1 h2
      show scan quote .plain (ch :: r) = _
      rw [scan, if_neg h1, if_neg h2]
    split_ifs with hquoted htab hnewline hreturn hcontrol hascii hprintable
    · have hcase : ch = '\\' ∨ ch = '\x27' ∨ ch = '"' := by
        rcases hquoted with rfl | rfl
        · exact .inr hquote
        · exact .inl rfl
      exact hletter ch [ofChar ch] (by rw [escapeOf, if_pos hcase])
    · exact hletter 't' [9] rfl |>.trans (by rw [htab]; rfl)
    · exact hletter 'n' [10] rfl |>.trans (by rw [hnewline]; rfl)
    · exact hletter 'r' [13] rfl |>.trans (by rw [hreturn]; rfl)
    · exact hescape
    · exact hitself (fun h => hquoted (.inl h)) (fun h => hquoted (.inr h))
    · exact hitself (fun h => hquoted (.inl h)) (fun h => hquoted (.inr h))
    · exact hescape

theorem quoteOf_cases (s : PyStr) : quoteOf s = '\x27' ∨ quoteOf s = '"' := by
  unfold quoteOf
  split
  · exact .inr rfl
  · exact .inl rfl

/-- A literal denotes the string it was written for. -/
theorem literalEval_repr (s : PyStr) : literalEval (repr isPrintable s) = some s := by
  have hquote := quoteOf_cases s
  rw [repr, literalEval, if_pos hquote]
  generalize quoteOf s = quote at hquote
  induction s with
  | nil => simp [scan]
  | cons c s ih =>
    rw [List.flatMap_cons, List.append_assoc, scan_reprPoint hquote, ih]
    rfl

/-! ### The characters of a literal -/

/-- No control character of ASCII. -/
def Visible (c : Char) : Prop := 0x20 ≤ c.toNat ∧ c.toNat ≠ 0x7F

instance (c : Char) : Decidable (Visible c) := inferInstanceAs (Decidable (_ ∧ _))

private theorem hexPad_visible {width n : Nat} {c : Char} (h : c ∈ hexPad width n) : Visible c := by
  induction width with
  | zero => cases h
  | succ width ih =>
    rcases List.mem_cons.1 h with rfl | h
    · have hdigit : ∀ d < 16, Visible (Nat.digitChar d) := by decide
      exact hdigit _ (Nat.mod_lt _ (by decide))
    · exact ih h

private theorem escape_visible {p : CodePoint} {c : Char} (h : c ∈ escape p) : Visible c := by
  unfold escape at h
  split_ifs at h
  all_goals
    rcases List.mem_cons.1 h with rfl | h
    · decide
    rcases List.mem_cons.1 h with rfl | h
    · decide
    exact hexPad_visible h

private theorem reprPoint_visible {quote : Char} (hquote : quote = '\x27' ∨ quote = '"') {p : CodePoint} {c : Char}
    (h : c ∈ reprPoint isPrintable quote p) : Visible c := by
  unfold reprPoint at h
  split at h
  · exact escape_visible h
  · rename_i ch _
    split_ifs at h with hquoted htab hnewline hreturn hcontrol hascii hprintable
    · have hch : Visible ch := by
        rcases hquoted with rfl | rfl
        · rcases hquote with rfl | rfl <;> decide
        · decide
      rcases List.mem_pair.1 h with rfl | rfl
      · decide
      · exact hch
    · rcases List.mem_pair.1 h with rfl | rfl <;> decide
    · rcases List.mem_pair.1 h with rfl | rfl <;> decide
    · rcases List.mem_pair.1 h with rfl | rfl <;> decide
    · exact escape_visible h
    · obtain rfl := List.mem_singleton.1 h
      exact ⟨by omega, by omega⟩
    · obtain rfl := List.mem_singleton.1 h
      exact ⟨by omega, by omega⟩
    · exact escape_visible h

/-- A literal holds no control character of ASCII. -/
theorem repr_visible {s : PyStr} {c : Char} (h : c ∈ repr isPrintable s) : Visible c := by
  have hquote := quoteOf_cases s
  have hq : Visible (quoteOf s) := by
    rcases hquote with hq | hq <;> rw [hq] <;> decide
  rw [repr, List.mem_cons, List.mem_append, List.mem_singleton] at h
  rcases h with rfl | h | rfl
  · exact hq
  · obtain ⟨p, -, hp⟩ := List.mem_flatMap.1 h
    exact reprPoint_visible hquote hp
  · exact hq

theorem repr_printable {s : PyStr} {c : Char} (h : c ∈ repr isPrintable s) : 0x20 ≤ c.toNat := (repr_visible h).1

end Repr

end PyLiteral
