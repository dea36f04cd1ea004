import IronHarness.Lib.Literal
import IronHarness.Tasks.Yaml

/-!
# JSON in Python

The values that `json.loads` makes, what it raises on the text of a value, and what `bool`, `int` and `float` make of a
value.
-/

namespace IronHarness.Python

open PyLiteral (PyStr ofChar)
open Tasks (PyFloat)

/-- What `json.loads` makes of a text: the strings may hold lone surrogates, the members of an object are in the order of
the text. -/
inductive Json
  | null
  | bool (b : Bool)
  | int (n : Int)
  | float (x : PyFloat)
  | str (s : PyStr)
  | arr (items : List Json)
  | obj (fields : List (PyStr × Json))

def points (s : String) : PyStr := s.toList.map ofChar

def Json.truthy : Json → Bool
  | .null => false
  | .bool b => b
  | .int n => n ≠ 0
  | .float (.finite q) => q ≠ 0
  | .float _ => true
  | .str s => !s.isEmpty
  | .arr items => !items.isEmpty
  | .obj fields => !fields.isEmpty

/-- `value == n` -/
def Json.isInt (n : Int) : Json → Bool
  | .int m => m == n
  | .bool b => (if b then 1 else 0) == n
  | .float (.finite q) => q == n
  | _ => false

/-- `a or b` -/
def Json.or (a b : Json) : Json := if a.truthy then a else b

/-- The value of a key: that of its last member. -/
def lookup (key : String) (fields : List (PyStr × Json)) : Option Json :=
  (fields.reverse.find? fun field => field.1 == points key).map Prod.snd

inductive Exc
  | recursion
  | value
  | lookup
  | type
  | attribute
  | overflow
  | os
  | http (code : Nat)
  | unicode
  deriving DecidableEq

/-- `int` and `float` of a text, the rounding to the nearest float, and the nesting that `json.loads` bears. -/
structure Libraries where
  intOfText : PyStr → Option Int
  floatOfText : PyStr → Option PyFloat
  round : ℚ → PyFloat
  nesting : Nat

/-- An integer that `int` does not convert from its digits. -/
def isLong (n : Int) : Bool := 4300 < (Nat.toDigits 10 n.natAbs).length

mutual

/-- The errors of `json.loads` on the text of a value: nested too deeply, or an integer with too many digits. -/
def scan : Nat → Json → Except Exc Unit
  | _, .int n => if isLong n then .error .value else .ok ()
  | 0, .arr _ | 0, .obj _ => .error .recursion
  | nesting + 1, .arr items => scanItems nesting items
  | nesting + 1, .obj fields => scanFields nesting fields
  | _, _ => .ok ()

def scanItems : Nat → List Json → Except Exc Unit
  | _, [] => .ok ()
  | nesting, item :: items => do
    scan nesting item
    scanItems nesting items

def scanFields : Nat → List (PyStr × Json) → Except Exc Unit
  | _, [] => .ok ()
  | nesting, (_, value) :: fields => do
    scan nesting value
    scanFields nesting fields

end

/-- `int(value)` -/
def intOf (lib : Libraries) : Json → Except Exc Int
  | .bool b => .ok (if b then 1 else 0)
  | .int n => .ok n
  | .float (.finite q) => .ok (q.num.tdiv q.den)
  | .float (.inf _) => .error .overflow
  | .float .nan => .error .value
  | .str s => (lib.intOfText s).elim (.error .value) .ok
  | _ => .error .type

/-- `float(value)` -/
def floatOf (lib : Libraries) : Json → Except Exc PyFloat
  | .bool b => .ok (.finite (if b then 1 else 0))
  | .int n => if (lib.round n).isFinite then .ok (lib.round n) else .error .overflow
  | .float x => .ok x
  | .str s => (lib.floatOfText s).elim (.error .value) .ok
  | _ => .error .type

variable {lib : Libraries} {value : Json}

theorem Json.isInt_unique {n n' : Int} (h : value.isInt n = true) (h' : value.isInt n' = true) : n = n' := by
  cases value with
  | int m | bool b =>
    simp only [Json.isInt, beq_iff_eq] at h h'
    exact h.symm.trans h'
  | float x =>
    cases x with
    | finite q =>
      simp only [Json.isInt, beq_iff_eq] at h h'
      exact Int.cast_injective (h.symm.trans h')
    | inf | nan => cases h
  | null | str | arr | obj => cases h

theorem intOf_error {e : Exc} (h : intOf lib value = .error e) : e = .overflow ∨ e = .value ∨ e = .type := by
  cases value with
  | float x =>
    cases x with
    | finite q => cases h
    | inf neg =>
      cases h
      exact .inl rfl
    | nan =>
      cases h
      exact .inr (.inl rfl)
  | str s =>
    rw [intOf] at h
    cases hint : lib.intOfText s with
    | none =>
      rw [hint] at h
      cases h
      exact .inr (.inl rfl)
    | some n =>
      rw [hint] at h
      cases h
  | bool b => cases h
  | int n => cases h
  | _ =>
    cases h
    exact .inr (.inr rfl)

mutual

theorem scan_error {e : Exc} (nesting : Nat) (value : Json) (h : scan nesting value = .error e) :
    e = .recursion ∨ e = .value := by
  cases value with
  | int n =>
    unfold scan at h
    split at h
    · cases h
      exact .inr rfl
    · cases h
  | arr items =>
    cases nesting with
    | zero =>
      cases h
      exact .inl rfl
    | succ nesting => exact scanItems_error nesting items h
  | obj fields =>
    cases nesting with
    | zero =>
      cases h
      exact .inl rfl
    | succ nesting => exact scanFields_error nesting fields h
  | _ => cases nesting <;> cases h

private theorem scanItems_error {e : Exc} (nesting : Nat) (items : List Json) (h : scanItems nesting items = .error e) :
    e = .recursion ∨ e = .value := by
  cases items with
  | nil => cases h
  | cons item items =>
    rw [scanItems] at h
    cases hitem : scan nesting item with
    | error e' =>
      rw [hitem] at h
      cases h
      exact scan_error nesting item hitem
    | ok u =>
      rw [hitem] at h
      exact scanItems_error nesting items h

private theorem scanFields_error {e : Exc} (nesting : Nat) (fields : List (PyStr × Json))
    (h : scanFields nesting fields = .error e) : e = .recursion ∨ e = .value := by
  cases fields with
  | nil => cases h
  | cons field fields =>
    obtain ⟨key, value⟩ := field
    rw [scanFields] at h
    cases hvalue : scan nesting value with
    | error e' =>
      rw [hvalue] at h
      cases h
      exact scan_error nesting value hvalue
    | ok u =>
      rw [hvalue] at h
      exact scanFields_error nesting fields h

end

end IronHarness.Python
