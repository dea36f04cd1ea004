import Mathlib.Algebra.Order.Ring.Rat
import IronHarness.Lib.Lines

/-!
# Documents of a task

The values that `yaml.safe_load` makes, and what Python does with them: truth, `dict.get`, `isinstance`, the
comparison of numbers and the conversions `str`, `int`, `float`, `dict` and `tuple`.
-/

namespace IronHarness.Tasks

open TextLines

abbrev Text := List Char

/-- A float; the finite ones are their exact values. -/
inductive PyFloat
  | finite (q : ℚ)
  | inf (neg : Bool)
  | nan

def PyFloat.isFinite : PyFloat → Bool
  | .finite _ => true
  | _ => false

def PyFloat.lt : PyFloat → PyFloat → Bool
  | .finite a, .finite b => a < b
  | .inf neg, .finite _ => neg
  | .finite _, .inf neg => !neg
  | .inf neg, .inf neg' => neg && !neg'
  | _, _ => false

def PyFloat.le : PyFloat → PyFloat → Bool
  | .finite a, .finite b => a ≤ b
  | .inf neg, .finite _ => neg
  | .finite _, .inf neg => !neg
  | .inf neg, .inf neg' => neg || !neg'
  | _, _ => false

inductive Yaml
  | null
  | bool (b : Bool)
  | int (n : Int)
  | float (x : PyFloat)
  | str (s : Text)
  | bytes (b : List Nat)
  /-- a date or a time stamp, as `isoformat` writes it -/
  | date (iso : Text)
  | list (items : List Yaml)
  /-- an item of `!!omap` or `!!pairs` -/
  | pair (key value : Yaml)
  | set (items : List Yaml)
  | dict (items : List (Yaml × Yaml))

abbrev Dict := List (Yaml × Yaml)

/-- `bool(value)` -/
def Yaml.truthy : Yaml → Bool
  | .null => false
  | .bool b => b
  | .int n => n ≠ 0
  | .float (.finite q) => q ≠ 0
  | .float _ => true
  | .str s => !s.isEmpty
  | .bytes b => !b.isEmpty
  | .date _ | .pair _ _ => true
  | .list items | .set items => !items.isEmpty
  | .dict items => !items.isEmpty

/-- The value is this string. -/
def Yaml.isText (key : String) : Yaml → Bool
  | .str s => s = key.toList
  | _ => false

def Yaml.text? : Yaml → Option Text
  | .str s => some s
  | _ => none

/-- `isinstance(value, str) and value.strip()` -/
def Yaml.nonBlank? : Yaml → Option Text
  | .str s => if (strip s).isEmpty then none else some s
  | _ => none

def Yaml.dict? : Yaml → Option Dict
  | .dict items => some items
  | _ => none

/-- `isinstance(value, int) and not isinstance(value, bool)` -/
def Yaml.int? : Yaml → Option Int
  | .int n => some n
  | _ => none

/-- `isinstance(value, (int, float)) and not isinstance(value, bool)` -/
def Yaml.number? : Yaml → Option PyFloat
  | .int n => some (.finite n)
  | .float x => some x
  | _ => none

/-- What a comparison with a number takes: booleans are integers. -/
def Yaml.comparable? : Yaml → Option PyFloat
  | .bool b => some (.finite (if b then 1 else 0))
  | v => v.number?

/-- A list whose items are all of one kind. -/
def Yaml.listOf? {α : Type} (item? : Yaml → Option α) : Yaml → Option (List α)
  | .list items => items.mapM item?
  | _ => none

/-! ### Dictionaries -/

def get (d : Dict) (key : String) : Option Yaml := (d.find? fun item => item.1.isText key).map Prod.snd

def getD (d : Dict) (key : String) (default : Yaml) : Yaml := (get d key).getD default

/-- `d.get(key) or default` -/
def getOr (d : Dict) (key : String) (default : Yaml) : Yaml :=
  match get d key with
  | some v => if v.truthy then v else default
  | none => default

def has (d : Dict) (key : String) : Bool := (get d key).isSome

/-- `set(d) - allowed` is empty. -/
def onlyKeys (allowed : List String) (d : Dict) : Bool := d.all fun item => allowed.any fun key => item.1.isText key

/-- `d[key] = value` -/
def setKey (key : String) (value : Yaml) : Dict → Dict
  | [] => [(.str key.toList, value)]
  | item :: d => if item.1.isText key then (item.1, value) :: d else item :: setKey key value d

variable {d : Dict} {key other : String} {value : Yaml}

theorem isText_str : (Yaml.str key.toList).isText other = decide (key = other) := by
  simp [Yaml.isText, String.toList_inj]

theorem get_setKey : get (setKey key value d) key = some value := by
  induction d with
  | nil => simp [setKey, get, isText_str]
  | cons item d ih =>
    unfold setKey
    split
    · rename_i hkey
      simp [get, hkey]
    · rename_i hkey
      rw [get, List.find?_cons, Bool.eq_false_iff.2 hkey]
      exact ih

theorem get_setKey_of_ne (hne : key ≠ other) : get (setKey key value d) other = get d other := by
  induction d with
  | nil => simp [setKey, get, isText_str, hne]
  | cons item d ih =>
    unfold setKey
    split
    · rename_i hkey
      have hother : item.1.isText other = false := by
        cases hitem : item.1 with
        | str s =>
          rw [hitem] at hkey
          obtain rfl := of_decide_eq_true hkey
          simpa using isText_str.trans (decide_eq_false hne)
        | _ => rfl
      simp [get, hother]
    · unfold get at ih ⊢
      rw [List.find?_cons, List.find?_cons]
      split
      · rfl
      · exact ih

/-! ### What `yaml.safe_load` gives -/

/-- `==` on the values of a document: a string is equal to itself alone. -/
structure Equality where
  eq : Yaml → Yaml → Bool
  eq_str : ∀ v s, eq v (.str s) = true ↔ v = .str s
  eq_comm : ∀ v w, eq v w = eq w v

/-- The hash of a list, a set or a dictionary is a `TypeError`. -/
def hashable : Yaml → Bool
  | .list _ | .set _ | .dict _ => false
  | .pair key value => hashable key && hashable value
  | _ => true

/-- The keys of one dictionary: no two of them are the same object, or equal. -/
structure Keys (py : Equality) (keys : List Yaml) : Prop where
  hashed : ∀ key ∈ keys, hashable key = true
  apart : keys.Pairwise fun key other => key ≠ other ∧ py.eq key other = false

/-- What is in the sets, and the keys of the mappings, is the keys of a dictionary. -/
def Proper (py : Equality) : Yaml → Prop
  | .list items => allProper items
  | .pair key value => Proper py key ∧ Proper py value
  | .set items => Keys py items
  | .dict items => Keys py (items.map Prod.fst) ∧ valuesProper items
  | _ => True
where
  allProper : List Yaml → Prop
    | [] => True
    | v :: vs => Proper py v ∧ allProper vs
  valuesProper : List (Yaml × Yaml) → Prop
    | [] => True
    | (_, v) :: items => Proper py v ∧ valuesProper items

section Proper

variable {py : Equality}

private theorem allProper_iff {vs : List Yaml} : Proper.allProper py vs ↔ ∀ v ∈ vs, Proper py v := by
  induction vs with
  | nil => simp [Proper.allProper]
  | cons v vs ih => simp [Proper.allProper, ih]

private theorem valuesProper_iff {items : List (Yaml × Yaml)} :
    Proper.valuesProper py items ↔ ∀ item ∈ items, Proper py item.2 := by
  induction items with
  | nil => simp [Proper.valuesProper]
  | cons item items ih => simp [Proper.valuesProper, ih]

theorem proper_list {items : List Yaml} : Proper py (.list items) ↔ ∀ v ∈ items, Proper py v := by
  rw [Proper, allProper_iff]

theorem proper_dict {items : List (Yaml × Yaml)} :
    Proper py (.dict items) ↔ Keys py (items.map Prod.fst) ∧ ∀ item ∈ items, Proper py item.2 := by
  rw [Proper, valuesProper_iff]

theorem Proper.get (h : Proper py (.dict d)) (hget : Tasks.get d key = some value) : Proper py value := by
  obtain ⟨item, hfind, rfl⟩ := Option.map_eq_some_iff.1 hget
  exact (proper_dict.1 h).2 item (List.mem_of_find?_eq_some hfind)

theorem Proper.getD {default : Yaml} (h : Proper py (.dict d)) (hdefault : Proper py default) :
    Proper py (Tasks.getD d key default) := by
  unfold Tasks.getD
  cases hget : Tasks.get d key with
  | none => exact hdefault
  | some value => exact h.get hget

theorem Proper.getOr {default : Yaml} (h : Proper py (.dict d)) (hdefault : Proper py default) :
    Proper py (Tasks.getOr d key default) := by
  unfold Tasks.getOr
  split
  · rename_i value hget
    split
    · exact h.get hget
    · exact hdefault
  · exact hdefault

/-- Different texts are the keys of a dictionary. -/
theorem keys_texts {texts : List Text} (h : texts.Nodup) : Keys py (texts.map .str) where
  hashed key hkey := by
    obtain ⟨s, -, rfl⟩ := List.mem_map.1 hkey
    rfl
  apart := by
    rw [List.pairwise_map]
    refine h.imp fun {s s'} hne => ?_
    have hdiffer : Yaml.str s ≠ .str s' := fun heq => hne (Yaml.str.inj heq)
    exact ⟨hdiffer, Bool.eq_false_iff.2 fun heq => hdiffer ((py.eq_str _ _).1 heq)⟩

theorem proper_texts {texts : List Text} : Proper py (.list (texts.map .str)) := by
  rw [proper_list]
  intro v hv
  obtain ⟨s, -, rfl⟩ := List.mem_map.1 hv
  trivial

end Proper

/-! ### The parts of Python that a document can reach -/

inductive Kind
  | value
  | type
  | attribute
  | overflow
  | recursion
  | re
  deriving DecidableEq

/-- `str` of a value (of an enormous integer it is a `ValueError`), `int` of a text, the rounding to the nearest
float, and `re.compile`. -/
structure Python where
  str : Yaml → Except Kind Text
  str_text : ∀ s, str (.str s) = .ok s
  intOfText : Text → Option Int
  intOfBytes : List Nat → Option Int
  round : ℚ → PyFloat
  compile : Text → Except Kind Unit

/-- `int(value)` -/
def Python.int (py : Python) : Yaml → Except Kind Int
  | .bool b => .ok (if b then 1 else 0)
  | .int n => .ok n
  | .float (.finite q) => .ok (q.num.tdiv q.den)
  | .float (.inf _) => .error .overflow
  | .float .nan => .error .value
  | .str s => (py.intOfText s).elim (.error .value) .ok
  | .bytes b => (py.intOfBytes b).elim (.error .value) .ok
  | _ => .error .type

/-- `float(value)` of a number; an integer beyond the floats is an `OverflowError`. -/
def Python.float (py : Python) : PyFloat → Except Kind PyFloat
  | .finite q => if (py.round q).isFinite then .ok (py.round q) else .error .overflow
  | x => .ok x

/-- `a / b` for floats with `b` positive. -/
def Python.quotient (py : Python) : PyFloat → PyFloat → PyFloat
  | .finite a, .finite b => py.round (a / b)
  | .finite _, .inf _ => .finite 0
  | .inf neg, .finite _ => .inf neg
  | _, _ => .nan

/-- `dict(value)` of a dictionary or of an empty value. -/
def toDict : Yaml → Except Kind Dict
  | .dict d => .ok d
  | .str [] | .bytes [] | .list [] | .set [] => .ok []
  | .str _ | .bytes _ | .list _ | .set _ => .error .value
  | _ => .error .type

/-- `tuple(value)` -/
def toTuple : Yaml → Except Kind (List Yaml)
  | .list items | .set items => .ok items
  | .pair a b => .ok [a, b]
  | .dict d => .ok (d.map Prod.fst)
  | .str s => .ok (s.map fun c => .str [c])
  | .bytes b => .ok (b.map fun n => .int n)
  | _ => .error .type

end IronHarness.Tasks
