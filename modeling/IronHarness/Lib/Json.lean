import Mathlib.Algebra.Group.Nat.Defs
import Mathlib.Data.List.Basic

/-!
# JSON texts

The values, the printer (`dumps`, which escapes control characters, quotes and backslashes and leaves every other
character as it is) and the parser (`loads`) of Python's `json` module.  Floats are a type with the literals the
module prints and reads (`JsonFloat`); the printer and the parser are otherwise concrete.  The printer is total here,
and where Python's raises is a predicate of its own (`Value.dumpable`); strings hold characters, so the parser refuses
the escape of a lone surrogate, which Python's reads.
-/

namespace JsonText

/-! ### Number literals -/

/-- A number literal: sign, integer digits, digits of the fraction, and the letter, sign and digits of the
exponent. -/
structure NumLit where
  neg : Bool
  int : List Char
  frac : Option (List Char)
  exp : Option (Char × Option Char × List Char)
  deriving DecidableEq, Repr

def allDigits (ds : List Char) : Bool := ds.all Char.isDigit

/-- No leading zero, no empty run of digits. -/
def NumLit.valid (l : NumLit) : Bool :=
  allDigits l.int && !l.int.isEmpty && (l.int.head? != some '0' || l.int.length == 1) &&
  (match l.frac with
    | none => true
    | some ds => allDigits ds && !ds.isEmpty) &&
  (match l.exp with
    | none => true
    | some (e, sign, ds) => (e == 'e' || e == 'E') && (sign == none || sign == some '+' || sign == some '-') &&
        allDigits ds && !ds.isEmpty)

def NumLit.text (l : NumLit) : List Char :=
  (if l.neg then ['-'] else []) ++ l.int ++
  (match l.frac with
    | none => []
    | some ds => '.' :: ds) ++
  (match l.exp with
    | none => []
    | some (e, sign, ds) => e :: (sign.toList ++ ds))

/-- The literals of floats; `nan` and `inf` are the three words the module writes for the others. -/
inductive FloatLit
  | nan
  | inf (neg : Bool)
  | num (l : NumLit)
  deriving DecidableEq, Repr

def FloatLit.text : FloatLit → List Char
  | .nan => "NaN".toList
  | .inf neg => if neg then "-Infinity".toList else "Infinity".toList
  | .num l => l.text

def FloatLit.valid : FloatLit → Bool
  | .num l => l.valid && (l.frac.isSome || l.exp.isSome)
  | _ => true

/-- The floats of the language: `lit` is the literal printed for a float (`float.__repr__`), `ofLit` the float read
from a literal.  Reading back the literal of a float gives the float. -/
class JsonFloat (F : Type) where
  lit : F → FloatLit
  ofLit : FloatLit → F
  lit_valid : ∀ x, (lit x).valid
  ofLit_lit : ∀ x, ofLit (lit x) = x

/-- Floats given by their literals. -/
structure LitFloat where
  lit : FloatLit
  valid : lit.valid = true

instance : JsonFloat LitFloat where
  lit x := x.lit
  ofLit l := if h : l.valid = true then ⟨l, h⟩ else ⟨.nan, rfl⟩
  lit_valid x := x.valid
  ofLit_lit x := by rw [dif_pos x.valid]

/-! ### Values and the printer -/

/-- A JSON value; the fields of an object are in the order of the dictionary. -/
inductive Value (F : Type) where
  | null
  | bool (b : Bool)
  | int (n : Int)
  | float (x : F)
  | str (s : String)
  | arr (items : List (Value F))
  | obj (fields : List (String × Value F))
  deriving Repr

variable {F : Type}

/-- The keys of every dictionary are distinct. -/
def Value.keysNodup : Value F → Prop
  | .arr items => elemsNodup items
  | .obj fields => (fields.map Prod.fst).Nodup ∧ fieldsNodup fields
  | _ => True
where
  elemsNodup : List (Value F) → Prop
    | [] => True
    | v :: vs => v.keysNodup ∧ elemsNodup vs
  fieldsNodup : List (String × Value F) → Prop
    | [] => True
    | (_, v) :: fs => v.keysNodup ∧ fieldsNodup fs

theorem elemsNodup_iff (vs : List (Value F)) : Value.keysNodup.elemsNodup vs ↔ ∀ v ∈ vs, v.keysNodup := by
  induction vs with
  | nil => simp [Value.keysNodup.elemsNodup]
  | cons v vs ih => simp [Value.keysNodup.elemsNodup, ih]

theorem fieldsNodup_iff (fs : List (String × Value F)) :
    Value.keysNodup.fieldsNodup fs ↔ ∀ f ∈ fs, f.2.keysNodup := by
  induction fs with
  | nil => simp [Value.keysNodup.fieldsNodup]
  | cons f fs ih =>
    obtain ⟨k, v⟩ := f
    simp [Value.keysNodup.fieldsNodup, ih]

/-- One character inside a string literal (`ensure_ascii=False`). -/
def escape (c : Char) : List Char :=
  if c = '"' then ['\\', '"']
  else if c = '\\' then ['\\', '\\']
  else if c = '\n' then ['\\', 'n']
  else if c = '\r' then ['\\', 'r']
  else if c = '\t' then ['\\', 't']
  else if c = '\x0c' then ['\\', 'f']
  else if c = '\x08' then ['\\', 'b']
  else if c.toNat < 0x20 then
    ['\\', 'u', '0', '0', Nat.digitChar (c.toNat / 16), Nat.digitChar (c.toNat % 16)]
  else [c]

/-- A string literal. -/
def quote (s : String) : List Char := '"' :: (s.toList.flatMap escape ++ ['"'])

/-- The literal of an integer. -/
def intLit (n : Int) : NumLit := ⟨decide (n < 0), Nat.toDigits 10 n.natAbs, none, none⟩

mutual

/-- `json.dumps(value, ensure_ascii=False)` of a value that it writes (`Value.dumpable`). -/
def dumps [JsonFloat F] : Value F → List Char
  | .null => "null".toList
  | .bool true => "true".toList
  | .bool false => "false".toList
  | .int n => (intLit n).text
  | .float x => (JsonFloat.lit x).text
  | .str s => quote s
  | .arr [] => ['[', ']']
  | .arr (v :: vs) => '[' :: (dumps v ++ dumpsElems vs)
  | .obj [] => ['{', '}']
  | .obj ((k, v) :: fs) => '{' :: (quote k ++ (':' :: ' ' :: (dumps v ++ dumpsFields fs)))

/-- The elements after the first one, and the closing bracket. -/
def dumpsElems [JsonFloat F] : List (Value F) → List Char
  | [] => [']']
  | v :: vs => ',' :: ' ' :: (dumps v ++ dumpsElems vs)

/-- The fields after the first one, and the closing brace. -/
def dumpsFields [JsonFloat F] : List (String × Value F) → List Char
  | [] => ['}']
  | (k, v) :: fs => ',' :: ' ' :: (quote k ++ (':' :: ' ' :: (dumps v ++ dumpsFields fs)))

end

/-- The digits of the longest integer that Python writes as a decimal literal, or reads from one. -/
def maxStrDigits : Nat := 4300

/-- What `json.dumps` writes where the stack bears so many levels of lists and dictionaries: a deeper value raises a
`RecursionError`, a longer integer a `ValueError`. -/
def Value.dumpable : Value F → Nat → Bool
  | .int n, _ => decide (n.natAbs < 10 ^ maxStrDigits)
  | .arr items, nesting => decide (0 < nesting) && elemsDumpable items (nesting - 1)
  | .obj fields, nesting => decide (0 < nesting) && fieldsDumpable fields (nesting - 1)
  | _, _ => true
where
  elemsDumpable : List (Value F) → Nat → Bool
    | [], _ => true
    | v :: vs, nesting => v.dumpable nesting && elemsDumpable vs nesting
  fieldsDumpable : List (String × Value F) → Nat → Bool
    | [], _ => true
    | (_, v) :: fs, nesting => v.dumpable nesting && fieldsDumpable fs nesting

theorem elemsDumpable_iff {vs : List (Value F)} {nesting : Nat} :
    Value.dumpable.elemsDumpable vs nesting = true ↔ ∀ v ∈ vs, v.dumpable nesting = true := by
  induction vs with
  | nil => simp [Value.dumpable.elemsDumpable]
  | cons v vs ih => simp [Value.dumpable.elemsDumpable, ih]

theorem fieldsDumpable_iff {fs : List (String × Value F)} {nesting : Nat} :
    Value.dumpable.fieldsDumpable fs nesting = true ↔ ∀ f ∈ fs, f.2.dumpable nesting = true := by
  induction fs with
  | nil => simp [Value.dumpable.fieldsDumpable]
  | cons f fs ih =>
    obtain ⟨k, v⟩ := f
    simp [Value.dumpable.fieldsDumpable, ih]

/-! ### The parser -/

def isWs (c : Char) : Bool := c == ' ' || c == '\t' || c == '\n' || c == '\r'

def skipWs (cs : List Char) : List Char := cs.dropWhile isWs

/-- The text after the character it starts with. -/
def eat (ch : Char) : List Char → Option (List Char)
  | [] => none
  | c :: r => if c = ch then some r else none

/-- The longest run of digits at the front of a text, and the text after it. -/
def scanDigits (cs : List Char) : List Char × List Char := (cs.takeWhile Char.isDigit, cs.dropWhile Char.isDigit)

/-- The optional fraction at the front of a text. -/
def scanFrac (cs : List Char) : Option (List Char) × List Char :=
  match eat '.' cs with
  | none => (none, cs)
  | some r =>
    let (ds, rest) := scanDigits r
    if ds.isEmpty then (none, cs) else (some ds, rest)

def scanSign (cs : List Char) : Option Char × List Char :=
  match eat '+' cs with
  | some r => (some '+', r)
  | none =>
    match eat '-' cs with
    | some r => (some '-', r)
    | none => (none, cs)

/-- The optional exponent at the front of a text. -/
def scanExp : List Char → Option (Char × Option Char × List Char) × List Char
  | [] => (none, [])
  | e :: r =>
    if e = 'e' ∨ e = 'E' then
      let (sign, r') := scanSign r
      let (ds, rest) := scanDigits r'
      if ds.isEmpty then (none, e :: r) else (some (e, sign, ds), rest)
    else (none, e :: r)

/-- The digits of the integer part: a single 0, or a run that starts with another digit. -/
def scanInt : List Char → Option (List Char × List Char)
  | [] => none
  | d :: r =>
    if d = '0' then some (['0'], r)
    else if d.isDigit then some (scanDigits (d :: r))
    else none

/-- The number literal at the front of a text. -/
def scanNumber (cs : List Char) : Option (NumLit × List Char) :=
  let (neg, cs) := match eat '-' cs with
    | some r => (true, r)
    | none => (false, cs)
  (scanInt cs).map fun (int, r) =>
    let (frac, r) := scanFrac r
    let (exp, r) := scanExp r
    (⟨neg, int, frac, exp⟩, r)

/-- `int(text)` without a fraction and an exponent, `float(text)` otherwise. -/
def numberValue [JsonFloat F] (l : NumLit) : Value F :=
  if l.frac.isSome || l.exp.isSome then .float (JsonFloat.ofLit (.num l))
  else .int (if l.neg then -(Nat.ofDigitChars 10 l.int 0 : Int) else Nat.ofDigitChars 10 l.int 0)

def hexVal (c : Char) : Option Nat :=
  if c.isDigit then some (c.toNat - '0'.toNat)
  else if 'a' ≤ c ∧ c ≤ 'f' then some (c.toNat - 'a'.toNat + 10)
  else if 'A' ≤ c ∧ c ≤ 'F' then some (c.toNat - 'A'.toNat + 10)
  else none

def hex4 (a b c d : Char) : Option Nat := do
  return ((← hexVal a) * 16 + (← hexVal b)) * 256 + (← hexVal c) * 16 + (← hexVal d)

/-- The character of a one-letter escape. -/
def unescape (e : Char) : Option Char :=
  if e = '"' then some '"'
  else if e = '\\' then some '\\'
  else if e = '/' then some '/'
  else if e = 'b' then some '\x08'
  else if e = 'f' then some '\x0c'
  else if e = 'n' then some '\n'
  else if e = 'r' then some '\r'
  else if e = 't' then some '\t'
  else none

/-- A character escaped by its code, and the text after it.  Two escapes may form a surrogate pair; a lone surrogate
is no character of the model and is refused. -/
def scanCode : List Char → Option (Char × List Char)
  | a :: b :: c :: d :: r =>
    match hex4 a b c d with
    | none => none
    | some n =>
      if n < 0xD800 ∨ 0xE000 ≤ n then some (Char.ofNat n, r)
      else if n < 0xDC00 then
        match (eat '\\' r).bind (eat 'u') with
        | some (a' :: b' :: c' :: d' :: r') =>
          match hex4 a' b' c' d' with
          | none => none
          | some m =>
            if 0xDC00 ≤ m ∧ m < 0xE000 then
              some (Char.ofNat (0x10000 + (n - 0xD800) * 0x400 + (m - 0xDC00)), r')
            else none
        | _ => none
      else none
  | _ => none

/-- The escape after a backslash. -/
def scanEscape : List Char → Option (Char × List Char)
  | [] => none
  | e :: r => if e = 'u' then scanCode r else (unescape e).map (·, r)

/-- The rest of a string literal after its opening quote, and the text after it. -/
def scanString : Nat → List Char → Option (List Char × List Char)
  | 0, _ => none
  | _ + 1, [] => none
  | n + 1, c :: r =>
    if c = '"' then some ([], r)
    else if c = '\\' then
      (scanEscape r).bind fun (ch, r) => (scanString n r).map fun (s, r) => (ch :: s, r)
    else if c.toNat < 0x20 then none
    else (scanString n r).map fun (s, r) => (c :: s, r)

/-- A key and its colon. -/
def scanKey (n : Nat) (cs : List Char) : Option (String × List Char) :=
  (eat '"' cs).bind fun r => (scanString n r).bind fun (s, r) =>
    (eat ':' (skipWs r)).map fun r => (String.ofList s, skipWs r)

/-- `d[key] = value` on the fields of a dictionary. -/
def setField (fields : List (String × Value F)) (key : String) (value : Value F) : List (String × Value F) :=
  if fields.any (·.1 == key) then fields.map fun (k, v) => if k = key then (k, value) else (k, v)
  else fields ++ [(key, value)]

/-- The dictionary of a list of members; a repeated key keeps its place and takes the last value. -/
def toDict (members : List (String × Value F)) : List (String × Value F) :=
  members.foldl (fun fields (k, v) => setField fields k v) []

/-- The text after a word it starts with. -/
def afterWord (word cs : List Char) : Option (List Char) :=
  if word.isPrefixOf cs then some (cs.drop word.length) else none

/-- The words `null`, `true`, `false`, `NaN`, `Infinity`, `-Infinity`, and numbers. -/
def scanAtom [JsonFloat F] (cs : List Char) : Option (Value F × List Char) :=
  if let some r := afterWord "null".toList cs then some (.null, r)
  else if let some r := afterWord "true".toList cs then some (.bool true, r)
  else if let some r := afterWord "false".toList cs then some (.bool false, r)
  else if let some r := afterWord "NaN".toList cs then some (.float (JsonFloat.ofLit .nan), r)
  else if let some r := afterWord "Infinity".toList cs then some (.float (JsonFloat.ofLit (.inf false)), r)
  else if let some r := afterWord "-Infinity".toList cs then some (.float (JsonFloat.ofLit (.inf true)), r)
  else (scanNumber cs).map fun (l, r) => (numberValue l, r)

mutual

/-- The value at the front of a text, and the text after it; the number bounds the characters to read. -/
def scanValue [JsonFloat F] : Nat → List Char → Option (Value F × List Char)
  | 0, _ => none
  | _ + 1, [] => none
  | n + 1, c :: r =>
    if c = '"' then (scanString n r).map fun (s, r) => (.str (String.ofList s), r)
    else if c = '[' then
      match eat ']' (skipWs r) with
      | some r => some (.arr [], r)
      | none => (scanValue n (skipWs r)).bind fun (v, r) =>
          (scanElems n r).map fun (vs, r) => (.arr (v :: vs), r)
    else if c = '{' then
      match eat '}' (skipWs r) with
      | some r => some (.obj [], r)
      | none => (scanKey n (skipWs r)).bind fun (k, r) => (scanValue n r).bind fun (v, r) =>
          (scanFields n r).map fun (fs, r) => (.obj (toDict ((k, v) :: fs)), r)
    else scanAtom (c :: r)

/-- The elements after the first one, up to the closing bracket. -/
def scanElems [JsonFloat F] : Nat → List Char → Option (List (Value F) × List Char)
  | 0, _ => none
  | n + 1, cs =>
    match eat ']' (skipWs cs) with
    | some r => some ([], r)
    | none => (eat ',' (skipWs cs)).bind fun r => (scanValue n (skipWs r)).bind fun (v, r) =>
        (scanElems n r).map fun (vs, r) => (v :: vs, r)

/-- The members after the first one, up to the closing brace. -/
def scanFields [JsonFloat F] : Nat → List Char → Option (List (String × Value F) × List Char)
  | 0, _ => none
  | n + 1, cs =>
    match eat '}' (skipWs cs) with
    | some r => some ([], r)
    | none => (eat ',' (skipWs cs)).bind fun r => (scanKey n (skipWs r)).bind fun (k, r) =>
        (scanValue n r).bind fun (v, r) => (scanFields n r).map fun (fs, r) => ((k, v) :: fs, r)

end

/-- `json.loads(text)`; `none` is a JSONDecodeError.  A text with the escape of a lone surrogate, an integer of more than
4300 digits or a nesting that the stack does not bear is not read as Python reads it. -/
def loads [JsonFloat F] (text : List Char) : Option (Value F) :=
  (scanValue (text.length + 1) (skipWs text)).bind fun (v, r) => if (skipWs r).isEmpty then some v else none

end JsonText
