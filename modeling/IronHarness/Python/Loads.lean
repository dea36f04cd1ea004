import IronHarness.Lib.JsonPrefix
import IronHarness.Python.Json

/-!
# Reading JSON in Python

`json.loads` on a text: the grammar of the scanner of Python's `json` module, with the strings of `Python.Json`, which
keep an escaped surrogate that is not one of a pair.  Besides a text that is no JSON it refuses one that is nested too
deeply, or has an integer with too many digits; the first of these, in the order of the text, is the error.  The scanner
counts the characters that it may read, and the length of the text is always enough (`scanValue_bound`).
-/

namespace IronHarness.Python

open PyLiteral (PyStr CodePoint ofChar)
open JsonText (NumLit eat skipWs scanNumber hex4 unescape afterWord)
open Tasks (PyFloat)

/-- What `json.loads` raises: a `JSONDecodeError`, a `RecursionError`, or the `ValueError` of an integer. -/
inductive Unread
  | decode
  | recursion
  | digits
  deriving DecidableEq

/-! ### Strings -/

def isHighSurrogate (n : Nat) : Bool := 0xD800 ≤ n && n < 0xDC00

def isLowSurrogate (n : Nat) : Bool := 0xDC00 ≤ n && n < 0xE000

/-- The escape of a low surrogate, and the text after it. -/
def scanLow (cs : List Char) : Option (Nat × List Char) :=
  match (eat '\\' cs).bind (eat 'u') with
  | some (a :: b :: c :: d :: r) => (hex4 a b c d).bind fun m => if isLowSurrogate m then some (m, r) else none
  | _ => none

def ofCode (n : Nat) : CodePoint := ⟨n % 0x110000, Nat.mod_lt n (by decide)⟩

/-- A code point escaped by its number, and the text after it.  The two escapes of a surrogate pair are one code point. -/
def scanCode : List Char → Option (CodePoint × List Char)
  | a :: b :: c :: d :: r =>
    (hex4 a b c d).map fun n =>
      match if isHighSurrogate n then scanLow r else none with
      | some (m, r') => (ofCode (0x10000 + (n - 0xD800) * 0x400 + (m - 0xDC00)), r')
      | none => (ofCode n, r)
  | _ => none

/-- The escape after a backslash. -/
def scanEscape : List Char → Option (CodePoint × List Char)
  | [] => none
  | e :: r => if e = 'u' then scanCode r else (unescape e).map fun c => (ofChar c, r)

/-- The rest of a string literal after its opening quote, and the text after it; the number bounds the characters to
read. -/
def scanString : Nat → List Char → Option (PyStr × List Char)
  | 0, _ => none
  | _ + 1, [] => none
  | n + 1, c :: r =>
    if c = '"' then some ([], r)
    else if c = '\\' then (scanEscape r).bind fun (p, r) => (scanString n r).map fun (s, r) => (p :: s, r)
    else if c.toNat < 0x20 then none
    else (scanString n r).map fun (s, r) => (ofChar c :: s, r)

/-- A key and its colon. -/
def scanKey (n : Nat) (cs : List Char) : Option (PyStr × List Char) :=
  (eat '"' cs).bind fun r => (scanString n r).bind fun (s, r) => (eat ':' (skipWs r)).map fun r => (s, skipWs r)

/-! ### Values -/

def orDecode {α : Type} (x : Option α) : Except Unread α := x.elim (.error .decode) .ok

/-- The number that a literal denotes. -/
def decimal (l : NumLit) : ℚ :=
  let digits : ℚ := Nat.ofDigitChars 10 (l.int ++ l.frac.getD []) 0
  let exponent : ℤ :=
    match l.exp with
    | none => 0
    | some (_, sign, ds) => if sign = some '-' then -(Nat.ofDigitChars 10 ds 0 : ℤ) else Nat.ofDigitChars 10 ds 0
  (if l.neg then -digits else digits) * 10 ^ (exponent - (l.frac.getD []).length)

/-- `int(text)` without a fraction and an exponent, `float(text)` otherwise. -/
def numberValue (lib : Libraries) (l : NumLit) : Except Unread Json :=
  if l.frac.isSome || l.exp.isSome then .ok (.float (lib.round (decimal l)))
  else
    let n : Int := Nat.ofDigitChars 10 l.int 0
    if isLong n then .error .digits else .ok (.int (if l.neg then -n else n))

/-- The words `null`, `true`, `false`, `NaN`, `Infinity`, `-Infinity`, and numbers. -/
def scanAtom (lib : Libraries) (cs : List Char) : Except Unread (Json × List Char) :=
  if let some r := afterWord "null".toList cs then .ok (.null, r)
  else if let some r := afterWord "true".toList cs then .ok (.bool true, r)
  else if let some r := afterWord "false".toList cs then .ok (.bool false, r)
  else if let some r := afterWord "NaN".toList cs then .ok (.float .nan, r)
  else if let some r := afterWord "Infinity".toList cs then .ok (.float (.inf false), r)
  else if let some r := afterWord "-Infinity".toList cs then .ok (.float (.inf true), r)
  else do
    let (l, r) ← orDecode (scanNumber cs)
    return (← numberValue lib l, r)

/-- One level deeper, where the stack bears it. -/
def enter : Nat → Except Unread Nat
  | 0 => .error .recursion
  | nesting + 1 => .ok nesting

mutual

/-- The value at the front of a text, and the text after it.  The first number bounds the characters to read, the second
is how many more levels of lists and dictionaries the stack bears. -/
def scanValue (lib : Libraries) : Nat → Nat → List Char → Except Unread (Json × List Char)
  | 0, _, _ => .error .decode
  | _ + 1, _, [] => .error .decode
  | n + 1, nesting, c :: r =>
    if c = '"' then orDecode ((scanString n r).map fun (s, r) => (.str s, r))
    else if c = '[' then do
      let inner ← enter nesting
      match eat ']' (skipWs r) with
      | some r => return (.arr [], r)
      | none =>
        let (v, r) ← scanValue lib n inner (skipWs r)
        let (vs, r) ← scanElems lib n inner r
        return (.arr (v :: vs), r)
    else if c = '{' then do
      let inner ← enter nesting
      match eat '}' (skipWs r) with
      | some r => return (.obj [], r)
      | none =>
        let (key, r) ← orDecode (scanKey n (skipWs r))
        let (v, r) ← scanValue lib n inner r
        let (fields, r) ← scanMembers lib n inner r
        return (.obj ((key, v) :: fields), r)
    else scanAtom lib (c :: r)

/-- The elements after the first one, up to the closing bracket. -/
def scanElems (lib : Libraries) : Nat → Nat → List Char → Except Unread (List Json × List Char)
  | 0, _, _ => .error .decode
  | n + 1, nesting, cs =>
    match eat ']' (skipWs cs) with
    | some r => .ok ([], r)
    | none => do
      let r ← orDecode (eat ',' (skipWs cs))
      let (v, r) ← scanValue lib n nesting (skipWs r)
      let (vs, r) ← scanElems lib n nesting r
      return (v :: vs, r)

/-- The members after the first one, up to the closing brace. -/
def scanMembers (lib : Libraries) : Nat → Nat → List Char → Except Unread (List (PyStr × Json) × List Char)
  | 0, _, _ => .error .decode
  | n + 1, nesting, cs =>
    match eat '}' (skipWs cs) with
    | some r => .ok ([], r)
    | none => do
      let r ← orDecode (eat ',' (skipWs cs))
      let (key, r) ← orDecode (scanKey n (skipWs r))
      let (v, r) ← scanValue lib n nesting r
      let (fields, r) ← scanMembers lib n nesting r
      return ((key, v) :: fields, r)

end

/-- `json.loads(text)` -/
def loads (lib : Libraries) (text : List Char) : Except Unread Json := do
  let (v, r) ← scanValue lib (text.length + 1) lib.nesting (skipWs text)
  if (skipWs r).isEmpty then return v else .error .decode

/-! ### The bound on the characters -/

section Bound

variable {lib : Libraries} {α β : Type} {cs r : List Char} {n m : Nat}

private theorem eat_length {ch : Char} (h : eat ch cs = some r) : r.length < cs.length := by
  rw [JsonText.eat_eq_some h]
  exact Nat.lt_succ_self _

private theorem skipWs_length (cs : List Char) : (skipWs cs).length ≤ cs.length :=
  (List.dropWhile_suffix _).length_le

private theorem scanLow_length {x : Nat} (h : scanLow cs = some (x, r)) : r.length ≤ cs.length := by
  unfold scanLow at h
  split at h
  · rename_i a b c d t heat
    obtain ⟨r₁, hslash, hu⟩ := Option.bind_eq_some_iff.1 heat
    obtain ⟨k, -, hk⟩ := Option.bind_eq_some_iff.1 h
    split at hk
    · obtain ⟨-, rfl⟩ := Prod.mk.inj (Option.some.inj hk)
      have h₁ := eat_length hslash
      have h₂ := eat_length hu
      simp only [List.length_cons] at h₂
      omega
    · cases hk
  · cases h

private theorem scanCode_length {p : CodePoint} (h : scanCode cs = some (p, r)) : r.length ≤ cs.length := by
  unfold scanCode at h
  split at h
  · rename_i a b c d t
    obtain ⟨k, -, hk⟩ := Option.map_eq_some_iff.1 h
    split at hk
    · rename_i x r' hlow
      obtain ⟨-, rfl⟩ := Prod.mk.inj hk
      split at hlow
      · have := scanLow_length hlow
        simp only [List.length_cons]
        omega
      · cases hlow
    · obtain ⟨-, rfl⟩ := Prod.mk.inj hk
      simp only [List.length_cons]
      omega
  · cases h

private theorem scanEscape_length {p : CodePoint} (h : scanEscape cs = some (p, r)) : r.length < cs.length := by
  cases cs with
  | nil => cases h
  | cons e t =>
    rw [scanEscape] at h
    split at h
    · have := scanCode_length h
      simp only [List.length_cons]
      omega
    · obtain ⟨c, -, hc⟩ := Option.map_eq_some_iff.1 h
      obtain ⟨-, rfl⟩ := Prod.mk.inj hc
      exact Nat.lt_succ_self _

private theorem scanString_length {s : PyStr} (h : scanString n cs = some (s, r)) : r.length < cs.length := by
  induction n generalizing cs s with
  | zero => cases h
  | succ n ih =>
    cases cs with
    | nil => cases h
    | cons c t =>
      rw [scanString] at h
      split at h
      · obtain ⟨-, rfl⟩ := Prod.mk.inj (Option.some.inj h)
        exact Nat.lt_succ_self _
      · split at h
        · obtain ⟨⟨p, r₁⟩, hescape, hrest⟩ := Option.bind_eq_some_iff.1 h
          obtain ⟨⟨s', r₂⟩, hstring, heq⟩ := Option.map_eq_some_iff.1 hrest
          obtain ⟨-, rfl⟩ := Prod.mk.inj heq
          have h₁ := scanEscape_length hescape
          have h₂ := ih hstring
          simp only [List.length_cons]
          omega
        · split at h
          · cases h
          · obtain ⟨⟨s', r₂⟩, hstring, heq⟩ := Option.map_eq_some_iff.1 h
            obtain ⟨-, rfl⟩ := Prod.mk.inj heq
            have h₂ := ih hstring
            simp only [List.length_cons]
            omega

private theorem scanString_bound (hn : cs.length < n) (hm : cs.length < m) : scanString n cs = scanString m cs := by
  induction n generalizing cs m with
  | zero => omega
  | succ n ih =>
    cases m with
    | zero => omega
    | succ m =>
      cases cs with
      | nil => rfl
      | cons c t =>
        rw [List.length_cons] at hn hm
        have hrest : ∀ {r : List Char}, r.length ≤ t.length → scanString n r = scanString m r :=
          fun hr => ih (by omega) (by omega)
        rw [scanString, scanString, hrest (Nat.le_refl _)]
        have hescape : ((scanEscape t).bind fun (p, r) => (scanString n r).map fun (s, r) => (p :: s, r)) =
            (scanEscape t).bind fun (p, r) => (scanString m r).map fun (s, r) => (p :: s, r) := by
          cases hread : scanEscape t with
          | none => rfl
          | some x =>
            obtain ⟨p, r⟩ := x
            simp only [Option.bind_some, hrest (scanEscape_length hread).le]
        rw [hescape]

private theorem scanKey_length {key : PyStr} (h : scanKey n cs = some (key, r)) : r.length < cs.length := by
  unfold scanKey at h
  obtain ⟨r₁, hquote, h⟩ := Option.bind_eq_some_iff.1 h
  obtain ⟨⟨s, r₂⟩, hstring, h⟩ := Option.bind_eq_some_iff.1 h
  obtain ⟨r₃, hcolon, heq⟩ := Option.map_eq_some_iff.1 h
  obtain ⟨-, rfl⟩ := Prod.mk.inj heq
  have h₁ := eat_length hquote
  have h₂ := scanString_length hstring
  have h₃ := eat_length hcolon
  have h₄ := skipWs_length r₂
  have h₅ := skipWs_length r₃
  omega

private theorem scanKey_bound (hn : cs.length ≤ n) (hm : cs.length ≤ m) : scanKey n cs = scanKey m cs := by
  unfold scanKey
  cases hquote : eat '"' cs with
  | none => rfl
  | some r =>
    have := eat_length hquote
    rw [Option.bind_some, Option.bind_some, scanString_bound (show r.length < n by omega) (show r.length < m by omega)]

/-- A reader leaves no more than it was given. -/
private def Short (x : Except Unread (α × List Char)) (cs : List Char) : Prop :=
  ∀ a r, x = .ok (a, r) → r.length ≤ cs.length

private theorem ok_bind {E A B : Type} (a : A) (f : A → Except E B) : (Except.ok a >>= f) = f a := rfl

private theorem short_error (e : Unread) : Short (.error e : Except Unread (α × List Char)) cs := nofun

private theorem short_ok {a : α} (h : r.length ≤ cs.length) : Short (.ok (a, r)) cs := by
  rintro a' r' heq
  obtain ⟨-, rfl⟩ := Prod.mk.inj (Except.ok.inj heq)
  exact h

private theorem short_bind {x : Except Unread (α × List Char)} {f : α × List Char → Except Unread (β × List Char)}
    (hx : Short x cs) (hf : ∀ a r, r.length ≤ cs.length → Short (f (a, r)) cs) : Short (x >>= f) cs := by
  cases x with
  | error e => exact short_error e
  | ok y => exact hf y.1 y.2 (hx y.1 y.2 rfl)

private theorem short_orDecode {x : Option (α × List Char)} (h : ∀ a r, x = some (a, r) → r.length ≤ cs.length) :
    Short (orDecode x) cs := by
  cases x with
  | none => exact short_error _
  | some y => exact short_ok (h y.1 y.2 rfl)

private theorem Short.mono {x : Except Unread (α × List Char)} (h : Short x r) (hle : r.length ≤ cs.length) : Short x cs :=
  fun a r' heq => (h a r' heq).trans hle

private theorem scanAtom_short (lib : Libraries) (cs : List Char) : Short (scanAtom lib cs) cs := by
  have hword : ∀ {word r : List Char} {v : Json}, afterWord word cs = some r → Short (.ok (v, r)) cs := by
    intro word r v h
    apply short_ok
    rw [JsonText.afterWord_eq_some h, List.length_append]
    omega
  unfold scanAtom
  iterate 6
    split
    · exact hword ‹_›
  refine short_bind (short_orDecode ?_) fun l r hr => ?_
  · intro l r h
    rw [(JsonText.scanNumber_split h).2, List.length_append]
    omega
  · dsimp only
    cases numberValue lib l with
    | error e => exact short_error e
    | ok v => exact short_ok hr

/-- The readers that may read so many characters leave no more than they were given. -/
private structure Shortens (lib : Libraries) (n : Nat) : Prop where
  value : ∀ nesting cs, Short (scanValue lib n nesting cs) cs
  elems : ∀ nesting cs, Short (scanElems lib n nesting cs) cs
  members : ∀ nesting cs, Short (scanMembers lib n nesting cs) cs

private theorem Shortens.value_succ (h : Shortens lib n) (nesting : Nat) (cs : List Char) :
    Short (scanValue lib (n + 1) nesting cs) cs := by
  cases cs with
  | nil => exact short_error _
  | cons c t =>
    have ht := skipWs_length t
    have hle : t.length ≤ (c :: t).length := Nat.le_succ _
    rw [scanValue]
    split
    · refine short_orDecode fun v r hread => ?_
      obtain ⟨⟨s, r'⟩, hstring, heq⟩ := Option.map_eq_some_iff.1 hread
      obtain ⟨-, rfl⟩ := Prod.mk.inj heq
      exact (scanString_length hstring).le.trans hle
    · split
      · cases enter nesting with
        | error e => exact short_error e
        | ok inner =>
          simp only [ok_bind]
          split
          · rename_i r heat
            exact short_ok (((eat_length heat).le.trans ht).trans hle)
          · refine short_bind ((h.value inner _).mono (ht.trans hle)) fun v r hr => ?_
            exact short_bind ((h.elems inner r).mono hr) fun vs r' hr' => short_ok hr'
      · split
        · cases enter nesting with
          | error e => exact short_error e
          | ok inner =>
            simp only [ok_bind]
            split
            · rename_i r heat
              exact short_ok (((eat_length heat).le.trans ht).trans hle)
            · refine short_bind (short_orDecode fun key r hkey => ?_) fun key r hr => ?_
              · exact ((scanKey_length hkey).le.trans ht).trans hle
              · refine short_bind ((h.value inner r).mono hr) fun v r hr => ?_
                exact short_bind ((h.members inner r).mono hr) fun fields r' hr' => short_ok hr'
        · exact scanAtom_short lib _

private theorem Shortens.elems_succ (h : Shortens lib n) (nesting : Nat) (cs : List Char) :
    Short (scanElems lib (n + 1) nesting cs) cs := by
  have hskip := skipWs_length cs
  rw [scanElems]
  split
  · rename_i r heat
    exact short_ok ((eat_length heat).le.trans hskip)
  · cases heat : eat ',' (skipWs cs) with
    | none => exact short_error _
    | some r =>
      have hr := (eat_length heat).le.trans hskip
      refine short_bind ((h.value nesting _).mono ((skipWs_length r).trans hr)) fun v r hr => ?_
      exact short_bind ((h.elems nesting r).mono hr) fun vs r' hr' => short_ok hr'

private theorem Shortens.members_succ (h : Shortens lib n) (nesting : Nat) (cs : List Char) :
    Short (scanMembers lib (n + 1) nesting cs) cs := by
  have hskip := skipWs_length cs
  rw [scanMembers]
  split
  · rename_i r heat
    exact short_ok ((eat_length heat).le.trans hskip)
  · cases heat : eat ',' (skipWs cs) with
    | none => exact short_error _
    | some r =>
      have hr := (eat_length heat).le.trans hskip
      refine short_bind (short_orDecode fun key r' hkey => ?_) fun key r hr => ?_
      · exact ((scanKey_length hkey).le.trans (skipWs_length r)).trans hr
      · refine short_bind ((h.value nesting r).mono hr) fun v r hr => ?_
        exact short_bind ((h.members nesting r).mono hr) fun fields r' hr' => short_ok hr'

private theorem shortens (lib : Libraries) (n : Nat) : Shortens lib n := by
  induction n with
  | zero => exact ⟨fun _ _ => short_error _, fun _ _ => short_error _, fun _ _ => short_error _⟩
  | succ n ih => exact ⟨ih.value_succ, ih.elems_succ, ih.members_succ⟩

/-- Two readers that go on in the same way behind what a third leaves. -/
private theorem bind_congr_short {x : Except Unread (α × List Char)} {f g : α × List Char → Except Unread (β × List Char)}
    (hx : Short x cs) (h : ∀ a r, r.length ≤ cs.length → f (a, r) = g (a, r)) : x >>= f = x >>= g := by
  cases x with
  | error e => rfl
  | ok y => exact h y.1 y.2 (hx y.1 y.2 rfl)

/-- Two bounds that make no difference to a text that both exceed. -/
private structure Agrees (lib : Libraries) (n m : Nat) : Prop where
  value : ∀ nesting cs, cs.length < n → cs.length < m → scanValue lib n nesting cs = scanValue lib m nesting cs
  elems : ∀ nesting cs, cs.length < n → cs.length < m → scanElems lib n nesting cs = scanElems lib m nesting cs
  members : ∀ nesting cs, cs.length < n → cs.length < m → scanMembers lib n nesting cs = scanMembers lib m nesting cs

/-- A value and the elements after it. -/
private theorem Agrees.items (h : Agrees lib n m) (nesting : Nat) (cs : List Char) (hn : cs.length < n)
    (hm : cs.length < m) (f : Json → List Json → List Char → Except Unread (α × List Char)) :
    (do
        let (v, r) ← scanValue lib n nesting cs
        let (vs, r) ← scanElems lib n nesting r
        f v vs r) =
      (do
        let (v, r) ← scanValue lib m nesting cs
        let (vs, r) ← scanElems lib m nesting r
        f v vs r) := by
  rw [h.value nesting cs hn hm]
  refine bind_congr_short ((shortens lib m).value nesting cs) fun v r hr => ?_
  simp only [h.elems nesting r (by omega) (by omega)]

/-- A key, its value and the members after them. -/
private theorem Agrees.fields (h : Agrees lib n m) (nesting : Nat) (cs : List Char) (hn : cs.length < n)
    (hm : cs.length < m) (f : PyStr → Json → List (PyStr × Json) → List Char → Except Unread (α × List Char)) :
    (do
        let (key, r) ← orDecode (scanKey n cs)
        let (v, r) ← scanValue lib n nesting r
        let (fields, r) ← scanMembers lib n nesting r
        f key v fields r) =
      (do
        let (key, r) ← orDecode (scanKey m cs)
        let (v, r) ← scanValue lib m nesting r
        let (fields, r) ← scanMembers lib m nesting r
        f key v fields r) := by
  have hkey : Short (orDecode (scanKey m cs)) cs := short_orDecode fun key r hread => (scanKey_length hread).le
  rw [scanKey_bound hn.le hm.le]
  refine bind_congr_short hkey fun key r hr => ?_
  dsimp only
  rw [h.value nesting r (by omega) (by omega)]
  refine bind_congr_short ((shortens lib m).value nesting r) fun v r' hr' => ?_
  simp only [h.members nesting r' (by omega) (by omega)]

private theorem Agrees.value_succ (h : Agrees lib n m) (nesting : Nat) (cs : List Char) (hn : cs.length < n + 1)
    (hm : cs.length < m + 1) : scanValue lib (n + 1) nesting cs = scanValue lib (m + 1) nesting cs := by
  cases cs with
  | nil => rfl
  | cons c t =>
    have ht := skipWs_length t
    rw [List.length_cons] at hn hm
    rw [scanValue, scanValue, scanString_bound (show t.length < n by omega) (show t.length < m by omega)]
    split
    · rfl
    · split
      · cases enter nesting with
        | error e => rfl
        | ok inner =>
          simp only [ok_bind]
          split
          · rfl
          · exact h.items inner (skipWs t) (by omega) (by omega) fun v vs r => return (Json.arr (v :: vs), r)
      · split
        · cases enter nesting with
          | error e => rfl
          | ok inner =>
            simp only [ok_bind]
            split
            · rfl
            · exact h.fields inner (skipWs t) (by omega) (by omega) fun key v fields r =>
                return (Json.obj ((key, v) :: fields), r)
        · rfl

private theorem Agrees.elems_succ (h : Agrees lib n m) (nesting : Nat) (cs : List Char) (hn : cs.length < n + 1)
    (hm : cs.length < m + 1) : scanElems lib (n + 1) nesting cs = scanElems lib (m + 1) nesting cs := by
  have hskip := skipWs_length cs
  rw [scanElems, scanElems]
  split
  · rfl
  · cases heat : eat ',' (skipWs cs) with
    | none => rfl
    | some t =>
      have ht := eat_length heat
      have htt := skipWs_length t
      exact h.items nesting (skipWs t) (by omega) (by omega) fun v vs r => return (v :: vs, r)

private theorem Agrees.members_succ (h : Agrees lib n m) (nesting : Nat) (cs : List Char) (hn : cs.length < n + 1)
    (hm : cs.length < m + 1) : scanMembers lib (n + 1) nesting cs = scanMembers lib (m + 1) nesting cs := by
  have hskip := skipWs_length cs
  rw [scanMembers, scanMembers]
  split
  · rfl
  · cases heat : eat ',' (skipWs cs) with
    | none => rfl
    | some t =>
      have ht := eat_length heat
      have htt := skipWs_length t
      exact h.fields nesting (skipWs t) (by omega) (by omega) fun key v fields r => return ((key, v) :: fields, r)

private theorem agrees (lib : Libraries) (n m : Nat) : Agrees lib n m := by
  induction n generalizing m with
  | zero =>
    have hnone : ∀ {k : Nat}, ¬ k < 0 := Nat.not_lt_zero _
    exact ⟨fun _ _ h => absurd h hnone, fun _ _ h => absurd h hnone, fun _ _ h => absurd h hnone⟩
  | succ n ih =>
    cases m with
    | zero =>
      have hnone : ∀ {k : Nat}, ¬ k < 0 := Nat.not_lt_zero _
      exact ⟨fun _ _ _ h => absurd h hnone, fun _ _ _ h => absurd h hnone, fun _ _ _ h => absurd h hnone⟩
    | succ m => exact ⟨(ih m).value_succ, (ih m).elems_succ, (ih m).members_succ⟩

/-- A reader that may read as many characters as there are reads the same as one that may read more. -/
theorem scanValue_bound (lib : Libraries) {n m : Nat} (nesting : Nat) (hn : cs.length < n) (hm : cs.length < m) :
    scanValue lib n nesting cs = scanValue lib m nesting cs :=
  (agrees lib n m).value nesting cs hn hm

/-- A surrogate on its own stays in the string, and a pair of them is one code point. -/
example (lib : Libraries) : loads lib "\"\\ud800 \\ud83d\\ude00\"".toList = .ok (.str [0xD800, 0x20, 0x1F600]) := rfl

end Bound

end IronHarness.Python
