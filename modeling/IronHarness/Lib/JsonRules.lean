import IronHarness.Lib.Json

/-!
# What the scanners read

A value, the elements behind the first one and the members behind the first one each have a few forms.  `ValueRule`,
`ElemsRule` and `FieldsRule` list the forms, each with what is read and the text after it, and the scanners read these
forms exactly.
-/

namespace JsonText

variable {F : Type} [JsonFloat F] {n : Nat}

/-- The forms of a value. -/
inductive ValueRule (n : Nat) : List Char → Value F → List Char → Prop
  | str {t s r : List Char} (hs : scanString n t = some (s, r)) : ValueRule n ('"' :: t) (.str (String.ofList s)) r
  | emptyArr {t r : List Char} (hclose : eat ']' (skipWs t) = some r) : ValueRule n ('[' :: t) (.arr []) r
  | arr {t r r' : List Char} {v : Value F} {vs : List (Value F)} (hopen : eat ']' (skipWs t) = none)
      (hv : scanValue n (skipWs t) = some (v, r)) (hvs : scanElems n r = some (vs, r')) :
      ValueRule n ('[' :: t) (.arr (v :: vs)) r'
  | emptyObj {t r : List Char} (hclose : eat '}' (skipWs t) = some r) : ValueRule n ('{' :: t) (.obj []) r
  | obj {t r r' r'' : List Char} {k : String} {v : Value F} {fs : List (String × Value F)}
      (hopen : eat '}' (skipWs t) = none) (hk : scanKey n (skipWs t) = some (k, r)) (hv : scanValue n r = some (v, r'))
      (hfs : scanFields n r' = some (fs, r'')) : ValueRule n ('{' :: t) (.obj (toDict ((k, v) :: fs))) r''
  | atom {c : Char} {t r : List Char} {v : Value F} (hc : c ≠ '"' ∧ c ≠ '[' ∧ c ≠ '{')
      (hv : scanAtom (c :: t) = some (v, r)) : ValueRule n (c :: t) v r

/-- The forms of the elements after the first one. -/
inductive ElemsRule (n : Nat) : List Char → List (Value F) → List Char → Prop
  | close {cs r : List Char} (hclose : eat ']' (skipWs cs) = some r) : ElemsRule n cs [] r
  | next {cs t r r' : List Char} {v : Value F} {vs : List (Value F)} (hopen : eat ']' (skipWs cs) = none)
      (hcomma : eat ',' (skipWs cs) = some t) (hv : scanValue n (skipWs t) = some (v, r))
      (hvs : scanElems n r = some (vs, r')) : ElemsRule n cs (v :: vs) r'

/-- The forms of the members after the first one. -/
inductive FieldsRule (n : Nat) : List Char → List (String × Value F) → List Char → Prop
  | close {cs r : List Char} (hclose : eat '}' (skipWs cs) = some r) : FieldsRule n cs [] r
  | next {cs t r r' r'' : List Char} {k : String} {v : Value F} {fs : List (String × Value F)}
      (hopen : eat '}' (skipWs cs) = none) (hcomma : eat ',' (skipWs cs) = some t)
      (hk : scanKey n (skipWs t) = some (k, r)) (hv : scanValue n r = some (v, r'))
      (hfs : scanFields n r' = some (fs, r'')) : FieldsRule n cs ((k, v) :: fs) r''

theorem scanValue_iff {cs r : List Char} {v : Value F} : scanValue (n + 1) cs = some (v, r) ↔ ValueRule n cs v r := by
  constructor
  · intro h
    cases cs with
    | nil => cases h
    | cons c t =>
      rw [scanValue] at h
      by_cases hq : c = '"'
      · rw [if_pos hq] at h
        obtain ⟨⟨s, r'⟩, hs, heq⟩ := Option.map_eq_some_iff.1 h
        obtain ⟨rfl, rfl⟩ := Prod.mk.inj heq
        exact hq ▸ .str hs
      rw [if_neg hq] at h
      by_cases hb : c = '['
      · rw [if_pos hb] at h
        subst hb
        cases hclose : eat ']' (skipWs t) with
        | some t' =>
          rw [hclose] at h
          obtain ⟨rfl, rfl⟩ := Prod.mk.inj (Option.some.inj h)
          exact .emptyArr hclose
        | none =>
          rw [hclose] at h
          obtain ⟨⟨w, t'⟩, hw, h⟩ := Option.bind_eq_some_iff.1 h
          obtain ⟨⟨ws, r'⟩, hws, heq⟩ := Option.map_eq_some_iff.1 h
          obtain ⟨rfl, rfl⟩ := Prod.mk.inj heq
          exact .arr hclose hw hws
      rw [if_neg hb] at h
      by_cases ho : c = '{'
      · rw [if_pos ho] at h
        subst ho
        cases hclose : eat '}' (skipWs t) with
        | some t' =>
          rw [hclose] at h
          obtain ⟨rfl, rfl⟩ := Prod.mk.inj (Option.some.inj h)
          exact .emptyObj hclose
        | none =>
          rw [hclose] at h
          obtain ⟨⟨k, t1⟩, hk, h⟩ := Option.bind_eq_some_iff.1 h
          obtain ⟨⟨w, t2⟩, hw, h⟩ := Option.bind_eq_some_iff.1 h
          obtain ⟨⟨fs, r'⟩, hfs, heq⟩ := Option.map_eq_some_iff.1 h
          obtain ⟨rfl, rfl⟩ := Prod.mk.inj heq
          exact .obj hclose hk hw hfs
      · rw [if_neg ho] at h
        exact .atom ⟨hq, hb, ho⟩ h
  · intro h
    cases h with
    | str hs => simp [scanValue, hs]
    | emptyArr hclose => simp [scanValue, hclose]
    | arr hopen hv hvs => simp [scanValue, hopen, hv, hvs]
    | emptyObj hclose => simp [scanValue, hclose]
    | obj hopen hk hv hfs => simp [scanValue, hopen, hk, hv, hfs]
    | atom hc hv => rw [scanValue, if_neg hc.1, if_neg hc.2.1, if_neg hc.2.2, hv]

theorem scanElems_iff {cs r : List Char} {vs : List (Value F)} :
    scanElems (n + 1) cs = some (vs, r) ↔ ElemsRule n cs vs r := by
  constructor
  · intro h
    rw [scanElems] at h
    cases hclose : eat ']' (skipWs cs) with
    | some t =>
      rw [hclose] at h
      obtain ⟨rfl, rfl⟩ := Prod.mk.inj (Option.some.inj h)
      exact .close hclose
    | none =>
      rw [hclose] at h
      obtain ⟨t, hcomma, h⟩ := Option.bind_eq_some_iff.1 h
      obtain ⟨⟨w, t'⟩, hw, h⟩ := Option.bind_eq_some_iff.1 h
      obtain ⟨⟨ws, r'⟩, hws, heq⟩ := Option.map_eq_some_iff.1 h
      obtain ⟨rfl, rfl⟩ := Prod.mk.inj heq
      exact .next hclose hcomma hw hws
  · intro h
    cases h with
    | close hclose => simp [scanElems, hclose]
    | next hopen hcomma hv hvs => simp [scanElems, hopen, hcomma, hv, hvs]

theorem scanFields_iff {cs r : List Char} {fs : List (String × Value F)} :
    scanFields (n + 1) cs = some (fs, r) ↔ FieldsRule n cs fs r := by
  constructor
  · intro h
    rw [scanFields] at h
    cases hclose : eat '}' (skipWs cs) with
    | some t =>
      rw [hclose] at h
      obtain ⟨rfl, rfl⟩ := Prod.mk.inj (Option.some.inj h)
      exact .close hclose
    | none =>
      rw [hclose] at h
      obtain ⟨t, hcomma, h⟩ := Option.bind_eq_some_iff.1 h
      obtain ⟨⟨k, t1⟩, hk, h⟩ := Option.bind_eq_some_iff.1 h
      obtain ⟨⟨w, t2⟩, hw, h⟩ := Option.bind_eq_some_iff.1 h
      obtain ⟨⟨gs, r'⟩, hgs, heq⟩ := Option.map_eq_some_iff.1 h
      obtain ⟨rfl, rfl⟩ := Prod.mk.inj heq
      exact .next hclose hcomma hk hw hgs
  · intro h
    cases h with
    | close hclose => simp [scanFields, hclose]
    | next hopen hcomma hk hv hfs => simp [scanFields, hopen, hcomma, hk, hv, hfs]

end JsonText
