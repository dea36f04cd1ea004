import IronHarness.Lib.Json
import Mathlib.Data.List.TakeWhile

/-!
# The parser inverts the printer

Every printed value followed by a text that cannot continue a number is parsed back, and the rest is that text
(`scanValue_dumps`); so `loads (dumps v) = some v` for a value whose dictionaries have distinct keys.
-/

namespace JsonText

variable {F : Type}

/-! ### Scanning steps -/

@[simp] theorem eat_self (c : Char) (r : List Char) : eat c (c :: r) = some r := by simp [eat]

theorem eat_ne {c d : Char} (h : d ≠ c) (r : List Char) : eat c (d :: r) = none := by simp [eat, h]

theorem eat_eq_some {ch : Char} {cs r : List Char} (h : eat ch cs = some r) : cs = ch :: r := by
  cases cs with
  | nil => cases h
  | cons c cs =>
    by_cases hc : c = ch
    · rw [eat, if_pos hc] at h
      rw [hc, Option.some.inj h]
    · rw [eat, if_neg hc] at h
      cases h

theorem skipWs_cons_of_ne {c : Char} (h : isWs c = false) (r : List Char) : skipWs (c :: r) = c :: r := by
  simp [skipWs, h]

@[simp] theorem skipWs_space (r : List Char) : skipWs (' ' :: r) = skipWs r := by
  simp [skipWs, isWs]

/-- The text does not go on with a digit, a fraction or an exponent. -/
def Stops (r : List Char) : Prop :=
  ∀ c ∈ r.head?, c.isDigit = false ∧ c ≠ '.' ∧ c ≠ 'e' ∧ c ≠ 'E'

theorem stops_nil : Stops [] := by intro c h; simp at h

theorem stops_cons {c : Char} (h : c.isDigit = false ∧ c ≠ '.' ∧ c ≠ 'e' ∧ c ≠ 'E') (r : List Char) :
    Stops (c :: r) := by
  intro d hd
  obtain rfl : c = d := by simpa using hd
  exact h

/-! ### Numbers -/

private theorem scanDigits_append {ds r : List Char} (hds : allDigits ds = true)
    (hr : ∀ c ∈ r.head?, c.isDigit = false) : scanDigits (ds ++ r) = (ds, r) := by
  have hall : ∀ c ∈ ds, c.isDigit = true := by simpa [allDigits] using hds
  have hstop : r.takeWhile Char.isDigit = [] ∧ r.dropWhile Char.isDigit = r := by
    cases r with
    | nil => exact ⟨rfl, rfl⟩
    | cons c r =>
      have hc := hr c rfl
      exact ⟨by simp [hc], by simp [hc]⟩
  unfold scanDigits
  rw [List.takeWhile_append_of_pos hall, List.dropWhile_append_of_pos hall, hstop.1, hstop.2, List.append_nil]

private theorem isDigit_ne {c : Char} (h : c.isDigit = true) :
    c ≠ '"' ∧ c ≠ '[' ∧ c ≠ '{' ∧ c ≠ '-' ∧ c ≠ '+' ∧ c ≠ 'n' ∧ c ≠ 't' ∧ c ≠ 'f' ∧ c ≠ 'N' ∧ c ≠ 'I' := by
  refine ⟨?_, ?_, ?_, ?_, ?_, ?_, ?_, ?_, ?_, ?_⟩ <;> (rintro rfl; revert h; decide)

def fracText (frac : Option (List Char)) : List Char :=
  match frac with
  | none => []
  | some ds => '.' :: ds

def expText (exp : Option (Char × Option Char × List Char)) : List Char :=
  match exp with
  | none => []
  | some (e, sign, ds) => e :: (sign.toList ++ ds)

private theorem scanInt_append {int r : List Char} (hd : allDigits int = true) (hne : int ≠ [])
    (hlead : int.head? ≠ some '0' ∨ int.length = 1) (hr : ∀ c ∈ r.head?, c.isDigit = false) :
    scanInt (int ++ r) = some (int, r) := by
  have hscan := scanDigits_append hd hr
  cases int with
  | nil => exact absurd rfl hne
  | cons d ds =>
    have hdig : d.isDigit = true := by
      have : ∀ c ∈ d :: ds, c.isDigit = true := by simpa [allDigits] using hd
      exact this d List.mem_cons_self
    rw [List.cons_append] at hscan ⊢
    rw [scanInt]
    by_cases h0 : d = '0'
    · have hlen : ds = [] := by
        rcases hlead with h | h
        · exact absurd (by rw [h0]; rfl) h
        · simpa using h
      rw [if_pos h0, h0, hlen, List.nil_append]
    · rw [if_neg h0, if_pos hdig, hscan]

private theorem scanFrac_append {frac : Option (List Char)} {r : List Char}
    (hv : ∀ ds ∈ frac, allDigits ds = true ∧ ds ≠ [])
    (hr : ∀ c ∈ r.head?, c.isDigit = false ∧ c ≠ '.') : scanFrac (fracText frac ++ r) = (frac, r) := by
  cases frac with
  | none =>
    have hdot : eat '.' r = none := by
      cases r with
      | nil => rfl
      | cons c r => exact eat_ne (hr c rfl).2 r
    simp [fracText, scanFrac, hdot]
  | some ds =>
    obtain ⟨hd, hne⟩ := hv ds rfl
    have hscan := scanDigits_append hd (fun c hc => (hr c hc).1)
    simp [fracText, scanFrac, hscan, hne]

private theorem scanSign_append {sign : Option Char} {r : List Char}
    (hs : sign = none ∨ sign = some '+' ∨ sign = some '-') (hr : ∃ c t, r = c :: t ∧ c.isDigit = true) :
    scanSign (sign.toList ++ r) = (sign, r) := by
  obtain ⟨c, t, rfl, hc⟩ := hr
  obtain ⟨-, -, -, hminus, hplus, -⟩ := isDigit_ne hc
  rcases hs with rfl | rfl | rfl
  · simp [scanSign, eat_ne hplus, eat_ne hminus]
  · simp [scanSign]
  · simp [scanSign, eat]

private theorem scanExp_append {exp : Option (Char × Option Char × List Char)} {r : List Char}
    (hv : ∀ x ∈ exp, (x.1 = 'e' ∨ x.1 = 'E') ∧ (x.2.1 = none ∨ x.2.1 = some '+' ∨ x.2.1 = some '-') ∧
      allDigits x.2.2 = true ∧ x.2.2 ≠ [])
    (hr : Stops r) : scanExp (expText exp ++ r) = (exp, r) := by
  cases exp with
  | none =>
    cases r with
    | nil => rfl
    | cons c r =>
      obtain ⟨-, -, he, hE⟩ := hr c rfl
      simp [expText, scanExp, he, hE]
  | some x =>
    obtain ⟨e, sign, ds⟩ := x
    obtain ⟨he, hs, hd, hne⟩ := hv _ rfl
    have hhead : ∃ c t, ds ++ r = c :: t ∧ c.isDigit = true := by
      cases ds with
      | nil => exact absurd rfl hne
      | cons c ds =>
        have : ∀ d ∈ c :: ds, d.isDigit = true := by simpa [allDigits] using hd
        exact ⟨c, ds ++ r, rfl, this c List.mem_cons_self⟩
    have hsign := scanSign_append hs hhead
    have hscan := scanDigits_append hd (fun c hc => (hr c hc).1)
    simp only [expText, List.cons_append, List.append_assoc, scanExp]
    rw [if_pos he, hsign]
    simp [hscan, hne]

/-- The parts of a valid literal. -/
theorem NumLit.valid_parts {l : NumLit} (h : l.valid = true) :
    allDigits l.int = true ∧ l.int ≠ [] ∧ (l.int.head? ≠ some '0' ∨ l.int.length = 1) ∧
    (∀ ds ∈ l.frac, allDigits ds = true ∧ ds ≠ []) ∧
    (∀ x ∈ l.exp, (x.1 = 'e' ∨ x.1 = 'E') ∧ (x.2.1 = none ∨ x.2.1 = some '+' ∨ x.2.1 = some '-') ∧
      allDigits x.2.2 = true ∧ x.2.2 ≠ []) := by
  obtain ⟨neg, int, frac, exp⟩ := l
  simp only [NumLit.valid, Bool.and_eq_true, Bool.or_eq_true, Bool.not_eq_true', bne_iff_ne, beq_iff_eq,
    List.isEmpty_eq_false_iff] at h
  obtain ⟨⟨⟨⟨h1, h2⟩, h3⟩, h4⟩, h5⟩ := h
  refine ⟨h1, h2, h3, ?_, ?_⟩
  · rintro ds rfl
    simpa using h4
  · rintro ⟨e, sign, ds⟩ rfl
    simp at h5
    exact ⟨h5.1.1.1, or_assoc.1 h5.1.1.2, h5.1.2, h5.2⟩

theorem NumLit.valid_of_parts {neg : Bool} {int : List Char} {frac : Option (List Char)}
    {exp : Option (Char × Option Char × List Char)} (h1 : allDigits int = true) (h2 : int ≠ [])
    (h3 : int.head? ≠ some '0' ∨ int.length = 1) (h4 : ∀ ds ∈ frac, allDigits ds = true ∧ ds ≠ [])
    (h5 : ∀ x ∈ exp, (x.1 = 'e' ∨ x.1 = 'E') ∧ (x.2.1 = none ∨ x.2.1 = some '+' ∨ x.2.1 = some '-') ∧
      allDigits x.2.2 = true ∧ x.2.2 ≠ []) : (⟨neg, int, frac, exp⟩ : NumLit).valid = true := by
  simp only [NumLit.valid, Bool.and_eq_true, Bool.or_eq_true, Bool.not_eq_true', bne_iff_ne, beq_iff_eq,
    List.isEmpty_eq_false_iff]
  refine ⟨⟨⟨⟨h1, h2⟩, h3⟩, ?_⟩, ?_⟩
  · cases frac with
    | none => rfl
    | some ds => simpa using h4 ds rfl
  · cases exp with
    | none => rfl
    | some x =>
      obtain ⟨hletter, hsign, hd, hne⟩ := h5 x rfl
      simpa [or_assoc] using ⟨⟨⟨hletter, hsign⟩, hd⟩, hne⟩

theorem NumLit.text_eq (l : NumLit) :
    l.text = (if l.neg then ['-'] else []) ++ (l.int ++ (fracText l.frac ++ expText l.exp)) := by
  obtain ⟨neg, int, frac, exp⟩ := l
  cases frac <;> cases exp <;> simp [NumLit.text, fracText, expText]

private theorem scanNumber_text {l : NumLit} (h : l.valid = true) {r : List Char} (hr : Stops r) :
    scanNumber (l.text ++ r) = some (l, r) := by
  obtain ⟨h1, h2, h3, h4, h5⟩ := NumLit.valid_parts h
  rw [NumLit.text_eq]
  obtain ⟨neg, int, frac, exp⟩ := l
  dsimp only at h1 h2 h3 h4 h5 ⊢
  have hexp := scanExp_append h5 hr
  -- what follows the fraction, and what follows the integer part
  have hstopE : ∀ c ∈ (expText exp ++ r).head?, c.isDigit = false ∧ c ≠ '.' := by
    intro c hc
    cases exp with
    | none => exact ⟨(hr c hc).1, (hr c hc).2.1⟩
    | some x =>
      obtain ⟨he, -⟩ := h5 x rfl
      obtain rfl : x.1 = c := by simpa [expText] using hc
      rcases he with he | he <;> rw [he] <;> decide
  have hstopF : ∀ c ∈ (fracText frac ++ (expText exp ++ r)).head?, c.isDigit = false := by
    intro c hc
    cases frac with
    | none => exact (hstopE c hc).1
    | some ds =>
      obtain rfl : '.' = c := by simpa [fracText] using hc
      decide
  have hfrac := scanFrac_append h4 hstopE
  have hint := scanInt_append h1 h2 h3 hstopF
  simp only [List.append_assoc, scanNumber]
  cases neg with
  | true => simp [hint, hfrac, hexp]
  | false =>
    have hminus : eat '-' (int ++ (fracText frac ++ (expText exp ++ r))) = none := by
      cases int with
      | nil => exact absurd rfl h2
      | cons d ds =>
        have hd : ∀ c ∈ d :: ds, c.isDigit = true := by simpa [allDigits] using h1
        have hdig := hd d List.mem_cons_self
        exact eat_ne (isDigit_ne hdig).2.2.2.1 _
    simp [hminus, hint, hfrac, hexp]

/-! ### Integers -/

private theorem head_toDigits {n : Nat} (hn : 0 < n) : (Nat.toDigits 10 n).head? ≠ some '0' := by
  induction n using Nat.strongRecOn with
  | _ n ih =>
    rw [Nat.toDigits_eq_if (by decide : 1 < 10)]
    by_cases h : n < 10
    · rw [if_pos h]
      have : ∀ k < 10, 0 < k → [Nat.digitChar k].head? ≠ some '0' := by decide
      exact this n h hn
    · rw [if_neg h]
      have hne : Nat.toDigits 10 (n / 10) ≠ [] := Nat.toDigits_ne_nil
      rw [List.head?_append_of_ne_nil _ hne]
      exact ih (n / 10) (by omega) (by omega)

private theorem allDigits_toDigits (n : Nat) : allDigits (Nat.toDigits 10 n) = true := by
  rw [allDigits, List.all_eq_true]
  intro c hc
  exact Nat.isDigit_of_mem_toDigits (by decide : 0 < 10) (by decide) hc

theorem intLit_valid (n : Int) : (intLit n).valid = true := by
  have hlead : (Nat.toDigits 10 n.natAbs).head? ≠ some '0' ∨ (Nat.toDigits 10 n.natAbs).length = 1 := by
    rcases Nat.eq_zero_or_pos n.natAbs with h | h
    · right; rw [h]; rfl
    · exact Or.inl (head_toDigits h)
  simp [NumLit.valid, intLit, allDigits_toDigits, hlead]

private theorem numberValue_intLit [JsonFloat F] (n : Int) : (numberValue (intLit n) : Value F) = .int n := by
  have hval : Nat.ofDigitChars 10 (Nat.toDigits 10 n.natAbs) 0 = n.natAbs := Nat.ofDigitChars_ten_toDigits
  simp only [numberValue, intLit, Option.isSome_none, Bool.or_self, Bool.false_eq_true, ↓reduceIte, hval,
    decide_eq_true_eq]
  split <;> (congr 1; omega)

/-! ### Strings -/

private theorem hex4_control {n : Nat} (hn : n < 0x20) :
    hex4 '0' '0' (Nat.digitChar (n / 16)) (Nat.digitChar (n % 16)) = some n := by
  have : ∀ n < 0x20, hex4 '0' '0' (Nat.digitChar (n / 16)) (Nat.digitChar (n % 16)) = some n := by decide
  exact this n hn

/-- A text between quotes that spells a string: characters that stand for themselves, and escapes. -/
inductive Spells : List Char → List Char → Prop
  | nil : Spells [] []
  | plain {c : Char} {body s : List Char} (hc : c ≠ '"' ∧ c ≠ '\\' ∧ ¬ c.toNat < 0x20) (h : Spells body s) :
      Spells (c :: body) (c :: s)
  | escaped (code : List Char) {c : Char} {body s : List Char} (hcode : ∀ r, scanEscape (code ++ r) = some (c, r))
      (hplain : '<' ∉ code ∧ ∀ d ∈ code.tail, d ≠ '"' ∧ d ≠ '\\') (h : Spells body s) :
      Spells ('\\' :: code ++ body) (c :: s)

private theorem scanString_spells {n : Nat} {body s : List Char} (h : Spells body s) (hn : body.length < n)
    (r : List Char) :
    scanString n (body ++ '"' :: r) = some (s, r) := by
  induction h generalizing n with
  | nil =>
    obtain ⟨n, rfl⟩ : ∃ k, n = k + 1 := ⟨n - 1, by simp at hn; omega⟩
    rfl
  | @plain c body s hc h ih =>
    obtain ⟨n, rfl⟩ : ∃ k, n = k + 1 := ⟨n - 1, by omega⟩
    simp only [List.length_cons] at hn
    rw [List.cons_append, scanString, if_neg hc.1, if_neg hc.2.1, if_neg hc.2.2, ih (by omega)]
    rfl
  | @escaped code c body s hcode _ h ih =>
    obtain ⟨n, rfl⟩ : ∃ k, n = k + 1 := ⟨n - 1, by omega⟩
    simp only [List.cons_append, List.length_cons, List.length_append] at hn
    rw [List.cons_append, List.cons_append, List.append_assoc, scanString, if_neg (by decide), if_pos rfl, hcode,
      Option.bind_some]
    have hrest := ih (n := n) (by omega)
    simp [hrest]

private theorem spells_escape (c : Char) {body s : List Char} (h : Spells body s) :
    Spells (escape c ++ body) (c :: s) := by
  by_cases hshort : c ∈ ['"', '\\', '\n', '\r', '\t', '\x0c', '\x08']
  · -- a two-character escape
    simp only [List.mem_cons, List.not_mem_nil, or_false] at hshort
    rcases hshort with rfl | rfl | rfl | rfl | rfl | rfl | rfl
    · exact .escaped ['"'] (fun _ => rfl) (by simp) h
    · exact .escaped ['\\'] (fun _ => rfl) (by simp) h
    · exact .escaped ['n'] (fun _ => rfl) (by simp) h
    · exact .escaped ['r'] (fun _ => rfl) (by simp) h
    · exact .escaped ['t'] (fun _ => rfl) (by simp) h
    · exact .escaped ['f'] (fun _ => rfl) (by simp) h
    · exact .escaped ['b'] (fun _ => rfl) (by simp) h
  · simp only [List.mem_cons, List.not_mem_nil, or_false, not_or] at hshort
    obtain ⟨h1, h2, h3, h4, h5, h6, h7⟩ := hshort
    by_cases hc : c.toNat < 0x20
    · have hcode : (Char.ofNat c.toNat) = c := Char.ofNat_toNat c
      have hdigit : ∀ m < 16, Nat.digitChar m ≠ '<' ∧ Nat.digitChar m ≠ '"' ∧ Nat.digitChar m ≠ '\\' := by decide
      obtain ⟨hhigh, hhighQuote, hhighSlash⟩ := hdigit (c.toNat / 16) (by omega)
      obtain ⟨hlow, hlowQuote, hlowSlash⟩ := hdigit (c.toNat % 16) (Nat.mod_lt _ (by decide))
      simp only [escape, h1, h2, h3, h4, h5, h6, h7, hc, ↓reduceIte]
      refine .escaped ['u', '0', '0', Nat.digitChar (c.toNat / 16), Nat.digitChar (c.toNat % 16)] ?_ ?_ h
      · intro r
        simp only [List.cons_append, List.nil_append, scanEscape, ↓reduceIte, scanCode, hex4_control hc]
        rw [if_pos (Or.inl (by omega)), hcode]
      · simp [hhigh.symm, hhighQuote, hhighSlash, hlow.symm, hlowQuote, hlowSlash]
    · simp only [escape, h1, h2, h3, h4, h5, h6, h7, hc, ↓reduceIte, List.cons_append, List.nil_append]
      exact .plain ⟨h1, h2, hc⟩ h

theorem spells_flatMap (s : List Char) : Spells (s.flatMap escape) s := by
  induction s with
  | nil => exact .nil
  | cons c s ih => exact spells_escape c ih

/-! ### Dictionaries -/

private theorem foldl_setField {fs acc : List (String × Value F)} (h : ((acc ++ fs).map Prod.fst).Nodup) :
    fs.foldl (fun fields (k, v) => setField fields k v) acc = acc ++ fs := by
  induction fs generalizing acc with
  | nil => simp
  | cons f fs ih =>
    obtain ⟨k, v⟩ := f
    have hk : acc.any (·.1 == k) = false := by
      rw [List.any_eq_false]
      intro x hx heq
      rw [List.map_append, List.map_cons, List.nodup_append] at h
      exact h.2.2 x.1 (List.mem_map_of_mem hx) k List.mem_cons_self (by simpa using heq)
    have hset : setField acc k v = acc ++ [(k, v)] := by rw [setField, hk]; rfl
    rw [List.foldl_cons]
    simp only [hset]
    rw [ih (by rw [List.append_assoc]; exact h), List.append_assoc]
    rfl

private theorem toDict_of_nodup {fs : List (String × Value F)} (h : (fs.map Prod.fst).Nodup) : toDict fs = fs := by
  rw [toDict, foldl_setField (by simpa using h), List.nil_append]

/-! ### Atoms -/

theorem scanAtom_number [JsonFloat F] {l : NumLit} (h : l.valid = true) {r : List Char} (hr : Stops r) :
    scanAtom (l.text ++ r) = some ((numberValue l : Value F), r) := by
  have hscan := scanNumber_text h hr
  obtain ⟨h1, h2, -⟩ := NumLit.valid_parts h
  rw [NumLit.text_eq] at hscan ⊢
  obtain ⟨neg, int, frac, exp⟩ := l
  obtain ⟨d, ds, rfl⟩ : ∃ d ds, int = d :: ds := List.exists_cons_of_ne_nil h2
  have hd : d.isDigit = true := by
    have hall : ∀ c ∈ d :: ds, c.isDigit = true := by simpa [allDigits] using h1
    exact hall d List.mem_cons_self
  obtain ⟨-, -, -, hm, -, hn, ht, hf, hN, hI⟩ := isDigit_ne hd
  -- a number starts with a digit, or with a minus and a digit, so it starts with none of the words
  cases neg with
  | false =>
    simp only [Bool.false_eq_true, ↓reduceIte, List.nil_append, List.cons_append, List.append_assoc] at hscan ⊢
    simp [scanAtom, afterWord, hn.symm, ht.symm, hf.symm, hN.symm, hI.symm, hm.symm, hscan]
  | true =>
    simp only [↓reduceIte, List.cons_append, List.nil_append, List.append_assoc] at hscan ⊢
    simp [scanAtom, afterWord, hI.symm, hscan]

private theorem scanAtom_float [JsonFloat F] (x : F) {r : List Char} (hr : Stops r) :
    scanAtom ((JsonFloat.lit x).text ++ r) = some ((.float x : Value F), r) := by
  have hof : JsonFloat.ofLit (JsonFloat.lit x) = x := JsonFloat.ofLit_lit x
  have hvalid := JsonFloat.lit_valid x
  cases hl : JsonFloat.lit x with
  | nan => rw [hl] at hof; simp [FloatLit.text, scanAtom, afterWord, hof]
  | inf neg =>
    rw [hl] at hof
    cases neg with
    | true => simp [FloatLit.text, scanAtom, afterWord, hof]
    | false => simp [FloatLit.text, scanAtom, afterWord, hof]
  | num l =>
    rw [hl, FloatLit.valid, Bool.and_eq_true] at hvalid
    rw [hl] at hof
    rw [FloatLit.text, scanAtom_number hvalid.1 hr, numberValue, if_pos hvalid.2, hof]

/-! ### Values -/

private theorem NumLit.text_head {l : NumLit} (h : l.valid = true) :
    ∃ c t, l.text = c :: t ∧ (c.isDigit = true ∨ c = '-') := by
  obtain ⟨h1, h2, -⟩ := NumLit.valid_parts h
  obtain ⟨d, ds, hint⟩ := List.exists_cons_of_ne_nil h2
  have hall : ∀ c ∈ l.int, c.isDigit = true := by simpa [allDigits] using h1
  rw [NumLit.text_eq, hint]
  cases l.neg with
  | false => exact ⟨d, _, rfl, Or.inl (hall d (by rw [hint]; exact List.mem_cons_self))⟩
  | true => exact ⟨'-', _, rfl, Or.inr rfl⟩

/-- A string literal whose text is given. -/
def quoteWith (body : String → List Char) (s : String) : List Char := '"' :: (body s ++ ['"'])

mutual

/-- `dumps` with the strings spelled in another way. -/
def dumpsWith [JsonFloat F] (body : String → List Char) : Value F → List Char
  | .null => "null".toList
  | .bool true => "true".toList
  | .bool false => "false".toList
  | .int n => (intLit n).text
  | .float x => (JsonFloat.lit x).text
  | .str s => quoteWith body s
  | .arr [] => ['[', ']']
  | .arr (v :: vs) => '[' :: (dumpsWith body v ++ dumpsElemsWith body vs)
  | .obj [] => ['{', '}']
  | .obj ((k, v) :: fs) => '{' :: (quoteWith body k ++ (':' :: ' ' :: (dumpsWith body v ++ dumpsFieldsWith body fs)))

def dumpsElemsWith [JsonFloat F] (body : String → List Char) : List (Value F) → List Char
  | [] => [']']
  | v :: vs => ',' :: ' ' :: (dumpsWith body v ++ dumpsElemsWith body vs)

def dumpsFieldsWith [JsonFloat F] (body : String → List Char) : List (String × Value F) → List Char
  | [] => ['}']
  | (k, v) :: fs =>
    ',' :: ' ' :: (quoteWith body k ++ (':' :: ' ' :: (dumpsWith body v ++ dumpsFieldsWith body fs)))

end

private theorem scanKey_quoteWith {body : String → List Char} {n : Nat} {k : String} {r : List Char}
    (h : Spells (body k) k.toList) (hn : (quoteWith body k).length ≤ n) :
    scanKey n (quoteWith body k ++ ':' :: ' ' :: r) = some (k, skipWs r) := by
  have hlen : (body k).length < n := by
    simp only [quoteWith, List.length_cons, List.length_append, List.length_nil] at hn
    omega
  have hscan := scanString_spells h hlen (':' :: ' ' :: r)
  simp only [quoteWith, List.cons_append, List.append_assoc, List.nil_append, scanKey, eat_self, Option.bind_some]
  rw [hscan]
  simp [skipWs_cons_of_ne (show isWs ':' = false by decide)]

/-- The text of a string literal that `dumps` prints. -/
def escapeText (s : String) : List Char := s.toList.flatMap escape

mutual

theorem dumpsWith_escape [JsonFloat F] (v : Value F) : dumpsWith escapeText v = dumps v := by
  match v with
  | .null => rfl
  | .bool true => rfl
  | .bool false => rfl
  | .int n => rw [dumpsWith, dumps]
  | .float x => rw [dumpsWith, dumps]
  | .str s => rw [dumpsWith, dumps, quoteWith, quote, escapeText]
  | .arr [] => rw [dumpsWith, dumps]
  | .arr (w :: ws) => rw [dumpsWith, dumps, dumpsWith_escape w, dumpsElemsWith_escape ws]
  | .obj [] => rw [dumpsWith, dumps]
  | .obj ((k, w) :: fs) =>
    rw [dumpsWith, dumps, dumpsWith_escape w, dumpsFieldsWith_escape fs, quoteWith, quote, escapeText]

private theorem dumpsElemsWith_escape [JsonFloat F] (vs : List (Value F)) :
    dumpsElemsWith escapeText vs = dumpsElems vs := by
  match vs with
  | [] => rw [dumpsElemsWith, dumpsElems]
  | w :: ws => rw [dumpsElemsWith, dumpsElems, dumpsWith_escape w, dumpsElemsWith_escape ws]

private theorem dumpsFieldsWith_escape [JsonFloat F] (fs : List (String × Value F)) :
    dumpsFieldsWith escapeText fs = dumpsFields fs := by
  match fs with
  | [] => rw [dumpsFieldsWith, dumpsFields]
  | (k, w) :: fs =>
    rw [dumpsFieldsWith, dumpsFields, dumpsWith_escape w, dumpsFieldsWith_escape fs, quoteWith, quote, escapeText]

end

section

variable {body : String → List Char}

/-- The first character of a printed value. -/
private theorem dumps_head [JsonFloat F] (v : Value F) :
    ∃ c t, dumpsWith body v = c :: t ∧ isWs c = false ∧ c ≠ ']' ∧ c ≠ '}' := by
  have hnum : ∀ l : NumLit, l.valid = true → ∃ c t, l.text = c :: t ∧ isWs c = false ∧ c ≠ ']' ∧ c ≠ '}' := by
    intro l hl
    obtain ⟨c, t, ht, hc⟩ := NumLit.text_head hl
    refine ⟨c, t, ht, ?_⟩
    rcases hc with hc | rfl
    · refine ⟨?_, ?_, ?_⟩
      · rw [Bool.eq_false_iff]
        intro hw
        simp only [isWs, Bool.or_eq_true, beq_iff_eq] at hw
        rcases hw with ((rfl | rfl) | rfl) | rfl <;> revert hc <;> decide
      · rintro rfl; revert hc; decide
      · rintro rfl; revert hc; decide
    · decide
  cases v with
  | null => exact ⟨'n', _, rfl, by decide⟩
  | bool b =>
    cases b with
    | true => exact ⟨'t', _, rfl, by decide⟩
    | false => exact ⟨'f', _, rfl, by decide⟩
  | int n => exact hnum _ (intLit_valid n)
  | float x =>
    rw [dumpsWith]
    have hvalid := JsonFloat.lit_valid x
    cases hl : JsonFloat.lit x with
    | nan => exact ⟨'N', _, rfl, by decide⟩
    | inf neg =>
      cases neg with
      | true => exact ⟨'-', _, rfl, by decide⟩
      | false => exact ⟨'I', _, rfl, by decide⟩
    | num l =>
      rw [hl, FloatLit.valid, Bool.and_eq_true] at hvalid
      exact hnum l hvalid.1
  | str s => exact ⟨'"', _, rfl, by decide⟩
  | arr items => cases items <;> exact ⟨'[', _, rfl, by decide⟩
  | obj fields =>
    rcases fields with _ | ⟨⟨k, v⟩, fs⟩ <;> exact ⟨'{', _, rfl, by decide⟩

private theorem skipWs_dumps [JsonFloat F] (v : Value F) (r : List Char) :
    skipWs (dumpsWith body v ++ r) = dumpsWith body v ++ r := by
  obtain ⟨c, t, hv, hw, -⟩ := dumps_head v
  rw [hv, List.cons_append, skipWs_cons_of_ne hw]

private theorem eat_dumps [JsonFloat F] (v : Value F) (r : List Char) {ch : Char} (h : ch = ']' ∨ ch = '}') :
    eat ch (dumpsWith body v ++ r) = none := by
  obtain ⟨c, t, hv, -, h1, h2⟩ := dumps_head v
  rw [hv, List.cons_append]
  rcases h with rfl | rfl
  · exact eat_ne h1 _
  · exact eat_ne h2 _

private theorem stops_dumpsElems [JsonFloat F] (vs : List (Value F)) (r : List Char) :
    Stops (dumpsElemsWith body vs ++ r) := by
  cases vs <;> exact stops_cons (by decide) _

private theorem stops_dumpsFields [JsonFloat F] (fs : List (String × Value F)) (r : List Char) :
    Stops (dumpsFieldsWith body fs ++ r) := by
  rcases fs with _ | ⟨⟨k, v⟩, fs⟩ <;> exact stops_cons (by decide) _

/-- A value whose text starts as an atom does is scanned as one. -/
private theorem scanValue_atom [JsonFloat F] {v : Value F} {n : Nat} {r : List Char}
    (hn : (dumpsWith body v).length ≤ n) (hatom : scanAtom (dumpsWith body v ++ r) = some (v, r))
    (hhead : ∀ c ∈ (dumpsWith body v).head?, c ≠ '"' ∧ c ≠ '[' ∧ c ≠ '{') :
    scanValue n (dumpsWith body v ++ r) = some (v, r) := by
  obtain ⟨c, t, hv, -⟩ := dumps_head v
  rw [hv] at hn hhead hatom ⊢
  obtain ⟨h1, h2, h3⟩ := hhead c rfl
  obtain ⟨n, rfl⟩ : ∃ k, n = k + 1 := ⟨n - 1, by simp only [List.length_cons] at hn; omega⟩
  rw [List.cons_append] at hatom ⊢
  rw [scanValue, if_neg h1, if_neg h2, if_neg h3, hatom]

private theorem text_head_ne {l : NumLit} (h : l.valid = true) :
    ∀ c ∈ l.text.head?, c ≠ '"' ∧ c ≠ '[' ∧ c ≠ '{' := by
  obtain ⟨c, t, ht, hc⟩ := NumLit.text_head h
  rw [ht]
  intro d hd
  obtain rfl : c = d := by simpa using hd
  rcases hc with hc | rfl
  · exact ⟨(isDigit_ne hc).1, (isDigit_ne hc).2.1, (isDigit_ne hc).2.2.1⟩
  · decide

private theorem float_head_ne [JsonFloat F] (x : F) :
    ∀ c ∈ (JsonFloat.lit x).text.head?, c ≠ '"' ∧ c ≠ '[' ∧ c ≠ '{' := by
  have hvalid := JsonFloat.lit_valid x
  cases hl : JsonFloat.lit x with
  | nan => simp [FloatLit.text]
  | inf neg => cases neg <;> simp [FloatLit.text]
  | num l =>
    rw [hl, FloatLit.valid, Bool.and_eq_true] at hvalid
    exact text_head_ne hvalid.1

mutual

/-- A printed value followed by a text that cannot continue it is scanned back. -/
theorem scanValue_dumpsWith [JsonFloat F] (hbody : ∀ s, Spells (body s) s.toList) (v : Value F) (n : Nat)
    (r : List Char) (hk : v.keysNodup)
    (hn : (dumpsWith body v).length ≤ n) (hr : Stops r) : scanValue n (dumpsWith body v ++ r) = some (v, r) := by
  match v with
  | .null => exact scanValue_atom hn (by simp [dumpsWith, scanAtom, afterWord]) (by simp [dumpsWith])
  | .bool true => exact scanValue_atom hn (by simp [dumpsWith, scanAtom, afterWord]) (by simp [dumpsWith])
  | .bool false => exact scanValue_atom hn (by simp [dumpsWith, scanAtom, afterWord]) (by simp [dumpsWith])
  | .int k =>
    refine scanValue_atom hn ?_ (text_head_ne (intLit_valid k))
    rw [dumpsWith, scanAtom_number (intLit_valid k) hr, numberValue_intLit]
  | .float x => exact scanValue_atom hn (scanAtom_float x hr) (float_head_ne x)
  | .str s =>
    simp only [dumpsWith, quoteWith, List.length_cons, List.length_append] at hn
    obtain ⟨n, rfl⟩ : ∃ k, n = k + 1 := ⟨n - 1, by omega⟩
    have hscan := scanString_spells (hbody s) (n := n) (by omega) r
    simp [dumpsWith, quoteWith, scanValue, hscan]
  | .arr [] =>
    obtain ⟨n, rfl⟩ : ∃ k, n = k + 1 := ⟨n - 1, by simp [dumpsWith] at hn; omega⟩
    simp [dumpsWith, scanValue, skipWs_cons_of_ne (show isWs ']' = false by decide)]
  | .arr (w :: ws) =>
    simp only [dumpsWith, List.length_cons, List.length_append] at hn
    obtain ⟨n, rfl⟩ : ∃ k, n = k + 1 := ⟨n - 1, by omega⟩
    have hv := scanValue_dumpsWith hbody w n (dumpsElemsWith body ws ++ r) hk.1 (by omega)
      (stops_dumpsElems ws r)
    have hvs := scanElems_dumpsElemsWith hbody ws n r hk.2 (by omega)
    simp [dumpsWith, scanValue, skipWs_dumps, eat_dumps, hv, hvs]
  | .obj [] =>
    obtain ⟨n, rfl⟩ : ∃ k, n = k + 1 := ⟨n - 1, by simp [dumpsWith] at hn; omega⟩
    simp [dumpsWith, scanValue, skipWs_cons_of_ne (show isWs '}' = false by decide)]
  | .obj ((k, w) :: fs) =>
    simp only [dumpsWith, List.length_cons, List.length_append] at hn
    obtain ⟨n, rfl⟩ : ∃ k, n = k + 1 := ⟨n - 1, by omega⟩
    have hkey := scanKey_quoteWith (hbody k) (n := n) (r := dumpsWith body w ++ (dumpsFieldsWith body fs ++ r))
      (by omega)
    have hv := scanValue_dumpsWith hbody w n (dumpsFieldsWith body fs ++ r) hk.2.1 (by omega)
      (stops_dumpsFields fs r)
    have hfs := scanFields_dumpsFieldsWith hbody fs n r hk.2.2 (by omega)
    have hbrace : eat '}' (skipWs (quoteWith body k ++
        ':' :: ' ' :: (dumpsWith body w ++ (dumpsFieldsWith body fs ++ r)))) = none := rfl
    have hskip : skipWs (quoteWith body k ++ ':' :: ' ' :: (dumpsWith body w ++ (dumpsFieldsWith body fs ++ r))) =
        quoteWith body k ++ ':' :: ' ' :: (dumpsWith body w ++ (dumpsFieldsWith body fs ++ r)) := rfl
    rw [hskip] at hbrace
    simp [dumpsWith, scanValue, hskip, hbrace, hkey, skipWs_dumps, hv, hfs, toDict_of_nodup hk.1]

private theorem scanElems_dumpsElemsWith [JsonFloat F] (hbody : ∀ s, Spells (body s) s.toList) (vs : List (Value F))
    (n : Nat) (r : List Char) (hk : Value.keysNodup.elemsNodup vs) (hn : (dumpsElemsWith body vs).length ≤ n) :
    scanElems n (dumpsElemsWith body vs ++ r) = some (vs, r) := by
  match vs with
  | [] =>
    obtain ⟨n, rfl⟩ : ∃ k, n = k + 1 := ⟨n - 1, by simp [dumpsElemsWith] at hn; omega⟩
    simp [dumpsElemsWith, scanElems, skipWs_cons_of_ne (show isWs ']' = false by decide)]
  | w :: ws =>
    simp only [dumpsElemsWith, List.length_cons, List.length_append] at hn
    obtain ⟨n, rfl⟩ : ∃ k, n = k + 1 := ⟨n - 1, by omega⟩
    have hv := scanValue_dumpsWith hbody w n (dumpsElemsWith body ws ++ r) hk.1 (by omega)
      (stops_dumpsElems ws r)
    have hvs := scanElems_dumpsElemsWith hbody ws n r hk.2 (by omega)
    simp [dumpsElemsWith, scanElems, skipWs_cons_of_ne (show isWs ',' = false by decide),
      eat_ne (show ',' ≠ ']' by decide), skipWs_dumps, hv, hvs]

private theorem scanFields_dumpsFieldsWith [JsonFloat F] (hbody : ∀ s, Spells (body s) s.toList)
    (fs : List (String × Value F)) (n : Nat) (r : List Char) (hk : Value.keysNodup.fieldsNodup fs)
    (hn : (dumpsFieldsWith body fs).length ≤ n) :
    scanFields n (dumpsFieldsWith body fs ++ r) = some (fs, r) := by
  match fs with
  | [] =>
    obtain ⟨n, rfl⟩ : ∃ k, n = k + 1 := ⟨n - 1, by simp [dumpsFieldsWith] at hn; omega⟩
    simp [dumpsFieldsWith, scanFields, skipWs_cons_of_ne (show isWs '}' = false by decide)]
  | (k, w) :: fs =>
    simp only [dumpsFieldsWith, List.length_cons, List.length_append] at hn
    obtain ⟨n, rfl⟩ : ∃ k, n = k + 1 := ⟨n - 1, by omega⟩
    have hkey := scanKey_quoteWith (hbody k) (n := n) (r := dumpsWith body w ++ (dumpsFieldsWith body fs ++ r))
      (by omega)
    have hv := scanValue_dumpsWith hbody w n (dumpsFieldsWith body fs ++ r) hk.1 (by omega)
      (stops_dumpsFields fs r)
    have hfs := scanFields_dumpsFieldsWith hbody fs n r hk.2 (by omega)
    have hskip : skipWs (quoteWith body k ++ ':' :: ' ' :: (dumpsWith body w ++ (dumpsFieldsWith body fs ++ r))) =
        quoteWith body k ++ ':' :: ' ' :: (dumpsWith body w ++ (dumpsFieldsWith body fs ++ r)) := rfl
    simp [dumpsFieldsWith, scanFields, skipWs_cons_of_ne (show isWs ',' = false by decide),
      eat_ne (show ',' ≠ '}' by decide), hskip, hkey, skipWs_dumps, hv, hfs]

end

/-- The parser inverts the printer, however the strings are spelled; white space after the text changes nothing. -/
theorem loads_dumpsWith [JsonFloat F] (hbody : ∀ s, Spells (body s) s.toList) {v : Value F} (hk : v.keysNodup)
    {ws : List Char} (hws : ∀ c ∈ ws, isWs c = true) : loads (dumpsWith body v ++ ws) = some v := by
  have hstop : Stops ws := by
    intro c hc
    have hw := hws c (List.mem_of_mem_head? hc)
    simp only [isWs, Bool.or_eq_true, beq_iff_eq] at hw
    rcases hw with ((rfl | rfl) | rfl) | rfl <;> decide
  have hskip : skipWs ws = [] := by
    exact List.dropWhile_eq_nil_iff.2 hws
  have hlen : (dumpsWith body v).length ≤ (dumpsWith body v ++ ws).length + 1 := by
    rw [List.length_append]
    omega
  rw [loads, skipWs_dumps, scanValue_dumpsWith hbody v _ ws hk hlen hstop]
  simp [hskip]

end

/-- A printed value followed by a text that cannot continue it is scanned back. -/
theorem scanValue_dumps [JsonFloat F] (v : Value F) (n : Nat) (r : List Char) (hk : v.keysNodup)
    (hn : (dumps v).length ≤ n) (hr : Stops r) : scanValue n (dumps v ++ r) = some (v, r) := by
  rw [← dumpsWith_escape] at hn ⊢
  exact scanValue_dumpsWith (fun s => spells_flatMap s.toList) v n r hk hn hr

/-- The parser inverts the printer; white space after the text changes nothing. -/
theorem loads_dumps [JsonFloat F] {v : Value F} (hk : v.keysNodup) {ws : List Char}
    (hws : ∀ c ∈ ws, isWs c = true) : loads (dumps v ++ ws) = some v := by
  rw [← dumpsWith_escape]
  exact loads_dumpsWith (fun s => spells_flatMap s.toList) hk hws

end JsonText
