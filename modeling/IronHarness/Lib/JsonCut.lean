import IronHarness.Lib.JsonPrefix

/-!
# The rest of a cut value

A printed value that is cut at a character beyond ASCII is cut inside a string literal.  What follows reads the other
way round: the text of the strings stands outside the literals, and the literals hold what the printer puts between the
strings, so they start with one of `,`, `:`, `]` and `}`.  An object read from such a text has only keys that start so
(`loads_inside`).
-/

namespace JsonText

variable {F : Type}

/-! ### Phases -/

/-- Where a character of a printed value stands. -/
inductive Phase
  | inside
  | escaped
  | outside

/-- A character the printer puts behind a string literal. -/
def isCloser (c : Char) : Bool := c == ',' || c == ':' || c == ']' || c == '}'

def closes (r : List Char) : Bool := r.head?.all isCloser

/-- The text reads as a part of a printed value that begins in the phase. -/
def fits : Phase → List Char → Bool
  | _, [] => true
  | .inside, c :: r =>
    if c = '"' then closes r && fits .outside r
    else if c = '\\' then fits .escaped r
    else fits .inside r
  | .escaped, _ :: r => fits .inside r
  | .outside, c :: r => if c = '"' then fits .inside r else decide (c.toNat < 0x80 ∧ c ≠ '\\') && fits .outside r

/-- Neither a quote nor a backslash. -/
def Bare (p : List Char) : Prop := ∀ c ∈ p, c ≠ '"' ∧ c ≠ '\\'

def Ascii (p : List Char) : Prop := ∀ c ∈ p, c.toNat < 0x80

theorem Bare.append {p q : List Char} (hp : Bare p) (hq : Bare q) : Bare (p ++ q) := by
  intro c hc
  rcases List.mem_append.1 hc with hc | hc
  · exact hp c hc
  · exact hq c hc

theorem fits_inside_append {p : List Char} (hp : Bare p) (r : List Char) : fits .inside (p ++ r) = fits .inside r := by
  induction p with
  | nil => rfl
  | cons c p ih =>
    obtain ⟨hquote, hback⟩ := hp c List.mem_cons_self
    rw [List.cons_append, fits, if_neg hquote, if_neg hback]
    exact ih fun d hd => hp d (List.mem_cons_of_mem c hd)

private theorem fits_outside_append {p : List Char} (hp : Bare p) (hascii : Ascii p) (r : List Char) :
    fits .outside (p ++ r) = fits .outside r := by
  induction p with
  | nil => rfl
  | cons c p ih =>
    obtain ⟨hquote, hback⟩ := hp c List.mem_cons_self
    have hc := hascii c List.mem_cons_self
    rw [List.cons_append, fits, if_neg hquote, decide_eq_true ⟨hc, hback⟩, Bool.true_and]
    exact ih (fun d hd => hp d (List.mem_cons_of_mem c hd)) fun d hd => hascii d (List.mem_cons_of_mem c hd)

private theorem closes_front {p q : List Char} (h : closes (p ++ q) = true) : closes p = true := by
  cases p with
  | nil => rfl
  | cons c p => exact h

/-- The front of a text fits where the text does. -/
theorem fits_front {ph : Phase} {p q : List Char} (h : fits ph (p ++ q) = true) : fits ph p = true := by
  induction p generalizing ph with
  | nil => cases ph <;> rfl
  | cons c p ih =>
    rw [List.cons_append] at h
    cases ph with
    | inside =>
      rw [fits] at h ⊢
      split at h
      · rw [if_pos ‹_›]
        rw [Bool.and_eq_true] at h ⊢
        exact ⟨closes_front h.1, ih h.2⟩
      · rw [if_neg ‹_›]
        split at h
        · rw [if_pos ‹_›]
          exact ih h
        · rw [if_neg ‹_›]
          exact ih h
    | escaped =>
      rw [fits] at h ⊢
      exact ih h
    | outside =>
      rw [fits] at h ⊢
      split at h
      · rw [if_pos ‹_›]
        exact ih h
      · rw [if_neg ‹_›]
        rw [Bool.and_eq_true] at h ⊢
        exact ⟨h.1, ih h.2⟩

/-- A text cut at a character beyond ASCII goes on inside a literal. -/
theorem fits_cut {ph : Phase} {front back : List Char} {c : Char} (hc : 0x80 ≤ c.toNat)
    (h : fits ph (front ++ c :: back) = true) : fits .inside back = true := by
  have hquote : c ≠ '"' := by
    rintro rfl
    exact absurd hc (by decide)
  have hback : c ≠ '\\' := by
    rintro rfl
    exact absurd hc (by decide)
  induction front generalizing ph with
  | nil =>
    cases ph with
    | inside => rwa [List.nil_append, fits, if_neg hquote, if_neg hback] at h
    | escaped => exact h
    | outside =>
      rw [List.nil_append, fits, if_neg hquote, Bool.and_eq_true, decide_eq_true_eq] at h
      omega
  | cons d front ih =>
    rw [List.cons_append] at h
    cases ph with
    | inside =>
      rw [fits] at h
      split at h
      · rw [Bool.and_eq_true] at h
        exact ih h.2
      · split at h
        · exact ih h
        · exact ih h
    | escaped => exact ih h
    | outside =>
      rw [fits] at h
      split at h
      · exact ih h
      · rw [Bool.and_eq_true] at h
        exact ih h.2

/-! ### Printed values -/

theorem bare_of_all {p : List Char} (h : p.all (fun c => c != '"' && c != '\\') = true) : Bare p := by
  intro c hc
  have hall := List.all_eq_true.1 h c hc
  simpa using hall

private theorem ascii_of_all {p : List Char} (h : p.all (fun c => decide (c.toNat < 0x80)) = true) : Ascii p := by
  intro c hc
  exact of_decide_eq_true (List.all_eq_true.1 h c hc)

/-- A character of a number. -/
def isNumberChar (c : Char) : Bool := c.isDigit || ['-', '+', '.', 'e', 'E'].contains c

theorem numberChar {c : Char} (h : isNumberChar c = true) : (c ≠ '"' ∧ c ≠ '\\') ∧ c.toNat < 0x80 := by
  have hascii : c.toNat < 0x80 := by
    rw [isNumberChar, Bool.or_eq_true] at h
    rcases h with hd | hs
    · simp only [Char.isDigit, Bool.and_eq_true, decide_eq_true_eq] at hd
      have h57 : c.toNat ≤ '9'.toNat := hd.2
      exact Nat.lt_of_le_of_lt h57 (by decide)
    · simp only [List.contains_eq_mem, List.mem_cons, List.not_mem_nil, or_false, decide_eq_true_eq] at hs
      rcases hs with rfl | rfl | rfl | rfl | rfl <;> decide
  refine ⟨⟨?_, ?_⟩, hascii⟩
  · rintro rfl
    exact absurd h (by decide)
  · rintro rfl
    exact absurd h (by decide)

theorem text_numberChars {l : NumLit} (h : l.valid = true) : ∀ c ∈ l.text, isNumberChar c = true := by
  obtain ⟨h1, -, -, h4, h5⟩ := NumLit.valid_parts h
  have hdigits : ∀ ds, allDigits ds = true → ∀ c ∈ ds, isNumberChar c = true := by
    intro ds hds c hc
    rw [isNumberChar, List.all_eq_true.1 hds c hc, Bool.true_or]
  intro c hc
  rw [NumLit.text_eq, List.mem_append, List.mem_append, List.mem_append] at hc
  rcases hc with hc | hc | hc | hc
  · cases hneg : l.neg with
    | true =>
      rw [hneg] at hc
      obtain rfl : c = '-' := by simpa using hc
      decide
    | false =>
      rw [hneg] at hc
      exact absurd hc (by simp)
  · exact hdigits _ h1 c hc
  · cases hf : l.frac with
    | none =>
      rw [hf] at hc
      exact absurd hc (by simp [fracText])
    | some ds =>
      rw [hf, fracText, List.mem_cons] at hc
      rcases hc with rfl | hc
      · decide
      · exact hdigits _ (h4 ds hf).1 c hc
  · cases he : l.exp with
    | none =>
      rw [he] at hc
      exact absurd hc (by simp [expText])
    | some x =>
      obtain ⟨hletter, hs, hd, -⟩ := h5 x he
      rw [he, expText, List.mem_cons, List.mem_append] at hc
      rcases hc with rfl | hc | hc
      · rcases hletter with h | h <;> rw [h] <;> decide
      · rcases hs with h | h | h <;> rw [h] at hc
        · exact absurd hc (by simp)
        · obtain rfl : c = '+' := by simpa using hc
          decide
        · obtain rfl : c = '-' := by simpa using hc
          decide
      · exact hdigits _ hd c hc

private theorem bare_text {l : NumLit} (h : l.valid = true) :
    Bare l.text := fun c hc => (numberChar (text_numberChars h c hc)).1

private theorem ascii_text {l : NumLit} (h : l.valid = true) :
    Ascii l.text := fun c hc => (numberChar (text_numberChars h c hc)).2

private theorem bare_digits {n m : Nat} (hn : n < 16) (hm : m < 16) :
    Bare ['0', '0', Nat.digitChar n, Nat.digitChar m] := by
  have hdigit : ∀ k < 16, Nat.digitChar k ≠ '"' ∧ Nat.digitChar k ≠ '\\' := by decide
  intro c hc
  simp only [List.mem_cons, List.not_mem_nil, or_false] at hc
  rcases hc with rfl | rfl | rfl | rfl
  · decide
  · decide
  · exact hdigit n hn
  · exact hdigit m hm

private theorem fits_escape (c : Char) (r : List Char) : fits .inside (escape c ++ r) = fits .inside r := by
  have hpair : ∀ d, fits .inside (['\\', d] ++ r) = fits .inside r := fun _ => rfl
  unfold escape
  by_cases hquote : c = '"'
  · rw [if_pos hquote, hpair]
  by_cases hback : c = '\\'
  · rw [if_neg hquote, if_pos hback, hpair]
  rw [if_neg hquote, if_neg hback]
  iterate 5
    split
    · exact hpair _
  split
  · -- a control character by its code
    have hcode : fits .inside ('\\' :: 'u' :: (['0', '0', Nat.digitChar (c.toNat / 16), Nat.digitChar (c.toNat % 16)] ++ r)) =
        fits .inside r := by
      rw [fits, if_neg (by decide), if_pos rfl, fits]
      exact fits_inside_append (bare_digits (by omega) (by omega)) r
    exact hcode
  · exact fits_inside_append (p := [c]) (by simpa [Bare] using ⟨hquote, hback⟩) r

private theorem fits_quote {s : String} {r : List Char} (hr : closes r = true) (h : fits .outside r = true) :
    fits .outside (quote s ++ r) = true := by
  have hbody : ∀ cs : List Char, fits .inside (cs.flatMap escape ++ ('"' :: r)) = true := by
    intro cs
    induction cs with
    | nil =>
      rw [List.flatMap_nil, List.nil_append, fits, if_pos rfl, hr, h]
      rfl
    | cons c cs ih => rw [List.flatMap_cons, List.append_assoc, fits_escape, ih]
  rw [quote, List.cons_append, fits, if_pos rfl, List.append_assoc]
  exact hbody _

private theorem fits_closer {c : Char} {r : List Char} (hc : c.toNat < 0x80 ∧ c ≠ '\\') (hquote : c ≠ '"')
    (h : fits .outside r = true) : fits .outside (c :: r) = true := by
  rw [fits, if_neg hquote, decide_eq_true hc, h]
  rfl

private theorem closes_dumpsElems [JsonFloat F] (vs : List (Value F)) (r : List Char) :
    closes (dumpsElems vs ++ r) = true := by
  cases vs <;> rfl

private theorem closes_dumpsFields [JsonFloat F] (fs : List (String × Value F)) (r : List Char) :
    closes (dumpsFields fs ++ r) = true := by
  cases fs <;> rfl

mutual

theorem fits_dumps [JsonFloat F] (v : Value F) {r : List Char} (hr : closes r = true) (h : fits .outside r = true) :
    fits .outside (dumps v ++ r) = true := by
  have hword : ∀ w : List Char, w.all (fun c => c != '"' && c != '\\') = true →
      w.all (fun c => decide (c.toNat < 0x80)) = true → fits .outside (w ++ r) = true := by
    intro w hbare hascii
    rw [fits_outside_append (bare_of_all hbare) (ascii_of_all hascii), h]
  have hnumber : ∀ l : NumLit, l.valid = true → fits .outside (l.text ++ r) = true := by
    intro l hl
    rw [fits_outside_append (bare_text hl) (ascii_text hl), h]
  match v with
  | .null => exact hword "null".toList (by decide) (by decide)
  | .bool true => exact hword "true".toList (by decide) (by decide)
  | .bool false => exact hword "false".toList (by decide) (by decide)
  | .int n => exact hnumber _ (intLit_valid n)
  | .float x =>
    rw [dumps]
    have hvalid := JsonFloat.lit_valid x
    cases hl : JsonFloat.lit x with
    | nan => exact hword _ (by decide) (by decide)
    | inf neg => cases neg <;> exact hword _ (by decide) (by decide)
    | num l =>
      rw [hl, FloatLit.valid, Bool.and_eq_true] at hvalid
      exact hnumber l hvalid.1
  | .str s => exact fits_quote hr h
  | .arr [] => exact hword ['[', ']'] (by decide) (by decide)
  | .arr (w :: ws) =>
    rw [dumps, List.cons_append, List.append_assoc]
    exact fits_closer (by decide) (by decide) (fits_dumps w (closes_dumpsElems ws r) (fits_dumpsElems ws h))
  | .obj [] => exact hword ['{', '}'] (by decide) (by decide)
  | .obj ((k, w) :: fs) =>
    rw [dumps, List.cons_append, List.append_assoc, List.cons_append, List.cons_append, List.append_assoc]
    refine fits_closer (by decide) (by decide) (fits_quote rfl ?_)
    exact fits_closer (by decide) (by decide) (fits_closer (by decide) (by decide)
      (fits_dumps w (closes_dumpsFields fs r) (fits_dumpsFields fs h)))

private theorem fits_dumpsElems [JsonFloat F] (vs : List (Value F)) {r : List Char} (h : fits .outside r = true) :
    fits .outside (dumpsElems vs ++ r) = true := by
  match vs with
  | [] => exact fits_closer (by decide) (by decide) h
  | w :: ws =>
    rw [dumpsElems, List.cons_append, List.cons_append, List.append_assoc]
    exact fits_closer (by decide) (by decide) (fits_closer (by decide) (by decide)
      (fits_dumps w (closes_dumpsElems ws r) (fits_dumpsElems ws h)))

private theorem fits_dumpsFields [JsonFloat F] (fs : List (String × Value F)) {r : List Char}
    (h : fits .outside r = true) :
    fits .outside (dumpsFields fs ++ r) = true := by
  match fs with
  | [] => exact fits_closer (by decide) (by decide) h
  | (k, w) :: fs =>
    rw [dumpsFields, List.cons_append, List.cons_append, List.append_assoc, List.cons_append, List.cons_append,
      List.append_assoc]
    refine fits_closer (by decide) (by decide) (fits_closer (by decide) (by decide) (fits_quote rfl ?_))
    exact fits_closer (by decide) (by decide) (fits_closer (by decide) (by decide)
      (fits_dumps w (closes_dumpsFields fs r) (fits_dumpsFields fs h)))

end

/-! ### Reading from inside a literal -/

/-- The key starts with a character that the printer puts behind a literal. -/
def Inverted (k : String) : Prop := ∃ c ∈ k.toList.head?, isCloser c = true

theorem fits_skipWs {cs : List Char} (h : fits .inside cs = true) : fits .inside (skipWs cs) = true := by
  have hbare : Bare (cs.takeWhile isWs) := by
    intro c hc
    have hws : isWs c = true := List.mem_takeWhile_imp hc
    constructor
    · rintro rfl
      exact absurd hws (by decide)
    · rintro rfl
      exact absurd hws (by decide)
  rwa [← List.takeWhile_append_dropWhile (p := isWs) (l := cs), fits_inside_append hbare] at h

private theorem fits_eat {ch : Char} {cs r : List Char} (hch : ch ≠ '"' ∧ ch ≠ '\\') (h : fits .inside cs = true)
    (heat : eat ch cs = some r) : fits .inside r = true := by
  rw [eat_eq_some heat] at h
  have hbare : Bare [ch] := by simpa [Bare] using hch
  rwa [← fits_inside_append hbare r]

/-- A literal that starts outside ends inside. -/
theorem fits_scanString {n : Nat} {cs s r : List Char} (h : fits .outside cs = true)
    (hscan : scanString n cs = some (s, r)) : fits .inside r = true := by
  induction n generalizing cs s with
  | zero => cases hscan
  | succ n ih =>
    cases cs with
    | nil => cases hscan
    | cons c t =>
      rw [scanString] at hscan
      rw [fits] at h
      by_cases hquote : c = '"'
      · rw [if_pos hquote] at hscan h
        obtain ⟨-, rfl⟩ := Prod.mk.inj (Option.some.inj hscan)
        exact h
      rw [if_neg hquote] at hscan h
      rw [Bool.and_eq_true, decide_eq_true_eq] at h
      rw [if_neg h.1.2] at hscan
      split at hscan
      · cases hscan
      · obtain ⟨⟨s', r'⟩, hs, heq⟩ := Option.map_eq_some_iff.1 hscan
        obtain ⟨-, rfl⟩ := Prod.mk.inj heq
        exact ih h.2 hs

/-- It starts with what stands behind the quote. -/
theorem inverted_scanString {n : Nat} {cs s r : List Char} (hcloses : closes cs = true)
    (hscan : scanString n cs = some (s, r)) : ∃ c ∈ s.head?, isCloser c = true := by
  cases n with
  | zero => cases hscan
  | succ n =>
    cases cs with
    | nil => cases hscan
    | cons c t =>
      have hc : isCloser c = true := hcloses
      have hquote : c ≠ '"' := by
        rintro rfl
        exact absurd hc (by decide)
      have hback : c ≠ '\\' := by
        rintro rfl
        exact absurd hc (by decide)
      rw [scanString, if_neg hquote, if_neg hback] at hscan
      split at hscan
      · cases hscan
      · obtain ⟨⟨s', r'⟩, -, heq⟩ := Option.map_eq_some_iff.1 hscan
        obtain ⟨rfl, -⟩ := Prod.mk.inj heq
        exact ⟨c, rfl, hc⟩

/-- A quote met inside ends the literal of the printer. -/
theorem fits_quote_inside {r : List Char} (h : fits .inside ('"' :: r) = true) :
    closes r = true ∧ fits .outside r = true := by
  rwa [fits, if_pos rfl, Bool.and_eq_true] at h

private theorem fits_scanKey {n : Nat} {cs r : List Char} {k : String} (h : fits .inside cs = true)
    (hscan : scanKey n cs = some (k, r)) : fits .inside r = true ∧ Inverted k := by
  obtain ⟨t, ht, hscan⟩ := Option.bind_eq_some_iff.1 hscan
  obtain ⟨⟨s, u⟩, hs, hscan⟩ := Option.bind_eq_some_iff.1 hscan
  obtain ⟨w, hw, heq⟩ := Option.map_eq_some_iff.1 hscan
  obtain ⟨rfl, rfl⟩ := Prod.mk.inj heq
  rw [eat_eq_some ht] at h
  obtain ⟨hcloses, hout⟩ := fits_quote_inside h
  constructor
  · exact fits_skipWs (fits_eat (by decide) (fits_skipWs (fits_scanString hout hs)) hw)
  · rw [Inverted, String.toList_ofList]
    exact inverted_scanString hcloses hs

private theorem fits_scanAtom [JsonFloat F] {cs r : List Char} {v : Value F} (h : fits .inside cs = true)
    (hscan : scanAtom cs = some (v, r)) : fits .inside r = true ∧ ∀ fields, v ≠ .obj fields := by
  have hword : ∀ word : List Char, word.all (fun c => c != '"' && c != '\\') = true → ∀ r, afterWord word cs = some r →
      fits .inside r = true := by
    intro word hbare r hw
    rw [afterWord_eq_some hw, fits_inside_append (bare_of_all hbare)] at h
    exact h
  unfold scanAtom at hscan
  iterate 6
    split at hscan
    · rename_i hw
      obtain ⟨rfl, rfl⟩ := Prod.mk.inj (Option.some.inj hscan)
      exact ⟨hword _ (by decide) _ hw, fun fields heq => by cases heq⟩
  obtain ⟨⟨l, r'⟩, hnum, heq⟩ := Option.map_eq_some_iff.1 hscan
  obtain ⟨rfl, rfl⟩ := Prod.mk.inj heq
  obtain ⟨hvalid, rfl⟩ := scanNumber_split hnum
  refine ⟨?_, ?_⟩
  · rwa [fits_inside_append (bare_text hvalid)] at h
  · intro fields
    unfold numberValue
    split <;> exact fun heq => by cases heq

private theorem mem_setField {fields : List (String × Value F)} {key : String} {value : Value F} {f : String × Value F}
    (h : f ∈ setField fields key value) : f.1 = key ∨ ∃ g ∈ fields, g.1 = f.1 := by
  unfold setField at h
  split at h
  · obtain ⟨g, hg, rfl⟩ := List.mem_map.1 h
    dsimp only
    split
    · exact .inl ‹_›
    · exact .inr ⟨g, hg, rfl⟩
  · rcases List.mem_append.1 h with h | h
    · exact .inr ⟨f, h, rfl⟩
    · obtain rfl := List.mem_singleton.1 h
      exact .inl rfl

/-- The keys of a dictionary are those of its members. -/
theorem toDict_keys {P : String → Prop} {members : List (String × Value F)} (h : ∀ m ∈ members, P m.1) :
    ∀ f ∈ toDict members, P f.1 := by
  have hfold : ∀ acc : List (String × Value F), (∀ f ∈ acc, P f.1) →
      ∀ f ∈ members.foldl (fun fields m => setField fields m.1 m.2) acc, P f.1 := by
    induction members with
    | nil => exact fun acc hacc => hacc
    | cons m members ih =>
      intro acc hacc
      rw [List.foldl_cons]
      apply ih fun m' hm' => h m' (List.mem_cons_of_mem m hm')
      intro f hf
      rcases mem_setField hf with hkey | ⟨g, hg, hkey⟩
      · rw [hkey]
        exact h m List.mem_cons_self
      · rw [← hkey]
        exact hacc g hg
  exact hfold [] (List.forall_mem_nil _)

/-- What the scanners leave of a text inside a literal is again inside one, and the keys they read are inverted. -/
theorem fits_scan [JsonFloat F] (n : Nat) :
    (∀ cs r (v : Value F), fits .inside cs = true → scanValue n cs = some (v, r) →
      fits .inside r = true ∧ ∀ fields, v = .obj fields → ∀ f ∈ fields, Inverted f.1) ∧
    (∀ cs r (vs : List (Value F)), fits .inside cs = true → scanElems n cs = some (vs, r) → fits .inside r = true) ∧
    (∀ cs r (fs : List (String × Value F)), fits .inside cs = true → scanFields n cs = some (fs, r) →
      fits .inside r = true ∧ ∀ f ∈ fs, Inverted f.1) := by
  induction n with
  | zero =>
    refine ⟨?_, ?_, ?_⟩
    · intro cs r v _ hscan
      cases hscan
    · intro cs r vs _ hscan
      cases hscan
    · intro cs r fs _ hscan
      cases hscan
  | succ n ih =>
    obtain ⟨ihv, ihe, ihf⟩ := ih
    refine ⟨?_, ?_, ?_⟩
    · intro cs r v h hscan
      cases scanValue_iff.1 hscan with
      | str hs => exact ⟨fits_scanString (fits_quote_inside h).2 hs, fun fields heq => by cases heq⟩
      | emptyArr hclose =>
        have ht := fits_eat (by decide) h (eat_self '[' _)
        exact ⟨fits_eat (by decide) (fits_skipWs ht) hclose, fun fields heq => by cases heq⟩
      | arr _ hv hvs =>
        have ht := fits_eat (by decide) h (eat_self '[' _)
        have hvalue := (ihv _ _ _ (fits_skipWs ht) hv).1
        exact ⟨ihe _ _ _ hvalue hvs, fun fields heq => by cases heq⟩
      | emptyObj hclose =>
        have ht := fits_eat (by decide) h (eat_self '{' _)
        refine ⟨fits_eat (by decide) (fits_skipWs ht) hclose, ?_⟩
        intro fields heq
        obtain rfl := Value.obj.inj heq
        exact List.forall_mem_nil _
      | obj _ hk hv hfs =>
        have ht := fits_eat (by decide) h (eat_self '{' _)
        obtain ⟨hkey, hinv⟩ := fits_scanKey (fits_skipWs ht) hk
        obtain ⟨hrest, hfields⟩ := ihf _ _ _ (ihv _ _ _ hkey hv).1 hfs
        refine ⟨hrest, ?_⟩
        intro fields heq
        obtain rfl := Value.obj.inj heq
        exact toDict_keys (List.forall_mem_cons.2 ⟨hinv, hfields⟩)
      | atom _ hv =>
        obtain ⟨hrest, hobj⟩ := fits_scanAtom h hv
        exact ⟨hrest, fun fields heq => absurd heq (hobj fields)⟩
    · intro cs r vs h hscan
      cases scanElems_iff.1 hscan with
      | close hclose => exact fits_eat (by decide) (fits_skipWs h) hclose
      | next _ hcomma hv hvs =>
        have ht := fits_eat (by decide) (fits_skipWs h) hcomma
        exact ihe _ _ _ (ihv _ _ _ (fits_skipWs ht) hv).1 hvs
    · intro cs r fs h hscan
      cases scanFields_iff.1 hscan with
      | close hclose => exact ⟨fits_eat (by decide) (fits_skipWs h) hclose, List.forall_mem_nil _⟩
      | next _ hcomma hk hv hfs =>
        have ht := fits_eat (by decide) (fits_skipWs h) hcomma
        obtain ⟨hkey, hinv⟩ := fits_scanKey (fits_skipWs ht) hk
        obtain ⟨hrest, hfields⟩ := ihf _ _ _ (ihv _ _ _ hkey hv).1 hfs
        exact ⟨hrest, List.forall_mem_cons.2 ⟨hinv, hfields⟩⟩

/-- An object read from inside a literal has only inverted keys. -/
theorem loads_inside [JsonFloat F] {cs : List Char} {fields : List (String × Value F)} (h : fits .inside cs = true)
    (hload : loads cs = some (.obj fields)) : ∀ f ∈ fields, Inverted f.1 := by
  obtain ⟨⟨v, r⟩, hscan, hend⟩ := Option.bind_eq_some_iff.1 hload
  dsimp only at hend
  split at hend
  · obtain rfl := Option.some.inj hend
    exact ((fits_scan _).1 _ _ _ (fits_skipWs h) hscan).2 fields rfl
  · cases hend

end JsonText
