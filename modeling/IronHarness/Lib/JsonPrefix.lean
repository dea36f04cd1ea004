import IronHarness.Lib.JsonRoundTrip
import IronHarness.Lib.JsonRules

/-!
# A cut object is no JSON text

The scanners look only at what they consume, so a scan that succeeds on a text gives the same value on every
extension of it (`scan_append`; a number needs a character behind it that ends it).  A proper part of a printed
object that starts with its brace would then be two values at once (`loads_cut_obj`).
-/

namespace JsonText

variable {F : Type}

/-! ### Numbers are read exactly -/

private theorem scanDigits_split (cs : List Char) :
    allDigits (scanDigits cs).1 = true ∧ cs = (scanDigits cs).1 ++ (scanDigits cs).2 := by
  refine ⟨?_, (List.takeWhile_append_dropWhile).symm⟩
  rw [allDigits, List.all_eq_true]
  intro c hc
  exact List.mem_takeWhile_imp hc

private theorem scanInt_split {cs int r : List Char} (h : scanInt cs = some (int, r)) :
    cs = int ++ r ∧ allDigits int = true ∧ int ≠ [] ∧ (int.head? ≠ some '0' ∨ int.length = 1) := by
  cases cs with
  | nil => cases h
  | cons d t =>
    rw [scanInt] at h
    by_cases h0 : d = '0'
    · rw [if_pos h0] at h
      cases h
      exact ⟨by rw [h0]; rfl, by decide, by decide, Or.inr rfl⟩
    · rw [if_neg h0] at h
      by_cases hd : d.isDigit = true
      · rw [if_pos hd] at h
        have hsplit := scanDigits_split (d :: t)
        have hint : int = (scanDigits (d :: t)).1 ∧ r = (scanDigits (d :: t)).2 := by
          rw [Option.some.inj h]
          exact ⟨rfl, rfl⟩
        have hhead : int = d :: t.takeWhile Char.isDigit := by
          rw [hint.1]
          simp [scanDigits, hd]
        refine ⟨?_, ?_, ?_, ?_⟩
        · rw [hint.1, hint.2]; exact hsplit.2
        · rw [hint.1]; exact hsplit.1
        · rw [hhead]; exact List.cons_ne_nil _ _
        · rw [hhead]; left; simpa using h0
      · rw [if_neg hd] at h
        cases h

private theorem scanFrac_split (cs : List Char) :
    cs = fracText (scanFrac cs).1 ++ (scanFrac cs).2 ∧
    (∀ ds ∈ (scanFrac cs).1, allDigits ds = true ∧ ds ≠ []) := by
  unfold scanFrac
  cases hdot : eat '.' cs with
  | none => simp [fracText]
  | some r =>
    have hcs := eat_eq_some hdot
    obtain ⟨hall, hsplit⟩ := scanDigits_split r
    dsimp only
    by_cases hemp : (scanDigits r).1 = []
    · simp [hemp, fracText]
    · rw [if_neg (by simpa using hemp)]
      refine ⟨?_, ?_⟩
      · rw [hcs]
        simpa [fracText] using hsplit
      · intro ds hds
        obtain rfl : (scanDigits r).1 = ds := by simpa using hds
        exact ⟨hall, hemp⟩

private theorem scanSign_split (cs : List Char) :
    cs = (scanSign cs).1.toList ++ (scanSign cs).2 ∧
    ((scanSign cs).1 = none ∨ (scanSign cs).1 = some '+' ∨ (scanSign cs).1 = some '-') := by
  unfold scanSign
  cases hp : eat '+' cs with
  | some r => exact ⟨eat_eq_some hp, Or.inr (Or.inl rfl)⟩
  | none =>
    cases hm : eat '-' cs with
    | some r => exact ⟨eat_eq_some hm, Or.inr (Or.inr rfl)⟩
    | none => exact ⟨rfl, Or.inl rfl⟩

private theorem scanExp_split (cs : List Char) :
    cs = expText (scanExp cs).1 ++ (scanExp cs).2 ∧
    (∀ x ∈ (scanExp cs).1, (x.1 = 'e' ∨ x.1 = 'E') ∧ (x.2.1 = none ∨ x.2.1 = some '+' ∨ x.2.1 = some '-') ∧
      allDigits x.2.2 = true ∧ x.2.2 ≠ []) := by
  cases cs with
  | nil => simp [scanExp, expText]
  | cons e t =>
    rw [scanExp]
    by_cases he : e = 'e' ∨ e = 'E'
    · rw [if_pos he]
      obtain ⟨hsign, hs⟩ := scanSign_split t
      obtain ⟨hall, hsplit⟩ := scanDigits_split (scanSign t).2
      dsimp only
      by_cases hemp : (scanDigits (scanSign t).2).1 = []
      · simp [hemp, expText]
      · rw [if_neg (by simpa using hemp)]
        refine ⟨?_, ?_⟩
        · simp only [expText, List.cons_append, List.append_assoc, List.cons.injEq, true_and]
          rw [← hsplit]
          exact hsign
        · intro x hx
          obtain rfl := Option.some.inj hx
          exact ⟨he, hs, hall, hemp⟩
    · rw [if_neg he]
      simp [expText]

theorem scanNumber_split {cs r : List Char} {l : NumLit} (h : scanNumber cs = some (l, r)) :
    l.valid = true ∧ cs = l.text ++ r := by
  obtain ⟨neg, int, frac, exp⟩ := l
  -- the text after the sign
  obtain ⟨body, hneg, hbody⟩ : ∃ body, cs = (if neg then ['-'] else []) ++ body ∧
      ((scanInt body).map fun x =>
        ((⟨neg, x.1, (scanFrac x.2).1, (scanExp (scanFrac x.2).2).1⟩ : NumLit), (scanExp (scanFrac x.2).2).2)) =
      some (⟨neg, int, frac, exp⟩, r) := by
    unfold scanNumber at h
    cases hm : eat '-' cs with
    | some t =>
      rw [hm] at h
      obtain ⟨⟨i, t'⟩, hi, heq⟩ := Option.map_eq_some_iff.1 h
      obtain rfl : true = neg := by simpa using congrArg (fun x => x.1.neg) heq
      exact ⟨t, eat_eq_some hm, h⟩
    | none =>
      rw [hm] at h
      obtain ⟨⟨i, t'⟩, hi, heq⟩ := Option.map_eq_some_iff.1 h
      obtain rfl : false = neg := by simpa using congrArg (fun x => x.1.neg) heq
      exact ⟨cs, rfl, h⟩
  obtain ⟨⟨i, t⟩, hi, heq⟩ := Option.map_eq_some_iff.1 hbody
  simp only [Prod.mk.injEq, NumLit.mk.injEq, true_and] at heq
  obtain ⟨⟨rfl, rfl, rfl⟩, rfl⟩ := heq
  obtain ⟨hint, h1, h2, h3⟩ := scanInt_split hi
  obtain ⟨hfrac, h4⟩ := scanFrac_split t
  obtain ⟨hexp, h5⟩ := scanExp_split (scanFrac t).2
  refine ⟨?_, ?_⟩
  · exact NumLit.valid_of_parts h1 h2 h3 h4 h5
  · rw [hneg, hint, NumLit.text_eq]
    simp only [List.append_assoc]
    rw [← hexp, ← hfrac]

/-! ### A scan looks only at what it consumes -/

private theorem eat_append {ch : Char} {cs r : List Char} (h : eat ch cs = some r) (q : List Char) :
    eat ch (cs ++ q) = some (r ++ q) := by
  rw [eat_eq_some h, List.cons_append, eat_self]

private theorem eat_append_none {ch : Char} {cs : List Char} (h : eat ch cs = none) (hne : cs ≠ [])
    (q : List Char) : eat ch (cs ++ q) = none := by
  cases cs with
  | nil => exact absurd rfl hne
  | cons c t =>
    have hc : c ≠ ch := by
      rintro rfl
      rw [eat_self] at h
      cases h
    exact eat_ne hc _

private theorem skipWs_append {cs : List Char} (h : skipWs cs ≠ []) (q : List Char) :
    skipWs (cs ++ q) = skipWs cs ++ q := by
  induction cs with
  | nil => exact absurd rfl h
  | cons c t ih =>
    cases hw : isWs c with
    | true =>
      have hskip : ∀ u, skipWs (c :: u) = skipWs u := by
        intro u
        simp [skipWs, hw]
      rw [List.cons_append, hskip, hskip]
      rw [hskip] at h
      exact ih h
    | false => rw [skipWs_cons_of_ne hw, List.cons_append, skipWs_cons_of_ne hw]

/-- A character follows, and it continues no number. -/
def Ends (r : List Char) : Prop := r ≠ [] ∧ Stops r

private theorem Ends.append {r : List Char} (h : Ends r) (q : List Char) : Stops (r ++ q) := by
  obtain ⟨hne, hs⟩ := h
  cases r with
  | nil => exact absurd rfl hne
  | cons c t => exact stops_cons (hs c rfl) _

private theorem ends_of_skipWs {r t : List Char} {c : Char} (h : skipWs r = c :: t)
    (hc : c = ']' ∨ c = '}' ∨ c = ',') : Ends r := by
  cases r with
  | nil => cases h
  | cons d u =>
    refine ⟨List.cons_ne_nil _ _, stops_cons ?_ _⟩
    cases hw : isWs d with
    | true =>
      simp only [isWs, Bool.or_eq_true, beq_iff_eq] at hw
      rcases hw with ((rfl | rfl) | rfl) | rfl <;> decide
    | false =>
      rw [skipWs_cons_of_ne hw] at h
      obtain rfl : d = c := (List.cons.inj h).1
      rcases hc with rfl | rfl | rfl <;> decide

theorem afterWord_eq_some {word cs r : List Char} (h : afterWord word cs = some r) : cs = word ++ r := by
  unfold afterWord at h
  by_cases hp : word.isPrefixOf cs = true
  · rw [if_pos hp] at h
    obtain ⟨t, rfl⟩ := List.isPrefixOf_iff_prefix.1 hp
    simpa using h
  · rw [if_neg hp] at h
    cases h

private theorem scanAtom_append [JsonFloat F] {cs r : List Char} {v : Value F} (h : scanAtom cs = some (v, r))
    (hr : Ends r) (q : List Char) : scanAtom (cs ++ q) = some (v, r ++ q) := by
  unfold scanAtom at h
  -- one split for each word
  iterate 6
    split at h
    · rename_i hw
      obtain ⟨rfl, rfl⟩ := Prod.mk.inj (Option.some.inj h)
      rw [afterWord_eq_some hw]
      simp [scanAtom, afterWord]
  obtain ⟨⟨l, r'⟩, hnum, heq⟩ := Option.map_eq_some_iff.1 h
  obtain ⟨rfl, rfl⟩ := Prod.mk.inj heq
  obtain ⟨hvalid, rfl⟩ := scanNumber_split hnum
  rw [List.append_assoc, scanAtom_number hvalid (hr.append q)]

private theorem scanCode_append {cs r : List Char} {c : Char} (h : scanCode cs = some (c, r)) (q : List Char) :
    scanCode (cs ++ q) = some (c, r ++ q) := by
  unfold scanCode at h
  split at h
  · rename_i a b c' d t
    simp only [List.cons_append, scanCode]
    cases hx : hex4 a b c' d with
    | none => rw [hx] at h; cases h
    | some n =>
      rw [hx] at h
      dsimp only at h ⊢
      split at h
      · rename_i hn
        obtain ⟨rfl, rfl⟩ := Prod.mk.inj (Option.some.inj h)
        rw [if_pos hn]
      rename_i hn
      rw [if_neg hn]
      split at h
      · rename_i hlow
        rw [if_pos hlow]
        cases hb : (eat '\\' t).bind (eat 'u') with
        | none => rw [hb] at h; cases h
        | some u =>
          obtain ⟨t', ht, hu⟩ := Option.bind_eq_some_iff.1 hb
          have hb' : (eat '\\' (t ++ q)).bind (eat 'u') = some (u ++ q) := by
            rw [eat_append ht, Option.bind_some, eat_append hu]
          rw [hb] at h
          rw [hb']
          split at h
          · rename_i heq
            obtain rfl := Option.some.inj heq
            simp only [List.cons_append]
            split at h
            · cases h
            · split at h
              · rename_i hlt
                obtain ⟨rfl, rfl⟩ := Prod.mk.inj (Option.some.inj h)
                rw [if_pos hlt]
              · cases h
          · cases h
      · cases h
  · cases h

private theorem scanEscape_append {cs r : List Char} {c : Char} (h : scanEscape cs = some (c, r))
    (q : List Char) : scanEscape (cs ++ q) = some (c, r ++ q) := by
  cases cs with
  | nil => cases h
  | cons e t =>
    rw [scanEscape] at h
    rw [List.cons_append, scanEscape]
    by_cases he : e = 'u'
    · rw [if_pos he] at h ⊢
      exact scanCode_append h q
    · rw [if_neg he] at h ⊢
      obtain ⟨ch, hch, heq⟩ := Option.map_eq_some_iff.1 h
      obtain ⟨rfl, rfl⟩ := Prod.mk.inj heq
      rw [hch]
      rfl

private theorem scanString_append {n m : Nat} {cs s r : List Char} (h : scanString n cs = some (s, r))
    (hnm : n ≤ m) (q : List Char) : scanString m (cs ++ q) = some (s, r ++ q) := by
  induction n generalizing m cs s r with
  | zero => cases h
  | succ n ih =>
    obtain ⟨m, rfl⟩ : ∃ k, m = k + 1 := ⟨m - 1, by omega⟩
    cases cs with
    | nil => cases h
    | cons c t =>
      rw [scanString] at h
      rw [List.cons_append, scanString]
      by_cases hq : c = '"'
      · rw [if_pos hq] at h ⊢
        obtain ⟨rfl, rfl⟩ := Prod.mk.inj (Option.some.inj h)
        rfl
      rw [if_neg hq] at h ⊢
      by_cases hb : c = '\\'
      · rw [if_pos hb] at h ⊢
        obtain ⟨⟨ch, t'⟩, he, h⟩ := Option.bind_eq_some_iff.1 h
        obtain ⟨⟨s', r'⟩, hs, heq⟩ := Option.map_eq_some_iff.1 h
        obtain ⟨rfl, rfl⟩ := Prod.mk.inj heq
        rw [scanEscape_append he, Option.bind_some]
        dsimp only
        rw [ih hs (by omega)]
        rfl
      rw [if_neg hb] at h ⊢
      by_cases hc : c.toNat < 0x20
      · rw [if_pos hc] at h
        cases h
      · rw [if_neg hc] at h ⊢
        obtain ⟨⟨s', r'⟩, hs, heq⟩ := Option.map_eq_some_iff.1 h
        obtain ⟨rfl, rfl⟩ := Prod.mk.inj heq
        rw [ih hs (by omega)]
        rfl

private theorem scanKey_append {n m : Nat} {cs r : List Char} {k : String} (h : scanKey n cs = some (k, r))
    (hnm : n ≤ m) (hr : r ≠ []) (q : List Char) : scanKey m (cs ++ q) = some (k, r ++ q) := by
  obtain ⟨t, ht, h⟩ := Option.bind_eq_some_iff.1 h
  obtain ⟨⟨s, u⟩, hs, h⟩ := Option.bind_eq_some_iff.1 h
  obtain ⟨w, hw, heq⟩ := Option.map_eq_some_iff.1 h
  obtain ⟨rfl, rfl⟩ := Prod.mk.inj heq
  have hu : skipWs u ≠ [] := by
    rw [eat_eq_some hw]
    exact List.cons_ne_nil _ _
  rw [scanKey, eat_append ht, Option.bind_some, scanString_append hs hnm, Option.bind_some]
  dsimp only
  rw [skipWs_append hu, eat_append hw, Option.map_some, skipWs_append hr]

private theorem ends_of_scanElems [JsonFloat F] {n : Nat} {r r' : List Char} {vs : List (Value F)}
    (h : scanElems n r = some (vs, r')) : Ends r := by
  cases n with
  | zero => cases h
  | succ n =>
    cases scanElems_iff.1 h with
    | close hclose => exact ends_of_skipWs (eat_eq_some hclose) (Or.inl rfl)
    | next _ hcomma => exact ends_of_skipWs (eat_eq_some hcomma) (Or.inr (Or.inr rfl))

private theorem ends_of_scanFields [JsonFloat F] {n : Nat} {r r' : List Char} {fs : List (String × Value F)}
    (h : scanFields n r = some (fs, r')) : Ends r := by
  cases n with
  | zero => cases h
  | succ n =>
    cases scanFields_iff.1 h with
    | close hclose => exact ends_of_skipWs (eat_eq_some hclose) (Or.inr (Or.inl rfl))
    | next _ hcomma => exact ends_of_skipWs (eat_eq_some hcomma) (Or.inr (Or.inr rfl))

private theorem ne_nil_of_scanValue [JsonFloat F] {n : Nat} {r : List Char} {x : Value F × List Char}
    (h : scanValue n r = some x) : r ≠ [] := by
  rintro rfl
  cases n <;> cases h

private theorem ne_nil_of_scanKey {n : Nat} {r : List Char} {x : String × List Char}
    (h : scanKey n r = some x) : r ≠ [] := by
  rintro rfl
  cases h

private theorem eat_skipWs_append {ch : Char} {cs r : List Char} (h : eat ch (skipWs cs) = some r) (q : List Char) :
    eat ch (skipWs (cs ++ q)) = some (r ++ q) := by
  have hne : skipWs cs ≠ [] := by
    rw [eat_eq_some h]
    exact List.cons_ne_nil _ _
  rw [skipWs_append hne, eat_append h]

private theorem eat_skipWs_append_none {ch : Char} {cs : List Char} (h : eat ch (skipWs cs) = none)
    (hne : skipWs cs ≠ []) (q : List Char) : eat ch (skipWs (cs ++ q)) = none := by
  rw [skipWs_append hne, eat_append_none h hne]

/-- Only a number may need what follows it. -/
def Closed (cs r : List Char) : Prop := (∃ c ∈ cs.head?, c = '"' ∨ c = '[' ∨ c = '{') ∨ Ends r

private theorem Closed.ends {c : Char} {t r : List Char} (h : Closed (c :: t) r) (hc : c ≠ '"' ∧ c ≠ '[' ∧ c ≠ '{') :
    Ends r := by
  rcases h with ⟨d, hd, hd'⟩ | hends
  · obtain rfl : c = d := by simpa using hd
    rcases hd' with hd' | hd' | hd'
    · exact absurd hd' hc.1
    · exact absurd hd' hc.2.1
    · exact absurd hd' hc.2.2
  · exact hends

/-- A scan that succeeds gives the same on every extension of its text. -/
theorem scan_append [JsonFloat F] {n m : Nat} (hnm : n ≤ m) (q : List Char) :
    (∀ cs r (v : Value F), scanValue n cs = some (v, r) → Closed cs r →
      scanValue m (cs ++ q) = some (v, r ++ q)) ∧
    (∀ cs r (vs : List (Value F)), scanElems n cs = some (vs, r) → scanElems m (cs ++ q) = some (vs, r ++ q)) ∧
    (∀ cs r (fs : List (String × Value F)), scanFields n cs = some (fs, r) →
      scanFields m (cs ++ q) = some (fs, r ++ q)) := by
  induction n generalizing m with
  | zero =>
    refine ⟨?_, ?_, ?_⟩
    · intro cs r v h
      cases h
    · intro cs r vs h
      cases h
    · intro cs r fs h
      cases h
  | succ n ih =>
    obtain ⟨m, rfl⟩ : ∃ k, m = k + 1 := ⟨m - 1, by omega⟩
    have hnm' : n ≤ m := by omega
    obtain ⟨ihv, ihe, ihf⟩ := ih hnm'
    refine ⟨?_, ?_, ?_⟩
    · intro cs r v h hcl
      rw [scanValue_iff] at h ⊢
      cases h with
      | str hs => exact .str (scanString_append hs hnm' q)
      | emptyArr hclose => exact .emptyArr (eat_skipWs_append hclose q)
      | arr hopen hv hvs =>
        have hne := ne_nil_of_scanValue hv
        apply ValueRule.arr (eat_skipWs_append_none hopen hne q)
        · rw [skipWs_append hne]
          exact ihv _ _ _ hv (Or.inr (ends_of_scanElems hvs))
        · exact ihe _ _ _ hvs
      | emptyObj hclose => exact .emptyObj (eat_skipWs_append hclose q)
      | obj hopen hk hv hfs =>
        have hne := ne_nil_of_scanKey hk
        apply ValueRule.obj (eat_skipWs_append_none hopen hne q)
        · rw [skipWs_append hne]
          exact scanKey_append hk hnm' (ne_nil_of_scanValue hv) q
        · exact ihv _ _ _ hv (Or.inr (ends_of_scanFields hfs))
        · exact ihf _ _ _ hfs
      | atom hc hv => exact .atom hc (scanAtom_append hv (hcl.ends hc) q)
    · intro cs r vs h
      rw [scanElems_iff] at h ⊢
      cases h with
      | close hclose => exact .close (eat_skipWs_append hclose q)
      | next hopen hcomma hv hvs =>
        have hne : skipWs cs ≠ [] := by
          rw [eat_eq_some hcomma]
          exact List.cons_ne_nil _ _
        apply ElemsRule.next (eat_skipWs_append_none hopen hne q) (eat_skipWs_append hcomma q)
        · rw [skipWs_append (ne_nil_of_scanValue hv)]
          exact ihv _ _ _ hv (Or.inr (ends_of_scanElems hvs))
        · exact ihe _ _ _ hvs
    · intro cs r fs h
      rw [scanFields_iff] at h ⊢
      cases h with
      | close hclose => exact .close (eat_skipWs_append hclose q)
      | next hopen hcomma hk hv hfs =>
        have hne : skipWs cs ≠ [] := by
          rw [eat_eq_some hcomma]
          exact List.cons_ne_nil _ _
        apply FieldsRule.next (eat_skipWs_append_none hopen hne q) (eat_skipWs_append hcomma q)
        · rw [skipWs_append (ne_nil_of_scanKey hk)]
          exact scanKey_append hk hnm' (ne_nil_of_scanValue hv) q
        · exact ihv _ _ _ hv (Or.inr (ends_of_scanFields hfs))
        · exact ihf _ _ _ hfs

/-- A nonempty proper front part of a printed object is not a JSON text. -/
theorem loads_cut_obj [JsonFloat F] {fields : List (String × Value F)} {p q : List Char}
    (hk : (Value.obj fields).keysNodup) (hpq : dumps (.obj fields) = p ++ q) (hp : p ≠ []) (hq : q ≠ []) :
    (loads p : Option (Value F)) = none := by
  rw [Option.eq_none_iff_forall_ne_some]
  intro v hv
  obtain ⟨⟨w, r⟩, hscan, -⟩ := Option.bind_eq_some_iff.1 hv
  obtain ⟨t, rfl⟩ : ∃ t, p = '{' :: t := by
    cases p with
    | nil => exact absurd rfl hp
    | cons c t =>
      have hhead : (dumps (.obj fields)).head? = some '{' := by
        rcases fields with _ | ⟨⟨k, v⟩, fs⟩ <;> rfl
      rw [hpq] at hhead
      exact ⟨t, by rw [Option.some.inj hhead]⟩
  rw [skipWs_cons_of_ne (by decide)] at hscan
  have hlen : ('{' :: t).length + 1 ≤ (dumps (.obj fields)).length + 1 := by
    rw [hpq, List.length_append]
    omega
  have hext := (scan_append hlen q).1 _ _ _ hscan (Or.inl ⟨'{', rfl, Or.inr (Or.inr rfl)⟩)
  have hwhole := scanValue_dumps (.obj fields) ((dumps (.obj fields)).length + 1) [] hk (Nat.le_succ _) stops_nil
  rw [List.append_nil, hpq] at hwhole
  rw [hpq, hwhole] at hext
  have hnil : [] = r ++ q := (Prod.mk.inj (Option.some.inj hext)).2
  exact hq (List.append_eq_nil_iff.1 hnil.symm).2

end JsonText
