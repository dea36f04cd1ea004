import IronHarness.Lib.Bytes

/-!
# UTF-8 as it arrives

The incremental decoder, which holds back the bytes of a character that is not complete yet.  However a byte string is
cut, the decoder makes the same text of it (`feedAll_eq`).
-/

namespace ByteText

/-- The front of `b :: bs` is a character so far, cut off by the end of the bytes. -/
def isPartial (b : UInt8) (bs : Bytes) : Bool :=
  decide (0xC2 ≤ b.toNat ∧ b.toNat ≤ 0xF4) && decodeFirst b bs == .bad []

def feedAux : Nat → Bytes → List Char × Bytes
  | 0, bs => ([], bs)
  | _ + 1, [] => ([], [])
  | n + 1, b :: bs =>
    if isPartial b bs then ([], b :: bs)
    else
      match decodeFirst b bs with
      | .char c rest => (c :: (feedAux n rest).1, (feedAux n rest).2)
      | .bad rest => ('\uFFFD' :: (feedAux n rest).1, (feedAux n rest).2)

/-- The text of the bytes received, and the bytes held back. -/
def feed (bs : Bytes) : List Char × Bytes := feedAux bs.length bs

/-- The text of a byte string that arrives in pieces, after the bytes held back. -/
def feedAll : Bytes → List Bytes → List Char × Bytes
  | held, [] => ([], held)
  | held, data :: rest =>
    let now := feed (held ++ data)
    let later := feedAll now.2 rest
    (now.1 ++ later.1, later.2)

private theorem feedAux_fuel {n m : Nat} {bs : Bytes} (hn : bs.length ≤ n) (hm : bs.length ≤ m) :
    feedAux n bs = feedAux m bs := by
  induction n generalizing m bs with
  | zero =>
    obtain rfl : bs = [] := List.length_eq_zero_iff.1 (by omega)
    cases m <;> rfl
  | succ n ih =>
    cases bs with
    | nil => cases m <;> rfl
    | cons b bs =>
      simp only [List.length_cons] at hn hm
      obtain ⟨m, rfl⟩ : ∃ k, m = k + 1 := ⟨m - 1, by omega⟩
      have hr := decodeFirst_rest_le b bs
      unfold feedAux
      split
      · rfl
      · cases hf : decodeFirst b bs with
        | char c rest =>
          rw [hf] at hr
          simp only [Front.rest] at hr
          simp only [ih (show rest.length ≤ n by omega) (show rest.length ≤ m by omega)]
        | bad rest =>
          rw [hf] at hr
          simp only [Front.rest] at hr
          simp only [ih (show rest.length ≤ n by omega) (show rest.length ≤ m by omega)]

@[simp] theorem feed_nil : feed [] = ([], []) := rfl

private theorem feed_held_back {b : UInt8} {bs : Bytes} (h : isPartial b bs = true) :
    feed (b :: bs) = ([], b :: bs) := by
  rw [feed, List.length_cons, feedAux, if_pos h]

private theorem feed_char {b : UInt8} {bs rest : Bytes} {c : Char} (h : decodeFirst b bs = .char c rest) :
    feed (b :: bs) = (c :: (feed rest).1, (feed rest).2) := by
  have hwhole : isPartial b bs = false := by simp [isPartial, h]
  have hr : rest.length ≤ bs.length := by
    have hr := decodeFirst_rest_le b bs
    rwa [h] at hr
  rw [feed, List.length_cons, feedAux, if_neg (by simp [hwhole]), h]
  simp only [feedAux_fuel hr (Nat.le_refl _)]
  rfl

private theorem feed_bad {b : UInt8} {bs rest : Bytes} (hwhole : isPartial b bs = false)
    (h : decodeFirst b bs = .bad rest) :
    feed (b :: bs) = ('\uFFFD' :: (feed rest).1, (feed rest).2) := by
  have hr : rest.length ≤ bs.length := by
    have hr := decodeFirst_rest_le b bs
    rwa [h] at hr
  rw [feed, List.length_cons, feedAux, if_neg (by simp [hwhole]), h]
  simp only [feedAux_fuel hr (Nat.le_refl _)]
  rfl

/-! ### More bytes -/

def Front.append (more : Bytes) : Front → Front
  | .char c rest => .char c (rest ++ more)
  | .bad rest => .bad (rest ++ more)

private theorem decodeCont_append (need lo hi acc : Nat) (bs more : Bytes)
    (h : decodeCont need lo hi acc bs ≠ .bad []) :
    decodeCont need lo hi acc (bs ++ more) = (decodeCont need lo hi acc bs).append more := by
  induction need generalizing lo hi acc bs with
  | zero => rfl
  | succ need ih =>
    cases bs with
    | nil => exact absurd rfl h
    | cons b bs =>
      rw [List.cons_append]
      unfold decodeCont at h ⊢
      split
      · rename_i hb
        rw [if_pos hb] at h
        exact ih _ _ _ _ h
      · rfl

/-- A front that is not cut off by the end of the bytes is the front of more bytes. -/
theorem decodeFirst_append {b : UInt8} {bs : Bytes} (h : isPartial b bs = false) (more : Bytes) :
    decodeFirst b (bs ++ more) = (decodeFirst b bs).append more := by
  have hfront : 0xC2 ≤ b.toNat → b.toNat ≤ 0xF4 → decodeFirst b bs ≠ .bad [] := by
    intro hlow hhigh
    simpa [isPartial, hlow, hhigh] using h
  unfold decodeFirst at hfront ⊢
  generalize b.toNat = n at hfront
  dsimp only at hfront ⊢
  by_cases h1 : n ≤ 0x7F
  · simp only [if_pos h1]; rfl
  by_cases h2 : n < 0xC2
  · simp only [if_neg h1, if_pos h2]; rfl
  by_cases h3 : n ≤ 0xF4
  · have hcont := hfront (by omega) h3
    simp only [if_neg h1, if_neg h2] at hcont ⊢
    split_ifs at hcont ⊢ <;> first
      | exact decodeCont_append _ _ _ _ _ _ hcont
      | omega
  · simp only [if_neg h1, if_neg h2, if_neg (show ¬ n ≤ 0xDF by omega), if_neg (show ¬ n = 0xE0 by omega),
      if_neg (show ¬ n = 0xED by omega), if_neg (show ¬ n ≤ 0xEF by omega), if_neg (show ¬ n = 0xF0 by omega),
      if_neg (show ¬ n ≤ 0xF3 by omega), if_neg (show ¬ n = 0xF4 by omega)]
    rfl

private theorem feed_append_le {n : Nat} {a : Bytes} (hn : a.length ≤ n) (b : Bytes) :
    feed (a ++ b) = ((feed a).1 ++ (feed ((feed a).2 ++ b)).1, (feed ((feed a).2 ++ b)).2) := by
  induction n generalizing a with
  | zero =>
    obtain rfl : a = [] := List.length_eq_zero_iff.1 (by omega)
    simp
  | succ n ih =>
    cases a with
    | nil => simp
    | cons x a =>
      rw [List.length_cons] at hn
      have hr := decodeFirst_rest_le x a
      by_cases hpart : isPartial x a = true
      · rw [feed_held_back hpart]
        rfl
      · rw [Bool.not_eq_true] at hpart
        have hmore := decodeFirst_append hpart b
        cases hf : decodeFirst x a with
        | char c rest =>
          rw [hf] at hmore hr
          simp only [Front.rest] at hr
          rw [List.cons_append, feed_char hmore, feed_char hf, ih (show rest.length ≤ n by omega)]
          rfl
        | bad rest =>
          rw [hf] at hmore hr
          simp only [Front.rest] at hr
          have hwhole : isPartial x (a ++ b) = false := by
            simp only [isPartial, hf, hmore, Front.append] at hpart ⊢
            cases rest with
            | nil =>
              have hlead : ¬ (0xC2 ≤ x.toNat ∧ x.toNat ≤ 0xF4) := by simpa using hpart
              simp [hlead]
            | cons y rest => simp
          rw [List.cons_append, feed_bad hwhole hmore, feed_bad hpart hf, ih (show rest.length ≤ n by omega)]
          rfl

/-- What is held back is decoded with the bytes that follow. -/
theorem feed_append (a b : Bytes) :
    feed (a ++ b) = ((feed a).1 ++ (feed ((feed a).2 ++ b)).1, (feed ((feed a).2 ++ b)).2) :=
  feed_append_le (Nat.le_refl _) b

theorem feed_held (a : Bytes) : feed (feed a).2 = ([], (feed a).2) := by
  have h := feed_append a []
  rw [List.append_nil, List.append_nil] at h
  have htext : (feed (feed a).2).1 = [] := List.self_eq_append_right.1 (congrArg Prod.fst h)
  exact Prod.ext htext (congrArg Prod.snd h).symm

/-- Nothing is held back, or a front that the end of the bytes cuts off. -/
def Residue (held : Bytes) : Prop := ∀ b bs, held = b :: bs → isPartial b bs = true

theorem feed_residue (a : Bytes) : Residue (feed a).2 := by
  intro b bs h
  by_contra hwhole
  rw [Bool.not_eq_true] at hwhole
  have hheld := feed_held a
  rw [h] at hheld
  cases hf : decodeFirst b bs with
  | char c rest =>
    rw [feed_char hf] at hheld
    cases hheld
  | bad rest =>
    rw [feed_bad hwhole hf] at hheld
    cases hheld

private theorem decodeReplace_le {n : Nat} {a : Bytes} (hn : a.length ≤ n) :
    decodeReplace a = (feed a).1 ++ decodeReplace (feed a).2 := by
  induction n generalizing a with
  | zero =>
    obtain rfl : a = [] := List.length_eq_zero_iff.1 (by omega)
    rfl
  | succ n ih =>
    cases a with
    | nil => rfl
    | cons x a =>
      rw [List.length_cons] at hn
      have hr := decodeFirst_rest_le x a
      by_cases hpart : isPartial x a = true
      · rw [feed_held_back hpart]
        rfl
      · rw [Bool.not_eq_true] at hpart
        cases hf : decodeFirst x a with
        | char c rest =>
          rw [hf] at hr
          simp only [Front.rest] at hr
          have hrest : decodeReplace rest = (feed rest).1 ++ decodeReplace (feed rest).2 := ih (by omega)
          rw [feed_char hf, List.cons_append, ← hrest]
          simp [decodeReplace, pieces_char hf]
        | bad rest =>
          rw [hf] at hr
          simp only [Front.rest] at hr
          have hrest : decodeReplace rest = (feed rest).1 ++ decodeReplace (feed rest).2 := ih (by omega)
          rw [feed_bad hpart hf, List.cons_append, ← hrest]
          simp [decodeReplace, pieces_bad hf]

/-- The text made so far and that of the bytes held back are the text of all the bytes. -/
theorem decodeReplace_feed (a : Bytes) : decodeReplace a = (feed a).1 ++ decodeReplace (feed a).2 :=
  decodeReplace_le (Nat.le_refl _)

private theorem feed_flatten (a : Bytes) (chunks : List Bytes) :
    feed (a ++ chunks.flatten) = ((feed a).1 ++ (feedAll (feed a).2 chunks).1, (feedAll (feed a).2 chunks).2) := by
  induction chunks generalizing a with
  | nil => simp [feedAll]
  | cons data rest ih =>
    rw [List.flatten_cons, ← List.append_assoc, ih, feed_append a data, List.append_assoc]
    rfl

/-- The decoder makes the same text of a byte string, however it is cut. -/
theorem feedAll_eq (chunks : List Bytes) : feedAll [] chunks = feed chunks.flatten := by
  rw [← List.nil_append chunks.flatten, feed_flatten]
  simp

end ByteText
