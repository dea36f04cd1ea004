import Mathlib.Data.List.Basic

/-!
# Byte strings and UTF-8

Byte strings as lists, the first occurrence of a pattern (`bytes.find`), and UTF-8: encoding, strict decoding and
decoding with ill-formed parts replaced.  A decoder cuts a byte string into characters and maximal ill-formed
prefixes (`pieces`); the encoding of a text followed by anything is cut into the characters of the text first
(`pieces_encode`), so both decoders invert the encoder, and the strict one accepts encodings only (`encode_of_decode`).
-/

namespace ByteText

abbrev Bytes := List UInt8

/-- `bytes.hex()`. -/
def hex (bs : Bytes) : List Char :=
  bs.flatMap fun b => [Nat.digitChar (b.toNat / 16), Nat.digitChar (b.toNat % 16)]

/-! ### The first occurrence -/

/-- A pattern that does not occur in the front of a text begins fewer than its own length before the end of it. -/
theorem infix_append_iff {α : Type} {needle a b : List α} (ha : ¬ needle <:+: a) :
    needle <:+: a ++ b ↔ needle <:+: (a ++ b).drop (a.length + 1 - needle.length) := by
  constructor
  · rintro ⟨before, after, h⟩
    have hlate : a.length < before.length + needle.length := by
      by_contra hfits
      apply ha
      have hwhole : before ++ needle <+: a ++ b := by
        rw [← h]
        exact List.prefix_append _ after
      have hfront : before ++ needle <+: a := by
        apply List.prefix_of_prefix_length_le hwhole (List.prefix_append a b)
        rw [List.length_append]
        omega
      exact (List.suffix_append before needle).isInfix.trans hfront.isInfix
    rw [← h, List.append_assoc, List.drop_append_of_le_length (by omega), ← List.append_assoc]
    exact List.infix_append _ needle after
  · intro h
    exact h.trans (List.drop_suffix _ _).isInfix

section Find

variable {α : Type} [BEq α] [LawfulBEq α]

/-- `text.find(needle)`: the index of the first occurrence. -/
def find (needle : List α) : List α → Option Nat
  | [] => if needle.isEmpty then some 0 else none
  | x :: xs => if needle.isPrefixOf (x :: xs) then some 0 else (find needle xs).map (· + 1)

/-- An occurrence found by `find` is one. -/
theorem find_eq_some {needle text : List α} {pos : Nat} (h : find needle text = some pos) :
    needle <+: text.drop pos ∧ pos + needle.length ≤ text.length := by
  induction text generalizing pos with
  | nil =>
    unfold find at h
    split at h
    · rename_i he
      obtain rfl : 0 = pos := by simpa using h
      simp [List.isEmpty_iff.1 he]
    · cases h
  | cons x xs ih =>
    unfold find at h
    split at h
    · rename_i hp
      obtain rfl : 0 = pos := by simpa using h
      have hp' := List.isPrefixOf_iff_prefix.1 hp
      exact ⟨by simpa using hp', by simpa using hp'.length_le⟩
    · obtain ⟨k, hk, rfl⟩ := Option.map_eq_some_iff.1 h
      obtain ⟨h1, h2⟩ := ih hk
      exact ⟨by simpa using h1, by simp; omega⟩

theorem find_minimal {needle text : List α} {pos k : Nat} (h : find needle text = some pos) (hk : k < pos) :
    ¬ needle <+: text.drop k := by
  induction text generalizing pos k with
  | nil =>
    unfold find at h
    split at h
    · obtain rfl := Option.some.inj h
      omega
    · cases h
  | cons x xs ih =>
    unfold find at h
    split at h
    · obtain rfl := Option.some.inj h
      omega
    · rename_i hp
      obtain ⟨j, hj, rfl⟩ := Option.map_eq_some_iff.1 h
      cases k with
      | zero =>
        intro hfront
        exact hp (List.isPrefixOf_iff_prefix.2 hfront)
      | succ k => exact ih hj (by omega)

theorem find_eq_none {needle text : List α} : find needle text = none ↔ ∀ k ≤ text.length, ¬ needle <+: text.drop k := by
  induction text with
  | nil =>
    cases needle with
    | nil => simp [find]
    | cons y ys => simp [find]
  | cons x xs ih =>
    unfold find
    by_cases hp : needle.isPrefixOf (x :: xs) = true
    · rw [if_pos hp]
      simp only [reduceCtorEq, false_iff]
      intro hnone
      exact hnone 0 (Nat.zero_le _) (List.isPrefixOf_iff_prefix.1 hp)
    · rw [if_neg hp, Option.map_eq_none_iff, ih]
      constructor
      · intro hnone k hk
        cases k with
        | zero =>
          intro hfront
          exact hp (List.isPrefixOf_iff_prefix.2 hfront)
        | succ k => exact hnone k (by simpa using hk)
      · intro hnone k hk
        exact hnone (k + 1) (by simpa using hk)

theorem find_isSome_iff {needle text : List α} : (find needle text).isSome = true ↔ needle <:+: text := by
  constructor
  · intro hsome
    obtain ⟨pos, hpos⟩ := Option.isSome_iff_exists.1 hsome
    exact (find_eq_some hpos).1.isInfix.trans (List.drop_suffix pos text).isInfix
  · rintro ⟨before, after, rfl⟩
    rw [Option.isSome_iff_ne_none]
    intro hnone
    apply find_eq_none.1 hnone before.length (by simp)
    rw [List.append_assoc, List.drop_left]
    exact List.prefix_append needle after

/-- A pattern that occurs is found where it occurs first. -/
theorem find_eq_of_first {needle text : List α} {pos : Nat} (hpos : pos ≤ text.length) (hat : needle <+: text.drop pos)
    (hfirst : ∀ k < pos, ¬ needle <+: text.drop k) : find needle text = some pos := by
  match hfind : find needle text with
  | none => exact absurd hat (find_eq_none.1 hfind pos hpos)
  | some k =>
    have hk := (find_eq_some hfind).1
    rcases Nat.lt_trichotomy k pos with hlt | heq | hgt
    · exact absurd hk (hfirst k hlt)
    · rw [heq]
    · exact absurd hat (find_minimal hfind hgt)

/-- A single element is found where it occurs first. -/
theorem find_singleton {x : α} {text : List α} {pos : Nat} (h : find [x] text = some pos) :
    x ∉ text.take pos ∧ text[pos]? = some x := by
  constructor
  · intro hmem
    obtain ⟨k, hk⟩ := List.mem_iff_getElem?.1 hmem
    have hlt : k < pos := by
      by_contra hge
      rw [List.getElem?_take, if_neg hge] at hk
      cases hk
    rw [List.getElem?_take_of_lt hlt] at hk
    apply find_minimal h hlt
    rw [List.singleton_prefix_iff_head?_eq_some, List.head?_drop, hk]
  · have hat := (find_eq_some h).1
    rwa [List.singleton_prefix_iff_head?_eq_some, List.head?_drop] at hat

theorem find_singleton_eq_none {x : α} {text : List α} : find [x] text = none ↔ x ∉ text := by
  rw [find_eq_none]
  constructor
  · intro hnone hmem
    obtain ⟨k, hk⟩ := List.mem_iff_getElem?.1 hmem
    have hlt := (List.getElem?_eq_some_iff.1 hk).1
    apply hnone k (Nat.le_of_lt hlt)
    rw [List.singleton_prefix_iff_head?_eq_some, List.head?_drop, hk]
  · intro hmem k _ hat
    rw [List.singleton_prefix_iff_head?_eq_some, List.head?_drop] at hat
    exact hmem (List.mem_of_getElem? hat)

/-- What is found in the front of a text is found in the text. -/
theorem find_append {needle text : List α} {pos : Nat} (h : find needle text = some pos) (more : List α) :
    find needle (text ++ more) = some pos := by
  obtain ⟨hat, hlen⟩ := find_eq_some h
  apply find_eq_of_first
  · rw [List.length_append]
    omega
  · rw [List.drop_append_of_le_length (by omega)]
    exact hat.trans (List.prefix_append ..)
  · intro k hk hearly
    rw [List.drop_append_of_le_length (by omega)] at hearly
    apply find_minimal h hk
    exact List.prefix_of_prefix_length_le hearly (List.prefix_append ..) (by rw [List.length_drop]; omega)

/-- A pattern is not found across an element it does not contain. -/
theorem find_break {needle a b : List α} {x : α} (hx : x ∉ needle) (hb : find needle b = none) :
    find needle (a ++ x :: b) = find needle a := by
  cases hfind : find needle a with
  | some pos => exact find_append hfind _
  | none =>
    rw [find_eq_none] at hfind hb ⊢
    intro k hk hat
    by_cases hfront : k + needle.length ≤ a.length
    · apply hfind k (by omega)
      rw [List.drop_append_of_le_length (by omega)] at hat
      exact List.prefix_of_prefix_length_le hat (List.prefix_append ..) (by rw [List.length_drop]; omega)
    by_cases hback : a.length < k
    · obtain ⟨j, rfl⟩ : ∃ j, k = a.length + (j + 1) := ⟨k - a.length - 1, by omega⟩
      rw [List.drop_append, List.drop_of_length_le (by omega), List.nil_append, Nat.add_sub_cancel_left,
        List.drop_succ_cons] at hat
      simp only [List.length_append, List.length_cons] at hk
      exact hb j (by omega) hat
    · rw [List.drop_append_of_le_length (by omega)] at hat
      have hmem : a.drop k ++ [x] <+: needle := by
        apply List.prefix_of_prefix_length_le _ hat
        · rw [List.length_append, List.length_drop, List.length_singleton]
          omega
        · rw [← List.singleton_append (x := x) (l := b), ← List.append_assoc]
          exact List.prefix_append _ b
      exact hx (hmem.subset (by simp))

theorem find_singleton_append {x : α} {piece : List α} (h : x ∉ piece) (rest : List α) :
    find [x] (piece ++ x :: rest) = some piece.length := by
  apply find_eq_of_first
  · simp
  · simp
  · intro k hk hat
    rw [List.drop_append_of_le_length (by omega), List.singleton_prefix_iff_head?_eq_some, List.head?_append,
      List.head?_drop, List.getElem?_eq_getElem hk, Option.some_or] at hat
    exact h (Option.some.inj hat ▸ List.getElem_mem hk)

/-- `text.rfind(needle)`: the index of the last occurrence. -/
def rfind (needle : List α) : List α → Option Nat
  | [] => if needle.isEmpty then some 0 else none
  | x :: xs =>
    match rfind needle xs with
    | some pos => some (pos + 1)
    | none => if needle.isPrefixOf (x :: xs) then some 0 else none

/-- An occurrence found by `rfind` is one. -/
theorem rfind_eq_some {needle text : List α} {pos : Nat} (h : rfind needle text = some pos) :
    needle <+: text.drop pos ∧ pos + needle.length ≤ text.length := by
  induction text generalizing pos with
  | nil =>
    unfold rfind at h
    split at h
    · rename_i he
      obtain rfl : 0 = pos := by simpa using h
      simp [List.isEmpty_iff.1 he]
    · cases h
  | cons x xs ih =>
    unfold rfind at h
    split at h
    · rename_i k hk
      obtain rfl : k + 1 = pos := by simpa using h
      obtain ⟨hat, hlen⟩ := ih hk
      refine ⟨hat, ?_⟩
      rw [List.length_cons]
      omega
    · split at h
      · rename_i hp
        obtain rfl : 0 = pos := by simpa using h
        have hp' := List.isPrefixOf_iff_prefix.1 hp
        exact ⟨hp', by simpa using hp'.length_le⟩
      · cases h

/-- No occurrence stands behind the one `rfind` finds, and none anywhere if it finds none. -/
theorem le_rfind {needle text : List α} {k : Nat} (hk : k ≤ text.length) (hat : needle <+: text.drop k) :
    ∃ pos, rfind needle text = some pos ∧ k ≤ pos := by
  induction text generalizing k with
  | nil =>
    obtain rfl : k = 0 := by simpa using hk
    have hempty : needle = [] := by simpa using hat
    exact ⟨0, by simp [rfind, hempty], Nat.le_refl 0⟩
  | cons x xs ih =>
    unfold rfind
    cases k with
    | zero =>
      cases rfind needle xs with
      | some pos => exact ⟨pos + 1, rfl, Nat.zero_le _⟩
      | none => exact ⟨0, if_pos (List.isPrefixOf_iff_prefix.2 hat), Nat.le_refl 0⟩
    | succ k =>
      obtain ⟨pos, hpos, hle⟩ := ih (by simpa using hk) hat
      rw [hpos]
      exact ⟨pos + 1, rfl, by omega⟩

end Find

/-! ### UTF-8 -/

/-- `str.encode("utf-8")`. -/
def encode (text : List Char) : Bytes := text.flatMap String.utf8EncodeChar

theorem encode_append (a b : List Char) : encode (a ++ b) = encode a ++ encode b :=
  List.flatMap_append

@[simp] theorem encode_nil : encode [] = [] := rfl

theorem encode_cons (c : Char) (text : List Char) :
    encode (c :: text) = String.utf8EncodeChar c ++ encode text := rfl

/-- An ASCII byte of an encoding is an ASCII character of the text. -/
theorem encode_ascii {text : List Char} {b : UInt8} (h : b ∈ encode text) (hb : b.toNat < 0x80) :
    ∃ c ∈ text, c.toNat = b.toNat := by
  obtain ⟨c, hc, hbc⟩ := List.mem_flatMap.1 h
  refine ⟨c, hc, ?_⟩
  unfold String.utf8EncodeChar at hbc
  rw [show c.val.toNat = c.toNat from rfl] at hbc
  generalize c.toNat = v at hbc
  -- the bytes of a character beyond ASCII are not below 128
  have hhigh : ∀ x, 128 ≤ x % 256 → b ≠ UInt8.ofNat x := by
    rintro x hx rfl
    rw [UInt8.toNat_ofNat'] at hb
    omega
  dsimp only at hbc
  split_ifs at hbc
  · obtain rfl := List.mem_singleton.1 hbc
    rw [UInt8.toNat_ofNat']
    omega
  all_goals simp only [List.mem_cons, List.not_mem_nil, or_false] at hbc
  · rcases hbc with hbc | hbc
    · exact absurd hbc (hhigh _ (by omega))
    · exact absurd hbc (hhigh _ (by omega))
  · rcases hbc with hbc | hbc | hbc
    · exact absurd hbc (hhigh _ (by omega))
    · exact absurd hbc (hhigh _ (by omega))
    · exact absurd hbc (hhigh _ (by omega))
  · rcases hbc with hbc | hbc | hbc | hbc
    · exact absurd hbc (hhigh _ (by omega))
    · exact absurd hbc (hhigh _ (by omega))
    · exact absurd hbc (hhigh _ (by omega))
    · exact absurd hbc (hhigh _ (by omega))

/-- The front of a byte string: a character, or a maximal ill-formed prefix; and what follows it. -/
inductive Front
  | char (c : Char) (rest : Bytes)
  | bad (rest : Bytes)
  deriving DecidableEq

/-- Reads `need` continuation bytes, the first of them between `lo` and `hi`. -/
def decodeCont : (need lo hi acc : Nat) → Bytes → Front
  | 0, _, _, acc, bs => .char (Char.ofNat acc) bs
  | _ + 1, _, _, _, [] => .bad []
  | need + 1, lo, hi, acc, b :: bs =>
    if lo ≤ b.toNat ∧ b.toNat ≤ hi then decodeCont need 0x80 0xBF (acc * 64 + (b.toNat - 0x80)) bs
    else .bad (b :: bs)

/-- The front of `b :: bs`, by the well-formed byte sequences of the Unicode standard. -/
def decodeFirst (b : UInt8) (bs : Bytes) : Front :=
  let n := b.toNat
  if n ≤ 0x7F then .char (Char.ofNat n) bs
  else if n < 0xC2 then .bad bs
  else if n ≤ 0xDF then decodeCont 1 0x80 0xBF (n - 0xC0) bs
  else if n = 0xE0 then decodeCont 2 0xA0 0xBF 0 bs
  else if n = 0xED then decodeCont 2 0x80 0x9F 0xD bs
  else if n ≤ 0xEF then decodeCont 2 0x80 0xBF (n - 0xE0) bs
  else if n = 0xF0 then decodeCont 3 0x90 0xBF 0 bs
  else if n ≤ 0xF3 then decodeCont 3 0x80 0xBF (n - 0xF0) bs
  else if n = 0xF4 then decodeCont 3 0x80 0x8F 4 bs
  else .bad bs

/-- The characters of a byte string, `none` for a maximal ill-formed part. -/
def piecesAux : Nat → Bytes → List (Option Char)
  | 0, _ => []
  | _ + 1, [] => []
  | n + 1, b :: bs =>
    match decodeFirst b bs with
    | .char c rest => some c :: piecesAux n rest
    | .bad rest => none :: piecesAux n rest

def pieces (bs : Bytes) : List (Option Char) := piecesAux bs.length bs

/-- `bytes.decode("utf-8")`; `none` is a UnicodeDecodeError. -/
def decode (bs : Bytes) : Option (List Char) := (pieces bs).mapM id

/-- `bytes.decode("utf-8", "replace")`. -/
def decodeReplace (bs : Bytes) : List Char := (pieces bs).map (·.getD '\uFFFD')

def Front.rest : Front → Bytes
  | .char _ r => r
  | .bad r => r

private theorem decodeCont_rest_le (need lo hi acc : Nat) (bs : Bytes) :
    (decodeCont need lo hi acc bs).rest.length ≤ bs.length := by
  induction need generalizing lo hi acc bs with
  | zero => simp [decodeCont, Front.rest]
  | succ need ih =>
    cases bs with
    | nil => simp [decodeCont, Front.rest]
    | cons b bs =>
      unfold decodeCont
      split
      · exact Nat.le_succ_of_le (ih ..)
      · simp [Front.rest]

theorem decodeFirst_rest_le (b : UInt8) (bs : Bytes) :
    (decodeFirst b bs).rest.length ≤ bs.length := by
  unfold decodeFirst
  dsimp only
  repeat' split
  all_goals first
    | exact decodeCont_rest_le ..
    | exact Nat.le_refl _

private theorem piecesAux_fuel {n m : Nat} {bs : Bytes} (hn : bs.length ≤ n) (hm : bs.length ≤ m) :
    piecesAux n bs = piecesAux m bs := by
  induction n generalizing m bs with
  | zero =>
    obtain rfl : bs = [] := List.length_eq_zero_iff.1 (by omega)
    cases m <;> rfl
  | succ n ih =>
    cases bs with
    | nil => cases m <;> rfl
    | cons b bs =>
      simp only [List.length_cons] at hn hm
      obtain ⟨m, rfl⟩ : ∃ k, m = k + 1 := ⟨m - 1, by omega⟩
      have hr := decodeFirst_rest_le b bs
      simp only [piecesAux]
      cases hf : decodeFirst b bs with
      | char c rest =>
        rw [hf] at hr
        simp only [Front.rest] at hr
        simp only [ih (show rest.length ≤ n by omega) (show rest.length ≤ m by omega)]
      | bad rest =>
        rw [hf] at hr
        simp only [Front.rest] at hr
        simp only [ih (show rest.length ≤ n by omega) (show rest.length ≤ m by omega)]

theorem pieces_char {b : UInt8} {bs rest : Bytes} {c : Char} (h : decodeFirst b bs = .char c rest) :
    pieces (b :: bs) = some c :: pieces rest := by
  have hlen : rest.length ≤ bs.length := by
    have hr := decodeFirst_rest_le b bs
    rwa [h] at hr
  rw [pieces, List.length_cons, piecesAux, h]
  simp only [piecesAux_fuel hlen (Nat.le_refl _)]
  rfl

theorem pieces_bad {b : UInt8} {bs rest : Bytes} (h : decodeFirst b bs = .bad rest) :
    pieces (b :: bs) = none :: pieces rest := by
  have hlen : rest.length ≤ bs.length := by
    have hr := decodeFirst_rest_le b bs
    rwa [h] at hr
  rw [pieces, List.length_cons, piecesAux, h]
  simp only [piecesAux_fuel hlen (Nat.le_refl _)]
  rfl

private theorem toNat_scalar (c : Char) :
    c.toNat < 0xD800 ∨ 0xDFFF < c.toNat ∧ c.toNat < 0x110000 := c.valid

/-- A continuation byte adds its six bits. -/
private theorem decodeCont_byte {need lo hi acc x : Nat} (bs : Bytes) (hlo : lo ≤ x % 64 + 128)
    (hhi : x % 64 + 128 ≤ hi) :
    decodeCont (need + 1) lo hi acc (UInt8.ofNat (x % 64 + 128) :: bs) =
      decodeCont need 0x80 0xBF (acc * 64 + x % 64) bs := by
  have hx : (UInt8.ofNat (x % 64 + 128)).toNat = x % 64 + 128 := by
    rw [UInt8.toNat_ofNat']; omega
  rw [decodeCont, hx, if_pos ⟨hlo, hhi⟩, Nat.add_sub_cancel]

private theorem decodeCont_zero (lo hi acc : Nat) (bs : Bytes) :
    decodeCont 0 lo hi acc bs = .char (Char.ofNat acc) bs := rfl

/-- The front of an encoded character followed by anything is that character. -/
private theorem decodeFirst_encodeChar (c : Char) (bs : Bytes) :
    ∃ b tail, String.utf8EncodeChar c ++ bs = b :: tail ∧ decodeFirst b tail = .char c bs := by
  have hv := toNat_scalar c
  have hc : ∀ n, n = c.toNat → Front.char (Char.ofNat n) bs = .char c bs := by
    rintro n rfl; rw [Char.ofNat_toNat]
  unfold String.utf8EncodeChar
  rw [show c.val.toNat = c.toNat from rfl]
  generalize c.toNat = v at hv hc
  dsimp only
  split
  · refine ⟨_, _, List.cons_append, ?_⟩
    have h0 : (UInt8.ofNat v).toNat = v := by rw [UInt8.toNat_ofNat']; omega
    simp only [decodeFirst, h0, List.nil_append]
    rw [if_pos (by omega), hc v rfl]
  split
  · refine ⟨_, _, List.cons_append, ?_⟩
    have h0 : (UInt8.ofNat (v / 64 % 32 + 192)).toNat = v / 64 + 192 := by rw [UInt8.toNat_ofNat']; omega
    simp only [decodeFirst, h0, List.cons_append, List.nil_append]
    rw [if_neg (by omega), if_neg (by omega), if_pos (by omega), decodeCont_byte _ (by omega) (by omega),
      decodeCont_zero, hc _ (by omega)]
  split
  · refine ⟨_, _, List.cons_append, ?_⟩
    have h0 : (UInt8.ofNat (v / 4096 % 16 + 224)).toNat = v / 4096 + 224 := by
      rw [UInt8.toNat_ofNat']; omega
    simp only [decodeFirst, h0, List.cons_append, List.nil_append]
    rw [if_neg (by omega), if_neg (by omega), if_neg (by omega)]
    split
    · rw [decodeCont_byte _ (by omega) (by omega), decodeCont_byte _ (by omega) (by omega), decodeCont_zero,
        hc _ (by omega)]
    split
    · rw [decodeCont_byte _ (by omega) (by omega), decodeCont_byte _ (by omega) (by omega), decodeCont_zero,
        hc _ (by omega)]
    rw [if_pos (by omega), decodeCont_byte _ (by omega) (by omega), decodeCont_byte _ (by omega) (by omega),
      decodeCont_zero, hc _ (by omega)]
  · refine ⟨_, _, List.cons_append, ?_⟩
    have h0 : (UInt8.ofNat (v / 262144 % 8 + 240)).toNat = v / 262144 + 240 := by
      rw [UInt8.toNat_ofNat']; omega
    simp only [decodeFirst, h0, List.cons_append, List.nil_append]
    rw [if_neg (by omega), if_neg (by omega), if_neg (by omega), if_neg (by omega), if_neg (by omega),
      if_neg (by omega)]
    split
    · rw [decodeCont_byte _ (by omega) (by omega), decodeCont_byte _ (by omega) (by omega),
        decodeCont_byte _ (by omega) (by omega), decodeCont_zero, hc _ (by omega)]
    split
    · rw [decodeCont_byte _ (by omega) (by omega), decodeCont_byte _ (by omega) (by omega),
        decodeCont_byte _ (by omega) (by omega), decodeCont_zero, hc _ (by omega)]
    rw [if_pos (by omega), decodeCont_byte _ (by omega) (by omega), decodeCont_byte _ (by omega) (by omega),
      decodeCont_byte _ (by omega) (by omega), decodeCont_zero, hc _ (by omega)]

theorem pieces_encode (text : List Char) (bs : Bytes) :
    pieces (encode text ++ bs) = text.map some ++ pieces bs := by
  induction text with
  | nil => rfl
  | cons c text ih =>
    obtain ⟨b, tail, ht, hd⟩ := decodeFirst_encodeChar c (encode text ++ bs)
    rw [encode_cons, List.append_assoc, ht, pieces_char hd, ih]
    rfl

private theorem pieces_encode_self (text : List Char) : pieces (encode text) = text.map some := by
  have h := pieces_encode text []
  rwa [List.append_nil, show pieces [] = [] from rfl, List.append_nil] at h

theorem decode_encode (text : List Char) : decode (encode text) = some text := by
  rw [decode, pieces_encode_self]
  induction text with
  | nil => rfl
  | cons c text ih => rw [List.map_cons, List.mapM_cons, ih]; rfl

theorem encode_inj {a b : List Char} : encode a = encode b ↔ a = b := by
  constructor
  · intro h
    have hdecode := decode_encode a
    rw [h, decode_encode] at hdecode
    exact (Option.some.inj hdecode).symm
  · rintro rfl
    rfl

theorem encode_eq_nil {text : List Char} : encode text = [] ↔ text = [] := by
  rw [← encode_nil]
  exact encode_inj

theorem decodeReplace_encode (text : List Char) : decodeReplace (encode text) = text := by
  rw [decodeReplace, pieces_encode_self, List.map_map]
  exact List.map_id text

/-! ### What a decoder accepts -/

private theorem decodeCont_char {need lo hi acc : Nat} {bs rest : Bytes} {c : Char}
    (h : decodeCont (need + 1) lo hi acc bs = .char c rest) :
    ∃ x more, bs = x :: more ∧ lo ≤ x.toNat ∧ x.toNat ≤ hi ∧
      decodeCont need 0x80 0xBF (acc * 64 + (x.toNat - 0x80)) more = .char c rest := by
  cases bs with
  | nil => cases h
  | cons x more =>
    rw [decodeCont] at h
    split at h
    · rename_i hx
      exact ⟨x, more, rfl, hx.1, hx.2, h⟩
    · cases h

private theorem decodeCont_done {lo hi acc : Nat} {bs rest : Bytes} {c : Char}
    (h : decodeCont 0 lo hi acc bs = .char c rest) : c = Char.ofNat acc ∧ rest = bs := by
  cases h
  exact ⟨rfl, rfl⟩

private theorem toNat_ofNat {v : Nat} (h : v < 0xD800 ∨ 0xDFFF < v ∧ v < 0x110000) : (Char.ofNat v).val.toNat = v := by
  rw [Char.ofNat, dif_pos h]
  exact UInt32.toNat_ofNatLT

private theorem ofNat_eq {v : Nat} {b : UInt8} (h : v % 256 = b.toNat) : UInt8.ofNat v = b :=
  UInt8.toNat_inj.1 (UInt8.toNat_ofNat'.trans h)

private theorem encodeChar_one {v : Nat} {b : UInt8} (hv : v ≤ 0x7F) (hb : b.toNat = v) :
    String.utf8EncodeChar (Char.ofNat v) = [b] := by
  unfold String.utf8EncodeChar
  rw [toNat_ofNat (by omega)]
  dsimp only
  rw [if_pos hv, ofNat_eq (b := b) (by omega)]

private theorem encodeChar_two {v : Nat} {b x : UInt8} (hv : 0x80 ≤ v ∧ v ≤ 0x7FF) (hb : b.toNat = v / 64 + 0xC0)
    (hx : x.toNat = v % 64 + 0x80) : String.utf8EncodeChar (Char.ofNat v) = [b, x] := by
  unfold String.utf8EncodeChar
  rw [toNat_ofNat (by omega)]
  dsimp only
  rw [if_neg (by omega), if_pos (by omega), ofNat_eq (b := b) (by omega), ofNat_eq (b := x) (by omega)]

private theorem encodeChar_three {v : Nat} {b x y : UInt8} (hv : 0x800 ≤ v ∧ v ≤ 0xFFFF)
    (hscalar : v < 0xD800 ∨ 0xDFFF < v) (hb : b.toNat = v / 4096 + 0xE0) (hx : x.toNat = v / 64 % 64 + 0x80)
    (hy : y.toNat = v % 64 + 0x80) : String.utf8EncodeChar (Char.ofNat v) = [b, x, y] := by
  unfold String.utf8EncodeChar
  rw [toNat_ofNat (by omega)]
  dsimp only
  rw [if_neg (by omega), if_neg (by omega), if_pos (by omega), ofNat_eq (b := b) (by omega),
    ofNat_eq (b := x) (by omega), ofNat_eq (b := y) (by omega)]

private theorem encodeChar_four {v : Nat} {b x y z : UInt8} (hv : 0x10000 ≤ v ∧ v < 0x110000)
    (hb : b.toNat = v / 262144 + 0xF0) (hx : x.toNat = v / 4096 % 64 + 0x80) (hy : y.toNat = v / 64 % 64 + 0x80)
    (hz : z.toNat = v % 64 + 0x80) : String.utf8EncodeChar (Char.ofNat v) = [b, x, y, z] := by
  unfold String.utf8EncodeChar
  rw [toNat_ofNat (by omega)]
  dsimp only
  rw [if_neg (by omega), if_neg (by omega), if_neg (by omega), ofNat_eq (b := b) (by omega),
    ofNat_eq (b := x) (by omega), ofNat_eq (b := y) (by omega), ofNat_eq (b := z) (by omega)]

/-- Two continuation bytes behind the first byte `b` of a character of three. -/
private theorem decode_three {lo hi acc : Nat} {b : UInt8} {bs rest : Bytes} {c : Char}
    (h : decodeCont 2 lo hi acc bs = .char c rest) (hb : b.toNat = acc + 0xE0) (hacc : acc ≤ 0xF) (hlo : 0x80 ≤ lo)
    (hhi : hi ≤ 0xBF) (hlong : acc = 0 → 0xA0 ≤ lo) (hscalar : acc = 0xD → hi ≤ 0x9F) :
    b :: bs = String.utf8EncodeChar c ++ rest := by
  obtain ⟨x, more, rfl, hx, hx', h⟩ := decodeCont_char h
  obtain ⟨y, more, rfl, hy, hy', h⟩ := decodeCont_char h
  obtain ⟨hc, hrest⟩ := decodeCont_done h
  rw [hc, hrest, encodeChar_three (b := b) (x := x) (y := y) (by omega) (by omega) (by omega) (by omega) (by omega)]
  rfl

/-- Three continuation bytes behind the first byte `b` of a character of four. -/
private theorem decode_four {lo hi acc : Nat} {b : UInt8} {bs rest : Bytes} {c : Char}
    (h : decodeCont 3 lo hi acc bs = .char c rest) (hb : b.toNat = acc + 0xF0) (hacc : acc ≤ 4) (hlo : 0x80 ≤ lo)
    (hhi : hi ≤ 0xBF) (hlong : acc = 0 → 0x90 ≤ lo) (hscalar : acc = 4 → hi ≤ 0x8F) :
    b :: bs = String.utf8EncodeChar c ++ rest := by
  obtain ⟨x, more, rfl, hx, hx', h⟩ := decodeCont_char h
  obtain ⟨y, more, rfl, hy, hy', h⟩ := decodeCont_char h
  obtain ⟨z, more, rfl, hz, hz', h⟩ := decodeCont_char h
  obtain ⟨hc, hrest⟩ := decodeCont_done h
  rw [hc, hrest, encodeChar_four (b := b) (x := x) (y := y) (z := z) (by omega) (by omega) (by omega) (by omega) (by omega)]
  rfl

/-- A character at the front is encoded by the bytes it was read from. -/
theorem encode_of_decodeFirst {b : UInt8} {bs rest : Bytes} {c : Char} (h : decodeFirst b bs = .char c rest) :
    b :: bs = String.utf8EncodeChar c ++ rest := by
  have hb := b.toNat_lt
  unfold decodeFirst at h
  dsimp only at h
  split_ifs at h with h1 h2 h3 h4 h5 h6 h7 h8 h9
  · cases h
    rw [encodeChar_one (b := b) h1 rfl]
    rfl
  · obtain ⟨x, more, rfl, hx, hx', h⟩ := decodeCont_char h
    obtain ⟨hc, hrest⟩ := decodeCont_done h
    rw [hc, hrest, encodeChar_two (b := b) (x := x) (by omega) (by omega) (by omega)]
    rfl
  · exact decode_three h (by omega) (by omega) (by omega) (by omega) (by omega) (by omega)
  · exact decode_three h (by omega) (by omega) (by omega) (by omega) (by omega) (by omega)
  · exact decode_three h (by omega) (by omega) (by omega) (by omega) (by omega) (by omega)
  · exact decode_four h (by omega) (by omega) (by omega) (by omega) (by omega) (by omega)
  · exact decode_four h (by omega) (by omega) (by omega) (by omega) (by omega) (by omega)
  · exact decode_four h (by omega) (by omega) (by omega) (by omega) (by omega) (by omega)

private theorem encode_of_pieces {n : Nat} {bs : Bytes} {text : List Char} (hn : bs.length ≤ n)
    (h : (piecesAux n bs).mapM id = some text) : encode text = bs := by
  induction n generalizing bs text with
  | zero =>
    obtain rfl : bs = [] := List.length_eq_zero_iff.1 (by omega)
    obtain rfl : [] = text := by simpa [piecesAux] using h
    rfl
  | succ n ih =>
    cases bs with
    | nil =>
      obtain rfl : [] = text := by simpa [piecesAux] using h
      rfl
    | cons b bs =>
      have hlen := decodeFirst_rest_le b bs
      rw [piecesAux] at h
      cases hfirst : decodeFirst b bs with
      | bad rest =>
        rw [hfirst] at h
        simp at h
      | char c rest =>
        rw [hfirst] at h hlen
        simp only [Front.rest] at hlen
        rw [List.length_cons] at hn
        simp only [List.mapM_cons, id, Option.bind_eq_bind, Option.bind_some] at h
        obtain ⟨text, hrest, hcons⟩ := Option.bind_eq_some_iff.1 h
        obtain rfl := Option.some.inj hcons
        rw [encode_cons, ih (by omega) hrest, encode_of_decodeFirst hfirst]

/-- What is decoded strictly is encoded by the same bytes. -/
theorem encode_of_decode {bs : Bytes} {text : List Char} (h : decode bs = some text) : encode text = bs :=
  encode_of_pieces (Nat.le_refl _) h

end ByteText
