import IronHarness.Lib.Bytes
import IronHarness.Lib.Json

/-!
# Hexadecimal texts

`bytes.fromhex`, which accepts digits of either case and skips ASCII whitespace between the bytes.  It reads back what
`bytes.hex` prints.
-/

namespace ByteText

open JsonText (hexVal)

/-- ASCII whitespace. -/
def isAsciiSpace (c : Char) : Bool :=
  c == ' ' || c == '\t' || c == '\n' || c == '\r' || c == '\x0b' || c == '\x0c'

def hexByte (c d : Char) : Option UInt8 := do return UInt8.ofNat ((← hexVal c) * 16 + (← hexVal d))

/-- `bytes.fromhex(text)` -/
def fromHex : List Char → Option Bytes
  | [] => some []
  | [c] => if isAsciiSpace c then some [] else none
  | c :: d :: rest =>
    if isAsciiSpace c then fromHex (d :: rest)
    else (hexByte c d).bind fun b => (fromHex rest).map (b :: ·)

/-- What `bytes.hex` prints. -/
def isHexDigit (c : Char) : Bool := c.isDigit || ('a' ≤ c && c ≤ 'f')

theorem digitChar_hex {n : Nat} (h : n < 16) :
    isHexDigit (Nat.digitChar n) = true ∧ isAsciiSpace (Nat.digitChar n) = false ∧ hexVal (Nat.digitChar n) = some n := by
  revert n
  decide

private theorem hexByte_digits (b : UInt8) :
    hexByte (Nat.digitChar (b.toNat / 16)) (Nat.digitChar (b.toNat % 16)) = some b := by
  have hb := b.toNat_lt
  obtain ⟨-, -, hhigh⟩ := digitChar_hex (n := b.toNat / 16) (by omega)
  obtain ⟨-, -, hlow⟩ := digitChar_hex (n := b.toNat % 16) (by omega)
  have hsum : b.toNat / 16 * 16 + b.toNat % 16 = b.toNat := by omega
  unfold hexByte
  rw [hhigh, hlow]
  show some (UInt8.ofNat (b.toNat / 16 * 16 + b.toNat % 16)) = some b
  rw [hsum, UInt8.ofNat_toNat]

theorem hex_cons (b : UInt8) (bs : Bytes) :
    hex (b :: bs) = Nat.digitChar (b.toNat / 16) :: Nat.digitChar (b.toNat % 16) :: hex bs := rfl

theorem fromHex_hex (bs : Bytes) : fromHex (hex bs) = some bs := by
  induction bs with
  | nil => rfl
  | cons b bs ih =>
    have hb := b.toNat_lt
    obtain ⟨-, hspace, -⟩ := digitChar_hex (n := b.toNat / 16) (by omega)
    rw [hex_cons, fromHex, hspace, if_neg Bool.false_ne_true, hexByte_digits, ih]
    rfl

theorem exists_digit_of_mem_hex {bs : Bytes} {c : Char} (h : c ∈ hex bs) : ∃ d < 16, c = Nat.digitChar d := by
  obtain ⟨b, -, hc⟩ := List.mem_flatMap.1 h
  have hb := b.toNat_lt
  rcases List.mem_pair.1 hc with rfl | rfl
  · exact ⟨b.toNat / 16, by omega, rfl⟩
  · exact ⟨b.toNat % 16, by omega, rfl⟩

theorem hex_digits {bs : Bytes} {c : Char} (h : c ∈ hex bs) : isHexDigit c = true := by
  obtain ⟨d, hd, rfl⟩ := exists_digit_of_mem_hex h
  exact (digitChar_hex hd).1

@[simp] theorem length_hex (bs : Bytes) : (hex bs).length = 2 * bs.length := by
  induction bs with
  | nil => rfl
  | cons b bs ih =>
    rw [hex_cons, List.length_cons, List.length_cons, ih, List.length_cons]
    omega

/-- Hexadecimal text that is cut off is read as fewer bytes, or not at all. -/
theorem fromHex_take_hex {bs out : Bytes} {k : Nat} (hk : k < 2 * bs.length)
    (h : fromHex ((hex bs).take k) = some out) : out.length < bs.length := by
  induction bs generalizing out k with
  | nil => simp at hk
  | cons b bs ih =>
    have hb := b.toNat_lt
    obtain ⟨-, hspace, -⟩ := digitChar_hex (n := b.toNat / 16) (by omega)
    rw [hex_cons] at h
    match k with
    | 0 =>
      obtain rfl : [] = out := by simpa [fromHex] using h
      simp
    | 1 => simp [fromHex, hspace] at h
    | k + 2 =>
      rw [List.take_succ_cons, List.take_succ_cons, fromHex, hspace, if_neg Bool.false_ne_true, hexByte_digits,
        Option.bind_some] at h
      obtain ⟨rest, hrest, rfl⟩ := Option.map_eq_some_iff.1 h
      have hless : rest.length < bs.length := ih (by simp only [List.length_cons] at hk; omega) hrest
      simp only [List.length_cons]
      omega

end ByteText
