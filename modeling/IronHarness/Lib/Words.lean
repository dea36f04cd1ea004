import IronHarness.Lib.Bytes

/-!
# Words of two bytes

Unsigned words in big-endian order, as `struct` packs them with `>H`.  Packing inverts unpacking for every even number
of bytes (`packH_unpackH`).
-/

namespace ByteText

def wordOf (hi lo : UInt8) : Nat := hi.toNat * 256 + lo.toNat

/-- `struct.unpack(">{n}H", data)`; a last byte that is left alone is no word. -/
def unpackH : Bytes → List Nat
  | hi :: lo :: rest => wordOf hi lo :: unpackH rest
  | _ => []

/-- `struct.pack(">{n}H", *words)` of words that are in range. -/
def packH : List Nat → Bytes
  | [] => []
  | n :: words => UInt8.ofNat (n / 256) :: UInt8.ofNat (n % 256) :: packH words

theorem wordOf_lt (hi lo : UInt8) : wordOf hi lo < 65536 := by
  have hhi := hi.toNat_lt
  have hlo := lo.toNat_lt
  unfold wordOf
  omega

theorem packH_word (hi lo : UInt8) : packH [wordOf hi lo] = [hi, lo] := by
  have hlo := lo.toNat_lt
  have hdiv : wordOf hi lo / 256 = hi.toNat := by
    unfold wordOf
    omega
  have hmod : wordOf hi lo % 256 = lo.toNat := by
    unfold wordOf
    omega
  simp [packH, hdiv, hmod]

theorem wordOf_ofNat {n : Nat} (h : n < 65536) : wordOf (UInt8.ofNat (n / 256)) (UInt8.ofNat (n % 256)) = n := by
  unfold wordOf
  rw [UInt8.toNat_ofNat', UInt8.toNat_ofNat']
  omega

theorem packH_cons (n : Nat) (words : List Nat) : packH (n :: words) = packH [n] ++ packH words := rfl

theorem unpackH_lt {data : Bytes} : ∀ n ∈ unpackH data, n < 65536 := by
  fun_induction unpackH data with
  | case1 hi lo rest ih =>
    intro n hn
    rcases List.mem_cons.1 hn with rfl | hn
    · exact wordOf_lt hi lo
    · exact ih n hn
  | case2 => simp

theorem length_unpackH (data : Bytes) : (unpackH data).length = data.length / 2 := by
  fun_induction unpackH data with
  | case1 hi lo rest ih =>
    simp only [List.length_cons, ih]
    omega
  | case2 data hshort =>
    cases data with
    | nil => rfl
    | cons b rest =>
      cases rest with
      | nil => simp
      | cons c rest => exact absurd rfl (hshort b c rest)

theorem packH_unpackH {data : Bytes} (h : data.length % 2 = 0) : packH (unpackH data) = data := by
  fun_induction unpackH data with
  | case1 hi lo rest ih =>
    have hrest : rest.length % 2 = 0 := by
      simp only [List.length_cons] at h
      omega
    rw [packH_cons, packH_word, ih hrest]
    rfl
  | case2 data hshort =>
    cases data with
    | nil => rfl
    | cons b rest =>
      cases rest with
      | nil => simp at h
      | cons c rest => exact absurd rfl (hshort b c rest)

end ByteText
