import Mathlib.Tactic.Ring
import IronHarness.Mqtt.Broker

/-!
# The packets of the broker

The bytes of a packet: a type with flags, the length of the body in up to four digits to the base 128, and the body; a
PUBLISH has the topic behind a length of two bytes, and a packet id at QoS 1.  What the broker forwards is read by the
same parser as the same message, at QoS 0 (`forward_same`).
-/

namespace IronHarness.Mqtt

open ByteText

/-! ### Reading -/

inductive ReadError
  | disconnected
  | invalidLength
  deriving DecidableEq

/-- `_read_exact`, where `stream` is all that the client sends. -/
def readExact (n : Nat) (stream : Bytes) : Except ReadError (Bytes × Bytes) :=
  if n ≤ stream.length then .ok (stream.take n, stream.drop n) else .error .disconnected

/-- The loop of `_read_varint`, with at most `left` bytes to come. -/
def varintLoop : Nat → Nat → Nat → Bytes → Except ReadError (Nat × Bytes)
  | 0, _, _, _ => .error .invalidLength
  | _ + 1, _, _, [] => .error .disconnected
  | left + 1, multiplier, value, byte :: stream =>
    let value := value + (byte &&& 0x7F).toNat * multiplier
    if byte &&& 0x80 = 0 then .ok (value, stream) else varintLoop left (multiplier * 128) value stream

def readVarint (stream : Bytes) : Except ReadError (Nat × Bytes) := varintLoop 4 1 0 stream

def readBody (length : Nat) (stream : Bytes) : Except ReadError (Bytes × Bytes) :=
  if length = 0 then .ok ([], stream) else readExact length stream

/-- A turn of `serve` up to the body: the type with the flags, the body, and what follows the packet. -/
def readPacket : Bytes → Except ReadError (UInt8 × Bytes × Bytes)
  | [] => .error .disconnected
  | typeFlags :: stream =>
    match readVarint stream with
    | .error e => .error e
    | .ok (length, stream) => (readBody length stream).map fun (body, stream) => (typeFlags, body, stream)

/-- `int.from_bytes(bs, "big")` -/
def fromBytes (bs : Bytes) : Nat := bs.foldl (fun n b => n * 256 + b.toNat) 0

/-- What `_handle_publish` takes from the body. -/
def parsePublish (flags : Nat) (body : Bytes) : Packet :=
  let qos := flags / 2 % 4
  let tlen := fromBytes (body.take 2)
  match decode ((body.drop 2).take tlen) with
  | none => .malformed
  | some topic =>
    let rest := body.drop (2 + tlen)
    .publish qos (flags % 2 = 1) topic (if qos = 1 then rest.drop 2 else rest)

/-- The filters of a SUBSCRIBE behind its packet id; each has a byte for the QoS behind it. -/
def parseFilters : Nat → Bytes → Option (List Topic)
  | 0, _ => some []
  | fuel + 1, body =>
    if body.isEmpty then some []
    else do
      let tlen := fromBytes (body.take 2)
      let pattern ← decode ((body.drop 2).take tlen)
      let rest ← parseFilters fuel (body.drop (2 + tlen + 1))
      return pattern :: rest

def parsePacket (typeFlags : UInt8) (body : Bytes) : Packet :=
  match typeFlags.toNat / 16 with
  | 1 => .connect
  | 3 => parsePublish (typeFlags.toNat % 16) body
  | 8 => ((parseFilters body.length (body.drop 2)).map Packet.subscribe).getD .malformed
  | 12 => .pingreq
  | 14 => .disconnect
  | _ => .other

/-! ### Writing -/

/-- The length bytes of `_encode_packet`. -/
def encodeLength (length : Nat) : Bytes :=
  if length / 128 = 0 then [UInt8.ofNat (length % 128)]
  else (UInt8.ofNat (length % 128) ||| 0x80) :: encodeLength (length / 128)

def encodePacket (typeFlags : UInt8) (body : Bytes) : Bytes := typeFlags :: (encodeLength body.length ++ body)

/-- `_publish_body`; a topic of more than 65535 bytes is an OverflowError. -/
def publishBody (topic : Topic) (payload : Bytes) : Option Bytes :=
  let t := encode topic
  if t.length < 65536 then some (UInt8.ofNat (t.length / 256) :: UInt8.ofNat (t.length % 256) :: (t ++ payload)) else none

/-- The PUBLISH that `_broadcast` sends. -/
def forward (topic : Topic) (payload : Bytes) : Option Bytes := (publishBody topic payload).map (encodePacket 0x30)

/-! ### Lengths -/

private theorem toNat_low (b : UInt8) : (b &&& 0x7F).toNat = b.toNat % 128 := by
  rw [UInt8.toNat_and]
  exact Nat.and_two_pow_sub_one_eq_mod b.toNat 7

private theorem continues_iff (b : UInt8) : b &&& 0x80 = 0 ↔ b.toNat < 128 := by
  have hall : ∀ k : Fin 256, UInt8.ofNat k.val &&& 0x80 = 0 ↔ k.val < 128 := by decide +kernel
  have hb := hall ⟨b.toNat, b.toNat_lt⟩
  rwa [UInt8.ofNat_toNat] at hb

private theorem toNat_continued {n : Nat} (h : n < 128) : (UInt8.ofNat n ||| 0x80).toNat = n + 128 := by
  have hall : ∀ k : Fin 128, (UInt8.ofNat k.val ||| 0x80).toNat = k.val + 128 := by decide +kernel
  exact hall ⟨n, h⟩

/-- The bytes of a length below `128 ^ left` are read back, whatever follows them. -/
private theorem varintLoop_encodeLength (left multiplier value length : Nat) (rest : Bytes) (h : length < 128 ^ left)
    (hleft : left ≠ 0) :
    varintLoop left multiplier value (encodeLength length ++ rest) = .ok (value + length * multiplier, rest) := by
  induction left generalizing multiplier value length with
  | zero => exact absurd rfl hleft
  | succ left ih =>
    rw [encodeLength]
    by_cases hlast : length / 128 = 0
    · have hbyte : (UInt8.ofNat (length % 128)).toNat = length := by
        rw [UInt8.toNat_ofNat']
        omega
      -- the last digit has no continuation bit
      rw [if_pos hlast, List.singleton_append, varintLoop, toNat_low, hbyte]
      rw [if_pos ((continues_iff _).2 (by omega)), Nat.mod_eq_of_lt (by omega)]
    · have hbyte := toNat_continued (n := length % 128) (by omega)
      have hgoes : ¬ (UInt8.ofNat (length % 128) ||| 0x80) &&& 0x80 = 0 := by
        rw [continues_iff]
        omega
      have hrest : length / 128 < 128 ^ left := by
        rw [Nat.pow_succ] at h
        omega
      -- a length in bounds does not run out of digits
      have hmore : left ≠ 0 := by
        rintro rfl
        rw [Nat.pow_zero] at hrest
        omega
      rw [if_neg hlast, List.cons_append, varintLoop, toNat_low, hbyte]
      rw [if_neg hgoes, ih _ _ _ hrest hmore]
      have hdigits : (length % 128 + 128) % 128 * multiplier + length / 128 * (multiplier * 128) = length * multiplier := by
        have hlow : (length % 128 + 128) % 128 = length % 128 := by omega
        calc (length % 128 + 128) % 128 * multiplier + length / 128 * (multiplier * 128)
            = (length % 128 + 128 * (length / 128)) * multiplier := by
              rw [hlow]
              ring
          _ = length * multiplier := by rw [Nat.mod_add_div]
      rw [Nat.add_assoc, hdigits]

private theorem readVarint_encodeLength {length : Nat} (h : length < 268435456) (rest : Bytes) :
    readVarint (encodeLength length ++ rest) = .ok (length, rest) := by
  have hread := varintLoop_encodeLength 4 1 0 length rest h (by decide)
  rwa [Nat.zero_add, Nat.mul_one] at hread

private theorem readBody_append (body rest : Bytes) : readBody body.length (body ++ rest) = .ok (body, rest) := by
  unfold readBody
  by_cases hempty : body.length = 0
  · obtain rfl := List.length_eq_zero_iff.1 hempty
    rfl
  · have hfits : body.length ≤ (body ++ rest).length := by simp
    rw [if_neg hempty, readExact, if_pos hfits, List.take_left, List.drop_left]

private theorem readPacket_encodePacket {body : Bytes} (h : body.length < 268435456) (typeFlags : UInt8)
    (rest : Bytes) :
    readPacket (encodePacket typeFlags body ++ rest) = .ok (typeFlags, body, rest) := by
  rw [encodePacket, List.cons_append, List.append_assoc, readPacket, readVarint_encodeLength h]
  simp only [readBody_append]
  rfl

/-- A length that is read has at most `left` digits. -/
private theorem varintLoop_le {left multiplier value length : Nat} {stream rest : Bytes} (hpos : 0 < multiplier)
    (h : varintLoop left multiplier value stream = .ok (length, rest)) :
    length + multiplier ≤ value + multiplier * 128 ^ left := by
  induction left generalizing multiplier value stream with
  | zero => cases h
  | succ left ih =>
    cases stream with
    | nil => cases h
    | cons byte stream =>
      rw [varintLoop, toNat_low] at h
      have hlow : byte.toNat % 128 * multiplier ≤ 127 * multiplier :=
        Nat.mul_le_mul_right _ (Nat.le_of_lt_succ (Nat.mod_lt _ (by decide)))
      have hpow : multiplier * 128 ^ (left + 1) = multiplier * 128 * 128 ^ left := by
        rw [Nat.pow_succ]
        ring
      rw [hpow]
      split at h
      · obtain ⟨rfl, -⟩ := Prod.mk.inj (Except.ok.inj h)
        have hmore : multiplier * 128 * 1 ≤ multiplier * 128 * 128 ^ left :=
          Nat.mul_le_mul_left _ (Nat.one_le_pow _ _ (by decide))
        omega
      · have hrest := ih (Nat.mul_pos hpos (by decide)) h
        omega

private theorem readVarint_lt {length : Nat} {stream rest : Bytes} (h : readVarint stream = .ok (length, rest)) :
    length < 268435456 := by
  have hle := varintLoop_le (by decide) h
  omega

private theorem readBody_length {length : Nat} {stream body rest : Bytes}
    (h : readBody length stream = .ok (body, rest)) :
    body.length = length := by
  unfold readBody readExact at h
  split_ifs at h with hempty hfits
  · obtain ⟨rfl, -⟩ := Prod.mk.inj (Except.ok.inj h)
    exact hempty.symm
  · obtain ⟨rfl, -⟩ := Prod.mk.inj (Except.ok.inj h)
    exact List.length_take_of_le hfits

private theorem readPacket_length {typeFlags : UInt8} {stream body rest : Bytes}
    (h : readPacket stream = .ok (typeFlags, body, rest)) : body.length < 268435456 := by
  cases stream with
  | nil => cases h
  | cons first stream =>
    rw [readPacket] at h
    split at h
    · cases h
    · rename_i length more hlength
      cases hbody : readBody length more with
      | error e =>
        rw [hbody] at h
        cases h
      | ok found =>
        rw [hbody] at h
        obtain ⟨-, hfound⟩ := Prod.mk.inj (Except.ok.inj h)
        obtain ⟨rfl, -⟩ := Prod.mk.inj hfound
        rw [readBody_length hbody]
        exact readVarint_lt hlength

/-! ### Forwarding -/

private theorem fromBytes_pair (n : Nat) (h : n < 65536) :
    fromBytes [UInt8.ofNat (n / 256), UInt8.ofNat (n % 256)] = n := by
  have hhigh : (UInt8.ofNat (n / 256)).toNat = n / 256 := by
    rw [UInt8.toNat_ofNat']
    omega
  have hlow : (UInt8.ofNat (n % 256)).toNat = n % 256 := by
    rw [UInt8.toNat_ofNat']
    omega
  simp only [fromBytes, List.foldl_cons, List.foldl_nil, hhigh, hlow]
  omega

/-- A length field holds at most 65535. -/
private theorem fromBytes_take_lt (body : Bytes) : fromBytes (body.take 2) < 65536 := by
  match body with
  | [] => decide
  | [a] =>
    have ha := a.toNat_lt
    simp only [List.take_succ_cons, List.take_nil, fromBytes, List.foldl_cons, List.foldl_nil]
    omega
  | a :: b :: body =>
    have ha := a.toNat_lt
    have hb := b.toNat_lt
    simp only [List.take_succ_cons, List.take_zero, fromBytes, List.foldl_cons, List.foldl_nil]
    omega

/-- A topic and a payload that were taken from a body fit into one of the same length, or into one of two bytes. -/
private theorem parsePublish_fits {flags qos : Nat} {retain : Bool} {body payload : Bytes} {topic : Topic}
    (h : parsePublish flags body = .publish qos retain topic payload) :
    (encode topic).length < 65536 ∧ (encode topic).length + payload.length ≤ body.length - 2 := by
  unfold parsePublish at h
  dsimp only at h
  cases htopic : decode ((body.drop 2).take (fromBytes (body.take 2))) with
  | none =>
    rw [htopic] at h
    cases h
  | some found =>
    rw [htopic] at h
    obtain ⟨rfl, -, rfl, rfl⟩ := Packet.publish.inj h
    -- the topic is what stood in the body, cut off where the body ends
    have hbytes := encode_of_decode htopic
    have hlen := fromBytes_take_lt body
    rw [hbytes]
    split_ifs
    all_goals
      simp only [List.length_take, List.length_drop]
      omega

private theorem parsePublish_body {topic : Topic} (htopic : (encode topic).length < 65536) (payload : Bytes) :
    ∃ body, publishBody topic payload = some body ∧ body.length = (encode topic).length + payload.length + 2 ∧
      parsePublish 0 body = .publish 0 false topic payload := by
  refine ⟨_, if_pos htopic, ?_, ?_⟩
  · simp only [List.length_cons, List.length_append]
  · unfold parsePublish
    dsimp only
    rw [List.take_succ_cons, List.take_succ_cons, List.take_zero, fromBytes_pair _ htopic, List.drop_succ_cons,
      List.drop_succ_cons, List.drop_zero, List.take_left, decode_encode]
    have hrest : (UInt8.ofNat ((encode topic).length / 256) :: UInt8.ofNat ((encode topic).length % 256) ::
        (encode topic ++ payload)).drop (2 + (encode topic).length) = payload := by
      rw [Nat.add_comm, List.drop_succ_cons, List.drop_succ_cons, List.drop_left]
    simp [hrest]

private theorem parsePacket_publish {typeFlags : UInt8} {body payload : Bytes} {qos : Nat} {retain : Bool}
    {topic : Topic}
    (h : parsePacket typeFlags body = .publish qos retain topic payload) :
    parsePublish (typeFlags.toNat % 16) body = .publish qos retain topic payload := by
  unfold parsePacket at h
  split at h
  · cases h
  · exact h
  · cases hfilters : parseFilters body.length (body.drop 2) <;> simp [hfilters] at h
  · cases h
  · cases h
  · cases h

/-- The lengths of the packets are read back, and what is forwarded is the message that came in, at QoS 0. -/
theorem forward_same :
    (∀ length < 268435456, ∀ rest, readVarint (encodeLength length ++ rest) = .ok (length, rest)) ∧
      ∀ stream typeFlags body rest qos retain topic payload, readPacket stream = .ok (typeFlags, body, rest) →
        parsePacket typeFlags body = .publish qos retain topic payload → qos ≤ 1 →
          ∃ packet body', forward topic payload = some packet ∧
            (∀ more, readPacket (packet ++ more) = .ok (0x30, body', more)) ∧
            parsePacket 0x30 body' = .publish 0 false topic payload := by
  refine ⟨fun length h rest => readVarint_encodeLength h rest, ?_⟩
  intro stream typeFlags body rest qos retain topic payload hread hparse _
  have hlength := readPacket_length hread
  obtain ⟨htopic, hfits⟩ := parsePublish_fits (parsePacket_publish hparse)
  obtain ⟨body', hbody, hlength', hsame⟩ := parsePublish_body htopic payload
  refine ⟨encodePacket 0x30 body', body', ?_, ?_, hsame⟩
  · rw [forward, hbody]
    rfl
  · intro more
    exact readPacket_encodePacket (by omega) 0x30 more

/-- A PUBLISH at QoS 1 with a topic length beyond the end of the body. -/
theorem forward_same_truncated :
    readVarint (encodeLength 300 ++ [7]) = .ok (300, [7]) ∧
      ∃ packet body', forward ['a', 'b'] [] = some packet ∧
        (∀ more, readPacket (packet ++ more) = .ok (0x30, body', more)) ∧
        parsePacket 0x30 body' = .publish 0 false ['a', 'b'] [] := by
  have hread : readPacket [0x32, 4, 0, 9, 0x61, 0x62] = .ok (0x32, [0, 9, 0x61, 0x62], []) := by decide
  have htopic : decode [0x61, 0x62] = some ['a', 'b'] := decode_encode ['a', 'b']
  have hparse : parsePacket 0x32 [0, 9, 0x61, 0x62] = .publish 1 false ['a', 'b'] [] := by
    simp [parsePacket, parsePublish, fromBytes, htopic]
  exact ⟨forward_same.1 300 (by decide) [7], forward_same.2 _ _ _ _ _ _ _ _ hread hparse (by decide)⟩

end IronHarness.Mqtt
