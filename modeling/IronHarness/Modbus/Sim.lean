import IronHarness.Lib.Words

/-!
# The Modbus simulator

`_ModbusSimHandler` (io_core/modbus_sim.py): the frames of a connection, and the answer to a PDU over the holding
registers of the server.  A PDU that asks for 128 registers or more, and gets them, is answered with no byte: the byte
count of the response does not fit into one (`Overlong`).  Everything else is answered, keeps the registers words and
their number, and a written block is read back as it was written (`simulator_sound_iff`).
-/

namespace IronHarness.Modbus

open ByteText

/-- What `_handle_pdu` may raise: `bytes` of a number beyond 255, `struct.pack` of one beyond 65535. -/
inductive Raised
  | valueError
  | structError
  deriving DecidableEq

abbrev Registers := List Nat

/-- `_handle_pdu` returns a response or raises, and leaves the registers. -/
abbrev Answer := Except Raised Bytes × Registers

/-- `fc | 0x80` with a code. -/
def refusal (fc code : UInt8) : Bytes := [fc ||| 0x80, code]

/-- FC3 -/
def readHolding (regs : Registers) (start qty : Nat) : Answer :=
  if regs.length < start + qty then (.ok [0x83, 0x02], regs)
  else if 255 < qty * 2 then (.error .valueError, regs)
  else if ((regs.drop start).take qty).all (· < 65536) then
    (.ok ([3, UInt8.ofNat (qty * 2)] ++ packH ((regs.drop start).take qty)), regs)
  else (.error .structError, regs)

/-- FC6; `echo` is the front of the PDU. -/
def writeSingle (regs : Registers) (addr value : Nat) (echo : Bytes) : Answer :=
  if regs.length ≤ addr then (.ok [0x86, 0x02], regs) else (.ok echo, regs.set addr value)

/-- FC16; `rest` is the PDU behind start and quantity, with the byte count at its head. -/
def writeBlock (regs : Registers) (start qty : Nat) (rest : Bytes) : Answer :=
  if rest.length < 1 + qty * 2 then (.ok [0x90, 0x03], regs)
  else if regs.length < start + qty then (.ok [0x90, 0x02], regs)
  else
    (.ok (16 :: packH [start, qty]),
      regs.take start ++ unpackH ((rest.drop 1).take (qty * 2)) ++ regs.drop (start + qty))

/-- `_handle_pdu` -/
def handlePdu (regs : Registers) : Bytes → Answer
  | [] => (.ok [0x80, 0x01], regs)
  | fc :: a :: b :: c :: d :: rest =>
    if fc = 3 then readHolding regs (wordOf a b) (wordOf c d)
    else if fc = 6 then writeSingle regs (wordOf a b) (wordOf c d) [fc, a, b, c, d]
    else if fc = 16 ∧ rest ≠ [] then writeBlock regs (wordOf a b) (wordOf c d) rest
    else (.ok (refusal fc 0x01), regs)
  | fc :: _ => (.ok (refusal fc 0x01), regs)

/-! ### A connection -/

/-- What a connection ends with. -/
inductive Ending
  /-- the client is gone, or its frame is dropped -/
  | closed
  /-- the thread of the handler dies -/
  | crashed (e : Raised)
  deriving DecidableEq

/-- The frame around a response. -/
def framed (tid : Bytes) (uid : UInt8) (response : Bytes) : Bytes :=
  tid ++ packH [0, response.length + 1] ++ uid :: response

/-- `handle` over all bytes that the client sends; the number bounds the frames.  The responses, the registers behind
them, and the end. -/
def handle : Nat → Registers → Bytes → List Bytes × Registers × Ending
  | 0, regs, _ => ([], regs, .closed)
  | n + 1, regs, t :: t' :: p :: p' :: l :: l' :: uid :: rest =>
    let length := wordOf l l'
    if wordOf p p' ≠ 0 then ([], regs, .closed)
    else if length = 0 ∨ 260 < length then ([], regs, .closed)
    else if length = 1 then
      let (responses, regs, ending) := handle n regs rest
      (framed [t, t'] uid [0x80, 0x01] :: responses, regs, ending)
    else if rest.length < length - 1 then ([], regs, .closed)
    else
      match handlePdu regs (rest.take (length - 1)) with
      | (.error e, regs) => ([], regs, .crashed e)
      | (.ok response, regs) =>
        let (responses, regs, ending) := handle n regs (rest.drop (length - 1))
        (framed [t, t'] uid response :: responses, regs, ending)
  | _ + 1, regs, _ => ([], regs, .closed)

/-! ### One PDU -/

/-- Every register is a word. -/
def Words (regs : Registers) : Prop := ∀ r ∈ regs, r < 65536

/-- A PDU that asks for at least 128 registers, all of which exist. -/
def Overlong (count : Nat) : Bytes → Prop
  | fc :: a :: b :: c :: d :: _ => fc = 3 ∧ 128 ≤ wordOf c d ∧ wordOf a b + wordOf c d ≤ count
  | _ => False

instance decidableOverlong (count : Nat) : ∀ pdu, Decidable (Overlong count pdu)
  | fc :: a :: b :: c :: d :: _ =>
    inferInstanceAs (Decidable (fc = 3 ∧ 128 ≤ wordOf c d ∧ wordOf a b + wordOf c d ≤ count))
  | [] => isFalse id
  | [_] => isFalse id
  | [_, _] => isFalse id
  | [_, _, _] => isFalse id
  | [_, _, _, _] => isFalse id

/-- The range and the words that a write writes. -/
inductive Writes : Bytes → Nat → Nat → Bytes → Prop
  | single (a b c d : UInt8) (rest : Bytes) : Writes (6 :: a :: b :: c :: d :: rest) (wordOf a b) 1 [c, d]
  | block (a b c d n : UInt8) (rest : Bytes) :
      Writes (16 :: a :: b :: c :: d :: n :: rest) (wordOf a b) (wordOf c d) (rest.take (wordOf c d * 2))

/-- The response says that the request was refused. -/
def Refused (pdu response : Bytes) : Prop := ∃ fc code, pdu.head? = some fc ∧ response = refusal fc code

private theorem words_drop_take {regs : Registers} (h : Words regs) (start qty : Nat) :
    Words ((regs.drop start).take qty) :=
  fun r hr => h r (List.mem_of_mem_drop (List.mem_of_mem_take hr))

private theorem readHolding_ok {regs : Registers} (h : Words regs) {start qty : Nat} (hqty : qty < 128)
    (hrange : start + qty ≤ regs.length) :
    readHolding regs start qty =
      (.ok ([3, UInt8.ofNat (qty * 2)] ++ packH ((regs.drop start).take qty)), regs) := by
  have hall : ((regs.drop start).take qty).all (· < 65536) = true := by
    rw [List.all_eq_true]
    intro r hr
    simpa using words_drop_take h start qty r hr
  unfold readHolding
  rw [if_neg (by omega), if_neg (by omega), if_pos hall]

private theorem handlePdu_read (regs : Registers) (a b c d : UInt8) (rest : Bytes) :
    handlePdu regs (3 :: a :: b :: c :: d :: rest) = readHolding regs (wordOf a b) (wordOf c d) := by
  simp [handlePdu]

private theorem readHolding_overlong {regs : Registers} {start qty : Nat} (hqty : 128 ≤ qty)
    (hrange : start + qty ≤ regs.length) : readHolding regs start qty = (.error .valueError, regs) := by
  unfold readHolding
  rw [if_neg (by omega), if_pos (by omega)]

/-- What becomes of the registers where a range of them is replaced. -/
private theorem drop_take_replace {regs values : Registers} {start : Nat}
    (hrange : start + values.length ≤ regs.length) :
    ((regs.take start ++ values ++ regs.drop (start + values.length)).drop start).take values.length = values := by
  have hstart : (regs.take start).length = start := by
    rw [List.length_take]
    omega
  rw [List.append_assoc, List.drop_left' hstart, List.take_left]

private theorem length_replace {regs values : Registers} {start : Nat} (hrange : start + values.length ≤ regs.length) :
    (regs.take start ++ values ++ regs.drop (start + values.length)).length = regs.length := by
  simp only [List.length_append, List.length_take, List.length_drop]
  omega

/-- A PDU of a connection: it is answered, the registers stay what they are, and what it writes can be read. -/
structure Sound (regs : Registers) (pdu : Bytes) : Prop where
  responds : ∃ response, (handlePdu regs pdu).1 = .ok response
  count : (handlePdu regs pdu).2.length = regs.length
  words : Words (handlePdu regs pdu).2
  refused : ∀ response, (handlePdu regs pdu).1 = .ok response → Refused pdu response → (handlePdu regs pdu).2 = regs
  readBack : ∀ start qty data, Writes pdu start qty data → ∀ response, (handlePdu regs pdu).1 = .ok response →
    ¬ Refused pdu response → ∀ a b c d rest, wordOf a b = start → wordOf c d = qty →
      (handlePdu (handlePdu regs pdu).2 (3 :: a :: b :: c :: d :: rest)).1 =
        .ok ([3, UInt8.ofNat (qty * 2)] ++ data)

/-- A PDU that changes no register and writes nothing. -/
private theorem sound_of_same {regs : Registers} {pdu response : Bytes} (h : Words regs)
    (hanswer : handlePdu regs pdu = (.ok response, regs))
    (hwrites : ∀ start qty data, Writes pdu start qty data → Refused pdu response) : Sound regs pdu := by
  refine ⟨⟨response, by rw [hanswer]⟩, by rw [hanswer], by rw [hanswer]; exact h, fun _ _ _ => by rw [hanswer], ?_⟩
  intro start qty data hw response' hresponse hnot
  rw [hanswer] at hresponse
  cases hresponse
  exact absurd (hwrites start qty data hw) hnot

private theorem sound_writeSingle {regs : Registers} (h : Words regs) (a b c d : UInt8) (rest : Bytes) :
    Sound regs (6 :: a :: b :: c :: d :: rest) := by
  by_cases haddr : regs.length ≤ wordOf a b
  · have hanswer : handlePdu regs (6 :: a :: b :: c :: d :: rest) = (.ok [0x86, 0x02], regs) := by
      simp [handlePdu, writeSingle, haddr]
    exact sound_of_same h hanswer fun _ _ _ _ => ⟨6, 0x02, rfl, rfl⟩
  · have hanswer : handlePdu regs (6 :: a :: b :: c :: d :: rest) =
        (.ok [6, a, b, c, d], regs.set (wordOf a b) (wordOf c d)) := by
      simp [handlePdu, writeSingle, haddr]
    have hwords : Words (regs.set (wordOf a b) (wordOf c d)) := by
      intro r hr
      rcases List.mem_or_eq_of_mem_set hr with hr | rfl
      · exact h r hr
      · exact wordOf_lt c d
    have hreplace : regs.set (wordOf a b) (wordOf c d) =
        regs.take (wordOf a b) ++ [wordOf c d] ++ regs.drop (wordOf a b + [wordOf c d].length) := by
      rw [List.set_eq_take_append_cons_drop, if_pos (by omega), List.append_assoc]
      rfl
    refine ⟨⟨_, by rw [hanswer]⟩, by rw [hanswer]; simp, by rw [hanswer]; exact hwords, ?_, ?_⟩
    · rintro response hresponse ⟨fc, code, -, rfl⟩
      rw [hanswer] at hresponse
      simp [refusal] at hresponse
    · intro start qty data hw response hresponse hnot a' b' c' d' rest' hstart hqty
      cases hw
      have hvalue : ((regs.set (wordOf a b) (wordOf c d)).drop (wordOf a b)).take 1 = [wordOf c d] := by
        have hroom : wordOf a b + [wordOf c d].length ≤ regs.length := by
          rw [List.length_singleton]
          omega
        rw [hreplace]
        exact drop_take_replace hroom
      have hrange : wordOf a b + 1 ≤ (regs.set (wordOf a b) (wordOf c d)).length := by
        rw [List.length_set]
        omega
      rw [hanswer, handlePdu_read, hstart, hqty, readHolding_ok hwords (by omega) hrange, hvalue, packH_word]

private theorem sound_writeBlock {regs : Registers} (h : Words regs) (a b c d n : UInt8) (rest : Bytes)
    (hlength : rest.length ≤ 253) : Sound regs (16 :: a :: b :: c :: d :: n :: rest) := by
  have hbody : handlePdu regs (16 :: a :: b :: c :: d :: n :: rest) =
      writeBlock regs (wordOf a b) (wordOf c d) (n :: rest) := by simp [handlePdu]
  by_cases hshort : rest.length < wordOf c d * 2
  · have hanswer : handlePdu regs (16 :: a :: b :: c :: d :: n :: rest) = (.ok [0x90, 0x03], regs) := by
      rw [hbody, writeBlock, if_pos (by simp; omega)]
    exact sound_of_same h hanswer fun _ _ _ _ => ⟨16, 0x03, rfl, rfl⟩
  by_cases hrange : regs.length < wordOf a b + wordOf c d
  · have hanswer : handlePdu regs (16 :: a :: b :: c :: d :: n :: rest) = (.ok [0x90, 0x02], regs) := by
      rw [hbody, writeBlock, if_neg (by simp; omega), if_pos hrange]
    exact sound_of_same h hanswer fun _ _ _ _ => ⟨16, 0x02, rfl, rfl⟩
  generalize hdata : rest.take (wordOf c d * 2) = data
  have hlen : data.length = wordOf c d * 2 := by
    rw [← hdata, List.length_take]
    omega
  have hvalues : (unpackH data).length = wordOf c d := by
    rw [length_unpackH, hlen]
    omega
  have hanswer : handlePdu regs (16 :: a :: b :: c :: d :: n :: rest) =
      (.ok (16 :: packH [wordOf a b, wordOf c d]),
        regs.take (wordOf a b) ++ unpackH data ++ regs.drop (wordOf a b + (unpackH data).length)) := by
    rw [hbody, writeBlock, if_neg (by simp; omega), if_neg hrange, hvalues]
    simp [hdata]
  have hcount : (regs.take (wordOf a b) ++ unpackH data ++ regs.drop (wordOf a b + (unpackH data).length)).length =
      regs.length := length_replace (by omega)
  have hwords : Words (regs.take (wordOf a b) ++ unpackH data ++ regs.drop (wordOf a b + (unpackH data).length)) := by
    intro r hr
    rcases List.mem_append.1 hr with hr | hr
    · rcases List.mem_append.1 hr with hr | hr
      · exact h r (List.mem_of_mem_take hr)
      · exact unpackH_lt r hr
    · exact h r (List.mem_of_mem_drop hr)
  refine ⟨⟨_, by rw [hanswer]⟩, by rw [hanswer]; exact hcount, by rw [hanswer]; exact hwords, ?_, ?_⟩
  · rintro response hresponse ⟨fc, code, -, rfl⟩
    rw [hanswer] at hresponse
    simp [refusal, packH] at hresponse
  · intro start qty written hw response hresponse hnot a' b' c' d' rest' hstart hqty
    cases hw
    have hblock : ((regs.take (wordOf a b) ++ unpackH data ++ regs.drop (wordOf a b + (unpackH data).length)).drop
        (wordOf a b)).take (unpackH data).length = unpackH data := drop_take_replace (by omega)
    rw [hanswer, handlePdu_read, hstart, hqty, readHolding_ok hwords (by omega) (by rw [hcount]; omega)]
    rw [hvalues] at hblock
    rw [hvalues, hblock, packH_unpackH (by omega), hdata]

/-- A PDU that is not answered gets too many registers. -/
theorem not_sound_overlong {regs : Registers} {pdu : Bytes} (h : Overlong regs.length pdu) :
    handlePdu regs pdu = (.error .valueError, regs) := by
  unfold Overlong at h
  split at h
  · obtain ⟨rfl, hqty, hrange⟩ := h
    rw [handlePdu_read, readHolding_overlong hqty hrange]
  · exact h.elim

private theorem sound_readHolding {regs : Registers} (h : Words regs) (a b c d : UInt8) (rest : Bytes)
    (hfits : ¬ Overlong regs.length (3 :: a :: b :: c :: d :: rest)) : Sound regs (3 :: a :: b :: c :: d :: rest) := by
  have hwrites : ∀ start qty data, ¬ Writes (3 :: a :: b :: c :: d :: rest) start qty data := by
    intro start qty data hw
    cases hw
  by_cases hrange : regs.length < wordOf a b + wordOf c d
  · have hanswer : handlePdu regs (3 :: a :: b :: c :: d :: rest) = (.ok [0x83, 0x02], regs) := by
      rw [handlePdu_read, readHolding, if_pos hrange]
    exact sound_of_same h hanswer fun _ _ _ hw => absurd hw (hwrites _ _ _)
  · have hqty : wordOf c d < 128 := by
      by_contra hlong
      exact hfits ⟨rfl, by omega, by omega⟩
    have hanswer : readHolding regs (wordOf a b) (wordOf c d) = _ := readHolding_ok h hqty (by omega)
    rw [← handlePdu_read regs a b c d rest] at hanswer
    exact sound_of_same h hanswer fun _ _ _ hw => absurd hw (hwrites _ _ _)

private theorem sound_unsupported {regs : Registers} {pdu : Bytes} (h : Words regs) {fc : UInt8} {body : Bytes}
    (hpdu : pdu = fc :: body) (hanswer : handlePdu regs pdu = (.ok (refusal fc 0x01), regs)) : Sound regs pdu :=
  sound_of_same h hanswer fun _ _ _ _ => ⟨fc, 0x01, by rw [hpdu]; rfl, rfl⟩

/-- Every other PDU of a connection is handled soundly. -/
theorem sound_of_not_overlong {regs : Registers} (h : Words regs) {pdu : Bytes} (hlong : pdu.length ≤ 259)
    (hshort : 1 ≤ pdu.length) (hfits : ¬ Overlong regs.length pdu) : Sound regs pdu := by
  match pdu with
  | [] => simp at hshort
  | [fc] | [fc, _] | [fc, _, _] | [fc, _, _, _] => exact sound_unsupported h rfl rfl
  | fc :: a :: b :: c :: d :: rest =>
    by_cases hread : fc = 3
    · subst hread
      exact sound_readHolding h a b c d rest hfits
    by_cases hsingle : fc = 6
    · subst hsingle
      exact sound_writeSingle h a b c d rest
    by_cases hblock : fc = 16 ∧ rest ≠ []
    · obtain ⟨rfl, hrest⟩ := hblock
      obtain ⟨n, rest, rfl⟩ := List.exists_cons_of_ne_nil hrest
      exact sound_writeBlock h a b c d n rest (by simp at hlong; omega)
    · refine sound_unsupported h rfl ?_
      simp only [handlePdu, hread, hsingle, hblock, ↓reduceIte]

/-! ### A sequence of PDUs -/

/-- The registers behind some PDUs. -/
def after (regs : Registers) (pdus : List Bytes) : Registers :=
  pdus.foldl (fun regs pdu => (handlePdu regs pdu).2) regs

/-- Whatever comes, the registers stay words and as many. -/
private theorem after_spec {regs : Registers} (h : Words regs) {pdus : List Bytes}
    (hpdus : ∀ pdu ∈ pdus, 1 ≤ pdu.length ∧ pdu.length ≤ 259) :
    Words (after regs pdus) ∧ (after regs pdus).length = regs.length := by
  induction pdus generalizing regs with
  | nil => exact ⟨h, rfl⟩
  | cons pdu pdus ih =>
    obtain ⟨hshort, hlong⟩ := hpdus pdu List.mem_cons_self
    have hrest : ∀ pdu ∈ pdus, 1 ≤ pdu.length ∧ pdu.length ≤ 259 := fun p hp => hpdus p (List.mem_cons_of_mem pdu hp)
    show Words (after (handlePdu regs pdu).2 pdus) ∧ (after (handlePdu regs pdu).2 pdus).length = regs.length
    by_cases hover : Overlong regs.length pdu
    · rw [not_sound_overlong hover]
      exact ih h hrest
    · have hsound := sound_of_not_overlong h hlong hshort hover
      obtain ⟨hwords, hcount⟩ := ih hsound.words hrest
      exact ⟨hwords, hcount.trans hsound.count⟩

/-- The simulator handles every PDU of a sequence soundly exactly if none asks for 128 registers or more that exist. -/
theorem simulator_sound_iff (regs : Registers) (pdus : List Bytes) (hwords : Words regs)
    (hpdus : ∀ pdu ∈ pdus, 1 ≤ pdu.length ∧ pdu.length ≤ 259) :
    (∀ n (hn : n < pdus.length), Sound (after regs (pdus.take n)) pdus[n]) ↔
      ∀ pdu ∈ pdus, ¬ Overlong regs.length pdu := by
  have hstate : ∀ n, Words (after regs (pdus.take n)) ∧ (after regs (pdus.take n)).length = regs.length :=
    fun n => after_spec hwords fun pdu hpdu => hpdus pdu (List.mem_of_mem_take hpdu)
  constructor
  · intro hall pdu hpdu hover
    obtain ⟨n, hn, rfl⟩ := List.getElem_of_mem hpdu
    obtain ⟨response, hresponse⟩ := (hall n hn).responds
    rw [← (hstate n).2] at hover
    rw [not_sound_overlong hover] at hresponse
    cases hresponse
  · intro hall n hn
    obtain ⟨hshort, hlong⟩ := hpdus pdus[n] (List.getElem_mem hn)
    apply sound_of_not_overlong (hstate n).1 hlong hshort
    rw [(hstate n).2]
    exact hall pdus[n] (List.getElem_mem hn)

/-- Writes 7 to register 1, and reads both registers. -/
def writeThenRead : List Bytes := [[6, 0, 1, 0, 7], [3, 0, 0, 0, 2]]

theorem simulator_sound_iff_echo :
    (∀ n (hn : n < writeThenRead.length), Sound (after [0, 0] (writeThenRead.take n)) writeThenRead[n]) ∧
      (handlePdu (after [0, 0] (writeThenRead.take 1)) [3, 0, 0, 0, 2]).1 = .ok [3, 4, 0, 0, 0, 7] :=
  ⟨(simulator_sound_iff [0, 0] writeThenRead (by simp [Words]) (by simp [writeThenRead])).2 (by decide), rfl⟩

/-- 128 registers at once: `bytes([3, 256])` raises. -/
theorem read_of_128_raises :
    (handlePdu (List.replicate 128 0) [3, 0, 0, 0, 128]).1 = .error .valueError ∧
      ¬ ∀ (regs : Registers) (pdus : List Bytes), Words regs →
        (∀ pdu ∈ pdus, 1 ≤ pdu.length ∧ pdu.length ≤ 259) →
        ∀ n (hn : n < pdus.length), Sound (after regs (pdus.take n)) pdus[n] := by
  have hraises : (handlePdu (List.replicate 128 0) [3, 0, 0, 0, 128]).1 = .error .valueError := by
    have hover : Overlong (List.replicate 128 0).length [3, 0, 0, 0, 128] := ⟨rfl, by decide, by rw [List.length_replicate]; decide⟩
    rw [not_sound_overlong hover]
  refine ⟨hraises, fun h => ?_⟩
  have hwords : Words (List.replicate 128 0) := by
    intro r hr
    rw [List.eq_of_mem_replicate hr]
    decide
  obtain ⟨response, hresponse⟩ :=
    (h (List.replicate 128 0) [[3, 0, 0, 0, 128]] hwords (by simp) 0 (by simp)).responds
  have hsame : (handlePdu (List.replicate 128 0) [3, 0, 0, 0, 128]).1 = .ok response := hresponse
  rw [hraises] at hsame
  cases hsame

/-! ### A connection does not crash -/

/-- With fewer than 128 registers, no byte stream crashes the handler. -/
theorem handle_not_crashed {regs : Registers} (h : Words regs) (hcount : regs.length < 128) (n : Nat) (stream : Bytes) :
    (handle n regs stream).2.2 = .closed := by
  induction n generalizing regs stream with
  | zero => rfl
  | succ n ih =>
    match stream with
    | t :: t' :: p :: p' :: l :: l' :: uid :: rest =>
      rw [handle]
      dsimp only
      split_ifs with hproto hdrop hone hcut
      · rfl
      · rfl
      · exact ih h hcount rest
      · rfl
      · generalize hpdu : rest.take (wordOf l l' - 1) = pdu
        have hlength : pdu.length = wordOf l l' - 1 := by
          rw [← hpdu, List.length_take]
          omega
        have hfits : ¬ Overlong regs.length pdu := by
          intro hover
          unfold Overlong at hover
          split at hover
          · omega
          · exact hover
        have hsound : Sound regs pdu := sound_of_not_overlong h (by omega) (by omega) hfits
        obtain ⟨response, hresponse⟩ := hsound.responds
        split
        · rename_i e regs' hanswer
          rw [hanswer] at hresponse
          cases hresponse
        · rename_i response' regs' hanswer
          have hwords := hsound.words
          have hsame := hsound.count
          rw [hanswer] at hwords hsame
          exact ih hwords (Nat.lt_of_le_of_lt (Nat.le_of_eq hsame) hcount) _
    | [] | [_] | [_, _] | [_, _, _] | [_, _, _, _] | [_, _, _, _, _] | [_, _, _, _, _, _] => rfl

end IronHarness.Modbus
