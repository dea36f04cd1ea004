import Mathlib.Algebra.Group.Defs
import Mathlib.Order.Lattice
import IronHarness.Lib.Bytes

/-!
# Waiting for an answer

`expect_read` (io_core/verify.py): one loop that looks for the expected bytes, at the clock, and at the size of the
buffer, in this order but for the size, which is looked at behind each read.  The read that brings the buffer over its
cap may be the one that completes the answer; apart from that the call gives up only without the answer
(`gives_up_only_without_iff`).
-/

namespace IronHarness.Verify

open ByteText

/-- A turn of the loop: the clock, and what the read returns or raises. -/
structure Turn (T ε : Type) where
  now : T
  reply : Except ε Bytes

/-- The end of a call; `timeout` and `overflow` are a VerificationError, with the buffer. -/
inductive Outcome (ε : Type)
  | found (buf : Bytes)
  | timeout (buf : Bytes)
  | overflow (buf : Bytes)
  | raised (e : ε)
  deriving DecidableEq

def maxExpectBuf : Nat := 256 * 1024

/-- `expected in buf` -/
def occurs (expected buf : Bytes) : Bool := (find expected buf).isSome

section

variable {T ε : Type}

section Loop

variable [LinearOrder T]

/-- The loop; `none` is a call that has not ended within these turns. -/
def expectLoop (expected : Bytes) (deadline : T) : List (Turn T ε) → Bytes → Option (Outcome ε)
  | [], buf => if occurs expected buf then some (.found buf) else none
  | t :: turns, buf =>
    if occurs expected buf then some (.found buf)
    else if deadline ≤ t.now then some (.timeout buf)
    else
      match t.reply with
      | .error e => some (.raised e)
      | .ok chunk =>
        if maxExpectBuf < (buf ++ chunk).length then some (.overflow (buf ++ chunk))
        else expectLoop expected deadline turns (buf ++ chunk)

/-- `expect_read`; `start` is the clock at the call. -/
def expectRead [Add T] (expected : Bytes) (start timeout : T) (turns : List (Turn T ε)) : Option (Outcome ε) :=
  if expected = [] then some (.found []) else expectLoop expected (start + timeout) turns []

end Loop

/-! ### What was read -/

def Turn.chunk (t : Turn T ε) : Bytes :=
  match t.reply with
  | .ok chunk => chunk
  | .error _ => []

/-- The buffer behind the first `k` reads. -/
def heard (buf : Bytes) (turns : List (Turn T ε)) (k : Nat) : Bytes := buf ++ (turns.take k).flatMap Turn.chunk

@[simp] theorem heard_zero (buf : Bytes) (turns : List (Turn T ε)) : heard buf turns 0 = buf := by
  simp [heard]

@[simp] theorem heard_succ (buf : Bytes) (t : Turn T ε) (turns : List (Turn T ε)) (k : Nat) :
    heard buf (t :: turns) (k + 1) = heard (buf ++ t.chunk) turns k := by
  simp [heard]

variable [LinearOrder T]

/-- The read is started before the timeout and returns. -/
def Turn.Reads (deadline : T) (t : Turn T ε) : Prop := t.now < deadline ∧ ∃ chunk, t.reply = .ok chunk

/-- What the end of a call says about the reads it made. -/
def Outcome.Fits (expected : Bytes) (turns : List (Turn T ε)) (deadline : T) (k : Nat) (buf : Bytes) :
    Option (Outcome ε) → Prop
  | some (.found out) => out = heard buf turns k ∧ occurs expected out = true ∧ (k ≠ 0 → out.length ≤ maxExpectBuf)
  | some (.timeout out) => out = heard buf turns k ∧ occurs expected out = false ∧
      ∃ t, turns[k]? = some t ∧ deadline ≤ t.now
  | some (.overflow out) => out = heard buf turns k ∧ k ≠ 0 ∧ maxExpectBuf < out.length
  | some (.raised e) => occurs expected (heard buf turns k) = false ∧ ∃ t, turns[k]? = some t ∧ t.reply = .error e
  | none => k = turns.length ∧ occurs expected (heard buf turns k) = false

theorem Outcome.Fits.cons {expected buf chunk : Bytes} {turns : List (Turn T ε)} {deadline : T} {k : Nat} {t : Turn T ε}
    (hchunk : t.chunk = chunk) (hsmall : (buf ++ chunk).length ≤ maxExpectBuf) {outcome : Option (Outcome ε)}
    (h : Outcome.Fits expected turns deadline k (buf ++ chunk) outcome) :
    Outcome.Fits expected (t :: turns) deadline (k + 1) buf outcome := by
  subst hchunk
  rcases outcome with _ | (out | out | out | e)
  · obtain ⟨rfl, hnone⟩ := h
    exact ⟨rfl, by rwa [heard_succ]⟩
  · obtain ⟨rfl, hfound, hcap⟩ := h
    refine ⟨by rw [heard_succ], hfound, fun _ => ?_⟩
    by_cases hk : k = 0
    · subst hk
      simpa using hsmall
    · exact hcap hk
  · obtain ⟨rfl, hnone, hlate⟩ := h
    exact ⟨by rw [heard_succ], hnone, hlate⟩
  · obtain ⟨rfl, -, hfull⟩ := h
    exact ⟨by rw [heard_succ], by omega, hfull⟩
  · obtain ⟨hnone, hraised⟩ := h
    exact ⟨by rwa [heard_succ], hraised⟩

/-- The reads that a call makes: each is in time, and none but the last completes the expected bytes or reaches the cap. -/
private theorem expectLoop_cases (expected : Bytes) (deadline : T) (turns : List (Turn T ε)) (buf : Bytes) :
    ∃ k ≤ turns.length, (∀ t ∈ turns.take k, t.Reads deadline) ∧
      (∀ j < k, occurs expected (heard buf turns j) = false) ∧
      (∀ j < k, j ≠ 0 → (heard buf turns j).length ≤ maxExpectBuf) ∧
      Outcome.Fits expected turns deadline k buf (expectLoop expected deadline turns buf) := by
  induction turns generalizing buf with
  | nil =>
    refine ⟨0, by simp, by simp, by simp, by simp, ?_⟩
    unfold expectLoop
    cases hfound : occurs expected buf with
    | true => simp [Outcome.Fits, hfound]
    | false => simp [Outcome.Fits, hfound]
  | cons t turns ih =>
    unfold expectLoop
    cases hfound : occurs expected buf with
    | true => exact ⟨0, by simp, by simp, by simp, by simp, by simp [Outcome.Fits, hfound]⟩
    | false =>
      rw [if_neg Bool.false_ne_true]
      by_cases hlate : deadline ≤ t.now
      · rw [if_pos hlate]
        exact ⟨0, by simp, by simp, by simp, by simp, by simp [Outcome.Fits, hfound, hlate]⟩
      rw [if_neg hlate]
      cases hreply : t.reply with
      | error e => exact ⟨0, by simp, by simp, by simp, by simp, by simp [Outcome.Fits, hfound, hreply]⟩
      | ok chunk =>
        have hchunk : t.chunk = chunk := by simp [Turn.chunk, hreply]
        have hreads : t.Reads deadline := ⟨not_le.1 hlate, chunk, hreply⟩
        dsimp only
        by_cases hfull : maxExpectBuf < (buf ++ chunk).length
        · rw [if_pos hfull]
          refine ⟨1, by simp, by simpa using hreads, ?_, ?_, ?_⟩
          · intro j hj
            obtain rfl : j = 0 := by omega
            simpa using hfound
          · intro j hj hpos
            omega
          · simpa [Outcome.Fits, hchunk] using hfull
        rw [if_neg hfull]
        obtain ⟨k, hk, htaken, hnone, hsmall, hend⟩ := ih (buf ++ chunk)
        refine ⟨k + 1, by simpa using hk, ?_, ?_, ?_, ?_⟩
        · intro t' ht'
          rw [List.take_succ_cons, List.mem_cons] at ht'
          rcases ht' with rfl | ht'
          · exact hreads
          · exact htaken t' ht'
        · intro j hj
          cases j with
          | zero => simpa using hfound
          | succ j =>
            rw [heard_succ, hchunk]
            exact hnone j (by omega)
        · intro j hj _
          cases j with
          | zero => omega
          | succ j =>
            rw [heard_succ, hchunk]
            by_cases hzero : j = 0
            · subst hzero
              simpa using Nat.le_of_not_lt hfull
            · exact hsmall j (by omega) hzero
        · exact hend.cons hchunk (Nat.le_of_not_lt hfull)

/-! ### Giving up -/

/-- What is wanted of a call: it returns all it has read as soon as the expected bytes are in it, and gives up only
without them. -/
def Right (expected : Bytes) (deadline : T) (turns : List (Turn T ε)) : Option (Outcome ε) → Prop
  | some (.found buf) => ∃ k, (∀ t ∈ turns.take k, t.Reads deadline) ∧ buf = heard [] turns k ∧
      occurs expected buf = true ∧ ∀ j < k, occurs expected (heard [] turns j) = false
  | some (.timeout buf) | some (.overflow buf) =>
    (∃ k, (∀ t ∈ turns.take k, t.Reads deadline) ∧ buf = heard [] turns k) ∧ occurs expected buf = false
  | some (.raised e) => ∃ k, (∀ t ∈ turns.take k, t.Reads deadline) ∧ occurs expected (heard [] turns k) = false ∧
      ∃ t, turns[k]? = some t ∧ t.reply = .error e
  | none => (∀ t ∈ turns, t.Reads deadline) ∧ occurs expected (heard [] turns turns.length) = false

/-- The read that brings the buffer over the cap completes the expected bytes. -/
def FloodMatch (expected : Bytes) (deadline : T) (turns : List (Turn T ε)) : Prop :=
  ∃ k < turns.length, (∀ t ∈ turns.take (k + 1), t.Reads deadline) ∧
    (∀ j ≤ k, occurs expected (heard [] turns j) = false ∧ (heard [] turns j).length ≤ maxExpectBuf) ∧
    occurs expected (heard [] turns (k + 1)) = true ∧ maxExpectBuf < (heard [] turns (k + 1)).length

private theorem reads_of_lt {deadline : T} {turns : List (Turn T ε)} {k n : Nat} {t : Turn T ε}
    (ht : turns[k]? = some t)
    (hkn : k < n) (hreads : ∀ t ∈ turns.take n, t.Reads deadline) : t.Reads deadline := by
  apply hreads t
  rw [List.mem_iff_getElem?]
  exact ⟨k, by rwa [List.getElem?_take_of_lt hkn]⟩

/-- The read of a flood is the last of the call: none before it ends the call, and it ends it as an overflow. -/
private theorem overflow_of_flood {expected : Bytes} {deadline : T} {turns : List (Turn T ε)}
    (h : FloodMatch expected deadline turns) :
    ∃ out, expectLoop expected deadline turns [] = some (.overflow out) ∧ occurs expected out = true := by
  obtain ⟨n, hn, hnreads, hearly, hmatch, hflood⟩ := h
  obtain ⟨k, hk, -, hnone, -, hend⟩ := expectLoop_cases expected deadline turns []
  generalize expectLoop expected deadline turns [] = outcome at hend ⊢
  -- the call ends with the read of the flood or before it
  have hle : k ≤ n + 1 := by
    by_contra hlate
    rw [hnone (n + 1) (by omega)] at hmatch
    cases hmatch
  rcases outcome with _ | (out | out | out | e)
  · obtain ⟨rfl, hmissing⟩ := hend
    have hall : turns.length = n + 1 := by omega
    rw [hall, hmatch] at hmissing
    cases hmissing
  · obtain ⟨rfl, hfound, hcap⟩ := hend
    rcases Nat.lt_or_eq_of_le hle with hlt | rfl
    · rw [(hearly k (by omega)).1] at hfound
      cases hfound
    · have := hcap (by omega)
      omega
  · obtain ⟨rfl, hmissing, t, ht, hlate⟩ := hend
    rcases Nat.lt_or_eq_of_le hle with hlt | rfl
    · exact absurd (reads_of_lt ht hlt hnreads).1 (not_lt.2 hlate)
    · rw [hmissing] at hmatch
      cases hmatch
  · obtain ⟨rfl, -, hfull⟩ := hend
    rcases Nat.lt_or_eq_of_le hle with hlt | rfl
    · have := (hearly k (by omega)).2
      omega
    · exact ⟨_, rfl, hmatch⟩
  · obtain ⟨hmissing, t, ht, hraised⟩ := hend
    rcases Nat.lt_or_eq_of_le hle with hlt | rfl
    · obtain ⟨-, chunk, hchunk⟩ := reads_of_lt ht hlt hnreads
      rw [hraised] at hchunk
      cases hchunk
    · rw [hmissing] at hmatch
      cases hmatch

/-- A call without a flood ends as wanted. -/
private theorem right_of_no_flood {expected : Bytes} {deadline : T} {turns : List (Turn T ε)}
    (hcalm : ¬ FloodMatch expected deadline turns) :
    Right expected deadline turns (expectLoop expected deadline turns []) := by
  obtain ⟨k, hk, hreads, hnone, hsmall, hend⟩ := expectLoop_cases expected deadline turns []
  generalize expectLoop expected deadline turns [] = outcome at hend ⊢
  rcases outcome with _ | (out | out | out | e)
  · obtain ⟨rfl, hmissing⟩ := hend
    rw [List.take_length] at hreads
    exact ⟨hreads, hmissing⟩
  · obtain ⟨rfl, hfound, -⟩ := hend
    exact ⟨k, hreads, rfl, hfound, hnone⟩
  · obtain ⟨rfl, hmissing, -⟩ := hend
    exact ⟨⟨k, hreads, rfl⟩, hmissing⟩
  · -- an overflow with the answer in the buffer is a flood whose last read completes it
    obtain ⟨rfl, hpos, hfull⟩ := hend
    refine ⟨⟨k, hreads, rfl⟩, ?_⟩
    by_contra hfound
    obtain ⟨n, rfl⟩ := Nat.exists_eq_succ_of_ne_zero hpos
    refine hcalm ⟨n, hk, hreads, fun j hj => ⟨hnone j (by omega), ?_⟩, by simpa using hfound, hfull⟩
    by_cases hj : j = 0
    · subst hj
      simp
    · exact hsmall j (by omega) hj
  · obtain ⟨hmissing, hraised⟩ := hend
    exact ⟨k, hreads, hmissing, hraised⟩

/-- A call gives up only without the answer, but for a read that completes it and reaches the cap. -/
theorem gives_up_only_without_iff [Add T] {expected : Bytes} (hexpected : expected ≠ []) (start timeout : T)
    (turns : List (Turn T ε)) :
    Right expected (start + timeout) turns (expectRead expected start timeout turns) ↔
      ¬ FloodMatch expected (start + timeout) turns := by
  rw [expectRead, if_neg hexpected]
  constructor
  · intro hright hflood
    obtain ⟨out, hout, hmatch⟩ := overflow_of_flood hflood
    rw [hout] at hright
    rw [hright.2] at hmatch
    cases hmatch
  · exact right_of_no_flood

/-- Nothing in the first read, and the answer in two pieces. -/
def inPieces : List (Turn Nat Empty) := [⟨1, .ok []⟩, ⟨2, .ok [0x21, 0x4F]⟩, ⟨3, .ok [0x4B, 0x21]⟩]

theorem gives_up_only_without_iff_ok :
    expectRead [0x4F, 0x4B] 0 5 inPieces = some (.found [0x21, 0x4F, 0x4B, 0x21]) ∧
      Right [0x4F, 0x4B] (0 + 5) inPieces (expectRead [0x4F, 0x4B] 0 5 inPieces) := by
  refine ⟨by decide, (gives_up_only_without_iff (by decide) 0 5 _).2 ?_⟩
  rintro ⟨n, hn, -, -, -, hflood⟩
  have hsmall : ∀ n < 3, (heard [] inPieces (n + 1)).length ≤ 4 := by decide
  exact absurd hflood (Nat.not_lt.2 ((hsmall n hn).trans (by decide)))

/-! ### A flood that ends in the answer -/

omit [LinearOrder T] in
private theorem not_occurs_replicate {expected : Bytes} {b : UInt8} (hb : b ∉ expected) (hexpected : expected ≠ [])
    (n : Nat) :
    occurs expected (List.replicate n b) = false := by
  rw [occurs, Bool.eq_false_iff, ne_eq, find_isSome_iff]
  intro hoccurs
  obtain ⟨x, hx⟩ := List.exists_mem_of_ne_nil expected hexpected
  obtain rfl := List.eq_of_mem_replicate (hoccurs.subset hx)
  exact hb hx

/-- Reads that do not complete the expected bytes are skipped as long as the buffer has room. -/
private theorem expectLoop_replicate {expected : Bytes} {deadline now : T} (hnow : now < deadline) {b : UInt8}
    (hb : b ∉ expected) (hexpected : expected ≠ []) (n filled : Nat) (hroom : filled + n ≤ maxExpectBuf)
    (turns : List (Turn T ε)) :
    expectLoop expected deadline (List.replicate n ⟨now, .ok [b]⟩ ++ turns) (List.replicate filled b) =
      expectLoop expected deadline turns (List.replicate (filled + n) b) := by
  induction n generalizing filled with
  | zero => simp
  | succ n ih =>
    have hnone := not_occurs_replicate hb hexpected filled
    have hnext : List.replicate filled b ++ [b] = List.replicate (filled + 1) b := List.replicate_succ'.symm
    rw [List.replicate_succ, List.cons_append, expectLoop, hnone, if_neg Bool.false_ne_true, if_neg (not_le.2 hnow)]
    dsimp only
    rw [hnext, if_neg (by rw [List.length_replicate]; omega), ih _ (by omega), Nat.add_assoc, Nat.add_comm 1 n]

/-- A flood of 262144 bytes and then the answer, in reads of at most two bytes. -/
theorem flood_then_answer :
    expectRead [0x4F, 0x4B] (0 : Nat) 5
        (List.replicate maxExpectBuf ⟨1, (.ok [0x78] : Except Empty Bytes)⟩ ++ [⟨1, .ok [0x4F, 0x4B]⟩]) =
        some (.overflow (List.replicate maxExpectBuf 0x78 ++ [0x4F, 0x4B])) ∧
      occurs [0x4F, 0x4B] (List.replicate maxExpectBuf 0x78 ++ [0x4F, 0x4B]) = true := by
  have hanswer : (0x78 : UInt8) ∉ ([0x4F, 0x4B] : Bytes) := by decide
  have htime : 1 < 0 + 5 := by decide
  have hskip := expectLoop_replicate htime hanswer (by decide) maxExpectBuf 0 (by omega)
    [⟨1, (.ok [0x4F, 0x4B] : Except Empty Bytes)⟩]
  have hmissing := not_occurs_replicate hanswer (by decide) maxExpectBuf
  rw [List.replicate_zero, Nat.zero_add maxExpectBuf] at hskip
  constructor
  · rw [expectRead, if_neg (by decide), hskip, expectLoop, hmissing, if_neg Bool.false_ne_true, if_neg (by decide)]
    dsimp only
    rw [if_pos (by rw [List.length_append, List.length_replicate]; exact Nat.lt_add_of_pos_right (by decide))]
  · rw [occurs, find_isSome_iff]
    exact (List.suffix_append _ _).isInfix

end

end IronHarness.Verify
