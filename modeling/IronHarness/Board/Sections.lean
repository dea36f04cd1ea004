import IronHarness.Board.Fallible
import IronHarness.Board.Session

/-!
# The sections of a stream

`_Stream.until` (io_core/mprepl.py) on a stream of bytes that arrives in reads of any sizes, while no deadline passes.
The cap is looked at behind each read, before the terminator is; so a read may bring the terminator and raise all the
same.  Apart from that, and from sections that only a raise has let into the buffer, the outcomes of any calls are those
that the stream alone determines (`sections_iff`).
-/

namespace IronHarness.Board.Fallible

open ByteText
open IronHarness.Board.Stream (cut cut_append maxStreamBuf)

/-! ### One call -/

/-- `waits`: the call reads on for ever. -/
inductive Outcome
  | piece (bytes : Bytes)
  | overflow
  | waits
  deriving DecidableEq

/-- One call of `until`, with the buffer and the reads that are to come; behind them the reads return nothing. -/
def call (terminator : Bytes) : List Bytes → Bytes → Outcome × Bytes × List Bytes
  | [], buf =>
    match cut terminator buf with
    | some (piece, rest) => (.piece piece, rest, [])
    | none => if maxStreamBuf < buf.length then (.overflow, buf, []) else (.waits, buf, [])
  | chunk :: chunks, buf =>
    match cut terminator buf with
    | some (piece, rest) => (.piece piece, rest, chunk :: chunks)
    | none =>
      if maxStreamBuf < (buf ++ chunk).length then (.overflow, buf ++ chunk, chunks)
      else call terminator chunks (buf ++ chunk)

/-- The turns of reads in time. -/
def reads (chunks : List Bytes) : List Turn := chunks.flatMap fun chunk => [.clock false, .read (.ok chunk)]

/-- `silent` reads that return nothing. -/
def silence (silent : Nat) : List Turn := reads (List.replicate silent [])

@[simp] theorem reads_cons (chunk : Bytes) (chunks : List Bytes) :
    reads (chunk :: chunks) = .clock false :: .read (.ok chunk) :: reads chunks := rfl

theorem untilLoop_of_cut {terminator piece rest : Bytes} {l : Line} (h : cut terminator l.buf = some (piece, rest))
    (turns : List Turn) : untilLoop terminator turns l = some (.ok piece, { l with buf := rest }, turns) := by
  cases turns with
  | nil => rw [untilLoop, h, Option.map_some]
  | cons t turns =>
    unfold untilLoop
    rw [h]

private theorem untilLoop_read {terminator chunk : Bytes} {l : Line} (h : cut terminator l.buf = none)
    (turns : List Turn) :
    untilLoop terminator (.clock false :: .read (.ok chunk) :: turns) l =
      if maxStreamBuf < (l.buf ++ chunk).length then
        some (.error (.exn .transportIoError), { l with buf := l.buf ++ chunk }, turns)
      else untilLoop terminator turns { l with buf := l.buf ++ chunk } := by
  rw [untilLoop, h]

/-- The call is that of the driver: it returns, raises, or is not over however long the silence. -/
theorem upTo_call (terminator : Bytes) (chunks : List Bytes) (l : Line) (silent : Nat) :
    match call terminator chunks l.buf with
    | (.piece piece, rest, later) => upTo terminator l (reads chunks ++ silence (silent + 1)) =
        some (.ok piece, { l with buf := rest }, reads later ++ silence (silent + 1))
    | (.overflow, buf, later) => ∃ left, silent ≤ left ∧ upTo terminator l (reads chunks ++ silence (silent + 1)) =
        some (.error (.exn .transportIoError), { l with buf := buf }, reads later ++ silence left)
    | (.waits, _, _) => upTo terminator l (reads chunks ++ silence silent) = none := by
  induction chunks generalizing l with
  | nil =>
    rw [call]
    cases hcut : cut terminator l.buf with
    | some o => exact untilLoop_of_cut hcut _
    | none =>
      dsimp only
      by_cases hfull : maxStreamBuf < l.buf.length
      · rw [if_pos hfull]
        refine ⟨silent, Nat.le_refl _, ?_⟩
        show untilLoop terminator (.clock false :: .read (.ok []) :: silence silent) l = _
        rw [untilLoop_read hcut, List.append_nil, if_pos hfull]
        rfl
      · rw [if_neg hfull]
        show untilLoop terminator (silence silent) l = none
        induction silent with
        | zero =>
          show untilLoop terminator [] l = none
          rw [untilLoop, hcut, Option.map_none]
        | succ silent ih =>
          show untilLoop terminator (.clock false :: .read (.ok []) :: silence silent) l = none
          rw [untilLoop_read hcut, List.append_nil, if_neg hfull]
          exact ih
  | cons chunk chunks ih =>
    rw [call]
    cases hcut : cut terminator l.buf with
    | some o => exact untilLoop_of_cut hcut _
    | none =>
      have hread := @untilLoop_read terminator chunk _ hcut
      dsimp only
      by_cases hfull : maxStreamBuf < (l.buf ++ chunk).length
      · rw [if_pos hfull]
        refine ⟨silent + 1, Nat.le_succ _, ?_⟩
        exact (hread _).trans (if_pos hfull)
      · rw [if_neg hfull]
        have hrest : ∀ turns, upTo terminator l (reads (chunk :: chunks) ++ turns) =
            upTo terminator { l with buf := l.buf ++ chunk } (reads chunks ++ turns) :=
          fun turns => (hread _).trans (if_neg hfull)
        rw [hrest, hrest]
        exact ih { l with buf := l.buf ++ chunk }

/-! ### Any calls -/

/-- The outcomes of one call after the other, up to one that waits for ever. -/
def calls : List Bytes → List Bytes → Bytes → List Outcome
  | [], _, _ => []
  | terminator :: later, chunks, buf =>
    match call terminator chunks buf with
    | (.waits, _, _) => [.waits]
    | (outcome, buf, chunks) => outcome :: calls later chunks buf

/-- The outcome of a call on the bytes behind the last section that no read can change, of which at least `sure` bytes
were received: the section up to the terminator, or a raise where the cap is reached first.  With it, what is behind
the section, and how much of that was surely received. -/
def expect (terminator stream : Bytes) (sure : Nat) : Outcome × Bytes × Nat :=
  match cut terminator stream with
  | some (piece, rest) =>
    let whole := piece.length + terminator.length
    if whole ≤ max maxStreamBuf sure then (.piece piece, rest, sure - whole)
    else (.overflow, stream, max sure (maxStreamBuf + 1))
  | none =>
    if maxStreamBuf < stream.length then (.overflow, stream, max sure (maxStreamBuf + 1)) else (.waits, stream, sure)

/-- The outcomes that the stream alone determines. -/
def expected : List Bytes → Bytes → Nat → List Outcome
  | [], _, _ => []
  | terminator :: later, stream, sure =>
    match expect terminator stream sure with
    | (.waits, _, _) => [.waits]
    | (outcome, stream, sure) => outcome :: expected later stream sure

/-- A call raises only without its terminator in the bytes received. -/
def Honest : List Bytes → List Bytes → Bytes → Prop
  | [], _, _ => True
  | terminator :: later, chunks, buf =>
    match call terminator chunks buf with
    | (.waits, _, _) => True
    | (.piece _, buf, chunks) => Honest later chunks buf
    | (.overflow, buf, chunks) => cut terminator buf = none ∧ Honest later chunks buf

/-- A read of the call brings the buffer over the cap and completes the terminator. -/
def Completes (terminator : Bytes) (chunks : List Bytes) (buf : Bytes) : Prop :=
  ∃ early chunk later, chunks = early ++ chunk :: later ∧
    (early ≠ [] → (buf ++ early.flatten).length ≤ maxStreamBuf) ∧ cut terminator (buf ++ early.flatten) = none ∧
    maxStreamBuf < (buf ++ early.flatten ++ chunk).length ∧ cut terminator (buf ++ early.flatten ++ chunk) ≠ none

/-- The section is in the buffer only because a read before a raise happened to bring it. -/
def Overlong (terminator buf : Bytes) (sure : Nat) : Prop :=
  ∃ piece rest, cut terminator buf = some (piece, rest) ∧ max maxStreamBuf sure < piece.length + terminator.length

/-- No call meets one of the two. -/
def Calm : List Bytes → List Bytes → Bytes → Nat → Prop
  | [], _, _, _ => True
  | terminator :: later, chunks, buf, sure =>
    ¬ Completes terminator chunks buf ∧ ¬ Overlong terminator buf sure ∧
      match call terminator chunks buf with
      | (.waits, _, _) => True
      | (_, buf', chunks') => Calm later chunks' buf' (expect terminator (buf ++ chunks.flatten) sure).2.2

private theorem cut_length {terminator buf piece rest : Bytes} (h : cut terminator buf = some (piece, rest)) :
    buf.length = piece.length + terminator.length + rest.length := by
  obtain ⟨idx, hidx, heq⟩ := Option.map_eq_some_iff.1 h
  obtain ⟨rfl, rfl⟩ := Prod.mk.inj heq
  have hlen := (find_eq_some hidx).2
  simp only [List.length_take, List.length_drop]
  omega

/-- A section that ends within a front of the bytes is a section of the front. -/
private theorem cut_of_within {terminator buf more piece rest : Bytes}
    (h : cut terminator (buf ++ more) = some (piece, rest))
    (hwithin : piece.length + terminator.length ≤ buf.length) : cut terminator buf ≠ none := by
  obtain ⟨idx, hidx, heq⟩ := Option.map_eq_some_iff.1 h
  obtain ⟨rfl, rfl⟩ := Prod.mk.inj heq
  have hat := (find_eq_some hidx).1
  rw [List.length_take, List.length_append] at hwithin
  have hle : idx + terminator.length ≤ buf.length := by
    have hlen := (find_eq_some hidx).2
    rw [List.length_append] at hlen
    omega
  intro hnone
  rw [cut, Option.map_eq_none_iff] at hnone
  refine find_eq_none.1 hnone idx (by omega) ?_
  rw [List.drop_append_of_le_length (by omega)] at hat
  exact List.prefix_of_prefix_length_le hat (List.prefix_append _ _) (by rw [List.length_drop]; omega)

private theorem completes_cons {terminator buf chunk : Bytes} {chunks : List Bytes}
    (hroom : (buf ++ chunk).length ≤ maxStreamBuf) :
    Completes terminator (chunk :: chunks) buf ↔ Completes terminator chunks (buf ++ chunk) := by
  constructor
  · rintro ⟨early, read, later, hchunks, hsmall, hearly, hfull, hfound⟩
    cases early with
    | nil =>
      obtain ⟨rfl, rfl⟩ := List.cons.inj hchunks
      simp only [List.flatten_nil, List.append_nil] at hfull
      omega
    | cons first early =>
      obtain ⟨rfl, rfl⟩ := List.cons.inj hchunks
      simp only [List.flatten_cons, ← List.append_assoc] at hsmall hearly hfull hfound
      exact ⟨early, read, later, rfl, fun _ => hsmall (by simp), hearly, hfull, hfound⟩
  · rintro ⟨early, read, later, rfl, hsmall, hearly, hfull, hfound⟩
    refine ⟨chunk :: early, read, later, rfl, fun _ => ?_, ?_, ?_, ?_⟩
    · rw [List.flatten_cons, ← List.append_assoc]
      by_cases hempty : early = []
      · subst hempty
        simpa using hroom
      · exact hsmall hempty
    · rwa [List.flatten_cons, ← List.append_assoc]
    · rwa [List.flatten_cons, ← List.append_assoc]
    · rwa [List.flatten_cons, ← List.append_assoc]

private theorem completes_full {terminator buf chunk : Bytes} {chunks : List Bytes} (hnone : cut terminator buf = none)
    (hfull : maxStreamBuf < (buf ++ chunk).length) :
    Completes terminator (chunk :: chunks) buf ↔ cut terminator (buf ++ chunk) ≠ none := by
  constructor
  · rintro ⟨early, read, later, hchunks, hsmall, hearly, -, hfound⟩
    cases early with
    | nil =>
      obtain ⟨rfl, rfl⟩ := List.cons.inj hchunks
      simpa using hfound
    | cons first early =>
      obtain ⟨rfl, rfl⟩ := List.cons.inj hchunks
      have hover := hsmall (by simp)
      rw [List.flatten_cons, ← List.append_assoc, List.length_append] at hover
      omega
  · intro hfound
    exact ⟨[], chunk, chunks, rfl, by simp, by simpa using hnone, by simpa using hfull, by simpa using hfound⟩

/-- What a call must do: the expected outcome, and no raise with the terminator in the buffer. -/
def Fits (terminator stream : Bytes) (sure : Nat) : Outcome × Bytes × List Bytes → Prop
  | (outcome, buf, _) => outcome = (expect terminator stream sure).1 ∧ (outcome = .overflow → cut terminator buf = none)

private theorem expect_of_none {terminator stream : Bytes} {sure : Nat} (h : cut terminator stream = none)
    (hfull : maxStreamBuf < stream.length) :
    expect terminator stream sure = (.overflow, stream, max sure (maxStreamBuf + 1)) := by
  rw [expect, h]
  exact if_pos hfull

private theorem expect_cases (terminator stream : Bytes) (sure : Nat) :
    (∃ piece rest, cut terminator stream = some (piece, rest) ∧
      expect terminator stream sure = (.piece piece, rest, sure - (piece.length + terminator.length))) ∨
    expect terminator stream sure = (.overflow, stream, max sure (maxStreamBuf + 1)) ∨
    expect terminator stream sure = (.waits, stream, sure) := by
  unfold expect
  cases hcut : cut terminator stream with
  | none =>
    dsimp only
    split
    · exact .inr (.inl rfl)
    · exact .inr (.inr rfl)
  | some o =>
    obtain ⟨piece, rest⟩ := o
    dsimp only
    split
    · exact .inl ⟨piece, rest, rfl, rfl⟩
    · exact .inr (.inl rfl)

/-- A section in the buffer is returned, and expected unless it is too long. -/
private theorem fits_found {terminator buf piece rest : Bytes} {sure : Nat}
    (hcut : cut terminator buf = some (piece, rest))
    (chunks : List Bytes) :
    Fits terminator (buf ++ chunks.flatten) sure (.piece piece, rest, chunks) ↔ ¬ Overlong terminator buf sure := by
  have hmore := cut_append hcut chunks.flatten
  have hiff : Overlong terminator buf sure ↔ max maxStreamBuf sure < piece.length + terminator.length := by
    constructor
    · rintro ⟨piece', rest', hcut', hlong⟩
      rw [hcut] at hcut'
      cases hcut'
      exact hlong
    · exact fun hlong => ⟨piece, rest, hcut, hlong⟩
  rw [hiff, Fits, expect, hmore]
  dsimp only
  by_cases hwhole : piece.length + terminator.length ≤ max maxStreamBuf sure
  · rw [if_pos hwhole]
    simp only [reduceCtorEq, false_implies, and_true, true_iff]
    omega
  · simp only [if_neg hwhole, reduceCtorEq, false_and, false_iff, not_not]
    omega

private theorem not_completes {terminator buf : Bytes} {o : Bytes × Bytes} (hcut : cut terminator buf = some o)
    (chunks : List Bytes) : ¬ Completes terminator chunks buf := by
  rintro ⟨early, _, _, _, _, hearly, _⟩
  obtain ⟨piece, rest⟩ := o
  rw [cut_append hcut] at hearly
  cases hearly

private theorem not_overlong {terminator buf : Bytes} (hcut : cut terminator buf = none) (sure : Nat) :
    ¬ Overlong terminator buf sure := by
  rintro ⟨piece, rest, hsome, -⟩
  rw [hcut] at hsome
  cases hsome

/-- A section that ends behind what was received is too long for any reads. -/
private theorem expect_overflow {terminator buf : Bytes} {sure : Nat} (hnone : cut terminator buf = none)
    (hfull : maxStreamBuf < buf.length) (hsure : sure ≤ buf.length) (more : Bytes) :
    (expect terminator (buf ++ more) sure).1 = .overflow := by
  cases hstream : cut terminator (buf ++ more) with
  | none => rw [expect_of_none hstream (by rw [List.length_append]; omega)]
  | some o =>
    obtain ⟨piece, rest⟩ := o
    have hlong : buf.length < piece.length + terminator.length := by
      by_contra hwithin
      exact cut_of_within hstream (Nat.le_of_not_lt hwithin) hnone
    rw [expect, hstream]
    dsimp only
    rw [if_neg (by omega)]

/-- A call fits exactly when it meets neither of the two. -/
private theorem call_fits (terminator : Bytes) (chunks : List Bytes) {buf : Bytes} {sure : Nat}
    (hsure : sure ≤ buf.length) :
    Fits terminator (buf ++ chunks.flatten) sure (call terminator chunks buf) ↔
      ¬ Completes terminator chunks buf ∧ ¬ Overlong terminator buf sure := by
  induction chunks generalizing buf with
  | nil =>
    rw [call]
    cases hcut : cut terminator buf with
    | some o => rw [fits_found hcut, and_iff_right (not_completes hcut [])]
    | none =>
      have hcomplete : ¬ Completes terminator [] buf := by
        rintro ⟨early, read, later, hchunks, -⟩
        simp at hchunks
      dsimp only
      rw [List.flatten_nil, List.append_nil]
      by_cases hfull : maxStreamBuf < buf.length
      · rw [if_pos hfull]
        simp [Fits, expect_of_none hcut hfull, hcut, hcomplete, not_overlong hcut]
      · rw [if_neg hfull]
        simp [Fits, expect, hcut, hfull, hcomplete, not_overlong hcut]
  | cons chunk chunks ih =>
    rw [call]
    have hsure' : sure ≤ (buf ++ chunk).length := by
      rw [List.length_append]
      omega
    cases hcut : cut terminator buf with
    | some o => rw [fits_found hcut, and_iff_right (not_completes hcut (chunk :: chunks))]
    | none =>
      dsimp only
      rw [and_iff_left (not_overlong hcut sure), List.flatten_cons, ← List.append_assoc]
      by_cases hfull : maxStreamBuf < (buf ++ chunk).length
      · rw [if_pos hfull, completes_full hcut hfull, not_not]
        constructor
        · exact fun h => h.2 rfl
        · intro hnone
          exact ⟨(expect_overflow hnone hfull hsure' _).symm, fun _ => hnone⟩
      · rw [if_neg hfull, completes_cons (Nat.le_of_not_lt hfull)]
        have hsmall : ¬ Overlong terminator (buf ++ chunk) sure := by
          rintro ⟨piece, rest, hsome, hlong⟩
          have hlen := cut_length hsome
          omega
        exact (ih hsure').trans (and_iff_left hsmall)

/-- What a call has received when it ends, and what it leaves. -/
private theorem call_received (terminator : Bytes) (chunks : List Bytes) (buf : Bytes) :
    ∃ got later, got ++ later.flatten = buf ++ chunks.flatten ∧ buf.length ≤ got.length ∧
      ((∃ piece rest, call terminator chunks buf = (.piece piece, rest, later) ∧ cut terminator got = some (piece, rest)) ∨
        (call terminator chunks buf = (.overflow, got, later) ∧ maxStreamBuf < got.length) ∨
        call terminator chunks buf = (.waits, got, later)) := by
  induction chunks generalizing buf with
  | nil =>
    rw [call]
    refine ⟨buf, [], rfl, Nat.le_refl _, ?_⟩
    cases hcut : cut terminator buf with
    | some o => exact .inl ⟨o.1, o.2, rfl, rfl⟩
    | none =>
      dsimp only
      by_cases hfull : maxStreamBuf < buf.length
      · exact .inr (.inl ⟨if_pos hfull, hfull⟩)
      · exact .inr (.inr (if_neg hfull))
  | cons chunk chunks ih =>
    rw [call]
    cases hcut : cut terminator buf with
    | some o => exact ⟨buf, chunk :: chunks, rfl, Nat.le_refl _, .inl ⟨o.1, o.2, rfl, hcut⟩⟩
    | none =>
      dsimp only
      by_cases hfull : maxStreamBuf < (buf ++ chunk).length
      · rw [if_pos hfull]
        exact ⟨buf ++ chunk, chunks, by simp, by simp, .inr (.inl ⟨rfl, hfull⟩)⟩
      · rw [if_neg hfull]
        obtain ⟨got, later, hstream, hlen, hend⟩ := ih (buf ++ chunk)
        refine ⟨got, later, by simpa using hstream, ?_, hend⟩
        rw [List.length_append] at hlen
        omega

/-- A call that fits leaves what the stream holds behind the outcome, with all that is surely received of it. -/
private theorem call_leaves {terminator : Bytes} {chunks : List Bytes} {buf : Bytes} {sure : Nat}
    (hsure : sure ≤ buf.length)
    (hfits : Fits terminator (buf ++ chunks.flatten) sure (call terminator chunks buf)) :
    (call terminator chunks buf).2.1 ++ (call terminator chunks buf).2.2.flatten =
        (expect terminator (buf ++ chunks.flatten) sure).2.1 ∧
      (expect terminator (buf ++ chunks.flatten) sure).2.2 ≤ (call terminator chunks buf).2.1.length := by
  obtain ⟨got, later, hstream, hlen, hend⟩ := call_received terminator chunks buf
  rw [← hstream] at hfits ⊢
  obtain ⟨piece, rest, hcall, hcut⟩ | ⟨hcall, hfull⟩ | hcall := hend
  · rw [hcall] at hfits
    have hhead : Outcome.piece piece = (expect terminator (got ++ later.flatten) sure).1 := hfits.1
    obtain ⟨piece', rest', hcut', hnext⟩ | hnext | hnext := expect_cases terminator (got ++ later.flatten) sure
    · rw [cut_append hcut later.flatten] at hcut'
      cases hcut'
      have hlength := cut_length hcut
      rw [hcall, hnext]
      exact ⟨rfl, by dsimp only; omega⟩
    · rw [hnext] at hhead
      cases hhead
    · rw [hnext] at hhead
      cases hhead
  · rw [hcall] at hfits
    have hhead : Outcome.overflow = (expect terminator (got ++ later.flatten) sure).1 := hfits.1
    obtain ⟨piece', rest', -, hnext⟩ | hnext | hnext := expect_cases terminator (got ++ later.flatten) sure
    · rw [hnext] at hhead
      cases hhead
    · rw [hcall, hnext]
      exact ⟨rfl, by dsimp only; omega⟩
    · rw [hnext] at hhead
      cases hhead
  · rw [hcall] at hfits
    have hhead : Outcome.waits = (expect terminator (got ++ later.flatten) sure).1 := hfits.1
    obtain ⟨piece', rest', -, hnext⟩ | hnext | hnext := expect_cases terminator (got ++ later.flatten) sure
    · rw [hnext] at hhead
      cases hhead
    · rw [hnext] at hhead
      cases hhead
    · rw [hcall, hnext]
      exact ⟨rfl, by dsimp only; omega⟩

/-- The outcomes of any calls are those that the stream determines, and no raise hides a terminator, exactly when the
calls are calm. -/
private theorem calls_iff (terminators : List Bytes) (chunks : List Bytes) {buf : Bytes} {sure : Nat}
    (hsure : sure ≤ buf.length) :
    (calls terminators chunks buf = expected terminators (buf ++ chunks.flatten) sure ∧ Honest terminators chunks buf) ↔
      Calm terminators chunks buf sure := by
  induction terminators generalizing chunks buf sure with
  | nil => simp [calls, expected, Honest, Calm]
  | cons terminator later ih =>
    have hfits := call_fits terminator chunks hsure
    have hleaves := @call_leaves terminator chunks _ _ hsure
    rw [calls, expected, Honest, Calm, ← and_assoc, ← hfits]
    generalize call terminator chunks buf = after at hleaves ⊢
    obtain ⟨outcome, buf', chunks'⟩ := after
    unfold Fits at hleaves ⊢
    generalize expect terminator (buf ++ chunks.flatten) sure = next at hleaves ⊢
    obtain ⟨outcome', stream, sure'⟩ := next
    dsimp only at hleaves ⊢
    -- where the first outcome is right, the rest of the calls is on the rest of the stream
    have hrest : outcome = outcome' → (outcome = .overflow → cut terminator buf' = none) →
        ((calls later chunks' buf' = expected later stream sure' ∧ Honest later chunks' buf') ↔
          Calm later chunks' buf' sure') := by
      intro hout hnone
      obtain ⟨hstream, hsure'⟩ := hleaves ⟨hout, hnone⟩
      rw [← hstream]
      exact ih chunks' hsure'
    cases outcome with
    | waits => cases outcome' <;> simp
    | piece bytes =>
      cases outcome' with
      | piece bytes' =>
        simp only [List.cons.injEq, reduceCtorEq, false_implies, and_true, and_assoc]
        exact and_congr_right fun hout => hrest hout (by simp)
      | overflow => simp
      | waits => simp
    | overflow =>
      cases outcome' with
      | piece bytes' => simp
      | overflow =>
        simp only [List.cons.injEq, true_and, forall_const]
        rw [and_left_comm]
        exact and_congr_right fun hnone => hrest rfl fun _ => hnone
      | waits => simp

/-- Any calls on any reads of a stream: each returns its section and raises only without its terminator, with outcomes
that the stream determines, exactly when they are calm; so two runs over the same stream agree where both are. -/
theorem sections_iff (terminators chunks : List Bytes) :
    ((calls terminators chunks [] = expected terminators chunks.flatten 0 ∧ Honest terminators chunks []) ↔
      Calm terminators chunks [] 0) ∧
    ∀ chunks' : List Bytes, chunks'.flatten = chunks.flatten → Calm terminators chunks [] 0 →
      Calm terminators chunks' [] 0 → calls terminators chunks' [] = calls terminators chunks [] := by
  have hiff : ∀ chunks : List Bytes,
      (calls terminators chunks [] = expected terminators chunks.flatten 0 ∧ Honest terminators chunks []) ↔
        Calm terminators chunks [] 0 := fun chunks => calls_iff terminators chunks (Nat.zero_le _)
  refine ⟨hiff chunks, fun chunks' hflat hcalm hcalm' => ?_⟩
  rw [((hiff chunks).2 hcalm).1, ((hiff chunks').2 hcalm').1, hflat]

/-! ### A terminator in the read that reaches the cap -/

private theorem call_fill {terminator x : UInt8} (hx : terminator ≠ x) (n filled width : Nat)
    (hroom : filled + n * width ≤ maxStreamBuf) (later : List Bytes) :
    call [terminator] (List.replicate n (List.replicate width x) ++ later) (List.replicate filled x) =
      call [terminator] later (List.replicate (filled + n * width) x) := by
  induction n generalizing filled with
  | zero => simp
  | succ n ih =>
    have hnone : cut [terminator] (List.replicate filled x) = none :=
      Stream.cut_eq_none fun hmem => hx (List.eq_of_mem_replicate hmem)
    rw [Nat.succ_mul] at hroom ⊢
    rw [List.replicate_succ, List.cons_append, call, hnone]
    dsimp only
    rw [List.replicate_append_replicate, List.length_replicate, if_neg (by omega), ih (filled + width) (by omega),
      Nat.add_assoc, Nat.add_comm width]

/-- 262143 bytes without a Ctrl-D, in reads of 256 bytes and one of 255. -/
def filler : List Bytes := List.replicate 1023 (List.replicate 256 0x78) ++ List.replicate 1 (List.replicate 255 0x78)

private theorem call_filler (later : List Bytes) :
    call [ctrlD] (filler ++ later) [] = call [ctrlD] later (List.replicate 262143 0x78) := by
  have hx : ctrlD ≠ 0x78 := by decide
  have hmost := call_fill hx 1023 0 256 (by decide) (List.replicate 1 (List.replicate 255 0x78) ++ later)
  have hlast := call_fill hx 1 (0 + 1023 * 256) 255 (by decide) later
  rw [filler, List.append_assoc]
  exact hmost.trans hlast

/-- The read that brings the Ctrl-D brings one byte more than the cap: the call raises.  In two reads it returns. -/
theorem terminator_at_cap :
    calls [[ctrlD]] (filler ++ [[ctrlD, 0x78]]) [] = [.overflow] ∧
      ¬ Honest [[ctrlD]] (filler ++ [[ctrlD, 0x78]]) [] ∧
      calls [[ctrlD]] (filler ++ [[ctrlD], [0x78]]) [] = [.piece (List.replicate 262143 0x78)] ∧
      (filler ++ [[ctrlD, 0x78]]).flatten = (filler ++ [[ctrlD], [0x78]]).flatten := by
  have hmem : ctrlD ∉ List.replicate 262143 (0x78 : UInt8) := fun hmem =>
    absurd (List.eq_of_mem_replicate hmem) (by decide)
  have hnone := Stream.cut_eq_none hmem
  have hover : call [ctrlD] (filler ++ [[ctrlD, 0x78]]) [] =
      (.overflow, List.replicate 262143 0x78 ++ [ctrlD, 0x78], []) := by
    rw [call_filler, call, hnone]
    dsimp only
    rw [if_pos (by rw [List.length_append, List.length_replicate]; decide)]
  have hfound : call [ctrlD] (filler ++ [[ctrlD], [0x78]]) [] =
      (.piece (List.replicate 262143 0x78), [], [[0x78]]) := by
    rw [call_filler, call, hnone]
    dsimp only
    rw [if_neg (by rw [List.length_append, List.length_replicate]; decide), call, Stream.cut_singleton hmem]
  refine ⟨?_, ?_, ?_, ?_⟩
  · rw [calls, hover]
    rfl
  · rw [Honest, hover]
    rintro ⟨hcut, -⟩
    rw [Stream.cut_singleton hmem] at hcut
    cases hcut
  · rw [calls, hfound]
    rfl
  · simp only [List.flatten_append, List.flatten_cons, List.flatten_nil, List.append_nil, List.cons_append, List.nil_append]

end IronHarness.Board.Fallible
