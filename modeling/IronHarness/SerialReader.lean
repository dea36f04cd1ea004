import IronHarness.Lib.Bytes
import IronHarness.Lib.LossyFifo
import Mathlib.Algebra.BigOperators.Group.List.Basic
import Mathlib.Algebra.Order.Ring.Nat

/-!
# The background serial reader

`SerialReader`: a deque of ingested chunks with a byte offset into the first one.  The background thread appends
chunks and evicts whole oldest chunks above the bound, `read_until` consumes up to the end of a match.  Every
locked section is one `Step`.  A reader implements a lossy queue of bytes (`Implements`): consumption delivers a
piece, eviction loses what was left of the oldest chunks.
-/

namespace IronHarness

open ByteText LossyFifo

/-- The fields of `SerialReader` that its locked sections use; `thread` is `_thread` with `is_alive()`. -/
structure SerialReader where
  maxBytes : Nat
  chunk : Nat
  chunks : List Bytes := []
  bytes : Int := 0
  dropped : Nat := 0
  consumed : Nat := 0
  stopSet : Bool := false
  thread : Option Bool := none
  error : Option String := none
  deriving DecidableEq, Repr

namespace SerialReader

/-- `__init__`; an error is the text of the ValueError. -/
def new (maxBytes chunk : Int) : Except String SerialReader :=
  if maxBytes ≤ 0 then .error s!"max_bytes must be > 0, got {maxBytes}"
  else if chunk ≤ 0 then .error s!"chunk must be > 0, got {chunk}"
  else if maxBytes < chunk then .error s!"max_bytes ({maxBytes}) must be >= chunk ({chunk})"
  else .ok { maxBytes := maxBytes.toNat, chunk := chunk.toNat }

def running (r : SerialReader) : Bool := r.thread = some true

/-! ### The locked sections -/

/-- The loop of `_evict_locked` over the deque, with `_bytes`, `_dropped` and `_consumed`. -/
def evictLoop (maxBytes : Nat) : List Bytes → Int → Nat → Nat → List Bytes × Int × Nat × Nat
  | [], bytes, dropped, consumed => ([], bytes, dropped, consumed)
  | oldest :: rest, bytes, dropped, consumed =>
    if bytes > maxBytes then
      -- `max(0, live)` is the truncated subtraction
      evictLoop maxBytes rest (bytes - oldest.length) (dropped + (oldest.length - consumed)) 0
    else (oldest :: rest, bytes, dropped, consumed)

def evictLocked (r : SerialReader) : SerialReader :=
  let (chunks, bytes, dropped, consumed) := evictLoop r.maxBytes r.chunks r.bytes r.dropped r.consumed
  { r with chunks, bytes, dropped, consumed }

/-- The locked section of `_run`; an empty read appends nothing. -/
def append (data : Bytes) (r : SerialReader) : SerialReader :=
  if data.isEmpty then r
  else evictLocked { r with chunks := r.chunks ++ [data], bytes := r.bytes + data.length }

/-- `_snapshot_locked`: the unconsumed content of the buffer. -/
def snapshot (r : SerialReader) : Bytes :=
  match r.chunks with
  | [] => []
  | first :: rest => first.drop r.consumed ++ rest.flatten

/-- The loop of `_consume_locked` over the deque, with `_bytes` and `_consumed`. -/
def consumeLoop : List Bytes → Int → Int → Nat → List Bytes × Int × Nat
  | [], _, bytes, consumed => ([], bytes, consumed)
  | first :: rest, take, bytes, consumed =>
    if take > 0 then
      let avail : Int := first.length - consumed
      if take < avail then (first :: rest, bytes, consumed + take.toNat)
      else consumeLoop rest (take - avail) (bytes - first.length) 0
    else (first :: rest, bytes, consumed)

def consumeLocked (nbytes : Nat) (r : SerialReader) : SerialReader :=
  let (chunks, bytes, consumed) := consumeLoop r.chunks nbytes r.bytes r.consumed
  { r with chunks, bytes, consumed }

/-- The dictionary returned by `read_until`. -/
structure Reply where
  found : Bool
  data : Bytes
  alive : Bool
  error : Option String
  deriving DecidableEq, Repr

def Reply.dataHex (reply : Reply) : List Char := hex reply.data

def Reply.text (reply : Reply) : List Char := decodeReplace reply.data

/-- One pass of the loop of `read_until` under the lock; `none`: the pattern is not in the buffer yet. -/
def readUntilLocked (needle : Bytes) (r : SerialReader) : Option Reply × SerialReader :=
  let buf := r.snapshot
  match find needle buf with
  | some pos =>
    let stop := pos + needle.length
    (some { found := true, data := buf.take stop, alive := r.running, error := none }, consumeLocked stop r)
  | none => (none, r)

/-- The dictionary returned by `tail`. -/
structure TailView where
  data : Bytes
  dropped : Nat
  alive : Bool
  error : Option String
  deriving DecidableEq, Repr

def TailView.dataHex (view : TailView) : List Char := hex view.data

def TailView.text (view : TailView) : List Char := decodeReplace view.data

/-- `tail(size)`; `buf[-size:]` is the whole buffer when `size` is 0 or larger than it. -/
def tail (size : Nat) (r : SerialReader) : TailView :=
  let buf := r.snapshot
  { data := if size = 0 then buf else buf.drop (buf.length - size)
    dropped := if r.chunks.isEmpty then r.dropped else r.dropped + r.consumed
    alive := r.running
    error := r.error }

structure Stats where
  buffered : Int
  dropped : Nat
  chunks : Nat
  deriving DecidableEq, Repr

def stats (r : SerialReader) : Stats :=
  { buffered := r.bytes - (if r.chunks.isEmpty then 0 else r.consumed)
    dropped := r.dropped
    chunks := r.chunks.length }

/-! ### Runs of locked sections -/

/-- A locked section of the reader.  `readUntil` is one pass of the loop for a pattern; the empty pattern is
refused before the lock is taken. -/
inductive Step
  | append (data : Bytes)
  | readUntil (pattern : String)
  | tail (size : Nat)
  | stats
  deriving DecidableEq, Repr

/-- A reader with what it has been given and what it has handed out. -/
structure World where
  reader : SerialReader
  ingested : Bytes := []
  returned : List Bytes := []

def World.step (w : World) : Step → World
  | .append data => { w with reader := w.reader.append data, ingested := w.ingested ++ data }
  | .readUntil pattern =>
    if pattern.isEmpty then w
    else
      match w.reader.readUntilLocked (encode pattern.toList) with
      | (some reply, reader) => { w with reader, returned := w.returned ++ [reply.data] }
      | (none, reader) => { w with reader }
  | .tail _ => w
  | .stats => w

/-! ### The representation invariant -/

/-- No chunk is empty and `_consumed` lies inside the first chunk; it is 0 when there is none. -/
structure Offset (chunks : List Bytes) (consumed : Nat) : Prop where
  nonempty : ∀ c ∈ chunks, c ≠ []
  lt_head : ∀ c ∈ chunks.head?, consumed < c.length
  of_nil : chunks = [] → consumed = 0

/-- `_bytes` is the sum of the chunk lengths and at most `max_bytes`. -/
structure WellFormed (r : SerialReader) : Prop where
  offset : Offset r.chunks r.consumed
  bytes_eq : r.bytes = (r.chunks.map List.length).sum
  bytes_le : r.bytes ≤ r.maxBytes

theorem Offset.tail {c : Bytes} {cs : List Bytes} {k : Nat} (h : Offset (c :: cs) k) : Offset cs 0 where
  nonempty d hd := h.nonempty d (List.mem_cons_of_mem c hd)
  lt_head d hd := by
    have hmem : d ∈ cs := List.mem_of_mem_head? hd
    exact List.length_pos_iff.2 (h.nonempty d (List.mem_cons_of_mem c hmem))
  of_nil _ := rfl

private theorem Offset.snoc {cs : List Bytes} {k : Nat} (h : Offset cs k) {data : Bytes} (hd : data ≠ []) :
    Offset (cs ++ [data]) k where
  nonempty c hc := by
    rcases List.mem_append.1 hc with hc | hc
    · exact h.nonempty c hc
    · rw [List.mem_singleton.1 hc]; exact hd
  lt_head c hc := by
    cases cs with
    | nil =>
      obtain rfl : data = c := by simpa using hc
      rw [h.of_nil rfl]
      exact List.length_pos_iff.2 hd
    | cons first rest => exact h.lt_head c (by simpa using hc)
  of_nil hnil := by simp at hnil

private theorem snapshot_eq {r : SerialReader} (h : Offset r.chunks r.consumed) :
    r.snapshot = r.chunks.flatten.drop r.consumed := by
  unfold snapshot
  cases hc : r.chunks with
  | nil => simp
  | cons first rest =>
    have hlt : r.consumed < first.length := h.lt_head first (by simp [hc])
    rw [List.flatten_cons, List.drop_append_of_le_length (Nat.le_of_lt hlt)]

/-- The pending bytes of a deque split at the end of its first chunk. -/
private theorem pending_cons {c : Bytes} {cs : List Bytes} {k : Nat} (h : Offset (c :: cs) k) :
    (c :: cs).flatten.drop k = c.drop k ++ cs.flatten := by
  have hlt : k < c.length := h.lt_head c rfl
  rw [List.flatten_cons, List.drop_append_of_le_length (Nat.le_of_lt hlt)]

/-! ### Consumption -/

private theorem consumeLoop_spec (chunks : List Bytes) : ∀ (n : Nat) (bytes : Int) (consumed : Nat),
    Offset chunks consumed → n ≤ (chunks.flatten.drop consumed).length →
    bytes = (chunks.map List.length).sum →
    let (chunks', bytes', consumed') := consumeLoop chunks n bytes consumed
    Offset chunks' consumed' ∧ bytes' = (chunks'.map List.length).sum ∧ bytes' ≤ bytes ∧
      chunks'.flatten.drop consumed' = (chunks.flatten.drop consumed).drop n := by
  induction chunks with
  | nil =>
    intro n bytes consumed h _ hb
    exact ⟨h, hb, Int.le_refl _, by simp⟩
  | cons first rest ih =>
    intro n bytes consumed h hn hb
    have hlt : consumed < first.length := h.lt_head first rfl
    rw [pending_cons h] at hn ⊢
    rw [List.length_append, List.length_drop] at hn
    unfold consumeLoop
    by_cases hpos : (n : Int) > 0
    · rw [if_pos hpos]
      by_cases havail : (n : Int) < first.length - consumed
      · -- the match ends inside the first chunk
        have hoff : Offset (first :: rest) (consumed + n) :=
          ⟨h.nonempty, fun c hc => by obtain rfl : first = c := by simpa using hc
                                      omega, fun hnil => by cases hnil⟩
        simp only [havail, ↓reduceIte, Int.toNat_natCast]
        refine ⟨hoff, hb, Int.le_refl _, ?_⟩
        rw [pending_cons hoff, List.drop_append_of_le_length (by rw [List.length_drop]; omega), List.drop_drop]
      · -- the first chunk is used up
        have htake : (n : Int) - (first.length - consumed) = ((n - (first.length - consumed) : Nat) : Int) := by
          omega
        have hb' : bytes - first.length = (rest.map List.length).sum := by
          rw [hb, List.map_cons, List.sum_cons]; omega
        have key := ih (n - (first.length - consumed)) (bytes - first.length) 0 h.tail
          (by rw [List.drop_zero]; omega) hb'
        simp only [havail, ↓reduceIte]
        rw [htake]
        have hdrop : (first.drop consumed ++ rest.flatten).drop n =
            rest.flatten.drop (n - (first.length - consumed)) := by
          rw [List.drop_append, List.drop_eq_nil_of_le (by rw [List.length_drop]; omega), List.length_drop,
            List.nil_append]
        obtain ⟨h1, h2, h3, h4⟩ := key
        refine ⟨h1, h2, by omega, ?_⟩
        rw [h4, List.drop_zero, hdrop]
    · obtain rfl : n = 0 := by omega
      rw [if_neg hpos]
      exact ⟨h, hb, Int.le_refl _, by rw [pending_cons h, List.drop_zero]⟩

/-- `_consume_locked` drops the first `n` unconsumed bytes. -/
theorem consumeLocked_spec {r : SerialReader} (h : WellFormed r) {n : Nat} (hn : n ≤ r.snapshot.length) :
    WellFormed (consumeLocked n r) ∧ (consumeLocked n r).snapshot = r.snapshot.drop n := by
  rw [snapshot_eq h.offset] at hn ⊢
  have key := consumeLoop_spec r.chunks n r.bytes r.consumed h.offset hn h.bytes_eq
  obtain ⟨h1, h2, h3, h4⟩ := key
  have hle := h.bytes_le
  refine ⟨⟨h1, h2, Int.le_trans h3 hle⟩, ?_⟩
  rw [snapshot_eq (r := consumeLocked n r) h1]
  exact h4

theorem consumeLocked_dropped (n : Nat) (r : SerialReader) : (consumeLocked n r).dropped = r.dropped := rfl

/-! ### Eviction -/

private theorem evictLoop_spec (maxBytes : Nat) (chunks : List Bytes) :
    ∀ (bytes : Int) (dropped consumed : Nat), Offset chunks consumed →
    bytes = (chunks.map List.length).sum →
    let (chunks', bytes', dropped', consumed') := evictLoop maxBytes chunks bytes dropped consumed
    Offset chunks' consumed' ∧ bytes' = (chunks'.map List.length).sum ∧ bytes' ≤ maxBytes ∧
      ∃ n, n ≤ (chunks.flatten.drop consumed).length ∧ dropped' = dropped + n ∧
        chunks'.flatten.drop consumed' = (chunks.flatten.drop consumed).drop n := by
  induction chunks with
  | nil =>
    intro bytes dropped consumed h hb
    refine ⟨h, hb, ?_, 0, Nat.zero_le _, rfl, rfl⟩
    rw [hb]
    exact Int.natCast_nonneg _
  | cons oldest rest ih =>
    intro bytes dropped consumed h hb
    have hlt : consumed < oldest.length := h.lt_head oldest rfl
    unfold evictLoop
    by_cases hover : bytes > maxBytes
    · have hb' : bytes - oldest.length = (rest.map List.length).sum := by
        rw [hb, List.map_cons, List.sum_cons]; omega
      obtain ⟨h1, h2, h3, n, hn, hd, hp⟩ :=
        ih (bytes - oldest.length) (dropped + (oldest.length - consumed)) 0 h.tail hb'
      rw [if_pos hover]
      rw [List.drop_zero] at hn hp
      -- the rest of the oldest chunk is lost first
      refine ⟨h1, h2, h3, oldest.length - consumed + n, ?_, by omega, ?_⟩
      · rw [pending_cons h, List.length_append, List.length_drop]; omega
      · rw [hp, pending_cons h, ← List.drop_drop, List.drop_left' (by rw [List.length_drop])]
    · rw [if_neg hover]
      exact ⟨h, hb, by omega, 0, Nat.zero_le _, rfl, rfl⟩

/-- The locked section of the background thread appends the chunk and loses some of the oldest pending bytes. -/
theorem append_spec {r : SerialReader} (h : WellFormed r) (data : Bytes) :
    WellFormed (r.append data) ∧ ∃ n, n ≤ (r.snapshot ++ data).length ∧
      (r.append data).snapshot = (r.snapshot ++ data).drop n ∧ (r.append data).dropped = r.dropped + n := by
  unfold append
  by_cases hempty : data.isEmpty
  · rw [if_pos hempty, List.isEmpty_iff.1 hempty, List.append_nil]
    exact ⟨h, 0, Nat.zero_le _, rfl, rfl⟩
  · rw [if_neg hempty, snapshot_eq h.offset]
    have hdata : data ≠ [] := fun he => hempty (List.isEmpty_iff.2 he)
    have hoff := h.offset.snoc hdata
    have hb : r.bytes + data.length = ((r.chunks ++ [data]).map List.length).sum := by
      rw [h.bytes_eq]; simp
    have hpending : (r.chunks ++ [data]).flatten.drop r.consumed = r.chunks.flatten.drop r.consumed ++ data := by
      have hle : r.consumed ≤ r.chunks.flatten.length := by
        cases hc : r.chunks with
        | nil => rw [h.offset.of_nil hc]; exact Nat.zero_le _
        | cons first rest =>
          have hlt : r.consumed < first.length := h.offset.lt_head first (by simp [hc])
          rw [List.flatten_cons, List.length_append]; omega
      rw [List.flatten_append, List.drop_append_of_le_length hle, List.flatten_singleton]
    obtain ⟨h1, h2, h3, n, hn, hd, hp⟩ :=
      evictLoop_spec r.maxBytes (r.chunks ++ [data]) (r.bytes + data.length) r.dropped r.consumed hoff hb
    rw [hpending] at hn hp
    refine ⟨⟨h1, h2, h3⟩, n, hn, ?_, hd⟩
    rw [← hp]
    exact snapshot_eq (r := evictLocked { r with chunks := r.chunks ++ [data], bytes := r.bytes + data.length }) h1

/-! ### The reader implements a lossy queue -/

/-- The queue behind a reader: what has arrived, what was handed out and lost, and what is pending. -/
structure Implements (w : World) (f : Fifo UInt8) : Prop where
  wellFormed : WellFormed w.reader
  stream_eq : stream f = w.ingested
  delivered_eq : delivered f = w.returned
  lost_eq : lostCount f = w.reader.dropped
  pending_eq : f.pending = w.reader.snapshot

private theorem implements_append {w : World} {f : Fifo UInt8} (h : Implements w f) (data : Bytes) :
    ∃ f', Implements (w.step (.append data)) f' := by
  obtain ⟨hwf, n, hn, hsnap, hdrop⟩ := append_spec h.wellFormed data
  rw [← h.pending_eq] at hn hsnap
  refine ⟨lose n (arrive data f), hwf, ?_, ?_, ?_, ?_⟩
  · rw [stream_lose, stream_arrive, h.stream_eq]; rfl
  · rw [delivered_lose, delivered_arrive, h.delivered_eq]; rfl
  · rw [lostCount_lose hn, lostCount_arrive, h.lost_eq]; exact hdrop.symm
  · rw [pending_lose, pending_arrive]; exact hsnap.symm

private theorem implements_readUntil {w : World} {f : Fifo UInt8} (h : Implements w f) (pattern : String) :
    ∃ f', Implements (w.step (.readUntil pattern)) f' := by
  simp only [World.step, readUntilLocked]
  split
  · exact ⟨f, h⟩
  cases hfind : find (encode pattern.toList) w.reader.snapshot with
  | none => exact ⟨f, h⟩
  | some pos =>
    obtain ⟨-, hle⟩ := find_eq_some hfind
    obtain ⟨hwf, hsnap⟩ := consumeLocked_spec h.wellFormed hle
    refine ⟨deliver (pos + (encode pattern.toList).length) f, hwf, ?_, ?_, ?_, ?_⟩
    · rw [stream_deliver, h.stream_eq]
    · rw [delivered_deliver, h.delivered_eq, h.pending_eq]
    · rw [lostCount_deliver, h.lost_eq]; rfl
    · rw [pending_deliver, h.pending_eq]; exact hsnap.symm

/-- Every locked section is an operation of the queue. -/
theorem implements_step {w : World} {f : Fifo UInt8} (h : Implements w f) (st : Step) :
    ∃ f', Implements (w.step st) f' := by
  cases st with
  | append data => exact implements_append h data
  | readUntil pattern => exact implements_readUntil h pattern
  | tail size => exact ⟨f, h⟩
  | stats => exact ⟨f, h⟩

private theorem implements_run {w : World} {f : Fifo UInt8} (h : Implements w f) (steps : List Step) :
    ∃ f', Implements (steps.foldl World.step w) f' := by
  induction steps generalizing w f with
  | nil => exact ⟨f, h⟩
  | cons st steps ih =>
    obtain ⟨f', h'⟩ := implements_step h st
    exact ih h'

theorem implements_fresh (maxBytes chunk : Nat) :
    Implements { reader := { maxBytes, chunk } } (LossyFifo.empty : Fifo UInt8) where
  wellFormed := ⟨⟨by simp, by simp, fun _ => rfl⟩, rfl, Int.natCast_nonneg _⟩
  stream_eq := rfl
  delivered_eq := rfl
  lost_eq := rfl
  pending_eq := rfl

private theorem maxBytes_step (w : World) (st : Step) : (w.step st).reader.maxBytes = w.reader.maxBytes := by
  cases st with
  | append data =>
    simp only [World.step, append]
    split <;> rfl
  | readUntil pattern =>
    simp only [World.step, readUntilLocked]
    split
    · rfl
    · cases find (encode pattern.toList) w.reader.snapshot <;> rfl
  | tail size => rfl
  | stats => rfl

private theorem maxBytes_run (steps : List Step) :
    ∀ w : World, (steps.foldl World.step w).reader.maxBytes = w.reader.maxBytes := by
  induction steps with
  | nil => intro w; rfl
  | cons st steps ih => intro w; exact (ih (w.step st)).trans (maxBytes_step w st)

/-- The reader conserves bytes.  After any locked sections in any order, what was ingested is the stream of a lossy
queue: the pieces it delivered are the pieces returned by `read_until`, in order, what it lost is counted by
`_dropped`, and what is pending is the unconsumed buffer.  The counters describe the buffer in every such state. -/
theorem reader_conserves_bytes (maxBytes chunk : Nat) (steps : List Step) :
    let w := steps.foldl World.step { reader := { maxBytes, chunk } }
    (∃ f : Fifo UInt8, stream f = w.ingested ∧ delivered f = w.returned ∧ lostCount f = w.reader.dropped ∧
      f.pending = w.reader.snapshot) ∧
    w.ingested.length = w.returned.flatten.length + w.reader.dropped + w.reader.snapshot.length ∧
    w.reader.bytes = (w.reader.chunks.map List.length).sum ∧
    w.reader.bytes ≤ maxBytes ∧
    (∀ first ∈ w.reader.chunks.head?, w.reader.consumed < first.length) ∧
    (w.reader.chunks = [] → w.reader.consumed = 0) := by
  intro w
  obtain ⟨f, h⟩ := implements_run (implements_fresh maxBytes chunk) steps
  have hmax : w.reader.maxBytes = maxBytes := maxBytes_run steps _
  have hlen := length_stream f
  rw [h.stream_eq, h.delivered_eq, h.lost_eq, h.pending_eq] at hlen
  have hle := h.wellFormed.bytes_le
  rw [hmax] at hle
  exact ⟨⟨f, h.stream_eq, h.delivered_eq, h.lost_eq, h.pending_eq⟩, hlen, h.wellFormed.bytes_eq, hle,
    h.wellFormed.offset.lt_head, h.wellFormed.offset.of_nil⟩

end SerialReader

end IronHarness
