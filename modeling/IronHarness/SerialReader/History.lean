import IronHarness.SerialReader

/-!
# What `tail` says of the missing history

`tail` reports `_dropped` and the offset into the first chunk.  The bytes that `read_until` has taken are counted as
long as they lie in front of that offset: a chunk that leaves the deque takes its consumed bytes out of the count.
So the report is exact as long as every chunk that bytes were taken from is still there (`tailExact_iff`).
-/

namespace IronHarness.SerialReader

open ByteText LossyFifo

/-! ### The offset -/

/-- Consumption moves the offset by no more than it takes. -/
private theorem consumeLoop_consumed_le (chunks : List Bytes) (n : Nat) (bytes : Int) (consumed : Nat)
    (h : Offset chunks consumed) : (consumeLoop chunks n bytes consumed).2.2 ≤ consumed + n := by
  induction chunks generalizing n bytes consumed with
  | nil => simp [consumeLoop]
  | cons first rest ih =>
    have hlt : consumed < first.length := h.lt_head first rfl
    have hrest : Offset rest 0 := h.tail
    unfold consumeLoop
    by_cases hpos : (n : Int) > 0
    · rw [if_pos hpos]
      by_cases havail : (n : Int) < first.length - consumed
      · simp [havail]
      · have htake : (n : Int) - (first.length - consumed) = ((n - (first.length - consumed) : Nat) : Int) := by
          omega
        have hle := ih (n - (first.length - consumed)) (bytes - first.length) 0 hrest
        simp only [havail, ↓reduceIte, htake]
        omega
    · rw [if_neg hpos]
      exact Nat.le_add_right _ _

/-- Where the match ends inside the first chunk, the offset counts it. -/
private theorem consumed_consumeLocked_of_lt {r : SerialReader} {n : Nat} {first : Bytes} {rest : List Bytes}
    (hchunks : r.chunks = first :: rest) (hlt : r.consumed + n < first.length) :
    (consumeLocked n r).consumed = r.consumed + n := by
  unfold consumeLocked
  rw [hchunks]
  unfold consumeLoop
  by_cases hpos : (n : Int) > 0
  · have hn : 0 < n := by omega
    have havail : (n : Int) < first.length - r.consumed := by omega
    simp [hn, havail]
  · obtain rfl : n = 0 := by omega
    simp

/-- Where it does not, the consumed part of the first chunk is out of the count. -/
private theorem consumed_consumeLocked_of_le {r : SerialReader} {n : Nat} {first : Bytes} {rest : List Bytes}
    (h : Offset r.chunks r.consumed) (hchunks : r.chunks = first :: rest) (hle : first.length ≤ r.consumed + n) :
    (consumeLocked n r).consumed < r.consumed + n := by
  rw [hchunks] at h
  have hlt : r.consumed < first.length := h.lt_head first rfl
  have hrest : Offset rest 0 := h.tail
  have hpos : (n : Int) > 0 := by omega
  have havail : ¬ (n : Int) < first.length - r.consumed := by omega
  have htake : (n : Int) - (first.length - r.consumed) = ((n - (first.length - r.consumed) : Nat) : Int) := by omega
  have hbound := consumeLoop_consumed_le rest (n - (first.length - r.consumed)) (r.bytes - first.length) 0 hrest
  unfold consumeLocked
  rw [hchunks]
  unfold consumeLoop
  simp only [hpos, havail, ↓reduceIte, htake]
  exact Nat.lt_of_le_of_lt hbound (by omega)

/-- An eviction sets the offset back. -/
private theorem evictLoop_consumed (maxBytes : Nat) (chunks : List Bytes) (bytes : Int) (dropped : Nat) :
    (evictLoop maxBytes chunks bytes dropped 0).2.2.2 = 0 := by
  induction chunks generalizing bytes dropped with
  | nil => rfl
  | cons oldest rest ih =>
    unfold evictLoop
    split
    · exact ih _ _
    · rfl

private theorem consumed_append {r : SerialReader} (data : Bytes) :
    (r.append data).consumed =
      if data = [] ∨ r.bytes + data.length ≤ r.maxBytes then r.consumed else 0 := by
  unfold append
  by_cases hempty : data = []
  · simp [hempty]
  · rw [if_neg (by simpa using hempty)]
    unfold evictLocked
    cases hchunks : r.chunks ++ [data] with
    | nil => simp at hchunks
    | cons oldest rest =>
      by_cases hfits : r.bytes + data.length ≤ r.maxBytes
      · have hover : ¬ r.bytes + data.length > r.maxBytes := by omega
        simp [evictLoop, hover, hfits]
      · have hover : r.bytes + data.length > r.maxBytes := by omega
        simp [evictLoop, hover, hfits, hempty, evictLoop_consumed]

/-! ### Runs -/

/-- The step takes no chunk away that bytes were consumed of: the bound is not passed, or nothing is consumed of the
first chunk; and a match ends inside the first chunk. -/
def Keeps (r : SerialReader) : Step → Prop
  | .append data => data = [] ∨ r.consumed = 0 ∨ r.bytes + data.length ≤ r.maxBytes
  | .readUntil pattern =>
    pattern.isEmpty = true ∨ ∀ pos, find (encode pattern.toList) r.snapshot = some pos →
      ∀ first ∈ r.chunks.head?, r.consumed + (pos + (encode pattern.toList).length) < first.length
  | .tail _ => True
  | .stats => True

def KeepsAll (w : World) : List Step → Prop
  | [] => True
  | st :: steps => Keeps w.reader st ∧ KeepsAll (w.step st) steps

/-- What `tail` reports and what is in the buffer are all that has arrived. -/
def TailExact (w : World) : Prop := ∀ size, (w.reader.tail size).dropped + w.reader.snapshot.length = w.ingested.length

/-- A reader in a run: the account of all bytes, and the offset counts none that `read_until` has not taken. -/
structure Accounted (w : World) : Prop where
  wellFormed : WellFormed w.reader
  total : w.ingested.length = w.returned.flatten.length + w.reader.dropped + w.reader.snapshot.length
  taken : w.reader.consumed ≤ w.returned.flatten.length

private theorem dropped_tail {r : SerialReader} (h : WellFormed r) (size : Nat) :
    (r.tail size).dropped = r.dropped + r.consumed := by
  unfold tail
  cases hchunks : r.chunks with
  | nil => simp [h.offset.of_nil hchunks]
  | cons first rest => simp

private theorem tailExact_iff {w : World} (h : Accounted w) :
    TailExact w ↔ w.reader.consumed = w.returned.flatten.length := by
  have htotal := h.total
  unfold TailExact
  simp only [dropped_tail h.wellFormed, forall_const]
  omega

/-- The account goes on, and the offset falls behind at a step that does not keep what was consumed. -/
structure Follows (w : World) (st : Step) : Prop where
  accounted : Accounted (w.step st)
  exact_iff : (w.step st).reader.consumed = (w.step st).returned.flatten.length ↔
    w.reader.consumed = w.returned.flatten.length ∧ Keeps w.reader st
  grows : w.returned.flatten.length + w.reader.dropped ≤
    (w.step st).returned.flatten.length + (w.step st).reader.dropped

private theorem follows_append {w : World} (h : Accounted w) (data : Bytes) : Follows w (.append data) := by
  obtain ⟨hwf, n, hn, hsnap, hdrop⟩ := append_spec h.wellFormed data
  have hconsumed := consumed_append (r := w.reader) data
  have htotal := h.total
  have htaken := h.taken
  rw [List.length_append] at hn
  constructor
  · refine ⟨hwf, ?_, ?_⟩
    · show (w.ingested ++ data).length = w.returned.flatten.length + (w.reader.append data).dropped +
        (w.reader.append data).snapshot.length
      rw [hsnap, hdrop, List.length_drop, List.length_append, List.length_append]
      omega
    · show (w.reader.append data).consumed ≤ w.returned.flatten.length
      rw [hconsumed]
      split <;> omega
  · show (w.reader.append data).consumed = w.returned.flatten.length ↔
      w.reader.consumed = w.returned.flatten.length ∧ Keeps w.reader (.append data)
    rw [hconsumed]
    unfold Keeps
    by_cases hfits : data = [] ∨ w.reader.bytes + data.length ≤ w.reader.maxBytes
    · rw [if_pos hfits]
      tauto
    · rw [if_neg hfits]
      constructor
      · intro hzero
        have hconsumed' : w.reader.consumed = 0 := by omega
        exact ⟨by omega, Or.inr (Or.inl hconsumed')⟩
      · rintro ⟨hexact, hempty | hconsumed' | hbound⟩
        · exact absurd (Or.inl hempty) hfits
        · omega
        · exact absurd (Or.inr hbound) hfits
  · show w.returned.flatten.length + w.reader.dropped ≤ w.returned.flatten.length + (w.reader.append data).dropped
    omega

private theorem follows_readUntil {w : World} (h : Accounted w) (pattern : String) :
    Follows w (.readUntil pattern) := by
  have htaken := h.taken
  have htotal := h.total
  by_cases hpattern : pattern.isEmpty = true
  · have hstep : w.step (.readUntil pattern) = w := by simp [World.step, hpattern]
    exact ⟨hstep.symm ▸ h, by rw [hstep]; simp [Keeps, hpattern], by rw [hstep]⟩
  cases hfind : find (encode pattern.toList) w.reader.snapshot with
  | none =>
    have hstep : w.step (.readUntil pattern) = w := by simp [World.step, readUntilLocked, hpattern, hfind]
    exact ⟨hstep.symm ▸ h, by rw [hstep]; simp [Keeps, hfind], by rw [hstep]⟩
  | some pos =>
    obtain ⟨-, hle⟩ := find_eq_some hfind
    obtain ⟨hwf, hsnap⟩ := consumeLocked_spec h.wellFormed hle
    generalize hstop : pos + (encode pattern.toList).length = stop at hle hwf hsnap
    have hstep : w.step (.readUntil pattern) =
        { w with reader := consumeLocked stop w.reader, returned := w.returned ++ [w.reader.snapshot.take stop] } := by
      simp [World.step, readUntilLocked, hpattern, hfind, hstop]
    have hlength : (w.returned ++ [w.reader.snapshot.take stop]).flatten.length = w.returned.flatten.length + stop := by
      rw [List.flatten_append, List.flatten_singleton, List.length_append, List.length_take, Nat.min_eq_left hle]
    have hpos : 0 < stop := by
      have hneedle : encode pattern.toList ≠ [] := by
        rw [Ne, encode_eq_nil]
        simpa using hpattern
      have := List.length_pos_iff.2 hneedle
      omega
    obtain ⟨first, rest, hchunks⟩ : ∃ first rest, w.reader.chunks = first :: rest := by
      cases hchunks : w.reader.chunks with
      | nil =>
        simp [snapshot, hchunks] at hle
        omega
      | cons first rest => exact ⟨first, rest, rfl⟩
    have hkeeps : Keeps w.reader (.readUntil pattern) ↔ w.reader.consumed + stop < first.length := by
      simp [Keeps, hpattern, hfind, hchunks, hstop]
    have hconsumed : (consumeLocked stop w.reader).consumed ≤ w.reader.consumed + stop ∧
        ((consumeLocked stop w.reader).consumed = w.reader.consumed + stop ↔
          w.reader.consumed + stop < first.length) := by
      by_cases hlt : w.reader.consumed + stop < first.length
      · have heq := consumed_consumeLocked_of_lt hchunks hlt
        exact ⟨heq.le, by simp [heq, hlt]⟩
      · have hbehind := consumed_consumeLocked_of_le (n := stop) h.wellFormed.offset hchunks (by omega)
        exact ⟨hbehind.le, by omega⟩
    constructor
    · rw [hstep]
      refine ⟨hwf, ?_, ?_⟩
      · show w.ingested.length = _ + (consumeLocked stop w.reader).dropped + (consumeLocked stop w.reader).snapshot.length
        rw [hlength, hsnap, consumeLocked_dropped, List.length_drop]
        omega
      · show (consumeLocked stop w.reader).consumed ≤ _
        rw [hlength]
        omega
    · rw [hstep, hkeeps]
      show (consumeLocked stop w.reader).consumed = _ ↔ _
      rw [hlength]
      omega
    · rw [hstep]
      show _ ≤ _ + (consumeLocked stop w.reader).dropped
      rw [hlength, consumeLocked_dropped]
      omega

private theorem follows_step {w : World} (h : Accounted w) (st : Step) : Follows w st := by
  cases st with
  | append data => exact follows_append h data
  | readUntil pattern => exact follows_readUntil h pattern
  | tail size => exact ⟨h, by simp [World.step, Keeps], Nat.le_refl _⟩
  | stats => exact ⟨h, by simp [World.step, Keeps], Nat.le_refl _⟩

/-! ### Runs -/

private theorem tailExact_run {w : World} (h : Accounted w) (hexact : TailExact w) (steps : List Step) :
    (∀ n ≤ steps.length, TailExact ((steps.take n).foldl World.step w)) ↔ KeepsAll w steps := by
  induction steps generalizing w with
  | nil => simpa [KeepsAll] using hexact
  | cons st steps ih =>
    have hfollows := follows_step h st
    have hnext : TailExact (w.step st) ↔ Keeps w.reader st := by
      rw [tailExact_iff hfollows.accounted, hfollows.exact_iff, ← tailExact_iff h]
      exact ⟨fun hboth => hboth.2, fun hkeeps => ⟨hexact, hkeeps⟩⟩
    unfold KeepsAll
    constructor
    · intro hall
      have hone : TailExact (w.step st) := hall 1 (by simp)
      refine ⟨hnext.1 hone, (ih hfollows.accounted hone).1 fun n hn => ?_⟩
      exact hall (n + 1) (by simpa using hn)
    · rintro ⟨hkeeps, hrest⟩ n hn
      cases n with
      | zero => exact hexact
      | succ n => exact (ih hfollows.accounted (hnext.2 hkeeps)).2 hrest n (by simpa using hn)

private theorem accounted_run {w : World} (h : Accounted w) (steps : List Step) :
    Accounted (steps.foldl World.step w) := by
  induction steps generalizing w with
  | nil => exact h
  | cons st steps ih => exact ih (follows_step h st).accounted

private theorem accounted_fresh (maxBytes chunk : Nat) : Accounted { reader := { maxBytes, chunk } } :=
  ⟨(implements_fresh maxBytes chunk).wellFormed, rfl, Nat.le_refl 0⟩

/-- What `tail` reports is exact after each step of a run, and never decreases. -/
structure TailHonest (w : World) (steps : List Step) : Prop where
  exact_after : ∀ n ≤ steps.length, TailExact ((steps.take n).foldl World.step w)
  never_decreases : ∀ n < steps.length, ∀ size,
    (((steps.take n).foldl World.step w).reader.tail size).dropped ≤
      (((steps.take (n + 1)).foldl World.step w).reader.tail size).dropped

/-- `tail` is honest along a run of the reader exactly if no step takes a chunk away that bytes were consumed of. -/
theorem tail_honest_iff (maxBytes chunk : Nat) (steps : List Step) :
    TailHonest { reader := { maxBytes, chunk } } steps ↔ KeepsAll { reader := { maxBytes, chunk } } steps := by
  have hfresh := accounted_fresh maxBytes chunk
  have hexact : TailExact { reader := { maxBytes, chunk } } := (tailExact_iff hfresh).2 rfl
  rw [← tailExact_run hfresh hexact]
  constructor
  · exact TailHonest.exact_after
  · intro hall
    refine ⟨hall, fun n hn size => ?_⟩
    have hbefore := accounted_run hfresh (steps.take n)
    have hafter := accounted_run hfresh (steps.take (n + 1))
    have hgrows := (follows_step hbefore steps[n]).grows
    have hstep : (steps.take (n + 1)).foldl World.step { reader := { maxBytes, chunk } } =
        ((steps.take n).foldl World.step { reader := { maxBytes, chunk } }).step steps[n] := by
      rw [List.take_add_one, List.getElem?_eq_getElem hn, List.foldl_append]
      rfl
    have hdropped := hall n hn.le size
    have hdropped' := hall (n + 1) hn size
    rw [← hstep] at hgrows
    have htotal := hbefore.total
    have htotal' := hafter.total
    omega

/-- A match that ends with the only chunk: `tail` reports nothing missing of two bytes that are gone. -/
theorem consumed_chunk_is_forgotten :
    ¬ TailHonest { reader := { maxBytes := 8, chunk := 8 } } [.append [79, 75], .readUntil "OK"] := by
  intro h
  have hexact := h.exact_after 2 (by simp) 0
  revert hexact
  decide

end IronHarness.SerialReader
