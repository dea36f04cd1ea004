import IronHarness.Lib.Drain
import IronHarness.Lib.Utf8Stream
import IronHarness.Runner.Real
import IronHarness.Runner.Writers

/-!
# The pump of the real board

`RealRepl._pump`, `output`, `wait_for` and the changes to its buffer (ironbench/realhw.py).  The text and the chunks of
the driver and those of the unix box stay consistent (`logs_consistent`).  The pump ends where a poll finds nothing, and
only there: it comes back at every moment exactly where the line falls silent again and again (`pump_returns_iff`); a
board that floods the line keeps it, and whoever waits with a deadline, for ever (`flooded_pump_never_returns`).
-/

namespace IronHarness.Runner.Real

open ByteText Drain Runs Segments TextLines

/-! ### The buffer -/

/-- What the driver retains, with its mark that the text was truncated, and what its decoder holds back. -/
structure Repl where
  box : Box
  dec : Bytes

def Repl.fresh : Repl := ⟨emptyBox, []⟩

/-- What `_pump` makes of the data of one read. -/
def Repl.ingest (r : Repl) (now : ℚ) (data : Bytes) : Repl :=
  if maxSerialText ≤ r.box.text.length then
    if r.box.dropped then r
    else
      { r with box := { r.box with
          dropped := true
          chunks := r.box.chunks ++ [(now, truncationMarker)]
          text := r.box.text ++ truncationMarker } }
  else
    { box := { r.box with
        chunks := r.box.chunks ++ [(now, (feed (r.dec ++ data)).1)]
        text := r.box.text ++ (feed (r.dec ++ data)).1 }
      dec := (feed (r.dec ++ data)).2 }

/-- What `boot` clears before the staging. -/
def Repl.reset (r : Repl) : Repl := { r with box := { r.box with text := [], chunks := [] } }

/-- `_truncate_text_and_chunks` -/
def Repl.cut (r : Repl) (pos : Nat) : Repl :=
  { r with box := { r.box with
      text := (truncateTextAndChunks pos r.box.text r.box.chunks).1
      chunks := (truncateTextAndChunks pos r.box.text r.box.chunks).2 } }

/-- A change of the buffer. -/
inductive Change
  | read (now : ℚ) (data : Bytes)
  | reset
  | cut (pos : Nat)

/-- One change; the clock of the reads does not go back. -/
def change (s : Repl × ℚ) : Change → Option (Repl × ℚ)
  | .read now data => if s.2 ≤ now then some (s.1.ingest now data, now) else none
  | .reset => some (s.1.reset, s.2)
  | .cut pos => some (s.1.cut pos, s.2)

/-- The echo of the staging is cut by such a change, or the text stays as it is. -/
theorem truncateAfterStagingEcho_cut {code : List Char} {r : Repl} {text : List Char} {chunks : Chunks}
    (h : truncateAfterStagingEcho code r.box.text r.box.chunks = .ok (text, chunks)) :
    ∃ pos, ({ r with box := { r.box with text := text, chunks := chunks } } : Repl) = r.cut pos := by
  have hsame : ∀ pos, truncateTextAndChunks pos r.box.text r.box.chunks = (text, chunks) →
      ({ r with box := { r.box with text := text, chunks := chunks } } : Repl) = r.cut pos := by
    intro pos hpos
    rw [Repl.cut, hpos]
  have hzero : truncateTextAndChunks 0 r.box.text r.box.chunks = (r.box.text, r.box.chunks) := if_pos rfl
  unfold truncateAfterStagingEcho at h
  split at h
  · exact ⟨0, hsame 0 (hzero.trans (Except.ok.inj h))⟩
  · split at h
    · exact ⟨_, hsame _ (Except.ok.inj h)⟩
    · split at h
      · split at h
        · cases h
        · exact ⟨0, hsame 0 (hzero.trans (Except.ok.inj h))⟩
      · exact ⟨0, hsame 0 (hzero.trans (Except.ok.inj h))⟩

/-- The text and the chunks of the driver agree, and the stamps are in order. -/
structure Repl.Inv (s : Repl × ℚ) : Prop where
  consistent : s.1.box.Consistent
  ordered : (s.1.box.chunks.map (·.1)).Pairwise (· ≤ ·)
  past : ∀ chunk ∈ s.1.box.chunks, chunk.1 ≤ s.2

theorem Repl.Inv.fresh (clock : ℚ) : Repl.Inv (Repl.fresh, clock) := ⟨rfl, List.Pairwise.nil, List.forall_mem_nil _⟩

private theorem ingest_box (r : Repl) (now : ℚ) (data : Bytes) :
    (r.ingest now data).box = retain r.box now (feed (r.dec ++ data)).1 := by
  unfold Repl.ingest retain
  split
  · split
    · rfl
    · rfl
  · rfl

private theorem retain_chunks (b : Box) (now : ℚ) (chunk : List Char) :
    (retain b now chunk).chunks = b.chunks ∨ ∃ piece, (retain b now chunk).chunks = b.chunks ++ [(now, piece)] := by
  unfold retain
  split
  · split
    · exact .inl rfl
    · exact .inr ⟨truncationMarker, rfl⟩
  · exact .inr ⟨chunk, rfl⟩

private theorem inv_ingest {r : Repl} {clock now : ℚ} (h : Repl.Inv (r, clock)) (hnow : clock ≤ now) (data : Bytes) :
    Repl.Inv (r.ingest now data, now) := by
  have hpast : ∀ chunk ∈ r.box.chunks, chunk.1 ≤ now := fun chunk hmem => (h.past chunk hmem).trans hnow
  have hconsistent : (r.ingest now data).box.Consistent := by
    rw [ingest_box]
    exact consistent_retain h.consistent now _
  rcases retain_chunks r.box now (feed (r.dec ++ data)).1 with hchunks | ⟨piece, hchunks⟩
  · rw [← ingest_box] at hchunks
    refine ⟨hconsistent, ?_, ?_⟩
    · rw [hchunks]
      exact h.ordered
    · rw [hchunks]
      exact hpast
  · rw [← ingest_box] at hchunks
    refine ⟨hconsistent, ?_, ?_⟩
    · rw [hchunks, List.map_append, List.pairwise_append]
      refine ⟨h.ordered, List.pairwise_singleton _ _, ?_⟩
      intro stamp hstamp later hlater
      obtain ⟨chunk, hchunk, rfl⟩ := List.mem_map.1 hstamp
      obtain rfl := List.mem_singleton.1 hlater
      exact hpast chunk hchunk
    · intro chunk hchunk
      rw [hchunks] at hchunk
      rcases List.mem_append.1 hchunk with hchunk | hchunk
      · exact hpast chunk hchunk
      · obtain rfl := List.mem_singleton.1 hchunk
        exact le_rfl

private theorem inv_cut {r : Repl} {clock : ℚ} (h : Repl.Inv (r, clock)) (pos : Nat) : Repl.Inv (r.cut pos, clock) := by
  have htext : r.box.chunks.flatMap (·.2) = r.box.text := h.consistent.symm
  have htags : ((r.cut pos).box.chunks.map (·.1)).Sublist (r.box.chunks.map (·.1)) := by
    rw [Repl.cut]
    dsimp only
    unfold truncateTextAndChunks
    split
    · exact List.Sublist.refl _
    · exact tags_cutFrom pos 0 r.box.chunks
  refine ⟨(truncateTextAndChunks_text htext).symm, h.ordered.sublist htags, ?_⟩
  intro chunk hchunk
  obtain ⟨old, hold, heq⟩ := List.mem_map.1 (htags.subset (List.mem_map_of_mem hchunk))
  rw [← heq]
  exact h.past old hold

private theorem inv_change {s s' : Repl × ℚ} {c : Change} (hchange : change s c = some s') (h : Repl.Inv s) :
    Repl.Inv s' := by
  cases c with
  | read now data =>
    rw [change] at hchange
    split at hchange
    · obtain rfl := Option.some.inj hchange
      exact inv_ingest h (by assumption) data
    · cases hchange
  | reset =>
    obtain rfl := Option.some.inj hchange
    exact ⟨rfl, List.Pairwise.nil, List.forall_mem_nil _⟩
  | cut pos =>
    obtain rfl := Option.some.inj hchange
    exact inv_cut h pos

/-- The logs of both runners: in every state of the unix box where no append is under way, and in every state of the
driver of a real board, the chunks put together are the text; the stamps never decrease; and the text of the unix box
is bounded throughout. -/
theorem logs_consistent (clock : ℚ) :
    (∀ acts s, run Writers.step (Writers.start clock) acts = some s →
      (s.inside = none → s.box.Consistent) ∧ (s.box.chunks.map (·.1)).Pairwise (· ≤ ·) ∧
      s.box.text.length ≤ maxSerialText + truncationMarker.length) ∧
    ∀ changes s, run change (Repl.fresh, clock) changes = some s →
      s.1.box.Consistent ∧ (s.1.box.chunks.map (·.1)).Pairwise (· ≤ ·) := by
  constructor
  · intro acts s hrun
    have h := Writers.inv_run hrun
    exact ⟨h.consistent, h.ordered, h.length_le⟩
  · intro changes s hrun
    have h := Runs.invariant (fun _ _ _ => inv_change) hrun (Repl.Inv.fresh clock)
    exact ⟨h.consistent, h.ordered⟩

/-! ### The loops -/

/-- What one pass of `_pump` meets: an exception, or `in_waiting` where the transport has it, what a read returns then,
and the clock. -/
inductive Poll
  | broken
  | got (inWaiting : Option Nat) (data : Bytes) (now : ℚ)

inductive Ending
  | returned (r : Repl)
  | raised (r : Repl)

def pumpPass (r : Repl) : Poll → Repl ⊕ Ending
  | .broken => .inr (.raised r)
  | .got (some 0) _ _ => .inr (.returned r)
  | .got _ data now => if data = [] then .inr (.returned r) else .inl (r.ingest now data)

/-- At most `n` passes of `_pump`, from poll `i` on. -/
def Repl.pump (polls : Nat → Poll) (n i : Nat) (r : Repl) : Option (Ending × Nat) := drain pumpPass polls n i r

/-- `output`; an exception of the pump is one of its own. -/
def Repl.output (polls : Nat → Poll) (n i : Nat) (r : Repl) : Option (Option (List Char) × Nat) :=
  (r.pump polls n i).map fun (ending, i) =>
    match ending with
    | .returned r => (some r.box.text, i)
    | .raised _ => (none, i)

inductive Waited
  | found
  | expired
  | raised
  deriving DecidableEq

/-- `wait_for`, with at most `n` passes and `n` polls in each; `clock pass` is the clock at the head of a pass. -/
def Repl.waitFor (polls : Nat → Poll) (needle : List Char) (deadline : ℚ) (clock : Nat → ℚ) :
    Nat → Nat → Nat → Repl → Option Waited
  | 0, _, _, _ => none
  | n + 1, pass, i, r =>
    if deadline ≤ clock pass then some .expired
    else
      match r.pump polls n i with
      | none => none
      | some (.raised _, _) => some .raised
      | some (.returned r, i) =>
        if (find needle r.box.text).isSome then some .found
        else Repl.waitFor polls needle deadline clock n (pass + 1) i r

/-- Nothing is waiting, the read is empty, or an exception is raised. -/
def Poll.ends : Poll → Prop
  | .broken => True
  | .got (some 0) _ _ => True
  | .got _ data _ => data = []

private theorem pumpPass_isRight (r : Repl) (poll : Poll) : (pumpPass r poll).isRight = true ↔ poll.ends := by
  have hread : ∀ (data : Bytes) (now : ℚ),
      (if data = [] then Sum.inr (Ending.returned r) else Sum.inl (r.ingest now data)).isRight = true ↔ data = [] := by
    intro data now
    split
    · simp [*]
    · simp [*]
  cases poll with
  | broken => simp [pumpPass, Poll.ends]
  | got inWaiting data now =>
    cases inWaiting with
    | none => exact hread data now
    | some waiting =>
      cases waiting with
      | zero => simp [pumpPass, Poll.ends]
      | succ waiting => exact hread data now

section

variable {polls : Nat → Poll} {needle : List Char} {deadline : ℚ} {clock : Nat → ℚ}

/-- One call of `_pump` comes back exactly where a poll that ends it is still to come. -/
private theorem pump_isSome_iff (i : Nat) (r : Repl) :
    (∃ n, (r.pump polls n i).isSome = true) ↔ ∃ k, i ≤ k ∧ (polls k).ends :=
  drain_isSome_iff pumpPass_isRight i r

private theorem waitFor_mono {n m pass i : Nat} {r : Repl} {waited : Waited}
    (h : r.waitFor polls needle deadline clock n pass i = some waited) (hnm : n ≤ m) :
    r.waitFor polls needle deadline clock m pass i = some waited := by
  induction n generalizing m pass i r with
  | zero => cases h
  | succ n ih =>
    obtain ⟨m, rfl⟩ : ∃ k, m = k + 1 := ⟨m - 1, by omega⟩
    rw [Repl.waitFor] at h ⊢
    split at h
    · rw [if_pos (by assumption)]
      exact h
    · rw [if_neg (by assumption)]
      cases hpump : r.pump polls n i with
      | none => rw [hpump] at h; cases h
      | some ended =>
        obtain ⟨ending, i'⟩ := ended
        have hpump' : r.pump polls m i = some (ending, i') := drain_mono hpump (by omega)
        rw [hpump] at h
        rw [hpump']
        cases ending with
        | raised r' => exact h
        | returned r' =>
          dsimp only at h ⊢
          split at h
          · rw [if_pos (by assumption)]
            exact h
          · rw [if_neg (by assumption)]
            exact ih h (by omega)

/-- Where the line falls silent again and again, `wait_for` comes back by the pass at which its deadline is over. -/
private theorem waitFor_of_silence (hsilent : ∀ i, ∃ k, i ≤ k ∧ (polls k).ends) (left : Nat) :
    ∀ (pass i : Nat) (r : Repl), deadline ≤ clock (pass + left) →
      ∃ n, (r.waitFor polls needle deadline clock n pass i).isSome = true := by
  induction left with
  | zero =>
    intro pass i r hover
    refine ⟨1, ?_⟩
    rw [Nat.add_zero] at hover
    rw [Repl.waitFor, if_pos hover]
    rfl
  | succ left ih =>
    intro pass i r hover
    obtain ⟨n, hn⟩ := (pump_isSome_iff i r).2 (hsilent i)
    obtain ⟨⟨ending, i'⟩, hpump⟩ := Option.isSome_iff_exists.1 hn
    by_cases hnow : deadline ≤ clock pass
    · refine ⟨1, ?_⟩
      rw [Repl.waitFor, if_pos hnow]
      rfl
    · cases ending with
      | raised r' =>
        refine ⟨n + 1, ?_⟩
        rw [Repl.waitFor, if_neg hnow, hpump]
        rfl
      | returned r' =>
        have hplace : pass + (left + 1) = pass + 1 + left := by omega
        rw [hplace] at hover
        obtain ⟨m, hm⟩ := ih (pass + 1) i' r' hover
        obtain ⟨waited, hwaited⟩ := Option.isSome_iff_exists.1 hm
        refine ⟨max n m + 1, ?_⟩
        have hpump' : r.pump polls (max n m) i = some (.returned r', i') := drain_mono hpump (Nat.le_max_left n m)
        rw [Repl.waitFor, if_neg hnow, hpump']
        dsimp only
        split
        · rfl
        · rw [waitFor_mono hwaited (Nat.le_max_right n m)]
          rfl

/-- Where no poll ends the pump any more, neither does the deadline. -/
private theorem waitFor_flooded {i : Nat} (hflood : ∀ k, i ≤ k → ¬ (polls k).ends) {pass : Nat}
    (hahead : clock pass < deadline)
    (n : Nat) (r : Repl) : r.waitFor polls needle deadline clock n pass i = none := by
  cases n with
  | zero => rfl
  | succ n =>
    have hpump : r.pump polls n i = none := by
      rw [← Option.not_isSome_iff_eq_none]
      intro hsome
      obtain ⟨k, hk, hends⟩ := (pump_isSome_iff i r).1 ⟨n, hsome⟩
      exact hflood k hk hends
    rw [Repl.waitFor, if_neg (not_le.2 hahead), hpump]

end

/-- Whenever they are called, and in whatever state, `_pump` and `output` come back, and so does `wait_for` with any
deadline that the clock reaches. -/
def HandsBack (polls : Nat → Poll) : Prop :=
  ∀ (i : Nat) (r : Repl),
    (∃ n, (r.pump polls n i).isSome = true) ∧ (∃ n, (r.output polls n i).isSome = true) ∧
    ∀ (needle : List Char) (deadline : ℚ) (clock : Nat → ℚ), (∃ pass, deadline ≤ clock pass) →
      ∃ n, (r.waitFor polls needle deadline clock n 0 i).isSome = true

theorem pump_returns_iff (polls : Nat → Poll) : HandsBack polls ↔ ∀ i, ∃ k, i ≤ k ∧ (polls k).ends := by
  constructor
  · intro h i
    exact (pump_isSome_iff i Repl.fresh).1 (h i Repl.fresh).1
  · intro hsilent i r
    have hpump := (pump_isSome_iff i r).2 (hsilent i)
    refine ⟨hpump, ?_, ?_⟩
    · obtain ⟨n, hn⟩ := hpump
      exact ⟨n, by rw [Repl.output, Option.isSome_map]; exact hn⟩
    · rintro needle deadline clock ⟨pass, hover⟩
      exact waitFor_of_silence hsilent pass 0 i r (by rwa [Nat.zero_add])

/-- A board that has a byte waiting at every poll. -/
def flooded : Nat → Poll := fun i => .got (some 1) [0x2E] i

/-- The pump does not come back, and `wait_for` with a deadline of one second does not either. -/
theorem flooded_pump_never_returns :
    (∀ n, Repl.fresh.pump flooded n 0 = none) ∧
    ∀ n, Repl.fresh.waitFor flooded "OK".toList 1 (fun pass => pass) n 0 0 = none := by
  have hflood : ∀ k, ¬ (flooded k).ends := by
    intro k h
    cases h
  constructor
  · intro n
    rw [← Option.not_isSome_iff_eq_none]
    intro hsome
    obtain ⟨k, -, hends⟩ := (pump_isSome_iff 0 Repl.fresh).1 ⟨n, hsome⟩
    exact hflood k hends
  · intro n
    exact waitFor_flooded (fun k _ => hflood k) (by simp) n Repl.fresh

end IronHarness.Runner.Real
