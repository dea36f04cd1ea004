import IronHarness.Lib.Mutex
import IronHarness.Session.Slots
import IronHarness.Session.Steps

/-!
# The registries stay consistent

Every step of a session is a step of the table of slots (`SlotStep`), or leaves it.  A slot that is lent to a transfer
or a monitor is held like a lock by the thread in that window, so the name goes back when the window ends, whatever
has become of its connection meanwhile.
-/

namespace IronHarness.Session

/-- What happens to the table of connections and owners. -/
inductive SlotStep : (String → Slot) → (String → Slot) → Prop
  | stay (slots : String → Slot) : SlotStep slots slots
  | connect (slots : String → Slot) (name : String) (kind : Kind) (h : Handle) (hfree : (slots name).conn = none) :
      SlotStep slots (Function.update slots name ((slots name).connect kind h hfree))
  | dropReader (slots : String → Slot) (name : String) :
      SlotStep slots (Function.update slots name ((slots name).drop .reader))
  | disconnect (slots : String → Slot) (name : String) :
      SlotStep slots (Function.update slots name
        (((slots name).drop .reader).disconnect (Slot.drop_owner_ne _ _)))
  | attach (slots : String → Slot) (name : String) (howner : (slots name).owner = none)
      (hserial : ∃ h, (slots name).conn = some (.serial, h)) :
      SlotStep slots (Function.update slots name ((slots name).attach hserial))
  | lend (slots : String → Slot) (name : String) (u : Use) (howner : (slots name).owner = none) :
      SlotStep slots (Function.update slots name ((slots name).lend u))
  | giveBack (slots : String → Slot) (name : String) (u : Use) (howner : (slots name).owner = some (.call u)) :
      SlotStep slots (Function.update slots name ((slots name).drop (.call u)))
  | clear (slots : String → Slot) :
      SlotStep slots fun name => ((slots name).drop .reader).disconnect (Slot.drop_owner_ne _ _)

/-- The slot that a thread has been lent. -/
def Pc.lent : Pc → Option (Use × String)
  | .using w name _ => some (w.use, name)
  | _ => none

/-- The number of connections is within the limit. -/
def WithinLimit (c : Config) (r : Registry) : Prop :=
  ∀ limit, c.maxConnections = some limit → r.transports.keys.length ≤ limit

/-- The table of slots behind a state, and the threads that the slots are lent to. -/
structure Tracks (c : Config) (s : Sys) (slots : String → Slot) (holder : Mutex.Table (Use × String) Nat) : Prop where
  represents : Represents s.shared.reg slots
  owned : Mutex.Owned Pc.lent holder s.pcs
  lent : ∀ name u, (slots name).owner = some (.call u) ↔ ∃ t, holder (u, name) = some t
  limit : WithinLimit c s.shared.reg

variable {c : Config} {s s' : Sys} {a : Task} {slots : String → Slot} {holder : Mutex.Table (Use × String) Nat}
  {name : String}

private theorem tracks_init : Tracks c Sys.init (fun _ => Slot.empty) fun _ => none where
  represents := represents_empty
  owned := Mutex.owned_free fun _ => rfl
  lent := by
    intro name u
    simp [Slot.empty]
  limit := fun _ _ => Nat.zero_le _

/-! ### The limit -/

theorem WithinLimit.insert {r : Registry} {kind : Kind} {h : Handle} (hgate : r.openGate c name = .ok ()) :
    WithinLimit c (r.insert kind name h) := by
  intro limit hlimit
  obtain ⟨hfree, hroom⟩ := openGate_ok.1 hgate
  have hkeys : (r.insert kind name h).transports.keys = name :: r.transports.keys := by
    show (r.transports.insert name h).keys = _
    rw [AList.keys_insert, List.erase_of_not_mem]
    exact AList.lookup_eq_none.1 hfree
  rw [hkeys]
  exact hroom limit hlimit

theorem WithinLimit.delete {r : Registry} (h : WithinLimit c r) (name : String) :
    WithinLimit c ((r.dropReader name).delete name) := by
  intro limit hlimit
  apply le_trans _ (h limit hlimit)
  show (r.transports.erase name).keys.length ≤ _
  rw [AList.keys_erase]
  exact (List.erase_sublist).length_le

/-! ### One step -/

/-- A change of one slot that leaves the loans. -/
private theorem lent_update {slot : Slot}
    (h : ∀ name u, (slots name).owner = some (.call u) ↔ ∃ t, holder (u, name) = some t)
    (hslot : ∀ u, slot.owner = some (.call u) ↔ (slots name).owner = some (.call u)) (other : String) (u : Use) :
    (Function.update slots name slot other).owner = some (.call u) ↔ ∃ t, holder (u, other) = some t := by
  by_cases hne : other = name
  · subst hne
    rw [Function.update_self, hslot]
    exact h other u
  · rw [Function.update_of_ne hne]
    exact h other u

private theorem Slot.drop_reader_call (slot : Slot) (u : Use) :
    (slot.drop .reader).owner = some (.call u) ↔ slot.owner = some (.call u) := by
  unfold Slot.drop
  by_cases howner : slot.owner = some .reader
  · simp [howner]
  · simp [howner]

section

variable {sh : Shared} {pc : Pc} {t : Nat} {u : Use}

theorem Tracks.stay (h : Tracks c s slots holder) (hreg : sh.reg = s.shared.reg) (hpc : pc.lent = (s.pcs t).lent) :
    Tracks c ⟨sh, Function.update s.pcs t pc⟩ slots holder where
  represents := by
    rw [hreg]
    exact h.represents
  owned := h.owned.stay hpc
  lent := h.lent
  limit := by
    rw [hreg]
    exact h.limit

/-- A section that changes one slot and leaves the loans. -/
theorem Tracks.change {slot : Slot} (h : Tracks c s slots holder)
    (hrep : Represents sh.reg (Function.update slots name slot))
    (hslot : ∀ u, slot.owner = some (.call u) ↔ (slots name).owner = some (.call u))
    (hlimit : WithinLimit c sh.reg) (hpc : pc.lent = (s.pcs t).lent) :
    Tracks c ⟨sh, Function.update s.pcs t pc⟩ (Function.update slots name slot) holder where
  represents := hrep
  owned := h.owned.stay hpc
  lent := lent_update h.lent hslot
  limit := hlimit

theorem Tracks.lend (h : Tracks c s slots holder) (hreg : sh.reg = s.shared.reg.add name u)
    (howner : (slots name).owner = none) (hold : (s.pcs t).lent = none) (hpc : pc.lent = some (u, name)) :
    Tracks c ⟨sh, Function.update s.pcs t pc⟩ (Function.update slots name ((slots name).lend u))
      (Mutex.acquire (u, name) t holder) where
  represents := by
    rw [hreg]
    exact h.represents.add u howner
  owned := by
    apply h.owned.acquire hold _ hpc
    rw [Option.eq_none_iff_forall_ne_some]
    intro t' ht'
    have hcall := (h.lent name u).2 ⟨t', ht'⟩
    rw [howner] at hcall
    cases hcall
  lent := by
    intro other v
    unfold Mutex.acquire
    by_cases hne : other = name
    · subst hne
      rw [Function.update_self]
      by_cases huv : v = u
      · subst huv
        simp [Slot.lend]
      · have hfree : ∀ t, holder (v, other) ≠ some t := by
          intro t' ht'
          have hcall := (h.lent other v).2 ⟨t', ht'⟩
          rw [howner] at hcall
          cases hcall
        simp [Slot.lend, huv, Ne.symm huv, hfree]
    · rw [Function.update_of_ne hne, Function.update_of_ne (by simp [hne])]
      exact h.lent other v
  limit := by
    rw [hreg]
    cases u <;> exact h.limit

private theorem Tracks.lent_owner (h : Tracks c s slots holder) (hold : (s.pcs t).lent = some (u, name)) :
    (slots name).owner = some (.call u) := by
  apply (h.lent name u).2
  exact ⟨t, (h.owned t (u, name)).1 hold⟩

private theorem Tracks.giveBack (h : Tracks c s slots holder) (hreg : sh.reg = s.shared.reg.discard name u)
    (hold : (s.pcs t).lent = some (u, name)) (hpc : pc.lent = none) :
    Tracks c ⟨sh, Function.update s.pcs t pc⟩ (Function.update slots name ((slots name).drop (.call u)))
      (Mutex.release (u, name) holder) where
  represents := by
    rw [hreg]
    exact h.represents.discard name u
  owned := h.owned.release hold hpc
  lent := by
    intro other v
    have hcall := h.lent_owner hold
    unfold Mutex.release
    by_cases hne : other = name
    · subst hne
      rw [Function.update_self]
      by_cases huv : v = u
      · subst huv
        simp [Slot.drop, hcall]
      · have hfree : ∀ t, holder (v, other) ≠ some t := by
          intro t' ht'
          have hv := (h.lent other v).2 ⟨t', ht'⟩
          rw [hcall] at hv
          cases hv
          exact huv rfl
        simp [Slot.drop, hcall, huv, hfree]
    · rw [Function.update_of_ne hne, Function.update_of_ne (by simp [hne])]
      exact h.lent other v
  limit := by
    rw [hreg]
    cases u <;> exact h.limit

end

/-- A step of the session is a step of the table. -/
theorem Tracks.step (h : Tracks c s slots holder) (hstep : s.step c a = some s') :
    ∃ slots' holder', SlotStep slots slots' ∧ Tracks c s' slots' holder' := by
  obtain ⟨sh, pc, hrule, rfl⟩ := step_cases hstep
  generalize hpc : s.pcs a.thread = old at hrule
  generalize a.input = input at hrule
  have hrep := h.represents
  cases hrule with
  | closedRefused call hclosed => exact ⟨slots, holder, .stay slots, h.stay rfl (by rw [hpc])⟩
  | begun call hopen => exact ⟨slots, holder, .stay slots, h.stay rfl (by rw [hpc]; rfl)⟩
  | refused call answer => exact ⟨slots, holder, .stay slots, h.stay rfl (by rw [hpc]; rfl)⟩
  | opened kind name hgate hjournal =>
    have hfree := hrep.conn_none (openGate_ok.1 hgate).1
    exact ⟨_, holder, .connect slots name kind s.shared.made hfree,
      h.change (hrep.insert kind s.shared.made hfree) (fun u => Iff.rfl) (WithinLimit.insert hgate) (by rw [hpc]; rfl)⟩
  | openLeaks kind name answer hgate hleak => exact ⟨slots, holder, .stay slots, h.stay rfl (by rw [hpc]; rfl)⟩
  | readerStopped call name answer =>
    exact ⟨_, holder, .dropReader slots name,
      h.change (hrep.dropReader name) (Slot.drop_reader_call _) h.limit (by rw [hpc]; rfl)⟩
  | closed kind name handle answer held hget hheld =>
    exact ⟨_, holder, .disconnect slots name,
      h.change (hrep.close name) (Slot.drop_reader_call _) (h.limit.delete name) (by rw [hpc]; rfl)⟩
  | taken name handle answer hget =>
    exact ⟨_, holder, .disconnect slots name,
      h.change (hrep.close name) (Slot.drop_reader_call _) (h.limit.delete name) (by rw [hpc]; rfl)⟩
  | takenClosed handle answer held hheld => exact ⟨slots, holder, .stay slots, h.stay rfl (by rw [hpc]; rfl)⟩
  | readerStarted name base answer hgate =>
    obtain ⟨hbase, hreader, htransfer, hmonitor⟩ := serialReaderStart_ok.1 hgate
    have howner := hrep.owner_none hreader htransfer hmonitor
    have hserial := hrep.serial_of_base hbase
    refine ⟨_, holder, .attach slots name howner hserial,
      h.change (hrep.addReader hbase howner hserial) ?_ h.limit (by rw [hpc]; rfl)⟩
    intro u
    simp [Slot.attach, howner]
  | letThrough op name handle answer hgate => exact ⟨slots, holder, .stay slots, h.stay rfl (by rw [hpc]; rfl)⟩
  | directDone op name handle answer => exact ⟨slots, holder, .stay slots, h.stay rfl (by rw [hpc]; rfl)⟩
  | windowBegins w name handle answer hgate =>
    obtain ⟨hreader, htransfer, hmonitor⟩ := Window.gate_ok hgate
    have howner := hrep.owner_none hreader htransfer hmonitor
    exact ⟨_, _, .lend slots name w.use howner, h.lend rfl howner (by rw [hpc]; rfl) rfl⟩
  | wire w name handle => exact ⟨slots, holder, .stay slots, h.stay rfl (by rw [hpc])⟩
  | windowEnds w name handle answer =>
    have hlent : (s.pcs a.thread).lent = some (w.use, name) := by
      rw [hpc]
      rfl
    exact ⟨_, _, .giveBack slots name w.use (h.lent_owner hlent), h.giveBack rfl hlent rfl⟩
  | closeBegins => exact ⟨slots, holder, .stay slots, h.stay rfl (by rw [hpc]; rfl)⟩
  | clear answer =>
    refine ⟨_, holder, .clear slots, hrep.clear, h.owned.stay (by rw [hpc]; rfl), ?_, fun _ _ => Nat.zero_le _⟩
    intro name u
    exact (Slot.drop_reader_call _ u).trans (h.lent name u)
  | closeReader handle readers transports answer =>
    exact ⟨slots, holder, .stay slots, h.stay rfl (by rw [hpc]; rfl)⟩
  | closeNext handle transports answer held hheld hjournal =>
    exact ⟨slots, holder, .stay slots, h.stay rfl (by rw [hpc]; rfl)⟩
  | closeAborts handle transports answer held habort =>
    exact ⟨slots, holder, .stay slots, h.stay rfl (by rw [hpc]; rfl)⟩
  | closeJournal answer => exact ⟨slots, holder, .stay slots, h.stay rfl (by rw [hpc]; rfl)⟩

/-! ### Every run -/

/-- The registries agree with each other, a name has one owner at most, and a name in use is being used. -/
structure Consistent (c : Config) (s : Sys) : Prop where
  kinds : ∀ name, name ∈ s.shared.reg.transports ↔ name ∈ s.shared.reg.kinds
  serialBase : ∀ name, name ∈ s.shared.reg.serialBase ↔ s.shared.reg.kinds.lookup name = some .serial
  readers : ∀ name ∈ s.shared.reg.readers, name ∈ s.shared.reg.serialBase
  reader_alone : ∀ name ∈ s.shared.reg.readers, name ∉ s.shared.reg.transfers ∧ name ∉ s.shared.reg.monitors
  transfer_alone : ∀ name ∈ s.shared.reg.transfers, name ∉ s.shared.reg.monitors
  transfers : ∀ name ∈ s.shared.reg.transfers, ∃ t h, s.pcs t = .using .put name h ∨ s.pcs t = .using .get name h
  monitors : ∀ name ∈ s.shared.reg.monitors, ∃ t h, s.pcs t = .using .monitor name h
  limit : WithinLimit c s.shared.reg

private theorem Pc.lent_eq_some {pc : Pc} {u : Use} (h : pc.lent = some (u, name)) :
    ∃ w handle, pc = .using w name handle ∧ w.use = u := by
  unfold Pc.lent at h
  split at h
  · rename_i w name' handle
    cases h
    exact ⟨w, handle, rfl, rfl⟩
  · cases h

private theorem Tracks.in_window {u : Use} (h : Tracks c s slots holder) (hmem : name ∈ s.shared.reg.inUse u) :
    ∃ t w handle, s.pcs t = .using w name handle ∧ w.use = u := by
  obtain ⟨t, ht⟩ := (h.lent name u).1 ((h.represents.inUse name u).1 hmem)
  exact ⟨t, Pc.lent_eq_some ((h.owned t (u, name)).2 ht)⟩

theorem Tracks.consistent (h : Tracks c s slots holder) : Consistent c s where
  kinds := by
    intro name
    rw [← AList.lookup_isSome, ← AList.lookup_isSome, h.represents.transport, h.represents.kindOf]
    simp
  serialBase := by
    intro name
    rw [← AList.lookup_isSome, h.represents.base, h.represents.kindOf]
    exact Slot.base_isSome _
  readers := by
    intro name hmem
    rw [h.represents.mem_readers] at hmem
    obtain ⟨handle, hconn⟩ := (slots name).reader_serial hmem
    rw [← AList.lookup_isSome, h.represents.base, Slot.base_isSome, hconn]
    rfl
  reader_alone := by
    intro name hmem
    rw [h.represents.mem_readers] at hmem
    constructor
    · intro htransfer
      rw [(h.represents.inUse name .transfer).1 htransfer] at hmem
      cases hmem
    · intro hmonitor
      rw [(h.represents.inUse name .monitor).1 hmonitor] at hmem
      cases hmem
  transfer_alone := by
    intro name htransfer hmonitor
    have hcall := (h.represents.inUse name .transfer).1 htransfer
    rw [(h.represents.inUse name .monitor).1 hmonitor] at hcall
    cases hcall
  transfers := by
    intro name hmem
    obtain ⟨t, w, handle, hpc, huse⟩ := h.in_window (u := .transfer) hmem
    refine ⟨t, handle, ?_⟩
    cases w with
    | put => exact Or.inl hpc
    | get => exact Or.inr hpc
    | monitor => cases huse
  monitors := by
    intro name hmem
    obtain ⟨t, w, handle, hpc, huse⟩ := h.in_window (u := .monitor) hmem
    refine ⟨t, handle, ?_⟩
    cases w with
    | put => cases huse
    | get => cases huse
    | monitor => exact hpc
  limit := h.limit

/-- Every reachable state has a table of slots behind it. -/
private theorem run_tracks {acts : List Task} (hrun : Runs.run (Sys.step c) Sys.init acts = some s) :
    ∃ slots holder, Tracks c s slots holder := by
  refine Runs.invariant (I := fun s => ∃ slots holder, Tracks c s slots holder) ?_ hrun ⟨_, _, tracks_init⟩
  intro s a s' hstep ⟨slots, holder, h⟩
  obtain ⟨slots', holder', -, h'⟩ := h.step hstep
  exact ⟨slots', holder', h'⟩

/-- In every state that the calls of any threads can reach, whatever the transports answer, the registries are
consistent. -/
theorem registries_consistent {acts : List Task} (hrun : Runs.run (Sys.step c) Sys.init acts = some s) :
    Consistent c s := by
  obtain ⟨slots, holder, h⟩ := run_tracks hrun
  exact h.consistent

/-- A connection is closed and opened again while a transfer on it is still running; another thread's reader is
refused meanwhile. -/
theorem registries_consistent_reopened :
    let c : Config := ⟨some 1, id⟩
    ∃ s, Runs.run (Sys.step c) Sys.init
        [⟨1, .start (.openTyped .serial "a")⟩, ⟨1, .go .done⟩, ⟨2, .start (.window .put "a")⟩, ⟨2, .go .done⟩,
          ⟨1, .start (.closeTransport "a")⟩, ⟨1, .go .done⟩, ⟨3, .start (.openTyped .serial "a")⟩, ⟨3, .go .done⟩,
          ⟨1, .go (.raises true)⟩, ⟨3, .start (.readerStart "a")⟩, ⟨3, .go .done⟩, ⟨2, .go .wire⟩] = some s ∧
      s.shared.reg.transports.keys = ["a"] ∧ "a" ∈ s.shared.reg.transfers ∧ Consistent c s := by
  intro c
  have hsome : (Runs.run (Sys.step c) Sys.init
      [⟨1, .start (.openTyped .serial "a")⟩, ⟨1, .go .done⟩, ⟨2, .start (.window .put "a")⟩, ⟨2, .go .done⟩,
        ⟨1, .start (.closeTransport "a")⟩, ⟨1, .go .done⟩, ⟨3, .start (.openTyped .serial "a")⟩, ⟨3, .go .done⟩,
        ⟨1, .go (.raises true)⟩, ⟨3, .start (.readerStart "a")⟩, ⟨3, .go .done⟩, ⟨2, .go .wire⟩]).map
      (fun s => (s.shared.reg.transports.keys, decide ("a" ∈ s.shared.reg.transfers))) = some (["a"], true) := rfl
  obtain ⟨s, hrun, hreg⟩ := Option.map_eq_some_iff.1 hsome
  rw [Prod.mk.injEq, decide_eq_true_eq] at hreg
  exact ⟨s, hrun, hreg.1, hreg.2, registries_consistent hrun⟩

end IronHarness.Session
