import IronHarness.Lib.Flow
import IronHarness.Lib.Mutex
import IronHarness.SerialReader

/-!
# The life of a background reader

`start`, `stop` and `_run` of a `SerialReader`, with the threads that take its `io_lock` to write and those that
consume its buffer, step by step and in any order.  The session calls `start` and `stop` under its own lock, so one
call of the two runs at a time.  A `stop` whose `join` times out leaves the pump attached: there is never a second
one (`Attached`), what it has taken from the port is in the buffer or on its way there (`run_conserves`), and behind
`_stop.set()` no further read begins (`run_stopping`).
-/

namespace IronHarness.SerialReader

open ByteText LossyFifo Runs

/-- A thread that takes `io_lock`: the `i`-th pump, or one that writes to the port. -/
inductive Client
  | pump (i : Nat)
  | writer (w : Nat)
  deriving DecidableEq

/-- Where a pump is in `_run`: at the test of the loop, at `in_waiting`, before `io_lock` with the number of bytes to ask
for, at the test under the lock, in the read, before the section of the buffer.  A pump that was not started is `exited`.
A writer is outside or holds the lock. -/
inductive PumpPc
  | exited
  | head
  | poll
  | acquire (size : Nat)
  | test (size : Nat)
  | read (size : Nat)
  | append (data : Bytes)
  | outside
  | writing
  deriving DecidableEq

def PumpPc.lock : PumpPc → Option Unit
  | .test _ | .read _ | .writing => some ()
  | _ => none

/-- Where the call of `start` or `stop` is. -/
inductive OwnerPc
  | idle
  | clear
  | create
  | spawn (i : Nat)
  | look
  | join
  | alive
  deriving DecidableEq

/-- `reader` and what went through its buffer are in `world`; of `_thread`, `thread` keeps which pump it is. -/
structure Life where
  world : World
  thread : Option Nat
  created : Nat
  holder : Mutex.Table Unit Client
  pcs : Client → PumpPc
  owner : OwnerPc

/-- A reader before its first `start`. -/
def Life.new (maxBytes chunk : Nat) : Life where
  world := { reader := { maxBytes, chunk } }
  thread := none
  created := 0
  holder := fun _ => none
  pcs
    | .pump _ => .exited
    | .writer _ => .outside
  owner := .idle

/-- What the transport answers to `in_waiting` and to a read; `go` is no answer, for the steps in between. -/
inductive Answer
  | go
  | waiting (n : Nat)
  | unpollable
  | data (data : Bytes)
  | raises (error : String)
  | dies
  deriving DecidableEq

inductive Event
  | start
  | stop
  /-- the next step of the call -/
  | owner
  | pump (i : Nat) (answer : Answer)
  | readUntil (pattern : String)
  | lock (w : Nat)
  | unlock (w : Nat)
  deriving DecidableEq

def Life.goto (s : Life) (c : Client) (pc : PumpPc) : Life := { s with pcs := Function.update s.pcs c pc }

def Life.take (s : Life) (c : Client) (pc : PumpPc) : Life :=
  { s.goto c pc with holder := Mutex.acquire () c s.holder }

def Life.give (s : Life) (c : Client) (pc : PumpPc) : Life := { s.goto c pc with holder := Mutex.release () s.holder }

def Life.setReader (s : Life) (reader : SerialReader) : Life := { s with world := { s.world with reader } }

/-- A step of a pump.  The lock is given back where the block is left, with the end of the read. -/
def Life.pump (s : Life) (i : Nat) (answer : Answer) : Option Life :=
  match s.pcs (.pump i), answer with
  | .head, .go => some (s.goto (.pump i) (if s.world.reader.stopSet then .exited else .poll))
  | .poll, .waiting n =>
    some (s.goto (.pump i) (if n = 0 then .head else .acquire (min n s.world.reader.chunk)))
  | .poll, .unpollable => some (s.goto (.pump i) (.acquire s.world.reader.chunk))
  | .poll, .dies => some (s.goto (.pump i) .exited)
  | .acquire size, .go => if s.holder () = none then some (s.take (.pump i) (.test size)) else none
  | .test size, .go =>
    if s.world.reader.stopSet then some (s.give (.pump i) .exited) else some (s.goto (.pump i) (.read size))
  | .read size, .data data =>
    if data.length ≤ size then some (s.give (.pump i) (if data = [] then .head else .append data)) else none
  | .read _, .raises error =>
    some ((s.give (.pump i) .exited).setReader { s.world.reader with error := some error })
  | .read _, .dies => some (s.give (.pump i) .exited)
  | .append data, .go => some { s.goto (.pump i) .head with world := s.world.step (.append data) }
  | _, _ => none

/-- A step of the call of `start` or `stop`; `join` comes back when the pump has exited, or with the timeout. -/
def Life.own (s : Life) : Option Life :=
  match s.owner with
  | .idle => none
  | .clear => some { s.setReader { s.world.reader with stopSet := false } with owner := .create }
  | .create => some { s with thread := some s.created, owner := .spawn s.created }
  | .spawn i => some { s.goto (.pump i) .head with created := i + 1, owner := .idle }
  | .look => some { s with owner := if s.thread = none then .idle else .join }
  | .join => some { s with owner := .alive }
  | .alive =>
    match s.thread with
    | none => none
    | some i => some { s with thread := if s.pcs (.pump i) = .exited then none else some i, owner := .idle }

def Life.step (s : Life) : Event → Option Life
  | .start => if s.owner = .idle then some (if s.thread = none then { s with owner := .clear } else s) else none
  | .stop =>
    if s.owner = .idle then
      some { s.setReader { s.world.reader with stopSet := true } with owner := .look }
    else none
  | .owner => s.own
  | .pump i answer => s.pump i answer
  | .readUntil pattern => some { s with world := s.world.step (.readUntil pattern) }
  | .lock w =>
    if s.pcs (.writer w) = .outside ∧ s.holder () = none then some (s.take (.writer w) .writing) else none
  | .unlock w => if s.pcs (.writer w) = .writing then some (s.give (.writer w) .outside) else none

/-- What a pump takes from the port. -/
def taken (s : Life) : Event → Option Bytes
  | .pump i (.data data) =>
    match s.pcs (.pump i) with
    | .read _ => some data
    | _ => none
  | _ => none

/-- A read of a pump begins. -/
def reads (s : Life) : Event → Option Nat
  | .pump i .go =>
    match s.pcs (.pump i) with
    | .test _ => if s.world.reader.stopSet then none else some i
    | _ => none
  | _ => none

/-- What the attached pump has taken and not appended. -/
def Life.carried (s : Life) : Bytes :=
  match s.thread with
  | none => []
  | some i =>
    match s.pcs (.pump i) with
    | .append data => data
    | _ => []

/-! ### One step -/

/-- The pump is at none of the places from the lock to the section of the buffer. -/
def PumpPc.outer : PumpPc → Bool
  | .exited | .head | .poll | .acquire _ => true
  | _ => false

/-- What a step of a pump can do. -/
inductive Life.PumpStep (s : Life) (i : Nat) : Answer → Life → Prop
  | loop {pc : PumpPc} {answer : Answer} (hlive : s.pcs (.pump i) ≠ .exited) (h : (s.pcs (.pump i)).outer = true)
      (hpc : pc.outer = true) : PumpStep s i answer (s.goto (.pump i) pc)
  | take {size : Nat} (h : s.pcs (.pump i) = .acquire size) (hfree : s.holder () = none) :
      PumpStep s i .go (s.take (.pump i) (.test size))
  | leave {size : Nat} (h : s.pcs (.pump i) = .test size) (hstop : s.world.reader.stopSet = true) :
      PumpStep s i .go (s.give (.pump i) .exited)
  | begin {size : Nat} (h : s.pcs (.pump i) = .test size) (hstop : s.world.reader.stopSet = false) :
      PumpStep s i .go (s.goto (.pump i) (.read size))
  | empty {size : Nat} (h : s.pcs (.pump i) = .read size) : PumpStep s i (.data []) (s.give (.pump i) .head)
  | data {size : Nat} {data : Bytes} (h : s.pcs (.pump i) = .read size) (hdata : data ≠ []) :
      PumpStep s i (.data data) (s.give (.pump i) (.append data))
  | fail {size : Nat} {error : String} (h : s.pcs (.pump i) = .read size) :
      PumpStep s i (.raises error) ((s.give (.pump i) .exited).setReader { s.world.reader with error := some error })
  | die {size : Nat} (h : s.pcs (.pump i) = .read size) : PumpStep s i .dies (s.give (.pump i) .exited)
  | append {data : Bytes} (h : s.pcs (.pump i) = .append data) :
      PumpStep s i .go { s.goto (.pump i) .head with world := s.world.step (.append data) }

private theorem pump_step {s s' : Life} {i : Nat} {answer : Answer} (h : s.pump i answer = some s') :
    s.PumpStep i answer s' := by
  unfold Life.pump at h
  split at h
  · rename_i hpc
    obtain rfl := Option.some.inj h
    refine .loop (by simp [hpc]) (by rw [hpc]; rfl) ?_
    split <;> rfl
  · rename_i n hpc
    obtain rfl := Option.some.inj h
    refine .loop (by simp [hpc]) (by rw [hpc]; rfl) ?_
    split <;> rfl
  · rename_i hpc
    obtain rfl := Option.some.inj h
    exact .loop (by simp [hpc]) (by rw [hpc]; rfl) rfl
  · rename_i hpc
    obtain rfl := Option.some.inj h
    exact .loop (by simp [hpc]) (by rw [hpc]; rfl) rfl
  · rename_i size hpc
    split at h
    · rename_i hfree
      obtain rfl := Option.some.inj h
      exact .take hpc hfree
    · cases h
  · rename_i size hpc
    split at h
    · rename_i hstop
      obtain rfl := Option.some.inj h
      exact .leave hpc hstop
    · rename_i hstop
      obtain rfl := Option.some.inj h
      exact .begin hpc (Bool.eq_false_iff.2 hstop)
  · rename_i size data hpc
    split at h
    · obtain rfl := Option.some.inj h
      by_cases hdata : data = []
      · subst hdata
        exact .empty hpc
      · rw [if_neg hdata]
        exact .data hpc hdata
    · cases h
  · rename_i size error hpc
    obtain rfl := Option.some.inj h
    exact .fail hpc
  · rename_i size hpc
    obtain rfl := Option.some.inj h
    exact .die hpc
  · rename_i data hpc
    obtain rfl := Option.some.inj h
    exact .append hpc
  · cases h

variable {s s' : Life} {i : Nat} {answer : Answer} {e : Event}

/-- A pump moves itself alone, and neither the attachment nor the call of `start` or `stop`. -/
structure Frame (s s' : Life) (i : Nat) : Prop where
  live : s.pcs (.pump i) ≠ .exited
  thread : s'.thread = s.thread
  owner : s'.owner = s.owner
  stopSet : s'.world.reader.stopSet = s.world.reader.stopSet
  others : ∀ c, c ≠ .pump i → s'.pcs c = s.pcs c

private theorem frame_update {s s' : Life} {i : Nat} {pc : PumpPc} (hlive : s.pcs (.pump i) ≠ .exited)
    (hthread : s'.thread = s.thread) (howner : s'.owner = s.owner)
    (hstop : s'.world.reader.stopSet = s.world.reader.stopSet)
    (hpcs : s'.pcs = Function.update s.pcs (.pump i) pc) : Frame s s' i := by
  refine ⟨hlive, hthread, howner, hstop, ?_⟩
  intro c hc
  rw [hpcs, Function.update_of_ne hc]

private theorem append_stopSet (r : SerialReader) (data : Bytes) : (r.append data).stopSet = r.stopSet := by
  unfold append
  split <;> rfl

private theorem readUntilLocked_stopSet (r : SerialReader) (needle : Bytes) :
    (r.readUntilLocked needle).2.stopSet = r.stopSet := by
  unfold readUntilLocked
  dsimp only
  cases find needle r.snapshot <;> rfl

private theorem step_stopSet (w : World) (st : Step) : (w.step st).reader.stopSet = w.reader.stopSet := by
  cases st with
  | append data => exact append_stopSet _ _
  | readUntil pattern =>
    have hstop := readUntilLocked_stopSet w.reader (encode pattern.toList)
    simp only [World.step]
    split
    · rfl
    · split <;> simp_all
  | tail size => rfl
  | stats => rfl

private theorem Life.PumpStep.frame (h : s.PumpStep i answer s') : Frame s s' i := by
  cases h with
  | loop hlive hpc hpc' => exact frame_update hlive rfl rfl rfl rfl
  | append hpc => exact frame_update (by simp [hpc]) rfl rfl (step_stopSet _ _) rfl
  | take hpc hfree => exact frame_update (by simp [hpc]) rfl rfl rfl rfl
  | leave hpc hstop => exact frame_update (by simp [hpc]) rfl rfl rfl rfl
  | begin hpc hstop => exact frame_update (by simp [hpc]) rfl rfl rfl rfl
  | empty hpc => exact frame_update (by simp [hpc]) rfl rfl rfl rfl
  | data hpc hdata => exact frame_update (by simp [hpc]) rfl rfl rfl rfl
  | fail hpc => exact frame_update (by simp [hpc]) rfl rfl rfl rfl
  | die hpc => exact frame_update (by simp [hpc]) rfl rfl rfl rfl

/-! ### One pump -/

/-- Between the test of `start` and the start of its thread. -/
def OwnerPc.starting : OwnerPc → Bool
  | .clear | .create | .spawn _ => true
  | _ => false

/-- A pump that is alive is the attached one; while a call of `start` makes one there is none. -/
structure Attached (s : Life) : Prop where
  owned : Mutex.Owned PumpPc.lock s.holder s.pcs
  live : ∀ i, s.pcs (.pump i) ≠ .exited → s.thread = some i ∧ s.owner.starting = false
  free : s.owner = .clear ∨ s.owner = .create → s.thread = none
  spawning : ∀ i, s.owner = .spawn i → s.thread = some i
  content : ∃ f, Implements s.world f

private theorem attached_of (howned : Mutex.Owned PumpPc.lock s.holder s.pcs)
    (hlive : ∀ i, s.pcs (.pump i) ≠ .exited → s.thread = some i) (howner : s.owner.starting = false)
    (hcontent : ∃ f, Implements s.world f) : Attached s where
  owned := howned
  live := fun i h => ⟨hlive i h, howner⟩
  free := by
    rintro (h | h) <;> rw [h] at howner <;> cases howner
  spawning := by
    intro i h
    rw [h] at howner
    cases howner
  content := hcontent

private theorem attached_new (maxBytes chunk : Nat) : Attached (Life.new maxBytes chunk) where
  owned := Mutex.owned_free fun c => by cases c <;> rfl
  live := fun i h => absurd rfl h
  free := fun _ => rfl
  spawning := by
    intro i h
    cases h
  content := ⟨_, implements_fresh maxBytes chunk⟩

private theorem Implements.setReader {w : World} {f : Fifo UInt8} (h : Implements w f) (stopSet : Bool)
    (error : Option String) : Implements { w with reader := { w.reader with stopSet, error } } f where
  wellFormed := ⟨h.wellFormed.offset, h.wellFormed.bytes_eq, h.wellFormed.bytes_le⟩
  stream_eq := h.stream_eq
  delivered_eq := h.delivered_eq
  lost_eq := h.lost_eq
  pending_eq := h.pending_eq

private theorem Attached.live_frame (h : Attached s) (hframe : Frame s s' i) (j : Nat)
    (hj : s'.pcs (.pump j) ≠ .exited) :
    s'.thread = some j ∧ s'.owner.starting = false := by
  rw [hframe.thread, hframe.owner]
  by_cases hij : j = i
  · subst hij
    exact h.live j hframe.live
  · rw [hframe.others (.pump j) fun heq => hij (by cases heq; rfl)] at hj
    exact h.live j hj

private theorem outer_lock {pc : PumpPc} (h : pc.outer = true) : pc.lock = none := by
  cases pc <;> first | rfl | cases h

theorem Attached.pump (h : Attached s) (hstep : s.PumpStep i answer s') : Attached s' := by
  have hframe := hstep.frame
  obtain ⟨f, hf⟩ := h.content
  have hgive : ∀ {pc pc' : PumpPc}, s.pcs (.pump i) = pc → pc.lock = some () → pc'.lock = none →
      Mutex.Owned PumpPc.lock (Mutex.release () s.holder) (Function.update s.pcs (.pump i) pc') := by
    intro pc pc' hpc hlock hnone
    exact h.owned.release (by rw [hpc, hlock]) hnone
  have hstay : ∀ {pc pc' : PumpPc}, s.pcs (.pump i) = pc → pc'.lock = pc.lock →
      Mutex.Owned PumpPc.lock s.holder (Function.update s.pcs (.pump i) pc') := by
    intro pc pc' hpc hsame
    exact h.owned.stay (by rw [hpc, hsame])
  refine ⟨?_, h.live_frame hframe, ?_, ?_, ?_⟩
  · cases hstep with
    | loop hlive hpc hpc' => exact hstay rfl ((outer_lock hpc').trans (outer_lock hpc).symm)
    | take hpc hfree => exact h.owned.acquire (by rw [hpc]; rfl) hfree rfl
    | leave hpc hstop => exact hgive hpc rfl rfl
    | begin hpc hstop => exact hstay hpc rfl
    | empty hpc => exact hgive hpc rfl rfl
    | data hpc hdata => exact hgive hpc rfl rfl
    | fail hpc => exact hgive hpc rfl rfl
    | die hpc => exact hgive hpc rfl rfl
    | append hpc => exact hstay hpc rfl
  · rw [hframe.owner, hframe.thread]
    exact h.free
  · rw [hframe.owner, hframe.thread]
    exact h.spawning
  · cases hstep with
    | @append data hpc => exact implements_step hf (.append data)
    | fail hpc => exact ⟨f, hf.setReader _ _⟩
    | _ => exact ⟨f, hf⟩

theorem Attached.own (h : Attached s) (hstep : s.own = some s') : Attached s' := by
  unfold Life.own at hstep
  obtain ⟨f, hf⟩ := h.content
  have hdetached : s.thread = none → ∀ i, s.pcs (.pump i) = .exited := by
    intro hnone i
    by_contra hlive
    have hthread := (h.live i hlive).1
    rw [hnone] at hthread
    cases hthread
  cases howner : s.owner with
  | idle =>
    rw [howner] at hstep
    cases hstep
  | clear =>
    rw [howner] at hstep
    obtain rfl := Option.some.inj hstep
    have hnone := h.free (.inl howner)
    refine ⟨h.owned, fun i hi => absurd (hdetached hnone i) hi, fun _ => hnone, ?_, ⟨f, hf.setReader _ _⟩⟩
    intro i hi
    cases hi
  | create =>
    rw [howner] at hstep
    obtain rfl := Option.some.inj hstep
    have hnone := h.free (.inr howner)
    refine ⟨h.owned, fun i hi => absurd (hdetached hnone i) hi, ?_, ?_, ⟨f, hf⟩⟩
    · rintro (hstart | hstart) <;> cases hstart
    · intro i hi
      cases hi
      rfl
  | spawn i =>
    rw [howner] at hstep
    obtain rfl := Option.some.inj hstep
    have hdead : ∀ j, s.pcs (.pump j) = .exited := by
      intro j
      by_contra hlive
      have hstarting := (h.live j hlive).2
      rw [howner] at hstarting
      cases hstarting
    refine attached_of (h.owned.stay (by rw [hdead i]; rfl)) ?_ rfl ⟨f, hf⟩
    intro j hj
    by_cases hij : j = i
    · subst hij
      exact h.spawning j howner
    · have hother : (Function.update s.pcs (.pump i) .head) (.pump j) = s.pcs (.pump j) :=
        Function.update_of_ne (fun heq => hij (by cases heq; rfl)) _ _
      exact absurd (hother.trans (hdead j)) hj
  | look =>
    rw [howner] at hstep
    obtain rfl := Option.some.inj hstep
    refine attached_of h.owned (fun i hi => (h.live i hi).1) ?_ ⟨f, hf⟩
    dsimp only
    split <;> rfl
  | join =>
    rw [howner] at hstep
    obtain rfl := Option.some.inj hstep
    exact attached_of h.owned (fun i hi => (h.live i hi).1) rfl ⟨f, hf⟩
  | alive =>
    rw [howner] at hstep
    dsimp only at hstep
    split at hstep
    · cases hstep
    · rename_i i hthread
      obtain rfl := Option.some.inj hstep
      refine attached_of h.owned ?_ rfl ⟨f, hf⟩
      intro j hj
      have hlive := (h.live j hj).1
      rw [hthread] at hlive
      obtain rfl := Option.some.inj hlive
      exact if_neg hj

private theorem pump_of_writer {pcs : Client → PumpPc} (w : Nat) (pc : PumpPc)
    (h : (Function.update pcs (.writer w) pc) (.pump i) ≠ .exited) : pcs (.pump i) ≠ .exited := by
  have hother : (Function.update pcs (.writer w) pc) (.pump i) = pcs (.pump i) :=
    Function.update_of_ne (fun heq => by cases heq) _ _
  rwa [hother] at h

theorem Attached.step (h : Attached s) (hstep : s.step e = some s') : Attached s' := by
  obtain ⟨f, hf⟩ := h.content
  cases e with
  | start =>
    rw [Life.step] at hstep
    split at hstep
    · rename_i howner
      obtain rfl := Option.some.inj hstep
      by_cases hnone : s.thread = none
      · rw [if_pos hnone]
        refine ⟨h.owned, ?_, fun _ => hnone, ?_, ⟨f, hf⟩⟩
        · intro i hi
          have hlive := (h.live i hi).1
          rw [hnone] at hlive
          cases hlive
        · intro i hi
          cases hi
      · rw [if_neg hnone]
        exact h
    · cases hstep
  | stop =>
    rw [Life.step] at hstep
    split at hstep
    · obtain rfl := Option.some.inj hstep
      exact attached_of h.owned (fun i hi => (h.live i hi).1) rfl ⟨f, hf.setReader _ _⟩
    · cases hstep
  | owner => exact h.own hstep
  | pump i answer => exact h.pump (pump_step hstep)
  | readUntil pattern =>
    obtain rfl := Option.some.inj hstep
    exact ⟨h.owned, h.live, h.free, h.spawning, implements_step hf (.readUntil pattern)⟩
  | lock w =>
    rw [Life.step] at hstep
    split at hstep
    · rename_i hfree
      obtain rfl := Option.some.inj hstep
      refine ⟨h.owned.acquire (by rw [hfree.1]; rfl) hfree.2 rfl, ?_, h.free, h.spawning, ⟨f, hf⟩⟩
      intro i hi
      exact h.live i (pump_of_writer w .writing hi)
    · cases hstep
  | unlock w =>
    rw [Life.step] at hstep
    split at hstep
    · rename_i hwriting
      obtain rfl := Option.some.inj hstep
      have howned := h.owned.release (k := ()) (t := .writer w) (by rw [hwriting]; rfl) (show PumpPc.outside.lock = none from rfl)
      refine ⟨howned, ?_, h.free, h.spawning, ⟨f, hf⟩⟩
      intro i hi
      exact h.live i (pump_of_writer w .outside hi)
    · cases hstep

/-! ### What is taken from the port -/

private theorem carried_of_thread (hthread : s.thread = some i) : s.carried =
    match s.pcs (.pump i) with
    | .append data => data
    | _ => [] := by
  rw [Life.carried, hthread]

private theorem carried_of_ne (hthread : s.thread = some i) (h : ∀ data, s.pcs (.pump i) ≠ .append data) :
    s.carried = [] := by
  rw [carried_of_thread hthread]
  split
  · rename_i data hdata
    exact absurd hdata (h data)
  · rfl

private theorem carried_of_append {data : Bytes} (hthread : s.thread = some i) (h : s.pcs (.pump i) = .append data) :
    s.carried = data := by
  rw [carried_of_thread hthread, h]

/-- A step of the pump takes what it carries or has appended behind it. -/
private theorem pump_conserves (h : Attached s) (hstep : s.PumpStep i answer s') :
    s'.world.ingested ++ s'.carried =
      s.world.ingested ++ s.carried ++ ((taken s (.pump i answer)).toList).flatten := by
  have hframe := hstep.frame
  have hthread := (h.live i hframe.live).1
  have hthread' := hframe.thread.trans hthread
  have hat : ∀ {t : Life} {pc : PumpPc}, t.thread = some i → t.pcs = Function.update s.pcs (.pump i) pc →
      (∀ data, pc ≠ .append data) → t.carried = [] := by
    intro t pc ht hpcs hpc
    refine carried_of_ne ht fun data hdata => hpc data ?_
    rw [hpcs, Function.update_self] at hdata
    exact hdata
  cases hstep with
  | @loop pc answer hlive hpc hpc' =>
    have hbefore : s.carried = [] := carried_of_ne hthread fun data hdata => by rw [hdata] at hpc; cases hpc
    have hafter := hat hthread' rfl fun data hdata => by rw [hdata] at hpc'; cases hpc'
    have hnone : taken s (.pump i answer) = none := by
      cases answer with
      | data data =>
        rw [taken]
        split
        · rename_i size hread
          rw [hread] at hpc
          cases hpc
        · rfl
      | _ => rfl
    rw [hbefore, hafter, hnone]
    simp [Life.goto]
  | take hpc hfree =>
    rw [carried_of_ne hthread (by simp [hpc]), hat hthread' rfl (by simp)]
    simp [taken, Life.take, Life.goto]
  | leave hpc hstop =>
    rw [carried_of_ne hthread (by simp [hpc]), hat hthread' rfl (by simp)]
    simp [taken, Life.give, Life.goto]
  | begin hpc hstop =>
    rw [carried_of_ne hthread (by simp [hpc]), hat hthread' rfl (by simp)]
    simp [taken, Life.goto]
  | empty hpc =>
    rw [carried_of_ne hthread (by simp [hpc]), hat hthread' rfl (by simp)]
    simp [taken, hpc, Life.give, Life.goto]
  | @data size data hpc hdata =>
    have hafter : (s.give (.pump i) (.append data)).carried = data :=
      carried_of_append hthread' (Function.update_self _ _ _)
    rw [carried_of_ne hthread (by simp [hpc]), hafter]
    simp [taken, hpc, Life.give, Life.goto]
  | fail hpc =>
    rw [carried_of_ne hthread (by simp [hpc]), hat hthread' rfl (by simp)]
    simp [taken, Life.setReader, Life.give, Life.goto]
  | die hpc =>
    rw [carried_of_ne hthread (by simp [hpc]), hat hthread' rfl (by simp)]
    simp [taken, Life.give, Life.goto]
  | @append data hpc =>
    rw [carried_of_append hthread hpc, hat hthread' rfl (by simp)]
    simp [taken, World.step]

/-- Of the rest, none touches what a pump carries. -/
private theorem own_carried (h : Attached s) (hstep : s.own = some s') :
    s'.world.ingested = s.world.ingested ∧ s'.carried = s.carried := by
  have hdead : ∀ i, s.thread ≠ some i ∨ s.owner.starting = true → s.pcs (.pump i) = .exited := by
    intro i hi
    by_contra hlive
    obtain ⟨hthread, hstarting⟩ := h.live i hlive
    rcases hi with hi | hi
    · exact hi hthread
    · rw [hstarting] at hi
      cases hi
  unfold Life.own at hstep
  cases howner : s.owner with
  | idle =>
    rw [howner] at hstep
    cases hstep
  | clear =>
    rw [howner] at hstep
    obtain rfl := Option.some.inj hstep
    exact ⟨rfl, rfl⟩
  | create =>
    rw [howner] at hstep
    obtain rfl := Option.some.inj hstep
    refine ⟨rfl, ?_⟩
    have hnone := h.free (.inr howner)
    have hexited := hdead s.created (.inl (by simp [hnone]))
    rw [carried_of_ne rfl (by simp [hexited]), Life.carried, hnone]
  | spawn i =>
    rw [howner] at hstep
    obtain rfl := Option.some.inj hstep
    refine ⟨rfl, ?_⟩
    have hthread := h.spawning i howner
    have hexited := hdead i (.inr (by rw [howner]; rfl))
    have hafter : (Function.update s.pcs (.pump i) .head) (.pump i) = .head := Function.update_self _ _ _
    rw [carried_of_ne hthread (by simp [hexited])]
    exact carried_of_ne hthread fun data hdata => by cases hafter.symm.trans hdata
  | look =>
    rw [howner] at hstep
    obtain rfl := Option.some.inj hstep
    exact ⟨rfl, rfl⟩
  | join =>
    rw [howner] at hstep
    obtain rfl := Option.some.inj hstep
    exact ⟨rfl, rfl⟩
  | alive =>
    rw [howner] at hstep
    dsimp only at hstep
    split at hstep
    · cases hstep
    · rename_i i hthread
      obtain rfl := Option.some.inj hstep
      refine ⟨rfl, ?_⟩
      by_cases hexited : s.pcs (.pump i) = .exited
      · rw [carried_of_ne hthread (by simp [hexited]), if_pos hexited]
        rfl
      · rw [if_neg hexited, carried_of_thread hthread, carried_of_thread rfl]

private theorem step_conserves (h : Attached s) (hstep : s.step e = some s') :
    s'.world.ingested ++ s'.carried = s.world.ingested ++ s.carried ++ ((taken s e).toList).flatten := by
  cases e with
  | start =>
    rw [Life.step] at hstep
    split at hstep
    · obtain rfl := Option.some.inj hstep
      split <;> simp [taken, Life.carried]
    · cases hstep
  | stop =>
    rw [Life.step] at hstep
    split at hstep
    · obtain rfl := Option.some.inj hstep
      simp [taken, Life.carried, Life.setReader]
    · cases hstep
  | owner =>
    obtain ⟨hingested, hcarried⟩ := own_carried h hstep
    rw [hingested, hcarried]
    simp [taken]
  | pump i answer => exact pump_conserves h (pump_step hstep)
  | readUntil pattern =>
    obtain rfl := Option.some.inj hstep
    have hingested : (s.world.step (.readUntil pattern)).ingested = s.world.ingested := by
      simp only [World.step]
      split
      · rfl
      · split <;> rfl
    rw [hingested]
    simp [taken, Life.carried]
  | lock w =>
    rw [Life.step] at hstep
    split at hstep
    · obtain rfl := Option.some.inj hstep
      simp [taken, Life.carried, Life.take, Life.goto]
    · cases hstep
  | unlock w =>
    rw [Life.step] at hstep
    split at hstep
    · obtain rfl := Option.some.inj hstep
      simp [taken, Life.carried, Life.give, Life.goto]
    · cases hstep

private theorem run_conserves {events : List Event} (h : Attached s) (hrun : run Life.step s events = some s') :
    Attached s' ∧
      s'.world.ingested ++ s'.carried = s.world.ingested ++ s.carried ++ (seen Life.step taken s events).flatten := by
  induction events generalizing s with
  | nil =>
    obtain rfl := Option.some.inj hrun
    exact ⟨h, by simp [seen]⟩
  | cons e events ih =>
    obtain ⟨t, ht, hrest⟩ := run_cons_eq_some.1 hrun
    obtain ⟨hattached, hlater⟩ := ih (h.step ht) hrest
    refine ⟨hattached, ?_⟩
    rw [hlater, step_conserves h ht, seen_cons ht, List.flatten_append, List.append_assoc]

/-! ### Behind a stop -/

/-- The attached pump is in a read. -/
def Life.inRead (s : Life) : Nat :=
  match s.thread with
  | none => 0
  | some i =>
    match s.pcs (.pump i) with
    | .read _ => 1
    | _ => 0

/-- `_stop` is set, and no call of `start` is about to clear it. -/
structure Stopping (s : Life) : Prop where
  attached : Attached s
  stopSet : s.world.reader.stopSet = true
  notStarting : s.owner.starting = false

private theorem inRead_of_thread (hthread : s.thread = some i) : s.inRead =
    match s.pcs (.pump i) with
    | .read _ => 1
    | _ => 0 := by
  rw [Life.inRead, hthread]

private theorem inRead_le_one (s : Life) : s.inRead ≤ 1 := by
  unfold Life.inRead
  split
  · exact Nat.zero_le 1
  · split <;> simp

private theorem inRead_of_ne (hthread : s.thread = some i) (h : ∀ size, s.pcs (.pump i) ≠ .read size) :
    s.inRead = 0 := by
  rw [inRead_of_thread hthread]
  split
  · rename_i size hsize
    exact absurd hsize (h size)
  · rfl

private theorem reads_of_stopSet (hstop : s.world.reader.stopSet = true) (e : Event) : reads s e = none := by
  unfold reads
  split
  · split
    · rw [if_pos hstop]
    · rfl
  · rfl

/-- Behind a stop a pump takes no more than the read that it is in. -/
private theorem pump_stopping (h : Stopping s) (hstep : s.PumpStep i answer s') :
    (taken s (.pump i answer)).toList.length + s'.inRead ≤ s.inRead := by
  have hframe := hstep.frame
  have hthread := (h.attached.live i hframe.live).1
  have hthread' := hframe.thread.trans hthread
  have hat : ∀ {t : Life} {pc : PumpPc}, t.thread = some i → t.pcs = Function.update s.pcs (.pump i) pc →
      (∀ size, pc ≠ .read size) → t.inRead = 0 := by
    intro t pc ht hpcs hpc
    refine inRead_of_ne ht fun size hsize => hpc size ?_
    rw [hpcs, Function.update_self] at hsize
    exact hsize
  have hread : ∀ {size : Nat}, s.pcs (.pump i) = .read size → s.inRead = 1 := by
    intro size hpc
    rw [inRead_of_thread hthread, hpc]
  have htaken : (taken s (.pump i answer)).toList.length ≤ 1 := by
    cases taken s (.pump i answer) <;> simp
  have hnone : (∀ size, s.pcs (.pump i) ≠ .read size) → taken s (.pump i answer) = none := by
    intro hpc
    unfold taken
    cases answer with
    | data data =>
      dsimp only
      split
      · rename_i size hsize
        exact absurd hsize (hpc size)
      · rfl
    | _ => rfl
  cases hstep with
  | loop hlive hpc hpc' =>
    rw [hnone fun size hsize => (by rw [hsize] at hpc; cases hpc),
      hat hthread' rfl fun size hsize => (by rw [hsize] at hpc'; cases hpc')]
    exact Nat.zero_le _
  | take hpc hfree =>
    rw [hnone (by simp [hpc]), hat hthread' rfl (by simp)]
    exact Nat.zero_le _
  | leave hpc hstop =>
    rw [hnone (by simp [hpc]), hat hthread' rfl (by simp)]
    exact Nat.zero_le _
  | begin hpc hstop =>
    rw [h.stopSet] at hstop
    cases hstop
  | empty hpc =>
    rw [hat hthread' rfl (by simp), hread hpc]
    exact htaken
  | data hpc hdata =>
    rw [hat hthread' rfl (by simp), hread hpc]
    exact htaken
  | fail hpc =>
    rw [hat hthread' rfl (by simp), hread hpc]
    exact htaken
  | die hpc =>
    rw [hat hthread' rfl (by simp), hread hpc]
    exact htaken
  | append hpc =>
    rw [hnone (by simp [hpc]), hat hthread' rfl (by simp)]
    exact Nat.zero_le _

private theorem own_stopping (h : Stopping s) (hstep : s.own = some s') : Stopping s' ∧ s'.inRead ≤ s.inRead := by
  have hattached := h.attached.own hstep
  have hstarting := h.notStarting
  unfold Life.own at hstep
  cases howner : s.owner with
  | idle =>
    rw [howner] at hstep
    cases hstep
  | clear | create | spawn i =>
    rw [howner] at hstarting
    cases hstarting
  | look =>
    rw [howner] at hstep
    obtain rfl := Option.some.inj hstep
    refine ⟨⟨hattached, h.stopSet, ?_⟩, Nat.le_refl _⟩
    dsimp only
    split <;> rfl
  | join =>
    rw [howner] at hstep
    obtain rfl := Option.some.inj hstep
    exact ⟨⟨hattached, h.stopSet, rfl⟩, Nat.le_refl _⟩
  | alive =>
    rw [howner] at hstep
    dsimp only at hstep
    split at hstep
    · cases hstep
    · rename_i i hthread
      obtain rfl := Option.some.inj hstep
      refine ⟨⟨hattached, h.stopSet, rfl⟩, ?_⟩
      by_cases hexited : s.pcs (.pump i) = .exited
      · rw [if_pos hexited]
        exact Nat.zero_le _
      · rw [if_neg hexited, inRead_of_thread hthread, inRead_of_thread rfl]

private theorem step_stopping (h : Stopping s) (hstart : e ≠ .start) (hstep : s.step e = some s') :
    Stopping s' ∧ (taken s e).toList.length + s'.inRead ≤ s.inRead := by
  have hattached := h.attached.step hstep
  cases e with
  | start => exact absurd rfl hstart
  | stop =>
    rw [Life.step] at hstep
    split at hstep
    · obtain rfl := Option.some.inj hstep
      exact ⟨⟨hattached, rfl, rfl⟩, by simp [taken, Life.inRead, Life.setReader]⟩
    · cases hstep
  | owner =>
    obtain ⟨hstopping, hle⟩ := own_stopping h hstep
    exact ⟨hstopping, by simpa [taken] using hle⟩
  | pump i answer =>
    have hpump := pump_step hstep
    have hframe := hpump.frame
    exact ⟨⟨hattached, hframe.stopSet.trans h.stopSet, by rw [hframe.owner]; exact h.notStarting⟩, pump_stopping h hpump⟩
  | readUntil pattern =>
    obtain rfl := Option.some.inj hstep
    exact ⟨⟨hattached, (step_stopSet s.world (.readUntil pattern)).trans h.stopSet, h.notStarting⟩,
      by simp [taken, Life.inRead]⟩
  | lock w =>
    rw [Life.step] at hstep
    split at hstep
    · obtain rfl := Option.some.inj hstep
      exact ⟨⟨hattached, h.stopSet, h.notStarting⟩, by simp [taken, Life.inRead, Life.take, Life.goto]⟩
    · cases hstep
  | unlock w =>
    rw [Life.step] at hstep
    split at hstep
    · obtain rfl := Option.some.inj hstep
      exact ⟨⟨hattached, h.stopSet, h.notStarting⟩, by simp [taken, Life.inRead, Life.give, Life.goto]⟩
    · cases hstep

private theorem run_stopping {events : List Event} (h : Stopping s) (hstart : .start ∉ events)
    (hrun : run Life.step s events = some s') :
    seen Life.step reads s events = [] ∧ (seen Life.step taken s events).length + s'.inRead ≤ s.inRead := by
  induction events generalizing s with
  | nil =>
    obtain rfl := Option.some.inj hrun
    exact ⟨rfl, by simp [seen]⟩
  | cons e events ih =>
    obtain ⟨t, ht, hrest⟩ := run_cons_eq_some.1 hrun
    have hfirst : e ≠ .start := fun heq => hstart (heq ▸ List.mem_cons_self)
    obtain ⟨hstopping, hnow⟩ := step_stopping h hfirst ht
    obtain ⟨hreads, hlater⟩ := ih hstopping (fun hmem => hstart (List.mem_cons_of_mem e hmem)) hrest
    rw [seen_cons ht, seen_cons ht, reads_of_stopSet h.stopSet e, hreads, List.length_append]
    exact ⟨rfl, by omega⟩

/-! ### Every run -/

/-- In every run of one reader, started and stopped any number of times: at most one pump is alive, and it is the
attached one; it does not read while another thread writes under `io_lock`; and what the pumps have taken from the port
has arrived in the buffer, where a byte is returned once, evicted or pending, up to what the attached pump carries.
Behind `_stop.set()`, until the next `start`, no read begins, and at most the one under way takes anything; without an
attached pump nothing is taken. -/
theorem life_run {maxBytes chunk : Nat} {before during : List Event} {s s' : Life}
    (hbefore : run Life.step (Life.new maxBytes chunk) before = some s) :
    (∀ i, s.pcs (.pump i) ≠ .exited → s.thread = some i) ∧
      (∀ i size w, s.pcs (.pump i) = .read size → s.pcs (.writer w) ≠ .writing) ∧
      (∃ f : Fifo UInt8, stream f ++ s.carried = (seen Life.step taken (Life.new maxBytes chunk) before).flatten ∧
        delivered f = s.world.returned ∧ lostCount f = s.world.reader.dropped ∧
        f.pending = s.world.reader.snapshot) ∧
      (s.thread = none → s.carried = []) ∧
      (s.world.reader.stopSet = true → s.owner.starting = false → .start ∉ during →
        run Life.step s during = some s' →
        seen Life.step reads s during = [] ∧ (seen Life.step taken s during).length ≤ 1 ∧
          (s.thread = none → seen Life.step taken s during = [])) := by
  obtain ⟨hattached, hconserved⟩ := run_conserves (attached_new maxBytes chunk) hbefore
  refine ⟨fun i hi => (hattached.live i hi).1, ?_, ?_, ?_, ?_⟩
  · intro i size w hread hwriting
    have hsame := hattached.owned.exclusive (k := ()) (show PumpPc.lock (s.pcs (.pump i)) = some () by rw [hread]; rfl)
      (show PumpPc.lock (s.pcs (.writer w)) = some () by rw [hwriting]; rfl)
    cases hsame
  · obtain ⟨f, hf⟩ := hattached.content
    refine ⟨f, ?_, hf.delivered_eq, hf.lost_eq, hf.pending_eq⟩
    rw [hf.stream_eq, hconserved]
    rfl
  · intro hnone
    rw [Life.carried, hnone]
  · intro hstop hstarting hstart hduring
    obtain ⟨hreads, htaken⟩ := run_stopping ⟨hattached, hstop, hstarting⟩ hstart hduring
    have hone := inRead_le_one s
    refine ⟨hreads, by omega, ?_⟩
    intro hnone
    have hzero : s.inRead = 0 := by rw [Life.inRead, hnone]
    exact List.length_eq_zero_iff.1 (by omega)

/-- A stop whose join times out while the pump reads: the read under way takes its bytes, and the buffer gets them. -/
def stopsInRead : List Event :=
  [.start, .owner, .owner, .owner, .pump 0 .go, .pump 0 (.waiting 2), .pump 0 .go, .pump 0 .go, .stop]

def readComesBack : List Event :=
  [.owner, .owner, .owner, .pump 0 (.data [65, 66]), .pump 0 .go, .pump 0 .go, .stop, .owner, .owner, .owner]

theorem life_run_stopsInRead : ∃ s s' : Life, run Life.step (Life.new 1024 512) stopsInRead = some s ∧
    run Life.step s readComesBack = some s' ∧ s.thread = some 0 ∧ s'.thread = none ∧
    s'.world.reader.snapshot = [65, 66] ∧ (seen Life.step taken s readComesBack).length ≤ 1 := by
  refine ⟨_, _, rfl, rfl, rfl, rfl, rfl, ?_⟩
  have hbefore : run Life.step (Life.new 1024 512) stopsInRead = some _ := rfl
  exact ((life_run hbefore).2.2.2.2 rfl rfl (by decide) rfl).2.1

end IronHarness.SerialReader
