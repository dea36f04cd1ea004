import IronHarness.Lib.Bytes
import IronHarness.Lib.Census
import IronHarness.Lib.LossyFifo
import IronHarness.Lib.Mutex
import Mathlib.Algebra.Order.Monoid.Defs

/-!
# The inbox of an MQTT connection

`_on_message` and `read_message` of `MqttTransport` (io_core/mqtt_transport.py): network threads append to a bounded deque
under a condition, and any number of readers take from it, each until its own deadline.  In any interleaving the messages
that arrive are returned once and in order, or pushed out by newer ones while the deque is full; and a message that is there
while somebody reads is returned within four steps, whoever sleeps (`inbox_delivers`).
-/

namespace IronHarness.Mqtt

open ByteText LossyFifo Runs

/-- `{"topic", "payload"}` -/
structure InboxItem where
  topic : String
  payload : String
  deriving DecidableEq

/-- The item of a message; the payload is decoded with replacement characters. -/
def InboxItem.of (topic : String) (payload : Bytes) : InboxItem := ⟨topic, String.ofList (decodeReplace payload)⟩

/-- The arguments of a call of `read_message`, and its deadline. -/
structure ReadCall (T : Type) where
  timeout : T
  deadline : T

/-- Where a thread is: in `_on_message`, with its item, or in `read_message`. -/
inductive InboxPc (T : Type)
  | idle
  | arrives (m : InboxItem)
  | appends (m : InboxItem)
  | notifies (m : InboxItem)
  | emits (m : InboxItem)
  /-- wants the lock, at first or behind a wait -/
  | wants (c : ReadCall T)
  | checks (c : ReadCall T)
  | asleep (c : ReadCall T)

/-- The threads that are in a `with self._inbox_cond` and do not wait. -/
def InboxPc.lock {T : Type} : InboxPc T → Option Unit
  | .appends _ | .notifies _ | .checks _ => some ()
  | _ => none

/-- What `notify_all` does to a thread. -/
def InboxPc.wake {T : Type} : InboxPc T → InboxPc T
  | .asleep c => .wants c
  | pc => pc

inductive InboxEvent (T : Type)
  | message (m : InboxItem)
  | readTimeout (timeout : T)

variable {τ T : Type}

structure Inbox (τ T : Type) where
  queueSize : Nat
  inbox : List InboxItem
  holder : Mutex.Table Unit τ
  pcs : τ → InboxPc T
  now : T
  events : List (InboxEvent T)

def Inbox.init (queueSize : Nat) (now : T) : Inbox τ T := ⟨queueSize, [], fun _ => none, fun _ => .idle, now, []⟩

inductive InboxAct (τ T : Type)
  | tick (now : T)
  | onMessage (t : τ) (topic : String) (payload : Bytes)
  | readMessage (t : τ) (timeout : T)
  | step (t : τ)
  /-- a `wait` that is over: its time is up, or it wakes for no reason -/
  | wakes (t : τ)

section

variable [DecidableEq τ] [LinearOrder T] [AddCommGroup T]

def Inbox.goto (s : Inbox τ T) (t : τ) (pc : InboxPc T) : Inbox τ T := { s with pcs := Function.update s.pcs t pc }

def Inbox.take (s : Inbox τ T) (t : τ) (pc : InboxPc T) : Inbox τ T :=
  { s.goto t pc with holder := Mutex.acquire () t s.holder }

def Inbox.enter (s : Inbox τ T) (t : τ) (pc : InboxPc T) : Option (Inbox τ T) :=
  if s.holder () = none then some (s.take t pc) else none

def Inbox.leave (s : Inbox τ T) (t : τ) (pc : InboxPc T) : Inbox τ T :=
  { s.goto t pc with holder := Mutex.release () s.holder }

/-- `deque(maxlen)` drops its oldest item where it is full. -/
def pushBounded (queueSize : Nat) (inbox : List InboxItem) (m : InboxItem) : List InboxItem :=
  (inbox ++ [m]).drop (inbox.length + 1 - queueSize)

/-- `notify_all` -/
def Inbox.wakeAll (s : Inbox τ T) : Inbox τ T := { s with pcs := fun u => (s.pcs u).wake }

/-- The next step of a thread; `notify_all` and the end of its `with` are one. -/
def Inbox.next (s : Inbox τ T) (t : τ) : Option (Inbox τ T) :=
  match s.pcs t with
  | .idle | .asleep _ => none
  | .arrives m => s.enter t (.appends m)
  | .appends m => some { s.goto t (.notifies m) with inbox := pushBounded s.queueSize s.inbox m }
  | .notifies m => some (s.wakeAll.leave t (.emits m))
  | .emits m => some { s.goto t .idle with events := s.events ++ [.message m] }
  | .wants c => s.enter t (.checks c)
  | .checks c =>
    match s.inbox with
    | _ :: rest => some { s.leave t .idle with inbox := rest }
    | [] =>
      if c.deadline ≤ s.now then some { s.leave t .idle with events := s.events ++ [.readTimeout c.timeout] }
      else some (s.leave t (.asleep c))

def Inbox.act (s : Inbox τ T) : InboxAct τ T → Option (Inbox τ T)
  | .tick now => if s.now ≤ now then some { s with now := now } else none
  | .onMessage t topic payload =>
    match s.pcs t with
    | .idle => some (s.goto t (.arrives (.of topic payload)))
    | _ => none
  | .readMessage t timeout =>
    match s.pcs t with
    | .idle => some (s.goto t (.wants ⟨timeout, s.now + timeout⟩))
    | _ => none
  | .step t => s.next t
  | .wakes t =>
    match s.pcs t with
    | .asleep c => some (s.goto t (.wants c))
    | _ => none

/-! ### What is seen of a run -/

def appended (s : Inbox τ T) : InboxAct τ T → Option InboxItem
  | .step t =>
    match s.pcs t with
    | .appends m => some m
    | _ => none
  | _ => none

/-- The append finds the deque full. -/
def overflowed (s : Inbox τ T) : InboxAct τ T → Option InboxItem
  | .step t =>
    match s.pcs t with
    | .appends m => if s.inbox.length < s.queueSize then none else (s.inbox ++ [m]).head?
    | _ => none
  | _ => none

/-- A call returns a message. -/
def popped (s : Inbox τ T) : InboxAct τ T → Option InboxItem
  | .step t =>
    match s.pcs t with
    | .checks _ => s.inbox.head?
    | _ => none
  | _ => none

/-- A call returns `None`. -/
def timedOut (s : Inbox τ T) : InboxAct τ T → Option T
  | .step t =>
    match s.pcs t with
    | .checks c => if s.inbox = [] ∧ c.deadline ≤ s.now then some c.timeout else none
    | _ => none
  | _ => none

/-! ### What a step does -/

inductive Inbox.Steps (s : Inbox τ T) : InboxAct τ T → Inbox τ T → Prop
  | tick {now : T} : s.Steps (.tick now) { s with now := now }
  | onMessage {t : τ} {topic : String} {payload : Bytes} (hpc : s.pcs t = .idle) :
    s.Steps (.onMessage t topic payload) (s.goto t (.arrives (.of topic payload)))
  | readMessage {t : τ} {timeout : T} (hpc : s.pcs t = .idle) :
    s.Steps (.readMessage t timeout) (s.goto t (.wants ⟨timeout, s.now + timeout⟩))
  | arrive {t : τ} {m : InboxItem} (hpc : s.pcs t = .arrives m) (hfree : s.holder () = none) :
    s.Steps (.step t) (s.take t (.appends m))
  | append {t : τ} {m : InboxItem} (hpc : s.pcs t = .appends m) :
    s.Steps (.step t) { s.goto t (.notifies m) with inbox := pushBounded s.queueSize s.inbox m }
  | notify {t : τ} {m : InboxItem} (hpc : s.pcs t = .notifies m) : s.Steps (.step t) (s.wakeAll.leave t (.emits m))
  | emit {t : τ} {m : InboxItem} (hpc : s.pcs t = .emits m) :
    s.Steps (.step t) { s.goto t .idle with events := s.events ++ [.message m] }
  | enter {t : τ} {c : ReadCall T} (hpc : s.pcs t = .wants c) (hfree : s.holder () = none) :
    s.Steps (.step t) (s.take t (.checks c))
  | pop {t : τ} {c : ReadCall T} {m : InboxItem} {rest : List InboxItem} (hpc : s.pcs t = .checks c)
    (hinbox : s.inbox = m :: rest) : s.Steps (.step t) { s.leave t .idle with inbox := rest }
  | timeOut {t : τ} {c : ReadCall T} (hpc : s.pcs t = .checks c) (hinbox : s.inbox = []) (hlate : c.deadline ≤ s.now) :
    s.Steps (.step t) { s.leave t .idle with events := s.events ++ [.readTimeout c.timeout] }
  | sleep {t : τ} {c : ReadCall T} (hpc : s.pcs t = .checks c) (hinbox : s.inbox = []) (hearly : ¬ c.deadline ≤ s.now) :
    s.Steps (.step t) (s.leave t (.asleep c))
  | wakes {t : τ} {c : ReadCall T} (hpc : s.pcs t = .asleep c) : s.Steps (.wakes t) (s.goto t (.wants c))

theorem step_steps {s s' : Inbox τ T} {a : InboxAct τ T} (h : s.act a = some s') : s.Steps a s' := by
  cases a with
  | tick now =>
    rw [Inbox.act] at h
    split at h
    · obtain rfl := Option.some.inj h
      exact .tick
    · cases h
  | onMessage t topic payload =>
    rw [Inbox.act] at h
    split at h
    · obtain rfl := Option.some.inj h
      exact .onMessage ‹_›
    · cases h
  | readMessage t timeout =>
    rw [Inbox.act] at h
    split at h
    · obtain rfl := Option.some.inj h
      exact .readMessage ‹_›
    · cases h
  | wakes t =>
    rw [Inbox.act] at h
    split at h
    · obtain rfl := Option.some.inj h
      exact .wakes ‹_›
    · cases h
  | step t =>
    rw [Inbox.act, Inbox.next] at h
    cases hpc : s.pcs t with
    | idle => rw [hpc] at h; cases h
    | asleep c => rw [hpc] at h; cases h
    | arrives m =>
      rw [hpc] at h
      dsimp only [Inbox.enter] at h
      split at h
      · obtain rfl := Option.some.inj h
        exact .arrive hpc ‹_›
      · cases h
    | appends m =>
      rw [hpc] at h
      obtain rfl := Option.some.inj h
      exact .append hpc
    | notifies m =>
      rw [hpc] at h
      obtain rfl := Option.some.inj h
      exact .notify hpc
    | emits m =>
      rw [hpc] at h
      obtain rfl := Option.some.inj h
      exact .emit hpc
    | wants c =>
      rw [hpc] at h
      dsimp only [Inbox.enter] at h
      split at h
      · obtain rfl := Option.some.inj h
        exact .enter hpc ‹_›
      · cases h
    | checks c =>
      rw [hpc] at h
      dsimp only at h
      split at h
      · obtain rfl := Option.some.inj h
        exact .pop hpc ‹_›
      · rename_i hinbox
        split at h
        · obtain rfl := Option.some.inj h
          exact .timeOut hpc hinbox ‹_›
        · obtain rfl := Option.some.inj h
          exact .sleep hpc hinbox ‹_›

/-! ### What holds at all times -/

/-- Nobody sleeps beside a message, but for the time until `notify_all`. -/
def Awake (inbox : List InboxItem) (pcs : τ → InboxPc T) : Prop :=
  ∀ t c, pcs t = .asleep c → inbox = [] ∨ ∃ u m, pcs u = .notifies m

structure Inbox.Sound (s : Inbox τ T) : Prop where
  owned : Mutex.Owned InboxPc.lock s.holder s.pcs
  awake : Awake s.inbox s.pcs
  bounded : s.inbox.length ≤ s.queueSize

omit [DecidableEq τ] [LinearOrder T] [AddCommGroup T] in
private theorem sound_init (queueSize : Nat) (now : T) : (Inbox.init queueSize now : Inbox τ T).Sound := by
  refine ⟨Mutex.owned_free fun _ => rfl, ?_, Nat.zero_le _⟩
  intro t c h
  cases h

private theorem length_pushBounded {queueSize : Nat} {inbox : List InboxItem} (h : inbox.length ≤ queueSize)
    (m : InboxItem) :
    (pushBounded queueSize inbox m).length = min (inbox.length + 1) queueSize := by
  rw [pushBounded, List.length_drop, List.length_append, List.length_singleton]
  omega

omit [LinearOrder T] [AddCommGroup T] in
/-- A thread moves that neither falls asleep nor was about to notify. -/
theorem Awake.update {inbox : List InboxItem} {pcs : τ → InboxPc T} {t : τ} {pc : InboxPc T} (h : Awake inbox pcs)
    (hpc : ∀ c, pc ≠ .asleep c) (hwas : ∀ m, pcs t ≠ .notifies m) : Awake inbox (Function.update pcs t pc) := by
  intro u c hu
  have hne : u ≠ t := by
    rintro rfl
    rw [Function.update_self] at hu
    exact hpc c hu
  rw [Function.update_of_ne hne] at hu
  rcases h u c hu with hempty | ⟨v, m, hv⟩
  · exact .inl hempty
  · refine .inr ⟨v, m, ?_⟩
    have hvt : v ≠ t := by
      rintro rfl
      exact hwas m hv
    rw [Function.update_of_ne hvt]
    exact hv

omit [DecidableEq τ] [LinearOrder T] [AddCommGroup T] in
private theorem wake_not_asleep (pc : InboxPc T) (c : ReadCall T) : pc.wake ≠ .asleep c := by
  cases pc <;> simp [InboxPc.wake]

omit [DecidableEq τ] [LinearOrder T] [AddCommGroup T] in
private theorem lock_wake (pc : InboxPc T) : pc.wake.lock = pc.lock := by
  cases pc <;> rfl

theorem Inbox.Sound.step {s s' : Inbox τ T} {a : InboxAct τ T} (h : s.Sound) (hstep : s.Steps a s') : s'.Sound := by
  obtain ⟨howned, hawake, hbounded⟩ := h
  cases hstep with
  | tick => exact ⟨howned, hawake, hbounded⟩
  | onMessage hpc =>
    exact ⟨howned.stay (by rw [hpc]; rfl), hawake.update (by simp) (by simp [hpc]), hbounded⟩
  | readMessage hpc =>
    exact ⟨howned.stay (by rw [hpc]; rfl), hawake.update (by simp) (by simp [hpc]), hbounded⟩
  | arrive hpc hfree =>
    exact ⟨howned.acquire (by rw [hpc]; rfl) hfree rfl, hawake.update (by simp) (by simp [hpc]), hbounded⟩
  | @append t m hpc =>
    refine ⟨howned.stay (by rw [hpc]; rfl), ?_, ?_⟩
    · intro u c _
      exact .inr ⟨t, m, Function.update_self _ _ _⟩
    · have hlen := length_pushBounded hbounded m
      show (pushBounded s.queueSize s.inbox m).length ≤ s.queueSize
      omega
  | @notify t m hpc =>
    have howned' : Mutex.Owned InboxPc.lock s.holder s.wakeAll.pcs := fun u k => by
      rw [show s.wakeAll.pcs u = (s.pcs u).wake from rfl, lock_wake]
      exact howned u k
    have hlock : (s.wakeAll.pcs t).lock = some () := by
      rw [show s.wakeAll.pcs t = (s.pcs t).wake from rfl, hpc]
      rfl
    refine ⟨howned'.release hlock rfl, ?_, hbounded⟩
    intro u c hu
    exfalso
    by_cases hut : u = t
    · subst hut
      rw [show (s.wakeAll.leave u (.emits m)).pcs u = Function.update s.wakeAll.pcs u (.emits m) u from rfl,
        Function.update_self] at hu
      cases hu
    · rw [show (s.wakeAll.leave t (.emits m)).pcs u = Function.update s.wakeAll.pcs t (.emits m) u from rfl,
        Function.update_of_ne hut] at hu
      exact wake_not_asleep _ _ hu
  | emit hpc =>
    exact ⟨howned.stay (by rw [hpc]; rfl), hawake.update (by simp) (by simp [hpc]), hbounded⟩
  | enter hpc hfree =>
    exact ⟨howned.acquire (by rw [hpc]; rfl) hfree rfl, hawake.update (by simp) (by simp [hpc]), hbounded⟩
  | @pop t c m rest hpc hinbox =>
    have hlock : (s.pcs t).lock = some () := by rw [hpc]; rfl
    refine ⟨howned.release hlock rfl, ?_, ?_⟩
    · have hnobody : Awake rest s.pcs := by
        intro u d hu
        rcases hawake u d hu with hempty | ⟨v, m', hv⟩
        · rw [hinbox] at hempty
          cases hempty
        · exact .inr ⟨v, m', hv⟩
      exact hnobody.update (by simp) (by simp [hpc])
    · rw [hinbox, List.length_cons] at hbounded
      show rest.length ≤ s.queueSize
      omega
  | @timeOut t c hpc hinbox hlate =>
    have hlock : (s.pcs t).lock = some () := by rw [hpc]; rfl
    exact ⟨howned.release hlock rfl, hawake.update (by simp) (by simp [hpc]), hbounded⟩
  | @sleep t c hpc hinbox hearly =>
    have hlock : (s.pcs t).lock = some () := by rw [hpc]; rfl
    exact ⟨howned.release hlock rfl, fun _ _ _ => .inl hinbox, hbounded⟩
  | wakes hpc =>
    exact ⟨howned.stay (by rw [hpc]; rfl), hawake.update (by simp) (by simp [hpc]), hbounded⟩

theorem sound_run {queueSize : Nat} {now : T} {acts : List (InboxAct τ T)} {s : Inbox τ T}
    (hrun : run Inbox.act (Inbox.init queueSize now) acts = some s) : s.Sound :=
  invariant (fun _ _ _ hact h => h.step (step_steps hact)) hrun (sound_init queueSize now)

private theorem queueSize_run {queueSize : Nat} {now : T} {acts : List (InboxAct τ T)} {s : Inbox τ T}
    (hrun : run Inbox.act (Inbox.init queueSize now) acts = some s) : s.queueSize = queueSize := by
  refine invariant (I := fun s => s.queueSize = queueSize) (fun s a s' hact h => ?_) hrun rfl
  have hstep := step_steps hact
  cases hstep <;> exact h

/-! ### What becomes of the messages -/

/-- The deque as a lossy queue: a step adds what it appends, hands out what it returns and loses what it pushes out. -/
private theorem fifo_step {s s' : Inbox τ T} {a : InboxAct τ T} (hstep : s.Steps a s') (h : s.Sound)
    {f : Fifo InboxItem}
    (hf : f.pending = s.inbox) : ∃ f', f'.pending = s'.inbox ∧ stream f' = stream f ++ (appended s a).toList ∧
      delivered f' = delivered f ++ (popped s a).toList.map (fun m => [m]) ∧
      lostCount f' = lostCount f + (overflowed s a).toList.length := by
  cases hstep with
  | @append t m hpc =>
    have hlen : s.inbox.length ≤ s.queueSize := h.bounded
    have hpending : (arrive [m] f).pending.length = s.inbox.length + 1 := by simp [hf]
    have hlost : s.inbox.length + 1 - s.queueSize ≤ (arrive [m] f).pending.length := by omega
    refine ⟨lose (s.inbox.length + 1 - s.queueSize) (arrive [m] f), ?_, ?_, ?_, ?_⟩
    · rw [pending_lose, pending_arrive, hf]
      rfl
    · rw [stream_lose, stream_arrive]
      simp [appended, hpc]
    · simp [popped, hpc]
    · rw [lostCount_lose hlost, lostCount_arrive]
      by_cases hroom : s.inbox.length < s.queueSize
      · have hnone : s.inbox.length + 1 - s.queueSize = 0 := by omega
        simp [overflowed, hpc, hroom, hnone]
      · have hone : s.inbox.length + 1 - s.queueSize = 1 := by omega
        simp [overflowed, hpc, hroom, hone, List.head?_append]
  | @pop t c m rest hpc hinbox =>
    refine ⟨deliver 1 f, ?_, ?_, ?_, ?_⟩
    · rw [pending_deliver, hf, hinbox]
      rfl
    · rw [stream_deliver]
      simp [appended, hpc]
    · rw [delivered_deliver, hf, hinbox]
      simp [popped, hpc, hinbox]
    · rw [lostCount_deliver]
      simp [overflowed, hpc]
  | _ => exact ⟨f, hf, by simp [appended, *], by simp [popped, *], by simp [overflowed, *]⟩

private theorem fifo_run {s s' : Inbox τ T} {acts : List (InboxAct τ T)} (hrun : run Inbox.act s acts = some s')
    (h : s.Sound)
    {f : Fifo InboxItem} (hf : f.pending = s.inbox) : ∃ f', f'.pending = s'.inbox ∧
      stream f' = stream f ++ seen Inbox.act appended s acts ∧
      delivered f' = delivered f ++ (seen Inbox.act popped s acts).map (fun m => [m]) ∧
      lostCount f' = lostCount f + (seen Inbox.act overflowed s acts).length := by
  induction acts generalizing s f with
  | nil =>
    obtain rfl := Option.some.inj hrun
    exact ⟨f, hf, by simp [seen], by simp [seen], by simp [seen]⟩
  | cons a acts ih =>
    obtain ⟨t, ht, hrest⟩ := run_cons_eq_some.1 hrun
    obtain ⟨g, hg, hstream, hdelivered, hlost⟩ := fifo_step (step_steps ht) h hf
    obtain ⟨f', hf', hstream', hdelivered', hlost'⟩ := ih hrest (h.step (step_steps ht)) hg
    refine ⟨f', hf', ?_, ?_, ?_⟩
    · rw [hstream', hstream, seen_cons ht, List.append_assoc]
    · rw [hdelivered', hdelivered, seen_cons ht, List.map_append, List.append_assoc]
    · rw [hlost', hlost, seen_cons ht, List.length_append]
      omega

/-! ### What is journaled -/

def InboxEvent.item : InboxEvent T → Option InboxItem
  | .message m => some m
  | .readTimeout _ => none

def InboxEvent.timeout : InboxEvent T → Option T
  | .message _ => none
  | .readTimeout timeout => some timeout

/-- The thread has appended the item and not journaled it. -/
def InboxPc.owes (m : InboxItem) : InboxPc T → Bool
  | .notifies m' | .emits m' => m' = m
  | _ => false

omit [DecidableEq τ] [LinearOrder T] [AddCommGroup T] in
private theorem census_wake [Fintype τ] (m : InboxItem) (pcs : τ → InboxPc T) :
    census (InboxPc.owes m) (fun u => (pcs u).wake) = census (InboxPc.owes m) pcs := by
  have hsame : ∀ u, (pcs u).wake.owes m = (pcs u).owes m := by
    intro u
    cases pcs u <;> rfl
  simp [census, hsame]

omit [LinearOrder T] [AddCommGroup T] in
/-- The thread owes an item as often after its step as before. -/
private theorem owes_still [Fintype τ] {s : Inbox τ T} {t : τ} {pc : InboxPc T} {m : InboxItem} {a : InboxAct τ T}
    (n : Nat)
    (howes : (s.pcs t).owes m = pc.owes m) (hnone : appended s a = none) :
    n + census (InboxPc.owes m) (Function.update s.pcs t pc) =
      n + census (InboxPc.owes m) s.pcs + (appended s a).toList.count m := by
  have hmove : 0 + census (InboxPc.owes m) (Function.update s.pcs t pc) = census (InboxPc.owes m) s.pcs + 0 :=
    census_move (by rw [howes]; omega)
  rw [hnone]
  simp only [Option.toList_none, List.count_nil]
  omega

private theorem messages_step [Fintype τ] {s s' : Inbox τ T} {a : InboxAct τ T} (hstep : s.Steps a s') (m : InboxItem) :
    (s'.events.filterMap InboxEvent.item).count m + census (InboxPc.owes m) s'.pcs =
      (s.events.filterMap InboxEvent.item).count m + census (InboxPc.owes m) s.pcs +
        (appended s a).toList.count m := by
  cases hstep with
  | tick => simp [appended]
  | onMessage hpc => exact owes_still _ (by rw [hpc]; rfl) rfl
  | readMessage hpc => exact owes_still _ (by rw [hpc]; rfl) rfl
  | arrive hpc hfree => exact owes_still _ (by rw [hpc]; rfl) (by simp [appended, hpc])
  | @append t m' hpc =>
    have hmove : 0 + census (InboxPc.owes m) (Function.update s.pcs t (.notifies m')) =
        census (InboxPc.owes m) s.pcs + (decide (m' = m)).toNat :=
      census_move (by rw [hpc]; simp [InboxPc.owes])
    have hcount : (appended s (.step t)).toList.count m = (decide (m' = m)).toNat := by
      by_cases hm : m' = m <;> simp [appended, hpc, hm]
    rw [hcount]
    show (s.events.filterMap InboxEvent.item).count m +
      census (InboxPc.owes m) (Function.update s.pcs t (.notifies m')) = _
    omega
  | @notify t m' hpc =>
    have hwake : (s.wakeAll.pcs t).owes m = (InboxPc.emits m' : InboxPc T).owes m := by
      rw [show s.wakeAll.pcs t = (s.pcs t).wake from rfl, hpc]
      rfl
    have hmove : 0 + census (InboxPc.owes m) (Function.update s.wakeAll.pcs t (.emits m')) =
        census (InboxPc.owes m) s.wakeAll.pcs + 0 :=
      census_move (by rw [hwake]; omega)
    have hsame : census (InboxPc.owes m) s.wakeAll.pcs = census (InboxPc.owes m) s.pcs := census_wake m s.pcs
    have hcount : (appended s (.step t)).toList.count m = 0 := by simp [appended, hpc]
    rw [hcount]
    show (s.events.filterMap InboxEvent.item).count m +
      census (InboxPc.owes m) (Function.update s.wakeAll.pcs t (.emits m')) = _
    omega
  | @emit t m' hpc =>
    have hmove : (decide (m' = m)).toNat + census (InboxPc.owes m) (Function.update s.pcs t .idle) =
        census (InboxPc.owes m) s.pcs + 0 :=
      census_move (by rw [hpc]; simp [InboxPc.owes])
    have hcount : (appended s (.step t)).toList.count m = 0 := by simp [appended, hpc]
    have hevent : ((s.events ++ [InboxEvent.message m']).filterMap InboxEvent.item).count m =
        (s.events.filterMap InboxEvent.item).count m + (decide (m' = m)).toNat := by
      by_cases hm : m' = m <;> simp [InboxEvent.item, hm]
    rw [hcount]
    show ((s.events ++ [InboxEvent.message m']).filterMap InboxEvent.item).count m +
      census (InboxPc.owes m) (Function.update s.pcs t .idle) = _
    omega
  | enter hpc hfree => exact owes_still _ (by rw [hpc]; rfl) (by simp [appended, hpc])
  | pop hpc hinbox => exact owes_still _ (by rw [hpc]; rfl) (by simp [appended, hpc])
  | @timeOut t c hpc hinbox hlate =>
    have hevent : (s.events ++ [InboxEvent.readTimeout c.timeout]).filterMap InboxEvent.item =
        s.events.filterMap InboxEvent.item := by
      simp [InboxEvent.item]
    show ((s.events ++ [InboxEvent.readTimeout c.timeout]).filterMap InboxEvent.item).count m + _ = _
    rw [hevent]
    exact owes_still _ (by rw [hpc]; rfl) (by simp [appended, hpc])
  | sleep hpc hinbox hearly => exact owes_still _ (by rw [hpc]; rfl) (by simp [appended, hpc])
  | wakes hpc => exact owes_still _ (by rw [hpc]; rfl) rfl

private theorem timeouts_step {s s' : Inbox τ T} {a : InboxAct τ T} (hstep : s.Steps a s') :
    s'.events.filterMap InboxEvent.timeout = s.events.filterMap InboxEvent.timeout ++ (timedOut s a).toList := by
  cases hstep with
  | emit hpc => simp [timedOut, hpc, InboxEvent.timeout]
  | timeOut hpc hinbox hlate => simp [timedOut, hpc, hinbox, hlate, InboxEvent.timeout]
  | @pop t c m rest hpc hinbox =>
    have hnone : timedOut s (.step t) = none := by simp [timedOut, hpc, hinbox]
    rw [hnone]
    simp [Inbox.leave, Inbox.goto]
  | @sleep t c hpc hinbox hearly =>
    have hnone : timedOut s (.step t) = none := by simp [timedOut, hpc, hearly]
    rw [hnone]
    simp [Inbox.leave, Inbox.goto]
  | _ => simp [timedOut, Inbox.leave, Inbox.take, Inbox.goto, Inbox.wakeAll, *]

private theorem messages_run [Fintype τ] {s s' : Inbox τ T} {acts : List (InboxAct τ T)}
    (hrun : run Inbox.act s acts = some s')
    (m : InboxItem) : (s'.events.filterMap InboxEvent.item).count m + census (InboxPc.owes m) s'.pcs =
      (s.events.filterMap InboxEvent.item).count m + census (InboxPc.owes m) s.pcs +
        (seen Inbox.act appended s acts).count m := by
  induction acts generalizing s with
  | nil =>
    obtain rfl := Option.some.inj hrun
    rfl
  | cons a acts ih =>
    obtain ⟨t, ht, hrest⟩ := run_cons_eq_some.1 hrun
    have hnow := messages_step (step_steps ht) m
    have hlater := ih hrest
    rw [seen_cons ht, List.count_append]
    omega

private theorem timeouts_run {s s' : Inbox τ T} {acts : List (InboxAct τ T)} (hrun : run Inbox.act s acts = some s') :
    s'.events.filterMap InboxEvent.timeout =
      s.events.filterMap InboxEvent.timeout ++ seen Inbox.act timedOut s acts := by
  induction acts generalizing s with
  | nil =>
    obtain rfl := Option.some.inj hrun
    exact (List.append_nil _).symm
  | cons a acts ih =>
    obtain ⟨t, ht, hrest⟩ := run_cons_eq_some.1 hrun
    rw [ih hrest, timeouts_step (step_steps ht), seen_cons ht, List.append_assoc]

/-! ### A message that is there is returned -/

/-- The call of `read_message` that the thread is in. -/
def InboxPc.reads : InboxPc T → Bool
  | .wants _ | .checks _ | .asleep _ => true
  | _ => false

def InboxAct.isStep : InboxAct τ T → Bool
  | .step _ => true
  | _ => false

/-- Steps alone, and few of them, return a message. -/
def Returns (n : Nat) (s : Inbox τ T) : Prop :=
  ∃ acts : List (InboxAct τ T), acts.length ≤ n ∧ (∀ a ∈ acts, a.isStep = true) ∧
    ∃ s', run Inbox.act s acts = some s' ∧ seen Inbox.act popped s acts ≠ []

private theorem returns_cons {n : Nat} {s s' : Inbox τ T} {t : τ} (hstep : s.act (.step t) = some s')
    (h : Returns n s') :
    Returns (n + 1) s := by
  obtain ⟨acts, hlen, hsteps, s'', hrun, hseen⟩ := h
  refine ⟨.step t :: acts, Nat.succ_le_succ hlen, ?_, s'', run_cons_eq_some.2 ⟨s', hstep, hrun⟩, ?_⟩
  · intro a ha
    rcases List.mem_cons.1 ha with rfl | ha
    · rfl
    · exact hsteps a ha
  · rw [seen_cons hstep]
    exact List.append_ne_nil_of_right_ne_nil _ hseen

private theorem returns_mono {n k : Nat} {s : Inbox τ T} (hnk : n ≤ k) (h : Returns n s) : Returns k s := by
  obtain ⟨acts, hlen, hrest⟩ := h
  exact ⟨acts, hlen.trans hnk, hrest⟩

private theorem returns_checks {s : Inbox τ T} {t : τ} {c : ReadCall T} (hinbox : s.inbox ≠ [])
    (hpc : s.pcs t = .checks c) :
    Returns 1 s := by
  obtain ⟨m, rest, hrest⟩ := List.exists_cons_of_ne_nil hinbox
  have hstep : s.act (.step t) = some { s.leave t .idle with inbox := rest } := by
    rw [Inbox.act, Inbox.next, hpc]
    dsimp only
    rw [hrest]
  refine ⟨[.step t], Nat.le_refl _, by simp [InboxAct.isStep], _, run_cons_eq_some.2 ⟨_, hstep, rfl⟩, ?_⟩
  rw [seen_cons hstep]
  simp [popped, hpc, hrest]

private theorem returns_wants {s : Inbox τ T} {t : τ} {c : ReadCall T} (hinbox : s.inbox ≠ [])
    (hfree : s.holder () = none)
    (hpc : s.pcs t = .wants c) : Returns 2 s := by
  have hstep : s.act (.step t) = some (s.take t (.checks c)) := by
    rw [Inbox.act, Inbox.next, hpc]
    dsimp only [Inbox.enter]
    rw [if_pos hfree]
  exact returns_cons hstep (returns_checks hinbox (Function.update_self _ _ _))

/-- Behind `notify_all` every reader wants the lock, which is free. -/
private theorem returns_notifies {s : Inbox τ T} {t u : τ} {m : InboxItem} (hinbox : s.inbox ≠ [])
    (hu : s.pcs u = .notifies m)
    (hreads : (s.pcs t).reads = true) (hchecks : ∀ c, s.pcs t ≠ .checks c) : Returns 3 s := by
  have hstep : s.act (.step u) = some (s.wakeAll.leave u (.emits m)) := by
    rw [Inbox.act, Inbox.next, hu]
  have hne : t ≠ u := by
    rintro rfl
    rw [hu] at hreads
    cases hreads
  obtain ⟨c, hc⟩ : ∃ c, (s.wakeAll.leave u (.emits m)).pcs t = .wants c := by
    rw [show (s.wakeAll.leave u (.emits m)).pcs t = Function.update s.wakeAll.pcs u (.emits m) t from rfl,
      Function.update_of_ne hne, show s.wakeAll.pcs t = (s.pcs t).wake from rfl]
    cases hpc : s.pcs t with
    | wants c => exact ⟨c, rfl⟩
    | asleep c => exact ⟨c, rfl⟩
    | checks c => exact absurd hpc (hchecks c)
    | _ =>
      rw [hpc] at hreads
      cases hreads
  have hfree : (s.wakeAll.leave u (.emits m)).holder () = none := by
    show Mutex.release () s.wakeAll.holder () = none
    rw [Mutex.release, Function.update_self]
  exact returns_cons hstep (returns_wants hinbox hfree hc)

private theorem returns_of_sound {s : Inbox τ T} (h : s.Sound) (hinbox : s.inbox ≠ []) {t : τ}
    (hreads : (s.pcs t).reads = true) :
    Returns 4 s := by
  cases hholder : s.holder () with
  | none =>
    have hfree : ∀ u, (s.pcs u).lock = none := by
      intro u
      cases hlock : (s.pcs u).lock with
      | none => rfl
      | some k =>
        have hheld := (h.owned u ()).1 hlock
        rw [hholder] at hheld
        cases hheld
    cases hpc : s.pcs t with
    | wants c => exact returns_mono (by omega) (returns_wants hinbox hholder hpc)
    | checks c => exact returns_mono (by omega) (returns_checks hinbox hpc)
    | asleep c =>
      rcases h.awake t c hpc with hempty | ⟨u, m, hu⟩
      · exact absurd hempty hinbox
      · have hlock := hfree u
        rw [hu] at hlock
        cases hlock
    | _ =>
      rw [hpc] at hreads
      cases hreads
  | some u =>
    have hlock : (s.pcs u).lock = some () := (h.owned u ()).2 hholder
    have hchecks : (∀ c, s.pcs u ≠ .checks c) → ∀ c, s.pcs t ≠ .checks c := by
      intro hu c hc
      have hsame := h.owned.exclusive (show (s.pcs t).lock = some () by rw [hc]; rfl) hlock
      exact hu c (hsame ▸ hc)
    cases hpc : s.pcs u with
    | checks c => exact returns_mono (by omega) (returns_checks hinbox hpc)
    | notifies m =>
      exact returns_mono (by omega) (returns_notifies hinbox hpc hreads (hchecks (by simp [hpc])))
    | appends m =>
      have hstep : s.act (.step u) =
          some { s.goto u (.notifies m) with inbox := pushBounded s.queueSize s.inbox m } := by
        rw [Inbox.act, Inbox.next, hpc]
      have hlen := length_pushBounded h.bounded m
      have hpos := List.length_pos_of_ne_nil hinbox
      have hroom := h.bounded
      have hthere : pushBounded s.queueSize s.inbox m ≠ [] := by
        apply List.ne_nil_of_length_pos
        omega
      have hne : t ≠ u := by
        rintro rfl
        rw [hpc] at hreads
        cases hreads
      have ht : (Function.update s.pcs u (InboxPc.notifies m)) t = s.pcs t := Function.update_of_ne hne _ _
      refine returns_cons hstep (returns_notifies hthere (Function.update_self _ _ _) (t := t) ?_ ?_)
      · exact (congrArg InboxPc.reads ht).trans hreads
      · intro c hc
        exact hchecks (by simp [hpc]) c (ht.symm.trans hc)
    | _ =>
      rw [hpc] at hlock
      cases hlock

/-- In every run the inbox keeps its bound, and is what is left of the items that were appended: the others were
returned, in order and once, or pushed out of a full inbox, which are counted.  An item is journaled once, or its thread
is about to; a `None` is journaled as it is returned.  Where a message waits and a thread reads, four steps of the
threads return a message. -/
theorem inbox_delivers [Fintype τ] {queueSize : Nat} {now : T} {acts : List (InboxAct τ T)} {s : Inbox τ T}
    (hrun : run Inbox.act (Inbox.init queueSize now) acts = some s) :
    s.inbox.length ≤ queueSize ∧
      (∃ f : Fifo InboxItem, f.pending = s.inbox ∧
        stream f = seen Inbox.act appended (Inbox.init queueSize now) acts ∧
        delivered f = (seen Inbox.act popped (Inbox.init queueSize now) acts).map (fun m => [m]) ∧
        lostCount f = (seen Inbox.act overflowed (Inbox.init queueSize now) acts).length) ∧
      (∀ m, (s.events.filterMap InboxEvent.item).count m + census (InboxPc.owes m) s.pcs =
        (seen Inbox.act appended (Inbox.init queueSize now) acts).count m) ∧
      s.events.filterMap InboxEvent.timeout = seen Inbox.act timedOut (Inbox.init queueSize now) acts ∧
      (s.inbox ≠ [] → ∀ t, (s.pcs t).reads = true → Returns 4 s) := by
  have hsound := sound_run hrun
  refine ⟨queueSize_run hrun ▸ hsound.bounded, ?_, ?_, ?_, ?_⟩
  · have hempty : (LossyFifo.empty : Fifo InboxItem).pending = (Inbox.init queueSize now : Inbox τ T).inbox := rfl
    obtain ⟨f, hpending, hstream, hdelivered, hlost⟩ := fifo_run hrun (sound_init queueSize now) hempty
    refine ⟨f, hpending, ?_, ?_, ?_⟩
    · rw [hstream]
      rfl
    · rw [hdelivered]
      rfl
    · rw [hlost]
      exact Nat.zero_add _
  · intro m
    have hcount := messages_run hrun m
    have hnobody : census (InboxPc.owes m) (Inbox.init queueSize now : Inbox τ T).pcs = 0 := by
      simp [census, Inbox.init, InboxPc.owes]
    have hnone : (Inbox.init queueSize now : Inbox τ T).events = [] := rfl
    rw [hnone, hnobody, List.filterMap_nil, List.count_nil] at hcount
    omega
  · exact (timeouts_run hrun).trans (List.nil_append _)
  · intro hinbox t hreads
    exact returns_of_sound hsound hinbox hreads

end

/-- One thread reads and sleeps, the other receives two messages for an inbox of one. -/
theorem inbox_delivers_second : ∃ s : Inbox Bool Int, run Inbox.act (Inbox.init 1 0)
    [.readMessage true 5, .step true, .step true, .onMessage false "a" [], .step false, .step false, .step false,
      .step false, .onMessage false "b" [], .step false, .step false] = some s ∧ s.inbox.map (·.topic) = ["b"] ∧
      Returns 4 s := by
  obtain ⟨s, hrun⟩ : ∃ s : Inbox Bool Int, run Inbox.act (Inbox.init 1 0)
    [.readMessage true 5, .step true, .step true, .onMessage false "a" [], .step false, .step false, .step false,
      .step false, .onMessage false "b" [], .step false, .step false] = some s := ⟨_, rfl⟩
  have hall := inbox_delivers hrun
  obtain rfl := Option.some.inj hrun
  exact ⟨_, rfl, rfl, hall.2.2.2.2 (by decide) true rfl⟩

end IronHarness.Mqtt
