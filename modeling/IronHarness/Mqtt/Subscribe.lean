import Mathlib.Logic.Function.Basic
import IronHarness.Lib.Runs

/-!
# A subscribe and its SUBACK

`MqttTransport` (io_core/mqtt_transport.py): a call of `subscribe` waits for the codes under the mid of its packet,
in a table that outlives the call and the client.  The network threads of the clients fill the table; a mid counts
the packets of one client and starts again at 1 with the next.
-/

namespace IronHarness.Mqtt

open Runs

variable {Code : Type}

/-- The mid of a client's next packet. -/
def nextMid (lastMid : Nat) : Nat := if lastMid = 65535 then 1 else lastMid + 1

/-- A SUBSCRIBE packet, by its client and the mid on it. -/
structure Subscribe where
  client : Nat
  mid : Nat

/-- Where a thread is that calls `subscribe`. -/
inductive SubscribePc
  | idle
  /-- before `client.subscribe` -/
  | holding (client : Nat)
  /-- waits for codes under `mid`; its packet is the `packet`-th -/
  | waiting (mid packet : Nat)

/-- How a call ended that had codes: it returned, or it raised a refusal. -/
structure Answer where
  packet : Nat
  refused : Bool

/-- `clients` counts the client objects that were made, `running` has those whose network thread runs.  `packets`,
`acked` and `answers` are no part of the program: the SUBSCRIBE packets that were sent, the codes of the SUBACK that
has arrived for each, and how the calls ended. -/
structure MqttTransport (Code : Type) where
  client : Option Nat
  subackResults : Nat → Option (List Code)
  clients : Nat
  running : List Nat
  lastMid : Nat → Nat
  calls : Nat → SubscribePc
  packets : List Subscribe
  acked : Nat → Option (List Code)
  answers : List Answer

namespace MqttTransport

def init : MqttTransport Code where
  client := none
  subackResults := fun _ => none
  clients := 0
  running := []
  lastMid := fun _ => 0
  calls := fun _ => .idle
  packets := []
  acked := fun _ => none
  answers := []

/-- `open` makes a client and starts its network thread; where the connection fails, `teardown` follows. -/
def connect (w : MqttTransport Code) : MqttTransport Code :=
  { w with client := some w.clients, clients := w.clients + 1, running := w.clients :: w.running }

/-- `_teardown`, of `close` and of an `open` that fails. -/
def teardown (w : MqttTransport Code) : MqttTransport Code :=
  match w.client with
  | none => w
  | some k => { w with client := none, running := w.running.erase k }

/-- The client numbers a packet. -/
def number (w : MqttTransport Code) (k : Nat) : MqttTransport Code :=
  { w with lastMid := Function.update w.lastMid k (nextMid (w.lastMid k)) }

def goto (w : MqttTransport Code) (t : Nat) (pc : SubscribePc) : MqttTransport Code :=
  { w with calls := Function.update w.calls t pc }

/-- `client.subscribe` returns the mid. -/
def send (w : MqttTransport Code) (t k : Nat) : MqttTransport Code :=
  let mid := nextMid (w.lastMid k)
  { (w.number k).goto t (.waiting mid w.packets.length) with packets := w.packets ++ [⟨k, mid⟩] }

/-- `_on_subscribe` -/
def onSubscribe (w : MqttTransport Code) (packet mid : Nat) (codes : List Code) : MqttTransport Code :=
  { w with
    subackResults := Function.update w.subackResults mid (some codes)
    acked := Function.update w.acked packet (some codes) }

variable (isFailure : Code → Bool)

/-- The codes under the mid are popped; a code that is a failure is a refusal. -/
def take (w : MqttTransport Code) (t mid packet : Nat) (codes : List Code) : MqttTransport Code :=
  { w.goto t .idle with
    subackResults := Function.update w.subackResults mid none
    answers := w.answers ++ [⟨packet, codes.any isFailure⟩] }

inductive Act (Code : Type)
  | connect
  | teardown
  /-- the client of the transport numbers a packet that is no SUBSCRIBE -/
  | publish
  /-- thread `t` calls `subscribe` -/
  | subscribe (t : Nat)
  | send (t : Nat)
  /-- `client.subscribe` raises or returns an error -/
  | fail (t : Nat)
  /-- the SUBACK of the packet arrives -/
  | suback (packet : Nat) (codes : List Code)
  | take (t : Nat)
  | timeout (t : Nat)

/-- A broker answers a packet once, and a client without its network thread hears nothing. -/
def act (w : MqttTransport Code) : Act Code → Option (MqttTransport Code)
  | .connect => some w.connect
  | .teardown => some w.teardown
  | .publish => w.client.map w.number
  | .subscribe t =>
    match w.calls t, w.client with
    | .idle, some k => some (w.goto t (.holding k))
    | _, _ => none
  | .send t =>
    match w.calls t with
    | .holding k => some (w.send t k)
    | _ => none
  | .fail t =>
    match w.calls t with
    | .holding _ => some (w.goto t .idle)
    | _ => none
  | .suback packet codes =>
    match w.packets[packet]?, w.acked packet with
    | some p, none => if p.client ∈ w.running then some (w.onSubscribe packet p.mid codes) else none
    | _, _ => none
  | .take t =>
    match w.calls t with
    | .waiting mid packet => (w.subackResults mid).map (w.take isFailure t mid packet)
    | _ => none
  | .timeout t =>
    match w.calls t with
    | .waiting mid _ => if (w.subackResults mid).isNone then some (w.goto t .idle) else none
    | _ => none

/-! ### Whose codes a call takes -/

/-- The SUBACK of the packet has arrived, and it refuses or does not. -/
def Told (w : MqttTransport Code) (packet : Nat) (refused : Bool) : Prop :=
  ∃ codes, w.acked packet = some codes ∧ codes.any isFailure = refused

/-- Every call was answered by the SUBACK of its own packet. -/
def Honest (w : MqttTransport Code) : Prop := ∀ a ∈ w.answers, w.Told isFailure a.packet a.refused

/-- A SUBSCRIBE is sent under a mid without codes in the table; and while a call waits under a mid, another packet's
SUBACK with that mid arrives only after its own and says the same. -/
def Clean (w : MqttTransport Code) : Act Code → Prop
  | .send t => ∀ k, w.calls t = .holding k → w.subackResults (nextMid (w.lastMid k)) = none
  | .suback packet codes =>
    ∀ p, w.packets[packet]? = some p → ∀ t own, w.calls t = .waiting p.mid own → own ≠ packet →
      w.Told isFailure own (codes.any isFailure)
  | _ => True

/-- Only packets that were sent are answered, and a call waits under the mid of its packet. -/
structure Numbered (w : MqttTransport Code) : Prop where
  acked : ∀ packet, w.packets.length ≤ packet → w.acked packet = none
  waiting : ∀ t mid packet, w.calls t = .waiting mid packet → ∃ k, w.packets[packet]? = some ⟨k, mid⟩

/-- The codes a waiting call would take say what its own SUBACK says. -/
def Sound (w : MqttTransport Code) : Prop :=
  ∀ t mid packet codes, w.calls t = .waiting mid packet → w.subackResults mid = some codes →
    w.Told isFailure packet (codes.any isFailure)

/-! ### What each step does -/

section Steps

variable {isFailure} {w w' : MqttTransport Code} {t packet : Nat} {codes : List Code}

private theorem act_publish : w.act isFailure .publish = some w' ↔ ∃ k, w.client = some k ∧ w.number k = w' := by
  rw [act, Option.map_eq_some_iff]

private theorem act_subscribe :
    w.act isFailure (.subscribe t) = some w' ↔
      w.calls t = .idle ∧ ∃ k, w.client = some k ∧ w.goto t (.holding k) = w' := by
  cases hpc : w.calls t with
  | idle => cases hclient : w.client <;> simp [act, hpc, hclient]
  | holding k | waiting mid packet => simp [act, hpc]

private theorem act_send :
    w.act isFailure (.send t) = some w' ↔ ∃ k, w.calls t = .holding k ∧ w.send t k = w' := by
  cases hpc : w.calls t with
  | holding k => simp [act, hpc]
  | idle | waiting mid packet => simp [act, hpc]

private theorem act_fail :
    w.act isFailure (.fail t) = some w' ↔ ∃ k, w.calls t = .holding k ∧ w.goto t .idle = w' := by
  cases hpc : w.calls t with
  | holding k => simp [act, hpc]
  | idle | waiting mid packet => simp [act, hpc]

private theorem act_suback :
    w.act isFailure (.suback packet codes) = some w' ↔
      ∃ p, w.packets[packet]? = some p ∧ w.acked packet = none ∧ p.client ∈ w.running ∧
        w.onSubscribe packet p.mid codes = w' := by
  cases hpacket : w.packets[packet]? with
  | none => simp [act, hpacket]
  | some p => cases hacked : w.acked packet <;> simp [act, hpacket, hacked]

private theorem act_take :
    w.act isFailure (.take t) = some w' ↔
      ∃ mid packet codes, w.calls t = .waiting mid packet ∧ w.subackResults mid = some codes ∧
        w.take isFailure t mid packet codes = w' := by
  cases hpc : w.calls t with
  | waiting mid packet => simp [act, hpc, and_assoc]
  | idle | holding k => simp [act, hpc]

private theorem act_timeout :
    w.act isFailure (.timeout t) = some w' ↔
      ∃ mid packet, w.calls t = .waiting mid packet ∧ w.subackResults mid = none ∧ w.goto t .idle = w' := by
  cases hpc : w.calls t with
  | waiting mid packet => simp [act, hpc]
  | idle | holding k => simp [act, hpc]

private theorem calls_goto (pc : SubscribePc) : (w.goto t pc).calls = Function.update w.calls t pc := rfl

/-- A thread waits after another was moved to `pc`, or `pc` waits. -/
private theorem waiting_goto {pc : SubscribePc} {s mid : Nat} (h : (w.goto t pc).calls s = .waiting mid packet) :
    (s = t ∧ pc = .waiting mid packet) ∨ (s ≠ t ∧ w.calls s = .waiting mid packet) := by
  rw [calls_goto] at h
  by_cases hs : s = t
  · subst hs
    rw [Function.update_self] at h
    exact .inl ⟨rfl, h⟩
  · rw [Function.update_of_ne hs] at h
    exact .inr ⟨hs, h⟩

/-- A step that leaves the packets, their SUBACKs, the table and the answers alone, and lets no call wait. -/
structure Quiet (w w' : MqttTransport Code) : Prop where
  packets : w'.packets = w.packets
  acked : w'.acked = w.acked
  subackResults : w'.subackResults = w.subackResults
  answers : w'.answers = w.answers
  waiting : ∀ s mid packet, w'.calls s = .waiting mid packet → w.calls s = .waiting mid packet

private theorem Quiet.of_calls (hpackets : w'.packets = w.packets) (hacked : w'.acked = w.acked)
    (htable : w'.subackResults = w.subackResults) (hanswers : w'.answers = w.answers) (hcalls : w'.calls = w.calls) :
    Quiet w w' :=
  ⟨hpackets, hacked, htable, hanswers, fun s mid packet h => by rwa [hcalls] at h⟩

/-- A thread that is moved, but not to wait. -/
private theorem quiet_goto {pc : SubscribePc} (hpc : ∀ mid packet, pc ≠ .waiting mid packet) :
    Quiet w (w.goto t pc) where
  packets := rfl
  acked := rfl
  subackResults := rfl
  answers := rfl
  waiting := by
    intro s mid packet hwaiting
    rcases waiting_goto hwaiting with ⟨-, heq⟩ | ⟨-, hs⟩
    · exact absurd heq (hpc mid packet)
    · exact hs

/-- What a step does: nothing to the packets, or it sends one, hears of one or answers a call. -/
private theorem act_cases {a : Act Code} (hact : w.act isFailure a = some w') :
    Quiet w w' ∨ (∃ t k, a = .send t ∧ w.calls t = .holding k ∧ w' = w.send t k) ∨
      (∃ packet codes p, a = .suback packet codes ∧ w.packets[packet]? = some p ∧ w.acked packet = none ∧
        w' = w.onSubscribe packet p.mid codes) ∨
      ∃ t mid packet codes, a = .take t ∧ w.calls t = .waiting mid packet ∧ w.subackResults mid = some codes ∧
        w' = w.take isFailure t mid packet codes := by
  cases a with
  | connect =>
    obtain rfl := Option.some.inj hact
    exact .inl (.of_calls rfl rfl rfl rfl rfl)
  | teardown =>
    obtain rfl := Option.some.inj hact
    unfold teardown
    split <;> exact .inl (.of_calls rfl rfl rfl rfl rfl)
  | publish =>
    obtain ⟨k, -, rfl⟩ := act_publish.1 hact
    exact .inl (.of_calls rfl rfl rfl rfl rfl)
  | subscribe t =>
    obtain ⟨-, k, -, rfl⟩ := act_subscribe.1 hact
    exact .inl (quiet_goto (by simp))
  | send t =>
    obtain ⟨k, hpc, rfl⟩ := act_send.1 hact
    exact .inr (.inl ⟨t, k, rfl, hpc, rfl⟩)
  | fail t =>
    obtain ⟨k, -, rfl⟩ := act_fail.1 hact
    exact .inl (quiet_goto (by simp))
  | suback packet codes =>
    obtain ⟨p, hpacket, hnone, -, rfl⟩ := act_suback.1 hact
    exact .inr (.inr (.inl ⟨packet, codes, p, rfl, hpacket, hnone, rfl⟩))
  | take t =>
    obtain ⟨mid, packet, codes, hpc, hcodes, rfl⟩ := act_take.1 hact
    exact .inr (.inr (.inr ⟨t, mid, packet, codes, rfl, hpc, hcodes, rfl⟩))
  | timeout t =>
    obtain ⟨mid, packet, -, -, rfl⟩ := act_timeout.1 hact
    exact .inl (quiet_goto (by simp))

/-! ### Packets are numbered -/

theorem Numbered.init : (MqttTransport.init : MqttTransport Code).Numbered := by
  constructor
  · intro packet _
    rfl
  · rintro t mid packet ⟨⟩

private theorem Quiet.numbered (hquiet : Quiet w w') (h : w.Numbered) : w'.Numbered where
  acked := by
    rw [hquiet.packets, hquiet.acked]
    exact h.acked
  waiting := by
    rw [hquiet.packets]
    exact fun s mid packet hwaiting => h.waiting s mid packet (hquiet.waiting s mid packet hwaiting)

theorem Numbered.send {k : Nat} (h : w.Numbered) : (w.send t k).Numbered where
  acked := by
    intro packet hle
    apply h.acked
    have hlen : (w.send t k).packets.length = w.packets.length + 1 := List.length_append
    omega
  waiting := by
    intro s mid packet hwaiting
    rcases waiting_goto hwaiting with ⟨-, heq⟩ | ⟨-, hs⟩
    · obtain ⟨rfl, rfl⟩ := SubscribePc.waiting.inj heq
      exact ⟨k, List.getElem?_concat_length⟩
    · obtain ⟨k', hk'⟩ := h.waiting s mid packet hs
      obtain ⟨hlt, -⟩ := List.getElem?_eq_some_iff.1 hk'
      exact ⟨k', (List.getElem?_append_left hlt).trans hk'⟩

private theorem Numbered.onSubscribe {p : Subscribe} (h : w.Numbered) (hpacket : w.packets[packet]? = some p) :
    (w.onSubscribe packet p.mid codes).Numbered where
  acked := by
    intro q hle
    have hne : q ≠ packet := by
      rintro rfl
      obtain ⟨hlt, -⟩ := List.getElem?_eq_some_iff.1 hpacket
      exact absurd hle (Nat.not_le.2 hlt)
    exact (Function.update_of_ne hne _ _).trans (h.acked q hle)
  waiting := h.waiting

theorem Numbered.act {a : Act Code} (h : w.Numbered) (hact : w.act isFailure a = some w') : w'.Numbered := by
  rcases act_cases hact with hquiet | ⟨t, k, -, -, rfl⟩ | ⟨packet, codes, p, -, hpacket, -, rfl⟩ |
    ⟨t, mid, packet, codes, -, -, -, rfl⟩
  · exact hquiet.numbered h
  · exact h.send
  · exact h.onSubscribe hpacket
  · have hidle : (w.goto t .idle).Numbered := (quiet_goto (by simp)).numbered h
    exact ⟨hidle.acked, hidle.waiting⟩

/-! ### A clean step keeps the table sound -/

theorem Sound.init : (MqttTransport.init : MqttTransport Code).Sound isFailure := by
  rintro t mid packet codes ⟨⟩

theorem Quiet.sound (hquiet : Quiet w w') (h : w.Sound isFailure) : w'.Sound isFailure := by
  intro s mid packet codes hwaiting hcodes
  rw [hquiet.subackResults] at hcodes
  rw [Told, hquiet.acked]
  exact h s mid packet codes (hquiet.waiting s mid packet hwaiting) hcodes

theorem Sound.send {k : Nat} (h : w.Sound isFailure) (hnone : w.subackResults (nextMid (w.lastMid k)) = none) :
    (w.send t k).Sound isFailure := by
  intro s mid packet codes hwaiting hcodes
  rcases waiting_goto hwaiting with ⟨-, heq⟩ | ⟨-, hs⟩
  · -- the mid of the new packet has no codes
    obtain ⟨rfl, -⟩ := SubscribePc.waiting.inj heq
    exact absurd (hcodes.symm.trans hnone) (by simp)
  · exact h s mid packet codes hs hcodes

private theorem Sound.onSubscribe {p : Subscribe} (h : w.Sound isFailure) (hnumbered : w.Numbered)
    (hpacket : w.packets[packet]? = some p)
    (hclean : ∀ t own, w.calls t = .waiting p.mid own → own ≠ packet → w.Told isFailure own (codes.any isFailure)) :
    (w.onSubscribe packet p.mid codes).Sound isFailure := by
  intro s mid own codes' hwaiting hcodes
  by_cases hown : own = packet
  · subst hown
    obtain ⟨k, hk⟩ := hnumbered.waiting s mid own hwaiting
    obtain rfl := Option.some.inj (hpacket.symm.trans hk)
    -- its own SUBACK: the table has what has just arrived
    have htable : (w.onSubscribe own mid codes).subackResults mid = some codes := Function.update_self _ _ _
    obtain rfl := Option.some.inj (htable.symm.trans hcodes)
    exact ⟨codes, Function.update_self _ _ _, rfl⟩
  · have htold : w.Told isFailure own (codes'.any isFailure) := by
      by_cases hmid : mid = p.mid
      · subst hmid
        have htable : (w.onSubscribe packet p.mid codes).subackResults p.mid = some codes := Function.update_self _ _ _
        obtain rfl := Option.some.inj (htable.symm.trans hcodes)
        exact hclean s own hwaiting hown
      · exact h s mid own codes' hwaiting ((Function.update_of_ne hmid _ _).symm.trans hcodes)
    obtain ⟨told, hacked, hrefused⟩ := htold
    exact ⟨told, (Function.update_of_ne hown _ _).trans hacked, hrefused⟩

/-- The entry that was popped is gone, the others are as they were. -/
theorem Sound.take {mid : Nat} (h : w.Sound isFailure) : (w.take isFailure t mid packet codes).Sound isFailure := by
  have hidle : (w.goto t .idle).Sound isFailure := (quiet_goto (by simp)).sound h
  intro s mid' own codes' hwaiting hcodes
  have hmid : mid' ≠ mid := by
    rintro rfl
    have hnone : (w.take isFailure t mid' packet codes).subackResults mid' = none := Function.update_self _ _ _
    exact absurd (hcodes.symm.trans hnone) (by simp)
  exact hidle s mid' own codes' hwaiting ((Function.update_of_ne hmid _ _).symm.trans hcodes)

theorem Sound.act {a : Act Code} (h : w.Sound isFailure) (hnumbered : w.Numbered) (hclean : w.Clean isFailure a)
    (hact : w.act isFailure a = some w') : w'.Sound isFailure := by
  rcases act_cases hact with hquiet | ⟨t, k, rfl, hpc, rfl⟩ | ⟨packet, codes, p, rfl, hpacket, -, rfl⟩ |
    ⟨t, mid, packet, codes, -, -, -, rfl⟩
  · exact hquiet.sound h
  · exact h.send (hclean k hpc)
  · exact h.onSubscribe hnumbered hpacket (hclean p hpacket)
  · exact h.take

/-! ### The calls are answered by their own packets -/

theorem Told.act {a : Act Code} {refused : Bool} (h : w.Told isFailure packet refused)
    (hact : w.act isFailure a = some w') : w'.Told isFailure packet refused := by
  obtain ⟨told, hacked, hrefused⟩ := h
  rcases act_cases hact with hquiet | ⟨t, k, -, -, rfl⟩ | ⟨q, codes, p, -, -, hnone, rfl⟩ |
    ⟨t, mid, q, codes, -, -, -, rfl⟩
  · exact ⟨told, by rw [hquiet.acked, hacked], hrefused⟩
  · exact ⟨told, hacked, hrefused⟩
  · -- a packet is answered once
    have hne : packet ≠ q := by
      rintro rfl
      exact absurd (hacked.symm.trans hnone) (by simp)
    exact ⟨told, (Function.update_of_ne hne _ _).trans hacked, hrefused⟩
  · exact ⟨told, hacked, hrefused⟩

/-- Only a call that takes its codes has an answer. -/
private theorem act_answers {a : Act Code} (hact : w.act isFailure a = some w') :
    w'.answers = w.answers ∨ ∃ t, a = .take t := by
  rcases act_cases hact with hquiet | ⟨t, k, -, -, rfl⟩ | ⟨q, codes, p, -, -, -, rfl⟩ | ⟨t, mid, q, codes, rfl, -⟩
  · exact .inl hquiet.answers
  · exact .inl rfl
  · exact .inl rfl
  · exact .inr ⟨t, rfl⟩

private theorem honest_take {mid : Nat} (h : w.Honest isFailure) :
    (w.take isFailure t mid packet codes).Honest isFailure ↔ w.Told isFailure packet (codes.any isFailure) := by
  constructor
  · intro hhonest
    exact hhonest ⟨packet, codes.any isFailure⟩ (List.mem_append_right _ (List.mem_singleton_self _))
  · intro htold a ha
    rcases List.mem_append.1 ha with hold | hnew
    · exact h a hold
    · obtain rfl := List.mem_singleton.1 hnew
      exact htold

theorem Honest.act {a : Act Code} (h : w.Honest isFailure) (hsound : w.Sound isFailure)
    (hact : w.act isFailure a = some w') : w'.Honest isFailure := by
  rcases act_answers hact with hanswers | ⟨t, rfl⟩
  · intro answer hmem
    rw [hanswers] at hmem
    exact (h answer hmem).act hact
  · obtain ⟨mid, packet, codes, hpc, hcodes, rfl⟩ := act_take.1 hact
    exact (honest_take h).2 (hsound t mid packet codes hpc hcodes)

/-- The table is sound where no call can take the codes of another. -/
theorem sound_iff (h : w.Honest isFailure) :
    w.Sound isFailure ↔ ∀ t w', w.act isFailure (.take t) = some w' → w'.Honest isFailure := by
  constructor
  · intro hsound t w' hact
    exact h.act hsound hact
  · intro hnext t mid packet codes hpc hcodes
    exact (honest_take h).1 (hnext t _ (act_take.2 ⟨mid, packet, codes, hpc, hcodes, rfl⟩))

/-- A step after which the table is sound was clean. -/
private theorem clean_of_sound {a : Act Code} (hnumbered : w.Numbered) (hact : w.act isFailure a = some w')
    (h : w'.Sound isFailure) : w.Clean isFailure a := by
  cases a with
  | connect | teardown | publish | subscribe t | fail t | take t | timeout t => trivial
  | send t =>
    obtain ⟨k, hpc, rfl⟩ := act_send.1 hact
    intro k' hpc'
    obtain rfl := SubscribePc.holding.inj (hpc.symm.trans hpc')
    cases hcodes : w.subackResults (nextMid (w.lastMid k)) with
    | none => rfl
    | some codes =>
      -- the new packet has no SUBACK, but its call finds codes
      have hwaiting : (w.send t k).calls t = .waiting (nextMid (w.lastMid k)) w.packets.length :=
        Function.update_self _ _ _
      obtain ⟨told, hacked, -⟩ := h t _ _ codes hwaiting hcodes
      have hnone : w.acked w.packets.length = none := hnumbered.acked _ (Nat.le_refl _)
      exact absurd (hacked.symm.trans hnone) (by simp)
  | suback packet codes =>
    obtain ⟨p, hpacket, -, -, rfl⟩ := act_suback.1 hact
    intro p' hpacket' t own hpc hown
    obtain rfl := Option.some.inj (hpacket.symm.trans hpacket')
    have htable : (w.onSubscribe packet p.mid codes).subackResults p.mid = some codes := Function.update_self _ _ _
    obtain ⟨told, hacked, hrefused⟩ := h t p.mid own codes hpc htable
    exact ⟨told, (Function.update_of_ne hown _ _).symm.trans hacked, hrefused⟩

end Steps

/-! ### Runs -/

/-- Along a run of clean steps every call is answered by the SUBACK of its own packet; and after such a run a step is
clean if and only if no call can be answered wrongly right after it. -/
theorem answered_by_own {acts : List (Act Code)} {w : MqttTransport Code}
    (hclean : Along (act isFailure) (Clean isFailure) init acts) (hrun : run (act isFailure) init acts = some w) :
    w.Honest isFailure ∧ ∀ a w', w.act isFailure a = some w' →
      (w.Clean isFailure a ↔ ∀ t w'', w'.act isFailure (.take t) = some w'' → w''.Honest isFailure) := by
  obtain ⟨hnumbered, hsound, hhonest⟩ : w.Numbered ∧ w.Sound isFailure ∧ w.Honest isFailure := by
    refine hclean.invariant (I := fun w => w.Numbered ∧ w.Sound isFailure ∧ w.Honest isFailure) ?_ hrun ?_
    · rintro s a s' hcleanStep hact ⟨hnumbered, hsound, hhonest⟩
      exact ⟨hnumbered.act hact, hsound.act hnumbered hcleanStep hact, hhonest.act hsound hact⟩
    · exact ⟨.init, .init, fun a ha => nomatch ha⟩
  refine ⟨hhonest, fun a w' hact => ?_⟩
  rw [← sound_iff (hhonest.act hsound hact)]
  constructor
  · intro hcleanStep
    exact hsound.act hnumbered hcleanStep hact
  · intro hsound'
    exact clean_of_sound hnumbered hact hsound'

/-! ### Two runs of one caller -/

/-- The reason codes from 128 on are failures. -/
def failureCode (code : Nat) : Bool := 128 ≤ code

/-- While one thread calls, no other packet is waited for. -/
private theorem clean_suback {isFailure : Code → Bool} {w : MqttTransport Code} {mid packet : Nat} {codes : List Code}
    (hpc : w.calls 0 = .waiting mid packet) (hidle : ∀ t, t ≠ 0 → w.calls t = .idle) :
    w.Clean isFailure (.suback packet codes) := by
  intro p _ t own hwaiting hown
  by_cases ht : t = 0
  · subst ht
    obtain ⟨-, rfl⟩ := SubscribePc.waiting.inj (hpc.symm.trans hwaiting)
    exact absurd rfl hown
  · rw [hidle t ht] at hwaiting
    cases hwaiting

/-- The first SUBSCRIBE is granted, the second is refused. -/
def twoSubscribes : List (Act Nat) :=
  [.connect, .subscribe 0, .send 0, .suback 0 [1], .take 0, .subscribe 0, .send 0, .suback 1 [128], .take 0]

private theorem clean_twoSubscribes : Along (act failureCode) (Clean failureCode) init twoSubscribes := by
  refine ⟨trivial, ?_⟩
  rintro _ ⟨⟩
  refine ⟨trivial, ?_⟩
  rintro _ ⟨⟩
  refine ⟨fun k _ => rfl, ?_⟩
  rintro _ ⟨⟩
  refine ⟨clean_suback rfl ?_, ?_⟩
  · intro t ht
    simp [send, calls_goto, number, connect, init, ht]
  rintro _ ⟨⟩
  refine ⟨trivial, ?_⟩
  rintro _ ⟨⟩
  refine ⟨trivial, ?_⟩
  rintro _ ⟨⟩
  refine ⟨?_, ?_⟩
  · intro k hk
    obtain rfl := SubscribePc.holding.inj hk
    rfl
  rintro _ ⟨⟩
  refine ⟨clean_suback rfl ?_, ?_⟩
  · intro t ht
    simp [onSubscribe, send, take, calls_goto, number, connect, init, ht]
  rintro _ ⟨⟩
  refine ⟨trivial, ?_⟩
  rintro _ ⟨⟩
  trivial

theorem answered_by_own_two : ∃ w, run (act failureCode) init twoSubscribes = some w ∧
    w.answers = [⟨0, false⟩, ⟨1, true⟩] ∧ w.Honest failureCode := by
  obtain ⟨w, hrun, hanswers⟩ : ∃ w, run (act failureCode) init twoSubscribes = some w ∧
      w.answers = [⟨0, false⟩, ⟨1, true⟩] := ⟨_, rfl, rfl⟩
  exact ⟨w, hrun, hanswers, (answered_by_own failureCode clean_twoSubscribes hrun).1⟩

/-- The first SUBSCRIBE times out and its SUBACK comes late; the one of the next client has the same mid. -/
def lateSuback : List (Act Nat) :=
  [.connect, .subscribe 0, .send 0, .timeout 0, .suback 0 [1], .teardown, .connect, .subscribe 0, .send 0, .take 0]

/-- The second call returns before any SUBACK of its packet. -/
theorem late_suback_answers :
    ¬ ∀ (acts : List (Act Nat)) w, run (act failureCode) init acts = some w → w.Honest failureCode := by
  intro hall
  obtain ⟨w, hrun, hmem, hacked⟩ : ∃ w, run (act failureCode) init lateSuback = some w ∧
      ⟨1, false⟩ ∈ w.answers ∧ w.acked 1 = none := ⟨_, rfl, List.mem_singleton_self _, rfl⟩
  obtain ⟨codes, hcodes, -⟩ := hall lateSuback w hrun ⟨1, false⟩ hmem
  rw [hacked] at hcodes
  cases hcodes

end MqttTransport

end IronHarness.Mqtt
