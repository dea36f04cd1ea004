import Mathlib.Data.List.Nodup
import IronHarness.Lib.Flow
import IronHarness.Mqtt.Sends

/-!
# Every publish is delivered once and in order

The thread of a publisher takes the clients it will look at in one snapshot and goes through them one after the
other, while clients come, go, subscribe and publish.  For one publisher and one subscriber the thread is a channel
that holds at most one message (`holding`): what goes in are the PUBLISH packets of the publisher, what comes out is
what its thread puts on the wire of the subscriber.
-/

namespace IronHarness.Mqtt

open Runs

variable {b b' : Broker} {a : Act} {c p s : Nat} {m : Message}

/-! ### What goes in and what comes out -/

/-- The message of a PUBLISH that the broker takes. -/
def Packet.message : Packet → Option Message
  | .publish 0 _ topic payload | .publish 1 _ topic payload => some (topic, payload)
  | _ => none

/-- The message that client `p` gives the broker with this action. -/
def Broker.accepts (p : Nat) (_ : Broker) : Act → Option Message
  | .receive c packet => if c = p then packet.message else none
  | _ => none

/-- The message that the action puts on the wire of client `s`, and the client whose thread does it. -/
def Broker.arrival (s : Nat) (b : Broker) : Act → Option (Nat × Message)
  | .step c =>
    (b.sends (.step c)).bind fun sent => if sent.1 = s ∧ (b.conns s).alive = true then some (c, sent.2) else none
  | _ => none

/-- The message of an arrival that comes from the thread of `p`. -/
def from? (p : Nat) (arrival : Nat × Message) : Option Message := if arrival.1 = p then some arrival.2 else none

def Broker.relay (p s : Nat) (b : Broker) (a : Act) : Option Message := (b.arrival s a).bind (from? p)

/-- The clients whose subscriptions the thread has still to look at. -/
def Pc.targets : Pc → List Nat
  | .testing _ targets => targets
  | .sending _ target targets => target :: targets
  | _ => []

/-- The message that the thread has taken and not yet dealt with for client `s`. -/
def Pc.holding (s : Nat) : Pc → List Message
  | .acking _ m | .storing m | .broadcasting m => [m]
  | .testing m targets => if s ∈ targets then [m] else []
  | .sending m target targets => if s ∈ target :: targets then [m] else []
  | _ => []

private theorem holding_published (retain : Bool) (m : Message) : (published retain m).holding s = [m] := by
  cases retain <;> rfl

private theorem holding_dispatch (packet : Packet) : (dispatch packet).holding s = packet.message.toList := by
  cases packet with
  | publish qos retain topic payload =>
    rcases qos with - | - | qos
    · exact holding_published retain _
    · rfl
    · rfl
  | _ => rfl

/-- What arrives is appended to what was sent to the client. -/
private theorem sent_act (hact : b.act a = some b') (hs : a ≠ .connect s) :
    (b'.conns s).sent = (b.conns s).sent ++ (b.arrival s a).toList.map Prod.snd := by
  have harrival : ∀ m, b.sends a = some (s, m) → (b.conns s).alive = true →
      ∃ c, b.arrival s a = some (c, m) := by
    intro m hsends halive
    cases a with
    | step c => exact ⟨c, by simp [Broker.arrival, hsends, halive]⟩
    | _ => cases hsends
  rcases sends_act hact hs with ⟨m, hsends, halive, hsent⟩ | ⟨hnot, hsent⟩
  · obtain ⟨c, hc⟩ := harrival m hsends halive
    rw [hsent, hc]
    rfl
  · have hnone : b.arrival s a = none := by
      cases a with
      | step c =>
        unfold Broker.arrival
        rw [Option.bind_eq_none_iff]
        rintro ⟨target, m⟩ hsends
        apply if_neg
        rintro ⟨rfl, halive⟩
        rcases hnot with hnot | hdead
        · exact hnot m hsends
        · rw [hdead] at halive
          cases halive
      | _ => rfl
    rw [hsent, hnone]
    simp

/-! ### The clients of the broker -/

/-- Each client is listed once, and a thread looks at every client but its own at most once. -/
structure Broker.Rostered (b : Broker) : Prop where
  nodup : b.clients.Nodup
  present : ∀ c ∈ b.clients, (b.conns c).pc ≠ .absent
  targets : ∀ c, (c :: (b.conns c).pc.targets).Nodup

private theorem rostered_init : Broker.init.Rostered where
  nodup := List.nodup_nil
  present := by
    intro c hc
    cases hc
  targets := fun _ => List.nodup_singleton _

private theorem targets_published (retain : Bool) (m : Message) : (published retain m).targets = [] := by
  cases retain <;> rfl

private theorem targets_dispatch (packet : Packet) : (dispatch packet).targets = [] := by
  cases packet with
  | publish qos retain topic payload =>
    rcases qos with - | - | qos
    · exact targets_published retain _
    · rfl
    · rfl
  | _ => rfl

private theorem targets_advance (h : b.Rostered) (hact : b.advance c = some b') :
    (c :: (b'.conns c).pc.targets).Nodup := by
  have hown := h.targets c
  have hrule := advance_rule hact
  generalize (b.conns c).pc = pc at hown hrule
  cases hrule with
  | collected message =>
    rw [Broker.conns_goto]
    refine List.nodup_cons.2 ⟨?_, h.nodup.filter _⟩
    simp [Pc.targets]
  | matched message target targets hmatch => simpa [Pc.targets] using hown
  | skipped message target targets hnot | sent message target targets =>
    rw [Broker.conns_goto]
    exact hown.sublist ((List.sublist_cons_self target targets).cons_cons c)
  | replied =>
    unfold Broker.reply
    rw [Broker.conns_goto]
    dsimp only
    split <;> exact List.nodup_singleton c
  | acked retain message =>
    unfold Broker.reply
    rw [Broker.conns_goto]
    dsimp only
    split
    · rw [targets_published]
      exact List.nodup_singleton c
    · exact List.nodup_singleton c
  | subacked filters | delivered filters message rest =>
    unfold Broker.reply
    rw [Broker.conns_goto]
    dsimp only
    split <;> exact List.nodup_singleton c
  | extended filters | left => simp [Broker.setConn, Pc.targets]
  | _ => simp [Pc.targets]

theorem Broker.Rostered.act (h : b.Rostered) (hact : b.act a = some b') : b'.Rostered where
  nodup := by
    cases a with
    | connect c =>
      obtain ⟨habsent, rfl⟩ := act_connect hact
      have hnew : c ∉ b.clients := fun hmem => h.present c hmem habsent
      exact List.nodup_append.2 ⟨h.nodup, List.nodup_singleton c, by grind⟩
    | receive c packet =>
      obtain ⟨-, -, rfl⟩ := act_receive hact
      exact h.nodup
    | step c =>
      rcases advance_clients hact with hsame | ⟨hleft, -⟩
      · rw [hsame]
        exact h.nodup
      · rw [hleft]
        exact h.nodup.erase c
    | lose c =>
      obtain rfl := Option.some.inj hact
      exact h.nodup
    | stop =>
      obtain rfl := Option.some.inj hact
      exact List.nodup_nil
  present := by
    intro s hs
    by_cases hnew : a = .connect s
    · subst hnew
      obtain ⟨-, rfl⟩ := act_connect hact
      simp [Broker.setConn]
    · apply (evolves_act hact hnew).present
      apply h.present
      cases a with
      | connect c =>
        obtain ⟨-, rfl⟩ := act_connect hact
        rcases List.mem_append.1 hs with hold | hc
        · exact hold
        · obtain rfl := List.mem_singleton.1 hc
          exact absurd rfl hnew
      | receive c packet =>
        obtain ⟨-, -, rfl⟩ := act_receive hact
        exact hs
      | step c =>
        rcases advance_clients hact with hsame | ⟨hleft, -⟩
        · rwa [hsame] at hs
        · rw [hleft] at hs
          exact List.mem_of_mem_erase hs
      | lose c =>
        obtain rfl := Option.some.inj hact
        exact hs
      | stop =>
        obtain rfl := Option.some.inj hact
        cases hs
  targets := by
    intro c
    by_cases hstep : a = .step c
    · subst hstep
      exact targets_advance h hact
    · by_cases hconnect : a = .connect c
      · subst hconnect
        obtain ⟨-, rfl⟩ := act_connect hact
        simp [Broker.setConn, Pc.targets]
      · by_cases hreceive : ∃ packet, a = .receive c packet
        · obtain ⟨packet, rfl⟩ := hreceive
          obtain ⟨-, -, rfl⟩ := act_receive hact
          rw [Broker.conns_goto]
          dsimp only
          rw [targets_dispatch]
          exact List.nodup_singleton c
        · rw [pc_act hact hconnect (fun packet heq => hreceive ⟨packet, heq⟩) hstep]
          exact h.targets c

private theorem rostered_run {acts : List Act} (hrun : run Broker.act .init acts = some b) : b.Rostered :=
  invariant (fun _ _ _ hact h => h.act hact) hrun rostered_init

/-! ### The thread of a publisher as a channel -/

/-- What a step of another thread brings: no relay, and in the channel is what the publisher gives. -/
private theorem holding_act (hact : b.act a = some b') (hstep : a ≠ .step p) :
    b.relay p s a = none ∧
      (b'.conns p).pc.holding s = (b.conns p).pc.holding s ++ (b.accepts p a).toList := by
  constructor
  · unfold Broker.relay
    cases a with
    | step c =>
      have hne : c ≠ p := fun heq => hstep (heq ▸ rfl)
      rw [Option.bind_eq_none_iff]
      intro arrival harrival
      unfold Broker.arrival at harrival
      obtain ⟨sent, -, hsent⟩ := Option.bind_eq_some_iff.1 harrival
      rw [Option.ite_none_right_eq_some] at hsent
      obtain rfl := Option.some.inj hsent.2
      exact if_neg hne
    | _ => rfl
  · by_cases hconnect : a = .connect p
    · subst hconnect
      obtain ⟨habsent, rfl⟩ := act_connect hact
      simp [habsent, Broker.setConn, Broker.accepts, Pc.holding]
    · by_cases hreceive : ∃ packet, a = .receive p packet
      · obtain ⟨packet, rfl⟩ := hreceive
        obtain ⟨hidle, -, rfl⟩ := act_receive hact
        rw [Broker.conns_goto, hidle]
        dsimp only
        rw [holding_dispatch]
        simp [Broker.accepts, Pc.holding]
      · have hother : ∀ packet, a ≠ .receive p packet := fun packet heq => hreceive ⟨packet, heq⟩
        have hnone : b.accepts p a = none := by
          cases a with
          | receive c packet =>
            apply if_neg
            rintro rfl
            exact hother packet rfl
          | _ => rfl
        rw [pc_act hact hconnect hother hstep, hnone]
        simp

/-- What a step of the publisher's thread does to the channel: it relays what it holds or lets it go, and lets it go
only for a client without a matching subscription, a broken connection or a client that was not listed. -/
private theorem relay_advance (hrostered : b.Rostered) (hact : b.advance p = some b') (hne : p ≠ s) :
    (b.relay p s (.step p)).toList ++ (b'.conns p).pc.holding s = (b.conns p).pc.holding s ∨
      ((b.relay p s (.step p)).toList ++ (b'.conns p).pc.holding s = [] ∧ ∃ m, (b.conns p).pc.holding s = [m] ∧
        (anyMatches (b.conns s).subscriptions m.1 = false ∨ (b'.conns p).pc = .leaving ∨
          (b.conns s).alive = false ∨ s ∉ b.clients)) := by
  have hown := hrostered.targets p
  have hrule := advance_rule hact
  generalize hpc : (b.conns p).pc = pc at hown hrule
  have hquiet : b.sends (.step p) = none → b.relay p s (.step p) = none := by
    intro hnone
    simp [Broker.relay, Broker.arrival, hnone]
  cases hrule with
  | collected message =>
    rw [hquiet (by simp [Broker.sends, hpc]), Broker.conns_goto]
    by_cases hmem : s ∈ b.clients
    · left
      simp [Pc.holding, hmem, Ne.symm hne]
    · right
      simp [Pc.holding, hmem]
  | skipped message target targets hnot =>
    rw [hquiet (by simp [Broker.sends, hpc]), Broker.conns_goto]
    by_cases htarget : s = target
    · subst htarget
      have hlast : s ∉ targets := (List.nodup_cons.1 (List.nodup_cons.1 hown).2).1
      right
      refine ⟨by simp [Pc.holding, hlast], message, by simp [Pc.holding], .inl ?_⟩
      simpa using hnot
    · left
      simp [Pc.holding, htarget]
  | sent message target targets =>
    rw [Broker.conns_goto]
    by_cases htarget : s = target
    · subst htarget
      have hlast : s ∉ targets := (List.nodup_cons.1 (List.nodup_cons.1 hown).2).1
      cases halive : (b.conns s).alive with
      | true =>
        left
        simp [Broker.relay, Broker.arrival, Broker.sends, hpc, halive, from?, Pc.holding, hlast]
      | false =>
        right
        simp [Broker.relay, Broker.arrival, Broker.sends, hpc, halive, Pc.holding, hlast]
    · left
      simp [Broker.relay, Broker.arrival, Broker.sends, hpc, Ne.symm htarget, Pc.holding, htarget]
  | acked retain message =>
    rw [hquiet (by simp [Broker.sends, hpc])]
    unfold Broker.reply
    rw [Broker.conns_goto]
    cases (b.conns p).alive with
    | true =>
      left
      exact holding_published retain message
    | false =>
      right
      simp [Pc.holding]
  | delivered filters message rest =>
    have hnone : b.relay p s (.step p) = none := by
      simp [Broker.relay, Broker.arrival, Broker.sends, hpc, hne]
    rw [hnone]
    unfold Broker.reply
    rw [Broker.conns_goto]
    left
    dsimp only
    split <;> rfl
  | replied | subacked filters =>
    rw [hquiet (by simp [Broker.sends, hpc])]
    unfold Broker.reply
    rw [Broker.conns_goto]
    left
    dsimp only
    split <;> rfl
  | extended filters | left =>
    rw [hquiet (by simp [Broker.sends, hpc]), Broker.conns_setConn]
    exact .inl rfl
  | _ =>
    rw [hquiet (by simp [Broker.sends, hpc]), Broker.conns_goto]
    exact .inl rfl

/-- A thread that has left its loop does not come back. -/
private theorem left_act (hact : b.act a = some b') (h : (b.conns c).pc = .leaving ∨ (b.conns c).pc = .gone) :
    (b'.conns c).pc = .leaving ∨ (b'.conns c).pc = .gone := by
  have hpresent : (b.conns c).pc ≠ .absent := by
    rcases h with h | h <;> simp [h]
  by_cases hstep : a = .step c
  · subst hstep
    have hrule := advance_rule hact
    generalize (b.conns c).pc = pc at h hrule
    cases hrule with
    | left => simp [Broker.setConn]
    | _ => simp at h
  · rw [pc_act hact (ne_connect_of_present hact hpresent) ?_ hstep]
    · exact h
    · rintro packet rfl
      obtain ⟨hidle, -, -⟩ := act_receive hact
      rcases h with h | h <;> simp [h] at hidle

/-- What the channel of one publisher to one subscriber rests on. -/
structure Channel (s : Nat) (subscriptions : List Topic) (b : Broker) : Prop where
  linked : b.Linked
  wanted : b.Wanted
  rostered : b.Rostered
  present : (b.conns s).pc ≠ .absent
  subscribed : subscriptions ⊆ (b.conns s).subscriptions

theorem Channel.act {subscriptions : List Topic} (h : Channel s subscriptions b) (hact : b.act a = some b') :
    Channel s subscriptions b' where
  linked := h.linked.act hact
  wanted := h.wanted.act hact
  rostered := h.rostered.act hact
  present := (evolves_act hact (ne_connect_of_present hact h.present)).present h.present
  subscribed := List.Subset.trans h.subscribed (h.wanted.subscriptions hact s)

/-- The subscriber can be reached and the publisher is served. -/
def Served (p s : Nat) (b : Broker) : Prop :=
  (b.conns s).alive = true ∧ (b.conns p).pc ≠ .leaving ∧ (b.conns p).pc ≠ .gone

theorem Served.before {subscriptions : List Topic} (hact : b.act a = some b') (h : Channel s subscriptions b)
    (hserved : Served p s b') : Served p s b := by
  obtain ⟨halive, hleaving, hgone⟩ := hserved
  refine ⟨(evolves_act hact (ne_connect_of_present hact h.present)).alive halive, ?_, ?_⟩
  · intro hpc
    rcases left_act hact (.inl hpc) with h | h
    · exact hleaving h
    · exact hgone h
  · intro hpc
    rcases left_act hact (.inr hpc) with h | h
    · exact hleaving h
    · exact hgone h

private theorem relay_le (hne : p ≠ s) (hact : b.act a = some b') (hrostered : b.Rostered) :
    ((b.relay p s a).toList ++ (b'.conns p).pc.holding s).Sublist
      ((b.conns p).pc.holding s ++ (b.accepts p a).toList) := by
  by_cases hstep : a = .step p
  · subst hstep
    have haccepts : b.accepts p (.step p) = none := rfl
    rw [haccepts, Option.toList_none, List.append_nil]
    rcases relay_advance hrostered hact hne with hkeep | ⟨hnone, -⟩
    · rw [hkeep]
    · rw [hnone]
      exact List.nil_sublist _
  · obtain ⟨hnone, hholding⟩ := holding_act hact hstep
    rw [hnone, hholding]
    exact List.Sublist.refl _

/-- Whether the message matches one of the filters. -/
def wantedBy (filters : List Topic) (m : Message) : Bool := anyMatches filters m.1

private theorem le_relay {subscriptions : List Topic} (hne : p ≠ s) (hact : b.act a = some b')
    (h : Channel s subscriptions b) (hserved : Served p s b) (hserved' : Served p s b') :
    (((b.conns p).pc.holding s).filter (wantedBy subscriptions) ++
      ((b.accepts p a).filter (wantedBy subscriptions)).toList).Sublist
      ((b.relay p s a).toList ++ ((b'.conns p).pc.holding s).filter (wantedBy subscriptions)) := by
  by_cases hstep : a = .step p
  · subst hstep
    have haccepts : b.accepts p (.step p) = none := rfl
    rw [haccepts, Option.filter_none, Option.toList_none, List.append_nil]
    rcases relay_advance h.rostered hact hne with hkeep | ⟨hnone, m, hm, hlost⟩
    · rw [← hkeep, List.filter_append]
      exact List.filter_sublist.append_right _
    · have hnot : wantedBy subscriptions m = false := by
        rcases hlost with hnot | hleaving | hdead | hunlisted
        · by_contra hwanted
          have hmatch : anyMatches subscriptions m.1 = true := by simpa [wantedBy] using hwanted
          rw [anyMatches_of_subset h.subscribed hmatch] at hnot
          cases hnot
        · exact absurd hleaving hserved'.2.1
        · rw [hserved.1] at hdead
          cases hdead
        · exact absurd (h.linked s hserved.1).1 hunlisted
      rw [hm, List.filter_cons_of_neg (by simp [hnot])]
      exact List.nil_sublist _
  · obtain ⟨hnone, hholding⟩ := holding_act hact hstep
    rw [hnone, hholding, List.filter_append]
    cases b.accepts p a with
    | none => simp
    | some m => by_cases hm : wantedBy subscriptions m = true <;> simp [hm]

/-! ### Retained messages -/

private theorem of_mem_put {n : Message} {retained : List Message} (h : n ∈ put m retained) : n = m ∨ n ∈ retained := by
  induction retained with
  | nil => exact .inl (List.mem_singleton.1 h)
  | cons old rest ih =>
    unfold put at h
    split at h
    · exact (List.mem_cons.1 h).imp_right (List.mem_cons_of_mem old)
    · rcases List.mem_cons.1 h with rfl | hrest
      · exact .inr List.mem_cons_self
      · exact (ih hrest).imp_right (List.mem_cons_of_mem old)

private theorem of_mem_store {n : Message} {retained : List Message} (h : n ∈ store m retained) :
    n = m ∨ n ∈ retained := by
  unfold store at h
  split at h
  · exact .inr (List.mem_filter.1 h).1
  · exact of_mem_put h

/-- The messages that a thread is about to store, or has found stored, are all in the set. -/
def Pc.Keeps (M : Message → Prop) : Pc → Prop
  | .acking true m | .storing m => M m
  | .choosing _ rest => ∀ m ∈ rest, M m
  | .delivering _ m rest => ∀ n ∈ m :: rest, M n
  | _ => True

structure Broker.Keeps (M : Message → Prop) (b : Broker) : Prop where
  retained : ∀ m ∈ b.retained, M m
  pc : ∀ c, (b.conns c).pc.Keeps M

variable {M : Message → Prop}

private theorem keeps_init : Broker.init.Keeps M where
  retained := by
    intro m hm
    cases hm
  pc := fun _ => trivial

private theorem keeps_leaving_or {pc : Pc} (alive : Bool) (h : pc.Keeps M) :
    (if alive then pc else .leaving).Keeps M := by
  cases alive
  · trivial
  · exact h

private theorem keeps_published {retain : Bool} (h : (Pc.acking retain m).Keeps M) : (published retain m).Keeps M := by
  cases retain
  · trivial
  · exact h

private theorem keeps_dispatch {packet : Packet}
    (h : ∀ qos topic payload, packet = .publish qos true topic payload → M (topic, payload)) :
    (dispatch packet).Keeps M := by
  cases packet with
  | publish qos retain topic payload =>
    have hacking : (Pc.acking retain (topic, payload)).Keeps M := by
      cases retain
      · trivial
      · exact h qos topic payload rfl
    rcases qos with - | - | qos
    · exact keeps_published hacking
    · exact hacking
    · trivial
  | _ => trivial

private theorem keeps_advance (h : b.Keeps M) (hact : b.advance c = some b') : (b'.conns c).pc.Keeps M := by
  have hown := h.pc c
  have hrule := advance_rule hact
  generalize (b.conns c).pc = pc at hown hrule
  cases hrule with
  | acked retain message =>
    unfold Broker.reply
    rw [Broker.conns_goto]
    exact keeps_leaving_or _ (keeps_published hown)
  | snapshot filters =>
    rw [Broker.conns_goto]
    exact h.retained
  | due filters message rest hmatch =>
    rw [Broker.conns_goto]
    exact hown
  | passed filters message rest hnot =>
    rw [Broker.conns_goto]
    exact fun n hn => hown n (List.mem_cons_of_mem message hn)
  | delivered filters message rest =>
    unfold Broker.reply
    rw [Broker.conns_goto]
    exact keeps_leaving_or _ fun n hn => hown n (List.mem_cons_of_mem message hn)
  | replied | subacked filters =>
    unfold Broker.reply
    rw [Broker.conns_goto]
    exact keeps_leaving_or _ trivial
  | extended filters | left =>
    rw [Broker.conns_setConn]
    trivial
  | _ =>
    rw [Broker.conns_goto]
    trivial

/-- The action gives the broker no message to retain that is not in the set. -/
def GivesOnly (M : Message → Prop) (a : Act) : Prop :=
  ∀ c qos topic payload, a = .receive c (.publish qos true topic payload) → M (topic, payload)

theorem Broker.Keeps.act (h : b.Keeps M) (hgives : GivesOnly M a) (hact : b.act a = some b') : b'.Keeps M where
  retained := by
    intro n hn
    rcases act_retained hact with hsame | ⟨c, m, -, hpc, hstore⟩
    · rw [hsame] at hn
      exact h.retained n hn
    · rw [hstore] at hn
      rcases of_mem_store hn with rfl | hold
      · have hown := h.pc c
        rw [hpc] at hown
        exact hown
      · exact h.retained n hold
  pc := by
    intro c
    by_cases hstep : a = .step c
    · subst hstep
      exact keeps_advance h hact
    · by_cases hconnect : a = .connect c
      · subst hconnect
        obtain ⟨-, rfl⟩ := act_connect hact
        simp [Broker.setConn, Pc.Keeps]
      · by_cases hreceive : ∃ packet, a = .receive c packet
        · obtain ⟨packet, rfl⟩ := hreceive
          obtain ⟨-, -, rfl⟩ := act_receive hact
          rw [Broker.conns_goto]
          apply keeps_dispatch
          rintro qos topic payload rfl
          exact hgives c qos topic payload rfl
        · rw [pc_act hact hconnect (fun packet heq => hreceive ⟨packet, heq⟩) hstep]
          exact h.pc c

/-- What its own thread sends to a client is retained. -/
private theorem Broker.Keeps.arrival (h : b.Keeps M) (hrostered : b.Rostered) (harrival : b.arrival s a = some (s, m)) :
    M m := by
  cases a with
  | step c =>
    unfold Broker.arrival at harrival
    obtain ⟨sent, hsends, hsent⟩ := Option.bind_eq_some_iff.1 harrival
    rw [Option.ite_none_right_eq_some] at hsent
    obtain ⟨⟨htarget, -⟩, heq⟩ := hsent
    obtain ⟨rfl, rfl⟩ := Prod.mk.inj (Option.some.inj heq)
    have hkeeps := h.pc c
    have htargets := hrostered.targets c
    unfold Broker.sends at hsends
    dsimp only at hsends
    split at hsends
    · rename_i m target targets hpc
      obtain rfl := Option.some.inj hsends
      rw [hpc] at htargets
      -- a thread does not look at its own client
      exact absurd (List.mem_cons.2 (.inl htarget.symm)) (List.nodup_cons.1 htargets).1
    · rename_i filters m rest hpc
      obtain rfl := Option.some.inj hsends
      rw [hpc] at hkeeps
      exact hkeeps m List.mem_cons_self
    · cases hsends
  | _ => cases harrival

/-! ### Whole runs -/

/-- What comes on the wire of client `s` along a run, with the client whose thread sends it. -/
def wire (s : Nat) (b : Broker) (acts : List Act) : List (Nat × Message) := seen Broker.act (Broker.arrival s) b acts

/-- What client `p` gives the broker along a run. -/
def given (p : Nat) (b : Broker) (acts : List Act) : List Message := seen Broker.act (Broker.accepts p) b acts

/-- What the thread of `p` sends to client `s` along a run. -/
def relayed (p s : Nat) (b : Broker) (acts : List Act) : List Message := (wire s b acts).filterMap (from? p)

section Run

variable {acts : List Act} {b₀ : Broker}

private theorem sent_run (hrun : run Broker.act b₀ acts = some b) (hpresent : (b₀.conns s).pc ≠ .absent) :
    (b.conns s).sent = (b₀.conns s).sent ++ (wire s b₀ acts).map Prod.snd := by
  induction acts generalizing b₀ with
  | nil =>
    obtain rfl := Option.some.inj hrun
    simp [wire, seen]
  | cons a acts ih =>
    obtain ⟨t, ht, hrest⟩ := run_cons_eq_some.1 hrun
    have hnew := ne_connect_of_present ht hpresent
    rw [ih hrest ((evolves_act ht hnew).present hpresent), sent_act ht hnew]
    unfold wire
    rw [seen_cons ht, List.map_append, List.append_assoc]

/-- Whatever comes on the wire of a client matches what it has subscribed to at the end. -/
private theorem wanted_wire (h : Channel s [] b₀) (hrun : run Broker.act b₀ acts = some b) {x : Nat × Message}
    (hx : x ∈ wire s b₀ acts) : wantedBy (b.conns s).subscriptions x.2 = true := by
  have hwanted := invariant (I := Channel s []) (fun _ _ _ hact h => h.act hact) hrun h
  apply hwanted.wanted.sent
  rw [sent_run hrun h.present]
  exact List.mem_append_right _ (List.mem_map_of_mem hx)

private theorem relayed_eq (p s : Nat) (b₀ : Broker) (acts : List Act) :
    relayed p s b₀ acts = seen Broker.act (Broker.relay p s) b₀ acts := by
  unfold relayed wire
  rw [← seen_filterMap]
  rfl

private theorem relayed_le (hne : p ≠ s) (hrostered : b₀.Rostered) (hrun : run Broker.act b₀ acts = some b)
    (hstart : (b₀.conns p).pc = .idle ∨ (b₀.conns p).pc = .absent) :
    (relayed p s b₀ acts).Sublist (given p b₀ acts) := by
  have hempty : (b₀.conns p).pc.holding s = [] := by
    rcases hstart with h | h <;> rw [h] <;> rfl
  have hstep : ∀ (b : Broker) (a : Act) (b' : Broker), b.act a = some b' → b.Rostered →
      ((b.relay p s a).toList ++ (b'.conns p).pc.holding s).Sublist
        ((b.conns p).pc.holding s ++ (b.accepts p a).toList) :=
    fun _ _ _ hact h => relay_le hne hact h
  have hle : (seen Broker.act (Broker.relay p s) b₀ acts ++ (b.conns p).pc.holding s).Sublist
      ((b₀.conns p).pc.holding s ++ seen Broker.act (Broker.accepts p) b₀ acts) :=
    seen_le (fun _ _ _ hact h => h.act hact) hstep hrun hrostered
  rw [hempty, List.nil_append] at hle
  rw [relayed_eq]
  exact (List.sublist_append_left _ _).trans hle

private theorem le_relayed (hne : p ≠ s) (h : Channel s (b₀.conns s).subscriptions b₀)
    (hrun : run Broker.act b₀ acts = some b) (halive : (b.conns s).alive = true)
    (hidle : (b.conns p).pc = .idle) :
    ((given p b₀ acts).filter (wantedBy (b₀.conns s).subscriptions)).Sublist (relayed p s b₀ acts) := by
  have hserved : Served p s b := ⟨halive, by simp [hidle], by simp [hidle]⟩
  have hle : (((b₀.conns p).pc.holding s).filter (wantedBy (b₀.conns s).subscriptions) ++
        seen Broker.act (fun b a => (b.accepts p a).filter (wantedBy (b₀.conns s).subscriptions)) b₀ acts).Sublist
      (seen Broker.act (Broker.relay p s) b₀ acts ++
        ((b.conns p).pc.holding s).filter (wantedBy (b₀.conns s).subscriptions)) :=
    (le_seen (I := Channel s (b₀.conns s).subscriptions) (C := Served p s) (fun _ _ _ hact h => h.act hact)
      (fun _ _ _ hact h hserved => hserved.before hact h)
      (fun _ _ _ hact h hserved hserved' => le_relay hne hact h hserved hserved') hrun h hserved).2
  rw [seen_filter, hidle] at hle
  rw [relayed_eq]
  have hnone : (Pc.holding s .idle).filter (wantedBy (b₀.conns s).subscriptions) = [] := rfl
  rw [hnone, List.append_nil] at hle
  exact (List.sublist_append_right _ _).trans hle

end Run

/-- The message was published to be retained in one of the actions. -/
def RetainedBy (acts : List Act) (m : Message) : Prop := ∃ c qos, Act.receive c (.publish qos true m.1 m.2) ∈ acts

/-- A client that is served throughout is sent, from the thread of each other client that is served throughout, what
that client publishes on a subscribed topic: once, in order and nothing else.  Its own thread sends it retained
messages only. -/
theorem delivered_once_in_order {setup acts : List Act} {b₀ b : Broker} {s : Nat}
    (hsetup : run Broker.act .init setup = some b₀) (hrun : run Broker.act b₀ acts = some b)
    (hpresent : (b₀.conns s).pc ≠ .absent) (halive : (b.conns s).alive = true) :
    (b.conns s).sent = (b₀.conns s).sent ++ (wire s b₀ acts).map Prod.snd ∧
      (∀ m, (s, m) ∈ wire s b₀ acts → RetainedBy (setup ++ acts) m) ∧
      ∀ p ≠ s, (b₀.conns p).pc = .idle ∨ (b₀.conns p).pc = .absent → (b.conns p).pc = .idle →
        ((given p b₀ acts).filter (wantedBy (b₀.conns s).subscriptions)).Sublist (relayed p s b₀ acts) ∧
        (relayed p s b₀ acts).Sublist ((given p b₀ acts).filter (wantedBy (b.conns s).subscriptions)) := by
  have hchannel : ∀ subscriptions ⊆ (b₀.conns s).subscriptions, Channel s subscriptions b₀ := fun _ hsub =>
    ⟨linked_run hsetup, wanted_run hsetup, rostered_run hsetup, hpresent, hsub⟩
  refine ⟨sent_run hrun hpresent, ?_, ?_⟩
  · intro m hm
    have hgives : ∀ part ⊆ setup ++ acts, ∀ a ∈ part, GivesOnly (RetainedBy (setup ++ acts)) a := by
      rintro part hpart a ha c qos topic payload rfl
      exact ⟨c, qos, hpart ha⟩
    have hkeeps : b₀.Keeps (RetainedBy (setup ++ acts)) :=
      (Along.of_forall (hgives setup (List.subset_append_left _ _))).invariant
        (fun _ _ _ hgive hact h => h.act hgive hact) hsetup keeps_init
    have hkeeps' : b₀.Keeps (RetainedBy (setup ++ acts)) ∧ b₀.Rostered := ⟨hkeeps, rostered_run hsetup⟩
    exact (Along.of_forall (hgives acts (List.subset_append_right _ _))).mem_seen
      (I := fun b => b.Keeps (RetainedBy (setup ++ acts)) ∧ b.Rostered) (Q := fun x => x.1 = s → RetainedBy _ x.2)
      (fun _ _ _ hgive hact h => ⟨h.1.act hgive hact, h.2.act hact⟩)
      (by
        rintro b a ⟨c, n⟩ h harrival rfl
        exact h.1.arrival h.2 harrival)
      hkeeps' hm rfl
  · intro p hne hstart hidle
    constructor
    · exact le_relayed hne (hchannel _ (List.Subset.refl _)) hrun halive hidle
    · have hmatch : (relayed p s b₀ acts).filter (wantedBy (b.conns s).subscriptions) = relayed p s b₀ acts := by
        rw [List.filter_eq_self]
        intro m hm
        obtain ⟨x, hx, hfrom⟩ := List.mem_filterMap.1 hm
        have hm' : x.2 = m := by
          unfold from? at hfrom
          rw [Option.ite_none_right_eq_some] at hfrom
          exact Option.some.inj hfrom.2
        rw [← hm']
        exact wanted_wire (hchannel [] (List.nil_subset _)) hrun hx
      rw [← hmatch]
      exact (relayed_le hne (rostered_run hsetup) hrun hstart).filter _

theorem delivered_once_in_order_lamp : ∃ b₀ b, run Broker.act .init (lampActs.take 7) = some b₀ ∧
    run Broker.act b₀ (lampActs.drop 7) = some b ∧ relayed 1 2 b₀ (lampActs.drop 7) = [lampOn] := by
  obtain ⟨b₀, hsetup, b, hrun, hpresent, hidle, halive, hidle', hwanted, hwanted'⟩ :
      ∃ b₀, run Broker.act .init (lampActs.take 7) = some b₀ ∧
        ∃ b, run Broker.act b₀ (lampActs.drop 7) = some b ∧ (b₀.conns 2).pc ≠ .absent ∧ (b₀.conns 1).pc = .idle ∧
          (b.conns 2).alive = true ∧ (b.conns 1).pc = .idle ∧
          (given 1 b₀ (lampActs.drop 7)).filter (wantedBy (b₀.conns 2).subscriptions) = [lampOn] ∧
          (given 1 b₀ (lampActs.drop 7)).filter (wantedBy (b.conns 2).subscriptions) = [lampOn] :=
    ⟨_, rfl, _, rfl, by decide, rfl, rfl, rfl, by decide, by decide⟩
  obtain ⟨hle, hge⟩ := (delivered_once_in_order hsetup hrun hpresent halive).2.2 1 (by decide) (.inl hidle) hidle'
  rw [hwanted] at hle
  rw [hwanted'] at hge
  exact ⟨b₀, b, hsetup, hrun, hge.antisymm hle⟩

end IronHarness.Mqtt
