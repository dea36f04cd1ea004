import IronHarness.Mqtt.Sends

/-!
# What is retained and what the subscribers have last

The store of a message and its broadcast are two steps, and a subscriber sends itself what it found in an earlier
snapshot, so an old message can go out after a new one.  What a subscriber was sent last on a topic is what is
retained there (`converges`), as long as no message that is no longer retained goes out to it when nobody owes it the
retained one.
-/

namespace IronHarness.Mqtt

open Runs

variable {b b' : Broker} {a : Act} {c s p : Nat} {m : Message} {topic : Topic}

/-- `retained[topic]`, with the topic. -/
def Broker.retainedAt (b : Broker) (topic : Topic) : Option Message := b.retained.find? fun m => m.1 = topic

/-- The last PUBLISH on the topic that was sent to the client. -/
def Conn.lastOn (conn : Conn) (topic : Topic) : Option Message := (conn.sent.filter fun m => m.1 = topic).getLast?

/-- The client will still be sent what is retained on the topic. -/
def Broker.Owed (b : Broker) (topic : Topic) (s : Nat) : Prop :=
  ∃ m, b.retainedAt topic = some m ∧ ((∃ p, p ≠ s ∧ PublisherOwes m p s b) ∨ SubscriberOwes m s b)

/-- A thread is just before its store on the topic. -/
def Broker.Pending (b : Broker) (topic : Topic) : Prop := ∃ c m, (b.conns c).pc = .storing m ∧ m.1 = topic

/-- What goes out to the client on the topic is what is retained there, or the client is still owed that, or it is about
to be replaced. -/
def InOrder (topic : Topic) (s : Nat) (b : Broker) (a : Act) : Prop :=
  ∀ m, b.sends a = some (s, m) → m.1 = topic →
    b.retainedAt topic = some m ∨ b.Owed topic s ∨ b.Pending topic

def Settled (topic : Topic) (s : Nat) (b : Broker) : Prop :=
  (b.conns s).lastOn topic = b.retainedAt topic ∨ b.Owed topic s ∨ b.Pending topic

/-! ### The dictionary of retained messages, by topic -/

private theorem find_put (m : Message) (retained : List Message) :
    (put m retained).find? (fun old => old.1 = m.1) = some m := by
  induction retained with
  | nil => simp [put]
  | cons old rest ih =>
    unfold put
    split
    · simp
    · rename_i hne
      rw [List.find?_cons_of_neg (by simpa using hne)]
      exact ih

private theorem find_put_of_ne (hne : m.1 ≠ topic) (retained : List Message) :
    (put m retained).find? (fun old => old.1 = topic) = retained.find? fun old => old.1 = topic := by
  induction retained with
  | nil => simp [put, hne]
  | cons old rest ih =>
    unfold put
    split
    · rename_i heq
      have hold : old.1 ≠ topic := by
        rw [heq]
        exact hne
      rw [List.find?_cons_of_neg (by simpa using hne), List.find?_cons_of_neg (by simpa using hold)]
    · rw [List.find?_cons, List.find?_cons, ih]

private theorem find_store (hm : m.2 ≠ []) (retained : List Message) :
    (store m retained).find? (fun old => old.1 = m.1) = some m := by
  unfold store
  rw [if_neg (by simpa using hm)]
  exact find_put m retained

private theorem find_store_of_ne (hne : m.1 ≠ topic) (retained : List Message) :
    (store m retained).find? (fun old => old.1 = topic) = retained.find? fun old => old.1 = topic := by
  unfold store
  split
  · rw [List.find?_filter]
    congr 1
    funext old
    by_cases hold : old.1 = topic
    · simp [hold, hne.symm]
    · simp [hold]
  · exact find_put_of_ne hne retained

private theorem mem_of_retainedAt (h : b.retainedAt topic = some m) : m ∈ b.retained ∧ m.1 = topic := by
  refine ⟨List.mem_of_find?_eq_some h, ?_⟩
  simpa using List.find?_some h

/-- Without a store on the topic, what is retained there stays. -/
private theorem retainedAt_act (h : b.act a = some b') (hnot : ¬ b.Pending topic) :
    b'.retainedAt topic = b.retainedAt topic := by
  unfold Broker.retainedAt
  rcases act_retained h with hsame | ⟨c, m, rfl, hpc, hnew⟩
  · rw [hsame]
  · rw [hnew]
    apply find_store_of_ne
    rintro rfl
    exact hnot ⟨c, m, hpc, rfl⟩

private theorem lastOn_append (conn conn' : Conn) (h : conn'.sent = conn.sent ++ [m]) :
    conn'.lastOn topic = if m.1 = topic then some m else conn.lastOn topic := by
  unfold Conn.lastOn
  rw [h, List.filter_append]
  split
  · rename_i hm
    simp [hm]
  · rename_i hm
    simp [hm]

/-! ### The publishers -/

/-- Where the thread is before the store of a message. -/
def Pc.storesNext (pc : Pc) (m : Message) : Prop := pc = .storing m ∨ ∃ retain, pc = .acking retain m

/-- What is about to be stored on the topic is not empty and not of the client. -/
def Broker.Feeds (topic : Topic) (s : Nat) (b : Broker) : Prop :=
  ∀ c m, (b.conns c).pc.storesNext m → m.1 = topic → c ≠ s ∧ m.2 ≠ []

/-- A PUBLISH on the topic is not empty and not of the client. -/
def FedBy (topic : Topic) (s : Nat) (a : Act) : Prop :=
  ∀ c qos retain payload, a = .receive c (.publish qos retain topic payload) → c ≠ s ∧ payload ≠ []

private theorem storesNext_published {retain : Bool} {n : Message} (h : (published retain n).storesNext m) : n = m := by
  cases retain with
  | false => simp [published, Pc.storesNext] at h
  | true => simpa [published, Pc.storesNext] using h

private theorem storesNext_dispatch {packet : Packet} (h : (dispatch packet).storesNext m) :
    ∃ qos retain, packet = .publish qos retain m.1 m.2 := by
  unfold dispatch at h
  split at h
  · simp [Pc.storesNext] at h
  · simp [Pc.storesNext] at h
  · obtain rfl := storesNext_published h
    exact ⟨_, _, rfl⟩
  · rename_i retain topic payload
    obtain rfl : (topic, payload) = m := by simpa [Pc.storesNext] using h
    exact ⟨_, _, rfl⟩
  · simp [Pc.storesNext] at h
  · simp [Pc.storesNext] at h
  · simp [Pc.storesNext] at h
  · simp [Pc.storesNext] at h
  · simp [Pc.storesNext] at h

private theorem storesNext_advance (hact : b.advance c = some b') (h : (b'.conns c).pc.storesNext m) :
    (b.conns c).pc.storesNext m := by
  have hrule := advance_rule hact
  generalize (b.conns c).pc = pc at hrule ⊢
  cases hrule with
  | acked retain message =>
    unfold Broker.reply at h
    rw [Broker.conns_goto] at h
    dsimp only at h
    split at h
    · obtain rfl := storesNext_published h
      exact .inr ⟨retain, rfl⟩
    · simp [Pc.storesNext] at h
  | replied | subacked filters | delivered filters message rest =>
    unfold Broker.reply at h
    rw [Broker.conns_goto] at h
    dsimp only at h
    split at h
    · simp [Pc.storesNext] at h
    · simp [Pc.storesNext] at h
  -- no other step leads to a store
  | _ => simp [Pc.storesNext, Broker.setConn] at h

theorem Broker.Feeds.act (h : b.Feeds topic s) (hfed : FedBy topic s a) (hact : b.act a = some b') :
    b'.Feeds topic s := by
  intro c m hnext hm
  by_cases hstep : a = .step c
  · subst hstep
    exact h c m (storesNext_advance hact hnext) hm
  · by_cases hconnect : a = .connect c
    · subst hconnect
      obtain ⟨-, rfl⟩ := act_connect hact
      simp [Pc.storesNext, Broker.setConn] at hnext
    · by_cases hreceive : ∃ packet, a = .receive c packet
      · obtain ⟨packet, rfl⟩ := hreceive
        obtain ⟨-, -, rfl⟩ := act_receive hact
        rw [Broker.conns_goto] at hnext
        obtain ⟨qos, retain, rfl⟩ := storesNext_dispatch hnext
        exact hfed c qos retain m.2 (by rw [hm])
      · rw [pc_act hact hconnect (fun packet heq => hreceive ⟨packet, heq⟩) hstep] at hnext
        exact h c m hnext hm

/-! ### A step in order keeps a subscriber settled -/

/-- The client is sent the message that is retained: it has that last. -/
private theorem lastOn_of_sent (hm : b'.retainedAt topic = some m)
    (hsent : (b'.conns s).sent = (b.conns s).sent ++ [m]) :
    (b'.conns s).lastOn topic = b'.retainedAt topic := by
  rw [lastOn_append _ _ hsent, if_pos (mem_of_retainedAt hm).2, hm]

/-- What is owed is sent, or stays owed. -/
theorem Owed.act (h : b.Owed topic s) (hact : b.act a = some b') (hnot : ¬ b.Pending topic) (hlinked : b.Linked)
    (halive : (b.conns s).alive = true) (hsubscribed : Subscribed topic s b) :
    (b'.conns s).lastOn topic = b'.retainedAt topic ∨ b'.Owed topic s := by
  obtain ⟨m, hm, howes⟩ := h
  have hm' : b'.retainedAt topic = some m := (retainedAt_act hact hnot).trans hm
  obtain ⟨-, rfl⟩ := mem_of_retainedAt hm
  rcases howes with ⟨p, hne, howes⟩ | howes
  · by_cases hstep : a = .step p
    · subst hstep
      rcases howes.pushes hact hne (hlinked s halive).1 halive hsubscribed.2 with hsent | howes'
      · exact .inl (lastOn_of_sent hm' hsent)
      · exact .inr ⟨m, hm', .inl ⟨p, hne, howes'⟩⟩
    · exact .inr ⟨m, hm', .inl ⟨p, hne, howes.stay hact hstep⟩⟩
  · by_cases hstep : a = .step s
    · subst hstep
      rcases howes.pushes hact halive with hsent | howes'
      · exact .inl (lastOn_of_sent hm' hsent)
      · exact .inr ⟨m, hm', .inr howes'⟩
    · exact .inr ⟨m, hm', .inr (howes.stay hact hstep fun _ => (mem_of_retainedAt hm').1)⟩

/-- After a store the publisher owes the message to every other subscriber. -/
theorem Pending.act (h : b.Pending topic) (hact : b.act a = some b') (hfeeds : b.Feeds topic s) :
    b'.Owed topic s ∨ b'.Pending topic := by
  obtain ⟨c, m, hpc, rfl⟩ := h
  obtain ⟨hne, hnonempty⟩ := hfeeds c m (.inl hpc) rfl
  by_cases hstep : a = .step c
  · subst hstep
    left
    have hretained : b'.retainedAt m.1 = some m ∧ (b'.conns c).pc = .broadcasting m := by
      simp only [Broker.act, Broker.advance, hpc] at hact
      obtain rfl := Option.some.inj hact
      exact ⟨find_store hnonempty b.retained, by simp⟩
    refine ⟨m, hretained.1, .inl ⟨c, hne, ?_⟩⟩
    unfold PublisherOwes
    rw [hretained.2]
  · right
    refine ⟨c, m, ?_, rfl⟩
    rw [act_pc hact (by simp [hpc]) (by simp [hpc]) hstep]
    exact hpc

theorem Settled.act (h : Settled topic s b) (horder : InOrder topic s b a) (hact : b.act a = some b')
    (hlinked : b.Linked) (hfeeds : b.Feeds topic s) (halive : (b.conns s).alive = true)
    (hsubscribed : Subscribed topic s b) : Settled topic s b' := by
  by_cases hpending : b.Pending topic
  · exact .inr (Pending.act hpending hact hfeeds)
  by_cases howed : b.Owed topic s
  · rcases Owed.act howed hact hpending hlinked halive hsubscribed with hlast | howed'
    · exact .inl hlast
    · exact .inr (.inl howed')
  -- nothing is on its way: the step sends what is retained, or nothing on the topic
  left
  have hlast : (b.conns s).lastOn topic = b.retainedAt topic := by
    rcases h with hlast | h | h
    · exact hlast
    · exact absurd h howed
    · exact absurd h hpending
  rw [retainedAt_act hact hpending]
  rcases sends_act hact (ne_connect_of_present hact hsubscribed.1) with ⟨m, hsends, -, hsent⟩ | ⟨-, hsent⟩
  · rw [lastOn_append _ _ hsent]
    split
    · rename_i hm
      rcases horder m hsends hm with hretained | h | h
      · exact hretained.symm
      · exact absurd h howed
      · exact absurd h hpending
    · exact hlast
  · unfold Conn.lastOn at hlast ⊢
    rw [hsent]
    exact hlast

/-- A client that subscribes is owed what is retained. -/
private theorem settled_of_extend (hwanted : b.Wanted) (hact : b.act a = some b') (hnew : ¬ Subscribed topic s b)
    (hsubscribed : Subscribed topic s b') : Settled topic s b' := by
  have hs : a ≠ .connect s := by
    rintro rfl
    obtain ⟨-, rfl⟩ := act_connect hact
    simp [Subscribed, anyMatches, Broker.setConn] at hsubscribed
  have hpresent : (b.conns s).pc ≠ .absent := by
    intro habsent
    apply hsubscribed.1
    rw [absent_act hact (hwanted.absent s habsent) hs]
    rfl
  have hunmatched : anyMatches (b.conns s).subscriptions topic ≠ true := fun hmatch => hnew ⟨hpresent, hmatch⟩
  rcases subscriptions_act hact hs with hsame | ⟨filters, rfl, hpc⟩
  · exact absurd (hsame ▸ hsubscribed.2) hunmatched
  · have hnone : (b.conns s).lastOn topic = none := by
      unfold Conn.lastOn
      rw [List.getLast?_eq_none_iff, List.filter_eq_nil_iff]
      intro m hm htopic
      obtain rfl : m.1 = topic := by simpa using htopic
      exact hunmatched (hwanted.sent s m hm)
    simp only [Broker.act, Broker.advance, hpc] at hact
    obtain rfl := Option.some.inj hact
    have hmatch : anyMatches filters topic = true := by
      have hboth := hsubscribed.2
      rw [Broker.conns_setConn] at hboth
      unfold anyMatches at hboth hunmatched ⊢
      rw [List.any_append, Bool.or_eq_true] at hboth
      exact hboth.resolve_left hunmatched
    cases hretained : b.retainedAt topic with
    | none =>
      left
      rw [Broker.conns_setConn]
      exact hnone.trans hretained.symm
    | some m =>
      right
      left
      refine ⟨m, hretained, .inr ?_⟩
      obtain ⟨hmem, rfl⟩ := mem_of_retainedAt hretained
      unfold SubscriberOwes
      rw [Broker.conns_setConn]
      exact ⟨hmatch, hmem⟩

/-! ### Runs -/

/-- What holds of the broker and a client that does not publish on the topic. -/
structure Tracked (topic : Topic) (s : Nat) (b : Broker) : Prop where
  linked : b.Linked
  wanted : b.Wanted
  feeds : b.Feeds topic s
  settled : (b.conns s).alive = true → Subscribed topic s b → Settled topic s b

theorem Tracked.act (h : Tracked topic s b) (hfed : FedBy topic s a) (horder : InOrder topic s b a)
    (hact : b.act a = some b') : Tracked topic s b' where
  linked := h.linked.act hact
  wanted := h.wanted.act hact
  feeds := h.feeds.act hfed hact
  settled := by
    intro halive' hsubscribed'
    by_cases hsubscribed : Subscribed topic s b
    · have halive := (evolves_act hact (ne_connect_of_present hact hsubscribed.1)).alive halive'
      exact (h.settled halive hsubscribed).act horder hact h.linked h.feeds halive hsubscribed
    · exact settled_of_extend h.wanted hact hsubscribed hsubscribed'

/-- No thread is in the middle of a packet. -/
def Broker.Quiescent (b : Broker) : Prop := ∀ c, (b.conns c).pc = .absent ∨ (b.conns c).pc.done = true

private theorem not_publisherOwes_of_quiescent (h : b.Quiescent) : ¬ PublisherOwes m p s b := by
  intro howes
  unfold PublisherOwes at howes
  rcases h p with hpc | hpc <;> split at howes <;> simp_all [Pc.done]

private theorem not_subscriberOwes_of_quiescent (h : b.Quiescent) : ¬ SubscriberOwes m s b := by
  intro howes
  unfold SubscriberOwes at howes
  rcases h s with hpc | hpc <;> split at howes <;> simp_all [Pc.done]

private theorem Settled.of_quiescent (h : Settled topic s b) (hquiescent : b.Quiescent) :
    (b.conns s).lastOn topic = b.retainedAt topic := by
  rcases h with hlast | ⟨m, -, ⟨p, -, howes⟩ | howes⟩ | ⟨c, m, hpc, -⟩
  · exact hlast
  · exact absurd howes (not_publisherOwes_of_quiescent hquiescent)
  · exact absurd howes (not_subscriberOwes_of_quiescent hquiescent)
  · rcases hquiescent c with hc | hc <;> simp [hpc, Pc.done] at hc

/-- In every run whose sends to `s` on the topic are in order: once no thread is in the middle of a packet, what `s` was
sent last on the topic is what is retained there. -/
theorem converges {acts : List Act} (hrun : run Broker.act .init acts = some b)
    (hpublish : ∀ c qos retain payload, .receive c (.publish qos retain topic payload) ∈ acts → c ≠ s ∧ payload ≠ [])
    (horder : Along Broker.act (InOrder topic s) .init acts) (hquiescent : b.Quiescent)
    (halive : (b.conns s).alive = true) (hsubscribed : anyMatches (b.conns s).subscriptions topic = true) :
    (b.conns s).lastOn topic = b.retainedAt topic := by
  have hfed : Along Broker.act (fun _ a => FedBy topic s a) .init acts := by
    apply Along.of_forall
    rintro a ha c qos retain payload rfl
    exact hpublish c qos retain payload ha
  have htracked : Tracked topic s b := by
    refine (horder.and hfed).invariant (fun _ _ _ hstep hact h => h.act hstep.2 hstep.1 hact) hrun ?_
    refine ⟨linked_init, wanted_init, ?_, ?_⟩
    · rintro c m (hpc | ⟨retain, hpc⟩) <;> cases hpc
    · intro halive
      cases halive
  have hpresent : (b.conns s).pc ≠ .absent := by
    intro habsent
    rw [htracked.wanted.absent s habsent] at halive
    cases halive
  exact (htracked.settled halive ⟨hpresent, hsubscribed⟩).of_quiescent hquiescent

/-- What goes out to the client on the topic is what is retained there. -/
def Fresh (topic : Topic) (s : Nat) (b : Broker) (a : Act) : Prop :=
  ∀ sent ∈ b.sends a, sent.1 = s ∧ sent.2.1 = topic → b.retainedAt topic = some sent.2

instance : Decidable (Fresh topic s b a) :=
  match h : b.sends a with
  | none => isTrue (by rw [Fresh, h]; rintro _ ⟨⟩)
  | some sent =>
    decidable_of_iff (sent.1 = s ∧ sent.2.1 = topic → b.retainedAt topic = some sent.2)
      (by rw [Fresh, h]; simp)

theorem Fresh.inOrder (h : Fresh topic s b a) : InOrder topic s b a :=
  fun m hsends hm => .inl (h (s, m) hsends ⟨rfl, hm⟩)

def lampOff : Message := (lampTopic, [111, 102, 102])

/-- Clients 1, 2 and 3 connect, and 3 subscribes to `home/+`. -/
def lampSetup : List Act :=
  [.connect 1, .connect 2, .connect 3, .receive 3 (.subscribe ["home/+".toList]), .step 3, .step 3, .step 3, .step 3]

/-- The rest of the thread of client `c` after a retained PUBLISH and its store. -/
def lampBroadcast (c : Nat) : List Act := List.replicate 5 (.step c)

def lampPublish (c : Nat) (m : Message) : List Act := [.receive c (.publish 0 true lampTopic m.2), .step c]

/-- Client 2 publishes after the broadcast of client 1. -/
def lampInTurn : List Act :=
  lampSetup ++ lampPublish 1 lampOn ++ lampBroadcast 1 ++ lampPublish 2 lampOff ++ lampBroadcast 2

/-- Client 2 stores its message before client 1 looks at the clients, and broadcasts it before client 1 does. -/
def lampCrossed : List Act :=
  lampSetup ++ lampPublish 1 lampOn ++ lampPublish 2 lampOff ++ lampBroadcast 2 ++ lampBroadcast 1

private theorem quiescent_lamp {acts : List Act} (hrun : run Broker.act .init acts = some b)
    (hothers : ∀ c, .connect c ∈ acts → c = 1 ∨ c = 2 ∨ c = 3)
    (hone : (b.conns 1).pc = .idle) (htwo : (b.conns 2).pc = .idle) (hthree : (b.conns 3).pc = .idle) :
    b.Quiescent := by
  intro c
  by_cases hc : Act.connect c ∈ acts
  · right
    rcases hothers c hc with rfl | rfl | rfl
    · rw [hone]
      rfl
    · rw [htwo]
      rfl
    · rw [hthree]
      rfl
  · left
    rw [absent_run hrun rfl hc]
    rfl

/-- The subscriber does not publish, and every PUBLISH is retained and not empty. -/
private theorem publish_lamp {c qos : Nat} {retain : Bool} {payload : ByteText.Bytes} {acts : List Act}
    (h : acts = lampInTurn ∨ acts = lampCrossed) (hc : .receive c (.publish qos retain lampTopic payload) ∈ acts) :
    c ≠ 3 ∧ retain = true ∧ payload ≠ [] := by
  have hc' : Act.receive c (.publish qos retain lampTopic payload) ∈ lampPublish 1 lampOn ++ lampPublish 2 lampOff := by
    rcases h with rfl | rfl
    · simpa [lampInTurn, lampSetup, lampBroadcast] using hc
    · simpa [lampCrossed, lampSetup, lampBroadcast] using hc
  rcases List.mem_append.1 hc' with hone | htwo
  · simp only [lampPublish, List.mem_cons, Act.receive.injEq, Packet.publish.injEq, reduceCtorEq, List.not_mem_nil,
      or_false] at hone
    obtain ⟨rfl, -, rfl, -, rfl⟩ := hone
    decide
  · simp only [lampPublish, List.mem_cons, Act.receive.injEq, Packet.publish.injEq, reduceCtorEq, List.not_mem_nil,
      or_false] at htwo
    obtain ⟨rfl, -, rfl, -, rfl⟩ := htwo
    decide

private theorem connect_lamp {c : Nat} {acts : List Act} (h : acts = lampInTurn ∨ acts = lampCrossed)
    (hc : .connect c ∈ acts) :
    c = 1 ∨ c = 2 ∨ c = 3 := by
  rcases h with rfl | rfl
  · simpa [lampInTurn, lampSetup, lampPublish, lampBroadcast] using hc
  · simpa [lampCrossed, lampSetup, lampPublish, lampBroadcast] using hc

theorem converges_lamp : ∃ b, run Broker.act .init lampInTurn = some b ∧
    (b.conns 3).lastOn lampTopic = some lampOff ∧ (b.conns 3).lastOn lampTopic = b.retainedAt lampTopic := by
  obtain ⟨b, hrun, hone, htwo, hthree, halive, hsubscribed, hlast⟩ : ∃ b, run Broker.act .init lampInTurn = some b ∧
      (b.conns 1).pc = .idle ∧ (b.conns 2).pc = .idle ∧ (b.conns 3).pc = .idle ∧ (b.conns 3).alive = true ∧
      anyMatches (b.conns 3).subscriptions lampTopic = true ∧ (b.conns 3).lastOn lampTopic = some lampOff :=
    ⟨_, rfl, rfl, rfl, rfl, rfl, by decide, by decide⟩
  have hfresh : Along Broker.act (Fresh lampTopic 3) .init lampInTurn := by decide
  refine ⟨b, hrun, hlast, converges hrun ?_ (hfresh.imp fun _ _ h => h.inOrder)
    (quiescent_lamp hrun (fun c => connect_lamp (.inl rfl)) hone htwo hthree) halive hsubscribed⟩
  intro c qos retain payload hmem
  obtain ⟨hne, -, hpayload⟩ := publish_lamp (.inl rfl) hmem
  exact ⟨hne, hpayload⟩

/-- Both messages are sent to client 3, and the one that is not retained comes last. -/
theorem crossed_broadcasts_differ :
    ¬ ∀ (topic : Topic) (s : Nat) (acts : List Act) b, run Broker.act .init acts = some b →
      (∀ c qos retain payload, .receive c (.publish qos retain topic payload) ∈ acts →
        c ≠ s ∧ retain = true ∧ payload ≠ []) →
      b.Quiescent → (b.conns s).alive = true → anyMatches (b.conns s).subscriptions topic = true →
      (b.conns s).lastOn topic = b.retainedAt topic := by
  intro hall
  obtain ⟨b, hrun, hone, htwo, hthree, halive, hsubscribed, hlast⟩ : ∃ b, run Broker.act .init lampCrossed = some b ∧
      (b.conns 1).pc = .idle ∧ (b.conns 2).pc = .idle ∧ (b.conns 3).pc = .idle ∧ (b.conns 3).alive = true ∧
      anyMatches (b.conns 3).subscriptions lampTopic = true ∧ (b.conns 3).lastOn lampTopic ≠ b.retainedAt lampTopic :=
    ⟨_, rfl, rfl, rfl, rfl, rfl, by decide, by decide⟩
  apply hlast
  apply hall lampTopic 3 lampCrossed b hrun _ _ halive hsubscribed
  · intro c qos retain payload hmem
    exact publish_lamp (.inr rfl) hmem
  · exact quiescent_lamp hrun (fun c => connect_lamp (.inr rfl)) hone htwo hthree

end IronHarness.Mqtt
