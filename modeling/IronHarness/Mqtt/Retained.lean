import IronHarness.Mqtt.Broker

/-!
# A retained message reaches its subscribers

The publisher stores its message before it looks at the clients, and the subscriber extends its subscriptions before
it looks at the retained messages, so the later of the two sees what the other did: where the store is first, the
subscriber finds the message (`SubscriberOwes`), and where the extension is first, the publisher finds the
subscription (`PublisherOwes`).  The one that owes the message keeps owing it until it is sent.
-/

namespace IronHarness.Mqtt

open Runs

variable {b b' : Broker} {a : Act} {c s p : Nat} {m : Message}

/-! ### The dictionary of retained messages -/

private theorem mem_put (m : Message) (retained : List Message) : m ∈ put m retained := by
  induction retained with
  | nil => simp [put]
  | cons old rest ih =>
    unfold put
    split
    · simp
    · simp [ih]

private theorem mem_put_of_ne {n : Message} {retained : List Message} (h : m ∈ retained) (hne : m.1 ≠ n.1) :
    m ∈ put n retained := by
  induction retained with
  | nil => cases h
  | cons old rest ih =>
    unfold put
    rcases List.mem_cons.1 h with rfl | hrest
    · rw [if_neg hne]
      exact List.mem_cons_self
    · split
      · exact List.mem_cons_of_mem n hrest
      · exact List.mem_cons_of_mem old (ih hrest)

private theorem mem_store {retained : List Message} (h : m.2 ≠ []) : m ∈ store m retained := by
  unfold store
  rw [if_neg (by simpa using h)]
  exact mem_put m retained

private theorem mem_store_of_ne {n : Message} {retained : List Message} (h : m ∈ retained) (hne : m.1 ≠ n.1) :
    m ∈ store n retained := by
  unfold store
  split
  · simp [h, hne]
  · exact mem_put_of_ne h hne

private theorem anyMatches_append {front back : List Topic} {topic : Topic} (h : anyMatches front topic = true) :
    anyMatches (front ++ back) topic = true := by
  unfold anyMatches at h ⊢
  rw [List.any_append, h, Bool.true_or]

theorem act_connect (h : b.act (.connect c) = some b') :
    (b.conns c).pc = .absent ∧ { b with clients := b.clients ++ [c] }.setConn c ⟨.idle, true, [], []⟩ = b' := by
  unfold Broker.act at h
  rw [Option.ite_none_right_eq_some] at h
  exact ⟨h.1, Option.some.inj h.2⟩

theorem act_receive {packet : Packet} (h : b.act (.receive c packet) = some b') :
    (b.conns c).pc = .idle ∧ (b.conns c).alive = true ∧ b.goto c (dispatch packet) = b' := by
  unfold Broker.act at h
  rw [Option.ite_none_right_eq_some] at h
  exact ⟨h.1.1, h.1.2, Option.some.inj h.2⟩

/-! ### The steps of a thread -/

/-- What the next step of the thread of `c` does, by where the thread is. -/
inductive Broker.Rule (b : Broker) (c : Nat) : Pc → Broker → Prop
  | hungUp (halive : (b.conns c).alive = false) : Rule b c .idle (b.goto c .leaving)
  | replied : Rule b c .replying (b.reply c .idle)
  | acked (retain : Bool) (message : Message) : Rule b c (.acking retain message) (b.reply c (published retain message))
  | stored (message : Message) :
      Rule b c (.storing message) ({ b with retained := store message b.retained }.goto c (.broadcasting message))
  | collected (message : Message) :
      Rule b c (.broadcasting message) (b.goto c (.testing message (b.clients.filter fun target => target ≠ c)))
  | broadcast (message : Message) : Rule b c (.testing message []) (b.goto c .idle)
  | matched (message : Message) (target : Nat) (targets : List Nat)
      (hmatch : anyMatches (b.conns target).subscriptions message.1 = true) :
      Rule b c (.testing message (target :: targets)) (b.goto c (.sending message target targets))
  | skipped (message : Message) (target : Nat) (targets : List Nat)
      (hnot : ¬ anyMatches (b.conns target).subscriptions message.1 = true) :
      Rule b c (.testing message (target :: targets)) (b.goto c (.testing message targets))
  | sent (message : Message) (target : Nat) (targets : List Nat) :
      Rule b c (.sending message target targets) ((b.push target message).goto c (.testing message targets))
  | extended (filters : List Topic) :
      Rule b c (.extending filters) (b.setConn c
        { b.conns c with subscriptions := (b.conns c).subscriptions ++ filters, pc := .subacking filters })
  | subacked (filters : List Topic) : Rule b c (.subacking filters) (b.reply c (.snapshotting filters))
  | snapshot (filters : List Topic) : Rule b c (.snapshotting filters) (b.goto c (.choosing filters b.retained))
  | chosen (filters : List Topic) : Rule b c (.choosing filters []) (b.goto c .idle)
  | due (filters : List Topic) (message : Message) (rest : List Message)
      (hmatch : anyMatches filters message.1 = true) :
      Rule b c (.choosing filters (message :: rest)) (b.goto c (.delivering filters message rest))
  | passed (filters : List Topic) (message : Message) (rest : List Message)
      (hnot : ¬ anyMatches filters message.1 = true) :
      Rule b c (.choosing filters (message :: rest)) (b.goto c (.choosing filters rest))
  | delivered (filters : List Topic) (message : Message) (rest : List Message) :
      Rule b c (.delivering filters message rest) ((b.push c message).reply c (.choosing filters rest))
  | left : Rule b c .leaving
      ({ b with clients := b.clients.erase c }.setConn c { b.conns c with alive := false, pc := .gone })

theorem advance_rule (h : b.advance c = some b') : b.Rule c (b.conns c).pc b' := by
  unfold Broker.advance at h
  generalize (b.conns c).pc = pc at h ⊢
  split at h
  · cases h
  · cases h
  · split at h
    · cases h
    · rename_i hdead
      obtain rfl := Option.some.inj h
      exact .hungUp (Bool.eq_false_iff.2 hdead)
  · obtain rfl := Option.some.inj h
    exact .replied
  · obtain rfl := Option.some.inj h
    exact .acked _ _
  · obtain rfl := Option.some.inj h
    exact .stored _
  · obtain rfl := Option.some.inj h
    exact .collected _
  · obtain rfl := Option.some.inj h
    exact .broadcast _
  · split at h
    · rename_i hmatch
      obtain rfl := Option.some.inj h
      exact .matched _ _ _ hmatch
    · rename_i hnot
      obtain rfl := Option.some.inj h
      exact .skipped _ _ _ hnot
  · obtain rfl := Option.some.inj h
    exact .sent _ _ _
  · obtain rfl := Option.some.inj h
    exact .extended _
  · obtain rfl := Option.some.inj h
    exact .subacked _
  · obtain rfl := Option.some.inj h
    exact .snapshot _
  · obtain rfl := Option.some.inj h
    exact .chosen _
  · split at h
    · rename_i hmatch
      obtain rfl := Option.some.inj h
      exact .due _ _ _ hmatch
    · rename_i hnot
      obtain rfl := Option.some.inj h
      exact .passed _ _ _ hnot
  · obtain rfl := Option.some.inj h
    exact .delivered _ _ _
  · obtain rfl := Option.some.inj h
    exact .left

/-! ### What a step leaves of a client -/

/-- What any step leaves of a client: it stays there, its subscriptions and its wire grow, and a broken socket stays
broken. -/
structure Conn.Evolves (conn conn' : Conn) : Prop where
  present : conn.pc ≠ .absent → conn'.pc ≠ .absent
  alive : conn'.alive = true → conn.alive = true
  subscriptions : conn.subscriptions <+: conn'.subscriptions
  sent : conn.sent <+: conn'.sent

theorem Conn.Evolves.refl (conn : Conn) : conn.Evolves conn := ⟨id, id, List.prefix_refl _, List.prefix_refl _⟩

theorem Conn.Evolves.trans {conn conn' conn'' : Conn} (h : conn.Evolves conn') (h' : conn'.Evolves conn'') :
    conn.Evolves conn'' := by
  constructor
  · exact fun hpc => h'.present (h.present hpc)
  · exact fun halive => h.alive (h'.alive halive)
  · exact h.subscriptions.trans h'.subscriptions
  · exact h.sent.trans h'.sent

private theorem Broker.evolves_setConn {conn : Conn} (h : (b.conns c).Evolves conn) (s : Nat) :
    (b.conns s).Evolves ((b.setConn c conn).conns s) := by
  unfold Broker.setConn
  by_cases hs : s = c
  · subst hs
    simpa using h
  · simpa [hs] using Conn.Evolves.refl (b.conns s)

theorem Broker.evolves_goto {pc : Pc} (hpc : pc ≠ .absent) (c s : Nat) :
    (b.conns s).Evolves ((b.goto c pc).conns s) := by
  apply evolves_setConn
  exact ⟨fun _ => hpc, id, List.prefix_refl _, List.prefix_refl _⟩

private theorem Broker.evolves_reply {pc : Pc} (hpc : pc ≠ .absent) (c s : Nat) :
    (b.conns s).Evolves ((b.reply c pc).conns s) := by
  apply evolves_goto
  split
  · exact hpc
  · decide

theorem Broker.evolves_push (target s : Nat) (m : Message) : (b.conns s).Evolves ((b.push target m).conns s) := by
  unfold Broker.push
  dsimp only
  split
  · apply evolves_setConn
    exact ⟨id, id, List.prefix_refl _, List.prefix_append _ _⟩
  · exact .refl _

private theorem published_ne_absent (retain : Bool) (m : Message) : published retain m ≠ .absent := by
  cases retain <;> simp [published]

private theorem dispatch_ne_absent (packet : Packet) : dispatch packet ≠ .absent := by
  unfold dispatch
  split <;> simp [published_ne_absent]

private theorem evolves_advance (h : b.advance c = some b') (s : Nat) : (b.conns s).Evolves (b'.conns s) := by
  have hrule := advance_rule h
  generalize (b.conns c).pc = pc at hrule
  cases hrule with
  | replied | subacked => exact b.evolves_reply (by simp) c s
  | acked retain message => exact b.evolves_reply (published_ne_absent retain message) c s
  | stored message => exact Broker.evolves_goto (by simp) c s
  | sent message target targets => exact (b.evolves_push target s message).trans (Broker.evolves_goto (by simp) c s)
  | extended filters =>
    apply Broker.evolves_setConn
    exact ⟨fun _ => by simp, id, List.prefix_append _ _, List.prefix_refl _⟩
  | delivered filters message rest => exact (b.evolves_push c s message).trans (Broker.evolves_reply (by simp) c s)
  | left =>
    apply Broker.evolves_setConn (b := { b with clients := b.clients.erase c })
    refine ⟨fun _ => by simp, fun halive => ?_, List.prefix_refl _, List.prefix_refl _⟩
    exact absurd halive Bool.false_ne_true
  | _ => exact b.evolves_goto (by simp) c s

theorem evolves_act (h : b.act a = some b') (hs : a ≠ .connect s) : (b.conns s).Evolves (b'.conns s) := by
  cases a with
  | connect c =>
    obtain ⟨-, rfl⟩ := act_connect h
    have hne : s ≠ c := by
      rintro rfl
      exact hs rfl
    simpa [Broker.setConn, hne] using Conn.Evolves.refl (b.conns s)
  | receive c packet =>
    obtain ⟨-, -, rfl⟩ := act_receive h
    exact b.evolves_goto (dispatch_ne_absent packet) c s
  | step c => exact evolves_advance h s
  | lose c =>
    obtain rfl := Option.some.inj h
    apply Broker.evolves_setConn
    exact ⟨id, fun halive => absurd halive Bool.false_ne_true, List.prefix_refl _, List.prefix_refl _⟩
  | stop =>
    obtain rfl := Option.some.inj h
    dsimp only
    split
    · exact ⟨id, fun halive => absurd halive Bool.false_ne_true, List.prefix_refl _, List.prefix_refl _⟩
    · exact .refl _

/-! ### The clients of the broker -/

/-- A client whose socket works is served and in `_clients`. -/
def Broker.Linked (b : Broker) : Prop := ∀ c, (b.conns c).alive = true → c ∈ b.clients ∧ (b.conns c).pc ≠ .absent

theorem linked_init : Broker.init.Linked := by
  intro c halive
  cases halive

theorem advance_clients (h : b.advance c = some b') :
    b'.clients = b.clients ∨ (b'.clients = b.clients.erase c ∧ (b'.conns c).alive = false) := by
  have hrule := advance_rule h
  generalize (b.conns c).pc = pc at hrule
  cases hrule with
  | left => exact .inr (by simp [Broker.setConn])
  | sent message target targets | delivered filters message rest => exact .inl (by simp)
  | _ => exact .inl rfl

theorem Broker.Linked.act (h : b.Linked) (hact : b.act a = some b') : b'.Linked := by
  cases a with
  | connect c =>
    obtain ⟨-, rfl⟩ := act_connect hact
    intro s halive
    by_cases hs : s = c
    · subst hs
      simp [Broker.setConn]
    · have halive' : (b.conns s).alive = true := by simpa [Broker.setConn, hs] using halive
      simpa [Broker.setConn, hs] using h s halive'
  | receive c packet =>
    have hclients : b'.clients = b.clients := by
      obtain ⟨-, -, rfl⟩ := act_receive hact
      rfl
    intro s halive
    have hevolves := evolves_act hact (s := s) (by simp)
    obtain ⟨hmem, hpc⟩ := h s (hevolves.alive halive)
    rw [hclients]
    exact ⟨hmem, hevolves.present hpc⟩
  | step c =>
    intro s halive
    have hevolves := evolves_act hact (s := s) (by simp)
    obtain ⟨hmem, hpc⟩ := h s (hevolves.alive halive)
    refine ⟨?_, hevolves.present hpc⟩
    rcases advance_clients hact with hclients | ⟨hclients, hgone⟩
    · rw [hclients]
      exact hmem
    · have hne : s ≠ c := by
        rintro rfl
        rw [hgone] at halive
        cases halive
      rw [hclients]
      exact (List.mem_erase_of_ne hne).2 hmem
  | lose c =>
    intro s halive
    have hevolves := evolves_act hact (s := s) (by simp)
    obtain ⟨hmem, hpc⟩ := h s (hevolves.alive halive)
    obtain rfl := Option.some.inj hact
    exact ⟨hmem, hevolves.present hpc⟩
  | stop =>
    intro s halive
    have hevolves := evolves_act hact (s := s) (by simp)
    obtain ⟨hmem, hpc⟩ := h s (hevolves.alive halive)
    obtain rfl := Option.some.inj hact
    -- every client that was served is cut off
    simp [hmem] at halive

theorem act_retained (h : b.act a = some b') :
    b'.retained = b.retained ∨ ∃ c m, a = .step c ∧ (b.conns c).pc = .storing m ∧ b'.retained = store m b.retained := by
  cases a with
  | connect c =>
    obtain ⟨-, rfl⟩ := act_connect h
    exact .inl rfl
  | receive c packet =>
    obtain ⟨-, -, rfl⟩ := act_receive h
    exact .inl rfl
  | step c =>
    have hrule := advance_rule h
    generalize hpc : (b.conns c).pc = pc at hrule
    cases hrule with
    | stored message => exact .inr ⟨c, message, rfl, hpc, rfl⟩
    | sent message target targets | delivered filters message rest => exact .inl (by simp)
    | _ => exact .inl rfl
  | lose c =>
    obtain rfl := Option.some.inj h
    exact .inl rfl
  | stop =>
    obtain rfl := Option.some.inj h
    exact .inl rfl

/-! ### Who owes the message -/

/-- The publisher has stored the message and will come to the subscriber. -/
def PublisherOwes (m : Message) (p s : Nat) (b : Broker) : Prop :=
  match (b.conns p).pc with
  | .broadcasting message => message = m
  | .testing message targets => message = m ∧ s ∈ targets
  | .sending message target targets => message = m ∧ (target = s ∨ s ∈ targets)
  | _ => False

/-- The subscriber has extended its subscriptions and will find the message. -/
def SubscriberOwes (m : Message) (s : Nat) (b : Broker) : Prop :=
  match (b.conns s).pc with
  | .subacking filters | .snapshotting filters => anyMatches filters m.1 = true ∧ m ∈ b.retained
  | .choosing filters rest => anyMatches filters m.1 = true ∧ m ∈ rest
  | .delivering filters message rest => anyMatches filters m.1 = true ∧ (message = m ∨ m ∈ rest)
  | _ => False

/-- The message was sent, or the subscriber's socket is broken, or the publisher owes it. -/
structure ViaPublisher (m : Message) (p s : Nat) (b : Broker) : Prop where
  linked : b.Linked
  present : (b.conns s).pc ≠ .absent
  subscribed : anyMatches (b.conns s).subscriptions m.1 = true
  owed : (b.conns s).alive = true → m ∈ (b.conns s).sent ∨ PublisherOwes m p s b

structure ViaSubscriber (m : Message) (s : Nat) (b : Broker) : Prop where
  present : (b.conns s).pc ≠ .absent
  owed : (b.conns s).alive = true → m ∈ (b.conns s).sent ∨ SubscriberOwes m s b

theorem ne_connect_of_present (h : b.act a = some b') (hs : (b.conns s).pc ≠ .absent) : a ≠ .connect s := by
  rintro rfl
  simp [Broker.act, hs] at h

theorem advance_pc_of_ne (h : b.advance c = some b') (hne : s ≠ c) : (b'.conns s).pc = (b.conns s).pc := by
  have hrule := advance_rule h
  generalize (b.conns c).pc = pc at hrule
  cases hrule with
  | replied | acked retain message | subacked filters => rw [Broker.conns_reply_of_ne _ _ hne]
  | extended filters | left => rw [Broker.conns_setConn_of_ne _ _ hne]
  | sent message target targets => rw [Broker.conns_goto_of_ne _ _ hne, Broker.pc_push]
  | delivered filters message rest => rw [Broker.conns_reply_of_ne _ _ hne, Broker.pc_push]
  | _ => rw [Broker.conns_goto_of_ne _ _ hne]

/-- Only its own thread moves a client that is in the middle of a packet. -/
theorem act_pc (h : b.act a = some b') (hidle : (b.conns s).pc ≠ .idle) (hpresent : (b.conns s).pc ≠ .absent)
    (hne : a ≠ .step s) : (b'.conns s).pc = (b.conns s).pc := by
  cases a with
  | connect c =>
    have hs : s ≠ c := fun heq => ne_connect_of_present h hpresent (heq ▸ rfl)
    obtain ⟨-, rfl⟩ := act_connect h
    rw [Broker.conns_setConn_of_ne _ _ hs]
  | receive c packet =>
    obtain ⟨hc, -, rfl⟩ := act_receive h
    have hs : s ≠ c := by
      rintro rfl
      exact hidle hc
    rw [Broker.conns_goto_of_ne _ _ hs]
  | step c =>
    have hs : s ≠ c := fun heq => hne (heq ▸ rfl)
    exact advance_pc_of_ne h hs
  | lose c =>
    obtain rfl := Option.some.inj h
    by_cases hs : s = c
    · subst hs
      simp [Broker.setConn]
    · rw [Broker.conns_setConn_of_ne _ _ hs]
  | stop =>
    obtain rfl := Option.some.inj h
    dsimp only
    split <;> rfl

theorem sent_push (halive : (b.conns s).alive = true) :
    ((b.push s m).conns s).sent = (b.conns s).sent ++ [m] := by
  simp [Broker.push, halive, Broker.setConn]

/-- The publisher goes on: it finds the subscriber among the clients, and the subscription with it. -/
theorem PublisherOwes.pushes (h : PublisherOwes m p s b) (hact : b.advance p = some b') (hne : p ≠ s)
    (hmem : s ∈ b.clients) (halive : (b.conns s).alive = true)
    (hsubscribed : anyMatches (b.conns s).subscriptions m.1 = true) :
    (b'.conns s).sent = (b.conns s).sent ++ [m] ∨ PublisherOwes m p s b' := by
  have hrule := advance_rule hact
  unfold PublisherOwes at h
  generalize (b.conns p).pc = pc at h hrule
  cases hrule with
  | collected message =>
    right
    simp [PublisherOwes, h, hmem, hne.symm]
  | broadcast message => cases h.2
  | matched message target targets hmatch =>
    obtain ⟨rfl, htargets⟩ := h
    right
    simpa [PublisherOwes, eq_comm] using htargets
  | skipped message target targets hnot =>
    obtain ⟨rfl, htargets⟩ := h
    right
    rcases List.mem_cons.1 htargets with rfl | hrest
    · exact absurd hsubscribed hnot
    · simpa [PublisherOwes] using hrest
  | sent message target targets =>
    obtain ⟨rfl, rfl | hrest⟩ := h
    · left
      rw [Broker.conns_goto_of_ne _ _ hne.symm]
      exact sent_push halive
    · right
      simpa [PublisherOwes] using hrest
  | _ => cases h

theorem PublisherOwes.advance (h : PublisherOwes m p s b) (hact : b.advance p = some b') (hne : p ≠ s)
    (hmem : s ∈ b.clients) (halive : (b.conns s).alive = true)
    (hsubscribed : anyMatches (b.conns s).subscriptions m.1 = true) :
    m ∈ (b'.conns s).sent ∨ PublisherOwes m p s b' := by
  rcases h.pushes hact hne hmem halive hsubscribed with hsent | howes
  · left
    rw [hsent]
    exact List.mem_append_right _ (List.mem_singleton_self m)
  · exact .inr howes

/-- The publisher keeps owing the message while the others go on. -/
theorem PublisherOwes.stay (h : PublisherOwes m p s b) (hact : b.act a = some b') (hstep : a ≠ .step p) :
    PublisherOwes m p s b' := by
  have hpc : (b'.conns p).pc = (b.conns p).pc := by
    apply act_pc hact _ _ hstep
    · intro hidle
      simp [PublisherOwes, hidle] at h
    · intro habsent
      simp [PublisherOwes, habsent] at h
  unfold PublisherOwes at h ⊢
  rw [hpc]
  exact h

theorem ViaPublisher.act (h : ViaPublisher m p s b) (hne : p ≠ s) (hact : b.act a = some b') :
    ViaPublisher m p s b' := by
  have hevolves := evolves_act hact (ne_connect_of_present hact h.present)
  constructor
  · exact h.linked.act hact
  · exact hevolves.present h.present
  · obtain ⟨more, hmore⟩ := hevolves.subscriptions
    rw [← hmore]
    exact anyMatches_append h.subscribed
  · intro halive'
    have halive := hevolves.alive halive'
    rcases h.owed halive with hsent | howes
    · exact .inl (hevolves.sent.subset hsent)
    · by_cases hstep : a = .step p
      · subst hstep
        exact howes.advance hact hne (h.linked s halive).1 halive h.subscribed
      · exact .inr (howes.stay hact hstep)

/-- The subscriber goes on: it finds the message among the retained ones. -/
theorem SubscriberOwes.pushes (h : SubscriberOwes m s b) (hact : b.advance s = some b')
    (halive : (b.conns s).alive = true) :
    (b'.conns s).sent = (b.conns s).sent ++ [m] ∨ SubscriberOwes m s b' := by
  have hrule := advance_rule hact
  unfold SubscriberOwes at h
  generalize (b.conns s).pc = pc at h hrule
  cases hrule with
  | subacked filters =>
    right
    simpa [SubscriberOwes, Broker.reply, halive] using h
  | snapshot filters =>
    right
    simpa [SubscriberOwes] using h
  | chosen filters => cases h.2
  | due filters message rest hmatch =>
    obtain ⟨hmatched, hrest⟩ := h
    right
    simpa [SubscriberOwes, hmatched, eq_comm] using hrest
  | passed filters message rest hnot =>
    obtain ⟨hmatched, hrest⟩ := h
    right
    rcases List.mem_cons.1 hrest with rfl | hrest
    · exact absurd hmatched hnot
    · simp [SubscriberOwes, hmatched, hrest]
  | delivered filters message rest =>
    obtain ⟨hmatched, rfl | hrest⟩ := h
    · left
      simpa [Broker.reply] using sent_push halive
    · right
      have hpush : ((b.push s message).conns s).alive = true := by simp [Broker.push, halive, Broker.setConn]
      simp [SubscriberOwes, Broker.reply, hpush, hmatched, hrest]
  | _ => cases h

theorem SubscriberOwes.advance (h : SubscriberOwes m s b) (hact : b.advance s = some b')
    (halive : (b.conns s).alive = true) : m ∈ (b'.conns s).sent ∨ SubscriberOwes m s b' := by
  rcases h.pushes hact halive with hsent | howes
  · left
    rw [hsent]
    exact List.mem_append_right _ (List.mem_singleton_self m)
  · exact .inr howes

/-- The thread does not store a message for the topic. -/
def NoStore (topic : Topic) (b : Broker) (a : Act) : Prop :=
  ∀ c message, a = .step c → (b.conns c).pc = .storing message → message.1 ≠ topic

private theorem mem_retained_act (hact : b.act a = some b') (hstore : NoStore m.1 b a) (h : m ∈ b.retained) :
    m ∈ b'.retained := by
  rcases act_retained hact with hsame | ⟨c, message, rfl, hpc, hnew⟩
  · rw [hsame]
    exact h
  · rw [hnew]
    exact mem_store_of_ne h (hstore c message rfl hpc).symm

/-- The subscriber keeps owing the message while it is retained. -/
theorem SubscriberOwes.stay (h : SubscriberOwes m s b) (hact : b.act a = some b') (hstep : a ≠ .step s)
    (hretained : m ∈ b.retained → m ∈ b'.retained) : SubscriberOwes m s b' := by
  have hpc : (b'.conns s).pc = (b.conns s).pc := by
    apply act_pc hact _ _ hstep
    · intro hidle
      simp [SubscriberOwes, hidle] at h
    · intro habsent
      simp [SubscriberOwes, habsent] at h
  unfold SubscriberOwes at h ⊢
  rw [hpc]
  split at h
  · exact ⟨h.1, hretained h.2⟩
  · exact ⟨h.1, hretained h.2⟩
  · exact h
  · exact h
  · exact h

theorem ViaSubscriber.act (h : ViaSubscriber m s b) (hact : b.act a = some b') (hstore : NoStore m.1 b a) :
    ViaSubscriber m s b' := by
  have hevolves := evolves_act hact (ne_connect_of_present hact h.present)
  constructor
  · exact hevolves.present h.present
  · intro halive'
    have halive := hevolves.alive halive'
    rcases h.owed halive with hsent | howes
    · exact .inl (hevolves.sent.subset hsent)
    · by_cases hstep : a = .step s
      · subst hstep
        exact howes.advance hact halive
      · exact .inr (howes.stay hact hstep (mem_retained_act hact hstore))

/-! ### Runs -/

variable {fin : Broker} {acts : List Act}

theorem linked_run (hrun : run Broker.act .init acts = some b) : b.Linked := by
  apply invariant _ hrun linked_init
  intro b a b' hact h
  exact h.act hact

/-- The client is there and has a subscription that matches. -/
def Subscribed (topic : Topic) (s : Nat) (b : Broker) : Prop :=
  (b.conns s).pc ≠ .absent ∧ anyMatches (b.conns s).subscriptions topic = true

theorem Subscribed.act {topic : Topic} (h : Subscribed topic s b) (hact : b.act a = some b') : Subscribed topic s b' := by
  have hevolves := evolves_act hact (ne_connect_of_present hact h.1)
  refine ⟨hevolves.present h.1, ?_⟩
  obtain ⟨more, hmore⟩ := hevolves.subscriptions
  rw [← hmore]
  exact anyMatches_append h.2

private theorem retained_of_store (hact : b.advance c = some b') (hpc : (b.conns c).pc = .storing m) (hm : m.2 ≠ []) :
    m ∈ b'.retained ∧ (b'.conns c).pc = .broadcasting m := by
  simp only [Broker.advance, hpc] at hact
  obtain rfl := Option.some.inj hact
  simpa using mem_store hm

private theorem subscribed_of_extend {filters : List Topic} (hact : b.advance s = some b')
    (hpc : (b.conns s).pc = .extending filters) (hmatch : anyMatches filters m.1 = true) :
    Subscribed m.1 s b' ∧ (b'.conns s).pc = .subacking filters ∧ b'.retained = b.retained := by
  simp only [Broker.advance, hpc] at hact
  obtain rfl := Option.some.inj hact
  have hmore : anyMatches ((b.conns s).subscriptions ++ filters) m.1 = true := by
    unfold anyMatches at hmatch ⊢
    rw [List.any_append, hmatch, Bool.or_true]
  simp [Subscribed, Broker.setConn, hmore]

/-- The thread has handled its packet. -/
def Pc.done : Pc → Bool
  | .idle | .leaving | .gone => true
  | _ => false

/-- In every run in which `p` stores a message that no later store replaces and `s` subscribes to its topic, `s` has been
sent the message once both threads are done, if its connection still works. -/
theorem retained_is_sent {filters : List Topic} {n k : Nat} {b₁ b₂ : Broker}
    (hrun : run Broker.act .init acts = some fin) (hne : p ≠ s)
    (hstore : At Broker.act .init acts n (.step p) b₁) (hstoring : (b₁.conns p).pc = .storing m) (hm : m.2 ≠ [])
    (hextend : At Broker.act .init acts k (.step s) b₂) (hextending : (b₂.conns s).pc = .extending filters)
    (hmatch : anyMatches filters m.1 = true)
    (hlast : ∀ i b c message, n < i → At Broker.act .init acts i (.step c) b → (b.conns c).pc = .storing message →
      message.1 ≠ m.1)
    (halive : (fin.conns s).alive = true) (hp : (fin.conns p).pc.done = true) (hs : (fin.conns s).pc.done = true) :
    m ∈ (fin.conns s).sent := by
  have hend : ∀ i, run Broker.act .init (acts.take (i + 1 + acts.length)) = some fin := by
    intro i
    rw [List.take_of_length_le (by omega)]
    exact hrun
  rcases Nat.lt_trichotomy n k with hnk | rfl | hkn
  · -- the subscriber looks at the retained messages after the store
    obtain ⟨j, rfl⟩ : ∃ j, k = n + 1 + j := ⟨k - (n + 1), by omega⟩
    obtain ⟨b₁', hact₁, hmid, hplace⟩ := hstore.part j hextend.2
    have hquiet : Along Broker.act (NoStore m.1) b₁' ((acts.drop (n + 1)).take j) := by
      apply Along.of_at
      rintro i a b hat c message rfl hpc
      exact hlast _ b c message (by omega) (hplace i _ b hat) hpc
    have hretained : m ∈ b₂.retained :=
      Along.invariant (I := fun b => m ∈ b.retained) (fun _ _ _ hno hact => mem_retained_act hact hno) hquiet hmid
        (retained_of_store hact₁ hstoring hm).1
    obtain ⟨b₂', hact₂, hback, hplace⟩ := hextend.part acts.length (hend _)
    obtain ⟨hsubscribed, hpc, hsame⟩ := subscribed_of_extend hact₂ hextending hmatch
    have hquiet : Along Broker.act (NoStore m.1) b₂' ((acts.drop (n + 1 + j + 1)).take acts.length) := by
      apply Along.of_at
      rintro i a b hat c message rfl hpc
      exact hlast _ b c message (by omega) (hplace i _ b hat) hpc
    have hvia : ViaSubscriber m s b₂' := by
      refine ⟨hsubscribed.1, fun _ => .inr ?_⟩
      unfold SubscriberOwes
      rw [hpc, hsame]
      exact ⟨hmatch, hretained⟩
    have hfin : ViaSubscriber m s fin := hquiet.invariant (fun _ _ _ hno hact h => h.act hact hno) hback hvia
    rcases hfin.owed halive with hsent | howes
    · exact hsent
    · unfold SubscriberOwes at howes
      split at howes <;> simp_all [Pc.done]
  · -- two threads do not take one step
    have hsame := hstore.1.symm.trans hextend.1
    simp [hne] at hsame
  · -- the publisher looks at the clients after the extension
    obtain ⟨j, rfl⟩ : ∃ j, n = k + 1 + j := ⟨n - (k + 1), by omega⟩
    obtain ⟨b₂', hact₂, hmid, -⟩ := hextend.part j hstore.2
    have hsubscribed : Subscribed m.1 s b₁ :=
      invariant (fun _ _ _ hact h => h.act hact) hmid (subscribed_of_extend hact₂ hextending hmatch).1
    obtain ⟨b₁', hact₁, hback, -⟩ := hstore.part acts.length (hend _)
    have hlinked : b₁'.Linked := (linked_run hstore.2).act hact₁
    have hvia : ViaPublisher m p s b₁' := by
      obtain ⟨hpresent, hsub⟩ := hsubscribed.act hact₁
      refine ⟨hlinked, hpresent, hsub, fun _ => .inr ?_⟩
      unfold PublisherOwes
      rw [(retained_of_store hact₁ hstoring hm).2]
    have hfin : ViaPublisher m p s fin := invariant (fun _ _ _ hact h => h.act hne hact) hback hvia
    rcases hfin.owed halive with hsent | howes
    · exact hsent
    · unfold PublisherOwes at howes
      split at howes <;> simp_all [Pc.done]

def lampTopic : Topic := "home/lamp".toList

def lampOn : Message := (lampTopic, [111, 110])

/-- Client 2 subscribes to `home/+`, then client 1 publishes. -/
def lampActs : List Act :=
  [.connect 1, .connect 2, .receive 2 (.subscribe ["home/+".toList]), .step 2, .step 2, .step 2, .step 2,
    .receive 1 (.publish 0 true lampTopic lampOn.2), .step 1, .step 1, .step 1, .step 1, .step 1]

theorem retained_is_sent_lamp : ∃ fin, run Broker.act .init lampActs = some fin ∧ lampOn ∈ (fin.conns 2).sent := by
  obtain ⟨b₁, hstore, hstoring⟩ :
      ∃ b₁, At Broker.act .init lampActs 8 (.step 1) b₁ ∧ (b₁.conns 1).pc = .storing lampOn := ⟨_, ⟨rfl, rfl⟩, rfl⟩
  obtain ⟨b₂, hextend, hextending⟩ :
      ∃ b₂, At Broker.act .init lampActs 3 (.step 2) b₂ ∧ (b₂.conns 2).pc = .extending ["home/+".toList] :=
    ⟨_, ⟨rfl, rfl⟩, rfl⟩
  refine ⟨_, rfl, retained_is_sent rfl (by decide) hstore hstoring (by decide) hextend hextending (by decide) ?_ rfl rfl
    rfl⟩
  rintro i b c message hi ⟨hstep, hb⟩ hpc
  obtain ⟨hlen, -⟩ := List.getElem?_eq_some_iff.1 hstep
  have hi' : i < 13 := hlen
  -- the four steps of the publisher after its store
  have hpcs : ∀ pc, (run Broker.act .init (lampActs.take i)).map (fun b => (b.conns 1).pc) = some pc → c = 1 →
      pc = .storing message := by
    rintro pc hrun rfl
    rw [hb] at hrun
    exact (Option.some.inj hrun).symm.trans hpc
  obtain rfl | rfl | rfl | rfl : i = 9 ∨ i = 10 ∨ i = 11 ∨ i = 12 := by omega
  · exact absurd (hpcs _ rfl (Act.step.inj (Option.some.inj hstep)).symm) (by simp)
  · exact absurd (hpcs _ rfl (Act.step.inj (Option.some.inj hstep)).symm) (by simp)
  · exact absurd (hpcs _ rfl (Act.step.inj (Option.some.inj hstep)).symm) (by simp)
  · exact absurd (hpcs _ rfl (Act.step.inj (Option.some.inj hstep)).symm) (by simp)

end IronHarness.Mqtt
