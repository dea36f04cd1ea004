import IronHarness.Mqtt.Retained

/-!
# Nobody is sent what it has not subscribed to

A PUBLISH goes out to a client where its thread or a publisher's has found a matching subscription, and subscriptions
are never taken back; so in every run what was sent to a client matches one of its subscriptions (`wanted_run`).
-/

namespace IronHarness.Mqtt

open Runs

variable {b b' : Broker} {a : Act} {c s : Nat} {m : Message} {topic : Topic}

/-- The PUBLISH that the step sends, and the client it goes to. -/
def Broker.sends (b : Broker) : Act → Option (Nat × Message)
  | .step c =>
    match (b.conns c).pc with
    | .sending m target _ => some (target, m)
    | .delivering _ m _ => some (c, m)
    | _ => none
  | _ => none

/-! ### What a step sends -/

theorem Broker.conns_setConn (b : Broker) (c : Nat) (conn : Conn) : (b.setConn c conn).conns c = conn := by
  simp [Broker.setConn]

@[simp] theorem Broker.sent_setConn (b : Broker) (c s : Nat) (conn : Conn) (h : conn.sent = (b.conns c).sent) :
    ((b.setConn c conn).conns s).sent = (b.conns s).sent := by
  by_cases hs : s = c
  · subst hs
    simpa [Broker.setConn] using h
  · rw [Broker.conns_setConn_of_ne _ _ hs]

@[simp] theorem Broker.sent_goto (b : Broker) (c s : Nat) (pc : Pc) :
    ((b.goto c pc).conns s).sent = (b.conns s).sent := b.sent_setConn c s _ rfl

@[simp] theorem Broker.sent_reply (b : Broker) (c s : Nat) (pc : Pc) :
    ((b.reply c pc).conns s).sent = (b.conns s).sent := b.sent_goto c s _

/-- The message is on the wire of its target, if the socket works. -/
theorem Broker.sent_push (b : Broker) (target s : Nat) (m : Message) :
    (target = s ∧ (b.conns s).alive = true ∧ ((b.push target m).conns s).sent = (b.conns s).sent ++ [m]) ∨
      ((target ≠ s ∨ (b.conns s).alive = false) ∧ (b.push target m).conns s = b.conns s) := by
  by_cases htarget : target = s
  · subst htarget
    cases halive : (b.conns target).alive with
    | true => exact .inl ⟨rfl, rfl, Mqtt.sent_push halive⟩
    | false => exact .inr ⟨.inr rfl, by simp [Broker.push, halive]⟩
  · refine .inr ⟨.inl htarget, ?_⟩
    unfold Broker.push
    dsimp only
    split
    · rw [Broker.conns_setConn_of_ne _ _ (Ne.symm htarget)]
    · rfl

/-- The step sends the client a message, or leaves what was sent to it. -/
def Broker.Sends (b b' : Broker) (a : Act) (s : Nat) : Prop :=
  (∃ m, b.sends a = some (s, m) ∧ (b.conns s).alive = true ∧ (b'.conns s).sent = (b.conns s).sent ++ [m]) ∨
    (((∀ m, b.sends a ≠ some (s, m)) ∨ (b.conns s).alive = false) ∧ (b'.conns s).sent = (b.conns s).sent)

private theorem Broker.Sends.of_none (hnone : b.sends a = none) (h : (b'.conns s).sent = (b.conns s).sent) :
    b.Sends b' a s := by
  refine .inr ⟨.inl ?_, h⟩
  intro m hsome
  rw [hnone] at hsome
  cases hsome

private theorem sends_advance (h : b.advance c = some b') (s : Nat) : b.Sends b' (.step c) s := by
  have hrule := advance_rule h
  generalize hpc : (b.conns c).pc = pc at hrule
  cases hrule with
  | sent message target targets =>
    rcases b.sent_push target s message with ⟨rfl, halive, hsent⟩ | ⟨hnot, hsame⟩
    · left
      refine ⟨message, ?_, halive, ?_⟩
      · simp [Broker.sends, hpc]
      · rw [Broker.sent_goto, hsent]
    · right
      refine ⟨hnot.imp_left fun hne => ?_, ?_⟩
      · simp [Broker.sends, hpc, hne]
      · rw [Broker.sent_goto, hsame]
  | delivered filters message rest =>
    rcases b.sent_push c s message with ⟨rfl, halive, hsent⟩ | ⟨hnot, hsame⟩
    · left
      refine ⟨message, ?_, halive, ?_⟩
      · simp [Broker.sends, hpc]
      · rw [Broker.sent_reply, hsent]
    · right
      refine ⟨hnot.imp_left fun hne => ?_, ?_⟩
      · simp [Broker.sends, hpc, hne]
      · rw [Broker.sent_reply, hsame]
  -- the other steps send no message
  | _ =>
    refine .of_none (by simp [Broker.sends, hpc]) ?_
    simp [Broker.goto, Broker.reply]

theorem sends_act (h : b.act a = some b') (hs : a ≠ .connect s) : b.Sends b' a s := by
  cases a with
  | step c => exact sends_advance h s
  | connect c =>
    refine .of_none rfl ?_
    have hne : s ≠ c := by
      rintro rfl
      exact hs rfl
    obtain ⟨-, rfl⟩ := act_connect h
    rw [Broker.conns_setConn_of_ne _ _ hne]
  | receive c packet =>
    refine .of_none rfl ?_
    obtain ⟨-, -, rfl⟩ := act_receive h
    rw [Broker.sent_goto]
  | lose c =>
    obtain rfl := Option.some.inj h
    exact .of_none rfl (b.sent_setConn c s _ rfl)
  | stop =>
    obtain rfl := Option.some.inj h
    refine .of_none rfl ?_
    dsimp only
    split <;> rfl

/-! ### What was sent was subscribed to -/

/-- Where the thread of `c` is about to send, a subscription matches. -/
def Broker.Wants (b : Broker) (c : Nat) : Pc → Prop
  | .sending m target _ => anyMatches (b.conns target).subscriptions m.1 = true
  | .subacking filters | .snapshotting filters | .choosing filters _ => filters ⊆ (b.conns c).subscriptions
  | .delivering filters m _ => filters ⊆ (b.conns c).subscriptions ∧ anyMatches filters m.1 = true
  | _ => True

/-- Every PUBLISH that was sent to a client, or is about to be, matches one of its subscriptions. -/
structure Broker.Wanted (b : Broker) : Prop where
  pc : ∀ c, b.Wants c (b.conns c).pc
  sent : ∀ s, ∀ m ∈ (b.conns s).sent, anyMatches (b.conns s).subscriptions m.1 = true
  absent : ∀ c, (b.conns c).pc = .absent → b.conns c = .absent

theorem anyMatches_of_subset {front back : List Topic} (h : front ⊆ back) (hfront : anyMatches front topic = true) :
    anyMatches back topic = true := by
  unfold anyMatches at hfront ⊢
  obtain ⟨f, hf, hmatch⟩ := List.any_eq_true.1 hfront
  exact List.any_eq_true.2 ⟨f, h hf, hmatch⟩

theorem Broker.Wants.mono {pc : Pc} (h : b.Wants c pc)
    (hgrow : ∀ s, (b.conns s).subscriptions ⊆ (b'.conns s).subscriptions) : b'.Wants c pc := by
  unfold Broker.Wants at h ⊢
  split
  · exact anyMatches_of_subset (hgrow _) h
  · exact List.Subset.trans h (hgrow c)
  · exact List.Subset.trans h (hgrow c)
  · exact List.Subset.trans h (hgrow c)
  · exact ⟨List.Subset.trans h.1 (hgrow c), h.2⟩
  · trivial

theorem wanted_init : Broker.init.Wanted where
  pc := fun _ => trivial
  sent := by
    intro s m hm
    cases hm
  absent := fun _ _ => rfl

private theorem wants_published (b : Broker) (c : Nat) (retain : Bool) (m : Message) :
    b.Wants c (published retain m) := by
  cases retain <;> trivial

private theorem wants_dispatch (b : Broker) (c : Nat) (packet : Packet) : b.Wants c (dispatch packet) := by
  unfold dispatch
  split <;> first | trivial | exact wants_published b c _ _

private theorem wants_leaving_or {pc : Pc} (alive : Bool) (h : b.Wants c pc) :
    b.Wants c (if alive then pc else .leaving) := by
  cases alive
  · trivial
  · exact h

private theorem wants_advance (h : b.Wanted) (hact : b.advance c = some b') : b'.Wants c (b'.conns c).pc := by
  have hown : b.Wants c (b.conns c).pc := h.pc c
  have hrule := advance_rule hact
  generalize (b.conns c).pc = pc at hown hrule
  cases hrule with
  | replied =>
    unfold Broker.reply
    rw [Broker.conns_goto]
    exact wants_leaving_or _ trivial
  | acked retain message =>
    unfold Broker.reply
    rw [Broker.conns_goto]
    exact wants_leaving_or _ (wants_published _ c retain message)
  | matched message target targets hmatch =>
    rw [Broker.conns_goto]
    -- the test has just found a subscription
    exact anyMatches_of_subset (b.evolves_goto (by simp) c target).subscriptions.subset hmatch
  | extended filters | left => simp [Broker.Wants, Broker.setConn]
  | subacked filters =>
    unfold Broker.reply
    rw [Broker.conns_goto]
    apply wants_leaving_or
    simpa [Broker.Wants] using hown
  | snapshot filters => simpa [Broker.Wants] using hown
  | due filters message rest hmatch => simpa [Broker.Wants, hmatch] using hown
  | passed filters message rest hnot => simpa [Broker.Wants] using hown
  | delivered filters message rest =>
    unfold Broker.reply
    rw [Broker.conns_goto]
    apply wants_leaving_or
    have hgrow := (b.evolves_push c c message).subscriptions.subset
    simpa [Broker.Wants] using List.Subset.trans hown.1 hgrow
  -- behind the other steps the thread is about to send nothing
  | _ => simp [Broker.Wants]

private theorem Broker.conns_push_of_not_alive (b : Broker) (target : Nat) (m : Message)
    (h : (b.conns s).alive = false) :
    (b.push target m).conns s = b.conns s := by
  rcases b.sent_push target s m with ⟨-, halive, -⟩ | ⟨-, hsame⟩
  · rw [h] at halive
    cases halive
  · exact hsame

/-- A client that is not there stays as it is until it connects. -/
theorem absent_act (hact : b.act a = some b') (h : b.conns s = .absent) (hs : a ≠ .connect s) :
    b'.conns s = .absent := by
  cases a with
  | connect c =>
    have hne : s ≠ c := by
      rintro rfl
      exact hs rfl
    obtain ⟨-, rfl⟩ := act_connect hact
    rw [Broker.conns_setConn_of_ne _ _ hne]
    exact h
  | receive c packet =>
    obtain ⟨hidle, -, rfl⟩ := act_receive hact
    have hne : s ≠ c := by
      rintro rfl
      rw [h] at hidle
      exact absurd hidle (by simp [Conn.absent])
    rw [Broker.conns_goto_of_ne _ _ hne]
    exact h
  | step c =>
    have hne : s ≠ c := by
      rintro rfl
      simp [Broker.act, Broker.advance, h, Conn.absent] at hact
    have hdead : (b.conns s).alive = false := by rw [h]; rfl
    have hpush : ∀ target m, (b.push target m).conns s = b.conns s := fun target m =>
      b.conns_push_of_not_alive target m hdead
    have hrule := advance_rule hact
    generalize (b.conns c).pc = pc at hrule
    cases hrule with
    | replied | acked retain message | subacked filters => rw [Broker.conns_reply_of_ne _ _ hne, h]
    | extended filters => rw [Broker.conns_setConn_of_ne _ _ hne, h]
    | left => exact (Broker.conns_setConn_of_ne _ _ hne _).trans h
    | sent message target targets => rw [Broker.conns_goto_of_ne _ _ hne, hpush, h]
    | delivered filters message rest => rw [Broker.conns_reply_of_ne _ _ hne, hpush, h]
    | stored message => exact (Broker.conns_goto_of_ne _ _ hne _).trans h
    | _ => rw [Broker.conns_goto_of_ne _ _ hne, h]
  | lose c =>
    obtain rfl := Option.some.inj hact
    by_cases hc : s = c
    · subst hc
      simp [Broker.setConn, h, Conn.absent]
    · rw [Broker.conns_setConn_of_ne _ _ hc]
      exact h
  | stop =>
    obtain rfl := Option.some.inj hact
    dsimp only
    split
    · rw [h]
      rfl
    · exact h

theorem absent_run {acts : List Act} (hrun : run Broker.act b acts = some b') (h : b.conns s = .absent)
    (hs : .connect s ∉ acts) : b'.conns s = .absent := by
  have hnever : Along Broker.act (fun _ a => a ≠ .connect s) b acts := by
    apply Along.of_forall
    rintro a ha rfl
    exact hs ha
  exact hnever.invariant (I := fun b => b.conns s = .absent) (fun _ _ _ hne hact h => absent_act hact h hne) hrun h

theorem Broker.Wanted.subscriptions (h : b.Wanted) (hact : b.act a = some b') (s : Nat) :
    (b.conns s).subscriptions ⊆ (b'.conns s).subscriptions := by
  by_cases hs : a = .connect s
  · subst hs
    have hnew : (b.conns s).pc = .absent := by
      by_contra hpresent
      exact ne_connect_of_present hact hpresent rfl
    rw [h.absent s hnew]
    exact List.nil_subset _
  · exact (evolves_act hact hs).subscriptions.subset

/-- A thread that is neither made nor given a packet nor moved stays where it is. -/
theorem pc_act (hact : b.act a = some b') (hconnect : a ≠ .connect c) (hreceive : ∀ packet, a ≠ .receive c packet)
    (hstep : a ≠ .step c) : (b'.conns c).pc = (b.conns c).pc := by
  cases a with
  | connect d =>
    have hne : c ≠ d := fun heq => hconnect (heq ▸ rfl)
    obtain ⟨-, rfl⟩ := act_connect hact
    rw [Broker.conns_setConn_of_ne _ _ hne]
  | receive d packet =>
    have hne : c ≠ d := fun heq => hreceive packet (heq ▸ rfl)
    obtain ⟨-, -, rfl⟩ := act_receive hact
    rw [Broker.conns_goto_of_ne _ _ hne]
  | step d => exact advance_pc_of_ne hact fun heq => hstep (heq ▸ rfl)
  | lose d =>
    obtain rfl := Option.some.inj hact
    by_cases hc : c = d
    · subst hc
      simp [Broker.setConn]
    · rw [Broker.conns_setConn_of_ne _ _ hc]
  | stop =>
    obtain rfl := Option.some.inj hact
    dsimp only
    split <;> rfl

theorem Broker.Wanted.sends (h : b.Wanted) (hsends : b.sends a = some (s, m)) :
    anyMatches (b.conns s).subscriptions m.1 = true := by
  unfold Broker.sends at hsends
  split at hsends
  · rename_i c
    have hown := h.pc c
    split at hsends
    · rename_i hpc
      obtain ⟨rfl, rfl⟩ := Prod.mk.inj (Option.some.inj hsends)
      rw [hpc] at hown
      exact hown
    · rename_i hpc
      obtain ⟨rfl, rfl⟩ := Prod.mk.inj (Option.some.inj hsends)
      rw [hpc] at hown
      exact anyMatches_of_subset hown.1 hown.2
    · cases hsends
  · cases hsends

theorem Broker.Wanted.act (h : b.Wanted) (hact : b.act a = some b') : b'.Wanted where
  pc := by
    intro c
    by_cases hstep : a = .step c
    · subst hstep
      exact wants_advance h hact
    · by_cases hconnect : a = .connect c
      · subst hconnect
        obtain ⟨-, rfl⟩ := act_connect hact
        simp [Broker.Wants, Broker.setConn]
      · by_cases hreceive : ∃ packet, a = .receive c packet
        · obtain ⟨packet, rfl⟩ := hreceive
          obtain ⟨-, -, rfl⟩ := act_receive hact
          rw [Broker.conns_goto]
          exact wants_dispatch _ c packet
        · rw [pc_act hact hconnect (fun packet heq => hreceive ⟨packet, heq⟩) hstep]
          exact (h.pc c).mono (h.subscriptions hact)
  sent := by
    intro s m hm
    by_cases hs : a = .connect s
    · subst hs
      obtain ⟨-, rfl⟩ := act_connect hact
      simp [Broker.setConn] at hm
    · have hgrow := h.subscriptions hact s
      rcases sends_act hact hs with ⟨n, hsends, -, hsent⟩ | ⟨-, hsent⟩
      · rw [hsent] at hm
        rcases List.mem_append.1 hm with hold | hnew
        · exact anyMatches_of_subset hgrow (h.sent s m hold)
        · obtain rfl := List.mem_singleton.1 hnew
          exact anyMatches_of_subset hgrow (h.sends hsends)
      · rw [hsent] at hm
        exact anyMatches_of_subset hgrow (h.sent s m hm)
  absent := by
    intro s hpc
    by_cases hs : a = .connect s
    · subst hs
      obtain ⟨-, rfl⟩ := act_connect hact
      simp [Broker.setConn] at hpc
    · apply absent_act hact _ hs
      apply h.absent
      by_contra hpresent
      exact (evolves_act hact hs).present hpresent hpc

theorem wanted_run {acts : List Act} (hrun : run Broker.act .init acts = some b) : b.Wanted :=
  invariant (fun _ _ _ hact h => h.act hact) hrun wanted_init

/-! ### Where subscriptions come from -/

private theorem Broker.subscriptions_setConn (b : Broker) (c s : Nat) (conn : Conn)
    (h : conn.subscriptions = (b.conns c).subscriptions) :
    ((b.setConn c conn).conns s).subscriptions = (b.conns s).subscriptions := by
  by_cases hs : s = c
  · subst hs
    rw [Broker.conns_setConn, h]
  · rw [Broker.conns_setConn_of_ne _ _ hs]

private theorem Broker.subscriptions_goto (b : Broker) (c s : Nat) (pc : Pc) :
    ((b.goto c pc).conns s).subscriptions = (b.conns s).subscriptions := b.subscriptions_setConn c s _ rfl

private theorem Broker.subscriptions_push (b : Broker) (target s : Nat) (m : Message) :
    ((b.push target m).conns s).subscriptions = (b.conns s).subscriptions := by
  unfold Broker.push
  dsimp only
  split
  · exact b.subscriptions_setConn target s _ rfl
  · rfl

/-- Only a client that is about to extend its subscriptions gets new ones. -/
theorem subscriptions_act (hact : b.act a = some b') (hs : a ≠ .connect s) :
    (b'.conns s).subscriptions = (b.conns s).subscriptions ∨
      ∃ filters, a = .step s ∧ (b.conns s).pc = .extending filters := by
  cases a with
  | connect c =>
    have hne : s ≠ c := by
      rintro rfl
      exact hs rfl
    obtain ⟨-, rfl⟩ := act_connect hact
    rw [Broker.conns_setConn_of_ne _ _ hne]
    exact .inl rfl
  | receive c packet =>
    obtain ⟨-, -, rfl⟩ := act_receive hact
    exact .inl (b.subscriptions_goto c s _)
  | step c =>
    have hrule := advance_rule hact
    generalize hpc : (b.conns c).pc = pc at hrule
    cases hrule with
    | extended filters =>
      by_cases hc : s = c
      · subst hc
        exact .inr ⟨filters, rfl, hpc⟩
      · exact .inl (by rw [Broker.conns_setConn_of_ne _ _ hc])
    | replied | acked retain message | subacked filters => exact .inl (b.subscriptions_goto c s _)
    | stored message => exact .inl (Broker.subscriptions_goto _ c s _)
    | sent message target targets | delivered filters message rest =>
      exact .inl ((Broker.subscriptions_goto _ c s _).trans (b.subscriptions_push _ s message))
    | left => exact .inl (Broker.subscriptions_setConn _ c s _ rfl)
    | _ => exact .inl (b.subscriptions_goto c s _)
  | lose c =>
    obtain rfl := Option.some.inj hact
    exact .inl (b.subscriptions_setConn c s _ rfl)
  | stop =>
    obtain rfl := Option.some.inj hact
    left
    dsimp only
    split <;> rfl

end IronHarness.Mqtt
