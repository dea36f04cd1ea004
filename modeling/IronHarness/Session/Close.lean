import IronHarness.Session.Slots
import IronHarness.Session.Steps

/-!
# What is still open after `Session.close`

Every open port belongs to a registered transport or to one that a thread is about to close (`Tidy`).  An open looks at
`_closed` before it takes the lock, and not again, so it can register a transport after `Session.close` has cleared the
registries, or open a port whose event the closed journal refuses.  These and the failures of a close itself are the
only ways to leave a port open.
-/

namespace IronHarness.Session

/-- The thread is about to close the transport. -/
def Pc.owes (h : Handle) : Pc → Prop
  | .closingTransport h' => h = h'
  | .closing _ transports => h ∈ transports
  | _ => False

/-- The step leaves no port behind: an open that passes its gate opens nothing, or it is done while the journal is open
and a close that has begun has its locked section still to come; a transport that is closed releases its port; and
`Session.close` is not ended by its journal. -/
structure LeavesNone (c : Config) (s : Sys) (a : Task) : Prop where
  opens : ∀ kind name, s.pcs a.thread = .calling (.openTyped kind name) → s.shared.reg.openGate c name = .ok () →
    a.input = .go (.raises false) ∨ s.shared.journalClosed = false ∧
      (s.shared.closed = true → ∃ t, s.pcs t = .clearing) ∧ a.input ≠ .go (.raises true)
  closesTyped : ∀ kind name h, s.pcs a.thread = .calling (.closeTyped kind name) →
    s.shared.reg.closeTyped c kind name = .ok h →
    ((s.shared.reg.readers.lookup name).isSome = true → s.shared.journalClosed = false) →
    a.input ≠ .go (.raises true)
  closesTaken : ∀ h, s.pcs a.thread = .closingTransport h → a.input ≠ .go (.raises true)
  closesAll : ∀ h transports, s.pcs a.thread = .closing [] (h :: transports) →
    s.shared.journalClosed = false ∧ a.input ≠ .go (.raises true) ∧ ∀ held, a.input ≠ .go (.journalRaises held)

structure Tidy (s : Sys) : Prop where
  held : ∀ h ∈ s.shared.ports,
    (∃ name, s.shared.reg.transports.lookup name = some h) ∨ ∃ t, (s.pcs t).owes h
  cleared : s.shared.closed = true →
    (∃ t, s.pcs t = .clearing) ∨ ∀ name, s.shared.reg.transports.lookup name = none

variable {c : Config} {s s' : Sys} {a : Task} {t : Nat} {sh : Shared} {pc : Pc}

/-! ### One step -/

private theorem Tidy.held_step (h : Tidy s)
    (hports : ∀ p ∈ sh.ports, p ∈ s.shared.ports ∨ ∃ name, sh.reg.transports.lookup name = some p)
    (hreg : ∀ p ∈ sh.ports, ∀ name, s.shared.reg.transports.lookup name = some p →
      (∃ name, sh.reg.transports.lookup name = some p) ∨ pc.owes p)
    (howes : ∀ p ∈ sh.ports, (s.pcs t).owes p → pc.owes p) (p : Handle) (hp : p ∈ sh.ports) :
    (∃ name, sh.reg.transports.lookup name = some p) ∨ ∃ t', (Function.update s.pcs t pc t').owes p := by
  have hself : pc.owes p → ∃ t', (Function.update s.pcs t pc t').owes p := by
    intro howe
    refine ⟨t, ?_⟩
    rw [Function.update_self]
    exact howe
  rcases hports p hp with hold | hnew
  · rcases h.held p hold with ⟨name, hname⟩ | ⟨t', howe⟩
    · exact (hreg p hp name hname).imp id hself
    · right
      by_cases hne : t' = t
      · subst hne
        exact hself (howes p hp howe)
      · refine ⟨t', ?_⟩
        rw [Function.update_of_ne hne]
        exact howe
  · exact Or.inl hnew

private theorem Tidy.cleared_step (h : Tidy s) (hclosed : sh.closed = s.shared.closed) (hpc : s.pcs t ≠ .clearing)
    (hreg : (∀ name, s.shared.reg.transports.lookup name = none) → ∀ name, sh.reg.transports.lookup name = none)
    (hc : sh.closed = true) :
    (∃ t', Function.update s.pcs t pc t' = .clearing) ∨ ∀ name, sh.reg.transports.lookup name = none := by
  rw [hclosed] at hc
  rcases h.cleared hc with ⟨t', hclearing⟩ | hempty
  · left
    refine ⟨t', ?_⟩
    rw [Function.update_of_ne]
    · exact hclearing
    · rintro rfl
      exact hpc hclearing
  · exact Or.inr (hreg hempty)

/-- A step that leaves the ports and the transports. -/
theorem Tidy.stay (h : Tidy s) (hports : sh.ports = s.shared.ports)
    (htransports : sh.reg.transports = s.shared.reg.transports) (hclosed : sh.closed = s.shared.closed)
    (hpc : s.pcs t ≠ .clearing) (howes : ∀ p, (s.pcs t).owes p → pc.owes p) :
    Tidy ⟨sh, Function.update s.pcs t pc⟩ where
  held := by
    apply h.held_step
    · intro p hp
      rw [hports] at hp
      exact Or.inl hp
    · intro p hp name hname
      rw [← htransports] at hname
      exact Or.inl ⟨name, hname⟩
    · intro p _ howe
      exact howes p howe
  cleared := by
    apply h.cleared_step hclosed hpc
    intro hempty name
    rw [htransports]
    exact hempty name

/-- A step that closes the port of a transport its thread owes. -/
theorem Tidy.closePort (h : Tidy s) {handle : Handle} (hpc : s.pcs t ≠ .clearing)
    (howes : ∀ p, (s.pcs t).owes p → p = handle ∨ pc.owes p) :
    Tidy ⟨s.shared.closePort handle false, Function.update s.pcs t pc⟩ where
  held := by
    apply h.held_step
    · intro p hp
      exact Or.inl (Finset.mem_of_mem_erase hp)
    · intro p _ name hname
      exact Or.inl ⟨name, hname⟩
    · intro p hp howe
      rcases howes p howe with rfl | howe
      · exact absurd rfl (Finset.ne_of_mem_erase hp)
      · exact howe
  cleared := h.cleared_step rfl hpc id

private theorem held_eq_true {answer : Answer} (h : answer.held = some true) : answer = .raises true := by
  cases answer with
  | raises held =>
    cases h
    rfl
  | _ => cases h

private theorem delete_lookup (r : Registry) (name other : String) :
    ((r.dropReader name).delete name).transports.lookup other =
      Function.update r.transports.lookup name none other :=
  lookup_erase_update r.transports name other

private theorem delete_lookup_none {r : Registry} (h : ∀ name, r.transports.lookup name = none) (name other : String) :
    ((r.dropReader name).delete name).transports.lookup other = none := by
  rw [delete_lookup]
  by_cases hne : other = name
  · rw [hne, Function.update_self]
  · rw [Function.update_of_ne hne]
    exact h other

private theorem mem_values {l : AList fun _ : String => Handle} {name : String} {h : Handle}
    (hname : l.lookup name = some h) :
    h ∈ values l := by
  unfold values
  rw [List.mem_reverse, List.mem_map]
  exact ⟨⟨name, h⟩, List.of_mem_dlookup hname, rfl⟩

/-! ### The steps that change the ports or the transports -/

section Change

variable {kind : Kind} {name : String} {handle : Handle}

/-- An open registers the transport of its port. -/
theorem Tidy.opened (h : Tidy s) (hpc : s.pcs t ≠ .clearing) (hfree : ∀ p, ¬ (s.pcs t).owes p)
    (hname : s.shared.reg.transports.lookup name = none)
    (hclearing : s.shared.closed = true → ∃ t', s.pcs t' = .clearing) :
    Tidy ⟨{ s.shared.openPort with reg := s.shared.reg.insert kind name s.shared.made },
      Function.update s.pcs t .idle⟩ where
  held := by
    apply h.held_step
    · intro p hp
      rcases Finset.mem_insert.1 hp with rfl | hp
      · exact Or.inr ⟨name, AList.lookup_insert _⟩
      · exact Or.inl hp
    · intro p _ other hother
      refine Or.inl ⟨other, ?_⟩
      show (s.shared.reg.transports.insert name _).lookup other = some p
      rw [AList.lookup_insert_ne]
      · exact hother
      · rintro rfl
        rw [hname] at hother
        cases hother
    · intro p _ howe
      exact absurd howe (hfree p)
  cleared := by
    intro hclosed
    obtain ⟨t', ht'⟩ := hclearing hclosed
    refine Or.inl ⟨t', ?_⟩
    show Function.update s.pcs t _ t' = _
    rw [Function.update_of_ne]
    · exact ht'
    · rintro rfl
      exact hpc ht'

/-- A close removes a transport and closes its port. -/
theorem Tidy.closed (h : Tidy s) (hpc : s.pcs t ≠ .clearing) (hfree : ∀ p, ¬ (s.pcs t).owes p)
    (hname : s.shared.reg.transports.lookup name = some handle) :
    Tidy ⟨((s.shared.stopReader name).delete name).closePort handle false, Function.update s.pcs t .idle⟩ where
  held := by
    apply h.held_step
    · intro p hp
      exact Or.inl (Finset.mem_of_mem_erase hp)
    · intro p hp other hother
      refine Or.inl ⟨other, ?_⟩
      show ((s.shared.reg.dropReader name).delete name).transports.lookup other = some p
      rw [delete_lookup, Function.update_of_ne]
      · exact hother
      · rintro rfl
        rw [hname] at hother
        exact Finset.ne_of_mem_erase hp (Option.some.inj hother).symm
    · intro p _ howe
      exact absurd howe (hfree p)
  cleared := h.cleared_step rfl hpc fun hempty other => delete_lookup_none hempty name other

/-- A transport is removed by the thread that is going to close it. -/
theorem Tidy.taken (h : Tidy s) (hpc : s.pcs t ≠ .clearing) (hfree : ∀ p, ¬ (s.pcs t).owes p)
    (hname : s.shared.reg.transports.lookup name = some handle) :
    Tidy ⟨(s.shared.stopReader name).delete name, Function.update s.pcs t (.closingTransport handle)⟩ where
  held := by
    apply h.held_step
    · intro p hp
      exact Or.inl hp
    · intro p _ other hother
      by_cases hne : other = name
      · subst hne
        rw [hname] at hother
        exact Or.inr (Option.some.inj hother).symm
      · refine Or.inl ⟨other, ?_⟩
        show ((s.shared.reg.dropReader name).delete name).transports.lookup other = some p
        rw [delete_lookup, Function.update_of_ne hne]
        exact hother
    · intro p _ howe
      exact absurd howe (hfree p)
  cleared := h.cleared_step rfl hpc fun hempty other => delete_lookup_none hempty name other

/-- `Session.close` takes all transports. -/
theorem Tidy.clear (h : Tidy s) (hfree : ∀ p, ¬ (s.pcs t).owes p) :
    Tidy ⟨s.shared.clear.1, Function.update s.pcs t s.shared.clear.2⟩ where
  held := by
    apply h.held_step
    · intro p hp
      exact Or.inl hp
    · intro p _ name hname
      exact Or.inr (mem_values hname)
    · intro p _ howe
      exact absurd howe (hfree p)
  cleared := fun _ => Or.inr fun name => AList.lookup_empty name

theorem Tidy.closeBegins (h : Tidy s) (hfree : ∀ p, ¬ (s.pcs t).owes p) :
    Tidy ⟨{ s.shared with closed := true }, Function.update s.pcs t .clearing⟩ where
  held := by
    apply h.held_step
    · intro p hp
      exact Or.inl hp
    · intro p _ name hname
      exact Or.inl ⟨name, hname⟩
    · intro p _ howe
      exact absurd howe (hfree p)
  cleared := fun _ => Or.inl ⟨t, Function.update_self ..⟩

end Change

theorem Tidy.step (h : Tidy s) (hcond : LeavesNone c s a) (hstep : s.step c a = some s') : Tidy s' := by
  obtain ⟨sh, pc, hrule, rfl⟩ := step_cases hstep
  obtain ⟨hopens, htyped, htaken, hall⟩ := hcond
  have hnot : ∀ {old : Pc}, s.pcs a.thread = old → old ≠ .clearing → s.pcs a.thread ≠ .clearing := by
    rintro old rfl hne
    exact hne
  have hfree : ∀ {old : Pc}, s.pcs a.thread = old → (∀ p, ¬ old.owes p) → ∀ p, ¬ (s.pcs a.thread).owes p := by
    rintro old rfl hnone
    exact hnone
  generalize hpc : s.pcs a.thread = old at hrule hopens htyped htaken hall
  generalize a.input = input at hrule hopens htyped htaken hall
  cases hrule with
  | opened kind name hgate hjournal =>
    rcases hopens kind name rfl hgate with hraises | ⟨-, hclearing, -⟩
    · cases hraises
    · exact h.opened (hnot hpc Pc.noConfusion) (hfree hpc fun _ howe => howe) (openGate_ok.1 hgate).1 hclearing
  | openLeaks kind name answer hgate hleak =>
    rcases hopens kind name rfl hgate with hraises | ⟨hjournal, -, hne⟩
    · cases hraises
      rcases hleak with hleak | ⟨hleak, -⟩
      · cases hleak
      · cases hleak
    · rcases hleak with rfl | ⟨-, hclosed⟩
      · exact absurd rfl hne
      · rw [hjournal] at hclosed
        cases hclosed
  | closed kind name handle answer held hget hheld hreader =>
    cases held with
    | true =>
      rw [held_eq_true hheld] at htyped
      exact absurd rfl (htyped kind name handle rfl hget hreader)
    | false => exact h.closed (hnot hpc Pc.noConfusion) (hfree hpc fun _ howe => howe) (closeTyped_ok.1 hget).1
  | taken name handle answer hget =>
    exact h.taken (hnot hpc Pc.noConfusion) (hfree hpc fun _ howe => howe) hget
  | takenClosed handle answer held hheld =>
    cases held with
    | true =>
      rw [held_eq_true hheld] at htaken
      exact absurd rfl (htaken handle rfl)
    | false =>
      apply h.closePort (hnot hpc Pc.noConfusion)
      intro p howe
      rw [hpc] at howe
      exact Or.inl howe
  | clear answer => exact h.clear (hfree hpc fun _ howe => howe)
  | closeBegins => exact h.closeBegins (hfree hpc fun _ howe => howe)
  | closeNext handle transports answer held hheld hjournal =>
    cases held with
    | true =>
      rw [held_eq_true hheld] at hall
      exact absurd rfl (hall handle transports rfl).2.1
    | false =>
      apply h.closePort (hnot hpc Pc.noConfusion)
      intro p howe
      rw [hpc] at howe
      exact List.mem_cons.1 howe
  | closeAborts handle transports answer held habort =>
    obtain ⟨hjournal, -, hraises⟩ := hall handle transports rfl
    rcases habort with rfl | hclosed
    · exact absurd rfl (hraises held)
    · rw [hjournal] at hclosed
      cases hclosed
  | windowBegins w name handle answer hgate =>
    refine h.stay rfl ?_ rfl (hnot hpc Pc.noConfusion) ?_
    · cases w <;> rfl
    · exact fun p howe => absurd howe (hfree hpc (fun _ howe => howe) p)
  | windowEnds w name handle answer =>
    refine h.stay rfl ?_ rfl (hnot hpc Pc.noConfusion) ?_
    · cases w <;> rfl
    · exact fun p howe => absurd howe (hfree hpc (fun _ howe => howe) p)
  | closeReader handle readers transports answer =>
    refine h.stay rfl rfl rfl (hnot hpc Pc.noConfusion) ?_
    intro p howe
    rw [hpc] at howe
    exact howe
  | closeJournal answer =>
    refine h.stay rfl rfl rfl (hnot hpc Pc.noConfusion) ?_
    intro p howe
    rw [hpc] at howe
    cases howe
  -- the other steps leave the ports and the transports, and their threads owe nothing
  | _ =>
    refine h.stay rfl rfl rfl (hnot hpc Pc.noConfusion) ?_
    exact fun p howe => absurd howe (hfree hpc (fun _ howe => howe) p)

/-! ### Every run -/

private theorem tidy_init : Tidy Sys.init where
  held := by
    intro h hmem
    cases hmem
  cleared := by
    intro hclosed
    cases hclosed

private theorem eq_empty_of_lookup {l : AList fun _ : String => Handle} (h : ∀ name, l.lookup name = none) : l = ∅ := by
  apply AList.ext
  match hl : l.entries with
  | [] => rfl
  | ⟨name, handle⟩ :: rest =>
    have hnone := AList.lookup_eq_none.1 (h name)
    rw [AList.mem_keys, AList.keys, hl] at hnone
    exact absurd List.mem_cons_self hnone

/-- Once `Session.close` has returned and no call is under way, no port is open and no transport is registered, in every
run whose steps leave none behind. -/
theorem close_leaves_none {acts : List Task} (hrun : Runs.run (Sys.step c) Sys.init acts = some s)
    (hcond : Runs.Along (Sys.step c) (LeavesNone c) Sys.init acts) (hclosed : s.shared.closed = true)
    (hidle : ∀ t, s.pcs t = .idle) : s.shared.ports = ∅ ∧ s.shared.reg.transports = ∅ := by
  have htidy : Tidy s :=
    Runs.Along.invariant (fun s a s' hcond hstep h => Tidy.step h hcond hstep) hcond hrun tidy_init
  have hempty : ∀ name, s.shared.reg.transports.lookup name = none := by
    rcases htidy.cleared hclosed with ⟨t, ht⟩ | hempty
    · rw [hidle t] at ht
      cases ht
    · exact hempty
  refine ⟨?_, eq_empty_of_lookup hempty⟩
  apply Finset.eq_empty_of_forall_notMem
  intro p hp
  rcases htidy.held p hp with ⟨name, hname⟩ | ⟨t, howe⟩
  · rw [hempty name] at hname
    cases hname
  · rw [hidle t] at howe
    exact howe

theorem close_leaves_none_open :
    let c : Config := ⟨none, id⟩
    let acts : List Task := [⟨1, .start (.openTyped .serial "a")⟩, ⟨1, .go .done⟩, ⟨2, .close⟩, ⟨2, .go .done⟩,
      ⟨2, .go .done⟩, ⟨2, .go .done⟩]
    ∃ s, Runs.run (Sys.step c) Sys.init acts = some s ∧ s.shared.made = 1 ∧ s.shared.ports = ∅ ∧
      s.shared.reg.transports = ∅ := by
  intro c acts
  have hcond : Runs.Along (Sys.step c) (LeavesNone c) Sys.init acts := by
    refine And.intro ⟨fun _ _ h => (nomatch h), fun _ _ _ h => (nomatch h), fun _ h => (nomatch h),
      fun _ _ h => (nomatch h)⟩ fun s1 h1 => ?_
    obtain rfl := Option.some.inj h1
    refine And.intro ⟨fun _ _ _ _ => Or.inr ⟨rfl, fun h => (nomatch h), fun h => (nomatch h)⟩,
      fun _ _ _ h => (nomatch h), fun _ h => (nomatch h), fun _ _ h => (nomatch h)⟩ fun s1 h1 => ?_
    obtain rfl := Option.some.inj h1
    refine And.intro ⟨fun _ _ h => (nomatch h), fun _ _ _ h => (nomatch h), fun _ h => (nomatch h),
      fun _ _ h => (nomatch h)⟩ fun s1 h1 => ?_
    obtain rfl := Option.some.inj h1
    refine And.intro ⟨fun _ _ h => (nomatch h), fun _ _ _ h => (nomatch h), fun _ h => (nomatch h),
      fun _ _ h => (nomatch h)⟩ fun s1 h1 => ?_
    obtain rfl := Option.some.inj h1
    refine And.intro ⟨fun _ _ h => (nomatch h), fun _ _ _ h => (nomatch h), fun _ h => (nomatch h),
      fun _ _ _ => ⟨rfl, fun h => (nomatch h), fun _ h => (nomatch h)⟩⟩ fun s1 h1 => ?_
    obtain rfl := Option.some.inj h1
    exact And.intro ⟨fun _ _ h => (nomatch h), fun _ _ _ h => (nomatch h), fun _ h => (nomatch h),
      fun _ _ h => (nomatch h)⟩ fun _ _ => trivial
  have hsome : (Runs.run (Sys.step c) Sys.init acts).isSome = true := rfl
  obtain ⟨s, hrun⟩ := Option.isSome_iff_exists.1 hsome
  have hmade : (Runs.run (Sys.step c) Sys.init acts).map (fun s => (s.shared.made, s.shared.closed)) = some (1, true) :=
    rfl
  have hidle : ∀ t, (Runs.run (Sys.step c) Sys.init acts).map (fun s => s.pcs t) = some .idle := by
    intro t
    match t with
    | 0 => rfl
    | 1 => rfl
    | 2 => rfl
    | _ + 3 => rfl
  rw [hrun] at hmade hidle
  replace hmade := Option.some.inj hmade
  rw [Prod.mk.injEq] at hmade
  exact ⟨s, hrun, hmade.1, close_leaves_none hrun hcond hmade.2 fun t => Option.some.inj (hidle t)⟩

/-- An open that has passed `_check_open` waits for the lock while `Session.close` clears the registries. -/
theorem open_survives_close :
    let c : Config := ⟨none, id⟩
    let acts : List Task := [⟨1, .start (.openTyped .serial "a")⟩, ⟨2, .close⟩, ⟨2, .go .done⟩, ⟨1, .go .done⟩,
      ⟨2, .go .done⟩]
    ∃ s, Runs.run (Sys.step c) Sys.init acts = some s ∧ s.shared.closed = true ∧ (∀ t, s.pcs t = .idle) ∧
      ¬ (s.shared.ports = ∅ ∧ s.shared.reg.transports = ∅) := by
  intro c acts
  have hsome : (Runs.run (Sys.step c) Sys.init acts).map
      (fun s => (s.shared.closed, s.shared.ports, s.shared.reg.transports.keys)) = some (true, {0}, ["a"]) := rfl
  have hidle : ∀ t, (Runs.run (Sys.step c) Sys.init acts).map (fun s => s.pcs t) = some .idle := by
    intro t
    match t with
    | 0 => rfl
    | 1 => rfl
    | 2 => rfl
    | _ + 3 => rfl
  obtain ⟨s, hrun, hs⟩ := Option.map_eq_some_iff.1 hsome
  rw [Prod.mk.injEq, Prod.mk.injEq] at hs
  rw [hrun] at hidle
  refine ⟨s, hrun, hs.1, fun t => Option.some.inj (hidle t), ?_⟩
  rintro ⟨-, hempty⟩
  rw [hempty] at hs
  cases hs.2.2

end IronHarness.Session
