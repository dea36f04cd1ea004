import IronHarness.Session.Slots
import IronHarness.Session.Steps

/-!
# Direct operations and the windows of transfers and monitors

`serial_write`, `serial_read` and `serial_read_line` look at `_transfers` and `_monitors` under the session's lock and
use the transport after they have released it.  An operation that was let through before a window began can therefore
reach the transport inside the window.  It is the only way in: as long as no window begins while a direct operation on
its name is between its gate and its transport, every direct operation stays outside the windows.
-/

namespace IronHarness.Session

/-- The step is not a direct operation on a name in use. -/
def Exclusive (s : Sys) (a : Task) : Prop :=
  ∀ op name h, s.pcs a.thread = .direct op name h → name ∉ s.shared.reg.transfers ∧ name ∉ s.shared.reg.monitors

/-- A window that the step begins finds no direct operation on its name between its gate and its transport. -/
def NonePending (c : Config) (s : Sys) (a : Task) : Prop :=
  ∀ w name handle, s.pcs a.thread = .calling (.window w name) → w.gate c s.shared.reg name = .ok handle →
    ∀ t op h, s.pcs t ≠ .direct op name h

/-- No name that a direct operation was let through on is in use. -/
def PendingFree (s : Sys) : Prop :=
  ∀ t op name h, s.pcs t = .direct op name h → ∀ u, name ∉ s.shared.reg.inUse u

variable {c : Config} {s s' : Sys} {a : Task}

theorem PendingFree.exclusive (h : PendingFree s) (a : Task) : Exclusive s a := by
  intro op name handle hpc
  exact ⟨h a.thread op name handle hpc .transfer, h a.thread op name handle hpc .monitor⟩

/-- A step that puts no name in use and lets no direct operation through. -/
theorem PendingFree.stay {sh : Shared} {pc : Pc} (h : PendingFree s)
    (huse : ∀ name u, name ∈ sh.reg.inUse u → name ∈ s.shared.reg.inUse u)
    (hpc : ∀ op name h, pc ≠ .direct op name h) (t : Nat) :
    PendingFree ⟨sh, Function.update s.pcs t pc⟩ := by
  intro t' op name handle hdirect u hmem
  by_cases hne : t' = t
  · subst hne
    rw [show (⟨sh, Function.update s.pcs t' pc⟩ : Sys).pcs t' = pc from Function.update_self ..] at hdirect
    exact hpc op name handle hdirect
  · apply h t' op name handle _ u (huse name u hmem)
    rw [← hdirect]
    exact (Function.update_of_ne hne _ _).symm

private theorem inUse_insert (r : Registry) (kind : Kind) (name : String) (h : Handle) :
    (r.insert kind name h).inUse = r.inUse := by
  funext u
  cases u <;> rfl

private theorem inUse_close (r : Registry) (name : String) : ((r.dropReader name).delete name).inUse = r.inUse := by
  funext u
  cases u <;> rfl

theorem PendingFree.step (h : PendingFree s) (hcond : NonePending c s a) (hstep : s.step c a = some s') :
    PendingFree s' := by
  obtain ⟨sh, pc, hrule, rfl⟩ := step_cases hstep
  unfold NonePending at hcond
  generalize hpc : s.pcs a.thread = old at hrule hcond
  generalize a.input = input at hrule
  cases hrule with
  | letThrough op name handle answer hgate =>
    intro t op' name' handle' hdirect u hmem
    by_cases hne : t = a.thread
    · subst hne
      rw [show (⟨s.shared, Function.update s.pcs a.thread _⟩ : Sys).pcs a.thread = _ from Function.update_self ..]
        at hdirect
      cases hdirect
      obtain ⟨htransfer, hmonitor⟩ := Direct.gate_ok hgate
      cases u with
      | transfer => exact htransfer hmem
      | monitor => exact hmonitor hmem
    · apply h t op' name' handle' _ u hmem
      rw [← hdirect]
      exact (Function.update_of_ne hne _ _).symm
  | windowBegins w name handle answer hgate =>
    intro t op name' handle' hdirect u hmem
    have hother : t ≠ a.thread := by
      rintro rfl
      rw [show (⟨_, Function.update s.pcs a.thread _⟩ : Sys).pcs a.thread = _ from Function.update_self ..] at hdirect
      cases hdirect
    rw [show (⟨_, Function.update s.pcs a.thread _⟩ : Sys).pcs t = _ from Function.update_of_ne hother ..] at hdirect
    rcases mem_inUse_add.1 hmem with ⟨rfl, -⟩ | hmem
    · exact hcond w name' handle rfl hgate t op handle' hdirect
    · exact h t op name' handle' hdirect u hmem
  | windowEnds w name handle answer =>
    apply h.stay _ (fun _ _ _ => Pc.noConfusion)
    intro name' u hmem
    exact (mem_inUse_discard.1 hmem).2
  | opened kind name hgate hjournal =>
    apply h.stay _ (fun _ _ _ => Pc.noConfusion)
    intro name' u hmem
    rw [← inUse_insert s.shared.reg kind name s.shared.made]
    exact hmem
  | closed kind name handle answer held hget hheld =>
    apply h.stay _ (fun _ _ _ => Pc.noConfusion)
    intro name' u hmem
    rw [← inUse_close s.shared.reg name]
    exact hmem
  | taken name handle answer hget =>
    apply h.stay _ (fun _ _ _ => Pc.noConfusion)
    intro name' u hmem
    rw [← inUse_close s.shared.reg name]
    exact hmem
  | readerStopped call name answer =>
    apply h.stay _ (fun _ _ _ => Pc.noConfusion)
    intro name' u hmem
    cases u <;> exact hmem
  | readerStarted name base answer hgate =>
    apply h.stay _ (fun _ _ _ => Pc.noConfusion)
    intro name' u hmem
    cases u <;> exact hmem
  | clear answer =>
    apply h.stay _ (fun _ _ _ => Pc.noConfusion)
    intro name' u hmem
    cases u <;> exact hmem
  -- the other steps leave the registries
  | _ => exact h.stay (fun _ _ hmem => hmem) (fun _ _ _ => Pc.noConfusion) _

/-- A window that begins while a direct operation on its name is pending is entered by that operation next. -/
theorem pending_enters {w : Window} {name : String} {handle h : Handle} {op : Direct} {t : Nat}
    (hpc : s.pcs a.thread = .calling (.window w name)) (hgate : w.gate c s.shared.reg name = .ok handle)
    (hdirect : s.pcs t = .direct op name h) (hstep : s.step c a = some s') : ¬ Exclusive s' ⟨t, .go .done⟩ := by
  have hne : t ≠ a.thread := by
    rintro rfl
    rw [hpc] at hdirect
    cases hdirect
  obtain ⟨⟨sh, pc⟩, hnext, rfl⟩ := Option.map_eq_some_iff.1 hstep
  rw [hpc] at hnext
  match hinput : a.input with
  | .start call => rw [hinput] at hnext; cases hnext
  | .close => rw [hinput] at hnext; cases hnext
  | .go answer =>
    rw [hinput, Pc.next, Call.locked, hgate] at hnext
    cases hnext
    intro h
    have hfree := h op name _ ((Function.update_of_ne hne _ _).trans hdirect)
    have hmem : name ∈ (s.shared.reg.add name w.use).inUse w.use := mem_inUse_add.2 (Or.inl ⟨rfl, rfl⟩)
    cases w with
    | put => exact hfree.1 hmem
    | get => exact hfree.1 hmem
    | monitor => exact hfree.2 hmem

/-- Where no window begins while a direct operation on its name is pending, no direct operation reaches a transport
whose name is in use. -/
theorem wire_exclusive {acts : List Task} (hcond : Runs.Along (Sys.step c) (NonePending c) Sys.init acts) :
    Runs.Along (Sys.step c) Exclusive Sys.init acts := by
  refine Runs.Along.of_invariant (I := PendingFree) ?_ (fun s a h => h.exclusive a) hcond ?_
  · intro s a s' hcond hstep h
    exact h.step hcond hstep
  · intro t op name h hpc
    cases hpc

theorem wire_exclusive_put :
    let c : Config := ⟨none, id⟩
    let acts : List Task := [⟨1, .start (.openTyped .serial "a")⟩, ⟨1, .go .done⟩, ⟨2, .start (.direct .write "a")⟩,
      ⟨1, .start (.window .put "a")⟩, ⟨1, .go .done⟩, ⟨2, .go .done⟩, ⟨1, .go .wire⟩]
    (Runs.run (Sys.step c) Sys.init acts).map (fun s => s.pcs 2) = some .idle ∧
      Runs.Along (Sys.step c) Exclusive Sys.init acts := by
  intro c acts
  refine ⟨rfl, wire_exclusive (And.intro (fun w name handle hpc => nomatch hpc) fun s1 h1 => ?_)⟩
  obtain rfl := Option.some.inj h1
  refine And.intro (fun w name handle hpc => nomatch hpc) fun s1 h1 => ?_
  obtain rfl := Option.some.inj h1
  refine And.intro (fun w name handle hpc => nomatch hpc) fun s1 h1 => ?_
  obtain rfl := Option.some.inj h1
  refine And.intro (fun w name handle hpc => nomatch hpc) fun s1 h1 => ?_
  obtain rfl := Option.some.inj h1
  refine And.intro (fun w name handle hpc hgate t op h hdirect => ?_) fun s1 h1 => ?_
  · match t with
    | 0 => cases hdirect
    | 1 => cases hdirect
    | 2 => cases hdirect
    | _ + 3 => cases hdirect
  obtain rfl := Option.some.inj h1
  refine And.intro (fun w name handle hpc => nomatch hpc) fun s1 h1 => ?_
  obtain rfl := Option.some.inj h1
  exact And.intro (fun w name handle hpc => nomatch hpc) fun s1 h1 => trivial

theorem write_inside_put :
    let c : Config := ⟨none, id⟩
    let acts : List Task := [⟨1, .start (.openTyped .serial "a")⟩, ⟨1, .go .done⟩, ⟨2, .start (.direct .write "a")⟩,
      ⟨2, .go .done⟩, ⟨1, .start (.window .put "a")⟩, ⟨1, .go .done⟩, ⟨1, .go .wire⟩, ⟨2, .go .done⟩]
    (Runs.run (Sys.step c) Sys.init acts).isSome = true ∧ ¬ Runs.Along (Sys.step c) Exclusive Sys.init acts := by
  intro c acts
  refine ⟨rfl, ?_⟩
  intro h
  have hlast := ((((((((h.2 _ rfl).2 _ rfl).2 _ rfl).2 _ rfl).2 _ rfl).2 _ rfl).2 _ rfl).1 .write "a" 0 rfl).1
  exact hlast (by decide)

end IronHarness.Session
