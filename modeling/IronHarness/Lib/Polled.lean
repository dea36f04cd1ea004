import Mathlib.Data.List.Range

/-!
# Programs that poll their environment

A program runs on a state and on the list of what its polls of the environment will see; a run that needs more polls
than there are is not over.  `Total` is total correctness under every fair schedule of polls: a finite front of the
schedule is enough for the program to end, and its outcome is right.  `Partial` is partial correctness under any polls.
-/

namespace Polled

variable {π σ τ ε ε' α β : Type}

/-- A program with results in `α` and exceptions in `ε`; `none` is a run that is not over. -/
def Prog (π σ ε α : Type) : Type := σ → List π → Option (Except ε α × σ × List π)

/-- Runs `m` and goes on with its outcome. -/
def after (m : Prog π σ ε α) (k : Except ε α → Prog π σ ε' β) : Prog π σ ε' β := fun s polls =>
  (m s polls).bind fun o => k o.1 o.2.1 o.2.2

/-- `raise e` -/
def throw (e : ε) : Prog π σ ε α := fun s polls => some (.error e, s, polls)

instance : Monad (Prog π σ ε) where
  pure a := fun s polls => some (.ok a, s, polls)
  bind m f := after m fun
    | .ok a => f a
    | .error e => throw e

/-- `try: m except e: h(e)` -/
def catching (m : Prog π σ ε α) (h : ε → Prog π σ ε α) : Prog π σ ε α := after m fun
  | .ok a => pure a
  | .error e => h e

/-- `try: m except: cleanup; raise` -/
def onError (m : Prog π σ ε α) (cleanup : Prog π σ ε Unit) : Prog π σ ε α :=
  catching m fun e => cleanup >>= fun _ => throw e

/-- `with contextlib.suppress(Exception): m` -/
def suppress (m : Prog π σ ε α) : Prog π σ ε Unit := after m fun _ => pure ()

def modify (f : σ → σ) : Prog π σ ε Unit := fun s polls => some (.ok (), f s, polls)

/-- A program on a part of the state. -/
def zoom (m : Prog π σ ε α) : Prog π (σ × τ) ε α := fun s polls =>
  (m s.1 polls).map fun o => (o.1, (o.2.1, s.2), o.2.2)

/-- A loop that has run out of fuel is not over. -/
def unfinished : Prog π σ ε α := fun _ _ => none

theorem pure_bind (a : α) (f : α → Prog π σ ε β) : (pure a >>= f) = f a := rfl

theorem bind_pure (m : Prog π σ ε α) : m >>= pure = m := by
  funext s polls
  show (m s polls).bind _ = _
  cases m s polls with
  | none => rfl
  | some o =>
    obtain ⟨r, s', polls'⟩ := o
    cases r with
    | ok a => rfl
    | error e => rfl

theorem bind_assoc {γ : Type} (m : Prog π σ ε α) (f : α → Prog π σ ε β) (g : β → Prog π σ ε γ) :
    (m >>= f) >>= g = m >>= fun a => f a >>= g := by
  funext s polls
  show ((m s polls).bind _).bind _ = (m s polls).bind _
  rw [Option.bind_assoc]
  congr 1
  funext ⟨r, s', polls'⟩
  cases r with
  | ok a => rfl
  | error e => rfl

/-! ### Schedules -/

/-- The first polls of a schedule. -/
def front (sched : Nat → π) (n : Nat) : List π := (List.range n).map sched

def shift (n : Nat) (sched : Nat → π) : Nat → π := fun i => sched (n + i)

private theorem front_add (sched : Nat → π) (m n : Nat) :
    front sched (m + n) = front sched m ++ front (shift m sched) n := by
  rw [front, List.range_add, List.map_append, List.map_map]
  simp [front, shift]

theorem front_succ (sched : Nat → π) (n : Nat) : front sched (n + 1) = sched 0 :: front (shift 1 sched) n := by
  rw [front, List.range_succ_eq_map, List.map_cons, List.map_map]
  simp [front, shift, Nat.add_comm]

/-- The schedules that count as fair, closed under forgetting the first polls. -/
structure Fairness (π : Type) where
  Fair : (Nat → π) → Prop
  shift_fair : ∀ n {sched}, Fair sched → Fair (shift n sched)

/-! ### Total correctness -/

section Total

variable {F : Fairness π} {m : Prog π σ ε α} {s : σ} {R : Except ε α → σ → Prop} {Q : Except ε β → σ → Prop}

/-- Under every fair schedule `m` ends after finitely many polls, whatever polls would come later, and `Q` holds. -/
def Total (F : Fairness π) (m : Prog π σ ε α) (s : σ) (Q : Except ε α → σ → Prop) : Prop :=
  ∀ sched, F.Fair sched → ∃ n r s', Q r s' ∧ ∀ later, m s (front sched n ++ later) = some (r, s', later)

theorem Total.mono {R' : Except ε α → σ → Prop} (h : Total F m s R) (himp : ∀ r s', R r s' → R' r s') :
    Total F m s R' := by
  intro sched hfair
  obtain ⟨n, r, s', hR, hrun⟩ := h sched hfair
  exact ⟨n, r, s', himp r s' hR, hrun⟩

/-- A program that polls nothing. -/
theorem Total.of_run {r : Except ε α} {s' : σ} (hrun : ∀ polls, m s polls = some (r, s', polls)) (hR : R r s') :
    Total F m s R := by
  intro sched _
  exact ⟨0, r, s', hR, fun later => hrun later⟩

theorem Total.pure {a : α} (h : R (.ok a) s) : Total F (pure a) s R :=
  .of_run (fun _ => rfl) h

theorem Total.throw {e : ε} (h : R (.error e) s) : Total F (throw e) s R :=
  .of_run (fun _ => rfl) h

theorem Total.modify {f : σ → σ} {Q : Except ε Unit → σ → Prop} (h : Q (.ok ()) (f s)) : Total F (modify f) s Q :=
  .of_run (fun _ => rfl) h

theorem Total.after {k : Except ε α → Prog π σ ε' β} {Q : Except ε' β → σ → Prop} (hm : Total F m s R)
    (hk : ∀ r s', R r s' → Total F (k r) s' Q) : Total F (after m k) s Q := by
  intro sched hfair
  obtain ⟨n₁, r₁, s₁, hR, hrun₁⟩ := hm sched hfair
  obtain ⟨n₂, r₂, s₂, hQ, hrun₂⟩ := hk r₁ s₁ hR _ (F.shift_fair n₁ hfair)
  refine ⟨n₁ + n₂, r₂, s₂, hQ, fun later => ?_⟩
  have hfront : front sched (n₁ + n₂) ++ later = front sched n₁ ++ (front (shift n₁ sched) n₂ ++ later) := by
    rw [front_add, List.append_assoc]
  rw [hfront, Polled.after, hrun₁]
  exact hrun₂ later

theorem Total.bind {f : α → Prog π σ ε β} (hm : Total F m s R) (hok : ∀ a s', R (.ok a) s' → Total F (f a) s' Q)
    (herror : ∀ e s', R (.error e) s' → Q (.error e) s') : Total F (m >>= f) s Q := by
  refine hm.after fun r s' hR => ?_
  cases r with
  | ok a => exact hok a s' hR
  | error e => exact .throw (herror e s' hR)

theorem Total.zoom {t : τ} (hm : Total F m s R) :
    Total F (zoom m) (s, t) fun r s' => s'.2 = t ∧ R r s'.1 := by
  intro sched hfair
  obtain ⟨n, r, s', hR, hrun⟩ := hm sched hfair
  refine ⟨n, r, (s', t), ⟨rfl, hR⟩, fun later => ?_⟩
  rw [Polled.zoom, hrun]
  rfl

/-- Total correctness of a program that does not raise. -/
def Returns (F : Fairness π) (m : Prog π σ ε α) (s : σ) (P : α → σ → Prop) : Prop :=
  Total F m s fun r s' => ∃ a, r = .ok a ∧ P a s'

theorem Returns.mono {P P' : α → σ → Prop} (h : Returns F m s P) (himp : ∀ a s', P a s' → P' a s') :
    Returns F m s P' :=
  Total.mono h fun _ s' ⟨a, hr, hP⟩ => ⟨a, hr, himp a s' hP⟩

theorem Returns.pure {P : α → σ → Prop} {a : α} (h : P a s) : Returns F (pure a : Prog π σ ε α) s P :=
  Total.pure ⟨a, rfl, h⟩

/-- A program that does not raise is followed by the next one. -/
theorem Returns.seq {P : α → σ → Prop} {f : α → Prog π σ ε β} (hm : Returns F m s P)
    (hf : ∀ a s', P a s' → Total F (f a) s' Q) : Total F (m >>= f) s Q := by
  refine Total.bind hm ?_ ?_
  · rintro a s' ⟨_, h, hP⟩
    cases h
    exact hf _ s' hP
  · rintro e s' ⟨_, h, -⟩
    cases h

theorem Total.catching {h : ε → Prog π σ ε α} {Q : Except ε α → σ → Prop} (hm : Total F m s R)
    (hok : ∀ a s', R (.ok a) s' → Q (.ok a) s') (herror : ∀ e s', R (.error e) s' → Total F (h e) s' Q) :
    Total F (catching m h) s Q := by
  refine hm.after fun r s' hR => ?_
  cases r with
  | ok a => exact .pure (hok a s' hR)
  | error e => exact herror e s' hR

/-- A program that does not raise needs no handler. -/
theorem Returns.onError {P : α → σ → Prop} {cleanup : Prog π σ ε Unit} (hm : Returns F m s P) :
    Returns F (onError m cleanup) s P := by
  refine Total.catching hm (fun a s' h => h) ?_
  rintro e s' ⟨_, h, -⟩
  cases h

theorem Total.onError {cleanup : Prog π σ ε Unit} {Q : Except ε α → σ → Prop} (hm : Total F m s R)
    (hok : ∀ a s', R (.ok a) s' → Q (.ok a) s')
    (herror : ∀ e s', R (.error e) s' → Total F cleanup s' fun r s'' => r = .ok () ∧ Q (.error e) s'') :
    Total F (onError m cleanup) s Q := by
  refine hm.catching hok fun e s' hR => ?_
  refine (herror e s' hR).bind ?_ ?_
  · rintro _ s'' ⟨-, hQ⟩
    exact .throw hQ
  · rintro _ s'' ⟨h, -⟩
    cases h

theorem Total.suppress {Q : σ → Prop} (hm : Total F m s fun _ s' => Q s') :
    Total F (suppress m) s fun r s' => r = .ok () ∧ Q s' :=
  hm.after fun _ _ hQ => .pure ⟨rfl, hQ⟩

theorem Returns.suppress {P : σ → Prop} (hm : Returns F m s fun _ s' => P s') :
    Returns F (suppress m) s fun _ s' => P s' :=
  Total.after hm fun _ _ ⟨_, _, hP⟩ => Returns.pure hP

/-- Total correctness of a program that raises. -/
def Raises (F : Fairness π) (m : Prog π σ ε α) (s : σ) (P : ε → σ → Prop) : Prop :=
  Total F m s fun r s' => ∃ e, r = .error e ∧ P e s'

/-- What comes after a program that raises is skipped. -/
theorem Raises.skip {P : ε → σ → Prop} (hm : Raises F m s P) (f : α → Prog π σ ε β) : Raises F (m >>= f) s P := by
  refine Total.bind hm ?_ ?_
  · rintro a s' ⟨_, h, -⟩
    cases h
  · rintro e s' ⟨_, h, hP⟩
    cases h
    exact ⟨e, rfl, hP⟩

theorem Raises.onError {P P' : ε → σ → Prop} {cleanup : Prog π σ ε Unit} (hm : Raises F m s P)
    (hcleanup : ∀ e s', P e s' → Returns F cleanup s' fun _ s'' => P' e s'') : Raises F (onError m cleanup) s P' := by
  refine Total.onError hm ?_ ?_
  · rintro a s' ⟨_, h, -⟩
    cases h
  · rintro e s' ⟨_, h, hP⟩
    cases h
    refine Total.mono (hcleanup e s' hP) ?_
    rintro r s'' ⟨_, rfl, hP'⟩
    exact ⟨rfl, e, rfl, hP'⟩

/-- Two specifications of one program speak of the same outcome. -/
theorem Total.both {R' : Except ε α → σ → Prop} {sched : Nat → π} (hfair : F.Fair sched) (h : Total F m s R)
    (h' : Total F m s R') : ∃ r s', R r s' ∧ R' r s' := by
  obtain ⟨n, r, s', hR, hrun⟩ := h sched hfair
  obtain ⟨n', r', s'', hR', hrun'⟩ := h' sched hfair
  -- both runs see the polls up to `n + n'`
  have hboth := hrun (front (shift n sched) n')
  have hboth' := hrun' (front (shift n' sched) n)
  rw [← front_add] at hboth hboth'
  rw [Nat.add_comm, hboth] at hboth'
  obtain ⟨rfl, hrest⟩ := Prod.mk.inj (Option.some.inj hboth')
  obtain ⟨rfl, -⟩ := Prod.mk.inj hrest
  exact ⟨r, s', hR, hR'⟩

/-- What follows a program that is specified runs on from an outcome that the specification allows. -/
theorem Total.tail {f : α → Prog π σ ε β} {sched : Nat → π} (hfair : F.Fair sched) (h : Total F (m >>= f) s Q)
    (hm : Total F m s R) :
    ∃ r s', R r s' ∧ ∀ a, r = .ok a → ∃ polls r' s'' rest, f a s' polls = some (r', s'', rest) ∧ Q r' s'' := by
  obtain ⟨n, r', s'', hQ, hrun⟩ := h sched hfair
  obtain ⟨n₁, r, s', hR, hrun₁⟩ := hm sched hfair
  refine ⟨r, s', hR, ?_⟩
  rintro a rfl
  -- both runs see the polls up to `n + n₁`
  have hfront : front sched n ++ front (shift n sched) n₁ = front sched n₁ ++ front (shift n₁ sched) n := by
    rw [← front_add, ← front_add, Nat.add_comm]
  have hboth := hrun (front (shift n sched) n₁)
  rw [hfront] at hboth
  change (m s _).bind _ = _ at hboth
  rw [hrun₁] at hboth
  exact ⟨_, r', s'', _, hboth, hQ⟩

end Total

/-! ### Partial correctness -/

section Partial

variable {m : Prog π σ ε α} {s : σ} {R : Except ε α → σ → Prop} {Q : Except ε β → σ → Prop}

/-- Whatever the polls see, if `m` ends, `Q` holds. -/
def Partial (m : Prog π σ ε α) (s : σ) (Q : Except ε α → σ → Prop) : Prop :=
  ∀ polls r s' rest, m s polls = some (r, s', rest) → Q r s'

theorem Partial.mono {R' : Except ε α → σ → Prop} (h : Partial m s R) (himp : ∀ r s', R r s' → R' r s') :
    Partial m s R' :=
  fun polls r s' rest hrun => himp r s' (h polls r s' rest hrun)

private theorem Partial.of_run {r : Except ε α} {s' : σ} (hrun : ∀ polls, m s polls = some (r, s', polls))
    (hR : R r s') :
    Partial m s R := by
  intro polls r' s'' rest h
  rw [hrun] at h
  cases h
  exact hR

theorem Partial.pure {a : α} (h : R (.ok a) s) : Partial (pure a : Prog π σ ε α) s R :=
  .of_run (fun _ => rfl) h

theorem Partial.throw {e : ε} (h : R (.error e) s) : Partial (throw e : Prog π σ ε α) s R :=
  .of_run (fun _ => rfl) h

theorem Partial.modify {f : σ → σ} {Q : Except ε Unit → σ → Prop} (h : Q (.ok ()) (f s)) :
    Partial (modify f : Prog π σ ε Unit) s Q :=
  .of_run (fun _ => rfl) h

theorem Partial.after {k : Except ε α → Prog π σ ε' β} {Q : Except ε' β → σ → Prop} (hm : Partial m s R)
    (hk : ∀ r s', R r s' → Partial (k r) s' Q) : Partial (after m k) s Q := by
  intro polls r s' rest hrun
  obtain ⟨⟨r₁, s₁, polls₁⟩, hrun₁, hrun₂⟩ := Option.bind_eq_some_iff.1 hrun
  exact hk r₁ s₁ (hm polls r₁ s₁ polls₁ hrun₁) polls₁ r s' rest hrun₂

theorem Partial.zoom {t : τ} (hm : Partial m s R) : Partial (zoom m) (s, t) fun r s' => s'.2 = t ∧ R r s'.1 := by
  intro polls r s' rest hrun
  obtain ⟨⟨r₁, s₁, polls₁⟩, hrun₁, heq⟩ := Option.map_eq_some_iff.1 hrun
  cases heq
  exact ⟨rfl, hm polls _ _ _ hrun₁⟩

theorem Partial.bind {f : α → Prog π σ ε β} (hm : Partial m s R) (hok : ∀ a s', R (.ok a) s' → Partial (f a) s' Q)
    (herror : ∀ e s', R (.error e) s' → Q (.error e) s') : Partial (m >>= f) s Q := by
  refine hm.after fun r s' hR => ?_
  cases r with
  | ok a => exact hok a s' hR
  | error e => exact .throw (herror e s' hR)

theorem Partial.catching {h : ε → Prog π σ ε α} {Q : Except ε α → σ → Prop} (hm : Partial m s R)
    (hok : ∀ a s', R (.ok a) s' → Q (.ok a) s') (herror : ∀ e s', R (.error e) s' → Partial (h e) s' Q) :
    Partial (catching m h) s Q := by
  refine hm.after fun r s' hR => ?_
  cases r with
  | ok a => exact .pure (hok a s' hR)
  | error e => exact herror e s' hR

end Partial

end Polled
