import Mathlib.Data.List.Basic

/-!
# The first error

Programs of `Except` that check one thing after the other: what they may raise is what each check may raise that is
reached (`onlyRaises_bind`, `onlyRaises_forM`).
-/

namespace FirstError

variable {ε α β : Type}

/-- All that the program may raise is of this kind. -/
def OnlyRaises (p : ε → Prop) (x : Except ε α) : Prop := ∀ e, x = .error e → p e

/-- The program gives a value. -/
def Succeeds (x : Except ε α) : Prop := ∃ a, x = .ok a

/-- The program without its value. -/
def outcome (x : Except ε α) : Except ε Unit := (fun _ => ()) <$> x

section

variable {p : ε → Prop} {x : Except ε α} {f : α → Except ε β}

@[simp] theorem onlyRaises_ok (a : α) : OnlyRaises p (.ok a : Except ε α) := by
  intro e h
  cases h

@[simp] theorem onlyRaises_pure (a : α) : OnlyRaises p (pure a : Except ε α) := onlyRaises_ok a

@[simp] theorem onlyRaises_error {e : ε} : OnlyRaises p (.error e : Except ε α) ↔ p e := by
  constructor
  · intro h
    exact h e rfl
  · rintro he _ ⟨⟩
    exact he

/-- What comes behind is reached only with a value. -/
theorem onlyRaises_bind : OnlyRaises p (x >>= f) ↔ OnlyRaises p x ∧ ∀ a, x = .ok a → OnlyRaises p (f a) := by
  cases x with
  | error e =>
    show OnlyRaises p (.error e : Except ε β) ↔ _
    simp
  | ok a =>
    show OnlyRaises p (f a) ↔ _
    simp

theorem onlyRaises_check {x : Except ε Unit} {f : Unit → Except ε β} :
    OnlyRaises p (x >>= f) ↔ OnlyRaises p x ∧ (x = .ok () → OnlyRaises p (f ())) := by
  rw [onlyRaises_bind]
  exact and_congr_right' ⟨fun h => h (), fun h _ => h⟩

@[simp] theorem onlyRaises_map {g : α → β} : OnlyRaises p (g <$> x) ↔ OnlyRaises p x := by
  cases x with
  | error e =>
    show OnlyRaises p (.error e : Except ε β) ↔ _
    simp
  | ok a =>
    show OnlyRaises p (.ok (g a) : Except ε β) ↔ _
    simp

@[simp] theorem onlyRaises_outcome : OnlyRaises p (outcome x) ↔ OnlyRaises p x := onlyRaises_map

theorem outcome_eq_ok : outcome x = .ok () ↔ Succeeds x := by
  cases x with
  | error e =>
    constructor
    · rintro ⟨⟩
    · rintro ⟨a, ⟨⟩⟩
  | ok a => exact ⟨fun _ => ⟨a, rfl⟩, fun _ => rfl⟩

private theorem outcome_unit (x : Except ε Unit) : outcome x = x := by
  cases x with
  | error e => rfl
  | ok u => rfl

/-- Where what comes behind does not look at the value, only whether there is one counts. -/
theorem outcome_bind {rest : Except ε Unit} (h : ∀ a, x = .ok a → outcome (f a) = rest) :
    outcome (x >>= f) = (outcome x >>= fun _ => rest) := by
  cases x with
  | error e => rfl
  | ok a => exact h a rfl

theorem outcome_check {x : Except ε Unit} {f : Unit → Except ε β} {rest : Except ε Unit} (h : outcome (f ()) = rest) :
    outcome (x >>= f) = (x >>= fun _ => rest) := by
  rw [outcome_bind fun _ _ => h, outcome_unit]

end

/-! ### Values -/

section

variable {x : Except ε α} {f : α → Except ε β}

theorem exists_eq_ok : (∃ a, x = .ok a) ↔ Succeeds x := Iff.rfl

@[simp] theorem succeeds_ok (a : α) : Succeeds (.ok a : Except ε α) := ⟨a, rfl⟩

@[simp] theorem succeeds_pure (a : α) : Succeeds (pure a : Except ε α) := ⟨a, rfl⟩

@[simp] theorem not_succeeds_error (e : ε) : ¬ Succeeds (.error e : Except ε α) := by
  rintro ⟨a, ⟨⟩⟩

theorem succeeds_bind : Succeeds (x >>= f) ↔ ∃ a, x = .ok a ∧ Succeeds (f a) := by
  cases x with
  | error e =>
    show Succeeds (.error e : Except ε β) ↔ _
    simp
  | ok a =>
    show Succeeds (f a) ↔ _
    simp

/-- Where the value does not matter for what comes behind. -/
theorem succeeds_bind_const {q : Prop} (h : ∀ a, x = .ok a → (Succeeds (f a) ↔ q)) :
    Succeeds (x >>= f) ↔ Succeeds x ∧ q := by
  rw [succeeds_bind]
  constructor
  · rintro ⟨a, ha, hf⟩
    exact ⟨⟨a, ha⟩, (h a ha).1 hf⟩
  · rintro ⟨⟨a, ha⟩, hq⟩
    exact ⟨a, ha, (h a ha).2 hq⟩

theorem succeeds_mapM {xs : List α} : Succeeds (xs.mapM f) ↔ ∀ x ∈ xs, Succeeds (f x) := by
  induction xs with
  | nil => simp
  | cons x xs ih =>
    rw [List.mapM_cons, List.forall_mem_cons, ← ih]
    refine succeeds_bind_const fun b _ => ?_
    rw [succeeds_bind_const (q := True) fun _ _ => iff_of_true (succeeds_pure _) trivial, and_true]

section

variable {σ : Type} {step : σ → α → Except ε σ} {xs : List α} {s : σ}

theorem foldlM_eq_ok {g : σ → α → σ} (h : ∀ s, ∀ a ∈ xs, step s a = .ok (g s a)) :
    xs.foldlM step s = .ok (xs.foldl g s) := by
  induction xs generalizing s with
  | nil => rfl
  | cons x xs ih =>
    rw [List.foldlM_cons, h s x List.mem_cons_self]
    exact ih fun s a ha => h s a (List.mem_cons_of_mem _ ha)

/-- A loop gives a value where each of its steps does, if this does not depend on the state. -/
theorem succeeds_foldlM {q : α → Prop} (h : ∀ s, ∀ a ∈ xs, Succeeds (step s a) ↔ q a) :
    Succeeds (xs.foldlM step s) ↔ ∀ a ∈ xs, q a := by
  induction xs generalizing s with
  | nil => exact iff_of_true (succeeds_ok s) fun _ ha => absurd ha List.not_mem_nil
  | cons x xs ih =>
    rw [List.foldlM_cons, List.forall_mem_cons, ← h s x List.mem_cons_self]
    exact succeeds_bind_const fun _ _ => ih fun s a ha => h s a (List.mem_cons_of_mem _ ha)

/-- A loop ends where its steps keep an invariant. -/
theorem foldlM_runs {Inv : σ → Prop} (h : ∀ s, ∀ a ∈ xs, Inv s → ∃ s', step s a = .ok s' ∧ Inv s') (hs : Inv s) :
    ∃ s', xs.foldlM step s = .ok s' ∧ Inv s' := by
  induction xs generalizing s with
  | nil => exact ⟨s, rfl, hs⟩
  | cons x xs ih =>
    obtain ⟨s₁, hstep, hs₁⟩ := h s x List.mem_cons_self hs
    rw [List.foldlM_cons, hstep]
    exact ih (fun s a ha => h s a (List.mem_cons_of_mem _ ha)) hs₁

end

end

/-! ### One check after the other -/

variable {p : ε → Prop} {f : α → Except ε Unit}

/-- A check is reached where those before it succeed. -/
def Reached (f : α → Except ε Unit) (xs : List α) (x : α) : Prop :=
  ∃ before after, xs = before ++ x :: after ∧ ∀ y ∈ before, f y = .ok ()

theorem reached_congr {ε' : Type} {g : α → Except ε' Unit} (h : ∀ y, f y = .ok () ↔ g y = .ok ()) {xs : List α}
    {x : α} : Reached f xs x ↔ Reached g xs x := by
  simp only [Reached, h]

private theorem reached_cons {x y : α} {xs : List α} :
    Reached f (x :: xs) y ↔ y = x ∨ f x = .ok () ∧ Reached f xs y := by
  constructor
  · rintro ⟨before, after, hxs, hbefore⟩
    cases before with
    | nil => exact .inl (List.cons.inj hxs).1.symm
    | cons z before =>
      obtain ⟨rfl, rfl⟩ := List.cons.inj hxs
      exact .inr ⟨hbefore x List.mem_cons_self, before, after, rfl, fun y hy => hbefore y (List.mem_cons_of_mem x hy)⟩
  · rintro (rfl | ⟨hx, before, after, rfl, hbefore⟩)
    · exact ⟨[], xs, rfl, fun _ hy => absurd hy List.not_mem_nil⟩
    · exact ⟨x :: before, after, rfl, List.forall_mem_cons.2 ⟨hx, hbefore⟩⟩

theorem reached_last {xs : List α} {x : α} (hx : x ∉ xs) : Reached f (xs ++ [x]) x ↔ ∀ y ∈ xs, f y = .ok () := by
  induction xs with
  | nil => exact iff_of_true (reached_cons.2 (.inl rfl)) fun _ hy => absurd hy List.not_mem_nil
  | cons y xs ih =>
    rw [List.mem_cons, not_or] at hx
    rw [List.cons_append, reached_cons, ih hx.2, List.forall_mem_cons]
    exact or_iff_right hx.1

theorem forM_eq_ok {xs : List α} : forM xs f = .ok () ↔ ∀ x ∈ xs, f x = .ok () := by
  induction xs with
  | nil => exact iff_of_true rfl fun _ hx => absurd hx List.not_mem_nil
  | cons x xs ih =>
    rw [List.forM_cons, List.forall_mem_cons, ← ih]
    cases f x with
    | error e =>
      refine iff_of_false ?_ ?_
      · rintro ⟨⟩
      · rintro ⟨⟨⟩, -⟩
    | ok u => exact (and_iff_right rfl).symm

/-- The checks raise what one that is reached may raise. -/
theorem onlyRaises_forM {xs : List α} : OnlyRaises p (forM xs f) ↔ ∀ x, Reached f xs x → OnlyRaises p (f x) := by
  induction xs with
  | nil =>
    refine iff_of_true (onlyRaises_ok ()) ?_
    rintro x ⟨before, after, hnil, -⟩
    exact absurd hnil.symm (by simp)
  | cons x xs ih =>
    simp only [List.forM_cons, onlyRaises_check, ih, reached_cons, forall_eq_or_imp, and_imp]
    apply and_congr_right'
    constructor
    · intro h y hx hy
      exact h hx y hy
    · intro h hx y hy
      exact h y hx hy

end FirstError
