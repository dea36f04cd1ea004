/-!
# Runs of a partial step

A run does its actions one after the other and stops where a step is not possible.  What every step preserves holds
along a run; `Along` says that every step of a run meets a condition on the state before it and the action.
-/

namespace Runs

variable {σ α : Type}

def run (step : σ → α → Option σ) : σ → List α → Option σ
  | s, [] => some s
  | s, a :: acts => (step s a).bind fun s' => run step s' acts

/-- Every step of the run meets the condition. -/
def Along (step : σ → α → Option σ) (P : σ → α → Prop) : σ → List α → Prop
  | _, [] => True
  | s, a :: acts => P s a ∧ ∀ s', step s a = some s' → Along step P s' acts

variable {step : σ → α → Option σ} {P : σ → α → Prop} {I : σ → Prop} {s s' : σ} {acts : List α}

theorem run_cons_eq_some {a : α} :
    run step s (a :: acts) = some s' ↔ ∃ t, step s a = some t ∧ run step t acts = some s' := by
  rw [run, Option.bind_eq_some_iff]

/-- What both branches of a step leave, the step leaves. -/
theorem of_ite {c : Prop} [Decidable c] {x y : Option σ} (h : (if c then x else y) = some s') (hx : x = some s' → I s')
    (hy : y = some s' → I s') : I s' := by
  split at h
  · exact hx h
  · exact hy h

instance decidableAlong [∀ s a, Decidable (P s a)] : ∀ s acts, Decidable (Along step P s acts)
  | _, [] => isTrue trivial
  | s, a :: acts =>
    match hs : step s a with
    | none => decidable_of_iff (P s a) ⟨fun h => ⟨h, fun s' h' => by rw [hs] at h'; cases h'⟩, fun h => h.1⟩
    | some t =>
      have := decidableAlong t acts
      decidable_of_iff (P s a ∧ Along step P t acts)
        ⟨fun h => ⟨h.1, fun s' h' => by rw [hs] at h'; cases h'; exact h.2⟩, fun h => ⟨h.1, h.2 t hs⟩⟩

theorem Along.and {Q : σ → α → Prop} (hP : Along step P s acts) (hQ : Along step Q s acts) :
    Along step (fun s a => P s a ∧ Q s a) s acts := by
  induction acts generalizing s with
  | nil => trivial
  | cons a acts ih =>
    constructor
    · exact ⟨hP.1, hQ.1⟩
    · intro s' hs'
      exact ih (hP.2 s' hs') (hQ.2 s' hs')

theorem Along.imp {Q : σ → α → Prop} (halong : Along step P s acts) (hPQ : ∀ s a, P s a → Q s a) :
    Along step Q s acts := by
  induction acts generalizing s with
  | nil => trivial
  | cons a acts ih =>
    constructor
    · exact hPQ s a halong.1
    · intro s' hs'
      exact ih (halong.2 s' hs')

theorem Along.of_forall {Q : α → Prop} (h : ∀ a ∈ acts, Q a) : Along step (fun _ a => Q a) s acts := by
  induction acts generalizing s with
  | nil => trivial
  | cons a acts ih =>
    constructor
    · exact h a List.mem_cons_self
    · intro s' _
      exact ih fun b hb => h b (List.mem_cons_of_mem a hb)

/-- What every step that meets the condition preserves holds along a run whose steps all meet it. -/
theorem Along.invariant (hstep : ∀ s a s', P s a → step s a = some s' → I s → I s')
    (halong : Along step P s acts) (hrun : run step s acts = some s') (h : I s) : I s' := by
  induction acts generalizing s with
  | nil =>
    obtain rfl := Option.some.inj hrun
    exact h
  | cons a acts ih =>
    obtain ⟨t, ht, hrest⟩ := run_cons_eq_some.1 hrun
    exact ih (halong.2 t ht) hrest (hstep s a t halong.1 ht h)

/-- Where an invariant of the steps that meet the condition gives a second condition, the steps meet that as well. -/
theorem Along.of_invariant {Q : σ → α → Prop} (hstep : ∀ s a s', P s a → step s a = some s' → I s → I s')
    (hQ : ∀ s a, I s → Q s a) (halong : Along step P s acts) (h : I s) : Along step Q s acts := by
  induction acts generalizing s with
  | nil => trivial
  | cons a acts ih =>
    constructor
    · exact hQ s a h
    · intro s' hs'
      exact ih (halong.2 s' hs') (hstep s a s' halong.1 hs' h)

/-- What every step preserves holds along a run. -/
theorem invariant (hstep : ∀ s a s', step s a = some s' → I s → I s')
    (hrun : run step s acts = some s') (h : I s) : I s' := by
  induction acts generalizing s with
  | nil =>
    obtain rfl := Option.some.inj hrun
    exact h
  | cons a acts ih =>
    obtain ⟨t, ht, hrest⟩ := run_cons_eq_some.1 hrun
    exact ih hrest (hstep s a t ht h)

/-! ### The steps of a run by their place -/

/-- The `n`-th action of the run is `a`, and `t` is the state before it. -/
def At (step : σ → α → Option σ) (s : σ) (acts : List α) (n : Nat) (a : α) (t : σ) : Prop :=
  acts[n]? = some a ∧ run step s (acts.take n) = some t

theorem run_append {more : List α} : run step s (acts ++ more) = (run step s acts).bind fun t => run step t more := by
  induction acts generalizing s with
  | nil => rfl
  | cons a acts ih =>
    rw [List.cons_append, run, run, Option.bind_assoc]
    congr 1
    funext t
    exact ih

/-- What every step meets at its place, the steps meet along the run. -/
theorem Along.of_at (h : ∀ n a t, At step s acts n a t → P t a) : Along step P s acts := by
  induction acts generalizing s with
  | nil => trivial
  | cons a acts ih =>
    constructor
    · exact h 0 a s ⟨rfl, rfl⟩
    · intro s' hs'
      apply ih
      intro n b t hat
      refine h (n + 1) b t ⟨by simpa using hat.1, ?_⟩
      rw [List.take_succ_cons, run, hs']
      exact hat.2

theorem Along.apply (h : Along step P s acts) {n : Nat} {a : α} {t : σ} (hat : At step s acts n a t) : P t a := by
  induction acts generalizing s n with
  | nil => cases hat.1
  | cons b acts ih =>
    obtain ⟨hget, hfront⟩ := hat
    cases n with
    | zero =>
      obtain rfl := Option.some.inj hget
      obtain rfl := Option.some.inj hfront
      exact h.1
    | succ n =>
      rw [List.take_succ_cons] at hfront
      obtain ⟨s', hs', hrest⟩ := run_cons_eq_some.1 hfront
      exact ih (h.2 s' hs') ⟨hget, hrest⟩

/-- The part of a run after its `n`-th action, up to the state after `k` more. -/
theorem At.part {n : Nat} {a : α} {t u : σ} (h : At step s acts n a t) (k : Nat)
    (hrun : run step s (acts.take (n + 1 + k)) = some u) :
    ∃ t', step t a = some t' ∧ run step t' ((acts.drop (n + 1)).take k) = some u ∧
      ∀ i b v, At step t' ((acts.drop (n + 1)).take k) i b v → At step s acts (n + 1 + i) b v := by
  have hsplit : ∀ i, acts.take (n + 1 + i) = acts.take n ++ a :: (acts.drop (n + 1)).take i := by
    intro i
    rw [List.take_add, List.take_add_one, h.1, List.append_assoc]
    rfl
  rw [hsplit, run_append, h.2, Option.bind_some, run_cons_eq_some] at hrun
  obtain ⟨t', ht', hrest⟩ := hrun
  refine ⟨t', ht', hrest, fun i b v hat => ?_⟩
  obtain ⟨hget, hfront⟩ := hat
  obtain ⟨hlen, -⟩ := List.getElem?_eq_some_iff.1 hget
  rw [List.length_take] at hlen
  constructor
  · rw [List.getElem?_take_of_lt (by omega), List.getElem?_drop] at hget
    exact hget
  · rw [hsplit, run_append, h.2, Option.bind_some, run, ht', Option.bind_some]
    rw [List.take_take, Nat.min_eq_left (by omega)] at hfront
    exact hfront

end Runs
