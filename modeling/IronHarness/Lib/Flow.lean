import IronHarness.Lib.Runs

/-!
# What goes through a run

An observer writes down one value or none at each step of a run; `seen` is its record.  Where every step passes on
what it takes in, up to what is held between the steps, so does every run: `seen_le` for a system that invents
nothing and keeps the order, `le_seen` for one that loses nothing.
-/

namespace Runs

variable {σ α β γ : Type}

/-- The record of an observer along a run. -/
def seen (step : σ → α → Option σ) (see : σ → α → Option β) : σ → List α → List β
  | _, [] => []
  | s, a :: acts =>
    match step s a with
    | none => []
    | some s' => (see s a).toList ++ seen step see s' acts

variable {step : σ → α → Option σ} {see : σ → α → Option β} {I C : σ → Prop} {s s' : σ} {acts : List α}

theorem seen_cons {a : α} {t : σ} (ht : step s a = some t) :
    seen step see s (a :: acts) = (see s a).toList ++ seen step see t acts := by
  rw [seen, ht]

theorem seen_append {more : List α} (hrun : run step s acts = some s') :
    seen step see s (acts ++ more) = seen step see s acts ++ seen step see s' more := by
  induction acts generalizing s with
  | nil =>
    obtain rfl := Option.some.inj hrun
    rfl
  | cons a acts ih =>
    obtain ⟨t, ht, hrest⟩ := run_cons_eq_some.1 hrun
    rw [List.cons_append, seen_cons ht, seen_cons ht, ih hrest, List.append_assoc]

/-- What the observer sees where an invariant of the steps holds, it sees along the run. -/
theorem Along.mem_seen {P : σ → α → Prop} {Q : β → Prop} {x : β} (halong : Along step P s acts)
    (hstep : ∀ s a s', P s a → step s a = some s' → I s → I s')
    (hsee : ∀ s a x, I s → see s a = some x → Q x) (h : I s) (hx : x ∈ seen step see s acts) : Q x := by
  induction acts generalizing s with
  | nil => cases hx
  | cons a acts ih =>
    rw [seen] at hx
    cases ht : step s a with
    | none =>
      rw [ht] at hx
      cases hx
    | some t =>
      rw [ht] at hx
      rcases List.mem_append.1 hx with hnow | hlater
      · exact hsee s a x h (Option.mem_toList.1 hnow)
      · exact ih (halong.2 t ht) (hstep s a t halong.1 ht h) hlater

/-- The record of an observer that keeps some of what another sees, and rewrites it. -/
theorem seen_filterMap {f : β → Option γ} :
    seen step (fun s a => (see s a).bind f) s acts = (seen step see s acts).filterMap f := by
  induction acts generalizing s with
  | nil => rfl
  | cons a acts ih =>
    rw [seen, seen]
    cases step s a with
    | none => rfl
    | some t =>
      dsimp only
      rw [List.filterMap_append, ih]
      cases see s a with
      | none => rfl
      | some x => cases hx : f x <;> simp [hx]

theorem seen_filter {p : β → Bool} :
    seen step (fun s a => (see s a).filter p) s acts = (seen step see s acts).filter p := by
  induction acts generalizing s with
  | nil => rfl
  | cons a acts ih =>
    rw [seen, seen]
    cases step s a with
    | none => rfl
    | some t =>
      dsimp only
      rw [List.filter_append, ih]
      cases see s a with
      | none => rfl
      | some x => by_cases hx : p x = true <;> simp [Option.filter, hx]

section Order

variable {out into : σ → α → Option β} {hold : σ → List β}

/-- Nothing comes out of a run that was not held or did not go in, and all of it in the order it went in. -/
theorem seen_le (hkeep : ∀ s a s', step s a = some s' → I s → I s')
    (hstep : ∀ s a s', step s a = some s' → I s →
      ((out s a).toList ++ hold s').Sublist (hold s ++ (into s a).toList))
    (hrun : run step s acts = some s') (h : I s) :
    (seen step out s acts ++ hold s').Sublist (hold s ++ seen step into s acts) := by
  induction acts generalizing s with
  | nil =>
    obtain rfl := Option.some.inj hrun
    simp [seen]
  | cons a acts ih =>
    obtain ⟨t, ht, hrest⟩ := run_cons_eq_some.1 hrun
    have hnow := hstep s a t ht h
    have hlater := ih hrest (hkeep s a t ht h)
    rw [seen_cons ht, seen_cons ht, List.append_assoc, ← List.append_assoc (hold s)]
    refine .trans (hlater.append_left _) ?_
    rw [← List.append_assoc]
    exact hnow.append_right _

/-- Where the steps into states that meet `C` lose nothing, and `C` at the end means `C` before, a run loses nothing. -/
theorem le_seen (hkeep : ∀ s a s', step s a = some s' → I s → I s')
    (hback : ∀ s a s', step s a = some s' → I s → C s' → C s)
    (hstep : ∀ s a s', step s a = some s' → I s → C s → C s' →
      (hold s ++ (into s a).toList).Sublist ((out s a).toList ++ hold s'))
    (hrun : run step s acts = some s') (h : I s) (hC : C s') :
    C s ∧ (hold s ++ seen step into s acts).Sublist (seen step out s acts ++ hold s') := by
  induction acts generalizing s with
  | nil =>
    obtain rfl := Option.some.inj hrun
    exact ⟨hC, by simp [seen]⟩
  | cons a acts ih =>
    obtain ⟨t, ht, hrest⟩ := run_cons_eq_some.1 hrun
    obtain ⟨hCt, hlater⟩ := ih hrest (hkeep s a t ht h)
    have hCs := hback s a t ht h hCt
    have hnow := hstep s a t ht h hCs hCt
    refine ⟨hCs, ?_⟩
    rw [seen_cons ht, seen_cons ht, ← List.append_assoc, List.append_assoc (out s a).toList]
    refine .trans (hnow.append_right _) ?_
    rw [List.append_assoc]
    exact hlater.append_left _

end Order

section Balance

variable {δ : Type} {into : σ → α → Option β} {out : σ → α → Option γ} {hold : σ → List δ} {f : β → List δ} {g : γ → List δ}

/-- What was held and what went in is what came out and what is held at the end, where that is so of each step. -/
theorem seen_balance (hstep : ∀ s a s', step s a = some s' →
      hold s ++ (into s a).toList.flatMap f = (out s a).toList.flatMap g ++ hold s')
    (hrun : run step s acts = some s') :
    hold s ++ (seen step into s acts).flatMap f = (seen step out s acts).flatMap g ++ hold s' := by
  induction acts generalizing s with
  | nil =>
    obtain rfl := Option.some.inj hrun
    simp [seen]
  | cons a acts ih =>
    obtain ⟨t, ht, hrest⟩ := run_cons_eq_some.1 hrun
    have hnow := hstep s a t ht
    have hlater := ih hrest
    rw [seen_cons ht, seen_cons ht, List.flatMap_append, List.flatMap_append, ← List.append_assoc, hnow,
      List.append_assoc, hlater, List.append_assoc]

end Balance

end Runs
