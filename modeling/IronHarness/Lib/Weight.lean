import Mathlib.Data.List.AList

/-!
# The weight of a finite map

The sum of the weights of its entries, and what an insertion and an erasure do to it.
-/

namespace Weight

variable {κ β : Type}

def weighList (w : κ → β → Nat) : List (Sigma fun _ : κ => β) → Nat
  | [] => 0
  | e :: es => w e.1 e.2 + weighList w es

def weigh (w : κ → β → Nat) (s : AList fun _ : κ => β) : Nat := weighList w s.entries

variable {w w' : κ → β → Nat} {s : AList fun _ : κ => β} {k : κ} {v : β}

private theorem weighList_congr {es : List (Sigma fun _ : κ => β)} (h : ∀ e ∈ es, w e.1 e.2 = w' e.1 e.2) :
    weighList w es = weighList w' es := by
  induction es with
  | nil => rfl
  | cons e es ih =>
    rw [weighList, weighList, h e List.mem_cons_self, ih fun e' he' => h e' (List.mem_cons_of_mem e he')]

variable [DecidableEq κ]

/-- Weights that agree on the entries of a map give it one weight. -/
theorem weigh_congr (h : ∀ k v, s.lookup k = some v → w k v = w' k v) : weigh w s = weigh w' s := by
  apply weighList_congr
  rintro ⟨k, v⟩ he
  exact h k v (AList.mem_lookup_iff.2 he)

/-- What a key weighs. -/
def weighKey (w : κ → β → Nat) (s : AList fun _ : κ => β) (k : κ) : Nat := (s.lookup k).elim 0 (w k)

private theorem weighList_kerase (w : κ → β → Nat) (k : κ) (es : List (Sigma fun _ : κ => β)) :
    weighList w (es.kerase k) + (es.dlookup k).elim 0 (w k) = weighList w es := by
  induction es with
  | nil => rfl
  | cons e es ih =>
    obtain ⟨k', v⟩ := e
    by_cases hk : k = k'
    · subst hk
      rw [List.kerase_cons_eq (show k = (⟨k, v⟩ : Sigma fun _ : κ => β).1 from rfl), List.dlookup_cons_eq, weighList,
        Option.elim_some]
      exact Nat.add_comm _ _
    · rw [List.kerase_cons_ne (show k ≠ (⟨k', v⟩ : Sigma fun _ : κ => β).1 from hk), List.dlookup_cons_ne _ _ hk,
        weighList, weighList]
      omega

theorem weigh_insert (w : κ → β → Nat) (s : AList fun _ : κ => β) (k : κ) (v : β) :
    weigh w (s.insert k v) + weighKey w s k = weigh w s + w k v := by
  have hlist : weighList w (s.entries.kerase k) + weighKey w s k = weigh w s := weighList_kerase w k s.entries
  rw [weigh, AList.entries_insert, weighList]
  dsimp only
  omega

theorem weigh_erase (w : κ → β → Nat) (s : AList fun _ : κ => β) (k : κ) :
    weigh w (s.erase k) + weighKey w s k = weigh w s := weighList_kerase w k s.entries

end Weight
