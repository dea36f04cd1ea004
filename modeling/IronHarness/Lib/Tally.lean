import Mathlib.Algebra.BigOperators.Group.List.Basic
import Mathlib.Algebra.Order.Ring.Nat
import Mathlib.Data.Finset.Sort
import Mathlib.Data.List.Perm.Basic

/-!
# Tallies

A dictionary of groups that a loop over records fills: each record updates the value under its own key, and a key
that is not there yet starts with a fresh value.  Sorted by key, the dictionary is a function of the set of keys and
of the records of each key (`sortedItems_tally`), so it does not depend on the order in which the groups were met.
-/

namespace Tally

variable {K V R : Type*} [LinearOrder K]

/-- The value under `k` becomes its image under `f`; the keys stay in the order in which they came. -/
def adjust (fresh : V) (k : K) (f : V → V) : List (K × V) → List (K × V)
  | [] => [(k, f fresh)]
  | (k', v) :: rest => if k' = k then (k', f v) :: rest else (k', v) :: adjust fresh k f rest

/-- The dictionary after the loop over the records. -/
def tally (fresh : V) (key : R → K) (step : V → R → V) (rs : List R) : List (K × V) :=
  rs.foldl (fun groups r => adjust fresh (key r) (fun v => step v r) groups) []

/-- The items by key.  The keys of a dictionary are distinct, so the values are never compared. -/
def sortedItems (groups : List (K × V)) : List (K × V) := groups.mergeSort fun a b => decide (a.1 ≤ b.1)

/-- The keys that occur, in order. -/
def keys (key : R → K) (rs : List R) : List K := (rs.map key).toFinset.sort

/-- The records of one key. -/
def group (key : R → K) (rs : List R) (k : K) : List R := rs.filter fun r => key r = k

/-- The value of one group, from its own records. -/
def total (fresh : V) (key : R → K) (step : V → R → V) (rs : List R) (k : K) : V :=
  (group key rs k).foldl step fresh

variable {fresh : V} {key : R → K} {step : V → R → V} {rs rs' : List R} {k : K}

theorem mem_group {r : R} : r ∈ group key rs k ↔ r ∈ rs ∧ key r = k := by
  simp [group]

theorem group_append (a b : List R) : group key (a ++ b) k = group key a k ++ group key b k := List.filter_append ..

theorem group_eq_self (h : ∀ r ∈ rs, key r = k) : group key rs k = rs :=
  List.filter_eq_self.2 fun r hr => decide_eq_true (h r hr)

theorem group_eq_nil (h : ∀ r ∈ rs, key r ≠ k) : group key rs k = [] :=
  List.filter_eq_nil_iff.2 fun r hr hk => h r hr (of_decide_eq_true hk)

/-- Where only one member of a list has records of the key, the whole has those. -/
theorem group_flatMap_of_mem {A : Type*} {xs : List A} {x : A} {f : A → List R} (hnodup : xs.Nodup) (hx : x ∈ xs)
    (hothers : ∀ y ∈ xs, y ≠ x → group key (f y) k = []) : group key (xs.flatMap f) k = group key (f x) k := by
  obtain ⟨before, after, rfl⟩ := List.append_of_mem hx
  have hne : ∀ y, y ∈ before ∨ y ∈ after → y ≠ x := by
    rintro y hy rfl
    apply (List.nodup_middle.1 hnodup).notMem
    exact List.mem_append.2 hy
  have hbefore : group key (before.flatMap f) k = [] := by
    rw [group, List.filter_flatMap, List.flatMap_eq_nil_iff]
    exact fun y hy => hothers y (List.mem_append_left _ hy) (hne y (Or.inl hy))
  have hafter : group key (after.flatMap f) k = [] := by
    rw [group, List.filter_flatMap, List.flatMap_eq_nil_iff]
    exact fun y hy => hothers y (List.mem_append_right _ (List.mem_cons_of_mem x hy)) (hne y (Or.inr hy))
  rw [List.flatMap_append, List.flatMap_cons, group_append, group_append, hbefore, hafter, List.nil_append,
    List.append_nil]

theorem mem_keys : k ∈ keys key rs ↔ ∃ r ∈ rs, key r = k := by
  simp [keys]

theorem keys_nodup : (keys key rs).Nodup := Finset.sort_nodup _ _

theorem keys_congr (h : ∀ k, (∃ r ∈ rs, key r = k) ↔ ∃ r ∈ rs', key r = k) : keys key rs = keys key rs' := by
  unfold keys
  congr 1
  ext k
  simpa using h k

/-- Some of the keys, in order. -/
theorem filter_keys {p : K → Bool} : (keys key rs).filter p = keys key (rs.filter fun r => p (key r)) := by
  have hpairwise : ((keys key rs).filter p).Pairwise (· ≤ ·) := (Finset.pairwise_sort _ _).filter p
  have hnodup : ((keys key rs).filter p).Nodup := keys_nodup.filter p
  rw [← (List.toFinset_sort (· ≤ ·) hnodup).2 hpairwise, keys]
  congr 1
  ext k
  rw [List.mem_toFinset, List.mem_filter, Finset.mem_sort, List.mem_toFinset, List.mem_toFinset, List.mem_map,
    List.mem_map]
  constructor
  · rintro ⟨⟨r, hr, rfl⟩, hp⟩
    exact ⟨r, List.mem_filter.2 ⟨hr, hp⟩, rfl⟩
  · rintro ⟨r, hr, rfl⟩
    obtain ⟨hr, hp⟩ := List.mem_filter.1 hr
    exact ⟨⟨r, hr, rfl⟩, hp⟩

/-! ### What the loop keeps -/

theorem mem_adjust {f : V → V} {groups : List (K × V)} (hnodup : (groups.map Prod.fst).Nodup) {p : K × V}
    (hp : p ∈ adjust fresh k f groups) :
    (p.1 ≠ k ∧ p ∈ groups) ∨ (p.1 = k ∧ k ∉ groups.map Prod.fst ∧ p.2 = f fresh) ∨
      (p.1 = k ∧ ∃ v, (k, v) ∈ groups ∧ p.2 = f v) := by
  induction groups with
  | nil =>
    obtain rfl := List.mem_singleton.1 hp
    exact .inr (.inl ⟨rfl, by simp, rfl⟩)
  | cons q groups ih =>
    obtain ⟨k', v⟩ := q
    rw [List.map_cons, List.nodup_cons] at hnodup
    unfold adjust at hp
    split at hp
    · rename_i hk
      subst hk
      rcases List.mem_cons.1 hp with rfl | hp
      · exact .inr (.inr ⟨rfl, v, by simp, rfl⟩)
      · refine .inl ⟨?_, List.mem_cons_of_mem _ hp⟩
        intro heq
        have hmem := List.mem_map_of_mem (f := Prod.fst) hp
        rw [heq] at hmem
        exact hnodup.1 hmem
    · rename_i hk
      rcases List.mem_cons.1 hp with rfl | hp
      · exact .inl ⟨hk, by simp⟩
      · rcases ih hnodup.2 hp with ⟨hne, hmem⟩ | ⟨heq, hno, hval⟩ | ⟨heq, w, hw, hval⟩
        · exact .inl ⟨hne, List.mem_cons_of_mem _ hmem⟩
        · exact .inr (.inl ⟨heq, by simpa [Ne.symm hk] using hno, hval⟩)
        · exact .inr (.inr ⟨heq, w, List.mem_cons_of_mem _ hw, hval⟩)

private theorem mem_keys_adjust {f : V → V} {groups : List (K × V)} {k' : K} :
    k' ∈ (adjust fresh k f groups).map Prod.fst ↔ k' = k ∨ k' ∈ groups.map Prod.fst := by
  induction groups with
  | nil => simp [adjust]
  | cons q groups ih =>
    unfold adjust
    split
    · rename_i hk
      simp [hk]
    · rw [List.map_cons, List.mem_cons, ih, List.map_cons, List.mem_cons]
      exact or_left_comm

theorem nodup_adjust {f : V → V} {groups : List (K × V)} (h : (groups.map Prod.fst).Nodup) :
    ((adjust fresh k f groups).map Prod.fst).Nodup := by
  induction groups with
  | nil => simp [adjust]
  | cons q groups ih =>
    rw [List.map_cons, List.nodup_cons] at h
    unfold adjust
    split
    · rw [List.map_cons, List.nodup_cons]
      exact h
    · rename_i hk
      rw [List.map_cons, List.nodup_cons, mem_keys_adjust]
      refine ⟨?_, ih h.2⟩
      rintro (heq | hmem)
      · exact hk heq
      · exact h.1 hmem

/-- The dictionary of the records: every key once, with the value of its group. -/
structure Sums (fresh : V) (key : R → K) (step : V → R → V) (rs : List R) (groups : List (K × V)) : Prop where
  nodup : (groups.map Prod.fst).Nodup
  mem_iff : ∀ k, k ∈ groups.map Prod.fst ↔ k ∈ rs.map key
  value : ∀ p ∈ groups, p.2 = total fresh key step rs p.1

private theorem total_append_self (r : R) :
    total fresh key step (rs ++ [r]) (key r) = step (total fresh key step rs (key r)) r := by
  simp [total, group]

private theorem total_append_of_ne {r : R} (h : key r ≠ k) :
    total fresh key step (rs ++ [r]) k = total fresh key step rs k := by
  simp [total, group, h]

private theorem total_of_not_mem (h : k ∉ rs.map key) : total fresh key step rs k = fresh := by
  have hnone : group key rs k = [] := by
    rw [group, List.filter_eq_nil_iff]
    intro r hr hk
    exact h (List.mem_map.2 ⟨r, hr, by simpa using hk⟩)
  rw [total, hnone]
  rfl

theorem sums_tally : Sums fresh key step rs (tally fresh key step rs) := by
  induction rs using List.reverseRecOn with
  | nil => exact ⟨by simp [tally], by simp [tally], by simp [tally]⟩
  | append_singleton rs r ih =>
    have htally : tally fresh key step (rs ++ [r]) =
        adjust fresh (key r) (fun v => step v r) (tally fresh key step rs) := by
      simp [tally]
    rw [htally]
    refine ⟨nodup_adjust ih.nodup, fun k => ?_, fun p hp => ?_⟩
    · rw [mem_keys_adjust, ih.mem_iff, List.map_append, List.mem_append, List.map_singleton, List.mem_singleton]
      exact or_comm
    · rcases mem_adjust ih.nodup hp with ⟨hne, hmem⟩ | ⟨heq, hno, hval⟩ | ⟨heq, v, hv, hval⟩
      · rw [total_append_of_ne (Ne.symm hne)]
        exact ih.value p hmem
      · rw [ih.mem_iff] at hno
        rw [heq, total_append_self, total_of_not_mem hno]
        exact hval
      · rw [heq, total_append_self, hval]
        congr 1
        exact ih.value _ hv

/-- Sorted by key, the dictionary lists the keys with the values of their groups. -/
theorem sortedItems_tally :
    sortedItems (tally fresh key step rs) = (keys key rs).map fun k => (k, total fresh key step rs k) := by
  have hsums : Sums fresh key step rs (tally fresh key step rs) := sums_tally
  obtain ⟨hnodup, hmem, hvalue⟩ := hsums
  have hperm : (sortedItems (tally fresh key step rs)).Perm (tally fresh key step rs) := List.mergeSort_perm _ _
  have hvalues : sortedItems (tally fresh key step rs) =
      ((sortedItems (tally fresh key step rs)).map Prod.fst).map fun k => (k, total fresh key step rs k) := by
    rw [List.map_map]
    symm
    apply (List.map_congr_left fun p hp => ?_).trans (List.map_id _)
    exact Prod.ext rfl (hvalue p (hperm.mem_iff.1 hp)).symm
  have hkeys : (sortedItems (tally fresh key step rs)).map Prod.fst = keys key rs := by
    have hsorted : ((sortedItems (tally fresh key step rs)).map Prod.fst).Pairwise (· ≤ ·) := by
      rw [List.pairwise_map]
      refine (List.pairwise_mergeSort ?_ ?_ _).imp (by simp)
      · intro a b c hab hbc
        simp only [decide_eq_true_eq] at hab hbc ⊢
        exact hab.trans hbc
      · intro a b
        simpa using le_total a.1 b.1
    have hdistinct : ((sortedItems (tally fresh key step rs)).map Prod.fst).Nodup :=
      (hperm.map Prod.fst).nodup_iff.2 hnodup
    rw [← (List.toFinset_sort (· ≤ ·) hdistinct).2 hsorted, keys]
    congr 1
    ext k
    rw [List.mem_toFinset, List.mem_toFinset, (hperm.map Prod.fst).mem_iff]
    exact hmem k
  rw [hvalues, hkeys]

/-- The dictionary of the images of records. -/
theorem tally_map {Q : Type*} (f : Q → R) (qs : List Q) :
    tally fresh key step (qs.map f) = tally fresh (fun q => key (f q)) (fun v q => step v (f q)) qs := by
  unfold tally
  rw [List.foldl_map]

section Sum

variable {size : V → Nat}

private theorem sum_adjust (hfresh : size fresh = 0) {f : V → V} (hf : ∀ v, size (f v) = size v + 1)
    (groups : List (K × V)) :
    ((adjust fresh k f groups).map fun p => size p.2).sum = (groups.map fun p => size p.2).sum + 1 := by
  induction groups with
  | nil => simp [adjust, hf, hfresh]
  | cons q groups ih =>
    unfold adjust
    split
    · simp only [List.map_cons, List.sum_cons, hf]
      omega
    · simp only [List.map_cons, List.sum_cons, ih]
      omega

/-- Where every record adds one to the size of its group, the groups have as many as there are records. -/
theorem sum_sortedItems (size : V → Nat) (hfresh : size fresh = 0) (hstep : ∀ v r, size (step v r) = size v + 1) :
    ((sortedItems (tally fresh key step rs)).map fun p => size p.2).sum = rs.length := by
  have hperm : (sortedItems (tally fresh key step rs)).Perm (tally fresh key step rs) := List.mergeSort_perm _ _
  rw [(hperm.map _).sum_nat]
  induction rs using List.reverseRecOn with
  | nil => rfl
  | append_singleton rs r ih =>
    have htally : tally fresh key step (rs ++ [r]) =
        adjust fresh (key r) (fun v => step v r) (tally fresh key step rs) := by
      simp [tally]
    rw [htally, sum_adjust hfresh (fun v => hstep v r), ih (List.mergeSort_perm _ _), List.length_append]
    rfl

end Sum

/-! ### The records in another order -/

theorem keys_perm (h : rs.Perm rs') : keys key rs = keys key rs' := by
  apply keys_congr
  intro k
  simp [h.mem_iff]

theorem group_perm (h : rs.Perm rs') : (group key rs k).Perm (group key rs' k) := h.filter _

theorem total_perm (hstep : ∀ v r r', step (step v r) r' = step (step v r') r) (h : rs.Perm rs') :
    total fresh key step rs k = total fresh key step rs' k := by
  apply (group_perm h).foldl_eq'
  intro r _ r' _ v
  exact hstep v r r'

end Tally
