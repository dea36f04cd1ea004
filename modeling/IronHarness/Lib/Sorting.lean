import Mathlib.Data.List.Chain
import Mathlib.Data.List.Nodup

/-!
# Sorting with a comparison that may fail

A sort that only compares, where a comparison of two items may raise: it ends without an exception where all items can be
compared, and then neighbours have been compared.  So among distinct items it ends without an exception exactly where any
two can be compared, provided that this is symmetric and transitive (`isSome_sorted_iff`).
-/

namespace Sorting

/-- The items stand in order; a comparison has told so. -/
def InOrder {A : Type} (lt : A → A → Option Bool) (a b : A) : Prop := lt a b = some true ∨ lt b a = some false

/-- A comparison sort; `none` is an exception of a comparison. -/
structure Sorter where
  sorted : {A : Type} → (A → A → Option Bool) → List A → Option (List A)
  returns : ∀ {A : Type} (lt : A → A → Option Bool) (xs : List A),
    xs.Pairwise (fun a b => (lt a b).isSome = true ∧ (lt b a).isSome = true) → (sorted lt xs).isSome = true
  perm : ∀ {A : Type} (lt : A → A → Option Bool) (xs ys : List A), sorted lt xs = some ys → ys.Perm xs
  inOrder : ∀ {A : Type} (lt : A → A → Option Bool) (xs ys : List A), sorted lt xs = some ys → ys.IsChain (InOrder lt)

section

variable {A : Type} {lt : A → A → Option Bool} {xs ys : List A}

/-- Any two items can be compared. -/
def Comparable (lt : A → A → Option Bool) (xs : List A) : Prop := ∀ a ∈ xs, ∀ b ∈ xs, a ≠ b → (lt a b).isSome = true

private theorem isSome_sorted (sort : Sorter) (hnodup : xs.Nodup) (h : Comparable lt xs) :
    (sort.sorted lt xs).isSome = true := by
  apply sort.returns
  rw [List.nodup_iff_pairwise_ne] at hnodup
  apply hnodup.imp_of_mem
  intro a b ha hb hne
  exact ⟨h a ha b hb hne, h b hb a ha (Ne.symm hne)⟩

theorem isSome_sorted_iff (sort : Sorter) (hnodup : xs.Nodup)
    (hsymm : ∀ a b, (lt a b).isSome = true → (lt b a).isSome = true)
    (htrans : ∀ a b c, (lt a b).isSome = true → (lt b c).isSome = true → (lt a c).isSome = true) :
    (sort.sorted lt xs).isSome = true ↔ Comparable lt xs := by
  constructor
  · intro hsome
    obtain ⟨ys, hys⟩ := Option.isSome_iff_exists.1 hsome
    have hchain : ys.IsChain fun a b => (lt a b).isSome = true := by
      apply (sort.inOrder lt xs ys hys).imp
      rintro a b (hlt | hlt)
      · rw [hlt]
        rfl
      · exact hsymm b a (by rw [hlt]; rfl)
    have : IsTrans A fun a b => (lt a b).isSome = true := ⟨htrans⟩
    have : Std.Symm fun a b => (lt a b).isSome = true := ⟨hsymm⟩
    have hpairwise := List.isChain_iff_pairwise.1 hchain
    have hperm := sort.perm lt xs ys hys
    intro a ha b hb hne
    exact hpairwise.forall (hperm.mem_iff.2 ha) (hperm.mem_iff.2 hb) hne
  · exact isSome_sorted sort hnodup

end

/-! ### A sort by insertion -/

section

variable {A : Type} (lt : A → A → Option Bool)

def insertBy (x : A) : List A → Option (List A)
  | [] => some [x]
  | y :: ys =>
    match lt y x with
    | none => none
    | some true => (insertBy x ys).map (y :: ·)
    | some false => some (x :: y :: ys)

def insertSorted : List A → Option (List A)
  | [] => some []
  | x :: xs => (insertSorted xs).bind (insertBy lt x)

variable {lt} {x : A} {xs ys : List A}

private theorem insertBy_perm (h : insertBy lt x xs = some ys) : ys.Perm (x :: xs) := by
  induction xs generalizing ys with
  | nil =>
    cases h
    exact .refl _
  | cons y xs ih =>
    rw [insertBy] at h
    split at h
    · cases h
    · obtain ⟨zs, hzs, rfl⟩ := Option.map_eq_some_iff.1 h
      exact ((ih hzs).cons y).trans (.swap x y xs)
    · cases h
      exact .refl _

private theorem insertBy_chain (hchain : xs.IsChain (InOrder lt)) (h : insertBy lt x xs = some ys) :
    ys.IsChain (InOrder lt) ∧ ∀ z ∈ ys.head?, z = x ∨ z ∈ xs.head? := by
  induction xs generalizing ys with
  | nil =>
    cases h
    exact ⟨.singleton x, by simp⟩
  | cons y xs ih =>
    rw [insertBy] at h
    split at h
    · cases h
    · rename_i hlt
      obtain ⟨zs, hzs, rfl⟩ := Option.map_eq_some_iff.1 h
      obtain ⟨hzsChain, hhead⟩ := ih hchain.tail hzs
      refine ⟨hzsChain.cons ?_, by simp⟩
      intro z hz
      rcases hhead z hz with rfl | hmem
      · exact .inl hlt
      · cases xs with
        | nil => cases hmem
        | cons w xs =>
          cases hmem
          exact (List.isChain_cons_cons.1 hchain).1
    · rename_i hlt
      cases h
      exact ⟨List.isChain_cons_cons.2 ⟨.inr hlt, hchain⟩, by simp⟩

private theorem insertSorted_perm (h : insertSorted lt xs = some ys) : ys.Perm xs := by
  induction xs generalizing ys with
  | nil =>
    cases h
    exact .refl _
  | cons x xs ih =>
    obtain ⟨zs, hzs, hinsert⟩ := Option.bind_eq_some_iff.1 h
    exact (insertBy_perm hinsert).trans ((ih hzs).cons x)

private theorem insertSorted_chain (h : insertSorted lt xs = some ys) : ys.IsChain (InOrder lt) := by
  induction xs generalizing ys with
  | nil =>
    cases h
    exact .nil
  | cons x xs ih =>
    obtain ⟨zs, hzs, hinsert⟩ := Option.bind_eq_some_iff.1 h
    exact (insertBy_chain (ih hzs) hinsert).1

private theorem isSome_insertBy (h : ∀ y ∈ xs, (lt y x).isSome = true) : (insertBy lt x xs).isSome = true := by
  induction xs with
  | nil => rfl
  | cons y xs ih =>
    rw [List.forall_mem_cons] at h
    rw [insertBy]
    split
    · rename_i hnone
      rw [hnone] at h
      cases h.1
    · rw [Option.isSome_map]
      exact ih h.2
    · rfl

private theorem isSome_insertSorted (h : xs.Pairwise fun a b => (lt a b).isSome = true ∧ (lt b a).isSome = true) :
    (insertSorted lt xs).isSome = true := by
  induction xs with
  | nil => rfl
  | cons x xs ih =>
    rw [List.pairwise_cons] at h
    obtain ⟨ys, hys⟩ := Option.isSome_iff_exists.1 (ih h.2)
    rw [insertSorted, hys, Option.bind_some]
    apply isSome_insertBy
    intro y hy
    exact (h.1 y ((insertSorted_perm hys).mem_iff.1 hy)).2

end

def insertion : Sorter where
  sorted lt xs := insertSorted lt xs
  returns _ _ := isSome_insertSorted
  perm _ _ _ := insertSorted_perm
  inOrder _ _ _ := insertSorted_chain

end Sorting
