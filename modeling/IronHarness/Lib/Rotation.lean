import Mathlib.Data.List.Basic
import Mathlib.Logic.Function.Basic

/-!
# Rotating numbered slots

Slot 0 is live, the slots 1, 2, … are archived, and each is empty or holds a list of items; a larger number is older.
A rotation with `m` archived slots empties slot `m` and moves the slots below it one up, from the top down, so that
after a part of its moves the slots above some `c` are shifted and slot `c` is empty (`shifted`).

The items of the slots up to a number (`upTo`) change by the contents of slot `m` only when the rotation is complete
(`upTo_shifted`).  A list of slots hides nothing (`Tidy`) when no slot above an empty archived one holds an item; that
is kept by a complete rotation and by a part of one whose moved slots hold no items.
-/

namespace Rotation

variable {α β : Type}

abbrev Slots (α : Type) := Nat → Option α

/-- The items in slot `i`. -/
def items (ev : α → List β) (s : Slots α) (i : Nat) : List β := (s i).elim [] ev

/-- The items of the slots `k`, …, 1, 0, oldest first. -/
def upTo (ev : α → List β) (s : Slots α) : Nat → List β
  | 0 => items ev s 0
  | k + 1 => items ev s (k + 1) ++ upTo ev s k

/-- The archived slots in use are 1, …, `k`, up to the first empty one. -/
def Height (s : Slots α) (k : Nat) : Prop := (∀ i, 1 ≤ i → i ≤ k → s i ≠ none) ∧ s (k + 1) = none

/-- The slots from `c` on are moved up to slot `m`, and slot `c` is empty. -/
def shifted (c m : Nat) (s : Slots α) : Slots α := fun j =>
  if j < c then s j else if j = c then none else if j ≤ m then s (j - 1) else s j

/-- No slot above an empty archived one holds an item. -/
def Tidy (ev : α → List β) (s : Slots α) : Prop := ∀ i j, 1 ≤ i → i < j → s i = none → items ev s j = []

/-- The contents of every slot changed. -/
def mapSlots {γ : Type} (f : α → γ) (s : Slots α) : Slots γ := fun i => (s i).map f

/-- Items added to the live slot. -/
def push (s : Slots (List β)) (new : List β) : Slots (List β) := Function.update s 0 (some ((s 0).getD [] ++ new))

variable {ev : α → List β} {s t : Slots α} {c k m n : Nat}

/-! ### The items up to a slot -/

theorem items_none {i : Nat} (h : s i = none) : items ev s i = [] := by rw [items, h]; rfl

theorem upTo_congr (h : ∀ i, i ≤ k → items ev s i = items ev t i) : upTo ev s k = upTo ev t k := by
  induction k with
  | zero => exact h 0 (Nat.le_refl 0)
  | succ k ih =>
    have hk : ∀ i, i ≤ k → items ev s i = items ev t i := by
      intro i hi
      exact h i (by omega)
    rw [upTo, upTo, h (k + 1) (Nat.le_refl _), ih hk]

/-- Slots without items add nothing. -/
theorem upTo_of_empty (hkn : k ≤ n) (h : ∀ i, k < i → i ≤ n → items ev s i = []) : upTo ev s n = upTo ev s k := by
  induction n with
  | zero =>
    obtain rfl : k = 0 := by omega
    rfl
  | succ n ih =>
    rcases Nat.lt_or_ge n k with hlt | hge
    · obtain rfl : k = n + 1 := by omega
      rfl
    · have hn : ∀ i, k < i → i ≤ n → items ev s i = [] := by
        intro i hi hin
        exact h i hi (by omega)
      rw [upTo, h (n + 1) (by omega) (Nat.le_refl _), List.nil_append, ih hge hn]

private theorem length_upTo_mono (hkn : k ≤ n) : (upTo ev s k).length ≤ (upTo ev s n).length := by
  induction n with
  | zero =>
    obtain rfl : k = 0 := by omega
    exact Nat.le_refl _
  | succ n ih =>
    rcases Nat.lt_or_ge n k with hlt | hge
    · obtain rfl : k = n + 1 := by omega
      exact Nat.le_refl _
    · have := ih hge
      rw [upTo, List.length_append]
      omega

/-- The items of the slots up to `n` survive among those up to `k` only when there are none above `k`. -/
theorem upTo_sublist_iff (hkn : k ≤ n) :
    (upTo ev s n).Sublist (upTo ev s k) ↔ ∀ i, k < i → i ≤ n → items ev s i = [] := by
  constructor
  · intro hsub
    induction n with
    | zero =>
      intro i hi hin
      omega
    | succ n ih =>
      rcases Nat.lt_or_ge n k with hlt | hge
      · intro i hi hin
        omega
      · have hlen := hsub.length_le
        have hmono : (upTo ev s k).length ≤ (upTo ev s n).length := length_upTo_mono hge
        rw [upTo, List.length_append] at hlen
        have hempty : items ev s (n + 1) = [] := List.length_eq_zero_iff.1 (by omega)
        rw [upTo, hempty, List.nil_append] at hsub
        intro i hi hin
        rcases Nat.lt_or_ge n i with h | h
        · obtain rfl : i = n + 1 := by omega
          exact hempty
        · exact ih hge hsub i hi h
  · intro h
    rw [upTo_of_empty hkn h]

theorem shifted_mapSlots {γ : Type} (f : α → γ) : shifted c m (mapSlots f s) = mapSlots f (shifted c m s) := by
  funext j
  simp only [shifted, mapSlots]
  split
  · rfl
  split
  · rfl
  split <;> rfl

theorem items_mapSlots {γ : Type} {f : α → γ} {ev : γ → List β} {i : Nat} :
    items ev (mapSlots f s) i = items (fun x => ev (f x)) s i := by
  rw [items, items, mapSlots]
  cases s i <;> rfl

theorem upTo_mapSlots {γ : Type} {f : α → γ} {ev : γ → List β} :
    upTo ev (mapSlots f s) k = upTo (fun x => ev (f x)) s k := by
  induction k with
  | zero => exact items_mapSlots
  | succ k ih => rw [upTo, upTo, items_mapSlots, ih]

theorem map_items {γ : Type} (g : β → γ) (i : Nat) : (items ev s i).map g = items (fun x => (ev x).map g) s i := by
  rw [items, items]
  cases s i <;> rfl

theorem map_upTo {γ : Type} (g : β → γ) : (upTo ev s k).map g = upTo (fun x => (ev x).map g) s k := by
  induction k with
  | zero => exact map_items g 0
  | succ k ih => rw [upTo, upTo, List.map_append, map_items, ih]

/-! ### Items added to the live slot -/

theorem push_of_pos {s : Slots (List β)} {new : List β} {i : Nat} (hi : 1 ≤ i) : push s new i = s i :=
  Function.update_of_ne (by omega) _ _

theorem push_push (s : Slots (List β)) (a b : List β) : push (push s a) b = push s (a ++ b) := by
  rw [push, push, push, Function.update_self, Function.update_idem, Option.getD_some, List.append_assoc]

theorem upTo_push (s : Slots (List β)) (new : List β) : upTo id (push s new) k = upTo id s k ++ new := by
  induction k with
  | zero =>
    rw [upTo, upTo, items, items, push, Function.update_self]
    cases s 0 <;> rfl
  | succ k ih =>
    have hsame : items id (push s new) (k + 1) = items id s (k + 1) := by
      rw [items, items, push_of_pos (by omega)]
    rw [upTo, upTo, hsame, ih, List.append_assoc]

theorem tidy_congr (ht : Tidy ev s) (h : ∀ i, 1 ≤ i → t i = s i) : Tidy ev t := by
  intro i j hi hij hnone
  rw [h i hi] at hnone
  rw [items, h j (by omega)]
  exact ht i j hi hij hnone

/-! ### Heights -/

theorem Height.unique {k' : Nat} (h : Height s k) (h' : Height s k') : k = k' := by
  rcases Nat.lt_trichotomy k k' with hlt | rfl | hgt
  · exact absurd h.2 (h'.1 (k + 1) (by omega) (by omega))
  · rfl
  · exact absurd h'.2 (h.1 (k' + 1) (by omega) (by omega))

/-- Where nothing is hidden, the slots in use up to the first empty one hold everything. -/
theorem Tidy.upTo_height (ht : Tidy ev s) (hk : Height s k) (habove : ∀ i, n < i → items ev s i = []) :
    upTo ev s k = upTo ev s n := by
  rcases Nat.le_total k n with hkn | hnk
  · refine (upTo_of_empty hkn ?_).symm
    intro i hi _
    rcases Nat.lt_or_ge (k + 1) i with h | h
    · exact ht (k + 1) i (by omega) h hk.2
    · obtain rfl : i = k + 1 := by omega
      exact items_none hk.2
  · refine upTo_of_empty hnk ?_
    intro i hi _
    exact habove i hi

/-- Where nothing is hidden, an item in slot `m` has all slots below it in use. -/
theorem Tidy.full (ht : Tidy ev s) (hm : items ev s m ≠ []) : ∀ i, 1 ≤ i → i ≤ m → s i ≠ none := by
  intro i hi him hnone
  rcases Nat.lt_or_ge i m with hlt | hge
  · exact hm (ht i m hi hlt hnone)
  · obtain rfl : i = m := by omega
    exact hm (items_none hnone)

/-! ### A complete rotation -/

theorem shifted_zero : shifted 0 m s 0 = none := rfl

theorem shifted_moved {j : Nat} (hj : c ≤ j) (hjm : j < m) : shifted c m s (j + 1) = s j := by
  rw [shifted, if_neg (by omega), if_neg (by omega), if_pos (by omega), Nat.add_sub_cancel]

theorem shifted_below {j : Nat} (hj : j < c) : shifted c m s j = s j := if_pos hj

theorem shifted_self : shifted c m s c = none := by
  rw [shifted, if_neg (Nat.lt_irrefl c), if_pos rfl]

theorem shifted_above {j : Nat} (hj : m < j) (hc : c ≤ m) : shifted c m s j = s j := by
  rw [shifted, if_neg (by omega), if_neg (by omega), if_neg (by omega)]

private theorem upTo_shifted_aux {j : Nat} (hj : j < m) : upTo ev (shifted 0 m s) (j + 1) = upTo ev s j := by
  induction j with
  | zero =>
    have h1 : items ev (shifted 0 m s) 1 = items ev s 0 := by
      rw [items, shifted_moved (Nat.zero_le 0) hj]
      rfl
    rw [upTo, upTo, upTo, h1, items_none shifted_zero, List.append_nil]
  | succ j ih =>
    have hj' : items ev (shifted 0 m s) (j + 2) = items ev s (j + 1) := by
      rw [items, shifted_moved (Nat.zero_le _) hj]
      rfl
    rw [upTo, hj', ih (by omega)]
    rfl

/-- A complete rotation loses the items of slot `m` and no others. -/
theorem upTo_shifted (hm : 1 ≤ m) : upTo ev s m = items ev s m ++ upTo ev (shifted 0 m s) m := by
  obtain ⟨n, rfl⟩ : ∃ n, m = n + 1 := ⟨m - 1, by omega⟩
  rw [upTo_shifted_aux (Nat.lt_succ_self n)]
  rfl

theorem Tidy.shifted_zero (ht : Tidy ev s) (hlive : s 0 ≠ none) : Tidy ev (shifted 0 m s) := by
  intro i j hi hij hnone
  -- the slot a slot of the rotated list came from
  have hfrom : ∀ j, 1 ≤ j → shifted 0 m s j = s (if j ≤ m then j - 1 else j) := by
    intro j hj
    rw [shifted, if_neg (by omega), if_neg (by omega)]
    split <;> rfl
  rw [hfrom i hi] at hnone
  rw [items, hfrom j (by omega)]
  have hpos : 1 ≤ (if i ≤ m then i - 1 else i) := by
    rcases Nat.eq_zero_or_pos (if i ≤ m then i - 1 else i) with h | h
    · rw [h] at hnone
      exact absurd hnone hlive
    · exact h
  refine ht _ _ hpos ?_ hnone
  split at hpos <;> split <;> first | omega | (split <;> omega)

/-! ### A part of a rotation -/

/-- A part of a rotation that moved no items changes nothing that is kept. -/
theorem upTo_shifted_part (hc : 1 ≤ c) (hcm : c ≤ m) (hempty : ∀ j, c ≤ j → j ≠ m → items ev s j = []) :
    upTo ev s m = items ev s m ++ upTo ev (shifted c m s) m := by
  obtain ⟨n, rfl⟩ : ∃ n, m = n + 1 := ⟨m - 1, by omega⟩
  have hsame : upTo ev s n = upTo ev (shifted c (n + 1) s) n := by
    refine upTo_congr ?_
    intro i hi
    rcases Nat.lt_trichotomy i c with h | rfl | h
    · rw [items, items, shifted_below h]
    · rw [items_none shifted_self]
      exact hempty i (Nat.le_refl i) (by omega)
    · have hmoved : items ev (shifted c (n + 1) s) i = items ev s (i - 1) := by
        obtain ⟨j, rfl⟩ : ∃ j, i = j + 1 := ⟨i - 1, by omega⟩
        rw [items, shifted_moved (by omega) (by omega)]
        rfl
      rw [hmoved, hempty i (by omega) (by omega), hempty (i - 1) (by omega) (by omega)]
  have htop : items ev (shifted c (n + 1) s) (n + 1) = [] := by
    rcases Nat.lt_or_ge c (n + 1) with h | h
    · have hmoved : items ev (shifted c (n + 1) s) (n + 1) = items ev s n := by
        rw [items, shifted_moved (by omega) (Nat.lt_succ_self n)]
        rfl
      rw [hmoved, hempty n (by omega) (by omega)]
    · obtain rfl : c = n + 1 := by omega
      exact items_none shifted_self
  rw [upTo, upTo, htop, List.nil_append, hsame]

theorem Tidy.shifted_part (ht : Tidy ev s) (hcm : c ≤ m) (hempty : ∀ j, c ≤ j → j ≠ m → items ev s j = []) :
    Tidy ev (shifted c m s) := by
  -- no slot from `c` on holds an item any more
  have habove : ∀ j, c ≤ j → items ev (shifted c m s) j = [] := by
    intro j hj
    rcases Nat.lt_trichotomy j c with h | rfl | h
    · omega
    · exact items_none shifted_self
    · rcases Nat.lt_or_ge m j with hm | hm
      · rw [items, shifted_above hm hcm]
        exact hempty j hj (by omega)
      · obtain ⟨i, rfl⟩ : ∃ i, j = i + 1 := ⟨j - 1, by omega⟩
        rw [items, shifted_moved (by omega) (by omega)]
        exact hempty i (by omega) (by omega)
  intro i j hi hij hnone
  rcases Nat.lt_or_ge j c with h | h
  · rw [shifted_below (by omega)] at hnone
    rw [items, shifted_below h]
    exact ht i j hi hij hnone
  · exact habove j h

end Rotation
