import IronHarness.Journal.Writer

/-!
# What a rotation does to the slots

A rotation that raises at no operation is a complete rotation of the slots; one that raises at the operation after `k`
leaves the slots shifted from the lowest part moved by then (`rotateIfFull_spec`).
-/

namespace IronHarness.Journal

open ByteText Rotation

/-- The parts a rotation up to part `n` moves or removes, in the order it does. -/
def sources (s : Slots Bytes) : Nat → List Nat
  | 0 => []
  | n + 1 => if (s (n + 1)).isSome then (n + 1) :: sources s n else sources s n

theorem mem_sources {s : Slots Bytes} {n i : Nat} : i ∈ sources s n ↔ 1 ≤ i ∧ i ≤ n ∧ s i ≠ none := by
  induction n with
  | zero => simp [sources]; omega
  | succ n ih =>
    rw [sources]
    cases h : s (n + 1) with
    | none =>
      simp only [Option.isSome_none, Bool.false_eq_true, ↓reduceIte, ih]
      constructor
      · rintro ⟨h1, h2, h3⟩
        exact ⟨h1, by omega, h3⟩
      · rintro ⟨h1, h2, h3⟩
        have hne : i ≠ n + 1 := by
          rintro rfl
          exact h3 h
        exact ⟨h1, by omega, h3⟩
    | some bs =>
      simp only [Option.isSome_some, ↓reduceIte, List.mem_cons, ih]
      constructor
      · rintro (rfl | ⟨h1, h2, h3⟩)
        · exact ⟨by omega, Nat.le_refl _, by rw [h]; exact Option.some_ne_none bs⟩
        · exact ⟨h1, by omega, h3⟩
      · rintro ⟨h1, h2, h3⟩
        rcases Nat.lt_or_ge n i with hlt | hge
        · exact Or.inl (by omega)
        · exact Or.inr ⟨h1, hge, h3⟩

variable {name : String} {d : Dir} {s : Slots Bytes} {m n k : Nat}

/-! ### Single steps -/

private theorem shiftParts_absent {left : Option Nat} (h : slots name d (n + 1) = none) :
    shiftParts name (n + 1) ⟨d, left⟩ = shiftParts name n ⟨d, left⟩ := by
  have hlook : d.lookup (partName name (n + 1)) = none := h
  simp [shiftParts, fileExists, hlook, bind, EStateM.bind]

private theorem shiftParts_raises {bs : Bytes} (h : slots name d (n + 1) = some bs) :
    shiftParts name (n + 1) ⟨d, some 0⟩ = .error .raised ⟨d, some 0⟩ := by
  have hlook : d.lookup (partName name (n + 1)) = some bs := h
  simp [shiftParts, fileExists, replace, attempt, hlook, bind, EStateM.bind]

private theorem shiftParts_moves {left : Option Nat} {bs : Bytes} (hl : left ≠ some 0)
    (h : slots name d (n + 1) = some bs) :
    shiftParts name (n + 1) ⟨d, left⟩ = shiftParts name n
      ⟨moveFile (fileName name (n + 1)) (fileName name (n + 2)) bs d, left.map (· - 1)⟩ := by
  have hlook : d.lookup (partName name (n + 1)) = some bs := h
  rcases left with _ | _ | k
  · simp [shiftParts, fileExists, replace, attempt, hlook, bind, EStateM.bind]
  · exact absurd rfl hl
  · simp [shiftParts, fileExists, replace, attempt, hlook, bind, EStateM.bind]

/-- Moving the next part shifts the slots one further. -/
private theorem slots_move {bs : Bytes} (hd : slots name d = shifted (n + 2) m s) (hnm : n + 2 ≤ m)
    (h : s (n + 1) = some bs) :
    slots name (moveFile (fileName name (n + 1)) (fileName name (n + 2)) bs d) = shifted (n + 1) m s := by
  rw [slots_moveFile, hd]
  funext j
  by_cases hj : j = n + 2
  · subst hj
    rw [Function.update_self, shifted_moved (Nat.le_refl _) (by omega), h]
  rw [Function.update_of_ne hj]
  by_cases hj' : j = n + 1
  · subst hj'
    rw [Function.update_self, shifted_self]
  rw [Function.update_of_ne hj']
  simp only [shifted]
  repeat' split
  all_goals first | rfl | omega

/-- An empty slot is shifted by doing nothing. -/
private theorem shifted_absent (hnm : n + 1 ≤ m) (h : s n = none) : shifted (n + 1) m s = shifted n m s := by
  funext j
  rcases Nat.lt_trichotomy j n with hj | rfl | hj
  · rw [shifted_below (by omega), shifted_below hj]
  · rw [shifted_below (Nat.lt_succ_self j), shifted_self, h]
  · rcases Nat.lt_or_ge (n + 1) j with hj' | hj'
    · simp only [shifted]
      repeat' split
      all_goals first | rfl | omega
    · obtain rfl : j = n + 1 := by omega
      rw [shifted_self, shifted_moved (Nat.le_refl n) (by omega), h]

/-! ### The loop -/

private theorem getLastD_cons_of_ne {l : List Nat} (hl : l ≠ []) (a b : Nat) : l.getLastD a = l.getLastD b := by
  cases l with
  | nil => exact absurd rfl hl
  | cons x l => rfl

/-- With no part left to move, the slots are shifted from part 1 on. -/
private theorem shifted_getLastD (hnm : n + 1 ≤ m) :
    shifted ((sources s n).getLastD (n + 1)) m s = shifted 1 m s := by
  induction n with
  | zero => rfl
  | succ n ih =>
    rw [sources]
    cases h : s (n + 1) with
    | some bs =>
      rw [Option.isSome_some, if_pos rfl, List.getLastD_cons]
      exact ih (by omega)
    | none =>
      rw [if_neg (by simp)]
      by_cases hl : sources s n = []
      · rw [hl, List.getLastD_nil, shifted_absent hnm h]
        have := ih (by omega)
        rwa [hl, List.getLastD_nil] at this
      · rw [getLastD_cons_of_ne hl _ (n + 1)]
        exact ih (by omega)

private theorem shiftParts_spec (left : Option Nat) (hnm : n + 1 ≤ m) (hd : slots name d = shifted (n + 1) m s) :
    match shiftParts name n ⟨d, left⟩ with
    | .ok _ disk => slots name disk.dir = shifted 1 m s ∧ disk.left = left.map (· - (sources s n).length) ∧
        ∀ k, left = some k → (sources s n).length ≤ k
    | .error _ disk => ∃ k, left = some k ∧ k < (sources s n).length ∧
        slots name disk.dir = shifted (((sources s n).take k).getLastD (n + 1)) m s := by
  induction n generalizing d left with
  | zero =>
    refine ⟨hd, ?_, ?_⟩
    · cases left <;> rfl
    · intro k _
      exact Nat.zero_le k
  | succ n ih =>
    have hsame : slots name d (n + 1) = s (n + 1) := by
      rw [hd, shifted_below (Nat.lt_succ_self _)]
    cases h : s (n + 1) with
    | none =>
      have hsrc : sources s (n + 1) = sources s n := by
        rw [sources, h]
        rfl
      have hspec := ih left (by omega) (by rw [hd, shifted_absent (by omega) h])
      rw [shiftParts_absent (hsame.trans h), hsrc]
      cases hrun : shiftParts name n ⟨d, left⟩ with
      | ok _ disk =>
        rw [hrun] at hspec
        exact hspec
      | error _ disk =>
        rw [hrun] at hspec
        obtain ⟨k, hk, hlt, hslots⟩ := hspec
        refine ⟨k, hk, hlt, ?_⟩
        by_cases hl : (sources s n).take k = []
        · rw [hl, List.getLastD_nil] at hslots ⊢
          rw [shifted_absent (by omega) h, hslots]
        · rw [getLastD_cons_of_ne hl _ (n + 1)]
          exact hslots
    | some bs =>
      have hsrc : sources s (n + 1) = (n + 1) :: sources s n := by
        rw [sources, h]
        rfl
      have hmoved := slots_move hd hnm h
      rw [hsrc]
      by_cases hl : left = some 0
      · subst hl
        rw [shiftParts_raises (hsame.trans h)]
        exact ⟨0, rfl, Nat.succ_pos _, hd⟩
      have hspec := ih (left.map (· - 1)) (by omega) hmoved
      rw [shiftParts_moves hl (hsame.trans h)]
      cases hrun : shiftParts name n
          ⟨moveFile (fileName name (n + 1)) (fileName name (n + 2)) bs d, left.map (· - 1)⟩ with
      | ok _ disk =>
        rw [hrun] at hspec
        obtain ⟨hslots, hleft, hlen⟩ := hspec
        refine ⟨hslots, ?_, ?_⟩
        · rw [hleft, Option.map_map, List.length_cons]
          congr 1
          funext k
          simp only [Function.comp_apply]
          omega
        · intro k hk
          have hk0 : k ≠ 0 := by
            rintro rfl
            exact hl hk
          have := hlen (k - 1) (by rw [hk]; rfl)
          rw [List.length_cons]
          omega
      | error _ disk =>
        rw [hrun] at hspec
        obtain ⟨k, hk, hlt, hslots⟩ := hspec
        obtain ⟨k', hk', rfl⟩ := Option.map_eq_some_iff.1 hk
        have hk0 : k' ≠ 0 := by
          rintro rfl
          exact hl hk'
        obtain ⟨i, rfl⟩ : ∃ i, k' = i + 1 := ⟨k' - 1, by omega⟩
        refine ⟨i + 1, hk', ?_, ?_⟩
        · rw [List.length_cons]
          omega
        · rw [List.take_succ_cons, List.getLastD_cons]
          exact hslots

/-! ### A rotation -/

/-- The live file is there and has reached the bound. -/
def full (j : JsonlJournal) (d : Dir) : Bool :=
  match d.lookup j.path with
  | none => false
  | some bs => j.maxBytes ≤ bs.length

/-- The slots after the first `k` operations of a rotation, which moves the live file last. -/
def afterMoves (s : Slots Bytes) (m k : Nat) : Slots Bytes :=
  match ((sources s m).take k).getLast? with
  | none => s
  | some c => shifted c m s

private theorem shifted_top_absent (h : s m = none) : shifted m m s = s := by
  funext j
  rcases Nat.lt_trichotomy j m with hj | rfl | hj
  · exact shifted_below hj
  · rw [shifted_self, h]
  · exact shifted_above hj (Nat.le_refl m)

private theorem getLast?_eq_getLastD {l : List Nat} (hl : l ≠ []) (a : Nat) : l.getLast? = some (l.getLastD a) := by
  cases l with
  | nil => exact absurd rfl hl
  | cons x l => rfl

/-- After the oldest part is gone, the moves of the loop are those of the rotation. -/
private theorem afterMoves_loop (h : s (n + 1) = none) :
    afterMoves s (n + 1) k = shifted (((sources s n).take k).getLastD (n + 1)) (n + 1) s := by
  have hsrc : sources s (n + 1) = sources s n := by
    rw [sources, h]
    rfl
  rw [afterMoves, hsrc]
  by_cases hl : (sources s n).take k = []
  · rw [hl, List.getLastD_nil, shifted_top_absent h]
    rfl
  · rw [getLast?_eq_getLastD hl (n + 1)]

private theorem afterMoves_unlinked {bs : Bytes} (h : s (n + 1) = some bs) :
    afterMoves s (n + 1) (k + 1) = shifted (((sources s n).take k).getLastD (n + 1)) (n + 1) s := by
  have hsrc : sources s (n + 1) = (n + 1) :: sources s n := by
    rw [sources, h]
    rfl
  rw [afterMoves, hsrc, List.take_succ_cons, getLast?_eq_getLastD (List.cons_ne_nil _ _) (n + 1),
    List.getLastD_cons]

/-- The move of the live file to part 1. -/
private theorem slots_moveLive {bs : Bytes} (hm : 1 ≤ m) (hd : slots name d = shifted 1 m s) (h : s 0 = some bs) :
    slots name (moveFile (fileName name 0) (fileName name 1) bs d) = shifted 0 m s := by
  rw [slots_moveFile, hd]
  funext j
  by_cases hj : j = 1
  · subst hj
    rw [Function.update_self, shifted_moved (Nat.le_refl _) (by omega), h]
  rw [Function.update_of_ne hj]
  by_cases hj' : j = 0
  · subst hj'
    rw [Function.update_self, shifted_self]
  rw [Function.update_of_ne hj']
  simp only [shifted]
  repeat' split
  all_goals first | rfl | omega

/-- The loop and the move of the live file, once the oldest part is gone. -/
private theorem shift_and_replace_spec (left : Option Nat) {bs : Bytes} (hlive : s 0 = some bs)
    (hd : slots name d = shifted (n + 1) (n + 1) s) :
    match (shiftParts name n >>= fun _ => replace name (partName name 1)) ⟨d, left⟩ with
    | .ok _ disk => slots name disk.dir = shifted 0 (n + 1) s
    | .error _ disk => ∃ k, left = some k ∧ k ≤ (sources s n).length ∧
        slots name disk.dir = shifted (((sources s n).take k).getLastD (n + 1)) (n + 1) s := by
  have hspec := shiftParts_spec left (Nat.le_refl _) hd
  cases hrun : shiftParts name n ⟨d, left⟩ with
  | error e disk =>
    rw [hrun] at hspec
    obtain ⟨k, hk, hlt, hslots⟩ := hspec
    have herr : ∃ k, left = some k ∧ k ≤ (sources s n).length ∧ slots name disk.dir =
        shifted (((sources s n).take k).getLastD (n + 1)) (n + 1) s := ⟨k, hk, hlt.le, hslots⟩
    simpa [bind, EStateM.bind, hrun] using herr
  | ok u disk =>
    rw [hrun] at hspec
    obtain ⟨hslots, hleft, hlen⟩ := hspec
    have hlook : disk.dir.lookup name = some bs := by
      have : slots name disk.dir 0 = some bs := by rw [hslots, shifted_below (by omega), hlive]
      exact this
    have hmoved : slots name (moveFile (fileName name 0) (fileName name 1) bs disk.dir) = shifted 0 (n + 1) s :=
      slots_moveLive (by omega) hslots hlive
    rcases hl : disk.left with _ | _ | k
    · simpa [bind, EStateM.bind, hrun, replace, attempt, hlook, hl] using hmoved
    · -- the move of the live file raises, so all moves before it are done
      have herr : ∃ k, left = some k ∧ k ≤ (sources s n).length ∧ slots name disk.dir =
          shifted (((sources s n).take k).getLastD (n + 1)) (n + 1) s := by
        rw [hl] at hleft
        obtain ⟨k, hk, hk0⟩ := Option.map_eq_some_iff.1 hleft.symm
        have := hlen k hk
        refine ⟨k, hk, by omega, ?_⟩
        rw [List.take_of_length_le (by omega), shifted_getLastD (Nat.le_refl _), hslots]
      simpa [bind, EStateM.bind, hrun, replace, attempt, hlook, hl] using herr
    · simpa [bind, EStateM.bind, hrun, replace, attempt, hlook, hl] using hmoved

theorem full_eq_true {j : JsonlJournal} (h : full j d = true) :
    ∃ bs, slots j.path d 0 = some bs ∧ j.maxBytes ≤ bs.length := by
  unfold full at h
  cases hlook : d.lookup j.path with
  | none => rw [hlook] at h; cases h
  | some bs =>
    rw [hlook] at h
    exact ⟨bs, hlook, by simpa using h⟩

private theorem rotateIfFull_not_full {j : JsonlJournal} {left : Option Nat} (h : full j d = false) :
    (rotateIfFull j).run ⟨d, left⟩ = .ok () ⟨d, left⟩ := by
  unfold full at h
  cases hlook : d.lookup j.path with
  | none => simp [rotateIfFull, fileSize, hlook, EStateM.run, bind, EStateM.bind, pure, EStateM.pure]
  | some bs =>
    rw [hlook] at h
    have hlt : bs.length < j.maxBytes := by simpa using h
    simp [rotateIfFull, fileSize, hlook, hlt, EStateM.run, bind, EStateM.bind, pure, EStateM.pure]

private theorem rotateIfFull_no_oldest {j : JsonlJournal} {left : Option Nat} (h : full j d = true)
    (hold : d.lookup (partName j.path j.maxFiles) = none) :
    (rotateIfFull j).run ⟨d, left⟩ =
      (shiftParts j.path (j.maxFiles - 1) >>= fun _ => replace j.path (partName j.path 1)) ⟨d, left⟩ := by
  obtain ⟨bs, hlook, hsize⟩ := full_eq_true h
  have hlook' : d.lookup j.path = some bs := hlook
  have hlt : ¬ bs.length < j.maxBytes := by omega
  simp [rotateIfFull, fileSize, fileExists, hlook', hlt, hold, EStateM.run, bind, EStateM.bind]

private theorem rotateIfFull_oldest {j : JsonlJournal} {left : Option Nat} {old : Bytes} (h : full j d = true)
    (hold : d.lookup (partName j.path j.maxFiles) = some old) (hl : left ≠ some 0) :
    (rotateIfFull j).run ⟨d, left⟩ =
      (shiftParts j.path (j.maxFiles - 1) >>= fun _ => replace j.path (partName j.path 1))
        ⟨d.erase (partName j.path j.maxFiles), left.map (· - 1)⟩ := by
  obtain ⟨bs, hlook, hsize⟩ := full_eq_true h
  have hlook' : d.lookup j.path = some bs := hlook
  have hlt : ¬ bs.length < j.maxBytes := by omega
  rcases left with _ | _ | k
  · simp [rotateIfFull, fileSize, fileExists, unlink, attempt, hlook', hlt, hold, EStateM.run, bind, EStateM.bind]
  · exact absurd rfl hl
  · simp [rotateIfFull, fileSize, fileExists, unlink, attempt, hlook', hlt, hold, EStateM.run, bind, EStateM.bind]

private theorem rotateIfFull_oldest_raises {j : JsonlJournal} {old : Bytes} (h : full j d = true)
    (hold : d.lookup (partName j.path j.maxFiles) = some old) :
    (rotateIfFull j).run ⟨d, some 0⟩ = .error .raised ⟨d, some 0⟩ := by
  obtain ⟨bs, hlook, hsize⟩ := full_eq_true h
  have hlook' : d.lookup j.path = some bs := hlook
  have hlt : ¬ bs.length < j.maxBytes := by omega
  simp [rotateIfFull, fileSize, fileExists, unlink, attempt, hlook', hlt, hold, EStateM.run, bind, EStateM.bind]

/-- The slots after a rotation that returns (`ok`) and after one that raises (`error`). -/
def Rotated (j : JsonlJournal) (d : Dir) (left : Option Nat) : EStateM.Result OSError Disk Unit → Prop
  | .ok _ disk => slots j.path disk.dir = shifted 0 (max 1 j.maxFiles) (slots j.path d)
  | .error _ disk => ∃ k, left = some k ∧ (1 ≤ j.maxFiles → k ≤ (sources (slots j.path d) j.maxFiles).length) ∧
      slots j.path disk.dir = afterMoves (slots j.path d) j.maxFiles k

/-- Nothing is kept: the part removed is no part of the chain, and the live file replaces part 1. -/
private theorem rotated_of_full_zero {j : JsonlJournal} {left : Option Nat} (h : full j d = true)
    (hm : j.maxFiles = 0) : Rotated j d left ((rotateIfFull j).run ⟨d, left⟩) := by
  obtain ⟨bs, hlive, -⟩ := full_eq_true h
  have hafter : ∀ k, afterMoves (slots j.path d) j.maxFiles k = slots j.path d := by
    intro k
    rw [hm]
    simp [afterMoves, sources]
  have hother : ∀ i, partName j.path j.maxFiles ≠ fileName j.path i := by
    intro i he
    rw [hm] at he
    unfold fileName at he
    split at he
    · exact partName_ne _ _ he
    · exact absurd (partName_inj he) (by omega)
  have hreplace : ∀ (d' : Dir) (left' : Option Nat), slots j.path d' = slots j.path d →
      (left' = some 0 → ∃ k, left = some k) →
      Rotated j d left ((shiftParts j.path (j.maxFiles - 1) >>= fun _ => replace j.path (partName j.path 1))
        ⟨d', left'⟩) := by
    intro d' left' hd' hl'
    have hlook : d'.lookup j.path = some bs := by
      have : slots j.path d' 0 = some bs := by rw [hd', hlive]
      exact this
    have hmoved : slots j.path (moveFile j.path (partName j.path 1) bs d') =
        shifted 0 (max 1 j.maxFiles) (slots j.path d) := by
      have hslots := slots_moveFile j.path d' 0 1 bs
      rw [fileName_zero] at hslots
      refine hslots.trans ?_
      rw [hd', hm]
      funext i
      rcases i with _ | _ | i
      · rfl
      · rw [Function.update_self]
        exact hlive.symm
      · rfl
    rw [hm]
    rcases left' with _ | _ | k
    · simpa [Rotated, shiftParts, bind, EStateM.bind, pure, EStateM.pure, replace, attempt, hlook] using hmoved
    · obtain ⟨k, hk⟩ := hl' rfl
      have herr : Rotated j d left (.error .raised ⟨d', some 0⟩) := ⟨k, hk, by omega, by rw [hd', hafter]⟩
      simpa [shiftParts, bind, EStateM.bind, pure, EStateM.pure, replace, attempt, hlook] using herr
    · simpa [Rotated, shiftParts, bind, EStateM.bind, pure, EStateM.pure, replace, attempt, hlook] using hmoved
  cases hold : d.lookup (partName j.path j.maxFiles) with
  | none =>
    rw [rotateIfFull_no_oldest h hold]
    exact hreplace d left rfl fun hl => ⟨0, hl⟩
  | some old =>
    by_cases hl : left = some 0
    · subst hl
      rw [rotateIfFull_oldest_raises h hold]
      exact ⟨0, rfl, fun _ => Nat.zero_le _, (hafter 0).symm⟩
    · rw [rotateIfFull_oldest h hold hl]
      refine hreplace _ _ (slots_erase_other hother) ?_
      intro hl'
      obtain ⟨k, hk, -⟩ := Option.map_eq_some_iff.1 hl'
      exact ⟨k, hk⟩

/-- Without the oldest part, the slots are those that are shifted from it on. -/
private theorem slots_erase_top (name : String) (n : Nat) :
    slots name (d.erase (partName name (n + 1))) = shifted (n + 1) (n + 1) (slots name d) := by
  have hslots := slots_erase name d (n + 1)
  refine hslots.trans ?_
  funext i
  rcases Nat.lt_trichotomy i (n + 1) with hi | rfl | hi
  · rw [Function.update_of_ne (by omega), shifted_below hi]
  · rw [Function.update_self, shifted_self]
  · rw [Function.update_of_ne (by omega), shifted_above hi (Nat.le_refl _)]

private theorem rotated_of_full_succ {j : JsonlJournal} {left : Option Nat} {n : Nat} (h : full j d = true)
    (hn : j.maxFiles = n + 1) : Rotated j d left ((rotateIfFull j).run ⟨d, left⟩) := by
  obtain ⟨bs, hlive, -⟩ := full_eq_true h
  have hmax : max 1 j.maxFiles = n + 1 := by omega
  have hpred : j.maxFiles - 1 = n := by omega
  cases hold : d.lookup (partName j.path j.maxFiles) with
  | none =>
    have hnone : slots j.path d (n + 1) = none := by
      rw [hn] at hold
      exact hold
    have hspec := shift_and_replace_spec left hlive (shifted_top_absent hnone).symm
    rw [rotateIfFull_no_oldest h hold, hpred]
    cases hrun : (shiftParts j.path n >>= fun _ => replace j.path (partName j.path 1)) ⟨d, left⟩ with
    | ok u disk =>
      rw [hrun] at hspec
      rw [Rotated, hmax]
      exact hspec
    | error e disk =>
      rw [hrun] at hspec
      obtain ⟨k, hk, hle, hslots⟩ := hspec
      refine ⟨k, hk, ?_, ?_⟩
      · rw [hn, sources, hnone]
        exact fun _ => hle
      · rw [hn, afterMoves_loop hnone]
        exact hslots
  | some old =>
    have hsome : slots j.path d (n + 1) = some old := by
      rw [hn] at hold
      exact hold
    by_cases hl : left = some 0
    · subst hl
      rw [rotateIfFull_oldest_raises h hold]
      exact ⟨0, rfl, fun _ => Nat.zero_le _, rfl⟩
    have hgone : slots j.path (d.erase (partName j.path j.maxFiles)) =
        shifted (n + 1) (n + 1) (slots j.path d) := by
      rw [hn]
      exact slots_erase_top j.path n
    have hspec := shift_and_replace_spec (left.map (· - 1)) hlive hgone
    rw [rotateIfFull_oldest h hold hl, hpred]
    cases hrun : (shiftParts j.path n >>= fun _ => replace j.path (partName j.path 1))
        ⟨d.erase (partName j.path j.maxFiles), left.map (· - 1)⟩ with
    | ok u disk =>
      rw [hrun] at hspec
      rw [Rotated, hmax]
      exact hspec
    | error e disk =>
      rw [hrun] at hspec
      obtain ⟨k, hk, hle, hslots⟩ := hspec
      obtain ⟨k', hk', rfl⟩ := Option.map_eq_some_iff.1 hk
      have hk0 : k' ≠ 0 := by
        rintro rfl
        exact hl hk'
      obtain ⟨i, rfl⟩ : ∃ i, k' = i + 1 := ⟨k' - 1, by omega⟩
      refine ⟨i + 1, hk', ?_, ?_⟩
      · rw [hn, sources, hsome]
        exact fun _ => Nat.succ_le_succ hle
      · rw [hn, afterMoves_unlinked hsome]
        exact hslots

private theorem rotated_of_full {j : JsonlJournal} {left : Option Nat} (h : full j d = true) :
    Rotated j d left ((rotateIfFull j).run ⟨d, left⟩) := by
  cases hn : j.maxFiles with
  | zero => exact rotated_of_full_zero h hn
  | succ n => exact rotated_of_full_succ h hn

/-- The parts moved by the first `k` operations go down to some part `c`, from which on the slots are shifted. -/
theorem afterMoves_cases (s : Slots Bytes) (m k : Nat) :
    afterMoves s m k = s ∧ (sources s m).take k = [] ∨
      ∃ c ∈ (sources s m).take k, (∀ i ∈ (sources s m).take k, c ≤ i) ∧ afterMoves s m k = shifted c m s := by
  have hsorted : ∀ n, (sources s n).Pairwise (· > ·) := by
    intro n
    induction n with
    | zero => exact List.Pairwise.nil
    | succ n ih =>
      rw [sources]
      split
      · refine List.Pairwise.cons ?_ ih
        intro i hi
        have := (mem_sources.1 hi).2.1
        omega
      · exact ih
  have htake := (hsorted m).sublist (List.take_sublist k _)
  unfold afterMoves
  cases hlast : ((sources s m).take k).getLast? with
  | none => exact Or.inl ⟨rfl, List.getLast?_eq_none_iff.1 hlast⟩
  | some c =>
    right
    obtain ⟨front, hfront⟩ := List.getLast?_eq_some_iff.1 hlast
    refine ⟨c, by rw [hfront]; simp, ?_, rfl⟩
    intro i hi
    rw [hfront] at hi htake
    rcases List.mem_append.1 hi with hi | hi
    · have := (List.pairwise_append.1 htake).2.2 i hi c List.mem_cons_self
      omega
    · rw [List.mem_singleton] at hi
      omega

/-- A rotation changes nothing when the live file is below its bound; otherwise it is a rotation of the slots, or
the first `k` operations of one. -/
theorem rotateIfFull_spec (j : JsonlJournal) (d : Dir) (left : Option Nat) :
    if full j d then Rotated j d left ((rotateIfFull j).run ⟨d, left⟩)
    else (rotateIfFull j).run ⟨d, left⟩ = .ok () ⟨d, left⟩ := by
  cases h : full j d with
  | true => exact rotated_of_full h
  | false => exact rotateIfFull_not_full h

end IronHarness.Journal
