import Mathlib.Data.List.Basic

/-!
# Tagged segments

A text that was put together from segments, each with a tag.  `tagAt` is the tag of the segment a position lies in
(`tagAt_eq_some_iff`); it does not change when further segments are added (`tagAt_append`).  The segments left when the
text is cut are those of what is left of the text (`flatMap_cutFrom`).
-/

namespace Segments

variable {τ α : Type}

/-- The loop over the segments, `seen` characters into the text. -/
def tagFrom (seen : Nat) (pos : Nat) : List (τ × List α) → Option τ
  | [] => none
  | (tag, segment) :: rest =>
    let seen := seen + segment.length
    if pos < seen then some tag else tagFrom seen pos rest

/-- The tag of the segment that holds the position. -/
def tagAt (pos : Nat) (segments : List (τ × List α)) : Option τ := tagFrom 0 pos segments

private theorem tagFrom_append {seen pos : Nat} {segments : List (τ × List α)} {tag : τ}
    (h : tagFrom seen pos segments = some tag) (more : List (τ × List α)) :
    tagFrom seen pos (segments ++ more) = some tag := by
  induction segments generalizing seen with
  | nil => cases h
  | cons segment rest ih =>
    simp only [tagFrom, List.cons_append] at h ⊢
    split
    · rename_i hpos
      simpa [hpos] using h
    · rename_i hpos
      exact ih (by simpa [hpos] using h)

theorem tagAt_append {pos : Nat} {segments : List (τ × List α)} {tag : τ} (h : tagAt pos segments = some tag)
    (more : List (τ × List α)) : tagAt pos (segments ++ more) = some tag :=
  tagFrom_append h more

private theorem tagFrom_eq_some_iff {seen pos : Nat} {segments : List (τ × List α)} {tag : τ} (h : seen ≤ pos) :
    tagFrom seen pos segments = some tag ↔ ∃ before segment after, segments = before ++ (tag, segment) :: after ∧
      seen + (before.flatMap (·.2)).length ≤ pos ∧ pos < seen + (before.flatMap (·.2)).length + segment.length := by
  induction segments generalizing seen with
  | nil => simp [tagFrom]
  | cons first rest ih =>
    obtain ⟨tag', segment'⟩ := first
    rw [tagFrom]
    by_cases hin : pos < seen + segment'.length
    · rw [if_pos hin, Option.some.injEq]
      constructor
      · rintro rfl
        exact ⟨[], segment', rest, rfl, h, hin⟩
      · rintro ⟨before, segment, after, heq, hlow, -⟩
        cases before with
        | nil => exact congrArg Prod.fst (List.cons.inj heq).1
        | cons b before =>
          obtain ⟨rfl, -⟩ := List.cons.inj heq
          simp only [List.flatMap_cons, List.length_append] at hlow
          omega
    · rw [if_neg hin, ih (by omega)]
      constructor
      · rintro ⟨before, segment, after, rfl, hlow, hhigh⟩
        refine ⟨(tag', segment') :: before, segment, after, rfl, ?_, ?_⟩
        · simp only [List.flatMap_cons, List.length_append]
          omega
        · simp only [List.flatMap_cons, List.length_append]
          omega
      · rintro ⟨before, segment, after, heq, hlow, hhigh⟩
        cases before with
        | nil =>
          obtain ⟨heq, -⟩ := List.cons.inj heq
          obtain ⟨-, rfl⟩ := Prod.mk.inj heq
          simp only [List.flatMap_nil, List.length_nil] at hhigh
          omega
        | cons b before =>
          obtain ⟨rfl, rfl⟩ := List.cons.inj heq
          simp only [List.flatMap_cons, List.length_append] at hlow hhigh
          exact ⟨before, segment, after, rfl, by omega, by omega⟩

/-- The tag of a position is that of the segment that contains it. -/
theorem tagAt_eq_some_iff {pos : Nat} {segments : List (τ × List α)} {tag : τ} :
    tagAt pos segments = some tag ↔ ∃ before segment after, segments = before ++ (tag, segment) :: after ∧
      (before.flatMap (·.2)).length ≤ pos ∧ pos < (before.flatMap (·.2)).length + segment.length := by
  unfold tagAt
  rw [tagFrom_eq_some_iff (Nat.zero_le pos)]
  simp only [Nat.zero_add]

private theorem tagFrom_isSome {seen pos : Nat} {segments : List (τ × List α)} (hseen : seen ≤ pos)
    (h : pos < seen + (segments.flatMap (·.2)).length) : (tagFrom seen pos segments).isSome = true := by
  induction segments generalizing seen with
  | nil =>
    simp only [List.flatMap_nil, List.length_nil] at h
    omega
  | cons segment rest ih =>
    rw [tagFrom]
    by_cases hin : pos < seen + segment.2.length
    · rw [if_pos hin]
      rfl
    · rw [if_neg hin]
      rw [List.flatMap_cons, List.length_append] at h
      exact ih (by omega) (by omega)

/-- Every position of the text has a tag. -/
theorem tagAt_isSome {pos : Nat} {segments : List (τ × List α)} (h : pos < (segments.flatMap (·.2)).length) :
    (tagAt pos segments).isSome = true :=
  tagFrom_isSome (Nat.zero_le pos) (by omega)

/-- The segments of the text from the position on, `seen` characters into it. -/
def cutFrom (pos seen : Nat) : List (τ × List α) → List (τ × List α)
  | [] => []
  | (tag, segment) :: rest =>
    let segmentEnd := seen + segment.length
    if pos < segmentEnd then (tag, segment.drop (pos - seen)) :: cutFrom pos segmentEnd rest
    else cutFrom pos segmentEnd rest

theorem flatMap_cutFrom (pos seen : Nat) (segments : List (τ × List α)) :
    (cutFrom pos seen segments).flatMap (·.2) = (segments.flatMap (·.2)).drop (pos - seen) := by
  induction segments generalizing seen with
  | nil => simp [cutFrom]
  | cons segment rest ih =>
    obtain ⟨tag, segment⟩ := segment
    have hrest : pos - (seen + segment.length) = pos - seen - segment.length := by omega
    rw [cutFrom, List.flatMap_cons, List.drop_append, ← hrest]
    split
    · rw [List.flatMap_cons, ih]
    · have hgone : segment.drop (pos - seen) = [] := List.drop_eq_nil_of_le (by omega)
      rw [ih, hgone, List.nil_append]

/-- The tags kept are in their old order. -/
theorem tags_cutFrom (pos seen : Nat) (segments : List (τ × List α)) :
    ((cutFrom pos seen segments).map Prod.fst).Sublist (segments.map Prod.fst) := by
  induction segments generalizing seen with
  | nil => exact List.Sublist.slnil
  | cons segment rest ih =>
    obtain ⟨tag, segment⟩ := segment
    rw [cutFrom]
    split
    · exact (ih _).cons_cons tag
    · exact (ih _).cons tag

end Segments
