import IronHarness.Mqtt.Broker

/-!
# Topic filters

`topic_matches` walks over the levels of the pattern with an index and leaves the loop early.  What a filter means is
the relation `Matches` on lists of levels; the loop decides it (`topicMatchesLoop_iff`), and so does the recursion that
the broker's model uses.
-/

namespace IronHarness.Mqtt

abbrev Level := List Char

def multi : Level := ['#']

def single : Level := ['+']

/-- The loop of `topic_matches` from the level `i` of the pattern on; `rest` is what is left of the pattern. -/
def levelLoop (pattern topic : List Level) : Nat → List Level → Bool
  | _, [] => pattern.length == topic.length
  | i, p :: rest =>
    if p = multi then i == pattern.length - 1
    else
      match topic[i]? with
      | none => false
      | some t => if p ≠ single ∧ p ≠ t then false else levelLoop pattern topic (i + 1) rest

/-- `topic_matches`, as the loop that it is -/
def topicMatchesLoop (pattern topic : Topic) : Bool :=
  levelLoop (levels pattern) (levels topic) 0 (levels pattern)

/-- What a filter means: `#` at the end takes all the levels that are left, `+` takes one. -/
inductive Matches : List Level → List Level → Prop
  | done : Matches [] []
  | tail (topic : List Level) : Matches [multi] topic
  | any {pattern topic : List Level} (t : Level) : Matches pattern topic → Matches (single :: pattern) (t :: topic)
  | same {pattern topic : List Level} {l : Level} :
      l ≠ multi → Matches pattern topic → Matches (l :: pattern) (l :: topic)

private theorem matches_nil_iff {topic : List Level} : Matches [] topic ↔ topic = [] := by
  constructor
  · rintro ⟨⟩
    rfl
  · rintro rfl
    exact .done

private theorem matches_multi_iff {pattern topic : List Level} : Matches (multi :: pattern) topic ↔ pattern = [] := by
  constructor
  · intro h
    cases h with
    | tail => rfl
    | same hl => exact absurd rfl hl
  · rintro rfl
    exact .tail topic

private theorem not_matches_end {p : Level} (hp : p ≠ multi) (pattern : List Level) : ¬ Matches (p :: pattern) [] := by
  intro h
  cases h with
  | tail => exact hp rfl

private theorem matches_cons_iff {p t : Level} (hp : p ≠ multi) {pattern topic : List Level} :
    Matches (p :: pattern) (t :: topic) ↔ (p = single ∨ p = t) ∧ Matches pattern topic := by
  constructor
  · intro h
    cases h with
    | tail => exact absurd rfl hp
    | any _ h => exact ⟨.inl rfl, h⟩
    | same _ h => exact ⟨.inr rfl, h⟩
  · rintro ⟨rfl | rfl, h⟩
    · exact .any t h
    · exact .same hp h

/-- The recursion of the broker's model decides the relation. -/
private theorem levelsMatch_iff (pattern topic : List Level) :
    levelsMatch pattern topic = true ↔ Matches pattern topic := by
  induction pattern generalizing topic with
  | nil =>
    rw [matches_nil_iff, levelsMatch, List.isEmpty_iff]
  | cons p pattern ih =>
    unfold levelsMatch
    by_cases hp : p = ['#']
    · subst hp
      rw [if_pos rfl, List.isEmpty_iff]
      exact matches_multi_iff.symm
    · rw [if_neg hp]
      cases topic with
      | nil => simpa using not_matches_end hp pattern
      | cons t topic =>
        rw [matches_cons_iff hp, ← ih]
        simp [single]

/-- The loop at the level `i` compares what is left of the pattern with what is left of the topic. -/
private theorem levelLoop_eq (front rest before after : List Level) (h : front.length = before.length) :
    levelLoop (front ++ rest) (before ++ after) front.length rest = levelsMatch rest after := by
  induction rest generalizing front before after with
  | nil =>
    rw [levelLoop, levelsMatch, List.append_nil, List.length_append, h]
    cases after with
    | nil => simp
    | cons t after => simp
  | cons p rest ih =>
    -- the test on the index asks whether this level is the last
    have hlast : (front.length == (front ++ p :: rest).length - 1) = rest.isEmpty := by
      cases rest with
      | nil => simp
      | cons q rest =>
        rw [List.isEmpty_cons, beq_eq_false_iff_ne, List.length_append, List.length_cons, List.length_cons]
        omega
    unfold levelLoop levelsMatch
    by_cases hp : p = multi
    · rw [if_pos hp, if_pos (show p = ['#'] from hp), hlast]
    · rw [if_neg hp, if_neg (show ¬ p = ['#'] from hp)]
      cases after with
      | nil => simp [h]
      | cons t after =>
        have ht : (before ++ t :: after)[front.length]? = some t := by
          rw [h, List.getElem?_append_right (Nat.le_refl _), Nat.sub_self]
          rfl
        rw [ht]
        -- the loop goes on with one more level behind it on both sides
        have hnext := ih (front ++ [p]) (before ++ [t]) after (by simp [h])
        simp only [List.append_assoc, List.singleton_append, List.length_append, List.length_singleton] at hnext
        by_cases hlevel : p = single ∨ p = t
        · have hgo : ¬ (p ≠ single ∧ p ≠ t) := fun hboth => hlevel.elim hboth.1 hboth.2
          have htest : (p == ['+'] || p == t) = true := by simpa [single] using hlevel
          simp only [if_neg hgo, hnext, htest, Bool.true_and]
        · obtain ⟨hsingle, hsame⟩ := not_or.1 hlevel
          have htest : (p == ['+'] || p == t) = false := by simpa [single] using hlevel
          simp only [if_pos (And.intro hsingle hsame), htest, Bool.false_and]

/-- The loop is the matching that the broker's model uses. -/
private theorem topicMatchesLoop_eq (pattern topic : Topic) :
    topicMatchesLoop pattern topic = topicMatches pattern topic :=
  levelLoop_eq [] (levels pattern) [] (levels topic) rfl

/-- The loop decides what a filter means. -/
theorem topicMatchesLoop_iff (pattern topic : Topic) :
    topicMatchesLoop pattern topic = true ↔ Matches (levels pattern) (levels topic) := by
  rw [topicMatchesLoop_eq]
  exact levelsMatch_iff _ _

/-- `#` takes the level it stands behind, too. -/
example : topicMatchesLoop "a/+/#".toList "a/".toList = true ∧ topicMatchesLoop "a/#/b".toList "a".toList = false := by
  decide

end IronHarness.Mqtt
