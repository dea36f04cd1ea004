import Mathlib.Data.List.Infix

/-!
# Replacing words in a text

`replace` puts a text in the place of every occurrence of a word, from left to right (`str.replace`); `fill` does so for
several words in one pass, each with a value of its own, and never looks into what it has put in (`filled_fill`).
-/

namespace TextReplace

section

variable {α : Type} [DecidableEq α]

/-! ### One word -/

/-- `text.replace(old, new)`, where `skip` items of an occurrence are still to be passed over. -/
def replaceFrom (old new : List α) : Nat → List α → List α
  | _, [] => []
  | skip + 1, _ :: cs => replaceFrom old new skip cs
  | 0, c :: cs =>
    if old.isPrefixOf (c :: cs) then new ++ replaceFrom old new (old.length - 1) cs
    else c :: replaceFrom old new 0 cs

/-- `text.replace(old, new)`, for a word that is not empty. -/
def replace (old new text : List α) : List α := replaceFrom old new 0 text

/-- What replacing does, occurrence by occurrence. -/
inductive Replaced (old new : List α) : List α → List α → Prop
  | nil : Replaced old new [] []
  | hit {r s : List α} (h : Replaced old new r s) : Replaced old new (old ++ r) (new ++ s)
  | miss {c : α} {r s : List α} (hmiss : ¬ old <+: c :: r) (h : Replaced old new r s) :
      Replaced old new (c :: r) (c :: s)

variable {old new : List α}

private theorem replaceFrom_eq (skip : Nat) (text : List α) :
    replaceFrom old new skip text = replace old new (text.drop skip) := by
  induction text generalizing skip with
  | nil => cases skip <;> rfl
  | cons c cs ih =>
    cases skip with
    | zero => rfl
    | succ skip => exact ih skip

theorem replace_miss {c : α} {cs : List α} (h : ¬ old <+: c :: cs) :
    replace old new (c :: cs) = c :: replace old new cs := by
  rw [← List.isPrefixOf_iff_prefix] at h
  rw [replace, replaceFrom, if_neg h]
  rfl

theorem replace_hit (hne : old ≠ []) (r : List α) : replace old new (old ++ r) = new ++ replace old new r := by
  obtain ⟨c, tail, rfl⟩ := List.exists_cons_of_ne_nil hne
  have hpre : (c :: tail).isPrefixOf (c :: (tail ++ r)) = true := List.isPrefixOf_iff_prefix.2 (List.prefix_append _ _)
  rw [List.cons_append, replace, replaceFrom, if_pos hpre, replaceFrom_eq, List.length_cons, Nat.add_sub_cancel,
    List.drop_left]

theorem replaced_replace (hne : old ≠ []) (text : List α) : Replaced old new text (replace old new text) := by
  induction hn : text.length using Nat.strong_induction_on generalizing text with
  | _ n ih =>
    cases text with
    | nil => exact .nil
    | cons c cs =>
      by_cases hpre : old <+: c :: cs
      · obtain ⟨r, hr⟩ := hpre
        have hlen : r.length < n := by
          have := List.length_pos_iff.2 hne
          rw [← hn, ← hr, List.length_append]
          omega
        rw [← hr, replace_hit hne]
        exact .hit (ih r.length hlen r rfl)
      · rw [replace_miss hpre]
        exact .miss hpre (ih cs.length (by rw [← hn]; exact Nat.lt_succ_self _) cs rfl)

/-- A text without the first item of the word is passed over. -/
theorem replace_append {mark : α} {tail a : List α} (ha : mark ∉ a) (b : List α) :
    replace (mark :: tail) new (a ++ b) = a ++ replace (mark :: tail) new b := by
  induction a with
  | nil => rfl
  | cons c a ih =>
    rw [List.mem_cons, not_or] at ha
    have hmiss : ¬ mark :: tail <+: c :: (a ++ b) := by
      rw [List.cons_prefix_cons]
      exact fun h => ha.1 h.1
    rw [List.cons_append, replace_miss hmiss, ih ha.2, List.cons_append]

/-- No occurrence goes across an item that is not in the word. -/
theorem replace_stop (hne : old ≠ []) {stop : α} (hstop : stop ∉ old) (a b : List α) :
    replace old new (a ++ stop :: b) = replace old new a ++ stop :: replace old new b := by
  have hbound : ∀ {t : List α}, old <+: t ++ stop :: b → old <+: t := by
    intro t h
    rcases Nat.le_total old.length t.length with hlen | hlen
    · exact List.prefix_of_prefix_length_le h (List.prefix_append t _) hlen
    · rcases Nat.eq_or_lt_of_le hlen with hlen | hlen
      · exact List.prefix_of_prefix_length_le h (List.prefix_append t _) hlen.symm.le
      · have hfront : t ++ [stop] <+: old := by
          apply List.prefix_of_prefix_length_le _ h (by simpa using Nat.succ_le_of_lt hlen)
          exact ⟨b, by simp⟩
        exact absurd (hfront.subset (by simp)) hstop
  have hgo : ∀ {t s : List α}, Replaced old new t s →
      replace old new (t ++ stop :: b) = s ++ stop :: replace old new b := by
    intro t s h
    induction h with
    | nil =>
      have hmiss : ¬ old <+: stop :: b := fun h => hne (List.prefix_nil.1 (hbound (t := []) h))
      rw [List.nil_append, replace_miss hmiss, List.nil_append]
    | hit h ih => rw [List.append_assoc, replace_hit hne, ih, List.append_assoc]
    | miss hmiss h ih =>
      have hmiss' := fun hpre => hmiss (hbound (by rwa [List.cons_append]))
      rw [List.cons_append, replace_miss hmiss', ih, List.cons_append]
  exact hgo (replaced_replace hne a)

omit [DecidableEq α] in
/-- What stands behind an occurrence of the first item stood there before. -/
theorem Replaced.prefix_of {mark : α} {word new t s : List α} (h : Replaced (mark :: word) (mark :: new) t s)
    {tail : List α} (hmark : mark ∉ tail) (hpre : tail <+: s) : tail <+: t := by
  induction h generalizing tail with
  | nil => exact hpre
  | hit h ih =>
    cases tail with
    | nil => exact List.nil_prefix
    | cons c tail =>
      rw [List.cons_append, List.cons_prefix_cons] at hpre
      rw [List.mem_cons, not_or] at hmark
      exact absurd hpre.1.symm hmark.1
  | miss hmiss h ih =>
    cases tail with
    | nil => exact List.nil_prefix
    | cons c tail =>
      rw [List.cons_prefix_cons] at hpre ⊢
      rw [List.mem_cons, not_or] at hmark
      exact ⟨hpre.1, ih hmark.2 hpre.2⟩

omit [DecidableEq α] in
private theorem infix_behind {mark : α} {tail front s : List α} (hfront : mark ∉ front)
    (h : mark :: tail <:+: front ++ s) : mark :: tail <:+: s := by
  induction front with
  | nil => exact h
  | cons c front ih =>
    rw [List.mem_cons, not_or] at hfront
    rw [List.cons_append, List.infix_cons_iff, List.cons_prefix_cons] at h
    rcases h with h | h
    · exact absurd h.1 hfront.1
    · exact ih hfront.2 h

omit [DecidableEq α] in
/-- A word that occurs nowhere but where the replaced word does, and that the new text does not start with, occurs no
more. -/
theorem Replaced.absent {mark c d : α} {word new tail t s : List α}
    (h : Replaced (mark :: word) (mark :: c :: new) t s) (hne : d ≠ c) (hnew : mark ∉ c :: new)
    (htail : mark ∉ d :: tail) (hword : ∀ u, u <:+ t → mark :: d :: tail <+: u → mark :: word <+: u) : ¬ mark :: d :: tail <:+: s := by
  induction h with
  | nil => simp
  | @hit r s h ih =>
    intro hinfix
    rw [List.cons_append, List.infix_cons_iff, List.cons_append, List.cons_prefix_cons, List.cons_prefix_cons] at hinfix
    rcases hinfix with hinfix | hinfix
    · exact hne hinfix.2.1
    · exact ih (fun u hu => hword u (hu.trans (List.suffix_append _ _))) (infix_behind hnew hinfix)
  | @miss e r s hmiss h ih =>
    rw [List.infix_cons_iff, not_or]
    constructor
    · intro hpre
      rw [List.cons_prefix_cons] at hpre
      obtain ⟨rfl, hpre⟩ := hpre
      have hback := h.prefix_of htail hpre
      exact hmiss (hword _ List.suffix_rfl (List.cons_prefix_cons.2 ⟨rfl, hback⟩))
    · exact ih fun u hu => hword u (hu.trans (List.suffix_cons _ _))

end

/-! ### Several words in one pass -/

section

variable {α τ : Type} [DecidableEq α]

/-- An occurrence of a word in a text. -/
structure Found (τ : Type) where
  start : Nat
  stop : Nat
  word : τ
  deriving DecidableEq, Repr

/-- The occurrences of the words from the position on, none inside another one; `skip` items of the last one are still
to be passed over.  Of two words at one position the first counts. -/
def finditer (words : List (τ × List α)) : Nat → Nat → List α → List (Found τ)
  | _, _, [] => []
  | pos, skip + 1, _ :: cs => finditer words (pos + 1) skip cs
  | pos, 0, c :: cs =>
    match words.find? fun word => word.2.isPrefixOf (c :: cs) with
    | some word => ⟨pos, pos + word.2.length, word.1⟩ :: finditer words (pos + 1) (word.2.length - 1) cs
    | none => finditer words (pos + 1) 0 cs

/-- The template from the position on, with the values in the place of what was found. -/
def fillFrom (value : τ → List α) (template : List α) : Nat → List (Found τ) → List α
  | pos, [] => template.drop pos
  | pos, found :: rest =>
    (template.drop pos).take (found.start - pos) ++ value found.word ++ fillFrom value template found.stop rest

def fill (words : List (τ × List α)) (value : τ → List α) (template : List α) : List α :=
  fillFrom value template 0 (finditer words 0 0 template)

/-- A template with the value of each of its own words in the place of the word: the first word that starts in it is
replaced, and so on behind it. -/
inductive Filled (words : List (τ × List α)) (value : τ → List α) : List α → List α → Prop
  | rest {template : List α} (hnone : ∀ word ∈ words, ¬ word.2 <:+: template) : Filled words value template template
  | word {front rest out : List α} {word : τ × List α} (hmem : word ∈ words)
      (hfirst : ∀ other ∈ words, ∀ pos < front.length, ¬ other.2 <+: (front ++ (word.2 ++ rest)).drop pos)
      (h : Filled words value rest out) :
      Filled words value (front ++ (word.2 ++ rest)) (front ++ (value word.1 ++ out))

variable {words : List (τ × List α)}

private theorem finditer_skip (pos skip : Nat) (text : List α) (h : skip ≤ text.length) :
    finditer words pos skip text = finditer words (pos + skip) 0 (text.drop skip) := by
  induction text generalizing pos skip with
  | nil =>
    obtain rfl : skip = 0 := by simpa using h
    rfl
  | cons c cs ih =>
    cases skip with
    | zero => rfl
    | succ skip =>
      rw [List.length_cons] at h
      rw [finditer, ih (pos + 1) skip (by omega), List.drop_succ_cons]
      congr 1
      omega

omit [DecidableEq α] in
private theorem starts_of_infix {word text : List α} (hne : word ≠ []) (h : word <:+: text) :
    ∃ i < text.length, word <+: text.drop i := by
  obtain ⟨front, back, rfl⟩ := h
  have hpos := List.length_pos_iff.2 hne
  refine ⟨front.length, ?_, ?_⟩
  · simp only [List.length_append]
    omega
  · rw [List.append_assoc, List.drop_left]
    exact List.prefix_append _ _

omit [DecidableEq α] in
private theorem starts_snoc {front text : List α} {c : α}
    (hfront : ∀ other ∈ words, ∀ i < front.length, ¬ other.2 <+: (front ++ c :: text).drop i)
    (hnone : ∀ other ∈ words, ¬ other.2 <+: c :: text) :
    ∀ other ∈ words, ∀ i < front.length + 1, ¬ other.2 <+: (front ++ c :: text).drop i := by
  intro other hmem i hi
  rcases Nat.lt_succ_iff_lt_or_eq.1 hi with hi | rfl
  · exact hfront other hmem i hi
  · rw [List.drop_left]
    exact hnone other hmem

theorem filled_fill (hne : ∀ word ∈ words, word.2 ≠ []) (value : τ → List α) (template : List α) :
    Filled words value template (fill words value template) := by
  -- no word starts in the part of the template that is behind the last word found and in front of the text
  have hgo : ∀ (n : Nat) (front text : List α) (pos : Nat), text.length = n → template.drop pos = front ++ text →
      (∀ other ∈ words, ∀ i < front.length, ¬ other.2 <+: (front ++ text).drop i) →
      Filled words value (front ++ text) (fillFrom value template pos (finditer words (pos + front.length) 0 text)) := by
    intro n
    induction n using Nat.strong_induction_on with
    | _ n ih =>
      intro front text pos hn hdrop hfront
      cases text with
      | nil =>
        rw [finditer, fillFrom, hdrop]
        apply Filled.rest
        intro word hmem hinfix
        obtain ⟨i, hi, hpre⟩ := starts_of_infix (hne word hmem) hinfix
        exact hfront word hmem i (by simpa using hi) hpre
      | cons c cs =>
        cases hfind : words.find? fun word => word.2.isPrefixOf (c :: cs) with
        | none =>
          have hnone : ∀ other ∈ words, ¬ other.2 <+: c :: cs := by
            intro other hmem hpre
            rw [List.find?_eq_none] at hfind
            exact hfind other hmem (List.isPrefixOf_iff_prefix.2 hpre)
          have hrest := ih cs.length (by rw [← hn, List.length_cons]; exact Nat.lt_succ_self _) (front ++ [c]) cs pos rfl
            (by simpa using hdrop) (by simpa using starts_snoc hfront hnone)
          rw [List.length_append, List.length_singleton, ← Nat.add_assoc, List.append_assoc,
            List.singleton_append] at hrest
          rw [finditer, hfind]
          exact hrest
        | some word =>
          have hmem := List.mem_of_find?_eq_some hfind
          have hpre : word.2.isPrefixOf (c :: cs) = true := by simpa using List.find?_some hfind
          obtain ⟨rest, hrest⟩ := List.isPrefixOf_iff_prefix.1 hpre
          have hpos := List.length_pos_iff.2 (hne word hmem)
          have hlen : word.2.length + rest.length = cs.length + 1 := by
            rw [← List.length_append, hrest, List.length_cons]
          rw [List.length_cons] at hn
          have hbehind : cs.drop (word.2.length - 1) = rest := by
            have hdrop := @List.drop_left _ word.2 rest
            rw [hrest] at hdrop
            obtain ⟨k, hk⟩ : ∃ k, word.2.length = k + 1 := ⟨word.2.length - 1, by omega⟩
            rw [hk, List.drop_succ_cons] at hdrop
            rwa [hk, Nat.add_sub_cancel]
          have hstop : template.drop (pos + front.length + word.2.length) = [] ++ rest := by
            rw [← List.drop_drop, ← List.drop_drop, hdrop, List.drop_left, ← hrest, List.drop_left]
            rfl
          rw [finditer, hfind]
          simp only
          rw [finditer_skip _ _ _ (by omega), hbehind, fillFrom, Nat.add_sub_cancel_left, hdrop, List.take_left,
            ← hrest, List.append_assoc]
          rw [← hrest] at hfront
          apply Filled.word hmem hfront
          have hfilled := ih rest.length (by omega) [] rest (pos + front.length + word.2.length) rfl hstop (by simp)
          rw [List.nil_append, List.length_nil] at hfilled
          convert hfilled using 3
          omega
  exact hgo template.length [] template 0 rfl rfl (by simp)

end

end TextReplace
