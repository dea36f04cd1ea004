import IronHarness.Lib.JsonChars
import IronHarness.Lib.JsonCut
import IronHarness.Lib.Lines

/-!
# Objects written one on a line and read with `str.splitlines`

A loader prepares every line, skips the blank ones, drops the objects it does not keep and counts the lines that are no
objects.  It returns the objects written, in order and with none counted, exactly when no string or key in them has one
of the separators U+0085, U+2028 and U+2029, which the printer leaves as they are and `str.splitlines` cuts at
(`load_text_iff`).  A cut object is never read as another one that matters: a loader that keeps only objects with some
proper key returns those that are not cut (`load_text_kept`).
-/

namespace JsonLines

open JsonText TextLines

variable {F : Type}

/-- A dictionary as the list of its fields. -/
abbrev Fields (F : Type) := List (String × Value F)

variable [JsonFloat F]

def load (prep : Line → Line) (keep : Fields F → Bool) : List Line → List (Fields F) × Nat
  | [] => ([], 0)
  | line :: rest =>
    if isBlank (prep line) then load prep keep rest
    else
      match loads (prep line) with
      | some (.obj fields) =>
        if keep fields then (fields :: (load prep keep rest).1, (load prep keep rest).2) else load prep keep rest
      | _ => ((load prep keep rest).1, (load prep keep rest).2 + 1)

/-- The text of objects, each on a line of its own. -/
def text (rows : List (Fields F)) : List Char := join (rows.map fun row => dumps (.obj row))

/-- A preparation of lines that leaves whole objects and at most shortens what starts like one. -/
structure Prep (prep : Line → Line) : Prop where
  object : ∀ t, prep ('{' :: (t ++ ['}'])) = '{' :: (t ++ ['}'])
  front : ∀ t, ∃ t', prep ('{' :: t) = '{' :: t' ∧ t' <+: t

theorem prep_id : Prep id := ⟨fun _ => rfl, fun t => ⟨t, rfl, List.prefix_rfl⟩⟩

theorem prep_strip : Prep strip where
  object := by
    intro t
    have hlast : isSpace '}' = false := by decide
    unfold strip
    rw [List.dropWhile_cons_of_neg (by decide), ← List.cons_append]
    exact List.rdropWhile_concat_neg _ _ _ (by rw [hlast]; exact Bool.false_ne_true)
  front := by
    intro t
    unfold strip
    rw [List.dropWhile_cons_of_neg (by decide)]
    have hfront : List.rdropWhile isSpace ('{' :: t) <+: '{' :: t := List.rdropWhile_prefix _ _
    cases hrest : List.rdropWhile isSpace ('{' :: t) with
    | nil =>
      have hbrace := List.rdropWhile_eq_nil_iff.1 hrest '{' List.mem_cons_self
      exact absurd hbrace (by decide)
    | cons c t' =>
      rw [hrest, List.cons_prefix_cons] at hfront
      rw [hfront.1]
      exact ⟨t', rfl, hfront.2⟩

/-! ### Printed objects -/

private theorem dumpsFields_last (fields : Fields F) : ∃ t, dumpsFields fields = t ++ ['}'] := by
  induction fields with
  | nil => exact ⟨[], rfl⟩
  | cons f fields ih =>
    obtain ⟨t, ht⟩ := ih
    refine ⟨',' :: ' ' :: (quote f.1 ++ (':' :: ' ' :: (dumps f.2 ++ t))), ?_⟩
    rw [dumpsFields, ht]
    simp

theorem dumps_obj_braces (fields : Fields F) : ∃ t, dumps (.obj fields) = '{' :: (t ++ ['}']) := by
  match fields with
  | [] => exact ⟨[], by rw [dumps]; rfl⟩
  | (k, v) :: fields =>
    obtain ⟨t, ht⟩ := dumpsFields_last fields
    refine ⟨quote k ++ (':' :: ' ' :: (dumps v ++ t)), ?_⟩
    rw [dumps, ht]
    simp

theorem isBlank_brace (t : Line) : isBlank ('{' :: t) = false := by
  rw [isBlank, List.all_cons, show isSpace '{' = false by decide, Bool.false_and]

theorem plain_lines (rows : List (Fields F)) : ∀ l ∈ rows.map fun row => dumps (.obj row), Plain l := by
  intro l hl
  obtain ⟨row, -, rfl⟩ := List.mem_map.1 hl
  exact dumps_no_control _

theorem isSeparator_ascii (c : Char) (hc : c.toNat < 0x80) : isSeparator c = false := by
  rw [Bool.eq_false_iff]
  intro hsep
  simp only [isSeparator, Bool.or_eq_true, beq_iff_eq] at hsep
  rcases hsep with (rfl | rfl) | rfl <;> revert hc <;> decide

/-- A string or a key of the object contains a separator. -/
def hasSeparator (row : Fields F) : Bool := (Value.obj row).anyChar isSeparator

theorem dumps_any_separator (row : Fields F) : (dumps (.obj row)).any isSeparator = hasSeparator row :=
  dumps_any isSeparator_ascii _

theorem no_separators {rows : List (Fields F)} (h : ∀ row ∈ rows, hasSeparator row = false) :
    ∀ l ∈ rows.map (fun row => dumps (.obj row)), ∀ c ∈ l, isSeparator c = false := by
  intro l hl c hc
  obtain ⟨row, hrow, rfl⟩ := List.mem_map.1 hl
  have hnone := h row hrow
  rw [← dumps_any_separator, List.any_eq_false] at hnone
  exact Bool.eq_false_iff.2 (hnone c hc)

/-! ### Loading -/

variable {prep : Line → Line} {keep : Fields F → Bool}

theorem load_append (a b : List Line) :
    load prep keep (a ++ b) = ((load prep keep a).1 ++ (load prep keep b).1, (load prep keep a).2 + (load prep keep b).2) := by
  induction a with
  | nil => simp [load]
  | cons l a ih =>
    rw [List.cons_append, load, load, ih]
    split
    · rfl
    · split
      · split
        · rfl
        · rfl
      · simp only [Prod.mk.injEq, true_and]
        omega

theorem load_rows (hprep : Prep prep) {rows : List (Fields F)} (hnodup : ∀ row ∈ rows, (Value.obj row).keysNodup) :
    load prep keep (rows.map fun row => dumps (.obj row)) = (rows.filter keep, 0) := by
  induction rows with
  | nil => rfl
  | cons row rows ih =>
    obtain ⟨t, ht⟩ := dumps_obj_braces row
    have hrow : prep (dumps (.obj row)) = dumps (.obj row) := by
      rw [ht]
      exact hprep.object t
    have hblank : isBlank (dumps (.obj row)) = false := by
      rw [ht]
      exact isBlank_brace _
    have hload : loads (dumps (.obj row)) = some (.obj row) := by
      have h := loads_dumps (hnodup row List.mem_cons_self) (List.forall_mem_nil _)
      rwa [List.append_nil] at h
    rw [List.map_cons, load, hrow, hblank, hload, ih fun row' h => hnodup row' (List.mem_cons_of_mem row h)]
    by_cases hkeep : keep row = true
    · simp [hkeep]
    · simp [hkeep]

/-- The front of a list up to its first element with a property. -/
theorem exists_first {α : Type} {p : α → Bool} {l : List α} (h : l.any p = true) :
    ∃ front x back, l = front ++ x :: back ∧ (∀ y ∈ front, p y = false) ∧ p x = true := by
  induction l with
  | nil => cases h
  | cons y l ih =>
    by_cases hy : p y = true
    · exact ⟨[], y, l, rfl, List.forall_mem_nil _, hy⟩
    · rw [List.any_cons, Bool.or_eq_true, or_iff_right hy] at h
      obtain ⟨front, x, back, rfl, hfront, hx⟩ := ih h
      refine ⟨y :: front, x, back, rfl, ?_, hx⟩
      exact List.forall_mem_cons.2 ⟨Bool.eq_false_iff.2 hy, hfront⟩

/-- A line cut at its first separator is counted. -/
theorem bad_of_separator (hprep : Prep prep) {row : Fields F} (hnodup : (Value.obj row).keysNodup)
    (hsep : hasSeparator row = true) (r : List Char) :
    0 < (load prep keep (splitlines (dumps (.obj row) ++ r))).2 := by
  rw [← dumps_any_separator] at hsep
  obtain ⟨front, sep, back, hline, hfront, hsep⟩ := exists_first hsep
  have hplain : Plain front := by
    intro c hc
    apply dumps_no_control (Value.obj row) c
    rw [hline]
    exact List.mem_append_left _ hc
  -- the front starts with the brace of the object, so it is neither blank nor a JSON text
  obtain ⟨t, ht⟩ : ∃ t, front = '{' :: t := by
    obtain ⟨t, hbraces⟩ := dumps_obj_braces row
    rw [hbraces] at hline
    cases front with
    | nil =>
      obtain ⟨rfl, -⟩ := List.cons.inj hline
      exact absurd hsep (by decide)
    | cons c front =>
      obtain ⟨rfl, -⟩ := List.cons.inj hline
      exact ⟨front, rfl⟩
  obtain ⟨t', ht', hpre⟩ := hprep.front t
  have hload : (loads ('{' :: t') : Option (Value F)) = none := by
    obtain ⟨s, hs⟩ := hpre
    apply loads_cut_obj (q := s ++ sep :: back) hnodup
    · rw [hline, ht, ← hs]
      simp
    · exact List.cons_ne_nil _ _
    · exact List.append_ne_nil_of_right_ne_nil _ (List.cons_ne_nil _ _)
  rw [hline, List.append_assoc, List.cons_append, splitlines_cut hplain hfront hsep, load, ht, ht', isBlank_brace, hload]
  exact Nat.succ_pos _

/-- Rows survive the text exactly when no string in them has a separator. -/
theorem load_text_iff (hprep : Prep prep) {rows : List (Fields F)}
    (hnodup : ∀ row ∈ rows, (Value.obj row).keysNodup) :
    load prep keep (splitlines (universal (text rows))) = (rows.filter keep, 0) ↔
      ∀ row ∈ rows, hasSeparator row = false := by
  unfold text
  rw [universal_join (plain_lines rows)]
  constructor
  · intro hload
    by_contra hsome
    have hany : rows.any hasSeparator = true := by
      simpa [List.any_eq_true] using hsome
    obtain ⟨before, row, after, rfl, hbefore, hsep⟩ := exists_first hany
    have hjoin : join ((before ++ row :: after).map fun row => dumps (.obj row)) =
        join (before.map fun row => dumps (.obj row)) ++
          (dumps (.obj row) ++ '\n' :: join (after.map fun row => dumps (.obj row))) := by
      rw [List.map_append, join_append, List.map_cons]
      simp [join]
    have hbad := @bad_of_separator _ _ _ keep hprep _ (hnodup row (by simp)) hsep
      ('\n' :: join (after.map fun row => dumps (.obj row)))
    rw [hjoin, splitlines_join_append (plain_lines before) (no_separators hbefore), load_append] at hload
    have hzero := congrArg Prod.snd hload
    dsimp only at hzero
    omega
  · intro hnone
    rw [splitlines_join (plain_lines rows) (no_separators hnone), load_rows hprep hnodup]

/-! ### Objects that are cut -/

/-- What is kept has a key that the rest of a cut object cannot have. -/
def ProperKey (keep : Fields F → Bool) : Prop := ∀ fields, (∀ f ∈ fields, Inverted f.1) → keep fields = false

private theorem load_skip {line : Line} {rest : List Line}
    (h : ∀ fields, loads line = some (.obj fields) → keep fields = false) :
    (load id keep (line :: rest)).1 = (load id keep rest).1 := by
  rw [load, id]
  split
  · rfl
  · split
    · rw [h _ ‹_›, if_neg Bool.false_ne_true]
    · rfl

private theorem splitlines_line {line : Line} (hplain : Plain line) (hnone : ∀ c ∈ line, isSeparator c = false)
    (r : List Char) :
    splitlines (line ++ '\n' :: r) = line :: splitlines r := by
  have hlines := @splitlines_join_append [line] (by simpa using hplain) (by simpa using hnone) r
  simpa [join] using hlines

private theorem separator_not_ascii {c : Char} (hc : isSeparator c = true) : 0x80 ≤ c.toNat := by
  by_contra hlt
  rw [isSeparator_ascii c (by omega)] at hc
  cases hc

/-- Nothing is kept of a text that starts inside a literal. -/
theorem load_inside (hkeep : ProperKey keep) {q : Line} (hplain : Plain q) (hfits : fits .inside q = true)
    (r : List Char) : (load id keep (splitlines (q ++ '\n' :: r))).1 = (load id keep (splitlines r)).1 := by
  induction hlen : q.length using Nat.strong_induction_on generalizing q with
  | _ n ih =>
    have hline : ∀ p : Line, fits .inside p = true → ∀ fields, loads p = some (.obj fields) → keep fields = false :=
      fun p hp fields hload => hkeep fields (loads_inside hp hload)
    cases hany : q.any isSeparator with
    | false =>
      have hnone : ∀ c ∈ q, isSeparator c = false := fun c hc => Bool.eq_false_iff.2 (List.any_eq_false.1 hany c hc)
      rw [splitlines_line hplain hnone, load_skip (hline q hfits)]
    | true =>
      obtain ⟨front, sep, back, rfl, hfront, hsep⟩ := exists_first hany
      have hplain_front : Plain front := fun c hc => hplain c (List.mem_append_left _ hc)
      have hplain_back : Plain back := fun c hc => hplain c (List.mem_append_right _ (List.mem_cons_of_mem sep hc))
      have hshort : back.length < n := by
        rw [List.length_append, List.length_cons] at hlen
        omega
      rw [List.append_assoc, List.cons_append, splitlines_cut hplain_front hfront hsep,
        load_skip (hline front (fits_front hfits))]
      exact ih back.length hshort hplain_back (fits_cut (separator_not_ascii hsep) hfits) rfl

/-- Nothing is kept of an object with a separator. -/
theorem load_separated (hkeep : ProperKey keep) {row : Fields F} (hnodup : (Value.obj row).keysNodup)
    (hsep : hasSeparator row = true) (r : List Char) :
    (load id keep (splitlines (dumps (.obj row) ++ '\n' :: r))).1 = (load id keep (splitlines r)).1 := by
  rw [← dumps_any_separator] at hsep
  obtain ⟨front, sep, back, hline, hfront, hsep⟩ := exists_first hsep
  have hplain : Plain (front ++ sep :: back) := by
    rw [← hline]
    exact dumps_no_control _
  have hfits : fits .outside (front ++ sep :: back) = true := by
    have h := fits_dumps (Value.obj row) (r := []) rfl rfl
    rwa [List.append_nil, hline] at h
  have hcut : ∀ fields : Fields F, loads front = some (.obj fields) → keep fields = false := by
    intro fields hload
    have hnone : (loads front : Option (Value F)) = none := by
      cases front with
      | nil => rfl
      | cons c front => exact loads_cut_obj hnodup hline (List.cons_ne_nil _ _) (List.cons_ne_nil _ _)
    rw [hnone] at hload
    cases hload
  rw [hline, List.append_assoc, List.cons_append,
    splitlines_cut (fun c hc => hplain c (List.mem_append_left _ hc)) hfront hsep, load_skip hcut]
  exact load_inside hkeep (fun c hc => hplain c (List.mem_append_right _ (List.mem_cons_of_mem sep hc)))
    (fits_cut (separator_not_ascii hsep) hfits) r

/-- A loader that keeps objects with a proper key returns those without a separator. -/
theorem load_text_kept (hkeep : ProperKey keep) {rows : List (Fields F)}
    (hnodup : ∀ row ∈ rows, (Value.obj row).keysNodup) :
    (load id keep (splitlines (universal (text rows)))).1 = rows.filter fun row => keep row && !hasSeparator row := by
  unfold text
  rw [universal_join (plain_lines rows)]
  induction rows with
  | nil => rfl
  | cons row rows ih =>
    have hrest := ih fun row' h => hnodup row' (List.mem_cons_of_mem row h)
    have hjoin : join ((row :: rows).map fun row => dumps (.obj row)) =
        dumps (.obj row) ++ '\n' :: join (rows.map fun row => dumps (.obj row)) := by
      simp [join]
    rw [hjoin]
    cases hsep : hasSeparator row with
    | true =>
      rw [load_separated hkeep (hnodup row List.mem_cons_self) hsep, hrest, List.filter_cons_of_neg]
      rw [hsep, Bool.not_true, Bool.and_false]
      exact Bool.false_ne_true
    | false =>
      have hone : ∀ row' ∈ [row], hasSeparator row' = false := by simpa using hsep
      have hnone := no_separators hone _ (List.mem_singleton.2 rfl)
      have hrow := @load_rows _ _ _ keep prep_id [row] (by simpa using hnodup row List.mem_cons_self)
      rw [splitlines_line (dumps_no_control _) hnone, ← List.singleton_append, load_append, hrest]
      rw [List.map_singleton] at hrow
      rw [hrow, List.filter_cons, List.filter_cons, hsep, Bool.not_false, Bool.and_true]
      split <;> rfl

end JsonLines
