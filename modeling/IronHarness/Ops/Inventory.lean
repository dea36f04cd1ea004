import IronHarness.Ops.Arms

/-!
# The reported inventory

`OpsJudge._check_inventory_match` (ironbench/ops_judge.py): the report is the last match of a regular expression in the
transcript.  The matches of a transcript are those of its texts (`inventories_transcript`), and what the tools arm
writes as JSON has none that is a report (`report_dumps`).  So a run of the tools arm that ends with the claim tool is
judged by the inventory of the claim only where another text of the run reports the same one behind all other matches
(`same_report_iff`).
-/

namespace IronHarness.Ops

open ByteText JsonText TextLines

/-! ### The check -/

/-- `INVENTORY:\s*(\{.*\})` at the front of a text: the group and the length of the match. -/
def inventoryAt (text : Text) : Option (Text × Nat) :=
  (afterWord "INVENTORY:".toList text).bind fun rest =>
    let body := rest.dropWhile isSpace
    match body.takeWhile (· != '\n') with
    | [] => none
    | c :: more =>
      if c = '{' ∧ '}' ∈ more then
        some (c :: more.rdropWhile (· != '}'), text.length - body.length + (more.rdropWhile (· != '}')).length + 1)
      else none

/-- `_INVENTORY_RE.findall`; the number counts the characters that are left of a match. -/
def inventories : Nat → Text → List Text
  | _, [] => []
  | skip + 1, _ :: cs => inventories skip cs
  | 0, c :: cs =>
    match inventoryAt (c :: cs) with
    | some (group, length) => group :: inventories (length - 1) cs
    | none => inventories 0 cs

/-- What the check takes for the report. -/
inductive Report (F : Type)
  | missing
  | notJson
  | notObject
  | object (fields : Fields F)

section

variable {F : Type} [JsonFloat F]

def readReport (group : Text) : Report F :=
  match loads group with
  | none => .notJson
  | some (.obj fields) => .object fields
  | some _ => .notObject

def report (text : Text) : Report F :=
  match (inventories 0 text).getLast? with
  | none => .missing
  | some group => readReport group

end

/-! ### Matches of a text in parts -/

private theorem afterWord_break {word a b : Text} {x : Char} (hx : x ∉ word) :
    afterWord word (a ++ x :: b) = (afterWord word a).map (· ++ x :: b) := by
  have hiff : word <+: a ++ x :: b ↔ word <+: a := by
    constructor
    · intro h
      by_cases hle : word.length ≤ a.length
      · exact List.prefix_of_prefix_length_le h (List.prefix_append ..) hle
      · have hmem : a ++ [x] <+: word := by
          apply List.prefix_of_prefix_length_le _ h
          · rw [List.length_append, List.length_singleton]
            omega
          · rw [← List.singleton_append (x := x) (l := b), ← List.append_assoc]
            exact List.prefix_append _ b
        exact absurd (hmem.subset (by simp)) hx
    · intro h
      exact h.trans (List.prefix_append ..)
  unfold afterWord
  by_cases h : word <+: a
  · rw [if_pos (List.isPrefixOf_iff_prefix.2 (hiff.2 h)), if_pos (List.isPrefixOf_iff_prefix.2 h),
      List.drop_append_of_le_length h.length_le]
    rfl
  · rw [if_neg fun hp => h (hiff.1 (List.isPrefixOf_iff_prefix.1 hp)),
      if_neg fun hp => h (List.isPrefixOf_iff_prefix.1 hp)]
    rfl

/-- What may follow a newline without being the object of a report above it. -/
def NoBrace (b : Text) : Prop := (b.dropWhile isSpace).head? ≠ some '{'

private theorem inventoryAt_break {a b : Text} (hb : NoBrace b) : inventoryAt (a ++ '\n' :: b) = inventoryAt a := by
  unfold inventoryAt
  rw [afterWord_break (by decide)]
  cases hword : afterWord "INVENTORY:".toList a with
  | none => rfl
  | some rest =>
    simp only [Option.map_some, Option.bind_some]
    have hbreak : isSpace '\n' = true := by decide
    by_cases hspace : rest.dropWhile isSpace = []
    · have hdrop : (rest ++ '\n' :: b).dropWhile isSpace = b.dropWhile isSpace := by
        rw [List.dropWhile_append, hspace, List.isEmpty_nil, if_pos rfl, List.dropWhile_cons_of_pos hbreak]
      rw [hdrop, hspace]
      unfold NoBrace at hb
      cases hbody : b.dropWhile isSpace with
      | nil => rfl
      | cons c cs =>
        rw [hbody] at hb
        have hc : c ≠ '{' := fun h => hb (by rw [h]; rfl)
        rw [List.takeWhile_cons]
        split
        · rename_i heq
          rfl
        · rename_i c' more heq
          by_cases hline : (c != '\n') = true
          · rw [if_pos hline] at heq
            obtain ⟨rfl, -⟩ := List.cons.inj heq
            rw [if_neg fun h => hc h.1]
            rfl
          · rw [if_neg hline] at heq
            cases heq
    · have hdrop : (rest ++ '\n' :: b).dropWhile isSpace = rest.dropWhile isSpace ++ '\n' :: b := by
        rw [List.dropWhile_append, if_neg (by simpa using hspace)]
      have htake : (rest.dropWhile isSpace ++ '\n' :: b).takeWhile (· != '\n') =
          (rest.dropWhile isSpace).takeWhile (· != '\n') := by
        rw [List.takeWhile_append]
        split
        · rw [List.takeWhile_cons_of_neg (by simp), List.append_nil]
          rename_i hall
          exact ((List.takeWhile_prefix _).eq_of_length hall).symm
        · rfl
      rw [hdrop, htake, List.length_append, List.length_append, Nat.add_sub_add_right]

/-- A match is a word, white space and a text in braces on one line. -/
private theorem inventoryAt_eq_some {text group : Text} {n : Nat} (h : inventoryAt text = some (group, n)) :
    ∃ space more tail, text = "INVENTORY:".toList ++ (space ++ (('{' :: more) ++ tail)) ∧
      (∀ c ∈ space, isSpace c = true) ∧ '}' ∈ more ∧ (tail = [] ∨ tail.head? = some '\n') ∧
      group = '{' :: more.rdropWhile (· != '}') ∧ n = text.length - ('{' :: more ++ tail).length + group.length := by
  obtain ⟨rest, hrest, hmatch⟩ := Option.bind_eq_some_iff.1 h
  have htext := afterWord_eq_some hrest
  dsimp only at hmatch
  split at hmatch
  · cases hmatch
  · rename_i c more hline
    split at hmatch
    · rename_i hbrace
      obtain ⟨rfl, hclosed⟩ := hbrace
      obtain ⟨rfl, rfl⟩ := Prod.mk.inj (Option.some.inj hmatch)
      have hbody : rest.dropWhile isSpace = ('{' :: more) ++ (rest.dropWhile isSpace).dropWhile (· != '\n') := by
        rw [← hline, List.takeWhile_append_dropWhile]
      refine ⟨rest.takeWhile isSpace, more, (rest.dropWhile isSpace).dropWhile (· != '\n'), ?_, ?_, hclosed, ?_, rfl, ?_⟩
      · rw [← hbody, List.takeWhile_append_dropWhile, htext]
      · intro c hc
        exact List.mem_takeWhile_imp hc
      · cases htail : (rest.dropWhile isSpace).dropWhile (· != '\n') with
        | nil => exact Or.inl rfl
        | cons d tail =>
          have hd := List.head_dropWhile_not (p := fun c => c != '\n') (l := rest.dropWhile isSpace) (by rw [htail]; simp)
          simp only [htail, List.head_cons] at hd
          exact Or.inr (by simpa using hd)
      · rw [← hbody, List.length_cons]
        omega
    · cases hmatch

private theorem inventoryAt_length {text group : Text} {n : Nat} (h : inventoryAt text = some (group, n)) :
    n ≤ text.length := by
  obtain ⟨space, more, tail, htext, -, -, -, rfl, rfl⟩ := inventoryAt_eq_some h
  have hinner := (List.rdropWhile_prefix (p := fun c => c != '}') (l := more)).length_le
  have hwhole := congrArg List.length htext
  simp only [List.length_append, List.length_cons] at hwhole ⊢
  omega

theorem inventories_of_length {cs : Text} {skip : Nat} (h : cs.length ≤ skip) : inventories skip cs = [] := by
  induction cs generalizing skip with
  | nil => cases skip <;> rfl
  | cons c cs ih =>
    obtain ⟨skip, rfl⟩ : ∃ k, skip = k + 1 := ⟨skip - 1, by simp only [List.length_cons] at h; omega⟩
    rw [inventories]
    exact ih (by simpa using h)

private theorem inventories_of_none {c : Char} {cs : Text} (h : inventoryAt (c :: cs) = none) :
    inventories 0 (c :: cs) = inventories 0 cs := by
  rw [inventories, h]

theorem inventories_break {a b : Text} (hb : NoBrace b) {skip : Nat} (hskip : skip ≤ a.length) :
    inventories skip (a ++ '\n' :: b) = inventories skip a ++ inventories 0 b := by
  induction a generalizing skip with
  | nil =>
    obtain rfl : skip = 0 := by simpa using hskip
    exact inventories_of_none rfl
  | cons c a ih =>
    cases skip with
    | succ skip => exact ih (by simpa using hskip)
    | zero =>
      have hsame := inventoryAt_break (a := c :: a) hb
      rw [List.cons_append] at hsame ⊢
      rw [inventories, inventories, hsame]
      cases hat : inventoryAt (c :: a) with
      | none => exact ih (Nat.zero_le _)
      | some found =>
        obtain ⟨group, n⟩ := found
        have hn := inventoryAt_length hat
        dsimp only
        rw [ih (by simp only [List.length_cons] at hn; omega)]
        rfl

/-- A line without a `V` has no part in a match. -/
private theorem inventories_header {a b : Text} (ha : 'V' ∉ a) : inventories 0 (a ++ '\n' :: b) = inventories 0 b := by
  have hnone : ∀ c d : Text, 'V' ∉ c → inventoryAt (c ++ '\n' :: d) = none := by
    intro c d hc
    unfold inventoryAt
    rw [afterWord_break (by decide)]
    cases hword : afterWord "INVENTORY:".toList c with
    | none => rfl
    | some rest =>
      rw [afterWord_eq_some hword] at hc
      exact absurd (List.mem_append_left rest (by decide)) hc
  induction a with
  | nil =>
    have hfirst := hnone [] b ha
    exact inventories_of_none hfirst
  | cons c a ih =>
    have hfirst := hnone (c :: a) b ha
    rw [List.cons_append] at hfirst ⊢
    rw [inventories_of_none hfirst]
    exact ih fun h => ha (List.mem_cons_of_mem c h)

/-! ### Matches of a transcript -/

def Turn.texts (t : Turn) : List Text := [t.content, t.observation]

def Turn.block (t : Turn) : Text :=
  t.header ++ '\n' :: (t.content ++ if t.observation = [] then [] else
    '\n' :: ("--- observation ---".toList ++ '\n' :: t.observation))

private theorem header_plain (t : Turn) : 'V' ∉ t.header := by
  have hname : 'V' ∉ t.kind.name := by cases t.kind <;> decide
  have hdigits : 'V' ∉ Nat.toDigits 10 t.iteration := by
    intro h
    have hdigit := Nat.isDigit_of_mem_toDigits (by decide) (by decide) h
    exact absurd hdigit (by decide)
  unfold Turn.header
  simp only [List.mem_append, not_or]
  exact ⟨⟨⟨⟨by decide, hdigits⟩, by decide⟩, hname⟩, by decide⟩

private theorem inventories_block (t : Turn) : inventories 0 t.block = t.texts.flatMap (inventories 0) := by
  unfold Turn.block Turn.texts
  rw [inventories_header (header_plain t)]
  by_cases hobs : t.observation = []
  · rw [if_pos hobs, List.append_nil, hobs]
    simp [inventories]
  · have hnoBrace : NoBrace ("--- observation ---".toList ++ '\n' :: t.observation) := by
      show (some '-') ≠ some '{'
      decide
    rw [if_neg hobs, inventories_break hnoBrace (Nat.zero_le _), inventories_header (by decide)]
    simp

private theorem lines_block (t : Turn) : List.intercalate ['\n'] t.lines = t.block ∧
    ∀ rest, rest ≠ [] → List.intercalate ['\n'] (t.lines ++ rest) = t.block ++ '\n' :: List.intercalate ['\n'] rest := by
  have hline : "--- observation ---\n".toList = "--- observation ---".toList ++ ['\n'] := by decide
  unfold Turn.lines Turn.block
  rw [hline]
  generalize "--- observation ---".toList = mark
  generalize t.header = header
  by_cases hobs : t.observation = []
  · rw [if_pos hobs, if_pos hobs]
    constructor
    · simp [List.intercalate_cons_cons]
    · intro rest hrest
      simp [List.intercalate_cons_of_ne_nil hrest, List.intercalate_cons_cons]
  · rw [if_neg hobs, if_neg hobs]
    constructor
    · simp [List.intercalate_cons_cons]
    · intro rest hrest
      simp [List.intercalate_cons_of_ne_nil hrest, List.intercalate_cons_cons]

private theorem lines_ne_nil (turns : List Turn) (h : turns ≠ []) : turns.flatMap Turn.lines ≠ [] := by
  cases turns with
  | nil => exact absurd rfl h
  | cons t turns =>
    rw [List.flatMap_cons]
    exact List.append_ne_nil_of_left_ne_nil (List.cons_ne_nil _ _) _

private theorem transcript_singleton (t : Turn) : transcript [t] = t.block := by
  rw [transcript, List.flatMap_singleton]
  exact (lines_block t).1

private theorem transcript_cons (t : Turn) {turns : List Turn} (h : turns ≠ []) :
    transcript (t :: turns) = t.block ++ '\n' :: transcript turns := by
  rw [transcript, List.flatMap_cons]
  exact (lines_block t).2 _ (lines_ne_nil turns h)

private theorem transcript_noBrace {turns : List Turn} (h : turns ≠ []) : NoBrace (transcript turns) := by
  have hblock : ∀ (t : Turn) (rest : Text), NoBrace (t.block ++ rest) := by
    intro t rest
    show (some '=') ≠ some '{'
    decide
  cases turns with
  | nil => exact absurd rfl h
  | cons t turns =>
    by_cases hlast : turns = []
    · rw [hlast, transcript_singleton, ← List.append_nil t.block]
      exact hblock t []
    · rw [transcript_cons t hlast]
      exact hblock t _

/-- No match of a transcript goes beyond one text of one turn. -/
theorem inventories_transcript (turns : List Turn) :
    inventories 0 (transcript turns) = (turns.flatMap Turn.texts).flatMap (inventories 0) := by
  induction turns with
  | nil => rfl
  | cons t turns ih =>
    rw [List.flatMap_cons, List.flatMap_append]
    by_cases hlast : turns = []
    · rw [hlast, transcript_singleton, inventories_block]
      simp
    · rw [transcript_cons t hlast, inventories_break (transcript_noBrace hlast) (Nat.zero_le _), inventories_block, ih]

private theorem getLast?_flatMap {α β : Type} (f : α → List β) (l : List α) :
    (l.flatMap f).getLast? = ((l.filter fun x => !(f x).isEmpty).getLast?).bind fun x => (f x).getLast? := by
  induction l using List.reverseRecOn with
  | nil => rfl
  | append_singleton l x ih =>
    rw [List.flatMap_append, List.filter_append, List.flatMap_singleton]
    by_cases hx : f x = []
    · simp [hx, ih]
    · have hlast : ((f x).getLast?).isSome := by simpa using hx
      obtain ⟨y, hy⟩ := Option.isSome_iff_exists.1 hlast
      simp [hx, hy, List.getLast?_append]

/-- The last of some texts that has a match. -/
def lastReporting {α : Type} (text : α → Text) (pieces : List α) : Option α :=
  (pieces.filter fun p => !(inventories 0 (text p)).isEmpty).getLast?

section

variable {F : Type} [JsonFloat F]

/-- The report of a transcript is that of the last text in it with a match. -/
theorem report_transcript {α : Type} {text : α → Text} {pieces : List α} {turns : List Turn}
    (h : turns.flatMap Turn.texts = pieces.map text) :
    (report (transcript turns) : Report F) =
      match lastReporting text pieces with
      | none => .missing
      | some piece => report (text piece) := by
  have hlast := getLast?_flatMap (fun p => inventories 0 (text p)) pieces
  unfold report
  rw [inventories_transcript, h, List.flatMap_map, hlast]
  unfold lastReporting
  cases (pieces.filter fun p => !(inventories 0 (text p)).isEmpty).getLast? with
  | none => rfl
  | some piece => rfl

/-! ### JSON is no report -/

private theorem mem_inventories {group text : Text} {skip : Nat} (h : group ∈ inventories skip text) :
    ∃ front back n, text = front ++ back ∧ inventoryAt back = some (group, n) := by
  induction text generalizing skip with
  | nil => simp [inventories] at h
  | cons c cs ih =>
    have hlater : ∀ k, group ∈ inventories k cs →
        ∃ front back n, c :: cs = front ++ back ∧ inventoryAt back = some (group, n) := by
      intro k hk
      obtain ⟨front, back, n, rfl, hback⟩ := ih hk
      exact ⟨c :: front, back, n, rfl, hback⟩
    cases skip with
    | succ skip => exact hlater skip h
    | zero =>
      cases hat : inventoryAt (c :: cs) with
      | none =>
        rw [inventories_of_none hat] at h
        exact hlater 0 h
      | some found =>
        obtain ⟨group', n⟩ := found
        rw [inventories, hat] at h
        rcases List.mem_cons.1 h with rfl | h
        · exact ⟨[], c :: cs, n, rfl, hat⟩
        · exact hlater _ h

private theorem isSpace_bare {c : Char} (h : isSpace c = true) : c ≠ '"' ∧ c ≠ '\\' := by
  constructor
  · rintro rfl
    exact absurd h (by decide)
  · rintro rfl
    exact absurd h (by decide)

/-- A match in an object that is written as JSON starts in one of its strings, so it does not read as JSON. -/
private theorem loads_match_dumps {fields : Fields F} {group : Text}
    (h : group ∈ inventories 0 (dumpsAscii (.obj fields))) :
    (loads group : Option (Value F)) = none := by
  obtain ⟨front, back, n, htext, hback⟩ := mem_inventories h
  obtain ⟨space, more, tail, rfl, hspace, hclosed, htail, rfl, -⟩ := inventoryAt_eq_some hback
  have hprinted : printed .outside (dumpsAscii (.obj fields) ++ nextKey) = true :=
    printed_dumpsAscii (.obj fields) rfl (by decide)
  -- the value is one line, so the match goes on to its end
  obtain rfl : tail = [] := by
    rcases htail with hnil | hline
    · exact hnil
    · cases tail with
      | nil => cases hline
      | cons d tail =>
        obtain rfl : d = '\n' := Option.some.inj hline
        have hvisible := visible_of_printed hprinted '\n' (by rw [htext]; simp)
        exact absurd hvisible (by decide)
  have hwhole : more.rdropWhile (· != '}') = more := by
    obtain ⟨t, ht⟩ := dumpsAscii_obj_last fields
    have hlast : more.getLast? = some '}' := by
      have hne : more ≠ [] := List.ne_nil_of_mem hclosed
      have hboth := congrArg List.getLast? (htext.symm.trans ht)
      simpa [List.getLast?_append, List.getLast?_cons, List.getLast?_eq_some_getLast hne] using hboth
    rw [List.rdropWhile_eq_self_iff]
    intro hne
    rw [List.getLast?_eq_some_getLast hne] at hlast
    rw [Option.some.inj hlast]
    decide
  rw [htext, List.append_nil, List.append_assoc] at hprinted
  obtain ⟨ph, hword⟩ := printed_append hprinted
  rw [List.append_assoc] at hword
  have hinside := fits_of_printed (inside_of_word (bare_of_all (by decide)) ⟨'V', by decide, by decide⟩ hword)
  rw [List.append_assoc, fits_inside_append (fun c hc => isSpace_bare (hspace c hc))] at hinside
  rw [hwhole]
  exact loads_rest_eq_none hinside

theorem report_dumps (fields reported : Fields F) : report (dumpsAscii (.obj fields)) ≠ .object reported := by
  unfold report
  cases hlast : (inventories 0 (dumpsAscii (.obj fields))).getLast? with
  | none => simp
  | some group =>
    have hnone := loads_match_dumps (List.mem_of_getLast? hlast)
    simp [readReport, hnone]

end

end IronHarness.Ops
