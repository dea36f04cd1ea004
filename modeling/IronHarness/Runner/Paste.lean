import IronHarness.Lib.LineEnds
import IronHarness.Lib.PyLex
import IronHarness.Runner.Echo

/-!
# The program that is pasted

What `_paste_code` (ironbench/runner_renode.py) leaves of the source that `_drive_repl` pastes.  It cuts the text at
every line boundary of `str.splitlines`, drops the lines that begin with `#` and ends the others with a newline, and
knows nothing of literals and continuations.  The walk over the lines of the source (`Clean`) says where that keeps
the tokens (`pasted_tokens_iff`).
-/

namespace IronHarness.Runner.Paste

open TextLines PyLex
open Renode (pasted)

/-! ### The lines of the source -/

/-- `line.lstrip().startswith("#")` -/
def isComment (line : Line) : Bool := ['#'].isPrefixOf (lstrip line)

/-- Lines that keep the tokens, from a state of the lexer on: every line ends in a newline; one that is dropped is
a comment; and behind a comment that stands where a backslash continues a line (`owed`), no token follows on that
line. -/
def Clean (owed : Bool) (s : State) : List Cut → Prop
  | [] => True
  | (line, ending) :: cuts =>
    (ending = ['\n'] ∨ ending = []) ∧
      if isComment line then
        s.mode = .code ∧ (∀ c ∈ line.takeWhile isSpace, PyLex.isBlank c = true) ∧
          Clean (owed || decide (s.pending = .space ∧ s.depth = 0)) (after s (line ++ ['\n'])) cuts
      else
        (owed = true → signs s line = []) ∧
          Clean (owed && decide ((after s line).mode = .slash)) (after s (line ++ ['\n'])) cuts

/-- The source, as it is read, keeps its tokens. -/
def CleanSource (code : List Char) : Prop := Clean false start (cutLines code)

/-- Outside of literals, the white space is blanks, tabs and newlines. -/
def PlainSpace (s : State) : List Char → Prop
  | [] => True
  | c :: text =>
    (s.mode.inside = false → isSpace c = true → c = ' ' ∨ c = '\t' ∨ c = '\n') ∧ PlainSpace (step s c).1 text

/-! ### The lines that are pasted -/

def keptLines (cuts : List Cut) : List Line := (cuts.map (·.1)).filter fun line => !isComment line

private theorem join_keptLines_cons (line ending : Line) (cuts : List Cut) :
    join (keptLines ((line, ending) :: cuts)) =
      (if isComment line then [] else line ++ ['\n']) ++ join (keptLines cuts) := by
  cases h : isComment line <;> simp [keptLines, join, h]

private theorem intercalate_join {lines : List Line} (h : lines ≠ []) :
    List.intercalate ['\n'] lines ++ ['\n'] = join lines := by
  induction lines with
  | nil => exact absurd rfl h
  | cons line lines ih =>
    cases lines with
    | nil => simp [join]
    | cons next lines =>
      have hrest := ih (List.cons_ne_nil next lines)
      rw [List.intercalate_cons_cons, List.append_assoc, List.append_assoc, hrest]
      simp [join]

/-- What is pasted is the lines that are kept, or a newline. -/
private theorem pasted_eq (code : List Char) :
    pasted code = if keptLines (cutLines code) = [] then ['\n'] else join (keptLines (cutLines code)) := by
  have hkept : ((splitlines code).filter fun line => !(['#'].isPrefixOf (lstrip line))) = keptLines (cutLines code) := by
    rw [keptLines, map_fst_cutLines]
    rfl
  rw [pasted, pasteCode, hkept]
  split
  · rename_i hnone
    rw [hnone]
    rfl
  · rename_i hsome
    exact intercalate_join hsome

private theorem ended_join (lines : List Line) : ended (join lines) = join lines := by
  rcases List.eq_nil_or_concat lines with rfl | ⟨front, line, rfl⟩
  · rfl
  · have hlast : join (front ++ [line]) = join front ++ line ++ ['\n'] := by simp [join]
    rw [List.concat_eq_append, hlast, ended_append _ (List.cons_ne_nil _ _)]
    rfl

private theorem signs_pasted (code : List Char) :
    signs start (ended (pasted code)) = signs start (join (keptLines (cutLines code))) := by
  rw [pasted_eq]
  split
  · rename_i hnone
    rw [hnone]
    rfl
  · rw [ended_join]

/-! ### The text that is read -/

private theorem newline_notMem {line : Line} (h : ∀ c ∈ line, isBoundary c = false) : '\n' ∉ line := by
  intro hmem
  exact absurd (h '\n' hmem) (by decide)

private theorem ended_last {line : Line} (hline : ∀ c ∈ line, isBoundary c = false) (hne : line ≠ []) :
    ended line = line ++ ['\n'] := by
  obtain ⟨front, c, rfl⟩ := (List.eq_nil_or_concat line).resolve_left hne
  have hc : c ≠ '\n' := by
    rintro rfl
    exact newline_notMem hline (by simp)
  rw [List.concat_eq_append, ended_append _ (List.cons_ne_nil _ _), ended, if_neg hc, List.append_assoc]
  rfl

private theorem ended_newline (line : Line) (cuts : List Cut) :
    ended (whole ((line, ['\n']) :: cuts)) = line ++ '\n' :: ended (whole cuts) := by
  have hwhole : whole ((line, ['\n']) :: cuts) = line ++ '\n' :: whole cuts := by simp
  rw [hwhole, ended_append _ (List.cons_ne_nil _ _)]
  cases whole cuts with
  | nil => rfl
  | cons c text => rfl

private theorem ended_boundary (line : Line) (b : Char) (cuts : List Cut) :
    ∃ text, ended (whole ((line, [b]) :: cuts)) = line ++ b :: text := by
  have hwhole : whole ((line, [b]) :: cuts) = line ++ b :: whole cuts := by simp
  rw [hwhole, ended_append _ (List.cons_ne_nil _ _)]
  cases whole cuts with
  | nil =>
    by_cases hb : b = '\n'
    · exact ⟨[], by simp [ended, hb]⟩
    · exact ⟨['\n'], by simp [ended, hb]⟩
  | cons c text => exact ⟨ended (c :: text), rfl⟩

/-! ### One line -/

/-- The state behind what is pasted, where that of the source owes a logical line. -/
def behind (owed : Bool) (s : State) : State := if owed then s.spaced else s

structure Owes (owed : Bool) (s : State) : Prop where
  atLine : AtLine s
  waiting : owed = true → Waiting s ∧ s.mode = .code

private theorem isComment_eq {line : Line} (h : isComment line = true) (hline : '\n' ∉ line) :
    ∃ rest, '\n' ∉ rest ∧ line = line.takeWhile isSpace ++ '#' :: rest := by
  obtain ⟨rest, hrest⟩ := List.isPrefixOf_iff_prefix.1 h
  have heq : line = line.takeWhile isSpace ++ '#' :: rest := by
    calc line = line.takeWhile isSpace ++ line.dropWhile isSpace := List.takeWhile_append_dropWhile.symm
      _ = line.takeWhile isSpace ++ '#' :: rest := by rw [← lstrip, ← hrest]; rfl
  refine ⟨rest, ?_, heq⟩
  intro hmem
  rw [heq] at hline
  exact hline (List.mem_append_right _ (List.mem_cons_of_mem _ hmem))

private theorem isComment_of_prefix {w : List Char} {line : Line} (hw : ∀ c ∈ w, isSpace c = true)
    (h : w ++ ['#'] <+: line) :
    isComment line = true := by
  obtain ⟨rest, rfl⟩ := h
  have hstrip : lstrip (w ++ ['#'] ++ rest) = '#' :: rest := by
    rw [lstrip, List.append_assoc, List.dropWhile_append_of_pos hw]
    rfl
  rw [isComment, hstrip]
  rfl

/-- A line that is kept, with the newline that is pasted behind it. -/
theorem Owes.quiet {owed : Bool} {s : State} (h : Owes owed s) {line : Line} (hline : '\n' ∉ line)
    (hquiet : owed = true → signs s line = []) :
    signs (behind owed s) line = signs s line ∧ after (behind owed s) line = behind owed (after s line) ∧
      (owed = true → Waiting (after s line)) := by
  cases owed with
  | false => exact ⟨rfl, rfl, fun howed => by cases howed⟩
  | true =>
    rcases (h.waiting rfl).1.line hline with ⟨hnone, hwaiting, hspaced, hafter⟩ | ⟨hsome, -⟩
    · exact ⟨hspaced.trans hnone.symm, hafter, fun _ => hwaiting⟩
    · exact absurd (hquiet rfl) hsome

private theorem newline_behind {owed : Bool} {s : State} (h : owed = true → Waiting s) :
    (step (behind owed s) '\n').2 = (step s '\n').2 ∧
      (step (behind owed s) '\n').1 = behind (owed && decide (s.mode = .slash)) (step s '\n').1 ∧
        Owes (owed && decide (s.mode = .slash)) (step s '\n').1 := by
  cases owed with
  | false => exact ⟨rfl, rfl, atLine_newline s, fun howed => by cases howed⟩
  | true =>
    obtain ⟨hnone, hspaced, hwaiting, hmode, hnext⟩ := (h rfl).newline
    refine ⟨hspaced.trans hnone.symm, ?_, atLine_newline s, fun _ => ⟨hwaiting, hmode⟩⟩
    rw [Bool.true_and, behind, behind, if_pos rfl, hnext]
    simp only [decide_eq_true_eq]

theorem Owes.kept {owed : Bool} {s : State} (h : Owes owed s) {line : Line} (hline : '\n' ∉ line)
    (hquiet : owed = true → signs s line = []) :
    signs (behind owed s) (line ++ ['\n']) = signs s (line ++ ['\n']) ∧
      after (behind owed s) (line ++ ['\n']) =
        behind (owed && decide ((after s line).mode = .slash)) (after s (line ++ ['\n'])) ∧
      Owes (owed && decide ((after s line).mode = .slash)) (after s (line ++ ['\n'])) := by
  obtain ⟨hsigns, hafter, hwaiting⟩ := h.quiet hline hquiet
  obtain ⟨hnewline, hnext, howes⟩ := newline_behind hwaiting
  simp only [signs_append, after_append, hsigns, hafter, signs, after, hnewline, hnext]
  exact ⟨trivial, trivial, howes⟩

/-- A line that is dropped where it is a comment. -/
theorem Owes.dropped {owed : Bool} {s : State} (h : Owes owed s) (hmode : s.mode = .code) {w text : List Char}
    (hw : ∀ c ∈ w, PyLex.isBlank c = true) (htext : '\n' ∉ text) :
    signs s (w ++ '#' :: text ++ ['\n']) = [] ∧
      behind owed s =
        behind (owed || decide (s.pending = .space ∧ s.depth = 0)) (after s (w ++ '#' :: text ++ ['\n'])) ∧
      Owes (owed || decide (s.pending = .space ∧ s.depth = 0)) (after s (w ++ '#' :: text ++ ['\n'])) := by
  obtain ⟨hsigns, -, hstep⟩ := comment_line hmode hw htext
  have hafter : after s (w ++ '#' :: text ++ ['\n']) = { s with pending := s.pending.newline s.depth } := by
    rw [after_append, after, hstep]
    rfl
  have hnone : signs s (w ++ '#' :: text ++ ['\n']) = [] := by
    rw [signs_append, hsigns, signs, hstep]
    rfl
  refine ⟨hnone, ?_⟩
  rw [hafter]
  obtain ⟨-, hpending⟩ | ⟨q, triple, hliteral⟩ := h.atLine
  · rcases hpending with hpending | hpending
    · -- the line begins a logical line, and so does the next one
      have hsame : { s with pending := s.pending.newline s.depth } = s := by
        have hline : s.pending.newline s.depth = s.pending := by
          rw [hpending, Pending.newline]
          split <;> rfl
        rw [hline]
      have howed : (owed || decide (s.pending = .space ∧ s.depth = 0)) = owed := by simp [hpending]
      rw [hsame, howed]
      exact ⟨rfl, h⟩
    · have howed : owed = false := by
        cases owed with
        | false => rfl
        | true =>
          obtain ⟨column, hline⟩ := (h.waiting rfl).1.pending
          rw [hpending] at hline
          cases hline
      by_cases hdepth : s.depth = 0
      · -- the comment ends the line that a backslash continues
        have hnewline : s.pending.newline s.depth = .line 0 := by rw [Pending.newline, if_pos hdepth]
        have hdue : (owed || decide (s.pending = .space ∧ s.depth = 0)) = true := by simp [hpending, hdepth]
        rw [hnewline, hdue, howed]
        refine ⟨?_, ⟨.inl ⟨hmode, .inl rfl⟩, fun _ => ⟨⟨.inl hmode, hdepth, 0, rfl⟩, hmode⟩⟩⟩
        rw [behind, behind, if_neg Bool.false_ne_true, if_pos rfl, State.spaced, ← hpending]
      · have hnewline : s.pending.newline s.depth = s.pending := by
          rw [Pending.newline, if_neg hdepth, hpending]
          rfl
        have hnot : (owed || decide (s.pending = .space ∧ s.depth = 0)) = owed := by simp [hdepth]
        rw [hnewline, hnot]
        exact ⟨rfl, h⟩
  · rw [hmode] at hliteral
    cases hliteral

/-! ### All lines -/

private theorem signs_kept_line {owed : Bool} {s : State} {line ending : Line} {cuts : List Cut}
    (hline : ∀ c ∈ line, isBoundary c = false) (h : Owes owed s) (hclean : Clean owed s ((line, ending) :: cuts))
    (ih : ∀ owed s, Owes owed s → Clean owed s cuts →
      signs (behind owed s) (join (keptLines cuts)) = signs s (ended (whole cuts))) :
    signs (behind owed s) (join (keptLines ((line, ending) :: cuts))) = signs s (line ++ '\n' :: ended (whole cuts)) := by
  have hsplit : line ++ '\n' :: ended (whole cuts) = line ++ ['\n'] ++ ended (whole cuts) := by simp
  obtain ⟨-, hclean⟩ := hclean
  rw [join_keptLines_cons, hsplit, signs_append s]
  split at hclean
  · rename_i hcomment
    obtain ⟨hmode, hblank, hrest⟩ := hclean
    obtain ⟨rest, hnewline, heq⟩ := isComment_eq hcomment (newline_notMem hline)
    obtain ⟨hnone, hbehind, howes⟩ := h.dropped hmode hblank hnewline
    rw [← heq] at hnone hbehind howes
    rw [if_pos hcomment, List.nil_append, hnone, List.nil_append, hbehind]
    exact ih _ _ howes hrest
  · rename_i hkept
    obtain ⟨hquiet, hrest⟩ := hclean
    obtain ⟨hsigns, hafter, howes⟩ := h.kept (newline_notMem hline) hquiet
    rw [if_neg hkept, signs_append, hsigns, hafter, ih _ _ howes hrest]

/-- Clean lines emit what the source emits. -/
private theorem signs_kept {cuts : List Cut} (hcuts : WellCut cuts) {owed : Bool} {s : State} (h : Owes owed s)
    (hclean : Clean owed s cuts) : signs (behind owed s) (join (keptLines cuts)) = signs s (ended (whole cuts)) := by
  induction hcuts generalizing owed s with
  | nil => rfl
  | last hline hne =>
    rename_i line
    have hended : ended (whole [(line, [])]) = line ++ '\n' :: ended (whole []) := by
      have hwhole : whole [(line, [])] = line := by simp [whole]
      rw [hwhole, ended_last hline hne]
      rfl
    rw [hended]
    exact signs_kept_line hline h hclean fun _ _ _ _ => rfl
  | cons hline hboundary hcuts ih =>
    rename_i line b cuts
    obtain rfl : b = '\n' := by simpa using hclean.1
    rw [ended_newline]
    exact signs_kept_line hline h hclean fun _ _ => ih

/-! ### Where the tokens are lost -/

private theorem plainSpace_append {s : State} {a b : List Char} (h : PlainSpace s (a ++ b)) :
    PlainSpace (after s a) b := by
  induction a generalizing s with
  | nil => exact h
  | cons c a ih => exact ih h.2

private theorem blanks_of_plain {s : State} (h : s.mode = .code) {w text : List Char} (hplain : PlainSpace s (w ++ text))
    (hspace : ∀ c ∈ w, isSpace c = true) (hline : '\n' ∉ w) : ∀ c ∈ w, PyLex.isBlank c = true := by
  induction w generalizing s with
  | nil => simp
  | cons c w ih =>
    obtain ⟨hne, hline⟩ := not_or.1 (mt List.mem_cons.2 hline)
    have hinside : s.mode.inside = false := by rw [h]; rfl
    have hblank : PyLex.isBlank c = true := by
      rcases hplain.1 hinside (hspace c List.mem_cons_self) with rfl | rfl | rfl
      · rfl
      · rfl
      · exact absurd rfl hne
    have hstep : (step s c).1.mode = .code := by
      have hcode : s.code c = ({ s with mode := .code, pending := s.pending.blank c }, []) := by
        rw [State.code, if_neg (Ne.symm hne), if_pos hblank]
      rw [step, h]
      simp only [hcode]
    intro d hd
    rcases List.mem_cons.1 hd with rfl | hd
    · exact hblank
    · exact ih hstep hplain.2 (fun e he => hspace e (List.mem_cons_of_mem c he)) hline d hd

private theorem prefix_line {p line rest : List Char} (hp : '\n' ∉ p) (h : p <+: line ++ '\n' :: rest) : p <+: line := by
  induction p generalizing line with
  | nil => exact List.nil_prefix
  | cons c p ih =>
    obtain ⟨hc, hp⟩ := not_or.1 (mt List.mem_cons.2 hp)
    cases line with
    | nil => exact absurd (List.cons_prefix_cons.1 h).1.symm hc
    | cons d line =>
      obtain ⟨rfl, hrest⟩ := List.cons_prefix_cons.1 h
      exact List.cons_prefix_cons.2 ⟨rfl, ih hp hrest⟩

/-- What is pasted begins with no comment. -/
private theorem not_prefix_kept {w : List Char} (hw : ∀ c ∈ w, isSpace c = true) (hline : '\n' ∉ w) (cuts : List Cut) :
    ¬ w ++ ['#'] <+: join (keptLines cuts) := by
  intro h
  cases hkept : keptLines cuts with
  | nil =>
    rw [hkept] at h
    simp [join] at h
  | cons line lines =>
    have hjoin : join (line :: lines) = line ++ '\n' :: join lines := by simp [join]
    rw [hkept, hjoin] at h
    have hcomment := isComment_of_prefix hw (prefix_line (by simpa using hline) h)
    have hmem : line ∈ keptLines cuts := hkept ▸ List.mem_cons_self
    have hkeep := List.of_mem_filter hmem
    simp [hcomment] at hkeep

private theorem bland_of_space {c : Char} (h : isSpace c = true) (hline : c ≠ '\n') : Bland c := by
  refine ⟨?_, ?_, hline⟩
  · have hsingle : c ≠ '\'' := by
      rintro rfl
      exact absurd h (by decide)
    have hdouble : c ≠ '"' := by
      rintro rfl
      exact absurd h (by decide)
    rw [quote?, if_neg hsingle, if_neg hdouble]
  · rintro rfl
    exact absurd h (by decide)

/-- A line is dropped as a comment in code only: a literal would lose it. -/
private theorem code_of_spelled {owed : Bool} {s : State} (h : Owes owed s) {line x y : List Char} {cuts : List Cut}
    (hline : '\n' ∉ line) (hcomment : isComment line = true) (hplain : PlainSpace s (line ++ x))
    (hsame : spelled (behind owed s) (join (keptLines cuts)) = spelled s (line ++ y)) :
    s.mode = .code ∧ ∀ c ∈ line.takeWhile isSpace, PyLex.isBlank c = true := by
  obtain ⟨rest, -, heq⟩ := isComment_eq hcomment hline
  have hspace : ∀ c ∈ line.takeWhile isSpace, isSpace c = true := fun c hc => List.mem_takeWhile_imp hc
  have hfront : '\n' ∉ line.takeWhile isSpace := fun hmem => hline ((List.takeWhile_prefix isSpace).subset hmem)
  generalize line.takeWhile isSpace = w at heq hspace hfront ⊢
  subst heq
  rcases h.atLine with ⟨hmode, -⟩ | ⟨q, triple, hmode⟩
  · rw [List.append_assoc] at hplain
    exact ⟨hmode, blanks_of_plain hmode hplain hspace hfront⟩
  · have howed : owed = false := by
      cases owed with
      | false => rfl
      | true =>
        have hcode := (h.waiting rfl).2
        rw [hmode] at hcode
        cases hcode
    have hbland : ∀ c ∈ w, Bland c := by
      intro c hc
      exact bland_of_space (hspace c hc) fun heq => hfront (heq ▸ hc)
    have hspelled : spelled s (w ++ '#' :: rest ++ y) = w.map some ++ some '#' :: spelled s (rest ++ y) := by
      rw [List.append_assoc, literal_run hmode hbland, List.cons_append, spelled_cons, literal_step hmode bland_hash]
      rfl
    rw [howed, hspelled] at hsame
    exact absurd (literal_spells hmode hbland hsame) (not_prefix_kept hspace hfront cuts)

/-- A logical line that is owed begins behind the line. -/
private theorem quiet_of_spelled {owed : Bool} {s : State} (h : Owes owed s) {line x y : List Char}
    (hline : '\n' ∉ line) (hsame : spelled (behind owed s) (line ++ x) = spelled s (line ++ y)) :
    owed = true → signs s line = [] := by
  rintro rfl
  rcases (h.waiting rfl).1.line hline with ⟨hnone, -⟩ | ⟨-, d, l, r, hs, hspaced⟩
  · exact hnone
  · rw [behind, if_pos rfl, spelled_append, spelled_append, hs, hspaced] at hsame
    cases hsame

private theorem boundary_notMem {cuts : List Cut} (h : WellCut cuts) {b : Char} (hb : isBoundary b = true)
    (hne : b ≠ '\n') : b ∉ join (keptLines cuts) := by
  have hlines : ∀ cut ∈ cuts, b ∉ cut.1 := by
    intro cut hcut hmem
    induction h with
    | nil => cases hcut
    | last hline _ =>
      obtain rfl := List.mem_singleton.1 hcut
      exact absurd (hline b hmem) (by simp [hb])
    | cons hline _ _ ih =>
      rcases List.mem_cons.1 hcut with rfl | hcut
      · exact absurd (hline b hmem) (by simp [hb])
      · exact ih hcut
  intro hmem
  obtain ⟨line, hline, hmem⟩ := List.mem_flatMap.1 hmem
  obtain ⟨cut, hcut, rfl⟩ := List.mem_map.1 (List.mem_of_mem_filter hline)
  rcases List.mem_append.1 hmem with hmem | hmem
  · exact hlines cut hcut hmem
  · exact hne (List.mem_singleton.1 hmem)

private theorem clean_line {owed : Bool} {s : State} {line ending x : List Char} {cuts : List Cut}
    (hline : ∀ c ∈ line, isBoundary c = false) (hending : ending = ['\n'] ∨ ending = []) (h : Owes owed s)
    (hplain : PlainSpace s (line ++ x))
    (hsame : spelled (behind owed s) (join (keptLines ((line, ending) :: cuts))) =
      spelled s (line ++ '\n' :: ended (whole cuts)))
    (ih : ∀ owed, Owes owed (after s (line ++ ['\n'])) →
      spelled (behind owed (after s (line ++ ['\n']))) (join (keptLines cuts)) =
        spelled (after s (line ++ ['\n'])) (ended (whole cuts)) →
      Clean owed (after s (line ++ ['\n'])) cuts) :
    Clean owed s ((line, ending) :: cuts) := by
  have hsplit : line ++ '\n' :: ended (whole cuts) = line ++ ['\n'] ++ ended (whole cuts) := by simp
  have hnewline := newline_notMem hline
  refine ⟨hending, ?_⟩
  rw [join_keptLines_cons] at hsame
  split
  · rename_i hcomment
    rw [if_pos hcomment, List.nil_append] at hsame
    obtain ⟨hmode, hblank⟩ := code_of_spelled h hnewline hcomment hplain hsame
    obtain ⟨rest, hrest, heq⟩ := isComment_eq hcomment hnewline
    obtain ⟨hnone, hbehind, howes⟩ := h.dropped hmode hblank hrest
    rw [← heq] at hnone hbehind howes
    have hspelled : spelled s (line ++ ['\n']) = [] := by rw [spelled, hnone]; rfl
    rw [hbehind, hsplit, spelled_append, hspelled, List.nil_append] at hsame
    exact ⟨hmode, hblank, ih _ howes hsame⟩
  · rename_i hkept
    rw [if_neg hkept] at hsame
    have hquiet := quiet_of_spelled h hnewline (by simpa using hsame)
    obtain ⟨hsigns, hafter, howes⟩ := h.kept hnewline hquiet
    have hspelled : spelled (behind owed s) (line ++ ['\n']) = spelled s (line ++ ['\n']) := by
      rw [spelled, hsigns, spelled]
    rw [hsplit, spelled_append _ (line ++ ['\n']), spelled_append _ (line ++ ['\n']), hspelled, hafter] at hsame
    exact ⟨hquiet, ih _ howes (List.append_cancel_left hsame)⟩

/-- Another boundary than a newline is lost, in a literal: elsewhere plain white space has none. -/
private theorem newline_of_spelled {owed : Bool} {s : State} {line text : List Char} {b : Char} {cuts : List Cut}
    (hline : ∀ c ∈ line, isBoundary c = false) (hb : isBoundary b = true) (hcuts : WellCut cuts) (h : Owes owed s)
    (hplain : PlainSpace s (line ++ b :: whole cuts))
    (hsame : spelled (behind owed s) (join (keptLines ((line, [b]) :: cuts))) = spelled s (line ++ b :: text)) :
    b = '\n' := by
  have hnewline := newline_notMem hline
  have hend := (plainSpace_append hplain).1
  have hcode : (after s line).mode.inside = false → b = '\n' := by
    intro hinside
    rcases hend hinside (isSpace_of_isBoundary hb) with rfl | rfl | rfl
    · exact absurd hb (by decide)
    · exact absurd hb (by decide)
    · rfl
  rw [join_keptLines_cons] at hsame
  split at hsame
  · rename_i hcomment
    obtain ⟨hmode, hblank⟩ := code_of_spelled h hnewline hcomment hplain hsame
    obtain ⟨rest, hrest, heq⟩ := isComment_eq hcomment hnewline
    have hstay := (comment_line hmode hblank hrest).2.1
    rw [← heq] at hstay
    exact hcode (by rw [hstay]; rfl)
  · by_contra hne
    have hquiet := quiet_of_spelled h hnewline (by simpa using hsame)
    obtain ⟨hsigns, hafter, hwaiting⟩ := h.quiet hnewline hquiet
    have hinside : (after s line).mode.inside = true := by
      rw [← Bool.not_eq_false]
      exact mt hcode hne
    have howed : owed = false := by
      cases owed with
      | false => rfl
      | true => rcases (hwaiting rfl).mode with hmode | hmode | hmode <;> simp [hmode, Mode.inside] at hinside
    have hspelled : spelled (behind owed s) line = spelled s line := by rw [spelled, hsigns, spelled]
    rw [List.append_assoc, spelled_append _ line, spelled_append _ line, hspelled, hafter, howed] at hsame
    have hrest := List.append_cancel_left hsame
    -- the literal emits the boundary, which is in nothing that is pasted
    rcases inside_step hinside b with hemit | ⟨heq, -⟩
    · have hmem : some b ∈ spelled (after s line) (['\n'] ++ join (keptLines cuts)) := by
        have hhead : spelled (after s line) (b :: text) = some b :: spelled (step (after s line) b).1 text := by
          rw [spelled_cons, hemit]
          rfl
        exact (hrest.trans hhead) ▸ List.mem_cons_self
      rcases mem_spelled hmem with hmem | rfl
      · rcases List.mem_append.1 hmem with hmem | hmem
        · exact hne (List.mem_singleton.1 hmem)
        · exact boundary_notMem hcuts hb hne hmem
      · exact absurd hb (by decide)
    · exact hne heq

private theorem clean_of_spelled {cuts : List Cut} (hcuts : WellCut cuts) {owed : Bool} {s : State} (h : Owes owed s)
    (hplain : PlainSpace s (whole cuts))
    (hsame : spelled (behind owed s) (join (keptLines cuts)) = spelled s (ended (whole cuts))) :
    Clean owed s cuts := by
  induction hcuts generalizing owed s with
  | nil => trivial
  | last hline hne =>
    rename_i line
    have hwhole : whole [(line, [])] = line := by simp [whole]
    rw [hwhole] at hplain hsame
    rw [ended_last hline hne] at hsame
    exact clean_line (x := []) hline (.inr rfl) h (by rwa [List.append_nil]) hsame fun _ _ _ => trivial
  | cons hline hb hcuts ih =>
    rename_i line b cuts
    have hwhole : whole ((line, [b]) :: cuts) = line ++ b :: whole cuts := by simp
    rw [hwhole] at hplain
    obtain ⟨text, htext⟩ := ended_boundary line b cuts
    obtain rfl := newline_of_spelled hline hb hcuts h hplain (hsame.trans (by rw [htext]))
    rw [ended_newline] at hsame
    have hrest : PlainSpace (after s (line ++ ['\n'])) (whole cuts) :=
      plainSpace_append (by rwa [List.append_assoc])
    exact clean_line hline (.inl rfl) h hplain hsame fun _ howes => ih howes hrest

/-! ### The program -/

/-- The program that is pasted has the tokens of the source, as the file is read, where its lines are clean, and
where its white space is plain nowhere else. -/
theorem pasted_tokens_iff (source : List Char) :
    (CleanSource (universal source) → tokens (pasted (universal source)) = tokens (universal source)) ∧
      (PlainSpace start (universal source) →
        (tokens (pasted (universal source)) = tokens (universal source) ↔ CleanSource (universal source))) := by
  have hcuts := wellCut_cutLines (return_notMem_universal source)
  have howes : Owes false start := ⟨atLine_start, fun h => by cases h⟩
  have hsufficient : CleanSource (universal source) →
      tokens (pasted (universal source)) = tokens (universal source) := by
    intro hclean
    have hsigns := signs_kept hcuts howes hclean
    rw [whole_cutLines] at hsigns
    rw [tokens, tokens, signs_pasted]
    exact congrArg _ hsigns
  refine ⟨hsufficient, fun hplain => ⟨fun hsame => ?_, hsufficient⟩⟩
  have hspelled := spelled_of_tokens hsame
  rw [spelled, signs_pasted] at hspelled
  refine clean_of_spelled hcuts howes ?_ ?_
  · rwa [whole_cutLines]
  · rw [whole_cutLines]
    exact hspelled

/-- A line of a literal that begins with `#` is dropped. -/
theorem literal_line_dropped :
    tokens (pasted (universal "x = \"\"\"\n# a\n\"\"\"\n".toList)) ≠
      tokens (universal "x = \"\"\"\n# a\n\"\"\"\n".toList) := by decide

end IronHarness.Runner.Paste
