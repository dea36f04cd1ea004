import IronHarness.Runner.Renode

/-!
# The paste echo

What the three runners cut off a log in front of the output of the firmware: `_truncate_paste_echo` of the emulated
boards (ironbench/runner_renode.py and ironbench/runner_wokwi.py) and `_truncate_after_staging_echo` of the real one
(ironbench/realhw.py).  All look for the last occurrence of the last line of the source in the whole log, so they cut
into an output that repeats that line, and the last one also into an output that begins on the line of the echo
(`echo_trimmed_iff`).
-/

namespace IronHarness.Runner

open ByteText Segments TextLines
open Renode (contains pasteMode)

/-! ### The trims -/

/-- `[ln for ln in pasted.splitlines() if ln.strip()]` -/
def codeLines (pasted : List Char) : List Line := (splitlines pasted).filter fun line => !isBlank line

def lstrip (line : Line) : Line := line.dropWhile isSpace

def rstrip (line : Line) : Line := line.rdropWhile isSpace

/-- `_paste_code` -/
def pasteCode (code : List Char) : List Char :=
  List.intercalate ['\n'] ((splitlines code).filter fun line => !(['#'].isPrefixOf (lstrip line)))

/-- The trim of the emulated boards: the text to score, the error, and whether the trim cut. -/
def truncateEcho (message pasted text : List Char) : List Char × Option (List Char) × Bool :=
  match codeLines pasted with
  | [] => (text, none, false)
  | first :: rest =>
    if !contains pasteMode text then (text, none, false)
    else if !contains first text then (text, none, false)
    else match rfind (rest.getLastD first) text with
      | none => (text, some message, false)
      | some pos => (text.drop (pos + (rest.getLastD first).length), none, true)

namespace Renode

def echoTruncated : List Char :=
  "paste echo truncated (emulator FIFO lost bytes) - the run cannot be scored".toList

/-- `_truncate_paste_echo` of Renode; `none` is an entry file that cannot be read. -/
def truncatePasteEcho (text : List Char) : Option (List Char) → List Char × Option (List Char)
  | none => (text, none)
  | some code =>
    let (scored, error, _) := truncateEcho echoTruncated (pasteCode code) text
    (scored, error)

/-- What Renode is sent in front of Ctrl-D. -/
def pasted (code : List Char) : List Char := pasteCode code ++ ['\n']

end Renode

namespace Wokwi

def echoTruncated : List Char :=
  "paste echo truncated (serial log lost bytes) - the run cannot be scored".toList

/-- `_truncate_paste_echo` of Wokwi. -/
def truncatePasteEcho (text : List Char) : Option (List Char) → List Char × Option (List Char) × Bool
  | none => (text, none, false)
  | some code => truncateEcho echoTruncated code text

end Wokwi

namespace Real

def echoTruncated : List Char :=
  ("staging echo truncated (FIFO/link lost the tail) - the run cannot be scored honestly; retry with a fresh " ++
    "paste").toList

/-- `_truncate_text_and_chunks` -/
def truncateTextAndChunks (pos : Nat) (text : List Char) (chunks : Chunks) : List Char × Chunks :=
  if pos = 0 then (text, chunks) else (text.drop pos, cutFrom pos 0 chunks)

/-- Behind the newline behind the position, or the end of the text. -/
def lineEnd (pos : Nat) (text : List Char) : Nat :=
  match find ['\n'] (text.drop pos) with
  | none => text.length
  | some newline => pos + newline + 1

/-- `_truncate_after_staging_echo`: the text and the chunks kept, or the message of the `TransportIoError`. -/
def truncateAfterStagingEcho (code text : List Char) (chunks : Chunks) : Except (List Char) (List Char × Chunks) :=
  match ((splitlines code).map rstrip).filter fun line => !line.isEmpty with
  | [] => .ok (text, chunks)
  | first :: rest =>
    match rfind (rest.getLastD first) text with
    | some pos => .ok (truncateTextAndChunks (lineEnd pos text) text chunks)
    | none =>
      match find pasteMode text with
      | some bannerPos => if contains first (text.drop bannerPos) then .error echoTruncated else .ok (text, chunks)
      | none => .ok (text, chunks)

private theorem truncateTextAndChunks_fst (pos : Nat) (text : List Char) (chunks : Chunks) :
    (truncateTextAndChunks pos text chunks).1 = text.drop pos := by
  unfold truncateTextAndChunks
  split
  · rename_i hpos
    rw [hpos, List.drop_zero]
  · rfl

/-- The chunks kept are those of the text kept. -/
theorem truncateTextAndChunks_text {pos : Nat} {text : List Char} {chunks : Chunks}
    (h : chunks.flatMap (·.2) = text) :
    (truncateTextAndChunks pos text chunks).2.flatMap (·.2) = (truncateTextAndChunks pos text chunks).1 := by
  unfold truncateTextAndChunks
  split
  · exact h
  · rw [flatMap_cutFrom, h, Nat.sub_zero]

end Real

/-! ### Echoed logs -/

/-- What a terminal echoes of a text; it shows a newline as `nl`. -/
def echo (nl text : List Char) : List Char := text.flatMap fun c => if c = '\n' then nl else [c]

/-- A log up to the output of the firmware: the boot text, the banner, and the whole echo. -/
def echoed (nl boot banner sent : List Char) : List Char := boot ++ pasteMode ++ banner ++ echo nl sent

/-- What is scored is the output, behind nothing but the echo of white space at the end of the source; where the
source is white space, there is nothing to cut. -/
def Trimmed (nl sent output scored : List Char) : Prop :=
  ∃ residue, scored = residue ++ output ∧
    (isBlank sent = true ∨ ∃ body trail, sent = body ++ trail ∧ isBlank trail = true ∧ residue <:+ echo nl trail)

/-- Every occurrence in the log ends in front of the output. -/
def EndsBefore (needle front output : List Char) : Prop :=
  ∀ pos, needle <+: (front ++ output).drop pos → pos + needle.length ≤ front.length

/-- Every occurrence in the log has a newline behind it in front of the output. -/
def LineEndsBefore (needle front output : List Char) : Prop :=
  ∀ pos, needle <+: (front ++ output).drop pos → '\n' ∈ front.drop pos

private theorem echo_append (nl a b : List Char) : echo nl (a ++ b) = echo nl a ++ echo nl b := List.flatMap_append

private theorem echo_line {line : Line} (h : '\n' ∉ line) (nl : List Char) : echo nl line = line := by
  induction line with
  | nil => rfl
  | cons c line ih =>
    obtain ⟨hc, hline⟩ := not_or.1 (mt List.mem_cons.2 h)
    rw [echo, List.flatMap_cons, if_neg (Ne.symm hc), ← echo, ih hline]
    rfl

private theorem isBlank_append (a b : List Char) : isBlank (a ++ b) = (isBlank a && isBlank b) := List.all_append

/-- A cut behind the last line of the source leaves the output alone exactly where it is not inside of it. -/
private theorem trimmed_drop_iff {nl boot banner body line trail output : List Char} {cut : Nat}
    (htrail : isBlank trail = true) (hlo : (echoed nl boot banner (body ++ line)).length ≤ cut)
    (hhi : cut ≤ (echoed nl boot banner (body ++ line ++ trail) ++ output).length) :
    Trimmed nl (body ++ line ++ trail) output ((echoed nl boot banner (body ++ line ++ trail) ++ output).drop cut) ↔
      cut ≤ (echoed nl boot banner (body ++ line ++ trail)).length := by
  have hsplit : echoed nl boot banner (body ++ line ++ trail) = echoed nl boot banner (body ++ line) ++ echo nl trail := by
    rw [echoed, echo_append, ← List.append_assoc, ← echoed]
  constructor
  · rintro ⟨residue, heq, -⟩
    have hlen := congrArg List.length heq
    rw [List.length_drop, List.length_append, List.length_append] at hlen
    rw [List.length_append] at hhi
    omega
  · intro hcut
    refine ⟨(echoed nl boot banner (body ++ line ++ trail)).drop cut, List.drop_append_of_le_length hcut, .inr ?_⟩
    refine ⟨body ++ line, trail, rfl, htrail, ?_⟩
    rw [hsplit, List.drop_append, List.drop_eq_nil_of_le hlo, List.nil_append]
    exact List.drop_suffix _ _

/-! ### The last line of the source -/

/-- The last line of the source that is not blank: only white space stands behind it. -/
private theorem codeLines_last {pasted : List Char} {last : Line} (h : (codeLines pasted).getLast? = some last) :
    isBlank last = false ∧ '\n' ∉ last ∧ ∃ body trail, pasted = body ++ last ++ trail ∧ isBlank trail = true := by
  obtain ⟨before, hbefore⟩ := List.getLast?_eq_some_iff.1 h
  obtain ⟨l₁, l₂, hlines, -, hl₂⟩ := List.filter_eq_append_iff.1 hbefore
  obtain ⟨m₁, m₂, rfl, -, hlast, hrest⟩ := List.filter_eq_cons_iff.1 hl₂
  have hstand : splitlines pasted = l₁ ++ m₁ ++ last :: m₂ := by rw [hlines, List.append_assoc]
  obtain ⟨body, trail, heq, htrail⟩ := splitlines_eq hstand
  refine ⟨by simpa using hlast, ?_, body, trail, heq, htrail ?_⟩
  · intro hmem
    have hline : last ∈ splitlines pasted := by simp [hlines]
    have hnewline := splitlines_boundary hline _ hmem
    revert hnewline
    decide
  · simpa [List.filter_eq_nil_iff] using hrest

private theorem codeLines_infix {pasted : List Char} {line : Line} (h : line ∈ codeLines pasted) :
    line <:+: pasted ∧ '\n' ∉ line := by
  have hline := List.mem_of_mem_filter h
  obtain ⟨before, after, hlines⟩ := List.append_of_mem hline
  obtain ⟨body, trail, heq, -⟩ := splitlines_eq hlines
  refine ⟨⟨body, trail, heq.symm⟩, fun hmem => ?_⟩
  have hnewline := splitlines_boundary hline _ hmem
  revert hnewline
  decide

private theorem codeLines_eq_nil {pasted : List Char} (h : codeLines pasted = []) : isBlank pasted = true := by
  apply isBlank_of_splitlines
  simpa [codeLines, List.filter_eq_nil_iff] using h

private theorem getLast?_codeLines {pasted : List Char} {first : Line} {rest : List Line}
    (h : codeLines pasted = first :: rest) :
    (codeLines pasted).getLast? = some (rest.getLastD first) := by
  rw [h, List.getLast?_cons, List.getLastD_eq_getLast?]

/-! ### Lines in the log -/

/-- What stands on one line of what was sent stands in the log. -/
private theorem echoed_line {line : Line} (hnewline : '\n' ∉ line) (nl boot banner body trail : List Char) :
    echoed nl boot banner (body ++ line ++ trail) = echoed nl boot banner body ++ line ++ echo nl trail := by
  simp only [echoed, echo_append, echo_line hnewline, List.append_assoc]

private theorem infix_echoed {sent line : List Char} (hnewline : '\n' ∉ line) (h : line <:+: sent)
    (nl boot banner output : List Char) :
    line <:+: echoed nl boot banner sent ++ output := by
  obtain ⟨body, trail, rfl⟩ := h
  rw [echoed_line hnewline, List.append_assoc]
  exact List.infix_append _ _ _

private theorem pasteMode_within (nl boot banner sent output : List Char) :
    pasteMode <:+: echoed nl boot banner sent ++ output :=
  ⟨boot, banner ++ echo nl sent ++ output, by simp [echoed]⟩

/-- The last occurrence of a line is its echo or stands behind it. -/
private theorem rfind_echoed {line : Line} (hnewline : '\n' ∉ line) (nl boot banner body trail output : List Char) :
    ∃ pos, rfind line (echoed nl boot banner (body ++ line ++ trail) ++ output) = some pos ∧
      (echoed nl boot banner body).length ≤ pos := by
  rw [echoed_line hnewline, List.append_assoc, List.append_assoc]
  apply le_rfind
  · rw [List.length_append]
    omega
  · rw [List.drop_left]
    exact List.prefix_append _ _

/-- An occurrence of a text that is not empty begins in front of the end. -/
private theorem lt_of_prefix_drop {needle text : List Char} {pos : Nat} (hne : needle ≠ [])
    (h : needle <+: text.drop pos) :
    pos < text.length := by
  by_contra hge
  rw [List.drop_eq_nil_of_le (by omega)] at h
  exact hne (List.prefix_nil.1 h)

/-- The last occurrence decides what holds of all of them. -/
private theorem forall_occurrence_iff {needle text : List Char} {pos : Nat} {P : Nat → Prop} (hne : needle ≠ [])
    (h : rfind needle text = some pos) (hdown : ∀ k ≤ pos, P pos → P k) :
    (∀ k, needle <+: text.drop k → P k) ↔ P pos := by
  constructor
  · intro hall
    exact hall pos (rfind_eq_some h).1
  · intro hpos k hk
    obtain ⟨pos', hpos', hle⟩ := le_rfind (lt_of_prefix_drop hne hk).le hk
    obtain rfl : pos' = pos := by simpa [hpos'] using h
    exact hdown k hle hpos

/-! ### The emulated boards -/

private theorem truncateEcho_eq (message : List Char) {pasted text : List Char} {first : Line} {rest : List Line}
    {pos : Nat}
    (hlines : codeLines pasted = first :: rest) (hbanner : pasteMode <:+: text) (hfirst : first <:+: text)
    (hpos : rfind (rest.getLastD first) text = some pos) :
    truncateEcho message pasted text = (text.drop (pos + (rest.getLastD first).length), none, true) := by
  simp only [truncateEcho, hlines, contains, find_isSome_iff.2 hbanner, find_isSome_iff.2 hfirst, Bool.not_true,
    Bool.false_eq_true, if_false, hpos]

private theorem truncateEcho_iff (message : List Char) {ending : List Char} (hending : isBlank ending = true)
    (nl boot banner pasted output : List Char) :
    (∃ scored engaged,
      truncateEcho message pasted (echoed nl boot banner (pasted ++ ending) ++ output) = (scored, none, engaged) ∧
        Trimmed nl (pasted ++ ending) output scored) ↔
      ∀ last, (codeLines pasted).getLast? = some last →
        EndsBefore last (echoed nl boot banner (pasted ++ ending)) output := by
  cases hlines : codeLines pasted with
  | nil =>
    -- nothing but white space was pasted, and nothing is cut
    have hblank : isBlank (pasted ++ ending) = true := by simp [isBlank_append, codeLines_eq_nil hlines, hending]
    simp only [truncateEcho, hlines, List.getLast?_nil, reduceCtorEq, false_implies, implies_true, iff_true]
    exact ⟨_, _, rfl, _, rfl, .inl hblank⟩
  | cons first rest =>
    have hlast := getLast?_codeLines hlines
    obtain ⟨hfull, hnewline, body, trail, hpasted, htrail⟩ := codeLines_last hlast
    obtain ⟨hfirst, hfirstLine⟩ := codeLines_infix (hlines ▸ List.mem_cons_self)
    -- behind the last line there is only white space
    have hsent : pasted ++ ending = body ++ rest.getLastD first ++ (trail ++ ending) := by
      rw [hpasted, List.append_assoc]
    have hblank : isBlank (trail ++ ending) = true := by simp [isBlank_append, htrail, hending]
    have hin : first <:+: pasted ++ ending := hfirst.trans (List.prefix_append _ _).isInfix
    rw [← hlines, hlast]
    simp only [Option.some.injEq, forall_eq']
    rw [hsent] at hin ⊢
    -- the cut is at the last occurrence, which is the echo itself or stands behind it
    obtain ⟨pos, hpos, hlo⟩ := rfind_echoed hnewline nl boot banner body (trail ++ ending) output
    have hne : rest.getLastD first ≠ [] := by
      intro hnil
      rw [hnil] at hfull
      cases hfull
    rw [EndsBefore, forall_occurrence_iff hne hpos (fun k hk h => by omega),
      truncateEcho_eq message hlines (pasteMode_within _ _ _ _ _) (infix_echoed hfirstLine hin _ _ _ _) hpos,
      ← trimmed_drop_iff hblank _ (rfind_eq_some hpos).2]
    · simp
    · rw [echoed, echo_append, echo_line hnewline, ← List.append_assoc, ← echoed, List.length_append]
      omega

/-! ### The real board -/

namespace Real

private theorem lineEnd_le {pos : Nat} {text : List Char} (hpos : pos ≤ text.length) :
    lineEnd pos text ≤ text.length := by
  unfold lineEnd
  split
  · exact Nat.le_refl _
  · rename_i newline hfind
    have hlen := (find_eq_some hfind).2
    rw [List.length_drop, List.length_singleton] at hlen
    omega

private theorem le_lineEnd {pos : Nat} {line text : List Char} (hnewline : '\n' ∉ line) (hat : line <+: text.drop pos)
    (hpos : pos + line.length ≤ text.length) : pos + line.length ≤ lineEnd pos text := by
  unfold lineEnd
  split
  · exact hpos
  · rename_i newline hfind
    have hchar := (find_singleton hfind).2
    -- the line itself has no newline
    have hlate : line.length ≤ newline := by
      by_contra hlt
      obtain ⟨more, hmore⟩ := hat
      rw [← hmore, List.getElem?_append_left (by omega)] at hchar
      exact hnewline (List.mem_of_getElem? hchar)
    omega

/-- The end of the line lies in front of the output where there is none, or a newline in front of it. -/
private theorem lineEnd_le_iff {pos : Nat} {front output : List Char} (hpos : pos ≤ (front ++ output).length) :
    lineEnd pos (front ++ output) ≤ front.length ↔ output = [] ∨ '\n' ∈ front.drop pos := by
  have hfront : front.drop pos <+: (front ++ output).drop pos := by
    rw [List.drop_append]
    exact List.prefix_append _ _
  cases hfind : find ['\n'] ((front ++ output).drop pos) with
  | none =>
    have hnone : '\n' ∉ front.drop pos := fun hmem => find_singleton_eq_none.1 hfind (hfront.subset hmem)
    simp only [lineEnd, hfind, hnone, List.length_append, or_false, ← List.length_eq_zero_iff]
    omega
  | some newline =>
    obtain ⟨hbefore, hchar⟩ := find_singleton hfind
    have hlen := lineEnd_le hpos
    simp only [lineEnd, hfind] at hlen ⊢
    constructor
    · intro hle
      right
      rw [List.getElem?_drop, List.getElem?_append_left (by omega), ← List.getElem?_drop] at hchar
      exact List.mem_of_getElem? hchar
    · rintro (rfl | hmem)
      · simpa using hlen
      · obtain ⟨k, hk⟩ := List.mem_iff_getElem?.1 hmem
        have hlt : k < (front.drop pos).length := (List.getElem?_eq_some_iff.1 hk).1
        have hrest : (front.drop pos).length = front.length - pos := List.length_drop
        -- the newline that is found comes no later than that of the front
        have hfirst : newline ≤ k := by
          by_contra hgt
          apply hbefore
          apply List.mem_of_getElem? (i := k)
          obtain ⟨more, hmore⟩ := hfront
          rw [List.getElem?_take_of_lt (by omega), ← hmore, List.getElem?_append_left hlt, hk]
        omega

/-- The lines the code looks at are those that are not blank, without the white space at their ends. -/
private theorem strippedLines_eq (code : List Char) :
    (((splitlines code).map rstrip).filter fun line => !line.isEmpty) = (codeLines code).map rstrip := by
  rw [List.filter_map, codeLines]
  congr 1
  apply List.filter_congr
  intro line _
  have hempty : (rstrip line).isEmpty = isBlank line := by
    rw [Bool.eq_iff_iff, List.isEmpty_iff, rstrip, List.rdropWhile_eq_nil_iff, isBlank, List.all_eq_true]
  simp [hempty]

/-- The white space at the end of a line. -/
private theorem rstrip_append (line : Line) : ∃ spaces, line = rstrip line ++ spaces ∧ isBlank spaces = true := by
  refine ⟨line.rtakeWhile isSpace, List.rdropWhile_append_rtakeWhile.symm, ?_⟩
  rw [isBlank, List.all_eq_true]
  exact fun c hc => List.mem_rtakeWhile_imp hc

private theorem truncateAfterStagingEcho_eq {code text : List Char} {first : Line} {rest : List Line} {pos : Nat}
    (hlines : codeLines code = first :: rest) (hpos : rfind (rstrip (rest.getLastD first)) text = some pos)
    (chunks : Chunks) :
    truncateAfterStagingEcho code text chunks = .ok (truncateTextAndChunks (lineEnd pos text) text chunks) := by
  rw [truncateAfterStagingEcho, strippedLines_eq, hlines, List.map_cons]
  simp only [List.getLastD_map, hpos]

private theorem truncateAfterStagingEcho_iff (nl boot banner code output : List Char) (chunks : Chunks) :
    (∃ kept chunks',
        truncateAfterStagingEcho code (echoed nl boot banner code ++ output) chunks = .ok (kept, chunks') ∧
          Trimmed nl code output kept) ↔
      output = [] ∨ ∀ last, (codeLines code).getLast? = some last →
        LineEndsBefore (rstrip last) (echoed nl boot banner code) output := by
  cases hlines : codeLines code with
  | nil =>
    have hresult : truncateAfterStagingEcho code (echoed nl boot banner code ++ output) chunks =
        .ok (echoed nl boot banner code ++ output, chunks) := by
      rw [truncateAfterStagingEcho, strippedLines_eq, hlines]
      rfl
    simp only [List.getLast?_nil, reduceCtorEq, false_implies, implies_true, or_true, iff_true]
    exact ⟨_, _, hresult, _, rfl, .inl (codeLines_eq_nil hlines)⟩
  | cons first rest =>
    have hlast := getLast?_codeLines hlines
    obtain ⟨hfull, hnewline, body, trail, hcode, htrail⟩ := codeLines_last hlast
    obtain ⟨spaces, hspaces, hblank⟩ := rstrip_append (rest.getLastD first)
    have hsent : code = body ++ rstrip (rest.getLastD first) ++ (spaces ++ trail) := by
      rw [hcode]
      conv => lhs; rw [hspaces]
      simp only [List.append_assoc]
    have hnewline' : '\n' ∉ rstrip (rest.getLastD first) := by
      intro hmem
      apply hnewline
      rw [hspaces]
      exact List.mem_append_left _ hmem
    have hne : rstrip (rest.getLastD first) ≠ [] := by
      intro hnil
      rw [hnil, List.nil_append] at hspaces
      rw [hspaces, hblank] at hfull
      cases hfull
    have hblank' : isBlank (spaces ++ trail) = true := by simp [isBlank_append, htrail, hblank]
    -- the cut is behind the newline that follows the last occurrence
    obtain ⟨pos, hpos, hlo⟩ := rfind_echoed hnewline' nl boot banner body (spaces ++ trail) output
    rw [← hsent] at hpos
    obtain ⟨hat, hhi⟩ := rfind_eq_some hpos
    have hpos' : pos ≤ (echoed nl boot banner code ++ output).length := by omega
    have hcut : (echoed nl boot banner (body ++ rstrip (rest.getLastD first))).length ≤
        lineEnd pos (echoed nl boot banner code ++ output) := by
      have hend := le_lineEnd hnewline' hat hhi
      rw [echoed, echo_append, echo_line hnewline', ← List.append_assoc, ← echoed, List.length_append]
      omega
    have hdrop := @trimmed_drop_iff nl boot banner body _ _ output _ hblank' hcut
      (by rw [← hsent]; exact lineEnd_le hpos')
    rw [← hsent] at hdrop
    have hends : (output = [] ∨ LineEndsBefore (rstrip (rest.getLastD first)) (echoed nl boot banner code) output) ↔
        lineEnd pos (echoed nl boot banner code ++ output) ≤ (echoed nl boot banner code).length := by
      rw [lineEnd_le_iff hpos', LineEndsBefore, forall_occurrence_iff hne hpos]
      exact fun k hk hmem => List.drop_subset_drop_left _ hk hmem
    rw [← hlines, hlast]
    simp only [Option.some.injEq, forall_eq']
    rw [hends, truncateAfterStagingEcho_eq hlines hpos, ← hdrop]
    simp only [Except.ok.injEq]
    constructor
    · rintro ⟨kept, chunks', hkept, htrimmed⟩
      rwa [← truncateTextAndChunks_fst _ _ chunks, hkept]
    · intro htrimmed
      refine ⟨_, _, Prod.mk.eta.symm, ?_⟩
      rwa [truncateTextAndChunks_fst]

end Real

/-! ### The three trims -/

/-- On a log that holds the whole echo, the emulated boards keep the output and none of the source exactly where every
occurrence of the last line of what was pasted ends in front of the output; the real board does exactly where every
occurrence of the last line has a newline behind it in front of the output, or there is no output. -/
theorem echo_trimmed_iff (nl boot banner code output : List Char) (chunks : Chunks) :
    ((∃ scored,
        Renode.truncatePasteEcho (echoed nl boot banner (Renode.pasted code) ++ output) (some code) = (scored, none) ∧
          Trimmed nl (Renode.pasted code) output scored) ↔
      ∀ last, (codeLines (pasteCode code)).getLast? = some last →
        EndsBefore last (echoed nl boot banner (Renode.pasted code)) output) ∧
    ((∃ scored engaged,
        Wokwi.truncatePasteEcho (echoed nl boot banner code ++ output) (some code) = (scored, none, engaged) ∧
          Trimmed nl code output scored) ↔
      ∀ last, (codeLines code).getLast? = some last → EndsBefore last (echoed nl boot banner code) output) ∧
    ((∃ kept chunks',
        Real.truncateAfterStagingEcho code (echoed nl boot banner code ++ output) chunks = .ok (kept, chunks') ∧
          Trimmed nl code output kept) ↔
      output = [] ∨ ∀ last, (codeLines code).getLast? = some last →
        LineEndsBefore (rstrip last) (echoed nl boot banner code) output) := by
  refine ⟨?_, ?_, Real.truncateAfterStagingEcho_iff nl boot banner code output chunks⟩
  · have hnewline : isBlank ['\n'] = true := by decide
    rw [Renode.pasted, ← truncateEcho_iff Renode.echoTruncated hnewline]
    simp only [Renode.truncatePasteEcho, Prod.mk.injEq]
    constructor
    · rintro ⟨scored, ⟨hscored, herror⟩, htrimmed⟩
      exact ⟨scored, _, Prod.ext hscored (Prod.ext herror rfl), htrimmed⟩
    · rintro ⟨scored, engaged, hresult, htrimmed⟩
      exact ⟨scored, by simp [hresult], htrimmed⟩
  · have h := @truncateEcho_iff Wokwi.echoTruncated [] rfl nl boot banner code output
    rwa [List.append_nil] at h

/-- A firmware whose source ends with a closing bracket on its own line, and which prints one. -/
def bracketCode : List Char := "print(\n'(ready)'\n)\n".toList

def bracketOutput : List Char := "(ready) ok\r\n".toList

def bracketBoot : List Char := ">>> ".toList

def bracketBanner : List Char := "; Ctrl-C to cancel, Ctrl-D to finish\r\n".toList

theorem output_trimmed_with_echo :
    (¬ ∃ scored, Renode.truncatePasteEcho
        (echoed ['\r', '\n'] bracketBoot bracketBanner (Renode.pasted bracketCode) ++ bracketOutput) (some bracketCode) =
          (scored, none) ∧ Trimmed ['\r', '\n'] (Renode.pasted bracketCode) bracketOutput scored) ∧
    (¬ ∃ scored engaged, Wokwi.truncatePasteEcho
        (echoed ['\r', '\n'] bracketBoot bracketBanner bracketCode ++ bracketOutput) (some bracketCode) =
          (scored, none, engaged) ∧ Trimmed ['\r', '\n'] bracketCode bracketOutput scored) ∧
    ¬ ∃ kept chunks', Real.truncateAfterStagingEcho bracketCode
        (echoed ['\r', '\n'] bracketBoot bracketBanner bracketCode ++ bracketOutput)
        [(0, echoed ['\r', '\n'] bracketBoot bracketBanner bracketCode ++ bracketOutput)] = .ok (kept, chunks') ∧
          Trimmed ['\r', '\n'] bracketCode bracketOutput kept := by
  -- what is shorter than the output does not end with it
  have hlost : ∀ {sent scored : List Char}, scored.length < bracketOutput.length →
      ¬ Trimmed ['\r', '\n'] sent bracketOutput scored := by
    rintro sent scored hshort ⟨residue, rfl, -⟩
    rw [List.length_append] at hshort
    omega
  refine ⟨?_, ?_, ?_⟩
  · rintro ⟨scored, hscored, htrimmed⟩
    have hcut : (Renode.truncatePasteEcho (echoed ['\r', '\n'] bracketBoot bracketBanner (Renode.pasted bracketCode) ++
        bracketOutput) (some bracketCode)).1 = " ok\r\n".toList := by decide +kernel
    rw [hscored] at hcut
    obtain rfl : scored = " ok\r\n".toList := hcut
    exact hlost (by decide) htrimmed
  · rintro ⟨scored, engaged, hscored, htrimmed⟩
    have hcut : (Wokwi.truncatePasteEcho (echoed ['\r', '\n'] bracketBoot bracketBanner bracketCode ++ bracketOutput)
        (some bracketCode)).1 = " ok\r\n".toList := by decide +kernel
    rw [hscored] at hcut
    obtain rfl : scored = " ok\r\n".toList := hcut
    exact hlost (by decide) htrimmed
  · rintro ⟨kept, chunks', hkept, htrimmed⟩
    have hcut : Real.truncateAfterStagingEcho bracketCode
        (echoed ['\r', '\n'] bracketBoot bracketBanner bracketCode ++ bracketOutput)
        [(0, echoed ['\r', '\n'] bracketBoot bracketBanner bracketCode ++ bracketOutput)] = .ok ([], []) := by rfl
    rw [hkept] at hcut
    obtain ⟨rfl, -⟩ := Prod.mk.inj (Except.ok.inj hcut)
    exact hlost (by decide) htrimmed

end IronHarness.Runner
