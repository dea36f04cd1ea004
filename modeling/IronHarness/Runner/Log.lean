import IronHarness.Lib.Bytes
import IronHarness.Lib.Segments
import IronHarness.Runner.Task

/-!
# The serial log of a run

The box the reader thread and the harness share, `first_occurrence_stamp`, and the scoring of the settled log
(ironbench/runner_common.py and ironbench/runner_unix.py).  Time is rational: the clock's floats are compared and
subtracted exactly.
-/

namespace IronHarness.Runner

open ByteText Segments TextLines

/-- The chunks of the log, each with the time it was ingested. -/
abbrev Chunks := List (ℚ × List Char)

/-! ### The box -/

structure Box where
  text : List Char
  chunks : Chunks
  eof : Bool
  dropped : Bool

def emptyBox : Box := ⟨[], [], false, false⟩

def maxSerialText : Nat := 2 ^ 20

def truncationMarker : List Char :=
  "\n[ironharness: serial output truncated at 1048576 bytes - further output discarded]\n".toList

/-- `_box_append`, by either thread. -/
def Box.append (b : Box) (now : ℚ) (chunk : List Char) : Box :=
  if b.dropped then b
  else if maxSerialText < b.text.length + chunk.length then
    { b with dropped := true, chunks := b.chunks ++ [(now, truncationMarker)], text := b.text ++ truncationMarker }
  else { b with chunks := b.chunks ++ [(now, chunk)], text := b.text ++ chunk }

/-- What the reader thread does between two looks of the harness: it appends chunks and may see the end of the
output, after which it is gone. -/
def Box.hear (b : Box) (ingested : Chunks) (eof : Bool) : Box :=
  if b.eof then b
  else { ingested.foldl (fun box chunk => box.append chunk.1 chunk.2) b with eof := eof }

/-- The log only grows. -/
structure Box.Grows (b b' : Box) : Prop where
  text : b.text <+: b'.text
  chunks : b.chunks <+: b'.chunks

theorem Box.Grows.refl (b : Box) : b.Grows b := ⟨List.prefix_refl _, List.prefix_refl _⟩

theorem Box.Grows.trans {b b' b'' : Box} (h : b.Grows b') (h' : b'.Grows b'') : b.Grows b'' :=
  ⟨h.text.trans h'.text, h.chunks.trans h'.chunks⟩

theorem Box.grows_append (b : Box) (now : ℚ) (chunk : List Char) : b.Grows (b.append now chunk) := by
  unfold Box.append
  split
  · exact .refl b
  · split
    · exact ⟨List.prefix_append _ _, List.prefix_append _ _⟩
    · exact ⟨List.prefix_append _ _, List.prefix_append _ _⟩

private theorem Box.grows_foldl (b : Box) (ingested : Chunks) :
    b.Grows (ingested.foldl (fun box chunk => box.append chunk.1 chunk.2) b) := by
  induction ingested generalizing b with
  | nil => exact .refl b
  | cons chunk rest ih => exact (b.grows_append chunk.1 chunk.2).trans (ih _)

theorem Box.grows_hear (b : Box) (ingested : Chunks) (eof : Bool) : b.Grows (b.hear ingested eof) := by
  unfold Box.hear
  split
  · exact .refl b
  · exact ⟨(b.grows_foldl ingested).text, (b.grows_foldl ingested).chunks⟩

/-- The chunks put together are the text. -/
def Box.Consistent (b : Box) : Prop := b.text = b.chunks.flatMap (·.2)

theorem Box.Consistent.append {b : Box} (h : b.Consistent) (now : ℚ) (chunk : List Char) :
    (b.append now chunk).Consistent := by
  unfold Box.Consistent at h
  unfold Box.append
  split
  · exact h
  · split
    · simp [Box.Consistent, h]
    · simp [Box.Consistent, h]

theorem Box.Consistent.hear {b : Box} (h : b.Consistent) (ingested : Chunks) (eof : Bool) :
    (b.hear ingested eof).Consistent := by
  have hfold : ∀ (ingested : Chunks) (b : Box), b.Consistent →
      (ingested.foldl (fun box chunk => box.append chunk.1 chunk.2) b).Consistent := by
    intro ingested
    induction ingested with
    | nil => exact fun b h => h
    | cons chunk rest ih => exact fun b h => ih _ (h.append chunk.1 chunk.2)
  unfold Box.hear
  split
  · exact h
  · exact hfold ingested b h

/-! ### The first occurrence -/

/-- `first_occurrence_stamp` -/
def firstOccurrenceStamp (text : List Char) (chunks : Chunks) (needle : List Char) (since : Option ℚ) : Option ℚ :=
  match find needle text with
  | none => none
  | some pos =>
    match tagAt pos chunks, since with
    | some stamp, some since => if stamp ≥ since then some stamp else none
    | _, _ => none

def Box.firstAnswerStamp (b : Box) (needle : List Char) (since : Option ℚ) : Option ℚ :=
  firstOccurrenceStamp b.text b.chunks needle since

theorem firstOccurrenceStamp_eq_some {text needle : List Char} {chunks : Chunks} {since : Option ℚ} {stamp : ℚ} :
    firstOccurrenceStamp text chunks needle since = some stamp ↔
      ∃ pos start, find needle text = some pos ∧ tagAt pos chunks = some stamp ∧ since = some start ∧ start ≤ stamp := by
  unfold firstOccurrenceStamp
  cases hfind : find needle text with
  | none => simp
  | some pos =>
    cases htag : tagAt pos chunks with
    | none => simp [htag]
    | some tag =>
      cases since with
      | none => simp
      | some start =>
        simp only [ge_iff_le, Option.ite_none_right_eq_some, Option.some.injEq, htag]
        constructor
        · rintro ⟨hle, rfl⟩
          exact ⟨pos, start, rfl, htag, rfl, hle⟩
        · rintro ⟨pos', start', rfl, htag', rfl, hle⟩
          obtain rfl : tag = stamp := by simpa [htag] using htag'
          exact ⟨hle, rfl⟩

/-- A first occurrence that counts as an answer stays one while the log grows. -/
theorem Box.Grows.firstAnswerStamp {b b' : Box} (h : b.Grows b') {needle : List Char} {since : Option ℚ} {stamp : ℚ}
    (hstamp : b.firstAnswerStamp needle since = some stamp) : b'.firstAnswerStamp needle since = some stamp := by
  obtain ⟨pos, start, hfind, htag, hsince, hle⟩ := firstOccurrenceStamp_eq_some.1 hstamp
  obtain ⟨moreText, htext⟩ := h.text
  obtain ⟨moreChunks, hchunks⟩ := h.chunks
  apply firstOccurrenceStamp_eq_some.2
  refine ⟨pos, start, ?_, ?_, hsince, hle⟩
  · rw [← htext]
    exact find_append hfind moreText
  · rw [← hchunks]
    exact tagAt_append htag moreChunks

private theorem find_lt_length {needle text : List Char} {pos : Nat} (hpos : find needle text = some pos)
    (hne : needle ≠ [] ∨ text ≠ []) : pos < text.length := by
  obtain ⟨-, hlen⟩ := find_eq_some hpos
  by_cases hneedle : needle = []
  · -- the empty text is found at once
    have htext : 0 < text.length := List.length_pos_iff.2 (hne.resolve_left (not_not.2 hneedle))
    have hzero : pos = 0 := by
      by_contra hpositive
      exact find_minimal hpos (Nat.pos_of_ne_zero hpositive) (by simp [hneedle])
    omega
  · have := List.length_pos_iff.2 hneedle
    omega

/-- Once the needle is in the text, the answer is the same for every longer log. -/
theorem firstOccurrenceStamp_kept {text text' needle : List Char} {chunks chunks' : Chunks} {pos : Nat}
    (h : text = chunks.flatMap (·.2)) (hpos : find needle text = some pos) (hne : needle ≠ [] ∨ text ≠ [])
    (htext : text <+: text') (hchunks : chunks <+: chunks') (since : Option ℚ) :
    firstOccurrenceStamp text' chunks' needle since = firstOccurrenceStamp text chunks needle since := by
  obtain ⟨moreText, rfl⟩ := htext
  obtain ⟨moreChunks, rfl⟩ := hchunks
  have hlt := find_lt_length hpos hne
  rw [h] at hlt
  obtain ⟨tag, htag⟩ := Option.isSome_iff_exists.1 (tagAt_isSome hlt)
  unfold firstOccurrenceStamp
  rw [find_append hpos, hpos]
  dsimp only
  rw [tagAt_append htag, htag]

theorem Box.Consistent.kept {b b' : Box} (h : b.Consistent) (hgrows : b.Grows b') {needle : List Char}
    (hne : needle ≠ []) (hoccurs : (find needle b.text).isSome = true) (since : Option ℚ) :
    b'.firstAnswerStamp needle since = b.firstAnswerStamp needle since := by
  obtain ⟨pos, hpos⟩ := Option.isSome_iff_exists.1 hoccurs
  exact firstOccurrenceStamp_kept h hpos (.inl hne) hgrows.text hgrows.chunks since

/-! ### Scoring -/

/-- What the runner takes from Python: `re.compile`, the end of the match `re.search` finds, and `float`. -/
structure Builtins where
  compiles : List Char → Bool
  search : List Char → List Char → Option Nat
  float : List Char → Option ℚ

inductive Missed
  | pattern (pattern : List Char)
  | count (pattern : List Char) (found required : Nat)
  | period (pattern : List Char) (delta lo hi : ℚ)
  | unpaced (pattern : List Char) (delta lo hi : ℚ)

def eventStampTolerance : ℚ := 15 / 100

/-- `line[m.end():].split()` -/
def words (line : List Char) : List (List Char) := (line.splitOnP isSpace).filter fun word => !word.isEmpty

/-- The first interval between consecutive stamps that leaves the bounds. -/
def outOfPeriod (lo hi : ℚ) (stamps : List ℚ) : Option ℚ :=
  ((stamps.zip stamps.tail).map fun pair => pair.2 - pair.1).find? fun delta => !(lo ≤ delta && delta ≤ hi)

def eventStamp (py : Builtins) (pattern line : List Char) : Option ℚ := do
  let stop ← py.search pattern line
  let tail ← (words (line.drop stop)).getLast?
  py.float tail

/-- `_check_events` -/
def checkEvents (py : Builtins) (serialText : List Char) (events : List Events) : List Missed :=
  events.filterMap fun ev =>
    let stamps := (splitlines serialText).filterMap (eventStamp py ev.pattern)
    if stamps.length < ev.countMin then some (.count ev.pattern stamps.length ev.countMin)
    else ev.periodMs.bind fun period =>
      (outOfPeriod period.1 period.2 stamps).map fun delta => .period ev.pattern delta period.1 period.2

/-- The chunk stamps of the lines that match, one for each line. -/
def eventChunkStamps (py : Builtins) (pattern : List Char) (chunks : Chunks) : List ℚ :=
  chunks.flatMap fun chunk =>
    ((splitlines chunk.2).filter fun line => (py.search pattern line).isSome).map fun _ => chunk.1

/-- `_check_events_realtime` -/
def checkEventsRealtime (py : Builtins) (chunks : Chunks) (events : List Events) : List Missed :=
  events.filterMap fun ev =>
    ev.periodMs.bind fun period =>
      let stamps := eventChunkStamps py ev.pattern chunks
      if stamps.length < ev.countMin then none
      else (outOfPeriod (period.1 / 1000 - eventStampTolerance) (period.2 / 1000 + eventStampTolerance) stamps).map
        fun delta => .unpaced ev.pattern delta period.1 period.2

/-- `_check_patterns` -/
def checkPatterns (py : Builtins) (serialText : List Char) (expect fail : List (List Char)) :
    List Missed × List (List Char) :=
  ((expect.filter fun pattern => !(py.search pattern serialText).isSome).map .pattern,
    fail.filter fun pattern => (py.search pattern serialText).isSome)

/-- `_plain_text`: the pattern has no character that means something in a regular expression. -/
def isPlainText (pattern : List Char) : Bool :=
  !pattern.any fun c => c ∈ ['\\', '^', '$', '.', '|', '?', '*', '+', '(', ')', '[', ']', '\x7b', '\x7d']

end IronHarness.Runner
