import Mathlib.Data.List.Chain
import Mathlib.Tactic.Linarith
import Mathlib.Tactic.NormNum
import IronHarness.Lib.ChunkLines
import IronHarness.Runner.Log

/-!
# Events that come in a burst

`_check_events` counts the lines of the whole text, `_check_events_realtime` those of each chunk with the stamp of the
chunk.  A counted line is seen by the second check where its last piece, the part in the chunk where it ends, still
matches; then the stamps of the ends are among those the second check looks at (`ends_sublist`), and a burst is found
out (`ends_are_paced`).
-/

namespace IronHarness.Runner

open TextLines

/-- A character of the output with the number and the stamp of its chunk. -/
structure Placed where
  chunk : Nat
  stamp : ℚ
  char : Char

def placedFrom (n : Nat) : Chunks → List (List Placed)
  | [] => []
  | (stamp, text) :: chunks => text.map (fun c => ⟨n, stamp, c⟩) :: placedFrom (n + 1) chunks

/-- The lines of the output with their characters in place. -/
def placedLines (chunks : Chunks) : List (List Placed) := scan Placed.char [] false (placedFrom 0 chunks).flatten

def lineText (line : List Placed) : List Char := line.map Placed.char

/-- The lines that `_check_events` counts. -/
def countedLines (py : Builtins) (pattern : List Char) (chunks : Chunks) : List (List Placed) :=
  (placedLines chunks).filter fun line => (eventStamp py pattern (lineText line)).isSome

/-- The stamp of the chunk where the line ends. -/
def endStamp (line : List Placed) : Option ℚ := line.getLast?.map Placed.stamp

/-- The part of the line in the chunk where it ends still matches the pattern. -/
def EndSeen (py : Builtins) (pattern : List Char) (line : List Placed) : Prop :=
  (py.search pattern (lineText (lastPiece Placed.chunk line))).isSome = true

instance (py : Builtins) (pattern : List Char) (line : List Placed) : Decidable (EndSeen py pattern line) :=
  inferInstanceAs (Decidable (_ = true))

variable {py : Builtins} {pattern : List Char} {chunks : Chunks}

private theorem tagged_placedFrom (n : Nat) (chunks : Chunks) : Tagged Placed.chunk n (placedFrom n chunks) := by
  induction chunks generalizing n with
  | nil => trivial
  | cons chunk chunks ih =>
    refine ⟨?_, ih (n + 1)⟩
    intro x hx
    obtain ⟨c, -, rfl⟩ := List.mem_map.1 hx
    rfl

private theorem text_placedFrom (n : Nat) (chunks : Chunks) :
    (placedFrom n chunks).flatten.map Placed.char = chunks.flatMap Prod.snd := by
  induction chunks generalizing n with
  | nil => rfl
  | cons chunk chunks ih =>
    rw [placedFrom, List.flatten_cons, List.map_append, ih (n + 1), List.flatMap_cons, List.map_map]
    congr 1
    exact List.map_id _

/-- The lines in place are the lines of the text. -/
private theorem placedLines_text (chunks : Chunks) :
    (placedLines chunks).map lineText = splitlines (chunks.flatMap Prod.snd) := by
  rw [splitlines_eq_scan, ← text_placedFrom 0 chunks]
  exact map_scan [] false _

private theorem length_counted :
    (countedLines py pattern chunks).length =
      ((splitlines (chunks.flatMap Prod.snd)).filterMap (eventStamp py pattern)).length := by
  rw [← placedLines_text, countedLines]
  induction placedLines chunks with
  | nil => rfl
  | cons line lines ih =>
    rw [List.filter_cons, List.map_cons, List.filterMap_cons]
    cases eventStamp py pattern (lineText line) with
    | none => simpa using ih
    | some stamp => simpa using ih

/-- A counted line has an end. -/
private theorem endStamp_of_counted {line : List Placed} (h : line ∈ countedLines py pattern chunks) :
    ∃ s, endStamp line = some s := by
  have hstamp := (List.mem_filter.1 h).2
  cases line with
  | nil =>
    have hnone : eventStamp py pattern [] = none := by
      unfold eventStamp
      cases py.search pattern [] with
      | none => rfl
      | some stop => simp [words]
    rw [lineText, List.map_nil, hnone] at hstamp
    cases hstamp
  | cons x line =>
    rw [endStamp, List.getLast?_eq_some_getLast (by simp)]
    exact ⟨_, rfl⟩

/-! ### The stamps that the second check looks at -/

/-- The lines of the chunks, in place. -/
def chunkLines (n : Nat) (chunks : Chunks) : List (List Placed) := (placedFrom n chunks).flatMap (scan Placed.char [] false)

private theorem filterMap_sublist {α β : Type} {f : α → Option β} {b : β} {xs : List α}
    (h : ∀ x ∈ xs, ∀ y, f x = some y → y = b) :
    (xs.filterMap f).Sublist (xs.map fun _ => b) := by
  induction xs with
  | nil => simp
  | cons x xs ih =>
    have hxs := ih fun x hx => h x (List.mem_cons_of_mem _ hx)
    rw [List.filterMap_cons, List.map_cons]
    cases hx : f x with
    | none => exact hxs.trans (List.sublist_cons_self _ _)
    | some y =>
      obtain rfl := h x (by simp) y hx
      exact hxs.cons_cons _

/-- The characters of a line are among those that were scanned. -/
private theorem mem_of_scan {α : Type} {char : α → Char} {acc xs line : List α} {cr : Bool} {x : α}
    (hline : line ∈ scan char acc cr xs) (hx : x ∈ line) : x ∈ acc ∨ x ∈ xs := by
  induction xs generalizing acc cr with
  | nil =>
    rw [scan] at hline
    split at hline
    · cases hline
    · obtain rfl := List.mem_singleton.1 hline
      exact .inl (List.mem_reverse.1 hx)
  | cons y xs ih =>
    rw [scan] at hline
    split at hline
    · exact (ih hline).imp_right (List.mem_cons_of_mem _)
    · split at hline
      · rcases List.mem_cons.1 hline with rfl | hline
        · exact .inl (List.mem_reverse.1 hx)
        · exact (ih hline).elim (fun h => absurd h List.not_mem_nil) fun h => .inr (List.mem_cons_of_mem _ h)
      · rcases ih hline with h | h
        · rcases List.mem_cons.1 h with rfl | h
          · exact .inr (by simp)
          · exact .inl h
        · exact .inr (List.mem_cons_of_mem _ h)

/-- The stamps of the lines of one chunk. -/
private theorem chunk_stamps (n : Nat) (stamp : ℚ) (text : List Char) :
    (((scan Placed.char [] false (text.map fun c => ⟨n, stamp, c⟩)).filter
        fun line => (py.search pattern (lineText line)).isSome).filterMap endStamp).Sublist
      (((splitlines text).filter fun line => (py.search pattern line).isSome).map fun _ => stamp) := by
  have htext : (text.map fun c => (⟨n, stamp, c⟩ : Placed)).map Placed.char = text := by
    rw [List.map_map]
    exact List.map_id _
  have hlines : (scan Placed.char [] false (text.map fun c => ⟨n, stamp, c⟩)).map lineText = splitlines text := by
    rw [splitlines_eq_scan]
    conv_rhs => rw [← htext]
    exact map_scan [] false _
  rw [← hlines, List.filter_map, List.map_map]
  apply filterMap_sublist
  intro line hline s hs
  obtain ⟨x, hx, rfl⟩ := Option.map_eq_some_iff.1 hs
  rcases mem_of_scan (List.mem_filter.1 hline).1 (List.mem_of_getLast? hx) with hacc | hmem
  · cases hacc
  · obtain ⟨c, -, rfl⟩ := List.mem_map.1 hmem
    rfl

private theorem stamps_sublist (n : Nat) (chunks : Chunks) :
    (((chunkLines n chunks).filter fun line => (py.search pattern (lineText line)).isSome).filterMap endStamp).Sublist
      (eventChunkStamps py pattern chunks) := by
  induction chunks generalizing n with
  | nil => simp [chunkLines, placedFrom]
  | cons chunk chunks ih =>
    rw [chunkLines, placedFrom, List.flatMap_cons, List.filter_append, List.filterMap_append, eventChunkStamps,
      List.flatMap_cons]
    exact (chunk_stamps n chunk.1 chunk.2).append (ih (n + 1))

/-- The stamps of the ends of the counted lines are among those of the second check, in order. -/
private theorem ends_sublist (hseen : ∀ line ∈ countedLines py pattern chunks, EndSeen py pattern line) :
    ((countedLines py pattern chunks).filterMap endStamp).Sublist (eventChunkStamps py pattern chunks) := by
  have hend : ∀ line : List Placed, endStamp (lastPiece Placed.chunk line) = endStamp line := by
    intro line
    rw [endStamp, getLast_lastPiece, endStamp]
  have hpieces : ((countedLines py pattern chunks).map (lastPiece Placed.chunk)).Sublist
      ((chunkLines 0 chunks).filter fun line => (py.search pattern (lineText line)).isSome) := by
    have hall : ((countedLines py pattern chunks).map (lastPiece Placed.chunk)).filter
        (fun line => (py.search pattern (lineText line)).isSome) =
          (countedLines py pattern chunks).map (lastPiece Placed.chunk) := by
      rw [List.filter_eq_self]
      intro piece hpiece
      obtain ⟨line, hline, rfl⟩ := List.mem_map.1 hpiece
      exact hseen line hline
    rw [← hall]
    apply List.Sublist.filter
    exact ((List.filter_sublist).map _).trans (pieces_sublist (tagged_placedFrom 0 chunks))
  have hsame : (countedLines py pattern chunks).filterMap endStamp =
      ((countedLines py pattern chunks).map (lastPiece Placed.chunk)).filterMap endStamp := by
    rw [List.filterMap_map]
    apply List.filterMap_congr
    intro line _
    exact (hend line).symm
  rw [hsame]
  exact (hpieces.filterMap _).trans (stamps_sublist 0 chunks)

/-! ### The declared period -/

/-- Stamps that keep a distance. -/
def Paced (distance : ℚ) (s t : ℚ) : Prop := distance ≤ t - s

private theorem paced_of_outOfPeriod {lo hi : ℚ} {stamps : List ℚ} (h : outOfPeriod lo hi stamps = none) :
    stamps.IsChain (Paced lo) := by
  induction stamps with
  | nil => exact .nil
  | cons s stamps ih =>
    cases stamps with
    | nil => exact .singleton s
    | cons t stamps =>
      simp only [outOfPeriod, List.tail_cons, List.zip_cons_cons, List.map_cons, List.find?_cons] at h
      split at h
      · cases h
      · rename_i hdelta
        have hlow : lo ≤ t - s := by
          simp only [Bool.not_eq_false', Bool.and_eq_true, decide_eq_true_eq] at hdelta
          exact hdelta.1
        exact .cons_cons hlow (ih h)

private theorem paced_sublist {distance : ℚ} (hpos : 0 < distance) {xs ys : List ℚ} (h : ys.IsChain (Paced distance))
    (hsub : xs.Sublist ys) : xs.IsChain (Paced distance) := by
  have htrans : Trans (Paced distance) (Paced distance) (Paced distance) := by
    constructor
    intro a b c hab hbc
    unfold Paced at hab hbc ⊢
    linarith
  exact h.sublist hsub

/-- Without a miss of either check, the ends of consecutive counted lines are as far apart as the period says, where
the last piece of each counted line matches. -/
theorem ends_are_paced {events : List Events} {ev : Events} {lo hi : ℚ} (hev : ev ∈ events)
    (hperiod : ev.periodMs = some (lo, hi)) (hlo : eventStampTolerance < lo / 1000)
    (hcheck : checkEvents py (chunks.flatMap Prod.snd) events = [])
    (hreal : checkEventsRealtime py chunks events = [])
    (hseen : ∀ line ∈ countedLines py ev.pattern chunks, EndSeen py ev.pattern line) :
    (∀ line ∈ countedLines py ev.pattern chunks, ∃ s, endStamp line = some s) ∧
      (countedLines py ev.pattern chunks).IsChain fun a b =>
        ∀ s t, endStamp a = some s → endStamp b = some t → lo / 1000 - eventStampTolerance ≤ t - s := by
  refine ⟨fun line hline => endStamp_of_counted hline, ?_⟩
  have hsub := ends_sublist hseen
  have hends : (countedLines py ev.pattern chunks).filterMap endStamp =
      (countedLines py ev.pattern chunks).map fun line => (endStamp line).getD 0 := by
    rw [← List.filterMap_eq_map]
    apply List.filterMap_congr
    intro line hline
    obtain ⟨s, hs⟩ := endStamp_of_counted hline
    simp [hs]
  have hcount : ev.countMin ≤ (countedLines py ev.pattern chunks).length := by
    have hnone := (List.filterMap_eq_nil_iff.1 hcheck) ev hev
    rw [length_counted]
    by_contra hlt
    rw [if_pos (Nat.lt_of_not_le hlt)] at hnone
    cases hnone
  have hmany : ¬ (eventChunkStamps py ev.pattern chunks).length < ev.countMin := by
    have hlength := hsub.length_le
    rw [hends, List.length_map] at hlength
    omega
  have hstamps : (eventChunkStamps py ev.pattern chunks).IsChain (Paced (lo / 1000 - eventStampTolerance)) := by
    have hnone := (List.filterMap_eq_nil_iff.1 hreal) ev hev
    rw [hperiod, Option.bind_some, if_neg hmany, Option.map_eq_none_iff] at hnone
    exact paced_of_outOfPeriod hnone
  have hpaced := paced_sublist (by linarith) hstamps hsub
  rw [hends, List.isChain_map] at hpaced
  refine hpaced.imp fun a b hab s t hs ht => ?_
  rw [hs, ht] at hab
  exact hab

/-- Search for plain patterns, and the numbers 0 and 500. -/
def pulseBuiltins : Builtins where
  compiles := isPlainText
  search := fun pattern text => (ByteText.find pattern text).map (· + pattern.length)
  float := fun text => if text = ['0'] then some 0 else if text = ['5', '0', '0'] then some 500 else none

/-- Two events at least, 400 to 1000 ms apart. -/
def pulse : Events := ⟨['E', 'V'], 2, some (400, 1000)⟩

def pacedChunks : Chunks := [(0, "EV 0\n".toList), (1 / 2, "EV 500\n".toList)]

theorem ends_are_paced_pulse :
    (countedLines pulseBuiltins pulse.pattern pacedChunks).length = 2 ∧
      (countedLines pulseBuiltins pulse.pattern pacedChunks).IsChain fun a b =>
        ∀ s t, endStamp a = some s → endStamp b = some t → 400 / 1000 - eventStampTolerance ≤ t - s :=
  ⟨rfl, (ends_are_paced (List.mem_singleton_self pulse) rfl (by norm_num [eventStampTolerance])
    (List.isEmpty_iff.1 (by decide +kernel)) (List.isEmpty_iff.1 (by decide +kernel)) (by decide +kernel)).2⟩

/-- Both events at once, each cut by the reader behind its first character. -/
def cutChunks : Chunks := [(0, "E".toList), (0, "V 0\nE".toList), (0, "V 500\n".toList)]

theorem cut_burst_passes :
    checkEvents pulseBuiltins (cutChunks.flatMap Prod.snd) [pulse] = [] ∧
      checkEventsRealtime pulseBuiltins cutChunks [pulse] = [] ∧
      ¬ (countedLines pulseBuiltins pulse.pattern cutChunks).IsChain fun a b =>
        ∀ s t, endStamp a = some s → endStamp b = some t → 400 / 1000 - eventStampTolerance ≤ t - s := by
  refine ⟨List.isEmpty_iff.1 (by decide +kernel), List.isEmpty_iff.1 (by decide +kernel), fun h => ?_⟩
  obtain ⟨a, b, hlines, ha, hb⟩ : ∃ a b, countedLines pulseBuiltins pulse.pattern cutChunks = [a, b] ∧
      endStamp a = some 0 ∧ endStamp b = some 0 := ⟨_, _, rfl, rfl, rfl⟩
  rw [hlines, List.isChain_cons_cons] at h
  have hgap := h.1 0 0 ha hb
  norm_num [eventStampTolerance] at hgap

end IronHarness.Runner
