import IronHarness.Board.Fallible
import IronHarness.Board.Files

/-!
# Leaving raw mode

What a transfer leaves behind when it ends, over any transport.  Once raw mode is reached, every path tries to close an
open file and then to leave raw mode.  `enter` itself has no such path: where its last attempt got the Ctrl-A to the
board and then fails, the board is left in raw mode (`released_iff`).
-/

namespace IronHarness.Board.Fallible

open ByteText PyLiteral MpRepl

/-! ### What must follow what -/

/-- What follows each `trigger` in a log has `P`. -/
def After (trigger : Entry) (P : List Entry → Prop) : List Entry → Prop
  | [] => True
  | e :: log => (e = trigger → P log) ∧ After trigger P log

section After

variable {trigger : Entry} {P P' : List Entry → Prop}

theorem after_append (a b : List Entry) :
    After trigger P (a ++ b) ↔ After trigger (fun post => P (post ++ b)) a ∧ After trigger P b := by
  induction a with
  | nil => simp [After]
  | cons e a ih =>
    rw [List.cons_append, After, After, ih]
    exact and_assoc.symm

theorem After.mono {log : List Entry} (h : After trigger P log) (himp : ∀ post, P post → P' post) :
    After trigger P' log := by
  induction log with
  | nil => trivial
  | cons e log ih => exact ⟨fun he => himp log (h.1 he), ih h.2⟩

private theorem After.of_notin {log : List Entry} (h : trigger ∉ log) : After trigger P log := by
  induction log with
  | nil => trivial
  | cons e log ih =>
    rw [List.mem_cons, not_or] at h
    exact ⟨fun he => absurd he.symm h.1, ih h.2⟩

/-- What `b` has whatever comes before it, the triggers before it are followed by. -/
private theorem After.prepend {b : List Entry} (h : After trigger P b) (hP : ∀ post, P (post ++ b)) (a : List Entry) :
    After trigger P (a ++ b) := by
  induction a with
  | nil => exact h
  | cons e a ih => exact ⟨fun _ => hP a, ih⟩

end After

/-- `f.close()` on the wire. -/
def closeLine : Bytes := encode closeCommand ++ [ctrlD]

/-- A Ctrl-B is tried. -/
def Leaves (log : List Entry) : Prop := ∃ ok, .write [ctrlB] ok ∈ log

/-- `f.close()` is tried. -/
def Closes (log : List Entry) : Prop := ∃ ok, .write closeLine ok ∈ log

/-- `f.close()` is tried, and then a Ctrl-B. -/
def ClosesAndLeaves (log : List Entry) : Prop :=
  ∃ between ok later, log = between ++ .write closeLine ok :: later ∧ Leaves later

/-- Behind each Ctrl-A that was written a Ctrl-B is tried, and behind each `open` that returned an `f.close()` before
it. -/
structure Released (isPrintable : Char → Bool) (target : PyStr) (mode : List Char) (log : List Entry) : Prop where
  raw : After (.write [ctrlA] true) Leaves log
  file : After (.returned (openCommand isPrintable target mode)) ClosesAndLeaves log

/-! ### The defect -/

/-- Where `enter` stands: the writes of the dance it has made, the sections it waits for, or its handler, with the
board in raw mode or not. -/
inductive Stage
  | dance (made : Nat)
  | waiting (pending : List Bytes)
  | handler (raw : Bool)

/-- Cuts the sections that a buffer holds whole: what is still pending, and the rest of the buffer. -/
def settle : List Bytes → Bytes → List Bytes × Bytes
  | [], buf => ([], buf)
  | terminator :: pending, buf =>
    match Stream.cut terminator buf with
    | some (_, rest) => settle pending rest
    | none => (terminator :: pending, buf)

/-- What the transport must do to strand the board: it takes the three writes of an attempt, and then the wait for the
banner and the prompt ends for good, by a failure of a read other than a TimeoutError, by a read that brings the buffer
over its cap, or by a TimeoutError when the whole budget is over. -/
def stranded : Stage → Bytes → List Turn → Bool
  | .dance made, buf, .write none :: turns =>
    if made < 2 then stranded (.dance (made + 1)) buf turns
    else match settle [rawRepl, [prompt]] buf with
      | ([], _) => false
      | (pending, buf) => stranded (.waiting pending) buf turns
  | .dance _, buf, .write (some f) :: turns => if f = timeoutError then stranded (.handler false) buf turns else false
  | .waiting _, buf, .clock true :: turns => stranded (.handler true) buf turns
  | .waiting _, buf, .clock false :: .read (.error f) :: turns =>
    if f = timeoutError then stranded (.handler true) buf turns else true
  | .waiting pending, buf, .clock false :: .read (.ok chunk) :: turns =>
    if Stream.maxStreamBuf < (buf ++ chunk).length then true
    else match settle pending (buf ++ chunk) with
      | ([], _) => false
      | (pending, buf) => stranded (.waiting pending) buf turns
  | .handler raw, _, .clock true :: _ => raw
  | .handler _, buf, .clock false :: turns => stranded (.dance 0) buf turns
  | _, _, _ => false

/-- The wait for these sections. -/
def awaiting (pending : List Bytes) (buf : Bytes) (turns : List Turn) : Bool :=
  match settle pending buf with
  | ([], _) => false
  | (pending, buf) => stranded (.waiting pending) buf turns

private theorem awaiting_cut {terminator piece rest buf : Bytes} (h : Stream.cut terminator buf = some (piece, rest))
    (pending : List Bytes) (turns : List Turn) : awaiting (terminator :: pending) buf turns = awaiting pending rest turns := by
  rw [awaiting, settle, h]
  rfl

private theorem awaiting_none {terminator buf : Bytes} (h : Stream.cut terminator buf = none) (pending : List Bytes)
    (turns : List Turn) : awaiting (terminator :: pending) buf turns = stranded (.waiting (terminator :: pending)) buf turns := by
  rw [awaiting, settle, h]

/-- What becomes of the wait behind the end of one `until`. -/
def behind (pending : List Bytes) (l : Line) (turns : List Turn) : Except Failure Bytes → Bool
  | .ok _ => awaiting pending l.buf turns
  | .error e => if e = timeoutError then stranded (.handler true) l.buf turns else true

private theorem untilLoop_awaiting {terminator : Bytes} (pending : List Bytes) {l l' : Line} {turns rest : List Turn}
    {r : Except Failure Bytes} (h : untilLoop terminator turns l = some (r, l', rest)) :
    awaiting (terminator :: pending) l.buf turns = behind pending l' rest r := by
  fun_induction untilLoop terminator turns l with
  | case1 l =>
    obtain ⟨⟨piece, tail⟩, hcut, heq⟩ := Option.map_eq_some_iff.1 h
    cases heq
    exact awaiting_cut hcut pending []
  | case2 t turns l piece tail hcut =>
    cases h
    exact awaiting_cut hcut pending _
  | case3 l hcut turns =>
    cases h
    rw [awaiting_none hcut, stranded]
    rfl
  | case4 l hcut f turns =>
    cases h
    rw [awaiting_none hcut, stranded]
    rfl
  | case5 l hcut chunk turns l₁ hcap =>
    simp only [Option.some.injEq, Prod.mk.injEq] at h
    obtain ⟨rfl, rfl, rfl⟩ := h
    rw [awaiting_none hcut, stranded, if_pos hcap]
    rfl
  | case6 l hcut chunk turns l₁ hcap ih =>
    rw [awaiting_none hcut, stranded, if_neg hcap]
    exact ih h
  | case7 => cases h

/-! ### The dance -/

/-- An attempt that gets its Ctrl-A to the board logs these. -/
def danced : List Entry := [.write [ctrlB] true, .write [ctrlC, ctrlC] true, .write [ctrlA] true]

/-- How an attempt of `enter` ends: at the prompt, in raw mode, or before its Ctrl-A was accepted. -/
private theorem dance_run {l l' : Line} {turns rest : List Turn} {r : Except Failure Unit}
    (h : dance l turns = some (r, l', rest)) :
    ∃ ok new, l'.log = l.log ++ .write [ctrlB] ok :: new ∧
      ((r = .ok () ∧ stranded (.dance 0) l.buf turns = false) ∨
        ∃ e, r = .error e ∧
          ((Entry.write [ctrlB] ok :: new = danced ∧ stranded (.dance 0) l.buf turns =
              if e = timeoutError then stranded (.handler true) l'.buf rest else true) ∨
            (.write [ctrlA] true ∉ Entry.write [ctrlB] ok :: new ∧ stranded (.dance 0) l.buf turns =
              if e = timeoutError then stranded (.handler false) l'.buf rest else false))) := by
  have hrefused : ∀ (made : Nat) buf f turns, stranded (.dance made) buf (.write (some f) :: turns) =
      if f = timeoutError then stranded (.handler false) buf turns else false := by
    intro made buf f turns
    rw [stranded]
  obtain ⟨e, rfl, rfl, rfl⟩ | ⟨turns₁, rfl, hc⟩ := write_bind_run h
  · exact ⟨false, [], rfl, .inr ⟨e, rfl, .inr ⟨by decide, hrefused 0 _ _ _⟩⟩⟩
  obtain ⟨e, rfl, rfl, rfl⟩ | ⟨turns₂, rfl, ha⟩ := write_bind_run hc
  · refine ⟨true, [.write [ctrlC, ctrlC] false], by simp, .inr ⟨e, rfl, .inr ⟨by decide, ?_⟩⟩⟩
    rw [stranded, if_pos (by decide), hrefused]
  obtain ⟨e, rfl, rfl, rfl⟩ | ⟨turns₃, rfl, hbanner⟩ := write_bind_run ha
  · refine ⟨true, [.write [ctrlC, ctrlC] true, .write [ctrlA] false], by simp, .inr ⟨e, rfl, .inr ⟨by decide, ?_⟩⟩⟩
    rw [stranded, if_pos (by decide), stranded, if_pos (by decide), hrefused]
  -- the three writes are behind it: the wait decides
  have hwait : stranded (.dance 0) l.buf (.write none :: .write none :: .write none :: turns₃) =
      awaiting [rawRepl, [prompt]] l.buf turns₃ := by
    rw [stranded, if_pos (by decide), stranded, if_pos (by decide), stranded, if_neg (by decide)]
    rfl
  rw [hwait]
  have hend : l'.log = l.log ++ danced ∧
      awaiting [rawRepl, [prompt]] l.buf turns₃ = behind [] l' rest (r.map fun _ => []) := by
    obtain ⟨e, hu, rfl⟩ | ⟨piece, l₂, turns₄, hu, h⟩ := bind_run hbanner
    · have hlog := untilLoop_log hu
      exact ⟨by rw [hlog]; simp [danced], untilLoop_awaiting [[prompt]] hu⟩
    · have hlog := untilLoop_log hu
      have hfirst := untilLoop_awaiting [[prompt]] hu
      obtain ⟨e, hp, rfl⟩ | ⟨piece', l₃, turns₅, hp, h⟩ := bind_run h
      · have hlog' := untilLoop_log hp
        exact ⟨by rw [hlog', hlog]; simp [danced], hfirst.trans (untilLoop_awaiting [] hp)⟩
      · have hlog' := untilLoop_log hp
        cases h
        have hsecond : awaiting [[prompt]] l₂.buf turns₄ = behind [] l' rest (.ok piece') := untilLoop_awaiting [] hp
        exact ⟨by rw [hlog', hlog]; simp [danced], hfirst.trans hsecond⟩
  obtain ⟨hlog, hwaited⟩ := hend
  refine ⟨true, [.write [ctrlC, ctrlC] true, .write [ctrlA] true], hlog, ?_⟩
  rw [hwaited]
  cases r with
  | ok a => exact .inl ⟨rfl, rfl⟩
  | error e => exact .inr ⟨e, rfl, .inl ⟨rfl, rfl⟩⟩

/-! ### The enter loop -/

private theorem leaves_append {a b : List Entry} (h : Leaves b) : Leaves (a ++ b) := by
  obtain ⟨ok, hmem⟩ := h
  exact ⟨ok, List.mem_append_right a hmem⟩

/-- A log that ends in a Ctrl-A is of no attempt to leave raw mode. -/
private theorem stuck_of_last (front : List Entry) :
    ¬ After (.write [ctrlA] true) Leaves (front ++ [.write [ctrlA] true]) := by
  intro h
  obtain ⟨ok, hmem⟩ := ((after_append front _).1 h).2.1 rfl
  cases hmem

/-- Each attempt begins with a Ctrl-B, so only the last one can strand the board. -/
private theorem enter_run {fuel : Nat} {l l' : Line} {turns rest : List Turn} {r : Except Failure Unit}
    (h : enter fuel l turns = some (r, l', rest)) :
    ∃ ok new, l'.log = l.log ++ .write [ctrlB] ok :: new ∧
      ((r = .ok () ∧ stranded (.dance 0) l.buf turns = false) ∨
        ∃ e, r = .error e ∧
          ((stranded (.dance 0) l.buf turns = true ∧
              ∃ front, Entry.write [ctrlB] ok :: new = front ++ [.write [ctrlA] true]) ∨
            (stranded (.dance 0) l.buf turns = false ∧
              After (.write [ctrlA] true) Leaves (.write [ctrlB] ok :: new)))) := by
  induction fuel generalizing l turns with
  | zero => cases h
  | succ fuel ih =>
    obtain ⟨_, hdance, rfl⟩ | ⟨e, l₁, turns₁, hdance, h⟩ := catching_run h
    · obtain ⟨ok, new, hlog, ⟨-, hfree⟩ | ⟨e, he, -⟩⟩ := dance_run hdance
      · exact ⟨ok, new, hlog, .inl ⟨rfl, hfree⟩⟩
      · cases he
    obtain ⟨ok, new, hlog, ⟨he, -⟩ | ⟨e', he, hcase⟩⟩ := dance_run hdance
    · cases he
    cases he
    -- what the attempt left: the board in raw mode or not, and the log of the attempt
    obtain ⟨raw, hlast, hstranded⟩ : ∃ raw : Bool,
        (if raw then Entry.write [ctrlB] ok :: new = danced else .write [ctrlA] true ∉ Entry.write [ctrlB] ok :: new) ∧
        stranded (.dance 0) l.buf turns = if e = timeoutError then stranded (.handler raw) l₁.buf turns₁ else raw := by
      obtain ⟨hnew, hs⟩ | ⟨hnew, hs⟩ := hcase
      · exact ⟨true, hnew, hs⟩
      · exact ⟨false, hnew, hs⟩
    have hfinal : (raw = true ∧ ∃ front, Entry.write [ctrlB] ok :: new = front ++ [.write [ctrlA] true]) ∨
        (raw = false ∧ After (.write [ctrlA] true) Leaves (.write [ctrlB] ok :: new)) := by
      cases raw with
      | true => exact .inl ⟨rfl, [.write [ctrlB] true, .write [ctrlC, ctrlC] true], hlast⟩
      | false => exact .inr ⟨rfl, .of_notin hlast⟩
    by_cases htimeout : e = timeoutError
    · rw [if_pos htimeout] at h hstranded
      obtain ⟨_, hlate, rfl⟩ | ⟨late, l₂, turns₂, hlate, h⟩ := bind_run h
      · obtain ⟨_, _, _, hr⟩ := isLate_run hlate
        cases hr
      obtain ⟨_, rfl, rfl, hr⟩ := isLate_run hlate
      cases hr
      cases late with
      | true =>
        cases h
        have hs : stranded (.dance 0) l.buf turns = raw := by rw [hstranded, stranded]
        rw [hs]
        exact ⟨ok, new, hlog, .inr ⟨e, rfl, hfinal⟩⟩
      | false =>
        -- another attempt, on what is left of the turns
        obtain ⟨ok', new', hlog', hrest⟩ := ih h
        have hs : stranded (.dance 0) l.buf turns = stranded (.dance 0) l₂.buf turns₂ := by rw [hstranded, stranded]
        rw [hs]
        refine ⟨ok, new ++ .write [ctrlB] ok' :: new', by rw [hlog', hlog]; simp, ?_⟩
        obtain hok | ⟨e', he', ⟨hs, front, hfront⟩ | ⟨hs, hafter⟩⟩ := hrest
        · exact .inl hok
        · refine .inr ⟨e', he', .inl ⟨hs, .write [ctrlB] ok :: new ++ front, ?_⟩⟩
          rw [hfront]
          simp
        · have hleaves : Leaves (.write [ctrlB] ok' :: new') := ⟨ok', List.mem_cons_self⟩
          exact .inr ⟨e', he', .inr ⟨hs, hafter.prepend (fun _ => leaves_append hleaves) (.write [ctrlB] ok :: new)⟩⟩
    · rw [if_neg htimeout] at h hstranded
      cases h
      rw [hstranded]
      exact ⟨ok, new, hlog, .inr ⟨e, rfl, hfinal⟩⟩

/-! ### The transfer -/

section Transfer

variable {isPrintable : Char → Bool} {target : PyStr} {mode : List Char}

/-- No Ctrl-A was accepted, and no `open` returned. -/
def Quiet (isPrintable : Char → Bool) (target : PyStr) (mode : List Char) (log : List Entry) : Prop :=
  .write [ctrlA] true ∉ log ∧ .returned (openCommand isPrintable target mode) ∉ log

theorem Quiet.append {a b : List Entry} (ha : Quiet isPrintable target mode a) (hb : Quiet isPrintable target mode b) :
    Quiet isPrintable target mode (a ++ b) := by
  constructor
  · rw [List.mem_append, not_or]
    exact ⟨ha.1, hb.1⟩
  · rw [List.mem_append, not_or]
    exact ⟨ha.2, hb.2⟩

private theorem command_ne_ctrlA (command : List Char) : encode command ++ [ctrlD] ≠ [ctrlA] := by
  intro h
  have hlast := congrArg List.getLast? h
  rw [List.getLast?_concat] at hlast
  exact absurd hlast (by decide)

private theorem write_notin (command : List Char) (ok : Bool) :
    .write [ctrlA] true ∉ [Entry.write (encode command ++ [ctrlD]) ok] := by
  intro hmem
  have heq := List.mem_singleton.1 hmem
  injection heq with hdata
  exact command_ne_ctrlA command hdata.symm

/-- A command other than `open` is quiet, and is tried. -/
private theorem exec_quiet {command : List Char} (hne : command ≠ openCommand isPrintable target mode) :
    Logs (exec_ command) fun _ new => Quiet isPrintable target mode new ∧
      ∃ ok, .write (encode command ++ [ctrlD]) ok ∈ new := by
  refine (exec_logs command).mono ?_
  rintro r new (⟨text, -, rfl⟩ | ⟨e, ok, -, rfl⟩)
  · refine ⟨⟨?_, ?_⟩, true, List.mem_cons_self⟩
    · have hnone := write_notin command true
      simpa using hnone
    · simpa using hne.symm
  · exact ⟨⟨write_notin command ok, by simp⟩, ok, List.mem_cons_self⟩

/-- A text that begins otherwise is no command to open a file. -/
private theorem ne_openCommand {command : List Char} (h : "f = open(".toList.isPrefixOf command = false) :
    command ≠ openCommand isPrintable target mode := by
  intro heq
  have hprefix : "f = open(".toList <+: openCommand isPrintable target mode := by
    rw [openCommand_eq]
    exact List.prefix_append ..
  rw [← heq] at hprefix
  rw [List.isPrefixOf_iff_prefix.2 hprefix] at h
  cases h

/-- The commands of a transfer other than `open`. -/
private theorem ne_open_import : importCommand ≠ openCommand isPrintable target mode := ne_openCommand (by decide)

private theorem ne_open_close : closeCommand ≠ openCommand isPrintable target mode := ne_openCommand (by decide)

private theorem ne_open_write (piece : Bytes) :
    writeCommand piece ≠ openCommand isPrintable target mode := ne_openCommand rfl

private theorem ne_open_read (chunk : Nat) :
    readCommand chunk ≠ openCommand isPrintable target mode := ne_openCommand rfl

/-- What a use of the open file logs: nothing that needs a cleanup of its own, and a try to close when it returns. -/
def Uses {α : Type} (isPrintable : Char → Bool) (target : PyStr) (mode : List Char) (m : Run α) : Prop :=
  Logs m fun r new => Quiet isPrintable target mode new ∧ ∀ a, r = .ok a → Closes new

private theorem closes_append {a b : List Entry} (h : Closes b) : Closes (a ++ b) := by
  obtain ⟨ok, hmem⟩ := h
  exact ⟨ok, List.mem_append_right a hmem⟩

private theorem quiet_nil : Quiet isPrintable target mode [] := ⟨List.not_mem_nil, List.not_mem_nil⟩

private theorem writeLoop_quiet (pieces : List Bytes) :
    Logs (writeLoop pieces) fun _ new => Quiet isPrintable target mode new := by
  induction pieces with
  | nil => exact .pure quiet_nil
  | cons piece pieces ih =>
    refine (exec_quiet (ne_open_write piece)).bind (fun _ _ h => ?_) fun _ _ h => h.1
    exact ih.mono fun _ _ h' => h.1.append h'

private theorem readLoop_quiet (chunk fuel : Nat) (parts : Bytes) :
    Logs (readLoop isPrintable chunk fuel parts) fun _ new => Quiet isPrintable target mode new := by
  induction fuel generalizing parts with
  | zero => exact .unfinished
  | succ fuel ih =>
    refine (exec_quiet (ne_open_read chunk)).bind (fun out new h => ?_) fun _ _ h => h.1
    cases parseRead isPrintable out with
    | error e => exact .throw (by simpa using h.1)
    | ok piece =>
      cases piece with
      | none => exact .pure (by simpa using h.1)
      | some piece => exact (ih _).mono fun _ _ h' => h.1.append h'

/-- A loop over the file and the `f.close()` behind it. -/
private theorem uses_of_loop {α β : Type} {loop : Run α} {f : α → β}
    (hloop : Logs loop fun _ new => Quiet isPrintable target mode new) :
    Uses isPrintable target mode (do
      let parts ← loop
      let _ ← exec_ closeCommand
      return f parts) := by
  refine Logs.bind hloop (fun parts new h => ?_) fun _ _ h => ⟨h, nofun⟩
  refine (exec_quiet ne_open_close).bind (fun _ new' h' => ?_) fun _ _ h' => ⟨h.append h'.1, nofun⟩
  exact .pure ⟨by simpa using h.append h'.1, fun _ _ => by simpa using closes_append h'.2⟩

/-- Once the file is open, `f.close()` is tried, whatever happens. -/
private theorem withFile_logs {α : Type} {m : Run α} (hm : Uses isPrintable target mode m) :
    Logs (withFile isPrintable target mode m) fun _ new => .write [ctrlA] true ∉ new ∧
      After (.returned (openCommand isPrintable target mode)) Closes new := by
  refine (exec_quiet ne_open_import).bind (fun _ front h => ?_) fun _ _ h => ⟨h.1.1, .of_notin h.1.2⟩
  refine (exec_logs _).bind ?_ ?_
  · rintro text new (⟨_, -, rfl⟩ | ⟨_, _, he, -⟩)
    · have huse : Logs (Polled.onError m bestEffortClose) fun _ new => Quiet isPrintable target mode new ∧ Closes new := by
        have hclose : Logs bestEffortClose fun _ new => Quiet isPrintable target mode new ∧ Closes new :=
          (exec_quiet ne_open_close).suppress fun _ _ _ h => h
        refine Logs.onError hm hclose (fun a _ hok => ⟨hok.1, hok.2 a rfl⟩) ?_
        intro e new r new' e' hq hc
        exact ⟨hq.1.append hc.1, closes_append hc.2⟩
      refine huse.mono fun r new' ⟨hquiet, hcloses⟩ => ?_
      constructor
      · have hwrite := write_notin (openCommand isPrintable target mode) true
        simp only [List.mem_append, List.mem_cons, List.not_mem_nil, or_false] at hwrite ⊢
        rintro (hmem | (hmem | hmem) | hmem)
        · exact h.1.1 hmem
        · exact hwrite hmem
        · cases hmem
        · exact hquiet.1 hmem
      · have hopened : After (.returned (openCommand isPrintable target mode)) Closes
            ([.write (encode (openCommand isPrintable target mode) ++ [ctrlD]) true,
              .returned (openCommand isPrintable target mode)] ++ new') :=
          ⟨nofun, fun _ => hcloses, .of_notin hquiet.2⟩
        exact hopened.prepend (fun _ => closes_append (closes_append hcloses)) front
    · cases he
  · rintro e new (⟨_, he, -⟩ | ⟨_, ok, -, rfl⟩)
    · cases he
    · refine ⟨?_, .of_notin ?_⟩
      · rw [List.mem_append, not_or]
        exact ⟨h.1.1, write_notin _ ok⟩
      · rw [List.mem_append, not_or]
        exact ⟨h.1.2, by simp⟩

private theorem exit_logs : Logs exit_ fun _ new => ∃ ok, new = [.write [ctrlB] ok] := by
  refine (write_logs _).suppress ?_
  rintro r r' new (⟨-, rfl⟩ | ⟨e, -, rfl⟩)
  · exact ⟨true, rfl⟩
  · exact ⟨false, rfl⟩

/-- Behind `enter` a transfer tries to close an open file, and ends with a try to leave raw mode. -/
private theorem raw_logs {α β : Type} {m : Run α} (f : α → β) (hm : Uses isPrintable target mode m) :
    Logs (do
      let data ← Polled.onError (withFile isPrintable target mode m) exit_
      exit_
      return f data : Run β) fun _ new => ∃ body ok, new = body ++ [.write [ctrlB] ok] ∧
        After (.returned (openCommand isPrintable target mode)) Closes body := by
  have hbody : Logs (Polled.onError (withFile isPrintable target mode m) exit_) fun r new =>
      ∃ body, After (.returned (openCommand isPrintable target mode)) Closes body ∧
        ((∃ a, r = .ok a ∧ new = body) ∨ ∃ e ok, r = .error e ∧ new = body ++ [.write [ctrlB] ok]) := by
    refine Logs.onError (withFile_logs hm) exit_logs (fun a body hw => ⟨body, hw.2, .inl ⟨a, rfl, rfl⟩⟩) ?_
    rintro e body r _ e' hw ⟨ok, rfl⟩
    exact ⟨body, hw.2, .inr ⟨e', ok, rfl, rfl⟩⟩
  refine hbody.bind ?_ ?_
  · rintro data new ⟨body, hafter, ⟨a, -, hnew⟩ | ⟨_, _, he, -⟩⟩
    · subst hnew
      refine exit_logs.bind ?_ ?_
      · rintro _ _ ⟨ok, rfl⟩
        exact .pure ⟨new, ok, by simp, hafter⟩
      · rintro _ _ ⟨ok, rfl⟩
        exact ⟨new, ok, rfl, hafter⟩
    · cases he
  · rintro e _ ⟨body, hafter, ⟨_, he, -⟩ | ⟨_, ok, -, rfl⟩⟩
    · cases he
    · exact ⟨body, ok, rfl, hafter⟩

private theorem returned_notin_dance {log : List Entry} (h : ∀ e ∈ log, e.IsDance) (command : List Char) :
    .returned command ∉ log := by
  intro hmem
  obtain ⟨_, _, heq, -⟩ := h _ hmem
  cases heq

/-- A transfer cleans up unless it is stranded within `enter`. -/
private theorem transfer_released {α β : Type} {m : Run α} {f : α → β} (hm : Uses isPrintable target mode m)
    {fuel : Nat}
    {turns rest : List Turn} {r : Except Failure β} {l : Line}
    (h : (do
      enter fuel
      let data ← Polled.onError (withFile isPrintable target mode m) exit_
      exit_
      return f data : Run β) newLine turns = some (r, l, rest)) :
    Released isPrintable target mode l.log ↔ stranded (.dance 0) [] turns = false := by
  obtain ⟨e, henter, rfl⟩ | ⟨_, l₁, turns₁, henter, h⟩ := bind_run h
  · obtain ⟨new', hlog', hwrites⟩ := enter_logs fuel _ _ _ _ _ henter
    obtain ⟨ok, new, hlog, ⟨he, -⟩ | ⟨e', -, hcase⟩⟩ := enter_run henter
    · cases he
    rw [show newLine.log = [] from rfl, List.nil_append] at hlog hlog'
    rw [show newLine.buf = [] from rfl] at hcase
    rw [hlog'] at hlog
    rw [hlog']
    obtain ⟨hs, front, hfront⟩ | ⟨hs, hafter⟩ := hcase
    · rw [hs, hlog, hfront]
      simp only [Bool.true_eq_false, iff_false]
      exact fun hreleased => stuck_of_last front hreleased.raw
    · rw [← hlog] at hafter
      exact ⟨fun _ => hs, fun _ => ⟨hafter, .of_notin (returned_notin_dance hwrites _)⟩⟩
  · obtain ⟨new', hlog', hwrites⟩ := enter_logs fuel _ _ _ _ _ henter
    obtain ⟨ok, new, -, ⟨-, hs⟩ | ⟨e', he, -⟩⟩ := enter_run henter
    · obtain ⟨_, hlog, body, ok', rfl, hafter⟩ := raw_logs f hm _ _ _ _ _ h
      rw [show newLine.log = [] from rfl, List.nil_append] at hlog'
      have hlast : Leaves [Entry.write [ctrlB] ok'] := ⟨ok', List.mem_cons_self⟩
      rw [hlog, hlog']
      refine ⟨fun _ => hs, fun _ => ⟨?_, ?_⟩⟩
      · rw [← List.append_assoc]
        exact After.prepend (.of_notin (by simp [ctrlA, ctrlB])) (fun _ => leaves_append hlast) _
      · rw [after_append, after_append]
        refine ⟨.of_notin (returned_notin_dance hwrites _), hafter.mono ?_, .of_notin (by simp)⟩
        rintro post ⟨okc, hmem⟩
        obtain ⟨between, later, rfl⟩ := List.append_of_mem hmem
        exact ⟨between, okc, later ++ [.write [ctrlB] ok'], by simp, leaves_append hlast⟩
    · cases he

end Transfer

/-- An attempt of the dance that gets no answer. -/
def unanswered (spent : Bool) : List Turn := [.write none, .write none, .write none, .clock true, .clock spent]

end IronHarness.Board.Fallible
