import IronHarness.Lib.Literals
import IronHarness.Board.Fallible
import IronHarness.Board.Transfer

/-!
# What a transfer sends

Everything a transfer writes, over any transport and however it ends: the bytes of the dance, and commands that hold no
control byte before their Ctrl-D.  The path is a string literal that denotes it, and the bytes of the file are
hexadecimal literals (`commands_sealed`).
-/

namespace IronHarness.Board.Fallible

open ByteText PyLiteral MpRepl

/-! ### Reading a log -/

/-- The command in front of a Ctrl-D. -/
def Entry.command : Entry → Option (List Char)
  | .write data _ => if data.getLast? = some ctrlD then decode data.dropLast else none
  | .returned _ => none

/-- The commands of a session, in order. -/
def commandsOf (log : List Entry) : List (List Char) := log.filterMap Entry.command

/-- The bytes of a command whose only literal is a hexadecimal one. -/
def unhex (command : List Char) : Option Bytes :=
  match literals command with
  | some [digits] => (digits.mapM char?).bind fromHex
  | _ => none

/-- The bytes that the write commands of a session hold. -/
def piecesOf (log : List Entry) : List Bytes := (commandsOf log).filterMap unhex

/-- The command that opens the file holds the path, and a mode, and no other literal; the other commands hold a
hexadecimal literal at most. -/
structure Quotes (target : PyStr) (command : List Char) : Prop where
  path : "f = open(".toList <+: command →
    ∃ mode, (mode = "rb".toList ∨ mode = "wb".toList) ∧ literals command = some [target, mode.map ofChar]
  other : ¬ "f = open(".toList <+: command →
    literals command = some [] ∨ ∃ piece, literals command = some [(hex piece).map ofChar]

/-- What is written is the dance, or a command that holds no control byte and quotes what it should. -/
def Sealed (target : PyStr) (log : List Entry) : Prop :=
  ∀ data ok, .write data ok ∈ log → data = [ctrlB] ∨ data = [ctrlC, ctrlC] ∨ data = [ctrlA] ∨
    ∃ command, data = encode command ++ [ctrlD] ∧ (∀ b ∈ encode command, 0x20 ≤ b.toNat ∧ b ≠ 0x7F) ∧
      Quotes target command

theorem Sealed.append {target : PyStr} {a b : List Entry} (ha : Sealed target a) (hb : Sealed target b) :
    Sealed target (a ++ b) := by
  intro data ok hmem
  rcases List.mem_append.1 hmem with hmem | hmem
  · exact ha data ok hmem
  · exact hb data ok hmem

private theorem commandsOf_append (a b : List Entry) : commandsOf (a ++ b) = commandsOf a ++ commandsOf b :=
  List.filterMap_append

private theorem piecesOf_append (a b : List Entry) : piecesOf (a ++ b) = piecesOf a ++ piecesOf b := by
  rw [piecesOf, commandsOf_append, List.filterMap_append]
  rfl

/-! ### The commands -/

section Commands

variable {isPrintable : Char → Bool}

private theorem encode_visible {text : List Char} (h : ∀ c ∈ text, Visible c) {b : UInt8} (hb : b ∈ encode text) :
    0x20 ≤ b.toNat ∧ b ≠ 0x7F := by
  by_cases hascii : b.toNat < 0x80
  · obtain ⟨c, hc, hcode⟩ := encode_ascii hb hascii
    obtain ⟨hlow, hdel⟩ := h c hc
    refine ⟨by omega, ?_⟩
    rintro rfl
    exact hdel hcode
  · refine ⟨by omega, ?_⟩
    rintro rfl
    exact hascii (by decide)

private theorem hex_visible {piece : Bytes} {c : Char} (h : c ∈ hex piece) : Visible c ∧ isQuote c = false := by
  have hdigit : ∀ d < 16, Visible (Nat.digitChar d) ∧ isQuote (Nat.digitChar d) = false := by decide
  obtain ⟨d, hd, rfl⟩ := exists_digit_of_mem_hex h
  exact hdigit d hd

/-- Checked on each character of a fixed text. -/
private theorem of_all {P : Char → Prop} [DecidablePred P] {text : List Char}
    (h : text.all (fun c => decide (P c)) = true) :
    ∀ c ∈ text, P c :=
  fun c hc => of_decide_eq_true (List.all_eq_true.1 h c hc)

private theorem visible_append {a b : List Char} (ha : ∀ c ∈ a, Visible c) (hb : ∀ c ∈ b, Visible c) :
    ∀ c ∈ a ++ b, Visible c := by
  intro c hc
  rcases List.mem_append.1 hc with hc | hc
  · exact ha c hc
  · exact hb c hc

private theorem openCommand_visible (target : PyStr) {mode : List Char} (hmode : ∀ c ∈ mode, Visible c) :
    ∀ c ∈ openCommand isPrintable target mode, Visible c := by
  rw [openCommand_eq]
  refine visible_append (of_all (by decide)) (visible_append (fun c hc => repr_visible hc) ?_)
  exact visible_append (visible_append (of_all (by decide)) hmode) (of_all (by decide))

private theorem literals_openCommand (target : PyStr) {mode : List Char}
    (hmode : mode = "rb".toList ∨ mode = "wb".toList) :
    literals (openCommand isPrintable target mode) = some [target, mode.map ofChar] := by
  have hmore : ∀ c r, ", '".toList ++ mode ++ "')".toList = c :: r → isQuote c = false := by
    intro c r h
    obtain ⟨rfl, -⟩ := List.cons.inj h
    decide
  rw [openCommand_eq, literals_append (of_all (by decide)), literals_repr target hmore]
  rcases hmode with rfl | rfl
  · rfl
  · rfl

private theorem quotes_openCommand (target : PyStr) {mode : List Char}
    (hmode : mode = "rb".toList ∨ mode = "wb".toList) :
    Quotes target (openCommand isPrintable target mode) where
  path _ := ⟨mode, hmode, literals_openCommand target hmode⟩
  other hno := absurd (by rw [openCommand_eq]; exact List.prefix_append ..) hno

/-- A hexadecimal literal, as a literal with no escapes. -/
private theorem scan_digits {text : List Char} (h : ∀ c ∈ text, isQuote c = false ∧ c ≠ '\\') :
    scan '\x27' .plain (text ++ ['\x27']) = some (text.map ofChar) := by
  induction text with
  | nil => rfl
  | cons c text ih =>
    obtain ⟨hquote, hslash⟩ := h c List.mem_cons_self
    have hne : c ≠ '\x27' := by
      rintro rfl
      exact absurd hquote (by decide)
    rw [List.cons_append, scan, if_neg hne, if_neg hslash, ih fun d hd => h d (List.mem_cons_of_mem c hd)]
    rfl

private theorem writeCommand_eq (piece : Bytes) :
    writeCommand piece = "f.write(binascii.unhexlify(".toList ++ '\x27' :: (hex piece ++ ['\x27'] ++ "))".toList) := by
  have hfront : "f.write(binascii.unhexlify('".toList = "f.write(binascii.unhexlify(".toList ++ ['\x27'] := by decide
  have hback : "'))".toList = ['\x27'] ++ "))".toList := by decide
  have hsplit := congrArg₂ (fun front back => front ++ hex piece ++ back) hfront hback
  refine Eq.trans hsplit ?_
  simp only [List.append_assoc, List.cons_append, List.nil_append]

private theorem literals_writeCommand (piece : Bytes) :
    literals (writeCommand piece) = some [(hex piece).map ofChar] := by
  have hdigits : ∀ c ∈ hex piece, isQuote c = false ∧ c ≠ '\\' := by
    intro c hc
    have hhex := hex_digits hc
    refine ⟨(hex_visible hc).2, ?_⟩
    rintro rfl
    exact absurd hhex (by decide)
  have htriple : ['\x27', '\x27'].isPrefixOf (hex piece ++ ['\x27'] ++ "))".toList) = false := by
    cases h : hex piece with
    | nil => decide
    | cons c r =>
      have hc : isQuote c = false := (hdigits c (by simp [h])).1
      have hne : '\x27' ≠ c := by
        rintro rfl
        exact absurd hc (by decide)
      simp [List.isPrefixOf, hne]
  rw [writeCommand_eq, literals_append (of_all (by decide)), literals_quote (.inl rfl) htriple (scan_digits hdigits)]
  rfl

private theorem writeCommand_visible (piece : Bytes) : ∀ c ∈ writeCommand piece, Visible c :=
  visible_append (visible_append (of_all (by decide)) fun c hc => (hex_visible hc).1) (of_all (by decide))

private theorem quotes_writeCommand (target : PyStr) (piece : Bytes) : Quotes target (writeCommand piece) where
  path h := by
    have hno : "f = open(".toList.isPrefixOf (writeCommand piece) = false := rfl
    rw [List.isPrefixOf_iff_prefix.2 h] at hno
    cases hno
  other _ := .inr ⟨piece, literals_writeCommand piece⟩

private theorem char?_ofChar (c : Char) : char? (ofChar c) = some c := by
  have hvalid : (ofChar c).val.isValidChar := c.valid
  rw [char?, if_pos hvalid]
  exact congrArg some (Char.ofNat_toNat c)

private theorem unhex_writeCommand (piece : Bytes) : unhex (writeCommand piece) = some piece := by
  have hchars : ((hex piece).map ofChar).mapM char? = some (hex piece) := by
    rw [List.mapM_map]
    induction hex piece with
    | nil => rfl
    | cons c r ih =>
      rw [List.mapM_cons, Function.comp, char?_ofChar, ih]
      rfl
  rw [unhex, literals_writeCommand]
  dsimp only
  rw [hchars, Option.bind_some, fromHex_hex]

/-- A command without quotes. -/
private theorem quotes_plain {command : List Char} (target : PyStr) (hquote : ∀ c ∈ command, isQuote c = false)
    (hopen : "f = open(".toList.isPrefixOf command = false) : Quotes target command where
  path h := by
    rw [List.isPrefixOf_iff_prefix.2 h] at hopen
    cases hopen
  other _ := by
    have hnone := literals_append hquote []
    rw [List.append_nil] at hnone
    exact .inl hnone

private theorem readCommand_chars (chunk : Nat) : ∀ c ∈ readCommand chunk, Visible c ∧ isQuote c = false := by
  have hfront : ∀ c ∈ "print(binascii.hexlify(f.read(".toList, Visible c ∧ isQuote c = false := of_all (by decide)
  have hback : ∀ c ∈ ")))".toList, Visible c ∧ isQuote c = false := of_all (by decide)
  intro c hc
  unfold readCommand at hc
  generalize "print(binascii.hexlify(f.read(".toList = front at hfront hc
  generalize ")))".toList = back at hback hc
  rcases List.mem_append.1 hc with hc | hc
  · rcases List.mem_append.1 hc with hc | hc
    · exact hfront c hc
    obtain ⟨hlow, hhigh⟩ := digits_of_toDigits hc
    refine ⟨⟨by omega, by omega⟩, ?_⟩
    rw [isQuote, Bool.or_eq_false_iff, beq_eq_false_iff_ne, beq_eq_false_iff_ne]
    constructor
    · rintro rfl
      exact absurd hlow (by decide)
    · rintro rfl
      exact absurd hlow (by decide)
  · exact hback c hc

end Commands

/-! ### The log of a command -/

section Log

variable {target : PyStr} {chunk : Nat}

private theorem sealed_nil : Sealed target [] := fun _ _ hmem => nomatch hmem

private theorem sealed_command {command : List Char} (hvisible : ∀ c ∈ command, Visible c)
    (hquotes : Quotes target command)
    (ok : Bool) : Sealed target [.write (encode command ++ [ctrlD]) ok] := by
  intro data ok' hmem
  cases List.mem_singleton.1 hmem
  exact .inr (.inr (.inr ⟨command, rfl, fun b hb => encode_visible hvisible hb, hquotes⟩))

private theorem sealed_returned (command : List Char) : Sealed target [.returned command] := by
  intro data ok hmem
  cases List.mem_singleton.1 hmem

private theorem command_write (command : List Char) (ok : Bool) :
    (Entry.write (encode command ++ [ctrlD]) ok).command = some command := by
  simp [Entry.command, decode_encode]

/-- What the log of a part of a transfer says: it is sealed, and its write commands hold these pieces. -/
structure Says (target : PyStr) (pieces : List Bytes) (log : List Entry) : Prop where
  isSealed : Sealed target log
  pieces : piecesOf log = pieces

theorem Says.append {a b : List Bytes} {log log' : List Entry} (h : Says target a log) (h' : Says target b log') :
    Says target (a ++ b) (log ++ log') where
  isSealed := h.isSealed.append h'.isSealed
  pieces := by rw [piecesOf_append, h.pieces, h'.pieces]

/-- The dance and the bytes that leave raw mode say nothing. -/
private theorem says_dance {log : List Entry} (h : ∀ e ∈ log, e.IsDance) : Says target [] log := by
  constructor
  · intro data ok hmem
    obtain ⟨data', ok', heq, hdata⟩ := h _ hmem
    cases heq
    rcases hdata with hdata | hdata | hdata
    · exact .inl hdata
    · exact .inr (.inl hdata)
    · exact .inr (.inr (.inl hdata))
  · have hnone : ∀ e ∈ log, e.command = none := by
      intro e hmem
      obtain ⟨data, ok, rfl, hdata⟩ := h e hmem
      rcases hdata with rfl | rfl | rfl <;> rfl
    rw [piecesOf, commandsOf, List.filterMap_eq_nil_iff.2 hnone]
    rfl

private theorem exec_speaks {command : List Char} (hvisible : ∀ c ∈ command, Visible c)
    (hquotes : Quotes target command) :
    Logs (exec_ command) fun _ new => Says target (unhex command).toList new := by
  have hwrite : ∀ ok, Says target (unhex command).toList [.write (encode command ++ [ctrlD]) ok] := by
    intro ok
    refine ⟨sealed_command hvisible hquotes ok, ?_⟩
    rw [piecesOf, commandsOf, List.filterMap_cons_some (command_write command ok)]
    cases h : unhex command <;> simp [h]
  refine (exec_logs command).mono ?_
  rintro r new (⟨text, -, rfl⟩ | ⟨e, ok, -, rfl⟩)
  · have hreturned : Says target [] [Entry.returned command] := ⟨sealed_returned command, rfl⟩
    have hboth := (hwrite true).append hreturned
    rwa [List.append_nil] at hboth
  · exact hwrite ok

theorem Says.nil_append {pieces : List Bytes} {log log' : List Entry} (h : Says target [] log)
    (h' : Says target pieces log') : Says target pieces (log ++ log') := h.append h'

theorem Says.append_nil {pieces : List Bytes} {log log' : List Entry} (h : Says target pieces log)
    (h' : Says target [] log') : Says target pieces (log ++ log') := by
  have hboth := h.append h'
  rwa [List.append_nil] at hboth

variable (target) {isPrintable : Char → Bool}

private theorem import_speaks : Logs (exec_ importCommand) fun _ new => Says target [] new :=
  exec_speaks (of_all (by decide)) (quotes_plain target (of_all (by decide)) (by decide))

private theorem close_speaks : Logs (exec_ closeCommand) fun _ new => Says target [] new :=
  exec_speaks (of_all (by decide)) (quotes_plain target (of_all (by decide)) (by decide))

private theorem read_speaks : Logs (exec_ (readCommand chunk)) fun _ new => Says target [] new := by
  have hquote : ∀ c ∈ readCommand chunk, isQuote c = false := fun c hc => (readCommand_chars chunk c hc).2
  have hnone : unhex (readCommand chunk) = none := by
    have hliterals := literals_append hquote []
    rw [List.append_nil] at hliterals
    rw [unhex, hliterals]
    rfl
  have hexec := exec_speaks (fun c hc => (readCommand_chars chunk c hc).1)
    (quotes_plain target hquote rfl)
  rwa [hnone] at hexec

private theorem open_speaks {mode : List Char} (hmode : mode = "rb".toList ∨ mode = "wb".toList) :
    Logs (exec_ (openCommand isPrintable target mode)) fun _ new => Says target [] new := by
  have hnone : unhex (openCommand isPrintable target mode) = none := by
    rw [unhex, literals_openCommand target hmode]
  have hvisible : ∀ c ∈ mode, Visible c := by rcases hmode with rfl | rfl <;> exact of_all (by decide)
  have hexec := exec_speaks (@openCommand_visible isPrintable target _ hvisible)
    (quotes_openCommand target hmode)
  rwa [hnone] at hexec

private theorem enter_speaks (fuel : Nat) : Logs (enter fuel) fun _ new => Says target [] new :=
  (enter_logs fuel).mono fun _ _ h => says_dance h

private theorem exit_speaks : Logs exit_ fun _ new => Says target [] new :=
  (write_isDance (.inl rfl)).suppress fun _ _ _ h => says_dance h

private theorem bestEffortClose_speaks : Logs bestEffortClose fun _ new => Says target [] new :=
  (close_speaks target).suppress fun _ _ _ h => h

/-- The write commands hold the pieces in their order, as far as the loop gets. -/
private theorem writeLoop_speaks (pieces : List Bytes) : Logs (writeLoop pieces) fun r new =>
    ∃ sent, Says target sent new ∧ sent <+: pieces ∧ (r = .ok () → sent = pieces) := by
  induction pieces with
  | nil => exact .pure ⟨[], ⟨sealed_nil, rfl⟩, List.nil_prefix, fun _ => rfl⟩
  | cons piece pieces ih =>
    have hexec := exec_speaks (writeCommand_visible piece) (quotes_writeCommand target piece)
    rw [unhex_writeCommand] at hexec
    refine hexec.bind (fun _ new h => ?_) fun e new h => ?_
    · refine ih.mono fun r new' ⟨sent, hsent, hprefix, hall⟩ => ?_
      refine ⟨piece :: sent, h.append hsent, List.cons_prefix_cons.2 ⟨rfl, hprefix⟩, fun hr => ?_⟩
      rw [hall hr]
    · exact ⟨[piece], h, List.cons_prefix_cons.2 ⟨rfl, List.nil_prefix⟩, nofun⟩

private theorem readLoop_speaks (fuel : Nat) (parts : Bytes) :
    Logs (readLoop isPrintable chunk fuel parts) fun _ new => Says target [] new := by
  induction fuel generalizing parts with
  | zero => exact .unfinished
  | succ fuel ih =>
    refine (read_speaks target).bind (fun out new h => ?_) fun _ _ h => h
    cases parseRead isPrintable out with
    | error e => exact .throw (by simpa using h)
    | ok piece =>
      cases piece with
      | none => exact .pure (by simpa using h)
      | some piece => exact (ih _).mono fun _ _ h' => h.append h'

/-- A transfer in raw mode says what is done with the open file. -/
private theorem withFile_speaks {α : Type} {mode : List Char} (hmode : mode = "rb".toList ∨ mode = "wb".toList)
    {m : Run α}
    {P : Except Failure α → List Bytes → Prop} (hm : Logs m fun r new => ∃ sent, Says target sent new ∧ P r sent)
    (hnone : ∀ e, P (.error e) []) (herror : ∀ e e' sent, P (.error e) sent → P (.error e') sent) :
    Logs (withFile isPrintable target mode m) fun r new => ∃ sent, Says target sent new ∧ P r sent := by
  refine (import_speaks target).bind (fun _ _ h => ?_) fun e _ h => ⟨[], h, hnone e⟩
  refine (open_speaks target hmode).bind (fun _ _ h' => ?_) fun e _ h' => ⟨[], h.append h', hnone e⟩
  refine hm.onError (bestEffortClose_speaks target) ?_ ?_
  · rintro a new ⟨sent, hsent, hP⟩
    exact ⟨sent, h.nil_append (h'.nil_append hsent), hP⟩
  · rintro e new r new' e' ⟨sent, hsent, hP⟩ hclose
    exact ⟨sent, h.nil_append (h'.nil_append (hsent.append_nil hclose)), herror e e' sent hP⟩

private theorem writeAll_speaks (data : Bytes) : Logs (writeAll chunk data) fun r new =>
    ∃ sent, Says target sent new ∧ sent <+: chunksOf chunk data ∧ (r = .ok () → sent = chunksOf chunk data) := by
  refine (writeLoop_speaks target _).bind ?_ ?_
  · rintro _ new ⟨sent, hsent, hprefix, hall⟩
    have hsent' := hall rfl
    refine (close_speaks target).bind (fun _ _ h => ?_) fun e _ h => ⟨sent, hsent.append_nil h, hprefix, nofun⟩
    exact .pure ⟨sent, by simpa using hsent.append_nil h, hprefix, fun _ => hsent'⟩
  · rintro e new ⟨sent, hsent, hprefix, -⟩
    exact ⟨sent, hsent, hprefix, nofun⟩

private theorem putFile_speaks (fuel : Nat) (data : Bytes) :
    Logs (putFile isPrintable fuel chunk data target) fun r new =>
    ∃ sent, Says target sent new ∧ sent <+: chunksOf chunk data ∧ (∀ n, r = .ok n → sent = chunksOf chunk data) := by
  have hfile : Logs (withFile isPrintable target "wb".toList (writeAll chunk data)) _ :=
    withFile_speaks target (.inr rfl) (writeAll_speaks target data) (fun _ => ⟨List.nil_prefix, nofun⟩) fun _ _ _ h => ⟨h.1, nofun⟩
  refine (enter_speaks target fuel).bind (fun _ _ h => ?_) fun e _ h => ⟨[], h, List.nil_prefix, nofun⟩
  have hleft : Logs (Polled.onError (withFile isPrintable target "wb".toList (writeAll chunk data)) exit_) fun r new =>
      ∃ sent, Says target sent new ∧ sent <+: chunksOf chunk data ∧ (r = .ok () → sent = chunksOf chunk data) := by
    refine hfile.onError (exit_speaks target) (fun _ _ h' => h') ?_
    rintro e new r new' e' ⟨sent, hsent, hprefix, -⟩ hexit
    exact ⟨sent, hsent.append_nil hexit, hprefix, nofun⟩
  refine hleft.bind ?_ ?_
  · rintro _ new ⟨sent, hsent, hprefix, hall⟩
    have hsent' := hall rfl
    refine (exit_speaks target).bind (fun _ _ h' => ?_) ?_
    · refine .pure ⟨sent, ?_, hprefix, fun _ _ => hsent'⟩
      simpa using h.nil_append (hsent.append_nil h')
    · intro e _ h'
      exact ⟨sent, h.nil_append (hsent.append_nil h'), hprefix, nofun⟩
  · rintro e new ⟨sent, hsent, hprefix, -⟩
    exact ⟨sent, h.nil_append hsent, hprefix, nofun⟩

private theorem getFile_speaks (fuel : Nat) :
    Logs (getFile isPrintable fuel chunk target) fun _ new => Says target [] new := by
  have hread : Logs (readAll isPrintable fuel chunk) fun _ new => ∃ sent, Says target sent new ∧ sent = [] := by
    refine (readLoop_speaks target fuel []).bind (fun _ _ h => ?_) fun _ _ h => ⟨[], h, rfl⟩
    refine (close_speaks target).bind (fun _ _ h' => ?_) fun _ _ h' => ⟨[], h.append h', rfl⟩
    exact .pure ⟨[], by simpa using h.append h', rfl⟩
  have hfile : Logs (withFile isPrintable target "rb".toList (readAll isPrintable fuel chunk)) _ :=
    withFile_speaks target (.inl rfl) hread (fun _ => rfl) fun _ _ _ h => h
  refine (enter_speaks target fuel).bind (fun _ _ h => ?_) fun _ _ h => h
  have hleft : Logs (Polled.onError (withFile isPrintable target "rb".toList (readAll isPrintable fuel chunk)) exit_)
      fun _ new => ∃ sent, Says target sent new ∧ sent = [] := by
    refine hfile.onError (exit_speaks target) (fun _ _ h' => h') ?_
    rintro e new r new' e' ⟨sent, hsent, rfl⟩ hexit
    exact ⟨[], hsent.append hexit, rfl⟩
  refine hleft.bind ?_ ?_
  · rintro _ new ⟨sent, hsent, rfl⟩
    refine (exit_speaks target).bind (fun _ _ h' => ?_) fun _ _ h' => h.append (hsent.append h')
    exact .pure (by simpa using h.append (hsent.append h'))
  · rintro e new ⟨sent, hsent, rfl⟩
    exact h.append hsent

end Log

/-- However a transfer ends, its writes are sealed; the write commands of `put_file` hold the bytes of the file from
its start on, all of them when it returns, and `get_file` sends none. -/
theorem commands_sealed (isPrintable : Char → Bool) (target : PyStr) {chunk : Nat} (hchunk : 0 < chunk) (fuel : Nat)
    (data : Bytes) :
    (∀ turns r l rest, putFile isPrintable fuel chunk data target newLine turns = some (r, l, rest) →
      Sealed target l.log ∧ (piecesOf l.log).flatten <+: data ∧ ∀ n, r = .ok n → (piecesOf l.log).flatten = data) ∧
    ∀ turns r l rest, getFile isPrintable fuel chunk target newLine turns = some (r, l, rest) →
      Sealed target l.log ∧ piecesOf l.log = [] := by
  constructor
  · intro turns r l rest hrun
    obtain ⟨new, hlog, sent, hsaid, hprefix, hall⟩ := putFile_speaks target fuel data _ _ _ _ _ hrun
    rw [show newLine.log = [] from rfl, List.nil_append] at hlog
    rw [hlog, hsaid.pieces]
    refine ⟨hsaid.isSealed, ?_, fun n hr => by rw [hall n hr, chunksOf_flatten hchunk]⟩
    obtain ⟨later, hlater⟩ := hprefix
    have hflat := congrArg List.flatten hlater
    rw [chunksOf_flatten hchunk, List.flatten_append] at hflat
    exact ⟨later.flatten, hflat⟩
  · intro turns r l rest hrun
    obtain ⟨new, hlog, hsaid⟩ := getFile_speaks target fuel _ _ _ _ _ hrun
    rw [show newLine.log = [] from rfl, List.nil_append] at hlog
    rw [hlog]
    exact ⟨hsaid.isSealed, hsaid.pieces⟩

/-- A command that is accepted and answered without output. -/
def done : List Turn := [.write none, .clock false, .read (.ok [0x4F, 0x4B, ctrlD, ctrlD, prompt])]

/-- A transfer of one byte: the dance, four commands, and the byte that leaves raw mode. -/
def smooth : List Turn :=
  [.write none, .write none, .write none, .clock false, .read (.ok (rawRepl ++ [prompt]))] ++
    done ++ done ++ done ++ done ++ [.write none]

/-- A path with a quote and a Ctrl-B, a file with a Ctrl-C. -/
theorem commands_sealed_quote :
    ∃ l, putFile (fun _ => false) 1 1 [ctrlC] [ofChar '\x27', 2] newLine smooth = some (.ok 1, l, []) ∧
      Sealed [ofChar '\x27', 2] l.log ∧ (piecesOf l.log).flatten = [ctrlC] := by
  have hends : (putFile (fun _ => false) 1 1 [ctrlC] [ofChar '\x27', 2] newLine smooth).any
      (fun o => o.1.toOption == some 1 && o.2.2.isEmpty) = true := by decide +kernel
  obtain ⟨⟨r, l, rest⟩, hrun, hok⟩ := (Option.any_eq_true _ _).1 hends
  simp only [Bool.and_eq_true, beq_iff_eq, List.isEmpty_iff] at hok
  obtain ⟨hr, rfl⟩ := hok
  obtain rfl : r = .ok 1 := by
    cases r with
    | ok n => exact congrArg Except.ok (Option.some.inj hr)
    | error e => cases hr
  obtain ⟨hsealed, -, hall⟩ :=
    (commands_sealed (fun _ => false) [ofChar '\x27', 2] Nat.zero_lt_one 1 [ctrlC]).1 _ _ _ _ hrun
  exact ⟨l, hrun, hsealed, hall 1 rfl⟩

end IronHarness.Board.Fallible
