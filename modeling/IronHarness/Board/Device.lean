import IronHarness.Lib.Lines
import IronHarness.Lib.Literal

/-!
# A board behind the raw REPL

The board of the transfer tests: a normal mode that swallows what is typed, a raw mode that executes a command on
Ctrl-D and answers `OK`, the output, Ctrl-D, the error section, Ctrl-D and the prompt, and a file system with one open
file.  The framing (`Device`) is separate from what executes a command, so that a board may refuse commands or know
more of them.
-/

namespace IronHarness.Board

open ByteText PyLiteral

def ctrlA : UInt8 := 0x01
def ctrlB : UInt8 := 0x02
def ctrlC : UInt8 := 0x03
def ctrlD : UInt8 := 0x04
def prompt : UInt8 := 0x3E

/-- What the board prints on entering raw mode. -/
def banner : Bytes := encode "raw REPL; CTRL-B to exit\r\n>".toList

/-- The acceptance mark of a command. -/
def okMark : Bytes := encode "OK".toList

/-! ### The file system -/

/-- The open file, with the positions of the next write and the next read. -/
structure Handle where
  path : PyStr
  mode : List Char
  wpos : Nat
  rpos : Nat
  deriving DecidableEq

structure Fs where
  files : PyStr → Option Bytes
  f : Option Handle

def Fs.store (fs : Fs) (path : PyStr) (content : Option Bytes) : Fs :=
  { fs with files := fun p => if p = path then content else fs.files p }

/-- What stands between `front` and `back` in a text. -/
def between (front back text : List Char) : Option (List Char) :=
  if front.isPrefixOf text && back.isSuffixOf (text.drop front.length) then
    some ((text.drop front.length).take (text.length - front.length - back.length))
  else none

/-- The modes `[rwa]b?`. -/
def openModes : List (List Char) :=
  ["r".toList, "w".toList, "a".toList, "rb".toList, "wb".toList, "ab".toList]

/-- `_RE_OPEN` for one mode: the literal of the path and the mode. -/
def matchMode (command mode : List Char) : Option (List Char × List Char) :=
  (between "f = open(".toList (", '".toList ++ mode ++ "')".toList) command).bind fun literal =>
    if literal.isEmpty || literal.contains '\n' then none else some (literal, mode)

/-- `_RE_OPEN` -/
def matchOpen (command : List Char) : Option (List Char × List Char) := openModes.findSome? (matchMode command)

/-- `_RE_WRITE`: the hexadecimal digits. -/
def matchWrite (command : List Char) : Option (List Char) :=
  (between "f.write(binascii.unhexlify('".toList "'))".toList command).filter (·.all isHexDigit)

/-- `_RE_READ`: the size. -/
def matchRead (command : List Char) : Option Nat :=
  ((between "print(binascii.hexlify(f.read(".toList ")))".toList command).filter fun digits =>
    !digits.isEmpty && digits.all Char.isDigit).map fun digits => Nat.ofDigitChars 10 digits 0

/-- `buf` with `piece` at `pos`, after zeros up to the end of the piece. -/
def splice (buf : Bytes) (pos : Nat) (piece : Bytes) : Bytes :=
  (buf ++ List.replicate (pos + piece.length - buf.length) 0).take pos ++ piece ++ buf.drop (pos + piece.length)

section Exec

variable (isPrintable : Char → Bool)

/-- `_exec_line`: what the command prints, or the type and text of the exception.  The texts of the exceptions of
`literal_eval` and `fromhex` are left out. -/
def execLine (fs : Fs) (command : List Char) : Except (List Char) (Fs × Bytes) :=
  if command = "import binascii".toList then .ok (fs, [])
  else match matchOpen command with
  | some (literal, mode) =>
    match literalEval literal with
    | none => .error "SyntaxError".toList
    | some path =>
      if mode.contains 'r' && (fs.files path).isNone then .error "FileNotFoundError: [Errno 2] ENOENT".toList
      else
        let fs := if mode.contains 'w' then fs.store path (some []) else fs
        match fs.files path with
        | none => .error ("KeyError: ".toList ++ repr isPrintable path)
        | some content => .ok ({ fs with f := some ⟨path, mode, content.length, 0⟩ }, [])
  | none =>
  match matchWrite command with
  | some digits =>
    match fs.f with
    | none => .error "OSError: [Errno 9] file is not open".toList
    | some h =>
      match fromHex digits with
      | none => .error "ValueError".toList
      | some piece =>
        let fs := fs.store h.path (some (splice ((fs.files h.path).getD []) h.wpos piece))
        .ok ({ fs with f := some { h with wpos := h.wpos + piece.length } }, [])
  | none =>
  match matchRead command with
  | some size =>
    match fs.f with
    | none => .error "OSError: [Errno 9] file is not open".toList
    | some h =>
      let chunk := (((fs.files h.path).getD []).drop h.rpos).take size
      .ok ({ fs with f := some { h with rpos := h.rpos + chunk.length } },
        encode ("b'".toList ++ hex chunk ++ "'\r\n".toList))
  | none =>
    if command = "f.close()".toList then .ok ({ fs with f := none }, [])
    else .error ("SyntaxError: invalid command: ".toList ++ repr isPrintable (command.map ofChar))

/-- The two sections of an answer, as they are sent. -/
structure Reply where
  out : Bytes
  err : Bytes
  deriving DecidableEq

def Reply.done (printed : Bytes) : Reply := ⟨okMark ++ printed, []⟩

/-- `_fail`: the traceback is the error section, and nothing is marked as accepted. -/
def Reply.failed (message : List Char) : Reply :=
  ⟨[], encode ("Traceback (most recent call last):\r\n".toList ++ message ++ "\r\n".toList)⟩

def Reply.bytes (reply : Reply) : Bytes := reply.out ++ ctrlD :: (reply.err ++ [ctrlD, prompt])

/-- A command of the board of the tests: the board drops the open file on an error. -/
def exec (fs : Fs) (command : List Char) : Fs × Reply :=
  match execLine isPrintable fs command with
  | .ok (fs', printed) => (fs', .done printed)
  | .error message => ({ fs with f := none }, .failed message)

end Exec

/-! ### The framing -/

/-- A board whose commands act on a state `S`; `answered` is its history: the commands executed and their answers. -/
structure Device (S : Type) where
  state : S
  inbuf : Bytes
  outbuf : Bytes
  raw : Bool
  answered : List (List Char × Reply)

section Device

variable {S : Type} (run : S → List Char → S × Reply)

/-- `command.strip("\r\n")` -/
def stripNewlines (command : List Char) : List Char :=
  (command.dropWhile fun c => c == '\r' || c == '\n').rdropWhile fun c => c == '\r' || c == '\n'

/-- Ctrl-D in raw mode, behind the bytes of a command. -/
def Device.execute (d : Device S) (input : Bytes) : Device S :=
  let text := decodeReplace input
  if TextLines.isBlank text then { d with inbuf := [], outbuf := d.outbuf ++ [ctrlD, ctrlD, prompt] }
  else
    let command := stripNewlines text
    let (state, reply) := run d.state command
    { d with
      state, inbuf := [], outbuf := d.outbuf ++ reply.bytes, answered := d.answered ++ [(command, reply)] }

def Device.feed (d : Device S) (byte : UInt8) : Device S :=
  if !d.raw then
    if byte = ctrlA then { d with inbuf := [], raw := true, outbuf := d.outbuf ++ banner }
    else { d with inbuf := d.inbuf ++ [byte] }
  else if byte = ctrlB then { d with inbuf := [], raw := false, outbuf := d.outbuf ++ encode "\r\n>".toList }
  else if byte = ctrlD then d.execute run d.inbuf
  else { d with inbuf := d.inbuf ++ [byte] }

def Device.write (d : Device S) (data : Bytes) : Device S := data.foldl (Device.feed run) d

/-- The device, with `early` in front of what it has sent. -/
def Device.delay (early : Bytes) (d : Device S) : Device S := { d with outbuf := early ++ d.outbuf }

@[simp] theorem Device.delay_nil (d : Device S) : d.delay [] = d := rfl

private theorem Device.feed_delay (early : Bytes) (d : Device S) (byte : UInt8) :
    (d.delay early).feed run byte = (d.feed run byte).delay early := by
  unfold Device.feed Device.delay Device.execute
  dsimp only
  split_ifs <;> simp

/-- What was sent before does not change what a device does. -/
theorem Device.write_delay (early : Bytes) (d : Device S) (data : Bytes) :
    (d.delay early).write run data = (d.write run data).delay early := by
  induction data generalizing d with
  | nil => rfl
  | cons byte data ih =>
    show ((d.delay early).feed run byte).write run data = _
    rw [Device.feed_delay, ih]
    rfl

private theorem Device.write_append (d : Device S) (a b : Bytes) : d.write run (a ++ b) = (d.write run a).write run b :=
  List.foldl_append

/-! ### Modes -/

/-- Nothing typed in normal mode is executed, unless it enters raw mode. -/
theorem Device.write_normal {d : Device S} (hraw : d.raw = false) {data : Bytes} (hdata : ctrlA ∉ data) :
    d.write run data = { d with inbuf := d.inbuf ++ data } := by
  induction data generalizing d with
  | nil => simp [Device.write]
  | cons byte data ih =>
    obtain ⟨hbyte, hrest⟩ := not_or.1 (mt List.mem_cons.2 hdata)
    have hfeed : d.feed run byte = { d with inbuf := d.inbuf ++ [byte] } := by
      rw [Device.feed, hraw]
      simp [Ne.symm hbyte]
    show (d.feed run byte).write run data = _
    rw [hfeed]
    refine (ih (d := { d with inbuf := d.inbuf ++ [byte] }) hraw hrest).trans ?_
    simp

/-- The bytes of a command wait in raw mode. -/
private theorem Device.write_raw {d : Device S} (hraw : d.raw = true) {data : Bytes} (hb : ctrlB ∉ data)
    (hd : ctrlD ∉ data) :
    d.write run data = { d with inbuf := d.inbuf ++ data } := by
  induction data generalizing d with
  | nil => simp [Device.write]
  | cons byte data ih =>
    obtain ⟨hbyteb, hrestb⟩ := not_or.1 (mt List.mem_cons.2 hb)
    obtain ⟨hbyted, hrestd⟩ := not_or.1 (mt List.mem_cons.2 hd)
    have hfeed : d.feed run byte = { d with inbuf := d.inbuf ++ [byte] } := by
      rw [Device.feed, hraw]
      simp [Ne.symm hbyteb, Ne.symm hbyted]
    show (d.feed run byte).write run data = _
    rw [hfeed]
    refine (ih (d := { d with inbuf := d.inbuf ++ [byte] }) hraw hrestb hrestd).trans ?_
    simp

/-- Ctrl-B leaves a device in normal mode. -/
theorem Device.write_ctrlB (d : Device S) :
    ∃ inbuf sent, d.write run [ctrlB] = { d with inbuf, outbuf := d.outbuf ++ sent, raw := false } ∧
      ctrlD ∉ sent ∧ sent.length ≤ 3 := by
  cases hraw : d.raw with
  | false =>
    refine ⟨d.inbuf ++ [ctrlB], [], ?_, by simp, by simp⟩
    rw [Device.write_normal run hraw (by decide), List.append_nil, ← hraw]
  | true =>
    refine ⟨[], encode "\r\n>".toList, ?_, by decide, by decide⟩
    show d.feed run ctrlB = _
    rw [Device.feed, hraw]
    rfl

/-! ### Commands -/

/-- A text that a device takes as one command, as it is: no control characters, and not only white space. -/
structure IsCommand (command : List Char) : Prop where
  printable : ∀ c ∈ command, 0x20 ≤ c.toNat
  nonblank : TextLines.isBlank command = false

/-- No control characters, as a test. -/
def isPlain (text : List Char) : Bool := text.all fun c => 0x20 ≤ c.toNat

theorem printable_of_isPlain {text : List Char} (h : isPlain text = true) {c : Char} (hc : c ∈ text) : 0x20 ≤ c.toNat :=
  of_decide_eq_true (List.all_eq_true.1 h c hc)

theorem IsCommand.of_isPlain {command : List Char} (hplain : isPlain command = true)
    (hblank : TextLines.isBlank command = false) : IsCommand command :=
  ⟨fun _ => printable_of_isPlain hplain, hblank⟩

theorem IsCommand.encode_no_control {command : List Char} (h : IsCommand command) {b : UInt8} (hb : b.toNat < 0x20) :
    b ∉ encode command := by
  intro hmem
  obtain ⟨c, hc, hcb⟩ := encode_ascii hmem (by omega)
  have := h.printable c hc
  omega

private theorem IsCommand.stripNewlines_eq {command : List Char} (h : IsCommand command) :
    stripNewlines command = command := by
  have hplain : ∀ c ∈ command, ¬ (c == '\r' || c == '\n') = true := by
    intro c hc hnewline
    have hprint := h.printable c hc
    rw [Bool.or_eq_true, beq_iff_eq, beq_iff_eq] at hnewline
    rcases hnewline with rfl | rfl <;> revert hprint <;> decide
  have hdrop : (command.dropWhile fun c => c == '\r' || c == '\n') = command := by
    rw [List.dropWhile_eq_self_iff]
    exact fun hlen => hplain _ (List.getElem_mem hlen)
  rw [stripNewlines, hdrop, List.rdropWhile_eq_self_iff]
  exact fun hne => hplain _ (List.getLast_mem hne)

/-- A command typed in raw mode is executed and answered. -/
theorem Device.write_command {d : Device S} (hraw : d.raw = true) (hin : d.inbuf = []) {command : List Char}
    (h : IsCommand command) :
    d.write run (encode command ++ [ctrlD]) =
      { d with
        state := (run d.state command).1, outbuf := d.outbuf ++ (run d.state command).2.bytes
        answered := d.answered ++ [(command, (run d.state command).2)] } := by
  have htyped := Device.write_raw run hraw (h.encode_no_control (b := ctrlB) (by decide))
    (h.encode_no_control (b := ctrlD) (by decide))
  rw [Device.write_append, htyped, hin, List.nil_append]
  show Device.feed run _ ctrlD = _
  have hfeed : Device.feed run { d with inbuf := encode command } ctrlD =
      Device.execute run { d with inbuf := encode command } (encode command) := by
    simp [Device.feed, hraw, ctrlB, ctrlD]
  rw [hfeed, Device.execute, decodeReplace_encode, h.nonblank, h.stripNewlines_eq]
  simp

end Device

end IronHarness.Board
