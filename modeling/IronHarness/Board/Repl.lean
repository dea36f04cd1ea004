import IronHarness.Board.Device
import IronHarness.Lib.Polled

/-!
# The raw-REPL driver

The transfer driver over a link to a board: a stream that cuts the answers of the board at their terminators, whatever
the reads return, the dance that reaches raw mode, the execution of one command, and the transfer of a file in chunks
that travel as hexadecimal text.
-/

namespace IronHarness.Board

open ByteText PyLiteral Polled

/-- What a look at the clock and the read behind it find: the deadline has passed, or it has not and the read returns
at most `size` bytes of what the board has sent. -/
inductive Poll
  | late
  | read (size : Nat)
  deriving DecidableEq

inductive Exn
  | timeoutError
  | transportIoError
  | mpReplError (text : List Char)
  | valueError
  deriving DecidableEq

/-- `str(e)`; the text of a ValueError of `bytes.fromhex` is left out. -/
def Exn.str : Exn → List Char
  | .timeoutError => "board did not answer within 10.0s (raw REPL)".toList
  | .transportIoError => "raw REPL response exceeded 262144 bytes without the expected terminator".toList
  | .mpReplError text => text
  | .valueError => []

/-- `type(e).__name__` -/
def Exn.typeName : Exn → String
  | .timeoutError => "TimeoutError"
  | .transportIoError => "TransportIoError"
  | .mpReplError _ => "MpReplError"
  | .valueError => "ValueError"

/-- The board and the buffer of the stream that reads from it. -/
structure Wire (S : Type) where
  device : Device S
  buf : Bytes

abbrev Link (S α : Type) : Type := Prog Poll (Wire S) Exn α

section

variable {S : Type}

/-! ### The stream -/

namespace Stream

def maxStreamBuf : Nat := 256 * 1024

/-- `self._buf += self._t.read(256)` -/
def fill (w : Wire S) (size : Nat) : Wire S :=
  let n := min size 256
  { device := { w.device with outbuf := w.device.outbuf.drop n }, buf := w.buf ++ w.device.outbuf.take n }

/-- The bytes before the first terminator and those behind it. -/
def cut (terminator buf : Bytes) : Option (Bytes × Bytes) :=
  (find terminator buf).map fun idx => (buf.take idx, buf.drop (idx + terminator.length))

def untilLoop (terminator : Bytes) : List Poll → Wire S → Option (Except Exn Bytes × Wire S × List Poll)
  | [], w => (cut terminator w.buf).map fun (piece, rest) => (.ok piece, { w with buf := rest }, [])
  | poll :: polls, w =>
    match cut terminator w.buf with
    | some (piece, rest) => some (.ok piece, { w with buf := rest }, poll :: polls)
    | none =>
      match poll with
      | .late => some (.error .timeoutError, w, polls)
      | .read size =>
        if maxStreamBuf < (fill w size).buf.length then some (.error .transportIoError, fill w size, polls)
        else untilLoop terminator polls (fill w size)

/-- `_Stream.until` -/
def upTo (terminator : Bytes) : Link S Bytes := fun w polls => untilLoop terminator polls w

def untilPrompt : Link S Bytes := upTo [prompt]

end Stream

/-! ### One session -/

variable (run : S → List Char → S × Reply) (isPrintable : Char → Bool)

namespace MpRepl

def write (data : Bytes) : Link S Unit := Polled.modify fun w => { w with device := w.device.write run data }

/-- `time.monotonic() >= deadline` -/
def isLate : Link S Bool := fun w polls =>
  match polls with
  | [] => none
  | .late :: polls => some (.ok true, w, polls)
  | .read _ :: polls => some (.ok false, w, polls)

def rawRepl : Bytes := encode "raw REPL".toList

/-- One attempt of `enter`. -/
def dance : Link S Unit := do
  write run [ctrlB]
  write run [ctrlC, ctrlC]
  write run [ctrlA]
  let _ ← Stream.upTo rawRepl
  let _ ← Stream.untilPrompt
  return ()

/-- `enter`, with at most `fuel` attempts. -/
def enter : Nat → Link S Unit
  | 0 => unfinished
  | fuel + 1 => catching (dance run) fun e =>
    if e = .timeoutError then do
      let late ← isLate
      if late then throw e else enter fuel
    else throw e

def exit_ : Link S Unit := suppress (write run [ctrlB])

/-- What `exec_` makes of the two sections of an answer. -/
def answer (out err : Bytes) : Except Exn (List Char) :=
  let error := TextLines.strip (decodeReplace err)
  if error = [] then .ok (decodeReplace (if okMark.isPrefixOf out then out.drop 2 else out))
  else .error (.mpReplError error)

def exec_ (command : List Char) : Link S (List Char) := do
  write run (encode command ++ [ctrlD])
  let out ← Stream.upTo [ctrlD]
  let err ← Stream.upTo [ctrlD]
  let _ ← Stream.untilPrompt
  match answer out err with
  | .ok text => return text
  | .error e => throw e

/-! ### Transfers -/

def importCommand : List Char := "import binascii".toList

def openCommand (target : PyStr) (mode : List Char) : List Char :=
  "f = open(".toList ++ repr isPrintable target ++ ", '".toList ++ mode ++ "')".toList

def writeCommand (piece : Bytes) : List Char :=
  "f.write(binascii.unhexlify('".toList ++ hex piece ++ "'))".toList

def readCommand (chunk : Nat) : List Char :=
  "print(binascii.hexlify(f.read(".toList ++ Nat.toDigits 10 chunk ++ ")))".toList

def closeCommand : List Char := "f.close()".toList

def bestEffortClose : Link S Unit := suppress (exec_ run closeCommand)

/-- `data[i : i + chunk]` for `i` in `range(0, len(data), chunk)` -/
def chunksOf (chunk : Nat) (data : Bytes) : List Bytes :=
  (List.range ((data.length + chunk - 1) / chunk)).map fun k => (data.drop (k * chunk)).take chunk

def writeLoop : List Bytes → Link S Unit
  | [] => return ()
  | piece :: pieces => do
    let _ ← exec_ run (writeCommand piece)
    writeLoop pieces

def putFile (fuel chunk : Nat) (data : Bytes) (target : PyStr) : Link S Nat := do
  enter run fuel
  onError (do
    let _ ← exec_ run importCommand
    let _ ← exec_ run (openCommand isPrintable target "wb".toList)
    onError (do
      writeLoop run (chunksOf chunk data)
      let _ ← exec_ run closeCommand
      return ()) (bestEffortClose run)) (exit_ run)
  exit_ run
  return data.length

/-- The bytes in the output of one read: `none` at the end of the file. -/
def parseRead (out : List Char) : Except Exn (Option Bytes) :=
  let out := TextLines.strip out
  if out = [] ∨ out = "b''".toList then .ok none
  else if "b'".toList.isPrefixOf out && "'".toList.isSuffixOf out then
    match fromHex (out.drop 2).dropLast with
    | some piece => .ok (some piece)
    | none => .error .valueError
  else .error (.mpReplError ("unexpected board answer: ".toList ++ repr isPrintable (out.map ofChar)))

/-- The loop of `get_file`, with at most `fuel` reads. -/
def readLoop (chunk : Nat) : Nat → Bytes → Link S Bytes
  | 0, _ => unfinished
  | fuel + 1, parts => do
    let out ← exec_ run (readCommand chunk)
    match parseRead isPrintable out with
    | .error e => throw e
    | .ok none => return parts
    | .ok (some piece) => readLoop chunk fuel (parts ++ piece)

def getFile (fuel chunk : Nat) (target : PyStr) : Link S Bytes := do
  enter run fuel
  let data ← onError (do
    let _ ← exec_ run importCommand
    let _ ← exec_ run (openCommand isPrintable target "rb".toList)
    onError (do
      let parts ← readLoop run isPrintable chunk fuel []
      let _ ← exec_ run closeCommand
      return parts) (bestEffortClose run)) (exit_ run)
  exit_ run
  return data

end MpRepl

/-- `MpRepl(t, chunk=chunk)`: its stream has an empty buffer. -/
def newSession : Link S Unit := Polled.modify fun w => { w with buf := [] }

/-- `put_file` of the module. -/
def putFile (fuel chunk : Nat) (data : Bytes) (target : PyStr) : Link S Nat := do
  newSession
  MpRepl.putFile run isPrintable fuel chunk data target

/-- `get_file` of the module. -/
def getFile (fuel chunk : Nat) (target : PyStr) : Link S Bytes := do
  newSession
  MpRepl.getFile run isPrintable fuel chunk target

end

end IronHarness.Board
