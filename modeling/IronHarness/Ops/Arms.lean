import IronHarness.Lib.Bytes
import IronHarness.Lib.JsonAscii
import IronHarness.Lib.Lines

/-!
# The two arms

`BareArm.run` and `McpArm.run` (ironbench/ops_arms.py): the loop over the replies of a model, by scripts and by tool
calls, and the transcript of its turns.  What the model replies, and what scripts and tools give back, is arbitrary.
A run that an exception ends gives no result.
-/

namespace IronHarness.Ops

open ByteText JsonText TextLines

abbrev Text := List Char

/-! ### Turns -/

inductive Kind
  | script
  | tool
  | claim
  | invalid
  deriving DecidableEq

def Kind.name : Kind → Text
  | .script => "script".toList
  | .tool => "tool".toList
  | .claim => "claim".toList
  | .invalid => "invalid".toList

structure Turn where
  iteration : Nat
  kind : Kind
  content : Text
  observation : Text
  ok : Bool

inductive Verdict
  | success
  | fail
  deriving DecidableEq

structure ArmResult where
  turns : List Turn
  claimed : Option Verdict
  claimIteration : Option Nat
  tokensIn : Nat
  tokensOut : Nat
  timedOut : Bool

def emptyResult : ArmResult := ⟨[], none, none, 0, 0, false⟩

def ArmResult.addTurn (r : ArmResult) (turn : Turn) : ArmResult := { r with turns := r.turns ++ [turn] }

/-- A claim that is no verdict leaves the result without one. -/
def ArmResult.claim (r : ArmResult) (iteration : Nat) : Option Verdict → ArmResult
  | some verdict => { r with claimed := some verdict, claimIteration := some iteration }
  | none => r

def ArmResult.addTokens (r : ArmResult) (promptTokens completionTokens : Nat) : ArmResult :=
  { r with tokensIn := r.tokensIn + promptTokens, tokensOut := r.tokensOut + completionTokens }

/-! ### The transcript -/

def Turn.header (t : Turn) : Text :=
  "=== iter ".toList ++ Nat.toDigits 10 t.iteration ++ " [".toList ++ t.kind.name ++ "] ===".toList

def Turn.lines (t : Turn) : List Text :=
  [t.header, t.content] ++ if t.observation = [] then [] else ["--- observation ---\n".toList ++ t.observation]

def transcript (turns : List Turn) : Text := List.intercalate ['\n'] (turns.flatMap Turn.lines)

def observationCap : Nat := 4 * 1024

/-- `_cap` -/
def cap (text : Text) : Text :=
  if text.length ≤ observationCap then text
  else "[... ".toList ++ Nat.toDigits 10 (text.length - observationCap) ++ " bytes truncated ...]\n".toList ++
    text.drop (text.length - observationCap)

/-! ### What a reply says -/

/-- The rest of a line of white space, up to its end or to a later one. -/
def endsLine (rest : Text) : Bool := (rest.dropWhile isSpace).isEmpty || (rest.takeWhile isSpace).contains '\n'

/-- `CLAIM:\s*(SUCCESS|FAIL)\s*$` at the front of a text. -/
def claimAt (text : Text) : Option Verdict :=
  (afterWord "CLAIM:".toList text).bind fun rest =>
    match afterWord "SUCCESS".toList (rest.dropWhile isSpace), afterWord "FAIL".toList (rest.dropWhile isSpace) with
    | some rest, _ => if endsLine rest then some .success else none
    | none, some rest => if endsLine rest then some .fail else none
    | none, none => none

/-- `parse_claim`: the last claim that starts a line; `start` says that the text starts one. -/
def parseClaim (start : Bool) : Text → Option Verdict
  | [] => none
  | c :: cs =>
    match parseClaim (c == '\n') cs with
    | some verdict => some verdict
    | none => if start then claimAt (c :: cs) else none

section

variable {F : Type} [JsonFloat F]

abbrev Fields (F : Type) := List (String × Value F)

/-- `extract_last_json`: the last object, after `last`; the number bounds the braces to try. -/
def extractLastJson : Nat → Option (Fields F) → Text → Option (Fields F)
  | 0, last, _ => last
  | n + 1, last, text =>
    match find ['{'] text with
    | none => last
    | some brace =>
      match scanValue (text.length + 1) (text.drop brace) with
      | none => extractLastJson n last (text.drop (brace + 1))
      | some (.obj fields, rest) => extractLastJson n (some fields) rest
      | some (_, rest) => extractLastJson n last rest

/-- `parse_tool_arguments` -/
def parseToolArguments : Value F → Fields F
  | .obj fields => fields
  | .str s =>
    if strip s.toList = [] then []
    else
      match loads s.toList with
      | some (.obj fields) => fields
      | _ => []
  | _ => []

/-- What the arms take from Python: `str` of a value, `str.upper`, and whether a float is zero; and `extract_code`,
which finds the last code block of a reply. -/
structure Builtins (F : Type) where
  str : Value F → Text
  upper : Text → Text
  isZero : F → Bool
  extractCode : Text → Option Text

/-- `str(value).upper()` as a verdict. -/
def verdictOf (py : Builtins F) (value : Value F) : Option Verdict :=
  let word := py.upper (py.str value)
  if word = "SUCCESS".toList then some .success else if word = "FAIL".toList then some .fail else none

/-- `value or {}` -/
def orEmpty (py : Builtins F) : Value F → Value F
  | .null => .obj []
  | .bool false => .obj []
  | .int 0 => .obj []
  | .str "" => .obj []
  | .arr [] => .obj []
  | .float x => if py.isZero x then .obj [] else .float x
  | value => value

/-! ### The tools arm -/

/-- What `call_tool` returns. -/
structure ToolResult where
  ok : Bool
  text : Text

/-- A native tool call of a reply, with what the tool gives back when it is called. -/
structure Call (F : Type) where
  name : Text
  arguments : Value F
  result : ToolResult

/-- A reply, with what a tool that its text names gives back. -/
structure Reply (F : Type) where
  content : Text
  toolCalls : List (Call F)
  promptTokens : Nat
  completionTokens : Nat
  result : ToolResult

/-- A look at the clock at the head of the loop: the deadline has passed, or a reply follows. -/
inductive Round (R : Type)
  | late
  | reply (r : R)

/-- The payload of a tool turn. -/
def toolPayload (name : Text) (arguments : Value F) : Value F :=
  .obj [("tool", .str (String.ofList name)), ("arguments", arguments)]

def toolObservation (name : Text) (result : ToolResult) : Text :=
  "TOOL ".toList ++ name ++ " -> ".toList ++ (if result.ok then "OK".toList else "ERROR".toList) ++ ['\n'] ++
    cap result.text

def toolTurn (iteration : Nat) (name : Text) (arguments : Value F) (result : ToolResult) : Turn :=
  ⟨iteration, .tool, dumpsAscii (toolPayload name arguments), toolObservation name result, result.ok⟩

namespace McpArm

/-- One native call, after the result and whether a call of the reply was a claim. -/
def nativeCall (py : Builtins F) (iteration : Nat) (acc : ArmResult × Bool) (call : Call F) : ArmResult × Bool :=
  let arguments := parseToolArguments call.arguments
  if call.name = "claim".toList then
    let turn := ⟨iteration, .claim, dumpsAscii (.obj arguments), [], true⟩
    ((acc.1.addTurn turn).claim iteration (verdictOf py ((arguments.lookup "verdict").getD (.str ""))), true)
  else (acc.1.addTurn (toolTurn iteration call.name (.obj arguments) call.result), acc.2)

/-- A reply without native calls. -/
def textReply (py : Builtins F) (iteration : Nat) (r : ArmResult) (reply : Reply F) : ArmResult × Bool :=
  match parseClaim true reply.content with
  | some verdict =>
    ((r.addTurn ⟨iteration, .claim, strip reply.content, [], true⟩).claim iteration (some verdict), true)
  | none =>
    match extractLastJson (F := F) (reply.content.length + 1) none reply.content with
    | none =>
      (r.addTurn ⟨iteration, .invalid, reply.content, "Call a tool, or call claim with your verdict.".toList, true⟩,
        false)
    | some payload =>
      match payload.lookup "claim" with
      | some value =>
        ((r.addTurn ⟨iteration, .claim, dumpsAscii (.obj payload), [], true⟩).claim iteration (verdictOf py value), true)
      | none =>
        match payload.lookup "tool" with
        | some (.str name) =>
          (r.addTurn (toolTurn iteration name.toList
            (orEmpty py ((payload.lookup "arguments").getD .null)) reply.result), false)
        | _ => (r.addTurn ⟨iteration, .invalid, reply.content, "Missing tool name.".toList, true⟩, false)

/-- The body of the loop; whether the reply ends it. -/
def step (py : Builtins F) (iteration : Nat) (r : ArmResult) (reply : Reply F) : ArmResult × Bool :=
  let r := r.addTokens reply.promptTokens reply.completionTokens
  if reply.toolCalls = [] then textReply py iteration r reply
  else reply.toolCalls.foldl (nativeCall py iteration) (r, false)

end McpArm

/-! ### The bare arm -/

/-- A reply of the model, with what running its script gives. -/
structure BareReply where
  content : Text
  promptTokens : Nat
  completionTokens : Nat
  exitCode : Int
  output : Text
  timedOut : Bool

namespace BareArm

def step (py : Builtins F) (iteration : Nat) (r : ArmResult) (reply : BareReply) : ArmResult × Bool :=
  let r := r.addTokens reply.promptTokens reply.completionTokens
  match parseClaim true reply.content with
  | some verdict =>
    ((r.addTurn ⟨iteration, .claim, strip reply.content, [], true⟩).claim iteration (some verdict), true)
  | none =>
    match py.extractCode reply.content with
    | none =>
      (r.addTurn ⟨iteration, .invalid, reply.content, "Reply with one ```python block.".toList, true⟩, false)
    | some code =>
      let observation := "exit=".toList ++ (intLit reply.exitCode).text ++ ['\n'] ++ reply.output
      let r := r.addTurn ⟨iteration, .script, code, observation, reply.exitCode = 0⟩
      if reply.timedOut then ({ r with timedOut := true }, true) else (r, false)

end BareArm

/-! ### The loop -/

/-- `for iteration in range(iteration, iteration + n)`; `none` where a reply is missing, because the model, or the tool
the reply calls, has raised an exception. -/
def loop {R : Type} (step : Nat → ArmResult → R → ArmResult × Bool) :
    Nat → Nat → List (Round R) → ArmResult → Option ArmResult
  | 0, _, _, r => some r
  | _ + 1, _, [], _ => none
  | _ + 1, _, .late :: _, r => some { r with timedOut := true }
  | n + 1, iteration, .reply reply :: rounds, r =>
    let (r', stop) := step iteration r reply
    if stop then some r' else loop step n (iteration + 1) rounds r'

def McpArm.run (py : Builtins F) (maxIterations : Nat) (rounds : List (Round (Reply F))) : Option ArmResult :=
  loop (McpArm.step py) maxIterations 1 rounds emptyResult

def BareArm.run (py : Builtins F) (maxIterations : Nat) (rounds : List (Round BareReply)) : Option ArmResult :=
  loop (BareArm.step py) maxIterations 1 rounds emptyResult

end

end IronHarness.Ops
