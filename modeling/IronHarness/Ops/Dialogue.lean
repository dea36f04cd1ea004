import IronHarness.Ops.Arms

/-!
# The dialogue with the model

The two loops of ironbench/ops_arms.py again, now with the messages that they send: every request repeats the whole
dialogue so far, and the loop adds one exchange for each reply that does not end it.  A request that asks for tools is
answered call by call, each result under the id of its call.
-/

namespace IronHarness.Ops

open ByteText JsonText TextLines

variable {F : Type}

/-! ### Messages -/

/-- A native call with its id, `tc.get("id") or ""`. -/
structure ToolCall (F : Type) extends Call F where
  id : Text

/-- A reply of the model; `said` is `msg.get("content") or ""`. -/
structure Answer (F : Type) where
  content : Text
  said : Text
  toolCalls : List (ToolCall F)
  promptTokens : Nat
  completionTokens : Nat
  result : ToolResult

/-- What the loop takes of a reply for its result. -/
def Answer.reply (a : Answer F) : Reply F :=
  ⟨a.content, a.toolCalls.map ToolCall.toCall, a.promptTokens, a.completionTokens, a.result⟩

inductive ChatMessage (F : Type)
  | system (content : Text)
  | user (content : Text)
  | assistant (content : Text)
  | toolCalls (content : Text) (calls : List (ToolCall F))
  | tool (id content : Text)

/-- The messages of the next request, beside the result so far and the calls that were sent to the tools. -/
structure Dialogue (F : Type) where
  result : ArmResult
  messages : List (ChatMessage F)
  forwarded : List (Text × Value F)

def openDialogue (systemPrompt taskPrompt : Text) : Dialogue F :=
  ⟨emptyResult, [.system systemPrompt, .user taskPrompt], []⟩

namespace Dialogue

def addTurn (d : Dialogue F) (turn : Turn) : Dialogue F := { d with result := d.result.addTurn turn }

def claim (d : Dialogue F) (iteration : Nat) (verdict : Option Verdict) : Dialogue F :=
  { d with result := d.result.claim iteration verdict }

def say (d : Dialogue F) (messages : List (ChatMessage F)) : Dialogue F := { d with messages := d.messages ++ messages }

/-- `client.call_tool`, with its turn. -/
def callTool [JsonFloat F] (d : Dialogue F) (iteration : Nat) (name : Text) (arguments : Value F) (result : ToolResult) :
    Dialogue F :=
  { d.addTurn (toolTurn iteration name arguments result) with forwarded := d.forwarded ++ [(name, arguments)] }

end Dialogue

section

variable [JsonFloat F]

namespace McpArm

def systemPrompt : Text :=
  ("You operate a live embedded board through hardware tools. You work in " ++
    "iterations: call exactly one tool per turn; you will see its result as " ++
    "feedback. When your evidence shows the task is done, call the claim tool " ++
    "with verdict SUCCESS; if the task cannot be done, call it with verdict " ++
    "FAIL. Never claim success without evidence from the board.").toList

/-- One native call: a claim gets no message. -/
def answerCall (py : Builtins F) (iteration : Nat) (acc : Dialogue F × Bool) (call : ToolCall F) : Dialogue F × Bool :=
  let arguments := parseToolArguments call.arguments
  if call.name = "claim".toList then
    let turn := ⟨iteration, .claim, dumpsAscii (.obj arguments), [], true⟩
    ((acc.1.addTurn turn).claim iteration (verdictOf py ((arguments.lookup "verdict").getD (.str ""))), true)
  else
    ((acc.1.callTool iteration call.name (.obj arguments) call.result).say [.tool call.id (cap call.result.text)], acc.2)

/-- A reply without native calls. -/
def answerText (py : Builtins F) (iteration : Nat) (d : Dialogue F) (answer : Answer F) : Dialogue F × Bool :=
  match parseClaim true answer.content with
  | some verdict =>
    ((d.addTurn ⟨iteration, .claim, strip answer.content, [], true⟩).claim iteration (some verdict), true)
  | none =>
    match extractLastJson (F := F) (answer.content.length + 1) none answer.content with
    | none =>
      ((d.addTurn ⟨iteration, .invalid, answer.content, "Call a tool, or call claim with your verdict.".toList,
          true⟩).say [.assistant answer.content,
            .user "Reply by calling a tool, or call the claim tool with verdict SUCCESS/FAIL.".toList], false)
    | some payload =>
      match payload.lookup "claim" with
      | some value =>
        ((d.addTurn ⟨iteration, .claim, dumpsAscii (.obj payload), [], true⟩).claim iteration (verdictOf py value), true)
      | none =>
        match payload.lookup "tool" with
        | some (.str name) =>
          let observation := toolObservation name.toList answer.result
          ((d.callTool iteration name.toList (orEmpty py ((payload.lookup "arguments").getD .null)) answer.result).say
            [.assistant answer.content,
              .user ("Tool result:\n".toList ++ observation ++ "\n\nContinue, or claim.".toList)], false)
        | _ =>
          ((d.addTurn ⟨iteration, .invalid, answer.content, "Missing tool name.".toList, true⟩).say
            [.assistant answer.content, .user "Provide a tool name.".toList], false)

/-- The body of the loop; whether the reply ends it. -/
def answer (py : Builtins F) (iteration : Nat) (d : Dialogue F) (answer : Answer F) : Dialogue F × Bool :=
  let d := { d with result := d.result.addTokens answer.promptTokens answer.completionTokens }
  if answer.toolCalls = [] then answerText py iteration d answer
  else answer.toolCalls.foldl (answerCall py iteration) (d.say [.toolCalls answer.said answer.toolCalls], false)

end McpArm

namespace BareArm

def systemPrompt : Text :=
  ("You operate a live embedded board from a host computer. You work in " ++
    "iterations: reply with exactly one ```python block containing a complete " ++
    "host Python script (Python 3.12; pyserial is installed; the board's " ++
    "serial port is in the environment variable IRONBENCH_OPS_PORT). The " ++
    "script runs with a timeout, and you will see its combined stdout/stderr " ++
    "as feedback. When your evidence shows the task is done, reply with the " ++
    "single line 'CLAIM: SUCCESS' (no code block). If you conclude the task " ++
    "cannot be done, reply 'CLAIM: FAIL'. Never claim success without " ++
    "evidence from the board.").toList

def answer (py : Builtins F) (iteration : Nat) (d : Dialogue F) (reply : BareReply) : Dialogue F × Bool :=
  let d := { d with result := d.result.addTokens reply.promptTokens reply.completionTokens }
  match parseClaim true reply.content with
  | some verdict =>
    ((d.addTurn ⟨iteration, .claim, strip reply.content, [], true⟩).claim iteration (some verdict), true)
  | none =>
    match py.extractCode reply.content with
    | none =>
      ((d.addTurn ⟨iteration, .invalid, reply.content, "Reply with one ```python block.".toList, true⟩).say
        [.assistant reply.content,
          .user ("Your reply had no ```python block. Reply with exactly one " ++
            "complete script, or CLAIM: SUCCESS / CLAIM: FAIL.").toList], false)
    | some code =>
      let observation := "exit=".toList ++ (intLit reply.exitCode).text ++ ['\n'] ++ reply.output
      let d := d.addTurn ⟨iteration, .script, code, observation, reply.exitCode = 0⟩
      if reply.timedOut then ({ d with result := { d.result with timedOut := true } }, true)
      else (d.say [.assistant reply.content,
        .user ("Script output:\n".toList ++ observation ++ "\n\nContinue, or CLAIM.".toList)], false)

end BareArm

/-! ### The loop -/

/-- The loop over the replies: the requests that it sends, and the dialogue at its end, unless an exception ends it. -/
def converse {R : Type} (answer : Nat → Dialogue F → R → Dialogue F × Bool) :
    Nat → Nat → List (Round R) → Dialogue F → List (List (ChatMessage F)) × Option (Dialogue F)
  | 0, _, _, d => ([], some d)
  | _ + 1, _, [], d => ([d.messages], none)
  | _ + 1, _, .late :: _, d => ([], some { d with result := { d.result with timedOut := true } })
  | n + 1, iteration, .reply reply :: rounds, d =>
    let (d', stop) := answer iteration d reply
    if stop then ([d.messages], some d')
    else
      let (requests, last) := converse answer n (iteration + 1) rounds d'
      (d.messages :: requests, last)

def Round.map {R S : Type} (f : R → S) : Round R → Round S
  | .late => .late
  | .reply r => .reply (f r)

def McpArm.converse (py : Builtins F) (taskPrompt : Text) (maxIterations : Nat) (rounds : List (Round (Answer F))) :
    List (List (ChatMessage F)) × Option (Dialogue F) :=
  Ops.converse (McpArm.answer py) maxIterations 1 rounds (openDialogue McpArm.systemPrompt taskPrompt)

def BareArm.converse (py : Builtins F) (taskPrompt : Text) (maxIterations : Nat) (rounds : List (Round BareReply)) :
    List (List (ChatMessage F)) × Option (Dialogue F) :=
  Ops.converse (BareArm.answer py) maxIterations 1 rounds (openDialogue BareArm.systemPrompt taskPrompt)

end

/-! ### The result of the loop -/

/-- The result of a loop that keeps its messages is that of the loop without them. -/
private theorem converse_result {R S : Type} {answer : Nat → Dialogue F → R → Dialogue F × Bool}
    {step : Nat → ArmResult → S → ArmResult × Bool} {erase : R → S}
    (h : ∀ iteration d r, step iteration d.result (erase r) =
      ((answer iteration d r).1.result, (answer iteration d r).2))
    (n iteration : Nat) (rounds : List (Round R)) (d : Dialogue F) :
    (converse answer n iteration rounds d).2.map Dialogue.result =
      loop step n iteration (rounds.map (Round.map erase)) d.result := by
  induction n generalizing iteration rounds d with
  | zero => rfl
  | succ n ih =>
    rcases rounds with - | ⟨- | r, rounds⟩
    · rfl
    · rfl
    · rw [List.map_cons]
      dsimp only [Round.map]
      rw [converse, loop, h]
      dsimp only
      split
      · rfl
      · exact ih (iteration + 1) rounds _

private theorem bare_step_eq {py : Builtins F} (iteration : Nat) (d : Dialogue F) (reply : BareReply) :
    BareArm.step py iteration d.result reply =
      ((BareArm.answer py iteration d reply).1.result, (BareArm.answer py iteration d reply).2) := by
  unfold BareArm.step BareArm.answer
  dsimp only
  cases parseClaim true reply.content with
  | some verdict => rfl
  | none =>
    cases py.extractCode reply.content with
    | none => rfl
    | some code => cases reply.timedOut <;> rfl

section

variable [JsonFloat F] {py : Builtins F} {iteration : Nat}

private theorem nativeCall_eq (acc : Dialogue F × Bool) (call : ToolCall F) :
    McpArm.nativeCall py iteration (acc.1.result, acc.2) call.toCall =
      ((McpArm.answerCall py iteration acc call).1.result, (McpArm.answerCall py iteration acc call).2) := by
  unfold McpArm.nativeCall McpArm.answerCall
  dsimp only
  split <;> rfl

private theorem foldl_nativeCall_eq (calls : List (ToolCall F)) (acc : Dialogue F × Bool) :
    (calls.map ToolCall.toCall).foldl (McpArm.nativeCall py iteration) (acc.1.result, acc.2) =
      ((calls.foldl (McpArm.answerCall py iteration) acc).1.result,
        (calls.foldl (McpArm.answerCall py iteration) acc).2) := by
  induction calls generalizing acc with
  | nil => rfl
  | cons call calls ih =>
    rw [List.map_cons, List.foldl_cons, List.foldl_cons, nativeCall_eq]
    exact ih _

private theorem textReply_eq (d : Dialogue F) (a : Answer F) :
    McpArm.textReply py iteration d.result a.reply =
      ((McpArm.answerText py iteration d a).1.result, (McpArm.answerText py iteration d a).2) := by
  unfold McpArm.textReply McpArm.answerText Answer.reply
  dsimp only
  cases parseClaim true a.content with
  | some verdict => rfl
  | none =>
    cases extractLastJson (F := F) (a.content.length + 1) none a.content with
    | none => rfl
    | some payload =>
      dsimp only
      cases payload.lookup "claim" with
      | some value => rfl
      | none =>
        cases payload.lookup "tool" with
        | none => rfl
        | some value => cases value <;> rfl

private theorem mcp_step_eq (iteration : Nat) (d : Dialogue F) (a : Answer F) :
    McpArm.step py iteration d.result a.reply =
      ((McpArm.answer py iteration d a).1.result, (McpArm.answer py iteration d a).2) := by
  unfold McpArm.step McpArm.answer
  by_cases hcalls : a.toolCalls = []
  · have hreply : a.reply.toolCalls = [] := by simp [Answer.reply, hcalls]
    rw [if_pos hcalls, if_pos hreply]
    exact textReply_eq { d with result := d.result.addTokens a.promptTokens a.completionTokens } a
  · have hreply : a.reply.toolCalls ≠ [] := by simp [Answer.reply, hcalls]
    rw [if_neg hcalls, if_neg hreply]
    exact foldl_nativeCall_eq a.toolCalls
      (Dialogue.say { d with result := d.result.addTokens a.promptTokens a.completionTokens }
        [.toolCalls a.said a.toolCalls], false)

/-! ### What one reply adds -/

/-- The exchange that a reply adds to the dialogue: its text and an answer to it, or its calls, none of which is a
claim, and behind them the result of each under its own id. -/
inductive Exchange : Answer F → List (ChatMessage F) → Prop
  | text (a : Answer F) (hcalls : a.toolCalls = []) (instruction : Text) :
      Exchange a [.assistant a.content, .user instruction]
  | calls (a : Answer F) (hcalls : a.toolCalls ≠ []) (hclaim : ∀ call ∈ a.toolCalls, call.name ≠ "claim".toList) :
      Exchange a (.toolCalls a.said a.toolCalls ::
        a.toolCalls.map fun call => .tool call.id (cap call.result.text))

/-- The content of a tool turn. -/
def callText (call : Text × Value F) : Text := dumpsAscii (toolPayload call.1 call.2)

/-- The tool turns are the calls that were sent to the tools. -/
def Dialogue.Recorded (d : Dialogue F) : Prop :=
  (d.result.turns.filter fun turn => turn.kind = .tool).map Turn.content = d.forwarded.map callText

private theorem recorded_addTurn {d : Dialogue F} (h : d.Recorded) {turn : Turn} (hkind : turn.kind ≠ .tool) :
    (d.addTurn turn).Recorded := by
  unfold Dialogue.Recorded Dialogue.addTurn ArmResult.addTurn at *
  dsimp only
  rw [List.filter_append, List.map_append, h]
  simp [hkind]

private theorem recorded_claim {d : Dialogue F} (h : d.Recorded) (verdict : Option Verdict) :
    (d.claim iteration verdict).Recorded := by
  cases verdict <;> exact h

private theorem recorded_callTool {d : Dialogue F} (h : d.Recorded) (name : Text) (arguments : Value F)
    (result : ToolResult) :
    (d.callTool iteration name arguments result).Recorded := by
  unfold Dialogue.Recorded Dialogue.callTool Dialogue.addTurn ArmResult.addTurn toolTurn at *
  dsimp only
  rw [List.filter_append, List.map_append, List.map_append, h]
  rfl

/-- What the calls of one reply do: each that is no claim gets its message. -/
private theorem foldl_answerCall (calls : List (ToolCall F)) (acc : Dialogue F × Bool) :
    let last := calls.foldl (McpArm.answerCall py iteration) acc
    (last.2 = false → acc.2 = false ∧ (∀ call ∈ calls, call.name ≠ "claim".toList) ∧
      last.1.messages = acc.1.messages ++ calls.map fun call => .tool call.id (cap call.result.text)) ∧
    (acc.1.Recorded → last.1.Recorded) := by
  induction calls generalizing acc with
  | nil => exact ⟨fun h => ⟨h, by simp, (List.append_nil _).symm⟩, id⟩
  | cons call calls ih =>
    obtain ⟨hgoes, hrecorded⟩ := ih (McpArm.answerCall py iteration acc call)
    rw [List.foldl_cons]
    by_cases hclaim : call.name = "claim".toList
    · have hcall : (McpArm.answerCall py iteration acc call).2 = true := by
        unfold McpArm.answerCall
        dsimp only
        rw [if_pos hclaim]
      constructor
      · intro h
        rw [(hgoes h).1] at hcall
        cases hcall
      · intro h
        apply hrecorded
        unfold McpArm.answerCall
        dsimp only
        rw [if_pos hclaim]
        exact recorded_claim (recorded_addTurn h (by simp)) _
    · have hcall : McpArm.answerCall py iteration acc call =
          ((acc.1.callTool iteration call.name (.obj (parseToolArguments call.arguments)) call.result).say
            [.tool call.id (cap call.result.text)], acc.2) := by
        unfold McpArm.answerCall
        dsimp only
        rw [if_neg hclaim]
      rw [hcall] at hgoes hrecorded ⊢
      constructor
      · intro h
        obtain ⟨hbefore, hcalls, hmessages⟩ := hgoes h
        refine ⟨hbefore, List.forall_mem_cons.2 ⟨hclaim, hcalls⟩, ?_⟩
        rw [hmessages]
        exact List.append_assoc _ [_] _
      · intro h
        exact hrecorded (recorded_callTool h call.name _ call.result)

private theorem answerText_spec {d : Dialogue F} {a : Answer F} (hcalls : a.toolCalls = []) :
    let last := McpArm.answerText py iteration d a
    (last.2 = false → ∃ e, Exchange a e ∧ last.1.messages = d.messages ++ e) ∧ (d.Recorded → last.1.Recorded) := by
  unfold McpArm.answerText
  cases parseClaim true a.content with
  | some verdict =>
    exact ⟨fun h => absurd h Bool.noConfusion, fun h => recorded_claim (recorded_addTurn h (by simp)) _⟩
  | none =>
    dsimp only
    cases extractLastJson (F := F) (a.content.length + 1) none a.content with
    | none => exact ⟨fun _ => ⟨_, .text a hcalls _, rfl⟩, fun h => recorded_addTurn h (by simp)⟩
    | some payload =>
      dsimp only
      cases payload.lookup "claim" with
      | some value =>
        exact ⟨fun h => absurd h Bool.noConfusion, fun h => recorded_claim (recorded_addTurn h (by simp)) _⟩
      | none =>
        dsimp only
        split
        · exact ⟨fun _ => ⟨_, .text a hcalls _, rfl⟩, fun h => recorded_callTool h _ _ _⟩
        · exact ⟨fun _ => ⟨_, .text a hcalls _, rfl⟩, fun h => recorded_addTurn h (by simp)⟩

private theorem answer_spec (d : Dialogue F) (a : Answer F) :
    let last := McpArm.answer py iteration d a
    (last.2 = false → ∃ e, Exchange a e ∧ last.1.messages = d.messages ++ e) ∧ (d.Recorded → last.1.Recorded) := by
  unfold McpArm.answer
  by_cases hcalls : a.toolCalls = []
  · rw [if_pos hcalls]
    exact answerText_spec hcalls
  · rw [if_neg hcalls]
    obtain ⟨hgoes, hrecorded⟩ := foldl_answerCall a.toolCalls
      (Dialogue.say { d with result := d.result.addTokens a.promptTokens a.completionTokens }
        [.toolCalls a.said a.toolCalls], false)
    refine ⟨fun h => ?_, hrecorded⟩
    obtain ⟨-, hclaim, hmessages⟩ := hgoes h
    exact ⟨_, .calls a hcalls hclaim, by rw [hmessages]; exact List.append_assoc _ [_] _⟩

end

/-! ### Whole dialogues -/

/-- The replies up to the first look at the clock that is too late. -/
def replies {R : Type} : List (Round R) → List R
  | [] => []
  | .late :: _ => []
  | .reply r :: rounds => r :: replies rounds

/-- Request `i` is the opening and the first `i` exchanges, and exchange `i` answers reply `i`. -/
structure Requests {R : Type} (exchange : R → List (ChatMessage F) → Prop) (opening : List (ChatMessage F))
    (answers : List R) (requests : List (List (ChatMessage F))) (exchanges : List (List (ChatMessage F))) : Prop where
  answered : List.Forall₂ exchange (answers.take exchanges.length) exchanges
  repeated : requests = (List.range requests.length).map fun i => opening ++ (exchanges.take i).flatten
  enough : exchanges.length ≤ requests.length ∧ requests.length ≤ exchanges.length + 1

theorem Requests.none {R : Type} (exchange : R → List (ChatMessage F) → Prop) (opening : List (ChatMessage F))
    (answers : List R) : Requests exchange opening answers [] [] :=
  ⟨List.Forall₂.nil, rfl, by simp⟩

theorem Requests.one {R : Type} (exchange : R → List (ChatMessage F) → Prop) (opening : List (ChatMessage F))
    (answers : List R) : Requests exchange opening answers [opening] [] :=
  ⟨List.Forall₂.nil, by simp, by simp⟩

private theorem converse_requests {R : Type} {answer : Nat → Dialogue F → R → Dialogue F × Bool}
    {exchange : R → List (ChatMessage F) → Prop}
    (hanswer : ∀ iteration d r, (answer iteration d r).2 = false →
      ∃ e, exchange r e ∧ (answer iteration d r).1.messages = d.messages ++ e)
    (n iteration : Nat) (rounds : List (Round R)) (d : Dialogue F) :
    (converse answer n iteration rounds d).1.length ≤ n ∧
      ∃ exchanges, Requests exchange d.messages (replies rounds) (converse answer n iteration rounds d).1 exchanges := by
  induction n generalizing iteration rounds d with
  | zero => exact ⟨Nat.le_refl 0, [], .none _ _ _⟩
  | succ n ih =>
    rcases rounds with - | ⟨- | r, rounds⟩
    · exact ⟨by simp [converse], [], .one _ _ _⟩
    · exact ⟨by simp [converse], [], .none _ _ _⟩
    · rw [converse]
      dsimp only
      cases hstop : (answer iteration d r).2 with
      | true => exact ⟨by simp, [], .one _ _ _⟩
      | false =>
        obtain ⟨e, he, hmessages⟩ := hanswer iteration d r hstop
        obtain ⟨hlen, exchanges, hrest⟩ := ih (iteration + 1) rounds (answer iteration d r).1
        generalize converse answer n (iteration + 1) rounds (answer iteration d r).1 = c at hlen hrest ⊢
        rw [if_neg Bool.false_ne_true]
        refine ⟨by simpa using hlen, e :: exchanges, ?_⟩
        constructor
        · exact List.Forall₂.cons he hrest.answered
        · have hrepeated := hrest.repeated
          rw [hmessages] at hrepeated
          rw [List.length_cons, List.range_succ_eq_map, List.map_cons, List.map_map]
          have hfirst : d.messages = d.messages ++ ((e :: exchanges).take 0).flatten := by simp
          rw [← hfirst]
          refine congrArg _ (hrepeated.trans (List.map_congr_left fun i _ => ?_))
          simp
        · have henough := hrest.enough
          simp only [List.length_cons]
          omega

private theorem converse_recorded {R : Type} {answer : Nat → Dialogue F → R → Dialogue F × Bool} {I : Dialogue F → Prop}
    (hanswer : ∀ iteration d r, I d → I (answer iteration d r).1)
    (hlate : ∀ d, I d → I { d with result := { d.result with timedOut := true } })
    (n iteration : Nat) (rounds : List (Round R)) (d : Dialogue F) (h : I d) :
    ∀ last, (converse answer n iteration rounds d).2 = some last → I last := by
  induction n generalizing iteration rounds d with
  | zero =>
    intro last hlast
    obtain rfl := Option.some.inj hlast
    exact h
  | succ n ih =>
    intro last hlast
    rcases rounds with - | ⟨- | r, rounds⟩
    · cases hlast
    · obtain rfl := Option.some.inj hlast
      exact hlate d h
    · rw [converse] at hlast
      dsimp only at hlast
      split at hlast
      · obtain rfl := Option.some.inj hlast
        exact hanswer iteration d r h
      · exact ih (iteration + 1) rounds _ (hanswer iteration d r h) last hlast

section

variable [JsonFloat F]

/-- The exchange that a reply of the bare arm adds. -/
def BareExchange (reply : BareReply) (messages : List (ChatMessage F)) : Prop :=
  ∃ instruction, messages = [.assistant reply.content, .user instruction]

omit [JsonFloat F] in
private theorem bareAnswer_spec (py : Builtins F) (iteration : Nat) (d : Dialogue F) (reply : BareReply)
    (h : (BareArm.answer py iteration d reply).2 = false) :
    ∃ e, BareExchange reply e ∧ (BareArm.answer py iteration d reply).1.messages = d.messages ++ e := by
  unfold BareArm.answer at h ⊢
  cases hclaim : parseClaim true reply.content with
  | some verdict =>
    rw [hclaim] at h
    cases h
  | none =>
    rw [hclaim] at h
    dsimp only at h ⊢
    cases hcode : py.extractCode reply.content with
    | none => exact ⟨_, ⟨_, rfl⟩, rfl⟩
    | some code =>
      rw [hcode] at h
      dsimp only at h ⊢
      cases htimeout : reply.timedOut with
      | true =>
        rw [htimeout] at h
        cases h
      | false => exact ⟨_, ⟨_, rfl⟩, rfl⟩

/-- Both arms send at most one request for each iteration.  Request `i` is the arm's own prompt, the task prompt that
both have, and the first `i` exchanges; an exchange that asks for tools holds the result of each call under its id, and
no claim.  The messages do not change the result, whose tool turns are the calls that were sent to the tools. -/
theorem requests_are_dialogue (py : Builtins F) (taskPrompt : Text) (maxIterations : Nat)
    (mcp : List (Round (Answer F))) (bare : List (Round BareReply)) :
    ((McpArm.converse py taskPrompt maxIterations mcp).1.length ≤ maxIterations ∧
      (∃ exchanges, Requests Exchange [.system McpArm.systemPrompt, .user taskPrompt] (replies mcp)
        (McpArm.converse py taskPrompt maxIterations mcp).1 exchanges) ∧
      (McpArm.converse py taskPrompt maxIterations mcp).2.map Dialogue.result =
        McpArm.run py maxIterations (mcp.map (Round.map Answer.reply)) ∧
      ∀ d, (McpArm.converse py taskPrompt maxIterations mcp).2 = some d → d.Recorded) ∧
    (BareArm.converse py taskPrompt maxIterations bare).1.length ≤ maxIterations ∧
      (∃ exchanges, Requests (BareExchange (F := F)) [.system BareArm.systemPrompt, .user taskPrompt] (replies bare)
        (BareArm.converse py taskPrompt maxIterations bare).1 exchanges) ∧
      (BareArm.converse py taskPrompt maxIterations bare).2.map Dialogue.result =
        BareArm.run py maxIterations bare := by
  constructor
  · have hanswer : ∀ iteration d a, (McpArm.answer py iteration d a).2 = false →
        ∃ e, Exchange a e ∧ (McpArm.answer py iteration d a).1.messages = d.messages ++ e :=
      fun _ d a => (answer_spec d a).1
    obtain ⟨hlen, hrequests⟩ :=
      converse_requests hanswer maxIterations 1 mcp (openDialogue McpArm.systemPrompt taskPrompt)
    refine ⟨hlen, hrequests, ?_, ?_⟩
    · exact converse_result mcp_step_eq maxIterations 1 mcp _
    · exact converse_recorded (I := Dialogue.Recorded) (fun iteration d a => (answer_spec d a).2) (fun _ h => h)
        maxIterations 1 mcp _ rfl
  · obtain ⟨hlen, hrequests⟩ :=
      converse_requests (bareAnswer_spec py) maxIterations 1 bare (openDialogue BareArm.systemPrompt taskPrompt)
    refine ⟨hlen, hrequests, ?_⟩
    have hid : ∀ rounds : List (Round BareReply), rounds.map (Round.map id) = rounds := by
      intro rounds
      induction rounds with
      | nil => rfl
      | cons round rounds ih =>
        rw [List.map_cons, ih]
        cases round <;> rfl
    have hresult : (BareArm.converse py taskPrompt maxIterations bare).2.map Dialogue.result =
        loop (BareArm.step py) maxIterations 1 (bare.map (Round.map id)) emptyResult :=
      converse_result bare_step_eq maxIterations 1 bare (openDialogue BareArm.systemPrompt taskPrompt)
    rw [hresult, hid, BareArm.run]

end

end IronHarness.Ops
