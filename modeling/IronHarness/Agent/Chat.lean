import IronHarness.Lib.Lines
import IronHarness.Lib.Bytes
import IronHarness.Python.Json

/-!
# A reply of the model

`chat_completion`, `chat` and `extract_code` (ironbench/agent.py): what the body of a reply is taken apart to, and the
code block of its text.  What becomes of a body is told by where its fields are (`kindOf`, `chat_spec`).
-/

namespace IronHarness.Agent

open ByteText (find)
open PyLiteral (CodePoint PyStr ofChar char?)
open Python
open TextLines (isSpace)

/-! ### The completion -/

/-- `value[key]` -/
def getItem (value : Json) (key : String) : Except Exc Json :=
  match value with
  | .obj fields => (lookup key fields).elim (.error .lookup) .ok
  | _ => .error .type

/-- `value[0]` -/
def firstItem : Json → Except Exc Json
  | .arr (item :: _) => .ok item
  | .str (c :: _) => .ok (.str [c])
  | .arr [] | .str [] | .obj _ => .error .lookup
  | _ => .error .type

/-- `value.get(key)` -/
def callGet (value : Json) (key : String) : Except Exc Json :=
  match value with
  | .obj fields => .ok ((lookup key fields).getD .null)
  | _ => .error .attribute

structure ChatReply where
  content : Json
  promptTokens : Int
  completionTokens : Int
  message : Json

/-- `payload["choices"][0]["message"]` -/
def firstMessage (payload : Json) : Except Exc Json := do
  getItem (← firstItem (← getItem payload "choices")) "message"

/-- `int(usage.get(key) or 0)` -/
def tokens (lib : Libraries) (usage : Json) (key : String) : Except Exc Int := do
  intOf lib ((← callGet usage key).or (.int 0))

/-- `chat_completion`, from the body of the response on -/
def chatCompletion (lib : Libraries) (payload : Json) : Except Exc ChatReply := do
  scan lib.nesting payload
  let message ← firstMessage payload
  let content := (← callGet message "content").or (.str [])
  let reasoning := (← callGet message "reasoning").or ((← callGet message "reasoning_content").or (.str []))
  let usage := (← callGet payload "usage").or (.obj [])
  let promptTokens ← tokens lib usage "prompt_tokens"
  let completionTokens ← tokens lib usage "completion_tokens"
  return ⟨if content.truthy then content else reasoning, promptTokens, completionTokens, message⟩

/-- What a request for a completion meets. -/
inductive Reply
  /-- a response with a status from 200 to 299 -/
  | body (payload : Json)
  /-- a response with another status, which `urllib` makes an `HTTPError` -/
  | status (code : Nat)
  /-- no response -/
  | broken

def chat (lib : Libraries) : Reply → Except Exc Json
  | .body payload => (chatCompletion lib payload).map ChatReply.content
  | .status code => .error (.http code)
  | .broken => .error .os

/-! ### The code block -/

def isSpacePoint (c : CodePoint) : Bool := (char? c).any isSpace

/-- A letter of a pattern, case left out: the letter i is also matched by the dotted capital and the dotless one. -/
def sameLetter (letter : Char) (c : CodePoint) : Bool :=
  c = ofChar letter || c = ofChar letter.toUpper || (letter = 'i' && (c.val = 0x130 || c.val = 0x131))

/-- The text behind a word, case left out. -/
def afterTag (word : List Char) (text : PyStr) : Option PyStr :=
  if word.length ≤ text.length ∧ (word.zip text).all fun (letter, c) => sameLetter letter c then
    some (text.drop word.length)
  else none

def fence : PyStr := points "```"

/-- The match of `CODE_FENCE` at the front of a text: the group, and the length of the match. -/
def fenceAt (text : PyStr) : Option (PyStr × Nat) :=
  if fence.isPrefixOf text then
    let rest := text.drop fence.length
    let rest := (afterTag "python".toList rest).getD ((afterTag "micropython".toList rest).getD rest)
    let space := rest.takeWhile isSpacePoint
    let body := space.reverse.takeWhile (· != ofChar '\n')
    if space.contains (ofChar '\n') then
      let inside := body.reverse ++ rest.drop space.length
      (find fence inside).map fun length => (inside.take length, text.length - inside.length + length + fence.length)
    else none
  else none

/-- `CODE_FENCE.findall`; the number counts the characters that are left of a match. -/
def fences : Nat → PyStr → List PyStr
  | _, [] => []
  | skip + 1, _ :: cs => fences skip cs
  | 0, c :: cs =>
    match fenceAt (c :: cs) with
    | some (group, length) => group :: fences (length - 1) cs
    | none => fences 0 cs

def stripPoints (text : PyStr) : PyStr := (text.dropWhile isSpacePoint).rdropWhile isSpacePoint

/-- The last code block of a text. -/
def lastBlock (text : PyStr) : Option PyStr :=
  (fences 0 text).getLast?.bind fun block =>
    let code := stripPoints block
    if code.isEmpty then none else some (code ++ [ofChar '\n'])

/-- `extract_code`: `findall` takes strings only. -/
def extractCode : Json → Except Exc (Option PyStr)
  | .str text => .ok (lastBlock text)
  | _ => .error .type

/-- `write_text(code, encoding="utf-8")` -/
def writeText (code : PyStr) : Except Exc PyStr :=
  if code.all fun c => (char? c).isSome then .ok code else .error .unicode

/-! ### What becomes of a reply -/

inductive Kind
  /-- an exception that nothing catches -/
  | fatal
  /-- an exception that is retried -/
  | refused
  /-- an exception that aborts the campaign -/
  | aborts
  /-- a text without code -/
  | prose
  /-- code that is run -/
  | code
  deriving DecidableEq

def field (key : String) : Json → Option Json
  | .obj fields => lookup key fields
  | _ => none

def item : Json → Option Json
  | .arr (value :: _) => some value
  | _ => none

/-- `choices[0].message` of a body, where it is there. -/
def messageOf (payload : Json) : Option Json := ((field "choices" payload).bind item).bind (field "message")

/-- The first of these members that is not empty. -/
def firstFilled (keys : List String) (message : Json) : Option Json :=
  (keys.filterMap fun key => field key message).find? Json.truthy

/-- A text is searched for code; what else is not empty is no text. -/
def textKind : Option Json → Kind
  | none => .prose
  | some (.str text) =>
    match lastBlock text with
    | none => .prose
    | some code => if code.all fun c => (char? c).isSome then .code else .fatal
  | some _ => .fatal

/-- A number of tokens: missing and empty ones count as 0. -/
def countKind (lib : Libraries) (key : String) (usage : Json) (fine : Kind) : Kind :=
  match firstFilled [key] usage with
  | none => fine
  | some value =>
    match intOf lib value with
    | .ok _ => fine
    | .error .overflow => .fatal
    | .error _ => .refused

/-- The counts of `usage`, which is no mapping or empty or is read. -/
def usageKind (lib : Libraries) (payload : Json) (fine : Kind) : Kind :=
  match firstFilled ["usage"] payload with
  | none => fine
  | some (.obj usage) => countKind lib "prompt_tokens" (.obj usage) (countKind lib "completion_tokens" (.obj usage) fine)
  | some _ => .fatal

def messageKind (lib : Libraries) (payload : Json) : Kind :=
  match messageOf payload with
  | none => .refused
  | some (.obj message) =>
    usageKind lib payload (textKind (firstFilled ["content", "reasoning", "reasoning_content"] (.obj message)))
  | some _ => .fatal

/-- The status codes that abort the campaign. -/
def abortCodes : List Nat := [400, 401, 403, 404]

def kindOf (lib : Libraries) : Reply → Kind
  | .body payload =>
    match scan lib.nesting payload with
    | .error .recursion => .fatal
    | .error _ => .refused
    | .ok () => messageKind lib payload
  | .status code => if code ∈ abortCodes then .aborts else .refused
  | .broken => .refused

/-- The exceptions that `solve_attempt` retries. -/
def transient : Exc → Bool
  | .value | .lookup | .type | .os => true
  | .http code => code ∉ abortCodes
  | _ => false

/-- What the attempt makes of the outcome of a call. -/
def Ends (response : Except Exc Json) : Kind → Prop
  | .fatal => (∃ e, response = .error e ∧ transient e = false ∧ ∀ code, e ≠ .http code) ∨
      ∃ text e, response = .ok text ∧
        (extractCode text = .error e ∨ ∃ code, extractCode text = .ok (some code) ∧ writeText code = .error e)
  | .refused => ∃ e, response = .error e ∧ transient e = true
  | .aborts => ∃ code ∈ abortCodes, response = .error (.http code)
  | .prose => ∃ text, response = .ok text ∧ extractCode text = .ok none
  | .code => ∃ text code, response = .ok text ∧ extractCode text = .ok (some code) ∧ writeText code = .ok code

section

variable {lib : Libraries} {payload message usage value : Json} {key : String} {keys : List String} {fine : Kind}

private theorem ends_refused {e : Exc} (h : transient e = true) : Ends (.error e) .refused := ⟨e, rfl, h⟩

private theorem ends_attribute : Ends (.error .attribute) .fatal := .inl ⟨.attribute, rfl, rfl, by simp⟩

private theorem getItem_eq (value : Json) (key : String) :
    ∃ e : Exc, transient e = true ∧ getItem value key = (field key value).elim (.error e) .ok := by
  cases value with
  | obj fields => exact ⟨.lookup, rfl, rfl⟩
  | _ => exact ⟨.type, rfl, rfl⟩

/-- The message is read, or an exception is raised that is retried. -/
private theorem firstMessage_eq (payload : Json) :
    ∃ e : Exc, transient e = true ∧ firstMessage payload = (messageOf payload).elim (.error e) .ok := by
  obtain ⟨e, he, hchoices⟩ := getItem_eq payload "choices"
  rw [messageOf, firstMessage, hchoices]
  cases field "choices" payload with
  | none => exact ⟨e, he, rfl⟩
  | some choices =>
    cases choices with
    | arr items =>
      cases items with
      | nil => exact ⟨.lookup, rfl, rfl⟩
      | cons first items => exact getItem_eq first "message"
    | str s =>
      cases s with
      | nil => exact ⟨.lookup, rfl, rfl⟩
      | cons c s => exact ⟨.type, rfl, rfl⟩
    | obj fields => exact ⟨.lookup, rfl, rfl⟩
    | _ => exact ⟨.type, rfl, rfl⟩

private theorem callGet_obj (fields : List (PyStr × Json)) (key : String) :
    callGet (.obj fields) key = .ok ((field key (.obj fields)).getD .null) := rfl

private theorem or_firstFilled (key : String) (keys : List String) (message default : Json) :
    ((field key message).getD .null).or ((firstFilled keys message).getD default) =
      (firstFilled (key :: keys) message).getD default := by
  unfold firstFilled Json.or
  cases hfield : field key message with
  | none => simp [hfield, Json.truthy]
  | some value =>
    cases htruthy : value.truthy with
    | true => simp [hfield, htruthy]
    | false => simp [hfield, htruthy]

/-- `message.get(key) or default` -/
private theorem or_default (key : String) (message default : Json) :
    ((field key message).getD .null).or default = (firstFilled [key] message).getD default :=
  or_firstFilled key [] message default

private theorem ends_block {text : PyStr} {code : PyStr} (hblock : lastBlock text = some code) :
    Ends (.ok (.str text)) (if code.all fun c => (char? c).isSome then .code else .fatal) := by
  have hextract : extractCode (.str text) = .ok (some code) := congrArg Except.ok hblock
  split
  · rename_i hpoints
    exact ⟨.str text, code, rfl, hextract, if_pos hpoints⟩
  · rename_i hpoints
    exact .inr ⟨.str text, .unicode, rfl, .inr ⟨code, hextract, if_neg hpoints⟩⟩

private theorem ends_text (keys : List String) (message : Json) :
    Ends (.ok ((firstFilled keys message).getD (.str []))) (textKind (firstFilled keys message)) := by
  cases firstFilled keys message with
  | none => exact ⟨.str [], rfl, rfl⟩
  | some value =>
    cases value with
    | str text =>
      rw [textKind]
      cases hblock : lastBlock text with
      | none => exact ⟨.str text, rfl, congrArg Except.ok hblock⟩
      | some code => exact ends_block hblock
    | _ => exact .inr ⟨_, .type, rfl, .inl rfl⟩

/-- A count is read, or it decides what becomes of the reply. -/
private theorem ends_count {rest : Int → Except Exc Json} (fields : List (PyStr × Json)) (h : ∀ n, Ends (rest n) fine) :
    Ends (tokens lib (.obj fields) key >>= rest) (countKind lib key (.obj fields) fine) := by
  have hread : tokens lib (.obj fields) key = intOf lib ((firstFilled [key] (.obj fields)).getD (.int 0)) := by
    rw [← or_default]
    rfl
  rw [hread, countKind]
  cases firstFilled [key] (.obj fields) with
  | none => exact h 0
  | some value =>
    rw [Option.getD_some]
    cases hint : intOf lib value with
    | ok n =>
      simp only [hint]
      exact h n
    | error e =>
      rcases intOf_error hint with rfl | rfl | rfl
      · simp only [hint]
        exact .inl ⟨.overflow, rfl, rfl, by simp⟩
      · simp only [hint]
        exact ends_refused rfl
      · simp only [hint]
        exact ends_refused rfl

/-- The two counts of a mapping, before the text of the message. -/
private theorem ends_counts (fields : List (PyStr × Json)) {text : Json} (h : Ends (.ok text) fine) :
    Ends (do
      let _ ← tokens lib (.obj fields) "prompt_tokens"
      let _ ← tokens lib (.obj fields) "completion_tokens"
      return text)
    (countKind lib "prompt_tokens" (.obj fields) (countKind lib "completion_tokens" (.obj fields) fine)) :=
  ends_count fields fun _ => ends_count fields fun _ => h

private theorem ends_usage (lib : Libraries) (payload : Json) {text : Json} (h : Ends (.ok text) fine) :
    Ends (do
      let usage := (firstFilled ["usage"] payload).getD (.obj [])
      let _ ← tokens lib usage "prompt_tokens"
      let _ ← tokens lib usage "completion_tokens"
      return text) (usageKind lib payload fine) := by
  unfold usageKind
  cases firstFilled ["usage"] payload with
  | none => exact ends_counts [] h
  | some usage =>
    cases usage with
    | obj fields => exact ends_counts fields h
    | _ => exact ends_attribute

/-- The content of a message, or else its reasoning. -/
private theorem content_eq (message : Json) :
    (let content := ((field "content" message).getD .null).or (.str [])
      let reasoning := ((field "reasoning" message).getD .null).or
        (((field "reasoning_content" message).getD .null).or (.str []))
      if content.truthy then content else reasoning) =
      (firstFilled ["content", "reasoning", "reasoning_content"] message).getD (.str []) := by
  rw [or_default "reasoning_content", or_firstFilled "reasoning", ← or_firstFilled "content"]
  have hempty : Json.truthy (.str []) = false := rfl
  unfold Json.or
  cases htruthy : ((field "content" message).getD .null).truthy <;> simp [htruthy, hempty]

end

private theorem ends_message (lib : Libraries) (payload : Json) (h : scan lib.nesting payload = .ok ()) :
    Ends ((chatCompletion lib payload).map ChatReply.content) (messageKind lib payload) := by
  obtain ⟨e, he, hread⟩ := firstMessage_eq payload
  unfold messageKind chatCompletion
  rw [h, hread]
  cases hmessage : messageOf payload with
  | none => exact ends_refused he
  | some message =>
    obtain ⟨members, rfl⟩ : ∃ members, payload = .obj members := by
      cases payload with
      | obj members => exact ⟨members, rfl⟩
      | _ => cases hmessage
    cases message with
    | obj fields =>
      have htext := ends_text ["content", "reasoning", "reasoning_content"] (.obj fields)
      rw [← content_eq] at htext
      have hends := ends_usage lib (.obj members) htext
      rw [← or_default] at hends
      convert hends using 1
      simp only [callGet_obj, bind, Except.bind, Option.elim, pure, Except.pure, Except.map]
      cases tokens lib (((field "usage" (.obj members)).getD .null).or (.obj [])) "prompt_tokens" with
      | error e => rfl
      | ok promptTokens =>
        cases tokens lib (((field "usage" (.obj members)).getD .null).or (.obj [])) "completion_tokens" with
        | error e => rfl
        | ok completionTokens => rfl
    | _ => exact ends_attribute

theorem chat_spec (lib : Libraries) (reply : Reply) : Ends (chat lib reply) (kindOf lib reply) := by
  cases reply with
  | broken => exact ends_refused rfl
  | status code =>
    show Ends _ (if code ∈ abortCodes then .aborts else .refused)
    split
    · rename_i hmem
      exact ⟨code, hmem, rfl⟩
    · rename_i hmem
      exact ends_refused (decide_eq_true hmem)
  | body payload =>
    cases hscan : scan lib.nesting payload with
    | ok u =>
      simp only [kindOf, hscan]
      exact ends_message lib payload hscan
    | error e =>
      have hchat : chat lib (.body payload) = .error e := by
        rw [chat, chatCompletion, hscan]
        rfl
      rw [hchat]
      rcases scan_error _ _ hscan with rfl | rfl
      · simp only [kindOf, hscan]
        exact .inl ⟨.recursion, rfl, rfl, by simp⟩
      · simp only [kindOf, hscan]
        exact ends_refused rfl

end IronHarness.Agent
