import IronHarness.Lib.Lines
import IronHarness.Ops.Wire
import IronHarness.Python.Loads

/-!
# The wire client over a session

`McpWireClient` (ironbench/mcp_wire.py) with its queue and its ids, over any sequence of calls.  What a request does not
consume stays in the queue for the next one.  A request answers or reports a broken wire unless the first message that
does not pass by is a JSON value that is no object and not marked, or an answer to an id that `initialize` allocates a
second time (`request_proper_iff`).
-/

namespace IronHarness.Ops.McpWireClient

open ByteText TextLines
open Python (Json lookup points loads)

/-! ### One request -/

/-- How a request ends. -/
inductive Outcome
  | response (fields : Members)
  | timeout
  | exited
  | closed
  | garbage
  /-- writing it raises -/
  | broken
  | typeError
  | attributeError

/-- What the runner sees of it. -/
def Outcome.result : Outcome → Except Fault Members
  | .response fields => .ok fields
  | .timeout => .error .os
  | .exited | .closed | .garbage => .error .wire
  | .broken => .error .connection
  | .typeError | .attributeError => .error .other

/-- `"__stdout_garbage__" in msg`; `none` where a value has no `in`. -/
def marked : Json → Option Bool
  | .obj fields => some (lookup garbageKey fields).isSome
  | .arr vs => some (vs.any isGarbageKey)
  | .str s => some (find (points garbageKey) s).isSome
  | _ => none

/-- What `request` makes of a message; `none` where it passes by. -/
def judge (answers : Json → Bool) : Message → Option (Outcome)
  | .closed => some .closed
  | .garbage => some .garbage
  | .value .null => some .closed
  | .value v =>
    match marked v, v with
    | none, _ => some .typeError
    | some true, _ => some .garbage
    | some false, .obj fields => if answers ((lookup "id" fields).getD .null) then some (.response fields) else none
    | some false, _ => some .attributeError

/-- The loop of `request`, with time for `patience` messages: how it ends, and the queue it leaves. -/
def await (answers : Json → Bool) : Nat → List (Message) → Outcome × List (Message)
  | 0, queue => (.timeout, queue)
  | _ + 1, [] => (.timeout, [])
  | patience + 1, message :: queue =>
    match judge answers message with
    | some outcome => (outcome, queue)
    | none => await answers patience queue

/-- The messages that `request` lets pass by: objects without the marker that answer something else. -/
def passes (answers : Json → Bool) : Message → Bool
  | .value (.obj fields) => (lookup garbageKey fields).isNone && !answers ((lookup "id" fields).getD .null)
  | _ => false

/-- Neither null nor an object. -/
def isOther : Json → Bool
  | .null | .obj _ => false
  | _ => true

section

variable {answers : Json → Bool}

private theorem judge_eq_none {message : Message} : judge answers message = none ↔ passes answers message = true := by
  cases message with
  | closed | garbage => simp [judge, passes]
  | value v =>
    cases v with
    | null | bool | int | float => simp [judge, passes, marked]
    | str s => cases h : (find (points garbageKey) s).isSome <;> simp [judge, passes, marked, h]
    | arr vs =>
      simp only [judge, passes, marked]
      split <;> simp_all
    | obj fields =>
      cases h : lookup garbageKey fields <;> cases h' : answers ((lookup "id" fields).getD .null) <;>
        simp [judge, passes, marked, h, h']

private theorem judge_marked {v : Json} (hv : isOther v = true) (hmark : marked v = some true) :
    judge answers (.value v) = some .garbage := by
  cases v with
  | null | obj => cases hv
  | bool | int | float => cases hmark
  | str s | arr vs => simp only [judge, hmark]

private theorem judge_unmarked {v : Json} (hv : isOther v = true) (hmark : marked v ≠ some true) :
    ∃ o, judge answers (.value v) = some o ∧ o.result = .error .other := by
  cases v with
  | null | obj => cases hv
  | bool | int | float => exact ⟨.typeError, rfl, rfl⟩
  | str s =>
    have hfalse : marked (.str s : Json) = some false := by simpa [marked] using hmark
    exact ⟨.attributeError, by simp only [judge, hfalse], rfl⟩
  | arr vs =>
    obtain ⟨inside, hinside⟩ : ∃ inside, marked (.arr vs) = some inside := ⟨_, rfl⟩
    cases inside with
    | true => exact absurd hinside hmark
    | false => exact ⟨.attributeError, by simp only [judge, hinside], rfl⟩

/-- A request ends with the first message that does not pass by. -/
private theorem await_fst (patience : Nat) (queue : List (Message)) :
    (await answers patience queue).1 =
      (((queue.take patience).find? fun message => !passes answers message).bind (judge answers)).getD .timeout := by
  induction queue generalizing patience with
  | nil => cases patience <;> rfl
  | cons message queue ih =>
    cases patience with
    | zero => rfl
    | succ patience =>
      rw [await, List.take_succ_cons, List.find?_cons]
      cases hjudge : judge answers message with
      | none =>
        rw [judge_eq_none.1 hjudge]
        exact ih patience
      | some outcome =>
        have hpasses : passes answers message = false := by
          rw [← Bool.not_eq_true, ← judge_eq_none, hjudge]
          exact nofun
        simp only [hpasses, Bool.not_false, Option.bind_some, hjudge, Option.getD_some]

/-- The request of the arms is the one of the session. -/
private theorem await_result (patience : Nat) (queue : List (Message)) :
    (await answers patience queue).1.result = receive answers (queue.take patience) := by
  induction queue generalizing patience with
  | nil => cases patience <;> rfl
  | cons message queue ih =>
    cases patience with
    | zero => rfl
    | succ patience =>
      rw [await, List.take_succ_cons]
      cases message with
      | closed | garbage => rfl
      | value v =>
        cases v with
        | null | bool | int | float => rfl
        | str s => cases h : (find (points garbageKey) s).isSome <;> simp [judge, receive, marked, h, Outcome.result]
        | arr vs =>
          obtain ⟨inside, hinside⟩ : ∃ inside, marked (.arr vs) = some inside := ⟨_, rfl⟩
          simp only [judge, hinside]
          cases inside with
          | true => exact (if_pos (Option.some.inj hinside)).symm
          | false => exact (if_neg (ne_true_of_eq_false (Option.some.inj hinside))).symm
        | obj fields =>
          cases h : lookup garbageKey fields with
          | some v => simp [judge, receive, marked, h, Outcome.result]
          | none =>
            cases h' : answers ((lookup "id" fields).getD .null) with
            | true => simp [judge, receive, marked, h, h', Outcome.result]
            | false => simp [judge, receive, marked, h, h', ih]

private theorem await_snd_suffix (patience : Nat) (queue : List (Message)) :
    (await answers patience queue).2 <:+ queue := by
  induction queue generalizing patience with
  | nil => cases patience <;> exact List.suffix_refl _
  | cons message queue ih =>
    cases patience with
    | zero => exact List.suffix_refl _
    | succ patience =>
      rw [await]
      split
      · exact List.suffix_cons _ _
      · exact (ih patience).trans (List.suffix_cons _ _)

end

/-! ### The session -/

/-- `msg.get("id") == id` -/
def answersTo (id : Int) (v : Json) : Bool := v.isInt id

structure Client where
  nextId : Int
  queue : List (Message)
  /-- the reader thread is there -/
  reading : Bool

def start : Client := ⟨1, [], true⟩

/-- What `_read` makes of a line: nothing of a blank one, and garbage of one that is no JSON.  What else `json.loads` raises
ends the thread. -/
def readLine (lib : Python.Libraries) (line : Line) : Option (List Message) :=
  if strip line = [] then some []
  else
    match loads lib (strip line) with
    | .ok v => some [.value v]
    | .error .decode => some [.garbage]
    | .error _ => none

/-- `_read`, over the lines of standard output and the end of it. -/
def Client.hear (lib : Python.Libraries) (ended : Bool) : List Line → Client → Client
  | [], c => if c.reading && ended then { c with queue := c.queue ++ [.closed], reading := false } else c
  | line :: rest, c =>
    if c.reading then
      match readLine lib line with
      | some messages => Client.hear lib ended rest { c with queue := c.queue ++ messages }
      | none => { c with reading := false }
    else c

inductive Kind
  | init
  | listTools
  | callTool
  deriving DecidableEq

/-- A call, and what it meets. -/
structure Call where
  kind : Kind
  /-- `self.proc.poll() is not None` -/
  exited : Bool
  /-- writing the request raises -/
  broken : Bool
  /-- what the server prints from the call before on until this one returns, and whether that is the end of it -/
  lines : List Line
  ended : Bool
  /-- the messages there is time for -/
  patience : Nat

/-- The id of the request: `initialize` takes `_next_id` and counts on, the others count on first. -/
def Client.requestId (c : Client) : Kind → Int
  | .init => c.nextId
  | .listTools | .callTool => c.nextId + 1

/-- The queue as the request finds it. -/
def Client.heard (lib : Python.Libraries) (c : Client) (call : Call) : Client := c.hear lib call.ended call.lines

def Client.call (lib : Python.Libraries) (c : Client) (call : Call) : Outcome × Client :=
  let next := { c.heard lib call with nextId := c.nextId + 1 }
  if call.exited then (.exited, next)
  else if call.broken then (.broken, next)
  else
    let (outcome, queue) := await (answersTo (c.requestId call.kind)) call.patience next.queue
    (outcome, { next with queue := queue })

/-- The client after the calls. -/
def after (lib : Python.Libraries) (past : List Call) : Client := past.foldl (fun c call => (c.call lib call).2) start

/-! ### What a request is to do -/

section

variable (lib : Python.Libraries) (past : List Call) (call : Call)

def requestId : Int := (after lib past).requestId call.kind

/-- The messages in the order in which the request takes them, as far as there is time. -/
def messages : List (Message) := ((after lib past).heard lib call).queue.take call.patience

def outcome : Outcome := ((after lib past).call lib call).1

/-- The server's output has ended by the end of the call. -/
def Ended : Prop := ∃ c ∈ past ++ [call], c.ended = true

/-- The request answers or reports a broken wire. -/
structure Proper : Prop where
  /-- it returns, or raises an `McpWireError` or a `TimeoutError` -/
  raises : (outcome lib past call).result ≠ .error .connection ∧ (outcome lib past call).result ≠ .error .other
  /-- what it returns is the first object with its id -/
  first : ∀ fields, outcome lib past call = .response fields → ∃ before after,
    messages lib past call = before ++ .value (.obj fields) :: after ∧
    answersTo (requestId lib past call) ((lookup "id" fields).getD .null) = true ∧
    ∀ fields', .value (.obj fields') ∈ before →
      answersTo (requestId lib past call) ((lookup "id" fields').getD .null) = false
  /-- the end of the output is reported where it has ended -/
  closed : outcome lib past call = .closed → Ended past call
  /-- what it returns is no response to an earlier request -/
  own : ∀ fields, outcome lib past call = .response fields → ∀ front earlier back, past = front ++ earlier :: back →
    answersTo (requestId lib front earlier) ((lookup "id" fields).getD .null) = false

/-- `initialize` right behind another call, whose id it allocates again. -/
def Reuses : Prop := call.kind = .init ∧ ∃ front earlier, past = front ++ [earlier] ∧ earlier.kind ≠ .init

/-- A message that the request, where it is the first that does not pass by, takes in a wrong way. -/
def Misread : Message → Prop
  | .closed | .garbage => False
  | .value .null => ¬ Ended past call
  | .value (.obj fields) => lookup garbageKey fields = none ∧ Reuses past call
  | .value v => marked v ≠ some true

end

variable {lib : Python.Libraries} {past : List Call} {call : Call}

/-- What a call ends with is `request` of the messages that it hears. -/
theorem outcome_result :
    (outcome lib past call).result = request (answersTo (requestId lib past call))
      ⟨call.exited, if call.broken then some .connection else none, messages lib past call⟩ := by
  unfold outcome Client.call request
  dsimp only
  split
  · rfl
  · split
    · rfl
    · exact await_result call.patience _

/-! ### The ids and the end -/

theorem after_append (front : List Call) (call : Call) :
    after lib (front ++ [call]) = ((after lib front).call lib call).2 := by
  rw [after, List.foldl_append]
  rfl

private theorem Client.call_nextId (c : Client) (call : Call) : (c.call lib call).2.nextId = c.nextId + 1 := by
  unfold Client.call
  dsimp only
  split
  · rfl
  · split <;> rfl

private theorem after_nextId (past : List Call) : (after lib past).nextId = past.length + 1 := by
  induction past using List.reverseRecOn with
  | nil => rfl
  | append_singleton front call ih =>
    rw [after_append, Client.call_nextId, ih, List.length_append, List.length_singleton]
    push_cast
    rfl

/-- The ids are the numbers of the calls; that of `initialize` is one behind. -/
private theorem requestId_eq : requestId lib past call = past.length + if call.kind = .init then 1 else 2 := by
  unfold requestId Client.requestId
  rw [after_nextId]
  cases call.kind with
  | init => rfl
  | listTools | callTool =>
    simp only [reduceCtorEq, if_false]
    omega

private theorem requestId_reused (lib : Python.Libraries) (call : Call) {front back : List Call} {earlier : Call}
    (hpast : past = front ++ earlier :: back) :
    requestId lib front earlier = requestId lib past call ↔
      back = [] ∧ call.kind = .init ∧ earlier.kind ≠ .init := by
  have hlen : past.length = front.length + (back.length + 1) := by rw [hpast]; simp
  rw [requestId_eq, requestId_eq, hlen, ← List.length_eq_zero_iff]
  push_cast
  by_cases hkind : call.kind = .init
  · by_cases hearlier : earlier.kind = .init
    · rw [if_pos hearlier, if_pos hkind]
      constructor
      · intro heq
        omega
      · intro h
        exact absurd hearlier h.2.2
    · rw [if_neg hearlier, if_pos hkind]
      constructor
      · intro heq
        exact ⟨by omega, hkind, hearlier⟩
      · rintro ⟨hback, -, -⟩
        omega
  · rw [if_neg hkind]
    constructor
    · intro heq
      split at heq <;> omega
    · intro h
      exact absurd h.2.1 hkind

/-- A line is no end of the output. -/
private theorem closed_notMem_readLine {line : Line} {messages : List Message} (h : readLine lib line = some messages) :
    .closed ∉ messages := by
  unfold readLine at h
  split at h
  · cases h
    exact List.not_mem_nil
  · split at h <;> cases h <;> simp

private theorem Client.hear_closed {ended : Bool} {lines : List Line} {c : Client}
    (h : .closed ∈ (c.hear lib ended lines).queue) : .closed ∈ c.queue ∨ ended = true := by
  induction lines generalizing c with
  | nil =>
    rw [Client.hear] at h
    split at h
    · rename_i hend
      simp only [Bool.and_eq_true] at hend
      exact .inr hend.2
    · exact .inl h
  | cons line rest ih =>
    rw [Client.hear] at h
    split at h
    · split at h
      · rename_i messages hread
        rcases ih h with hmem | hend
        · rcases List.mem_append.1 hmem with hqueue | hline
          · exact .inl hqueue
          · exact absurd hline (closed_notMem_readLine hread)
        · exact .inr hend
      · exact .inl h
    · exact .inl h

/-- What a call leaves in the queue was there, or has come with it. -/
private theorem Client.call_queue {c : Client} {message : Message} (h : message ∈ (c.call lib call).2.queue) :
    message ∈ (c.heard lib call).queue := by
  unfold Client.call at h
  dsimp only at h
  split at h
  · exact h
  · split at h
    · exact h
    · exact (await_snd_suffix _ _).subset h

private theorem after_closed (h : .closed ∈ (after lib past).queue) : ∃ c ∈ past, c.ended = true := by
  induction past using List.reverseRecOn with
  | nil => cases h
  | append_singleton front call ih =>
    rw [after_append] at h
    rcases Client.hear_closed (Client.call_queue h) with hmem | hend
    · obtain ⟨c, hc, hended⟩ := ih hmem
      exact ⟨c, List.mem_append_left _ hc, hended⟩
    · exact ⟨call, List.mem_append_right _ (List.mem_singleton_self _), hend⟩

private theorem ended_of_closed (h : .closed ∈ messages lib past call) : Ended past call := by
  rcases Client.hear_closed (List.mem_of_mem_take h) with hmem | hend
  · obtain ⟨c, hc, hended⟩ := after_closed hmem
    exact ⟨c, List.mem_append_left _ hc, hended⟩
  · exact ⟨call, List.mem_append_right _ (List.mem_singleton_self _), hend⟩

/-! ### Every request of a session -/

/-- The first message that does not pass by. -/
def decisive (lib : Python.Libraries) (past : List Call) (call : Call) : Option (Message) :=
  (messages lib past call).find? fun message => !passes (answersTo (requestId lib past call)) message

private theorem outcome_eq (lib : Python.Libraries) (past : List Call) (hexited : call.exited = false)
    (hbroken : call.broken = false) :
    outcome lib past call =
      ((decisive lib past call).bind (judge (answersTo (requestId lib past call)))).getD .timeout := by
  have hcall : outcome lib past call =
      (await (answersTo (requestId lib past call)) call.patience ((after lib past).heard lib call).queue).1 := by
    unfold outcome Client.call
    rw [hexited, hbroken]
    rfl
  rw [hcall, await_fst]
  rfl

/-- A request that raises an `McpWireError` or a `TimeoutError` keeps what is promised. -/
private theorem proper_of_error {o : Outcome} {fault : Fault} (houtcome : outcome lib past call = o)
    (hresult : o.result = .error fault) (hfault : fault = .wire ∨ fault = .os) (hended : o = .closed → Ended past call) :
    Proper lib past call := by
  have hfields : ∀ fields, outcome lib past call ≠ .response fields := by
    intro fields heq
    rw [← houtcome, heq] at hresult
    cases hresult
  refine ⟨?_, fun fields h => absurd h (hfields fields), ?_, fun fields h => absurd h (hfields fields)⟩
  · rw [houtcome, hresult]
    rcases hfault with rfl | rfl <;> exact ⟨nofun, nofun⟩
  · rw [houtcome]
    exact hended

/-- What it returns is a response to an earlier request only where the id is used again. -/
private theorem proper_response {fields : Members} {before after' : List (Message)}
    (hresponse : outcome lib past call = .response fields)
    (hmessages : messages lib past call = before ++ .value (.obj fields) :: after')
    (hbefore : ∀ message ∈ before, passes (answersTo (requestId lib past call)) message = true)
    (hanswers : answersTo (requestId lib past call) ((lookup "id" fields).getD .null) = true) :
    Proper lib past call ↔ ¬ Reuses past call := by
  constructor
  · rintro hproper ⟨hkind, front, earlier, hpast, hearlier⟩
    have hid := (requestId_reused lib call hpast).2 ⟨rfl, hkind, hearlier⟩
    have hown := hproper.own fields hresponse front earlier [] hpast
    rw [hid, hanswers] at hown
    cases hown
  · intro hfresh
    refine ⟨?_, ?_, ?_, ?_⟩
    · rw [hresponse]
      exact ⟨nofun, nofun⟩
    · rintro fields' hfields
      obtain rfl := Outcome.response.inj (hresponse.symm.trans hfields)
      refine ⟨before, after', hmessages, hanswers, fun other hmem => ?_⟩
      have hpasses := hbefore _ hmem
      simp only [passes, Bool.and_eq_true, Bool.not_eq_true'] at hpasses
      exact hpasses.2
    · intro hclosed
      cases hresponse.symm.trans hclosed
    · intro fields' hfields front earlier back hpast
      obtain rfl := Outcome.response.inj (hresponse.symm.trans hfields)
      rw [← Bool.not_eq_true]
      intro hearlier
      obtain ⟨rfl, hkind, hnot⟩ := (requestId_reused lib call hpast).1 (Json.isInt_unique hearlier hanswers)
      exact hfresh ⟨hkind, front, earlier, hpast, hnot⟩

/-- A value that is neither null nor an object is taken for garbage, or raises what the runner does not expect. -/
private theorem proper_scalar {v : Json} (hv : isOther v = true)
    (houtcome : outcome lib past call = (judge (answersTo (requestId lib past call)) (.value v)).getD .timeout) :
    Proper lib past call ↔ marked v = some true := by
  constructor
  · intro hproper
    by_contra hnot
    obtain ⟨o, hjudge, hresult⟩ := judge_unmarked hv hnot
    rw [hjudge, Option.getD_some] at houtcome
    exact hproper.raises.2 (by rw [houtcome, hresult])
  · intro hmark
    rw [judge_marked hv hmark, Option.getD_some] at houtcome
    exact proper_of_error houtcome rfl (.inl rfl) nofun

/-- What holds of a request that is decided by a message. -/
private theorem proper_decided {message : Message} (hexited : call.exited = false) (hbroken : call.broken = false)
    (hmessage : decisive lib past call = some message) : Proper lib past call ↔ ¬ Misread past call message := by
  obtain ⟨hstays, before, after', hmessages, hbefore⟩ := List.find?_eq_some_iff_append.1 hmessage
  have houtcome := outcome_eq lib past hexited hbroken
  rw [hmessage, Option.bind_some] at houtcome
  have hscalar : ∀ v : Json, isOther v = true → message = .value v →
      (Proper lib past call ↔ ¬ marked v ≠ some true) := by
    rintro v hv rfl
    rw [not_not]
    exact proper_scalar hv houtcome
  cases message with
  | closed =>
    have hmem : .closed ∈ messages lib past call := by simp [hmessages]
    exact ⟨fun _ => not_false, fun _ => proper_of_error houtcome rfl (.inl rfl) fun _ => ended_of_closed hmem⟩
  | garbage => exact ⟨fun _ => not_false, fun _ => proper_of_error houtcome rfl (.inl rfl) nofun⟩
  | value v =>
    cases v with
    | null =>
      constructor
      · intro hproper hnot
        exact hnot (hproper.closed houtcome)
      · intro hended
        exact proper_of_error houtcome rfl (.inl rfl) fun _ => not_not.1 hended
    | bool b => exact hscalar _ rfl rfl
    | int n => exact hscalar _ rfl rfl
    | float x => exact hscalar _ rfl rfl
    | str s => exact hscalar _ rfl rfl
    | arr vs => exact hscalar _ rfl rfl
    | obj fields =>
      cases hkey : lookup garbageKey fields with
      | some marker =>
        have hmisread : ¬ Misread past call (.value (.obj fields)) := by
          rintro ⟨hnone, -⟩
          rw [hkey] at hnone
          cases hnone
        have hgarbage : outcome lib past call = .garbage := by
          rw [houtcome]
          simp [judge, marked, hkey]
        exact ⟨fun _ => hmisread, fun _ => proper_of_error hgarbage rfl (.inl rfl) nofun⟩
      | none =>
        have hanswers : answersTo (requestId lib past call) ((lookup "id" fields).getD .null) = true := by
          simpa [passes, hkey] using hstays
        have hresponse : outcome lib past call = .response fields := by
          rw [houtcome]
          simp [judge, marked, hkey, hanswers]
        have hpasses : ∀ other ∈ before, passes (answersTo (requestId lib past call)) other = true := by
          intro other hother
          simpa using hbefore other hother
        have hmisread : Misread past call (.value (.obj fields)) ↔ Reuses past call :=
          ⟨fun h => h.2, fun h => ⟨hkey, h⟩⟩
        rw [hmisread]
        exact proper_response hresponse hmessages hpasses hanswers

/-- A request of a session answers or reports a broken wire if and only if it can be written, and the first message that
does not pass by is not one that is taken in a wrong way. -/
theorem request_proper_iff (lib : Python.Libraries) (past : List Call) (call : Call) :
    Proper lib past call ↔ (call.exited = false → call.broken = false ∧
      ∀ message, decisive lib past call = some message → ¬ Misread past call message) := by
  cases hexited : call.exited with
  | true =>
    have houtcome : outcome lib past call = .exited := by
      unfold outcome Client.call
      rw [hexited]
      rfl
    exact ⟨fun _ => nofun, fun _ => proper_of_error houtcome rfl (.inl rfl) nofun⟩
  | false =>
    cases hbroken : call.broken with
    | true =>
      have houtcome : outcome lib past call = .broken := by
        unfold outcome Client.call
        rw [hexited, hbroken]
        rfl
      constructor
      · intro hproper
        exact absurd (by rw [houtcome]; rfl) hproper.raises.1
      · intro h
        cases (h rfl).1
    | false =>
      cases hmessage : decisive lib past call with
      | none =>
        have houtcome := outcome_eq lib past hexited hbroken
        rw [hmessage] at houtcome
        exact ⟨fun _ _ => ⟨rfl, nofun⟩, fun _ => proper_of_error houtcome rfl (.inr rfl) nofun⟩
      | some message =>
        rw [proper_decided hexited hbroken hmessage]
        constructor
        · intro h _
          refine ⟨rfl, fun other hother => ?_⟩
          obtain rfl := Option.some.inj hother
          exact h
        · intro h
          exact (h rfl).2 message rfl

/-- Floats as they are, and a stack that bears a thousand levels. -/
def exactLibraries : Python.Libraries := ⟨fun _ => none, fun _ => none, .finite, 1000⟩

/-- A number on a line of its own raises a `TypeError`. -/
theorem number_line_raises : ¬ ∀ (lib : Python.Libraries) (past : List Call) (call : Call), Proper lib past call := by
  intro hclaim
  have hproper := hclaim exactLibraries [] ⟨.init, false, false, ["42".toList], false, 1⟩
  exact hproper.raises.2 rfl

end IronHarness.Ops.McpWireClient
