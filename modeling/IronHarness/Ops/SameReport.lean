import IronHarness.Lib.JsonLines
import IronHarness.Ops.Inventory

/-!
# The same report from both arms

A bare run that ends with an inventory line and a claim is judged by that inventory (`bare_report`).  A run of the tools
arm is judged by it exactly if the last text of the run with a match is one that the transcript keeps as it is and
reports the same (`same_report_iff`); the arguments of the claim tool and the text beside native calls never count.
-/

namespace IronHarness.Ops

open JsonText TextLines

variable {F : Type} [JsonFloat F]

/-! ### What a run of the tools arm writes down -/

/-- A text of a transcript: kept as it is, or a dictionary written as JSON. -/
inductive Piece (F : Type)
  | told (text : Text)
  | dumped (fields : Fields F)

def Piece.text : Piece F → Text
  | .told text => text
  | .dumped fields => dumpsAscii (.obj fields)

def toolPieces (name : Text) (arguments : Value F) (result : ToolResult) : List (Piece F) :=
  [.dumped [("tool", .str (String.ofList name)), ("arguments", arguments)], .told (toolObservation name result)]

namespace McpArm

def callPieces (call : Call F) : List (Piece F) :=
  if call.name = "claim".toList then [.dumped (parseToolArguments call.arguments), .told []]
  else toolPieces call.name (.obj (parseToolArguments call.arguments)) call.result

def textPieces (py : Builtins F) (reply : Reply F) : List (Piece F) :=
  match parseClaim true reply.content with
  | some _ => [.told (strip reply.content), .told []]
  | none =>
    match extractLastJson (F := F) (reply.content.length + 1) none reply.content with
    | none => [.told reply.content, .told "Call a tool, or call claim with your verdict.".toList]
    | some payload =>
      match payload.lookup "claim" with
      | some _ => [.dumped payload, .told []]
      | none =>
        match payload.lookup "tool" with
        | some (.str name) =>
          toolPieces name.toList (orEmpty py ((payload.lookup "arguments").getD .null)) reply.result
        | _ => [.told reply.content, .told "Missing tool name.".toList]

/-- What a reply adds to the transcript. -/
def replyPieces (py : Builtins F) (reply : Reply F) : List (Piece F) :=
  if reply.toolCalls = [] then textPieces py reply else reply.toolCalls.flatMap callPieces

end McpArm

/-- The replies that a run hears. -/
def heard {R : Type} (step : Nat → ArmResult → R → ArmResult × Bool) : Nat → Nat → List (Round R) → ArmResult → List R
  | 0, _, _, _ => []
  | _ + 1, _, [], _ => []
  | _ + 1, _, .late :: _, _ => []
  | n + 1, iteration, .reply reply :: rounds, r =>
    reply :: if (step iteration r reply).2 then [] else heard step n (iteration + 1) rounds (step iteration r reply).1

namespace McpArm

def pieces (py : Builtins F) (maxIterations : Nat) (rounds : List (Round (Reply F))) : List (Piece F) :=
  (heard (step py) maxIterations 1 rounds emptyResult).flatMap (replyPieces py)

end McpArm

/-! ### Steps -/

def ArmResult.texts (r : ArmResult) : List Text := r.turns.flatMap Turn.texts

@[simp] theorem texts_addTurn (r : ArmResult) (turn : Turn) : (r.addTurn turn).texts = r.texts ++ turn.texts := by
  simp [ArmResult.texts, ArmResult.addTurn]

@[simp] theorem texts_claim (r : ArmResult) (iteration : Nat) (verdict : Option Verdict) :
    (r.claim iteration verdict).texts = r.texts := by
  cases verdict <;> rfl

@[simp] theorem texts_addTokens (r : ArmResult) (p c : Nat) : (r.addTokens p c).texts = r.texts := rfl

namespace McpArm

private theorem texts_nativeCall (py : Builtins F) (iteration : Nat) (acc : ArmResult × Bool) (call : Call F) :
    (nativeCall py iteration acc call).1.texts = acc.1.texts ++ (callPieces call).map Piece.text := by
  unfold nativeCall callPieces
  by_cases hclaim : call.name = "claim".toList
  · simp only [if_pos hclaim, texts_claim, texts_addTurn]
    rfl
  · simp only [if_neg hclaim, texts_addTurn]
    rfl

private theorem texts_textReply (py : Builtins F) (iteration : Nat) (r : ArmResult) (reply : Reply F) :
    (textReply py iteration r reply).1.texts = r.texts ++ (textPieces py reply).map Piece.text := by
  unfold textReply textPieces
  cases parseClaim true reply.content with
  | some verdict =>
    simp only [texts_claim, texts_addTurn]
    rfl
  | none =>
    cases extractLastJson (F := F) (reply.content.length + 1) none reply.content with
    | none =>
      simp only [texts_addTurn]
      rfl
    | some payload =>
      dsimp only
      cases payload.lookup "claim" with
      | some value =>
        simp only [texts_claim, texts_addTurn]
        rfl
      | none =>
        cases payload.lookup "tool" with
        | none =>
          simp only [texts_addTurn]
          rfl
        | some value =>
          cases value
          all_goals
            simp only [texts_addTurn]
            rfl

private theorem texts_step (py : Builtins F) (iteration : Nat) (r : ArmResult) (reply : Reply F) :
    (step py iteration r reply).1.texts = r.texts ++ (replyPieces py reply).map Piece.text := by
  have hcalls : ∀ (calls : List (Call F)) (acc : ArmResult × Bool),
      (calls.foldl (nativeCall py iteration) acc).1.texts = acc.1.texts ++ (calls.flatMap callPieces).map Piece.text := by
    intro calls
    induction calls with
    | nil => simp
    | cons call calls ih =>
      intro acc
      rw [List.foldl_cons, ih, texts_nativeCall, List.flatMap_cons, List.map_append, List.append_assoc]
  unfold step replyPieces
  dsimp only
  by_cases hcall : reply.toolCalls = []
  · rw [if_pos hcall, if_pos hcall, texts_textReply, texts_addTokens]
  · rw [if_neg hcall, if_neg hcall, hcalls, texts_addTokens]

private theorem texts_loop (py : Builtins F) (n iteration : Nat) (rounds : List (Round (Reply F)))
    (r result : ArmResult)
    (h : loop (step py) n iteration rounds r = some result) :
    result.texts = r.texts ++ ((heard (step py) n iteration rounds r).flatMap (replyPieces py)).map Piece.text := by
  induction n generalizing iteration rounds r with
  | zero =>
    obtain rfl : r = result := Option.some.inj h
    simp [heard]
  | succ n ih =>
    cases rounds with
    | nil => cases h
    | cons round rounds =>
      cases round with
      | late =>
        obtain rfl : { r with timedOut := true } = result := Option.some.inj h
        simp [heard, ArmResult.texts]
      | reply reply =>
        have hstep := texts_step py iteration r reply
        rw [loop] at h
        rw [heard]
        dsimp only at h
        by_cases hstop : (step py iteration r reply).2 = true
        · rw [if_pos hstop] at h ⊢
          rw [← Option.some.inj h, hstep, List.flatMap_singleton]
        · rw [if_neg hstop] at h ⊢
          rw [ih _ _ _ h, hstep, List.flatMap_cons, List.map_append, List.append_assoc]

end McpArm

/-! ### The bare arm -/

/-- A line that reports an inventory. -/
structure ReportLine (line : Text) (fields : Fields F) : Prop where
  braces : ∃ body, line = "INVENTORY: ".toList ++ ('{' :: (body ++ ['}']))
  oneLine : '\n' ∉ line
  reads : loads (line.drop 11) = some (Value.obj fields)

/-- The reply of a bare run that reports an inventory and claims success. -/
def claimText (line : Text) : Text := line ++ '\n' :: "CLAIM: SUCCESS".toList

private theorem parseClaim_append {a b : Text} {verdict : Verdict} (h : parseClaim true b = some verdict)
    (start : Bool) :
    parseClaim start (a ++ '\n' :: b) = some verdict := by
  induction a generalizing start with
  | nil =>
    rw [List.nil_append, parseClaim, show ('\n' == '\n') = true from rfl, h]
  | cons c a ih => rw [List.cons_append, parseClaim, ih]

private theorem parseClaim_claimText (line : Text) : parseClaim true (claimText line) = some .success :=
  parseClaim_append (by decide) true

private theorem strip_claimText {line : Text} {fields : Fields F} (h : ReportLine line fields) :
    strip (claimText line) = claimText line := by
  obtain ⟨body, rfl⟩ := h.braces
  have hfront : (claimText ("INVENTORY: ".toList ++ ('{' :: (body ++ ['}'])))).dropWhile isSpace =
      claimText ("INVENTORY: ".toList ++ ('{' :: (body ++ ['}']))) :=
    List.dropWhile_cons_of_neg (by decide)
  rw [strip, hfront, claimText, show '\n' :: "CLAIM: SUCCESS".toList = "\nCLAIM: SUCCES".toList ++ ['S'] by decide,
    ← List.append_assoc]
  exact List.rdropWhile_concat_neg _ _ _ (by decide)

private theorem inventories_line {body : Text} (h : '\n' ∉ body) :
    inventories 0 ("INVENTORY: ".toList ++ ('{' :: (body ++ ['}']))) = ['{' :: (body ++ ['}'])] := by
  have hword : afterWord "INVENTORY:".toList ("INVENTORY: ".toList ++ ('{' :: (body ++ ['}']))) =
      some (' ' :: '{' :: (body ++ ['}'])) := rfl
  have hspace : (' ' :: '{' :: (body ++ ['}'])).dropWhile isSpace = '{' :: (body ++ ['}']) := by
    rw [List.dropWhile_cons_of_pos (by decide), List.dropWhile_cons_of_neg (by decide)]
  have hline : ('{' :: (body ++ ['}'])).takeWhile (· != '\n') = '{' :: (body ++ ['}']) := by
    rw [List.takeWhile_eq_self_iff]
    intro c hc
    have hne : c ≠ '\n' := by
      rintro rfl
      simp [h] at hc
    simpa using hne
  have hclosed : (body ++ ['}']).rdropWhile (· != '}') = body ++ ['}'] := List.rdropWhile_concat_neg _ _ _ (by decide)
  have hat : inventoryAt ("INVENTORY: ".toList ++ ('{' :: (body ++ ['}']))) =
      some ('{' :: (body ++ ['}']), body.length + 13) := by
    unfold inventoryAt
    rw [hword]
    simp only [Option.bind_some, hspace, hline, hclosed]
    simp
    omega
  show inventories 0 ('I' :: ("NVENTORY: ".toList ++ ('{' :: (body ++ ['}'])))) = _
  rw [inventories, show inventoryAt ('I' :: ("NVENTORY: ".toList ++ ('{' :: (body ++ ['}'])))) = _ from hat]
  dsimp only
  rw [inventories_of_length (by simp)]

private theorem inventories_claimText {line : Text} {fields : Fields F} (h : ReportLine line fields) :
    inventories 0 (claimText line) = [line.drop 11] := by
  have hnoBrace : NoBrace "CLAIM: SUCCESS".toList := by
    show (some 'C') ≠ some '{'
    decide
  have hclaim : inventories 0 "CLAIM: SUCCESS".toList = [] := by decide
  rw [claimText, inventories_break hnoBrace (Nat.zero_le _), hclaim, List.append_nil]
  obtain ⟨body, hline⟩ := h.braces
  have hbody : '\n' ∉ body := by
    have honeLine := h.oneLine
    rw [hline] at honeLine
    intro hmem
    exact honeLine (by simp [hmem])
  rw [hline, inventories_line hbody]
  rfl

omit [JsonFloat F] in
private theorem bareStep_claim {py : Builtins F} {reply : BareReply} {verdict : Verdict}
    (h : parseClaim true reply.content = some verdict) (iteration : Nat) (r : ArmResult) :
    ∃ r', BareArm.step py iteration r reply = (r', true) ∧
      r'.turns = r.turns ++ [⟨iteration, .claim, strip reply.content, [], true⟩] := by
  unfold BareArm.step
  rw [h]
  exact ⟨_, rfl, rfl⟩

omit [JsonFloat F] in
/-- A claim is recorded with its iteration, and it ends the run. -/
private theorem bareStep_claimIteration (py : Builtins F) (iteration : Nat) (r : ArmResult) (reply : BareReply)
    (hnone : r.claimIteration = none) :
    (BareArm.step py iteration r reply).1.claimIteration = none ∨
      (BareArm.step py iteration r reply).1.claimIteration = some iteration ∧
        (BareArm.step py iteration r reply).2 = true := by
  unfold BareArm.step
  dsimp only
  cases parseClaim true reply.content with
  | some verdict => exact Or.inr ⟨rfl, rfl⟩
  | none =>
    cases py.extractCode reply.content with
    | none => exact Or.inl hnone
    | some code =>
      cases reply.timedOut with
      | true => exact Or.inl hnone
      | false => exact Or.inl hnone

omit [JsonFloat F] in
/-- A bare run that claims at its last reply ends with the turn of the claim. -/
private theorem loop_claim {py : Builtins F} {reply : BareReply} {verdict : Verdict}
    (hclaim : parseClaim true reply.content = some verdict) {n iteration : Nat} {before : List (Round BareReply)}
    {r result : ArmResult} (hnone : r.claimIteration = none)
    (h : loop (BareArm.step py) n iteration (before ++ [.reply reply]) r = some result)
    (hlast : result.claimIteration = some (iteration + before.length)) :
    ∃ turns, result.turns = turns ++ [⟨iteration + before.length, .claim, strip reply.content, [], true⟩] := by
  induction before generalizing n iteration r with
  | nil =>
    cases n with
    | zero =>
      obtain rfl : r = result := Option.some.inj h
      rw [hnone] at hlast
      cases hlast
    | succ n =>
      obtain ⟨r', hstep, hturns⟩ : ∃ r', BareArm.step py iteration r reply = (r', true) ∧
          r'.turns = r.turns ++ [⟨iteration, .claim, strip reply.content, [], true⟩] := bareStep_claim hclaim iteration r
      rw [List.nil_append, loop, hstep] at h
      obtain rfl : r' = result := Option.some.inj h
      exact ⟨r.turns, hturns⟩
  | cons round before ih =>
    cases n with
    | zero =>
      obtain rfl : r = result := Option.some.inj h
      rw [hnone] at hlast
      cases hlast
    | succ n =>
      rw [List.length_cons] at hlast ⊢
      cases round with
      | late =>
        obtain rfl : { r with timedOut := true } = result := Option.some.inj h
        rw [show ({ r with timedOut := true } : ArmResult).claimIteration = r.claimIteration from rfl, hnone] at hlast
        cases hlast
      | reply other =>
        have hother := bareStep_claimIteration py iteration r other hnone
        rw [List.cons_append, loop] at h
        dsimp only at h
        by_cases hstop : (BareArm.step py iteration r other).2 = true
        · rw [if_pos hstop] at h
          rw [← Option.some.inj h] at hlast
          rcases hother with hearly | ⟨hearly, -⟩
          · rw [hearly] at hlast
            cases hlast
          · rw [hearly] at hlast
            have heq := Option.some.inj hlast
            omega
        · rw [if_neg hstop] at h
          rcases hother with hopen | ⟨-, hclosed⟩
          · have hnext : iteration + (before.length + 1) = iteration + 1 + before.length := by omega
            rw [hnext] at hlast ⊢
            exact ih hopen h hlast
          · exact absurd hclosed hstop

/-- The inventory of a bare run is that of the line in its last reply. -/
private theorem bare_report {py : Builtins F} {maxIterations : Nat} {before : List (Round BareReply)}
    {reply : BareReply}
    {result : ArmResult} {line : Text} {fields : Fields F} (hline : ReportLine line fields)
    (hreply : reply.content = claimText line)
    (h : BareArm.run py maxIterations (before ++ [.reply reply]) = some result)
    (hlast : result.claimIteration = some (before.length + 1)) :
    (report (transcript result.turns) : Report F) = .object fields := by
  have hclaim : parseClaim true reply.content = some .success := by rw [hreply, parseClaim_claimText]
  rw [Nat.add_comm] at hlast
  obtain ⟨turns, hturns⟩ := loop_claim hclaim rfl h hlast
  unfold report
  rw [inventories_transcript, hturns, List.flatMap_append, List.flatMap_append, hreply, strip_claimText hline]
  simp only [List.flatMap_cons, List.flatMap_nil, Turn.texts, List.append_nil, inventories_claimText hline]
  rw [show inventories 0 [] = [] from rfl, List.append_nil, List.getLast?_append]
  simp [readReport, hline.reads]

/-! ### The tools arm -/

/-- The last of the texts with a match is kept as it is, and it reports the inventory. -/
def ToldLast (pieces : List (Piece F)) (fields : Fields F) : Prop :=
  ∃ text, lastReporting Piece.text pieces = some (.told text) ∧ report text = .object fields

private theorem mcp_report_iff {py : Builtins F} {maxIterations : Nat} {rounds : List (Round (Reply F))}
    {result : ArmResult}
    (h : McpArm.run py maxIterations rounds = some result) (fields : Fields F) :
    report (transcript result.turns) = .object fields ↔ ToldLast (McpArm.pieces py maxIterations rounds) fields := by
  have htexts : result.turns.flatMap Turn.texts = (McpArm.pieces py maxIterations rounds).map Piece.text :=
    McpArm.texts_loop py maxIterations 1 rounds emptyResult result h
  rw [report_transcript htexts]
  unfold ToldLast
  cases lastReporting Piece.text (McpArm.pieces py maxIterations rounds) with
  | none => simp
  | some piece =>
    cases piece with
    | told text => simp [Piece.text]
    | dumped dumped => simp [Piece.text, report_dumps]

/-- The check judges a run of the tools arm by the same report as a bare run that writes the inventory line and claims
success, exactly if that report is in the last text with a match and the transcript keeps this text as it is. -/
theorem same_report_iff {py : Builtins F} {maxIterations bareIterations : Nat} {rounds : List (Round (Reply F))}
    {before : List (Round BareReply)} {reply : BareReply} {result bare : ArmResult} {line : Text} {fields : Fields F}
    (hrun : McpArm.run py maxIterations rounds = some result) (hline : ReportLine line fields)
    (hreply : reply.content = claimText line)
    (hbare : BareArm.run py bareIterations (before ++ [.reply reply]) = some bare)
    (hlast : bare.claimIteration = some (before.length + 1)) :
    (report (transcript result.turns) : Report F) = report (transcript bare.turns) ↔
      ToldLast (McpArm.pieces py maxIterations rounds) fields := by
  rw [bare_report hline hreply hbare hlast, mcp_report_iff hrun]

/-! ### Two runs -/

/-- Python on the words of these runs. -/
def plainBuiltins : Builtins LitFloat where
  str
    | .str s => s.toList
    | _ => []
  upper := fun word => word.map Char.toUpper
  isZero := fun _ => false
  extractCode := fun _ => none

def oneDevice : Fields LitFloat := [("i2c", .arr [.int 60])]

def deviceLine : Text := "INVENTORY: \x7b\"i2c\": [60]\x7d".toList

private theorem deviceLine_reports : ReportLine deviceLine oneDevice :=
  ⟨⟨"\"i2c\": [60]".toList, by decide⟩, by decide, rfl⟩

def bareClaim : BareReply := ⟨claimText deviceLine, 0, 0, 0, [], false⟩

/-- The line and the claim as text. -/
def textRounds : List (Round (Reply LitFloat)) := [.reply ⟨claimText deviceLine, [], 0, 0, ⟨true, []⟩⟩]

def claimResult : ArmResult := ⟨[⟨1, .claim, claimText deviceLine, [], true⟩], some .success, some 1, 0, 0, false⟩

theorem same_report_text :
    McpArm.run plainBuiltins 1 textRounds = some claimResult ∧
      BareArm.run plainBuiltins 1 [.reply bareClaim] = some claimResult ∧
      ((report (transcript claimResult.turns) : Report LitFloat) = report (transcript claimResult.turns) ↔
        ToldLast (McpArm.pieces plainBuiltins 1 textRounds) oneDevice) := by
  have hrun : McpArm.run plainBuiltins 1 textRounds = some claimResult := rfl
  have hbare : BareArm.run plainBuiltins 1 ([] ++ [.reply bareClaim]) = some claimResult := rfl
  exact ⟨hrun, hbare, same_report_iff hrun deviceLine_reports rfl hbare rfl⟩

/-- The inventory as an argument of the claim tool, and as text beside the call. -/
def toolRounds : List (Round (Reply LitFloat)) :=
  [.reply ⟨deviceLine, [⟨"claim".toList, .obj [("verdict", .str "SUCCESS"), ("inventory", .obj oneDevice)], ⟨true, []⟩⟩],
    0, 0, ⟨true, []⟩⟩]

theorem claim_inventory_is_lost :
    ∃ result bare, McpArm.run plainBuiltins 1 toolRounds = some result ∧ result.claimed = some .success ∧
      BareArm.run plainBuiltins 1 [.reply bareClaim] = some bare ∧
      (report (transcript result.turns) : Report LitFloat) = .missing ∧
      (report (transcript bare.turns) : Report LitFloat) = .object oneDevice := by
  refine ⟨_, _, rfl, rfl, rfl, ?_, ?_⟩
  · rfl
  · rfl

end IronHarness.Ops
