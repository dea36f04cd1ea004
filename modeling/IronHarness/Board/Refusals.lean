import IronHarness.Board.Transfer

/-!
# Boards that refuse commands

A board may refuse commands of a transfer with error sections of its own.  The driver sends a command only while no
answer held a non-blank error section, so a transfer ends in an MpReplError exactly when some command that was executed
was answered with one (`put_get_contract`), as long as the answers fit into the buffer of the stream: a longer error
section ends the transfer in a TransportIoError (`flood_put`, `long_error_is_no_repl_error`).
-/

namespace IronHarness.Board

open ByteText PyLiteral Polled MpRepl

variable {S α β : Type} {run : S → List Char → S × Reply}

/-! ### Errors and exceptions -/

/-- A transfer that executed the commands `sent` ends in an MpReplError exactly when one was answered with an error. -/
def Verdict (sent : List (List Char × Reply)) : Except Exn α → Prop
  | .ok _ => ∀ a ∈ sent, ¬ a.2.isError
  | .error e => (∃ text, e = .mpReplError text) ∧ ∃ a ∈ sent, a.2.isError

theorem Verdict.iff {sent : List (List Char × Reply)} {r : Except Exn α} (h : Verdict sent r) :
    (∃ text, r = .error (.mpReplError text)) ↔ ∃ a ∈ sent, a.2.isError := by
  cases r with
  | ok a =>
    constructor
    · rintro ⟨_, hr⟩
      cases hr
    · rintro ⟨a, ha, herror⟩
      exact absurd herror (h a ha)
  | error e =>
    obtain ⟨⟨text, rfl⟩, herror⟩ := h
    exact ⟨fun _ => herror, fun _ => ⟨text, rfl⟩⟩

/-- Commands without errors in front change nothing. -/
theorem Verdict.append {early sent : List (List Char × Reply)} {r : Except Exn α} (hearly : ∀ a ∈ early, ¬ a.2.isError)
    (h : Verdict sent r) : Verdict (early ++ sent) r := by
  cases r with
  | ok a =>
    intro a ha
    rcases List.mem_append.1 ha with ha | ha
    · exact hearly a ha
    · exact h a ha
  | error e =>
    obtain ⟨htext, a, ha, herror⟩ := h
    exact ⟨htext, a, List.mem_append_right _ ha, herror⟩

/-- `m` keeps the board at its prompt, and its outcome is that of the commands it executed. -/
def Faithful (answered : List (List Char × Reply)) (m : Link S α) (w : Wire S) : Prop :=
  Total inTime m w fun r w' => ∃ s sent, AtPrompt 0 s (answered ++ sent) w' ∧ Verdict sent r

variable {answered : List (List Char × Reply)} {w : Wire S} {left : Nat} {s : S}

theorem Faithful.pure {a : α} (h : AtPrompt 0 s answered w) : Faithful answered (pure a : Link S α) w :=
  Total.pure ⟨s, [], by rwa [List.append_nil], List.forall_mem_nil _⟩

/-- Commands without errors may have been executed before. -/
theorem Faithful.behind {m : Link S α} {early : List (List Char × Reply)} (hearly : ∀ a ∈ early, ¬ a.2.isError)
    (hm : Faithful (answered ++ early) m w) : Faithful answered m w := by
  refine hm.mono ?_
  rintro r w' ⟨s', sent, hat, hverdict⟩
  exact ⟨s', early ++ sent, by rwa [← List.append_assoc], hverdict.append hearly⟩

theorem Faithful.bind {m : Link S α} {f : α → Link S β} (hm : Faithful answered m w)
    (hf : ∀ a w' s sent, AtPrompt 0 s (answered ++ sent) w' → Faithful (answered ++ sent) (f a) w') :
    Faithful answered (m >>= f) w := by
  refine Total.bind hm ?_ ?_
  · rintro a w' ⟨s', sent, hat, hverdict⟩
    exact (hf a w' s' sent hat).behind hverdict
  · rintro e w' ⟨s', sent, hat, hverdict⟩
    exact ⟨s', sent, hat, hverdict⟩

/-- The answers of a board to the commands of a transfer, at most `left` bytes behind what waits. -/
def Answers (isPrintable : Char → Bool) (target : PyStr) (chunk left : Nat) (run : S → List Char → S × Reply) : Prop :=
  ∀ s command, Sent isPrintable target chunk command →
    Clean (run s command).2 ∧ left + (run s command).2.bytes.length ≤ Stream.maxStreamBuf

variable {isPrintable : Char → Bool} {target : PyStr} {chunk : Nat}

/-- The outcome of one command is that of its answer. -/
private theorem verdict_answer (command : List Char) (reply : Reply) (out : Bytes) :
    Verdict [(command, reply)] (MpRepl.answer out reply.err) := by
  by_cases herror : reply.isError
  · obtain ⟨text, htext⟩ := answer_of_isError herror out
    rw [htext]
    exact ⟨⟨text, rfl⟩, _, List.mem_singleton_self _, herror⟩
  · rw [answer_of_not_isError herror]
    intro a ha
    obtain rfl := List.mem_singleton.1 ha
    exact herror

private theorem exec_faithful (hrun : Answers isPrintable target chunk left run) (h : AtPrompt left s answered w)
    {command : List Char} (hsent : Sent isPrintable target chunk command) :
    Faithful answered (exec_ run command) w := by
  obtain ⟨hclean, hfit⟩ := hrun s command hsent
  refine (exec_total h hsent.isCommand hclean hfit).mono ?_
  rintro r w' ⟨hat, early, -, rfl⟩
  exact ⟨_, _, hat, verdict_answer ..⟩

/-- A command and what follows where it is answered without an error. -/
private theorem Faithful.exec_bind (hrun : Answers isPrintable target chunk left run) (h : AtPrompt left s answered w)
    {command : List Char} (hsent : Sent isPrintable target chunk command) {f : List Char → Link S β}
    (hf : ∀ text w' early, early.length ≤ left →
      MpRepl.answer (early ++ (run s command).2.out) (run s command).2.err = .ok text →
      AtPrompt 0 (run s command).1 (answered ++ [(command, (run s command).2)]) w' →
      Faithful (answered ++ [(command, (run s command).2)]) (f text) w') :
    Faithful answered (exec_ run command >>= f) w := by
  obtain ⟨hclean, hfit⟩ := hrun s command hsent
  refine Total.bind (exec_total h hsent.isCommand hclean hfit) ?_ ?_
  · rintro text w' ⟨hat, early, hearly, htext⟩
    have hverdict := verdict_answer command (run s command).2 (early ++ (run s command).2.out)
    rw [← htext] at hverdict
    exact (hf text w' early hearly htext.symm hat).behind hverdict
  · rintro e w' ⟨hat, early, -, he⟩
    have hverdict := verdict_answer command (run s command).2 (early ++ (run s command).2.out)
    rw [← he] at hverdict
    exact ⟨_, _, hat, hverdict⟩

/-- A failed transfer closes the file: the commands it executed still hold the error. -/
private theorem Faithful.onError_close (hrun : Answers isPrintable target chunk 0 run) {m : Link S α}
    (hm : Faithful answered m w) : Faithful answered (onError m (bestEffortClose run)) w := by
  refine Total.onError hm (fun _ _ h => h) ?_
  rintro e w' ⟨s', sent, hat, htext, a, ha, herror⟩
  have hclose : Total inTime (exec_ run closeCommand) w' fun _ w'' => ∃ s'' sent',
      AtPrompt 0 s'' (answered ++ (sent ++ sent')) w'' := by
    refine (exec_faithful hrun hat .close).mono ?_
    rintro _ w'' ⟨s'', sent', hat', -⟩
    exact ⟨s'', sent', by rwa [← List.append_assoc]⟩
  refine (Total.suppress hclose).mono ?_
  rintro r w'' ⟨rfl, s'', sent', hat'⟩
  exact ⟨rfl, s'', sent ++ sent', hat', htext, a, List.mem_append_left _ ha, herror⟩

/-- What a transfer leaves behind, in raw mode or not. -/
theorem Faithful.exit {m : Link S α} (hm : Faithful answered m w) (f : α → β) :
    Total inTime (onError m (exit_ run) >>= fun a => exit_ run >>= fun _ => return f a) w fun r w' =>
      ∃ sent, w'.view.answered = answered ++ sent ∧ Verdict sent r := by
  have hbody : Total inTime (onError m (exit_ run)) w fun r w' =>
      ∃ sent, w'.view.answered = answered ++ sent ∧ Verdict sent r ∧ ∀ a, r = .ok a → ∃ s, AtPrompt 0 s (answered ++ sent) w' := by
    refine Total.onError hm ?_ ?_
    · rintro a w' ⟨s', sent, hat, hverdict⟩
      exact ⟨sent, hat.answered, hverdict, fun _ _ => ⟨s', hat⟩⟩
    · rintro e w' ⟨s', sent, hat, hverdict⟩
      refine Total.mono (exit_total hat) ?_
      rintro r w'' ⟨_, rfl, hwaiting, -⟩
      refine ⟨rfl, sent, hwaiting.answered, hverdict, ?_⟩
      rintro a h
      cases h
  refine Total.bind hbody ?_ ?_
  · rintro a w' ⟨sent, -, hverdict, hat⟩
    obtain ⟨s', hat⟩ := hat a rfl
    refine Returns.seq (exit_total hat) fun _ w'' ⟨hwaiting, _⟩ => ?_
    exact Total.pure ⟨sent, hwaiting.answered, hverdict⟩
  · rintro e w' ⟨sent, hanswered, hverdict, -⟩
    exact ⟨sent, hanswered, hverdict⟩

/-! ### Transfers to any board -/

private theorem writeLoop_faithful (hrun : Answers isPrintable target chunk 0 run) (pieces : List Bytes)
    (h : AtPrompt 0 s answered w) : Faithful answered (writeLoop run pieces) w := by
  induction pieces generalizing answered w s with
  | nil => exact Faithful.pure h
  | cons piece pieces ih =>
    exact Faithful.bind (exec_faithful hrun h (.write piece)) fun _ w' s' sent hat => ih hat

theorem Answers.mono (hrun : Answers isPrintable target chunk left run) : Answers isPrintable target chunk 0 run := by
  intro s command hsent
  obtain ⟨hclean, hfit⟩ := hrun s command hsent
  exact ⟨hclean, by omega⟩

theorem putFile_faithful (hrun : Answers isPrintable target chunk (left + 30) run) (h : Waiting left s answered w)
    {fuel : Nat} (hfuel : 0 < fuel) (data : Bytes) :
    Total inTime (MpRepl.putFile run isPrintable fuel chunk data target) w fun r w' =>
      ∃ sent, w'.view.answered = answered ++ sent ∧ Verdict sent r := by
  have hfit : left + 30 ≤ Stream.maxStreamBuf := by
    have himport := (hrun s importCommand .binascii).2
    omega
  refine Returns.seq (enter_total h hfit hfuel) fun _ w₁ h₁ => ?_
  have hbody : Faithful answered (do
      let _ ← exec_ run importCommand
      let _ ← exec_ run (openCommand isPrintable target "wb".toList)
      onError (do
        writeLoop run (chunksOf chunk data)
        let _ ← exec_ run closeCommand
        return ()) (bestEffortClose run)) w₁ := by
    refine Faithful.bind (exec_faithful hrun h₁ .binascii) fun _ w₂ s₂ sent₂ h₂ => ?_
    refine Faithful.bind (exec_faithful hrun.mono h₂ (.openFile (.inr rfl))) fun _ w₃ s₃ sent₃ h₃ => ?_
    refine Faithful.onError_close hrun.mono ?_
    refine Faithful.bind (writeLoop_faithful hrun.mono (chunksOf chunk data) h₃) fun _ w₄ s₄ sent₄ h₄ => ?_
    refine Faithful.bind (exec_faithful hrun.mono h₄ .close) fun _ w₅ s₅ sent₅ h₅ => ?_
    exact Faithful.pure h₅
  exact hbody.exit fun _ => data.length

/-! ### The board of the tests with refusals -/

/-- An answer that refuses a command: `OK` may be sent, nothing is printed, and the error section is what it is. -/
structure Refusal where
  accepted : Bool
  error : Bytes
  clean : ctrlD ∉ error

def Refusal.reply (refusal : Refusal) : Reply := ⟨if refusal.accepted then okMark else [], refusal.error⟩

/-- The board of the tests where `refuse` decides, from what it remembers, which commands are refused.  A refused
command does nothing but close the open file. -/
def refusing {T : Type} (isPrintable : Char → Bool) (refuse : T → List Char → T × Option Refusal) (s : Fs × T)
    (command : List Char) : (Fs × T) × Reply :=
  match refuse s.2 command with
  | (t, some refusal) => (({ s.1 with f := none }, t), refusal.reply)
  | (t, none) => (((exec isPrintable s.1 command).1, t), (exec isPrintable s.1 command).2)

section Refusing

variable {T : Type} {refuse : T → List Char → T × Option Refusal}

/-- Every refusal fits, behind `left` bytes that wait, into the buffer of the stream. -/
def Fits (left : Nat) (refuse : T → List Char → T × Option Refusal) : Prop :=
  ∀ t command refusal, (refuse t command).2 = some refusal → left + refusal.error.length + 5 ≤ Stream.maxStreamBuf

theorem Refusal.reply_clean (refusal : Refusal) : Clean refusal.reply where
  out := by
    unfold Refusal.reply
    split
    · show ctrlD ∉ okMark
      decide
    · exact List.not_mem_nil
  err := refusal.clean

private theorem Refusal.reply_length (refusal : Refusal) : refusal.reply.bytes.length ≤ refusal.error.length + 5 := by
  have hmark : (if refusal.accepted then okMark else []).length ≤ 2 := by
    split
    · decide
    · exact Nat.zero_le _
  simp only [Refusal.reply, Reply.bytes, List.length_append, List.length_cons, List.length_nil]
  omega

theorem refusing_answers (hrefuse : Fits left refuse) (hfit : left + (2 * chunk + 128) ≤ Stream.maxStreamBuf) :
    Answers isPrintable target chunk left (refusing isPrintable refuse) := by
  intro s command hsent
  unfold refusing
  split
  · rename_i t refusal hcommand
    have hshort := hrefuse s.2 command refusal (by rw [hcommand])
    exact ⟨refusal.reply_clean, Nat.le_trans (Nat.add_le_add_left refusal.reply_length left) (by omega)⟩
  · obtain ⟨hclean, hlen⟩ := hsent.answer s.1
    exact ⟨hclean, Nat.le_trans (Nat.add_le_add_left hlen left) hfit⟩

/-- The bytes of the open file that are still to be read. -/
def unread (fs : Fs) : Nat :=
  match fs.f with
  | none => 0
  | some h => ((fs.files h.path).getD []).length - h.rpos

/-- What the driver makes of an answered read on such a board: the end, or a piece after which less is left. -/
private theorem refusing_read (s : Fs × T) {text : List Char}
    (htext : MpRepl.answer (refusing isPrintable refuse s (readCommand chunk)).2.out
      (refusing isPrintable refuse s (readCommand chunk)).2.err = .ok text) :
    parseRead isPrintable text = .ok none ∨ ∃ piece, parseRead isPrintable text = .ok (some piece) ∧
      unread (refusing isPrintable refuse s (readCommand chunk)).1.1 < unread s.1 := by
  unfold refusing at htext ⊢
  split at htext
  · rename_i t refusal _
    simp only at htext
    have hblank : ¬ refusal.reply.isError := by
      intro herror
      obtain ⟨_, he⟩ := answer_of_isError herror refusal.reply.out
      rw [he] at htext
      cases htext
    -- a refusal with a blank error section reads as the end of the file
    rw [answer_of_not_isError hblank] at htext
    obtain rfl := Except.ok.inj htext
    left
    unfold Refusal.reply
    cases refusal.accepted with
    | true => rfl
    | false => rfl
  · rw [exec_read] at htext ⊢
    cases hf : s.1.f with
    | none =>
      rw [hf] at htext
      have herror : (Reply.failed "OSError: [Errno 9] file is not open".toList).isError := by decide
      obtain ⟨_, he⟩ := answer_of_isError herror (Reply.failed "OSError: [Errno 9] file is not open".toList).out
      cases he.symm.trans htext
    | some h =>
      rw [hf] at htext
      obtain ⟨piece, hpiece⟩ : ∃ piece, (((s.1.files h.path).getD []).drop h.rpos).take chunk = piece := ⟨_, rfl⟩
      simp only [hpiece] at htext ⊢
      obtain rfl := Except.ok.inj ((answer_done _).symm.trans htext)
      rw [parseRead_printed]
      by_cases hend : piece = []
      · exact .inl (by rw [if_pos hend])
      · refine .inr ⟨piece, by rw [if_neg hend], ?_⟩
        have hpos : 0 < piece.length := List.length_pos_iff.2 hend
        have hlen := congrArg List.length hpiece
        rw [List.length_take, List.length_drop] at hlen
        simp only [unread, hf]
        omega

private theorem readLoop_faithful (hrun : Answers isPrintable target chunk 0 (refusing isPrintable refuse)) {s : Fs × T}
    {w : Wire (Fs × T)} {fuel : Nat} (parts : Bytes) (hfuel : unread s.1 < fuel) (h : AtPrompt 0 s answered w) :
    Faithful answered (readLoop (refusing isPrintable refuse) isPrintable chunk fuel parts) w := by
  induction fuel generalizing parts answered s w with
  | zero => omega
  | succ fuel ih =>
    refine Faithful.exec_bind hrun h .read fun text w' early hearly htext hat => ?_
    obtain rfl : early = [] := List.length_eq_zero_iff.1 (Nat.le_zero.1 hearly)
    rcases refusing_read s htext with hend | ⟨piece, hpiece, hless⟩
    · rw [hend]
      exact Faithful.pure hat
    · rw [hpiece]
      exact ih (parts ++ piece) (by omega) hat

/-- Opening a file leaves at most its bytes to be read. -/
private theorem unread_open (s : Fs × T) :
    unread (refusing isPrintable refuse s (openCommand isPrintable target "rb".toList)).1.1 ≤
      ((s.1.files target).getD []).length := by
  unfold refusing
  split
  · exact Nat.zero_le _
  · rw [exec_open_rb]
    cases hfile : s.1.files target with
    | none => exact Nat.zero_le _
    | some content => simp [unread, hfile]

private theorem files_import (s : Fs × T) :
    (refusing isPrintable refuse s importCommand).1.1.files = s.1.files := by
  unfold refusing
  split
  · rfl
  · rw [exec_import]

theorem getFile_faithful (hrefuse : Fits (left + 30) refuse) (hfit : left + 30 + (2 * chunk + 128) ≤ Stream.maxStreamBuf)
    {s : Fs × T} {w : Wire (Fs × T)} (h : Waiting left s answered w) {fuel : Nat}
    (hfuel : ((s.1.files target).getD []).length < fuel) :
    Total inTime (MpRepl.getFile (refusing isPrintable refuse) isPrintable fuel chunk target) w fun r w' =>
      ∃ sent, w'.view.answered = answered ++ sent ∧ Verdict sent r := by
  have hrun : Answers isPrintable target chunk (left + 30) (refusing isPrintable refuse) :=
    refusing_answers hrefuse hfit
  refine Returns.seq (enter_total h (by omega) (by omega)) fun _ w₁ h₁ => ?_
  have hbody : Faithful answered (do
      let _ ← exec_ (refusing isPrintable refuse) importCommand
      let _ ← exec_ (refusing isPrintable refuse) (openCommand isPrintable target "rb".toList)
      onError (do
        let parts ← readLoop (refusing isPrintable refuse) isPrintable chunk fuel []
        let _ ← exec_ (refusing isPrintable refuse) closeCommand
        return parts) (bestEffortClose (refusing isPrintable refuse))) w₁ := by
    refine Faithful.exec_bind hrun h₁ .binascii fun _ w₂ _ _ _ h₂ => ?_
    refine Faithful.exec_bind hrun.mono h₂ (.openFile (.inl rfl)) fun _ w₃ _ _ _ h₃ => ?_
    refine Faithful.onError_close hrun.mono ?_
    have hopen : unread (refusing isPrintable refuse (refusing isPrintable refuse s importCommand).1
        (openCommand isPrintable target "rb".toList)).1.1 ≤ _ := unread_open _
    rw [files_import] at hopen
    refine Faithful.bind (readLoop_faithful hrun.mono [] (by omega) h₃) fun parts w₄ s₄ sent₄ h₄ => ?_
    refine Faithful.bind (exec_faithful hrun.mono h₄ .close) fun _ w₅ s₅ sent₅ h₅ => ?_
    exact Faithful.pure h₅
  exact hbody.exit id

end Refusing

end IronHarness.Board
