import IronHarness.Board.Files

/-!
# Transfers

A file that is written to the board of the tests is there, and is read back, whatever the bytes, the path, the size of
the chunks, the fragments of the reads and the output that waits before (`putFile_total`, `getFile_total`).
-/

namespace IronHarness.Board

open ByteText PyLiteral Polled MpRepl

variable {isPrintable : Char → Bool} {target : PyStr} {chunk : Nat}

/-! ### Chunks -/

theorem chunksOf_flatten (hchunk : 0 < chunk) (data : Bytes) : (chunksOf chunk data).flatten = data := by
  have hpieces : ∀ k, ((List.range k).map fun i => (data.drop (i * chunk)).take chunk).flatten = data.take (k * chunk) := by
    intro k
    induction k with
    | zero => simp
    | succ k ih =>
      rw [List.range_succ, List.map_append, List.flatten_append, ih, Nat.succ_mul, List.take_add]
      simp
  have hall : data.length ≤ (data.length + chunk - 1) / chunk * chunk := by
    have hdiv := Nat.div_add_mod (data.length + chunk - 1) chunk
    have hmod := Nat.mod_lt (data.length + chunk - 1) hchunk
    rw [Nat.mul_comm] at hdiv
    omega
  rw [chunksOf, hpieces, List.take_of_length_le hall]

private theorem splice_end (buf piece : Bytes) : splice buf buf.length piece = buf ++ piece := by
  simp [splice]

/-! ### A session on the board of the tests -/

section Session

variable {run : Fs → List Char → Fs × Reply} {left : Nat} {fs fs' : Fs} {answered : List (List Char × Reply)}
  {w : Wire Fs}

/-- A board that executes what a transfer sends as the board of the tests does. -/
def Runs (isPrintable : Char → Bool) (target : PyStr) (chunk : Nat) (run : Fs → List Char → Fs × Reply) : Prop :=
  ∀ fs command, Sent isPrintable target chunk command → run fs command = exec isPrintable fs command

/-- A command that succeeds. -/
private theorem exec_done_total (hrun : Runs isPrintable target chunk run) (h : AtPrompt left fs answered w)
    (hfit : left + (2 * chunk + 128) ≤ Stream.maxStreamBuf) {command : List Char}
    (hsent : Sent isPrintable target chunk command) {printed : List Char}
    (hexec : exec isPrintable fs command = (fs', .done (encode printed))) :
    Returns inTime (exec_ run command) w fun text w' =>
      (left = 0 → text = printed) ∧ ∃ answered', AtPrompt 0 fs' answered' w' := by
  obtain ⟨hclean, hlen⟩ := hsent.answer fs
  rw [← hrun fs command hsent] at hclean hlen hexec
  have hfits : left + (run fs command).2.bytes.length ≤ Stream.maxStreamBuf :=
    Nat.le_trans (Nat.add_le_add_left hlen left) hfit
  refine (exec_total h hsent.isCommand hclean hfits).mono fun r w' ⟨hat, early, hearly, hr⟩ => ?_
  rw [hexec] at hat hr
  have hblank : ¬ (Reply.done (encode printed)).isError := by
    intro herror
    exact herror rfl
  rw [answer_of_not_isError hblank] at hr
  refine ⟨_, hr, ?_, _, hat⟩
  rintro rfl
  obtain rfl : early = [] := List.length_eq_zero_iff.1 (Nat.le_zero.1 hearly)
  have hanswer := answer_of_not_isError hblank ([] ++ (Reply.done (encode printed)).out)
  rw [List.nil_append] at hanswer ⊢
  exact Except.ok.inj (hanswer.symm.trans (answer_done printed))

/-- A command that succeeds and prints nothing. -/
private theorem exec_quiet_total (hrun : Runs isPrintable target chunk run) (h : AtPrompt left fs answered w)
    (hfit : left + (2 * chunk + 128) ≤ Stream.maxStreamBuf) {command : List Char}
    (hsent : Sent isPrintable target chunk command) (hexec : exec isPrintable fs command = (fs', .done [])) :
    Returns inTime (exec_ run command) w fun _ w' => ∃ answered', AtPrompt 0 fs' answered' w' := by
  have hprinted : exec isPrintable fs command = (fs', .done (encode [])) := hexec
  exact (exec_done_total hrun h hfit hsent hprinted).mono fun _ _ h' => h'.2

/-! ### Writing a file -/

/-- The loop of `put_file` appends the pieces to the open file. -/
private theorem writeLoop_total (hrun : Runs isPrintable target chunk run)
    (hfit : 2 * chunk + 128 ≤ Stream.maxStreamBuf)
    {mode : List Char} {rpos : Nat} (pieces : List Bytes) {content : Bytes}
    (h : AtPrompt 0 { fs.store target (some content) with f := some ⟨target, mode, content.length, rpos⟩ } answered w) :
    Returns inTime (writeLoop run pieces) w fun _ w' => ∃ f answered',
      AtPrompt 0 { fs.store target (some (content ++ pieces.flatten)) with f } answered' w' := by
  induction pieces generalizing content answered w with
  | nil =>
    rw [List.flatten_nil, List.append_nil]
    exact Returns.pure ⟨_, _, h⟩
  | cons piece pieces ih =>
    have hexec : exec isPrintable { fs.store target (some content) with f := some ⟨target, mode, content.length, rpos⟩ }
          (writeCommand piece) =
        ({ fs.store target (some (content ++ piece)) with
            f := some ⟨target, mode, (content ++ piece).length, rpos⟩ }, .done []) := by
      rw [exec_write]
      have hcontent : (fs.store target (some content)).files target = some content := if_pos rfl
      have htwice : ((fs.store target (some content)).store target (some (content ++ piece))) =
          fs.store target (some (content ++ piece)) := by
        unfold Fs.store
        congr 1
        funext p
        by_cases hp : p = target
        · simp [hp]
        · simp [hp]
      simp only [hcontent, Option.getD_some, splice_end, List.length_append]
      rw [← htwice]
      rfl
    refine Returns.seq (exec_quiet_total hrun h (by omega) (.write piece) hexec) fun _ w₁ ⟨_, h₁⟩ => ?_
    rw [List.flatten_cons, ← List.append_assoc]
    exact ih h₁

/-- `put_file` on a board in any mode, with any output without Ctrl-D waiting. -/
theorem putFile_total (hrun : Runs isPrintable target chunk run) (hchunk : 0 < chunk)
    (hfit : left + 30 + (2 * chunk + 128) ≤ Stream.maxStreamBuf) (h : Waiting left fs answered w) {fuel : Nat}
    (hfuel : 0 < fuel) (data : Bytes) :
    Returns inTime (MpRepl.putFile run isPrintable fuel chunk data target) w fun n w' => n = data.length ∧
      w'.view.raw = false ∧ ∃ answered', Waiting 3 { fs.store target (some data) with f := none } answered' w' := by
  refine Returns.seq (enter_total h (by omega) hfuel) fun _ w₁ h₁ => ?_
  have hbody : Returns inTime (onError (do
      let _ ← exec_ run importCommand
      let _ ← exec_ run (openCommand isPrintable target "wb".toList)
      onError (do
        writeLoop run (chunksOf chunk data)
        let _ ← exec_ run closeCommand
        return ()) (bestEffortClose run)) (exit_ run)) w₁ fun _ w' =>
      ∃ answered', AtPrompt 0 { fs.store target (some data) with f := none } answered' w' := by
    refine Returns.onError ?_
    refine Returns.seq (exec_quiet_total hrun h₁ hfit .binascii (exec_import isPrintable fs)) fun _ w₂ ⟨_, h₂⟩ => ?_
    refine Returns.seq (exec_quiet_total hrun h₂ (by omega) (.openFile (.inr rfl)) (exec_open_wb isPrintable fs target))
      fun _ w₃ ⟨_, h₃⟩ => ?_
    refine Returns.onError ?_
    refine Returns.seq (writeLoop_total hrun (by omega) (chunksOf chunk data) h₃) fun _ w₄ ⟨f, _, h₄⟩ => ?_
    rw [List.nil_append, chunksOf_flatten hchunk] at h₄
    refine Returns.seq (exec_quiet_total hrun h₄ (by omega) .close (exec_close isPrintable _)) fun _ w₅ ⟨_, h₅⟩ => ?_
    exact Returns.pure ⟨_, h₅⟩
  refine Returns.seq hbody fun _ w₆ ⟨_, h₆⟩ => ?_
  refine Returns.seq (exit_total h₆) fun _ w₇ ⟨h₇, hraw⟩ => ?_
  exact Returns.pure ⟨rfl, hraw, _, h₇⟩

/-! ### Reading a file -/

/-- The loop of `get_file` returns what it has and the rest of the open file. -/
private theorem readLoop_total (hrun : Runs isPrintable target chunk run) (hchunk : 0 < chunk)
    (hfit : 2 * chunk + 128 ≤ Stream.maxStreamBuf) {content : Bytes} (hcontent : fs.files target = some content)
    {mode : List Char} {wpos rpos fuel : Nat} (parts : Bytes) (hfuel : content.length - rpos < fuel)
    (h : AtPrompt 0 { fs with f := some ⟨target, mode, wpos, rpos⟩ } answered w) :
    Returns inTime (readLoop run isPrintable chunk fuel parts) w fun data w' => data = parts ++ content.drop rpos ∧
      ∃ f answered', AtPrompt 0 { fs with f } answered' w' := by
  induction fuel generalizing rpos parts answered w with
  | zero => omega
  | succ fuel ih =>
    obtain ⟨piece, hpiece⟩ : ∃ piece, (content.drop rpos).take chunk = piece := ⟨_, rfl⟩
    have hexec : exec isPrintable { fs with f := some ⟨target, mode, wpos, rpos⟩ } (readCommand chunk) =
        ({ fs with f := some ⟨target, mode, wpos, rpos + piece.length⟩ },
          .done (encode ("b'".toList ++ hex piece ++ "'\r\n".toList))) := by
      rw [exec_read]
      simp only [hcontent, Option.getD_some, hpiece]
    refine Returns.seq (exec_done_total hrun h (by omega) .read hexec) fun text w₁ ⟨htext, answered₁, h₁⟩ => ?_
    rw [htext rfl, parseRead_printed]
    by_cases hend : piece = []
    · -- an empty read is the end of the file
      rw [if_pos hend]
      have hdone : content.drop rpos = [] := by
        rw [hend, List.take_eq_nil_iff] at hpiece
        exact hpiece.resolve_left (by omega)
      refine Returns.pure ⟨by rw [hdone, List.append_nil], _, _, h₁⟩
    · rw [if_neg hend]
      have hsplit : content.drop rpos = piece ++ content.drop (rpos + piece.length) := by
        rw [← hpiece, List.length_take, ← List.drop_drop]
        rcases Nat.le_total chunk (content.drop rpos).length with hle | hle
        · rw [Nat.min_eq_left hle, List.take_append_drop]
        · rw [Nat.min_eq_right hle, List.take_of_length_le hle, List.drop_length, List.append_nil]
      have hpos : 0 < piece.length := List.length_pos_iff.2 hend
      have hinside := congrArg List.length hsplit
      rw [List.length_drop, List.length_append, List.length_drop] at hinside
      refine Returns.mono (ih (parts ++ piece) (by omega) h₁) ?_
      rintro data w' ⟨rfl, hat⟩
      exact ⟨by rw [hsplit, List.append_assoc], hat⟩

/-- `get_file` on a board in any mode that has the file, with any output without Ctrl-D waiting. -/
theorem getFile_total (hrun : Runs isPrintable target chunk run) (hchunk : 0 < chunk)
    (hfit : left + 30 + (2 * chunk + 128) ≤ Stream.maxStreamBuf) (h : Waiting left fs answered w) {content : Bytes}
    (hcontent : fs.files target = some content) {fuel : Nat} (hfuel : content.length < fuel) :
    Returns inTime (MpRepl.getFile run isPrintable fuel chunk target) w fun data w' => data = content ∧
      ∃ answered', Waiting 3 { fs with f := none } answered' w' := by
  refine Returns.seq (enter_total h (by omega) (by omega)) fun _ w₁ h₁ => ?_
  have hopen : exec isPrintable fs (openCommand isPrintable target "rb".toList) =
      ({ fs with f := some ⟨target, "rb".toList, content.length, 0⟩ }, .done []) := by
    rw [exec_open_rb, hcontent]
  have hbody : Returns inTime (onError (do
      let _ ← exec_ run importCommand
      let _ ← exec_ run (openCommand isPrintable target "rb".toList)
      onError (do
        let parts ← readLoop run isPrintable chunk fuel []
        let _ ← exec_ run closeCommand
        return parts) (bestEffortClose run)) (exit_ run)) w₁ fun data w' => data = content ∧
      ∃ answered', AtPrompt 0 { fs with f := none } answered' w' := by
    refine Returns.onError ?_
    refine Returns.seq (exec_quiet_total hrun h₁ hfit .binascii (exec_import isPrintable fs)) fun _ w₂ ⟨_, h₂⟩ => ?_
    refine Returns.seq (exec_quiet_total hrun h₂ (by omega) (.openFile (.inl rfl)) hopen) fun _ w₃ ⟨_, h₃⟩ => ?_
    refine Returns.onError ?_
    refine Returns.seq (readLoop_total hrun hchunk (by omega) hcontent [] (by omega) h₃)
      fun parts w₄ ⟨hparts, f, _, h₄⟩ => ?_
    refine Returns.seq (exec_quiet_total hrun h₄ (by omega) .close (exec_close isPrintable _)) fun _ w₅ ⟨_, h₅⟩ => ?_
    exact Returns.pure ⟨hparts, _, h₅⟩
  refine Returns.seq hbody fun data w₆ ⟨hdata, _, h₆⟩ => ?_
  refine Returns.seq (exit_total h₆) fun _ w₇ ⟨h₇, _⟩ => ?_
  exact Returns.pure ⟨hdata, _, h₇⟩

end Session

end IronHarness.Board
