import IronHarness.Board.Session

/-!
# The commands of a transfer

What the board of the tests does with the commands the driver sends: each is taken for what it is, whatever the path
and the bytes in it, and answered in sections that hold no Ctrl-D.
-/

namespace IronHarness.Board

open ByteText PyLiteral MpRepl

variable (isPrintable : Char → Bool)

/-! ### Matching -/

private theorem between_front (front back tail : List Char) :
    between front back (front ++ tail) =
      if back.isSuffixOf tail then some (tail.take (tail.length - back.length)) else none := by
  have hfront : front.isPrefixOf (front ++ tail) = true := List.isPrefixOf_iff_prefix.2 (List.prefix_append ..)
  rw [between, hfront, List.drop_left, Bool.true_and, List.length_append, Nat.add_sub_cancel_left]

private theorem between_self (front back mid : List Char) : between front back (front ++ (mid ++ back)) = some mid := by
  have hback : back.isSuffixOf (mid ++ back) = true := List.isSuffixOf_iff_suffix.2 (List.suffix_append ..)
  rw [between_front, if_pos hback, List.length_append, Nat.add_sub_cancel, List.take_left]

theorem between_other_front {front back text : List Char} (h : front.isPrefixOf text = false) :
    between front back text = none := by
  rw [between, h, Bool.false_and, if_neg Bool.false_ne_true]

/-- A text that ends in `back` does not end in another text, which the last characters tell apart. -/
private theorem between_other_back {front back back' mid : List Char}
    (h : ∀ more, back'.reverse.isPrefixOf (back.reverse ++ more) = false) :
    between front back' (front ++ (mid ++ back)) = none := by
  have hback : back'.isSuffixOf (mid ++ back) = false := by
    rw [List.isSuffixOf, List.reverse_append]
    exact h _
  rw [between_front, hback, if_neg Bool.false_ne_true]

private theorem newline_not_mem_repr (target : PyStr) : (repr isPrintable target).contains '\n' = false := by
  rw [Bool.eq_false_iff]
  intro hmem
  have hprint := repr_printable (List.contains_iff_mem.1 hmem)
  revert hprint
  decide

theorem openCommand_eq (target : PyStr) (mode : List Char) :
    openCommand isPrintable target mode =
      "f = open(".toList ++ (repr isPrintable target ++ (", '".toList ++ mode ++ "')".toList)) := by
  have hassoc : ∀ a b c d e : List Char, a ++ b ++ c ++ d ++ e = a ++ (b ++ (c ++ d ++ e)) := by simp
  exact hassoc _ _ _ _ _

private theorem matchMode_self (target : PyStr) (mode : List Char) :
    matchMode (openCommand isPrintable target mode) mode = some (repr isPrintable target, mode) := by
  have hnonempty : (repr isPrintable target).isEmpty = false := rfl
  rw [matchMode, openCommand_eq, between_self, Option.bind_some, hnonempty, newline_not_mem_repr, Bool.or_false,
    if_neg Bool.false_ne_true]

private theorem matchMode_other (target : PyStr) (mode mode' : List Char)
    (h : ∀ more, (", '".toList ++ mode' ++ "')".toList).reverse.isPrefixOf
      ((", '".toList ++ mode ++ "')".toList).reverse ++ more) = false) :
    matchMode (openCommand isPrintable target mode) mode' = none := by
  rw [matchMode, openCommand_eq, between_other_back h, Option.bind_none]

/-- The command to open a file is taken for one, with the mode it names. -/
private theorem matchOpen_openCommand (target : PyStr) {mode : List Char}
    (hmode : mode = "rb".toList ∨ mode = "wb".toList) :
    matchOpen (openCommand isPrintable target mode) = some (repr isPrintable target, mode) := by
  have hself := matchMode_self isPrintable target mode
  rcases hmode with rfl | rfl
  · have hr := matchMode_other isPrintable target "rb".toList "r".toList (fun _ => rfl)
    have hw := matchMode_other isPrintable target "rb".toList "w".toList (fun _ => rfl)
    have ha := matchMode_other isPrintable target "rb".toList "a".toList (fun _ => rfl)
    simp only [matchOpen, openModes, List.findSome?_cons, hr, hw, ha, hself]
  · have hr := matchMode_other isPrintable target "wb".toList "r".toList (fun _ => rfl)
    have hw := matchMode_other isPrintable target "wb".toList "w".toList (fun _ => rfl)
    have ha := matchMode_other isPrintable target "wb".toList "a".toList (fun _ => rfl)
    have hrb := matchMode_other isPrintable target "wb".toList "rb".toList (fun _ => rfl)
    simp only [matchOpen, openModes, List.findSome?_cons, hr, hw, ha, hrb, hself]

private theorem matchOpen_eq_none {command : List Char} (h : "f = open(".toList.isPrefixOf command = false) :
    matchOpen command = none := by
  have hmode : ∀ mode, matchMode command mode = none := by
    intro mode
    rw [matchMode, between_other_front h, Option.bind_none]
  simp only [matchOpen, openModes, List.findSome?_cons, List.findSome?_nil, hmode]

private theorem writeCommand_append (piece : Bytes) :
    writeCommand piece = "f.write(binascii.unhexlify('".toList ++ (hex piece ++ "'))".toList) :=
  List.append_assoc ..

private theorem readCommand_append (chunk : Nat) :
    readCommand chunk = "print(binascii.hexlify(f.read(".toList ++ (Nat.toDigits 10 chunk ++ ")))".toList) :=
  List.append_assoc ..

private theorem matchWrite_writeCommand (piece : Bytes) : matchWrite (writeCommand piece) = some (hex piece) := by
  have hdigits : (hex piece).all isHexDigit = true := List.all_eq_true.2 fun _ hc => hex_digits hc
  rw [matchWrite, writeCommand_append, between_self, Option.filter_some, if_pos hdigits]

private theorem matchRead_readCommand (chunk : Nat) : matchRead (readCommand chunk) = some chunk := by
  have hdigits : (!(Nat.toDigits 10 chunk).isEmpty && (Nat.toDigits 10 chunk).all Char.isDigit) = true := by
    have hnonempty := List.isEmpty_eq_false_iff.2 (@Nat.toDigits_ne_nil chunk 10)
    have hall : (Nat.toDigits 10 chunk).all Char.isDigit = true :=
      List.all_eq_true.2 fun _ hc => Nat.isDigit_of_mem_toDigits (by decide) (by decide) hc
    rw [hnonempty, hall]
    rfl
  rw [matchRead, readCommand_append, between_self, Option.filter_some, if_pos hdigits, Option.map_some,
    Nat.ofDigitChars_ten_toDigits]

/-! ### Execution -/

private theorem ne_import {command : List Char} (h : command.head? = some 'f' ∨ command.head? = some 'p') :
    command ≠ "import binascii".toList := by
  rintro rfl
  revert h
  decide

variable (fs : Fs) (target : PyStr)

theorem exec_import : exec isPrintable fs importCommand = (fs, .done []) := rfl

theorem exec_open_wb :
    exec isPrintable fs (openCommand isPrintable target "wb".toList) =
      ({ fs.store target (some []) with f := some ⟨target, "wb".toList, 0, 0⟩ }, .done []) := by
  have hw : ("wb".toList.contains 'w') = true := rfl
  have hr : ("wb".toList.contains 'r') = false := rfl
  rw [exec, execLine, if_neg (ne_import (.inl rfl)), matchOpen_openCommand isPrintable target (.inr rfl)]
  simp only [literalEval_repr, hw, hr]
  simp [Fs.store]

/-- Opening a file to read it: a missing file is an error, which drops the open file. -/
theorem exec_open_rb :
    exec isPrintable fs (openCommand isPrintable target "rb".toList) =
      match fs.files target with
      | none => ({ fs with f := none }, .failed "FileNotFoundError: [Errno 2] ENOENT".toList)
      | some content => ({ fs with f := some ⟨target, "rb".toList, content.length, 0⟩ }, .done []) := by
  have hw : ("rb".toList.contains 'w') = false := rfl
  have hr : ("rb".toList.contains 'r') = true := rfl
  rw [exec, execLine, if_neg (ne_import (.inl rfl)), matchOpen_openCommand isPrintable target (.inl rfl)]
  simp only [literalEval_repr, hw, hr]
  cases hfile : fs.files target with
  | none => simp
  | some content => simp [hfile]

theorem exec_write (piece : Bytes) :
    exec isPrintable fs (writeCommand piece) =
      match fs.f with
      | none => ({ fs with f := none }, .failed "OSError: [Errno 9] file is not open".toList)
      | some h =>
        ({ fs.store h.path (some (splice ((fs.files h.path).getD []) h.wpos piece)) with
            f := some { h with wpos := h.wpos + piece.length } }, .done []) := by
  rw [exec, execLine, if_neg (ne_import (.inl rfl)), matchOpen_eq_none rfl, matchWrite_writeCommand]
  simp only [fromHex_hex]
  cases fs.f with
  | none => rfl
  | some h => rfl

theorem exec_read (chunk : Nat) :
    exec isPrintable fs (readCommand chunk) =
      match fs.f with
      | none => ({ fs with f := none }, .failed "OSError: [Errno 9] file is not open".toList)
      | some h =>
        let piece := (((fs.files h.path).getD []).drop h.rpos).take chunk
        ({ fs with f := some { h with rpos := h.rpos + piece.length } },
          .done (encode ("b'".toList ++ hex piece ++ "'\r\n".toList))) := by
  have hwrite : matchWrite (readCommand chunk) = none := by
    have hfront : "f.write(binascii.unhexlify('".toList.isPrefixOf (readCommand chunk) = false := rfl
    rw [matchWrite, between_other_front hfront, Option.filter_none]
  rw [exec, execLine, if_neg (ne_import (.inr rfl)), matchOpen_eq_none rfl, hwrite, matchRead_readCommand]
  cases fs.f with
  | none => rfl
  | some h => rfl

theorem exec_close : exec isPrintable fs closeCommand = ({ fs with f := none }, .done []) := rfl

/-! ### The commands of the driver -/

/-- The commands that a transfer of a file sends. -/
inductive Sent (target : PyStr) (chunk : Nat) : List Char → Prop
  | binascii : Sent target chunk importCommand
  | openFile {mode : List Char} (hmode : mode = "rb".toList ∨ mode = "wb".toList) :
      Sent target chunk (openCommand isPrintable target mode)
  | write (piece : Bytes) : Sent target chunk (writeCommand piece)
  | read : Sent target chunk (readCommand chunk)
  | close : Sent target chunk closeCommand

theorem isCommand_append {front mid back : List Char} (hblank : TextLines.isBlank front = false)
    (hfront : isPlain front = true) (hmid : ∀ c ∈ mid, 0x20 ≤ c.toNat) (hback : isPlain back = true) :
    IsCommand (front ++ (mid ++ back)) where
  printable c hc := by
    rcases List.mem_append.1 hc with hc | hc
    · exact printable_of_isPlain hfront hc
    · rcases List.mem_append.1 hc with hc | hc
      · exact hmid c hc
      · exact printable_of_isPlain hback hc
  nonblank := by
    rw [TextLines.isBlank] at hblank ⊢
    rw [List.all_append, hblank, Bool.false_and]

private theorem hex_printable {piece : Bytes} {c : Char} (h : c ∈ hex piece) : 0x20 ≤ c.toNat := by
  have hdigit : ∀ d < 16, 0x20 ≤ (Nat.digitChar d).toNat := by decide
  obtain ⟨d, hd, rfl⟩ := exists_digit_of_mem_hex h
  exact hdigit d hd

theorem digits_of_toDigits {n : Nat} {c : Char} (h : c ∈ Nat.toDigits 10 n) : 0x30 ≤ c.toNat ∧ c.toNat ≤ 0x39 := by
  have hdigit := Nat.isDigit_of_mem_toDigits (by decide) (by decide) h
  simp only [Char.isDigit, Bool.and_eq_true, decide_eq_true_eq] at hdigit
  exact ⟨UInt32.le_iff_toNat_le.1 hdigit.1, UInt32.le_iff_toNat_le.1 hdigit.2⟩

variable {isPrintable target} {chunk : Nat} {command : List Char}

theorem Sent.isCommand (h : Sent isPrintable target chunk command) : IsCommand command := by
  cases h with
  | binascii => exact .of_isPlain (by decide) (by decide)
  | openFile hmode =>
    rw [openCommand_eq]
    refine isCommand_append (by decide) (by decide) (fun _ hc => repr_printable hc) ?_
    rcases hmode with rfl | rfl
    · decide
    · decide
  | write piece =>
    rw [writeCommand_append]
    exact isCommand_append (by decide) (by decide) (fun _ hc => hex_printable hc) (by decide)
  | read =>
    rw [readCommand_append]
    refine isCommand_append (by decide) (by decide) (fun c hc => ?_) (by decide)
    have hdigit := digits_of_toDigits hc
    omega
  | close => exact .of_isPlain (by decide) (by decide)

/-! ### Their answers -/

private theorem encode_hex_length (piece : Bytes) : (encode (hex piece)).length = 2 * piece.length := by
  induction piece with
  | nil => rfl
  | cons b piece ih =>
    have hb := b.toNat_lt
    have hdigit : ∀ d < 16, (String.utf8EncodeChar (Nat.digitChar d)).length = 1 := by decide
    rw [hex_cons, encode_cons, encode_cons, List.length_append, List.length_append, ih, hdigit _ (by omega),
      hdigit _ (by omega), List.length_cons]
    omega

/-- What a read prints. -/
def printedRead (piece : Bytes) : Bytes := encode ("b'".toList ++ hex piece ++ "'\r\n".toList)

private theorem printedRead_eq (piece : Bytes) :
    printedRead piece = encode "b'".toList ++ encode (hex piece) ++ encode "'\r\n".toList := by
  rw [printedRead, encode_append, encode_append]

private theorem printedRead_clean (piece : Bytes) : ctrlD ∉ printedRead piece := by
  have hhex : ctrlD ∉ encode (hex piece) := by
    intro hmem
    obtain ⟨c, hc, hcode⟩ := encode_ascii hmem (by decide)
    have hprint := hex_printable hc
    rw [hcode] at hprint
    revert hprint
    decide
  have hfront : ctrlD ∉ encode "b'".toList := by decide
  have hback : ctrlD ∉ encode "'\r\n".toList := by decide
  rw [printedRead_eq, List.mem_append, List.mem_append]
  exact not_or.2 ⟨not_or.2 ⟨hfront, hhex⟩, hback⟩

private theorem printedRead_length (piece : Bytes) : (printedRead piece).length = 2 * piece.length + 5 := by
  have hfront : (encode "b'".toList).length = 2 := by decide
  have hback : (encode "'\r\n".toList).length = 3 := by decide
  rw [printedRead_eq, List.length_append, List.length_append, encode_hex_length, hfront, hback]
  omega

private theorem clean_done {printed : Bytes} (h : ctrlD ∉ printed) : Clean (.done printed) where
  out := by
    have hmark : ctrlD ∉ okMark := by decide
    simp [Reply.done, hmark, h]
  err := List.not_mem_nil

/-- The answers to the commands of a transfer are clean and short. -/
theorem Sent.answer (h : Sent isPrintable target chunk command) (fs : Fs) :
    Clean (exec isPrintable fs command).2 ∧ (exec isPrintable fs command).2.bytes.length ≤ 2 * chunk + 128 := by
  have hdone : Clean (.done []) ∧ (Reply.done []).bytes.length ≤ 2 * chunk + 128 := by
    have hlen : (Reply.done []).bytes.length = 5 := by decide
    exact ⟨clean_done List.not_mem_nil, by omega⟩
  have hmissing : Clean (.failed "FileNotFoundError: [Errno 2] ENOENT".toList) ∧
      (Reply.failed "FileNotFoundError: [Errno 2] ENOENT".toList).bytes.length ≤ 2 * chunk + 128 := by
    have hlen : (Reply.failed "FileNotFoundError: [Errno 2] ENOENT".toList).bytes.length ≤ 128 := by decide
    exact ⟨⟨by decide, by decide⟩, by omega⟩
  have hclosed : Clean (.failed "OSError: [Errno 9] file is not open".toList) ∧
      (Reply.failed "OSError: [Errno 9] file is not open".toList).bytes.length ≤ 2 * chunk + 128 := by
    have hlen : (Reply.failed "OSError: [Errno 9] file is not open".toList).bytes.length ≤ 128 := by decide
    exact ⟨⟨by decide, by decide⟩, by omega⟩
  cases h with
  | binascii => exact hdone
  | openFile hmode =>
    rcases hmode with rfl | rfl
    · rw [exec_open_rb]
      cases fs.files target with
      | none => exact hmissing
      | some content => exact hdone
    · rw [exec_open_wb]
      exact hdone
  | write piece =>
    rw [exec_write]
    cases fs.f with
    | none => exact hclosed
    | some h => exact hdone
  | read =>
    rw [exec_read]
    cases fs.f with
    | none => exact hclosed
    | some h =>
      refine ⟨clean_done (printedRead_clean _), ?_⟩
      have hlen := printedRead_length ((((fs.files h.path).getD []).drop h.rpos).take chunk)
      have hpiece : ((((fs.files h.path).getD []).drop h.rpos).take chunk).length ≤ chunk := List.length_take_le ..
      have hmark : okMark.length = 2 := by decide
      show (okMark ++ printedRead _ ++ ctrlD :: ([] ++ [ctrlD, prompt])).length ≤ _
      rw [List.length_append, List.length_append, hlen, hmark]
      simp
      omega
  | close => exact hdone

/-! ### What the driver makes of an answer -/

/-- A non-blank error section. -/
def Reply.isError (reply : Reply) : Prop := TextLines.strip (decodeReplace reply.err) ≠ []

instance (reply : Reply) : Decidable reply.isError := inferInstanceAs (Decidable (_ ≠ _))

theorem answer_of_isError {reply : Reply} (h : reply.isError) (out : Bytes) :
    ∃ text, MpRepl.answer out reply.err = .error (.mpReplError text) := by
  rw [MpRepl.answer, if_neg h]
  exact ⟨_, rfl⟩

theorem answer_of_not_isError {reply : Reply} (h : ¬ reply.isError) (out : Bytes) :
    MpRepl.answer out reply.err = .ok (decodeReplace (if okMark.isPrefixOf out then out.drop 2 else out)) := by
  rw [MpRepl.answer, if_pos (not_not.1 h)]

theorem answer_done (printed : List Char) : MpRepl.answer (okMark ++ encode printed) [] = .ok printed := by
  have hblank : TextLines.strip (decodeReplace []) = [] := rfl
  have hmark : okMark.isPrefixOf (okMark ++ encode printed) = true :=
    List.isPrefixOf_iff_prefix.2 (List.prefix_append ..)
  have hdrop : (okMark ++ encode printed).drop 2 = encode printed := rfl
  rw [MpRepl.answer, if_pos hblank, hmark, if_pos rfl, hdrop, decodeReplace_encode]

private theorem strip_printed (digits : List Char) :
    TextLines.strip ("b'".toList ++ digits ++ "'\r\n".toList) = 'b' :: '\x27' :: (digits ++ ['\x27']) := by
  have htext : "b'".toList ++ digits ++ "'\r\n".toList = ('b' :: '\x27' :: digits) ++ ['\x27'] ++ ['\r'] ++ ['\n'] := by
    simp
  have hfront : (('b' :: '\x27' :: digits) ++ ['\x27'] ++ ['\r'] ++ ['\n']).dropWhile TextLines.isSpace =
      ('b' :: '\x27' :: digits) ++ ['\x27'] ++ ['\r'] ++ ['\n'] :=
    List.dropWhile_cons_of_neg (by decide)
  rw [TextLines.strip, htext, hfront, List.rdropWhile_concat_pos _ _ _ (by decide),
    List.rdropWhile_concat_pos _ _ _ (by decide), List.rdropWhile_concat_neg _ _ _ (by decide)]
  rfl

/-- The driver reads back what a read printed; an empty read ends the file. -/
theorem parseRead_printed (piece : Bytes) :
    parseRead isPrintable ("b'".toList ++ hex piece ++ "'\r\n".toList) =
      .ok (if piece = [] then none else some piece) := by
  rw [parseRead, strip_printed]
  cases piece with
  | nil => rfl
  | cons b piece =>
    have hquoted : ¬ ('b' :: '\x27' :: (hex (b :: piece) ++ ['\x27']) = [] ∨
        'b' :: '\x27' :: (hex (b :: piece) ++ ['\x27']) = "b''".toList) := by
      simp [hex_cons]
    have hfront : "b'".toList.isPrefixOf ('b' :: '\x27' :: (hex (b :: piece) ++ ['\x27'])) = true := rfl
    have hback : "'".toList.isSuffixOf ('b' :: '\x27' :: (hex (b :: piece) ++ ['\x27'])) = true :=
      List.isSuffixOf_iff_suffix.2 (List.suffix_append ('b' :: '\x27' :: hex (b :: piece)) _)
    have hmid : (('b' :: '\x27' :: (hex (b :: piece) ++ ['\x27'])).drop 2).dropLast = hex (b :: piece) :=
      List.dropLast_concat
    simp only [if_neg hquoted, hfront, hback, hmid, fromHex_hex]
    rfl

end IronHarness.Board
