import IronHarness.Lib.Telnet

/-!
# The telnet filter of the Renode runner

`_TelnetFilter` (ironbench/runner_renode.py): the terminal of the emulator is a telnet server, which escapes the byte
255 of the data and puts commands between the bytes.  The loop over the buffer is the strip of the library
(`telnetLoop_eq`).  Whatever commands are put into a data stream, and however it is cut, the text is that of the data
(`telnet_transparent`).
-/

namespace IronHarness.Runner

open ByteText

/-! ### The source -/

/-- `_TelnetFilter`; `dec` is what the incremental decoder holds back. -/
structure TelnetFilter where
  buf : Bytes
  iac : Bool
  sub : Bool
  dec : Bytes
  deriving DecidableEq

def newTelnetFilter : TelnetFilter := ⟨[], false, false, []⟩

/-- The loop of `feed`: the bytes from `i` on, the flags and what was put out.  It stops where a command is cut off. -/
def telnetLoop : (iac sub : Bool) → (out : Bytes) → Bytes → Bytes × Bool × Bool × Bytes
  | iac, sub, out, [] => (out, iac, sub, [])
  | iac, true, out, b :: rest =>
    if b = 0xFF then
      match rest with
      | [] => (out, iac, true, [b])
      -- IAC SE ends the subnegotiation, anything else behind the IAC is skipped
      | c :: rest => telnetLoop iac (if c = 0xF0 then false else true) out rest
    else telnetLoop iac true out rest
  | true, false, out, b :: rest =>
    -- WILL, WONT, DO and DONT come with an option
    if b = 0xFB ∨ b = 0xFC ∨ b = 0xFD ∨ b = 0xFE then
      match rest with
      | [] => (out, true, false, [b])
      | _ :: rest => telnetLoop false false out rest
    else if b = 0xFA then telnetLoop false true out rest
    else if b = 0xFF then telnetLoop false false (out ++ [0xFF]) rest
    else telnetLoop false false out rest
  | false, false, out, b :: rest =>
    if b = 0xFF then telnetLoop true false out rest else telnetLoop false false (out ++ [b]) rest

def TelnetFilter.feed (f : TelnetFilter) (data : Bytes) : List Char × TelnetFilter :=
  let (out, iac, sub, buf) := telnetLoop f.iac f.sub [] (f.buf ++ data)
  let text := ByteText.feed (f.dec ++ out)
  (text.1, ⟨buf, iac, sub, text.2⟩)

/-- The texts of one `feed` after the other. -/
def TelnetFilter.feedAll (f : TelnetFilter) : List Bytes → List Char × TelnetFilter
  | [] => ([], f)
  | data :: chunks =>
    let now := f.feed data
    let later := now.2.feedAll chunks
    (now.1 ++ later.1, later.2)

/-! ### The loop and the strip -/

private theorem telnetLoop_eq (iac sub : Bool) (out bytes : Bytes) :
    telnetLoop iac sub out bytes =
      let s := Telnet.strip iac sub bytes
      (out ++ s.out, s.iac, s.sub, s.rest) := by
  fun_induction telnetLoop iac sub out bytes with
  | case1 iac sub out => simp [Telnet.strip]
  | case2 iac out => simp [Telnet.strip]
  | case3 iac out c rest ih =>
    have hsub : (if c = 0xF0 then false else true) = (c != 0xF0) := by
      by_cases hc : c = 0xF0 <;> simp [hc]
    rw [ih, Telnet.strip_sub_iac, hsub]
  | case4 iac out b rest hb ih => rw [ih, Telnet.strip_sub hb]
  | case5 out b hb => rcases hb with rfl | rfl | rfl | rfl <;> simp [Telnet.strip]
  | case6 out b hb option rest ih => rw [ih, Telnet.strip_option hb]
  | case7 out rest hb ih => rw [ih, Telnet.strip_command hb, if_pos rfl]
  | case8 out rest hb hsb ih =>
    rw [ih, Telnet.strip_command hb, if_neg hsb, if_pos rfl]
    simp [Telnet.Stripped.keep]
  | case9 out b rest hb hsb hff ih => rw [ih, Telnet.strip_command hb, if_neg hsb, if_neg hff]
  | case10 out rest ih => rw [ih, Telnet.strip_data, if_pos rfl]
  | case11 out b rest hb ih =>
    rw [ih, Telnet.strip_data, if_neg hb]
    simp [Telnet.Stripped.keep]

/-- The filter as the library has it. -/
def TelnetFilter.toFilter (f : TelnetFilter) : Telnet.Filter := ⟨f.buf, f.iac, f.sub, f.dec⟩

private theorem feed_toFilter (f : TelnetFilter) (data : Bytes) :
    f.toFilter.feed data = ((f.feed data).1, (f.feed data).2.toFilter) := by
  simp [TelnetFilter.feed, TelnetFilter.toFilter, Telnet.Filter.feed, telnetLoop_eq]

private theorem feedAll_toFilter (f : TelnetFilter) (chunks : List Bytes) :
    f.toFilter.feedAll chunks = ((f.feedAll chunks).1, (f.feedAll chunks).2.toFilter) := by
  induction chunks generalizing f with
  | nil => rfl
  | cons data chunks ih =>
    rw [Telnet.Filter.feedAll, feed_toFilter]
    simp only [ih]
    rfl

/-! ### Streams with commands -/

/-- A data byte on the wire. -/
def escape (b : UInt8) : Bytes := if b = 0xFF then [0xFF, 0xFF] else [b]

/-- A telnet command on the wire. -/
inductive Command : Bytes → Prop
  | option {verb : UInt8} (opt : UInt8) (h : verb = 0xFB ∨ verb = 0xFC ∨ verb = 0xFD ∨ verb = 0xFE) :
      Command [0xFF, verb, opt]
  | sub (content : Bytes) : Command (0xFF :: 0xFA :: content.flatMap escape ++ [0xFF, 0xF0])
  | plain {c : UInt8} (h : ¬ (c = 0xFB ∨ c = 0xFC ∨ c = 0xFD ∨ c = 0xFE)) (hsb : c ≠ 0xFA) (hff : c ≠ 0xFF) :
      Command [0xFF, c]

/-- The stream is the escaped data with commands between the bytes. -/
inductive Carries : (stream data : Bytes) → Prop
  | nil : Carries [] []
  | byte (b : UInt8) {stream data : Bytes} (h : Carries stream data) : Carries (escape b ++ stream) (b :: data)
  | command {cmd stream data : Bytes} (hcmd : Command cmd) (h : Carries stream data) : Carries (cmd ++ stream) data

private theorem strip_escape (b : UInt8) (r : Bytes) :
    Telnet.strip false false (escape b ++ r) = (Telnet.strip false false r).keep b := by
  by_cases hb : b = 0xFF
  · subst hb
    show Telnet.strip false false (0xFF :: 0xFF :: r) = _
    rw [Telnet.strip_data, if_pos rfl, Telnet.strip_command (by decide), if_neg (by decide), if_pos rfl]
  · rw [escape, if_neg hb, List.singleton_append, Telnet.strip_data, if_neg hb]

/-- The content of a subnegotiation is skipped. -/
private theorem strip_content (content r : Bytes) :
    Telnet.strip false true (content.flatMap escape ++ r) = Telnet.strip false true r := by
  induction content with
  | nil => rfl
  | cons b content ih =>
    rw [List.flatMap_cons, List.append_assoc]
    by_cases hb : b = 0xFF
    · -- a doubled 0xFF does not end the subnegotiation
      subst hb
      show Telnet.strip false true (0xFF :: 0xFF :: _) = _
      rw [Telnet.strip_sub_iac]
      exact ih
    · rw [escape, if_neg hb, List.singleton_append, Telnet.strip_sub hb, ih]

private theorem strip_of_command {cmd : Bytes} (h : Command cmd) (r : Bytes) :
    Telnet.strip false false (cmd ++ r) = Telnet.strip false false r := by
  cases h with
  | option opt hverb =>
    simp only [List.cons_append, List.nil_append]
    rw [Telnet.strip_data, if_pos rfl, Telnet.strip_option hverb]
  | sub content =>
    simp only [List.cons_append, List.append_assoc, List.nil_append]
    rw [Telnet.strip_data, if_pos rfl, Telnet.strip_command (by decide), if_pos rfl, strip_content,
      Telnet.strip_sub_iac]
    rfl
  | plain hverb hsb hff =>
    simp only [List.cons_append, List.nil_append]
    rw [Telnet.strip_data, if_pos rfl, Telnet.strip_command hverb, if_neg hsb, if_neg hff]

/-- Behind a whole stream the filter has put out the data and waits for nothing. -/
private theorem strip_of_carries {stream data : Bytes} (h : Carries stream data) :
    Telnet.strip false false stream = ⟨data, [], false, false⟩ := by
  induction h with
  | nil => rfl
  | byte b _ ih =>
    rw [strip_escape, ih]
    rfl
  | command hcmd _ ih => rw [strip_of_command hcmd, ih]

private theorem feedAll_new (chunks : List Bytes) :
    newTelnetFilter.toFilter.feedAll chunks = newTelnetFilter.toFilter.feed chunks.flatten := by
  cases chunks with
  | nil => rfl
  | cons data chunks => rw [Telnet.Filter.feedAll_cons, List.flatten_cons]

/-- The text of a stream with commands, in any pieces, is that of its data, in any pieces; what is held back at the
end is nothing or the front of a character that is cut off. -/
theorem telnet_transparent {stream data : Bytes} (h : Carries stream data) {chunks pieces : List Bytes}
    (hchunks : chunks.flatten = stream) (hpieces : pieces.flatten = data) :
    ∃ text held, newTelnetFilter.feedAll chunks = (text, ⟨[], false, false, held⟩) ∧
      ByteText.feedAll [] pieces = (text, held) ∧ decodeReplace data = text ++ decodeReplace held ∧
      Residue held := by
  have hstrip := strip_of_carries h
  -- the pieces do not matter, and the whole stream leaves the data
  have hfeed : newTelnetFilter.toFilter.feedAll chunks =
      ((ByteText.feed data).1, ⟨[], false, false, (ByteText.feed data).2⟩) := by
    rw [feedAll_new, hchunks]
    simp [newTelnetFilter, TelnetFilter.toFilter, Telnet.Filter.feed, hstrip]
  rw [feedAll_toFilter, Prod.mk.injEq] at hfeed
  obtain ⟨htext, hstate⟩ := hfeed
  refine ⟨(ByteText.feed data).1, (ByteText.feed data).2, ?_, ?_, decodeReplace_feed data, feed_residue data⟩
  · refine Prod.ext htext ?_
    -- the two records have the same fields
    generalize (newTelnetFilter.feedAll chunks).2 = f at hstate
    cases f
    simpa [TelnetFilter.toFilter] using hstate
  · rw [ByteText.feedAll_eq, hpieces]

/-- A degree sign, cut within the character by a command and by the pieces. -/
theorem telnet_transparent_degree :
    ∃ text held, newTelnetFilter.feedAll [[0xC2, 0xFF], [0xFD], [0x01, 0xB0]] = (text, ⟨[], false, false, held⟩) ∧
      ByteText.feedAll [] [[0xC2, 0xB0]] = (text, held) ∧ decodeReplace [0xC2, 0xB0] = text ++ decodeReplace held ∧
      Residue held := by
  have hcarries : Carries [0xC2, 0xFF, 0xFD, 0x01, 0xB0] [0xC2, 0xB0] :=
    .byte 0xC2 (.command (.option 0x01 (by decide)) (.byte 0xB0 .nil))
  exact telnet_transparent hcarries rfl rfl

end IronHarness.Runner
