import IronHarness.Lib.Utf8Stream

/-!
# A text over telnet

The filter of a telnet stream: the commands behind the byte 255 are taken out, the bytes that are left are decoded as
they arrive.  A command or a character that is cut off waits for its rest, so the text of a stream does not depend on
how the stream is cut (`feedAll_eq`).
-/

namespace Telnet

open ByteText

/-- What is left of a stream, the bytes of a command that is cut off, and where the filter is: behind a 255, and within
a subnegotiation. -/
structure Stripped where
  out : Bytes
  rest : Bytes
  iac : Bool
  sub : Bool

def Stripped.keep (b : UInt8) (s : Stripped) : Stripped := { s with out := b :: s.out }

def strip : Bool → Bool → Bytes → Stripped
  | iac, sub, [] => ⟨[], [], iac, sub⟩
  | iac, true, b :: r =>
    if b = 0xFF then
      match r with
      | [] => ⟨[], [b], iac, true⟩
      | c :: r' => strip iac (c != 0xF0) r'
    else strip iac true r
  | true, false, b :: r =>
    if b = 0xFB ∨ b = 0xFC ∨ b = 0xFD ∨ b = 0xFE then
      match r with
      | [] => ⟨[], [b], true, false⟩
      | _ :: r' => strip false false r'
    else if b = 0xFA then strip false true r
    else if b = 0xFF then (strip false false r).keep 0xFF
    else strip false false r
  | false, false, b :: r => if b = 0xFF then strip true false r else (strip false false r).keep b

section

variable {iac : Bool} {b c : UInt8} {r : Bytes}

theorem strip_sub (h : b ≠ 0xFF) : strip iac true (b :: r) = strip iac true r := by
  rw [strip.eq_def]
  simp [h]

theorem strip_sub_iac : strip iac true (0xFF :: c :: r) = strip iac (c != 0xF0) r := by
  rw [strip.eq_def]
  simp

theorem strip_option (h : b = 0xFB ∨ b = 0xFC ∨ b = 0xFD ∨ b = 0xFE) :
    strip true false (b :: c :: r) = strip false false r := by
  rw [strip.eq_def]
  simp [h]

theorem strip_command (h : ¬ (b = 0xFB ∨ b = 0xFC ∨ b = 0xFD ∨ b = 0xFE)) :
    strip true false (b :: r) =
      if b = 0xFA then strip false true r
      else if b = 0xFF then (strip false false r).keep 0xFF
      else strip false false r := by
  rw [strip.eq_def]
  simp only [if_neg h]

theorem strip_data :
    strip false false (b :: r) = if b = 0xFF then strip true false r else (strip false false r).keep b := by
  rw [strip.eq_def]

end

/-- A filter that has stopped within `s` and gets more bytes. -/
def Stripped.more (s : Stripped) (b : Bytes) : Stripped :=
  { strip s.iac s.sub (s.rest ++ b) with out := s.out ++ (strip s.iac s.sub (s.rest ++ b)).out }

private theorem Stripped.more_keep (x : UInt8) (s : Stripped) (b : Bytes) : (s.keep x).more b = (s.more b).keep x := rfl

/-- The filter goes on with the bytes it has kept. -/
theorem strip_append (iac sub : Bool) (a b : Bytes) : strip iac sub (a ++ b) = (strip iac sub a).more b := by
  fun_induction strip iac sub a with
  | case1 iac sub => rfl
  | case2 iac => rfl
  | case3 iac c r ih => rw [List.cons_append, List.cons_append, strip_sub_iac, ih]
  | case4 iac x r hx ih => rw [List.cons_append, strip_sub hx, ih]
  | case5 x hx => rfl
  | case6 x hx c r ih => rw [List.cons_append, List.cons_append, strip_option hx, ih]
  | case7 r hx ih => rw [List.cons_append, strip_command hx, if_pos rfl, ih]
  | case8 r hx hx' ih => rw [List.cons_append, strip_command hx, if_neg hx', if_pos rfl, ih, Stripped.more_keep]
  | case9 x r h1 h2 h3 ih => rw [List.cons_append, strip_command h1, if_neg h2, if_neg h3, ih]
  | case10 r ih => rw [List.cons_append, strip_data, if_pos rfl, ih]
  | case11 x r hx ih => rw [List.cons_append, strip_data, if_neg hx, ih, Stripped.more_keep]

/-! ### The filter -/

/-- `buf` is what waits for the rest of a command, `dec` what the decoder holds back. -/
structure Filter where
  buf : Bytes
  iac : Bool
  sub : Bool
  dec : Bytes
  deriving DecidableEq

def newFilter : Filter := ⟨[], false, false, []⟩

def Filter.feed (f : Filter) (data : Bytes) : List Char × Filter :=
  let s := strip f.iac f.sub (f.buf ++ data)
  let text := ByteText.feed (f.dec ++ s.out)
  (text.1, ⟨s.rest, s.iac, s.sub, text.2⟩)

theorem Filter.feed_append (f : Filter) (a b : Bytes) :
    f.feed (a ++ b) = ((f.feed a).1 ++ ((f.feed a).2.feed b).1, ((f.feed a).2.feed b).2) := by
  unfold Filter.feed
  rw [← List.append_assoc, strip_append]
  simp only [Stripped.more]
  rw [← List.append_assoc, ByteText.feed_append]

/-- The text of data that arrives in pieces. -/
def Filter.feedAll (f : Filter) : List Bytes → List Char × Filter
  | [] => ([], f)
  | data :: rest => ((f.feed data).1 ++ ((f.feed data).2.feedAll rest).1, ((f.feed data).2.feedAll rest).2)

theorem Filter.feedAll_append (f : Filter) (a b : List Bytes) :
    f.feedAll (a ++ b) = ((f.feedAll a).1 ++ ((f.feedAll a).2.feedAll b).1, ((f.feedAll a).2.feedAll b).2) := by
  induction a generalizing f with
  | nil => simp [feedAll]
  | cons data a ih => simp [feedAll, ih]

theorem Filter.feedAll_cons (f : Filter) (data : Bytes) (rest : List Bytes) :
    f.feedAll (data :: rest) = f.feed (data ++ rest.flatten) := by
  induction rest generalizing f data with
  | nil => simp [feedAll]
  | cons next rest ih => rw [feedAll, ih, List.flatten_cons, feed_append f data]

/-- However the data is cut, the text is the same, and so is the filter behind it. -/
theorem Filter.feedAll_eq (f : Filter) {a b : List Bytes} (ha : [] ∉ a) (hb : [] ∉ b) (h : a.flatten = b.flatten) :
    f.feedAll a = f.feedAll b := by
  cases a with
  | nil =>
    cases b with
    | nil => rfl
    | cons data b =>
      have hnil : data = [] := by simp_all
      exact absurd (hnil ▸ List.mem_cons_self) hb
  | cons data a =>
    cases b with
    | nil =>
      have hnil : data = [] := by simp_all
      exact absurd (hnil ▸ List.mem_cons_self) ha
    | cons data' b => rw [feedAll_cons, feedAll_cons, ← List.flatten_cons, h, List.flatten_cons]

end Telnet
