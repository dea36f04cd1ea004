import IronHarness.Lib.Bytes
import Mathlib.Data.Rat.Defs
import Mathlib.Algebra.Order.Field.Rat

/-!
# The monitor window

`serial_monitor` reads a port until the first of four stop conditions (`monitorWindow`).  The port has a stream of
bytes to deliver and gives a read at most what was asked for; everything else that the loop meets, the readings of the
clock included, is a `Turn`.  The stop pattern is looked for in the new bytes and the `needle.length - 1` bytes before
them, which finds it as soon as it is in the capture (`capture_exact`).
-/

namespace IronHarness.Monitor

open ByteText

/-! ### The arguments of `serial_monitor` -/

/-- The arguments that `serial_monitor` accepts. -/
structure Request where
  maxBytes : Nat
  maxSeconds : ℚ
  quietSeconds : Option ℚ
  stopPattern : Option String
  bytes_mem : 1 ≤ maxBytes ∧ maxBytes ≤ 1048576
  seconds_mem : 0 < maxSeconds ∧ maxSeconds ≤ 3600
  quiet_mem : ∀ quiet ∈ quietSeconds, 0 < quiet ∧ quiet ≤ 3600
  pattern_ne : ∀ pattern ∈ stopPattern, pattern ≠ ""

/-- The reasons of `monitor_refused` for an argument. -/
inductive Refusal
  | outOfBounds (arg : String)
  | emptyPattern
  | emptyDumpPath
  deriving DecidableEq

/-- The checks at the head of `serial_monitor`. -/
def accept (maxBytes : Int) (maxSeconds : ℚ) (quietSeconds : Option ℚ) (stopPattern dumpPath : Option String) :
    Except Refusal Request :=
  if hbytes : 1 ≤ maxBytes ∧ maxBytes ≤ 1048576 then
    if hseconds : 0 < maxSeconds ∧ maxSeconds ≤ 3600 then
      if hquiet : ∀ quiet ∈ quietSeconds, 0 < quiet ∧ quiet ≤ 3600 then
        if hpattern : ∀ pattern ∈ stopPattern, pattern ≠ "" then
          if dumpPath = some "" then .error .emptyDumpPath
          else .ok ⟨maxBytes.toNat, maxSeconds, quietSeconds, stopPattern, by omega, hseconds, hquiet, hpattern⟩
        else .error .emptyPattern
      else .error (.outOfBounds "quiet_seconds")
    else .error (.outOfBounds "max_seconds")
  else .error (.outOfBounds "max_bytes")

theorem accept_request (r : Request) :
    accept r.maxBytes r.maxSeconds r.quietSeconds r.stopPattern none = .ok r := by
  have hbytes : 1 ≤ (r.maxBytes : Int) ∧ (r.maxBytes : Int) ≤ 1048576 := by
    have := r.bytes_mem
    omega
  simp only [accept, hbytes, r.seconds_mem, and_self, reduceDIte, dif_pos r.quiet_mem, dif_pos r.pattern_ne,
    reduceCtorEq, reduceIte, Int.toNat_natCast]

/-- `needle`. -/
def Request.needle (r : Request) : Option Bytes := r.stopPattern.map fun pattern => encode pattern.toList

private theorem Request.needle_ne_nil (r : Request) {needle : Bytes} (h : r.needle = some needle) : needle ≠ [] := by
  obtain ⟨pattern, hpattern, rfl⟩ := Option.map_eq_some_iff.1 h
  intro hnil
  apply r.pattern_ne pattern hpattern
  exact String.toList_eq_nil_iff.1 (encode_eq_nil.1 hnil)

/-! ### The connection -/

/-- What ends the loop with an exception. -/
inductive Fault
  | operationTimeout
  | transportClosed
  | port (error : String)
  deriving DecidableEq

/-- A `DeadlineTransport`: the idle seconds that it allows, and when the last operation succeeded. -/
structure DeadlineTransport where
  seconds : ℚ
  started : Option ℚ
  deriving DecidableEq

/-- `_check` at a reading of the clock; `round` is the rounding of a sum or a difference to a float, here and below. -/
def DeadlineTransport.check (round : ℚ → ℚ) (d : DeadlineTransport) (now : ℚ) : Except Fault Unit :=
  match d.started with
  | none => .error .transportClosed
  | some started => if d.seconds < round (now - started) then .error .operationTimeout else .ok ()

/-- One turn of the loop as the outside decides it. -/
structure Turn where
  /-- `now` at the head of the turn -/
  now : ℚ
  /-- `in_waiting`; `none` where the port has no such attribute, or raises -/
  waiting : Option Nat
  /-- the clock of `_check` -/
  checked : ℚ
  /-- how many bytes the port has for a read, or what the read raises -/
  reply : Except String Nat
  /-- the clock of `_started` after the read -/
  finished : ℚ
  /-- `last_data` after the read -/
  stamp : ℚ
  deriving DecidableEq

/-- The first `n` bytes that the device sends. -/
def sent (device : Nat → UInt8) (n : Nat) : Bytes := (List.range n).map device

private theorem sent_add (device : Nat → UInt8) (n m : Nat) :
    sent device (n + m) = sent device n ++ (List.range' n m).map device := by
  rw [sent, sent, ← List.map_append, List.range_eq_range', List.range_eq_range', ← List.range'_append_1, Nat.zero_add]

@[simp] theorem length_sent (device : Nat → UInt8) (n : Nat) : (sent device n).length = n := by
  simp [sent]

/-- The connection as the loop has it: how much of the stream was handed over, and the wrapper (without a deadline
there is none). -/
structure Port where
  delivered : Nat
  wrapper : Option DeadlineTransport
  deriving DecidableEq

/-- `forwarded`, the check before an operation. -/
def Port.check (round : ℚ → ℚ) (p : Port) (now : ℚ) : Except Fault Unit :=
  match p.wrapper with
  | none => .ok ()
  | some d => d.check round now

/-- `t.read(size)`: at most `size` bytes, the next ones of the stream.  Only a read that succeeds moves the window of
the wrapper. -/
def Port.read (round : ℚ → ℚ) (p : Port) (device : Nat → UInt8) (t : Turn) (size : Nat) : Except Fault (Bytes × Port) :=
  match p.check round t.checked with
  | .error fault => .error fault
  | .ok () =>
    match t.reply with
    | .error error => .error (.port error)
    | .ok available =>
      .ok ((List.range' p.delivered (min size available)).map device,
        ⟨p.delivered + min size available, p.wrapper.map fun d => { d with started := some t.finished }⟩)

/-! ### The loop -/

inductive StopReason
  | maxBytes
  | maxSeconds
  | quiet
  | pattern
  deriving DecidableEq

/-- The locals of `_monitor_window` and the port.  `reads` is none of them: what the reads returned, in order. -/
structure Window where
  buf : Bytes
  lastData : ℚ
  port : Port
  reads : List Bytes
  deriving DecidableEq

inductive Progress
  | running (w : Window)
  | returned (reason : StopReason) (w : Window)
  | raised (fault : Fault)
  deriving DecidableEq

def chunkSize : Nat := 4096

/-- `text.find(needle, start) >= 0`. -/
def foundFrom (needle : Bytes) (start : Nat) (text : Bytes) : Bool := (find needle (text.drop start)).isSome

/-- What a read asks for; `none` is the sleep of an idle poll. -/
def readSize (remaining : Nat) : (waiting : Option Nat) → Option Nat
  | some 0 => none
  | some (k + 1) => some (min (min (k + 1) remaining) chunkSize)
  | none => some (min chunkSize remaining)

/-- The branch `if chunk`. -/
def Window.take (w : Window) (r : Request) (stamp : ℚ) (chunk : Bytes) (port : Port) : Progress :=
  let read := { w with port := port, reads := w.reads ++ [chunk] }
  if chunk.isEmpty then .running read
  else
    let grown := { read with buf := w.buf ++ chunk, lastData := stamp }
    match r.needle with
    | none => .running grown
    | some needle =>
      -- Python's `max(0, prev_len - len(needle) + 1)`
      if foundFrom needle (w.buf.length + 1 - needle.length) grown.buf then .returned .pattern grown
      else .running grown

def Request.isQuiet (r : Request) (silence : ℚ) : Bool := r.quietSeconds.any fun quiet => decide (quiet ≤ silence)

/-- One turn of `while True`. -/
def Window.turn (round : ℚ → ℚ) (w : Window) (r : Request) (device : Nat → UInt8) (start : ℚ) (t : Turn) : Progress :=
  if r.maxBytes - w.buf.length = 0 then .returned .maxBytes w
  else if round (start + r.maxSeconds) ≤ t.now then .returned .maxSeconds w
  else if r.isQuiet (round (t.now - w.lastData)) then .returned .quiet w
  else
    match readSize (r.maxBytes - w.buf.length) t.waiting with
    | none => .running w
    | some size =>
      match w.port.read round device t size with
      | .error fault => .raised fault
      | .ok (chunk, port) => w.take r t.stamp chunk port

/-- Where `_monitor_window` is after some turns. -/
def monitorWindow (round : ℚ → ℚ) (r : Request) (device : Nat → UInt8) (start : ℚ) (wrapper : Option DeadlineTransport)
    (turns : Nat → Turn) : Nat → Progress
  | 0 => .running ⟨[], start, ⟨0, wrapper⟩, []⟩
  | n + 1 =>
    match monitorWindow round r device start wrapper turns n with
    | .running w => w.turn round r device start (turns n)
    | ended => ended

/-- What `_monitor_window` returns. -/
structure Capture where
  buf : Bytes
  bytes : Nat
  stopReason : StopReason
  truncated : Bool
  dataHex : List Char
  text : List Char
  deriving DecidableEq

def Window.capture (w : Window) (reason : StopReason) : Capture :=
  ⟨w.buf, w.buf.length, reason, reason = .maxBytes, hex w.buf, decodeReplace w.buf⟩

/-! ### One turn -/

section Turn

variable {round : ℚ → ℚ} {r : Request} {device : Nat → UInt8} {start : ℚ} {w w' : Window} {t : Turn}
  {reason : StopReason}

/-- What a read that succeeds hands over. -/
private theorem Port.read_eq_ok {p p' : Port} {size : Nat} {chunk : Bytes}
    (h : p.read round device t size = .ok (chunk, p')) :
    ∃ available, t.reply = .ok available ∧ p.check round t.checked = .ok () ∧
      chunk = (List.range' p.delivered (min size available)).map device ∧
      p' = ⟨p.delivered + min size available, p.wrapper.map fun d => { d with started := some t.finished }⟩ := by
  unfold Port.read at h
  split at h
  · cases h
  · rename_i hcheck
    split at h
    · cases h
    · rename_i available hreply
      obtain ⟨rfl, rfl⟩ := Prod.mk.inj (Except.ok.inj h)
      exact ⟨available, hreply, hcheck, rfl, rfl⟩

private theorem readSize_le {remaining size : Nat} {waiting : Option Nat} (h : readSize remaining waiting = some size) :
    size ≤ remaining := by
  unfold readSize at h
  split at h
  · cases h
  · obtain rfl := Option.some.inj h
    omega
  · obtain rfl := Option.some.inj h
    omega

theorem readSize_pos {remaining size : Nat} {waiting : Option Nat} (h : readSize remaining waiting = some size)
    (hremaining : 0 < remaining) : 0 < size := by
  unfold readSize chunkSize at h
  split at h
  · cases h
  · obtain rfl := Option.some.inj h
    omega
  · obtain rfl := Option.some.inj h
    omega

/-- Everything a turn can do. -/
theorem Window.turn_cases (round : ℚ → ℚ) (w : Window) (r : Request) (device : Nat → UInt8) (start : ℚ) (t : Turn) :
    (r.maxBytes ≤ w.buf.length ∧ w.turn round r device start t = .returned .maxBytes w) ∨
    (w.buf.length < r.maxBytes ∧ round (start + r.maxSeconds) ≤ t.now ∧
      w.turn round r device start t = .returned .maxSeconds w) ∨
    (w.buf.length < r.maxBytes ∧ t.now < round (start + r.maxSeconds) ∧
      r.isQuiet (round (t.now - w.lastData)) = true ∧ w.turn round r device start t = .returned .quiet w) ∨
    (w.buf.length < r.maxBytes ∧ t.now < round (start + r.maxSeconds) ∧
      r.isQuiet (round (t.now - w.lastData)) = false ∧ ((t.waiting = some 0 ∧ w.turn round r device start t = .running w) ∨
        ∃ size, readSize (r.maxBytes - w.buf.length) t.waiting = some size ∧
          ((∃ fault, w.port.read round device t size = .error fault ∧ w.turn round r device start t = .raised fault) ∨
            ∃ chunk port, w.port.read round device t size = .ok (chunk, port) ∧
              w.turn round r device start t = w.take r t.stamp chunk port))) := by
  unfold Window.turn
  by_cases hbytes : r.maxBytes - w.buf.length = 0
  · left
    exact ⟨by omega, if_pos hbytes⟩
  rw [if_neg hbytes]
  have hlt : w.buf.length < r.maxBytes := by omega
  by_cases hseconds : round (start + r.maxSeconds) ≤ t.now
  · right; left
    exact ⟨hlt, hseconds, if_pos hseconds⟩
  rw [if_neg hseconds]
  have hnow := lt_of_not_ge hseconds
  right; right
  by_cases hquiet : r.isQuiet (round (t.now - w.lastData)) = true
  · left
    exact ⟨hlt, hnow, hquiet, if_pos hquiet⟩
  rw [if_neg hquiet]
  right
  refine ⟨hlt, hnow, by simpa using hquiet, ?_⟩
  cases hsize : readSize (r.maxBytes - w.buf.length) t.waiting with
  | none =>
    left
    refine ⟨?_, rfl⟩
    unfold readSize at hsize
    split at hsize
    · assumption
    · cases hsize
    · cases hsize
  | some size =>
    right
    refine ⟨size, rfl, ?_⟩
    match hread : w.port.read round device t size with
    | .error fault => exact .inl ⟨fault, rfl, by simp only [hread]⟩
    | .ok (chunk, port) => exact .inr ⟨chunk, port, rfl, by simp only [hread]⟩

/-- Everything that a read can do to the window. -/
theorem Window.take_cases (w : Window) (r : Request) (stamp : ℚ) (chunk : Bytes) (port : Port) :
    (chunk = [] ∧ w.take r stamp chunk port = .running { w with port := port, reads := w.reads ++ [chunk] }) ∨
    ∃ grown : Window, grown = ⟨w.buf ++ chunk, stamp, port, w.reads ++ [chunk]⟩ ∧ chunk ≠ [] ∧
      ((∃ needle, r.needle = some needle ∧
          foundFrom needle (w.buf.length + 1 - needle.length) grown.buf = true ∧
          w.take r stamp chunk port = .returned .pattern grown) ∨
        (∀ needle, r.needle = some needle →
            foundFrom needle (w.buf.length + 1 - needle.length) grown.buf = false) ∧
          w.take r stamp chunk port = .running grown) := by
  unfold Window.take
  cases chunk with
  | nil => exact .inl ⟨rfl, rfl⟩
  | cons b bs =>
    right
    refine ⟨_, rfl, List.cons_ne_nil b bs, ?_⟩
    dsimp only [List.isEmpty_cons]
    rw [if_neg Bool.false_ne_true]
    cases hneedle : r.needle with
    | none => exact .inr ⟨by simp, rfl⟩
    | some needle =>
      dsimp only
      by_cases hfound : foundFrom needle (w.buf.length + 1 - needle.length) (w.buf ++ b :: bs) = true
      · exact .inl ⟨needle, rfl, hfound, if_pos hfound⟩
      · refine .inr ⟨?_, if_neg hfound⟩
        intro other hother
        obtain rfl := Option.some.inj hother
        simpa using hfound

end Turn

/-! ### The capture -/

/-- The window while the loop goes on: the capture is what the reads returned, which is what the device sent first,
and the pattern is not in it. -/
structure Window.Sound (w : Window) (r : Request) (device : Nat → UInt8) : Prop where
  reads : w.buf = w.reads.flatten
  device : w.buf = sent device w.port.delivered
  le : w.buf.length ≤ r.maxBytes
  absent : ∀ needle, r.needle = some needle → ¬ needle <:+: w.buf

/-- What the window is when the loop returns. -/
structure Window.Exact (w : Window) (r : Request) (device : Nat → UInt8) (reason : StopReason) : Prop where
  reads : w.buf = w.reads.flatten
  device : w.buf = sent device w.port.delivered
  le : w.buf.length ≤ r.maxBytes
  pattern : reason = .pattern ↔ ∃ needle, r.needle = some needle ∧ needle <:+: w.buf
  first : ∀ needle, r.needle = some needle → ∀ k < w.reads.length, ¬ needle <:+: (w.reads.take k).flatten
  full : reason ≠ .pattern → (reason = .maxBytes ↔ w.buf.length = r.maxBytes)

section Sound

variable {round : ℚ → ℚ} {r : Request} {device : Nat → UInt8} {start : ℚ} {w w' : Window} {t : Turn}
  {reason : StopReason}

/-- Earlier reads hold no more than all of them. -/
private theorem Window.Sound.absent_take (h : w.Sound r device) {needle : Bytes} (hneedle : r.needle = some needle)
    (k : Nat) :
    ¬ needle <:+: (w.reads.take k).flatten := by
  intro hearly
  apply h.absent needle hneedle
  rw [h.reads, ← List.take_append_drop k w.reads, List.flatten_append]
  exact hearly.trans (List.prefix_append _ _).isInfix

/-- The search from the overlap decides whether the pattern is in the capture. -/
private theorem Window.Sound.found_iff (h : w.Sound r device) {needle : Bytes} (hneedle : r.needle = some needle)
    (chunk : Bytes) :
    foundFrom needle (w.buf.length + 1 - needle.length) (w.buf ++ chunk) = true ↔ needle <:+: w.buf ++ chunk := by
  rw [foundFrom, find_isSome_iff, infix_append_iff (h.absent needle hneedle)]

/-- A window that returns without a match is exact. -/
theorem Window.Sound.exact (h : w.Sound r device) (hreason : reason ≠ .pattern)
    (hfull : reason = .maxBytes ↔ w.buf.length = r.maxBytes) : w.Exact r device reason where
  reads := h.reads
  device := h.device
  le := h.le
  pattern := by
    constructor
    · intro hpattern
      exact absurd hpattern hreason
    · rintro ⟨needle, hneedle, hin⟩
      exact absurd hin (h.absent needle hneedle)
  first := fun needle hneedle k _ => h.absent_take hneedle k
  full := fun _ => hfull

/-- What a read adds to the capture is what it took from the device. -/
theorem Window.Sound.grow (h : w.Sound r device) {size : Nat} {chunk : Bytes} {port : Port}
    (hsize : size ≤ r.maxBytes - w.buf.length) (hread : w.port.read round device t size = .ok (chunk, port)) :
    w.buf ++ chunk = (w.reads ++ [chunk]).flatten ∧ w.buf ++ chunk = sent device port.delivered ∧
      (w.buf ++ chunk).length ≤ r.maxBytes := by
  obtain ⟨available, -, -, rfl, rfl⟩ := Port.read_eq_ok hread
  refine ⟨?_, ?_, ?_⟩
  · rw [List.flatten_append, ← h.reads, List.flatten_singleton]
  · dsimp only
    rw [sent_add, ← h.device]
  · have hle := h.le
    rw [List.length_append, List.length_map, List.length_range']
    omega

theorem Window.Sound.turn (h : w.Sound r device) (hturn : w.turn round r device start t = .running w') :
    w'.Sound r device := by
  obtain ⟨-, hw⟩ | ⟨-, -, hw⟩ | ⟨-, -, -, hw⟩ | ⟨-, -, -, hstep⟩ := w.turn_cases round r device start t
  · rw [hw] at hturn
    cases hturn
  · rw [hw] at hturn
    cases hturn
  · rw [hw] at hturn
    cases hturn
  obtain ⟨-, hw⟩ | ⟨size, hsize, ⟨fault, -, hw⟩ | ⟨chunk, port, hread, hw⟩⟩ := hstep
  · rw [hw] at hturn
    cases hturn
    exact h
  · rw [hw] at hturn
    cases hturn
  rw [hw] at hturn
  obtain ⟨hreads, hdevice, hle⟩ := h.grow (readSize_le hsize) hread
  obtain ⟨rfl, htake⟩ | ⟨grown, rfl, -, ⟨needle, -, -, htake⟩ | ⟨hfound, htake⟩⟩ := w.take_cases r t.stamp chunk port
  · rw [htake] at hturn
    cases hturn
    rw [List.append_nil] at hreads hdevice
    exact ⟨hreads, hdevice, h.le, h.absent⟩
  · rw [htake] at hturn
    cases hturn
  · rw [htake] at hturn
    cases hturn
    refine ⟨hreads, hdevice, hle, ?_⟩
    intro needle hneedle hin
    have hmiss := hfound needle hneedle
    rw [(h.found_iff hneedle chunk).2 hin] at hmiss
    cases hmiss

theorem Window.Sound.turn_returned (h : w.Sound r device) (hturn : w.turn round r device start t = .returned reason w') :
    w'.Exact r device reason := by
  obtain ⟨hfull, hw⟩ | ⟨hlt, -, hw⟩ | ⟨hlt, -, -, hw⟩ | ⟨-, -, -, hstep⟩ := w.turn_cases round r device start t
  · rw [hw] at hturn
    cases hturn
    exact h.exact (by simp) (by simpa using Nat.le_antisymm h.le hfull)
  · rw [hw] at hturn
    cases hturn
    exact h.exact (by simp) (by simpa using Nat.ne_of_lt hlt)
  · rw [hw] at hturn
    cases hturn
    exact h.exact (by simp) (by simpa using Nat.ne_of_lt hlt)
  obtain ⟨-, hw⟩ | ⟨size, hsize, ⟨fault, -, hw⟩ | ⟨chunk, port, hread, hw⟩⟩ := hstep
  · rw [hw] at hturn
    cases hturn
  · rw [hw] at hturn
    cases hturn
  rw [hw] at hturn
  obtain ⟨hreads, hdevice, hle⟩ := h.grow (readSize_le hsize) hread
  obtain ⟨rfl, htake⟩ | ⟨grown, rfl, -, ⟨needle, hneedle, hfound, htake⟩ | ⟨-, htake⟩⟩ :=
    w.take_cases r t.stamp chunk port
  · rw [htake] at hturn
    cases hturn
  · rw [htake] at hturn
    cases hturn
    refine ⟨hreads, hdevice, hle, ?_, ?_, ?_⟩
    · simpa using ⟨needle, hneedle, (h.found_iff hneedle chunk).1 hfound⟩
    · intro other hother k hk
      -- the earlier reads are those of the window before this turn
      rw [List.length_append, List.length_singleton] at hk
      rw [List.take_append_of_le_length (by omega)]
      exact h.absent_take hother k
    · simp
  · rw [htake] at hturn
    cases hturn

end Sound

section Run

variable {round : ℚ → ℚ} {r : Request} {device : Nat → UInt8} {start : ℚ} {wrapper : Option DeadlineTransport}
  {turns : Nat → Turn}
  {n : Nat} {w : Window} {reason : StopReason}

theorem Request.sound_start (r : Request) (device : Nat → UInt8) (start : ℚ) (wrapper : Option DeadlineTransport) :
    Window.Sound ⟨[], start, ⟨0, wrapper⟩, []⟩ r device where
  reads := rfl
  device := rfl
  le := Nat.zero_le _
  absent := by
    intro needle hneedle hin
    exact r.needle_ne_nil hneedle (List.infix_nil.1 hin)

/-- One more turn is only done while the loop goes on. -/
theorem monitorWindow_succ_of_running (h : monitorWindow round r device start wrapper turns n = .running w) :
    monitorWindow round r device start wrapper turns (n + 1) = w.turn round r device start (turns n) := by
  rw [monitorWindow, h]

private theorem sound_of_running (h : monitorWindow round r device start wrapper turns n = .running w) :
    w.Sound r device := by
  induction n generalizing w with
  | zero =>
    cases h
    exact r.sound_start device start wrapper
  | succ n ih =>
    match hn : monitorWindow round r device start wrapper turns n with
    | .running v =>
      rw [monitorWindow_succ_of_running hn] at h
      exact (ih hn).turn h
    | .returned _ _ =>
      rw [monitorWindow, hn] at h
      cases h
    | .raised _ =>
      rw [monitorWindow, hn] at h
      cases h

private theorem exact_of_returned (h : monitorWindow round r device start wrapper turns n = .returned reason w) :
    w.Exact r device reason := by
  induction n with
  | zero => cases h
  | succ n ih =>
    match hn : monitorWindow round r device start wrapper turns n with
    | .running v =>
      rw [monitorWindow_succ_of_running hn] at h
      exact (sound_of_running hn).turn_returned h
    | .returned _ _ =>
      rw [monitorWindow, hn] at h
      cases h
      exact ih hn
    | .raised _ =>
      rw [monitorWindow, hn] at h
      cases h

/-- A window that returns has captured what it read, in order and within its bound; it says that the pattern was seen
exactly where the pattern is in the capture, and then no earlier read completed it; otherwise it says that the bound
was reached exactly where it was. -/
theorem capture_exact (h : monitorWindow round r device start wrapper turns n = .returned reason w) :
    (w.capture reason).buf = w.reads.flatten ∧ w.reads.flatten = sent device w.port.delivered ∧
    (w.capture reason).bytes = w.port.delivered ∧ (w.capture reason).bytes ≤ r.maxBytes ∧
    ((w.capture reason).stopReason = .pattern ↔
      ∃ pattern, r.stopPattern = some pattern ∧ encode pattern.toList <:+: (w.capture reason).buf) ∧
    (∀ pattern, r.stopPattern = some pattern → ∀ k < w.reads.length,
      ¬ encode pattern.toList <:+: (w.reads.take k).flatten) ∧
    ((w.capture reason).stopReason ≠ .pattern →
      ((w.capture reason).stopReason = .maxBytes ↔ (w.capture reason).bytes = r.maxBytes)) := by
  have hexact := exact_of_returned h
  have hneedle : ∀ {pattern}, r.stopPattern = some pattern → r.needle = some (encode pattern.toList) := by
    intro pattern hpattern
    rw [Request.needle, hpattern, Option.map_some]
  refine ⟨hexact.reads, ?_, ?_, hexact.le, ?_, ?_, hexact.full⟩
  · rw [← hexact.reads, hexact.device]
  · exact (congrArg List.length hexact.device).trans (length_sent device _)
  · refine hexact.pattern.trans ⟨?_, ?_⟩
    · rintro ⟨needle, hsome, hin⟩
      obtain ⟨pattern, hpattern, rfl⟩ := Option.map_eq_some_iff.1 hsome
      exact ⟨pattern, hpattern, hin⟩
    · rintro ⟨pattern, hpattern, hin⟩
      exact ⟨_, hneedle hpattern, hin⟩
  · intro pattern hpattern
    exact hexact.first _ (hneedle hpattern)

end Run

/-! A monitor that waits for `OK`, the two letters coming in two reads. -/

def okRequest : Request := ⟨100, 15, none, some "OK", by decide, by decide, by simp, by simp⟩

def okDevice : Nat → UInt8
  | 0 => 0x4F
  | 1 => 0x4B
  | _ => 0

def okTurns (i : Nat) : Turn := ⟨i, some 1, i, .ok 1, i, i⟩

def okWindow : Window := ⟨[0x4F, 0x4B], 1, ⟨2, some ⟨600, some 1⟩⟩, [[0x4F], [0x4B]]⟩

theorem capture_exact_ok :
    monitorWindow id okRequest okDevice 0 (some ⟨600, some 0⟩) okTurns 2 = .returned .pattern okWindow ∧
    (okWindow.capture .pattern).buf = okWindow.reads.flatten ∧ (okWindow.capture .pattern).bytes ≤ 100 ∧
    ((okWindow.capture .pattern).stopReason = .pattern ↔
      ∃ pattern, okRequest.stopPattern = some pattern ∧
        encode pattern.toList <:+: (okWindow.capture .pattern).buf) := by
  have hrun : monitorWindow id okRequest okDevice 0 (some ⟨600, some 0⟩) okTurns 2 = .returned .pattern okWindow := by
    decide +kernel
  obtain ⟨hreads, -, -, hle, hpattern, -⟩ := capture_exact hrun
  exact ⟨hrun, hreads, hle, hpattern⟩

end IronHarness.Monitor
