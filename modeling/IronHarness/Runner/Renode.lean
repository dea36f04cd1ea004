import IronHarness.Lib.Telnet
import IronHarness.Runner.Log

/-!
# The renode runner

`_drive_repl` and `_recv_until` (ironbench/runner_renode.py) over a socket whose data arrives in pieces.  The clock is
left out: no deadline expires.  A run is given by the pieces that are received behind each write, up to the next one;
it returns nothing where the harness would have to wait for more, or writes before it has received them all.

Two runs that receive the same bytes between the same writes return the same error exactly if every needle of the
stimulus is found printed before in both of them or in neither; this is so wherever a write stands between any two
waits (`recut_iff`).
-/

namespace IronHarness.Runner

open ByteText Telnet

namespace Renode

/-! ### The socket -/

/-- What a `recv` on an open connection returns. -/
abbrev Piece := { data : Bytes // data ≠ [] }

def bytesOf (pieces : List Piece) : List Bytes := pieces.map Subtype.val

/-- `text` is what `parts` hold, `retained` the count of `_keep`; `now` is received before the next write, `later` behind
the writes to come; the peer has closed the connection behind all this, or has not. -/
structure Wire where
  text : List Char
  retained : Nat
  tel : Filter
  now : List Piece
  later : List (List Piece)
  closed : Bool

/-- `_keep` -/
def Wire.keep (w : Wire) (buf : List Char) : Wire :=
  if maxSerialText ≤ w.retained then w
  else { w with text := w.text ++ buf.take (maxSerialText - w.retained), retained := w.retained + buf.length }

/-- `sock.sendall` -/
def Wire.write (w : Wire) : Option Wire :=
  match w.now, w.later with
  | [], now :: later => some { w with now := now, later := later }
  | _, _ => none

/-- `recv` returns an empty string. -/
def Wire.ended (w : Wire) : Bool := w.closed && w.later.all List.isEmpty

/-- The loop of `_recv_until`, and the last one of `_drive_repl`: what was received, whether `stop` was reached, the filter,
and what is left. -/
def receive (stop : List Char → Bool) (ended : Bool) :
    List Piece → Filter → List Char → Option (List Char × Bool × Filter × List Piece)
  | [], tel, buf => if ended then some (buf, false, tel, []) else none
  | data :: rest, tel, buf =>
    let buf' := buf ++ (tel.feed data.1).1
    if stop buf' then some (buf', true, (tel.feed data.1).2, rest)
    else if maxSerialText ≤ buf'.length then some (buf', false, (tel.feed data.1).2, rest)
    else receive stop ended rest (tel.feed data.1).2 buf'

/-- A wait with the `_keep` behind it. -/
def Wire.read (stop : List Char → Bool) (w : Wire) : Option (Bool × Wire) :=
  (receive stop w.ended w.now w.tel []).map fun (buf, ok, tel, now) => (ok, { w with tel := tel, now := now }.keep buf)

/-! ### The run -/

def contains (needle text : List Char) : Bool := (find needle text).isSome

def replPrompt : List Char := ">>>".toList

def pasteMode : List Char := "paste mode".toList

/-- `badDelay` is no error of `_drive_repl`: `_parse_delay` or `time.sleep` raises, and nothing catches it. -/
inductive Failure
  | notResponding
  | noPasteMode
  | setControl (step : Step)
  | prePrinted (needle : List Char)
  | badDelay

inductive ErrorKind
  | none
  | infra
  | run
  deriving DecidableEq

def errorKind : Option Failure → Option ErrorKind
  | none => some .none
  | some (.prePrinted _) => some .run
  | some .badDelay => none
  | some _ => some .infra

/-- Up to the end of the paste, whose chunks are one write. -/
def enter (w : Wire) : Option (Option Failure × Wire) := do
  let w ← w.write
  let (ok, w) ← w.read (contains replPrompt)
  if !ok then return (some .notResponding, w)
  let w ← w.write
  let (ok, w) ← w.read (contains pasteMode)
  if !ok then return (some .noPasteMode, w)
  let w ← w.write
  return (none, w)

/-- What a step of the stimulus asks for, in the order of the branches. -/
inductive Ask
  | setControl (step : Step)
  /-- `none` where the delay cannot be read or is negative -/
  | delay (seconds : Option ℚ)
  | write
  | wait (needle : List Char)
  | skip

def Step.ask (st : Step) : Ask :=
  if st.setControl then .setControl st
  else
    match st.delay, st.writeSerial, st.waitSerial with
    | some seconds, _, _ => .delay (seconds.filter fun q => 0 ≤ q)
    | none, some _, _ => .write
    | none, none, some needle => .wait needle
    | none, none, none => .skip

/-- The stimulus. -/
def stimulate : List Ask → Wire → Option (Option Failure × Wire)
  | [], w => some (none, w)
  | .setControl step :: _, w => some (some (.setControl step), w)
  | .delay none :: _, w => some (some .badDelay, w)
  | .delay (some _) :: steps, w => stimulate steps w
  | .write :: steps, w => w.write.bind fun w => stimulate steps w
  | .wait needle :: steps, w =>
    if contains needle w.text then some (some (.prePrinted needle), w)
    else (w.read (contains needle)).bind fun (_, w) => stimulate steps w
  | .skip :: steps, w => stimulate steps w

/-- Whether the last loop stops. -/
def isFinished (expect : List (List Char)) (buf : List Char) : Bool :=
  let plain := expect.filter fun p => isPlainText p && !p.isEmpty
  (!plain.isEmpty && plain.all fun p => contains p buf) || contains replPrompt buf

structure Outcome where
  text : List Char
  error : Option Failure

/-- `_drive_repl` -/
def drive (task : Task) (w : Wire) : Option Outcome := do
  let (failure, w) ← enter w
  if failure.isSome then return ⟨w.text, failure⟩
  let (failure, w) ← stimulate (task.stimulus.map Step.ask) w
  if failure.isSome then return ⟨w.text, failure⟩
  let (_, w) ← w.read (isFinished task.expect)
  return ⟨w.text, none⟩

/-- What is received behind each write. -/
structure Cut where
  pieces : List (List Piece)
  closed : Bool

def start (cut : Cut) : Wire := ⟨[], 0, newFilter, [], cut.pieces, cut.closed⟩

/-! ### One run -/

/-- What arrives before the next write, and the filter behind it. -/
def Wire.ahead (w : Wire) : List Char × Filter := w.tel.feedAll (bytesOf w.now)

/-- The text of all that was and will be received. -/
def Wire.whole (w : Wire) : List Char := w.text ++ w.ahead.1 ++ (w.ahead.2.feedAll (bytesOf w.later.flatten)).1

private theorem bytesOf_append (a b : List Piece) : bytesOf (a ++ b) = bytesOf a ++ bytesOf b := List.map_append

private theorem nil_notin_bytesOf (pieces : List Piece) : [] ∉ bytesOf pieces := by
  intro h
  obtain ⟨piece, -, hnil⟩ := List.mem_map.1 h
  exact piece.2 hnil

/-- Nothing is discarded: `whole` is all that the run will receive. -/
structure Wire.Fits (w : Wire) (whole : List Char) : Prop where
  all : w.whole = whole
  retained : w.retained = w.text.length
  below : whole.length < maxSerialText

private theorem Wire.Fits.text_below {w : Wire} {whole : List Char} (h : w.Fits whole) : w.text <+: whole := by
  rw [← h.all, Wire.whole, List.append_assoc]
  exact List.prefix_append _ _

private theorem receive_spec {stop : List Char → Bool} {ended ok : Bool} {now rest : List Piece} {tel tel' : Filter}
    {buf buf' : List Char} (h : receive stop ended now tel buf = some (buf', ok, tel', rest))
    (hcap : (buf ++ (tel.feedAll (bytesOf now)).1).length < maxSerialText) :
    ∃ used, now = used ++ rest ∧ tel' = (tel.feedAll (bytesOf used)).2 ∧
      buf' = buf ++ (tel.feedAll (bytesOf used)).1 ∧ (ok = true → stop buf' = true) ∧
      (ok = false → rest = [] ∧ ended = true ∧ (used = [] ∨ stop buf' = false)) := by
  induction now generalizing tel buf with
  | nil =>
    rw [receive] at h
    split at h
    · rename_i hended
      obtain ⟨rfl, rfl, rfl, rfl⟩ := by simpa using h
      exact ⟨[], rfl, rfl, by simp [bytesOf, Filter.feedAll], by simp, fun _ => ⟨rfl, hended, Or.inl rfl⟩⟩
    · cases h
  | cons data now ih =>
    have hall : bytesOf (data :: now) = data.1 :: bytesOf now := rfl
    rw [hall, Filter.feedAll, ← List.append_assoc] at hcap
    rw [receive] at h
    split at h
    · rename_i hstop
      obtain ⟨rfl, rfl, rfl, rfl⟩ := by simpa using h
      exact ⟨[data], rfl, rfl, by simp [bytesOf, Filter.feedAll], fun _ => hstop, by simp⟩
    · rename_i hstop
      split at h
      · rename_i hfull
        rw [List.length_append] at hcap
        omega
      · obtain ⟨used, hnow, htel, hbuf, hfound, hmissed⟩ := ih h hcap
        refine ⟨data :: used, by rw [hnow]; rfl, htel, ?_, hfound, ?_⟩
        · rw [hbuf, List.append_assoc]
          rfl
        · intro hok
          obtain ⟨hrest, hended, hnone⟩ := hmissed hok
          refine ⟨hrest, hended, Or.inr ?_⟩
          rcases hnone with hused | hnone
          · rw [hbuf, hused]
            simpa [bytesOf, Filter.feedAll] using hstop
          · exact hnone

/-- What a wait does to the wire. -/
structure Reads (stop : List Char → Bool) (w : Wire) (ok : Bool) (w' : Wire) (heard : List Char) : Prop where
  text : w'.text = w.text ++ heard
  ahead : heard ++ w'.ahead.1 = w.ahead.1
  tel : w'.ahead.2 = w.ahead.2
  later : w'.later = w.later
  closed : w'.closed = w.closed
  found : ok = true → stop heard = true
  missed : ok = false → w'.now = [] ∧ (w.now = [] ∨ stop heard = false)

theorem Wire.Fits.read {w w' : Wire} {whole : List Char} {stop : List Char → Bool} {ok : Bool} (h : w.Fits whole)
    (hread : w.read stop = some (ok, w')) : (∃ heard, Reads stop w ok w' heard) ∧ w'.Fits whole := by
  obtain ⟨⟨buf, ok', tel, now⟩, hreceive, heq⟩ := Option.map_eq_some_iff.1 hread
  obtain ⟨rfl, rfl⟩ := Prod.mk.inj heq
  have hlength : w.text.length + w.ahead.1.length ≤ whole.length := by
    rw [← h.all, Wire.whole, List.length_append, List.length_append]
    omega
  have hbelow := h.below
  have hcap : ([] ++ (w.tel.feedAll (bytesOf w.now)).1).length < maxSerialText := by
    rw [List.nil_append]
    show w.ahead.1.length < maxSerialText
    omega
  obtain ⟨used, hnow, htel, hbuf, hfound, hmissed⟩ := receive_spec hreceive hcap
  have hahead : w.ahead = (buf ++ (tel.feedAll (bytesOf now)).1, (tel.feedAll (bytesOf now)).2) := by
    rw [Wire.ahead, hnow, bytesOf_append, Filter.feedAll_append, htel, hbuf, List.nil_append]
  have hroom : buf.length ≤ maxSerialText - w.retained := by
    have hbuf' := congrArg (fun a => a.1.length) hahead
    simp only [List.length_append] at hbuf'
    rw [h.retained]
    omega
  have hkeep : ({ w with tel := tel, now := now }.keep buf) =
      { w with tel := tel, now := now, text := w.text ++ buf, retained := w.retained + buf.length } := by
    have hopen : ¬ maxSerialText ≤ w.retained := by
      rw [h.retained]
      omega
    unfold Wire.keep
    simp only [if_neg hopen, List.take_of_length_le hroom]
  rw [hkeep]
  refine ⟨⟨buf, rfl, ?_, ?_, rfl, rfl, hfound, ?_⟩, ?_, ?_, hbelow⟩
  · rw [hahead]
    rfl
  · rw [hahead]
    rfl
  · intro hok
    obtain ⟨hrest, -, hnone⟩ := hmissed hok
    refine ⟨hrest, ?_⟩
    rcases hnone with hused | hnone
    · left
      rw [hnow, hused, hrest]
      rfl
    · exact Or.inr hnone
  · have hwhole := h.all
    rw [Wire.whole, hahead, ← List.append_assoc] at hwhole
    exact hwhole
  · rw [h.retained]
    simp

private theorem write_eq_some {w w' : Wire} (h : w.write = some w') :
    w.now = [] ∧ ∃ now later, w.later = now :: later ∧ w' = { w with now := now, later := later } := by
  unfold Wire.write at h
  split at h
  · rename_i now later hnow hlater
    exact ⟨hnow, now, later, hlater, (Option.some.inj h).symm⟩
  · cases h

private theorem ahead_of_now {w : Wire} (h : w.now = []) : w.ahead = ([], w.tel) := by
  rw [Wire.ahead, h]
  rfl

theorem Wire.Fits.write {w w' : Wire} {whole : List Char} (h : w.Fits whole) (hwrite : w.write = some w') :
    w'.Fits whole := by
  obtain ⟨hnow, now, later, hlater, rfl⟩ := write_eq_some hwrite
  refine ⟨?_, h.retained, h.below⟩
  rw [← h.all, Wire.whole, Wire.whole, ahead_of_now hnow, hlater, List.flatten_cons, bytesOf_append,
    Filter.feedAll_append]
  simp [Wire.ahead]

/-! ### Two runs -/

def cutBytes (pieces : List (List Piece)) : List Bytes := pieces.map fun ps => (bytesOf ps).flatten

/-- The same is received up to the next write, and behind each of the others. -/
structure Same (w w' : Wire) : Prop where
  text : w.text ++ w.ahead.1 = w'.text ++ w'.ahead.1
  tel : w.ahead.2 = w'.ahead.2
  later : cutBytes w.later = cutBytes w'.later

/-- And nothing was read since the last write. -/
structure Aligned (w w' : Wire) : Prop extends Same w w' where
  level : w.text = w'.text

theorem Same.read {w w' v v' : Wire} {stop stop' : List Char → Bool} {ok ok' : Bool} {heard heard' : List Char}
    (h : Same w w') (hv : Reads stop w ok v heard) (hv' : Reads stop' w' ok' v' heard') : Same v v' := by
  refine ⟨?_, ?_, ?_⟩
  · rw [hv.text, hv'.text, List.append_assoc, List.append_assoc, hv.ahead, hv'.ahead, h.text]
  · rw [hv.tel, hv'.tel, h.tel]
  · rw [hv.later, hv'.later, h.later]

theorem Same.write {w w' v v' : Wire} (h : Same w w') (hv : w.write = some v) (hv' : w'.write = some v') :
    Aligned v v' := by
  obtain ⟨hnow, now, later, hlater, rfl⟩ := write_eq_some hv
  obtain ⟨hnow', now', later', hlater', rfl⟩ := write_eq_some hv'
  have htext := h.text
  have htel := h.tel
  have hbytes := h.later
  rw [ahead_of_now hnow, ahead_of_now hnow'] at htext htel
  rw [hlater, hlater'] at hbytes
  simp only [List.append_nil] at htext htel
  obtain ⟨hfirst, hrest⟩ := List.cons.inj hbytes
  have hahead : w.tel.feedAll (bytesOf now) = w'.tel.feedAll (bytesOf now') := by
    rw [htel]
    exact Filter.feedAll_eq _ (nil_notin_bytesOf now) (nil_notin_bytesOf now') hfirst
  refine ⟨⟨?_, ?_, hrest⟩, htext⟩
  · show w.text ++ (w.tel.feedAll (bytesOf now)).1 = w'.text ++ (w'.tel.feedAll (bytesOf now')).1
    rw [htext, hahead]
  · show (w.tel.feedAll (bytesOf now)).2 = (w'.tel.feedAll (bytesOf now')).2
    rw [hahead]

theorem Aligned.ahead {w w' : Wire} (h : Aligned w w') : w.ahead.1 = w'.ahead.1 := by
  have htext := h.text
  rw [h.level] at htext
  exact List.append_cancel_left htext

theorem Same.symm {w w' : Wire} (h : Same w w') : Same w' w := ⟨h.text.symm, h.tel.symm, h.later.symm⟩

theorem Aligned.symm {w w' : Wire} (h : Aligned w w') : Aligned w' w := ⟨h.toSame.symm, h.level.symm⟩

/-- A wait that a write follows finds its text in the other run, too. -/
theorem Aligned.found {w w' v v' : Wire} {stop : List Char → Bool} {ok : Bool} {heard heard' : List Char}
    (h : Aligned w w') (hempty : stop [] = false) (hv : Reads stop w true v heard) (hnow : v.now = [])
    (hv' : Reads stop w' ok v' heard') : ok = true := by
  by_contra hok
  obtain ⟨hnow', hmissed⟩ := hv'.missed (by simpa using hok)
  have hall := hv.ahead
  have hall' := hv'.ahead
  rw [ahead_of_now hnow, List.append_nil] at hall
  rw [ahead_of_now hnow', List.append_nil] at hall'
  have hsame : heard' = heard := by rw [hall, hall', h.ahead]
  have hstop := hv.found rfl
  rcases hmissed with hnone | hnone
  · rw [ahead_of_now hnone] at hall'
    rw [← hsame, hall', hempty] at hstop
    cases hstop
  · rw [hsame, hstop] at hnone
    cases hnone

/-! ### Up to the end of the paste -/

/-- A write, a wait that has to find something, and where the next write stands. -/
structure Round (stop : List Char → Bool) (w : Wire) (ok : Bool) (v : Wire) : Prop where
  begins : ∃ u, w.write = some u ∧ u.read stop = some (ok, v)
  drained : ok = true → v.now = []

/-- Both runs find it or neither does. -/
theorem Round.same {w w' v v' : Wire} {stop : List Char → Bool} {ok ok' : Bool} {whole : List Char}
    (hv : Round stop w ok v) (hv' : Round stop w' ok' v') (hempty : stop [] = false) (h : Same w w')
    (hfits : w.Fits whole) (hfits' : w'.Fits whole) : ok = ok' ∧ Same v v' ∧ v.Fits whole ∧ v'.Fits whole := by
  obtain ⟨u, hwrite, hread⟩ := hv.begins
  obtain ⟨u', hwrite', hread'⟩ := hv'.begins
  have haligned := h.write hwrite hwrite'
  obtain ⟨⟨heard, hreads⟩, hnext⟩ := (hfits.write hwrite).read hread
  obtain ⟨⟨heard', hreads'⟩, hnext'⟩ := (hfits'.write hwrite').read hread'
  refine ⟨?_, haligned.toSame.read hreads hreads', hnext, hnext'⟩
  cases ok with
  | true => exact (haligned.found hempty hreads (hv.drained rfl) hreads').symm
  | false =>
    cases ok' with
    | true => exact haligned.symm.found hempty hreads' (hv'.drained rfl) hreads
    | false => rfl

/-- `enter` gives up behind its first round, or behind its second, or goes on behind the paste. -/
private theorem enter_cases {w v : Wire} {failure : Option Failure} (h : enter w = some (failure, v)) :
    (Round (contains replPrompt) w false v ∧ failure = some .notResponding) ∨
      (∃ u, Round (contains replPrompt) w true u ∧ Round (contains pasteMode) u false v ∧
        failure = some .noPasteMode) ∨
      ∃ u x, Round (contains replPrompt) w true u ∧ Round (contains pasteMode) u true x ∧ x.write = some v ∧
        failure = none := by
  obtain ⟨w₁, hw₁, h⟩ := Option.bind_eq_some_iff.1 h
  obtain ⟨⟨ok, w₂⟩, hw₂, h⟩ := Option.bind_eq_some_iff.1 h
  cases ok with
  | false =>
    obtain ⟨rfl, rfl⟩ : some Failure.notResponding = failure ∧ w₂ = v := by simpa using h
    exact Or.inl ⟨⟨⟨w₁, hw₁, hw₂⟩, by simp⟩, rfl⟩
  | true =>
    obtain ⟨w₃, hw₃, h⟩ := Option.bind_eq_some_iff.1 h
    obtain ⟨⟨ok, w₄⟩, hw₄, h⟩ := Option.bind_eq_some_iff.1 h
    have hfirst : Round (contains replPrompt) w true w₂ := ⟨⟨w₁, hw₁, hw₂⟩, fun _ => (write_eq_some hw₃).1⟩
    cases ok with
    | false =>
      obtain ⟨rfl, rfl⟩ : some Failure.noPasteMode = failure ∧ w₄ = v := by simpa using h
      exact Or.inr (Or.inl ⟨w₂, hfirst, ⟨⟨w₃, hw₃, hw₄⟩, by simp⟩, rfl⟩)
    | true =>
      obtain ⟨w₅, hw₅, h⟩ := Option.bind_eq_some_iff.1 h
      obtain ⟨rfl, rfl⟩ : none = failure ∧ w₅ = v := by simpa using h
      exact Or.inr (Or.inr ⟨w₂, w₄, hfirst, ⟨⟨w₃, hw₃, hw₄⟩, fun _ => (write_eq_some hw₅).1⟩, hw₅, rfl⟩)

private theorem enter_same {w w' v v' : Wire} {whole : List Char} {failure failure' : Option Failure} (h : Same w w')
    (hfits : w.Fits whole) (hfits' : w'.Fits whole) (hv : enter w = some (failure, v))
    (hv' : enter w' = some (failure', v')) :
    failure = failure' ∧ v.Fits whole ∧ v'.Fits whole ∧ (failure = none → Aligned v v') := by
  have hprompt : contains replPrompt [] = false := by decide +kernel
  have hpaste : contains pasteMode [] = false := by decide +kernel
  rcases enter_cases hv with ⟨h₁, rfl⟩ | ⟨u, h₁, h₂, rfl⟩ | ⟨u, x, h₁, h₂, hx, rfl⟩ <;>
    rcases enter_cases hv' with ⟨h₁', rfl⟩ | ⟨u', h₁', h₂', rfl⟩ | ⟨u', x', h₁', h₂', hx', rfl⟩ <;>
    obtain ⟨hok, hu, hf, hf'⟩ := h₁.same h₁' hprompt h hfits hfits' <;> cases hok
  · exact ⟨rfl, hf, hf', by simp⟩
  · obtain ⟨-, -, hg, hg'⟩ := h₂.same h₂' hpaste hu hf hf'
    exact ⟨rfl, hg, hg', by simp⟩
  · obtain ⟨hok, -⟩ := h₂.same h₂' hpaste hu hf hf'
    cases hok
  · obtain ⟨hok, -⟩ := h₂.same h₂' hpaste hu hf hf'
    cases hok
  · obtain ⟨-, hx₂, hg, hg'⟩ := h₂.same h₂' hpaste hu hf hf'
    exact ⟨rfl, hg.write hx, hg'.write hx', fun _ => hx₂.write hx hx'⟩

/-! ### The stimulus -/

/-- The steps of a stimulus that wait, as far as the run gets, each with all that was read before it. -/
def waits : List Ask → Wire → List (List Char × List Char)
  | [], _ => []
  | .setControl _ :: _, _ => []
  | .delay none :: _, _ => []
  | .delay (some _) :: steps, w => waits steps w
  | .write :: steps, w => (w.write.map (waits steps)).getD []
  | .wait needle :: steps, w =>
    (needle, w.text) ::
      if contains needle w.text then [] else ((w.read (contains needle)).map fun (_, w) => waits steps w).getD []
  | .skip :: steps, w => waits steps w

/-- What stops a stimulus none of whose waits fails. -/
def refusal : List Ask → Option Failure
  | [] => none
  | .setControl step :: _ => some (.setControl step)
  | .delay none :: _ => some .badDelay
  | _ :: steps => refusal steps

/-- A step waits for `needle` and finds it in what was read before. -/
def Late (needle : List Char) (asked : List (List Char × List Char)) : Prop :=
  ∃ text, (needle, text) ∈ asked ∧ contains needle text = true

private theorem not_late_nil (needle : List Char) : ¬ Late needle [] := by
  rintro ⟨text, hmem, -⟩
  cases hmem

/-- A stimulus fails at the one wait that comes late, or goes on to its first step that cannot be done. -/
private theorem stimulate_failure {steps : List Ask} {w v : Wire} {failure : Option Failure}
    (h : stimulate steps w = some (failure, v)) :
    (∃ needle, failure = some (.prePrinted needle) ∧ ∀ n, Late n (waits steps w) ↔ n = needle) ∨
      (failure = refusal steps ∧ ∀ n, ¬ Late n (waits steps w)) := by
  induction steps generalizing w with
  | nil =>
    obtain ⟨rfl, rfl⟩ : none = failure ∧ w = v := by simpa [stimulate] using h
    exact Or.inr ⟨rfl, not_late_nil⟩
  | cons step steps ih =>
    cases step with
    | setControl st =>
      obtain ⟨rfl, rfl⟩ : some (Failure.setControl st) = failure ∧ w = v := by simpa [stimulate] using h
      exact Or.inr ⟨rfl, not_late_nil⟩
    | delay seconds =>
      cases seconds with
      | none =>
        obtain ⟨rfl, rfl⟩ : some Failure.badDelay = failure ∧ w = v := by simpa [stimulate] using h
        exact Or.inr ⟨rfl, not_late_nil⟩
      | some seconds => exact ih h
    | write =>
      obtain ⟨u, hwrite, h⟩ := Option.bind_eq_some_iff.1 h
      have hwaits : waits (.write :: steps) w = waits steps u := by simp [waits, hwrite]
      rw [hwaits]
      exact ih h
    | wait needle =>
      rw [stimulate] at h
      split at h
      · rename_i hlate
        obtain ⟨rfl, rfl⟩ : some (Failure.prePrinted needle) = failure ∧ w = v := by simpa using h
        refine Or.inl ⟨needle, rfl, fun n => ?_⟩
        simp only [Late, waits, if_pos hlate, List.mem_singleton, Prod.mk.injEq]
        constructor
        · rintro ⟨text, ⟨rfl, -⟩, -⟩
          rfl
        · rintro rfl
          exact ⟨w.text, ⟨rfl, rfl⟩, hlate⟩
      · rename_i hlate
        obtain ⟨⟨ok, u⟩, hread, h⟩ := Option.bind_eq_some_iff.1 h
        have hwaits : waits (.wait needle :: steps) w = (needle, w.text) :: waits steps u := by
          simp [waits, hlate, hread]
        have hlater : ∀ n, Late n (waits (.wait needle :: steps) w) ↔ Late n (waits steps u) := by
          intro n
          rw [hwaits]
          constructor
          · rintro ⟨text, hmem, htext⟩
            rcases List.mem_cons.1 hmem with heq | hmem
            · obtain ⟨rfl, rfl⟩ := Prod.mk.inj heq
              exact absurd htext hlate
            · exact ⟨text, hmem, htext⟩
          · rintro ⟨text, hmem, htext⟩
            exact ⟨text, List.mem_cons_of_mem _ hmem, htext⟩
        simp only [hlater]
        exact ih h
    | skip => exact ih h

private theorem refusal_ne_prePrinted (steps : List Ask) (needle : List Char) :
    refusal steps ≠ some (.prePrinted needle) := by
  fun_induction refusal steps with
  | case1 | case2 | case3 => simp
  | case4 step steps hcontrol hdelay ih => exact ih

private theorem late_iff {steps : List Ask} {w v : Wire} {failure : Option Failure} {needle : List Char}
    (h : stimulate steps w = some (failure, v)) :
    Late needle (waits steps w) ↔ failure = some (.prePrinted needle) := by
  rcases stimulate_failure h with ⟨first, rfl, hfirst⟩ | ⟨rfl, hnone⟩
  · rw [hfirst]
    constructor
    · rintro rfl
      rfl
    · intro heq
      cases heq
      rfl
  · constructor
    · exact fun hlate => absurd hlate (hnone needle)
    · exact fun heq => absurd heq (refusal_ne_prePrinted steps needle)

private theorem Wire.Fits.stimulate {steps : List Ask} {w v : Wire} {whole : List Char} {failure : Option Failure}
    (hfits : w.Fits whole) (h : stimulate steps w = some (failure, v)) : v.Fits whole := by
  fun_induction Renode.stimulate steps w with
  | case1 w | case2 step steps w | case3 steps w => cases h; exact hfits
  | case4 seconds steps w ih | case8 steps w ih => exact ih hfits h
  | case5 steps w ih =>
    obtain ⟨u, hwrite, h⟩ := Option.bind_eq_some_iff.1 h
    exact ih u (hfits.write hwrite) h
  | case6 needle steps w hlate => cases h; exact hfits
  | case7 needle steps w hlate ih =>
    obtain ⟨⟨ok, u⟩, hread, h⟩ := Option.bind_eq_some_iff.1 h
    exact ih u (hfits.read hread).2 h

/-- A write stands between any two waits; `fresh` is whether one may come first. -/
def separated : Bool → List Ask → Bool
  | _, [] => true
  | _, .write :: steps => separated true steps
  | fresh, .wait _ :: steps => fresh && separated false steps
  | fresh, _ :: steps => separated fresh steps

/-- Where the waits are separated, both runs are level at each of them. -/
private theorem stimulate_separated {fresh : Bool} {steps : List Ask} {w w' v v' : Wire} {whole : List Char}
    {failure failure' : Option Failure} (hsep : separated fresh steps = true) (h : Same w w')
    (hlevel : fresh = true → w.text = w'.text) (hfits : w.Fits whole) (hfits' : w'.Fits whole)
    (hv : stimulate steps w = some (failure, v)) (hv' : stimulate steps w' = some (failure', v')) :
    failure = failure' := by
  induction steps generalizing fresh w w' with
  | nil =>
    obtain ⟨rfl, -⟩ : none = failure ∧ w = v := by simpa [stimulate] using hv
    obtain ⟨rfl, -⟩ : none = failure' ∧ w' = v' := by simpa [stimulate] using hv'
    rfl
  | cons step steps ih =>
    cases step with
    | setControl st =>
      obtain ⟨rfl, -⟩ : some (Failure.setControl st) = failure ∧ w = v := by simpa [stimulate] using hv
      obtain ⟨rfl, -⟩ : some (Failure.setControl st) = failure' ∧ w' = v' := by simpa [stimulate] using hv'
      rfl
    | delay seconds =>
      cases seconds with
      | none =>
        obtain ⟨rfl, -⟩ : some Failure.badDelay = failure ∧ w = v := by simpa [stimulate] using hv
        obtain ⟨rfl, -⟩ : some Failure.badDelay = failure' ∧ w' = v' := by simpa [stimulate] using hv'
        rfl
      | some seconds => exact ih hsep h hlevel hfits hfits' hv hv'
    | write =>
      obtain ⟨u, hwrite, hv⟩ := Option.bind_eq_some_iff.1 hv
      obtain ⟨u', hwrite', hv'⟩ := Option.bind_eq_some_iff.1 hv'
      have haligned := h.write hwrite hwrite'
      exact ih hsep haligned.toSame (fun _ => haligned.level) (hfits.write hwrite) (hfits'.write hwrite') hv hv'
    | wait needle =>
      obtain ⟨rfl, hrest⟩ : fresh = true ∧ separated false steps = true := by simpa [separated] using hsep
      rw [stimulate] at hv hv'
      rw [← hlevel rfl] at hv'
      by_cases hlate : contains needle w.text = true
      · rw [if_pos hlate] at hv hv'
        obtain ⟨rfl, -⟩ : some (Failure.prePrinted needle) = failure ∧ w = v := by simpa using hv
        obtain ⟨rfl, -⟩ : some (Failure.prePrinted needle) = failure' ∧ w' = v' := by simpa using hv'
        rfl
      · rw [if_neg hlate] at hv hv'
        obtain ⟨⟨ok, u⟩, hread, hv⟩ := Option.bind_eq_some_iff.1 hv
        obtain ⟨⟨ok', u'⟩, hread', hv'⟩ := Option.bind_eq_some_iff.1 hv'
        obtain ⟨⟨heard, hreads⟩, hnext⟩ := hfits.read hread
        obtain ⟨⟨heard', hreads'⟩, hnext'⟩ := hfits'.read hread'
        exact ih hrest (h.read hreads hreads') (by simp) hnext hnext' hv hv'
    | skip => exact ih hsep h hlevel hfits hfits' hv hv'

/-! ### The verdict -/

/-- The text of all that the socket will deliver. -/
def Cut.text (cut : Cut) : List Char := (newFilter.feedAll (bytesOf cut.pieces.flatten)).1

private theorem start_fits {cut : Cut} {whole : List Char} (htext : cut.text = whole)
    (hcap : whole.length < maxSerialText) :
    (start cut).Fits whole :=
  ⟨htext, rfl, hcap⟩

private theorem bytesOf_flatten (pieces : List (List Piece)) :
    (bytesOf pieces.flatten).flatten = (cutBytes pieces).flatten := by
  induction pieces with
  | nil => rfl
  | cons ps pieces ih =>
    rw [List.flatten_cons, bytesOf_append, List.flatten_append, ih]
    rfl

theorem text_eq {cut cut' : Cut} (h : cutBytes cut.pieces = cutBytes cut'.pieces) : cut.text = cut'.text := by
  have hflat : (bytesOf cut.pieces.flatten).flatten = (bytesOf cut'.pieces.flatten).flatten := by
    rw [bytesOf_flatten, bytesOf_flatten, h]
  unfold Cut.text
  rw [Filter.feedAll_eq newFilter (nil_notin_bytesOf _) (nil_notin_bytesOf _) hflat]

private theorem start_same {cut cut' : Cut} (h : cutBytes cut.pieces = cutBytes cut'.pieces) :
    Same (start cut) (start cut') :=
  ⟨rfl, rfl, h⟩

/-- The steps of the run that wait. -/
def asked (task : Task) (cut : Cut) : List (List Char × List Char) :=
  match enter (start cut) with
  | some (none, w) => waits (task.stimulus.map Step.ask) w
  | _ => []

/-- Where a run fails, and what of its text the run has kept. -/
private theorem drive_spec {task : Task} {cut : Cut} {outcome : Outcome} {whole : List Char}
    (hfits : (start cut).Fits whole)
    (h : drive task (start cut) = some outcome) :
    ∃ failure w, enter (start cut) = some (failure, w) ∧ outcome.text <+: whole ∧
      (failure.isSome = true → outcome.error = failure ∧ asked task cut = []) ∧
      (failure = none → asked task cut = waits (task.stimulus.map Step.ask) w ∧
        ∃ v, stimulate (task.stimulus.map Step.ask) w = some (outcome.error, v)) := by
  obtain ⟨⟨failure, w⟩, henter, h⟩ := Option.bind_eq_some_iff.1 h
  obtain ⟨-, hw, -⟩ := enter_same (start_same rfl) hfits hfits henter henter
  refine ⟨failure, w, henter, ?_⟩
  cases failure with
  | some failure =>
    obtain rfl : ⟨w.text, some failure⟩ = outcome := by simpa using h
    exact ⟨hw.text_below, fun _ => ⟨rfl, by simp [asked, henter]⟩, by simp⟩
  | none =>
    have hasked : asked task cut = waits (task.stimulus.map Step.ask) w := by simp [asked, henter]
    obtain ⟨⟨failure, v⟩, hstimulate, h⟩ := Option.bind_eq_some_iff.1 h
    have hv : v.Fits whole := hw.stimulate hstimulate
    cases failure with
    | some failure =>
      obtain rfl : ⟨v.text, some failure⟩ = outcome := by simpa using h
      exact ⟨hv.text_below, by simp, fun _ => ⟨hasked, v, hstimulate⟩⟩
    | none =>
      obtain ⟨⟨ok, x⟩, hread, h⟩ := Option.bind_eq_some_iff.1 h
      obtain rfl : ⟨x.text, none⟩ = outcome := by simpa using h
      exact ⟨(hv.read hread).2.text_below, by simp, fun _ => ⟨hasked, v, hstimulate⟩⟩

/-- The same error, of the same kind; the texts are the same up to where the first of the two ends. -/
structure SameVerdict (o o' : Outcome) : Prop where
  error : o.error = o'.error
  kind : errorKind o.error = errorKind o'.error
  text : o.text <+: o'.text ∨ o'.text <+: o.text

/-- Two runs that receive the same bytes between the same writes come to the same verdict exactly if a needle comes late
in both or in neither; they do so wherever a write stands between any two waits. -/
theorem recut_iff (task : Task) (cut cut' : Cut) (o o' : Outcome)
    (hsame : cutBytes cut.pieces = cutBytes cut'.pieces) (hcap : cut.text.length < maxSerialText)
    (ho : drive task (start cut) = some o) (ho' : drive task (start cut') = some o') :
    (SameVerdict o o' ↔ ∀ needle, Late needle (asked task cut) ↔ Late needle (asked task cut')) ∧
      (separated true (task.stimulus.map Step.ask) = true → SameVerdict o o') := by
  have hfits : (start cut).Fits cut.text := start_fits rfl hcap
  have hfits' : (start cut').Fits cut.text := start_fits (text_eq hsame).symm hcap
  obtain ⟨failure, w, henter, htext, hstops, hgoes⟩ := drive_spec hfits ho
  obtain ⟨failure', w', henter', htext', hstops', hgoes'⟩ := drive_spec hfits' ho'
  obtain ⟨rfl, hw, hw', haligned⟩ := enter_same (start_same hsame) hfits hfits' henter henter'
  have hverdict : o.error = o'.error → SameVerdict o o' := fun herror =>
    ⟨herror, congrArg errorKind herror, List.prefix_or_prefix_of_prefix htext htext'⟩
  cases failure with
  | some failure =>
    obtain ⟨herror, hasked⟩ := hstops rfl
    obtain ⟨herror', hasked'⟩ := hstops' rfl
    have hall := hverdict (by rw [herror, herror'])
    exact ⟨⟨fun _ needle => by rw [hasked, hasked'], fun _ => hall⟩, fun _ => hall⟩
  | none =>
    obtain ⟨hasked, v, hv⟩ := hgoes rfl
    obtain ⟨hasked', v', hv'⟩ := hgoes' rfl
    rw [hasked, hasked']
    refine ⟨?_, fun hsep => hverdict ?_⟩
    · constructor
      · -- the error names the needle that came late
        intro hsame needle
        rw [late_iff hv, late_iff hv', hsame.error]
      · intro hlate
        apply hverdict
        rcases stimulate_failure hv with ⟨needle, herror, hneedle⟩ | ⟨herror, hnone⟩
        · have hfound := (hlate needle).1 ((hneedle needle).2 rfl)
          rw [herror, (late_iff hv').1 hfound]
        · rcases stimulate_failure hv' with ⟨needle, -, hneedle⟩ | ⟨herror', -⟩
          · exact absurd ((hlate needle).2 ((hneedle needle).2 rfl)) (hnone needle)
          · rw [herror, herror']
    · exact stimulate_separated hsep (haligned rfl).toSame (fun _ => (haligned rfl).level) hw hw' hv hv'

/-! ### Two cuts of one stream -/

/-- Writes once and waits for "A" and for "B". -/
def twoAnswers : Task where
  name := "board".toList
  timeoutSec := 60
  expect := ["B".toList]
  fail := []
  stimulus :=
    [{ emptyStep with writeSerial := some "go".toList }, { emptyStep with waitSerial := some "A".toList },
      { emptyStep with waitSerial := some "B".toList }]
  mqtt := false
  events := []

def greeting : List (List Piece) :=
  [[⟨[62, 62, 62], by simp⟩], [⟨[112, 97, 115, 116, 101, 32, 109, 111, 100, 101], by simp⟩], []]

/-- Both answers in one piece. -/
def joined : Cut := ⟨greeting ++ [[⟨[65, 66], by simp⟩]], true⟩

/-- And each in its own. -/
def parted : Cut := ⟨greeting ++ [[⟨[65], by simp⟩, ⟨[66], by simp⟩]], true⟩

private theorem cutBytes_joined : cutBytes joined.pieces = cutBytes parted.pieces := rfl

private theorem drive_joined :
    drive twoAnswers (start joined) = some ⟨">>>paste modeAB".toList, some (.prePrinted "B".toList)⟩ :=
  rfl

private theorem drive_parted : drive twoAnswers (start parted) = some ⟨">>>paste modeAB".toList, none⟩ := rfl

theorem recut_iff_joined :
    SameVerdict ⟨">>>paste modeAB".toList, some (.prePrinted "B".toList)⟩ ⟨">>>paste modeAB".toList, none⟩ ↔
      ∀ needle, Late needle (asked twoAnswers joined) ↔ Late needle (asked twoAnswers parted) :=
  (recut_iff twoAnswers joined parted _ _ cutBytes_joined (by decide +kernel) drive_joined drive_parted).1

/-- The cut of a stream decides whether an answer is taken for printed before. -/
theorem verdict_depends_on_cut :
    ¬ ∀ (task : Task) (cut cut' : Cut) (o o' : Outcome), cutBytes cut.pieces = cutBytes cut'.pieces →
      cut.text.length < maxSerialText → drive task (start cut) = some o → drive task (start cut') = some o' →
      SameVerdict o o' := by
  intro h
  have herror := (h twoAnswers joined parted _ _ cutBytes_joined (by decide +kernel) drive_joined drive_parted).kind
  cases herror

end Renode

end IronHarness.Runner
