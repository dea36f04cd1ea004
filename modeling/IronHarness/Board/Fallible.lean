import IronHarness.Board.Repl

/-!
# The raw-REPL driver over a transport that may fail

The transfers of `MpRepl` (io_core/mprepl.py) over any transport: a run reads off a list what each look at the clock
finds, what each read returns or raises and whether each write is accepted.  The state is the buffer of the stream and
a log of the writes, with a note of each command that returned.  The commands, and what becomes of an answer, are those
of the driver over a link to a board.
-/

namespace IronHarness.Board.Fallible

open ByteText PyLiteral Polled MpRepl

/-- What a call raises: an exception the driver knows (the transport may raise it too), another `Exception`, or a
`KeyboardInterrupt` and its like, which `contextlib.suppress(Exception)` lets through. -/
inductive Failure
  | exn (e : Exn)
  | other (code : Nat)
  | interrupt
  deriving DecidableEq

/-- What the driver meets next. -/
inductive Turn
  | clock (late : Bool)
  | read (reply : Except Failure Bytes)
  | write (fault : Option Failure)

inductive Entry
  | write (data : Bytes) (accepted : Bool)
  | returned (command : List Char)
  deriving DecidableEq

/-- The buffer of the stream and the log of the session. -/
structure Line where
  buf : Bytes
  log : List Entry

/-- A run on a line; `none` where the turns end before the run does, or are not those of the run. -/
abbrev Run (α : Type) : Type := Prog Turn Line Failure α

def timeoutError : Failure := .exn .timeoutError

/-! ### The stream -/

def write (data : Bytes) : Run Unit := fun l turns =>
  match turns with
  | .write fault :: turns =>
    let reply := match fault with
      | none => .ok ()
      | some f => .error f
    some (reply, { l with log := l.log ++ [.write data fault.isNone] }, turns)
  | _ => none

/-- `time.monotonic() >= deadline` -/
def isLate : Run Bool := fun l turns =>
  match turns with
  | .clock late :: turns => some (.ok late, l, turns)
  | _ => none

def untilLoop (terminator : Bytes) : List Turn → Line → Option (Except Failure Bytes × Line × List Turn)
  | [], l => (Stream.cut terminator l.buf).map fun (piece, rest) => (.ok piece, { l with buf := rest }, [])
  | t :: turns, l =>
    match Stream.cut terminator l.buf with
    | some (piece, rest) => some (.ok piece, { l with buf := rest }, t :: turns)
    | none =>
      match t, turns with
      | .clock true, turns => some (.error timeoutError, l, turns)
      | .clock false, .read (.error f) :: turns => some (.error f, l, turns)
      | .clock false, .read (.ok chunk) :: turns =>
        let l := { l with buf := l.buf ++ chunk }
        if Stream.maxStreamBuf < l.buf.length then some (.error (.exn .transportIoError), l, turns)
        else untilLoop terminator turns l
      | _, _ => none

/-- `_Stream.until` -/
def upTo (terminator : Bytes) : Run Bytes := fun l turns => untilLoop terminator turns l

def untilPrompt : Run Bytes := upTo [prompt]

/-! ### One session -/

/-- `with contextlib.suppress(Exception): m` -/
def suppress {α : Type} (m : Run α) : Run Unit := after m fun
  | .error .interrupt => throw .interrupt
  | _ => pure ()

/-- One attempt of `enter`. -/
def dance : Run Unit := do
  write [ctrlB]
  write [ctrlC, ctrlC]
  write [ctrlA]
  let _ ← upTo rawRepl
  let _ ← untilPrompt
  return ()

/-- `enter`, with at most `fuel` attempts. -/
def enter : Nat → Run Unit
  | 0 => unfinished
  | fuel + 1 => catching dance fun e =>
    if e = timeoutError then do
      let late ← isLate
      if late then throw e else enter fuel
    else throw e

def exit_ : Run Unit := suppress (write [ctrlB])

/-- Notes that a command returned; it stands for no step of the source. -/
def note (command : List Char) : Run Unit := Polled.modify fun l => { l with log := l.log ++ [.returned command] }

def exec_ (command : List Char) : Run (List Char) := do
  write (encode command ++ [ctrlD])
  let out ← upTo [ctrlD]
  let err ← upTo [ctrlD]
  let _ ← untilPrompt
  match answer out err with
  | .ok text => do
    note command
    return text
  | .error e => throw (.exn e)

def bestEffortClose : Run Unit := suppress (exec_ closeCommand)

/-! ### Transfers -/

variable (isPrintable : Char → Bool)

def writeLoop : List Bytes → Run Unit
  | [] => return ()
  | piece :: pieces => do
    let _ ← exec_ (writeCommand piece)
    writeLoop pieces

/-- What `put_file` does with the file once it is open. -/
def writeAll (chunk : Nat) (data : Bytes) : Run Unit := do
  writeLoop (chunksOf chunk data)
  let _ ← exec_ closeCommand
  return ()

/-- What a transfer does in raw mode: it opens the file, and closes it whatever `m` does. -/
def withFile {α : Type} (target : PyStr) (mode : List Char) (m : Run α) : Run α := do
  let _ ← exec_ importCommand
  let _ ← exec_ (openCommand isPrintable target mode)
  onError m bestEffortClose

def putFile (fuel chunk : Nat) (data : Bytes) (target : PyStr) : Run Nat := do
  enter fuel
  onError (withFile isPrintable target "wb".toList (writeAll chunk data)) exit_
  exit_
  return data.length

/-- The loop of `get_file`, with at most `fuel` reads. -/
def readLoop (chunk : Nat) : Nat → Bytes → Run Bytes
  | 0, _ => unfinished
  | fuel + 1, parts => do
    let out ← exec_ (readCommand chunk)
    match parseRead isPrintable out with
    | .error e => throw (.exn e)
    | .ok none => return parts
    | .ok (some piece) => readLoop chunk fuel (parts ++ piece)

/-- What `get_file` does with the file once it is open. -/
def readAll (fuel chunk : Nat) : Run Bytes := do
  let parts ← readLoop isPrintable chunk fuel []
  let _ ← exec_ closeCommand
  return parts

def getFile (fuel chunk : Nat) (target : PyStr) : Run Bytes := do
  enter fuel
  let data ← onError (withFile isPrintable target "rb".toList (readAll isPrintable fuel chunk)) exit_
  exit_
  return data

/-- A new session: `MpRepl(t, chunk=chunk)`. -/
def newLine : Line := ⟨[], []⟩

/-! ### Runs -/

variable {α β : Type}

theorem bind_run {m : Run α} {f : α → Run β} {l l' : Line} {turns rest : List Turn} {r : Except Failure β}
    (h : (m >>= f) l turns = some (r, l', rest)) :
    (∃ e, m l turns = some (.error e, l', rest) ∧ r = .error e) ∨
      ∃ a l₁ turns₁, m l turns = some (.ok a, l₁, turns₁) ∧ f a l₁ turns₁ = some (r, l', rest) := by
  obtain ⟨⟨r₁, l₁, turns₁⟩, hm, hf⟩ := Option.bind_eq_some_iff.1 h
  cases r₁ with
  | error e =>
    cases hf
    exact .inl ⟨e, hm, rfl⟩
  | ok a => exact .inr ⟨a, l₁, turns₁, hm, hf⟩

theorem catching_run {m : Run α} {h : Failure → Run α} {l l' : Line} {turns rest : List Turn} {r : Except Failure α}
    (hrun : catching m h l turns = some (r, l', rest)) :
    (∃ a, m l turns = some (.ok a, l', rest) ∧ r = .ok a) ∨
      ∃ e l₁ turns₁, m l turns = some (.error e, l₁, turns₁) ∧ h e l₁ turns₁ = some (r, l', rest) := by
  obtain ⟨⟨r₁, l₁, turns₁⟩, hm, hf⟩ := Option.bind_eq_some_iff.1 hrun
  cases r₁ with
  | error e => exact .inr ⟨e, l₁, turns₁, hm, hf⟩
  | ok a =>
    cases hf
    exact .inl ⟨a, hm, rfl⟩

private theorem write_run {data : Bytes} {l l' : Line} {turns rest : List Turn} {r : Except Failure Unit}
    (h : write data l turns = some (r, l', rest)) :
    ∃ fault, turns = .write fault :: rest ∧ l' = { l with log := l.log ++ [.write data fault.isNone] } ∧
      r = match fault with
        | none => .ok ()
        | some f => .error f := by
  unfold write at h
  split at h
  · rename_i fault turns'
    cases h
    exact ⟨fault, rfl, rfl, rfl⟩
  · cases h

/-- A write and what follows it: the write is refused and the run is over, or it is accepted and the run goes on. -/
theorem write_bind_run {data : Bytes} {f : Unit → Run β} {l l' : Line} {turns rest : List Turn} {r : Except Failure β}
    (h : (write data >>= f) l turns = some (r, l', rest)) :
    (∃ e, turns = .write (some e) :: rest ∧ l' = { l with log := l.log ++ [.write data false] } ∧ r = .error e) ∨
      ∃ turns₁, turns = .write none :: turns₁ ∧
        f () { l with log := l.log ++ [.write data true] } turns₁ = some (r, l', rest) := by
  obtain ⟨e, hwrite, rfl⟩ | ⟨_, l₁, turns₁, hwrite, h⟩ := bind_run h
  · obtain ⟨fault, rfl, rfl, hr⟩ := write_run hwrite
    cases fault with
    | none => cases hr
    | some f =>
      cases hr
      exact .inl ⟨e, rfl, rfl, rfl⟩
  · obtain ⟨fault, rfl, rfl, hr⟩ := write_run hwrite
    obtain rfl : fault = none := by cases fault <;> cases hr; rfl
    exact .inr ⟨turns₁, rfl, h⟩

theorem isLate_run {l l' : Line} {turns rest : List Turn} {r : Except Failure Bool}
    (h : isLate l turns = some (r, l', rest)) : ∃ late, turns = .clock late :: rest ∧ l' = l ∧ r = .ok late := by
  unfold isLate at h
  split at h
  · rename_i late turns'
    cases h
    exact ⟨late, rfl, rfl, rfl⟩
  · cases h

/-! ### Logs -/

/-- Whatever the turns, a run of `m` that ends has added entries to the log for which `P` holds. -/
def Logs (m : Run α) (P : Except Failure α → List Entry → Prop) : Prop :=
  ∀ l turns r l' rest, m l turns = some (r, l', rest) → ∃ new, l'.log = l.log ++ new ∧ P r new

section Logs

variable {P P' : Except Failure α → List Entry → Prop} {Q : Except Failure β → List Entry → Prop}

theorem Logs.mono {m : Run α} (h : Logs m P) (himp : ∀ r new, P r new → P' r new) : Logs m P' := by
  intro l turns r l' rest hrun
  obtain ⟨new, hlog, hP⟩ := h l turns r l' rest hrun
  exact ⟨new, hlog, himp r new hP⟩

theorem Logs.pure {a : α} (h : P (.ok a) []) : Logs (pure a) P := by
  intro l turns r l' rest hrun
  cases hrun
  exact ⟨[], by simp, h⟩

theorem Logs.throw {e : Failure} (h : P (.error e) []) : Logs (throw e) P := by
  intro l turns r l' rest hrun
  cases hrun
  exact ⟨[], by simp, h⟩

theorem Logs.unfinished : Logs unfinished P := by
  intro l turns r l' rest hrun
  cases hrun

theorem Logs.after {m : Run α} {k : Except Failure α → Run β} (hm : Logs m P)
    (hk : ∀ r new, P r new → Logs (k r) fun r' new' => Q r' (new ++ new')) : Logs (after m k) Q := by
  intro l turns r l' rest hrun
  obtain ⟨⟨r₁, l₁, turns₁⟩, hm₁, hk₁⟩ := Option.bind_eq_some_iff.1 hrun
  obtain ⟨new, hlog, hP⟩ := hm l turns r₁ l₁ turns₁ hm₁
  obtain ⟨new', hlog', hQ⟩ := hk r₁ new hP l₁ turns₁ r l' rest hk₁
  exact ⟨new ++ new', by rw [hlog', hlog, List.append_assoc], hQ⟩

theorem Logs.bind {m : Run α} {f : α → Run β} (hm : Logs m P)
    (hok : ∀ a new, P (.ok a) new → Logs (f a) fun r' new' => Q r' (new ++ new'))
    (herror : ∀ e new, P (.error e) new → Q (.error e) new) : Logs (m >>= f) Q := by
  refine hm.after fun r new hP => ?_
  cases r with
  | ok a => exact hok a new hP
  | error e => exact .throw (by rw [List.append_nil]; exact herror e new hP)

theorem Logs.catching {m : Run α} {h : Failure → Run α} (hm : Logs m P)
    (hok : ∀ a new, P (.ok a) new → P' (.ok a) new)
    (herror : ∀ e new, P (.error e) new → Logs (h e) fun r' new' => P' r' (new ++ new')) : Logs (catching m h) P' := by
  refine hm.after fun r new hP => ?_
  cases r with
  | ok a => exact .pure (by rw [List.append_nil]; exact hok a new hP)
  | error e => exact herror e new hP

/-- A cleanup that logs more, and never less than the program did. -/
theorem Logs.onError {m : Run α} {cleanup : Run Unit} {C : Except Failure Unit → List Entry → Prop} (hm : Logs m P)
    (hcleanup : Logs cleanup C) (hok : ∀ a new, P (.ok a) new → P' (.ok a) new)
    (herror : ∀ e new r new' e', P (.error e) new → C r new' → P' (.error e') (new ++ new')) :
    Logs (onError m cleanup) P' := by
  refine hm.catching hok fun e new hP => ?_
  refine hcleanup.bind (fun _ new' hC => ?_) fun e' new' hC => herror e new _ new' e' hP hC
  exact .throw (by rw [List.append_nil]; exact herror e new _ new' e hP hC)

theorem Logs.suppress {m : Run α} {Q : Except Failure Unit → List Entry → Prop} (hm : Logs m P)
    (h : ∀ r r' new, P r new → Q r' new) : Logs (suppress m) Q := by
  refine hm.after fun r new hP => ?_
  split
  · exact .throw (by rw [List.append_nil]; exact h _ _ _ hP)
  · exact .pure (by rw [List.append_nil]; exact h _ _ _ hP)

theorem write_logs (data : Bytes) : Logs (write data) fun r new =>
    (r = .ok () ∧ new = [.write data true]) ∨ ∃ e, r = .error e ∧ new = [.write data false] := by
  intro l turns r l' rest hrun
  obtain ⟨fault, -, rfl, rfl⟩ := write_run hrun
  refine ⟨_, rfl, ?_⟩
  cases fault with
  | none => exact .inl ⟨rfl, rfl⟩
  | some f => exact .inr ⟨f, rfl, rfl⟩

theorem untilLoop_log {terminator : Bytes} {l l' : Line} {turns rest : List Turn} {r : Except Failure Bytes}
    (h : untilLoop terminator turns l = some (r, l', rest)) : l'.log = l.log := by
  fun_induction untilLoop terminator turns l with
  | case1 l =>
    obtain ⟨⟨piece, tail⟩, -, heq⟩ := Option.map_eq_some_iff.1 h
    cases heq
    rfl
  | case2 t turns l piece tail hcut =>
    cases h
    rfl
  | case3 l hcut turns =>
    cases h
    rfl
  | case4 l hcut f turns =>
    cases h
    rfl
  | case5 l hcut chunk turns l₁ hcap =>
    simp only [Option.some.injEq, Prod.mk.injEq] at h
    obtain ⟨-, rfl, -⟩ := h
    rfl
  | case6 l hcut chunk turns l₁ hcap ih => exact ih h
  | case7 => cases h

private theorem upTo_logs (terminator : Bytes) : Logs (upTo terminator) fun _ new => new = [] := by
  intro l turns r l' rest hrun
  exact ⟨[], by simp [untilLoop_log hrun], rfl⟩

private theorem isLate_logs : Logs isLate fun _ new => new = [] := by
  intro l turns r l' rest hrun
  obtain ⟨_, _, rfl, _⟩ := isLate_run hrun
  exact ⟨[], by simp, rfl⟩

/-- A write of the dance. -/
def Entry.IsDance (e : Entry) : Prop :=
  ∃ data ok, e = .write data ok ∧ (data = [ctrlB] ∨ data = [ctrlC, ctrlC] ∨ data = [ctrlA])

theorem write_isDance {data : Bytes} (h : data = [ctrlB] ∨ data = [ctrlC, ctrlC] ∨ data = [ctrlA]) :
    Logs (write data) fun _ new => ∀ e ∈ new, e.IsDance := by
  refine (write_logs data).mono ?_
  rintro r new (⟨-, rfl⟩ | ⟨_, -, rfl⟩) e hmem
  · exact ⟨data, true, List.mem_singleton.1 hmem, h⟩
  · exact ⟨data, false, List.mem_singleton.1 hmem, h⟩

private theorem forall_append {Q : Entry → Prop} {a b : List Entry} (ha : ∀ e ∈ a, Q e) (hb : ∀ e ∈ b, Q e) :
    ∀ e ∈ a ++ b, Q e := fun e hmem => (List.mem_append.1 hmem).elim (ha e) (hb e)

/-- Entering raw mode sends nothing but the dance. -/
theorem enter_logs (fuel : Nat) : Logs (enter fuel) fun _ new => ∀ e ∈ new, e.IsDance := by
  have hdance : Logs dance fun _ new => ∀ e ∈ new, e.IsDance := by
    refine (write_isDance (.inl rfl)).bind (fun _ _ h => ?_) fun _ _ h => h
    refine (write_isDance (.inr (.inl rfl))).bind (fun _ _ h' => ?_) fun _ _ h' => forall_append h h'
    refine (write_isDance (.inr (.inr rfl))).bind (fun _ _ h'' => ?_) fun _ _ h'' =>
      forall_append h (forall_append h' h'')
    have hwritten := forall_append h (forall_append h' h'')
    refine (upTo_logs _).bind ?_ ?_
    · rintro _ _ rfl
      refine (upTo_logs _).bind ?_ ?_
      · rintro _ _ rfl
        exact .pure (by simpa using hwritten)
      · rintro _ _ rfl
        simpa using hwritten
    · rintro _ _ rfl
      simpa using hwritten
  induction fuel with
  | zero => exact .unfinished
  | succ fuel ih =>
    refine hdance.catching (fun _ _ h => h) fun e new h => ?_
    split
    · -- the handler looks at the clock and may try again
      refine isLate_logs.bind ?_ ?_
      · rintro late _ rfl
        split
        · exact .throw (by simpa using h)
        · exact ih.mono fun _ _ h' => forall_append h h'
      · rintro _ _ rfl
        simpa using h
    · exact .throw (by simpa using h)

/-- A command that returns was accepted; one that fails may have been. -/
theorem exec_logs (command : List Char) : Logs (exec_ command) fun r new =>
    (∃ text, r = .ok text ∧ new = [.write (encode command ++ [ctrlD]) true, .returned command]) ∨
      ∃ e ok, r = .error e ∧ new = [.write (encode command ++ [ctrlD]) ok] := by
  refine (write_logs _).bind ?_ ?_
  · rintro _ new (⟨-, rfl⟩ | ⟨e, h, -⟩)
    · refine (upTo_logs _).bind ?_ fun e _ hnil => .inr ⟨e, true, rfl, by rw [hnil]; rfl⟩
      rintro out _ rfl
      refine (upTo_logs _).bind ?_ fun e _ hnil => .inr ⟨e, true, rfl, by rw [hnil]; rfl⟩
      rintro err _ rfl
      refine (upTo_logs _).bind ?_ fun e _ hnil => .inr ⟨e, true, rfl, by rw [hnil]; rfl⟩
      rintro _ _ rfl
      cases answer out err with
      | ok text =>
        intro l turns r l' rest hrun
        cases hrun
        exact ⟨[.returned command], rfl, .inl ⟨text, rfl, rfl⟩⟩
      | error e => exact .throw (.inr ⟨_, true, rfl, rfl⟩)
    · cases h
  · rintro e new (⟨h, -⟩ | ⟨e', h, rfl⟩)
    · cases h
    · exact .inr ⟨e, false, rfl, rfl⟩

end Logs

end IronHarness.Board.Fallible
