import IronHarness.Lib.Flow
import IronHarness.Modbus.Sim

/-!
# The Modbus server and its clients

`ModbusSimServer` (io_core/modbus_sim.py): each connection has a thread, which receives its frames in pieces and
answers them from the registers that all threads share.  In any interleaving, and however the bytes are cut into pieces,
the server is a serial one: the frames of all connections are answered in one order, each with the identifiers it came
with (`server_is_serial`).  What a connection gets that has the server for itself is what `handle` gives for the whole
stream (`alone_is_handle`).
-/

namespace IronHarness.Modbus

open ByteText Runs

/-! ### Frames -/

/-- A header that is served: `need` bytes of a PDU follow. -/
structure Head where
  tid : UInt8 × UInt8
  uid : UInt8
  need : Nat
  fits : need ≤ 259

/-- The header, or none where the connection is dropped for it. -/
def headOf : Bytes → Option Head
  | [t, t', p, p', l, l', uid] =>
    if h : wordOf p p' = 0 ∧ 1 ≤ wordOf l l' ∧ wordOf l l' ≤ 260 then
      some ⟨(t, t'), uid, wordOf l l' - 1, by omega⟩
    else none
  | _ => none

structure Frame where
  head : Head
  pdu : Bytes
  whole : pdu.length = head.need

def Head.encode (head : Head) : Bytes := [head.tid.1, head.tid.2] ++ packH [0, head.need + 1] ++ [head.uid]

def Frame.encode (f : Frame) : Bytes := f.head.encode ++ f.pdu

/-- The response with the identifiers of the frame. -/
def Frame.framed (f : Frame) (response : Bytes) : Bytes :=
  Modbus.framed [f.head.tid.1, f.head.tid.2] f.head.uid response

private theorem encode_headOf {buf : Bytes} {head : Head} (h : headOf buf = some head) : head.encode = buf := by
  unfold headOf at h
  split at h
  · rename_i t t' p p' l l' uid
    split at h
    · rename_i hfits
      obtain rfl := Option.some.inj h
      have hlength : wordOf l l' - 1 + 1 = wordOf l l' := by omega
      have hproto : packH [0] = [p, p'] := by rw [← hfits.1, packH_word]
      have hwords : packH [0, wordOf l l'] = [p, p', l, l'] := by
        rw [packH_cons, hproto, packH_word]
        rfl
      show [t, t'] ++ packH [0, wordOf l l' - 1 + 1] ++ [uid] = [t, t', p, p', l, l', uid]
      rw [hlength, hwords]
      rfl
    · cases h
  · cases h

/-! ### The server -/

/-- Where the thread of a connection is; `buf` is what it has of the header or of the PDU. -/
inductive Pc
  | header (buf : Bytes)
  | body (head : Head) (buf : Bytes)
  /-- in `_handle_pdu` -/
  | handles (f : Frame)
  | sends (response : Bytes)
  /-- `sendall` raised -/
  | failed (response : Bytes)
  /-- the client is gone or its header is dropped; `rest` is no whole frame -/
  | closed (rest : Bytes)
  /-- `_handle_pdu` raised -/
  | crashed (f : Frame) (e : Raised)

/-- The bytes that `_recv_exact` still waits for. -/
def Pc.wants : Pc → Nat
  | .header buf => 7 - buf.length
  | .body head buf => head.need - buf.length
  | _ => 0

def Pc.fill (more : Bytes) : Pc → Pc
  | .header buf => .header (buf ++ more)
  | .body head buf => .body head (buf ++ more)
  | pc => pc

/-- What has been received of the frame that is not answered yet. -/
def Pc.begun : Pc → Bytes
  | .header buf => buf
  | .body head buf => head.encode ++ buf
  | .handles f => f.encode
  | .closed rest => rest
  | _ => []

/-- The response that has been made and not sent. -/
def Pc.owed : Pc → List Bytes
  | .sends response | .failed response => [response]
  | _ => []

variable {κ : Type}

/-- The server; `wire` is what a client has sent and its thread has not received. -/
structure Server (κ : Type) where
  registers : Registers
  wire : κ → Bytes
  pcs : κ → Pc

def Server.init (registers : Registers) : Server κ := ⟨registers, fun _ => [], fun _ => .header []⟩

inductive ServerAct (κ : Type)
  | client (k : κ) (chunk : Bytes)
  /-- `recv` returns `n` bytes -/
  | recv (k : κ) (n : Nat)
  /-- `recv` returns nothing or raises -/
  | gone (k : κ)
  | step (k : κ)
  /-- `sendall` raises -/
  | breaks (k : κ)

section

variable [DecidableEq κ]

def Server.goto (s : Server κ) (k : κ) (pc : Pc) : Server κ := { s with pcs := Function.update s.pcs k pc }

/-- The next step of a thread that does not wait.  `_handle_pdu` is one step: it takes or sets one slice of a list whose
length never changes. -/
def Server.next (s : Server κ) (k : κ) : Option (Server κ) :=
  match s.pcs k with
  | .header buf =>
    if buf.length = 7 then
      match headOf buf with
      | none => some (s.goto k (.closed buf))
      | some head =>
        -- a frame of length 1 has no PDU and is refused at once
        if h : head.need = 0 then some (s.goto k (.sends (Frame.framed ⟨head, [], h.symm⟩ [0x80, 0x01])))
        else some (s.goto k (.body head []))
    else none
  | .body head buf => if h : buf.length = head.need then some (s.goto k (.handles ⟨head, buf, h⟩)) else none
  | .handles f =>
    match handlePdu s.registers f.pdu with
    | (.ok response, regs) => some { s.goto k (.sends (f.framed response)) with registers := regs }
    | (.error e, regs) => some { s.goto k (.crashed f e) with registers := regs }
  | .sends _ => some (s.goto k (.header []))
  | .failed _ | .closed _ | .crashed _ _ => none

def Server.act (s : Server κ) : ServerAct κ → Option (Server κ)
  | .client k chunk => some { s with wire := Function.update s.wire k (s.wire k ++ chunk) }
  | .recv k n =>
    if 1 ≤ n ∧ n ≤ (s.pcs k).wants ∧ n ≤ (s.wire k).length then
      some { s.goto k ((s.pcs k).fill ((s.wire k).take n)) with
        wire := Function.update s.wire k ((s.wire k).drop n) }
    else none
  | .gone k => if 0 < (s.pcs k).wants then some (s.goto k (.closed (s.pcs k).begun)) else none
  | .step k => s.next k
  | .breaks k =>
    match s.pcs k with
    | .sends response => some (s.goto k (.failed response))
    | _ => none

/-! ### What is seen of a run -/

def sent (k : κ) (_ : Server κ) : ServerAct κ → Option Bytes
  | .client k' chunk => if k' = k then some chunk else none
  | _ => none

/-- The frame that a step answers, or raises for. -/
def served (s : Server κ) : ServerAct κ → Option (κ × Frame)
  | .step k =>
    match s.pcs k with
    | .header buf =>
      match headOf buf with
      | some head => if h : head.need = 0 then some (k, ⟨head, [], h.symm⟩) else none
      | none => none
    | .handles f => some (k, f)
    | _ => none
  | _ => none

def answered (k : κ) (s : Server κ) : ServerAct κ → Option Bytes
  | .step k' =>
    match s.pcs k' with
    | .sends response => if k' = k then some response else none
    | _ => none
  | _ => none

/-- What is the connection's. -/
def own {β : Type} (k : κ) (x : κ × β) : Option β := if x.1 = k then some x.2 else none

end

/-! ### The serial server -/

/-- The answer to one frame. -/
def replyTo (regs : Registers) (x : κ × Frame) : Option (κ × Bytes) :=
  match (handlePdu regs x.2.pdu).1 with
  | .ok response => some (x.1, x.2.framed response)
  | .error _ => none

/-- The answers to frames that come one after the other. -/
def serve : Registers → List (κ × Frame) → List (κ × Bytes)
  | _, [] => []
  | regs, x :: log => (replyTo regs x).toList ++ serve (handlePdu regs x.2.pdu).2 log

theorem after_append (regs : Registers) (pdus more : List Bytes) :
    after regs (pdus ++ more) = after (after regs pdus) more :=
  List.foldl_append

private theorem serve_append (regs : Registers) (log more : List (κ × Frame)) :
    serve regs (log ++ more) = serve regs log ++ serve (after regs (log.map fun x => x.2.pdu)) more := by
  induction log generalizing regs with
  | nil => rfl
  | cons x log ih =>
    rw [List.cons_append, serve, serve, ih, List.append_assoc]
    rfl

/-! ### What a step does -/

section

variable [DecidableEq κ]

@[simp] def ServerAct.conn : ServerAct κ → κ
  | .client k _ | .recv k _ | .gone k | .step k | .breaks k => k

inductive Server.Steps (s : Server κ) : ServerAct κ → Server κ → Prop
  | client {k : κ} {chunk : Bytes} :
    s.Steps (.client k chunk) { s with wire := Function.update s.wire k (s.wire k ++ chunk) }
  | recv {k : κ} {n : Nat} (hn : 1 ≤ n) (hwants : n ≤ (s.pcs k).wants) :
    s.Steps (.recv k n)
      { s.goto k ((s.pcs k).fill ((s.wire k).take n)) with wire := Function.update s.wire k ((s.wire k).drop n) }
  | gone {k : κ} (hwants : 0 < (s.pcs k).wants) : s.Steps (.gone k) (s.goto k (.closed (s.pcs k).begun))
  | drops {k : κ} {buf : Bytes} (hpc : s.pcs k = .header buf) (hhead : headOf buf = none) :
    s.Steps (.step k) (s.goto k (.closed buf))
  | refuses {k : κ} {buf : Bytes} {head : Head} (hpc : s.pcs k = .header buf) (hhead : headOf buf = some head)
    (hneed : head.need = 0) :
    s.Steps (.step k) (s.goto k (.sends (Frame.framed ⟨head, [], hneed.symm⟩ [0x80, 0x01])))
  | heads {k : κ} {buf : Bytes} {head : Head} (hpc : s.pcs k = .header buf) (hhead : headOf buf = some head)
    (hneed : head.need ≠ 0) : s.Steps (.step k) (s.goto k (.body head []))
  | whole {k : κ} {head : Head} {buf : Bytes} (hpc : s.pcs k = .body head buf) (h : buf.length = head.need) :
    s.Steps (.step k) (s.goto k (.handles ⟨head, buf, h⟩))
  | answers {k : κ} {f : Frame} {response : Bytes} {regs : Registers} (hpc : s.pcs k = .handles f)
    (hanswer : handlePdu s.registers f.pdu = (.ok response, regs)) :
    s.Steps (.step k) { s.goto k (.sends (f.framed response)) with registers := regs }
  | raises {k : κ} {f : Frame} {e : Raised} {regs : Registers} (hpc : s.pcs k = .handles f)
    (hanswer : handlePdu s.registers f.pdu = (.error e, regs)) :
    s.Steps (.step k) { s.goto k (.crashed f e) with registers := regs }
  | sends {k : κ} {response : Bytes} (hpc : s.pcs k = .sends response) : s.Steps (.step k) (s.goto k (.header []))
  | breaks {k : κ} {response : Bytes} (hpc : s.pcs k = .sends response) :
    s.Steps (.breaks k) (s.goto k (.failed response))

theorem step_steps {s s' : Server κ} {a : ServerAct κ} (h : s.act a = some s') : s.Steps a s' := by
  cases a with
  | client k chunk =>
    obtain rfl := Option.some.inj h
    exact .client
  | recv k n =>
    rw [Server.act] at h
    split at h
    · rename_i hn
      obtain rfl := Option.some.inj h
      exact .recv hn.1 hn.2.1
    · cases h
  | gone k =>
    rw [Server.act] at h
    split at h
    · obtain rfl := Option.some.inj h
      exact .gone ‹_›
    · cases h
  | breaks k =>
    rw [Server.act] at h
    split at h
    · obtain rfl := Option.some.inj h
      exact .breaks ‹_›
    · cases h
  | step k =>
    rw [Server.act, Server.next] at h
    cases hpc : s.pcs k with
    | header buf =>
      rw [hpc] at h
      dsimp only at h
      split at h
      · split at h
        · obtain rfl := Option.some.inj h
          exact .drops hpc ‹_›
        · rename_i head hhead
          split at h
          · rename_i hneed
            obtain rfl := Option.some.inj h
            exact .refuses hpc hhead hneed
          · rename_i hneed
            obtain rfl := Option.some.inj h
            exact .heads hpc hhead hneed
      · cases h
    | body head buf =>
      rw [hpc] at h
      dsimp only at h
      split at h
      · obtain rfl := Option.some.inj h
        exact .whole hpc ‹_›
      · cases h
    | handles f =>
      rw [hpc] at h
      dsimp only at h
      split at h
      · obtain rfl := Option.some.inj h
        exact .answers hpc ‹_›
      · obtain rfl := Option.some.inj h
        exact .raises hpc ‹_›
    | sends response =>
      rw [hpc] at h
      obtain rfl := Option.some.inj h
      exact .sends hpc
    | _ =>
      rw [hpc] at h
      cases h

/-- The other connections stay where they are. -/
theorem Server.Steps.other {s s' : Server κ} {a : ServerAct κ} {k : κ} (hstep : s.Steps a s') (hk : k ≠ a.conn) :
    s'.pcs k = s.pcs k ∧ s'.wire k = s.wire k := by
  cases hstep <;> exact ⟨by first | rfl | exact Function.update_of_ne hk _ _,
    by first | rfl | exact Function.update_of_ne hk _ _⟩

end

/-! ### Registers and answers -/

private theorem handlePdu_spec {regs : Registers} (h : Words regs) (f : Frame) :
    Words (handlePdu regs f.pdu).2 ∧ (handlePdu regs f.pdu).2.length = regs.length ∧
      ∀ e, (handlePdu regs f.pdu).1 = .error e → e = .valueError ∧ Overlong regs.length f.pdu := by
  by_cases hempty : f.pdu = []
  · rw [hempty]
    exact ⟨h, rfl, fun e he => by cases he⟩
  by_cases hover : Overlong regs.length f.pdu
  · rw [not_sound_overlong hover]
    refine ⟨h, rfl, fun e he => ?_⟩
    obtain rfl := Except.error.inj he
    exact ⟨rfl, hover⟩
  · have hlong : f.pdu.length ≤ 259 := f.whole ▸ f.head.fits
    have hsound := sound_of_not_overlong h hlong (List.length_pos_of_ne_nil hempty) hover
    refine ⟨hsound.words, hsound.count, fun e he => ?_⟩
    obtain ⟨response, hresponse⟩ := hsound.responds
    rw [hresponse] at he
    cases he

private theorem replyTo_eq_none {regs : Registers} (h : Words regs) {x : κ × Frame} :
    replyTo regs x = none ↔ Overlong regs.length x.2.pdu := by
  constructor
  · intro hnone
    unfold replyTo at hnone
    split at hnone
    · cases hnone
    · rename_i e he
      exact ((handlePdu_spec h x.2).2.2 e he).2
  · intro hover
    rw [replyTo, not_sound_overlong hover]

section

variable [DecidableEq κ] {s s' : Server κ} {a : ServerAct κ} {acts : List (ServerAct κ)} {regs : Registers}

private theorem registers_step (hstep : s.Steps a s') :
    s'.registers = after s.registers ((served s a).toList.map fun x => x.2.pdu) := by
  cases hstep with
  | drops hpc hhead => simp [served, hpc, hhead, after, Server.goto]
  | refuses hpc hhead hneed =>
    simp only [served, hpc, hhead, hneed, ↓reduceDIte, Option.toList_some, List.map_cons, List.map_nil]
    rfl
  | heads hpc hhead hneed => simp [served, hpc, hhead, hneed, after, Server.goto]
  | answers hpc hanswer => simp [served, hpc, after, hanswer]
  | raises hpc hanswer => simp [served, hpc, after, hanswer]
  | _ => simp [served, after, Server.goto, *]

/-- The answer that a step makes. -/
def replied (s : Server κ) (a : ServerAct κ) : Option (κ × Bytes) := (served s a).bind (replyTo s.registers)

private theorem registers_run (hrun : run Server.act s acts = some s') :
    s'.registers = after s.registers ((seen Server.act served s acts).map fun x => x.2.pdu) := by
  induction acts generalizing s with
  | nil =>
    obtain rfl := Option.some.inj hrun
    rfl
  | cons a acts ih =>
    obtain ⟨t, ht, hrest⟩ := run_cons_eq_some.1 hrun
    rw [ih hrest, registers_step (step_steps ht), seen_cons ht, List.map_append, after_append]

/-- The answers of a run are those of the serial server. -/
private theorem replied_run (hrun : run Server.act s acts = some s') :
    seen Server.act replied s acts = serve s.registers (seen Server.act served s acts) := by
  induction acts generalizing s with
  | nil => rfl
  | cons a acts ih =>
    obtain ⟨t, ht, hrest⟩ := run_cons_eq_some.1 hrun
    have hnow : (replied s a).toList = serve s.registers (served s a).toList := by
      unfold replied
      cases served s a with
      | none => rfl
      | some x =>
        show (replyTo s.registers x).toList = (replyTo s.registers x).toList ++ []
        rw [List.append_nil]
    rw [seen_cons ht, seen_cons ht, serve_append, ih hrest, registers_step (step_steps ht), hnow]

/-! ### One connection -/

omit [DecidableEq κ] in
private theorem served_conn {x : κ × Frame} (h : served s a = some x) : x.1 = a.conn := by
  cases a with
  | step k =>
    simp only [served] at h
    split at h
    · split at h
      · split at h
        · obtain rfl := Option.some.inj h
          rfl
        · cases h
      · cases h
    · obtain rfl := Option.some.inj h
      rfl
    · cases h
  | _ => cases h

omit [DecidableEq κ] in
private theorem replied_conn {x : κ × Bytes} (h : replied s a = some x) : x.1 = a.conn := by
  obtain ⟨y, hy, hx⟩ := Option.bind_eq_some_iff.1 h
  unfold replyTo at hx
  split at hx
  · obtain rfl := Option.some.inj hx
    exact served_conn hy
  · cases hx

private theorem own_all {β : Type} {k : κ} {log : List (κ × β)} (h : ∀ x ∈ log, x.1 = k) :
    log.filterMap (own k) = log.map Prod.snd := by
  rw [← List.filterMap_eq_map]
  exact List.filterMap_congr fun x hx => if_pos (h x hx)

private theorem own_other {β : Type} {o : Option (κ × β)} {k : κ} (h : ∀ x, o = some x → x.1 ≠ k) :
    o.bind (own k) = none := by
  cases o with
  | none => rfl
  | some x => exact if_neg (h x rfl)

/-- A step of one connection is not seen at the others. -/
private theorem seen_other {k : κ} (hk : k ≠ a.conn) : sent k s a = none ∧ answered k s a = none ∧
    (served s a).bind (own k) = none ∧ (replied s a).bind (own k) = none := by
  refine ⟨?_, ?_, own_other fun x hx => ?_, own_other fun x hx => ?_⟩
  · cases a with
    | client k' chunk => exact if_neg (Ne.symm hk)
    | _ => rfl
  · cases a with
    | step k' =>
      simp only [answered]
      split
      · exact if_neg (Ne.symm hk)
      · rfl
    | _ => rfl
  · rw [served_conn hx]
    exact Ne.symm hk
  · rw [replied_conn hx]
    exact Ne.symm hk

private theorem begun_closed (rest : Bytes) : (Pc.closed rest).begun = rest := rfl

private theorem owed_closed (rest : Bytes) : (Pc.closed rest).owed = [] := rfl

private theorem begun_fill {pc : Pc} {more : Bytes} (h : 0 < pc.wants) : (pc.fill more).begun = pc.begun ++ more := by
  cases pc with
  | header buf => rfl
  | body head buf => exact (List.append_assoc _ _ _).symm
  | _ => exact absurd h (Nat.lt_irrefl 0)

private theorem owed_of_wants {pc : Pc} (h : 0 < pc.wants) : pc.owed = [] := by
  cases pc with
  | header buf => rfl
  | body head buf => rfl
  | _ => exact absurd h (Nat.lt_irrefl 0)

private theorem owed_fill {pc : Pc} {more : Bytes} (h : 0 < pc.wants) : (pc.fill more).owed = [] := by
  cases pc with
  | header buf => rfl
  | body head buf => rfl
  | _ => exact absurd h (Nat.lt_irrefl 0)

/-- The bytes of a client go into its frames, in order, and the rest is on its way. -/
private theorem stream_step (hstep : s.Steps a s') (k : κ) :
    ((s.pcs k).begun ++ s.wire k) ++ (sent k s a).toList.flatMap id =
      ((served s a).bind (own k)).toList.flatMap Frame.encode ++ ((s'.pcs k).begun ++ s'.wire k) := by
  by_cases hk : k = a.conn
  · subst hk
    cases hstep with
    | client =>
      simp [sent, served]
    | @recv k n hn hwants =>
      have hfill : ((s.pcs k).fill ((s.wire k).take n)).begun = (s.pcs k).begun ++ (s.wire k).take n :=
        begun_fill (Nat.lt_of_lt_of_le hn hwants)
      simp [sent, served, Server.goto, hfill]
    | gone hwants =>
      simp [sent, served, Server.goto, begun_closed]
    | drops hpc hhead =>
      simp [Pc.begun, sent, served, Server.goto, hpc, hhead]
    | refuses hpc hhead hneed =>
      simp [Pc.begun, sent, served, Server.goto, hpc, hhead, hneed, own, Frame.encode,
        encode_headOf hhead]
    | heads hpc hhead hneed =>
      simp [Pc.begun, sent, served, Server.goto, hpc, hhead, hneed, encode_headOf hhead]
    | whole hpc h =>
      simp [Pc.begun, sent, served, Server.goto, hpc, Frame.encode]
    | answers hpc hanswer =>
      simp [Pc.begun, sent, served, Server.goto, hpc, own]
    | raises hpc hanswer =>
      simp [Pc.begun, sent, served, Server.goto, hpc, own]
    | sends hpc =>
      simp [Pc.begun, sent, served, Server.goto, hpc]
    | breaks hpc =>
      simp [Pc.begun, sent, served, Server.goto, hpc]
  · obtain ⟨hpcs, hwire⟩ := hstep.other hk
    obtain ⟨hsent, -, hserved, -⟩ := seen_other (s := s) hk
    rw [hpcs, hwire, hsent, hserved]
    exact List.append_nil _

/-- A response that is made is sent, or owed. -/
private theorem answers_step (hstep : s.Steps a s') (k : κ) :
    (s.pcs k).owed ++ ((replied s a).bind (own k)).toList.flatMap (fun r => [r]) =
      (answered k s a).toList.flatMap (fun r => [r]) ++ (s'.pcs k).owed := by
  by_cases hk : k = a.conn
  · subst hk
    cases hstep with
    | client =>
      simp [replied, answered, served]
    | recv hn hwants =>
      have hpos := Nat.lt_of_lt_of_le hn hwants
      simp [replied, answered, served, Server.goto, owed_of_wants hpos, owed_fill hpos]
    | gone hwants =>
      simp [replied, answered, served, Server.goto, owed_of_wants hwants, owed_closed]
    | drops hpc hhead =>
      simp [Pc.owed, replied, answered, served, Server.goto, hpc, hhead]
    | refuses hpc hhead hneed =>
      simp [Pc.owed, replied, answered, served, Server.goto, hpc, hhead, hneed, own, replyTo, handlePdu]
    | heads hpc hhead hneed =>
      simp [Pc.owed, replied, answered, served, Server.goto, hpc, hhead, hneed]
    | whole hpc h =>
      simp [Pc.owed, replied, answered, served, Server.goto, hpc]
    | answers hpc hanswer =>
      simp [Pc.owed, replied, answered, served, Server.goto, hpc, own, replyTo, hanswer]
    | raises hpc hanswer =>
      simp [Pc.owed, replied, answered, served, Server.goto, hpc, replyTo, hanswer]
    | sends hpc =>
      simp [Pc.owed, replied, answered, served, Server.goto, hpc]
    | breaks hpc =>
      simp [Pc.owed, replied, answered, served, Server.goto, hpc]
  · obtain ⟨hpcs, -⟩ := hstep.other hk
    obtain ⟨-, hanswered, -, hreplied⟩ := seen_other (s := s) hk
    rw [hpcs, hanswered, hreplied]
    exact List.append_nil _

private theorem stream_run (hrun : run Server.act s acts = some s') (k : κ) :
    ((s.pcs k).begun ++ s.wire k) ++ (seen Server.act (sent k) s acts).flatten =
      ((seen Server.act served s acts).filterMap (own k)).flatMap Frame.encode ++ ((s'.pcs k).begun ++ s'.wire k) := by
  have hbalance := seen_balance (fun s a s' hact => stream_step (step_steps hact) k) hrun
  rwa [seen_filterMap, List.flatMap_id] at hbalance

private theorem answers_run (hrun : run Server.act s acts = some s') (k : κ) :
    (s.pcs k).owed ++ (serve s.registers (seen Server.act served s acts)).filterMap (own k) =
      seen Server.act (answered k) s acts ++ (s'.pcs k).owed := by
  have hbalance := seen_balance (fun s a s' hact => answers_step (step_steps hact) k) hrun
  rwa [seen_filterMap, replied_run hrun, List.flatMap_singleton', List.flatMap_singleton'] at hbalance

/-! ### Who crashes -/

/-- The registers are the words they were, by number, and a thread crashes only where too many are asked for. -/
structure Server.Sound (count : Nat) (s : Server κ) : Prop where
  words : Words s.registers
  length : s.registers.length = count
  crashed : ∀ k f e, s.pcs k = .crashed f e → e = .valueError ∧ Overlong count f.pdu

private theorem crashed_goto {k : κ} {pc : Pc} {P : Frame → Raised → Prop}
    (h : ∀ k f e, s.pcs k = .crashed f e → P f e) (hpc : ∀ f e, pc = .crashed f e → P f e) :
    ∀ k' f e, (s.goto k pc).pcs k' = .crashed f e → P f e := by
  intro k' f e hk'
  by_cases hne : k' = k
  · subst hne
    exact hpc f e ((Function.update_self _ _ _).symm.trans hk')
  · exact h k' f e ((Function.update_of_ne hne _ _).symm.trans hk')

private theorem fill_crashed {pc : Pc} {more : Bytes} {f : Frame} {e : Raised} (h : pc.fill more = .crashed f e) :
    pc = .crashed f e := by
  cases pc with
  | header buf => cases h
  | body head buf => cases h
  | _ => exact h

theorem Server.Sound.step {count : Nat} (h : s.Sound count) (hstep : s.Steps a s') : s'.Sound count := by
  obtain ⟨hwords, hcount, hcrashed⟩ := h
  cases hstep with
  | client => exact ⟨hwords, hcount, hcrashed⟩
  | @recv k n hn hwants =>
    refine ⟨hwords, hcount, ?_⟩
    exact crashed_goto hcrashed fun f e hpc => hcrashed k f e (fill_crashed hpc)
  | @answers k f response regs hpc hanswer =>
    obtain ⟨hwords', hcount', -⟩ := handlePdu_spec hwords f
    rw [hanswer] at hwords' hcount'
    refine ⟨hwords', hcount'.trans hcount, ?_⟩
    exact crashed_goto hcrashed fun f e hpc => by cases hpc
  | @raises k f e regs hpc hanswer =>
    obtain ⟨hwords', hcount', herror⟩ := handlePdu_spec hwords f
    rw [hanswer] at hwords' hcount' herror
    refine ⟨hwords', hcount'.trans hcount, ?_⟩
    refine crashed_goto hcrashed fun f' e' hpc => ?_
    cases hpc
    rw [← hcount]
    exact herror e rfl
  | _ => exact ⟨hwords, hcount, crashed_goto hcrashed fun f e hpc => by cases hpc⟩

theorem sound_run (hwords : Words regs) (hrun : run Server.act (Server.init regs) acts = some s) :
    s.Sound regs.length := by
  refine invariant (fun s a s' hact h => Server.Sound.step h (step_steps hact)) hrun ⟨hwords, rfl, ?_⟩
  intro k f e hpc
  cases hpc

omit [DecidableEq κ] in
/-- The serial server answers every frame, but those that ask for too many registers. -/
private theorem serve_conns (hwords : Words regs) (log : List (κ × Frame)) :
    (serve regs log).map Prod.fst = (log.filter fun x => !decide (Overlong regs.length x.2.pdu)).map Prod.fst := by
  induction log generalizing regs with
  | nil => rfl
  | cons x log ih =>
    obtain ⟨hwords', hcount, -⟩ := handlePdu_spec hwords x.2
    rw [serve, List.map_append, ih hwords', hcount]
    by_cases hover : Overlong regs.length x.2.pdu
    · rw [(replyTo_eq_none hwords).2 hover, List.filter_cons_of_neg (by simpa using hover)]
      rfl
    · obtain ⟨y, hy⟩ := Option.ne_none_iff_exists'.1 fun hnone => hover ((replyTo_eq_none hwords).1 hnone)
      have hconn : y.1 = x.1 := by
        unfold replyTo at hy
        split at hy
        · obtain rfl := Option.some.inj hy
          rfl
        · cases hy
      rw [hy, List.filter_cons_of_pos (by simpa using hover)]
      simp [hconn]

/-! ### A connection that has the server for itself -/

omit [DecidableEq κ] in
private theorem handle_frame {regs' : Registers} {f : Frame} {response : Bytes}
    (h : handlePdu regs f.pdu = (.ok response, regs')) (n : Nat) (rest : Bytes) :
    handle (n + 1) regs (f.encode ++ rest) =
      (f.framed response :: (handle n regs' rest).1, (handle n regs' rest).2) := by
  obtain ⟨⟨⟨t, t'⟩, uid, need, fits⟩, pdu, whole⟩ := f
  have hencode : Frame.encode ⟨⟨(t, t'), uid, need, fits⟩, pdu, whole⟩ ++ rest =
      t :: t' :: 0 :: 0 :: UInt8.ofNat ((need + 1) / 256) :: UInt8.ofNat ((need + 1) % 256) :: uid :: (pdu ++ rest) :=
    rfl
  have hlength : wordOf (UInt8.ofNat ((need + 1) / 256)) (UInt8.ofNat ((need + 1) % 256)) = need + 1 :=
    wordOf_ofNat (by omega)
  have hpdu : pdu.length = need := whole
  rw [hencode, handle, hlength, if_neg (by decide), if_neg (by omega)]
  by_cases hneed : need = 0
  · have hnil : pdu = [] := List.eq_nil_of_length_eq_zero (hpdu.trans hneed)
    subst hnil
    obtain ⟨rfl, rfl⟩ : response = [0x80, 0x01] ∧ regs' = regs := by
      have hempty : handlePdu regs [] = (.ok [0x80, 0x01], regs) := rfl
      rw [show (Frame.pdu ⟨⟨(t, t'), uid, need, fits⟩, [], whole⟩) = [] from rfl, hempty] at h
      cases h
      exact ⟨rfl, rfl⟩
    rw [if_pos (by omega)]
    rfl
  · have htake : (pdu ++ rest).take (need + 1 - 1) = pdu := List.take_left' (by omega)
    have hdrop : (pdu ++ rest).drop (need + 1 - 1) = rest := List.drop_left' (by omega)
    have hanswer : handlePdu regs pdu = (.ok response, regs') := h
    rw [if_neg (by omega), if_neg (by rw [List.length_append]; omega), htake, hdrop, hanswer]
    rfl

omit [DecidableEq κ] in
private theorem handle_frames (hwords : Words regs) {log : List (κ × Frame)}
    (hfits : ∀ x ∈ log, ¬ Overlong regs.length x.2.pdu) (n : Nat) (rest : Bytes) :
    (handle (log.length + n) regs (log.flatMap (fun x => x.2.encode) ++ rest)).1 =
      (serve regs log).map Prod.snd ++ (handle n (after regs (log.map fun x => x.2.pdu)) rest).1 := by
  induction log generalizing regs with
  | nil =>
    rw [List.length_nil, Nat.zero_add]
    rfl
  | cons x log ih =>
    obtain ⟨hwords', hcount, herror⟩ := handlePdu_spec hwords x.2
    cases hanswer : handlePdu regs x.2.pdu with
    | mk answer regs' =>
      rw [hanswer] at hwords' hcount herror
      cases answer with
      | error e => exact absurd (herror e rfl).2 (hfits x List.mem_cons_self)
      | ok response =>
        have hrest : ∀ y ∈ log, ¬ Overlong regs'.length y.2.pdu := by
          rw [show regs'.length = regs.length from hcount]
          exact fun y hy => hfits y (List.mem_cons_of_mem x hy)
        have hlater := ih hwords' hrest
        rw [List.length_cons, Nat.add_right_comm, List.flatMap_cons, List.append_assoc, handle_frame hanswer, serve,
          replyTo, hanswer]
        have hafter : after regs (x.2.pdu :: log.map fun x => x.2.pdu) = after regs' (log.map fun x => x.2.pdu) := by
          rw [after, List.foldl_cons, hanswer]
          rfl
        dsimp only
        rw [hlater, List.map_cons, hafter]
        rfl

/-- The frames of a run in the order in which they are served. -/
def order (regs : Registers) (acts : List (ServerAct κ)) : List (κ × Frame) :=
  seen Server.act served (Server.init regs) acts

/-- In every run the registers are what the frames leave that were served, one after the other; the bytes of each client
are its frames among these and what is not served yet; and it was sent what the serial server answers these frames, but
for the response that its thread holds.  A thread crashes only for a frame that asks for too many registers. -/
theorem server_is_serial (hwords : Words regs) (hrun : run Server.act (Server.init regs) acts = some s) :
    (s.registers = after regs ((order regs acts).map fun x => x.2.pdu) ∧ Words s.registers ∧
      s.registers.length = regs.length) ∧
    ((serve regs (order regs acts)).map Prod.fst =
      ((order regs acts).filter fun x => !decide (Overlong regs.length x.2.pdu)).map Prod.fst) ∧
    ∀ k,
      (seen Server.act (sent k) (Server.init regs) acts).flatten =
        ((order regs acts).filterMap (own k)).flatMap Frame.encode ++ ((s.pcs k).begun ++ s.wire k) ∧
      (serve regs (order regs acts)).filterMap (own k) =
        seen Server.act (answered k) (Server.init regs) acts ++ (s.pcs k).owed ∧
      ∀ f e, s.pcs k = .crashed f e → e = .valueError ∧ Overlong regs.length f.pdu := by
  have hsound := sound_run hwords hrun
  refine ⟨⟨registers_run hrun, hsound.words, hsound.length⟩, serve_conns hwords _, ?_⟩
  intro k
  exact ⟨stream_run hrun k, answers_run hrun k, hsound.crashed k⟩

/-- One client writes 7 to register 1, its frame in two pieces; the other has asked before and is answered behind it. -/
def twoClients : List (ServerAct Bool) :=
  [.client true [0, 1, 0, 0, 0], .client false [0, 9, 0, 0, 0, 6, 2, 3, 0, 1, 0, 1], .recv false 7, .recv true 5,
    .client true [6, 1, 6, 0, 1, 0, 7], .step false, .recv true 2, .step true, .recv true 5, .step true, .recv false 5,
    .step true, .step false, .step false, .step true, .step false]

theorem server_is_serial_twoClients : ∃ s, run Server.act (Server.init [0, 0]) twoClients = some s ∧
    (serve [0, 0] (order [0, 0] twoClients)).filterMap (own false) = [[0, 9, 0, 0, 0, 5, 2, 3, 2, 0, 7]] := by
  obtain ⟨s, hrun⟩ : ∃ s, run Server.act (Server.init [0, 0]) twoClients = some s := ⟨_, rfl⟩
  obtain ⟨-, -, hconns⟩ := server_is_serial (by simp [Words]) hrun
  obtain ⟨-, hanswers, -⟩ := hconns false
  obtain rfl := Option.some.inj hrun
  exact ⟨_, rfl, hanswers.trans rfl⟩

/-- Where all frames are of one connection and none asks for too many registers, the responses are the first of those
that `handle` makes of all the bytes. -/
theorem alone_is_handle (hwords : Words regs) (hrun : run Server.act (Server.init regs) acts = some s) {k : κ}
    (halone : ∀ x ∈ order regs acts, x.1 = k) (hfits : ∀ x ∈ order regs acts, ¬ Overlong regs.length x.2.pdu)
    (n : Nat) :
    seen Server.act (answered k) (Server.init regs) acts ++ (s.pcs k).owed <+:
      (handle ((order regs acts).length + n) regs (seen Server.act (sent k) (Server.init regs) acts).flatten).1 := by
  have hstream : _ = _ := stream_run hrun k
  have hanswers := answers_run hrun k
  have hconns : ∀ x ∈ serve regs (order regs acts), x.1 = k := by
    intro x hx
    have hfst := List.mem_map_of_mem (f := Prod.fst) hx
    rw [serve_conns hwords] at hfst
    obtain ⟨y, hy, hyx⟩ := List.mem_map.1 hfst
    rw [← hyx]
    exact halone y (List.mem_of_mem_filter hy)
  rw [show seen Server.act served (Server.init regs) acts = order regs acts from rfl] at hstream hanswers
  rw [own_all halone, List.flatMap_map] at hstream
  rw [show (Server.init regs : Server κ).registers = regs from rfl, own_all hconns] at hanswers
  rw [← hanswers, ← List.nil_append (List.flatten _),
    show ([] : Bytes) = ((Server.init regs : Server κ).pcs k).begun ++ (Server.init regs : Server κ).wire k from rfl,
    hstream, handle_frames hwords hfits]
  exact List.prefix_append _ _

end

end IronHarness.Modbus
