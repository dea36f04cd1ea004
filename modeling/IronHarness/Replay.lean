import Mathlib.Data.List.AList
import Mathlib.Data.List.Induction
import IronHarness.Lib.Hex

/-!
# Replaying a recorded session

A replayed transport keeps two byte strings, what was recorded as read on its connection and what was recorded as
written, and a position in each.  Reads hand out consecutive pieces of the first (`Replayed`), however the recorded
reads and the replayed ones are sliced.  A strict write is compared with the second at its position, so the writes of a
replay are accepted, to the end, exactly when they make up the recorded bytes.
-/

namespace IronHarness.Replay

open ByteText JsonText

variable {F : Type}

/-! ### Events -/

/-- An event of the journal, as its reader gives it. -/
abbrev Record (F : Type) := List (String × Value F)

def legacyConn : String := ""

/-- `str(e.get("conn", LEGACY_CONN))`; `str` is applied to what is not a string. -/
def connOf (str : Value F → String) (e : Record F) : String :=
  match e.lookup "conn" with
  | none => legacyConn
  | some (.str s) => s
  | some v => str v

def kindOf (e : Record F) : Option String :=
  match e.lookup "kind" with
  | some (.str s) => some s
  | _ => none

def isRead (e : Record F) : Bool := kindOf e = some "read" || kindOf e = some "read_line"

def isWrite (e : Record F) : Bool := kindOf e = some "write"

/-- `_event_bytes` -/
def eventBytes (e : Record F) (key : String) : Option Bytes :=
  match e.lookup key with
  | some (.str s) => fromHex s.toList
  | _ => none

/-- What the error of an unreadable event names. -/
structure JournalCorrupt where
  kind : Option String
  conn : String
  key : String
  deriving DecidableEq, Repr

/-! ### One connection -/

structure ReplayTransport where
  strict : Bool
  conn : String
  readStream : Bytes
  writeStream : Bytes
  rpos : Nat
  wpos : Nat
  closed : Bool
  deriving DecidableEq, Repr

namespace ReplayTransport

/-- One event of the loop of `__init__`. -/
def addEvent (str : Value F → String) (t : ReplayTransport) (e : Record F) : Except JournalCorrupt ReplayTransport :=
  if connOf str e = t.conn then
    if isRead e then
      match eventBytes e "data_hex" with
      | some bs => .ok { t with readStream := t.readStream ++ bs }
      | none => .error ⟨kindOf e, t.conn, "data_hex"⟩
    else if isWrite e then
      match eventBytes e "data_hex" with
      | some bs => .ok { t with writeStream := t.writeStream ++ bs }
      | none => .error ⟨kindOf e, t.conn, "data_hex"⟩
    else .ok t
  else .ok t

/-- `__init__` -/
def init (str : Value F → String) (strict : Bool) (conn : String) (events : List (Record F)) :
    Except JournalCorrupt ReplayTransport :=
  events.foldlM (addEvent str) ⟨strict, conn, [], [], 0, 0, false⟩

def read (t : ReplayTransport) (size : Nat) : Bytes × ReplayTransport :=
  let chunk := (t.readStream.drop t.rpos).take size
  (chunk, { t with rpos := t.rpos + chunk.length })

def newline : UInt8 := 10

def readLine (t : ReplayTransport) (maxLen : Nat) : Bytes × ReplayTransport :=
  let chunk := match find [newline] ((t.readStream.drop t.rpos).take maxLen) with
    | none => (t.readStream.drop t.rpos).take maxLen
    | some i => (t.readStream.drop t.rpos).take (i + 1)
  (chunk, { t with rpos := t.rpos + chunk.length })

/-- A write that does not agree with the recording at the position. -/
structure ReplayMismatch where
  pos : Nat
  recorded : Bytes
  replayed : Bytes
  deriving DecidableEq, Repr

def write (t : ReplayTransport) (data : Bytes) : Except ReplayMismatch (Nat × ReplayTransport) :=
  if t.strict && data != (t.writeStream.drop t.wpos).take data.length then
    .error ⟨t.wpos, (t.writeStream.drop t.wpos).take data.length, data⟩
  else .ok (data.length, { t with wpos := t.wpos + data.length })

/-- `close`; the first close of a strict replay raises when recorded writes are left over. -/
def close (t : ReplayTransport) : Option ReplayMismatch × ReplayTransport :=
  if t.closed then (none, t)
  else if t.strict && decide (t.wpos < t.writeStream.length) then
    (some ⟨t.wpos, t.writeStream.drop t.wpos, []⟩, { t with closed := true })
  else (none, { t with closed := true })

end ReplayTransport

/-! ### A sequence of calls -/

inductive Call
  | read (size : Nat)
  | readLine (maxLen : Nat)
  | write (data : Bytes)
  deriving DecidableEq, Repr

inductive Result
  | piece (bs : Bytes)
  | wrote (n : Nat)
  | mismatch (e : ReplayTransport.ReplayMismatch)
  deriving DecidableEq, Repr

/-- A write that raises leaves the transport as it was. -/
def ReplayTransport.call (t : ReplayTransport) : Call → Result × ReplayTransport
  | .read size => (.piece (t.read size).1, (t.read size).2)
  | .readLine maxLen => (.piece (t.readLine maxLen).1, (t.readLine maxLen).2)
  | .write data =>
    match t.write data with
    | .ok (n, t') => (.wrote n, t')
    | .error e => (.mismatch e, t)

/-- The results of the calls and the transport after them; the caller goes on after a mismatch. -/
def ReplayTransport.calls (t : ReplayTransport) : List Call → List Result × ReplayTransport
  | [] => ([], t)
  | c :: cs => ((t.call c).1 :: ((t.call c).2.calls cs).1, ((t.call c).2.calls cs).2)

def pieces (results : List Result) : List Bytes :=
  results.filterMap fun r => match r with
    | .piece bs => some bs
    | _ => none

def written (calls : List Call) : List Bytes :=
  calls.filterMap fun c => match c with
    | .write data => some data
    | _ => none

def mismatches (results : List Result) : List ReplayTransport.ReplayMismatch :=
  results.filterMap fun r => match r with
    | .mismatch e => some e
    | _ => none

/-! ### A session -/

/-- The events of each connection and the connections in the order of their first event. -/
structure Groups (F : Type) where
  order : List String
  groups : AList fun _ : String => List (Record F)

def Groups.addEvent (str : Value F → String) (g : Groups F) (e : Record F) : Groups F :=
  match g.groups.lookup (connOf str e) with
  | none => ⟨g.order ++ [connOf str e], g.groups.insert (connOf str e) [e]⟩
  | some es => ⟨g.order, g.groups.insert (connOf str e) (es ++ [e])⟩

def Groups.of (str : Value F → String) (events : List (Record F)) : Groups F :=
  events.foldl (Groups.addEvent str) ⟨[], ∅⟩

structure ReplaySession where
  order : List String
  conns : AList fun _ : String => ReplayTransport

/-- The transports of the connections, in their order. -/
def buildConns (str : Value F → String) (strict : Bool) (groups : AList fun _ : String => List (Record F)) :
    List String → (AList fun _ : String => ReplayTransport) →
    Except JournalCorrupt (AList fun _ : String => ReplayTransport)
  | [], conns => .ok conns
  | conn :: rest, conns => do
    let t ← ReplayTransport.init str strict conn ((groups.lookup conn).getD [])
    buildConns str strict groups rest (conns.insert conn t)

def ReplaySession.init (str : Value F → String) (strict : Bool) (events : List (Record F)) :
    Except JournalCorrupt ReplaySession := do
  let g := Groups.of str events
  let conns ← buildConns str strict g.groups g.order ∅
  return ⟨g.order, conns⟩

/-! ### What a transport replays -/

/-- The event can be replayed: when it is a read or a write, its bytes can be read. -/
def Readable (e : Record F) : Prop := (isRead e || isWrite e) = true → (eventBytes e "data_hex").isSome = true

instance (e : Record F) : Decidable (Readable e) :=
  inferInstanceAs (Decidable ((isRead e || isWrite e) = true → (eventBytes e "data_hex").isSome = true))

/-- The bytes of the connection's events of one sort, one after the other. -/
def recorded (str : Value F → String) (conn : String) (sort : Record F → Bool) (events : List (Record F)) : Bytes :=
  ((events.filter fun e => connOf str e = conn).filter sort).flatMap fun e => (eventBytes e "data_hex").getD []

/-- The transport before its first call. -/
def fresh (str : Value F → String) (strict : Bool) (conn : String) (events : List (Record F)) : ReplayTransport :=
  ⟨strict, conn, recorded str conn isRead events, recorded str conn isWrite events, 0, 0, false⟩

variable {str : Value F → String} {strict : Bool} {conn : String} {events events' : List (Record F)}

private theorem isWrite_of_isRead {e : Record F} (h : isRead e = true) : isWrite e = false := by
  unfold isRead isWrite at *
  rcases Bool.or_eq_true_iff.1 h with h | h
  · rw [decide_eq_true_eq] at h
    rw [h]
    rfl
  · rw [decide_eq_true_eq] at h
    rw [h]
    rfl

/-- What one event adds to the bytes of a sort. -/
def share (str : Value F → String) (conn : String) (sort : Record F → Bool) (e : Record F) : Bytes :=
  if connOf str e = conn ∧ sort e = true then (eventBytes e "data_hex").getD [] else []

theorem recorded_cons {sort : Record F → Bool} (e : Record F) :
    recorded str conn sort (e :: events) = share str conn sort e ++ recorded str conn sort events := by
  unfold recorded share
  by_cases hconn : connOf str e = conn
  · by_cases hsort : sort e = true
    · simp [hconn, hsort]
    · simp [hconn, hsort]
  · simp [hconn]

private theorem addEvent_eq {e : Record F} (h : Readable e) (t : ReplayTransport) :
    t.addEvent str e = .ok { t with
      readStream := t.readStream ++ share str t.conn isRead e
      writeStream := t.writeStream ++ share str t.conn isWrite e } := by
  unfold ReplayTransport.addEvent share
  by_cases hconn : connOf str e = t.conn
  · by_cases hread : isRead e = true
    · obtain ⟨bs, hbs⟩ := Option.isSome_iff_exists.1 (h (by rw [hread, Bool.true_or]))
      simp [hconn, hread, isWrite_of_isRead hread, hbs]
    · by_cases hwrite : isWrite e = true
      · obtain ⟨bs, hbs⟩ := Option.isSome_iff_exists.1 (h (by rw [hwrite, Bool.or_true]))
        simp [hconn, hread, hwrite, hbs]
      · simp [hread, hwrite]
  · simp [hconn]

private theorem foldlM_addEvent (h : ∀ e ∈ events, Readable e) (t : ReplayTransport) :
    events.foldlM (ReplayTransport.addEvent str) t =
      .ok { t with
        readStream := t.readStream ++ recorded str t.conn isRead events
        writeStream := t.writeStream ++ recorded str t.conn isWrite events } := by
  induction events generalizing t with
  | nil => simp [recorded, pure, Except.pure]
  | cons e events ih =>
    rw [List.foldlM_cons, addEvent_eq (h e List.mem_cons_self), recorded_cons, recorded_cons]
    show List.foldlM _ _ _ = _
    rw [ih fun e' he' => h e' (List.mem_cons_of_mem e he')]
    simp only [List.append_assoc]

private theorem init_eq (h : ∀ e ∈ events, Readable e) :
    ReplayTransport.init str strict conn events = .ok (fresh str strict conn events) := by
  unfold ReplayTransport.init
  rw [foldlM_addEvent h]
  rfl

/-! ### The connections of a session -/

/-- The events of one connection. -/
def ofConn (str : Value F → String) (conn : String) (events : List (Record F)) : List (Record F) :=
  events.filter fun e => connOf str e = conn

private theorem recorded_ofConn {sort : Record F → Bool} :
    recorded str conn sort (ofConn str conn events) = recorded str conn sort events := by
  unfold recorded ofConn
  rw [List.filter_filter]
  simp

private theorem ofConn_append_singleton (e : Record F) :
    ofConn str conn (events ++ [e]) = ofConn str conn events ++ if connOf str e = conn then [e] else [] := by
  unfold ofConn
  rw [List.filter_append]
  by_cases h : connOf str e = conn
  · simp [h]
  · simp [h]

private theorem groups_of_append (e : Record F) :
    Groups.of str (events ++ [e]) = (Groups.of str events).addEvent str e := by
  unfold Groups.of
  rw [List.foldl_append]
  rfl

private theorem groups_lookup : (Groups.of str events).groups.lookup conn =
    if ofConn str conn events = [] then none else some (ofConn str conn events) := by
  induction events using List.reverseRecOn generalizing conn with
  | nil => rfl
  | append_singleton events e ih =>
    have ihe := @ih (connOf str e)
    rw [groups_of_append, ofConn_append_singleton]
    unfold Groups.addEvent
    by_cases hconn : connOf str e = conn
    · subst hconn
      rw [if_pos rfl]
      by_cases hnil : ofConn str (connOf str e) events = []
      · rw [if_pos hnil] at ihe
        rw [ihe, hnil]
        exact AList.lookup_insert _
      · rw [if_neg hnil] at ihe
        rw [ihe, if_neg (by simp)]
        exact AList.lookup_insert _
    · rw [if_neg hconn, List.append_nil, ← ih]
      split
      · exact AList.lookup_insert_ne (Ne.symm hconn)
      · exact AList.lookup_insert_ne (Ne.symm hconn)

private theorem mem_order : conn ∈ (Groups.of str events).order ↔ ofConn str conn events ≠ [] := by
  induction events using List.reverseRecOn generalizing conn with
  | nil => simp [Groups.of, ofConn]
  | append_singleton events e ih =>
    have hlook : (Groups.of str events).groups.lookup (connOf str e) = _ := groups_lookup
    rw [groups_of_append, ofConn_append_singleton]
    unfold Groups.addEvent
    by_cases hconn : connOf str e = conn
    · subst hconn
      rw [if_pos rfl]
      by_cases hnil : ofConn str (connOf str e) events = []
      · rw [if_pos hnil] at hlook
        rw [hlook]
        simp
      · rw [if_neg hnil] at hlook
        rw [hlook]
        simp [ih, hnil]
    · rw [if_neg hconn, List.append_nil, ← ih]
      split
      · simp [Ne.symm hconn]
      · rfl

private theorem buildConns_eq (str : Value F → String) (strict : Bool)
    {groups : AList fun _ : String => List (Record F)} {order : List String}
    (h : ∀ conn ∈ order, ∀ e ∈ (groups.lookup conn).getD [], Readable e)
    (conns : AList fun _ : String => ReplayTransport) :
    ∃ conns', buildConns str strict groups order conns = .ok conns' ∧
      ∀ conn, conns'.lookup conn =
        if conn ∈ order then some (fresh str strict conn ((groups.lookup conn).getD [])) else conns.lookup conn := by
  induction order generalizing conns with
  | nil => exact ⟨conns, rfl, fun conn => by simp⟩
  | cons c rest ih =>
    obtain ⟨conns', hbuild, hlook⟩ := ih (fun conn hmem => h conn (List.mem_cons_of_mem c hmem))
      (conns.insert c (fresh str strict c ((groups.lookup c).getD [])))
    refine ⟨conns', ?_, ?_⟩
    · rw [buildConns, init_eq (h c List.mem_cons_self)]
      exact hbuild
    · intro conn
      rw [hlook]
      by_cases hrest : conn ∈ rest
      · simp [hrest]
      · by_cases hc : conn = c
        · subst hc
          simp [hrest]
        · simp [hrest, hc]

/-- A session of readable events can be replayed; a connection of it is replayed from its own events. -/
theorem session_eq (str : Value F → String) (strict : Bool) (h : ∀ e ∈ events, Readable e) :
    ∃ s, ReplaySession.init str strict events = .ok s ∧
      ∀ conn, s.conns.lookup conn =
        if ofConn str conn events = [] then none else some (fresh str strict conn events) := by
  have hreadable : ∀ conn ∈ (Groups.of str events).order,
      ∀ e ∈ ((Groups.of str events).groups.lookup conn).getD [], Readable e := by
    intro conn _ e he
    rw [groups_lookup] at he
    split at he
    · cases he
    · exact h e (List.mem_filter.1 he).1
  obtain ⟨conns, hbuild, hlook⟩ := buildConns_eq str strict hreadable ∅
  refine ⟨⟨(Groups.of str events).order, conns⟩, ?_, ?_⟩
  · unfold ReplaySession.init
    dsimp only
    rw [hbuild]
    rfl
  · intro conn
    rw [hlook]
    by_cases hnil : ofConn str conn events = []
    · rw [if_pos hnil, if_neg (fun hmem => mem_order.1 hmem hnil)]
      rfl
    · rw [if_neg hnil, if_pos (mem_order.2 hnil), groups_lookup, if_neg hnil]
      unfold fresh
      rw [Option.getD_some, recorded_ofConn, recorded_ofConn]

/-! ### Reads -/

/-- A read hands out as many bytes as were asked for, or all that are left. -/
def IsRead (size : Nat) (rest piece : Bytes) : Prop :=
  piece <+: rest ∧ piece.length ≤ size ∧ (piece.length = size ∨ piece = rest)

/-- A line ends at the first newline, or at the length that was asked for, or at the end of the stream. -/
def IsLine (maxLen : Nat) (rest piece : Bytes) : Prop :=
  piece <+: rest ∧ piece.length ≤ maxLen ∧ ReplayTransport.newline ∉ piece.dropLast ∧
    (piece.getLast? = some ReplayTransport.newline ∨ piece.length = maxLen ∨ piece = rest)

/-- The calls hand out consecutive pieces of what is left of the recorded bytes. -/
inductive Replayed : Bytes → List Call → List Result → Prop
  | nil (rest : Bytes) : Replayed rest [] []
  | read (size : Nat) (piece rest rest' : Bytes) (cs : List Call) (rs : List Result) (hpiece : IsRead size rest piece)
      (hsplit : rest = piece ++ rest') (hrest : Replayed rest' cs rs) :
      Replayed rest (.read size :: cs) (.piece piece :: rs)
  | readLine (maxLen : Nat) (piece rest rest' : Bytes) (cs : List Call) (rs : List Result)
      (hpiece : IsLine maxLen rest piece) (hsplit : rest = piece ++ rest') (hrest : Replayed rest' cs rs) :
      Replayed rest (.readLine maxLen :: cs) (.piece piece :: rs)
  | write (data rest : Bytes) (r : Result) (cs : List Call) (rs : List Result) (hr : ∀ bs, r ≠ .piece bs)
      (hrest : Replayed rest cs rs) : Replayed rest (.write data :: cs) (r :: rs)

theorem Replayed.pieces_prefix {rest : Bytes} {cs : List Call} {rs : List Result} (h : Replayed rest cs rs) :
    (pieces rs).flatten <+: rest := by
  induction h with
  | nil rest => exact List.nil_prefix
  | read size piece rest rest' cs rs hpiece hsplit hrest ih =>
    rw [hsplit]
    exact (List.prefix_append_right_inj piece).2 ih
  | readLine maxLen piece rest rest' cs rs hpiece hsplit hrest ih =>
    rw [hsplit]
    exact (List.prefix_append_right_inj piece).2 ih
  | write data rest r cs rs hr hrest ih =>
    cases r with
    | piece bs => exact absurd rfl (hr bs)
    | wrote n => exact ih
    | mismatch e => exact ih

variable {t : ReplayTransport}

theorem isRead_take (size : Nat) (rest : Bytes) : IsRead size rest (rest.take size) := by
  refine ⟨List.take_prefix _ _, List.length_take_le _ _, ?_⟩
  by_cases h : size ≤ rest.length
  · exact Or.inl (List.length_take_of_le h)
  · exact Or.inr (List.take_of_length_le (by omega))

theorem isLine_readLine (t : ReplayTransport) (maxLen : Nat) :
    IsLine maxLen (t.readStream.drop t.rpos) (t.readLine maxLen).1 := by
  unfold ReplayTransport.readLine IsLine
  generalize t.readStream.drop t.rpos = rest
  dsimp only
  split
  · rename_i hnone
    obtain ⟨hfront, hlen, hend⟩ := isRead_take maxLen rest
    refine ⟨hfront, hlen, ?_, Or.inr hend⟩
    intro hmem
    exact find_singleton_eq_none.1 hnone (List.dropLast_subset _ hmem)
  · rename_i i hfind
    obtain ⟨hbefore, hat⟩ := find_singleton hfind
    have hi : i < (rest.take maxLen).length := (List.getElem?_eq_some_iff.1 hat).1
    rw [List.length_take] at hi
    have htake : rest.take (i + 1) = (rest.take maxLen).take i ++ [ReplayTransport.newline] := by
      rw [List.take_take, Nat.min_eq_left (by omega), List.take_add_one]
      rw [List.getElem?_take_of_lt (by omega)] at hat
      rw [hat]
      rfl
    refine ⟨List.take_prefix _ _, ?_, ?_, Or.inl ?_⟩
    · rw [List.length_take]
      omega
    · rw [htake, List.dropLast_concat]
      exact hbefore
    · rw [htake, List.getLast?_append_of_ne_nil _ (List.cons_ne_nil _ _)]
      rfl

/-- A piece taken at a position, and what is left after it. -/
theorem drop_eq_append {stream piece : Bytes} {pos : Nat} (h : piece <+: stream.drop pos) :
    stream.drop pos = piece ++ stream.drop (pos + piece.length) := by
  obtain ⟨rest, hrest⟩ := h
  rw [← hrest, ← List.drop_drop, ← hrest, List.drop_left]

/-- A write gives no piece and leaves the reads alone. -/
theorem call_write (t : ReplayTransport) (data : Bytes) :
    (∀ bs, (t.call (.write data)).1 ≠ .piece bs) ∧ (t.call (.write data)).2.readStream = t.readStream ∧
      (t.call (.write data)).2.rpos = t.rpos := by
  unfold ReplayTransport.call
  dsimp only
  split
  · rename_i n t' hwrite
    unfold ReplayTransport.write at hwrite
    split at hwrite
    · cases hwrite
    · cases hwrite
      exact ⟨fun _ => Result.noConfusion, rfl, rfl⟩
  · exact ⟨fun _ => Result.noConfusion, rfl, rfl⟩

/-- The pieces of a run of calls. -/
theorem calls_replayed (cs : List Call) (t : ReplayTransport) :
    Replayed (t.readStream.drop t.rpos) cs (t.calls cs).1 := by
  induction cs generalizing t with
  | nil => exact .nil _
  | cons c cs ih =>
    cases c with
    | read size =>
      have hread := isRead_take size (t.readStream.drop t.rpos)
      exact .read size _ _ _ cs _ hread (drop_eq_append hread.1) (ih (t.read size).2)
    | readLine maxLen =>
      have hline := isLine_readLine t maxLen
      exact .readLine maxLen _ _ _ cs _ hline (drop_eq_append hline.1) (ih (t.readLine maxLen).2)
    | write data =>
      obtain ⟨hresult, hstream, hpos⟩ := call_write t data
      apply Replayed.write data _ _ cs _ hresult
      rw [← hstream, ← hpos]
      exact ih _

/-- A replayed connection hands out consecutive pieces of the bytes recorded as read on it, and the events of other
connections, wherever they stand, do not change what it replays. -/
theorem reads_are_recorded (str : Value F → String) (strict : Bool) (conn : String) (events events' : List (Record F))
    (h : ∀ e ∈ events, Readable e) (h' : ∀ e ∈ events', Readable e)
    (hsame : ofConn str conn events = ofConn str conn events') (cs : List Call) :
    (∃ t, ReplayTransport.init str strict conn events = .ok t ∧
      Replayed (recorded str conn isRead events) cs (t.calls cs).1 ∧
      (pieces (t.calls cs).1).flatten <+: recorded str conn isRead events) ∧
    ∃ s s', ReplaySession.init str strict events = .ok s ∧ ReplaySession.init str strict events' = .ok s' ∧
      s.conns.lookup conn = s'.conns.lookup conn ∧
      ∀ t, s.conns.lookup conn = some t → ReplayTransport.init str strict conn events = .ok t := by
  constructor
  · have hreplayed := calls_replayed cs (fresh str strict conn events)
    exact ⟨fresh str strict conn events, init_eq h, hreplayed, hreplayed.pieces_prefix⟩
  · obtain ⟨s, hs, hlook⟩ := session_eq str strict h
    obtain ⟨s', hs', hlook'⟩ := session_eq str strict h'
    refine ⟨s, s', hs, hs', ?_, ?_⟩
    · have hrec : ∀ sort, recorded str conn sort events = recorded str conn sort events' := by
        intro sort
        rw [← recorded_ofConn, hsame, recorded_ofConn]
      rw [hlook, hlook', hsame]
      unfold fresh
      rw [hrec, hrec]
    · intro t ht
      rw [hlook] at ht
      split at ht
      · cases ht
      · cases ht
        exact init_eq h

/-- Two connections; in the second list the events of the other connection are gone. -/
theorem reads_are_recorded_two :
    let a (kind hex : String) : Record LitFloat := [("kind", .str kind), ("data_hex", .str hex), ("conn", .str "a")]
    let b : Record LitFloat := [("kind", .str "read"), ("data_hex", .str "7A"), ("conn", .str "b")]
    let events := [a "read" "6162", b, a "write" "00", a "read_line" "0a63"]
    let events' := [a "read" "6162", a "write" "00", a "read_line" "0a63"]
    let calls := [Call.read 1, .readLine 5, .read 9]
    ∃ t, ReplayTransport.init (fun _ => "") true "a" events = .ok t ∧ pieces (t.calls calls).1 = [[0x61], [0x62, 10], [0x63]] ∧
      ∃ s s', ReplaySession.init (fun _ => "") true events = .ok s ∧
        ReplaySession.init (fun _ => "") true events' = .ok s' ∧ s.conns.lookup "a" = s'.conns.lookup "a" := by
  intro a b events events' calls
  obtain ⟨⟨t, ht, hreplayed, -⟩, s, s', hs, hs', hsame, -⟩ :=
    reads_are_recorded (fun _ => "") true "a" events events' (by decide) (by decide) rfl calls
  have hpieces : (ReplayTransport.init (fun _ => "") true "a" events).toOption.map (fun t => pieces (t.calls calls).1) =
      some [[0x61], [0x62, 10], [0x63]] := rfl
  rw [ht] at hpieces
  exact ⟨t, ht, Option.some.inj hpieces, s, s', hs, hs', hsame⟩

/-! ### Strict writes -/

theorem write_ok_iff (ht : t.strict = true) {data : Bytes} {x : Nat × ReplayTransport} :
    t.write data = .ok x ↔ data <+: t.writeStream.drop t.wpos ∧
      x = (data.length, { t with wpos := t.wpos + data.length }) := by
  unfold ReplayTransport.write
  rw [ht, Bool.true_and, List.prefix_iff_eq_take]
  by_cases hdata : data = (t.writeStream.drop t.wpos).take data.length
  · rw [if_neg (by simpa using hdata)]
    simp [← hdata, eq_comm]
  · rw [if_pos (by simpa using hdata)]
    simp [hdata]

/-- What a call leaves of a transport, as far as its writes go. -/
theorem call_keeps (t : ReplayTransport) (c : Call) :
    (t.call c).2.strict = t.strict ∧ (t.call c).2.closed = t.closed ∧ (t.call c).2.writeStream = t.writeStream := by
  cases c with
  | read size => exact ⟨rfl, rfl, rfl⟩
  | readLine maxLen => exact ⟨rfl, rfl, rfl⟩
  | write data =>
    unfold ReplayTransport.call
    dsimp only
    split
    · rename_i n t' hwrite
      unfold ReplayTransport.write at hwrite
      split at hwrite
      · cases hwrite
      · cases hwrite
        exact ⟨rfl, rfl, rfl⟩
    · exact ⟨rfl, rfl, rfl⟩

theorem calls_keep (cs : List Call) (t : ReplayTransport) :
    (t.calls cs).2.strict = t.strict ∧ (t.calls cs).2.closed = t.closed ∧
      (t.calls cs).2.writeStream = t.writeStream := by
  induction cs generalizing t with
  | nil => exact ⟨rfl, rfl, rfl⟩
  | cons c cs ih =>
    obtain ⟨hstrict, hclosed, hstream⟩ := call_keeps t c
    obtain ⟨hstrict', hclosed', hstream'⟩ := ih (t.call c).2
    exact ⟨hstrict'.trans hstrict, hclosed'.trans hclosed, hstream'.trans hstream⟩

/-- The writes of a run agree with the recording exactly when they are a prefix of what is left of it, and then the
run ends behind them. -/
theorem calls_writes (cs : List Call) (t : ReplayTransport) (ht : t.strict = true) :
    (mismatches (t.calls cs).1 = [] ↔ (written cs).flatten <+: t.writeStream.drop t.wpos) ∧
      (mismatches (t.calls cs).1 = [] → (t.calls cs).2.wpos = t.wpos + (written cs).flatten.length) := by
  induction cs generalizing t with
  | nil => exact ⟨⟨fun _ => List.nil_prefix, fun _ => rfl⟩, fun _ => rfl⟩
  | cons c cs ih =>
    cases c with
    | read size => exact ih (t.read size).2 ht
    | readLine maxLen => exact ih (t.readLine maxLen).2 ht
    | write data =>
      have hwritten : (written (.write data :: cs)).flatten = data ++ (written cs).flatten := rfl
      cases hwrite : t.write data with
      | ok x =>
        obtain ⟨hdata, rfl⟩ := (write_ok_iff ht).1 hwrite
        have hcall : t.call (.write data) = (.wrote data.length, { t with wpos := t.wpos + data.length }) := by
          unfold ReplayTransport.call
          dsimp only
          rw [hwrite]
        obtain ⟨hiff, hpos⟩ := ih { t with wpos := t.wpos + data.length } ht
        have hres : mismatches (t.calls (.write data :: cs)).1 =
            mismatches (({ t with wpos := t.wpos + data.length } : ReplayTransport).calls cs).1 := by
          rw [ReplayTransport.calls, hcall]
          rfl
        have hend : (t.calls (.write data :: cs)).2 =
            (({ t with wpos := t.wpos + data.length } : ReplayTransport).calls cs).2 := by
          rw [ReplayTransport.calls, hcall]
        rw [hres, hend, hwritten, drop_eq_append hdata, List.prefix_append_right_inj]
        refine ⟨hiff, ?_⟩
        intro hnone
        rw [hpos hnone, List.length_append, Nat.add_assoc]
      | error e =>
        have hnot : ¬ data <+: t.writeStream.drop t.wpos := by
          intro hdata
          rw [(write_ok_iff ht).2 ⟨hdata, rfl⟩] at hwrite
          cases hwrite
        have hres : mismatches (t.calls (.write data :: cs)).1 ≠ [] := by
          rw [ReplayTransport.calls, ReplayTransport.call, hwrite]
          exact List.cons_ne_nil _ _
        rw [hwritten]
        refine ⟨⟨fun h => absurd h hres, fun h => ?_⟩, fun h => absurd h hres⟩
        exact absurd ((List.prefix_append data _).trans h) hnot

/-- The first close of a strict replay raises when recorded writes are left. -/
theorem close_none_iff (ht : t.strict = true) (hopen : t.closed = false) :
    t.close.1 = none ↔ t.writeStream.length ≤ t.wpos := by
  unfold ReplayTransport.close
  rw [hopen, ht, if_neg Bool.false_ne_true, Bool.true_and]
  by_cases h : t.wpos < t.writeStream.length
  · simp [h]
  · simp [h, Nat.not_lt.1 h]

/-- A strict replay raises no mismatch, in a write or at the close, exactly when the writes make up the recorded ones. -/
theorem strict_accepts_iff (str : Value F → String) (conn : String) (events : List (Record F))
    (h : ∀ e ∈ events, Readable e) (cs : List Call) :
    ∃ t, ReplayTransport.init str true conn events = .ok t ∧
      ((mismatches (t.calls cs).1 = [] ∧ (t.calls cs).2.close.1 = none) ↔
        (written cs).flatten = recorded str conn isWrite events) := by
  refine ⟨fresh str true conn events, init_eq h, ?_⟩
  obtain ⟨hiff, hpos⟩ := calls_writes cs (fresh str true conn events) rfl
  obtain ⟨hstrict, hclosed, hstream⟩ := calls_keep cs (fresh str true conn events)
  rw [close_none_iff hstrict hclosed, hstream]
  have hdrop : (fresh str true conn events).writeStream.drop (fresh str true conn events).wpos =
      recorded str conn isWrite events := rfl
  rw [hdrop] at hiff
  constructor
  · rintro ⟨hnone, hend⟩
    rw [hpos hnone] at hend
    have hlen : (recorded str conn isWrite events).length ≤ (written cs).flatten.length := by
      simpa [fresh] using hend
    exact (hiff.1 hnone).eq_of_length_le hlen
  · intro heq
    have hnone := hiff.2 ⟨[], by rw [List.append_nil, heq]⟩
    refine ⟨hnone, ?_⟩
    rw [hpos hnone, heq]
    exact Nat.le_add_left _ _

/-- Two recorded writes, replayed as three calls with a read between them. -/
theorem strict_accepts_two :
    let a (hex : String) : Record LitFloat := [("kind", .str "write"), ("data_hex", .str hex), ("conn", .str "a")]
    ∃ t, ReplayTransport.init (fun _ => "") true "a" [a "6162", a "63"] = .ok t ∧
      mismatches (t.calls [.write [0x61], .read 4, .write [], .write [0x62, 0x63]]).1 = [] := by
  intro a
  obtain ⟨t, ht, hiff⟩ := strict_accepts_iff (fun _ => "") "a" [a "6162", a "63"] (by decide)
    [.write [0x61], .read 4, .write [], .write [0x62, 0x63]]
  exact ⟨t, ht, (hiff.2 rfl).1⟩

end IronHarness.Replay
