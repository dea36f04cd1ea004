import Mathlib.Logic.Function.Basic
import IronHarness.Lib.Bytes
import IronHarness.Lib.Runs

/-!
# The MQTT broker

`MqttSimBroker` (io_core/mqtt_sim.py): one thread for each client reads a packet and handles it step by step, the
accept loop adds clients, and a connection may break at any time.  A step is one block under the lock, one test of
the subscriptions of a client, or one send.  The packets are those the codec has cut out of the stream.
-/

namespace IronHarness.Mqtt

open ByteText

abbrev Topic := List Char

/-! ### Topic filters -/

def levels (topic : Topic) : List (List Char) := topic.splitOn '/'

/-- The loop of `topic_matches` over the levels of the pattern. -/
def levelsMatch : List (List Char) → List (List Char) → Bool
  | [], topic => topic.isEmpty
  | p :: pattern, topic =>
    if p = ['#'] then pattern.isEmpty
    else
      match topic with
      | [] => false
      | t :: topic => (p == ['+'] || p == t) && levelsMatch pattern topic

def topicMatches (pattern topic : Topic) : Bool := levelsMatch (levels pattern) (levels topic)

def anyMatches (filters : List Topic) (topic : Topic) : Bool := filters.any fun f => topicMatches f topic

/-! ### The broker and its clients -/

abbrev Message := Topic × Bytes

inductive Packet
  | connect
  | publish (qos : Nat) (retain : Bool) (topic : Topic) (payload : Bytes)
  | subscribe (filters : List Topic)
  | pingreq
  | disconnect
  /-- a topic that is no UTF-8, or a length of more than four bytes -/
  | malformed
  | other

/-- Where the thread of a client is. -/
inductive Pc
  | absent
  /-- reading the next packet -/
  | idle
  /-- before a CONNACK or a PINGRESP -/
  | replying
  /-- before the PUBACK -/
  | acking (retain : Bool) (message : Message)
  /-- before the locked update of `retained` -/
  | storing (message : Message)
  /-- before the locked snapshot of the clients -/
  | broadcasting (message : Message)
  /-- before the subscription test of the next target -/
  | testing (message : Message) (targets : List Nat)
  | sending (message : Message) (target : Nat) (targets : List Nat)
  /-- before `self.subscriptions.extend` -/
  | extending (filters : List Topic)
  /-- before the SUBACK -/
  | subacking (filters : List Topic)
  /-- before the locked snapshot of `retained` -/
  | snapshotting (filters : List Topic)
  | choosing (filters : List Topic) (rest : List Message)
  | delivering (filters : List Topic) (message : Message) (rest : List Message)
  /-- in the `finally` of `_serve_client` -/
  | leaving
  | gone
  deriving DecidableEq

/-- A client: its thread, whether its socket works, its subscriptions, and every PUBLISH sent to it. -/
structure Conn where
  pc : Pc
  alive : Bool
  subscriptions : List Topic
  sent : List Message

def Conn.absent : Conn := ⟨.absent, false, [], []⟩

structure Broker where
  clients : List Nat
  retained : List Message
  conns : Nat → Conn

def Broker.init : Broker := ⟨[], [], fun _ => .absent⟩

/-- `retained[topic] = payload`, in a dictionary in the order of insertion. -/
def put (message : Message) : List Message → List Message
  | [] => [message]
  | old :: rest => if old.1 = message.1 then message :: rest else old :: put message rest

/-- The locked update of `retained`; an empty payload removes the topic. -/
def store (message : Message) (retained : List Message) : List Message :=
  if message.2.isEmpty then retained.filter fun old => old.1 ≠ message.1 else put message retained

def Broker.setConn (b : Broker) (c : Nat) (conn : Conn) : Broker := { b with conns := Function.update b.conns c conn }

/-- The thread goes on at `pc`. -/
def Broker.goto (b : Broker) (c : Nat) (pc : Pc) : Broker := b.setConn c { b.conns c with pc := pc }

/-- A send of the thread of `c` to its own client; a broken socket ends the thread. -/
def Broker.reply (b : Broker) (c : Nat) (pc : Pc) : Broker := b.goto c (if (b.conns c).alive then pc else .leaving)

/-- A PUBLISH on the wire of `target`; on a broken socket it is an `OSError`. -/
def Broker.push (b : Broker) (target : Nat) (message : Message) : Broker :=
  let conn := b.conns target
  if conn.alive then b.setConn target { conn with sent := conn.sent ++ [message] } else b

section Frame

variable (b : Broker) (c : Nat)

@[simp] theorem Broker.clients_goto (pc : Pc) : (b.goto c pc).clients = b.clients := rfl

@[simp] theorem Broker.clients_reply (pc : Pc) : (b.reply c pc).clients = b.clients := rfl

@[simp] theorem Broker.clients_setConn (conn : Conn) : (b.setConn c conn).clients = b.clients := rfl

@[simp] theorem Broker.clients_push (m : Message) : (b.push c m).clients = b.clients := by
  unfold push
  dsimp only
  split <;> rfl

@[simp] theorem Broker.retained_goto (pc : Pc) : (b.goto c pc).retained = b.retained := rfl

@[simp] theorem Broker.retained_reply (pc : Pc) : (b.reply c pc).retained = b.retained := rfl

@[simp] theorem Broker.retained_setConn (conn : Conn) : (b.setConn c conn).retained = b.retained := rfl

@[simp] theorem Broker.retained_push (m : Message) : (b.push c m).retained = b.retained := by
  unfold push
  dsimp only
  split <;> rfl

@[simp] theorem Broker.conns_goto (pc : Pc) : (b.goto c pc).conns c = { b.conns c with pc := pc } := by
  simp [goto, setConn]

theorem Broker.conns_goto_of_ne {s : Nat} (hne : s ≠ c) (pc : Pc) : (b.goto c pc).conns s = b.conns s := by
  simp [goto, setConn, hne]

theorem Broker.conns_reply_of_ne {s : Nat} (hne : s ≠ c) (pc : Pc) : (b.reply c pc).conns s = b.conns s :=
  b.conns_goto_of_ne c hne _

theorem Broker.conns_setConn_of_ne {s : Nat} (hne : s ≠ c) (conn : Conn) : (b.setConn c conn).conns s = b.conns s := by
  simp [setConn, hne]

@[simp] theorem Broker.pc_push (target s : Nat) (m : Message) : ((b.push target m).conns s).pc = (b.conns s).pc := by
  unfold push setConn
  dsimp only
  split
  · by_cases hs : s = target
    · subst hs
      simp
    · simp [hs]
  · rfl

end Frame

/-- After the PUBACK. -/
def published (retain : Bool) (message : Message) : Pc := if retain then .storing message else .broadcasting message

/-- The dispatch of `serve`. -/
def dispatch : Packet → Pc
  | .connect | .pingreq => .replying
  | .publish 0 retain topic payload => published retain (topic, payload)
  | .publish 1 retain topic payload => .acking retain (topic, payload)
  | .publish _ _ _ _ => .idle
  | .subscribe filters => .extending filters
  | .disconnect | .malformed => .leaving
  | .other => .idle

/-- The next step of the thread of client `c`. -/
def Broker.advance (b : Broker) (c : Nat) : Option Broker :=
  match (b.conns c).pc with
  | .absent | .gone => none
  | .idle => if (b.conns c).alive then none else some (b.goto c .leaving)
  | .replying => some (b.reply c .idle)
  | .acking retain message => some (b.reply c (published retain message))
  | .storing message => some ({ b with retained := store message b.retained }.goto c (.broadcasting message))
  | .broadcasting message => some (b.goto c (.testing message (b.clients.filter fun target => target ≠ c)))
  | .testing _ [] => some (b.goto c .idle)
  | .testing message (target :: targets) =>
    if anyMatches (b.conns target).subscriptions message.1 then some (b.goto c (.sending message target targets))
    else some (b.goto c (.testing message targets))
  | .sending message target targets => some ((b.push target message).goto c (.testing message targets))
  | .extending filters =>
    let conn := b.conns c
    some (b.setConn c { conn with subscriptions := conn.subscriptions ++ filters, pc := .subacking filters })
  | .subacking filters => some (b.reply c (.snapshotting filters))
  | .snapshotting filters => some (b.goto c (.choosing filters b.retained))
  | .choosing _ [] => some (b.goto c .idle)
  | .choosing filters (message :: rest) =>
    if anyMatches filters message.1 then some (b.goto c (.delivering filters message rest))
    else some (b.goto c (.choosing filters rest))
  | .delivering filters message rest => some ((b.push c message).reply c (.choosing filters rest))
  | .leaving =>
    some ({ b with clients := b.clients.erase c }.setConn c { b.conns c with alive := false, pc := .gone })

inductive Act
  /-- the accept loop: a new client and its thread -/
  | connect (c : Nat)
  | receive (c : Nat) (packet : Packet)
  | step (c : Nat)
  /-- the connection breaks -/
  | lose (c : Nat)
  | stop

def Broker.act (b : Broker) : Act → Option Broker
  | .connect c =>
    if (b.conns c).pc = .absent then
      some ({ b with clients := b.clients ++ [c] }.setConn c ⟨.idle, true, [], []⟩)
    else none
  | .receive c packet =>
    if (b.conns c).pc = .idle ∧ (b.conns c).alive = true then some (b.goto c (dispatch packet)) else none
  | .step c => b.advance c
  | .lose c => some (b.setConn c { b.conns c with alive := false })
  | .stop =>
    some { b with
      clients := []
      conns := fun c => if c ∈ b.clients then { b.conns c with alive := false } else b.conns c }

end IronHarness.Mqtt
