import Minimosq.Wire
/-!
# Sessions, pools and the retained store

`core/pool.hpp`, `core/fixed_string.hpp`, `broker/config.hpp`, `broker/session.hpp` and `broker/retained.hpp`.  A pool
is its slots (`some` where `used_` is set) and its `count_`; a pointer into it is a slot number.  `OutMsg.seq` and
`Session.nextSeq` are ghosts: they number the messages a session ever queued, and no branch reads them.
-/
namespace Minimosq

/-- **The compile-time configuration**, with what its static_asserts demand.  The last two fields are asserted nowhere:
they are the range a comment at `conn_of_session` gives the `uint16_t` indices, so that no index is a sentinel. -/
structure Traits where
  maxConnections : Nat
  maxSessions : Nat
  maxSubscriptionsPerSession : Nat
  maxTopicLen : Nat
  maxClientIdLen : Nat
  maxPacketSize : Nat
  maxPayloadLen : Nat
  maxRetained : Nat
  maxPendingPerSession : Nat
  maxInboundQos2 : Nat
  connectTimeoutMs : Nat
  maxIdleMs : Nat
  sessionExpiryMs : Nat
  sessions_pos : 0 < maxSessions
  subscriptions_pos : 0 < maxSubscriptionsPerSession
  topicLen_pos : 0 < maxTopicLen
  clientIdLen_pos : 0 < maxClientIdLen
  payloadLen_pos : 0 < maxPayloadLen
  retained_pos : 0 < maxRetained
  pending_pos : 0 < maxPendingPerSession
  inbound_pos : 0 < maxInboundQos2
  retained_le : maxRetained ≤ 0xFFFF
  connectTimeout_le : connectTimeoutMs ≤ 0x7FFFFFFF
  maxIdle_le : maxIdleMs ≤ 0x7FFFFFFF
  sessionExpiry_le : sessionExpiryMs ≤ 0x7FFFFFFF
  connections_le : maxConnections ≤ 0xFFFF
  sessions_le : maxSessions ≤ 0xFFFF

/-- The body of a packet built from stored parts. -/
def Traits.storedBodyMax (T : Traits) : Nat := 2 + T.maxTopicLen + 2 + T.maxPayloadLen

def Traits.outSize (T : Traits) : Nat :=
  packetOverhead + (if T.storedBodyMax < T.maxPacketSize then T.maxPacketSize else T.storedBodyMax)

/-- `static_cast<uint16_t>`. -/
def toU16 (n : Nat) : Nat := n % 65536

def noConn : Nat := 0xFFFF
def noSession : Nat := 0xFFFF

/-- `FixedString::assign` and `FixedBuffer::assign`, on the value held before. -/
def assign (cap : Nat) (old new : Bytes) : Bytes := if cap < new.length then old else new

/-! ## Pools -/

structure Pool (α : Type) where
  slot : Nat → Option α
  count : Nat

namespace Pool

variable {α : Type}

def empty : Pool α := ⟨fun _ => none, 0⟩

/-- Write the object in slot `i`, through a pointer to it. -/
def set (p : Pool α) (i : Nat) (a : α) : Pool α := { p with slot := Function.update p.slot i (some a) }

/-- The first free slot. -/
def free (cap : Nat) (p : Pool α) : Option Nat := (List.range cap).find? (fun i => (p.slot i).isNone)

def alloc (cap : Nat) (init : α) (p : Pool α) : Option (Nat × Pool α) :=
  (p.free cap).map (fun i => (i, { slot := Function.update p.slot i (some init), count := p.count + 1 }))

def release (cap : Nat) (i : Nat) (p : Pool α) : Pool α :=
  if cap ≤ i || (p.slot i).isNone then p else { slot := Function.update p.slot i none, count := p.count - 1 }

/-- `at`. -/
def get (cap : Nat) (i : Nat) (p : Pool α) : Option α := if i < cap then p.slot i else none

/-- `find`: the slot of the first live object with the property. -/
def find (cap : Nat) (pred : α → Bool) (p : Pool α) : Option Nat :=
  (List.range cap).find? (fun i => match p.slot i with | none => false | some a => pred a)

/-- What `for_each` visits when the visitor leaves the pool alone. -/
def toList (cap : Nat) (p : Pool α) : List α := (List.range cap).filterMap p.slot

end Pool

/-! ## Sessions -/

inductive OutState
  | queued | awaitingPuback | awaitingPubrec | awaitingPubcomp
  deriving DecidableEq, Repr

structure Subscription where
  filter : Bytes := []
  granted : QoS := .atMostOnce
  retainPending : Bool := false
  deriving DecidableEq, Repr

structure OutMsg where
  topic : Bytes := []
  payload : Bytes := []
  packetId : Nat := 0
  qos : QoS := .atLeastOnce
  state : OutState := .queued
  retain : Bool := false
  dup : Bool := false
  resendPubrel : Bool := false
  seq : Nat := 0
  deriving DecidableEq, Repr

structure Session (Ctx : Type) where
  clientId : Bytes := []
  subs : List Subscription := []
  pending : List OutMsg := []
  lastPacketId : Nat := 0
  inboundQos2 : List Nat := []
  willTopic : Bytes := []
  willPayload : Bytes := []
  willQos : QoS := .atMostOnce
  willRetain : Bool := false
  hasWill : Bool := false
  retainCursor : Nat := 0
  cleanSession : Bool := true
  conn : Nat := noConn
  disconnectMs : Nat := 0
  disconnectOrder : Nat := 0
  authCtx : Ctx
  nextSeq : Nat := 0
  deriving DecidableEq

namespace Session

variable {Ctx : Type}

def connected (s : Session Ctx) : Bool := s.conn != noConn

/-- `find_sub`, as an index into `subs`. -/
def findSub (s : Session Ctx) (filter : Bytes) : Option Nat := s.subs.findIdx? (fun sub => sub.filter == filter)

def hasInboundQos2 (s : Session Ctx) (id : Nat) : Bool := s.inboundQos2.any (fun v => v == id)

/-- `remove_inbound_qos2`: the first entry equal to `id`, the rest shifted down. -/
def removeInboundQos2 (s : Session Ctx) (id : Nat) : Session Ctx := { s with inboundQos2 := s.inboundQos2.erase id }

/-- Some in-flight entry holds `id`. -/
def idInUse (s : Session Ctx) (id : Nat) : Bool :=
  s.pending.any (fun m => m.state != .queued && m.packetId == id)

/-- `++last_packet_id`, skipping 0. -/
def bumpId (id : Nat) : Nat := if toU16 (id + 1) = 0 then 1 else toU16 (id + 1)

/-- The loop of `alloc_packet_id`.  The ids come round after 65535 turns, so a loop that has not left by then never
leaves: `none`. -/
def allocLoop (s : Session Ctx) : Nat → Nat → Option Nat
  | 0, _ => none
  | n + 1, id => if s.idInUse (bumpId id) then allocLoop s n (bumpId id) else some (bumpId id)

/-- `alloc_packet_id`, or `none` when it does not return. -/
def allocPacketId (s : Session Ctx) : Option Nat := allocLoop s 0x10000 s.lastPacketId

/-- `find_pending`, as an index into `pending`. -/
def findPending (s : Session Ctx) (id : Nat) (a b : OutState) : Option Nat :=
  s.pending.findIdx? (fun m => m.packetId == id && (m.state == a || m.state == b))

def anyRetainPending (s : Session Ctx) : Bool := s.subs.any (fun sub => sub.retainPending)

/-- Write entry `i` of the pending queue. -/
def setPending (s : Session Ctx) (i : Nat) (m : OutMsg) : Session Ctx := { s with pending := s.pending.set i m }

/-- `pending.remove_ordered(i)`. -/
def removePending (s : Session Ctx) (i : Nat) : Session Ctx := { s with pending := s.pending.eraseIdx i }

end Session

/-! ## The retained store -/

structure Entry where
  topic : Bytes := []
  payload : Bytes := []
  qos : QoS := .atMostOnce
  deriving DecidableEq, Repr

inductive RetainStatus
  | stored | dropped | stalePurged
  deriving DecidableEq, Repr

namespace Retained

def find (T : Traits) (topic : Bytes) (store : Pool Entry) : Option Nat :=
  store.find T.maxRetained (fun e => e.topic == topic)

/-- `RetainedStore::set`. -/
def set (T : Traits) (topic payload : Bytes) (qos : QoS) (store : Pool Entry) : RetainStatus × Pool Entry :=
  if decide (T.maxTopicLen < topic.length) || decide (T.maxPayloadLen < payload.length) then
    match find T topic store with
    | none => (.dropped, store)
    | some r => (.stalePurged, store.release T.maxRetained r)
  else
    match find T topic store with
    | some r =>
      match store.slot r with
      | none => (.dropped, store)
      | some e => (.stored, store.set r { e with payload := assign T.maxPayloadLen e.payload payload, qos := qos })
    | none =>
      match store.alloc T.maxRetained
          { topic := assign T.maxTopicLen [] topic, payload := assign T.maxPayloadLen [] payload, qos := qos } with
      | none => (.dropped, store)
      | some (_, store') => (.stored, store')

/-- `RetainedStore::remove`. -/
def remove (T : Traits) (topic : Bytes) (store : Pool Entry) : Pool Entry :=
  match find T topic store with
  | none => store
  | some r => store.release T.maxRetained r

end Retained

end Minimosq
