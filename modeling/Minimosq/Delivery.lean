import Minimosq.Topic
import Minimosq.Trace
/-!
# Delivering to one session

The part of `broker/broker.hpp` that works on one session and the transport: `try_send_to`, `enqueue`, `pump_session`,
`resume_session`, `replay_retained`.  None of it touches the connection table or another session, so a function here
takes the connection table it reads and maps the session and the trace.
-/
namespace Minimosq

variable {Ctx : Type}

/-- A session at work, and the trace so far. -/
abbrev Work (Ctx : Type) := Session Ctx × Trace Ctx

/-! ## Helpers -/

def connIndex (T : Traits) (s : Session Ctx) : Nat :=
  if s.connected && decide (s.conn < T.maxConnections) then s.conn else T.maxConnections

def connOfSession (T : Traits) (conns : Nat → Conn) (s : Session Ctx) : Option Conn :=
  if connIndex T s < T.maxConnections then some (conns (connIndex T s)) else none

/-- `c != nullptr && !c->dead`. -/
def online (T : Traits) (conns : Nat → Conn) (s : Session Ctx) : Bool :=
  match connOfSession T conns s with
  | none => false
  | some c => !c.dead

/-- `e.ci` of an event about a session. -/
def eventConn (s : Session Ctx) : Option Nat := if s.connected then some s.conn else none

def notifySession (kind : EventKind) (k : Nat) (s : Session Ctx) (t : Trace Ctx) : Trace Ctx :=
  .event { kind := kind, clientId := s.clientId, ci := eventConn s } (some k) :: t

def notifyDenied (kind : EventKind) (k : Nat) (s : Session Ctx) (topic : Bytes) (t : Trace Ctx) : Trace Ctx :=
  .event { kind := kind, clientId := s.clientId, topic := topic, ci := eventConn s } (some k) :: t

def notifyDrop (k : Nat) (s : Session Ctx) (topic : Bytes) (qos : QoS) (err : Err) (t : Trace Ctx) : Trace Ctx :=
  .event { kind := .deliveryDropped, clientId := s.clientId, topic := topic, qos := qos, err := err,
           ci := eventConn s } (some k) :: t

def qosMin (a b : QoS) : QoS := if a.toNat < b.toNat then a else b
def qosMax (a b : QoS) : QoS := if b.toNat < a.toNat then a else b

/-- Some subscription of `subs` matches, and the highest QoS granted among those that do. -/
def grantedMax (subs : List Subscription) (topic : Bytes) : Bool × QoS :=
  subs.foldl (fun (acc : Bool × QoS) sub =>
    if topicMatches sub.filter topic then (true, qosMax acc.2 sub.granted) else acc) (false, .atMostOnce)

def trySendTo (P : Params Ctx) (conns : Nat → Conn) (tag : Option (Tag Ctx)) (ci : Nat) (pkt : Bytes)
    (t : Trace Ctx) : Bool × Trace Ctx :=
  if P.T.maxConnections ≤ ci then (false, t)
  else if !(conns ci).active || (conns ci).dead then (false, t)
  else if pkt.isEmpty then (false, .unbuilt (tag.map Tag.slot) :: t)
  else (P.send t ci pkt, .send ci pkt (P.send t ci pkt) tag :: t)

def tagOf (k : Nat) (s : Session Ctx) (seq : Option Nat) : Option (Tag Ctx) := some ⟨k, s.authCtx, seq⟩

/-- The note of copies that do not fit their capacity. -/
def checkAssign (copies : List (Nat × Bytes)) (t : Trace Ctx) : Trace Ctx :=
  if copies.any (fun c => decide (c.1 < c.2.length)) then .truncated :: t else t

/-! ## The pending queue -/

/-- The state a queued message goes to when it is away. -/
def sentState (qos : QoS) : OutState := if qos == .atLeastOnce then .awaitingPuback else .awaitingPubrec

/-- One turn of the loop of `pump_session`, at entry `i`, which is `m`: where the loop goes on, or `none` when it
returns. -/
def pumpTurn (P : Params Ctx) (conns : Nat → Conn) (k i : Nat) (m : OutMsg) (w : Work Ctx) : Option Nat × Work Ctx :=
  let s := w.1
  if !online P.T conns s then (none, w)
  else if m.state == .awaitingPubcomp && m.resendPubrel then
    let r := trySendTo P conns (tagOf k s (some m.seq)) (connIndex P.T s)
      (buildPacketIdOnly P.T.outSize .pubrel m.packetId) w.2
    if !r.1 then (none, (s, r.2)) else (some (i + 1), (s.setPending i { m with resendPubrel := false }, r.2))
  else if m.state != .queued then (some (i + 1), w)
  else
    match s.allocPacketId with
    | none => (none, (s, .stuck k :: w.2))
    | some id =>
      let s₁ := { s with lastPacketId := id }
      let pkt := buildPublish P.T.outSize m.topic m.payload m.qos m.retain m.dup id
      if pkt.isEmpty then
        (some i, (s₁.removePending i, notifyDrop k s₁ m.topic m.qos .oversize (.unbuilt (some k) :: w.2)))
      else
        let r := trySendTo P conns (tagOf k s (some m.seq)) (connIndex P.T s) pkt w.2
        if !r.1 then (none, (s₁, r.2))
        else (some (i + 1), (s₁.setPending i { m with packetId := id, state := sentState m.qos }, r.2))

/-- One turn of the loop of `resume_session`. -/
def resumeTurn (P : Params Ctx) (conns : Nat → Conn) (k i : Nat) (m : OutMsg) (w : Work Ctx) : Option Nat × Work Ctx :=
  let s := w.1
  if !online P.T conns s then (none, w)
  else if m.state == .awaitingPubcomp then
    let r := trySendTo P conns (tagOf k s (some m.seq)) (connIndex P.T s)
      (buildPacketIdOnly P.T.outSize .pubrel m.packetId) w.2
    if !r.1 then (none, (s.setPending i { m with resendPubrel := true }, r.2))
    else (some (i + 1), (s.setPending i { m with resendPubrel := false }, r.2))
  else
    let firstSend := m.state == .queued
    match (if firstSend then s.allocPacketId else some m.packetId) with
    | none => (none, (s, .stuck k :: w.2))
    | some id =>
      let s₁ := if firstSend then { s with lastPacketId := id } else s
      let dup := if firstSend then m.dup else true
      let pkt := buildPublish P.T.outSize m.topic m.payload m.qos m.retain dup id
      if pkt.isEmpty then
        (some i, (s₁.removePending i, notifyDrop k s₁ m.topic m.qos .oversize (.unbuilt (some k) :: w.2)))
      else
        let r := trySendTo P conns (tagOf k s (some m.seq)) (connIndex P.T s) pkt w.2
        if !r.1 then (none, (s₁, r.2))
        else
          let m' := if firstSend then { m with packetId := id, state := sentState m.qos } else { m with dup := true }
          (some (i + 1), (s₁.setPending i m', r.2))

/-- The loop over the pending queue.  A turn moves on by one entry or removes one, so the length of the queue is fuel
enough. -/
def queueLoop (turn : Nat → OutMsg → Work Ctx → Option Nat × Work Ctx) : Nat → Nat → Work Ctx → Work Ctx
  | 0, _, w => w
  | n + 1, i, w =>
    match w.1.pending[i]? with
    | none => w
    | some m =>
      match turn i m w with
      | (none, w') => w'
      | (some j, w') => queueLoop turn n j w'

/-- `pump_session`: send every not-yet-sent entry, and every PUBREL the transport refused. -/
def pumpSession (P : Params Ctx) (conns : Nat → Conn) (k : Nat) (w : Work Ctx) : Work Ctx :=
  queueLoop (pumpTurn P conns k) w.1.pending.length 0 w

/-- `resume_session`: retransmit what is in flight with DUP, then flush the queue, in order. -/
def resumeSession (P : Params Ctx) (conns : Nat → Conn) (k : Nat) (w : Work Ctx) : Work Ctx :=
  queueLoop (resumeTurn P conns k) w.1.pending.length 0 w

/-- The entry `enqueue` appends. -/
def outMsg (T : Traits) (s : Session Ctx) (topic payload : Bytes) (eff : QoS) (retain : Bool) : OutMsg :=
  { topic := assign T.maxTopicLen [] topic, payload := assign T.maxPayloadLen [] payload, qos := eff, retain := retain,
    seq := s.nextSeq }

def enqueue (P : Params Ctx) (conns : Nat → Conn) (k : Nat) (topic payload : Bytes) (eff : QoS) (retain : Bool)
    (w : Work Ctx) : Work Ctx :=
  if P.T.maxPayloadLen < payload.length then (w.1, notifyDrop k w.1 topic eff .oversize w.2)
  else if w.1.pending.length == P.T.maxPendingPerSession then (w.1, notifyDrop k w.1 topic eff .capacity w.2)
  else
    let s := { w.1 with
      pending := w.1.pending ++ [outMsg P.T w.1 topic payload eff retain], nextSeq := w.1.nextSeq + 1 }
    let t := .enqueue k w.1.nextSeq topic payload eff retain ::
      checkAssign [(P.T.maxTopicLen, topic), (P.T.maxPayloadLen, payload)] w.2
    if online P.T conns s then pumpSession P conns k (s, t) else (s, t)

/-! ## Retained replay -/

/-- One visit of the loop of `replay_retained`: `here` is the entry's number, and the flag is `paused`. -/
def replayOne (P : Params Ctx) (conns : Nat → Conn) (ci k : Nat) (e : Entry) (here : Nat) (paused : Bool)
    (w : Work Ctx) : Bool × Work Ctx :=
  if paused || decide (here < w.1.retainCursor) then (paused, w)
  else
    let subs := w.1.subs.filter (fun sub => sub.retainPending)
    let g := grantedMax subs e.topic
    let t := .matching k (subs.map Subscription.filter) e.topic :: w.2
    if !g.1 then (paused, (w.1, t))
    else if !P.sec.authorizeReceive t w.1.authCtx e.topic then
      (paused, (w.1, notifyDenied .receiveDenied k w.1 e.topic t))
    else
      let eff := qosMin g.2 e.qos
      if eff != .atMostOnce then (paused, enqueue P conns k e.topic e.payload eff true (w.1, t))
      else
        let pkt := buildPublish P.T.outSize e.topic e.payload .atMostOnce true false 0
        if pkt.isEmpty then
          (paused, (w.1, notifyDrop k w.1 e.topic .atMostOnce .oversize (.unbuilt (some k) :: t)))
        else
          let r := trySendTo P conns (tagOf k w.1 none) ci pkt t
          if !r.1 then (true, ({ w.1 with retainCursor := here }, r.2)) else (paused, (w.1, r.2))

/-- The loop over the live entries.  Their number is at most `max_retained`, which a static_assert keeps inside the
`uint16_t` that counts them. -/
def replayLoop (P : Params Ctx) (conns : Nat → Conn) (ci k : Nat) : List Entry → Nat → Bool → Work Ctx → Bool × Work Ctx
  | [], _, paused, w => (paused, w)
  | e :: es, here, paused, w =>
    let r := replayOne P conns ci k e here paused w
    replayLoop P conns ci k es (here + 1) r.1 r.2

/-- Clear every `retain_pending`. -/
def clearPending (s : Session Ctx) : Session Ctx :=
  { s with subs := s.subs.map (fun sub => { sub with retainPending := false }) }

def replayRetained (P : Params Ctx) (conns : Nat → Conn) (ci k : Nat) (es : List Entry) (w : Work Ctx) : Work Ctx :=
  let r := replayLoop P conns ci k es 0 false w
  let t := .replay k :: r.2.2
  if r.1 then (r.2.1, t) else (clearPending { r.2.1 with retainCursor := 0 }, t)

end Minimosq
