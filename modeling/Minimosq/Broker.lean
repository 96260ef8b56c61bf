import Minimosq.Delivery
/-!
# The broker

`broker/broker.hpp`: the state of a `Broker`, its packet handlers, deferred teardown, and the entry points a transport
and an application drive.  Every function maps the whole state.  `for_each` and the loops over the connection table are
folds over the slot numbers that read the current state at each slot, as the source does.
-/
namespace Minimosq

variable {Ctx : Type}

structure Broker (Ctx : Type) where
  conns : Nat → Conn
  sessions : Pool (Session Ctx)
  retained : Pool Entry
  nowMs : Nat
  disconnectOrder : Nat
  autoIdCounter : Nat
  trace : Trace Ctx

namespace Broker

/-- A broker as constructed. -/
def init : Broker Ctx := ⟨fun _ => {}, .empty, .empty, 0, 0, 0, []⟩

/-! ## Helpers -/

def emit (a : Act Ctx) (σ : Broker Ctx) : Broker Ctx := { σ with trace := a :: σ.trace }

def setConn (ci : Nat) (c : Conn) (σ : Broker Ctx) : Broker Ctx := { σ with conns := Function.update σ.conns ci c }

/-- `conns_[ci].dead = true`. -/
def setDead (ci : Nat) (σ : Broker Ctx) : Broker Ctx := (σ.setConn ci { σ.conns ci with dead := true }).emit (.dead ci)

def setSession (k : Nat) (s : Session Ctx) (σ : Broker Ctx) : Broker Ctx := { σ with sessions := σ.sessions.set k s }

/-- Let `f` work on the session in slot `k`. -/
def onSession (k : Nat) (f : Work Ctx → Work Ctx) (σ : Broker Ctx) : Broker Ctx :=
  match σ.sessions.slot k with
  | none => σ
  | some s => { σ with sessions := σ.sessions.set k (f (s, σ.trace)).1, trace := (f (s, σ.trace)).2 }

/-- `session_of`, with the slot the session is in. -/
def sessionOf (P : Params Ctx) (c : Conn) (σ : Broker Ctx) : Option (Nat × Session Ctx) :=
  if c.session == noSession then none else (σ.sessions.get P.T.maxSessions c.session).map (fun s => (c.session, s))

/-- The client id an event about a connection carries. -/
def clientIdOf (P : Params Ctx) (ci : Nat) (σ : Broker Ctx) : Bytes :=
  match σ.sessionOf P (σ.conns ci) with
  | none => []
  | some (_, s) => s.clientId

def notifyConn (P : Params Ctx) (kind : EventKind) (ci : Nat) (σ : Broker Ctx) (slot : Option Nat := none) :
    Broker Ctx :=
  σ.emit (.event { kind := kind, ci := some ci,
                   clientId := if ci < P.T.maxConnections then σ.clientIdOf P ci else [] } slot)

def notifyViolation (P : Params Ctx) (ci : Nat) (err : Err) (σ : Broker Ctx) : Broker Ctx :=
  σ.emit (.event { kind := .protocolViolation, ci := some ci, err := err, clientId := σ.clientIdOf P ci } none)

def violation (P : Params Ctx) (ci : Nat) (err : Err) (σ : Broker Ctx) : Broker Ctx :=
  (σ.notifyViolation P ci err).setDead ci

def notifyRefused (ci : Nat) (clientId : Bytes) (code : ConnackCode) (σ : Broker Ctx) : Broker Ctx :=
  σ.emit (.event { kind := .connectRefused, ci := some ci, clientId := clientId, connack := code } none)

def notifyTopic (kind : EventKind) (topic : Bytes) (σ : Broker Ctx) : Broker Ctx :=
  σ.emit (.event { kind := kind, topic := topic } none)

def keepaliveWindowMs (keepaliveS : Nat) : Nat := keepaliveS * 1500

def toU32 (n : Nat) : Nat := n % 4294967296

def refreshDeadline (T : Traits) (nowMs : Nat) (c : Conn) : Conn :=
  if 0 < c.keepaliveS then { c with deadlineMs := toU32 (nowMs + keepaliveWindowMs c.keepaliveS) }
  else if 0 < T.maxIdleMs then { c with deadlineMs := toU32 (nowMs + T.maxIdleMs) }
  else c

/-- `static_cast<int32_t>(a - b) >= 0` on `uint32_t`. -/
def notBefore (a b : Nat) : Bool := decide (toU32 (a + (4294967296 - toU32 b)) < 2147483648)

def deadlinePassed (now deadline : Nat) : Bool := notBefore now deadline

def sendTo (P : Params Ctx) (tag : Option (Tag Ctx)) (ci : Nat) (pkt : Bytes) (σ : Broker Ctx) : Broker Ctx :=
  if P.T.maxConnections ≤ ci then σ
  else if !(σ.conns ci).active || (σ.conns ci).dead then σ
  else if pkt.isEmpty then σ.emit (.unbuilt (tag.map Tag.slot))
  else
    let σ₁ := σ.emit (.send ci pkt (P.send σ.trace ci pkt) tag)
    if !P.send σ.trace ci pkt then (σ₁.notifyConn P .transportSendFailed ci).setDead ci else σ₁

/-! ## Client ids -/

def autoIdPrefix : Bytes := [109, 109, 113, 45]

def usesReservedPrefix (id : Bytes) : Bool := autoIdPrefix.isPrefixOf id

/-- The digit loop of `generate_client_id`, most significant digit first; a `uint16_t` has at most five digits. -/
def decimal : Nat → Nat → Bytes
  | 0, _ => []
  | n + 1, v => (if v / 10 = 0 then [] else decimal n (v / 10)) ++ [UInt8.ofNat (48 + v % 10)]

def autoId (n : Nat) : Bytes := autoIdPrefix ++ decimal 5 n

def findClient (P : Params Ctx) (clientId : Bytes) (σ : Broker Ctx) : Option Nat :=
  σ.sessions.find P.T.maxSessions (fun s => s.clientId == clientId)

/-- The loop of `generate_client_id`: the counter it leaves.  The counter comes round after 65536 turns. -/
def generateLoop (P : Params Ctx) (σ : Broker Ctx) : Nat → Nat → Nat
  | 0, v => v
  | n + 1, v =>
    if (σ.findClient P (autoId (toU16 (v + 1)))).isNone then toU16 (v + 1) else generateLoop P σ n (toU16 (v + 1))

def generateClientId (P : Params Ctx) (σ : Broker Ctx) : Bytes × Broker Ctx :=
  let v := generateLoop P σ 0x10000 σ.autoIdCounter
  (autoId v, { σ with autoIdCounter := v })

/-! ## Publishing -/

/-- The slots whose session has an unfinished replay. -/
def pausedSlots (P : Params Ctx) (σ : Broker Ctx) : List Nat :=
  (List.range P.T.maxSessions).filter (fun k =>
    match σ.sessions.slot k with
    | none => false
    | some s => s.anyRetainPending)

/-- The note of a change in the retained store: the entry `topic` has, and whether it came or went. -/
def retainedNote (P : Params Ctx) (topic : Bytes) (store store' : Pool Entry) (σ : Broker Ctx) : Trace Ctx :=
  match Retained.find P.T topic store, Retained.find P.T topic store' with
  | some r, some _ => [.retained r false (σ.pausedSlots P)]
  | some r, none => [.retained r true (σ.pausedSlots P)]
  | none, some r => [.retained r true (σ.pausedSlots P)]
  | none, none => []

def applyRetain (P : Params Ctx) (origin : Option (Origin Ctx)) (topic payload : Bytes) (qos : QoS) (σ : Broker Ctx) :
    Bool × Broker Ctx :=
  let t := .retain origin topic payload qos :: σ.trace
  if payload.isEmpty then
    let store := Retained.remove P.T topic σ.retained
    (true, { σ with retained := store, trace := σ.retainedNote P topic σ.retained store ++ t })
  else
    let r := Retained.set P.T topic payload qos σ.retained
    let t := if r.1 == .stored then checkAssign [(P.T.maxTopicLen, topic), (P.T.maxPayloadLen, payload)] t else t
    let σ₁ := { σ with retained := r.2, trace := σ.retainedNote P topic σ.retained r.2 ++ t }
    let σ₂ := if r.1 == .stalePurged then σ₁.notifyTopic .retainedStalePurged topic else σ₁
    if r.1 != .stored then (false, σ₂.notifyTopic .retainedStoreFailed topic) else (true, σ₂)

/-- One visit of the loop of `route_publish`. -/
def routeOne (P : Params Ctx) (topic payload : Bytes) (qos : QoS) (σ : Broker Ctx) (k : Nat) : Broker Ctx :=
  match σ.sessions.slot k with
  | none => σ
  | some s =>
    let g := grantedMax s.subs topic
    let σ := σ.emit (.matching k (s.subs.map Subscription.filter) topic)
    if !g.1 then σ
    else if !P.sec.authorizeReceive σ.trace s.authCtx topic then
      { σ with trace := notifyDenied .receiveDenied k s topic σ.trace }
    else
      let eff := qosMin qos g.2
      let σ := σ.emit (.routed k topic payload eff)
      if eff == .atMostOnce then
        if online P.T σ.conns s then
          σ.sendTo P (tagOf k s none) (connIndex P.T s)
            (buildPublish P.T.outSize topic payload .atMostOnce false false 0)
        else σ
      else if online P.T σ.conns s || !s.cleanSession then
        σ.onSession k (enqueue P σ.conns k topic payload eff false)
      else σ

def routePublish (P : Params Ctx) (origin : Option (Origin Ctx)) (topic payload : Bytes) (qos : QoS) (σ : Broker Ctx) :
    Broker Ctx :=
  (List.range P.T.maxSessions).foldl (routeOne P topic payload qos) (σ.emit (.route origin topic payload qos))

/-! ## Deferred teardown -/

def release (P : Params Ctx) (k : Nat) (σ : Broker Ctx) : Broker Ctx :=
  { σ with sessions := σ.sessions.release P.T.maxSessions k, trace := .release k :: σ.trace }

/-- The will of a session that just lost its connection, published like a client PUBLISH. -/
def submitWill (P : Params Ctx) (k ci : Nat) (s : Session Ctx) (σ : Broker Ctx) : Broker Ctx :=
  let allowed := P.sec.authorizePublish σ.trace s.authCtx s.willTopic
  let σ₁ := (σ.setSession k { s with hasWill := false }).emit
    (.submit k ci s.authCtx s.willTopic s.willPayload s.willQos s.willRetain allowed)
  if allowed then
    let origin := some ⟨k, ci, s.authCtx⟩
    let σ₂ := if s.willRetain then (σ₁.applyRetain P origin s.willTopic s.willPayload s.willQos).2 else σ₁
    σ₂.routePublish P origin s.willTopic s.willPayload s.willQos
  else σ₁

/-- `s` taken off its connection. -/
def detached (s : Session Ctx) (nowMs order : Nat) : Session Ctx :=
  { s with conn := noConn, disconnectMs := nowMs, disconnectOrder := order }

/-- The session half of `teardown`: the session in slot `k` lost connection `ci`. -/
def dropSession (P : Params Ctx) (k ci : Nat) (s : Session Ctx) (σ : Broker Ctx) : Broker Ctx :=
  let order := toU32 (σ.disconnectOrder + 1)
  let s₁ := detached s σ.nowMs order
  let σ₁ := { σ with
    disconnectOrder := order
    sessions := σ.sessions.set k s₁
    trace := .detach k ci :: .parked k s₁ :: σ.trace }
  let σ₂ := if s.hasWill then σ₁.submitWill P k ci s₁ else σ₁
  if s.cleanSession then σ₂.release P k else σ₂

def teardown (P : Params Ctx) (ci : Nat) (σ : Broker Ctx) : Broker Ctx :=
  let c := σ.conns ci
  let s := σ.sessionOf P c
  let σ₁ := (σ.notifyConn P .connectionClosed ci).setConn ci
    { c with active := false, dead := false, session := noSession }
  let σ₂ := match s with
    | none => σ₁
    | some (k, s) => σ₁.dropSession P k ci s
  if c.notifyTransport then σ₂.emit (.close ci) else σ₂

/-- One pass of `flush_dead` over the connection table, with `again`. -/
def flushPass (P : Params Ctx) (σ : Broker Ctx) : Bool × Broker Ctx :=
  (List.range P.T.maxConnections).foldl (fun (acc : Bool × Broker Ctx) i =>
    if (acc.2.conns i).active && (acc.2.conns i).dead then (true, acc.2.teardown P i) else acc) (false, σ)

def flushLoop (P : Params Ctx) : Nat → Broker Ctx → Broker Ctx
  | 0, σ => σ
  | n + 1, σ => if (σ.flushPass P).1 then flushLoop P n (σ.flushPass P).2 else (σ.flushPass P).2

/-- `flush_dead`.  A pass that goes again has torn an active connection down and none is opened meanwhile, so there is
at most one pass more than there are connections. -/
def flushDead (P : Params Ctx) (σ : Broker Ctx) : Broker Ctx := flushLoop P (P.T.maxConnections + 1) σ

/-! ## Session lifetime -/

def expireOne (P : Params Ctx) (nowMs : Nat) (σ : Broker Ctx) (k : Nat) : Broker Ctx :=
  match σ.sessions.slot k with
  | none => σ
  | some s =>
    if s.connected then σ
    else if deadlinePassed nowMs (toU32 (s.disconnectMs + P.T.sessionExpiryMs)) then
      { σ with trace := notifySession .sessionExpired k s σ.trace }.release P k
    else σ

def expireSessions (P : Params Ctx) (nowMs : Nat) (σ : Broker Ctx) : Broker Ctx :=
  if P.T.sessionExpiryMs = 0 then σ else (List.range P.T.maxSessions).foldl (expireOne P nowMs) σ

/-- `oldest_disconnected_session`: the slot, with the ticket that made it the oldest so far. -/
def oldestDisconnected (P : Params Ctx) (σ : Broker Ctx) : Option Nat :=
  ((List.range P.T.maxSessions).foldl (fun (acc : Option (Nat × Nat)) k =>
    match σ.sessions.slot k with
    | none => acc
    | some s =>
      if s.connected then acc
      else
        match acc with
        | none => some (k, s.disconnectOrder)
        | some (_, order) => if notBefore s.disconnectOrder order then acc else some (k, s.disconnectOrder))
    none).map Prod.fst

/-! ## CONNECT -/

def refuse (P : Params Ctx) (ci : Nat) (code : ConnackCode) (clientId : Bytes) (σ : Broker Ctx) : Broker Ctx :=
  ((σ.notifyRefused ci clientId code).sendTo P none ci (buildConnack P.T.outSize false code)).setDead ci

/-- The session as an accepted CONNECT leaves it. -/
def boundSession (T : Traits) (ci : Nat) (p : ConnectPacket) (ctx : Ctx) (s : Session Ctx) : Session Ctx :=
  let s₁ := { s with cleanSession := p.cleanSession, conn := toU16 ci, authCtx := ctx, hasWill := p.hasWill }
  if p.hasWill then
    { s₁ with
      willTopic := assign T.maxTopicLen s.willTopic p.willTopic
      willPayload := assign T.maxPayloadLen s.willPayload p.willPayload
      willQos := p.willQos
      willRetain := p.willRetain }
  else s₁

/-- The end of `handle_connect`: link the session in slot `k` and the connection, answer, and resume. -/
def connectBind (P : Params Ctx) (ci : Nat) (p : ConnectPacket) (ctx : Ctx) (k : Nat) (sessionPresent : Bool)
    (s : Session Ctx) (σ : Broker Ctx) : Broker Ctx :=
  let s₁ := boundSession P.T ci p ctx s
  let c := refreshDeadline P.T σ.nowMs { σ.conns ci with session := toU16 k, keepaliveS := p.keepaliveS }
  let copies := if p.hasWill then [(P.T.maxTopicLen, p.willTopic), (P.T.maxPayloadLen, p.willPayload)] else []
  let σ₁ := { (σ.setSession k s₁).setConn ci c with
    trace := .bind k ci s₁ sessionPresent :: checkAssign copies σ.trace }
  let σ₂ := { σ₁ with
    trace := notifySession (if sessionPresent then .sessionResumed else .sessionCreated) k s₁ σ₁.trace }
  let σ₃ := σ₂.sendTo P none ci (buildConnack P.T.outSize sessionPresent .accepted)
  if sessionPresent then
    let up := online P.T σ₃.conns s₁ && (σ₃.conns (connIndex P.T s₁)).active
    (σ₃.onSession k (resumeSession P σ₃.conns k)).emit (.resumed k up)
  else σ₃

/-- A fresh session in slot `k`, with its client id. -/
def freshSession (T : Traits) (ctx : Ctx) (clientId : Bytes) : Session Ctx :=
  { authCtx := ctx, clientId := assign T.maxClientIdLen [] clientId }

/-- The allocation half of `handle_connect`: `alloc`, and when the pool is full `alloc` again after evicting the session
disconnected longest. -/
def connectAlloc (P : Params Ctx) (ci : Nat) (p : ConnectPacket) (clientId : Bytes) (ctx : Ctx) (σ : Broker Ctx) :
    Broker Ctx :=
  let fresh := freshSession P.T ctx clientId
  let start := fun (k : Nat) (pool : Pool (Session Ctx)) (σ : Broker Ctx) =>
    { σ with sessions := pool, trace := .alloc k :: checkAssign [(P.T.maxClientIdLen, clientId)] σ.trace }.connectBind
      P ci p ctx k false fresh
  match σ.sessions.alloc P.T.maxSessions fresh with
  | some (k, pool) => start k pool σ
  | none =>
    match σ.oldestDisconnected P with
    | none => σ.refuse P ci .serverUnavailable clientId
    | some v =>
      let σ₁ := match σ.sessions.slot v with
        | none => σ
        | some sv => { σ with trace := notifySession .sessionEvicted v sv σ.trace }.release P v
      match σ₁.sessions.alloc P.T.maxSessions fresh with
      | some (k, pool) => start k pool σ₁
      | none => σ₁.refuse P ci .serverUnavailable clientId

/-- `handle_connect` past its checks: take over, then reuse or replace what is there. -/
def connectAccepted (P : Params Ctx) (ci : Nat) (p : ConnectPacket) (clientId : Bytes) (ctx : Ctx) (σ : Broker Ctx) :
    Broker Ctx :=
  let σ₁ := match σ.findClient P clientId with
    | none => σ
    | some k =>
      match σ.sessions.slot k with
      | none => σ
      | some s =>
        if s.connected then
          ({ σ with trace := notifySession .sessionTakenOver k s σ.trace }.setDead s.conn).flushDead P
        else σ
  match σ₁.findClient P clientId with
  | none => σ₁.connectAlloc P ci p clientId ctx
  | some k =>
    if p.cleanSession then (σ₁.release P k).connectAlloc P ci p clientId ctx
    else
      match σ₁.sessions.slot k with
      | none => σ₁
      | some s => σ₁.connectBind P ci p ctx k true s

/-- The checks of `handle_connect` on a client id and a will, up to `authenticate`. -/
def connectChecked (P : Params Ctx) (ci : Nat) (p : ConnectPacket) (clientId : Bytes) (σ : Broker Ctx) : Broker Ctx :=
  if P.T.maxClientIdLen < clientId.length then σ.refuse P ci .identifierRejected clientId
  else if !utf8Valid clientId || (p.hasUsername && !utf8Valid p.username) then σ.violation P ci .malformed
  else if !p.clientId.isEmpty && usesReservedPrefix clientId then σ.refuse P ci .identifierRejected clientId
  else if p.hasWill && !topicNameValid p.willTopic then σ.violation P ci .malformed
  else if p.hasWill && (decide (P.T.maxTopicLen < p.willTopic.length) ||
      decide (P.T.maxPayloadLen < p.willPayload.length)) then
    σ.refuse P ci .serverUnavailable clientId
  else
    let auth := P.sec.authenticate σ.trace clientId (if p.hasUsername then some p.username else none)
      (if p.hasPassword then some p.password else none)
    if auth.1 != .accepted then σ.refuse P ci auth.1 clientId else σ.connectAccepted P ci p clientId auth.2

def handleConnect (P : Params Ctx) (ci : Nat) (body : Bytes) (σ : Broker Ctx) : Broker Ctx :=
  if (σ.conns ci).session != noSession then σ.violation P ci .state
  else
    match parseConnect body with
    | .error _ => σ.violation P ci .malformed
    | .ok p =>
      if !p.protocolNameOk then σ.violation P ci .malformed
      else if p.protocolLevel != protocolLevel311 then σ.refuse P ci .unacceptableProtocol []
      else if p.clientId.isEmpty then
        if !p.cleanSession then σ.refuse P ci .identifierRejected p.clientId
        else (σ.generateClientId P).2.connectChecked P ci p (σ.generateClientId P).1
      else σ.connectChecked P ci p p.clientId

/-! ## The other handlers

Each begins with `*session_of(c)`; `derefSession` is that dereference. -/

def derefSession (P : Params Ctx) (ci : Nat) (f : Nat → Session Ctx → Broker Ctx → Broker Ctx) (σ : Broker Ctx) :
    Broker Ctx :=
  match σ.sessionOf P (σ.conns ci) with
  | none => σ.emit (.nullDeref ci)
  | some (k, s) => f k s σ

/-- The inbound QoS 2 bookkeeping of `handle_publish`: a new id is tracked, the oldest dropped from a full table. -/
def trackInbound (P : Params Ctx) (k ci id : Nat) (s : Session Ctx) (σ : Broker Ctx) : Broker Ctx :=
  if s.hasInboundQos2 id then σ.emit (.inbound k id false)
  else if s.inboundQos2.length == P.T.maxInboundQos2 then
    (((σ.notifyConn P .inboundQos2Evicted ci (some k)).emit (.evict k (s.inboundQos2.headD 0))).setSession k
      { s with inboundQos2 := s.inboundQos2.tail ++ [id] }).emit (.inbound k id true)
  else (σ.setSession k { s with inboundQos2 := s.inboundQos2 ++ [id] }).emit (.inbound k id true)

/-- The delivering half of `handle_publish`. -/
def acceptPublish (P : Params Ctx) (k : Nat) (s : Session Ctx) (p : PublishPacket) (σ : Broker Ctx) : Broker Ctx :=
  if !P.sec.authorizePublish σ.trace s.authCtx p.topic then
    { σ with trace := notifyDenied .publishDenied k s p.topic σ.trace }
  else
    let origin := some ⟨k, s.conn, s.authCtx⟩
    let σ₁ := if p.retain then (σ.applyRetain P origin p.topic p.payload p.qos).2 else σ
    σ₁.routePublish P origin p.topic p.payload p.qos

def handlePublish (P : Params Ctx) (ci : Nat) (firstByte : UInt8) (body : Bytes) (σ : Broker Ctx) : Broker Ctx :=
  σ.derefSession P ci fun k s σ =>
    match parsePublish firstByte body with
    | .error _ => σ.violation P ci .malformed
    | .ok p =>
      if !topicNameValid p.topic then σ.violation P ci .malformed
      else if P.T.maxTopicLen < p.topic.length then σ.violation P ci .oversize
      else
        let deliver := !(p.qos == .exactlyOnce && s.hasInboundQos2 p.packetId)
        let σ₁ := if p.qos == .exactlyOnce then σ.trackInbound P k ci p.packetId s else σ
        let σ₂ := if deliver then σ₁.acceptPublish P k s p else σ₁
        if p.qos == .atLeastOnce then σ₂.sendTo P none ci (buildPacketIdOnly P.T.outSize .puback p.packetId)
        else if p.qos == .exactlyOnce then σ₂.sendTo P none ci (buildPacketIdOnly P.T.outSize .pubrec p.packetId)
        else σ₂

/-- `handle_puback`, `handle_pubcomp`: an entry in `state` with the acknowledged id leaves the queue. -/
def handleFinal (P : Params Ctx) (type : PacketType) (state : OutState) (ci : Nat) (body : Bytes) (σ : Broker Ctx) :
    Broker Ctx :=
  match parsePacketIdOnly body with
  | .error _ => σ.violation P ci .malformed
  | .ok id =>
    σ.derefSession P ci fun k s σ =>
      let s₁ := match s.findPending id state state with
        | none => s
        | some i => s.removePending i
      (σ.setSession k s₁).emit (.ack k ci type id)

def handlePuback (P : Params Ctx) (ci : Nat) (body : Bytes) (σ : Broker Ctx) : Broker Ctx :=
  σ.handleFinal P .puback .awaitingPuback ci body

def handlePubcomp (P : Params Ctx) (ci : Nat) (body : Bytes) (σ : Broker Ctx) : Broker Ctx :=
  σ.handleFinal P .pubcomp .awaitingPubcomp ci body

def handlePubrec (P : Params Ctx) (ci : Nat) (body : Bytes) (σ : Broker Ctx) : Broker Ctx :=
  match parsePacketIdOnly body with
  | .error _ => σ.violation P ci .malformed
  | .ok id =>
    σ.derefSession P ci fun k s σ =>
      match s.findPending id .awaitingPubrec .awaitingPubcomp with
      | none => σ.emit (.ack k ci .pubrec id)
      | some i =>
        match s.pending[i]? with
        | none => σ
        | some m =>
          ((σ.setSession k (s.setPending i { m with state := .awaitingPubcomp })).emit (.ack k ci .pubrec id)).sendTo P
            (tagOf k s (some m.seq)) ci (buildPacketIdOnly P.T.outSize .pubrel id)

def handlePubrel (P : Params Ctx) (ci : Nat) (body : Bytes) (σ : Broker Ctx) : Broker Ctx :=
  match parsePacketIdOnly body with
  | .error _ => σ.violation P ci .malformed
  | .ok id =>
    σ.derefSession P ci fun k s σ =>
      ((σ.setSession k (s.removeInboundQos2 id)).emit (.pubrel k id)).sendTo P none ci
        (buildPacketIdOnly P.T.outSize .pubcomp id)

/-- `subscribe_one`: the SUBACK code, the session, and the subscription's index when it was granted. -/
def subscribeOne (T : Traits) (filter : Bytes) (requested : QoS) (s : Session Ctx) : UInt8 × Session Ctx × Option Nat :=
  if T.maxTopicLen < filter.length then (subackFailure, s, none)
  else
    match s.findSub filter with
    | some i =>
      (UInt8.ofNat requested.toNat,
        { s with subs := s.subs.modify i (fun sub => { sub with granted := requested }) }, some i)
    | none =>
      if s.subs.length == T.maxSubscriptionsPerSession then (subackFailure, s, none)
      else
        (UInt8.ofNat requested.toNat,
          { s with subs := s.subs ++ [{ filter := assign T.maxTopicLen [] filter, granted := requested }] },
          some s.subs.length)

/-- Where pass 2 of `handle_subscribe` stands: the session, the SUBACK being written, the filters granted so far and the
trace. -/
structure Pass2 (Ctx : Type) where
  s : Session Ctx
  w : Writer
  granted : List Bytes
  t : Trace Ctx

/-- One entry of pass 2 of `handle_subscribe`. -/
def subscribeEntry (P : Params Ctx) (k : Nat) (acc : Pass2 Ctx) (e : Bytes × QoS) : Pass2 Ctx :=
  if !P.sec.authorizeSubscribe acc.t acc.s.authCtx e.1 then
    { acc with w := acc.w.u8 subackFailure, t := notifyDenied .subscribeDenied k acc.s e.1 acc.t }
  else
    let r := subscribeOne P.T e.1 e.2 acc.s
    match r.2.2 with
    | none => { acc with s := r.2.1, w := acc.w.u8 r.1 }
    | some i =>
      { acc with
        s := { r.2.1 with subs := r.2.1.subs.modify i (fun sub => { sub with retainPending := true }) }
        w := acc.w.u8 r.1
        granted := acc.granted ++ [e.1]
        t := checkAssign [(P.T.maxTopicLen, e.1)] acc.t }

/-- Pass 2 of `handle_subscribe`. -/
def subscribePass2 (P : Params Ctx) (k packetId : Nat) (es : List (Bytes × QoS)) (s : Session Ctx) (t : Trace Ctx) :
    Pass2 Ctx :=
  es.foldl (subscribeEntry P k)
    { s := clearPending s, w := (Writer.make (P.T.outSize - packetOverhead)).u16 packetId, granted := [], t := t }

/-- Passes 2 and 3 of `handle_subscribe`, on entries pass 1 found valid. -/
def subscribeValid (P : Params Ctx) (k ci packetId : Nat) (es : List (Bytes × QoS)) (s : Session Ctx)
    (σ : Broker Ctx) : Broker Ctx :=
  let r := subscribePass2 P k packetId es s σ.trace
  let σ₁ := { σ with sessions := σ.sessions.set k r.s, trace := .subscribe k s r.granted :: r.t }
  if !r.w.ok then σ₁.violation P ci .oversize
  else
    let σ₂ := σ₁.sendTo P none ci (framePacket (makeFirstByte .suback 0) r.w.buf)
    if r.s.anyRetainPending then
      σ₂.onSession k (fun w =>
        replayRetained P σ₂.conns ci k (σ₂.retained.toList P.T.maxRetained) ({ w.1 with retainCursor := 0 }, w.2))
    else σ₂

def handleSubscribe (P : Params Ctx) (ci : Nat) (body : Bytes) (σ : Broker Ctx) : Broker Ctx :=
  σ.derefSession P ci fun k s σ =>
    let r := TopicListParser.entries body true
    if r.1.any (fun e => !topicFilterValid e.1) then σ.violation P ci .malformed
    else if r.2.err != .ok then σ.violation P ci r.2.err
    else σ.subscribeValid P k ci r.2.packetId r.1 s

/-- The loop over one UNSUBSCRIBE's filters: each removes the first subscription it equals. -/
def unsubscribeAll (subs : List Subscription) (filters : List Bytes) : List Subscription :=
  filters.foldl (fun subs f => subs.eraseP (fun sub => sub.filter == f)) subs

def handleUnsubscribe (P : Params Ctx) (ci : Nat) (body : Bytes) (σ : Broker Ctx) : Broker Ctx :=
  σ.derefSession P ci fun k s σ =>
    let r := TopicListParser.entries body false
    if r.1.any (fun e => !topicFilterValid e.1) then σ.violation P ci .malformed
    else if r.2.err != .ok then σ.violation P ci r.2.err
    else
      ((σ.setSession k { s with subs := unsubscribeAll s.subs (r.1.map Prod.fst) }).emit
        (.unsubscribe k (r.1.map Prod.fst))).sendTo P none ci (buildPacketIdOnly P.T.outSize .unsuback r.2.packetId)

def handleDisconnect (P : Params Ctx) (ci : Nat) (body : Bytes) (σ : Broker Ctx) : Broker Ctx :=
  if !body.isEmpty then σ.violation P ci .malformed
  else
    σ.derefSession P ci fun k s σ =>
      ((σ.setSession k { s with hasWill := false }).emit (.disconnect k ci)).setDead ci

/-! ## Dispatch -/

def dispatch (P : Params Ctx) (ci : Nat) (firstByte : UInt8) (body : Bytes) (σ : Broker Ctx) : Broker Ctx :=
  match packetType firstByte with
  | some .connect => σ.handleConnect P ci body
  | some .publish => σ.handlePublish P ci firstByte body
  | some .pubrel => σ.handlePubrel P ci body
  | some .puback => σ.handlePuback P ci body
  | some .pubrec => σ.handlePubrec P ci body
  | some .pubcomp => σ.handlePubcomp P ci body
  | some .subscribe => σ.handleSubscribe P ci body
  | some .unsubscribe => σ.handleUnsubscribe P ci body
  | some .pingreq =>
    if !body.isEmpty then σ.violation P ci .malformed else σ.sendTo P none ci (buildPingresp P.T.outSize)
  | some .disconnect => σ.handleDisconnect P ci body
  | _ => σ.violation P ci .malformed

/-- `on_packet`, with its answer to the frame parser. -/
def onPacket (P : Params Ctx) (ci : Nat) (firstByte : UInt8) (body : Bytes) (σ : Broker Ctx) : Bool × Broker Ctx :=
  let σ₀ := σ.emit (.packet ci firstByte body)
  if !fixedFlagsValid (packetType firstByte) (packetFlags firstByte) then (false, σ₀.violation P ci .malformed)
  else if (σ.conns ci).session == noSession && packetType firstByte != some .connect then
    (false, σ₀.violation P ci .state)
  else (!((σ₀.dispatch P ci firstByte body).conns ci).dead, σ₀.dispatch P ci firstByte body)

/-! ## Entry points -/

def connOpen (P : Params Ctx) (ci nowMs : Nat) (σ : Broker Ctx) : Err × Broker Ctx :=
  if decide (P.T.maxConnections ≤ ci) || (σ.conns ci).active then (.state, σ)
  else
    (.ok, (σ.setConn ci { (σ.conns ci).reset with
      active := true, deadlineMs := toU32 (nowMs + P.T.connectTimeoutMs) }).notifyConn P .connectionOpened ci)

def connClosed (P : Params Ctx) (ci : Nat) (σ : Broker Ctx) : Broker Ctx :=
  if decide (P.T.maxConnections ≤ ci) || !(σ.conns ci).active then σ
  else
    ((σ.setConn ci { σ.conns ci with notifyTransport := false, dead := true }).emit (.peerClosed ci)).flushDead P

/-- What `conn_data` does before it feeds the parser: record the clock and refresh the deadline. -/
def beginData (P : Params Ctx) (ci nowMs : Nat) (σ : Broker Ctx) : Broker Ctx :=
  let σ₁ := { σ with nowMs := nowMs }
  if (σ.conns ci).session != noSession then σ₁.setConn ci (refreshDeadline P.T nowMs (σ.conns ci)) else σ₁

/-- Write the parser of connection `ci`. -/
def setParser (ci : Nat) (p : FrameParser) (σ : Broker Ctx) : Broker Ctx :=
  σ.setConn ci { σ.conns ci with parser := p }

/-- Feed the parser of connection `ci`.  Nothing `on_packet` does reads that parser, so it is out of the table while it
runs and put back at the end. -/
def feedConn (P : Params Ctx) (ci : Nat) (data : Bytes) (σ : Broker Ctx) : Err × Broker Ctx :=
  let r := (σ.conns ci).parser.feed P.T.maxPacketSize (onPacket P ci) data (σ.setParser ci {})
  (r.1, r.2.2.setParser ci r.2.1)

def connData (P : Params Ctx) (ci : Nat) (data : Bytes) (nowMs : Nat) (σ : Broker Ctx) : Err × Broker Ctx :=
  if decide (P.T.maxConnections ≤ ci) || !(σ.conns ci).active then (.state, σ)
  else if (σ.conns ci).dead then (.ok, σ)
  else
    let r := (σ.beginData P ci nowMs).feedConn P ci data
    (r.1, (if r.1 != .ok then r.2.violation P ci r.1 else r.2).flushDead P)

/-- One visit of the timeout loop of `tick`. -/
def timeoutOne (P : Params Ctx) (nowMs : Nat) (σ : Broker Ctx) (i : Nat) : Broker Ctx :=
  let c := σ.conns i
  let armed := if c.session == noSession then decide (0 < P.T.connectTimeoutMs)
    else decide (0 < c.keepaliveS) || decide (0 < P.T.maxIdleMs)
  if !c.active || c.dead then σ
  else if armed && deadlinePassed nowMs c.deadlineMs then
    let kind : EventKind := if c.session == noSession then .connectTimeout
      else if 0 < c.keepaliveS then .keepaliveTimeout else .idleTimeout
    (σ.notifyConn P kind i).setDead i
  else σ

/-- One visit of the session loop of `tick`: continue a paused replay, then pump the queue. -/
def pumpOne (P : Params Ctx) (σ : Broker Ctx) (k : Nat) : Broker Ctx :=
  match σ.sessions.slot k with
  | none => σ
  | some s =>
    if !s.connected || decide (P.T.maxConnections ≤ s.conn) || (σ.conns s.conn).dead then σ
    else
      let σ₁ := if s.anyRetainPending then
          σ.onSession k (replayRetained P σ.conns s.conn k (σ.retained.toList P.T.maxRetained))
        else σ
      σ₁.onSession k (pumpSession P σ.conns k)

def tick (P : Params Ctx) (nowMs : Nat) (σ : Broker Ctx) : Broker Ctx :=
  let σ₁ := (List.range P.T.maxConnections).foldl (timeoutOne P nowMs) { σ with nowMs := nowMs }
  let σ₂ := (List.range P.T.maxSessions).foldl (pumpOne P) σ₁
  (σ₂.flushDead P).expireSessions P nowMs

def publish (P : Params Ctx) (topic payload : Bytes) (qos : QoS) (retain : Bool) (σ : Broker Ctx) : Err × Broker Ctx :=
  let idLen := if qos == .atMostOnce then 0 else 2
  if !topicNameValid topic then (.malformed, σ)
  else if P.T.maxTopicLen < topic.length then (.oversize, σ)
  else if P.T.outSize - packetOverhead < 2 + topic.length + idLen + payload.length then (.oversize, σ)
  else
    let result : Err := if qos != .atMostOnce && decide (P.T.maxPayloadLen < payload.length) then .oversize else .ok
    let σ := σ.emit (.application topic payload qos retain)
    let r := if retain then σ.applyRetain P none topic payload qos else (true, σ)
    (if !r.1 && result == .ok then .capacity else result, (r.2.routePublish P none topic payload qos).flushDead P)

end Broker

export Broker (toU32 deadlinePassed notBefore refreshDeadline usesReservedPrefix decimal autoId detached boundSession
  freshSession Pass2 subscribeEntry subscribePass2 unsubscribeAll)

/-! ## Runs -/

/-- A call on the broker. -/
inductive Input
  | connOpen (ci nowMs : Nat)
  | connClosed (ci : Nat)
  | connData (ci : Nat) (data : Bytes) (nowMs : Nat)
  | tick (nowMs : Nat)
  | publish (topic payload : Bytes) (qos : QoS) (retain : Bool)
  deriving DecidableEq, Repr

def Broker.step (P : Params Ctx) (σ : Broker Ctx) : Input → Broker Ctx
  | .connOpen ci now => (σ.connOpen P ci now).2
  | .connClosed ci => σ.connClosed P ci
  | .connData ci data now => (σ.connData P ci data now).2
  | .tick now => σ.tick P now
  | .publish topic payload qos retain => (σ.publish P topic payload qos retain).2

/-- **A run**: the state a fresh broker returns in after a list of calls. -/
def run (P : Params Ctx) (inputs : List Input) : Broker Ctx := inputs.foldl (Broker.step P) .init

end Minimosq
