import Minimosq.History
import Minimosq.Broker
import Minimosq.Codec
/-!
# The life of one session slot

What may happen to the session in one slot of the pool, as a machine over the acts about that slot.  `QStep` is one turn
of a send loop, `DStep` any delivery or acknowledgement, `TStep` everything that leaves the session on its connection
(or off it), `RStep` one turn of `resume_session`, and `SlotStep` the whole: allocation, CONNECT, resumption, teardown,
release.  The broker is shown to move every slot by these steps only (`run_slot`); what a session does over a run is
then an induction over them.
-/
namespace Minimosq

open History (Star since)

variable {Ctx : Type}
variable {k : Nat} {a : Act Ctx} {new : Trace Ctx}

/-! ## The acts about a slot -/

def slotActs (k : Nat) (t : Trace Ctx) : Trace Ctx := t.filter (fun a => a.slot == some k)

@[simp] theorem slotActs_nil (k : Nat) : slotActs k ([] : Trace Ctx) = [] := rfl

@[simp] theorem slotActs_append (k : Nat) (t u : Trace Ctx) : slotActs k (t ++ u) = slotActs k t ++ slotActs k u :=
  List.filter_append ..

theorem slotActs_cons_own (h : a.slot = some k) (t : Trace Ctx) :
    slotActs k (a :: t) = a :: slotActs k t := History.about_cons_own h t

theorem slotActs_cons_other (h : a.slot ≠ some k) (t : Trace Ctx) :
    slotActs k (a :: t) = slotActs k t := History.about_cons_other h t

theorem slotActs_own (h : ∀ a ∈ new, a.slot = some k) : slotActs k new = new :=
  History.about_own h

theorem slotActs_eq_nil (h : ∀ a ∈ new, a.slot ≠ some k) : slotActs k new = [] :=
  History.about_eq_nil h

theorem slotActs_skip (h : ∀ a ∈ new, a.slot ≠ some k) (t : Trace Ctx) :
    slotActs k (new ++ t) = slotActs k t := History.about_skip h t

theorem slotActs_other {j : Nat} (h : ∀ a ∈ new, a.slot = some j) (hne : j ≠ k) : slotActs k new = [] :=
  slotActs_eq_nil (fun a ha => by simp [h a ha, hne])

theorem mem_slotActs {t : Trace Ctx} : a ∈ slotActs k t ↔ a ∈ t ∧ a.slot = some k :=
  History.mem_about

/-- A CONNECT was accepted. -/
def Act.isBind : Act Ctx → Bool
  | .bind _ _ _ _ => true
  | _ => false

/-- The transport took a packet for the queued message `n`. -/
def Act.took (n : Nat) : Act Ctx → Bool
  | .send _ _ true (some τ) => τ.seq == some n
  | _ => false

/-- Message `n` went out since the last CONNECT. -/
def SentSince (h : Trace Ctx) (n : Nat) : Prop := ∃ a ∈ since Act.isBind h, a.took n = true

/-! ## Turns of the send loops -/

/-- The entry needs nothing more from `pump_session`. -/
def Settled (m : OutMsg) : Prop := m.state ≠ .queued ∧ (m.state = .awaitingPubcomp → m.resendPubrel = false)

/-- The entries before position `i` have the property. -/
def Before (s : Session Ctx) (i : Nat) (p : OutMsg → Prop) : Prop := ∀ j < i, ∀ m, s.pending[j]? = some m → p m

/-- The PUBLISH an entry goes out in. -/
def publishOf (T : Traits) (m : OutMsg) (dup : Bool) (id : Nat) : Bytes :=
  buildPublish T.outSize m.topic m.payload m.qos m.retain dup id

/-- The PUBREL an entry goes out in. -/
def pubrelOf (T : Traits) (m : OutMsg) : Bytes := buildPacketIdOnly T.outSize .pubrel m.packetId

/-- The entry with `id`, just put on the wire. -/
def OutMsg.sent (m : OutMsg) (id : Nat) : OutMsg := { m with packetId := id, state := sentState m.qos }

/-- **One turn of a send loop at position `i`**: take an id or find none, send a queued entry for the first time, or
drop an entry that no packet can carry. -/
inductive QStep (P : Params Ctx) (k i : Nat) (s : Session Ctx) : Trace Ctx → Session Ctx → Prop
  | advance {id : Nat} (hid : s.allocPacketId = some id) : QStep P k i s [] { s with lastPacketId := id }
  | stuck (hid : s.allocPacketId = none) (m : OutMsg) (hm : s.pending[i]? = some m) (hq : m.state = .queued) :
      QStep P k i s [.stuck k] s
  | transmit (m : OutMsg) (ok : Bool) {id : Nat} (hid : s.allocPacketId = some id) (hm : s.pending[i]? = some m)
      (hq : m.state = .queued) (hset : Before s i Settled) (hpkt : publishOf P.T m m.dup id ≠ []) :
      QStep P k i s [.send s.conn (publishOf P.T m m.dup id) ok (tagOf k s (some m.seq))]
        (if ok then { s with lastPacketId := id }.setPending i (m.sent id) else { s with lastPacketId := id })
  | drop (m : OutMsg) (e : Event) (dup : Bool) (id : Nat) (hm : s.pending[i]? = some m)
      (hst : m.state ≠ .awaitingPubcomp) (hpkt : publishOf P.T m dup id = []) :
      QStep P k i s [.event e (some k), .unbuilt (some k)] (s.removePending i)

/-- A note of subscription handling. -/
def Act.isSubs (k : Nat) : Act Ctx → Bool
  | .subscribe j _ _ | .unsubscribe j _ | .replay j => j == k
  | _ => false

/-- The acknowledgement that ends a delivery, and the state of the entry it ends. -/
inductive FinalAck : PacketType → OutState → Prop
  | puback : FinalAck .puback .awaitingPuback
  | pubcomp : FinalAck .pubcomp .awaitingPubcomp

/-- `s` without the entry in `state` that `id` acknowledges. -/
def Session.acked (s : Session Ctx) (id : Nat) (state : OutState) : Session Ctx :=
  match s.findPending id state state with
  | none => s
  | some i => s.removePending i

/-- `s` with one more entry in its queue. -/
def Session.queued (T : Traits) (s : Session Ctx) (topic payload : Bytes) (eff : QoS) (retain : Bool) : Session Ctx :=
  { s with pending := s.pending ++ [outMsg T s topic payload eff retain], nextSeq := s.nextSeq + 1 }

/-- A topic that a session can hold and a PUBLISH can carry. -/
structure TopicFits (T : Traits) (topic : Bytes) : Prop where
  valid : topicNameValid topic = true
  stored : topic.length ≤ T.maxTopicLen

theorem TopicFits.carried {T : Traits} {topic : Bytes} (h : TopicFits T topic) : topic.length ≤ maxUtf8Len := by
  have hvalid := h.valid
  unfold topicNameValid at hvalid
  split at hvalid
  · cases hvalid
  · rename_i hno
    simp only [Bool.or_eq_true, decide_eq_true_eq, not_or] at hno
    omega

/-- A filter that a session can hold. -/
structure FilterFits (T : Traits) (filter : Bytes) : Prop where
  valid : topicFilterValid filter = true
  stored : filter.length ≤ T.maxTopicLen

/-- A client id that a session can hold. -/
structure ClientIdFits (T : Traits) (clientId : Bytes) : Prop where
  valid : utf8Valid clientId = true
  stored : clientId.length ≤ T.maxClientIdLen

/-- A PUBLISH of this topic and payload fits the packet buffer. -/
def BodyFits (T : Traits) (topic payload : Bytes) (qos : QoS) : Prop :=
  (publishBody topic payload qos 0).length ≤ T.outSize - packetOverhead

/-- A message routed to an offline session at QoS `eff` is kept for it. -/
structure Session.Keeps (T : Traits) (s : Session Ctx) (payload : Bytes) (eff : QoS) : Prop where
  persistent : s.cleanSession = false
  acknowledged : eff ≠ .atMostOnce
  stored : payload.length ≤ T.maxPayloadLen
  room : s.pending.length ≠ T.maxPendingPerSession

instance (T : Traits) (s : Session Ctx) (payload : Bytes) (eff : QoS) : Decidable (s.Keeps T payload eff) :=
  decidable_of_iff (s.cleanSession = false ∧ eff ≠ .atMostOnce ∧ payload.length ≤ T.maxPayloadLen ∧
    s.pending.length ≠ T.maxPendingPerSession) ⟨fun h => ⟨h.1, h.2.1, h.2.2.1, h.2.2.2⟩, fun h => ⟨h.1, h.2, h.3, h.4⟩⟩

/-- **What a session does between CONNECT and teardown, and offline.**  A packet of a session goes to its connection,
and without one its queue grows by what is routed to it and may be kept. -/
inductive DStep (P : Params Ctx) (k : Nat) (s : Session Ctx) : Trace Ctx → Session Ctx → Prop
  | queue {acts : Trace Ctx} {s' : Session Ctx} (i : Nat) (hon : s.conn ≠ noConn) (q : QStep P k i s acts s') :
      DStep P k s acts s'
  | event (e : Event) : DStep P k s [.event e (some k)] s
  | matching (filters : List Bytes) (topic : Bytes) (hfilters : ∀ f ∈ filters, ∃ sub ∈ s.subs, sub.filter = f)
      (htopic : TopicFits P.T topic) : DStep P k s [.matching k filters topic] s
  /-- A QoS 0 PUBLISH that cannot be built. -/
  | unbuilt (topic payload : Bytes) (retain : Bool) (htopic : TopicFits P.T topic)
      (hbody : BodyFits P.T topic payload .atMostOnce)
      (hpkt : buildPublish P.T.outSize topic payload .atMostOnce retain false 0 = []) :
      DStep P k s [.unbuilt (some k)] s
  /-- A QoS 0 PUBLISH, routed or retained. -/
  | live (topic payload : Bytes) (retain ok : Bool) (t : Trace Ctx)
      (auth : P.sec.authorizeReceive t s.authCtx topic = true) :
      DStep P k s [.send s.conn (buildPublish P.T.outSize topic payload .atMostOnce retain false 0) ok
        (tagOf k s none)] s
  | enqueue (topic payload : Bytes) (eff : QoS) (retain : Bool) (t : Trace Ctx) (hon : s.conn ≠ noConn)
      (auth : P.sec.authorizeReceive t s.authCtx topic = true) (heff : eff ≠ .atMostOnce)
      (hroom : s.pending.length ≠ P.T.maxPendingPerSession) (htopic : TopicFits P.T topic)
      (hpayload : payload.length ≤ P.T.maxPayloadLen) :
      DStep P k s [.enqueue k s.nextSeq topic payload eff retain] (s.queued P.T topic payload eff retain)
  /-- A message routed to a session that has a connection; what comes of it follows. -/
  | routed (topic payload : Bytes) (eff : QoS) (hon : s.conn ≠ noConn) : DStep P k s [.routed k topic payload eff] s
  /-- A message routed to an offline session and kept for it, -/
  | kept (topic payload : Bytes) (eff : QoS) (t : Trace Ctx) (hoff : s.conn = noConn)
      (auth : P.sec.authorizeReceive t s.authCtx topic = true) (htopic : TopicFits P.T topic)
      (hkeeps : s.Keeps P.T payload eff) :
      DStep P k s [.enqueue k s.nextSeq topic payload eff false, .routed k topic payload eff]
        (s.queued P.T topic payload eff false)
  /-- or not. -/
  | passed (topic payload : Bytes) (eff : QoS) (hoff : s.conn = noConn) (hno : ¬s.Keeps P.T payload eff) :
      DStep P k s [.routed k topic payload eff] s
  /-- `pump_session` repeats a PUBREL the transport refused. -/
  | pumpRel (i : Nat) (m : OutMsg) (ok : Bool) (hon : s.conn ≠ noConn) (hm : s.pending[i]? = some m)
      (hst : m.state = .awaitingPubcomp) (hflag : m.resendPubrel = true) (hset : Before s i Settled) :
      DStep P k s [.send s.conn (pubrelOf P.T m) ok (tagOf k s (some m.seq))]
        (if ok then s.setPending i { m with resendPubrel := false } else s)
  | final (type : PacketType) (state : OutState) (id : Nat) (hon : s.conn ≠ noConn) (ht : FinalAck type state) :
      DStep P k s [.ack k s.conn type id] (s.acked id state)
  | pubrecUnknown (id : Nat) (hnone : s.findPending id .awaitingPubrec .awaitingPubcomp = none) :
      DStep P k s [.ack k s.conn .pubrec id] s
  | pubrec (i : Nat) (m : OutMsg) (id : Nat) (hon : s.conn ≠ noConn)
      (hi : s.findPending id .awaitingPubrec .awaitingPubcomp = some i)
      (hm : s.pending[i]? = some m) :
      DStep P k s [.ack k s.conn .pubrec id] (s.setPending i { m with state := .awaitingPubcomp })
  /-- The PUBREL that answers a PUBREC. -/
  | answerRel (i : Nat) (m : OutMsg) (ok : Bool) (hm : s.pending[i]? = some m) (hst : m.state = .awaitingPubcomp) :
      DStep P k s [.send s.conn (pubrelOf P.T m) ok (tagOf k s (some m.seq))] s
  | inboundDup (id : Nat) (hid : s.hasInboundQos2 id = true) : DStep P k s [.inbound k id false] s
  | inboundTrack (id : Nat) (hon : s.conn ≠ noConn) (hid : s.hasInboundQos2 id = false)
      (hroom : s.inboundQos2.length ≠ P.T.maxInboundQos2) :
      DStep P k s [.inbound k id true] { s with inboundQos2 := s.inboundQos2 ++ [id] }
  | inboundEvict (id : Nat) (e : Event) (hon : s.conn ≠ noConn) (hid : s.hasInboundQos2 id = false)
      (hfull : s.inboundQos2.length = P.T.maxInboundQos2) (he : e.kind = .inboundQos2Evicted) :
      DStep P k s [.inbound k id true, .evict k (s.inboundQos2.headD 0), .event e (some k)]
        { s with inboundQos2 := s.inboundQos2.tail ++ [id] }
  | pubrel (id : Nat) (hon : s.conn ≠ noConn) : DStep P k s [.pubrel k id] (s.removeInboundQos2 id)

/-- `apply_retain` or `route_publish` was called for `origin`. -/
inductive Act.Publishes (origin : Origin Ctx) (topic payload : Bytes) (qos : QoS) : Act Ctx → Prop
  | retain : Publishes origin topic payload qos (.retain (some origin) topic payload qos)
  | route : Publishes origin topic payload qos (.route (some origin) topic payload qos)

/-- The will of slot `k`, which had connection `ci`, was just submitted and allowed. -/
def Submitted (k ci : Nat) (ctx : Ctx) (topic payload : Bytes) (qos : QoS) (h : Trace Ctx) : Prop :=
  ∃ retain newer older, h = newer ++ .submit k ci ctx topic payload qos retain true :: older ∧
    ∀ a ∈ newer, a = .retain (some ⟨k, ci, ctx⟩) topic payload qos

/-- A delivery step, a change of the subscriptions and of where the replay stands, or a message that is published for
the session: one of its connection, or the will it left. -/
inductive TStep (P : Params Ctx) (k : Nat) (h : Trace Ctx) (s : Session Ctx) : Trace Ctx → Session Ctx → Prop
  | deliver {acts : Trace Ctx} {s' : Session Ctx} (d : DStep P k s acts s') : TStep P k h s acts s'
  | subs {acts : Trace Ctx} (subs : List Subscription) (cursor : Nat) (hacts : ∀ a ∈ acts, a.isSubs k = true)
      (hon : s.conn ≠ noConn)
      (hfits : ∀ sub ∈ subs, (∃ sub' ∈ s.subs, sub'.filter = sub.filter) ∨ FilterFits P.T sub.filter) :
      TStep P k h s acts { s with subs := subs, retainCursor := cursor }
  | publish {a : Act Ctx} (ci : Nat) (topic payload : Bytes) (qos : QoS) (t : Trace Ctx)
      (ha : a.Publishes ⟨k, ci, s.authCtx⟩ topic payload qos) (htopic : TopicFits P.T topic)
      (hask : P.sec.authorizePublish t s.authCtx topic = true)
      (hfrom : s.conn = ci ∧ ci ≠ noConn ∨ Submitted k ci s.authCtx topic payload qos h) : TStep P k h s [a] s

/-- **One turn of `resume_session`** at position `i`: everything before it went out on this connection. -/
inductive RStep (P : Params Ctx) (k : Nat) (h : Trace Ctx) (s : Session Ctx) : Trace Ctx → Session Ctx → Prop
  | queue {acts : Trace Ctx} {s' : Session Ctx} (i : Nat) (hsent : Before s i (SentSince h ·.seq))
      (q : QStep P k i s acts s') : RStep P k h s acts s'
  | retransmit (i : Nat) (m : OutMsg) (ok : Bool) (hsent : Before s i (SentSince h ·.seq)) (hm : s.pending[i]? = some m)
      (hst : m.state = .awaitingPuback ∨ m.state = .awaitingPubrec) (hpkt : publishOf P.T m true m.packetId ≠ []) :
      RStep P k h s [.send s.conn (publishOf P.T m true m.packetId) ok (tagOf k s (some m.seq))]
        (if ok then s.setPending i { m with dup := true } else s)
  | rel (i : Nat) (m : OutMsg) (ok : Bool) (hsent : Before s i (SentSince h ·.seq)) (hm : s.pending[i]? = some m)
      (hst : m.state = .awaitingPubcomp) :
      RStep P k h s [.send s.conn (pubrelOf P.T m) ok (tagOf k s (some m.seq))]
        (s.setPending i { m with resendPubrel := !ok })

/-- **Where `resume_session` stops on a connection that is up**: at the end of the queue, or at the entry whose packet
was just refused, a PUBREL being marked for repetition, or at a queued entry there is no id for. -/
def ResumeEnd (h : Trace Ctx) (s : Session Ctx) : Prop :=
  ∃ i, Before s i (fun m => SentSince h m.seq ∧ Settled m) ∧
    ∀ m, s.pending[i]? = some m →
      ((∃ ci pkt k h', h = .send ci pkt false (tagOf k s (some m.seq)) :: h') ∨ m.state = .queued) ∧
      (m.state = .awaitingPubcomp → m.resendPubrel = true)

/-- What CONNECT checks of a will it accepts. -/
def WillFits (T : Traits) (hasWill : Bool) (topic payload : Bytes) : Prop :=
  hasWill = true → TopicFits T topic ∧ payload.length ≤ T.maxPayloadLen

/-- The note of a will submitted for `s`. -/
def submitNote (k ci : Nat) (s : Session Ctx) (allowed : Bool) : Act Ctx :=
  .submit k ci s.authCtx s.willTopic s.willPayload s.willQos s.willRetain allowed

/-- **Every step of a slot.**  CONNECT and release find the session off its connection with no will armed; a will is
submitted right after its session was taken off its connection. -/
inductive SlotStep (P : Params Ctx) (k : Nat) (h : Trace Ctx) : Option (Session Ctx) → Trace Ctx →
    Option (Session Ctx) → Prop
  | serve {s s' : Session Ctx} {acts : Trace Ctx} (d : TStep P k h s acts s') : SlotStep P k h (some s) acts (some s')
  | alloc (ctx : Ctx) (clientId : Bytes) (hid : ClientIdFits P.T clientId) :
      SlotStep P k h none [.alloc k] (some (freshSession P.T ctx clientId))
  | release {s : Session Ctx} (hoff : s.conn = noConn) (hwill : s.hasWill = false) :
      SlotStep P k h (some s) [.release k] none
  | bind {s : Session Ctx} (ci : Nat) (p : ConnectPacket) (ctx : Ctx) (hoff : s.conn = noConn)
      (hwill : s.hasWill = false) (hnew : s = freshSession P.T ctx s.clientId) (hci : ci < P.T.maxConnections)
      (hfit : WillFits P.T p.hasWill p.willTopic p.willPayload) :
      SlotStep P k h (some s) [.bind k ci (boundSession P.T ci p ctx s) false]
        (some (boundSession P.T ci p ctx s))
  | resume {s s' : Session Ctx} {new : Trace Ctx} (ci : Nat) (p : ConnectPacket) (ctx : Ctx) (e : Event) (up : Bool)
      (hoff : s.conn = noConn) (hwill : s.hasWill = false) (hclean : s.cleanSession = false)
      (hci : ci < P.T.maxConnections) (hfit : WillFits P.T p.hasWill p.willTopic p.willPayload)
      (run : Star (RStep P k) (.event e (some k) :: .bind k ci (boundSession P.T ci p ctx s) true :: h)
        (boundSession P.T ci p ctx s)
        (new ++ .event e (some k) :: .bind k ci (boundSession P.T ci p ctx s) true :: h) s')
      (stop : up = true →
        ResumeEnd (new ++ .event e (some k) :: .bind k ci (boundSession P.T ci p ctx s) true :: h) s') :
      SlotStep P k h (some s)
        (.resumed k up :: (new ++ [.event e (some k), .bind k ci (boundSession P.T ci p ctx s) true])) (some s')
  | detach {s : Session Ctx} (now order : Nat) (hon : s.conn ≠ noConn) :
      SlotStep P k h (some s) [.detach k s.conn, .parked k (detached s now order)]
        (some (detached s now order))
  | disconnect {s : Session Ctx} (hon : s.conn ≠ noConn) :
      SlotStep P k h (some s) [.disconnect k s.conn] (some { s with hasWill := false })
  | submit {s : Session Ctx} (ci : Nat) (allowed : Bool) (t : Trace Ctx) (hoff : s.conn = noConn)
      (hwill : s.hasWill = true) (hjust : ∃ h', h = .detach k ci :: h')
      (hask : P.sec.authorizePublish t s.authCtx s.willTopic = allowed) :
      SlotStep P k h (some s) [submitNote k ci s allowed] (some { s with hasWill := false })

/-- The whole life of slot `k`, so far. -/
def SlotRun (P : Params Ctx) (k : Nat) (h : Trace Ctx) (o : Option (Session Ctx)) :
    Prop := Star (SlotStep P k) [] none h o

/-! ## Induction over a slot's life -/

/-- An act that leaves the queues of its session alone. -/
def Act.plain (k : Nat) : Act Ctx → Bool
  | .event _ (some j) | .bind j _ _ _ | .resumed j _ | .detach j _ | .parked j _ | .disconnect j _
  | .submit j _ _ _ _ _ _ _ | .subscribe j _ _ | .unsubscribe j _ | .replay j => j == k
  | .retain (some o) _ _ _ | .route (some o) _ _ _ => o.slot == k
  | _ => false

theorem Act.plain_of_isSubs (h : a.isSubs k = true) : a.plain k = true := by
  cases a <;> first | exact h | cases h

theorem Act.slot_of_plain (h : a.plain k = true) : a.slot = some k := by
  cases a with
  | event e slot => cases slot <;> simp_all [Act.plain, Act.slot]
  | retain origin topic payload qos => cases origin <;> simp_all [Act.plain, Act.slot]
  | route origin topic payload qos => cases origin <;> simp_all [Act.plain, Act.slot]
  | _ => first | cases h | simpa [Act.plain, Act.slot] using h

theorem Act.Publishes.plain {ci : Nat} {ctx : Ctx} {topic payload : Bytes} {qos : QoS}
    (h : a.Publishes ⟨k, ci, ctx⟩ topic payload qos) : a.plain k = true := by
  cases h <;> simp [Act.plain]

/-- Both sessions hold the same messages, outbound and inbound. -/
structure SameQueues (s s' : Session Ctx) : Prop where
  pending : s'.pending = s.pending
  nextSeq : s'.nextSeq = s.nextSeq
  lastPacketId : s'.lastPacketId = s.lastPacketId
  inbound : s'.inboundQos2 = s.inboundQos2

theorem SameQueues.bound (T : Traits) (ci : Nat) (p : ConnectPacket) (ctx : Ctx) (s : Session Ctx) :
    SameQueues s (boundSession T ci p ctx s) := by
  simp only [boundSession]
  split <;> exact ⟨rfl, rfl, rfl, rfl⟩

/-- **The rule for what a slot holds and did.**  CONNECT, teardown, DISCONNECT, the will and the subscriptions are plain
acts; what is left is allocation, release, delivery, and the turns of `resume_session`. -/
theorem SlotRun.rule {P : Params Ctx} (I : Trace Ctx → Option (Session Ctx) → Prop) (init : I [] none)
    (alloc : ∀ h ctx clientId, ClientIdFits P.T clientId → I h none →
      I (.alloc k :: h) (some (freshSession P.T ctx clientId)))
    (release : ∀ h s, I h (some s) → I (.release k :: h) none)
    (deliver : ∀ h s acts s', I h (some s) → DStep P k s acts s' → I (acts ++ h) (some s'))
    (resume : ∀ h s acts s', I h (some s) → RStep P k h s acts s' → I (acts ++ h) (some s'))
    (plain : ∀ h s acts s', I h (some s) → (∀ a ∈ acts, a.plain k = true) → SameQueues s s' → I (acts ++ h) (some s'))
    {h : Trace Ctx} {o : Option (Session Ctx)} (run : SlotRun P k h o) : I h o := by
  refine run.inv I (fun h o acts o' hI one => ?_) init
  cases one with
  | serve d =>
    cases d with
    | deliver d => exact deliver h _ _ _ hI d
    | subs subs cursor hacts =>
      exact plain h _ _ _ hI (fun a ha => Act.plain_of_isSubs (hacts a ha)) ⟨rfl, rfl, rfl, rfl⟩
    | publish ci topic payload qos t ha =>
      exact plain h _ _ _ hI (by simpa using ha.plain) ⟨rfl, rfl, rfl, rfl⟩
  | alloc ctx clientId hid => exact alloc h ctx clientId hid hI
  | release _ _ => exact release h _ hI
  | bind ci p ctx _ _ _ _ _ => exact plain h _ _ _ hI (by simp [Act.plain]) (.bound P.T ci p ctx _)
  | @resume s _ _ ci p ctx e up _ _ _ _ _ steps _ =>
    have hbind := plain h s [.bind k ci (boundSession P.T ci p ctx s) true] _ hI (by simp [Act.plain])
      (.bound P.T ci p ctx s)
    have hstart := plain _ _ [.event e (some k)] _ hbind (by simp [Act.plain]) ⟨rfl, rfl, rfl, rfl⟩
    have hend := steps.inv (fun h s => I h (some s)) (fun h s acts s' hI r => resume h s acts s' hI r) hstart
    have hdone := plain _ _ [.resumed k up] _ hend (by simp [Act.plain]) ⟨rfl, rfl, rfl, rfl⟩
    simpa only [List.cons_append, List.append_assoc, List.nil_append] using hdone
  | detach now order _ => exact plain h _ _ _ hI (by simp [Act.plain]) ⟨rfl, rfl, rfl, rfl⟩
  | disconnect _ => exact plain h _ _ _ hI (by simp [Act.plain]) ⟨rfl, rfl, rfl, rfl⟩
  | submit ci allowed _ _ _ _ _ => exact plain h _ _ _ hI (by simp [Act.plain, submitNote]) ⟨rfl, rfl, rfl, rfl⟩

end Minimosq
