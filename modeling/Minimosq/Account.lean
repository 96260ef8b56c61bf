import Minimosq.Admission
import Minimosq.Books
import Minimosq.Parting
import Minimosq.Pauses
import Minimosq.Route
import Minimosq.Verdicts
/-!
# Account — every act, with what called for it

`Emits` lists the places of `broker.hpp` where something is sent, queued or given up on, each with what is known there:
a packet with the verdict the transport gave, a connection given up on after what condemned it, a message handed to a
session after the filter that matched and the call that published it.  `Settles` says the same of publishing, and
both ways: what the broker has in hand to be published is what it publishes next, and nothing is published that it had
not in hand.  Every act of every run is accounted for so (`run_ledger`), and between the calls the hand is empty.
-/
namespace Minimosq

open History (Each)

variable {Ctx : Type} {P : Params Ctx}
variable {ci : Nat} {a : Act Ctx} {origin : Option (Origin Ctx)} {m : Entry} {t : Trace Ctx} {topic : Bytes}
  {w : Work Ctx}

/-! ## Where acts come from -/

/-- The message of a call of `route_publish`. -/
def Act.routes : Act Ctx → Option Entry
  | .route _ topic payload qos => some ⟨topic, payload, qos⟩
  | _ => none

/-- What `route_publish` was called with last. -/
def lastRoute (t : Trace Ctx) : Option Entry := t.findSome? Act.routes

/-- The entry is in the retained store. -/
def Stored (P : Params Ctx) (e : Entry) (t : Trace Ctx) : Prop :=
  e ∈ (storeOf P.T (retains t)).toList P.T.maxRetained

/-- The event or note is why connection `ci` is given up on. -/
inductive Act.Condemns (ci : Nat) : Act Ctx → Prop
  | violation (clientId : Bytes) (err : Err) :
      Condemns ci (.event { kind := .protocolViolation, ci := some ci, err := err, clientId := clientId } none)
  | sendFailed (clientId : Bytes) :
      Condemns ci (.event { kind := .transportSendFailed, ci := some ci, clientId := clientId } none)
  | refused (clientId : Bytes) (code : ConnackCode) :
      Condemns ci (.event { kind := .connectRefused, ci := some ci, clientId := clientId, connack := code } none)
  | timeout (kind : EventKind) (clientId : Bytes)
      (hkind : kind = .connectTimeout ∨ kind = .keepaliveTimeout ∨ kind = .idleTimeout) :
      Condemns ci (.event { kind := kind, ci := some ci, clientId := clientId } none)
  | takenOver (k : Nat) (clientId : Bytes) :
      Condemns ci (.event { kind := .sessionTakenOver, clientId := clientId, ci := some ci } (some k))
  | disconnect (k : Nat) : Condemns ci (.disconnect k ci)

/-- An event, or a note of the model's own, that is accounted for by itself. -/
def Act.isNote : Act Ctx → Bool
  | .send _ _ _ _ | .dead _ | .routed _ _ _ _ | .enqueue _ _ _ _ _ _ | .submit _ _ _ _ _ _ _ _ => false
  | _ => true

/-- **What calls for an act**, after what came before it. -/
inductive Emits (P : Params Ctx) : Act Ctx → Trace Ctx → Prop
  /-- A packet that answers another, or refuses. -/
  | reply {t : Trace Ctx} (ci : Nat) (pkt : Bytes) : Emits P (.send ci pkt (P.send t ci pkt) none) t
  /-- A packet of a queued message. -/
  | carried {t : Trace Ctx} (ci : Nat) (pkt : Bytes) (k : Nat) (s : Session Ctx) (n : Nat) :
      Emits P (.send ci pkt (P.send t ci pkt) (tagOf k s (some n))) t
  /-- A QoS 0 PUBLISH, as it is routed. -/
  | live {t : Trace Ctx} (ci k : Nat) (s : Session Ctx) (topic payload : Bytes) {pkt : Bytes}
      (hpkt : pkt = buildPublish P.T.outSize topic payload .atMostOnce false false 0) :
      Emits P (.send ci pkt (P.send (.routed k topic payload .atMostOnce :: t) ci pkt) (tagOf k s none))
        (.routed k topic payload .atMostOnce :: t)
  /-- A QoS 0 PUBLISH, as it is replayed. -/
  | replayed {t : Trace Ctx} (ci k : Nat) (s : Session Ctx) (filters : List Bytes) (e : Entry) {pkt : Bytes}
      (hpkt : pkt = buildPublish P.T.outSize e.topic e.payload .atMostOnce true false 0) (he : Stored P e t)
      (hmatch : ∃ f ∈ filters, topicMatches f e.topic = true) :
      Emits P (.send ci pkt (P.send (.matching k filters e.topic :: t) ci pkt) (tagOf k s none))
        (.matching k filters e.topic :: t)
  /-- The will of a connection that ends, with what the policy says of it. -/
  | submitted {t : Trace Ctx} (k ci : Nat) (ctx : Ctx) (topic payload : Bytes) (qos : QoS) (retain : Bool) :
      Emits P (.submit k ci ctx topic payload qos retain (P.sec.authorizePublish t ctx topic)) t
  | dead {newer older : Trace Ctx} (ci : Nat) {a : Act Ctx} (hwhy : a.Condemns ci)
      (hnewer : ∀ b ∈ newer, b.indoor = true) : Emits P (.dead ci) (newer ++ a :: older)
  /-- A message for a session: it is the one being routed, and a filter matches. -/
  | routed {t : Trace Ctx} (k : Nat) (filters : List Bytes) (m : Entry) (eff : QoS) (hroute : lastRoute t = some m)
      (heff : eff.toNat ≤ m.qos.toNat) (hmatch : ∃ f ∈ filters, topicMatches f m.topic = true) :
      Emits P (.routed k m.topic m.payload eff) (.matching k filters m.topic :: t)
  | queued {t : Trace Ctx} (k seq : Nat) (topic payload : Bytes) (eff : QoS) (copies : List (Nat × Bytes)) :
      Emits P (.enqueue k seq topic payload eff false) (checkAssign copies (.routed k topic payload eff :: t))
  | stocked {t : Trace Ctx} (k seq : Nat) (filters : List Bytes) (e : Entry) (eff : QoS) (copies : List (Nat × Bytes))
      (he : Stored P e t) (heff : eff.toNat ≤ e.qos.toNat) (hmatch : ∃ f ∈ filters, topicMatches f e.topic = true) :
      Emits P (.enqueue k seq e.topic e.payload eff true) (checkAssign copies (.matching k filters e.topic :: t))
  | note {t : Trace Ctx} {a : Act Ctx} (ha : a.isNote = true) : Emits P a t

theorem emits_dead {P : Params Ctx} {older : Trace Ctx} (hwhy : a.Condemns ci) : Emits P (.dead ci) (a :: older) :=
  have hdead : Emits P (.dead ci) ([] ++ a :: older) := .dead ci hwhy (List.forall_mem_nil _)
  hdead

/-! ## The message in hand -/

/-- **What the broker has undertaken to publish**, and not done yet. -/
inductive Hand (Ctx : Type)
  | empty
  /-- A message of the application, or a will that is allowed: to be stored, if it is to be retained, and routed. -/
  | submitted (origin : Option (Origin Ctx)) (m : Entry) (retain : Bool)
  /-- The QoS 2 PUBLISH `id` of the session in slot `k`: the policy is to be asked. -/
  | passed (k id : Nat)
  /-- A message that has been stored: to be routed. -/
  | stored (origin : Option (Origin Ctx)) (m : Entry)

/-- What `apply_retain` notes and reports of the store. -/
def Act.ofStore : Act Ctx → Bool
  | .retained _ _ _ => true
  | .event e none => e.kind == .retainedStoreFailed || e.kind == .retainedStalePurged
  | _ => false

def hand : Trace Ctx → Hand Ctx
  | [] => .empty
  | .application topic payload qos retain :: _ => .submitted none ⟨topic, payload, qos⟩ retain
  | .submit k ci ctx topic payload qos retain true :: _ =>
    .submitted (some ⟨k, ci, ctx⟩) ⟨topic, payload, qos⟩ retain
  | .inbound k id true :: _ => .passed k id
  | .retain origin topic payload qos :: _ => .stored origin ⟨topic, payload, qos⟩
  | a :: t => if a.ofStore then hand t else .empty

/-- The first thing done to publish a message. -/
def published (origin : Option (Origin Ctx)) (m : Entry) (retain : Bool) : Act Ctx :=
  if retain then .retain origin m.topic m.payload m.qos else .route origin m.topic m.payload m.qos

/-- The act publishes a message, or reports that the policy does not let it be. -/
def Act.publishes : Act Ctx → Bool
  | .retain _ _ _ _ | .route _ _ _ _ => true
  | .event e _ => e.kind == .publishDenied
  | _ => false

/-- **What becomes of the PUBLISH `p` from the session in slot `k`**: the policy is asked, and the message is published
or that is denied. -/
inductive Decided (P : Params Ctx) (k : Nat) (p : PublishPacket) (t : Trace Ctx) : Act Ctx → Prop
  | allowed (ci : Nat) (ctx : Ctx) (hask : P.sec.authorizePublish t ctx p.topic = true) :
      Decided P k p t (published (some ⟨k, ci, ctx⟩) ⟨p.topic, p.payload, p.qos⟩ p.retain)
  | denied (s : Session Ctx) (hask : P.sec.authorizePublish t s.authCtx p.topic = false) :
      Decided P k p t (.event { kind := .publishDenied, clientId := s.clientId, topic := p.topic, ci := eventConn s }
        (some k))

/-- **How an act stands to what the broker has in hand.**  With an empty hand nothing is published, but for a PUBLISH of
QoS 0 or 1 that has just come in; with a message in hand, it is dealt with at once. -/
inductive Settles (P : Params Ctx) : Act Ctx → Trace Ctx → Prop
  | nothing {a : Act Ctx} {t : Trace Ctx} (hhand : hand t = .empty) (ha : a.publishes = false) : Settles P a t
  | arrived {a : Act Ctx} {t : Trace Ctx} {ci k : Nat} {firstByte : UInt8} {body : Bytes} {p : PublishPacket}
      (hhand : hand t = .empty) (hpacket : t.head? = some (.packet ci firstByte body))
      (hp : parsePublish firstByte body = .ok p) (hqos : p.qos ≠ .exactlyOnce) (hdecided : Decided P k p t a) :
      Settles P a t
  | passed {a : Act Ctx} {t : Trace Ctx} {ci k : Nat} {firstByte : UInt8} {body : Bytes} {p : PublishPacket}
      (hhand : hand t = .passed k p.packetId) (hpacket : t.findSome? Act.packet? = some (ci, firstByte, body))
      (hp : parsePublish firstByte body = .ok p) (hqos : p.qos = .exactlyOnce) (hdecided : Decided P k p t a) :
      Settles P a t
  | submitted {t : Trace Ctx} {origin : Option (Origin Ctx)} {m : Entry} {retain : Bool}
      (hhand : hand t = .submitted origin m retain) : Settles P (published origin m retain) t
  | noted {a : Act Ctx} {t : Trace Ctx} {origin : Option (Origin Ctx)} {m : Entry} (hhand : hand t = .stored origin m)
      (ha : a.ofStore = true) : Settles P a t
  | stored {t : Trace Ctx} {origin : Option (Origin Ctx)} {m : Entry} (hhand : hand t = .stored origin m) :
      Settles P (.route origin m.topic m.payload m.qos) t

/-- The act has nothing to do with publishing. -/
def Act.inner : Act Ctx → Bool
  | .retain _ _ _ _ | .route _ _ _ _ | .application _ _ _ _ | .submit _ _ _ _ _ _ _ _ | .inbound _ _ _ => false
  | .event e _ => e.kind != .publishDenied
  | _ => true

section
variable {t t' : Trace Ctx}

theorem hand_of_inner (ha : a.inner = true) (t : Trace Ctx) : hand (a :: t) = if a.ofStore then hand t else .empty := by
  cases a <;> first | rfl | cases ha

theorem hand_ofStore (ha : a.ofStore = true) (t : Trace Ctx) : hand (a :: t) = hand t := by
  cases a with
  | retained => rfl
  | event e slot => exact if_pos ha
  | _ => cases ha

/-- With an empty hand, what has nothing to do with publishing leaves it empty. -/
theorem settles_inner (h : Adds (fun a => a.inner = true) t t') (hdues : Each (Settles P) t)
    (hfree : hand t = .empty) : Each (Settles P) t' ∧ hand t' = .empty := by
  obtain ⟨new, rfl, hnew⟩ := h
  induction new with
  | nil => exact ⟨hdues, hfree⟩
  | cons a new ih =>
    obtain ⟨ha, hnew⟩ := List.forall_mem_cons.1 hnew
    obtain ⟨hdues, hfree⟩ := ih hnew
    have hquiet : a.publishes = false := by
      cases a with
      | retain | route => cases ha
      | event e slot => simpa [Act.inner, Act.publishes] using ha
      | _ => rfl
    refine ⟨⟨.nothing hfree hquiet, hdues⟩, ?_⟩
    rw [List.cons_append, hand_of_inner ha, hfree, ite_self]

/-- What the store reports keeps the message in hand. -/
theorem settles_ofStore (h : Adds (fun a => a.ofStore = true) t t') (hdues : Each (Settles P) t)
    (hhand : hand t = .stored origin m) : Each (Settles P) t' ∧ hand t' = .stored origin m := by
  obtain ⟨new, rfl, hnew⟩ := h
  induction new with
  | nil => exact ⟨hdues, hhand⟩
  | cons a new ih =>
    obtain ⟨ha, hnew⟩ := List.forall_mem_cons.1 hnew
    obtain ⟨hdues, hhand⟩ := ih hnew
    exact ⟨⟨.noted hhand ha, hdues⟩, (hand_ofStore ha _).trans hhand⟩

end

/-! ## Work on one session -/

/-- **The trace goes on, and every act is accounted for.** -/
structure Onward (P : Params Ctx) (t t' : Trace Ctx) : Prop where
  acts : Adds (fun a => a.inner = true) t t'
  each : Each (Emits P) t → Each (Emits P) t'

section
variable {t t' t'' : Trace Ctx}

theorem Onward.refl (t : Trace Ctx) : Onward P t t := ⟨.refl _ t, id⟩

theorem Onward.trans (h : Onward P t t') (h' : Onward P t' t'') : Onward P t t'' :=
  ⟨h.acts.trans h'.acts, fun ht => h'.each (h.each ht)⟩

theorem Onward.one (ha : a.inner = true) (h : Emits P a t) : Onward P t (a :: t) :=
  ⟨.one a ha, fun ht => ⟨h, ht⟩⟩

theorem Onward.cons (ha : a.inner = true) (hemits : Emits P a t') (h : Onward P t t') :
    Onward P t (a :: t') := h.trans (.one ha hemits)

theorem Onward.note (ha : a.inner = true) (hnote : a.isNote = true) : Onward P t (a :: t) :=
  .one ha (.note hnote)

theorem Onward.retains (h : Onward P t t') : retains t' = retains t := by
  obtain ⟨new, rfl, hnew⟩ := h.acts
  refine filterMap_skip (fun a ha => ?_) t
  have := hnew a ha
  cases a <;> first | rfl | cases this

theorem Onward.lastRoute (h : Onward P t t') : lastRoute t' = lastRoute t := by
  obtain ⟨new, rfl, hnew⟩ := h.acts
  have hnone : new.findSome? Act.routes = none := by
    refine List.findSome?_eq_none_iff.2 (fun a ha => ?_)
    have := hnew a ha
    cases a <;> first | rfl | cases this
  rw [Minimosq.lastRoute, List.findSome?_append, hnone]
  rfl

theorem onward_checkAssign (copies : List (Nat × Bytes)) (t : Trace Ctx) : Onward P t (checkAssign copies t) := by
  unfold checkAssign
  split
  · exact .note rfl rfl
  · exact .refl t

end

theorem onward_trySendTo (conns : Nat → Conn) {tag : Option (Tag Ctx)} {pkt : Bytes}
    (h : Emits P (.send ci pkt (P.send t ci pkt) tag) t) : Onward P t (trySendTo P conns tag ci pkt t).2 := by
  unfold trySendTo
  split
  · exact .refl t
  split
  · exact .refl t
  split
  · exact .note rfl rfl
  · exact .one rfl h

theorem onward_unbuilt (k : Nat) (s : Session Ctx) (topic : Bytes) (qos : QoS) (t : Trace Ctx) :
    Onward P t (notifyDrop k s topic qos .oversize (.unbuilt (some k) :: t)) :=
  .cons rfl (.note rfl) (.note rfl rfl)

theorem onward_pumpTurn (conns : Nat → Conn) (k i : Nat) (m : OutMsg) (w : Work Ctx) :
    Onward P w.2 (pumpTurn P conns k i m w).2.2 := by
  have hsend : ∀ pkt, Onward P w.2 (trySendTo P conns (tagOf k w.1 (some m.seq)) (connIndex P.T w.1) pkt w.2).2 :=
    fun pkt => onward_trySendTo conns (.carried _ pkt k w.1 m.seq)
  unfold pumpTurn
  dsimp only
  split
  · exact .refl w.2
  split
  · split <;> exact hsend _
  split
  · exact .refl w.2
  split
  · exact .note rfl rfl
  · split
    · exact onward_unbuilt k _ m.topic m.qos w.2
    · split <;> exact hsend _

theorem onward_resumeTurn (conns : Nat → Conn) (k i : Nat) (m : OutMsg) (w : Work Ctx) :
    Onward P w.2 (resumeTurn P conns k i m w).2.2 := by
  have hsend : ∀ pkt, Onward P w.2 (trySendTo P conns (tagOf k w.1 (some m.seq)) (connIndex P.T w.1) pkt w.2).2 :=
    fun pkt => onward_trySendTo conns (.carried _ pkt k w.1 m.seq)
  unfold resumeTurn
  extract_lets s r firstSend
  split
  · exact .refl w.2
  split
  · split <;> exact hsend _
  cases (if firstSend = true then s.allocPacketId else some m.packetId) with
  | none => exact .note rfl rfl
  | some id =>
    dsimp only
    generalize (if firstSend = true then { s with lastPacketId := id } else s) = s₁
    split
    · exact onward_unbuilt k s₁ m.topic m.qos w.2
    · split <;> exact hsend _

theorem onward_queueLoop {turn : Nat → OutMsg → Work Ctx → Option Nat × Work Ctx}
    (hturn : ∀ i m w, Onward P w.2 (turn i m w).2.2) (n i : Nat) (w : Work Ctx) :
    Onward P w.2 (queueLoop turn n i w).2 :=
  queueLoop_keeps (I := fun w' => Onward P w.2 w'.2) (fun i m w' h => h.trans (hturn i m w')) n i (.refl w.2)

theorem onward_pumpSession (conns : Nat → Conn) (k : Nat) (w : Work Ctx) :
    Onward P w.2 (pumpSession P conns k w).2 := onward_queueLoop (onward_pumpTurn conns k) _ 0 w

theorem onward_resumeSession (conns : Nat → Conn) (k : Nat) (w : Work Ctx) :
    Onward P w.2 (resumeSession P conns k w).2 := onward_queueLoop (onward_resumeTurn conns k) _ 0 w

theorem onward_enqueue {conns : Nat → Conn} {k : Nat} {payload : Bytes} {eff : QoS} {retain : Bool}
    (h : ∀ copies, Emits P (.enqueue k w.1.nextSeq topic payload eff retain) (checkAssign copies w.2)) :
    Onward P w.2 (enqueue P conns k topic payload eff retain w).2 := by
  unfold enqueue
  dsimp only
  split
  · exact .note rfl rfl
  split
  · exact .note rfl rfl
  have henq := Onward.cons rfl (h [(P.T.maxTopicLen, topic), (P.T.maxPayloadLen, payload)]) (onward_checkAssign _ w.2)
  split
  · exact henq.trans (onward_pumpSession conns k (_, _))
  · exact henq

/-! ## Retained replay -/

theorem exists_of_grantedMax {subs : List Subscription} (h : (grantedMax subs topic).1 = true) :
    ∃ f ∈ subs.map Subscription.filter, topicMatches f topic = true := by
  obtain ⟨sub, hsub⟩ := List.exists_mem_of_ne_nil _ ((grantedMax_any subs topic).1 h)
  obtain ⟨hmem, hmatch⟩ := List.mem_filter.1 hsub
  exact ⟨sub.filter, List.mem_map_of_mem hmem, hmatch⟩

theorem qosMin_le_left (a b : QoS) : (qosMin a b).toNat ≤ a.toNat := by
  rw [qosMin_toNat]
  exact Nat.min_le_left ..

theorem qosMin_le_right (a b : QoS) : (qosMin a b).toNat ≤ b.toNat := by
  rw [qosMin_toNat]
  exact Nat.min_le_right ..

theorem onward_replayOne (conns : Nat → Conn) (ci k : Nat) {e : Entry} (here : Nat) (paused : Bool)
    (he : Stored P e w.2) : Onward P w.2 (replayOne P conns ci k e here paused w).2.2 := by
  unfold replayOne
  dsimp only
  split
  · exact .refl w.2
  generalize w.1.subs.filter (fun sub => sub.retainPending) = subs
  have hmatching : Onward P w.2 (.matching k (subs.map Subscription.filter) e.topic :: w.2) := .note rfl rfl
  split
  · exact hmatching
  rename_i hyes
  have hmatch := exists_of_grantedMax (by simpa using hyes)
  split
  · exact .cons rfl (.note rfl) hmatching
  split
  · refine hmatching.trans (onward_enqueue (w := (w.1, _)) fun copies => ?_)
    exact .stocked k _ _ e _ copies he (qosMin_le_right ..) hmatch
  split
  · exact hmatching.trans (onward_unbuilt k w.1 e.topic .atMostOnce _)
  · have hsend := hmatching.trans (onward_trySendTo conns (.replayed ci k w.1 _ e rfl he hmatch))
    split <;> exact hsend

theorem onward_replayLoop (conns : Nat → Conn) (ci k : Nat) (ms : List Entry) : ∀ (es : List Entry) (here : Nat)
    (paused : Bool) {w : Work Ctx}, retains w.2 = ms → (∀ e ∈ es, e ∈ (storeOf P.T ms).toList P.T.maxRetained) →
    Onward P w.2 (replayLoop P conns ci k es here paused w).2.2
  | [], _, _, w, _, _ => .refl w.2
  | e :: es, here, paused, w, hms, hes => by
    obtain ⟨he, hes⟩ := List.forall_mem_cons.1 hes
    have hone := onward_replayOne (P := P) conns ci k here paused (e := e) (w := w) (by rw [Stored, hms]; exact he)
    exact hone.trans (onward_replayLoop conns ci k ms es (here + 1) _ (hone.retains.trans hms) hes)

theorem onward_replayRetained (conns : Nat → Conn) (ci k : Nat) {es : List Entry} (hes : ∀ e ∈ es, Stored P e w.2) :
    Onward P w.2 (replayRetained P conns ci k es w).2 := by
  have hloop := onward_replayLoop conns ci k (retains w.2) es 0 false rfl hes
  unfold replayRetained
  dsimp only
  split <;> exact .cons rfl (.note rfl) hloop

/-! ## Work on the broker -/

/-- **Every act so far is accounted for**, and the retained store is what the trace says. -/
structure Owing (P : Params Ctx) (σ : Broker Ctx) : Prop where
  acts : Each (Emits P) σ.trace
  dues : Each (Settles P) σ.trace
  store : σ.retained = storeOf P.T (retains σ.trace)

/-- And nothing is left to be published. -/
structure Ledger (P : Params Ctx) (σ : Broker Ctx) : Prop extends Owing P σ where
  free : hand σ.trace = .empty

/-- The broker goes on and retains nothing. -/
structure Toils (P : Params Ctx) (σ σ' : Broker Ctx) : Prop where
  acts : Onward P σ.trace σ'.trace
  retained : σ'.retained = σ.retained

section
variable {σ σ' σ'' : Broker Ctx}

theorem Toils.refl (σ : Broker Ctx) : Toils P σ σ := ⟨.refl _, rfl⟩

theorem Toils.trans (h : Toils P σ σ') (h' : Toils P σ' σ'') : Toils P σ σ'' :=
  ⟨h.acts.trans h'.acts, h'.retained.trans h.retained⟩

theorem Ledger.toils (h : Ledger P σ) (ht : Toils P σ σ') : Ledger P σ' := by
  obtain ⟨hdues, hfree⟩ := settles_inner ht.acts.acts h.dues h.free
  exact ⟨⟨ht.acts.each h.acts, hdues, by rw [ht.retained, ht.acts.retains]; exact h.store⟩, hfree⟩

theorem Ledger.same (h : Ledger P σ) (htrace : σ'.trace = σ.trace) (hret : σ'.retained = σ.retained) : Ledger P σ' :=
  h.toils ⟨by rw [htrace]; exact .refl _, hret⟩

theorem Toils.act (ha : a.inner = true) (hemits : Emits P a σ.trace) (htrace : σ'.trace = a :: σ.trace)
    (hret : σ'.retained = σ.retained) : Toils P σ σ' :=
  ⟨by rw [htrace]; exact .one ha hemits, hret⟩

theorem toils_onSession {f : Work Ctx → Work Ctx} {k : Nat}
    (h : ∀ s, σ.sessions.slot k = some s → Onward P σ.trace (f (s, σ.trace)).2) : Toils P σ (σ.onSession k f) := by
  cases hs : σ.sessions.slot k with
  | none =>
    rw [Broker.onSession, hs]
    exact .refl σ
  | some s =>
    rw [onSession_of _ hs]
    exact ⟨h s hs, rfl⟩

theorem toils_sendTo {tag : Option (Tag Ctx)} {pkt : Bytes}
    (h : Emits P (.send ci pkt (P.send σ.trace ci pkt) tag) σ.trace) : Toils P σ (σ.sendTo P tag ci pkt) := by
  have hcases := sendTo_cases P tag ci pkt σ
  generalize σ.sendTo P tag ci pkt = σ' at hcases ⊢
  cases hcases with
  | down => exact .refl σ
  | unbuilt => exact .act rfl (.note rfl) rfl rfl
  | taken _ _ _ hok =>
    rw [hok] at h
    exact .act rfl h rfl rfl
  | refused _ _ _ hno =>
    rw [hno] at h
    refine ⟨?_, rfl⟩
    refine .cons rfl (emits_dead (.sendFailed _)) ?_
    exact .cons rfl (.note rfl) (.one rfl h)

theorem toils_reply (ci : Nat) (pkt : Bytes) : Toils P σ (σ.sendTo P none ci pkt) := toils_sendTo (.reply ci pkt)

theorem toils_violation (ci : Nat) (err : Err) : Toils P σ (σ.violation P ci err) :=
  ⟨.cons rfl (emits_dead (.violation _ err)) (.note rfl rfl), rfl⟩

theorem toils_refuse (ci : Nat) (code : ConnackCode) (clientId : Bytes) : Toils P σ (σ.refuse P ci code clientId) := by
  have hevent : Toils P σ (σ.notifyRefused ci clientId code) := .act rfl (.note rfl) rfl rfl
  have hsend := hevent.trans (toils_reply ci (buildConnack P.T.outSize false code))
  refine hsend.trans ⟨?_, rfl⟩
  obtain ⟨new, hnew, hindoor⟩ := (repeats_sendTo (P := P) (v := P.send) (n := 0) none ci
    (buildConnack P.T.outSize false code) (σ.notifyRefused ci clientId code)).acts
  refine .one rfl ?_
  rw [hnew]
  exact .dead ci (.refused clientId code) hindoor

/-! ## Publishing -/

/-- `apply_retain` is due: the message is then in hand, to be routed. -/
theorem Owing.applyRetain (h : Owing P σ) (hdue : Settles P (.retain origin m.topic m.payload m.qos) σ.trace) :
    Owing P (σ.applyRetain P origin m.topic m.payload m.qos).2 ∧
      hand (σ.applyRetain P origin m.topic m.payload m.qos).2.trace = .stored origin m := by
  obtain ⟨evs, heq, hevs⟩ := applyRetain_eq P origin m.topic m.payload m.qos σ
  generalize hnote : σ.retainedNote P m.topic σ.retained (Retained.applied P.T m.topic m.payload m.qos σ.retained) =
    note at heq
  have hstore : Adds (fun a => a.ofStore = true ∧ a.isNote = true ∧ a.retains = none)
      (.retain origin m.topic m.payload m.qos :: σ.trace)
      (evs ++ (note ++ .retain origin m.topic m.payload m.qos :: σ.trace)) := by
    refine Adds.trans ⟨note, rfl, ?_⟩ ⟨evs, rfl, fun a ha => ?_⟩
    · rw [← hnote, Broker.retainedNote]
      split <;> simp [Act.ofStore, Act.isNote, Act.retains]
    · obtain ⟨e, rfl, hkind⟩ := hevs a ha
      exact ⟨by rcases hkind with hkind | hkind <;> simp [Act.ofStore, hkind], rfl, rfl⟩
  rw [heq]
  obtain ⟨hdues, hhand⟩ := settles_ofStore (P := P) (hstore.mono fun _ ha => ha.1) ⟨hdue, h.dues⟩ rfl
  generalize evs ++ (note ++ .retain origin m.topic m.payload m.qos :: σ.trace) = t at hstore hdues hhand
  obtain ⟨new, rfl, hnew⟩ := hstore
  refine ⟨⟨?_, hdues, ?_⟩, hhand⟩
  · have hretain : Each (Emits P) (.retain origin m.topic m.payload m.qos :: σ.trace) := ⟨.note rfl, h.acts⟩
    exact hretain.append fun a ha _ => .note (hnew a ha).2.1
  · rw [retains, List.filterMap_append, List.filterMap_eq_nil_iff.2 fun a ha => (hnew a ha).2.2]
    exact congrArg (Retained.applied P.T m.topic m.payload m.qos) h.store

theorem toils_routeOne {payload : Bytes} {qos : QoS} (k : Nat)
    (hroute : lastRoute σ.trace = some ⟨topic, payload, qos⟩) : Toils P σ (σ.routeOne P topic payload qos k) := by
  have hcases := routeOne_cases P topic payload qos σ k
  generalize σ.routeOne P topic payload qos k = σ' at hcases ⊢
  have hmatching : ∀ s : Session Ctx, Toils P σ (σ.emit (.matching k (s.subs.map Subscription.filter) topic)) :=
    fun s => .act rfl (.note rfl) rfl rfl
  cases hcases with
  | vacant => exact .refl σ
  | unmatched => exact hmatching _
  | @denied s => exact (hmatching s).trans (.act rfl (.note rfl) rfl rfl)
  | @allowed s eff _ _ hyes _ heff hgiven =>
    have hle : eff.toNat ≤ qos.toNat := by
      rw [heff]
      exact qosMin_le_left ..
    have hrouted : Toils P (σ.emit (.matching k (s.subs.map Subscription.filter) topic))
        ((σ.emit (.matching k (s.subs.map Subscription.filter) topic)).emit (.routed k topic payload eff)) :=
      .act rfl (.routed k _ ⟨topic, payload, qos⟩ eff hroute hle (exists_of_grantedMax hyes)) rfl rfl
    refine ((hmatching s).trans hrouted).trans ?_
    cases hgiven with
    | live => exact toils_sendTo (.live _ k s topic payload rfl)
    | offline | gone => exact .refl _
    | queued =>
      refine toils_onSession fun s' _ => onward_enqueue (w := (s', _)) fun copies => ?_
      exact .queued k _ topic payload eff copies

theorem Owing.routePublish (h : Owing P σ) (hdue : Settles P (.route origin m.topic m.payload m.qos) σ.trace) :
    Ledger P (σ.routePublish P origin m.topic m.payload m.qos) := by
  have hbegin : Ledger P (σ.emit (.route origin m.topic m.payload m.qos)) :=
    ⟨⟨⟨.note rfl, h.acts⟩, ⟨hdue, h.dues⟩, h.store⟩, rfl⟩
  refine (List.foldlRecOn (motive := fun σ => Ledger P σ ∧ lastRoute σ.trace = some m) _
    (Broker.routeOne P m.topic m.payload m.qos) ⟨hbegin, rfl⟩ ?_).1
  rintro σ ⟨h, hroute⟩ k -
  have hone := toils_routeOne (P := P) k hroute
  exact ⟨h.toils hone, hone.acts.lastRoute.trans hroute⟩

/-- **A message that is due to be published is published**: stored, if it is to be retained, and routed. -/
theorem Owing.publish (h : Owing P σ) {retain : Bool} (hdue : Settles P (published origin m retain) σ.trace) :
    Ledger P ((if retain then (σ.applyRetain P origin m.topic m.payload m.qos).2 else σ).routePublish P origin m.topic
      m.payload m.qos) := by
  cases retain with
  | false => exact h.routePublish hdue
  | true =>
    obtain ⟨hstored, hhand⟩ := h.applyRetain hdue
    exact hstored.routePublish (.stored hhand)

/-! ## Deferred teardown -/

theorem Ledger.note (h : Ledger P σ) (ha : a.inner = true) (hnote : a.isNote = true)
    (htrace : σ'.trace = a :: σ.trace) (hret : σ'.retained = σ.retained) : Ledger P σ' :=
  h.toils (.act ha (.note hnote) htrace hret)

theorem ledger_release (h : Ledger P σ) (k : Nat) : Ledger P (σ.release P k) := h.note (a := .release k) rfl rfl rfl rfl

theorem ledger_submitWill (h : Ledger P σ) (k ci : Nat) (s : Session Ctx) : Ledger P (σ.submitWill P k ci s) := by
  unfold Broker.submitWill
  extract_lets allowed σ₁ origin
  have hnote : Owing P σ₁ := ⟨⟨.submitted k ci s.authCtx s.willTopic s.willPayload s.willQos s.willRetain, h.acts⟩,
    ⟨.nothing h.free rfl, h.dues⟩, h.store⟩
  have hhand : hand σ₁.trace =
      if allowed then .submitted origin ⟨s.willTopic, s.willPayload, s.willQos⟩ s.willRetain else .empty := by
    unfold σ₁
    cases allowed <;> rfl
  split
  · rename_i hallowed
    rw [if_pos hallowed] at hhand
    exact hnote.publish (m := ⟨s.willTopic, s.willPayload, s.willQos⟩) (.submitted hhand)
  · rename_i hdenied
    exact ⟨hnote, hhand.trans (if_neg hdenied)⟩

theorem ledger_teardown (h : Ledger P σ) (ci : Nat) : Ledger P (σ.teardown P ci) :=
  TeardownKeeps.teardown (I := Ledger P) {
    off := fun _ _ _ _ h => h.toils ⟨.cons rfl (.note rfl) (.note rfl rfl), rfl⟩
    will := fun k ci s _ h => ledger_submitWill h k ci s
    release := fun k h => ledger_release h k
    close := fun ci h => h.note (a := .close ci) rfl rfl rfl rfl } (h.note rfl rfl rfl rfl)

theorem ledger_flushDead (h : Ledger P σ) : Ledger P (σ.flushDead P) :=
  flushLoop_keeps (I := Ledger P) (fun _ i h => ledger_teardown h i) _ h

/-! ## Session lifetime -/

theorem ledger_expireSessions (h : Ledger P σ) (nowMs : Nat) : Ledger P (σ.expireSessions P nowMs) := by
  unfold Broker.expireSessions
  split
  · exact h
  refine List.foldlRecOn (motive := Ledger P) _ (Broker.expireOne P nowMs) h fun σ h k _ => ?_
  unfold Broker.expireOne
  split
  · exact h
  split
  · exact h
  rename_i s _ _
  split
  · have hnote : Toils P σ { σ with trace := notifySession .sessionExpired k s σ.trace } := .act rfl (.note rfl) rfl rfl
    exact ledger_release (h.toils hnote) k
  · exact h

theorem ledger_evictedFrom (h : Ledger P σ) (j : Nat) : Ledger P (evictedFrom P j σ) := by
  unfold evictedFrom
  split
  · exact h
  · rename_i s _
    have hnote : Toils P σ { σ with trace := notifySession .sessionEvicted j s σ.trace } := .act rfl (.note rfl) rfl rfl
    exact ledger_release (h.toils hnote) j

/-! ## CONNECT -/

theorem ledger_connectBind (h : Ledger P σ) (ci : Nat) (p : ConnectPacket) (ctx : Ctx)
    (k : Nat) (present : Bool) (s : Session Ctx) : Ledger P (σ.connectBind P ci p ctx k present s) := by
  unfold Broker.connectBind
  extract_lets s₁ c₀ c copies σ₀ σ₁ σ₂ σ₃ up
  have hbegan : Ledger P σ₂ := h.toils ⟨(onward_checkAssign copies σ.trace).trans
    (.cons (by cases present <;> rfl) (.note rfl) (.note rfl rfl)), rfl⟩
  have hsent : Ledger P σ₃ := hbegan.toils (toils_reply ci _)
  split
  · have hresumed : Ledger P (σ₃.onSession k (resumeSession P σ₃.conns k)) :=
      hsent.toils (toils_onSession fun s _ => onward_resumeSession σ₃.conns k (s, _))
    exact hresumed.note (a := .resumed k up) rfl rfl rfl rfl
  · exact hsent

theorem ledger_startOrRefuse (h : Ledger P σ) (ci : Nat) (p : ConnectPacket)
    (clientId : Bytes) (ctx : Ctx) : Ledger P (startOrRefuse P ci p clientId ctx σ) := by
  unfold startOrRefuse
  split
  · exact h.toils (toils_refuse ci _ clientId)
  · rename_i kp _
    have halloc : Ledger P (allocated P kp.1 kp.2 clientId σ) :=
      h.toils ⟨(onward_checkAssign _ σ.trace).trans (.note rfl rfl), rfl⟩
    exact ledger_connectBind halloc ci p ctx kp.1 false _

theorem ledger_connectAlloc (h : Ledger P σ) (ci : Nat) (p : ConnectPacket)
    (clientId : Bytes) (ctx : Ctx) : Ledger P (σ.connectAlloc P ci p clientId ctx) := by
  rw [connectAlloc_eq]
  split
  · exact ledger_startOrRefuse h ci p clientId ctx
  split
  · exact h.toils (toils_refuse ci _ clientId)
  · rename_i j _
    exact ledger_startOrRefuse (ledger_evictedFrom h j) ci p clientId ctx

theorem ledger_takenOver (h : Ledger P σ) (clientId : Bytes) : Ledger P (takenOver P clientId σ) := by
  unfold takenOver
  split
  · exact h
  rename_i k _
  split
  · exact h
  rename_i s _
  split
  · rename_i hon
    have hci : eventConn s = some s.conn := if_pos hon
    refine ledger_flushDead (h.toils ⟨?_, rfl⟩)
    have hwhy : (Act.event { kind := .sessionTakenOver, clientId := s.clientId, ci := eventConn s } (some k) :
        Act Ctx).Condemns s.conn := by
      rw [hci]
      exact .takenOver k s.clientId
    exact .cons rfl (emits_dead hwhy) (.note rfl rfl)
  · exact h

theorem ledger_connectAccepted (h : Ledger P σ) (ci : Nat) (p : ConnectPacket)
    (clientId : Bytes) (ctx : Ctx) : Ledger P (σ.connectAccepted P ci p clientId ctx) := by
  have h := ledger_takenOver h clientId
  change Ledger P (afterTakeover P ci p clientId ctx (takenOver P clientId σ))
  generalize takenOver P clientId σ = σ at h ⊢
  unfold afterTakeover
  split
  · exact ledger_connectAlloc h ci p clientId ctx
  split
  · exact ledger_connectAlloc (ledger_release h _) ci p clientId ctx
  split
  · exact h
  · exact ledger_connectBind h ci p ctx _ true _

theorem ledger_handleConnect (h : Ledger P σ) (ci : Nat) (body : Bytes) : Ledger P (σ.handleConnect P ci body) := by
  have hcounter : ∀ n, Ledger P { σ with autoIdCounter := n } := fun n => h.same rfl rfl
  have heard := handleConnect_heard (P := P) ci body σ
  generalize σ.handleConnect P ci body = σ' at heard ⊢
  cases heard with
  | violation n err => exact (hcounter n).toils (toils_violation ci err)
  | refused n clientId hno hcode => exact (hcounter n).toils (toils_refuse ci _ clientId)
  | @passed p ctx hno hp pass =>
    obtain ⟨n, hn⟩ := identify_state P p σ
    rw [hn]
    exact ledger_connectAccepted (hcounter n) ci p _ ctx

/-! ## The other handlers -/

theorem ledger_derefSession (h : Ledger P σ) (ci : Nat) {f : Nat → Session Ctx → Broker Ctx → Broker Ctx}
    (hf : ∀ k s, Ledger P (f k s σ)) : Ledger P (σ.derefSession P ci f) := by
  unfold Broker.derefSession
  split
  · exact h.note (a := .nullDeref ci) rfl rfl rfl rfl
  · exact hf _ _

/-- What is on the table of inbound ids is answered again; anything else is tracked, and passed on. -/
theorem Ledger.trackInbound (h : Ledger P σ) (k ci id : Nat) (s : Session Ctx) :
    (s.hasInboundQos2 id = true → Ledger P (σ.trackInbound P k ci id s)) ∧
      (s.hasInboundQos2 id = false → Owing P (σ.trackInbound P k ci id s) ∧
        hand (σ.trackInbound P k ci id s).trace = .passed k id ∧
        (σ.trackInbound P k ci id s).trace.findSome? Act.packet? = σ.trace.findSome? Act.packet?) := by
  have hpass : ∀ {σ : Broker Ctx} (b : Bool), Ledger P σ → Owing P (σ.emit (.inbound k id b)) := fun _ h =>
    ⟨⟨.note rfl, h.acts⟩, ⟨.nothing h.free rfl, h.dues⟩, h.store⟩
  unfold Broker.trackInbound
  refine ⟨fun hhas => ?_, fun hno => ?_⟩
  · rw [if_pos hhas]
    exact ⟨hpass false h, rfl⟩
  rw [if_neg (by simp [hno])]
  split
  · refine ⟨hpass true ?_, rfl, rfl⟩
    exact h.toils ⟨.cons rfl (.note rfl) (.note rfl rfl), rfl⟩
  · exact ⟨hpass true (h.same rfl rfl), rfl, rfl⟩

/-- A PUBLISH that is due to be decided on. -/
theorem Owing.acceptPublish (h : Owing P σ) (k : Nat) (s : Session Ctx) {p : PublishPacket}
    (hdue : ∀ a, Decided P k p σ.trace a → Settles P a σ.trace) : Ledger P (σ.acceptPublish P k s p) := by
  unfold Broker.acceptPublish
  dsimp only
  split
  · rename_i hdeny
    exact ⟨⟨⟨.note rfl, h.acts⟩, ⟨hdue _ (.denied s (by simpa using hdeny)), h.dues⟩, h.store⟩, rfl⟩
  · rename_i hallow
    exact h.publish (m := ⟨p.topic, p.payload, p.qos⟩) (hdue _ (.allowed s.conn s.authCtx (by simpa using hallow)))

theorem ledger_handlePublish (h : Ledger P σ) {firstByte : UInt8} {body : Bytes}
    (hpkt : σ.trace = .packet ci firstByte body :: t) : Ledger P (σ.handlePublish P ci firstByte body) := by
  refine ledger_derefSession h ci fun k s => ?_
  split
  · exact h.toils (toils_violation ci _)
  rename_i p hp
  split
  · exact h.toils (toils_violation ci _)
  split
  · exact h.toils (toils_violation ci _)
  extract_lets deliver σ₁ σ₂
  have haccepted : Ledger P σ₂ := by
    unfold σ₂ deliver σ₁
    by_cases hqos : p.qos = .exactlyOnce
    · simp only [hqos, beq_self_eq_true, Bool.true_and, if_true]
      obtain ⟨hagain, hnew⟩ := h.trackInbound k ci p.packetId s
      cases hhas : s.hasInboundQos2 p.packetId with
      | true => exact hagain hhas
      | false =>
        obtain ⟨howing, hhand, hlast⟩ := hnew hhas
        exact howing.acceptPublish k s fun a ha => .passed hhand (by rw [hlast, hpkt]; rfl) hp hqos ha
    · have hno : (p.qos == .exactlyOnce) = false := by simpa using hqos
      rw [hno]
      exact h.toOwing.acceptPublish k s fun a ha => .arrived h.free (by rw [hpkt]; rfl) hp hqos ha
  split
  · exact haccepted.toils (toils_reply ci _)
  split
  · exact haccepted.toils (toils_reply ci _)
  · exact haccepted

theorem ledger_handleFinal (h : Ledger P σ) (type : PacketType) (state : OutState) (ci : Nat) (body : Bytes) :
    Ledger P (σ.handleFinal P type state ci body) := by
  unfold Broker.handleFinal
  split
  · exact h.toils (toils_violation ci _)
  · rename_i id _
    exact ledger_derefSession h ci fun k s => h.note (a := .ack k ci type id) rfl rfl rfl rfl

theorem ledger_handlePubrec (h : Ledger P σ) (ci : Nat) (body : Bytes) : Ledger P (σ.handlePubrec P ci body) := by
  unfold Broker.handlePubrec
  split
  · exact h.toils (toils_violation ci _)
  rename_i id _
  refine ledger_derefSession h ci fun k s => ?_
  split
  · exact h.note (a := .ack k ci .pubrec id) rfl rfl rfl rfl
  split
  · exact h
  · rename_i i _ _ m _
    have hacked : Ledger P ((σ.setSession k (s.setPending i { m with state := .awaitingPubcomp })).emit
        (.ack k ci .pubrec id)) := h.note rfl rfl rfl rfl
    exact hacked.toils (toils_sendTo (.carried ci _ k s m.seq))

theorem ledger_handlePubrel (h : Ledger P σ) (ci : Nat) (body : Bytes) : Ledger P (σ.handlePubrel P ci body) := by
  unfold Broker.handlePubrel
  split
  · exact h.toils (toils_violation ci _)
  · rename_i id _
    refine ledger_derefSession h ci fun k s => ?_
    have hnote : Ledger P ((σ.setSession k (s.removeInboundQos2 id)).emit (.pubrel k id)) := h.note rfl rfl rfl rfl
    exact hnote.toils (toils_reply ci _)

theorem onward_subscribeEntry (k : Nat) (acc : Pass2 Ctx) (e : Bytes × QoS) :
    Onward P acc.t (subscribeEntry P k acc e).t := by
  unfold subscribeEntry
  split
  · exact .note rfl rfl
  · dsimp only
    split
    · exact .refl acc.t
    · exact onward_checkAssign _ acc.t

theorem onward_subscribePass2 (k packetId : Nat) (es : List (Bytes × QoS)) (s : Session Ctx) (t : Trace Ctx) :
    Onward P t (subscribePass2 P k packetId es s t).t :=
  List.foldlRecOn (motive := fun acc => Onward P t acc.t) es (subscribeEntry P k) (.refl t)
    (fun acc h e _ => h.trans (onward_subscribeEntry k acc e))

/-- The entries of the store are stored. -/
theorem Ledger.stored (h : Ledger P σ) : ∀ e ∈ σ.retained.toList P.T.maxRetained, Stored P e σ.trace := by
  rw [h.store]
  exact fun e he => he

theorem ledger_subscribeValid (h : Ledger P σ) (k ci packetId : Nat) (es : List (Bytes × QoS)) (s : Session Ctx) :
    Ledger P (σ.subscribeValid P k ci packetId es s) := by
  have hpass := onward_subscribePass2 (P := P) k packetId es s σ.trace
  unfold Broker.subscribeValid
  extract_lets r σ₁ σ₂
  have hnoted : Ledger P σ₁ := h.toils ⟨.cons rfl (.note rfl) hpass, rfl⟩
  have hsent : Ledger P σ₂ := hnoted.toils (toils_reply ci _)
  split
  · exact hnoted.toils (toils_violation ci _)
  split
  · exact hsent.toils (toils_onSession fun s _ =>
      onward_replayRetained σ₂.conns ci k (w := ({ s with retainCursor := 0 }, σ₂.trace)) hsent.stored)
  · exact hsent

theorem ledger_handleSubscribe (h : Ledger P σ) (ci : Nat) (body : Bytes) : Ledger P (σ.handleSubscribe P ci body) := by
  refine ledger_derefSession h ci fun k s => ?_
  dsimp only
  split
  · exact h.toils (toils_violation ci _)
  split
  · exact h.toils (toils_violation ci _)
  · exact ledger_subscribeValid h k ci _ _ s

theorem ledger_handleUnsubscribe (h : Ledger P σ) (ci : Nat) (body : Bytes) :
    Ledger P (σ.handleUnsubscribe P ci body) := by
  refine ledger_derefSession h ci fun k s => ?_
  dsimp only
  split
  · exact h.toils (toils_violation ci _)
  split
  · exact h.toils (toils_violation ci _)
  · refine Ledger.toils ?_ (toils_reply ci _)
    exact h.note (a := .unsubscribe k _) rfl rfl rfl rfl

theorem ledger_handleDisconnect (h : Ledger P σ) (ci : Nat) (body : Bytes) :
    Ledger P (σ.handleDisconnect P ci body) := by
  unfold Broker.handleDisconnect
  split
  · exact h.toils (toils_violation ci _)
  · refine ledger_derefSession h ci fun k s => h.toils ⟨?_, rfl⟩
    exact .cons rfl (emits_dead (.disconnect k)) (.note rfl rfl)

/-! ## Dispatch and the entry points -/

theorem ledger_dispatch (h : Ledger P σ) {firstByte : UInt8} {body : Bytes}
    (hpkt : σ.trace = .packet ci firstByte body :: t) : Ledger P (σ.dispatch P ci firstByte body) := by
  unfold Broker.dispatch
  split
  · exact ledger_handleConnect h ci body
  · exact ledger_handlePublish h hpkt
  · exact ledger_handlePubrel h ci body
  · exact ledger_handleFinal h .puback .awaitingPuback ci body
  · exact ledger_handlePubrec h ci body
  · exact ledger_handleFinal h .pubcomp .awaitingPubcomp ci body
  · exact ledger_handleSubscribe h ci body
  · exact ledger_handleUnsubscribe h ci body
  · split
    · exact h.toils (toils_violation ci _)
    · exact h.toils (toils_reply ci _)
  · exact ledger_handleDisconnect h ci body
  · exact h.toils (toils_violation ci _)

theorem ledger_onPacket (h : Ledger P σ) (ci : Nat) (firstByte : UInt8) (body : Bytes) :
    Ledger P (σ.onPacket P ci firstByte body).2 := by
  have hnote : Ledger P (σ.emit (.packet ci firstByte body)) := h.note rfl rfl rfl rfl
  unfold Broker.onPacket
  dsimp only
  split
  · exact hnote.toils (toils_violation ci _)
  split
  · exact hnote.toils (toils_violation ci _)
  · exact ledger_dispatch hnote rfl

theorem feedLoop_keeps {S : Type} {I : S → Prop} (maxBody : Nat) {onPacket : UInt8 → Bytes → S → Bool × S}
    (hI : ∀ f body s, I s → I (onPacket f body s).2) : ∀ (fuel : Nat) (p : FrameParser) (data : Bytes) {s : S}, I s →
    I (FrameParser.feedLoop maxBody onPacket fuel p data s).2.2
  | 0, _, _, _, h => h
  | _ + 1, _, [], _, h => h
  | fuel + 1, p, b :: data, s, h => by
    have ih := feedLoop_keeps maxBody hI fuel
    unfold FrameParser.feedLoop
    dsimp only
    cases p.state with
    | firstByte => exact ih _ data h
    | length =>
      dsimp only
      split
      · split
        · exact h
        · exact ih _ data h
      split
      · exact h
      split
      · split
        · exact hI _ _ _ h
        · exact ih _ data (hI _ _ _ h)
      · exact ih _ data h
    | body =>
      dsimp only
      split
      · split
        · exact hI _ _ _ h
        · exact ih _ _ (hI _ _ _ h)
      · exact ih _ _ h

theorem ledger_connData (h : Ledger P σ) (ci : Nat) (data : Bytes) (nowMs : Nat) :
    Ledger P (σ.connData P ci data nowMs).2 := by
  unfold Broker.connData
  split
  · exact h
  split
  · exact h
  have hbegin : Ledger P (σ.beginData P ci nowMs) := by
    unfold Broker.beginData
    dsimp only
    split <;> exact h.same rfl rfl
  have hfed : Ledger P ((σ.beginData P ci nowMs).feedConn P ci data).2 := by
    have hloop := feedLoop_keeps (I := Ledger P) P.T.maxPacketSize (fun f body σ h => ledger_onPacket h ci f body)
      data.length ((σ.beginData P ci nowMs).conns ci).parser data (s := (σ.beginData P ci nowMs).setParser ci {})
      (hbegin.same rfl rfl)
    exact hloop.same rfl rfl
  refine ledger_flushDead ?_
  split
  · exact hfed.toils (toils_violation ci _)
  · exact hfed

theorem ledger_timeoutOne (h : Ledger P σ) (nowMs i : Nat) : Ledger P (σ.timeoutOne P nowMs i) := by
  unfold Broker.timeoutOne
  extract_lets c armed kind
  split
  · exact h
  split
  · have hkind : kind = .connectTimeout ∨ kind = .keepaliveTimeout ∨ kind = .idleTimeout := by
      unfold kind
      split
      · exact .inl rfl
      · split
        · exact .inr (.inl rfl)
        · exact .inr (.inr rfl)
    refine h.toils ⟨.cons rfl (emits_dead (.timeout kind _ hkind)) (.note ?_ rfl), rfl⟩
    rcases hkind with hkind | hkind | hkind <;> simp [Act.inner, hkind]
  · exact h

theorem ledger_tick (h : Ledger P σ) (nowMs : Nat) : Ledger P (σ.tick P nowMs) := by
  refine ledger_expireSessions (ledger_flushDead ?_) nowMs
  refine List.foldlRecOn (motive := Ledger P) _ (Broker.pumpOne P) ?_ fun σ h k _ => ?_
  · exact List.foldlRecOn (motive := Ledger P) _ (Broker.timeoutOne P nowMs) (h.same rfl rfl)
      fun σ h i _ => ledger_timeoutOne h nowMs i
  · unfold Broker.pumpOne
    split
    · exact h
    rename_i s _
    split
    · exact h
    extract_lets σ₁
    have hreplayed : Ledger P σ₁ := by
      unfold σ₁
      split
      · exact h.toils (toils_onSession fun s _ => onward_replayRetained σ.conns _ k (w := (s, σ.trace)) h.stored)
      · exact h
    exact hreplayed.toils (toils_onSession fun s _ => onward_pumpSession σ.conns k (s, σ₁.trace))

theorem ledger_publish (h : Ledger P σ) (topic payload : Bytes) (qos : QoS) (retain : Bool) :
    Ledger P (σ.publish P topic payload qos retain).2 := by
  unfold Broker.publish
  extract_lets idLen result σ₁ r
  have hnote : Owing P σ₁ :=
    ⟨⟨.note rfl, h.acts⟩, ⟨.nothing h.free rfl, h.dues⟩, h.store⟩
  have hpublished : Ledger P (r.2.routePublish P none topic payload qos) := by
    have hr : r.2 = if retain then (σ₁.applyRetain P none topic payload qos).2 else σ₁ := by
      unfold r
      split <;> rfl
    rw [hr]
    exact hnote.publish (m := ⟨topic, payload, qos⟩) (.submitted rfl)
  split
  · exact h
  split
  · exact h
  split
  · exact h
  · exact ledger_flushDead hpublished

theorem ledger_step (h : Ledger P σ) (input : Input) : Ledger P (σ.step P input) := by
  cases input with
  | connOpen ci now =>
    change Ledger P (σ.connOpen P ci now).2
    unfold Broker.connOpen
    split
    · exact h
    · exact h.note (a := .event _ none) rfl rfl rfl rfl
  | connClosed ci =>
    change Ledger P (σ.connClosed P ci)
    unfold Broker.connClosed
    split
    · exact h
    · exact ledger_flushDead (h.note (a := .peerClosed ci) rfl rfl rfl rfl)
  | connData ci data now => exact ledger_connData h ci data now
  | tick now => exact ledger_tick h now
  | publish topic payload qos retain => exact ledger_publish h topic payload qos retain

end

theorem run_ledger (P : Params Ctx) (inputs : List Input) : Ledger P (run P inputs) := by
  have hinit : Ledger P (.init : Broker Ctx) := ⟨⟨trivial, trivial, rfl⟩, rfl⟩
  exact List.foldlRecOn (motive := Ledger P) inputs (Broker.step P) hinit fun _ h input _ => ledger_step h input

/-- **Every act of a run is accounted for.** -/
theorem run_emits (P : Params Ctx) (inputs : List Input) {newer older : Trace Ctx}
    (htrace : (run P inputs).trace = newer ++ a :: older) : Emits P a older :=
  History.each_iff.1 (run_ledger P inputs).acts newer a older htrace

end Minimosq
