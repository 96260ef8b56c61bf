import Minimosq.Arrival
import Minimosq.Bed
import Minimosq.Routine
/-!
# A denied PUBLISH

Two ways to handle one PUBLISH, from one state: `authorize_publish` allows it, or denies it.  They may leave the
retained store, the other sessions and the other connections apart, and the transport may have answered for those as it
liked.  What the publisher can see of them is the same: routing a message that none of its own subscriptions matches
does not touch its session or its connection (`Spares`), and both ways end in the same acknowledgement.
-/
namespace Minimosq

variable {Ctx : Type} {P : Params Ctx} {ci k : Nat}
variable {s : Session Ctx} {w : Work Ctx} {topic : Bytes} {p : PublishPacket} {σ₀ : Broker Ctx}

/-- A packet offered on connection `ci`, with the transport's verdict. -/
def Act.sentOn (ci : Nat) : Act Ctx → Option (Bytes × Bool)
  | .send j pkt ok _ => if j = ci then some (pkt, ok) else none
  | _ => none

theorem Act.sentOn_send (ci : Nat) (pkt : Bytes) (ok : Bool) (tag : Option (Tag Ctx)) :
    (Act.send ci pkt ok tag).sentOn ci = some (pkt, ok) := if_pos rfl

/-- The trace grows, and nothing is offered on `ci`. -/
abbrev Elsewhere (ci : Nat) (t t' : Trace Ctx) : Prop := Adds (fun a => a.sentOn ci = none) t t'

/-! ## Delivering to another session -/

theorem connIndex_ne (hci : ci < P.T.maxConnections) (hs : s.conn ≠ ci) : connIndex P.T s ≠ ci := by
  unfold connIndex
  split
  · exact hs
  · exact Nat.ne_of_gt hci

theorem elsewhere_note (a : Act Ctx) (ha : a.sentOn ci = none) (t : Trace Ctx) : Elsewhere ci t (a :: t) := .one a ha

theorem elsewhere_trySendTo (conns : Nat → Conn) {j : Nat} (hj : j ≠ ci) (tag : Option (Tag Ctx)) (pkt : Bytes)
    (t : Trace Ctx) : Elsewhere ci t (trySendTo P conns tag j pkt t).2 := by
  unfold trySendTo
  split
  · exact .refl _ t
  · split
    · exact .refl _ t
    · split
      · exact elsewhere_note _ rfl t
      · exact elsewhere_note (.send j pkt (P.send t j pkt) tag) (if_neg hj) t

/-- A packet of a session that is not on `ci` goes elsewhere, and the session stays where it is. -/
structure Aside (ci : Nat) (w w' : Work Ctx) : Prop where
  acts : Elsewhere ci w.2 w'.2
  conn : w'.1.conn = w.1.conn

theorem Aside.refl (ci : Nat) (w : Work Ctx) : Aside ci w w := ⟨.refl _ _, rfl⟩

theorem Aside.trans {w' w'' : Work Ctx} (h₁ : Aside ci w w') (h₂ : Aside ci w' w'') : Aside ci w w'' :=
  ⟨h₁.acts.trans h₂.acts, h₂.conn.trans h₁.conn⟩

theorem aside_pumpTurn (conns : Nat → Conn) (hci : ci < P.T.maxConnections) (k i : Nat) (m : OutMsg)
    (hw : w.1.conn ≠ ci) : Aside ci w (pumpTurn P conns k i m w).2 := by
  have hsend := fun tag pkt => elsewhere_trySendTo (P := P) conns (connIndex_ne hci hw) tag pkt w.2
  simp only [pumpTurn]
  split
  · exact .refl ci w
  · split
    · split <;> exact ⟨hsend _ _, rfl⟩
    · split
      · exact .refl ci w
      · split
        · exact ⟨elsewhere_note _ rfl _, rfl⟩
        · split
          · exact ⟨(elsewhere_note _ rfl _).cons _ rfl, rfl⟩
          · split <;> exact ⟨hsend _ _, rfl⟩

theorem aside_queueLoop {turn : Nat → OutMsg → Work Ctx → Option Nat × Work Ctx}
    (hturn : ∀ i m (w : Work Ctx), w.1.conn ≠ ci → Aside ci w (turn i m w).2) (n i : Nat) (w : Work Ctx)
    (hw : w.1.conn ≠ ci) : Aside ci w (queueLoop turn n i w) :=
  queueLoop_keeps (fun i m w' h => h.trans (hturn i m w' (by rw [h.conn]; exact hw))) n i (.refl ci w)

theorem aside_enqueue (conns : Nat → Conn) (hci : ci < P.T.maxConnections) (k : Nat) (topic payload : Bytes)
    (eff : QoS) (retain : Bool) (hw : w.1.conn ≠ ci) : Aside ci w (enqueue P conns k topic payload eff retain w) := by
  unfold enqueue
  split
  · exact ⟨elsewhere_note _ rfl _, rfl⟩
  · split
    · exact ⟨elsewhere_note _ rfl _, rfl⟩
    · dsimp only
      have hcopy : Elsewhere ci w.2 (checkAssign [(P.T.maxTopicLen, topic), (P.T.maxPayloadLen, payload)] w.2) := by
        unfold checkAssign
        split
        · exact elsewhere_note _ rfl _
        · exact .refl _ _
      have hqueued := hcopy.trans (elsewhere_note (.enqueue k w.1.nextSeq topic payload eff retain) rfl _)
      split
      · refine Aside.trans ⟨hqueued, ?_⟩ (aside_queueLoop (fun i m w => aside_pumpTurn conns hci k i m) _ _ _ hw)
        rfl
      · exact ⟨hqueued, rfl⟩

/-! ## Routing past a session -/

/-- Nothing reaches the session in slot `k` or connection `ci`, and the other sessions stay on their connections. -/
structure Spares (ci k : Nat) (σ σ' : Broker Ctx) : Prop where
  own : σ'.sessions.slot k = σ.sessions.slot k
  conn : σ'.conns ci = σ.conns ci
  acts : Elsewhere ci σ.trace σ'.trace
  others : ∀ j s', j ≠ k → σ'.sessions.slot j = some s' → ∃ s, σ.sessions.slot j = some s ∧ s'.conn = s.conn

/-- Connection `ci` is nobody's but the session's in slot `k`. -/
def Alone (ci k : Nat) (σ : Broker Ctx) : Prop := ∀ j s, j ≠ k → σ.sessions.slot j = some s → s.conn ≠ ci

section
variable {σ σ' σ'' : Broker Ctx}

theorem Spares.of_tables (hsessions : σ'.sessions = σ.sessions) (hconn : σ'.conns ci = σ.conns ci)
    (hacts : Elsewhere ci σ.trace σ'.trace) : Spares ci k σ σ' :=
  ⟨by rw [hsessions], hconn, hacts, fun _ s' _ hs' => ⟨s', by rw [← hsessions]; exact hs', rfl⟩⟩

theorem Spares.refl (ci k : Nat) (σ : Broker Ctx) : Spares ci k σ σ := .of_tables rfl rfl (.refl _ _)

theorem Spares.note (k : Nat) (a : Act Ctx) (ha : a.sentOn ci = none) (σ : Broker Ctx) : Spares ci k σ (σ.emit a) :=
  .of_tables rfl rfl (elsewhere_note a ha _)

theorem Spares.trans (h₁ : Spares ci k σ σ') (h₂ : Spares ci k σ' σ'') : Spares ci k σ σ'' where
  own := h₂.own.trans h₁.own
  conn := h₂.conn.trans h₁.conn
  acts := h₁.acts.trans h₂.acts
  others := fun j s'' hj hs'' => by
    obtain ⟨s', hs', hc'⟩ := h₂.others j s'' hj hs''
    obtain ⟨s, hs, hc⟩ := h₁.others j s' hj hs'
    exact ⟨s, hs, hc'.trans hc⟩

theorem Spares.alone (h : Spares ci k σ σ') (halone : Alone ci k σ) : Alone ci k σ' := fun j s' hj hs' => by
  obtain ⟨s, hs, hc⟩ := h.others j s' hj hs'
  rw [hc]
  exact halone j s hj hs

theorem spares_sendTo {j : Nat} (hj : j ≠ ci) (k : Nat) (tag : Option (Tag Ctx)) (pkt : Bytes) (σ : Broker Ctx) :
    Spares ci k σ (σ.sendTo P tag j pkt) := by
  have hsent : ∀ ok, Spares ci k σ (σ.emit (.send j pkt ok tag)) :=
    fun ok => .note k (.send j pkt ok tag) (if_neg hj) σ
  have hcases := sendTo_cases P tag j pkt σ
  generalize σ.sendTo P tag j pkt = σ' at hcases ⊢
  cases hcases with
  | down => exact .refl ci k σ
  | unbuilt => exact .note k _ rfl σ
  | taken => exact hsent true
  | refused =>
    refine (hsent false).trans (.of_tables rfl ?_ ((elsewhere_note _ rfl _).cons _ rfl))
    rw [setDead_conns, if_neg (Ne.symm hj)]
    rfl

/-- **Routing to one session.**  The publisher's own gets nothing, because nothing it subscribed to matches. -/
theorem spares_routeOne (hci : ci < P.T.maxConnections) (halone : Alone ci k σ)
    (hno : ∀ s, σ.sessions.slot k = some s → (grantedMax s.subs topic).1 = false) (payload : Bytes) (qos : QoS)
    (j : Nat) : Spares ci k σ (Broker.routeOne P topic payload qos σ j) := by
  have hcases := routeOne_cases P topic payload qos σ j
  generalize σ.routeOne P topic payload qos j = σ' at hcases ⊢
  cases hcases with
  | vacant => exact .refl ci k σ
  | unmatched => exact .note k _ rfl σ
  | @denied s =>
    exact (Spares.note k (.matching j (s.subs.map Subscription.filter) topic) rfl σ).trans (.note k _ rfl _)
  | @allowed s eff _ hs hyes _ _ hgiven =>
    have hj : j ≠ k := fun hj => absurd (hyes.symm.trans (hno s (hj ▸ hs))) (by simp)
    have hrouted : Spares ci k σ ((σ.emit (.matching j (s.subs.map Subscription.filter) topic)).emit
        (.routed j topic payload eff)) := (Spares.note k _ rfl σ).trans (.note k _ rfl _)
    have hs₁ : ((σ.emit (.matching j (s.subs.map Subscription.filter) topic)).emit
        (.routed j topic payload eff)).sessions.slot j = some s := hs
    refine hrouted.trans ?_
    generalize (σ.emit (.matching j (s.subs.map Subscription.filter) topic)).emit (.routed j topic payload eff) = σ₁
      at hgiven hs₁ ⊢
    cases hgiven with
    | live => exact spares_sendTo (connIndex_ne hci (halone j s hj hs)) k _ _ _
    | offline | gone => exact .refl ci k _
    | queued =>
      have h := aside_enqueue (P := P) σ₁.conns hci j topic payload eff false
        (show ((s, σ₁.trace) : Work Ctx).1.conn ≠ ci from halone j s hj hs)
      rw [Broker.onSession, hs₁]
      refine ⟨Function.update_of_ne (Ne.symm hj) _ _, rfl, h.acts, fun i s' hi hs' => ?_⟩
      change Function.update σ₁.sessions.slot j (some _) i = some s' at hs'
      rcases written_cases hs' with ⟨rfl, he⟩ | ⟨-, hs'⟩
      · cases he
        exact ⟨s, hs₁, h.conn⟩
      · exact ⟨s', hs', rfl⟩

theorem spares_routeAll (hci : ci < P.T.maxConnections) (payload : Bytes) (qos : QoS) :
    ∀ (l : List Nat) {σ : Broker Ctx}, Alone ci k σ →
      (∀ s, σ.sessions.slot k = some s → (grantedMax s.subs topic).1 = false) →
      Spares ci k σ (l.foldl (Broker.routeOne P topic payload qos) σ)
  | [], σ, _, _ => .refl ci k σ
  | j :: l, σ, halone, hno => by
    have hone := spares_routeOne hci halone hno payload qos j
    exact hone.trans (spares_routeAll hci payload qos l (hone.alone halone) (fun s hs => hno s (hone.own ▸ hs)))

theorem retainedNote_sentOn {store store' : Pool Entry} :
    ∀ a ∈ σ.retainedNote P topic store store', a.sentOn ci = none := by
  unfold Broker.retainedNote
  split
  all_goals simp [Act.sentOn]

theorem spares_applyRetain (k : Nat) (origin : Option (Origin Ctx)) (topic payload : Bytes) (qos : QoS)
    (σ : Broker Ctx) : Spares ci k σ (σ.applyRetain P origin topic payload qos).2 := by
  obtain ⟨evs, he, hevs⟩ := applyRetain_eq P origin topic payload qos σ
  rw [he]
  refine .of_tables rfl rfl ((elsewhere_note (.retain origin topic payload qos) rfl _).trans
    (Adds.trans ⟨_, rfl, retainedNote_sentOn⟩ ⟨evs, rfl, fun a ha => ?_⟩))
  obtain ⟨e, rfl, -⟩ := hevs a ha
  rfl

/-- **Delivering spares the publisher**, whatever `authorize_publish` says. -/
theorem spares_acceptPublish (hci : ci < P.T.maxConnections) (halone : Alone ci k σ)
    (hno : ∀ s, σ.sessions.slot k = some s → (grantedMax s.subs p.topic).1 = false) (s : Session Ctx) :
    Spares ci k σ (σ.acceptPublish P k s p) := by
  unfold Broker.acceptPublish
  split
  · exact .of_tables rfl rfl (elsewhere_note _ rfl _)
  dsimp only
  generalize hσ₁ : (if p.retain = true then (σ.applyRetain P _ p.topic p.payload p.qos).2 else σ) = σ₁
  have h₁ : Spares ci k σ σ₁ := by
    rw [← hσ₁]
    split
    · exact spares_applyRetain k _ _ _ _ σ
    · exact .refl ci k σ
  have h₂ := h₁.trans (.note k (.route (some ⟨k, s.conn, s.authCtx⟩) p.topic p.payload p.qos) rfl σ₁)
  exact h₂.trans (spares_routeAll hci _ _ _ (h₂.alone halone) (fun s' hs' => hno s' (h₂.own ▸ hs')))

end

/-! ## The acknowledgement -/

/-- A packet was offered on `ci`, the transport answering `ok`, or (`none`) could not be. -/
structure Replied (ci : Nat) (pkt : Bytes) (ok : Option Bool) (σ σ' : Broker Ctx) : Prop where
  sessions : σ'.sessions = σ.sessions
  conn : σ'.conns ci = if ok = some false then { σ.conns ci with dead := true } else σ.conns ci
  acts : ∃ new, σ'.trace = new ++ σ.trace ∧ new.filterMap (Act.sentOn ci) = (ok.map (fun ok => (pkt, ok))).toList

/-- Connection `c`, at index `ci`, can be offered `pkt`. -/
def Conn.takes (T : Traits) (ci : Nat) (pkt : Bytes) (c : Conn) : Bool :=
  decide (ci < T.maxConnections) && c.active && !c.dead && !pkt.isEmpty

theorem sendTo_replied (ci : Nat) (pkt : Bytes) (σ : Broker Ctx) :
    ∃ ok, Replied ci pkt ok σ (σ.sendTo P none ci pkt) ∧ ok.isSome = (σ.conns ci).takes P.T ci pkt := by
  have htakes : ∀ {ok : Bool}, ci < P.T.maxConnections → (σ.conns ci).active = true ∧ (σ.conns ci).dead = false →
      pkt ≠ [] → (some ok).isSome = (σ.conns ci).takes P.T ci pkt := by
    intro ok hlt hup hpkt
    simp [Conn.takes, hlt, hup.1, hup.2, hpkt]
  have hcases := sendTo_cases P none ci pkt σ
  generalize σ.sendTo P none ci pkt = σ' at hcases ⊢
  cases hcases with
  | down hdown =>
    refine ⟨none, ⟨rfl, rfl, [], rfl, rfl⟩, ?_⟩
    rcases hdown with hle | hoff | hdead
    · simp [Conn.takes, Nat.not_lt.2 hle]
    · simp [Conn.takes, hoff]
    · simp [Conn.takes, hdead]
  | unbuilt _ _ hnil => exact ⟨none, ⟨rfl, rfl, [_], rfl, rfl⟩, by simp [Conn.takes, hnil]⟩
  | taken hlt hup hpkt =>
    refine ⟨some true, ⟨rfl, (if_neg (by simp)).symm, [_], rfl, ?_⟩, htakes hlt hup hpkt⟩
    rw [List.filterMap_cons_some (Act.sentOn_send ..)]
    rfl
  | refused hlt hup hpkt =>
    refine ⟨some false, ⟨rfl, ?_, [_, _, _], rfl, ?_⟩, htakes hlt hup hpkt⟩
    · rw [setDead_conns, if_pos rfl, if_pos rfl]
      rfl
    · rw [List.filterMap_cons_none rfl, List.filterMap_cons_none rfl, List.filterMap_cons_some (Act.sentOn_send ..)]
      rfl

/-! ## What the publisher sees -/

/-- What the client on connection `ci`, whose session is in slot `k`, can tell of a step. -/
structure View where
  /-- The packets offered on its connection, with the transport's verdicts. -/
  packets : List (Bytes × Bool)
  inboundQos2 : Option (List Nat)
  pending : Option (List OutMsg)
  subs : Option (List Subscription)
  active : Bool
  dead : Bool
  deriving DecidableEq

def Broker.view (ci k : Nat) (σ σ' : Broker Ctx) : View where
  packets := (actsSince σ σ').reverse.filterMap (Act.sentOn ci)
  inboundQos2 := (σ'.sessions.slot k).map Session.inboundQos2
  pending := (σ'.sessions.slot k).map Session.pending
  subs := (σ'.sessions.slot k).map Session.subs
  active := (σ'.conns ci).active
  dead := (σ'.conns ci).dead

/-- `authorize_publish` answers `allow`; everything else is as in `P`. -/
def Params.publishing (allow : Bool) (P : Params Ctx) : Params Ctx :=
  { P with sec := { P.sec with authorizePublish := fun _ _ _ => allow } }

section
variable {σ σ₁ σ₂ : Broker Ctx}

theorem Broker.view_congr {new₁ new₂ : Trace Ctx} (ht₁ : σ₁.trace = new₁ ++ σ.trace) (ht₂ : σ₂.trace = new₂ ++ σ.trace)
    (hsent : new₁.filterMap (Act.sentOn ci) = new₂.filterMap (Act.sentOn ci))
    (hslot : σ₁.sessions.slot k = σ₂.sessions.slot k) (hconn : σ₁.conns ci = σ₂.conns ci) :
    σ.view ci k σ₁ = σ.view ci k σ₂ := by
  simp only [Broker.view, actsSince_eq ht₁, actsSince_eq ht₂, List.filterMap_reverse, hsent, hslot, hconn]

theorem mem_of_sentOn {t : Trace Ctx} {pkt : Bytes} {ok : Bool}
    (h : t.filterMap (Act.sentOn ci) = [(pkt, ok)]) : ∃ tag, Act.send ci pkt ok tag ∈ t := by
  obtain ⟨a, ha, hsent⟩ := List.mem_filterMap.1 (h ▸ List.mem_singleton_self (pkt, ok))
  unfold Act.sentOn at hsent
  split at hsent
  · split at hsent
    · rename_i hj
      cases hsent
      exact ⟨_, hj ▸ ha⟩
    · cases hsent
  · cases hsent

/-- The transport answers alike for connection `ci` in two continuations of `σ`. -/
def SameVerdict (ci : Nat) (σ σ₁ σ₂ : Broker Ctx) : Prop :=
  ∀ pkt ok₁ ok₂ tag₁ tag₂, .send ci pkt ok₁ tag₁ ∈ actsSince σ σ₁ → .send ci pkt ok₂ tag₂ ∈ actsSince σ σ₂ → ok₁ = ok₂

theorem sentOn_eq_nil {t t' : Trace Ctx} (h : Elsewhere ci t t') :
    ∃ new, t' = new ++ t ∧ new.filterMap (Act.sentOn ci) = [] := by
  obtain ⟨new, he, hnew⟩ := h
  exact ⟨new, he, List.filterMap_eq_nil_iff.2 hnew⟩

/-- Two continuations that spare the publisher look alike to it. -/
theorem Spares.alike (hbase : Elsewhere ci σ₀.trace σ.trace) (h₁ : Spares ci k σ σ₁) (h₂ : Spares ci k σ σ₂) :
    σ₀.view ci k σ₁ = σ₀.view ci k σ₂ := by
  obtain ⟨new₁, ht₁, hs₁⟩ := sentOn_eq_nil (hbase.trans h₁.acts)
  obtain ⟨new₂, ht₂, hs₂⟩ := sentOn_eq_nil (hbase.trans h₂.acts)
  exact Broker.view_congr ht₁ ht₂ (hs₁.trans hs₂.symm) (h₁.own.trans h₂.own.symm) (h₁.conn.trans h₂.conn.symm)

/-- **The same acknowledgement on both.**  It is offered in both or in neither, since the connection is the same. -/
theorem Spares.reply_alike (hbase : Elsewhere ci σ₀.trace σ.trace) (h₁ : Spares ci k σ σ₁) (h₂ : Spares ci k σ σ₂)
    (pkt : Bytes) (hv : SameVerdict ci σ₀ (σ₁.sendTo P none ci pkt) (σ₂.sendTo P none ci pkt)) :
    σ₀.view ci k (σ₁.sendTo P none ci pkt) = σ₀.view ci k (σ₂.sendTo P none ci pkt) := by
  obtain ⟨new₁, ht₁, hs₁⟩ := sentOn_eq_nil (hbase.trans h₁.acts)
  obtain ⟨new₂, ht₂, hs₂⟩ := sentOn_eq_nil (hbase.trans h₂.acts)
  obtain ⟨ok₁, r₁, htakes₁⟩ := sendTo_replied (P := P) ci pkt σ₁
  obtain ⟨ok₂, r₂, htakes₂⟩ := sendTo_replied (P := P) ci pkt σ₂
  generalize σ₁.sendTo P none ci pkt = τ₁ at *
  generalize σ₂.sendTo P none ci pkt = τ₂ at *
  obtain ⟨ack₁, ha₁, hack₁⟩ := r₁.acts
  obtain ⟨ack₂, ha₂, hack₂⟩ := r₂.acts
  have hconn : σ₁.conns ci = σ₂.conns ci := h₁.conn.trans h₂.conn.symm
  rw [ht₁, ← List.append_assoc] at ha₁
  rw [ht₂, ← List.append_assoc] at ha₂
  have hok : ok₁ = ok₂ := by
    have hsome : ok₁.isSome = ok₂.isSome := by rw [htakes₁, htakes₂, hconn]
    cases ok₁ with
    | none => exact (Option.isNone_iff_eq_none.1 (by simpa using hsome.symm)).symm
    | some ok₁ =>
      obtain ⟨ok₂, rfl⟩ := Option.isSome_iff_exists.1 hsome.symm
      obtain ⟨tag₁, hm₁⟩ := mem_of_sentOn hack₁
      obtain ⟨tag₂, hm₂⟩ := mem_of_sentOn hack₂
      refine congrArg some (hv pkt ok₁ ok₂ tag₁ tag₂ ?_ ?_)
      · rw [actsSince_eq ha₁]
        exact List.mem_append_left _ hm₁
      · rw [actsSince_eq ha₂]
        exact List.mem_append_left _ hm₂
  refine Broker.view_congr ha₁ ha₂ ?_ ?_ ?_
  · rw [List.filterMap_append, List.filterMap_append, hs₁, hs₂, hack₁, hack₂, hok]
  · rw [r₁.sessions, r₂.sessions]
    exact h₁.own.trans h₂.own.symm
  · rw [r₁.conn, r₂.conn, hok, hconn]

theorem elsewhere_trackInbound (ci id : Nat) (s : Session Ctx) (σ : Broker Ctx) :
    Elsewhere ci σ.trace (σ.trackInbound P k ci id s).trace ∧
      (∀ s', (σ.trackInbound P k ci id s).sessions.slot k = some s' → σ.sessions.slot k = some s → s'.subs = s.subs) ∧
      ∀ j, j ≠ k → (σ.trackInbound P k ci id s).sessions.slot j = σ.sessions.slot j := by
  unfold Broker.trackInbound
  split
  · refine ⟨elsewhere_note _ rfl _, fun s' hs' hs => ?_, fun _ _ => rfl⟩
    cases hs.symm.trans hs'
    rfl
  split
  · refine ⟨((elsewhere_note _ rfl _).trans (elsewhere_note _ rfl _)).trans (elsewhere_note _ rfl _),
      fun s' hs' _ => ?_, fun j hj => Function.update_of_ne hj ..⟩
    cases (Function.update_self ..).symm.trans hs'
    rfl
  · refine ⟨elsewhere_note _ rfl _, fun s' hs' _ => ?_, fun j hj => Function.update_of_ne hj ..⟩
    cases (Function.update_self ..).symm.trans hs'
    rfl

theorem grantedMax_of_none : ∀ (subs : List Subscription) (acc : Bool × QoS),
    (∀ sub ∈ subs, topicMatches sub.filter topic = false) →
    subs.foldl (fun (acc : Bool × QoS) sub =>
      if topicMatches sub.filter topic then (true, qosMax acc.2 sub.granted) else acc) acc = acc
  | [], _, _ => rfl
  | sub :: subs, acc, h => by
    rw [List.foldl_cons, if_neg (by simp [h sub (List.mem_cons_self ..)])]
    exact grantedMax_of_none subs acc (fun sub' hsub' => h sub' (List.mem_cons_of_mem _ hsub'))

theorem Linked.alone {out : Option Nat} (hL : Linked P out σ) (hact : (σ.conns ci).active = true)
    (hk : (σ.conns ci).session = k) : Alone ci k σ := by
  rintro j s hj hs rfl
  have hon := ne_noConn_of_lt (hL.active_lt s.conn hact)
  exact hj ((hL.of_session j s hs hon).2.symm.trans hk)

theorem spares_deliver (hL : Linked P none σ) (hact : (σ.conns ci).active = true)
    (hof : σ.sessionOf P (σ.conns ci) = some (k, s)) (hnone : ∀ sub ∈ s.subs, topicMatches sub.filter p.topic = false)
    (deliver allow : Bool) : let σ₁ := if p.qos == .exactlyOnce then σ.trackInbound P k ci p.packetId s else σ
    Elsewhere ci σ.trace σ₁.trace ∧
      Spares ci k σ₁ (if deliver then σ₁.acceptPublish (P.publishing allow) k s p else σ₁) := by
  obtain ⟨hk, hs⟩ := slot_of_sessionOf hof
  have halone := hL.alone hact hk
  intro σ₁
  obtain ⟨hbase, hsubs, hother⟩ : Elsewhere ci σ.trace σ₁.trace ∧
      (∀ s', σ₁.sessions.slot k = some s' → s'.subs = s.subs) ∧
      ∀ j, j ≠ k → σ₁.sessions.slot j = σ.sessions.slot j := by
    by_cases hq : (p.qos == .exactlyOnce) = true
    · obtain ⟨h₁, h₂, h₃⟩ := elsewhere_trackInbound (P := P) (k := k) ci p.packetId s σ
      rw [show σ₁ = σ.trackInbound P k ci p.packetId s from if_pos hq]
      exact ⟨h₁, fun s' hs' => h₂ s' hs' hs, h₃⟩
    · rw [show σ₁ = σ from if_neg hq]
      refine ⟨.refl _ _, fun s' hs' => ?_, fun _ _ => rfl⟩
      cases hs.symm.trans hs'
      rfl
  refine ⟨hbase, ?_⟩
  cases deliver with
  | false => exact .refl ci k σ₁
  | true =>
    refine spares_acceptPublish (P := P.publishing allow) (hL.active_lt ci hact)
      (fun j s' hj hs' => halone j s' hj (hother j hj ▸ hs')) (fun s' hs' => ?_) s
    rw [hsubs s' hs', grantedMax, grantedMax_of_none s.subs _ hnone]

/-- **A PUBLISH allowed and a PUBLISH denied look alike to the publisher.** -/
theorem handlePublish_alike {firstByte : UInt8} {body : Bytes} (hL : Linked P none σ)
    (hact : (σ.conns ci).active = true) (hof : σ.sessionOf P (σ.conns ci) = some (k, s))
    (hp : parsePublish firstByte body = .ok p) (hnone : ∀ sub ∈ s.subs, topicMatches sub.filter p.topic = false)
    (hbase : Elsewhere ci σ₀.trace σ.trace)
    (hv : SameVerdict ci σ₀ (σ.handlePublish (P.publishing true) ci firstByte body)
      (σ.handlePublish (P.publishing false) ci firstByte body)) :
    σ₀.view ci k (σ.handlePublish (P.publishing true) ci firstByte body) =
      σ₀.view ci k (σ.handlePublish (P.publishing false) ci firstByte body) := by
  have h := spares_deliver hL hact hof hnone (!(p.qos == .exactlyOnce && s.hasInboundQos2 p.packetId))
  -- the two differ in `acceptPublish` only
  have heq : ∀ allow, σ.handlePublish (P.publishing allow) ci firstByte body =
      if !topicNameValid p.topic then σ.violation P ci .malformed
      else if P.T.maxTopicLen < p.topic.length then σ.violation P ci .oversize
      else
        let σ₁ := if p.qos == .exactlyOnce then σ.trackInbound P k ci p.packetId s else σ
        let σ₂ := if !(p.qos == .exactlyOnce && s.hasInboundQos2 p.packetId) then
          σ₁.acceptPublish (P.publishing allow) k s p else σ₁
        if p.qos == .atLeastOnce then σ₂.sendTo P none ci (buildPacketIdOnly P.T.outSize .puback p.packetId)
        else if p.qos == .exactlyOnce then σ₂.sendTo P none ci (buildPacketIdOnly P.T.outSize .pubrec p.packetId)
        else σ₂ := by
    intro allow
    rw [Broker.handlePublish, derefSession_of (P := P.publishing allow) hof, hp]
    rfl
  rw [heq, heq] at hv ⊢
  split
  · rfl
  rename_i hvalid
  rw [if_neg hvalid, if_neg hvalid] at hv
  split
  · rfl
  rename_i hlen
  rw [if_neg hlen, if_neg hlen] at hv
  dsimp only at hv h ⊢
  obtain ⟨hbase₁, h₁⟩ := h true
  obtain ⟨-, h₂⟩ := h false
  generalize (if (p.qos == .exactlyOnce) = true then σ.trackInbound P k ci p.packetId s else σ) = σ₁ at *
  split
  · rename_i hq
    rw [if_pos hq, if_pos hq] at hv
    exact h₁.reply_alike (hbase.trans hbase₁) h₂ _ hv
  rename_i hq₁
  rw [if_neg hq₁, if_neg hq₁] at hv
  split
  · rename_i hq₂
    rw [if_pos hq₂, if_pos hq₂] at hv
    exact h₁.reply_alike (hbase.trans hbase₁) h₂ _ hv
  · exact h₁.alike (hbase.trans hbase₁) h₂

end

/-- **A denied publish is indistinguishable to its publisher.**  In every state a run can be in when a PUBLISH arrives,
on the publisher's connection `ci`, whose session matches it with no subscription: handled with `authorize_publish`
answering true and with it answering false, the publisher gets the same packets, and its inbound ids, its queue, its
subscriptions and its connection are left the same. -/
theorem publish_denied_unseen (P : Params Ctx) (inputs : List Input) (ci : Nat) (data : Bytes) (nowMs : Nat)
    (a : Arrival Ctx) (ha : a ∈ (run P inputs).arrivals P ci data nowMs) (k : Nat) (s : Session Ctx)
    (hof : a.state.sessionOf P (a.state.conns ci) = some (k, s)) (p : PublishPacket)
    (hp : parsePublish a.firstByte a.body = .ok p) (hnone : ∀ sub ∈ s.subs, topicMatches sub.filter p.topic = false)
    (hverdict : SameVerdict ci a.state
      ((a.state.emit (.packet ci a.firstByte a.body)).handlePublish (P.publishing true) ci a.firstByte a.body)
      ((a.state.emit (.packet ci a.firstByte a.body)).handlePublish (P.publishing false) ci a.firstByte a.body)) :
    a.state.view ci k
        ((a.state.emit (.packet ci a.firstByte a.body)).handlePublish (P.publishing true) ci a.firstByte a.body) =
      a.state.view ci k
        ((a.state.emit (.packet ci a.firstByte a.body)).handlePublish (P.publishing false) ci a.firstByte a.body) := by
  have h := (arrivals_arrived (run_stepped P inputs).sound ci data nowMs a ha).1
  have hL : Linked P none (a.state.emit (.packet ci a.firstByte a.body)) := { h.linked with }
  exact handlePublish_alike hL h.active hof hp hnone (elsewhere_note _ rfl _) hverdict

/-- A QoS 1 PUBLISH on connection 0, which a client on connection 1 has subscribed to: whether it is allowed or denied,
connection 0 gets the PUBACK and nothing else. -/
theorem publish_denied_unseen_qos1 : let P := bed (fun _ _ _ => true)
    let σ := run P (Input.connect 0 [97] {} ++ Input.connect 1 [98] {} ++ [.feed 1 (Wire.makeSubscribe 1 [([116], 0)])])
    ∃ a ∈ σ.arrivals P 0 (Wire.makePublish [116] [1] .atLeastOnce true false 7) 1000,
      let σ₁ := (a.state.emit (.packet 0 a.firstByte a.body)).handlePublish (P.publishing true) 0 a.firstByte a.body
      let σ₂ := (a.state.emit (.packet 0 a.firstByte a.body)).handlePublish (P.publishing false) 0 a.firstByte a.body
      a.state.view 0 0 σ₁ = a.state.view 0 0 σ₂ ∧ (a.state.view 0 0 σ₁).packets = [([0x40, 2, 0, 7], true)] ∧
        (actsSince a.state σ₂).length < (actsSince a.state σ₁).length := by
  intro P σ
  obtain ⟨a, ha⟩ := List.exists_mem_of_length_pos (show 0 < (σ.arrivals P 0
    (Wire.makePublish [116] [1] .atLeastOnce true false 7) 1000).length by decide +kernel)
  have hsession : ∀ a ∈ σ.arrivals P 0 (Wire.makePublish [116] [1] .atLeastOnce true false 7) 1000,
      (a.state.sessionOf P (a.state.conns 0)).map (fun ks => (ks.1, ks.2.subs)) = some (0, []) := by decide +kernel
  have hpacket : ∀ a ∈ σ.arrivals P 0 (Wire.makePublish [116] [1] .atLeastOnce true false 7) 1000,
      parsePublish a.firstByte a.body = .ok (
        { topic := [116], payload := [1], packetId := 7, qos := .atLeastOnce, retain := true, dup := false } :
          PublishPacket) := by decide +kernel
  have hsent : ∀ allow, ∀ a ∈ σ.arrivals P 0 (Wire.makePublish [116] [1] .atLeastOnce true false 7) 1000,
      (actsSince a.state ((a.state.emit (.packet 0 a.firstByte a.body)).handlePublish (P.publishing allow) 0 a.firstByte
        a.body)).filterMap (Act.sentOn 0) = [([0x40, 2, 0, 7], true)] := by decide +kernel
  have hmore : ∀ a ∈ σ.arrivals P 0 (Wire.makePublish [116] [1] .atLeastOnce true false 7) 1000,
      (actsSince a.state ((a.state.emit (.packet 0 a.firstByte a.body)).handlePublish (P.publishing false) 0 a.firstByte
        a.body)).length < (actsSince a.state ((a.state.emit (.packet 0 a.firstByte a.body)).handlePublish
          (P.publishing true) 0 a.firstByte a.body)).length := by decide +kernel
  have htrue : ∀ allow pkt ok tag, Act.send 0 pkt ok tag ∈ actsSince a.state ((a.state.emit (.packet 0 a.firstByte
      a.body)).handlePublish (P.publishing allow) 0 a.firstByte a.body) → ok = true := fun allow pkt ok tag h => by
    have hmem := List.mem_filterMap.2 ⟨_, h, Act.sentOn_send 0 pkt ok tag⟩
    rw [hsent allow a ha, List.mem_singleton] at hmem
    exact congrArg Prod.snd hmem
  obtain ⟨ks, hof, hks⟩ := Option.map_eq_some_iff.1 (hsession a ha)
  obtain ⟨k, s⟩ := ks
  obtain ⟨rfl, hsubs⟩ := Prod.mk.inj hks
  refine ⟨a, ha, publish_denied_unseen P _ 0 _ 1000 a ha 0 s hof _ (hpacket a ha) ?_ ?_, ?_, hmore a ha⟩
  · rw [show s.subs = [] from hsubs]
    simp
  · exact fun pkt ok₁ ok₂ tag₁ tag₂ h₁ h₂ => (htrue true pkt ok₁ tag₁ h₁).trans (htrue false pkt ok₂ tag₂ h₂).symm
  · rw [Broker.view, List.filterMap_reverse, hsent true a ha]
    rfl

end Minimosq
