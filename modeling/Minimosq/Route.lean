import Minimosq.Arrival
import Minimosq.Fits
/-!
# What `route_publish` does to every session

`route_publish` visits the slots in order and treats each live session in one of the ways `Treated` lists.  A visit
touches its own session and, if the transport refuses a packet, the connection of that session; as no two sessions share
a connection, what a visit finds is what was there when `route_publish` was called.
-/
namespace Minimosq

variable {Ctx : Type} {P : Params Ctx}

/-! ## The pump, entry by entry -/

/-- The event of an entry that no packet can carry. -/
def dropEvent (s : Session Ctx) (topic : Bytes) (qos : QoS) (err : Err) : Event :=
  { kind := .deliveryDropped, clientId := s.clientId, topic := topic, qos := qos, err := err, ci := eventConn s }

/-- **What `pump_session` makes of the queue of `s`**, entry by entry: the acts, newest first, and the queue left.  Each
entry goes out once at most, and the first refusal ends the pump. -/
inductive Airs (P : Params Ctx) (k : Nat) (s : Session Ctx) : List OutMsg → Trace Ctx → List OutMsg → Prop
  | done : Airs P k s [] [] []
  | skip {m : OutMsg} {l l' : List OutMsg} {acts : Trace Ctx} (hq : m.state ≠ .queued) (rest : Airs P k s l acts l') :
      Airs P k s (m :: l) acts (m :: l')
  | sent {m : OutMsg} {l l' : List OutMsg} {acts : Trace Ctx} (id : Nat) (hq : m.state = .queued)
      (rest : Airs P k s l acts l') :
      Airs P k s (m :: l) (acts ++ [.send s.conn (publishOf P.T m m.dup id) true (tagOf k s (some m.seq))])
        (m.sent id :: l')
  /-- A PUBREL the transport had refused. -/
  | released {m : OutMsg} {l l' : List OutMsg} {acts : Trace Ctx} (hst : m.state = .awaitingPubcomp)
      (hflag : m.resendPubrel = true) (rest : Airs P k s l acts l') :
      Airs P k s (m :: l) (acts ++ [.send s.conn (pubrelOf P.T m) true (tagOf k s (some m.seq))])
        ({ m with resendPubrel := false } :: l')
  | refused {m : OutMsg} {l : List OutMsg} (pkt : Bytes)
      (hpkt : pkt = pubrelOf P.T m ∨ ∃ id, pkt = publishOf P.T m m.dup id) :
      Airs P k s (m :: l) [.send s.conn pkt false (tagOf k s (some m.seq))] (m :: l)
  | stuck {m : OutMsg} {l : List OutMsg} (hq : m.state = .queued) : Airs P k s (m :: l) [.stuck k] (m :: l)
  /-- No packet can carry it. -/
  | dropped {m : OutMsg} {l l' : List OutMsg} {acts : Trace Ctx} (hq : m.state = .queued)
      (hno : ¬ PublishFits P.T.outSize m.topic m.payload m.qos) (rest : Airs P k s l acts l') :
      Airs P k s (m :: l) (acts ++ [.event (dropEvent s m.topic m.qos .oversize) (some k), .unbuilt (some k)]) l'

section
variable {k : Nat} {s : Session Ctx}

/-- Position `i` of the pump: what is before it is done, whatever becomes of the rest. -/
def PumpAt (P : Params Ctx) (k : Nat) (w : Work Ctx) (i : Nat) (w' : Work Ctx) : Prop :=
  ∃ before todo after id acts, w.1.pending = before ++ todo ∧ after.length = i ∧
    w' = ({ w.1 with pending := after ++ todo, lastPacketId := id }, acts ++ w.2) ∧
    ∀ acts' rest, Airs P k w.1 todo acts' rest → Airs P k w.1 (before ++ todo) (acts' ++ acts) (after ++ rest)

/-- What the pump leaves. -/
def PumpEnd (P : Params Ctx) (k : Nat) (w w' : Work Ctx) : Prop :=
  ∃ pending id acts, w' = ({ w.1 with pending := pending, lastPacketId := id }, acts ++ w.2) ∧
    Airs P k w.1 w.1.pending acts pending

theorem PumpAt.turn {conns : Nat → Conn} {w w' : Work Ctx} (hon : online P.T conns w.1 = true)
    (hact : (conns w.1.conn).active = true) {i : Nat} {m : OutMsg} (h : PumpAt P k w i w')
    (hm : w'.1.pending[i]? = some m) :
    ((pumpTurn P conns k i m w').1 = none → PumpEnd P k w (pumpTurn P conns k i m w').2) ∧
    ∀ j, (pumpTurn P conns k i m w').1 = some j → PumpAt P k w j (pumpTurn P conns k i m w').2 ∧
      (pumpTurn P conns k i m w').2.1.pending.length + i < w'.1.pending.length + j := by
  obtain ⟨before, todo, after, lastId, acts, hsplit, rfl, rfl, hairs⟩ := h
  obtain ⟨todo, rfl⟩ : ∃ rest, todo = m :: rest := by
    rw [List.getElem?_append_right (Nat.le_refl _), Nat.sub_self] at hm
    cases todo with
    | nil => cases hm
    | cons x rest =>
      cases hm
      exact ⟨rest, rfl⟩
  have hset : ∀ m', (after ++ m :: todo).set after.length m' = (after ++ [m']) ++ todo := fun m' => by simp
  -- the pump stops here, or goes on behind an entry that became `l`
  have hstop : ∀ {id new}, Airs P k w.1 (m :: todo) new (m :: todo) → PumpEnd P k w
      ({ w.1 with pending := after ++ m :: todo, lastPacketId := id }, new ++ (acts ++ w.2)) := by
    intro id new h
    exact ⟨_, id, new ++ acts, by rw [List.append_assoc], by rw [hsplit]; exact hairs new _ h⟩
  have hgo : ∀ {id pending j} (new : Trace Ctx) (l : List OutMsg), (after ++ l).length = j →
      pending = (after ++ l) ++ todo →
      (∀ acts' rest, Airs P k w.1 todo acts' rest → Airs P k w.1 (m :: todo) (acts' ++ new) (l ++ rest)) →
      PumpAt P k w j ({ w.1 with pending := pending, lastPacketId := id }, new ++ (acts ++ w.2)) := by
    rintro id pending j new l rfl rfl h
    refine ⟨before ++ [m], todo, after ++ l, id, new ++ acts, by simp [hsplit], rfl, by simp, ?_⟩
    intro acts' rest hrest
    have := hairs _ _ (h acts' rest hrest)
    simpa using this
  have hsend : ∀ {pkt : Bytes}, pkt ≠ [] → ∀ tag t, trySendTo P conns tag w.1.conn pkt t
      = (P.send t w.1.conn pkt, .send w.1.conn pkt (P.send t w.1.conn pkt) tag :: t) :=
    fun hpkt tag t => trySendTo_up hon hact hpkt tag t
  have hup : online P.T conns { w.1 with pending := after ++ m :: todo, lastPacketId := lastId } = true := hon
  have hidx : connIndex P.T { w.1 with pending := after ++ m :: todo, lastPacketId := lastId } = w.1.conn :=
    (connIndex_of_online hon).1
  unfold pumpTurn
  simp only [hup, hidx, Bool.not_true, Bool.false_eq_true, if_false]
  split
  · rename_i hrel
    simp only [Bool.and_eq_true, beq_iff_eq] at hrel
    rw [← pubrelOf, hsend (pubrelOf_ne_nil P.T m)]
    cases P.send (acts ++ w.2) w.1.conn (pubrelOf P.T m) with
    | false => exact ⟨fun _ => hstop (.refused _ (.inl rfl)), fun j hj => by cases hj⟩
    | true =>
      refine ⟨fun hj => (by cases hj), fun j hj => ?_⟩
      cases hj
      exact ⟨hgo [_] [{ m with resendPubrel := false }] (by simp) (hset _)
        fun _ _ hrest => .released hrel.1 hrel.2 hrest, by simp [Session.setPending]⟩
  split
  · rename_i hq
    refine ⟨fun hj => (by cases hj), fun j hj => ?_⟩
    cases hj
    exact ⟨hgo [] [m] (by simp) (by simp) fun acts' _ hrest => by
      rw [List.append_nil]
      exact .skip (by simpa using hq) hrest, by simp⟩
  rename_i hq
  have hq : m.state = .queued := by simpa using hq
  split
  · exact ⟨fun _ => hstop (.stuck hq), fun j hj => by cases hj⟩
  rename_i id hid
  rw [← publishOf]
  split
  · rename_i hpkt
    have hno : ¬ PublishFits P.T.outSize m.topic m.payload m.qos := by
      rw [← buildPublish_ne_nil_iff, not_not]
      exact List.isEmpty_iff.1 hpkt
    refine ⟨fun hj => (by cases hj), fun j hj => ?_⟩
    cases hj
    have herase : (after ++ m :: todo).eraseIdx after.length = after ++ todo := by
      rw [List.eraseIdx_append_of_length_le (Nat.le_refl _), Nat.sub_self]
      rfl
    exact ⟨hgo [_, _] [] (by simp) (by simpa using herase) fun _ _ hrest => .dropped hq hno hrest,
      by simp [Session.removePending, herase]⟩
  rename_i hpkt
  rw [hsend (by simpa using hpkt)]
  cases P.send (acts ++ w.2) w.1.conn (publishOf P.T m m.dup id) with
  | false => exact ⟨fun _ => hstop (.refused _ (.inr ⟨id, rfl⟩)), fun j hj => by cases hj⟩
  | true =>
    refine ⟨fun hj => (by cases hj), fun j hj => ?_⟩
    cases hj
    exact ⟨hgo [_] [m.sent id] (by simp) (hset _) fun _ _ hrest => .sent id hq hrest, by simp [Session.setPending]⟩

/-- **`pump_session` on a live connection.** -/
theorem pumpSession_airs {conns : Nat → Conn} (w : Work Ctx) (hon : online P.T conns w.1 = true)
    (hact : (conns w.1.conn).active = true) : PumpEnd P k w (pumpSession P conns k w) := by
  refine queueLoop_rule (PumpAt P k w) (PumpEnd P k w) (fun i w' h hnone => ?_)
    (fun i m w' h hm => h.turn hon hact hm) _
    0 w ⟨[], w.1.pending, [], w.1.lastPacketId, [], rfl, rfl, rfl, fun acts' rest h => by simpa using h⟩ (by omega)
  obtain ⟨before, todo, after, id, acts, hsplit, rfl, rfl, hairs⟩ := h
  have hnil : todo = [] := by
    rw [List.getElem?_append_right (Nat.le_refl _), Nat.sub_self] at hnone
    cases todo with
    | nil => rfl
    | cons => cases hnone
  subst hnil
  exact ⟨_, id, acts, rfl, by rw [hsplit]; exact hairs [] [] .done⟩

end

/-! ## The effective QoS -/

/-- The subscriptions that match a topic. -/
def matchingSubs (subs : List Subscription) (topic : Bytes) : List Subscription :=
  subs.filter (fun sub => topicMatches sub.filter topic)

/-- The highest QoS granted. -/
def highestGranted (subs : List Subscription) : Nat := (subs.map (fun sub => sub.granted.toNat)).foldr max 0

/-- `eff` is the lower of `qos` and the highest QoS granted among the subscriptions that match. -/
def IsEffective (qos : QoS) (subs : List Subscription) (topic : Bytes) (eff : QoS) : Prop :=
  eff.toNat = min qos.toNat (highestGranted (matchingSubs subs topic))

theorem qosMax_toNat (a b : QoS) : (qosMax a b).toNat = max a.toNat b.toNat := by
  unfold qosMax
  split <;> omega

theorem qosMin_toNat (a b : QoS) : (qosMin a b).toNat = min a.toNat b.toNat := by
  unfold qosMin
  split <;> omega

theorem grantedMax_from (topic : Bytes) : ∀ (subs : List Subscription) (acc : Bool × QoS),
    let g := subs.foldl (fun (acc : Bool × QoS) sub =>
      if topicMatches sub.filter topic then (true, qosMax acc.2 sub.granted) else acc) acc
    (g.1 = true ↔ acc.1 = true ∨ matchingSubs subs topic ≠ []) ∧
      g.2.toNat = max acc.2.toNat (highestGranted (matchingSubs subs topic))
  | [], acc => ⟨by simp [matchingSubs], (Nat.max_zero _).symm⟩
  | sub :: subs, acc => by
    obtain ⟨hany, hmax⟩ := grantedMax_from topic subs
      (if topicMatches sub.filter topic then (true, qosMax acc.2 sub.granted) else acc)
    simp only [List.foldl_cons] at hany hmax ⊢
    rw [hany, hmax]
    by_cases hsub : topicMatches sub.filter topic = true
    · simp [matchingSubs, hsub, qosMax_toNat, highestGranted, Nat.max_assoc]
    · simp [matchingSubs, hsub]

theorem grantedMax_any (subs : List Subscription) (topic : Bytes) :
    (grantedMax subs topic).1 = true ↔ matchingSubs subs topic ≠ [] := by
  have h := (grantedMax_from topic subs (false, .atMostOnce)).1
  simpa [grantedMax] using h

theorem grantedMax_effective (qos : QoS) (subs : List Subscription) (topic : Bytes) :
    IsEffective qos subs topic (qosMin qos (grantedMax subs topic).2) := by
  have h := (grantedMax_from topic subs (false, .atMostOnce)).2
  rw [IsEffective, qosMin_toNat, grantedMax]
  simp only [QoS.toNat, Nat.zero_max] at h ⊢
  rw [h]

/-! ## One visit -/

/-- **A message `route_publish` is called with**: every caller has checked its topic, and that a PUBLISH can carry it.
-/
structure Routable (T : Traits) (topic payload : Bytes) (qos : QoS) : Prop where
  fits : TopicFits T topic
  carried : PublishFits T.outSize topic payload qos

/-- The entry a message becomes. -/
def routedEntry (s : Session Ctx) (topic payload : Bytes) (eff : QoS) : OutMsg :=
  { topic := topic, payload := payload, qos := eff, state := .queued, retain := false, dup := false, seq := s.nextSeq }

/-- **What a session that may receive a message at QoS `eff` is given.** -/
inductive Given (P : Params Ctx) (topic payload : Bytes) (k : Nat) (up : Bool) (s : Session Ctx) :
    QoS → Trace Ctx → Session Ctx → Prop
  /-- One PUBLISH is offered; a refusal gives the connection up. -/
  | live {pkt : Bytes} {ok : Bool} {failed : Trace Ctx} (hup : up = true)
      (hpkt : sentPublish pkt = some ⟨topic, payload, 0, .atMostOnce, false, false⟩)
      (hfailed : ok = true ∧ failed = [] ∨
        ok = false ∧ ∃ e, e.kind = .transportSendFailed ∧ failed = [.dead s.conn, .event e none]) :
      Given P topic payload k up s .atMostOnce (failed ++ [.send s.conn pkt ok (tagOf k s none)]) s
  | offline (hup : up = false) : Given P topic payload k up s .atMostOnce [] s
  /-- Too long for the queue, or the queue is full. -/
  | dropped {eff : QoS} (heff : eff ≠ .atMostOnce) (hkept : up = true ∨ s.cleanSession = false) (err : Err)
      (herr : P.T.maxPayloadLen < payload.length ∧ err = .oversize ∨
        payload.length ≤ P.T.maxPayloadLen ∧ s.pending.length = P.T.maxPendingPerSession ∧ err = .capacity) :
      Given P topic payload k up s eff [.event (dropEvent s topic eff err) (some k)] s
  /-- One entry is appended; then, on a live connection, the queue is pumped. -/
  | queued {eff : QoS} {acts : Trace Ctx} {pending : List OutMsg} (id : Nat) (heff : eff ≠ .atMostOnce)
      (hkept : up = true ∨ s.cleanSession = false) (hpayload : payload.length ≤ P.T.maxPayloadLen)
      (hroom : s.pending.length ≠ P.T.maxPendingPerSession)
      (hup : up = true → Airs P k s (s.pending ++ [routedEntry s topic payload eff]) acts pending)
      (hdown : up = false →
        acts = [] ∧ pending = s.pending ++ [routedEntry s topic payload eff] ∧ id = s.lastPacketId)
      (hlast : ∃ older m, pending = older ++ [m] ∧
        (m = routedEntry s topic payload eff ∨ ∃ id, m = (routedEntry s topic payload eff).sent id)) :
      Given P topic payload k up s eff (acts ++ [.enqueue k s.nextSeq topic payload eff false])
        { s with pending := pending, lastPacketId := id, nextSeq := s.nextSeq + 1 }
  | gone {eff : QoS} (heff : eff ≠ .atMostOnce) (hup : up = false) (hclean : s.cleanSession = true) :
      Given P topic payload k up s eff [] s

/-- **What happens to the session `s` in slot `k` when it is visited** with the trace `t`, its connection being live or
not (`up`): the acts, newest first, and the session after it. -/
inductive Treated (P : Params Ctx) (topic payload : Bytes) (qos : QoS) (k : Nat) (up : Bool) (t : Trace Ctx)
    (s : Session Ctx) : Trace Ctx → Session Ctx → Prop
  | unmatched (hno : matchingSubs s.subs topic = []) :
      Treated P topic payload qos k up t s [.matching k (s.subs.map Subscription.filter) topic] s
  | denied (hsome : matchingSubs s.subs topic ≠ [])
      (hask : P.sec.authorizeReceive (.matching k (s.subs.map Subscription.filter) topic :: t) s.authCtx topic =
        false) :
      Treated P topic payload qos k up t s
        [.event { kind := .receiveDenied, clientId := s.clientId, topic := topic, ci := eventConn s } (some k),
          .matching k (s.subs.map Subscription.filter) topic] s
  | allowed {eff : QoS} {acts : Trace Ctx} {s' : Session Ctx} (hsome : matchingSubs s.subs topic ≠ [])
      (hask : P.sec.authorizeReceive (.matching k (s.subs.map Subscription.filter) topic :: t) s.authCtx topic = true)
      (heff : IsEffective qos s.subs topic eff) (hgiven : Given P topic payload k up s eff acts s') :
      Treated P topic payload qos k up t s
        (acts ++ [.routed k topic payload eff, .matching k (s.subs.map Subscription.filter) topic]) s'

section
variable {topic payload : Bytes} {qos eff : QoS} {k : Nat} {s s' : Session Ctx} {acts t : Trace Ctx} {up : Bool}

/-- The entry behind the queue stays there, waiting or sent, if a packet can carry it. -/
theorem Airs.last {l pending : List OutMsg} {m : OutMsg} (h : Airs P k s (l ++ [m]) acts pending)
    (hq : m.state = .queued) (hfits : PublishFits P.T.outSize m.topic m.payload m.qos) :
    ∃ older m', pending = older ++ [m'] ∧ (m' = m ∨ ∃ id, m' = m.sent id) := by
  induction l generalizing acts pending with
  | nil =>
    cases h with
    | skip hno => exact absurd hq hno
    | sent id _ rest =>
      cases rest
      exact ⟨[], m.sent id, rfl, .inr ⟨id, rfl⟩⟩
    | released hst =>
      rw [hq] at hst
      cases hst
    | refused | stuck => exact ⟨[], m, rfl, .inl rfl⟩
    | dropped _ hno => exact absurd hfits hno
  | cons x l ih =>
    cases h with
    | skip _ rest | sent _ _ rest | released _ _ rest =>
      obtain ⟨older, m', rfl, hm⟩ := ih rest
      exact ⟨_ :: older, m', rfl, hm⟩
    | refused | stuck => exact ⟨x :: l, m, rfl, .inl rfl⟩
    | dropped _ _ rest => exact ih rest

/-- The pump reads of its session where its packets go, and whom its acts name. -/
theorem Airs.congr {l l' : List OutMsg} (h : Airs P k s l acts l') (hconn : s'.conn = s.conn)
    (hctx : s'.authCtx = s.authCtx) (hid : s'.clientId = s.clientId) : Airs P k s' l acts l' := by
  have htag : ∀ seq, tagOf k s seq = tagOf k s' seq := fun seq => by rw [tagOf, tagOf, hctx]
  have hdrop : ∀ topic qos err, dropEvent s topic qos err = dropEvent s' topic qos err := fun topic qos err => by
    rw [dropEvent, dropEvent, eventConn, eventConn, Session.connected, Session.connected, hconn, hid]
  induction h with
  | done => exact .done
  | skip hq _ ih => exact .skip hq ih
  | sent id hq _ ih =>
    rw [← hconn, htag]
    exact .sent id hq ih
  | released hst hflag _ ih =>
    rw [← hconn, htag]
    exact .released hst hflag ih
  | refused pkt hpkt =>
    rw [← hconn, htag]
    exact .refused pkt hpkt
  | stuck hq => exact .stuck hq
  | dropped hq hno _ ih =>
    rw [hdrop]
    exact .dropped hq hno ih

/-- A lower QoS needs no more room. -/
theorem PublishFits.lower {cap : Nat} (h : PublishFits cap topic payload qos) (hle : eff.toNat ≤ qos.toNat) :
    PublishFits cap topic payload eff := by
  refine ⟨h.1, h.2.1, Nat.le_trans ?_ h.2.2⟩
  simp only [publishBody, idField, List.length_append]
  by_cases heff : eff = .atMostOnce
  · simp [heff]
  · have hqos : qos ≠ .atMostOnce := by
      rintro rfl
      cases eff <;> simp [QoS.toNat] at hle heff
    simp [heff, hqos]

/-- **`enqueue` of a routed message.** -/
theorem enqueue_given {conns : Nat → Conn} (hmsg : Routable P.T topic payload qos) (heff : eff ≠ .atMostOnce)
    (hle : eff.toNat ≤ qos.toNat) (hact : online P.T conns s = true → (conns s.conn).active = true)
    (hkept : online P.T conns s = true ∨ s.cleanSession = false) (t : Trace Ctx) :
    ∃ acts s', enqueue P conns k topic payload eff false (s, t) = (s', acts ++ t) ∧
      Given P topic payload k (online P.T conns s) s eff acts s' := by
  unfold enqueue
  split
  · rename_i hlong
    exact ⟨_, _, rfl, .dropped heff hkept .oversize (.inl ⟨hlong, rfl⟩)⟩
  rename_i hpayload
  have hpayload := Nat.not_lt.1 hpayload
  split
  · rename_i hfull
    exact ⟨_, _, rfl, .dropped heff hkept .capacity (.inr ⟨hpayload, by simpa using hfull, rfl⟩)⟩
  rename_i hroom
  have hroom : s.pending.length ≠ P.T.maxPendingPerSession := by simpa using hroom
  have hentry : outMsg P.T s topic payload eff false = routedEntry s topic payload eff := by
    rw [outMsg, assign_of_le hmsg.fits.stored, assign_of_le hpayload]
    rfl
  rw [checkAssign_of_fits (by simpa using ⟨hmsg.fits.stored, hpayload⟩)]
  dsimp only
  rw [hentry]
  generalize hs₁ : { s with pending := s.pending ++ [routedEntry s topic payload eff], nextSeq := s.nextSeq + 1 } = s₁
  have hup : online P.T conns s₁ = online P.T conns s := by rw [← hs₁]; exact online_congr rfl
  rw [hup]
  split
  · rename_i hon
    obtain ⟨pending, id, acts, hpump, hairs⟩ := pumpSession_airs (k := k)
      (s₁, .enqueue k s.nextSeq topic payload eff false :: t) (hup.trans hon) (by rw [← hs₁]; exact hact hon)
    subst hs₁
    have hairs : Airs P k s (s.pending ++ [routedEntry s topic payload eff]) acts pending := hairs.congr rfl rfl rfl
    refine ⟨acts ++ [.enqueue k s.nextSeq topic payload eff false], _, ?_,
      .queued id heff hkept hpayload hroom (fun _ => hairs) (fun hoff => ?_) (hairs.last rfl (hmsg.carried.lower hle))⟩
    · rw [hpump, List.append_assoc]
      rfl
    · rw [hon] at hoff
      cases hoff
  · rename_i hoff
    subst hs₁
    exact ⟨[] ++ [.enqueue k s.nextSeq topic payload eff false], _, rfl,
      .queued s.lastPacketId heff hkept hpayload hroom (fun hon => absurd hon hoff)
        (fun _ => ⟨rfl, rfl, rfl⟩) ⟨_, _, rfl, .inl rfl⟩⟩

/-- **What a visit of slot `k`, which holds `s`, does to the tables.** -/
structure Visited (P : Params Ctx) (topic payload : Bytes) (qos : QoS) (k : Nat) (s : Session Ctx) (σ σ' : Broker Ctx)
    (acts : Trace Ctx) (s' : Session Ctx) : Prop where
  treated : Treated P topic payload qos k (online P.T σ.conns s) σ.trace s acts s'
  trace : σ'.trace = acts ++ σ.trace
  slot : σ'.sessions.slot k = some s'

variable {σ : Broker Ctx} {out : Option Nat}

theorem sendTo_given (hup : online P.T σ.conns s = true)
    (hact : (σ.conns s.conn).active = true) (hmsg : Routable P.T topic payload qos) :
    let σ' := σ.sendTo P (tagOf k s none) (connIndex P.T s)
      (buildPublish P.T.outSize topic payload .atMostOnce false false 0)
    ∃ acts, Given P topic payload k true s .atMostOnce acts s ∧ σ'.trace = acts ++ σ.trace ∧
      σ'.sessions = σ.sessions := by
  obtain ⟨hidx, hlt, -, hdead⟩ := connIndex_of_online hup
  have hfits : PublishFits P.T.outSize topic payload .atMostOnce := hmsg.carried.lower (Nat.zero_le _)
  have hpkt : buildPublish P.T.outSize topic payload .atMostOnce false false 0 ≠ [] := buildPublish_ne_nil_iff.2 hfits
  have hsent : sentPublish (buildPublish P.T.outSize topic payload .atMostOnce false false 0)
      = some ⟨topic, payload, 0, .atMostOnce, false, false⟩ := by rw [sentPublish_eq hfits (by decide)]; rfl
  dsimp only
  rw [hidx]
  generalize buildPublish P.T.outSize topic payload .atMostOnce false false 0 = pkt at hpkt hsent
  rcases (sendTo_cases P (tagOf k s none) s.conn pkt σ).offered hlt ⟨hact, hdead⟩ hpkt with ⟨-, he⟩ | ⟨-, he⟩
  · rw [he]
    exact ⟨_, .live rfl hsent (.inl ⟨rfl, rfl⟩), rfl, rfl⟩
  · rw [he]
    exact ⟨_, .live rfl hsent (.inr ⟨rfl, _, rfl, rfl⟩), rfl, rfl⟩

theorem routeOne_of_none (hs : σ.sessions.slot k = none) : σ.routeOne P topic payload qos k = σ := by
  unfold Broker.routeOne
  rw [hs]

/-- **One visit of the loop of `route_publish`.** -/
theorem routeOne_visited (hs : σ.sessions.slot k = some s)
    (hact : online P.T σ.conns s = true → (σ.conns s.conn).active = true) (hmsg : Routable P.T topic payload qos) :
    ∃ acts s', Visited P topic payload qos k s σ (σ.routeOne P topic payload qos k) acts s' := by
  have hstill : ∀ {acts σ'}, Treated P topic payload qos k (online P.T σ.conns s) σ.trace s acts s →
      σ'.trace = acts ++ σ.trace → σ'.sessions = σ.sessions → ∃ acts s', Visited P topic payload qos k s σ σ' acts s' :=
    fun htreated htrace hsessions => ⟨_, s, htreated, htrace, by rw [hsessions, hs]⟩
  have hcases := routeOne_cases P topic payload qos σ k
  generalize σ.routeOne P topic payload qos k = σ' at hcases ⊢
  cases hcases with
  | vacant hnone => exact absurd (hs.symm.trans hnone) (by simp)
  | unmatched hs' hno =>
    cases hs.symm.trans hs'
    exact hstill (.unmatched (by simpa using (grantedMax_any s.subs topic).not.1 (by simpa using hno))) rfl rfl
  | denied hs' hyes hdeny =>
    cases hs.symm.trans hs'
    exact hstill (.denied ((grantedMax_any s.subs topic).1 hyes) hdeny) rfl rfl
  | @allowed _ eff _ hs' hyes hask heff hgiven =>
    cases hs.symm.trans hs'
    have hsome := (grantedMax_any s.subs topic).1 hyes
    have hle : eff.toNat ≤ qos.toNat := by rw [heff, qosMin_toNat]; omega
    have heff := heff ▸ grantedMax_effective qos s.subs topic
    cases hgiven with
    | live hup =>
      have hup : online P.T σ.conns s = true := hup
      obtain ⟨acts, hgiven, htrace, hsessions⟩ := sendTo_given (k := k) (σ := (σ.emit _).emit _) hup (hact hup) hmsg
      refine hstill (.allowed hsome hask heff (hup ▸ hgiven)) ?_ hsessions
      rw [htrace, List.append_assoc]
      rfl
    | offline hup => exact hstill (.allowed hsome hask heff (.offline hup)) rfl rfl
    | queued hzero hkept =>
      obtain ⟨acts, s', hqueue, hgiven⟩ := enqueue_given (k := k) hmsg hzero hle hact hkept
        (.routed k topic payload eff :: .matching k (s.subs.map Subscription.filter) topic :: σ.trace)
      refine ⟨_, s', .allowed hsome hask heff hgiven, ?_, ?_⟩ <;>
        simp only [Broker.onSession, Broker.emit, hs] <;> rw [hqueue]
      · rw [List.append_assoc]
        rfl
      · exact Function.update_self ..
    | gone hzero hup hclean => exact hstill (.allowed hsome hask heff (.gone hzero hup hclean)) rfl rfl

/-! ## The whole loop -/

/-- The visits of other slots, as slot `k` sees them. -/
structure PassesBy (P : Params Ctx) (k : Nat) (σ σ' : Broker Ctx) (acts : Trace Ctx) : Prop where
  trace : σ'.trace = acts ++ σ.trace
  slots : ∀ a ∈ acts, a.slot ≠ some k
  same : σ'.sessions.slot k = σ.sessions.slot k
  live : ∀ s, σ.sessions.slot k = some s → online P.T σ'.conns s = online P.T σ.conns s

theorem PassesBy.trans {σ' σ'' : Broker Ctx} {acts' : Trace Ctx} (h : PassesBy P k σ σ' acts)
    (h' : PassesBy P k σ' σ'' acts') : PassesBy P k σ σ'' (acts' ++ acts) where
  trace := by rw [h'.trace, h.trace, List.append_assoc]
  slots := fun a ha => (List.mem_append.1 ha).elim (h'.slots a) (h.slots a)
  same := h'.same.trans h.same
  live := fun s hs => (h'.live s (h.same.trans hs)).trans (h.live s hs)

theorem online_of_same {T : Traits} {conns conns' : Nat → Conn} (h : s.conn ≠ noConn → conns' s.conn = conns s.conn) :
    online T conns' s = online T conns s := by
  unfold online connOfSession
  by_cases hlt : connIndex T s < T.maxConnections
  · obtain ⟨hidx, -, hno⟩ := connIndex_of_lt hlt
    rw [if_pos hlt, if_pos hlt, hidx, h hno]
  · rw [if_neg hlt, if_neg hlt]

theorem Linked.active_of_online (hL : Linked P out σ) (hs : σ.sessions.slot k = some s)
    (hup : online P.T σ.conns s = true) : (σ.conns s.conn).active = true :=
  (hL.of_session k s hs (connIndex_of_online hup).2.2.1).1

theorem enqueue_slots (P : Params Ctx) (conns : Nat → Conn) (k : Nat) (topic payload : Bytes) (eff : QoS)
    (retain : Bool) (w : Work Ctx) : ∃ new, (enqueue P conns k topic payload eff retain w).2 = new ++ w.2 ∧
      ∀ a ∈ new, a.slot = some k ∨ a.slot = none := by
  unfold enqueue
  split
  · exact ⟨[_], rfl, by simp [Act.slot]⟩
  split
  · exact ⟨[_], rfl, by simp [Act.slot]⟩
  dsimp only
  obtain ⟨note, hnote, hslots⟩ : ∃ note, checkAssign [(P.T.maxTopicLen, topic), (P.T.maxPayloadLen, payload)] w.2 =
      note ++ w.2 ∧ ∀ a ∈ note, a.slot = none := by
    unfold checkAssign
    split
    · exact ⟨[.truncated], rfl, by simp [Act.slot]⟩
    · exact ⟨[], rfl, by simp⟩
  rw [hnote]
  have hqueued : ∀ a ∈ .enqueue k w.1.nextSeq topic payload eff retain :: note, a.slot = some k ∨ a.slot = none :=
    List.forall_mem_cons.2 ⟨.inl rfl, fun a ha => .inr (hslots a ha)⟩
  split
  · obtain ⟨-, new, hnew, hpumped, -⟩ := pumpSession_works P conns k ({ w.1 with
      pending := w.1.pending ++ [outMsg P.T w.1 topic payload eff retain], nextSeq := w.1.nextSeq + 1 },
      .enqueue k w.1.nextSeq topic payload eff retain :: (note ++ w.2))
    exact ⟨new ++ .enqueue k w.1.nextSeq topic payload eff retain :: note, by rw [hnew, List.append_assoc]; rfl,
      List.forall_mem_append.2 ⟨fun a ha => .inl (hpumped a ha).1, hqueued⟩⟩
  · exact ⟨_, rfl, hqueued⟩

/-- **Giving the session `s` in slot `k` a message is about that slot**, and its connection. -/
theorem GivenTo.apart {σ' : Broker Ctx} (h : GivenTo P topic payload k s σ eff σ') :
    ∃ new, σ'.trace = new ++ σ.trace ∧ (∀ a ∈ new, a.slot = some k ∨ a.slot = none) ∧
      (∀ j, j ≠ k → σ'.sessions.slot j = σ.sessions.slot j) ∧ ∀ ci, ci ≠ s.conn → σ'.conns ci = σ.conns ci := by
  cases h with
  | live hup =>
    rw [(connIndex_of_online hup).1]
    have hcases := sendTo_cases P (tagOf k s none) s.conn
      (buildPublish P.T.outSize topic payload .atMostOnce false false 0) σ
    generalize σ.sendTo P (tagOf k s none) s.conn _ = σ' at hcases ⊢
    cases hcases with
    | down => exact ⟨[], rfl, by simp, fun _ _ => rfl, fun _ _ => rfl⟩
    | unbuilt | taken => exact ⟨[_], rfl, by simp [Act.slot, tagOf], fun _ _ => rfl, fun _ _ => rfl⟩
    | refused =>
      refine ⟨[_, _, _], rfl, by simp [Act.slot, tagOf], fun _ _ => rfl, fun ci hne => ?_⟩
      rw [setDead_conns, if_neg hne]
      rfl
  | offline | gone => exact ⟨[], rfl, by simp, fun _ _ => rfl, fun _ _ => rfl⟩
  | queued =>
    unfold Broker.onSession
    split
    · exact ⟨[], rfl, by simp, fun _ _ => rfl, fun _ _ => rfl⟩
    · rename_i s' _
      obtain ⟨new, hnew, hslots⟩ := enqueue_slots P σ.conns k topic payload eff false (s', σ.trace)
      exact ⟨new, hnew, hslots, fun j hj => Function.update_of_ne hj _ _, fun _ _ => rfl⟩

/-- **The visit of another slot.**  Its session has another connection. -/
theorem routeOne_passesBy (hL : Linked P out σ) {j : Nat} (hne : j ≠ k) :
    ∃ acts, PassesBy P k σ (σ.routeOne P topic payload qos j) acts := by
  have hcases := routeOne_cases P topic payload qos σ j
  generalize σ.routeOne P topic payload qos j = σ' at hcases ⊢
  cases hcases with
  | vacant => exact ⟨[], rfl, by simp, rfl, fun _ _ => rfl⟩
  | unmatched => exact ⟨[_], rfl, by simp [Act.slot, hne], rfl, fun _ _ => rfl⟩
  | denied => exact ⟨[_, _], rfl, by simp [Act.slot, hne], rfl, fun _ _ => rfl⟩
  | @allowed s eff _ hs _ _ _ hgiven =>
    obtain ⟨new, hnew, hslots, hsame, hothers⟩ := hgiven.apart
    refine ⟨new ++ [.routed j topic payload eff, .matching j (s.subs.map Subscription.filter) topic],
      by rw [hnew, List.append_assoc]; rfl, fun a ha => ?_, hsame k (Ne.symm hne), fun sk hsk => ?_⟩
    · rcases List.mem_append.1 ha with ha | ha
      · rcases hslots a ha with h | h <;> simp [h, hne]
      · simp only [List.mem_cons, List.not_mem_nil, or_false] at ha
        rcases ha with rfl | rfl <;> simp [Act.slot, hne]
    · refine online_of_same fun hon => hothers _ fun hconn => hne ?_
      have hk := (hL.of_session k sk hsk hon).2
      rw [hconn, (hL.of_session j s hs (hconn ▸ hon)).2] at hk
      exact hk

theorem Linked.emit (hL : Linked P out σ) (a : Act Ctx) : Linked P out (σ.emit a) :=
  hL.congr rfl rfl fun _ => ⟨rfl, rfl⟩

theorem Linked.routeOne (hL : Linked P out σ) (hfits : TopicFits P.T topic) (hbody : BodyFits P.T topic payload qos)
    (j : Nat) : Linked P out (σ.routeOne P topic payload qos j) :=
  hL.quiet (quiet_routeOne (fun _ => True) hfits hbody σ j)

/-- **The visits of slots other than `k`.** -/
theorem routeLoop_passesBy (hfits : TopicFits P.T topic) (hbody : BodyFits P.T topic payload qos) :
    ∀ (l : List Nat) {σ : Broker Ctx}, Linked P out σ → k ∉ l →
      Linked P out (l.foldl (Broker.routeOne P topic payload qos) σ) ∧
      ∃ acts, PassesBy P k σ (l.foldl (Broker.routeOne P topic payload qos) σ) acts
  | [], σ, hL, _ => ⟨hL, [], rfl, by simp, rfl, fun _ _ => rfl⟩
  | j :: l, σ, hL, hnot => by
    obtain ⟨acts, hone⟩ := routeOne_passesBy hL (fun h => hnot (h ▸ List.mem_cons_self) : j ≠ k)
    obtain ⟨hL', acts', hrest⟩ := routeLoop_passesBy hfits hbody l (hL.routeOne hfits hbody j) fun h =>
        hnot (List.mem_cons_of_mem _ h)
    exact ⟨hL', acts' ++ acts, hone.trans hrest⟩

/-- The state in which `route_publish` comes to slot `k`. -/
def comesTo (P : Params Ctx) (origin : Option (Origin Ctx)) (topic payload : Bytes) (qos : QoS) (k : Nat)
    (σ : Broker Ctx) : Broker Ctx :=
  (List.range k).foldl (Broker.routeOne P topic payload qos) (σ.emit (.route origin topic payload qos))

/-- **Every slot is visited once.** -/
structure VisitOf (P : Params Ctx) (origin : Option (Origin Ctx)) (topic payload : Bytes) (qos : QoS) (k : Nat)
    (out : Option Nat) (σ : Broker Ctx) (earlier later : Trace Ctx) : Prop where
  linked : Linked P out (comesTo P origin topic payload qos k σ)
  before : PassesBy P k (σ.emit (.route origin topic payload qos)) (comesTo P origin topic payload qos k σ) earlier
  after : PassesBy P k ((comesTo P origin topic payload qos k σ).routeOne P topic payload qos k)
    (σ.routePublish P origin topic payload qos) later

theorem routePublish_visits (hL : Linked P out σ) (hfits : TopicFits P.T topic) (hbody : BodyFits P.T topic payload qos)
    (origin : Option (Origin Ctx)) (hk : k < P.T.maxSessions) :
    ∃ earlier later, VisitOf P origin topic payload qos k out σ earlier later := by
  have hL₁ := hL.emit (.route origin topic payload qos)
  obtain ⟨n, hn⟩ : ∃ n, P.T.maxSessions = k + (n + 1) := Nat.exists_eq_add_of_lt hk
  have hrange : List.range (k + (n + 1)) = List.range k ++ k :: List.range' (k + 1) n := by
    rw [List.range_eq_range', List.range_eq_range', ← List.range'_append_1, Nat.zero_add, List.range'_succ]
  obtain ⟨hL₂, earlier, hbefore⟩ := routeLoop_passesBy hfits hbody (List.range k) hL₁ (k := k) (by simp)
  obtain ⟨-, later, hafter⟩ := routeLoop_passesBy hfits hbody (List.range' (k + 1) n) (hL₂.routeOne hfits hbody k)
    (k := k) (by simp)
  refine ⟨earlier, later, hL₂, hbefore, ?_⟩
  rw [Broker.routePublish, hn, hrange, List.foldl_append, List.foldl_cons]
  exact hafter

end

/-- **A state the broker passes through**, between its calls or inside one: its course from what some calls have left,
with the tables linked, but for a session a teardown may be taking off its connection.  What calls leave is one
(`amid_run`), and so is every state in which a handler is called (`amid_arrival`, `amid_dispatch`). -/
structure Amid (P : Params Ctx) (σ : Broker Ctx) : Prop where
  course : ∃ inputs, Course P (run P inputs) σ
  linked : ∃ out, Linked P out σ

theorem amid_run (P : Params Ctx) (inputs : List Input) : Amid P (run P inputs) :=
  ⟨⟨inputs, .refl P _⟩, none, (run_stepped P inputs).sound.linked⟩

/-- So is the one in which the handler of an arriving packet is called, and the connection it came on is alive. -/
theorem amid_arrival {ci : Nat} {a : Arrival Ctx} (h : Arrives P ci a) :
    let σ := a.state.emit (.packet ci a.firstByte a.body)
    Amid P σ ∧ Linked P none σ ∧ (σ.conns ci).active = true ∧ (σ.conns ci).dead = false := by
  obtain ⟨inputs, data, nowMs, ha⟩ := h
  have harrived := (arrivals_arrived (run_stepped P inputs).sound ci data nowMs a ha).1
  have hnote : Handled P ci a.state (a.state.emit (.packet ci a.firstByte a.body)) :=
    packet_handled harrived.linked a.firstByte a.body
  exact ⟨⟨⟨inputs, harrived.course.trans hnote.toCourse⟩, none, hnote.linked⟩, hnote.linked, harrived.active,
    harrived.alive⟩

/-- **What arrives on a bound connection, its flags valid, goes to its handler in such a state.** -/
theorem amid_dispatch {ci : Nat} {a : Arrival Ctx} (h : Arrives P ci a)
    (hflags : fixedFlagsValid (packetType a.firstByte) (packetFlags a.firstByte) = true)
    {w : Nat × Session Ctx} (hof : a.state.sessionOf P (a.state.conns ci) = some w) :
    let σ := a.state.emit (.packet ci a.firstByte a.body)
    Amid P σ ∧ ((σ.conns ci).active = true ∧ (σ.conns ci).dead = false) ∧
      (a.state.onPacket P ci a.firstByte a.body).2 = σ.dispatch P ci a.firstByte a.body :=
  ⟨(amid_arrival h).1, (amid_arrival h).2.2,
    onPacket_dispatch a.body hflags (fun hno => by simp [Broker.sessionOf, hno] at hof)⟩

/-- **`route_publish` treats every live session exactly once.**  In whatever state it is called, all acts about a slot
are those of one visit; it finds the session as it was and leaves it as `Treated` says.  An empty slot is left alone. -/
theorem routePublish_treats {σ : Broker Ctx} (hσ : Amid P σ) {topic payload : Bytes} {qos : QoS}
    (hmsg : Routable P.T topic payload qos) (origin : Option (Origin Ctx)) (k : Nat) :
    let note := Act.route origin topic payload qos
    let σ' := σ.routePublish P origin topic payload qos
    (σ.sessions.slot k = none → σ'.sessions.slot k = none ∧
      ∃ acts, σ'.trace = acts ++ note :: σ.trace ∧ ∀ a ∈ acts, a.slot ≠ some k) ∧
    ∀ s, σ.sessions.slot k = some s → ∃ later acts earlier s',
      σ'.trace = later ++ acts ++ earlier ++ note :: σ.trace ∧ (∀ a ∈ later ++ earlier, a.slot ≠ some k) ∧
      σ'.sessions.slot k = some s' ∧
      Treated P topic payload qos k (online P.T σ.conns s) (earlier ++ note :: σ.trace) s acts s' := by
  obtain ⟨out, hL⟩ := hσ.linked
  have hbody : BodyFits P.T topic payload qos := Nat.le_trans hmsg.carried.2.2 (Nat.min_le_left _ _)
  refine ⟨fun hnone => ?_, fun s hs => ?_⟩
  · by_cases hk : k < P.T.maxSessions
    · obtain ⟨earlier, later, h⟩ := routePublish_visits hL hmsg.fits hbody origin hk
      have hafter := h.after
      rw [routeOne_of_none (h.before.same.trans hnone)] at hafter
      have hall := h.before.trans hafter
      exact ⟨hall.same.trans hnone, later ++ earlier, hall.trace, hall.slots⟩
    · obtain ⟨-, acts, hall⟩ := routeLoop_passesBy hmsg.fits hbody (List.range P.T.maxSessions)
        (hL.emit (.route origin topic payload qos)) (k := k) (by simpa using hk)
      exact ⟨hall.same.trans hnone, acts, hall.trace, hall.slots⟩
  · obtain ⟨earlier, later, h⟩ := routePublish_visits hL hmsg.fits hbody origin (hL.slot_lt k s hs)
    have hs₁ := h.before.same.trans hs
    obtain ⟨acts, s', hvisited⟩ := routeOne_visited hs₁ (h.linked.active_of_online hs₁) hmsg
    refine ⟨later, acts, earlier, s', ?_, ?_, h.after.same.trans hvisited.slot, ?_⟩
    · rw [h.after.trace, hvisited.trace, h.before.trace]
      simp [Broker.emit]
    · exact fun a ha => (List.mem_append.1 ha).elim (h.after.slots a) (h.before.slots a)
    · have htreated := hvisited.treated
      rw [h.before.live s hs, h.before.trace] at htreated
      exact htreated

/-- A subscriber with two filters that match, granted QoS 1 and 0, and a message at QoS 2. -/
theorem routePublish_treats_overlap : let P := bed (fun _ _ _ => true)
    let σ := run P (Input.connect 0 [99] {} ++ [.feed 0 (Wire.makeSubscribe 1 [([97], 1), ([35], 0)])])
    ∃ s later acts earlier s', σ.sessions.slot 0 = some s ∧
      (σ.routePublish P none [97] [7] .exactlyOnce).trace
        = later ++ acts ++ earlier ++ .route none [97] [7] .exactlyOnce :: σ.trace ∧
      Treated P [97] [7] .exactlyOnce 0 (online P.T σ.conns s)
        (earlier ++ .route none [97] [7] .exactlyOnce :: σ.trace) s acts s' := by
  intro P σ
  have hσ : Amid P σ := amid_run P _
  have hmsg : Routable P.T [97] [7] .exactlyOnce := ⟨⟨by decide +kernel, by decide⟩, by decide, by decide, by decide⟩
  have hlive : (σ.sessions.slot 0).isSome = true := by decide +kernel
  generalize σ = σ at hσ hlive
  obtain ⟨s, hs⟩ := Option.isSome_iff_exists.1 hlive
  obtain ⟨later, acts, earlier, s', htrace, -, -, htreated⟩ := (routePublish_treats hσ hmsg none 0).2 s hs
  exact ⟨s, later, acts, earlier, s', hs, htrace, htreated⟩

end Minimosq
