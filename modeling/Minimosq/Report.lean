import Minimosq.RetainedMap
import Minimosq.Route
import Minimosq.Routine
/-!
# What `Broker::publish` reports

`publish` returns one code for three limits, for the store and for routing.  A refusal leaves everything as it was.  An
accepted message is put in the store and routed, and the code says which of the two fell short: what the store has
afterwards is the message (`applyRetain_reports`), until the will of a connection torn down meanwhile takes its topic
(`flushDead_stillKept`), and a visit of `route_publish` skips its session for the size of the message exactly when no
PUBLISH can carry it (`routeOne_skips`).
-/
namespace Minimosq

variable {Ctx : Type} {P : Params Ctx}

/-! ## The store -/

/-- What a retained message leaves under its topic, if it can be stored. -/
def kept (m : Entry) : Option Entry := if m.payload = [] then none else some m

theorem BoundedMap.set_own (T : Traits) (m : Entry) (f : Bytes → Option Entry) :
    (set T m f).1 = .stored ∧ (set T m f).2 m.topic = some m ∨
      (set T m f).1 ≠ .stored ∧ (set T m f).2 m.topic = none := by
  unfold set
  split
  · refine .inr ⟨?_, Function.update_self ..⟩
    dsimp only
    split <;> simp
  · split
    · exact .inl ⟨rfl, Function.update_self ..⟩
    · rename_i hroom
      have hnone : f m.topic = none := by
        by_contra hsome
        exact hroom (.inl hsome)
      exact .inr ⟨by simp, hnone⟩

section
variable {σ : Broker Ctx} {f : Bytes → Option Entry}

/-- **`apply_retain` says whether the store now has the message.** -/
theorem applyRetain_reports (h : Represents P.T σ.retained f) (origin : Option (Origin Ctx)) (m : Entry) :
    let r := σ.applyRetain P origin m.topic m.payload m.qos
    r.1 = true ∧ contents P.T r.2.retained m.topic = kept m ∨
      r.1 = false ∧ m.payload ≠ [] ∧ contents P.T r.2.retained m.topic = none := by
  obtain ⟨evs, heq, -⟩ := applyRetain_eq P origin m.topic m.payload m.qos σ
  have hstore : contents P.T (σ.applyRetain P origin m.topic m.payload m.qos).2.retained =
      BoundedMap.retain P.T m f := by
    rw [heq]
    exact (h.applied m).contents
  dsimp only
  rw [hstore, BoundedMap.retain, kept]
  by_cases hempty : m.payload = []
  · refine .inl ⟨?_, ?_⟩
    · simp [Broker.applyRetain, hempty]
    · rw [if_pos hempty, if_pos hempty, Function.update_self]
  · have hstatus : (σ.applyRetain P origin m.topic m.payload m.qos).1 = ((BoundedMap.set P.T m f).1 == .stored) := by
      rw [← (h.set m).1, Broker.applyRetain, if_neg (by simpa using hempty)]
      dsimp only
      cases (Retained.set P.T m.topic m.payload m.qos σ.retained).1 <;> rfl
    rw [if_neg hempty, if_neg hempty, hstatus]
    refine (BoundedMap.set_own P.T m f).imp (fun hs => ⟨?_, hs.2⟩) (fun hs => ⟨?_, hempty, hs.2⟩)
    · simp [hs.1]
    · simpa using hs.1

end

/-! ## Routing leaves the store alone -/

theorem routeOne_retained (topic payload : Bytes) (qos : QoS) (σ : Broker Ctx) (k : Nat) :
    (σ.routeOne P topic payload qos k).retained = σ.retained := by
  have hsend : ∀ (σ : Broker Ctx) tag ci pkt, (σ.sendTo P tag ci pkt).retained = σ.retained := by
    intro σ tag ci pkt
    have hcases := sendTo_cases P tag ci pkt σ
    generalize σ.sendTo P tag ci pkt = σ' at hcases ⊢
    cases hcases <;> rfl
  have hwork : ∀ (σ : Broker Ctx) f, (σ.onSession k f).retained = σ.retained := by
    intro σ f
    unfold Broker.onSession
    split <;> rfl
  have hcases := routeOne_cases P topic payload qos σ k
  generalize σ.routeOne P topic payload qos k = σ' at hcases ⊢
  cases hcases with
  | vacant | unmatched | denied => rfl
  | allowed _ _ _ _ hgiven =>
    cases hgiven with
    | live => exact hsend ..
    | queued => exact hwork ..
    | offline | gone => rfl

theorem routePublish_retained (origin : Option (Origin Ctx)) (topic payload : Bytes) (qos : QoS) (σ : Broker Ctx) :
    (σ.routePublish P origin topic payload qos).retained = σ.retained := by
  have hloop : ∀ (l : List Nat) (σ : Broker Ctx),
      (l.foldl (Broker.routeOne P topic payload qos) σ).retained = σ.retained := by
    intro l
    induction l with
    | nil => exact fun _ => rfl
    | cons k l ih => exact fun σ => (ih _).trans (routeOne_retained topic payload qos σ k)
  exact hloop _ _

/-! ## Wills -/

/-- **Since the trace was `t`, the store has `o` under `topic`**; or the will of a connection torn down since then was
to be retained there, and what the store has is that, or nothing. -/
structure StillKept (P : Params Ctx) (t : Trace Ctx) (topic : Bytes) (o : Option Entry) (σ : Broker Ctx) : Prop where
  represents : ∃ f, Represents P.T σ.retained f
  holds : ∃ new, σ.trace = new ++ t ∧ (contents P.T σ.retained topic = o ∨
    ∃ k ci ctx payload qos, .submit k ci ctx topic payload qos true true ∈ new ∧
      (contents P.T σ.retained topic = none ∨ contents P.T σ.retained topic = some ⟨topic, payload, qos⟩))

section
variable {σ σ' : Broker Ctx} {t : Trace Ctx} {topic : Bytes} {o : Option Entry}

theorem StillKept.same (h : StillKept P t topic o σ) (hret : σ'.retained = σ.retained) (htrace : σ.trace <:+ σ'.trace) :
    StillKept P t topic o σ' := by
  obtain ⟨new, hnew, hholds⟩ := h.holds
  obtain ⟨acts, hacts⟩ := htrace
  refine ⟨by rw [hret]; exact h.represents, acts ++ new, by rw [← hacts, hnew, List.append_assoc], ?_⟩
  rw [hret]
  refine hholds.imp_right (fun hwill => ?_)
  obtain ⟨k, ci, ctx, payload, qos, hin, hthere⟩ := hwill
  exact ⟨k, ci, ctx, payload, qos, List.mem_append_right _ hin, hthere⟩

/-- A will that has just been submitted is retained. -/
theorem StillKept.retain (h : StillKept P t topic o σ) {k ci : Nat} {ctx : Ctx} {m : Entry} {older : Trace Ctx}
    (hsubmit : σ.trace = .submit k ci ctx m.topic m.payload m.qos true true :: older) (ht : t <:+ older)
    (origin : Option (Origin Ctx)) : StillKept P t topic o (σ.applyRetain P origin m.topic m.payload m.qos).2 := by
  obtain ⟨f, hf⟩ := h.represents
  obtain ⟨new, hnew, hholds⟩ := h.holds
  obtain ⟨acts, hacts, -⟩ := (lasting_applyRetain (P := P) origin m.topic m.payload m.qos σ).acts
  obtain ⟨evs, heq, -⟩ := applyRetain_eq P origin m.topic m.payload m.qos σ
  have hrep : Represents P.T (σ.applyRetain P origin m.topic m.payload m.qos).2.retained
      (BoundedMap.retain P.T m f) := by
    rw [heq]
    exact hf.applied m
  refine ⟨⟨_, hrep⟩, acts ++ new, by rw [hacts, hnew, List.append_assoc], ?_⟩
  rw [hrep.contents]
  by_cases htopic : topic = m.topic
  · -- the will has this topic, and its note is among the new ones
    subst htopic
    have hin : Act.submit k ci ctx m.topic m.payload m.qos true true ∈ new := by
      obtain ⟨between, rfl⟩ := ht
      rw [hsubmit, ← List.cons_append] at hnew
      rw [← List.append_cancel_right hnew]
      exact List.mem_cons_self
    refine .inr ⟨k, ci, ctx, m.payload, m.qos, List.mem_append_right _ hin, ?_⟩
    cases hown : BoundedMap.retain P.T m f m.topic with
    | none => exact .inl rfl
    | some e => exact .inr (congrArg some (BoundedMap.retain_own hown))
  · rw [BoundedMap.retain_other htopic, ← hf.contents]
    refine hholds.imp_right (fun hwill => ?_)
    obtain ⟨k, ci, ctx, payload, qos, hin, hthere⟩ := hwill
    exact ⟨k, ci, ctx, payload, qos, List.mem_append_right _ hin, hthere⟩

theorem StillKept.submitWill (h : StillKept P t topic o σ) (k ci : Nat) (s : Session Ctx) :
    StillKept P t topic o (σ.submitWill P k ci s) := by
  have hroute : ∀ {σ : Broker Ctx} origin topic' payload qos, StillKept P t topic o σ →
      StillKept P t topic o (σ.routePublish P origin topic' payload qos) := fun origin topic' payload qos hσ =>
    hσ.same (routePublish_retained ..) (lasting_routePublish ..).acts.suffix
  simp only [Broker.submitWill]
  set σ₁ := σ.setSession k { s with hasWill := false }
  have h₁ : StillKept P t topic o σ₁ := h.same rfl (List.suffix_refl _)
  have ht : t <:+ σ₁.trace := by
    obtain ⟨new, hnew, -⟩ := h₁.holds
    exact ⟨new, hnew.symm⟩
  split
  · rename_i hallowed
    rw [hallowed]
    cases s.willRetain with
    | true =>
      have hnoted : StillKept P t topic o
          (σ₁.emit (.submit k ci s.authCtx s.willTopic s.willPayload s.willQos true true)) :=
        h₁.same rfl (List.suffix_cons ..)
      exact hroute _ _ _ _ (hnoted.retain (m := ⟨s.willTopic, s.willPayload, s.willQos⟩) rfl ht _)
    | false => exact hroute _ _ _ _ (h₁.same rfl (List.suffix_cons ..))
  · exact h₁.same rfl (List.suffix_cons ..)

theorem StillKept.teardown (h : StillKept P t topic o σ) (ci : Nat) : StillKept P t topic o (σ.teardown P ci) :=
  TeardownKeeps.teardown (I := StillKept P t topic o) {
    off := fun _ _ _ _ h => h.same rfl ⟨[_, _], rfl⟩
    will := fun k ci s _ h => h.submitWill k ci s
    release := fun _ h => h.same rfl (List.suffix_cons ..)
    close := fun _ h => h.same rfl (List.suffix_cons ..) } (h.same rfl (List.suffix_cons ..))

theorem flushDead_stillKept (h : StillKept P t topic o σ) : StillKept P t topic o (σ.flushDead P) :=
  flushLoop_keeps (fun _ i hσ => hσ.teardown i) _ h

end

/-! ## Routing an accepted message -/

/-- The length of the body of a PUBLISH with this message. -/
def publishLen (topic payload : Bytes) (qos : QoS) : Nat :=
  2 + topic.length + (if qos == .atMostOnce then 0 else 2) + payload.length

/-- `publish` accepts the message. -/
structure Accepts (T : Traits) (topic payload : Bytes) (qos : QoS) : Prop where
  valid : topicNameValid topic = true
  stored : topic.length ≤ T.maxTopicLen
  body : publishLen topic payload qos ≤ T.outSize - packetOverhead

/-- A payload that no queue can take, for a message that is to be queued. -/
def TooLong (T : Traits) (payload : Bytes) (qos : QoS) : Prop := qos ≠ .atMostOnce ∧ T.maxPayloadLen < payload.length

/-- The state in which an accepted message is routed: it has been put in the store, if it is to be retained. -/
def applied (P : Params Ctx) (topic payload : Bytes) (qos : QoS) (retain : Bool) (σ : Broker Ctx) : Broker Ctx :=
  if retain then ((σ.emit (.application topic payload qos retain)).applyRetain P none topic payload qos).2
  else σ.emit (.application topic payload qos retain)

/-- What `act`, done for the session `s` with a message routed to it at QoS `eff`, comes to: a report that the message
is too long, nothing at all because no PUBLISH could be built, or an entry of the queue that no PUBLISH will carry. -/
def Act.Spurns (P : Params Ctx) (k : Nat) (s : Session Ctx) (topic payload : Bytes) (eff : QoS) (act : Act Ctx) :
    Prop :=
  act = .event (dropEvent s topic eff .oversize) (some k) ∨ act = .unbuilt (some k) ∨
    act = .enqueue k s.nextSeq topic payload eff false ∧ ¬ PublishFits P.T.outSize topic payload eff

/-- **The visit of `s` that leaves `acts` skips it for the size of the message.** -/
def SkipsForSize (P : Params Ctx) (k : Nat) (s : Session Ctx) (topic payload : Bytes) (acts : Trace Ctx) : Prop :=
  ∃ later act eff, acts = later ++ [act, .routed k topic payload eff,
    .matching k (s.subs.map Subscription.filter) topic] ∧ act.Spurns P k s topic payload eff

/-- A message at QoS `eff` is to be sent to the live connection of `s`, or put into a queue that has room. -/
def Session.Gets (T : Traits) (s : Session Ctx) (up : Bool) (eff : QoS) : Prop :=
  eff = .atMostOnce ∧ up = true ∨
    eff ≠ .atMostOnce ∧ (up = true ∨ s.cleanSession = false) ∧ s.pending.length ≠ T.maxPendingPerSession

/-- **No PUBLISH can carry the message to the session `s` in slot `k`, which is to get it**: it matches a filter of the
session, the policy, asked with the trace `t`, lets it pass, and at the effective QoS the session gets it. -/
def TooBig (P : Params Ctx) (topic payload : Bytes) (qos : QoS) (k : Nat) (up : Bool) (t : Trace Ctx)
    (s : Session Ctx) : Prop :=
  matchingSubs s.subs topic ≠ [] ∧
    P.sec.authorizeReceive (.matching k (s.subs.map Subscription.filter) topic :: t) s.authCtx topic = true ∧
    ∃ eff, IsEffective qos s.subs topic eff ∧ ¬ PublishFits P.T.outSize topic payload eff ∧ s.Gets P.T up eff

section
variable {σ : Broker Ctx} {topic payload : Bytes} {qos : QoS} {retain : Bool}

theorem Accepts.topicFits {T : Traits} (h : Accepts T topic payload qos) : TopicFits T topic := ⟨h.valid, h.stored⟩

theorem publishBody_length (topic payload : Bytes) (qos : QoS) :
    (publishBody topic payload qos 0).length = publishLen topic payload qos := by
  have hu16 : ∀ n, (u16Bytes n).length = 2 := fun _ => rfl
  simp only [publishBody, publishLen, idField, List.length_append, hu16]
  cases qos <;> rfl

theorem Accepts.bodyFits (h : Accepts P.T topic payload qos) : BodyFits P.T topic payload qos := by
  rw [BodyFits, publishBody_length]
  exact h.body

/-- A PUBLISH carries it, if a Remaining Length can say how long it is. -/
theorem Accepts.routable (h : Accepts P.T topic payload qos)
    (hlen : publishLen topic payload qos ≤ maxRemainingLength) : Routable P.T topic payload qos := by
  refine ⟨h.topicFits, (Nat.le_add_right _ _).trans (outSize_ge P.T), h.topicFits.carried, ?_⟩
  rw [publishBody_length]
  exact Nat.le_min.2 ⟨h.body, hlen⟩

theorem applied_sessions (P : Params Ctx) (σ : Broker Ctx) :
    (applied P topic payload qos retain σ).sessions = σ.sessions := by
  unfold applied
  split
  · obtain ⟨evs, heq, -⟩ := applyRetain_eq P none topic payload qos (σ.emit (.application topic payload qos retain))
    rw [heq]
    rfl
  · rfl

theorem applied_quiet (h : Accepts P.T topic payload qos) (retain : Bool) (σ : Broker Ctx) :
    Quiet P (fun _ => False) σ (applied P topic payload qos retain σ) := by
  obtain ⟨hnote, hmay⟩ := quiet_application (P := P) topic payload qos retain σ
  unfold applied
  split
  · exact hnote.trans (quiet_applyRetain _ hmay h.topicFits)
  · exact hnote

theorem IsEffective.unique {subs : List Subscription} {eff eff' : QoS} (h : IsEffective qos subs topic eff)
    (h' : IsEffective qos subs topic eff') : eff' = eff := by
  rw [IsEffective] at h h'
  rw [← h] at h'
  cases eff <;> cases eff' <;> simp [QoS.toNat] at h' ⊢

section
variable {k : Nat} {s : Session Ctx}

/-- The act after the note of routing decides. -/
theorem skipsForSize_iff {new : Trace Ctx} {eff : QoS} : SkipsForSize P k s topic payload
      (new ++ [.routed k topic payload eff, .matching k (s.subs.map Subscription.filter) topic]) ↔
      ∃ act ∈ new.getLast?, act.Spurns P k s topic payload eff := by
  constructor
  · rintro ⟨later, act, eff', he, hspurns⟩
    rw [List.append_cons later act] at he
    obtain ⟨rfl, htail⟩ := List.append_inj' he rfl
    cases htail
    exact ⟨act, by simp, hspurns⟩
  · rintro ⟨act, hlast, hspurns⟩
    obtain ⟨later, rfl⟩ := List.getLast?_eq_some_iff.1 hlast
    exact ⟨later, act, eff, by simp, hspurns⟩

/-- **A session given a message is spurned exactly when it gets one that no PUBLISH carries.** -/
theorem GivenTo.spurns {eff : QoS} {σ' : Broker Ctx} (h : GivenTo P topic payload k s σ eff σ')
    (hs : σ.sessions.slot k = some s) (hact : online P.T σ.conns s = true → (σ.conns s.conn).active = true)
    (htopic : topic.length ≤ P.T.maxTopicLen) (hpayload : eff ≠ .atMostOnce → payload.length ≤ P.T.maxPayloadLen) :
    ∃ new, σ'.trace = new ++ σ.trace ∧ ((∃ act ∈ new.getLast?, act.Spurns P k s topic payload eff) ↔
      ¬ PublishFits P.T.outSize topic payload eff ∧ s.Gets P.T (online P.T σ.conns s) eff) := by
  cases h with
  | live hup =>
    obtain ⟨hidx, hlt, -, hdead⟩ := connIndex_of_online hup
    have hgets : s.Gets P.T (online P.T σ.conns s) .atMostOnce := .inl ⟨rfl, hup⟩
    rw [hidx]
    have hsent := sendTo_cases P (tagOf k s none) s.conn
      (buildPublish P.T.outSize topic payload .atMostOnce false false 0) σ
    generalize σ.sendTo P (tagOf k s none) s.conn _ = σ' at hsent ⊢
    cases hsent with
    | down hdown => simp [hact hup, hdead, Nat.not_le.2 hlt] at hdown
    | unbuilt _ _ hnil =>
      have hno : ¬ PublishFits P.T.outSize topic payload .atMostOnce := fun hfits =>
        buildPublish_ne_nil_iff.2 hfits hnil
      exact ⟨[_], rfl, fun _ => ⟨hno, hgets⟩, fun _ => ⟨_, rfl, .inr (.inl rfl)⟩⟩
    | taken _ _ hpkt => exact ⟨[_], rfl, by simp [Act.Spurns, buildPublish_ne_nil_iff.1 hpkt]⟩
    | refused _ _ hpkt => exact ⟨[_, _, _], rfl, by simp [Act.Spurns, buildPublish_ne_nil_iff.1 hpkt]⟩
  | offline hup => exact ⟨[], rfl, by simp [Session.Gets, hup]⟩
  | gone hzero hup hclean => exact ⟨[], rfl, by simp [Session.Gets, hup, hclean, hzero]⟩
  | queued hzero hkept =>
    have hpayload := hpayload hzero
    rw [Broker.onSession, hs]
    dsimp only
    unfold enqueue
    rw [if_neg (Nat.not_lt.2 hpayload), checkAssign_of_fits (by simpa using ⟨htopic, hpayload⟩)]
    dsimp only
    by_cases hfull : s.pending.length = P.T.maxPendingPerSession
    · rw [if_pos (by simpa using hfull)]
      exact ⟨[_], rfl, by simp [Act.Spurns, Session.Gets, hzero, hfull, dropEvent]⟩
    · rw [if_neg (by simpa using hfull)]
      have hgets : s.Gets P.T (online P.T σ.conns s) eff := .inr ⟨hzero, hkept, hfull⟩
      split
      · obtain ⟨pump, hpump, -⟩ := pumping_pumpSession (P := P) σ.conns k ({ s with
          pending := s.pending ++ [outMsg P.T s topic payload eff false], nextSeq := s.nextSeq + 1 },
          .enqueue k s.nextSeq topic payload eff false :: σ.trace)
        exact ⟨pump ++ [.enqueue k s.nextSeq topic payload eff false], hpump.trans (List.append_cons ..),
          by simp [Act.Spurns, hgets]⟩
      · exact ⟨[_], rfl, by simp [Act.Spurns, hgets]⟩

/-- **A visit skips its session for the size of the message exactly when it is too big.** -/
theorem routeOne_skips (haccepts : Accepts P.T topic payload qos) (hsize : ¬ TooLong P.T payload qos)
    (hs : σ.sessions.slot k = some s) (hact : online P.T σ.conns s = true → (σ.conns s.conn).active = true) :
    ∃ acts, (σ.routeOne P topic payload qos k).trace = acts ++ σ.trace ∧
      (SkipsForSize P k s topic payload acts ↔ TooBig P topic payload qos k (online P.T σ.conns s) σ.trace s) := by
  have hcases := routeOne_cases P topic payload qos σ k
  generalize σ.routeOne P topic payload qos k = σ' at hcases ⊢
  cases hcases with
  | vacant hnone => exact absurd (hs.symm.trans hnone) (by simp)
  | unmatched hs' hno =>
    cases hs.symm.trans hs'
    have hnone : matchingSubs s.subs topic = [] := by
      simpa using (grantedMax_any s.subs topic).not.1 (by simpa using hno)
    refine ⟨[_], rfl, fun hskips => ?_, fun hbig => absurd hnone hbig.1⟩
    obtain ⟨later, act, eff, he, -⟩ := hskips
    simpa using congrArg List.length he
  | denied hs' hyes hdeny =>
    cases hs.symm.trans hs'
    refine ⟨[_, _], rfl, fun hskips => ?_, fun hbig => absurd hbig.2.1 (by simp [hdeny])⟩
    obtain ⟨later, act, eff, he, -⟩ := hskips
    simpa using congrArg List.length he
  | @allowed _ eff _ hs' hyes hask heff hgiven =>
    cases hs.symm.trans hs'
    have hle : eff.toNat ≤ qos.toNat := by rw [heff, qosMin_toNat]; omega
    have hsome := (grantedMax_any s.subs topic).1 hyes
    have heff : IsEffective qos s.subs topic eff := heff ▸ grantedMax_effective qos s.subs topic
    obtain ⟨new, htrace, hspurns⟩ := hgiven.spurns hs hact haccepts.stored (fun hne => Nat.not_lt.1 fun hlong =>
      hsize ⟨fun hzero => hne (by rw [hzero] at hle; cases eff <;> simp [QoS.toNat] at hle ⊢), hlong⟩)
    refine ⟨new ++ [_, _], by rw [htrace, List.append_assoc]; rfl, skipsForSize_iff.trans (hspurns.trans ?_)⟩
    refine ⟨fun h => ⟨hsome, hask, eff, heff, h⟩, ?_⟩
    rintro ⟨-, -, eff', heff', h⟩
    rwa [heff.unique heff'] at h

end

/-- **The session `s` in slot `k` is visited once when `σ` routes the message**, and is skipped for its size exactly
when the message is too big for it; which it is not if a Remaining Length can say how long the PUBLISH is. -/
def Served (P : Params Ctx) (topic payload : Bytes) (qos : QoS) (σ : Broker Ctx) (k : Nat) (s : Session Ctx) : Prop :=
  let σ' := σ.routePublish P none topic payload qos
  let t := (comesTo P none topic payload qos k σ).trace
  ∃ later acts earlier, t = earlier ++ .route none topic payload qos :: σ.trace ∧ σ'.trace = later ++ acts ++ t ∧
    (∀ a ∈ later ++ earlier, a.slot ≠ some k) ∧
    (SkipsForSize P k s topic payload acts ↔ TooBig P topic payload qos k (online P.T σ.conns s) t s) ∧
    (publishLen topic payload qos ≤ maxRemainingLength →
      ¬ TooBig P topic payload qos k (online P.T σ.conns s) t s ∧
        ∃ s', σ'.sessions.slot k = some s' ∧ Treated P topic payload qos k (online P.T σ.conns s) t s acts s')

theorem applied_serves (hL : Linked P none σ) (h : Accepts P.T topic payload qos) (hsize : ¬ TooLong P.T payload qos)
    {k : Nat} {s : Session Ctx} (hs : σ.sessions.slot k = some s) :
    Served P topic payload qos (applied P topic payload qos retain σ) k s := by
  have hL₁ : Linked P none (applied P topic payload qos retain σ) := hL.quiet (applied_quiet h retain σ)
  have hs₁ : (applied P topic payload qos retain σ).sessions.slot k = some s := by
    rw [applied_sessions]
    exact hs
  generalize applied P topic payload qos retain σ = σ₁ at hL₁ hs₁
  obtain ⟨earlier, later, hv⟩ := routePublish_visits hL₁ h.topicFits h.bodyFits none (hL.slot_lt k s hs)
  have hs₂ := hv.before.same.trans hs₁
  have hup : online P.T (comesTo P none topic payload qos k σ₁).conns s = online P.T σ₁.conns s := hv.before.live s hs₁
  have hact := hv.linked.active_of_online hs₂
  obtain ⟨acts, htrace, hskips⟩ := routeOne_skips h hsize hs₂ hact
  rw [hup] at hskips
  refine ⟨later, acts, earlier, hv.before.trace, by rw [hv.after.trace, htrace, List.append_assoc],
    fun a ha => (List.mem_append.1 ha).elim (hv.after.slots a) (hv.before.slots a), hskips, fun hlen => ?_⟩
  have hmsg := h.routable hlen
  refine ⟨?_, ?_⟩
  · rintro ⟨-, -, eff, heff, hno, -⟩
    exact hno (hmsg.carried.lower (by rw [heff]; exact Nat.min_le_left _ _))
  · obtain ⟨acts', s', hvisited⟩ := routeOne_visited hs₂ hact hmsg
    have htreated := hvisited.treated
    rw [hup, ← List.append_cancel_right (htrace.symm.trans hvisited.trace)] at htreated
    exact ⟨s', hv.after.same.trans hvisited.slot, htreated⟩

/-- What becomes of the store's entry while the message is routed and connections are torn down. -/
theorem applied_stillKept {f : Bytes → Option Entry}
    (hrep : Represents P.T (applied P topic payload qos retain σ).retained f) :
    StillKept P (applied P topic payload qos retain σ).trace topic
      (contents P.T (applied P topic payload qos retain σ).retained topic)
      (((applied P topic payload qos retain σ).routePublish P none topic payload qos).flushDead P) := by
  have hnow : StillKept P (applied P topic payload qos retain σ).trace topic
      (contents P.T (applied P topic payload qos retain σ).retained topic) (applied P topic payload qos retain σ) :=
    ⟨⟨f, hrep⟩, [], rfl, .inl rfl⟩
  exact flushDead_stillKept (hnow.same (routePublish_retained ..) (lasting_routePublish ..).acts.suffix)

/-- **What the store has of the message**, and what is said of it. -/
theorem applied_reports {f : Bytes → Option Entry} (h : Represents P.T σ.retained f) (topic payload : Bytes)
    (qos : QoS) : let stored := ((σ.emit (.application topic payload qos true)).applyRetain P none topic payload qos).1
    (∃ f', Represents P.T (applied P topic payload qos true σ).retained f') ∧
      (stored = true ∧ contents P.T (applied P topic payload qos true σ).retained topic = kept ⟨topic, payload, qos⟩ ∨
        stored = false ∧ payload ≠ [] ∧ contents P.T (applied P topic payload qos true σ).retained topic = none) := by
  intro stored
  have h₁ : Represents P.T (σ.emit (.application topic payload qos true)).retained f := h
  obtain ⟨evs, heq, -⟩ := applyRetain_eq P none topic payload qos (σ.emit (.application topic payload qos true))
  have hstore : (applied P topic payload qos true σ).retained = Retained.applied P.T topic payload qos σ.retained := by
    rw [applied, if_pos rfl, heq]
    rfl
  refine ⟨⟨BoundedMap.retain P.T ⟨topic, payload, qos⟩ f, ?_⟩, applyRetain_reports h₁ none ⟨topic, payload, qos⟩⟩
  rw [hstore]
  exact h.applied ⟨topic, payload, qos⟩

/-! ## The code -/

theorem publish_of_accepts (h : Accepts P.T topic payload qos) (σ : Broker Ctx) : σ.publish P topic payload qos retain =
      (if qos != .atMostOnce && decide (P.T.maxPayloadLen < payload.length) then .oversize
        else if retain && !((σ.emit (.application topic payload qos retain)).applyRetain P none topic payload qos).1
          then .capacity else .ok,
        ((applied P topic payload qos retain σ).routePublish P none topic payload qos).flushDead P) := by
  have hbody : ¬ P.T.outSize - packetOverhead <
    2 + topic.length + (if qos == .atMostOnce then 0 else 2) + payload.length := Nat.not_lt.2 h.body
  unfold Broker.publish applied
  dsimp only
  rw [if_neg (by simp [h.valid]), if_neg (Nat.not_lt.2 h.stored), if_neg hbody]
  generalize (qos != .atMostOnce && decide (P.T.maxPayloadLen < payload.length)) = long
  cases retain with
  | false => cases long <;> rfl
  | true =>
    simp only [if_true, Bool.true_and]
    generalize (σ.emit (.application topic payload qos true)).applyRetain P none topic payload qos = r
    obtain ⟨stored, σ₁⟩ := r
    cases stored <;> cases long <;> rfl

end

/-- **`Broker::publish` reports truthfully**, in every state between calls.  A topic that is no valid name, or a message
over one of the two limits, is refused and nothing happens.  Any other is put in the store, if it is to be retained, and
routed.  The code is `oversize` when its payload is too long for the queues it is for; else `capacity` exactly when it
was to be retained and the store does not have it; else `ok`.  With `ok`, the store has it when `publish` returns,
unless the will of a connection torn down meanwhile took its topic; and a session is skipped for the size of the message
exactly when it is to get it and no PUBLISH can carry it (`Served`), which a PUBLISH whose length a Remaining Length can
say never is. -/
theorem publish_truthful (P : Params Ctx) (inputs : List Input) (topic payload : Bytes) (qos : QoS) (retain : Bool) :
    let σ := run P inputs
    let r := σ.publish P topic payload qos retain
    let σ₁ := applied P topic payload qos retain σ
    (topicNameValid topic = false → r = (.malformed, σ)) ∧
    (topicNameValid topic = true →
      P.T.maxTopicLen < topic.length ∨ P.T.outSize - packetOverhead < publishLen topic payload qos →
        r = (.oversize, σ)) ∧
    (Accepts P.T topic payload qos →
      r.2 = (σ₁.routePublish P none topic payload qos).flushDead P ∧
      (TooLong P.T payload qos → r.1 = .oversize) ∧
      (¬ TooLong P.T payload qos → (r.1 = .ok ∨ r.1 = .capacity) ∧ (r.1 = .capacity ↔
        retain = true ∧ payload ≠ [] ∧ contents P.T σ₁.retained topic ≠ some ⟨topic, payload, qos⟩)) ∧
      (r.1 = .ok → (retain = true → StillKept P σ₁.trace topic (kept ⟨topic, payload, qos⟩) r.2) ∧
        ∀ k s, σ.sessions.slot k = some s → Served P topic payload qos σ₁ k s)) := by
  intro σ r σ₁
  refine ⟨fun hinvalid => ?_, fun hvalid hover => ?_, fun haccepts => ?_⟩
  · simp [r, Broker.publish, hinvalid]
  · rcases hover with hover | hover
    · simp [r, Broker.publish, hvalid, hover]
    · have hbody : P.T.outSize - packetOverhead <
        2 + topic.length + (if qos == .atMostOnce then 0 else 2) + payload.length := hover
      by_cases htopic : P.T.maxTopicLen < topic.length
      · simp [r, Broker.publish, hvalid, htopic]
      · simp only [r, Broker.publish, hvalid, Bool.not_true, Bool.false_eq_true, if_false, if_neg htopic, if_pos hbody]
  have hL : Linked P none σ := (run_stepped P inputs).sound.linked
  have hrep : Represents P.T σ.retained (BoundedMap.ofMessages P.T (retains σ.trace)) := by
    rw [(run_books P inputs).store]
    exact storeOf_represents P.T _
  have hlong : (qos != .atMostOnce && decide (P.T.maxPayloadLen < payload.length)) = true ↔
      TooLong P.T payload qos := by
    simp [TooLong]
  have hr : r = _ := publish_of_accepts haccepts σ
  rw [hr]
  refine ⟨rfl, fun hl => if_pos (hlong.2 hl), fun hl => ?_, fun hok => ?_⟩
  · dsimp only
    rw [if_neg (hl ∘ hlong.1)]
    cases retain with
    | false => simp
    | true =>
      obtain ⟨-, ⟨hstored, hthere⟩ | ⟨hstored, hpayload, hthere⟩⟩ := applied_reports (P := P) hrep topic payload qos
      · have hkept : payload ≠ [] → contents P.T σ₁.retained topic = some ⟨topic, payload, qos⟩ := fun hne =>
          hthere.trans (if_neg hne)
        rw [hstored, if_neg (by simp)]
        refine ⟨.inl rfl, fun hcode => ?_, fun hnot => ?_⟩
        · cases hcode
        · exact absurd (hkept hnot.2.1) hnot.2.2
      · have hnone : contents P.T σ₁.retained topic = none := hthere
        rw [hstored, if_pos (by simp)]
        exact ⟨.inr rfl, fun _ => ⟨rfl, hpayload, by rw [hnone]; simp⟩, fun _ => rfl⟩
  · have hsize : ¬ TooLong P.T payload qos := fun hl => by
      rw [if_pos (hlong.2 hl)] at hok
      cases hok
    refine ⟨fun hretain => ?_, fun k s hs => applied_serves hL haccepts hsize hs⟩
    subst hretain
    rw [if_neg (hsize ∘ hlong.1)] at hok
    obtain ⟨⟨f, hf⟩, ⟨-, hthere⟩ | ⟨hstored, -⟩⟩ := applied_reports (P := P) hrep topic payload qos
    · have hstill := applied_stillKept hf
      rw [hthere] at hstill
      exact hstill
    · simp only [hstored, Bool.not_false, Bool.and_true, if_true] at hok
      cases hok

/-- A retained message for a subscriber at QoS 1. -/
theorem publish_truthful_retained : let P := bed (fun _ _ _ => true)
    let inputs := Input.connect 0 [99] {} ++ [.feed 0 (Wire.makeSubscribe 1 [([97], 1)])]
    let r := (run P inputs).publish P [97] [7] .atLeastOnce true
    let σ₁ := applied P [97] [7] .atLeastOnce true (run P inputs)
    r.1 = .ok ∧ StillKept P σ₁.trace [97] (some ⟨[97], [7], .atLeastOnce⟩) r.2 ∧
      ∃ s, (run P inputs).sessions.slot 0 = some s ∧ Served P [97] [7] .atLeastOnce σ₁ 0 s := by
  intro P inputs r σ₁
  have haccepts : Accepts P.T [97] [7] .atLeastOnce := ⟨by decide, by decide, by decide⟩
  have hok : r.1 = .ok := by decide +kernel
  have hsession : ((run P inputs).sessions.slot 0).isSome = true := by decide +kernel
  obtain ⟨s, hs⟩ := Option.isSome_iff_exists.1 hsession
  obtain ⟨-, -, -, htold⟩ := (publish_truthful P inputs [97] [7] .atLeastOnce true).2.2 haccepts
  obtain ⟨hstill, hserved⟩ := htold hok
  exact ⟨hok, hstill rfl, s, hs, hserved 0 s hs⟩

/-- A live QoS 0 subscriber for whom no PUBLISH can be built is passed over without a word. -/
theorem routeOne_unbuilt {σ : Broker Ctx} {k : Nat} {s : Session Ctx} (hs : σ.sessions.slot k = some s)
    (hgrant : grantedMax s.subs topic = (true, .atMostOnce))
    (hauth : P.sec.authorizeReceive (σ.emit (.matching k (s.subs.map Subscription.filter) topic)).trace
      s.authCtx topic = true)
    (hup : online P.T σ.conns s = true) (hact : (σ.conns s.conn).active = true)
    (hbuilt : buildPublish P.T.outSize topic payload .atMostOnce false false 0 = []) :
    σ.routeOne P topic payload .atMostOnce k =
      ((σ.emit (.matching k (s.subs.map Subscription.filter) topic)).emit
        (.routed k topic payload .atMostOnce)).emit (.unbuilt (some k)) := by
  obtain ⟨hidx, hlt, -, hdead⟩ := connIndex_of_online hup
  have hsend : ∀ τ : Broker Ctx, τ.conns = σ.conns →
      τ.sendTo P (tagOf k s none) (connIndex P.T s) [] = τ.emit (.unbuilt (some k)) := by
    intro τ hτ
    rw [hidx, Broker.sendTo, if_neg (Nat.not_le.2 hlt), hτ, hact, hdead]
    rfl
  unfold Broker.routeOne
  rw [hs]
  dsimp only
  rw [hgrant, hauth, hbuilt]
  refine Eq.trans ?_ (hsend _ rfl)
  exact if_pos hup

/-- `SmallTraits` with packets longer than a Remaining Length can say. -/
def hugeTraits : Traits := { smallTraits with maxPacketSize := 268435500 }

def hugeBed : Params Unit := ⟨hugeTraits, allowAllSecurity, fun _ _ _ => true⟩

/-- The client subscribes to `a` at QoS 0. -/
def subscribed : Broker Unit := run hugeBed (Input.connect 0 [99] {} ++ [.feed 0 (Wire.makeSubscribe 1 [([97], 0)])])

theorem subscribed_session : ∃ s, subscribed.sessions.slot 0 = some s ∧ s.subs.map Subscription.filter = [[97]] ∧
    grantedMax s.subs [97] = (true, .atMostOnce) ∧ online hugeBed.T subscribed.conns s = true ∧
    (subscribed.conns s.conn).active = true := by
  have hfacts : (subscribed.sessions.slot 0).map (fun s => (s.subs.map Subscription.filter, grantedMax s.subs [97],
      online hugeBed.T subscribed.conns s, (subscribed.conns s.conn).active)) =
      some ([[97]], (true, .atMostOnce), true, true) := by decide +kernel
  obtain ⟨s, hs, heq⟩ := Option.map_eq_some_iff.1 hfacts
  simp only [Prod.mk.injEq] at heq
  exact ⟨s, hs, heq⟩

/-- A payload of this length passes the limits of `publish`, but no PUBLISH carries it. -/
theorem publish_unbuilt {payload : Bytes} (hlen : payload.length = 268435460) :
    let r := subscribed.publish hugeBed [97] payload .atMostOnce false
    r.1 = .ok ∧ r.2.trace = [.unbuilt (some 0), .routed 0 [97] payload .atMostOnce, .matching 0 [[97]] [97],
      .route none [97] payload .atMostOnce, .application [97] payload .atMostOnce false] ++ subscribed.trace := by
  intro r
  have haccepts : Accepts hugeBed.T [97] payload .atMostOnce := by
    refine ⟨by decide, by decide, ?_⟩
    rw [publishLen, hlen]
    decide
  have hr : r = _ := publish_of_accepts haccepts subscribed
  have hnot : ¬ PublishFits hugeBed.T.outSize [97] payload .atMostOnce := by
    intro hfits
    have hle := (Nat.le_min.1 hfits.2.2).2
    simp only [publishBody, idField, List.length_append, if_pos, hlen] at hle
    exact absurd hle (by decide)
  have hbuilt : buildPublish hugeBed.T.outSize [97] payload .atMostOnce false false 0 = [] :=
    Classical.not_not.1 (fun hne => hnot (buildPublish_ne_nil_iff.1 hne))
  obtain ⟨s, hs, hsubs, hgranted, honline, hact⟩ := subscribed_session
  have halone : subscribed.sessions.slot 1 = none ∧ subscribed.sessions.slot 2 = none := by decide +kernel
  have hflushed : Flushed subscribed := (run_stepped _ _).sound.flushed
  have hnotes : subscribed.emit (.application [97] payload .atMostOnce false) =
    applied hugeBed [97] payload .atMostOnce false subscribed := rfl
  rw [hr, ← hnotes]
  generalize subscribed = σ at *
  have hvisit := routeOne_unbuilt (σ := (σ.emit (.application [97] payload .atMostOnce false)).emit
    (.route none [97] payload .atMostOnce)) hs hgranted rfl honline hact hbuilt
  rw [Broker.routePublish, show List.range hugeBed.T.maxSessions = [0, 1, 2] from rfl]
  simp only [List.foldl_cons, List.foldl_nil]
  rw [hvisit, routeOne_of_none (k := 1), routeOne_of_none (k := 2), flushDead_of_flushed, hsubs]
  · exact ⟨rfl, rfl⟩
  · exact hflushed
  · exact halone.2
  · exact halone.1

/-- **`ok` for a message that reached nobody.**  The client is online and subscribed at QoS 0.  The body of the PUBLISH
is 268435463 bytes, 37 bytes less than the limit of `publish`, and more than a Remaining Length can say: `frame_packet`
builds nothing, `send_to` sends nothing, and the code is `ok`. -/
theorem publish_ok_reaches_nobody : let payload := List.replicate 268435460 7
    let r := subscribed.publish hugeBed [97] payload .atMostOnce false
    (∃ s, subscribed.sessions.slot 0 = some s ∧ grantedMax s.subs [97] = (true, .atMostOnce) ∧
      online hugeBed.T subscribed.conns s = true) ∧
    publishLen [97] payload .atMostOnce ≤ hugeBed.T.outSize - packetOverhead ∧ r.1 = .ok ∧
    r.2.trace = [.unbuilt (some 0), .routed 0 [97] payload .atMostOnce, .matching 0 [[97]] [97],
      .route none [97] payload .atMostOnce, .application [97] payload .atMostOnce false] ++ subscribed.trace := by
  have hlen : (List.replicate 268435460 (7 : UInt8)).length = 268435460 := List.length_replicate
  generalize List.replicate 268435460 (7 : UInt8) = payload at hlen
  obtain ⟨s, hs, -, hgranted, honline, -⟩ := subscribed_session
  refine ⟨⟨s, hs, hgranted, honline⟩, ?_, publish_unbuilt hlen⟩
  rw [publishLen, hlen]
  decide

end Minimosq
