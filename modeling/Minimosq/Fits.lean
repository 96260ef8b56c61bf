import Minimosq.Pending
import Minimosq.Bed
/-!
# What is stored is valid, and what is sent is whole

The checks on texts and lengths stand in CONNECT, PUBLISH, SUBSCRIBE and `Broker::publish`; the copies, and the packets
built from them, come much later, where a copy that does not fit is silently not made and a packet that does not fit is
an empty span.  Neither happens: every text a session or the retained store holds was checked, and whatever is held or
routed fits the packet buffer.
-/
namespace Minimosq

open History (Star)

variable {Ctx : Type} {P : Params Ctx} {k : Nat}

/-! ## Packets that cannot be built -/

/-- A packet could not be built. -/
def Act.isUnbuilt : Act Ctx → Bool
  | .unbuilt _ => true
  | _ => false

section
variable {s s' : Session Ctx} {h acts : Trace Ctx} (hsize : P.T.outSize - packetOverhead ≤ maxRemainingLength)
include hsize

theorem QStep.built {i : Nat} (hok : QueueOk P.T s) (q : QStep P k i s acts s') : ∀ a ∈ acts, a.isUnbuilt = false := by
  cases q with
  | drop m e dup id hm hst hpkt =>
    have hfits := (hok.entries m (List.mem_of_getElem? hm)).fits hsize
    exact absurd hpkt (buildPublish_ne_nil_iff.2 hfits)
  | _ => simp [Act.isUnbuilt]

theorem DStep.built (hok : QueueOk P.T s) (d : DStep P k s acts s') : ∀ a ∈ acts, a.isUnbuilt = false := by
  cases d with
  | queue i hon q => exact q.built hsize hok
  | unbuilt topic payload retain htopic hbody hpkt =>
    exact absurd hpkt (buildPublish_ne_nil_iff.2 (hbody.publishFits htopic hsize))
  | _ => simp [Act.isUnbuilt]

theorem RStep.built (hok : QueueOk P.T s) (r : RStep P k h s acts s') : ∀ a ∈ acts, a.isUnbuilt = false := by
  cases r with
  | queue i hsent q => exact q.built hsize hok
  | _ => simp [Act.isUnbuilt]

/-- **No packet of a session is ever impossible to build.** -/
theorem SlotRun.built {o : Option (Session Ctx)} (run : SlotRun P k h o) : ∀ a ∈ h, a.isUnbuilt = false := by
  refine (run.rule (fun h o => (∀ s, o = some s → QueueOk P.T s) ∧ ∀ a ∈ h, a.isUnbuilt = false)
    ⟨by simp, by simp⟩ (fun h ctx clientId _ hI => ?_) (fun h s hI => ?_) (fun h s acts s' hI d => ?_)
    (fun h s acts s' hI r => ?_) (fun h s acts s' hI hacts hq => ?_)).2
  · refine ⟨fun s hs => ?_, List.forall_mem_cons.2 ⟨rfl, hI.2⟩⟩
    cases hs
    exact .fresh P.T ctx clientId
  · exact ⟨by simp, List.forall_mem_cons.2 ⟨rfl, hI.2⟩⟩
  · have hok := hI.1 s rfl
    refine ⟨fun s₁ hs₁ => ?_, List.forall_mem_append.2 ⟨d.built hsize hok, hI.2⟩⟩
    cases hs₁
    rcases d.queueSteps with q | ⟨-, topic, payload, eff, a, -, -, q⟩
    · exact hok.step q
    · exact hok.step q
  · have hok := hI.1 s rfl
    refine ⟨fun s₁ hs₁ => ?_, List.forall_mem_append.2 ⟨r.built hsize hok, hI.2⟩⟩
    cases hs₁
    exact hok.step r.queueStep
  · refine ⟨fun s₁ hs₁ => ?_, List.forall_mem_append.2 ⟨fun a ha => ?_, hI.2⟩⟩
    · cases hs₁
      exact (hI.1 s rfl).same ⟨hq.pending, hq.nextSeq⟩
    · have := hacts a ha
      cases a <;> first | rfl | cases this

theorem run_built (inputs : List Input) (slot : Option Nat) : Act.unbuilt slot ∉ (run P inputs).trace := by
  intro ha
  cases slot with
  | none => exact absurd (run_mild P inputs ha) (Nat.not_lt.2 hsize)
  | some k =>
    have hk : Act.unbuilt (some k) ∈ slotActs k (run P inputs).trace := History.mem_about.2 ⟨ha, rfl⟩
    exact absurd ((run_slot P inputs k).built hsize _ hk) (by simp [Act.isUnbuilt])

end

/-- The lower of two QoS needs no more room. -/
theorem BodyFits.qosMin {T : Traits} {topic payload : Bytes} {qos : QoS} (h : BodyFits T topic payload qos)
    (granted : QoS) : BodyFits T topic payload (qosMin granted qos) := by
  by_cases hid : Minimosq.qosMin granted qos = .atMostOnce
  · rw [hid]
    exact h.zero
  · refine Nat.le_trans ?_ h
    have hq : qos ≠ .atMostOnce := by
      rintro rfl
      exact hid (by cases granted <;> rfl)
    simp [publishBody, idField, hid, hq]

/-- **Every span handed to the transport is one whole packet, and every packet can be built.**  A message that is routed
fits at any QoS it may go out with, and so does whatever a session or the retained store holds. -/
theorem run_packets_whole (P : Params Ctx) (hsize : P.T.outSize - packetOverhead ≤ maxRemainingLength)
    (inputs : List Input) : (∀ ci pkt ok tag, Act.send ci pkt ok tag ∈ (run P inputs).trace →
      pkt ≠ [] ∧ pkt.length ≤ P.T.outSize ∧ ∃ type f body, packetType f = some type ∧ readPacket pkt = some (f, body) ∧
        decodeStream maxRemainingLength pkt = ([(f, body)], .ok)) ∧
    (∀ slot, Act.unbuilt slot ∉ (run P inputs).trace) ∧
    (∀ origin topic payload qos, Act.route origin topic payload qos ∈ (run P inputs).trace →
      ∀ granted retain dup id, buildPublish P.T.outSize topic payload (qosMin granted qos) retain dup id ≠ []) ∧
    (∀ k s, (run P inputs).sessions.slot k = some s → (∀ m ∈ s.pending, ∀ dup id, publishOf P.T m dup id ≠ []) ∧
      (s.hasWill = true → ∀ qos retain dup id,
        buildPublish P.T.outSize s.willTopic s.willPayload qos retain dup id ≠ [])) ∧
    ∀ e ∈ (run P inputs).retained.toList P.T.maxRetained, ∀ qos retain dup id,
      buildPublish P.T.outSize e.topic e.payload qos retain dup id ≠ [] := by
  have hL := (run_stepped P inputs).sound.linked
  have hstored : ∀ {topic payload : Bytes}, TopicFits P.T topic → payload.length ≤ P.T.maxPayloadLen →
      ∀ qos retain dup id, buildPublish P.T.outSize topic payload qos retain dup id ≠ [] :=
    fun htopic hpayload qos _ _ _ =>
      buildPublish_ne_nil_iff.2 ((bodyFits_of_stored htopic.stored hpayload qos).publishFits htopic hsize)
  refine ⟨fun ci pkt ok tag ha => ?_, run_built hsize inputs, fun origin topic payload qos ha granted retain dup id =>
    ?_, fun k s hs => ⟨fun m hm dup id => ?_, fun hwill => ?_⟩, fun e he => ?_⟩
  · obtain ⟨type, -, hpkt⟩ := run_mild P inputs ha
    exact ⟨hpkt.ne_nil, hpkt.length_le, type, hpkt.decode⟩
  · obtain ⟨htopic, hbody⟩ := run_mild P inputs ha
    exact buildPublish_ne_nil_iff.2 ((hbody.qosMin granted).publishFits htopic hsize)
  · obtain ⟨hok, -⟩ := (run_slot P inputs k).queue.2 s hs
    exact buildPublish_ne_nil_iff.2 ((hok.entries m hm).fits hsize)
  · obtain ⟨htopic, hpayload⟩ := hL.will k s hs hwill
    exact hstored htopic hpayload
  · obtain ⟨r, hr⟩ := mem_toList he
    exact hstored (hL.retained r e hr).topic (hL.retained r e hr).payload

/-- A payload of the longest kind, for a subscriber at QoS 1. -/
theorem packets_whole_longest : let P := bed (fun _ _ _ => true)
    let σ := run P (Input.connect 0 [99] {} ++ [.feed 0 (Wire.makeSubscribe 1 [([97], 1)]),
      .publish [97] (List.replicate 64 7) .atLeastOnce false])
    Act.send 0 (buildPublish P.T.outSize [97] (List.replicate 64 7) .atLeastOnce false false 1) true
      (some ⟨0, (), some 0⟩) ∈ σ.trace ∧
    ∀ slot, Act.unbuilt slot ∉ σ.trace :=
  ⟨by decide +kernel, (run_packets_whole (bed (fun _ _ _ => true)) (by decide) _).2.1⟩

/-! ## Texts -/

/-- The session's client id and filters are ones it can hold. -/
structure TextsFit (T : Traits) (s : Session Ctx) : Prop where
  clientId : ClientIdFits T s.clientId
  filters : ∀ sub ∈ s.subs, FilterFits T sub.filter

/-- What `topic_matches` is called on. -/
def Act.Matched (P : Params Ctx) : Act Ctx → Prop
  | .matching _ filters topic => (∀ f ∈ filters, FilterFits P.T f) ∧ TopicFits P.T topic
  | _ => True

section
variable {s s' : Session Ctx} {h acts : Trace Ctx}

theorem TextsFit.same {T : Traits} (hs : TextsFit T s) (hid : s'.clientId = s.clientId) (hsubs : s'.subs = s.subs) :
    TextsFit T s' :=
  ⟨by rw [hid]; exact hs.clientId, by rw [hsubs]; exact hs.filters⟩

theorem TextsFit.bound {T : Traits} (hs : TextsFit T s) (ci : Nat) (p : ConnectPacket) (ctx : Ctx) :
    TextsFit T (boundSession T ci p ctx s) :=
  hs.same (boundSession_fields T ci p ctx s).2.1 (boundSession_subsEq T ci p ctx s).1

theorem QStep.matched {i : Nat} (q : QStep P k i s acts s') : ∀ a ∈ acts, a.Matched P := by
  cases q <;> simp [Act.Matched]

theorem DStep.matched (hs : TextsFit P.T s) (d : DStep P k s acts s') : ∀ a ∈ acts, a.Matched P := by
  cases d with
  | queue i hon q => exact q.matched
  | matching filters topic hfilters htopic =>
    refine List.forall_mem_singleton.2 ⟨fun f hf => ?_, htopic⟩
    obtain ⟨sub, hsub, rfl⟩ := hfilters f hf
    exact hs.filters sub hsub
  | _ => simp [Act.Matched]

theorem RStep.matched (r : RStep P k h s acts s') : ∀ a ∈ acts, a.Matched P := by
  cases r with
  | queue i hsent q => exact q.matched
  | _ => simp [Act.Matched]

theorem TStep.textsFit (hs : TextsFit P.T s) (d : TStep P k h s acts s') :
    TextsFit P.T s' ∧ ∀ a ∈ acts, a.Matched P := by
  cases d with
  | deliver d => exact ⟨hs.same (Session.clientId_eq_of_frame d.frame) d.subsEq.1, d.matched hs⟩
  | subs subs cursor hacts hon hfits =>
    refine ⟨⟨hs.clientId, fun sub hsub => ?_⟩, fun a ha => ?_⟩
    · rcases hfits sub hsub with ⟨sub', hsub', he⟩ | hfit
      · rw [← he]
        exact hs.filters sub' hsub'
      · exact hfit
    · have hsub := hacts a ha
      cases a with
      | matching => cases hsub
      | _ => trivial
  | publish ci topic payload qos t ha =>
    refine ⟨hs, List.forall_mem_singleton.2 ?_⟩
    cases ha <;> trivial

/-- **The texts of a slot, at every point of its life.** -/
theorem SlotRun.textsFit {o : Option (Session Ctx)} (run : SlotRun P k h o) :
    (∀ s, o = some s → TextsFit P.T s) ∧ ∀ a ∈ h, a.Matched P := by
  have hsome : ∀ {s : Session Ctx}, TextsFit P.T s → ∀ s', some s = some s' → TextsFit P.T s' := by
    rintro s hs _ ⟨⟩
    exact hs
  refine run.inv (fun h o => (∀ s, o = some s → TextsFit P.T s) ∧ ∀ a ∈ h, a.Matched P) ?_ ⟨by simp, by simp⟩
  intro h o acts o' hI one
  cases one with
  | serve d =>
    obtain ⟨hs', hacts⟩ := d.textsFit (hI.1 _ rfl)
    exact ⟨hsome hs', List.forall_mem_append.2 ⟨hacts, hI.2⟩⟩
  | alloc ctx clientId hid =>
    refine ⟨hsome ⟨?_, by simp [freshSession]⟩, List.forall_mem_append.2 ⟨by simp [Act.Matched], hI.2⟩⟩
    rw [freshSession_clientId ctx hid]
    exact hid
  | release => exact ⟨by simp, List.forall_mem_append.2 ⟨by simp [Act.Matched], hI.2⟩⟩
  | bind ci p ctx => exact ⟨hsome ((hI.1 _ rfl).bound ci p ctx), List.forall_mem_append.2 ⟨by simp [Act.Matched], hI.2⟩⟩
  | @resume s s' new ci p ctx e up hoff hwill hclean hci hfit steps stop =>
    have hstart : ∀ a ∈ Act.event e (some k) :: .bind k ci (boundSession P.T ci p ctx s) true :: h,
        a.Matched P := List.forall_mem_cons.2 ⟨trivial, List.forall_mem_cons.2 ⟨trivial, hI.2⟩⟩
    have hturn : ∀ (h : Trace Ctx) (s : Session Ctx) acts s', (TextsFit P.T s ∧ ∀ a ∈ h, a.Matched P) →
        RStep P k h s acts s' → TextsFit P.T s' ∧ ∀ a ∈ acts ++ h, a.Matched P := fun h s acts s' hI r =>
      ⟨hI.1.same (Session.clientId_eq_of_frame r.frame) r.subsEq.1, List.forall_mem_append.2 ⟨r.matched, hI.2⟩⟩
    obtain ⟨hs', hend⟩ := steps.inv (fun h s => TextsFit P.T s ∧ ∀ a ∈ h, a.Matched P) hturn
      ⟨(hI.1 s rfl).bound ci p ctx, hstart⟩
    refine ⟨hsome hs', ?_⟩
    simpa only [List.cons_append, List.append_assoc, List.nil_append] using List.forall_mem_cons.2 ⟨trivial, hend⟩
  | detach | disconnect | submit =>
    have hs := hI.1 _ rfl
    exact ⟨hsome ⟨hs.clientId, hs.filters⟩, List.forall_mem_append.2 ⟨by simp [Act.Matched, submitNote], hI.2⟩⟩

end

/-- A copy without a note is exact. -/
theorem assign_of_checkAssign {copies : List (Nat × Bytes)} {t : Trace Ctx} (h : Act.truncated ∉ checkAssign copies t)
    {c : Nat × Bytes} (hc : c ∈ copies) (old : Bytes) : assign c.1 old c.2 = c.2 := by
  rw [assign, if_neg]
  intro hlong
  refine h ?_
  rw [checkAssign, if_pos (List.any_eq_true.2 ⟨c, hc, decide_eq_true hlong⟩)]
  exact List.mem_cons_self

/-- **Every stored text is valid and complete**, every copy whose success is not checked succeeds, and `topic_matches`
is only called on valid filters and names. -/
theorem run_stored_fits (P : Params Ctx) (inputs : List Input) : (∀ k s, (run P inputs).sessions.slot k = some s →
      ClientIdFits P.T s.clientId ∧ (∀ sub ∈ s.subs, FilterFits P.T sub.filter) ∧
      WillFits P.T s.hasWill s.willTopic s.willPayload ∧
      ∀ m ∈ s.pending, TopicFits P.T m.topic ∧ m.payload.length ≤ P.T.maxPayloadLen) ∧
    (∀ r e, (run P inputs).retained.slot r = some e → EntryFits P.T e) ∧
    Act.truncated ∉ (run P inputs).trace ∧
    (∀ copies (t : Trace Ctx), Act.truncated ∉ checkAssign copies t → ∀ c ∈ copies, ∀ old, assign c.1 old c.2 = c.2) ∧
    ∀ k filters topic, Act.matching k filters topic ∈ (run P inputs).trace →
      (∀ f ∈ filters, FilterFits P.T f) ∧ TopicFits P.T topic := by
  have hL := (run_stepped P inputs).sound.linked
  refine ⟨fun k s hs => ?_, hL.retained, fun h => run_mild P inputs h, fun copies t h c hc =>
    assign_of_checkAssign h hc, fun k filters topic ha => ?_⟩
  · have htexts := (run_slot P inputs k).textsFit.1 s hs
    obtain ⟨hok, -⟩ := (run_slot P inputs k).queue.2 s hs
    exact ⟨htexts.clientId, htexts.filters, hL.will k s hs, fun m hm =>
      ⟨(hok.entries m hm).topic, (hok.entries m hm).payload⟩⟩
  · exact (run_slot P inputs k).textsFit.2 _ (History.mem_about.2 ⟨ha, rfl⟩)

end Minimosq
