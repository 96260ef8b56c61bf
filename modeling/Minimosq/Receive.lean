import Minimosq.Pending
/-!
# Who is cleared to receive

`authorize_receive` is asked when a message is routed, retained or queued, and never again: `pump_session` and
`resume_session` send what is in the queue.  A CONNECT that resumes a session replaces its context and keeps its queue,
so what a session is sent is cleared under the context it holds as long as no such CONNECT finds a message its new
context is not cleared for.
-/
namespace Minimosq

open History (Star since Each)

variable {Ctx : Type} {P : Params Ctx} {k : Nat} {recv : Ctx → Bytes → Bool}

/-- **A PUBLISH handed to the transport**, taken or refused, is for a session, and its topic is cleared under the
context that session holds. -/
def Act.Cleared (recv : Ctx → Bytes → Bool) : Act Ctx → Prop
  | .send _ pkt _ tag => headType pkt = some .publish →
      ∃ τ p, tag = some τ ∧ sentPublish pkt = some p ∧ recv τ.ctx p.topic = true
  | _ => True

/-- The entry may still go out in a PUBLISH only if `ctx` is cleared for it. -/
def OutMsg.Cleared (recv : Ctx → Bytes → Bool) (ctx : Ctx) (m : OutMsg) : Prop :=
  m.state ≠ .awaitingPubcomp → recv ctx m.topic = true

instance (ctx : Ctx) (m : OutMsg) : Decidable (m.Cleared recv ctx) :=
  inferInstanceAs (Decidable (m.state ≠ .awaitingPubcomp → recv ctx m.topic = true))

/-- A CONNECT that resumes a session finds in its queue only what its new context is cleared for. -/
def Act.KeepsClearance (recv : Ctx → Bytes → Bool) : Act Ctx → Prop
  | .bind _ _ b true => ∀ m ∈ b.pending, m.Cleared recv b.authCtx
  | _ => True

instance : DecidablePred (Act.KeepsClearance recv)
  | .bind _ _ b true => inferInstanceAs (Decidable (∀ m ∈ b.pending, m.Cleared recv b.authCtx))
  | .bind _ _ _ false | .send .. | .close .. | .event .. | .packet .. | .peerClosed .. | .dead .. | .nullDeref ..
  | .retained .. | .retain .. | .route .. | .application .. | .matching .. | .routed .. | .unbuilt .. | .truncated
  | .alloc .. | .release .. | .resumed .. | .detach .. | .parked .. | .disconnect .. | .submit .. | .enqueue ..
  | .ack .. | .inbound .. | .evict .. | .pubrel .. | .subscribe .. | .unsubscribe .. | .replay ..
  | .stuck .. => .isTrue trivial

/-! ## Packets -/

theorem cleared_pubrel {ci : Nat} {ok : Bool} {tag : Option (Tag Ctx)} (m : OutMsg) :
    Act.Cleared recv (.send ci (pubrelOf P.T m) ok tag) := by
  intro h
  rw [pubrelOf, headType_buildPacketIdOnly (outSize_ge P.T)] at h
  cases h

theorem cleared_publishOf {s : Session Ctx} {m : OutMsg} (hok : m.Ok P.T) (hclear : recv s.authCtx m.topic = true)
    (dup ok : Bool) {id : Nat} (h1 : 1 ≤ id) (h2 : id ≤ 65535) (seq : Option Nat) :
    Act.Cleared recv (.send s.conn (publishOf P.T m dup id) ok (tagOf k s seq)) := by
  intro hhead
  have hne : publishOf P.T m dup id ≠ [] := by
    intro he
    rw [he] at hhead
    cases hhead
  have hsent : sentPublish (publishOf P.T m dup id) = some ⟨m.topic, m.payload, id, m.qos, m.retain, dup⟩ :=
    sentPublish_queued (buildPublish_ne_nil_iff.1 hne) hok.qos (by omega) (by omega)
  exact ⟨_, _, rfl, hsent, hclear⟩

theorem cleared_live {s : Session Ctx} {topic : Bytes} (hclear : recv s.authCtx topic = true) (payload : Bytes)
    (retain ok : Bool) (seq : Option Nat) : Act.Cleared recv
      (.send s.conn (buildPublish P.T.outSize topic payload .atMostOnce retain false 0) ok (tagOf k s seq)) := by
  intro hhead
  have hne : buildPublish P.T.outSize topic payload .atMostOnce retain false 0 ≠ [] := by
    intro he
    rw [he] at hhead
    cases hhead
  have hsent : sentPublish (buildPublish P.T.outSize topic payload .atMostOnce retain false 0) =
      some ⟨topic, payload, 0, .atMostOnce, retain, false⟩ :=
    sentPublish_eq (buildPublish_ne_nil_iff.1 hne) (by decide)
  exact ⟨_, _, rfl, hsent, hclear⟩

/-! ## Steps -/

/-- The queue is in order, and the context is cleared for what it will send. -/
structure ClearQueue (P : Params Ctx) (recv : Ctx → Bytes → Bool) (s : Session Ctx) : Prop where
  ok : QueueOk P.T s
  cleared : ∀ m ∈ s.pending, m.Cleared recv s.authCtx

section
variable {s s' : Session Ctx} {acts : Trace Ctx}

theorem QStep.cleared {i : Nat} (hs : ClearQueue P recv s) (q : QStep P k i s acts s') :
    ∀ a ∈ acts, a.Cleared recv := by
  cases q with
  | transmit m ok hid hm hq _ _ =>
    have hmem := List.mem_of_getElem? hm
    obtain ⟨-, h1, h2⟩ := allocLoop_some s hid
    have hclear := hs.cleared m hmem (by simp [hq])
    exact List.forall_mem_singleton.2 (cleared_publishOf (hs.ok.entries m hmem) hclear m.dup ok h1 h2 _)
  | _ => simp [Act.Cleared]

theorem DStep.cleared (hrecv : ∀ t ctx topic, P.sec.authorizeReceive t ctx topic = recv ctx topic)
    (hs : ClearQueue P recv s) (d : DStep P k s acts s') : ∀ a ∈ acts, a.Cleared recv := by
  cases d with
  | queue i _ q => exact q.cleared hs
  | live topic payload retain ok t auth =>
    rw [hrecv] at auth
    exact List.forall_mem_singleton.2 (cleared_live auth payload retain ok none)
  | pumpRel i m ok => exact List.forall_mem_singleton.2 (cleared_pubrel m)
  | answerRel i m ok => exact List.forall_mem_singleton.2 (cleared_pubrel m)
  | _ => simp [Act.Cleared]

theorem RStep.cleared {h : Trace Ctx} (hs : ClearQueue P recv s) (r : RStep P k h s acts s') :
    ∀ a ∈ acts, a.Cleared recv := by
  cases r with
  | queue i _ q => exact q.cleared hs
  | retransmit i m ok _ hm hst _ =>
    have hmem := List.mem_of_getElem? hm
    obtain ⟨h1, h2⟩ := (hs.ok.entries m hmem).id (by rcases hst with h | h <;> simp [h])
    have hclear := hs.cleared m hmem (by rcases hst with h | h <;> simp [h])
    exact List.forall_mem_singleton.2 (cleared_publishOf (hs.ok.entries m hmem) hclear true ok h1 h2 _)
  | rel i m ok => exact List.forall_mem_singleton.2 (cleared_pubrel m)

/-- The entry is the same message, and not one that a PUBREL would do for before. -/
def Carries (m m' : OutMsg) : Prop :=
  m.topic = m'.topic ∧ (m.state = .awaitingPubcomp → m'.state = .awaitingPubcomp)

theorem Carries.refl (m : OutMsg) : Carries m m := ⟨rfl, id⟩

/-- An entry of the queue after a step was there before, or is the message just queued. -/
theorem QueueStep.carries (q : QueueStep P k s acts s') : ∀ m' ∈ s'.pending,
    (∃ m ∈ s.pending, Carries m m') ∨ ∃ n payload qos retain, .enqueue k n m'.topic payload qos retain ∈ acts := by
  have hR : ∀ x, Carries x x := Carries.refl
  cases q with
  | idle _ hs => exact fun m' hm' => .inl (hs.same hR m' hm')
  | refused _ _ _ _ _ _ _ _ hs => exact fun m' hm' => .inl (hs.same hR m' hm')
  | stuck | stray => exact fun m' hm' => .inl ⟨m', hm', hR m'⟩
  | push topic payload eff retain _ _ htopic _ =>
    intro m' hm'
    rcases List.mem_append.1 hm' with hm' | hm'
    · exact .inl ⟨m', hm', hR m'⟩
    · refine .inr ⟨s.nextSeq, payload, eff, retain, ?_⟩
      rw [List.mem_singleton.1 hm']
      simp [outMsg, assign_of_le htopic.stored]
  | first a b m _ hp hst _ _ hs =>
    exact fun m' hm' => .inl (hs.edit hR hp ⟨rfl, fun h => by rw [hst] at h; cases h⟩ m' hm')
  | again a b m hp _ _ hs => exact fun m' hm' => .inl (hs.edit hR hp ⟨rfl, id⟩ m' hm')
  | rel a b m _ _ hp _ _ hs => exact fun m' hm' => .inl (hs.edit hR hp ⟨rfl, id⟩ m' hm')
  | received a b m hp _ hs => exact fun m' hm' => .inl (hs.edit hR hp ⟨rfl, fun _ => rfl⟩ m' hm')
  | final a b m _ hp _ hs => exact fun m' hm' => .inl (hs.erase hR hp m' hm')
  | drop a b m _ _ _ hp _ _ hs => exact fun m' hm' => .inl (hs.erase hR hp m' hm')

/-- A step keeps the queue cleared when what it queues is. -/
theorem ClearQueue.step (hs : ClearQueue P recv s) (q : QueueStep P k s acts s') (hctx : s'.authCtx = s.authCtx)
    (hnew : ∀ n topic payload qos retain, .enqueue k n topic payload qos retain ∈ acts → recv s.authCtx topic = true) :
    ClearQueue P recv s' := by
  refine ⟨hs.ok.step q, fun m' hm' hst => ?_⟩
  rw [hctx]
  rcases q.carries m' hm' with ⟨m, hm, ht, himp⟩ | ⟨n, payload, qos, retain, hin⟩
  · rw [← ht]
    exact hs.cleared m hm (fun h => hst (himp h))
  · exact hnew n _ payload qos retain hin

theorem DStep.clearQueue (hrecv : ∀ t ctx topic, P.sec.authorizeReceive t ctx topic = recv ctx topic)
    (hs : ClearQueue P recv s) (d : DStep P k s acts s') : ClearQueue P recv s' := by
  have hnew : ∀ n topic payload qos retain, .enqueue k n topic payload qos retain ∈ acts →
      recv s.authCtx topic = true := by
    intro n topic payload qos retain hin
    cases d with
    | enqueue _ _ _ _ t _ auth =>
      cases List.mem_singleton.1 hin
      rw [hrecv] at auth
      exact auth
    | kept _ _ _ t _ auth =>
      simp only [List.mem_cons, reduceCtorEq, List.not_mem_nil, or_false] at hin
      cases hin
      rw [hrecv] at auth
      exact auth
    | queue i _ q => cases q <;> simp at hin
    | _ => simp at hin
  have hctx := Session.authCtx_eq_of_frame d.frame
  rcases d.queueSteps with q | ⟨-, topic, payload, eff, a, -, hacts, q⟩
  · exact hs.step q hctx hnew
  · refine hs.step q hctx (fun n topic payload qos retain hin => hnew n topic payload qos retain ?_)
    rw [hacts, ← List.mem_singleton.1 hin]
    exact List.mem_cons_self

theorem RStep.clearQueue {h : Trace Ctx} (hs : ClearQueue P recv s) (r : RStep P k h s acts s') :
    ClearQueue P recv s' := by
  refine hs.step r.queueStep (Session.authCtx_eq_of_frame r.frame) (fun n topic payload qos retain hin => ?_)
  cases r with
  | queue i _ q => cases q <;> simp at hin
  | _ => simp at hin

end

/-! ## Every run -/

/-- What keeps the messages and the context keeps the queue cleared. -/
theorem ClearQueue.congr {s s' : Session Ctx} (hs : ClearQueue P recv s) (hq : SameQueues s s')
    (hctx : s'.authCtx = s.authCtx) : ClearQueue P recv s' := by
  refine ⟨hs.ok.same ⟨hq.pending, hq.nextSeq⟩, ?_⟩
  rw [hq.pending, hctx]
  exact hs.cleared

theorem SlotRun.cleared (hrecv : ∀ t ctx topic, P.sec.authorizeReceive t ctx topic = recv ctx topic) {h : Trace Ctx}
    {o : Option (Session Ctx)} (run : SlotRun P k h o) (hkeeps : ∀ a ∈ h, a.KeepsClearance recv) :
    ∀ a ∈ h, a.Cleared recv := by
  have hadd : ∀ {acts h : Trace Ctx}, (∀ a ∈ acts, a.Cleared recv) → (∀ a ∈ h, a.Cleared recv) →
      ∀ a ∈ acts ++ h, a.Cleared recv := fun ha hh a hin => (List.mem_append.1 hin).elim (ha a) (hh a)
  refine (run.inv (fun h o => (∀ a ∈ h, a.KeepsClearance recv) →
    (∀ a ∈ h, a.Cleared recv) ∧ ∀ s, o = some s → ClearQueue P recv s) (fun h o acts o' hI one hkeep => ?_)
    (fun _ => ⟨by simp, by simp⟩) hkeeps).1
  obtain ⟨hh, hs⟩ := hI (fun a ha => hkeep a (List.mem_append_right _ ha))
  cases one with
  | @serve s _ _ d =>
    cases d with
    | deliver d =>
      refine ⟨hadd (d.cleared hrecv (hs s rfl)) hh, ?_⟩
      rintro _ ⟨⟩
      exact d.clearQueue hrecv (hs s rfl)
    | subs _ _ hacts =>
      refine ⟨hadd (fun a ha => ?_) hh, ?_⟩
      · have hsubs := hacts a ha
        cases a <;> trivial
      · rintro _ ⟨⟩
        exact (hs s rfl).congr ⟨rfl, rfl, rfl, rfl⟩ rfl
    | publish _ _ _ _ _ ha =>
      refine ⟨hadd (by cases ha <;> simp [Act.Cleared]) hh, ?_⟩
      rintro _ ⟨⟩
      exact hs s rfl
  | alloc ctx clientId =>
    refine ⟨hadd (by simp [Act.Cleared]) hh, ?_⟩
    rintro _ ⟨⟩
    exact ⟨.fresh P.T ctx clientId, fun m hm => by cases hm⟩
  | release => exact ⟨hadd (by simp [Act.Cleared]) hh, by simp⟩
  | @bind s ci p ctx _ _ hnew _ _ =>
    have hsame := SameQueues.bound P.T ci p ctx s
    refine ⟨hadd (by simp [Act.Cleared]) hh, ?_⟩
    rintro _ ⟨⟩
    refine ⟨(hs s rfl).ok.same ⟨hsame.pending, hsame.nextSeq⟩, fun m hm => ?_⟩
    rw [hsame.pending, hnew] at hm
    cases hm
  | @resume s s' new ci p ctx e up _ _ _ _ _ steps _ =>
    -- The queue is the one kept, the context the new one: here the condition is needed.
    have hsame := SameQueues.bound P.T ci p ctx s
    have hstart : ClearQueue P recv (boundSession P.T ci p ctx s) :=
      ⟨(hs s rfl).ok.same ⟨hsame.pending, hsame.nextSeq⟩,
        hkeep (.bind k ci (boundSession P.T ci p ctx s) true) (by simp)⟩
    have hbound : ∀ a ∈ [.event e (some k), .bind k ci (boundSession P.T ci p ctx s) true] ++ h,
        a.Cleared recv :=
      hadd (by simp [Act.Cleared]) hh
    have hend := steps.inv (fun (h : Trace Ctx) s => (∀ a ∈ h, a.Cleared recv) ∧ ClearQueue P recv s)
      (fun _ _ _ _ hI r => ⟨hadd (r.cleared hI.2) hI.1, r.clearQueue hI.2⟩) ⟨hbound, hstart⟩
    refine ⟨fun a ha => ?_, ?_⟩
    · rcases List.mem_cons.1 ha with rfl | ha
      · trivial
      · exact hend.1 a (by simpa using ha)
    · rintro _ ⟨⟩
      exact hend.2
  | @detach s now order _ =>
    refine ⟨hadd (by simp [Act.Cleared]) hh, ?_⟩
    rintro _ ⟨⟩
    exact (hs s rfl).congr ⟨rfl, rfl, rfl, rfl⟩ rfl
  | @disconnect s _ =>
    refine ⟨hadd (by simp [Act.Cleared]) hh, ?_⟩
    rintro _ ⟨⟩
    exact (hs s rfl).congr ⟨rfl, rfl, rfl, rfl⟩ rfl
  | @submit s ci allowed _ _ _ _ _ =>
    refine ⟨hadd (by simp [Act.Cleared, submitNote]) hh, ?_⟩
    rintro _ ⟨⟩
    exact (hs s rfl).congr ⟨rfl, rfl, rfl, rfl⟩ rfl

/-- **Whatever is published to a session is cleared under the context it holds**, when no CONNECT resumes a session with
messages its new context is not cleared for. -/
theorem run_receive_cleared (P : Params Ctx) (recv : Ctx → Bytes → Bool)
    (hrecv : ∀ t ctx topic, P.sec.authorizeReceive t ctx topic = recv ctx topic) (inputs : List Input)
    (hkeep : ∀ a ∈ (run P inputs).trace, a.KeepsClearance recv) : ∀ a ∈ (run P inputs).trace, a.Cleared recv := by
  intro a ha
  cases hslot : a.slot with
  | some k =>
    refine (run_slot P inputs k).cleared hrecv (fun b hb => hkeep b (mem_slotActs.1 hb).1) a ?_
    exact mem_slotActs.2 ⟨ha, hslot⟩
  | none =>
    have hmild := run_mild P inputs ha
    cases a with
    | send ci pkt ok tag =>
      cases tag with
      | none =>
        obtain ⟨type, hpub, hpkt⟩ := hmild
        exact fun hp => absurd (Option.some.inj (hpkt.headType.symm.trans hp)) (hpub rfl)
      | some τ => cases hslot
    | _ => trivial

/-- Two roles: clients with a user name are cleared for everything, the others for nothing. -/
def twoRoles : Security Bool where
  authenticate := fun _ _ username _ => (.accepted, username.isSome)
  authorizePublish := fun _ _ _ => true
  authorizeSubscribe := fun _ _ _ => true
  authorizeReceive := fun _ ctx _ => ctx

/-- A cleared client subscribes and goes away, a message is queued for it, and it comes back with `o`. -/
def roleChange (o : Wire.ConnectOpts) : List Input :=
  Input.connect 0 [99] { clean := false, username := some [117] } ++
    [.feed 0 (Wire.makeSubscribe 1 [([97], 1)]), .connClosed 0, .publish [97] [1] .atLeastOnce false] ++
    Input.connect 0 [99] o

theorem receive_cleared_same_role : let P : Params Bool := ⟨smallTraits, twoRoles, fun _ _ _ => true⟩
    let inputs := roleChange { clean := false, username := some [117] }
    .send 0 (Wire.makePublish [97] [1] .atLeastOnce false false 1) true (some ⟨0, true, some 0⟩) ∈
      (run P inputs).trace ∧
    ∀ a ∈ (run P inputs).trace, a.Cleared (fun ctx _ => ctx) := by
  intro P inputs
  exact ⟨by decide +kernel, run_receive_cleared P (fun ctx _ => ctx) (fun _ _ _ => rfl) inputs (by decide +kernel)⟩

/-- **The queue outlives the clearance**: the client comes back without its user name, and is sent the message it is no
longer cleared for. -/
theorem receive_not_cleared_after_role_change : let P : Params Bool := ⟨smallTraits, twoRoles, fun _ _ _ => true⟩
    let pkt := Wire.makePublish [97] [1] .atLeastOnce false false 1
    .send 0 pkt true (some ⟨0, false, some 0⟩) ∈ (run P (roleChange { clean := false })).trace ∧
    sentPublish pkt = some ⟨[97], [1], 1, .atLeastOnce, false, false⟩ ∧
    P.sec.authorizeReceive [] false [97] = false ∧
    ¬ ∀ a ∈ (run P (roleChange { clean := false })).trace, a.Cleared (fun ctx _ => ctx) := by
  intro P pkt
  have hmem : .send 0 pkt true (some ⟨0, false, some 0⟩) ∈ (run P (roleChange { clean := false })).trace := by
    decide +kernel
  refine ⟨hmem, by decide +kernel, rfl, fun hall => ?_⟩
  obtain ⟨τ, p, hτ, -, hclear⟩ := hall _ hmem (by decide +kernel)
  cases hτ
  cases hclear

end Minimosq
