import Minimosq.Will
/-!
# Who published

Every call of `apply_retain` and `route_publish` is noted with its origin: the slot, connection and context of the
client it is made for, or none.  A client's message was allowed under the context that the CONNECT on that very
connection was given, whether it is a PUBLISH or a will that fires when the connection is torn down; and what has no
origin is a message of the application, on its way through `Broker::publish`.
-/
namespace Minimosq

open History (Star Each)

variable {Ctx : Type} {P : Params Ctx} {k : Nat}

/-! ## One slot -/

/-- The CONNECT accepted last was on the origin's connection, and left the session with the origin's context. -/
def OpenedBy (o : Origin Ctx) (h : Trace Ctx) : Prop :=
  ∃ b present, lastConnect h = some (.bind o.slot o.ci b present) ∧ b.authCtx = o.ctx

/-- What is published for a client, and a will that is submitted, with what its slot did before. -/
def Act.Sourced (P : Params Ctx) : Act Ctx → Trace Ctx → Prop
  | .submit k ci ctx _ _ _ _ _, h => OpenedBy ⟨k, ci, ctx⟩ h
  | .retain (some o) topic payload qos, h | .route (some o) topic payload qos, h =>
    (∃ t, P.sec.authorizePublish t o.ctx topic = true) ∧ OpenedBy o h ∧
      (.detach o.slot o.ci ∉ episode h ∨ Submitted o.slot o.ci o.ctx topic payload qos h)
  | _, _ => True

/-- Neither a will nor a message of a client. -/
def Act.isSourced : Act Ctx → Bool
  | .submit _ _ _ _ _ _ _ _ | .retain (some _) _ _ _ | .route (some _) _ _ _ => true
  | _ => false

theorem Act.sourced_of {a : Act Ctx} (ha : a.isSourced = false) (h : Trace Ctx) : a.Sourced P h := by
  cases a with
  | submit => cases ha
  | retain origin | route origin =>
    cases origin with
    | none => trivial
    | some o => cases ha
  | _ => trivial

theorem Act.isSourced_of_delivers {a : Act Ctx} (ha : a.delivers = true) : a.isSourced = false := by
  cases a <;> first | rfl | cases ha

theorem Each.sourced {h acts : Trace Ctx} (hh : Each (Act.Sourced P) h) (hacts : ∀ a ∈ acts, a.isSourced = false) :
    Each (Act.Sourced P) (acts ++ h) :=
  hh.append (fun a ha _ => Act.sourced_of (hacts a ha) _)

section
variable {h : Trace Ctx} {s : Session Ctx} {ci : Nat}

theorem WillNow.openedBy (hw : WillNow k h s) (hon : s.conn ≠ noConn) :
    OpenedBy ⟨k, s.conn, s.authCtx⟩ h ∧ .detach k s.conn ∉ episode h := by
  obtain ⟨ci, b, ha⟩ := hw.armed (.inl hon)
  obtain ⟨present, hc⟩ := ha.connect
  rw [ha.conn hon]
  exact ⟨⟨b, present, hc, ha.same.ctx.symm⟩, fun hd => hon (ha.ended.1 hd)⟩

theorem WillNow.openedBy_of_will (hw : WillNow k h s) (hwill : s.hasWill = true)
    (hjust : ∃ h', h = .detach k ci :: h') : OpenedBy ⟨k, ci, s.authCtx⟩ h := by
  obtain ⟨ci', b, ha⟩ := hw.armed (.inr hwill)
  obtain ⟨present, hc⟩ := ha.connect
  obtain rfl : ci = ci' := by
    obtain ⟨h', rfl⟩ := hjust
    refine ha.only ci ?_
    rw [episode, History.since_cons rfl]
    exact List.mem_cons_self
  exact ⟨b, present, hc, ha.same.ctx.symm⟩

theorem Submitted.openedBy {ctx : Ctx} {topic payload : Bytes} {qos : QoS}
    (hsub : Submitted k ci ctx topic payload qos h) (hh : Each (Act.Sourced P) h) : OpenedBy ⟨k, ci, ctx⟩ h := by
  obtain ⟨retain, newer, older, rfl, hnewer⟩ := hsub
  obtain ⟨b, present, hc, hctx⟩ : OpenedBy ⟨k, ci, ctx⟩ older := History.each_iff.1 hh newer _ older rfl
  refine ⟨b, present, ?_, hctx⟩
  rw [lastConnect_append (fun a ha => by rw [hnewer a ha]; rfl)]
  exact hc

end

/-- **Every client's message, and every will, at every point of a slot's life.** -/
theorem SlotRun.sourced {h : Trace Ctx} {o : Option (Session Ctx)} (run : SlotRun P k h o) :
    Each (Act.Sourced P) h := by
  refine (run.inv (fun h o => SlotRun P k h o ∧ Each (Act.Sourced P) h) ?_ ⟨.refl, trivial⟩).2
  rintro h o acts o' ⟨hrun, hI⟩ one
  refine ⟨.tail hrun one, ?_⟩
  have hpast := hrun.wills
  cases one with
  | @serve s s' acts d =>
    cases d with
    | deliver d => exact Each.sourced hI (fun a ha => Act.isSourced_of_delivers (d.delivers a ha))
    | subs _ _ hacts =>
      refine Each.sourced hI (fun a ha => ?_)
      have hsubs := hacts a ha
      cases a <;> first | rfl | cases hsubs
    | publish ci topic payload qos t ha htopic hask hfrom =>
      have hfrom' : OpenedBy ⟨k, ci, s.authCtx⟩ h ∧
          (.detach k ci ∉ episode h ∨ Submitted k ci s.authCtx topic payload qos h) := by
        rcases hfrom with ⟨rfl, hon⟩ | hsub
        · obtain ⟨hopen, hup⟩ := (hpast.live s rfl).openedBy hon
          exact ⟨hopen, .inl hup⟩
        · exact ⟨hsub.openedBy hI, .inr hsub⟩
      cases ha with
      | retain => exact ⟨⟨⟨t, hask⟩, hfrom'⟩, hI⟩
      | route => exact ⟨⟨⟨t, hask⟩, hfrom'⟩, hI⟩
  | submit ci allowed t hoff hwill hjust hask => exact ⟨(hpast.live _ rfl).openedBy_of_will hwill hjust, hI⟩
  | @resume s s' new ci p ctx e up hoff hwill hclean hci hfit steps stop =>
    have hstart : Each (Act.Sourced P) (.event e (some k) :: .bind k ci (boundSession P.T ci p ctx s) true ::
        h) :=
      ⟨trivial, trivial, hI⟩
    have hend := steps.inv (fun h _ => Each (Act.Sourced P) h)
      (fun _ _ _ _ hI r => Each.sourced hI (fun a ha => Act.isSourced_of_delivers (r.delivers a ha))) hstart
    have hdone : Each (Act.Sourced P) ([.resumed k up] ++ (new ++ _)) := ⟨trivial, hend⟩
    simpa only [List.cons_append, List.append_assoc, List.nil_append] using hdone
  | alloc | release | bind | detach | disconnect => exact Each.sourced hI (by simp [Act.isSourced])

/-! ## Denied messages -/

/-- The retained store is as it was, and so is the queue of every session that is still there. -/
structure Untouched (σ σ' : Broker Ctx) : Prop where
  retained : σ'.retained = σ.retained
  queues : ∀ j s', σ'.sessions.slot j = some s' → ∃ s, σ.sessions.slot j = some s ∧ s'.pending = s.pending

section
variable {σ σ' σ'' : Broker Ctx} {ci : Nat} {s s' : Session Ctx}

theorem Untouched.of_sessions (hret : σ'.retained = σ.retained) (hsess : σ'.sessions = σ.sessions) : Untouched σ σ' :=
  ⟨hret, fun _ s' h => ⟨s', hsess ▸ h, rfl⟩⟩

theorem Untouched.trans (h : Untouched σ σ') (h' : Untouched σ' σ'') : Untouched σ σ'' := by
  refine ⟨h'.retained.trans h.retained, fun j s'' hs'' => ?_⟩
  obtain ⟨s', hs', hp'⟩ := h'.queues j s'' hs''
  obtain ⟨s, hs, hp⟩ := h.queues j s' hs'
  exact ⟨s, hs, hp'.trans hp⟩

theorem Untouched.write (s' : Session Ctx) (hs : σ.sessions.slot k = some s) (hp : s'.pending = s.pending)
    (hret : σ'.retained = σ.retained) (hsess : σ'.sessions = σ.sessions.set k s') : Untouched σ σ' := by
  refine ⟨hret, fun j s'' hs'' => ?_⟩
  rw [hsess] at hs''
  rcases written_cases hs'' with ⟨rfl, he⟩ | ⟨-, hs''⟩
  · cases he
    exact ⟨s, hs, hp⟩
  · exact ⟨s'', hs'', rfl⟩

theorem Untouched.release (P : Params Ctx) (k : Nat) (σ : Broker Ctx) : Untouched σ (σ.release P k) :=
  ⟨rfl, fun _ s' hs' => ⟨s', slot_of_released hs', rfl⟩⟩

theorem untouched_sendTo (P : Params Ctx) (tag : Option (Tag Ctx)) (ci : Nat) (pkt : Bytes) (σ : Broker Ctx) :
    Untouched σ (σ.sendTo P tag ci pkt) := by
  have hcases := sendTo_cases P tag ci pkt σ
  generalize σ.sendTo P tag ci pkt = σ' at hcases ⊢
  cases hcases <;> exact .of_sessions rfl rfl

theorem untouched_trackInbound (hs : σ.sessions.slot k = some s) (id : Nat) :
    Untouched σ (σ.trackInbound P k ci id s) := by
  simp only [Broker.trackInbound]
  split
  · exact .of_sessions rfl rfl
  · split
    · exact .write { s with inboundQos2 := s.inboundQos2.tail ++ [id] } hs rfl rfl rfl
    · exact .write { s with inboundQos2 := s.inboundQos2 ++ [id] } hs rfl rfl rfl

/-- **A denied PUBLISH changes no queue and not the retained store.** -/
theorem untouched_handlePublish (hof : σ.sessionOf P (σ.conns ci) = some (k, s)) {firstByte : UInt8} {body : Bytes}
    {p : PublishPacket} (hp : parsePublish firstByte body = .ok p)
    (hdeny : ∀ t, P.sec.authorizePublish t s.authCtx p.topic = false) :
    Untouched σ (σ.handlePublish P ci firstByte body) := by
  have hdeliver : ∀ (σ' : Broker Ctx) (deliver : Bool),
      Untouched σ' (if deliver then σ'.acceptPublish P k s p else σ') := by
    intro σ' deliver
    simp only [Broker.acceptPublish, hdeny]
    cases deliver <;> exact .of_sessions rfl rfl
  have htrack : ∀ qos2 : Bool, Untouched σ (if qos2 then σ.trackInbound P k ci p.packetId s else σ) := by
    intro qos2
    cases qos2 with
    | true => exact untouched_trackInbound (slot_of_sessionOf hof).2 p.packetId
    | false => exact .of_sessions rfl rfl
  have hanswer : ∀ σ', Untouched σ σ' → ∀ (qos1 qos2 : Bool) (puback pubrec : Bytes), Untouched σ
      (if qos1 then σ'.sendTo P none ci puback else if qos2 then σ'.sendTo P none ci pubrec else σ') := by
    intro σ' h qos1 qos2 puback pubrec
    repeat' split
    · exact h.trans (untouched_sendTo P none ci _ _)
    · exact h.trans (untouched_sendTo P none ci _ _)
    · exact h
  rw [Broker.handlePublish, derefSession_of hof]
  simp only [hp]
  split
  · exact .of_sessions rfl rfl
  split
  · exact .of_sessions rfl rfl
  exact hanswer _ ((htrack _).trans (hdeliver _ _)) _ _ _ _

theorem untouched_submitWill (hs : σ.sessions.slot k = some s)
    (hdeny : ∀ t, P.sec.authorizePublish t s.authCtx s.willTopic = false) : Untouched σ (σ.submitWill P k ci s) := by
  simp only [Broker.submitWill, hdeny]
  exact .write { s with hasWill := false } hs rfl rfl rfl

theorem untouched_dropSession (hs : σ.sessions.slot k = some s)
    (hdeny : ∀ t, P.sec.authorizePublish t s.authCtx s.willTopic = false) : Untouched σ (σ.dropSession P k ci s) := by
  simp only [Broker.dropSession]
  generalize hs₁ : detached s σ.nowMs (toU32 (σ.disconnectOrder + 1)) = s₁
  generalize hσ₁ : ({ σ with
    disconnectOrder := toU32 (σ.disconnectOrder + 1)
    sessions := σ.sessions.set k s₁
    trace := .detach k ci :: .parked k s₁ :: σ.trace } : Broker Ctx) = σ₁
  have hpark : Untouched σ σ₁ := by
    subst hσ₁
    exact .write _ hs (by rw [← hs₁]; rfl) rfl rfl
  have hwill : Untouched σ₁ (if s.hasWill then σ₁.submitWill P k ci s₁ else σ₁) := by
    split
    · refine untouched_submitWill ?_ (fun t => ?_)
      · rw [← hσ₁]
        exact Function.update_self ..
      · rw [← hs₁]
        exact hdeny t
    · exact .of_sessions rfl rfl
  split
  · exact (hpark.trans hwill).trans (.release P k _)
  · exact hpark.trans hwill

/-- **A denied will changes no queue and not the retained store.** -/
theorem untouched_teardown (hof : σ.sessionOf P (σ.conns ci) = some (k, s))
    (hdeny : ∀ t, P.sec.authorizePublish t s.authCtx s.willTopic = false) : Untouched σ (σ.teardown P ci) := by
  simp only [Broker.teardown, hof]
  generalize hσ₁ : Broker.setConn ci { σ.conns ci with active := false, dead := false, session := noSession }
    (σ.notifyConn P .connectionClosed ci) = σ₁
  have h₁ : Untouched σ σ₁ := by
    subst hσ₁
    exact .of_sessions rfl rfl
  have hs₁ : σ₁.sessions.slot k = some s := by
    subst hσ₁
    exact (slot_of_sessionOf hof).2
  have hdrop : Untouched σ (σ₁.dropSession P k ci s) := h₁.trans (untouched_dropSession hs₁ hdeny)
  split
  · exact hdrop.trans (.of_sessions rfl rfl)
  · exact hdrop

end

/-! ## Every run -/

/-- **The CONNECT that opened the origin's connection**, in a trace: the last one accepted for its slot, on its
connection, which `authenticate` gave the origin's context.  The connection is still up, or it is being torn down and
`will` holds. -/
def Opened (P : Params Ctx) (o : Origin Ctx) (will : Prop) (t : Trace Ctx) : Prop :=
  ∃ newer b present older, t = newer ++ .bind o.slot o.ci b present :: older ∧
    (∀ a ∈ newer, a.isBind = true → a.slot ≠ some o.slot) ∧ b.authCtx = o.ctx ∧ Admitted P o.ci b older ∧
    (.detach o.slot o.ci ∉ newer ∨ will)

theorem OpenedBy.opened {o : Origin Ctx} {t : Trace Ctx} {will : Prop} (h : OpenedBy o (slotActs o.slot t))
    (hrec : Each (Act.Recorded P) t) (hup : .detach o.slot o.ci ∉ episode (slotActs o.slot t) ∨ will) :
    Opened P o will t := by
  obtain ⟨b, present, hlast, hctx⟩ := h
  rw [lastConnect, slotActs, List.find?_filter] at hlast
  obtain ⟨-, newer, older, rfl, hnewer⟩ := List.find?_eq_some_iff_append.1 hlast
  have hno : ∀ a ∈ newer, a.isBind = true → a.slot ≠ some o.slot := by
    intro a ha hbind hslot
    have := hnewer a ha
    simp [hbind, hslot] at this
  refine ⟨newer, b, present, older, rfl, hno, hctx, (History.each_iff.1 hrec newer _ older rfl).1, hup.imp_left ?_⟩
  intro hdown hin
  refine hdown ?_
  have hquiet : ∀ a ∈ slotActs o.slot newer, a.isBind = false := by
    intro a ha
    obtain ⟨ha, hslot⟩ := mem_slotActs.1 ha
    exact Bool.eq_false_iff.2 (fun hbind => hno a ha hbind hslot)
  rw [slotActs_append, episode_append hquiet]
  exact List.mem_append_left _ (mem_slotActs.2 ⟨hin, rfl⟩)

/-- **Who published.**  Under a policy that answers `authorize_publish` from its arguments alone, every call of
`apply_retain` and `route_publish` for a client has a topic it allows under the context that client's CONNECT was given,
on the connection the message is from; every other call is part of `Broker::publish`; and a denied PUBLISH or will
leaves the retained store and all queues as they are. -/
theorem run_publish_provenance (P : Params Ctx)
    (hpolicy : ∀ t t' ctx topic, P.sec.authorizePublish t ctx topic = P.sec.authorizePublish t' ctx topic)
    (inputs : List Input) :
    (∀ newer a older o topic payload qos, (run P inputs).trace = newer ++ a :: older → a.Publishes o topic payload qos →
      (∀ t, P.sec.authorizePublish t o.ctx topic = true) ∧
      Opened P o (Submitted o.slot o.ci o.ctx topic payload qos (slotActs o.slot older)) older) ∧
    (∀ newer a older topic payload qos, (run P inputs).trace = newer ++ a :: older →
      a = .retain none topic payload qos ∨ a = .route none topic payload qos → Requested topic payload qos older) ∧
    (∀ (σ : Broker Ctx) ci k s firstByte body p, σ.sessionOf P (σ.conns ci) = some (k, s) →
      parsePublish firstByte body = .ok p → (∀ t, P.sec.authorizePublish t s.authCtx p.topic = false) →
      Untouched σ (σ.handlePublish P ci firstByte body)) ∧
    ∀ (σ : Broker Ctx) ci k s, σ.sessionOf P (σ.conns ci) = some (k, s) →
      (∀ t, P.sec.authorizePublish t s.authCtx s.willTopic = false) → Untouched σ (σ.teardown P ci) := by
  have hrec := (run_books P inputs).records
  refine ⟨fun newer a older o topic payload qos he ha => ?_, fun newer a older topic payload qos he ha => ?_,
    fun σ ci k s firstByte body p hof hp hdeny => untouched_handlePublish hof hp hdeny,
    fun σ ci k s hof hdeny => untouched_teardown hof hdeny⟩
  · have hsrc := (run_slot P inputs o.slot).sourced
    have hslot : a.slot = some o.slot := by cases ha <;> rfl
    rw [he] at hrec hsrc
    rw [slotActs_append, slotActs_cons_own hslot] at hsrc
    have hfrom := History.each_iff.1 hsrc _ _ _ rfl
    have hacts : (∃ t, P.sec.authorizePublish t o.ctx topic = true) ∧ OpenedBy o (slotActs o.slot older) ∧
        (.detach o.slot o.ci ∉ episode (slotActs o.slot older) ∨
          Submitted o.slot o.ci o.ctx topic payload qos (slotActs o.slot older)) := by
      cases ha <;> exact hfrom
    obtain ⟨⟨t, hask⟩, hopen, hup⟩ := hacts
    refine ⟨fun t' => (hpolicy t' t _ _).trans hask, hopen.opened ?_ hup⟩
    exact History.each_iff.2 (fun n x o' ho => History.each_iff.1 hrec (newer ++ a :: n) x o' (by rw [ho]; simp))
  · rw [he] at hrec
    have hreq := History.each_iff.1 hrec newer a older rfl
    rcases ha with rfl | rfl
    · exact hreq
    · exact hreq

/-- A will that fires when its client is taken over, in the middle of the CONNECT that does it. -/
theorem publish_provenance_takeover : let P := bed (fun _ _ _ => true)
    let o : Origin Unit := ⟨0, 0, ()⟩
    let σ := run P (Input.connect 0 [99] { willTopic := some [119], willPayload := [1] } ++ Input.connect 1 [99] {})
    ∃ newer older, σ.trace = newer ++ .route (some o) [119] [1] .atMostOnce :: older ∧
      Opened P o (Submitted 0 0 () [119] [1] .atMostOnce (slotActs 0 older)) older := by
  intro P o σ
  have hroute : .route (some o) [119] [1] .atMostOnce ∈ σ.trace := by decide +kernel
  obtain ⟨newer, older, he⟩ := List.append_of_mem hroute
  exact ⟨newer, older, he, ((run_publish_provenance P (fun _ _ _ _ => rfl) _).1 newer _ older _ _ _ _ he .route).2⟩

end Minimosq
