import Minimosq.Run
/-!
# What the daily work leaves alone

Routing, delivering, answering acknowledgements and giving up on a connection, from any state whatever: the tables need
not be linked and nothing need fit.  All such work does to a connection is mark it dead, and the acts it leaves behind
are `routine`: every packet it sends is for a session, and nobody comes, goes or times out.
-/
namespace Minimosq

variable {Ctx : Type} {P : Params Ctx}

/-- The event is about a message or a packet, not about the life of a connection or a session. -/
def EventKind.routine : EventKind → Bool
  | .protocolViolation | .transportSendFailed | .publishDenied | .subscribeDenied | .receiveDenied
  | .retainedStoreFailed | .retainedStalePurged | .deliveryDropped | .inboundQos2Evicted => true
  | _ => false

def Act.routine : Act Ctx → Bool
  | .send _ _ _ tag => tag.isSome
  | .event e _ => e.kind.routine
  | .close _ | .packet _ _ _ | .peerClosed _ | .alloc _ | .release _ | .bind _ _ _ _ | .resumed _ _ | .detach _ _
  | .parked _ _ | .disconnect _ _ => false
  | _ => true

/-- The trace grows by acts with the property. -/
def Adds (p : Act Ctx → Prop) (t t' : Trace Ctx) : Prop := ∃ new, t' = new ++ t ∧ ∀ a ∈ new, p a

/-- By routine acts. -/
abbrev Routinely (t t' : Trace Ctx) : Prop := Adds (fun a => a.routine = true) t t'

section
variable {p q : Act Ctx → Prop} {t t' t'' : Trace Ctx}

theorem Adds.refl (p : Act Ctx → Prop) (t : Trace Ctx) : Adds p t t := ⟨[], rfl, by simp⟩

theorem Adds.trans (h₁ : Adds p t t') (h₂ : Adds p t' t'') : Adds p t t'' := by
  obtain ⟨new₁, rfl, hp₁⟩ := h₁
  obtain ⟨new₂, rfl, hp₂⟩ := h₂
  exact ⟨new₂ ++ new₁, (List.append_assoc ..).symm, List.forall_mem_append.2 ⟨hp₂, hp₁⟩⟩

theorem Adds.one (a : Act Ctx) (ha : p a) : Adds p t (a :: t) := ⟨[a], rfl, List.forall_mem_singleton.2 ha⟩

theorem Adds.cons (a : Act Ctx) (ha : p a) (h : Adds p t t') : Adds p t (a :: t') := h.trans (.one a ha)

theorem Adds.mono (hpq : ∀ a, p a → q a) (h : Adds p t t') : Adds q t t' := by
  obtain ⟨new, he, hnew⟩ := h
  exact ⟨new, he, fun a ha => hpq a (hnew a ha)⟩

theorem Adds.suffix (h : Adds p t t') : t <:+ t' := by
  obtain ⟨new, htrace, -⟩ := h
  exact ⟨new, htrace.symm⟩

theorem Adds.split {u : Trace Ctx} (h : Adds p t t') (hu : t <:+ u) (hu' : u <:+ t') : Adds p t u ∧ Adds p u t' := by
  obtain ⟨acts, rfl, hacts⟩ := h
  obtain ⟨x, rfl⟩ := hu
  obtain ⟨y, hy⟩ := hu'
  rw [← List.append_assoc] at hy
  have heq := List.append_cancel_right hy
  exact ⟨⟨x, rfl, fun a ha => hacts a (heq ▸ List.mem_append_right _ ha)⟩, y, by rw [← heq, List.append_assoc],
    fun a ha => hacts a (heq ▸ List.mem_append_left _ ha)⟩

theorem Adds.mem {u : Trace Ctx} {a : Act Ctx} (h : Adds p t t') (ht : t <:+ u) (hu : a :: u <:+ t') : p a := by
  obtain ⟨acts, htrace, hacts⟩ := (h.split ht ((List.suffix_cons _ _).trans hu)).2
  obtain ⟨x, hx⟩ := hu
  have heq : x ++ [a] ++ u = acts ++ u := by rw [← htrace, ← hx, List.append_assoc]; rfl
  refine hacts a ?_
  rw [← List.append_cancel_right heq]
  exact List.mem_append_right _ (List.mem_singleton_self a)

theorem Routinely.note (a : Act Ctx) (ha : a.routine = true) (t : Trace Ctx) : Routinely t (a :: t) := .one a ha

theorem Routinely.noted (h : Routinely t t') (a : Act Ctx) (ha : a.routine = true) :
    Routinely t (a :: t') := .cons a ha h

end

/-! ## Work on one session -/

theorem routinely_notifyDrop (k : Nat) (s : Session Ctx) (topic : Bytes) (qos : QoS) (err : Err) (t : Trace Ctx) :
    Routinely t (notifyDrop k s topic qos err t) := .note _ rfl t

theorem routinely_unbuilt (k : Nat) (s : Session Ctx) (topic : Bytes) (qos : QoS) (t : Trace Ctx) :
    Routinely t (notifyDrop k s topic qos .oversize (.unbuilt (some k) :: t)) :=
  (Routinely.note (.unbuilt (some k)) rfl t).trans (routinely_notifyDrop ..)

theorem routinely_checkAssign (copies : List (Nat × Bytes)) (t : Trace Ctx) : Routinely t (checkAssign copies t) := by
  unfold checkAssign
  split
  · exact .note _ rfl _
  · exact .refl _ t

theorem routinely_trySendTo (conns : Nat → Conn) (tag : Tag Ctx) (ci : Nat) (pkt : Bytes) (t : Trace Ctx) :
    Routinely t (trySendTo P conns (some tag) ci pkt t).2 := by
  unfold trySendTo
  split
  · exact .refl _ t
  · split
    · exact .refl _ t
    · split <;> exact .note _ rfl _

/-- What `pump_session` and `resume_session` do: send what is queued, and drop what no packet can carry. -/
def Act.pumps : Act Ctx → Bool
  | .send _ _ _ (some tag) => tag.seq.isSome
  | .event e _ => e.kind == .deliveryDropped && e.err == .oversize
  | .unbuilt _ | .stuck _ => true
  | _ => false

theorem Act.routine_of_pumps (a : Act Ctx) (h : a.pumps = true) : a.routine = true := by
  cases a with
  | send ci pkt ok tag =>
    cases tag with
    | none => cases h
    | some tag => rfl
  | event e slot =>
    have hkind : e.kind = .deliveryDropped := by simpa using (Bool.and_eq_true_iff.1 h).1
    rw [Act.routine, hkind]
    rfl
  | unbuilt | stuck => rfl
  | _ => cases h

/-- The trace grows by such acts. -/
abbrev Pumping (t t' : Trace Ctx) : Prop := Adds (fun a => a.pumps = true) t t'

theorem pumping_unbuilt (k : Nat) (s : Session Ctx) (topic : Bytes) (qos : QoS) (t : Trace Ctx) :
    Pumping t (notifyDrop k s topic qos .oversize (.unbuilt (some k) :: t)) := .cons _ rfl (.one _ rfl)

theorem pumping_trySendTo (conns : Nat → Conn) (k : Nat) (s : Session Ctx) (n ci : Nat) (pkt : Bytes) (t : Trace Ctx) :
    Pumping t (trySendTo P conns (tagOf k s (some n)) ci pkt t).2 := by
  unfold trySendTo
  split
  · exact .refl _ t
  · split
    · exact .refl _ t
    · split <;> exact .one _ rfl

theorem pumping_pumpTurn (conns : Nat → Conn) (k i : Nat) (m : OutMsg) (w : Work Ctx) :
    Pumping w.2 (pumpTurn P conns k i m w).2.2 := by
  simp only [pumpTurn]
  split
  · exact .refl _ _
  · split
    · split <;> exact pumping_trySendTo ..
    · split
      · exact .refl _ _
      · split
        · exact .one _ rfl
        · split
          · exact pumping_unbuilt ..
          · split <;> exact pumping_trySendTo ..

theorem pumping_resumeTurn (conns : Nat → Conn) (k i : Nat) (m : OutMsg) (w : Work Ctx) :
    Pumping w.2 (resumeTurn P conns k i m w).2.2 := by
  simp only [resumeTurn]
  split
  · exact .refl _ _
  · split
    · split <;> exact pumping_trySendTo ..
    · generalize (if (m.state == OutState.queued) = true then w.1.allocPacketId else some m.packetId) = id
      cases id with
      | none => exact .one _ rfl
      | some id =>
        dsimp only
        generalize buildPublish P.T.outSize m.topic m.payload m.qos m.retain _ id = pkt
        by_cases hpkt : pkt.isEmpty = true
        · rw [if_pos hpkt]
          exact pumping_unbuilt ..
        · rw [if_neg hpkt]
          split <;> exact pumping_trySendTo ..

theorem pumping_queueLoop {turn : Nat → OutMsg → Work Ctx → Option Nat × Work Ctx}
    (hturn : ∀ i m w, Pumping w.2 (turn i m w).2.2) (n i : Nat) (w : Work Ctx) : Pumping w.2 (queueLoop turn n i w).2 :=
  queueLoop_keeps (I := fun w' => Pumping w.2 w'.2) (fun i m w' h => h.trans (hturn i m w')) n i (.refl _ _)

theorem pumping_pumpSession (conns : Nat → Conn) (k : Nat) (w : Work Ctx) : Pumping w.2 (pumpSession P conns k w).2 :=
  pumping_queueLoop (pumping_pumpTurn conns k) ..

theorem routinely_pumpSession (conns : Nat → Conn) (k : Nat) (w : Work Ctx) :
    Routinely w.2 (pumpSession P conns k w).2 := (pumping_pumpSession conns k w).mono Act.routine_of_pumps

theorem routinely_resumeSession (conns : Nat → Conn) (k : Nat) (w : Work Ctx) :
    Routinely w.2 (resumeSession P conns k w).2 :=
  (pumping_queueLoop (pumping_resumeTurn conns k) ..).mono Act.routine_of_pumps

theorem routinely_enqueue (conns : Nat → Conn) (k : Nat) (topic payload : Bytes) (eff : QoS) (retain : Bool)
    (w : Work Ctx) : Routinely w.2 (enqueue P conns k topic payload eff retain w).2 := by
  unfold enqueue
  split
  · exact .note _ rfl _
  · split
    · exact .note _ rfl _
    · dsimp only
      have hnote := (routinely_checkAssign [(P.T.maxTopicLen, topic), (P.T.maxPayloadLen, payload)] w.2).noted
        (.enqueue k w.1.nextSeq topic payload eff retain) rfl
      split
      · exact hnote.trans (routinely_pumpSession conns k (_, _))
      · exact hnote

theorem routinely_replayOne (conns : Nat → Conn) (ci k : Nat) (e : Entry) (here : Nat) (paused : Bool) (w : Work Ctx) :
    Routinely w.2 (replayOne P conns ci k e here paused w).2.2 := by
  have hnote : ∀ filters, Routinely w.2 (.matching k filters e.topic :: w.2) := fun _ => .note _ rfl _
  simp only [replayOne]
  split
  · exact .refl _ _
  · split
    · exact hnote _
    · split
      · exact (hnote _).noted _ rfl
      · split
        · exact (hnote _).trans (routinely_enqueue conns k e.topic e.payload _ true (_, _))
        · split
          · exact (hnote _).trans (routinely_unbuilt ..)
          · split <;> exact (hnote _).trans (routinely_trySendTo ..)

theorem routinely_replayLoop (conns : Nat → Conn) (ci k : Nat) : ∀ (es : List Entry) (here : Nat) (paused : Bool)
    (w : Work Ctx), Routinely w.2 (replayLoop P conns ci k es here paused w).2.2
  | [], _, _, _ => .refl _ _
  | e :: es, here, paused, w => by
    rw [replayLoop]
    exact (routinely_replayOne conns ci k e here paused w).trans (routinely_replayLoop conns ci k es ..)

theorem routinely_replayRetained (conns : Nat → Conn) (ci k : Nat) (es : List Entry) (w : Work Ctx) :
    Routinely w.2 (replayRetained P conns ci k es w).2 := by
  have h := (routinely_replayLoop (P := P) conns ci k es 0 false w).noted (.replay k) rfl
  simp only [replayRetained]
  split <;> exact h

/-! ## Work on the broker -/

/-- **A connection is as it was, or marked dead**, and the acts have the property. -/
structure Lasts (p : Act Ctx → Prop) (σ σ' : Broker Ctx) : Prop where
  conns : ∀ j, σ'.conns j = σ.conns j ∨ σ'.conns j = { σ.conns j with dead := true }
  acts : Adds p σ.trace σ'.trace
  now : σ'.nowMs = σ.nowMs

/-- **Routine work.** -/
abbrev Lasting (σ σ' : Broker Ctx) : Prop := Lasts (fun a => a.routine = true) σ σ'

section
variable {p q : Act Ctx → Prop} {σ σ' σ'' : Broker Ctx}

theorem Lasts.refl (p : Act Ctx → Prop) (σ : Broker Ctx) : Lasts p σ σ := ⟨fun _ => .inl rfl, .refl p _, rfl⟩

theorem Lasts.trans (h₁ : Lasts p σ σ') (h₂ : Lasts p σ' σ'') : Lasts p σ σ'' := by
  refine ⟨fun j => ?_, h₁.acts.trans h₂.acts, h₂.now.trans h₁.now⟩
  rcases h₂.conns j with e₂ | e₂ <;> rcases h₁.conns j with e₁ | e₁ <;> simp [e₂, e₁]

theorem Lasts.mono (hpq : ∀ a, p a → q a) (h : Lasts p σ σ') : Lasts q σ σ' := ⟨h.conns, h.acts.mono hpq, h.now⟩

theorem Lasts.of_conns (hconns : σ'.conns = σ.conns) (hacts : Adds p σ.trace σ'.trace) (hnow : σ'.nowMs = σ.nowMs) :
    Lasts p σ σ' := ⟨fun j => .inl (by rw [hconns]), hacts, hnow⟩

theorem Lasts.emit (a : Act Ctx) (ha : p a) (σ : Broker Ctx) : Lasts p σ (σ.emit a) := .of_conns rfl (.one a ha) rfl

theorem Lasts.setSession (k : Nat) (s : Session Ctx) (σ : Broker Ctx) : Lasts p σ (σ.setSession k s) :=
  .of_conns rfl (.refl p _) rfl

theorem Lasts.active (h : Lasts p σ σ') (j : Nat) : (σ'.conns j).active = (σ.conns j).active := by
  rcases h.conns j with e | e <;> rw [e]

theorem Lasts.foldl {α : Type} {f : Broker Ctx → α → Broker Ctx} (hf : ∀ σ a, Lasts p σ (f σ a)) :
    ∀ (l : List α) (σ : Broker Ctx), Lasts p σ (l.foldl f σ)
  | [], σ => .refl p σ
  | a :: l, σ => (hf σ a).trans (Lasts.foldl hf l _)

theorem lasting_emit (a : Act Ctx) (ha : a.routine = true) (σ : Broker Ctx) : Lasting σ (σ.emit a) := .emit a ha σ

theorem lasting_setDead (ci : Nat) (σ : Broker Ctx) : Lasting σ (σ.setDead ci) := by
  refine ⟨fun j => ?_, Routinely.note _ rfl _, rfl⟩
  rw [setDead_conns]
  split
  · rename_i hj
    exact .inr (by rw [hj])
  · exact .inl rfl

theorem lasting_notifyConn {kind : EventKind} (hkind : kind.routine = true) (ci : Nat) (slot : Option Nat)
    (σ : Broker Ctx) : Lasting σ (σ.notifyConn P kind ci slot) := by
  refine .of_conns rfl (.one _ ?_) rfl
  exact hkind

theorem lasting_violation (ci : Nat) (err : Err) (σ : Broker Ctx) : Lasting σ (σ.violation P ci err) :=
  (lasting_emit _ rfl σ).trans (lasting_setDead ci _)

theorem lasting_sendTo (tag : Tag Ctx) (ci : Nat) (pkt : Bytes) (σ : Broker Ctx) :
    Lasting σ (σ.sendTo P (some tag) ci pkt) := by
  have hcases := sendTo_cases P (some tag) ci pkt σ
  generalize σ.sendTo P (some tag) ci pkt = σ' at hcases ⊢
  cases hcases with
  | down => exact .refl _ σ
  | unbuilt => exact lasting_emit _ rfl σ
  | taken => exact lasting_emit _ rfl σ
  | refused => exact ((lasting_emit _ rfl σ).trans (lasting_notifyConn rfl ci none _)).trans (lasting_setDead ci _)

theorem lasting_onSession {k : Nat} {f : Work Ctx → Work Ctx} (hf : ∀ w, Routinely w.2 (f w).2) (σ : Broker Ctx) :
    Lasting σ (σ.onSession k f) := by
  unfold Broker.onSession
  split
  · exact .refl _ σ
  · exact .of_conns rfl (hf _) rfl

theorem lasting_routeOne (topic payload : Bytes) (qos : QoS) (σ : Broker Ctx) (k : Nat) :
    Lasting σ (Broker.routeOne P topic payload qos σ k) := by
  have hcases := routeOne_cases P topic payload qos σ k
  generalize σ.routeOne P topic payload qos k = σ' at hcases ⊢
  cases hcases with
  | vacant => exact .refl _ σ
  | unmatched => exact lasting_emit _ rfl σ
  | denied => exact (lasting_emit _ rfl σ).trans (lasting_emit _ rfl _)
  | @allowed s eff _ _ _ _ _ hgiven =>
    have hrouted : Lasting σ ((σ.emit (.matching k (s.subs.map Subscription.filter) topic)).emit
        (.routed k topic payload eff)) := (lasting_emit _ rfl σ).trans (lasting_emit _ rfl _)
    cases hgiven with
    | live => exact hrouted.trans (lasting_sendTo ..)
    | offline => exact hrouted
    | queued => exact hrouted.trans (lasting_onSession (routinely_enqueue _ k topic payload _ false) _)
    | gone => exact hrouted

theorem lasting_routePublish (origin : Option (Origin Ctx)) (topic payload : Bytes) (qos : QoS) (σ : Broker Ctx) :
    Lasting σ (σ.routePublish P origin topic payload qos) :=
  (lasting_emit (.route origin topic payload qos) rfl σ).trans (.foldl (lasting_routeOne topic payload qos) _ _)

theorem routinely_retainedNote (topic : Bytes) (store store' : Pool Entry) (t : Trace Ctx) :
    Routinely t (σ.retainedNote P topic store store' ++ t) := by
  unfold Broker.retainedNote
  split
  all_goals first | exact .note _ rfl _ | exact .refl _ t

theorem lasting_applyRetain (origin : Option (Origin Ctx)) (topic payload : Bytes) (qos : QoS) (σ : Broker Ctx) :
    Lasting σ (σ.applyRetain P origin topic payload qos).2 := by
  have hnote : Routinely σ.trace (.retain origin topic payload qos :: σ.trace) := .note _ rfl _
  unfold Broker.applyRetain
  split
  · exact .of_conns rfl (hnote.trans (routinely_retainedNote ..)) rfl
  dsimp only
  generalize Retained.set P.T topic payload qos σ.retained = r
  generalize ht : (if r.1 == .stored then _ else _ : Trace Ctx) = t
  have hcopied : Routinely σ.trace t := by
    rw [← ht]
    split
    · exact hnote.trans (routinely_checkAssign ..)
    · exact hnote
  have hstored : Lasting σ { σ with retained := r.2, trace := σ.retainedNote P topic σ.retained r.2 ++ t } :=
    .of_conns rfl (hcopied.trans (routinely_retainedNote ..)) rfl
  split <;> split
  · exact (hstored.trans (lasting_emit _ rfl _)).trans (lasting_emit _ rfl _)
  · exact hstored.trans (lasting_emit _ rfl _)
  · exact hstored.trans (lasting_emit _ rfl _)
  · exact hstored

theorem lasting_submitWill (k ci : Nat) (s : Session Ctx) (σ : Broker Ctx) : Lasting σ (σ.submitWill P k ci s) := by
  simp only [Broker.submitWill]
  have hnote := fun allowed => (Lasts.setSession k { s with hasWill := false } σ).trans
    (lasting_emit (.submit k ci s.authCtx s.willTopic s.willPayload s.willQos s.willRetain allowed) rfl _)
  split
  · split
    · exact ((hnote _).trans (lasting_applyRetain ..)).trans (lasting_routePublish ..)
    · exact (hnote _).trans (lasting_routePublish ..)
  · exact hnote _

theorem lasting_trackInbound (k ci id : Nat) (s : Session Ctx) (σ : Broker Ctx) :
    Lasting σ (σ.trackInbound P k ci id s) := by
  unfold Broker.trackInbound
  split
  · exact lasting_emit _ rfl σ
  split
  · exact (((lasting_notifyConn rfl ci (some k) σ).trans (lasting_emit _ rfl _)).trans (.setSession k _ _)).trans
      (lasting_emit _ rfl _)
  · exact (Lasts.setSession k _ σ).trans (lasting_emit _ rfl _)

theorem lasting_acceptPublish (k : Nat) (s : Session Ctx) (p : PublishPacket) (σ : Broker Ctx) :
    Lasting σ (σ.acceptPublish P k s p) := by
  unfold Broker.acceptPublish
  split
  · exact lasting_emit _ rfl σ
  · dsimp only
    split
    · exact (lasting_applyRetain _ _ _ _ σ).trans (lasting_routePublish ..)
    · exact lasting_routePublish ..

theorem lasting_pumpOne (σ : Broker Ctx) (k : Nat) : Lasting σ (σ.pumpOne P k) := by
  unfold Broker.pumpOne
  split
  · exact .refl _ σ
  split
  · exact .refl _ σ
  dsimp only
  split
  · exact (lasting_onSession (routinely_replayRetained _ _ k _) σ).trans
      (lasting_onSession (routinely_pumpSession _ k) _)
  · exact lasting_onSession (routinely_pumpSession _ k) σ

theorem expireOne_frame (nowMs : Nat) (σ : Broker Ctx) (k : Nat) :
    (σ.expireOne P nowMs k).conns = σ.conns ∧ (σ.expireOne P nowMs k).nowMs = σ.nowMs := by
  unfold Broker.expireOne
  split
  · exact ⟨rfl, rfl⟩
  · split
    · exact ⟨rfl, rfl⟩
    · split <;> exact ⟨rfl, rfl⟩

/-- Sessions that expire have no connection. -/
theorem expireSessions_frame (nowMs : Nat) (σ : Broker Ctx) :
    (σ.expireSessions P nowMs).conns = σ.conns ∧ (σ.expireSessions P nowMs).nowMs = σ.nowMs := by
  have hfold : ∀ (l : List Nat) (σ : Broker Ctx), (l.foldl (Broker.expireOne P nowMs) σ).conns = σ.conns ∧
      (l.foldl (Broker.expireOne P nowMs) σ).nowMs = σ.nowMs := by
    intro l
    induction l with
    | nil => exact fun _ => ⟨rfl, rfl⟩
    | cons k l ih =>
      intro σ
      obtain ⟨hconns, hnow⟩ := expireOne_frame (P := P) nowMs σ k
      exact ⟨(ih _).1.trans hconns, (ih _).2.trans hnow⟩
  unfold Broker.expireSessions
  split
  · exact ⟨rfl, rfl⟩
  · exact hfold _ σ

/-! ## Teardown -/

/-- The acts of a teardown at time `now`, beside the routine ones and the event. -/
structure TeardownActs (now : Nat) (p : Act Ctx → Prop) : Prop where
  routine : ∀ a, a.routine = true → p a
  detach : ∀ k ci, p (.detach k ci)
  parked : ∀ k s, s.disconnectMs = now → p (.parked k s)
  release : ∀ k, p (.release k)
  close : ∀ ci, p (.close ci)

/-- What follows the closing of connection `ci` in its teardown touches no connection but to mark it dead. -/
theorem lasts_teardown {σ : Broker Ctx} (hp : TeardownActs σ.nowMs p) (ci : Nat) :
    Lasts p (closed P ci σ) (σ.teardown P ci) :=
  TeardownKeeps.teardown (I := Lasts p (closed P ci σ)) {
    off := fun k ci _ _ h => h.trans (.of_conns rfl (.cons _ (hp.detach k ci) (.one _ (hp.parked k _ h.now))) rfl)
    will := fun k ci s _ h => h.trans ((lasting_submitWill k ci s _).mono hp.routine)
    release := fun k h => h.trans (.of_conns rfl (.one _ (hp.release k)) rfl)
    close := fun ci h => h.trans (.of_conns rfl (.one _ (hp.close ci)) rfl) } (.refl _ _)

end

end Minimosq
