import Minimosq.Routine
/-!
# The broker and the verdicts of its transport

The broker sees its transport only through the verdicts it gets.  `P.wired v` is the broker's parameters with `v` in the
place of the transport.  Where `v` gives the transport's verdict on every `send` of a call, the call over `v` is the
same call (`Follows`), function by function and from any state whatever.  Nor does a call speak for the transport: no
connection opens but in `conn_open`, and none is reported closed but by `conn_closed` (`Act.indoor`).
-/
namespace Minimosq

variable {Ctx : Type}

/-- The same policies over another transport. -/
def Params.wired (P : Params Ctx) (v : Trace Ctx → Nat → Bytes → Bool) : Params Ctx := { P with send := v }

@[simp] theorem Params.wired_T (P : Params Ctx) (v : Trace Ctx → Nat → Bytes → Bool) : (P.wired v).T = P.T := rfl

@[simp] theorem Params.wired_sec (P : Params Ctx) (v : Trace Ctx → Nat → Bytes → Bool) : (P.wired v).sec = P.sec := rfl

/-- The act is neither `conn_open`'s nor `conn_closed`'s own. -/
def Act.indoor : Act Ctx → Bool
  | .event e _ => e.kind != .connectionOpened
  | .peerClosed _ => false
  | _ => true

theorem Act.indoor_of_routine (a : Act Ctx) (h : a.routine = true) : a.indoor = true := by
  cases a with
  | event e slot =>
    have hne : e.kind ≠ .connectionOpened := by
      intro he
      rw [Act.routine, he] at h
      cases h
    simp [Act.indoor, hne]
  | peerClosed ci => cases h
  | _ => rfl

/-- The trace grows by such acts. -/
abbrev Indoors (t t' : Trace Ctx) : Prop := Adds (fun a => a.indoor = true) t t'

/-- `v` gives the transport's verdict on every `send` in `t` but those among the first `n` acts. -/
def Gives (P : Params Ctx) (v : Trace Ctx → Nat → Bytes → Bool) (n : Nat) (t : Trace Ctx) : Prop :=
  ∀ ci pkt ok tag older, (.send ci pkt ok tag :: older) <:+ t → n ≤ older.length → v older ci pkt = P.send older ci pkt

/-- **The same over `v`**: from the trace `t` the broker gets to `x`, and over `v` to `y`, which is `x` if `v` gives the
verdicts. -/
structure Follows {α : Type} (P : Params Ctx) (v : Trace Ctx → Nat → Bytes → Bool) (n : Nat) (tr : α → Trace Ctx)
    (t : Trace Ctx) (x y : α) : Prop where
  acts : Indoors t (tr x)
  same : n ≤ t.length → Gives P v n (tr x) → x = y

section
variable {α β : Type} {P : Params Ctx} {v : Trace Ctx → Nat → Bytes → Bool} {n : Nat} {tr : α → Trace Ctx}
  {tr' : β → Trace Ctx} {t t' : Trace Ctx} {x y : α}

theorem Gives.of_adds {p : Act Ctx → Prop} (h : Gives P v n t') (hadds : Adds p t t') : Gives P v n t := by
  obtain ⟨new, rfl, -⟩ := hadds
  exact fun ci pkt ok tag older hs => h ci pkt ok tag older (hs.trans (List.suffix_append new t))

theorem Adds.length_le {p : Act Ctx → Prop} (h : Adds p t t') : t.length ≤ t'.length := by
  obtain ⟨new, rfl, -⟩ := h
  simp

/-- The transport is not asked. -/
theorem Follows.of_acts (h : Indoors t (tr x)) : Follows P v n tr t x x := ⟨h, fun _ _ => rfl⟩

theorem Follows.refl (tr : α → Trace Ctx) (x : α) : Follows P v n tr (tr x) x x := .of_acts (.refl _ _)

theorem Follows.bind (h : Follows P v n tr t x y) {f g : α → β} (hfg : ∀ a, Follows P v n tr' (tr a) (f a) (g a)) :
    Follows P v n tr' t (f x) (g y) := by
  refine ⟨h.acts.trans (hfg x).acts, fun hn hgives => ?_⟩
  have hxy : x = y := h.same hn (hgives.of_adds (hfg x).acts)
  rw [← hxy]
  exact (hfg x).same (Nat.le_trans hn h.acts.length_le) hgives

theorem Follows.map (h : Follows P v n tr t x y) (f : α → β) (hf : ∀ a, Indoors (tr a) (tr' (f a))) :
    Follows P v n tr' t (f x) (f y) := h.bind (fun a => .of_acts (hf a))

/-- What came before asks nothing. -/
theorem Follows.after (hacts : Indoors t t') (h : Follows P v n tr t' x y) : Follows P v n tr t x y :=
  ⟨hacts.trans h.acts, fun hn => h.same (Nat.le_trans hn hacts.length_le)⟩

theorem Follows.ite {c : Prop} {i j : Decidable c} {x' y' : α} (hpos : c → Follows P v n tr t x y)
    (hneg : ¬c → Follows P v n tr t x' y') : Follows P v n tr t (@ite α c i x x') (@ite α c j y y') := by
  by_cases hc : c
  · rw [if_pos hc, if_pos hc]
    exact hpos hc
  · rw [if_neg hc, if_neg hc]
    exact hneg hc

theorem Follows.foldl {f g : α → β → α} (h : ∀ a b, Follows P v n tr (tr a) (f a b) (g a b)) :
    ∀ (l : List β) (a : α), Follows P v n tr (tr a) (l.foldl f a) (l.foldl g a)
  | [], a => .refl tr a
  | b :: l, a => (h a b).bind (Follows.foldl h l)

end

/-! ## Work on one session -/

section
variable {P : Params Ctx} {v : Trace Ctx → Nat → Bytes → Bool} {n : Nat}

theorem follows_trySendTo (conns : Nat → Conn) (tag : Option (Tag Ctx)) (ci : Nat) (pkt : Bytes) (t : Trace Ctx) :
    Follows P v n Prod.snd t (trySendTo P conns tag ci pkt t) (trySendTo (P.wired v) conns tag ci pkt t) := by
  unfold trySendTo
  refine .ite (fun _ => .refl Prod.snd (false, t)) (fun _ => ?_)
  refine .ite (fun _ => .refl Prod.snd (false, t)) (fun _ => ?_)
  refine .ite (fun _ => .of_acts (.one (.unbuilt (tag.map Tag.slot)) rfl)) (fun _ => ?_)
  refine ⟨.one (.send ci pkt (P.send t ci pkt) tag) rfl, fun hn hgives => ?_⟩
  have hask : v t ci pkt = P.send t ci pkt := hgives ci pkt _ tag t (List.suffix_refl _) hn
  rw [show (P.wired v).send t ci pkt = P.send t ci pkt from hask]

/-- Where a turn of a loop over the queue leaves the trace. -/
abbrev turnTrace (r : Option Nat × Work Ctx) : Trace Ctx := r.2.2

theorem follows_pumpTurn (conns : Nat → Conn) (k i : Nat) (m : OutMsg) (w : Work Ctx) :
    Follows P v n turnTrace w.2 (pumpTurn P conns k i m w) (pumpTurn (P.wired v) conns k i m w) := by
  unfold pumpTurn
  refine .ite (fun _ => .refl turnTrace (none, w)) (fun _ => .ite (fun _ => ?_) (fun _ => ?_))
  · refine (follows_trySendTo conns _ _ _ w.2).map (fun r : Bool × Trace Ctx => if !r.1 then (none, (w.1, r.2))
      else (some (i + 1), (w.1.setPending i { m with resendPubrel := false }, r.2))) (fun r => ?_)
    split <;> exact .refl _ _
  refine .ite (fun _ => .refl turnTrace (some (i + 1), w)) (fun _ => ?_)
  cases w.1.allocPacketId with
  | none => exact .of_acts (.one (.stuck k) rfl)
  | some id =>
    refine .ite (fun _ => .of_acts ((routinely_unbuilt k _ m.topic m.qos w.2).mono Act.indoor_of_routine)) (fun _ => ?_)
    refine (follows_trySendTo conns _ _ _ w.2).map (fun r : Bool × Trace Ctx =>
      if !r.1 then (none, ({ w.1 with lastPacketId := id }, r.2))
      else (some (i + 1), ({ w.1 with lastPacketId := id }.setPending i
        { m with packetId := id, state := sentState m.qos }, r.2))) (fun r => ?_)
    split <;> exact .refl _ _

theorem follows_resumeTurn (conns : Nat → Conn) (k i : Nat) (m : OutMsg) (w : Work Ctx) :
    Follows P v n turnTrace w.2 (resumeTurn P conns k i m w) (resumeTurn (P.wired v) conns k i m w) := by
  unfold resumeTurn
  refine .ite (fun _ => .refl turnTrace (none, w)) (fun _ => .ite (fun _ => ?_) (fun _ => ?_))
  · refine (follows_trySendTo conns _ _ _ w.2).map (fun r : Bool × Trace Ctx =>
      if !r.1 then (none, (w.1.setPending i { m with resendPubrel := true }, r.2))
      else (some (i + 1), (w.1.setPending i { m with resendPubrel := false }, r.2))) (fun r => ?_)
    split <;> exact .refl _ _
  extract_lets firstSend
  cases (if firstSend = true then w.1.allocPacketId else some m.packetId) with
  | none => exact .of_acts (.one (.stuck k) rfl)
  | some id =>
    dsimp only
    generalize (if firstSend = true then { w.1 with lastPacketId := id } else w.1) = s₁
    have hunbuilt := (routinely_unbuilt k s₁ m.topic m.qos w.2).mono Act.indoor_of_routine
    refine .ite (fun _ => .of_acts hunbuilt) (fun _ => ?_)
    refine (follows_trySendTo conns _ _ _ w.2).map (fun r : Bool × Trace Ctx =>
      if !r.1 then (none, (s₁, r.2))
      else (some (i + 1), (s₁.setPending i (if firstSend then { m with packetId := id, state := sentState m.qos }
        else { m with dup := true }), r.2))) (fun r => ?_)
    split <;> exact .refl _ _

/-- The loop over the queue goes on where a turn left it. -/
def queueNext (turn : Nat → OutMsg → Work Ctx → Option Nat × Work Ctx) (fuel : Nat) (r : Option Nat × Work Ctx) :
    Work Ctx :=
  match r.1 with
  | none => r.2
  | some j => queueLoop turn fuel j r.2

theorem queueLoop_some {turn : Nat → OutMsg → Work Ctx → Option Nat × Work Ctx} {fuel i : Nat} {w : Work Ctx}
    {m : OutMsg} (hm : w.1.pending[i]? = some m) :
    queueLoop turn (fuel + 1) i w = queueNext turn fuel (turn i m w) := by
  simp only [queueLoop, hm, queueNext]
  split <;> simp_all

theorem follows_queueLoop {f g : Nat → OutMsg → Work Ctx → Option Nat × Work Ctx}
    (h : ∀ i m w, Follows P v n turnTrace w.2 (f i m w) (g i m w)) :
    ∀ (fuel i : Nat) (w : Work Ctx), Follows P v n Prod.snd w.2 (queueLoop f fuel i w) (queueLoop g fuel i w)
  | 0, _, w => .refl Prod.snd w
  | fuel + 1, i, w => by
    cases hm : w.1.pending[i]? with
    | none =>
      simp only [queueLoop, hm]
      exact .refl Prod.snd w
    | some m =>
      rw [queueLoop_some hm, queueLoop_some hm]
      refine (h i m w).bind (fun r => ?_)
      unfold queueNext
      cases r.1 with
      | none => exact .refl Prod.snd r.2
      | some j => exact follows_queueLoop h fuel j r.2

theorem follows_pumpSession (conns : Nat → Conn) (k : Nat) (w : Work Ctx) :
    Follows P v n Prod.snd w.2 (pumpSession P conns k w) (pumpSession (P.wired v) conns k w) :=
  follows_queueLoop (follows_pumpTurn conns k) _ 0 w

theorem follows_resumeSession (conns : Nat → Conn) (k : Nat) (w : Work Ctx) :
    Follows P v n Prod.snd w.2 (resumeSession P conns k w) (resumeSession (P.wired v) conns k w) :=
  follows_queueLoop (follows_resumeTurn conns k) _ 0 w

theorem follows_enqueue (conns : Nat → Conn) (k : Nat) (topic payload : Bytes) (eff : QoS) (retain : Bool)
    (w : Work Ctx) : Follows P v n Prod.snd w.2 (enqueue P conns k topic payload eff retain w)
      (enqueue (P.wired v) conns k topic payload eff retain w) := by
  have hdrop : ∀ err, Indoors w.2 (notifyDrop k w.1 topic eff err w.2) :=
    fun err => (routinely_notifyDrop k w.1 topic eff err w.2).mono Act.indoor_of_routine
  unfold enqueue
  refine .ite (fun _ => .of_acts (hdrop _)) (fun _ => .ite (fun _ => .of_acts (hdrop _)) (fun _ => ?_))
  have hnote := (routinely_checkAssign [(P.T.maxTopicLen, topic), (P.T.maxPayloadLen, payload)] w.2).noted
    (.enqueue k w.1.nextSeq topic payload eff retain) rfl
  have hindoors := hnote.mono Act.indoor_of_routine
  refine .ite (fun _ => .after hindoors ?_) (fun _ => .of_acts hindoors)
  exact follows_pumpSession conns k ({ w.1 with
    pending := w.1.pending ++ [outMsg P.T w.1 topic payload eff retain], nextSeq := w.1.nextSeq + 1 }, _)

/-- Where a visit of the loop of `replay_retained` leaves the trace. -/
abbrev visitTrace (r : Bool × Work Ctx) : Trace Ctx := r.2.2

theorem follows_replayOne (conns : Nat → Conn) (ci k : Nat) (e : Entry) (here : Nat) (paused : Bool) (w : Work Ctx) :
    Follows P v n visitTrace w.2 (replayOne P conns ci k e here paused w)
      (replayOne (P.wired v) conns ci k e here paused w) := by
  unfold replayOne
  refine .ite (fun _ => .refl visitTrace (paused, w)) (fun _ => ?_)
  extract_lets subs g t eff pkt
  have ht : Indoors w.2 t := .one (.matching k (subs.map Subscription.filter) e.topic) rfl
  refine .after ht (.ite (fun _ => .refl visitTrace (paused, (w.1, t))) (fun _ => ?_))
  refine .ite (fun _ => .of_acts (.one _ rfl)) (fun _ => .ite (fun _ => ?_) (fun _ => ?_))
  · exact (follows_enqueue conns k e.topic e.payload eff true (w.1, t)).map (fun w' => (paused, w'))
      (fun _ => .refl _ _)
  refine .ite (fun _ => ?_) (fun _ => ?_)
  · exact .of_acts ((routinely_unbuilt k w.1 e.topic .atMostOnce t).mono Act.indoor_of_routine)
  · refine (follows_trySendTo conns _ _ _ t).map (fun r : Bool × Trace Ctx =>
      if !r.1 then (true, ({ w.1 with retainCursor := here }, r.2)) else (paused, (w.1, r.2))) (fun r => ?_)
    split <;> exact .refl _ _

theorem follows_replayLoop (conns : Nat → Conn) (ci k : Nat) : ∀ (es : List Entry) (here : Nat) (paused : Bool)
    (w : Work Ctx), Follows P v n visitTrace w.2 (replayLoop P conns ci k es here paused w)
      (replayLoop (P.wired v) conns ci k es here paused w)
  | [], _, paused, w => .refl visitTrace (paused, w)
  | e :: es, here, paused, w =>
    (follows_replayOne conns ci k e here paused w).bind (fun r => follows_replayLoop conns ci k es (here + 1) r.1 r.2)

theorem follows_replayRetained (conns : Nat → Conn) (ci k : Nat) (es : List Entry) (w : Work Ctx) :
    Follows P v n Prod.snd w.2 (replayRetained P conns ci k es w) (replayRetained (P.wired v) conns ci k es w) := by
  refine (follows_replayLoop conns ci k es 0 false w).map (fun r : Bool × Work Ctx =>
    if r.1 then (r.2.1, .replay k :: r.2.2) else (clearPending { r.2.1 with retainCursor := 0 }, .replay k :: r.2.2))
    (fun r => ?_)
  split <;> exact .one (.replay k) rfl

end

/-! ## Work on the broker -/

/-- From `σ` the broker gets to `x`, and over `v` to `y`. -/
abbrev Repeats (P : Params Ctx) (v : Trace Ctx → Nat → Bytes → Bool) (n : Nat) (σ x y : Broker Ctx) : Prop :=
  Follows P v n Broker.trace σ.trace x y

/-- Where a call with an answer leaves the trace. -/
abbrev answerTrace {α : Type} (r : α × Broker Ctx) : Trace Ctx := r.2.trace

section
variable {P : Params Ctx} {v : Trace Ctx → Nat → Bytes → Bool} {n : Nat}

theorem Follows.of_lasting {σ σ' : Broker Ctx} (h : Lasting σ σ') : Repeats P v n σ σ' σ' :=
  .of_acts (h.acts.mono Act.indoor_of_routine)

theorem Follows.noted {σ σ₁ x y : Broker Ctx} {a : Act Ctx} (h : Repeats P v n (σ₁.emit a) x y) (ha : a.indoor = true)
    (htrace : σ₁.trace = σ.trace) : Repeats P v n σ x y :=
  .after (htrace ▸ .one a ha) h

theorem repeats_onSession {f g : Work Ctx → Work Ctx} (h : ∀ w, Follows P v n Prod.snd w.2 (f w) (g w)) (k : Nat)
    (σ : Broker Ctx) : Repeats P v n σ (σ.onSession k f) (σ.onSession k g) := by
  unfold Broker.onSession
  cases σ.sessions.slot k with
  | none => exact .refl _ σ
  | some s =>
    refine (h (s, σ.trace)).map (fun w => { σ with sessions := σ.sessions.set k w.1, trace := w.2 }) (fun w => ?_)
    exact .refl _ _

theorem repeats_sendTo (tag : Option (Tag Ctx)) (ci : Nat) (pkt : Bytes) (σ : Broker Ctx) :
    Repeats P v n σ (σ.sendTo P tag ci pkt) (σ.sendTo (P.wired v) tag ci pkt) := by
  unfold Broker.sendTo
  refine .ite (fun _ => .refl _ σ) (fun _ => .ite (fun _ => .refl _ σ) (fun _ => ?_))
  refine .ite (fun _ => .of_acts (.one (.unbuilt (tag.map Tag.slot)) rfl)) (fun _ => ?_)
  have hask : Indoors σ.trace (σ.emit (.send ci pkt (P.send σ.trace ci pkt) tag)).trace := .one _ rfl
  have hfail : ∀ σ₁ : Broker Ctx, Indoors σ₁.trace ((σ₁.notifyConn P .transportSendFailed ci).setDead ci).trace :=
    fun σ₁ => ((lasting_notifyConn rfl ci none σ₁).trans (lasting_setDead ci _)).acts.mono Act.indoor_of_routine
  have hsame : Gives P v n (σ.emit (.send ci pkt (P.send σ.trace ci pkt) tag)).trace → n ≤ σ.trace.length →
      (P.wired v).send σ.trace ci pkt = P.send σ.trace ci pkt :=
    fun hgives hn => hgives ci pkt _ tag σ.trace (List.suffix_refl _) hn
  dsimp only
  generalize P.send σ.trace ci pkt = ok at hask hsame ⊢
  refine ⟨?_, fun hn hgives => ?_⟩
  · split
    · exact hask.trans (hfail _)
    · exact hask
  · have hadds : Indoors (σ.emit (.send ci pkt ok tag)).trace
        (if (!ok) = true then ((σ.emit (.send ci pkt ok tag)).notifyConn P .transportSendFailed ci).setDead ci
          else σ.emit (.send ci pkt ok tag)).trace := by
      split
      · exact hfail _
      · exact .refl _ _
    rw [hsame (hgives.of_adds hadds) hn]
    rfl

theorem repeats_violation (ci : Nat) (err : Err) (σ : Broker Ctx) :
    Repeats P v n σ (σ.violation P ci err) (σ.violation (P.wired v) ci err) := .of_lasting (lasting_violation ci err σ)

theorem repeats_routeOne (topic payload : Bytes) (qos : QoS) (σ : Broker Ctx) (k : Nat) :
    Repeats P v n σ (σ.routeOne P topic payload qos k) (σ.routeOne (P.wired v) topic payload qos k) := by
  unfold Broker.routeOne
  cases σ.sessions.slot k with
  | none => exact .refl _ σ
  | some s =>
    dsimp only [Params.wired_T, Params.wired_sec]
    have hmatching : Indoors σ.trace (σ.emit (.matching k (s.subs.map Subscription.filter) topic)).trace := .one _ rfl
    generalize σ.emit (.matching k (s.subs.map Subscription.filter) topic) = σ₁ at hmatching ⊢
    refine .after hmatching (.ite (fun _ => .refl _ σ₁) (fun _ => .ite (fun _ => .of_acts (.one _ rfl)) (fun _ => ?_)))
    generalize qosMin qos (grantedMax s.subs topic).2 = eff
    have hrouted : Indoors σ₁.trace (σ₁.emit (.routed k topic payload eff)).trace := .one _ rfl
    generalize σ₁.emit (.routed k topic payload eff) = σ₂ at hrouted ⊢
    refine .after hrouted (.ite (fun _ => ?_) (fun _ => ?_))
    · exact .ite (fun _ => repeats_sendTo _ _ _ σ₂) (fun _ => .refl _ σ₂)
    · exact .ite (fun _ => repeats_onSession (follows_enqueue σ₂.conns k topic payload eff false) k σ₂)
        (fun _ => .refl _ σ₂)

theorem repeats_routePublish (origin : Option (Origin Ctx)) (topic payload : Bytes) (qos : QoS) (σ : Broker Ctx) :
    Repeats P v n σ (σ.routePublish P origin topic payload qos)
      (σ.routePublish (P.wired v) origin topic payload qos) := by
  have hroute : Indoors σ.trace (σ.emit (.route origin topic payload qos)).trace := .one _ rfl
  exact .after hroute (Follows.foldl (repeats_routeOne topic payload qos) (List.range P.T.maxSessions) (σ.emit _))

/-! ## Deferred teardown -/

theorem repeats_submitWill (k ci : Nat) (s : Session Ctx) (σ : Broker Ctx) :
    Repeats P v n σ (σ.submitWill P k ci s) (σ.submitWill (P.wired v) k ci s) := by
  unfold Broker.submitWill
  dsimp only [Params.wired_sec]
  generalize P.sec.authorizePublish σ.trace s.authCtx s.willTopic = allowed
  have hsubmit : Indoors σ.trace ((σ.setSession k { s with hasWill := false }).emit
      (.submit k ci s.authCtx s.willTopic s.willPayload s.willQos s.willRetain allowed)).trace := .one _ rfl
  generalize (σ.setSession k { s with hasWill := false }).emit
      (.submit k ci s.authCtx s.willTopic s.willPayload s.willQos s.willRetain allowed) = σ₁ at hsubmit ⊢
  refine .after hsubmit (.ite (fun _ => ?_) (fun _ => .refl _ σ₁))
  have hretain : Repeats P v n σ₁
      (if s.willRetain then (σ₁.applyRetain P (some ⟨k, ci, s.authCtx⟩) s.willTopic s.willPayload s.willQos).2 else σ₁)
      (if s.willRetain then
        (σ₁.applyRetain (P.wired v) (some ⟨k, ci, s.authCtx⟩) s.willTopic s.willPayload s.willQos).2 else σ₁) :=
    .ite (fun _ => .of_lasting (lasting_applyRetain ..)) (fun _ => .refl _ σ₁)
  exact hretain.bind (repeats_routePublish _ _ _ _)

theorem repeats_release (k : Nat) (σ : Broker Ctx) : Repeats P v n σ (σ.release P k) (σ.release (P.wired v) k) :=
  .of_acts (.one (.release k) rfl)

theorem repeats_dropSession (k ci : Nat) (s : Session Ctx) (σ : Broker Ctx) :
    Repeats P v n σ (σ.dropSession P k ci s) (σ.dropSession (P.wired v) k ci s) := by
  unfold Broker.dropSession
  extract_lets order s₁ σ₁
  have hparked : Indoors σ.trace σ₁.trace := .cons (.detach k ci) rfl (.one (.parked k s₁) rfl)
  have hwill : Repeats P v n σ₁ (if s.hasWill then σ₁.submitWill P k ci s₁ else σ₁)
      (if s.hasWill then σ₁.submitWill (P.wired v) k ci s₁ else σ₁) :=
    .ite (fun _ => repeats_submitWill k ci s₁ σ₁) (fun _ => .refl _ σ₁)
  exact .after hparked (.ite (fun _ => hwill.bind (repeats_release k)) (fun _ => hwill))

theorem repeats_teardown (ci : Nat) (σ : Broker Ctx) :
    Repeats P v n σ (σ.teardown P ci) (σ.teardown (P.wired v) ci) := by
  have hsession : σ.sessionOf (P.wired v) (σ.conns ci) = σ.sessionOf P (σ.conns ci) := rfl
  have hended : Indoors σ.trace (σ.notifyConn P .connectionClosed ci).trace := .one _ rfl
  unfold Broker.teardown
  dsimp only
  rw [hsession]
  cases σ.sessionOf P (σ.conns ci) with
  | none => exact .after hended (.ite (fun _ => .of_acts (.one (.close ci) rfl)) (fun _ => .of_acts (.refl _ _)))
  | some ks =>
    have hdrop := repeats_dropSession (P := P) (v := v) (n := n) ks.1 ci ks.2
      ((σ.notifyConn P .connectionClosed ci).setConn ci (σ.conns ci).gone)
    exact .after hended (.ite (fun _ => hdrop.map (Broker.emit (.close ci)) (fun _ => .one _ rfl)) (fun _ => hdrop))

theorem repeats_flushPass (σ : Broker Ctx) :
    Follows P v n answerTrace σ.trace (σ.flushPass P) (σ.flushPass (P.wired v)) := by
  refine Follows.foldl (fun acc i => ?_) _ (false, σ)
  refine .ite (fun _ => ?_) (fun _ => .of_acts (.refl _ _))
  exact (repeats_teardown i acc.2).map (fun σ => (true, σ)) (fun σ => .refl _ σ.trace)

theorem repeats_flushLoop : ∀ (fuel : Nat) (σ : Broker Ctx),
    Repeats P v n σ (Broker.flushLoop P fuel σ) (Broker.flushLoop (P.wired v) fuel σ)
  | 0, σ => .refl _ σ
  | fuel + 1, σ => by
    refine (repeats_flushPass σ).bind (f := fun r => if r.1 then Broker.flushLoop P fuel r.2 else r.2)
      (g := fun r => if r.1 then Broker.flushLoop (P.wired v) fuel r.2 else r.2) (fun r => ?_)
    exact .ite (fun _ => repeats_flushLoop fuel r.2) (fun _ => .refl _ r.2)

theorem repeats_flushDead (σ : Broker Ctx) : Repeats P v n σ (σ.flushDead P) (σ.flushDead (P.wired v)) :=
  repeats_flushLoop _ σ

/-! ## CONNECT -/

theorem repeats_refuse (ci : Nat) (code : ConnackCode) (clientId : Bytes) (σ : Broker Ctx) :
    Repeats P v n σ (σ.refuse P ci code clientId) (σ.refuse (P.wired v) ci code clientId) := by
  have hnote : Indoors σ.trace (σ.notifyRefused ci clientId code).trace := .one _ rfl
  exact .after hnote ((repeats_sendTo none ci _ (σ.notifyRefused ci clientId code)).map (Broker.setDead ci)
    (fun _ => .one (.dead ci) rfl))

theorem repeats_connectBind (ci : Nat) (p : ConnectPacket) (ctx : Ctx) (k : Nat) (present : Bool) (s : Session Ctx)
    (σ : Broker Ctx) : Repeats P v n σ (σ.connectBind P ci p ctx k present s)
      (σ.connectBind (P.wired v) ci p ctx k present s) := by
  simp only [Broker.connectBind, Params.wired_T]
  generalize hσ₂ : ({ (σ.setSession k _).setConn ci _ with trace := notifySession _ k _ _ } : Broker Ctx) = σ₂
  have hbind : Indoors σ.trace σ₂.trace := by
    rw [← hσ₂]
    refine ((routinely_checkAssign _ _).mono Act.indoor_of_routine).trans
      ((Adds.one (.bind k ci _ present) ?_).trans (.one (.event _ (some k)) ?_))
    · rfl
    · cases present <;> rfl
  have hconnack := repeats_sendTo (P := P) (v := v) (n := n) none ci (buildConnack P.T.outSize present .accepted) σ₂
  refine .after hbind (.ite (fun _ => ?_) (fun _ => hconnack))
  generalize boundSession P.T ci p ctx s = s₁
  refine hconnack.bind
    (f := fun σ₃ => (σ₃.onSession k (resumeSession P σ₃.conns k)).emit
      (.resumed k (online P.T σ₃.conns s₁ && (σ₃.conns (connIndex P.T s₁)).active)))
    (g := fun σ₃ => (σ₃.onSession k (resumeSession (P.wired v) σ₃.conns k)).emit
      (.resumed k (online P.T σ₃.conns s₁ && (σ₃.conns (connIndex P.T s₁)).active))) (fun σ₃ => ?_)
  refine (repeats_onSession (follows_resumeSession σ₃.conns k) k σ₃).map (Broker.emit (.resumed k _)) (fun σ₄ => ?_)
  exact .one _ rfl

theorem repeats_allocated (ci : Nat) (p : ConnectPacket) (clientId : Bytes) (ctx : Ctx) (k : Nat)
    (pool : Pool (Session Ctx)) (s : Session Ctx) (σ : Broker Ctx) :
    Repeats P v n σ ((allocated P k pool clientId σ).connectBind P ci p ctx k false s)
      ((allocated P k pool clientId σ).connectBind (P.wired v) ci p ctx k false s) :=
  .after (((routinely_checkAssign _ σ.trace).mono Act.indoor_of_routine).trans (.one (.alloc k) rfl))
    (repeats_connectBind ci p ctx k false s (allocated P k pool clientId σ))

/-- `alloc`, with the session it was for or a refusal. -/
def startOrRefuse (P : Params Ctx) (ci : Nat) (p : ConnectPacket) (clientId : Bytes) (ctx : Ctx) (σ : Broker Ctx) :
    Broker Ctx :=
  match σ.sessions.alloc P.T.maxSessions (freshSession P.T ctx clientId) with
  | none => σ.refuse P ci .serverUnavailable clientId
  | some kp =>
    (allocated P kp.1 kp.2 clientId σ).connectBind P ci p ctx kp.1 false (freshSession P.T ctx clientId)

/-- The session in slot `j` is evicted. -/
def evictedFrom (P : Params Ctx) (j : Nat) (σ : Broker Ctx) : Broker Ctx :=
  match σ.sessions.slot j with
  | none => σ
  | some sv => Broker.release P j { σ with trace := notifySession .sessionEvicted j sv σ.trace }

theorem connectAlloc_eq (ci : Nat) (p : ConnectPacket) (clientId : Bytes) (ctx : Ctx) (σ : Broker Ctx) :
    σ.connectAlloc P ci p clientId ctx =
      if (σ.sessions.alloc P.T.maxSessions (freshSession P.T ctx clientId)).isSome then
        startOrRefuse P ci p clientId ctx σ
      else
        match σ.oldestDisconnected P with
        | none => σ.refuse P ci .serverUnavailable clientId
        | some j => startOrRefuse P ci p clientId ctx (evictedFrom P j σ) := by
  cases halloc : σ.sessions.alloc P.T.maxSessions (freshSession P.T ctx clientId) with
  | some kp =>
    simp only [Broker.connectAlloc, startOrRefuse, halloc]
    rfl
  | none =>
    cases hold : σ.oldestDisconnected P with
    | none => simp only [Broker.connectAlloc, halloc, hold, Option.isSome_none, Bool.false_eq_true, if_false]
    | some j =>
      cases hs : σ.sessions.slot j with
      | none =>
        simp only [Broker.connectAlloc, startOrRefuse, evictedFrom, halloc, hold, hs, Option.isSome_none,
          Bool.false_eq_true, if_false]
      | some sv =>
        simp only [Broker.connectAlloc, startOrRefuse, evictedFrom, halloc, hold, hs, Option.isSome_none,
          Bool.false_eq_true, if_false]
        split
        · rename_i halloc'
          rw [halloc']
          rfl
        · rename_i halloc'
          rw [halloc']

theorem repeats_startOrRefuse (ci : Nat) (p : ConnectPacket) (clientId : Bytes) (ctx : Ctx) (σ : Broker Ctx) :
    Repeats P v n σ (startOrRefuse P ci p clientId ctx σ) (startOrRefuse (P.wired v) ci p clientId ctx σ) := by
  simp only [startOrRefuse, Params.wired_T]
  cases σ.sessions.alloc P.T.maxSessions (freshSession P.T ctx clientId) with
  | none => exact repeats_refuse ci .serverUnavailable clientId σ
  | some kp => exact repeats_allocated ci p clientId ctx kp.1 kp.2 _ σ

theorem indoors_evictedFrom (j : Nat) (σ : Broker Ctx) : Indoors σ.trace (evictedFrom P j σ).trace := by
  unfold evictedFrom
  split
  · exact .refl _ _
  · refine Adds.cons (.release j) ?_ (.one (.event _ (some j)) ?_)
    · rfl
    · rfl

theorem repeats_connectAlloc (ci : Nat) (p : ConnectPacket) (clientId : Bytes) (ctx : Ctx) (σ : Broker Ctx) :
    Repeats P v n σ (σ.connectAlloc P ci p clientId ctx) (σ.connectAlloc (P.wired v) ci p clientId ctx) := by
  have hold : σ.oldestDisconnected (P.wired v) = σ.oldestDisconnected P := rfl
  rw [connectAlloc_eq, connectAlloc_eq, hold]
  refine .ite (fun _ => repeats_startOrRefuse ci p clientId ctx σ) (fun _ => ?_)
  cases σ.oldestDisconnected P with
  | none => exact repeats_refuse ci .serverUnavailable clientId σ
  | some j => exact .after (indoors_evictedFrom j σ) (repeats_startOrRefuse ci p clientId ctx (evictedFrom P j σ))

theorem repeats_takenOver (clientId : Bytes) (σ : Broker Ctx) :
    Repeats P v n σ (takenOver P clientId σ) (takenOver (P.wired v) clientId σ) := by
  have hfind : σ.findClient (P.wired v) clientId = σ.findClient P clientId := rfl
  unfold takenOver
  rw [hfind]
  cases σ.findClient P clientId with
  | none => exact .refl _ σ
  | some k =>
    dsimp only
    cases σ.sessions.slot k with
    | none => exact .refl _ σ
    | some s =>
      refine .ite (fun _ => ?_) (fun _ => .refl _ σ)
      have hover : Indoors σ.trace
          (Broker.setDead s.conn { σ with trace := notifySession .sessionTakenOver k s σ.trace }).trace := by
        refine Adds.cons (.dead s.conn) ?_ (.one (.event _ (some k)) ?_)
        · rfl
        · rfl
      exact .after hover (repeats_flushDead _)

/-- `handle_connect` past its checks and the takeover. -/
def afterTakeover (P : Params Ctx) (ci : Nat) (p : ConnectPacket) (clientId : Bytes) (ctx : Ctx) (σ : Broker Ctx) :
    Broker Ctx :=
  match σ.findClient P clientId with
  | none => σ.connectAlloc P ci p clientId ctx
  | some k =>
    if p.cleanSession then (σ.release P k).connectAlloc P ci p clientId ctx
    else
      match σ.sessions.slot k with
      | none => σ
      | some s => σ.connectBind P ci p ctx k true s

theorem repeats_afterTakeover (ci : Nat) (p : ConnectPacket) (clientId : Bytes) (ctx : Ctx) (σ : Broker Ctx) :
    Repeats P v n σ (afterTakeover P ci p clientId ctx σ) (afterTakeover (P.wired v) ci p clientId ctx σ) := by
  have hfind : σ.findClient (P.wired v) clientId = σ.findClient P clientId := rfl
  unfold afterTakeover
  rw [hfind]
  cases σ.findClient P clientId with
  | none => exact repeats_connectAlloc ci p clientId ctx σ
  | some k =>
    refine .ite (fun _ => (repeats_release k σ).bind (repeats_connectAlloc ci p clientId ctx)) (fun _ => ?_)
    cases σ.sessions.slot k with
    | none => exact .refl _ σ
    | some s => exact repeats_connectBind ci p ctx k true s σ

theorem repeats_connectAccepted (ci : Nat) (p : ConnectPacket) (clientId : Bytes) (ctx : Ctx) (σ : Broker Ctx) :
    Repeats P v n σ (σ.connectAccepted P ci p clientId ctx) (σ.connectAccepted (P.wired v) ci p clientId ctx) :=
  (repeats_takenOver clientId σ).bind (repeats_afterTakeover ci p clientId ctx)

theorem repeats_connectChecked (ci : Nat) (p : ConnectPacket) (clientId : Bytes) (σ : Broker Ctx) :
    Repeats P v n σ (σ.connectChecked P ci p clientId) (σ.connectChecked (P.wired v) ci p clientId) := by
  unfold Broker.connectChecked
  refine .ite (fun _ => repeats_refuse ci _ _ σ) (fun _ => .ite (fun _ => repeats_violation ci _ σ) (fun _ => ?_))
  refine .ite (fun _ => repeats_refuse ci _ _ σ) (fun _ => .ite (fun _ => repeats_violation ci _ σ) (fun _ => ?_))
  refine .ite (fun _ => repeats_refuse ci _ _ σ) (fun _ => .ite (fun _ => repeats_refuse ci _ _ σ) (fun _ => ?_))
  exact repeats_connectAccepted ci p clientId _ σ

theorem generateLoop_wired (σ : Broker Ctx) : ∀ fuel c : Nat,
    Broker.generateLoop (P.wired v) σ fuel c = Broker.generateLoop P σ fuel c
  | 0, _ => rfl
  | fuel + 1, c => by
    have hfind : ∀ id, σ.findClient (P.wired v) id = σ.findClient P id := fun _ => rfl
    simp only [Broker.generateLoop, hfind, generateLoop_wired σ fuel]

theorem generateClientId_wired (σ : Broker Ctx) : σ.generateClientId (P.wired v) = σ.generateClientId P := by
  simp only [Broker.generateClientId, generateLoop_wired]

theorem repeats_handleConnect (ci : Nat) (body : Bytes) (σ : Broker Ctx) :
    Repeats P v n σ (σ.handleConnect P ci body) (σ.handleConnect (P.wired v) ci body) := by
  unfold Broker.handleConnect
  rw [generateClientId_wired]
  refine .ite (fun _ => repeats_violation ci _ σ) (fun _ => ?_)
  cases parseConnect body with
  | error e => exact repeats_violation ci _ σ
  | ok p =>
    refine .ite (fun _ => repeats_violation ci _ σ) (fun _ => .ite (fun _ => repeats_refuse ci _ _ σ) (fun _ => ?_))
    refine .ite (fun _ => .ite (fun _ => repeats_refuse ci _ _ σ) (fun _ => ?_)) (fun _ => ?_)
    · exact repeats_connectChecked ci p (σ.generateClientId P).1 (σ.generateClientId P).2
    · exact repeats_connectChecked ci p p.clientId σ

/-! ## The other handlers -/

theorem repeats_derefSession {f g : Nat → Session Ctx → Broker Ctx → Broker Ctx} (ci : Nat) (σ : Broker Ctx)
    (h : ∀ k s, Repeats P v n σ (f k s σ) (g k s σ)) :
    Repeats P v n σ (σ.derefSession P ci f) (σ.derefSession (P.wired v) ci g) := by
  have hof : σ.sessionOf (P.wired v) (σ.conns ci) = σ.sessionOf P (σ.conns ci) := rfl
  unfold Broker.derefSession
  rw [hof]
  cases σ.sessionOf P (σ.conns ci) with
  | none => exact .of_acts (.one (.nullDeref ci) rfl)
  | some ks => exact h ks.1 ks.2

theorem repeats_acceptPublish (k : Nat) (s : Session Ctx) (p : PublishPacket) (σ : Broker Ctx) :
    Repeats P v n σ (σ.acceptPublish P k s p) (σ.acceptPublish (P.wired v) k s p) := by
  unfold Broker.acceptPublish
  refine .ite (fun _ => .of_acts (.one _ rfl)) (fun _ => ?_)
  have hretain : Repeats P v n σ
      (if p.retain then (σ.applyRetain P (some ⟨k, s.conn, s.authCtx⟩) p.topic p.payload p.qos).2 else σ)
      (if p.retain then (σ.applyRetain (P.wired v) (some ⟨k, s.conn, s.authCtx⟩) p.topic p.payload p.qos).2 else σ) :=
    .ite (fun _ => .of_lasting (lasting_applyRetain ..)) (fun _ => .refl _ σ)
  exact hretain.bind (repeats_routePublish _ _ _ _)

theorem repeats_handlePublish (ci : Nat) (firstByte : UInt8) (body : Bytes) (σ : Broker Ctx) :
    Repeats P v n σ (σ.handlePublish P ci firstByte body) (σ.handlePublish (P.wired v) ci firstByte body) := by
  refine repeats_derefSession ci σ (fun k s => ?_)
  cases parsePublish firstByte body with
  | error e => exact repeats_violation ci _ σ
  | ok p =>
    refine .ite (fun _ => repeats_violation ci _ σ) (fun _ => .ite (fun _ => repeats_violation ci _ σ) (fun _ => ?_))
    have htrack : Repeats P v n σ (if p.qos == .exactlyOnce then σ.trackInbound P k ci p.packetId s else σ)
        (if p.qos == .exactlyOnce then σ.trackInbound (P.wired v) k ci p.packetId s else σ) :=
      .ite (fun _ => .of_lasting (lasting_trackInbound ..)) (fun _ => .refl _ σ)
    generalize (if p.qos == .exactlyOnce then σ.trackInbound P k ci p.packetId s else σ) = x at htrack ⊢
    generalize (if p.qos == .exactlyOnce then σ.trackInbound (P.wired v) k ci p.packetId s else σ) = y at htrack ⊢
    generalize (!(p.qos == .exactlyOnce && s.hasInboundQos2 p.packetId)) = deliver
    have hdeliver : Repeats P v n σ (if deliver then x.acceptPublish P k s p else x)
        (if deliver then y.acceptPublish (P.wired v) k s p else y) :=
      .ite (fun _ => htrack.bind (repeats_acceptPublish k s p)) (fun _ => htrack)
    exact .ite (fun _ => hdeliver.bind (repeats_sendTo none ci _))
      (fun _ => .ite (fun _ => hdeliver.bind (repeats_sendTo none ci _)) (fun _ => hdeliver))

theorem repeats_handleFinal (type : PacketType) (state : OutState) (ci : Nat) (body : Bytes) (σ : Broker Ctx) :
    Repeats P v n σ (σ.handleFinal P type state ci body) (σ.handleFinal (P.wired v) type state ci body) := by
  unfold Broker.handleFinal
  cases parsePacketIdOnly body with
  | error e => exact repeats_violation ci _ σ
  | ok id => exact repeats_derefSession ci σ (fun k s => .of_acts (.one (.ack k ci type id) rfl))

theorem repeats_handlePubrec (ci : Nat) (body : Bytes) (σ : Broker Ctx) :
    Repeats P v n σ (σ.handlePubrec P ci body) (σ.handlePubrec (P.wired v) ci body) := by
  unfold Broker.handlePubrec
  cases parsePacketIdOnly body with
  | error e => exact repeats_violation ci _ σ
  | ok id =>
    refine repeats_derefSession ci σ (fun k s => ?_)
    cases s.findPending id .awaitingPubrec .awaitingPubcomp with
    | none => exact .of_acts (.one (.ack k ci .pubrec id) rfl)
    | some i =>
      dsimp only
      cases s.pending[i]? with
      | none => exact .refl _ σ
      | some m => exact (repeats_sendTo _ ci _ _).noted (a := .ack k ci .pubrec id) rfl rfl

theorem repeats_handlePubrel (ci : Nat) (body : Bytes) (σ : Broker Ctx) :
    Repeats P v n σ (σ.handlePubrel P ci body) (σ.handlePubrel (P.wired v) ci body) := by
  unfold Broker.handlePubrel
  cases parsePacketIdOnly body with
  | error e => exact repeats_violation ci _ σ
  | ok id =>
    refine repeats_derefSession ci σ (fun k s => ?_)
    exact (repeats_sendTo none ci _ _).noted (a := .pubrel k id) rfl rfl

theorem indoors_subscribeEntry (k : Nat) (acc : Pass2 Ctx) (e : Bytes × QoS) :
    Indoors acc.t (subscribeEntry P k acc e).t := by
  unfold subscribeEntry
  split
  · exact .one _ rfl
  · dsimp only
    split
    · exact .refl _ _
    · exact (routinely_checkAssign _ acc.t).mono Act.indoor_of_routine

theorem indoors_subscribeFold (k : Nat) : ∀ (es : List (Bytes × QoS)) (acc : Pass2 Ctx),
    Indoors acc.t (es.foldl (subscribeEntry P k) acc).t
  | [], acc => .refl _ acc.t
  | e :: es, acc => (indoors_subscribeEntry k acc e).trans (indoors_subscribeFold k es _)

/-- The replay a SUBSCRIBE starts. -/
def replayAfresh (P : Params Ctx) (ci k : Nat) (σ : Broker Ctx) : Broker Ctx :=
  σ.onSession k (fun w =>
    replayRetained P σ.conns ci k (σ.retained.toList P.T.maxRetained) ({ w.1 with retainCursor := 0 }, w.2))

theorem repeats_replayAfresh (ci k : Nat) (σ : Broker Ctx) :
    Repeats P v n σ (replayAfresh P ci k σ) (replayAfresh (P.wired v) ci k σ) :=
  repeats_onSession (fun w => follows_replayRetained σ.conns ci k (σ.retained.toList P.T.maxRetained)
    ({ w.1 with retainCursor := 0 }, w.2)) k σ

theorem repeats_subscribeValid (k ci packetId : Nat) (es : List (Bytes × QoS)) (s : Session Ctx) (σ : Broker Ctx) :
    Repeats P v n σ (σ.subscribeValid P k ci packetId es s) (σ.subscribeValid (P.wired v) k ci packetId es s) := by
  have hpass : subscribePass2 (P.wired v) k packetId es s σ.trace =
      subscribePass2 P k packetId es s σ.trace := rfl
  have hacts : Indoors σ.trace (subscribePass2 P k packetId es s σ.trace).t := indoors_subscribeFold k es _
  unfold Broker.subscribeValid
  rw [hpass]
  generalize subscribePass2 P k packetId es s σ.trace = r at hacts ⊢
  dsimp only
  have hnote : Indoors σ.trace
      ({ σ with sessions := σ.sessions.set k r.s, trace := .subscribe k s r.granted :: r.t } : Broker Ctx).trace :=
    hacts.trans (.one (.subscribe k s r.granted) rfl)
  generalize ({ σ with sessions := σ.sessions.set k r.s, trace := .subscribe k s r.granted :: r.t } : Broker Ctx) = σ₁
    at hnote ⊢
  refine .after hnote (.ite (fun _ => repeats_violation ci _ σ₁) (fun _ => ?_))
  have hsuback := repeats_sendTo (P := P) (v := v) (n := n) none ci
    (framePacket (makeFirstByte .suback 0) r.w.buf) σ₁
  have hreplay := hsuback.bind (repeats_replayAfresh (P := P) ci k)
  exact .ite (fun _ => hreplay) (fun _ => hsuback)

theorem repeats_handleSubscribe (ci : Nat) (body : Bytes) (σ : Broker Ctx) :
    Repeats P v n σ (σ.handleSubscribe P ci body) (σ.handleSubscribe (P.wired v) ci body) := by
  refine repeats_derefSession ci σ (fun k s => ?_)
  refine .ite (fun _ => repeats_violation ci _ σ) (fun _ => .ite (fun _ => repeats_violation ci _ σ) (fun _ => ?_))
  exact repeats_subscribeValid k ci _ _ s σ

theorem repeats_handleUnsubscribe (ci : Nat) (body : Bytes) (σ : Broker Ctx) :
    Repeats P v n σ (σ.handleUnsubscribe P ci body) (σ.handleUnsubscribe (P.wired v) ci body) := by
  refine repeats_derefSession ci σ (fun k s => ?_)
  refine .ite (fun _ => repeats_violation ci _ σ) (fun _ => .ite (fun _ => repeats_violation ci _ σ) (fun _ => ?_))
  exact (repeats_sendTo none ci _ _).noted (a := .unsubscribe k _) rfl rfl

theorem repeats_handleDisconnect (ci : Nat) (body : Bytes) (σ : Broker Ctx) :
    Repeats P v n σ (σ.handleDisconnect P ci body) (σ.handleDisconnect (P.wired v) ci body) := by
  refine .ite (fun _ => repeats_violation ci _ σ) (fun _ => repeats_derefSession ci σ (fun k s => ?_))
  exact .of_acts (.cons (.dead ci) rfl (.one (.disconnect k ci) rfl))

/-! ## Dispatch -/

theorem repeats_dispatch (ci : Nat) (firstByte : UInt8) (body : Bytes) (σ : Broker Ctx) :
    Repeats P v n σ (σ.dispatch P ci firstByte body) (σ.dispatch (P.wired v) ci firstByte body) := by
  unfold Broker.dispatch
  cases packetType firstByte with
  | none => exact repeats_violation ci _ σ
  | some t =>
    cases t with
    | connect => exact repeats_handleConnect ci body σ
    | publish => exact repeats_handlePublish ci firstByte body σ
    | pubrel => exact repeats_handlePubrel ci body σ
    | puback => exact repeats_handleFinal .puback .awaitingPuback ci body σ
    | pubrec => exact repeats_handlePubrec ci body σ
    | pubcomp => exact repeats_handleFinal .pubcomp .awaitingPubcomp ci body σ
    | subscribe => exact repeats_handleSubscribe ci body σ
    | unsubscribe => exact repeats_handleUnsubscribe ci body σ
    | pingreq => exact .ite (fun _ => repeats_violation ci _ σ) (fun _ => repeats_sendTo none ci _ σ)
    | disconnect => exact repeats_handleDisconnect ci body σ
    | _ => exact repeats_violation ci _ σ

theorem follows_onPacket (ci : Nat) (firstByte : UInt8) (body : Bytes) (σ : Broker Ctx) :
    Follows P v n answerTrace σ.trace (σ.onPacket P ci firstByte body) (σ.onPacket (P.wired v) ci firstByte body) := by
  unfold Broker.onPacket
  have hnote : Indoors σ.trace (σ.emit (.packet ci firstByte body)).trace := .one _ rfl
  dsimp only
  generalize σ.emit (.packet ci firstByte body) = σ₀ at hnote ⊢
  have hviolation : ∀ err, Follows P v n answerTrace σ₀.trace (false, σ₀.violation P ci err)
      (false, σ₀.violation (P.wired v) ci err) :=
    fun err => (repeats_violation ci err σ₀).map (fun σ => (false, σ)) (fun σ => .refl _ σ.trace)
  refine .after hnote (.ite (fun _ => hviolation _) (fun _ => .ite (fun _ => hviolation _) (fun _ => ?_)))
  exact (repeats_dispatch ci firstByte body σ₀).map (fun σ => (!(σ.conns ci).dead, σ)) (fun σ => .refl _ σ.trace)

/-- Where the parser leaves the trace. -/
abbrev feedTrace (r : Err × FrameParser × Broker Ctx) : Trace Ctx := r.2.2.trace

/-- The loop of `feed` goes on, or stops, where a packet left it. -/
def feedNext (maxBody : Nat) (onPacket : UInt8 → Bytes → Broker Ctx → Bool × Broker Ctx) (fuel : Nat) (p : FrameParser)
    (data : Bytes) (r : Bool × Broker Ctx) : Err × FrameParser × Broker Ctx :=
  if !r.1 then (.ok, p, r.2) else FrameParser.feedLoop maxBody onPacket fuel p data r.2

theorem follows_feedLoop {f g : UInt8 → Bytes → Broker Ctx → Bool × Broker Ctx}
    (h : ∀ b body σ, Follows P v n answerTrace σ.trace (f b body σ) (g b body σ)) (maxBody : Nat) :
    ∀ (fuel : Nat) (p : FrameParser) (data : Bytes) (σ : Broker Ctx), Follows P v n feedTrace σ.trace
      (FrameParser.feedLoop maxBody f fuel p data σ) (FrameParser.feedLoop maxBody g fuel p data σ)
  | 0, p, _, σ => .refl feedTrace (.ok, p, σ)
  | fuel + 1, p, [], σ => .refl feedTrace (.ok, p, σ)
  | fuel + 1, p, b :: data, σ => by
    have ih := follows_feedLoop h maxBody fuel
    have hpacket : ∀ body p' rest, Follows P v n feedTrace σ.trace
        (feedNext maxBody f fuel p' rest (f p.firstByte body σ))
        (feedNext maxBody g fuel p' rest (g p.firstByte body σ)) := by
      intro body p' rest
      refine (h p.firstByte body σ).bind (fun r => ?_)
      exact .ite (fun _ => .refl feedTrace (.ok, p', r.2)) (fun _ => ih p' rest r.2)
    unfold FrameParser.feedLoop
    cases p.state with
    | firstByte => exact ih _ data σ
    | length =>
      refine .ite (fun _ => .ite (fun _ => .refl feedTrace (.malformed, _, σ)) (fun _ => ih _ data σ)) (fun _ => ?_)
      refine .ite (fun _ => .refl feedTrace (.oversize, _, σ)) (fun _ => .ite (fun _ => ?_) (fun _ => ih _ data σ))
      exact hpacket [] _ data
    | body => exact .ite (fun _ => hpacket _ _ _) (fun _ => ih _ _ σ)

theorem follows_feedConn (ci : Nat) (data : Bytes) (σ : Broker Ctx) :
    Follows P v n answerTrace σ.trace (σ.feedConn P ci data) (σ.feedConn (P.wired v) ci data) := by
  have hfeed := follows_feedLoop (follows_onPacket (P := P) (v := v) (n := n) ci) P.T.maxPacketSize data.length
    (σ.conns ci).parser data (σ.setParser ci {})
  exact hfeed.map (fun r => (r.1, r.2.2.setParser ci r.2.1)) (fun r => .refl _ _)

/-! ## Entry points -/

/-- `conn_closed` of a connection that is there: the transport's report, and what the broker makes of it. -/
theorem connClosed_same (ci : Nat) (σ : Broker Ctx) (hn : n ≤ σ.trace.length)
    (hgives : Gives P v n (σ.connClosed P ci).trace) : σ.connClosed P ci = σ.connClosed (P.wired v) ci := by
  unfold Broker.connClosed at hgives ⊢
  rw [Params.wired_T]
  split
  · rfl
  · rename_i hup
    rw [if_neg hup] at hgives
    exact (repeats_flushDead _).same (Nat.le_succ_of_le hn) hgives

theorem follows_connData (ci : Nat) (data : Bytes) (nowMs : Nat) (σ : Broker Ctx) :
    Follows P v n answerTrace σ.trace (σ.connData P ci data nowMs) (σ.connData (P.wired v) ci data nowMs) := by
  have hfeed : Follows P v n answerTrace σ.trace ((σ.beginData P ci nowMs).feedConn P ci data)
      ((σ.beginData (P.wired v) ci nowMs).feedConn (P.wired v) ci data) := by
    have hbegin : (σ.beginData P ci nowMs).trace = σ.trace := by
      unfold Broker.beginData
      dsimp only
      split <;> rfl
    rw [← hbegin]
    exact follows_feedConn ci data (σ.beginData P ci nowMs)
  unfold Broker.connData
  refine .ite (fun _ => .of_acts (.refl _ _)) (fun _ => .ite (fun _ => .of_acts (.refl _ _)) (fun _ => ?_))
  refine hfeed.bind (f := fun r => (r.1, (if r.1 != .ok then r.2.violation P ci r.1 else r.2).flushDead P))
    (g := fun r => (r.1, (if r.1 != .ok then r.2.violation (P.wired v) ci r.1 else r.2).flushDead (P.wired v)))
    (fun r => ?_)
  have hend : Repeats P v n r.2 (if r.1 != .ok then r.2.violation P ci r.1 else r.2)
      (if r.1 != .ok then r.2.violation (P.wired v) ci r.1 else r.2) :=
    .ite (fun _ => repeats_violation ci r.1 r.2) (fun _ => .refl _ r.2)
  exact (hend.bind repeats_flushDead).map (fun σ => (r.1, σ)) (fun σ => .refl _ σ.trace)

theorem repeats_timeoutOne (nowMs : Nat) (σ : Broker Ctx) (i : Nat) :
    Repeats P v n σ (σ.timeoutOne P nowMs i) (σ.timeoutOne (P.wired v) nowMs i) := by
  unfold Broker.timeoutOne
  refine .ite (fun _ => .refl _ σ) (fun _ => .ite (fun _ => .of_acts ?_) (fun _ => .refl _ σ))
  refine Adds.cons (.dead i) ?_ (.one (.event _ none) ?_)
  · rfl
  · simp only [Act.indoor]
    split
    · rfl
    · split <;> rfl

theorem repeats_pumpOne (σ : Broker Ctx) (k : Nat) : Repeats P v n σ (σ.pumpOne P k) (σ.pumpOne (P.wired v) k) := by
  unfold Broker.pumpOne
  cases σ.sessions.slot k with
  | none => exact .refl _ σ
  | some s =>
    refine .ite (fun _ => .refl _ σ) (fun _ => ?_)
    have hreplay : Repeats P v n σ
        (if s.anyRetainPending then
          σ.onSession k (replayRetained P σ.conns s.conn k (σ.retained.toList P.T.maxRetained)) else σ)
        (if s.anyRetainPending then
          σ.onSession k (replayRetained (P.wired v) σ.conns s.conn k (σ.retained.toList P.T.maxRetained)) else σ) :=
      .ite (fun _ => repeats_onSession (follows_replayRetained σ.conns s.conn k _) k σ) (fun _ => .refl _ σ)
    exact hreplay.bind (repeats_onSession (follows_pumpSession σ.conns k) k)

theorem repeats_expireSessions (nowMs : Nat) (σ : Broker Ctx) :
    Repeats P v n σ (σ.expireSessions P nowMs) (σ.expireSessions (P.wired v) nowMs) := by
  refine .ite (fun _ => .refl _ σ) (fun _ => Follows.foldl (fun σ k => ?_) _ σ)
  unfold Broker.expireOne
  cases σ.sessions.slot k with
  | none => exact .refl _ σ
  | some s =>
    refine .ite (fun _ => .refl _ σ) (fun _ => .ite (fun _ => .of_acts ?_) (fun _ => .refl _ σ))
    refine Adds.cons (.release k) ?_ (.one (.event _ (some k)) ?_)
    · rfl
    · rfl

theorem repeats_tick (nowMs : Nat) (σ : Broker Ctx) : Repeats P v n σ (σ.tick P nowMs) (σ.tick (P.wired v) nowMs) := by
  have hloops := (Follows.foldl (repeats_timeoutOne (P := P) (v := v) (n := n) nowMs) (List.range P.T.maxConnections)
    { σ with nowMs := nowMs }).bind (Follows.foldl (repeats_pumpOne (P := P)) (List.range P.T.maxSessions))
  exact (hloops.bind repeats_flushDead).bind (repeats_expireSessions nowMs)

theorem follows_publish (topic payload : Bytes) (qos : QoS) (retain : Bool) (σ : Broker Ctx) :
    Follows P v n answerTrace σ.trace (σ.publish P topic payload qos retain)
      (σ.publish (P.wired v) topic payload qos retain) := by
  unfold Broker.publish
  refine .ite (fun _ => .of_acts (.refl _ _)) (fun _ => .ite (fun _ => .of_acts (.refl _ _)) (fun _ => ?_))
  refine .ite (fun _ => .of_acts (.refl _ _)) (fun _ => ?_)
  have hnote : Indoors σ.trace (σ.emit (.application topic payload qos retain)).trace := .one _ rfl
  dsimp only
  generalize σ.emit (.application topic payload qos retain) = σ₁ at hnote ⊢
  let result : Err := if qos != .atMostOnce && decide (P.T.maxPayloadLen < payload.length) then .oversize else .ok
  have hretain : Follows P v n answerTrace σ₁.trace
      (if retain = true then σ₁.applyRetain P none topic payload qos else (true, σ₁))
      (if retain = true then σ₁.applyRetain (P.wired v) none topic payload qos else (true, σ₁)) :=
    .ite (fun _ => .of_acts ((lasting_applyRetain ..).acts.mono Act.indoor_of_routine))
      (fun _ => .refl answerTrace (true, σ₁))
  refine .after hnote (hretain.bind
    (f := fun r => (if (!r.1 && result == .ok) = true then .capacity else result,
      (r.2.routePublish P none topic payload qos).flushDead P))
    (g := fun r => (if (!r.1 && result == .ok) = true then .capacity else result,
      (r.2.routePublish (P.wired v) none topic payload qos).flushDead (P.wired v))) (fun r => ?_))
  refine ((repeats_routePublish none topic payload qos r.2).bind repeats_flushDead).map
    (fun σ => (if (!r.1 && result == .ok) = true then .capacity else result, σ)) (fun σ => ?_)
  exact .refl _ σ.trace

end

end Minimosq
