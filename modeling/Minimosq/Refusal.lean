import Minimosq.Chunking
/-!
# A CONNECT that is not accepted

Nothing but its own connection notices.  `Aloof` is a change that leaves every session, the retained store and every
other connection exactly as they were, with what it may do to the connection it is about.  A packet on a connection
without a session is such a change, and ends that connection, unless it is a CONNECT that is accepted.
-/
namespace Minimosq

variable {Ctx : Type} {P : Params Ctx} {ci : Nat}
variable {code : ConnackCode} {n : Nat} {new : Trace Ctx}

/-- What may be done about a connection that gets no session. -/
def Act.Rebuffs (P : Params Ctx) (ci : Nat) : Act Ctx → Prop
  | .send j pkt _ tag => j = ci ∧ tag = none ∧ ∃ code, code ≠ .accepted ∧ pkt = buildConnack P.T.outSize false code
  | .event _ slot => slot = none
  | .close j | .dead j | .packet j _ _ => j = ci
  | _ => False

def Act.isSend : Act Ctx → Bool
  | .send _ _ _ _ => true
  | _ => false

/-- **A change that only connection `ci` notices**, with at most `n` packets sent. -/
structure Aloof (P : Params Ctx) (ci n : Nat) (new : Trace Ctx) (σ σ' : Broker Ctx) : Prop where
  sessions : σ'.sessions = σ.sessions
  retained : σ'.retained = σ.retained
  order : σ'.disconnectOrder = σ.disconnectOrder
  others : ∀ j, j ≠ ci → σ'.conns j = σ.conns j
  session : (σ'.conns ci).session = (σ.conns ci).session
  trace : σ'.trace = new ++ σ.trace
  acts : ∀ a ∈ new, a.Rebuffs P ci
  sent : (new.filter Act.isSend).length ≤ n

section
variable {σ σ' σ'' : Broker Ctx} {n m : Nat} {new new' : Trace Ctx}

theorem Aloof.refl (P : Params Ctx) (ci : Nat) (σ : Broker Ctx) : Aloof P ci 0 [] σ σ :=
  ⟨rfl, rfl, rfl, fun _ _ => rfl, rfl, rfl, by simp, Nat.zero_le _⟩

theorem Aloof.trans (h₁ : Aloof P ci n new σ σ') (h₂ : Aloof P ci m new' σ' σ'') :
    Aloof P ci (n + m) (new' ++ new) σ σ'' where
  sessions := h₂.sessions.trans h₁.sessions
  retained := h₂.retained.trans h₁.retained
  order := h₂.order.trans h₁.order
  others := fun j hj => (h₂.others j hj).trans (h₁.others j hj)
  session := h₂.session.trans h₁.session
  trace := by rw [h₂.trace, h₁.trace, List.append_assoc]
  acts := List.forall_mem_append.2 ⟨h₂.acts, h₁.acts⟩
  sent := by
    rw [List.filter_append, List.length_append]
    have := h₁.sent
    have := h₂.sent
    omega

/-- Nothing is done: the clock, the id counter, or a field of the connection. -/
theorem Aloof.silent (sessions : σ'.sessions = σ.sessions) (retained : σ'.retained = σ.retained)
    (order : σ'.disconnectOrder = σ.disconnectOrder) (others : ∀ j, j ≠ ci → σ'.conns j = σ.conns j)
    (session : (σ'.conns ci).session = (σ.conns ci).session) (trace : σ'.trace = σ.trace) : Aloof P ci 0 [] σ σ' :=
  ⟨sessions, retained, order, others, session, trace, by simp, Nat.zero_le _⟩

theorem Aloof.mono (h : Aloof P ci n new σ σ') (hn : n ≤ m) : Aloof P ci m new σ σ' :=
  { h with sent := h.sent.trans hn }

theorem Aloof.emit (a : Act Ctx) (ha : a.Rebuffs P ci) (hsend : a.isSend = false) (σ : Broker Ctx) :
    Aloof P ci 0 [a] σ (σ.emit a) :=
  ⟨rfl, rfl, rfl, fun _ _ => rfl, rfl, rfl, by simpa using ha, by simp [hsend]⟩

theorem Aloof.event (e : Event) (σ : Broker Ctx) : Aloof P ci 0 [.event e none] σ (σ.emit (.event e none)) :=
  .emit (.event e none) rfl rfl σ

theorem Aloof.setDead (σ : Broker Ctx) : Aloof P ci 0 [.dead ci] σ (σ.setDead ci) where
  sessions := rfl
  retained := rfl
  order := rfl
  others := fun j hj => by rw [setDead_conns, if_neg hj]
  session := by rw [setDead_conns, if_pos rfl]
  trace := rfl
  acts := by simp [Act.Rebuffs]
  sent := by simp [Act.isSend]

theorem Aloof.violation (P : Params Ctx) (ci : Nat) (err : Err) (σ : Broker Ctx) :
    ∃ new, Aloof P ci 0 new σ (σ.violation P ci err) :=
  ⟨_, (Aloof.event _ σ).trans (Aloof.setDead _)⟩

/-- A CONNACK that refuses, whether it gets away or not. -/
theorem Aloof.connack (P : Params Ctx) (ci : Nat) (hcode : code ≠ .accepted) (σ : Broker Ctx) :
    ∃ new, Aloof P ci 1 new σ (σ.sendTo P none ci (buildConnack P.T.outSize false code)) := by
  have hone : ∀ ok, Aloof P ci 1 [.send ci (buildConnack P.T.outSize false code) ok none] σ
      (σ.emit (.send ci (buildConnack P.T.outSize false code) ok none)) :=
    fun _ => ⟨rfl, rfl, rfl, fun _ _ => rfl, rfl, rfl, List.forall_mem_singleton.2 ⟨rfl, rfl, code, hcode, rfl⟩,
      List.length_filter_le ..⟩
  have hcases := sendTo_cases P none ci (buildConnack P.T.outSize false code) σ
  generalize σ.sendTo P none ci (buildConnack P.T.outSize false code) = σ' at hcases ⊢
  cases hcases with
  | down => exact ⟨[], (Aloof.refl P ci σ).mono (Nat.zero_le 1)⟩
  | unbuilt _ _ hnil => exact absurd hnil (connack_isPacket P.T false code).ne_nil
  | taken => exact ⟨_, hone true⟩
  | refused => exact ⟨_, ((hone false).trans (.event _ _)).trans (.setDead _)⟩

theorem Aloof.refuse (P : Params Ctx) (ci : Nat) (hcode : code ≠ .accepted) (clientId : Bytes) (σ : Broker Ctx) :
    ∃ new, Aloof P ci 1 new σ (σ.refuse P ci code clientId) := by
  obtain ⟨new, hnew⟩ := Aloof.connack P ci hcode (σ.notifyRefused ci clientId code)
  exact ⟨_, ((Aloof.event _ σ).trans hnew).trans (.setDead _)⟩

theorem Aloof.teardown (hno : (σ.conns ci).session = noSession) : ∃ new, Aloof P ci 0 new σ (σ.teardown P ci) := by
  have hclosed : Aloof P ci 0 [.event (closedEvent P ci σ) none] σ (closed P ci σ) := {
    sessions := rfl
    retained := rfl
    order := rfl
    others := fun j hj => closed_conns_of_ne hj
    session := by rw [closed_conns_self, hno]; rfl
    trace := rfl
    acts := by simp [Act.Rebuffs]
    sent := by simp [Act.isSend] }
  have hof : σ.sessionOf P (σ.conns ci) = none := by simp [Broker.sessionOf, hno]
  simp only [Broker.teardown, hof]
  split
  · exact ⟨_, hclosed.trans (.emit (.close ci) rfl rfl _)⟩
  · exact ⟨_, hclosed⟩

/-- A dead connection without a session is dead for `flush_dead`, and nothing else is. -/
theorem Aloof.flush (hL : Linked P none σ) (hcalm : Calm ci σ) (hno : (σ.conns ci).session = noSession) :
    ∃ new, Aloof P ci 0 new σ (σ.flushDead P) := by
  refine (flushDead_rule (fun σ' => ∃ new, Aloof P ci 0 new σ σ') (fun σ' i hL' h hact hdead => ?_) hL
    ⟨[], .refl P ci σ⟩).2.1
  obtain ⟨new, h⟩ := h
  have hi : i = ci := by
    by_contra hi
    rw [h.others i hi] at hact hdead
    rw [hcalm i hi hact] at hdead
    cases hdead
  subst hi
  obtain ⟨new', h'⟩ := Aloof.teardown (P := P) (h.session.trans hno)
  exact ⟨_, h.trans h'⟩

end

/-! ## One packet -/

/-- **A packet on a connection without a session**: a CONNECT is accepted, or the connection is given up on and nobody
else notices. -/
def Rebuffed (P : Params Ctx) (ci : Nat) (σ σ' : Broker Ctx) : Prop :=
  ∃ new, σ'.trace = new ++ σ.trace ∧
    ((∃ a ∈ new, a.isBind = true) ∨ Aloof P ci 1 new σ σ' ∧ (σ'.conns ci).dead = true)

section
variable {σ σ' σ'' : Broker Ctx}

theorem Aloof.rebuffed (h : Aloof P ci n new σ σ') (hn : n ≤ 1) (hdead : (σ'.conns ci).dead = true) :
    Rebuffed P ci σ σ' := ⟨new, h.trace, .inr ⟨h.mono hn, hdead⟩⟩

theorem Accepted.rebuffed {k : Nat} {b : Session Ctx} {present : Bool} (h : Accepted k ci b present σ σ') :
    Rebuffed P ci σ σ' := by
  obtain ⟨newer, older, htrace, -⟩ := h
  exact ⟨newer ++ .bind k ci b present :: older, by simp [htrace], .inl ⟨.bind k ci b present, by simp, rfl⟩⟩

/-- Before it, only the note of the packet and the id counter. -/
theorem Aloof.rebuff (h₁ : Aloof P ci 0 new σ σ') (h₂ : Rebuffed P ci σ' σ'') : Rebuffed P ci σ σ'' := by
  obtain ⟨new', htrace, hcase⟩ := h₂
  refine ⟨new' ++ new, by rw [htrace, h₁.trace, List.append_assoc], ?_⟩
  rcases hcase with ⟨a, ha, hbind⟩ | ⟨h₂, hdead⟩
  · exact .inl ⟨a, List.mem_append_left _ ha, hbind⟩
  · exact .inr ⟨(h₁.trans h₂).mono (by simp), hdead⟩

theorem violation_rebuffed (err : Err) (σ : Broker Ctx) : Rebuffed P ci σ (σ.violation P ci err) := by
  obtain ⟨new, h⟩ := Aloof.violation P ci err σ
  exact h.rebuffed (Nat.zero_le 1) (by rw [Broker.violation, setDead_conns, if_pos rfl])

theorem refuse_rebuffed (hcode : code ≠ .accepted) (clientId : Bytes) (σ : Broker Ctx) :
    Rebuffed P ci σ (σ.refuse P ci code clientId) := by
  obtain ⟨new, h⟩ := Aloof.refuse P ci hcode clientId σ
  exact h.rebuffed (Nat.le_refl 1) (by rw [Broker.refuse, setDead_conns, if_pos rfl])

theorem counter_aloof (n : Nat) (σ : Broker Ctx) : Aloof P ci 0 [] σ { σ with autoIdCounter := n } :=
  .silent rfl rfl rfl (fun _ _ => rfl) rfl rfl

theorem handleConnect_rebuffed {f : UInt8} {body : Bytes} (hL : Linked P none σ) (hact : (σ.conns ci).active = true)
    (hdead : (σ.conns ci).dead = false) (hno : (σ.conns ci).session = noSession)
    (hlast : lastPacket σ.trace = some (ci, f, body)) (hf : packetType f = some .connect) :
    Rebuffed P ci σ (σ.handleConnect P ci body) := by
  have hheard := handleConnect_heard (P := P) ci body σ
  generalize σ.handleConnect P ci body = σ' at hheard ⊢
  cases hheard with
  | violation n err => exact (counter_aloof n σ).rebuff (violation_rebuffed err _)
  | refused n clientId _ hcode => exact (counter_aloof n σ).rebuff (refuse_rebuffed hcode clientId _)
  | @passed p ctx _ hp pass =>
    obtain ⟨n, hn⟩ := identify_state P p σ
    have hask := pass.asking hact hno hdead ⟨f, body, hlast, hf, hp⟩
    have hL₁ : Linked P none (σ.identify P p).2 := by
      rw [hn]
      exact { hL with }
    have hstart : Aloof P ci 0 [] σ (σ.identify P p).2 := hn ▸ counter_aloof n σ
    refine hstart.rebuff ?_
    have hout := connectAccepted_outcome hL₁ hask.active hask.free hask.up p (σ.identify P p).1 ctx
    generalize (σ.identify P p).2.connectAccepted P ci p (σ.identify P p).1 ctx = σ' at hout ⊢
    cases hout with
    | full hnone hbusy => exact refuse_rebuffed (by simp) _ _
    | fresh room halloc => exact (room.accepted hask hL₁ halloc).rebuffed
    | resumed hclean hs hid hoff => exact (hask.resumed_accepted hL₁ hclean hs hid hoff).rebuffed

theorem onPacket_rebuffed (hL : Linked P none σ) (hact : (σ.conns ci).active = true) (hdead : (σ.conns ci).dead = false)
    (hno : (σ.conns ci).session = noSession) (f : UInt8) (body : Bytes) :
    Rebuffed P ci σ (σ.onPacket P ci f body).2 := by
  have hnote : Aloof P ci 0 [.packet ci f body] σ (σ.emit (.packet ci f body)) := .emit (.packet ci f body) rfl rfl σ
  simp only [Broker.onPacket]
  split
  · exact hnote.rebuff (violation_rebuffed _ _)
  split
  · exact hnote.rebuff (violation_rebuffed _ _)
  rename_i hconnect
  have hf : packetType f = some .connect := by simpa [hno] using hconnect
  refine hnote.rebuff ?_
  simp only [Broker.dispatch, hf]
  exact handleConnect_rebuffed { hL with } hact hdead hno rfl hf

end

/-! ## One call -/

section
variable {σ σ' : Broker Ctx}

theorem Aloof.setParser (P : Params Ctx) (ci : Nat) (p : FrameParser) (σ : Broker Ctx) :
    Aloof P ci 0 [] σ (σ.setParser ci p) :=
  .silent rfl rfl rfl (fun _ hj => conns_setConn_of_ne hj ..) (by rw [Broker.setParser, conns_setConn_self]) rfl

theorem Aloof.calm (h : Aloof P ci n new σ σ') (hcalm : Calm ci σ) : Calm ci σ' := by
  intro j hj hact
  rw [h.others j hj] at hact ⊢
  exact hcalm j hj hact

/-- `conn_data` before the parser, on a connection without a session: only the clock. -/
theorem Aloof.beginData (hno : (σ.conns ci).session = noSession) (nowMs : Nat) :
    Aloof P ci 0 [] σ (σ.beginData P ci nowMs) := by
  rw [Broker.beginData, if_neg (by simp [hno])]
  exact .silent rfl rfl rfl (fun _ _ => rfl) rfl rfl

theorem Aloof.endData {r : Err × FrameParser × Broker Ctx} (hL : Linked P none r.2.2)
    (hact : (r.2.2.conns ci).active = true) (hcalm : Calm ci r.2.2) (hno : (r.2.2.conns ci).session = noSession) :
    ∃ new, Aloof P ci 0 new r.2.2 (Minimosq.endData P ci r) := by
  have hset := Aloof.setParser P ci r.2.1 r.2.2
  have hL₁ : Linked P none (r.2.2.setParser ci r.2.1) := hL.setConn rfl rfl
  have hact₁ : ((r.2.2.setParser ci r.2.1).conns ci).active = true := by
    rw [Broker.setParser, conns_setConn_self]
    exact hact
  unfold Minimosq.endData
  split
  · have q := quiet_violation (P := P) (· = ci) rfl r.1 hact₁
    obtain ⟨new, hv⟩ := Aloof.violation P ci r.1 (r.2.2.setParser ci r.2.1)
    have h := hset.trans hv
    obtain ⟨new', hf⟩ := Aloof.flush (hL₁.quiet q) (h.calm hcalm) (h.session.trans hno)
    exact ⟨_, h.trans hf⟩
  · obtain ⟨new, hf⟩ := Aloof.flush hL₁ (hset.calm hcalm) (hset.session.trans hno)
    exact ⟨_, hset.trans hf⟩

/-- Feeding the parser of a connection without a session: no packet comes out, or the first of them is turned away or
gets a session. -/
theorem feed_rebuffed (hL : Linked P none σ) (hact : (σ.conns ci).active = true) (hdead : (σ.conns ci).dead = false)
    (hno : (σ.conns ci).session = noSession) {p : FrameParser} (hp : p.Held P.T.maxPacketSize) (data : Bytes) :
    let σ' := (p.feed P.T.maxPacketSize (Broker.onPacket P ci) data σ).2.2
    Handled P ci σ σ' ∧ (σ' = σ ∨ Rebuffed P ci σ σ') := by
  refine (FrameParser.feed_rule P.T.maxPacketSize (Broker.onPacket P ci) (fun σ => (σ.conns ci).dead)
    (onPacket_alive P ci) (fun σ' => Handled P ci σ σ' ∧ (σ' = σ ∨ Rebuffed P ci σ σ'))
    (fun f body σ' hlen h hd => ?_) hp data hdead ⟨.refl hL, .inl rfl⟩).1
  obtain ⟨h, hcase⟩ := h
  have hone := onPacket_handled h.linked (h.active.trans hact) hd f hlen.1
  refine ⟨h.trans hone, .inr ?_⟩
  rcases hcase with rfl | ⟨new, htrace, ⟨a, ha, hbind⟩ | ⟨-, hdead'⟩⟩
  · exact onPacket_rebuffed hL hact hdead hno f body
  · obtain ⟨new', htrace', -⟩ := hone.mild
    exact ⟨new' ++ new, by rw [htrace', htrace, List.append_assoc], .inl ⟨a, List.mem_append_right _ ha, hbind⟩⟩
  · rw [hd] at hdead'
    cases hdead'

/-- **What a call leaves that brought no session to the connection `ci`.** -/
structure Repelled (P : Params Ctx) (ci : Nat) (σ σ' : Broker Ctx) : Prop where
  sessions : σ'.sessions = σ.sessions
  retained : σ'.retained = σ.retained
  order : σ'.disconnectOrder = σ.disconnectOrder
  others : ∀ j, j ≠ ci → σ'.conns j = σ.conns j
  acts : ∀ a ∈ actsSince σ σ', a.Rebuffs P ci
  sent : ((actsSince σ σ').filter Act.isSend).length ≤ 1
  closed : (∃ f body, .packet ci f body ∈ actsSince σ σ') → (σ'.conns ci).active = false

theorem Aloof.repelled (h : Aloof P ci n new σ σ') (hn : n ≤ 1)
    (hclosed : (∃ f body, .packet ci f body ∈ new) → (σ'.conns ci).active = false) : Repelled P ci σ σ' := by
  have hnew := actsSince_eq h.trace
  exact ⟨h.sessions, h.retained, h.order, h.others, hnew ▸ h.acts, hnew ▸ h.sent.trans hn, hnew ▸ hclosed⟩

theorem connData_repelled (hs : Sound P σ) (hno : (σ.conns ci).session = noSession) (data : Bytes) (nowMs : Nat)
    (hnone : ∀ a ∈ actsSince σ (σ.connData P ci data nowMs).2, a.isBind = false) :
    Repelled P ci σ (σ.connData P ci data nowMs).2 := by
  by_cases hopen : ci < P.T.maxConnections ∧ (σ.conns ci).active = true
  swap
  · rw [connData_of_inactive hopen]
    exact (Aloof.refl P ci σ).repelled (Nat.zero_le 1) (by simp)
  obtain ⟨hci, hact⟩ := hopen
  have hdead := hs.flushed ci hact
  have hb := beginData_spec hs.linked hs.parsers ci nowMs
  have hcalm : Calm ci σ := fun j _ h => hs.flushed j h
  have hbegun : Aloof P ci 0 [] σ ((σ.beginData P ci nowMs).setParser ci {}) :=
    (Aloof.beginData hno nowMs).trans (.setParser P ci {} _)
  have hself : ((σ.beginData P ci nowMs).setParser ci {}).conns ci =
      { (σ.beginData P ci nowMs).conns ci with parser := {} } := conns_setConn_self ..
  have hL₀ : Linked P none ((σ.beginData P ci nowMs).setParser ci {}) := hb.linked.setConn rfl rfl
  have hact₀ : (((σ.beginData P ci nowMs).setParser ci {}).conns ci).active = true := by
    rw [hself]
    exact hb.active.trans hact
  have hfed := feed_rebuffed hL₀ hact₀ (by rw [hself]; exact hb.dead.trans hdead) (hbegun.session.trans hno)
    (hb.parsers ci) data
  rw [connData_eq hci hact hdead] at hnone ⊢
  generalize (σ.beginData P ci nowMs).setParser ci {} = σ₀ at hbegun hact₀ hfed hnone ⊢
  generalize FrameParser.feed P.T.maxPacketSize (Broker.onPacket P ci) _ data σ₀ = r at hfed hnone ⊢
  obtain ⟨h, hcase⟩ := hfed
  have hact₁ := h.active.trans hact₀
  rcases hcase with heq | ⟨new, htrace, ⟨a, ha, hbind⟩ | ⟨haloof, hdead₁⟩⟩
  · by_cases halive : r.1 = .ok ∧ (r.2.2.conns ci).dead = false
    · obtain ⟨err, p, τ⟩ := r
      obtain ⟨rfl, hdeadτ⟩ : err = .ok ∧ (τ.conns ci).dead = false := halive
      obtain rfl : τ = σ₀ := heq
      rw [endData_alive (hbegun.calm hcalm) hdeadτ]
      exact (hbegun.trans (.setParser P ci p τ)).repelled (by simp) (by simp)
    · have hclosed := endData_ended h.linked hact₁ halive
      obtain ⟨new, hend⟩ := Aloof.endData h.linked hact₁ (heq ▸ hbegun.calm hcalm) (by rw [heq, hbegun.session, hno])
      exact (hbegun.trans (heq ▸ hend)).repelled (by simp) (fun _ => hclosed)
  · -- The session the CONNECT got is still there at the end of the call.
    obtain ⟨new', htrace', -⟩ := (endData_course h.linked hact₁).mild
    have he : (endData P ci r).trace = (new' ++ new) ++ σ.trace := by
      rw [htrace', htrace, hbegun.trace, List.nil_append, List.append_assoc]
    rw [actsSince_eq he] at hnone
    rw [hnone a (List.mem_append_right _ ha)] at hbind
    cases hbind
  · have hclosed := endData_ended h.linked hact₁ (fun halive => by rw [halive.2] at hdead₁; cases hdead₁)
    have hto := hbegun.trans haloof
    obtain ⟨new', hend⟩ := Aloof.endData h.linked hact₁ (hto.calm hcalm) (hto.session.trans hno)
    exact (hto.trans hend).repelled (by simp) (fun _ => hclosed)

/-- **A CONNECT that gets no session changes nothing but its own connection**, in every run: the sessions, the retained
store and every other connection are as they were when the call began, and all there is to see of it is the packet
itself, one refusing CONNACK at most, what the observer was told and the end of the connection.  No session was taken
over, released or evicted, and no will was submitted. -/
theorem run_connect_repelled (P : Params Ctx) (inputs : List Input) (ci : Nat) (data : Bytes) (nowMs : Nat)
    (hno : ((run P inputs).conns ci).session = noSession)
    (hnone : ∀ a ∈ actsSince (run P inputs) (run P (inputs ++ [.connData ci data nowMs])), a.isBind = false) :
    Repelled P ci (run P inputs) (run P (inputs ++ [.connData ci data nowMs])) := by
  rw [run_snoc] at hnone ⊢
  exact connData_repelled (run_stepped P inputs).sound hno data nowMs hnone

/-- Every slot has a connected session: a fourth client is refused, and only its connection is closed. -/
theorem connect_repelled_full : let P := bed (fun _ _ _ => true)
    let σ := run P (Input.connect 0 [97] {} ++ Input.connect 1 [98] {} ++ Input.connect 2 [99] {} ++ [.connOpen 3 1000])
    let σ' := run P ((Input.connect 0 [97] {} ++ Input.connect 1 [98] {} ++ Input.connect 2 [99] {} ++
      [.connOpen 3 1000]) ++ [.connData 3 (Wire.makeConnect [100] {}) 1000])
    Repelled P 3 σ σ' ∧ .send 3 [32, 2, 0, 3] true none ∈ actsSince σ σ' ∧ (σ'.conns 2).active = true :=
  ⟨run_connect_repelled _ _ 3 _ 1000 (by decide +kernel) (by decide +kernel), by decide +kernel, by decide +kernel⟩

end

end Minimosq
