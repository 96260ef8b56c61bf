import Minimosq.Routine
/-!
# Coming, going and being cleared away

What teardown, `flush_dead` and CONNECT leave alone, from any state whatever.  They end connections and mark them dead;
all they do to a connection that is still there is mark it dead, the one a CONNECT came on apart (`Ebbs`).  They answer
no packet, open no connection and let nothing time out, and report no session taken over but one.
-/
namespace Minimosq

variable {Ctx : Type} {P : Params Ctx}

/-- The event is none of `conn_open`'s and none of `tick`'s own, and of a takeover only if `taken`. -/
def EventKind.upkeep (taken : Bool) : EventKind → Bool
  | .connectionOpened | .connectTimeout | .keepaliveTimeout | .idleTimeout | .sessionExpired => false
  | .sessionTakenOver => taken
  | _ => true

/-- A packet sent is for a session, or a CONNACK, a session that lost its connection lost it at time `now`, and one that
is taken over is in the slot `v`. -/
def Act.upkeep (now : Nat) (v : Option Nat) : Act Ctx → Bool
  | .send _ pkt _ tag => tag.isSome || headType pkt == some .connack
  | .event e slot => e.kind.upkeep (slot == v)
  | .packet _ _ _ => false
  | .parked _ s => s.disconnectMs == now
  | _ => true

theorem EventKind.upkeep_of_routine {kind : EventKind} {b : Bool} (h : kind.routine = true) : kind.upkeep b = true := by
  cases kind <;> first | rfl | cases h

theorem Act.upkeep_of_routine {now : Nat} {v : Option Nat} (a : Act Ctx) (h : a.routine = true) :
    a.upkeep now v = true := by
  cases a with
  | send ci pkt ok tag => exact Bool.or_eq_true_iff.2 (.inl h)
  | event e slot => exact EventKind.upkeep_of_routine h
  | packet ci f body | parked k s => cases h
  | _ => rfl

theorem teardownActs_upkeep (now : Nat) (v : Option Nat) :
    TeardownActs now (fun a : Act Ctx => a.upkeep now v = true) :=
  ⟨Act.upkeep_of_routine, fun _ _ => rfl, fun _ _ h => beq_iff_eq.2 h, fun _ => rfl, fun _ => rfl⟩

/-- The trace grows by such acts. -/
abbrev Upkept (now : Nat) (v : Option Nat) (t t' : Trace Ctx) : Prop := Adds (fun a => a.upkeep now v = true) t t'

theorem upkept_note {now : Nat} {v : Option Nat} (a : Act Ctx) (ha : a.upkeep now v = true) (t : Trace Ctx) :
    Upkept now v t (a :: t) :=
  .one a ha

/-- **A connection that is still there is as it was, or marked dead**, those in `own` apart. -/
structure Ebbs (own : Nat → Prop) (v : Option Nat) (σ σ' : Broker Ctx) : Prop where
  conns : ∀ j, ¬own j → (σ'.conns j).active = true →
    σ'.conns j = σ.conns j ∨ σ'.conns j = { σ.conns j with dead := true }
  acts : Upkept σ.nowMs v σ.trace σ'.trace
  now : σ'.nowMs = σ.nowMs

section
variable {own own' : Nat → Prop} {v : Option Nat} {σ σ' σ'' : Broker Ctx} {ci : Nat}

theorem Lasts.ebbs (h : Lasts (fun a => a.upkeep σ.nowMs v = true) σ σ') : Ebbs own v σ σ' :=
  ⟨fun j _ _ => h.conns j, h.acts, h.now⟩

theorem Ebbs.of_lasting (h : Lasting σ σ') : Ebbs own v σ σ' := (h.mono Act.upkeep_of_routine).ebbs

theorem Ebbs.refl (own : Nat → Prop) (v : Option Nat) (σ : Broker Ctx) : Ebbs own v σ σ := (Lasts.refl _ σ).ebbs

theorem Ebbs.trans (h₁ : Ebbs own v σ σ') (h₂ : Ebbs own v σ' σ'') : Ebbs own v σ σ'' := by
  refine ⟨fun j hj hact => ?_, h₁.acts.trans (h₁.now ▸ h₂.acts), h₂.now.trans h₁.now⟩
  have he₂ := h₂.conns j hj hact
  have hact' : (σ'.conns j).active = true := by
    rcases he₂ with e | e <;> rw [e] at hact <;> exact hact
  rcases he₂ with e₂ | e₂ <;> rcases h₁.conns j hj hact' with e₁ | e₁ <;> simp [e₂, e₁]

theorem Ebbs.of_conns (hconns : σ'.conns = σ.conns) (hacts : Upkept σ.nowMs v σ.trace σ'.trace)
    (hnow : σ'.nowMs = σ.nowMs) : Ebbs own v σ σ' := (Lasts.of_conns hconns hacts hnow).ebbs

theorem ebbs_emit (a : Act Ctx) (ha : ∀ now, a.upkeep now v = true) (σ : Broker Ctx) : Ebbs own v σ (σ.emit a) :=
  .of_conns rfl (upkept_note a (ha _) _) rfl

theorem ebbs_release (k : Nat) (σ : Broker Ctx) : Ebbs own v σ (σ.release P k) :=
  .of_conns rfl (upkept_note _ rfl _) rfl

/-! ## Teardown and `flush_dead` -/

/-- The connection that is torn down is not there any more. -/
theorem ebbs_teardown (ci : Nat) (σ : Broker Ctx) : Ebbs own v σ (σ.teardown P ci) := by
  have hclosed : Ebbs own v σ (closed P ci σ) := by
    refine ⟨fun j _ hact => ?_, upkept_note _ rfl _, rfl⟩
    by_cases hj : j = ci
    · rw [hj, closed_conns_self] at hact
      cases hact
    · exact .inl (closed_conns_of_ne hj)
  exact hclosed.trans (lasts_teardown (σ := σ) (teardownActs_upkeep σ.nowMs v) ci).ebbs

theorem ebbs_flushLoop (n : Nat) (σ : Broker Ctx) : Ebbs own v σ (Broker.flushLoop P n σ) :=
  flushLoop_keeps (I := Ebbs own v σ) (fun σ' i h => h.trans (ebbs_teardown i σ')) n (.refl own v σ)

theorem ebbs_flushDead (σ : Broker Ctx) : Ebbs own v σ (σ.flushDead P) := ebbs_flushLoop _ σ

/-! ## CONNECT -/

/-- A packet of the type of a CONNACK, whatever becomes of it. -/
theorem ebbs_sendTo_connack {pkt : Bytes} (hpkt : headType pkt = some .connack) (ci : Nat) (σ : Broker Ctx) :
    Ebbs own v σ (σ.sendTo P none ci pkt) := by
  have hsent : ∀ ok, Ebbs own v σ (σ.emit (.send ci pkt ok none)) :=
    fun ok => ebbs_emit _ (fun _ => by simp [Act.upkeep, hpkt]) σ
  have hcases := sendTo_cases P none ci pkt σ
  generalize σ.sendTo P none ci pkt = σ' at hcases ⊢
  cases hcases with
  | down => exact .refl own v σ
  | unbuilt => exact ebbs_emit _ (fun _ => rfl) σ
  | taken => exact hsent true
  | refused =>
    exact ((hsent false).trans (.of_lasting (lasting_notifyConn rfl ci none _))).trans
      (.of_lasting (lasting_setDead ci _))

theorem ebbs_refuse (ci : Nat) (code : ConnackCode) (clientId : Bytes) (σ : Broker Ctx) :
    Ebbs own v σ (σ.refuse P ci code clientId) :=
  ((ebbs_emit _ (fun _ => rfl) σ).trans (ebbs_sendTo_connack (connack_isPacket P.T false code).headType ci _)).trans
    (.of_lasting (lasting_setDead ci _))

theorem ebbs_violation (ci : Nat) (err : Err) (σ : Broker Ctx) : Ebbs own v σ (σ.violation P ci err) :=
  .of_lasting (lasting_violation ci err σ)

theorem upkept_checkAssign {now : Nat} (copies : List (Nat × Bytes)) (t : Trace Ctx) :
    Upkept now v t (checkAssign copies t) :=
  (routinely_checkAssign copies t).mono Act.upkeep_of_routine

/-- The connection the CONNECT came on gets its session; what follows leaves it as it is. -/
theorem connectBind_ebbs (ci : Nat) (p : ConnectPacket) (ctx : Ctx) (k : Nat) (present : Bool) (s : Session Ctx)
    (σ : Broker Ctx) : ∃ σ₂ : Broker Ctx, σ₂.conns = (σ.setConn ci (refreshDeadline P.T σ.nowMs
        { σ.conns ci with session := toU16 k, keepaliveS := p.keepaliveS })).conns ∧
      Upkept σ.nowMs v σ.trace σ₂.trace ∧ σ₂.nowMs = σ.nowMs ∧
      Ebbs own v σ₂ (σ.connectBind P ci p ctx k present s) := by
  simp only [Broker.connectBind]
  generalize hσ₂ : ({ (σ.setSession k _).setConn ci _ with trace := notifySession _ k _ _ } : Broker Ctx) = σ₂
  have hconns : σ₂.conns = (σ.setConn ci (refreshDeadline P.T σ.nowMs
      { σ.conns ci with session := toU16 k, keepaliveS := p.keepaliveS })).conns := by rw [← hσ₂]; rfl
  have hacts : Upkept σ.nowMs v σ.trace σ₂.trace := by
    rw [← hσ₂]
    refine (upkept_checkAssign _ _).trans ((upkept_note _ rfl _).trans (upkept_note _ ?_ _))
    cases present <;> rfl
  have hsent : Ebbs own v σ₂ _ := ebbs_sendTo_connack (P := P) (connack_isPacket P.T present .accepted).headType ci σ₂
  refine ⟨σ₂, hconns, hacts, by rw [← hσ₂]; rfl, ?_⟩
  split
  · exact (hsent.trans (.of_lasting (lasting_onSession (routinely_resumeSession _ k) _))).trans
      (ebbs_emit _ (fun _ => rfl) _)
  · exact hsent

theorem ebbs_connectBind (own : Nat → Prop) (hci : own ci) (p : ConnectPacket) (ctx : Ctx) (k : Nat) (present : Bool)
    (s : Session Ctx) (σ : Broker Ctx) : Ebbs own v σ (σ.connectBind P ci p ctx k present s) := by
  obtain ⟨σ₂, hconns, hacts, hnow, h⟩ := connectBind_ebbs (P := P) ci p ctx k present s σ
  refine .trans ⟨fun j hj _ => .inl ?_, hacts, hnow⟩ h
  rw [hconns, conns_setConn_of_ne (fun h : j = ci => hj (h ▸ hci))]

theorem ebbs_takenOver (clientId : Bytes) (σ : Broker Ctx) :
    Ebbs own (σ.findClient P clientId) σ (takenOver P clientId σ) := by
  unfold takenOver
  split
  · exact .refl own _ σ
  · split
    · exact .refl own _ σ
    · rename_i k hfind _ s _
      have hnote : Ebbs own (some k) σ { σ with trace := notifySession .sessionTakenOver k s σ.trace } :=
        ebbs_emit _ (fun _ => by simp [Act.upkeep, EventKind.upkeep]) σ
      rw [hfind]
      split
      · exact (hnote.trans (.of_lasting (lasting_setDead s.conn _))).trans (ebbs_flushDead _)
      · exact .refl own _ σ

theorem ebbs_allocated (k : Nat) (pool : Pool (Session Ctx)) (clientId : Bytes) (σ : Broker Ctx) :
    Ebbs own v σ (allocated P k pool clientId σ) := by
  refine .of_conns rfl ?_ rfl
  exact (upkept_checkAssign [(P.T.maxClientIdLen, clientId)] σ.trace).trans (upkept_note (.alloc k) rfl _)

theorem Room.ebbs {p : ConnectPacket} {clientId : Bytes} (h : Room P p clientId σ σ') :
    Ebbs own (σ.findClient P clientId) σ σ' := by
  cases h with
  | free hnone => exact .refl own _ σ
  | evicted hnone hfull hv hs hoff => exact .of_conns rfl ((upkept_note _ rfl _).trans (upkept_note _ rfl _)) rfl
  | vacated hs hid hgone => exact ebbs_takenOver clientId σ
  | replaced hclean hs hid hoff => exact (ebbs_takenOver clientId σ).trans (ebbs_release _ _)

theorem Outcome.ebbs (hci : own ci) {p : ConnectPacket} {clientId : Bytes} {ctx : Ctx}
    (h : Outcome P ci p clientId ctx σ σ') : Ebbs own (σ.findClient P clientId) σ σ' := by
  cases h with
  | full hnone hbusy => exact ebbs_refuse ci _ _ σ
  | fresh room halloc =>
    exact (room.ebbs.trans (ebbs_allocated ..)).trans (ebbs_connectBind own hci p ctx _ false _ _)
  | resumed hclean hs hid hoff => exact (ebbs_takenOver clientId σ).trans (ebbs_connectBind own hci p ctx _ true _ _)

/-- **CONNECT**, whatever becomes of it: it takes over no session but the one it finds, having passed its checks. -/
theorem ebbs_handleConnect (own : Nat → Prop) (hci : own ci) (hL : Linked P none σ) (hact : (σ.conns ci).active = true)
    (hdead : (σ.conns ci).dead = false) (body : Bytes) : ∃ v, Ebbs own v σ (σ.handleConnect P ci body) ∧
      ∀ k, v = some k → ∃ p ctx, parseConnect body = .ok p ∧ Passes P p (σ.identify P p).1 ctx σ.trace ∧
        (σ.identify P p).2.findClient P (σ.identify P p).1 = some k := by
  have hcounter : ∀ v n, Ebbs own v σ { σ with autoIdCounter := n } := fun v n => .of_conns rfl (.refl _ _) rfl
  have heard := handleConnect_heard (P := P) ci body σ
  generalize σ.handleConnect P ci body = σ' at heard ⊢
  cases heard with
  | violation n err => exact ⟨none, (hcounter none n).trans (ebbs_violation ci err _), by simp⟩
  | refused n clientId hno hcode => exact ⟨none, (hcounter none n).trans (ebbs_refuse ci _ clientId _), by simp⟩
  | @passed p ctx hno hp pass =>
    refine ⟨_, ?_, fun k hv => ⟨p, ctx, hp, pass, hv⟩⟩
    obtain ⟨n, hn⟩ := identify_state P p σ
    have hL₁ : Linked P none { σ with autoIdCounter := n } := { hL with }
    have hout := connectAccepted_outcome hL₁ hact hno hdead p (σ.identify P p).1 ctx
    rw [hn]
    exact (hcounter _ n).trans (hout.ebbs hci)

end

end Minimosq
