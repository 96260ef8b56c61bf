import Minimosq.Chunking
import Minimosq.Parting
import Minimosq.Upkeep
/-!
# The clock and what is set by it

Two things are set by the clock: the deadline of a connection and the stamp a session gets when it loses its connection.
Within one call nothing moves the deadline of another connection, every stamp is the present time (`Turn`), and the
deadline of the connection a packet came on is as it was or set at the present time (`Tended`).
-/
namespace Minimosq

open History (Star)

variable {Ctx : Type} {P : Params Ctx}
variable {c c' : Conn} {now : Nat} {p : ConnectPacket}

/-- Both connections time out together. -/
structure Conn.SameClock (c c' : Conn) : Prop where
  session : c'.session = c.session
  keepalive : c'.keepaliveS = c.keepaliveS
  deadline : c'.deadlineMs = c.deadlineMs

theorem Conn.SameClock.refl (c : Conn) : c.SameClock c := ⟨rfl, rfl, rfl⟩

theorem Conn.SameClock.trans {c'' : Conn} (h₁ : c.SameClock c') (h₂ : c'.SameClock c'') : c.SameClock c'' :=
  ⟨h₂.session.trans h₁.session, h₂.keepalive.trans h₁.keepalive, h₂.deadline.trans h₁.deadline⟩

theorem Conn.SameClock.of_dead (h : c' = c ∨ c' = { c with dead := true }) : c.SameClock c' := by
  rcases h with rfl | rfl <;> exact ⟨rfl, rfl, rfl⟩

/-- The deadline of a connection with a session was set at `now`. -/
structure Conn.Refreshed (T : Traits) (now : Nat) (c : Conn) : Prop where
  session : c.session ≠ noSession
  keepalive : c.keepaliveS < 65536
  deadline : (refreshDeadline T now c).deadlineMs = c.deadlineMs

theorem Conn.Refreshed.same {T : Traits} (h : c.Refreshed T now) (hc : c.SameClock c') : c'.Refreshed T now := by
  refine ⟨by rw [hc.session]; exact h.session, by rw [hc.keepalive]; exact h.keepalive, ?_⟩
  have hd := h.deadline
  simp only [refreshDeadline, hc.keepalive] at hd ⊢
  split
  · rename_i hk
    rw [if_pos hk] at hd
    rw [hc.deadline, ← hd]
  · rename_i hk
    rw [if_neg hk] at hd
    split
    · rename_i hi
      rw [if_pos hi] at hd
      rw [hc.deadline, ← hd]
    · rfl

theorem Conn.refreshed_refreshDeadline {T : Traits} (hs : c.session ≠ noSession) (hk : c.keepaliveS < 65536) :
    (refreshDeadline T now c).Refreshed T now := by
  refine ⟨by rwa [(refreshDeadline_sameLine T now c).session], ?_, by rw [refreshDeadline_idem]⟩
  simp only [refreshDeadline]
  split
  · exact hk
  · split <;> exact hk

/-- A session that loses its connection is stamped with `now`. -/
def Act.StampedAt (now : Nat) : Act Ctx → Prop
  | .parked _ s => s.disconnectMs = now
  | _ => True

theorem Act.stampedAt_of_upkeep {v : Option Nat} (a : Act Ctx) (h : a.upkeep now v = true) : a.StampedAt now := by
  cases a with
  | parked k s => exact eq_of_beq h
  | _ => trivial

theorem Act.stampedAt_of_ticket (a : Act Ctx) (h : a.ticket = none) : a.StampedAt now := by
  cases a with
  | parked k s => cases h
  | _ => trivial

/-- **A connection that is still there was there, on the same clock**, those in `own` apart, and every stamp is the
present time. -/
structure Turn (own : Nat → Prop) (σ σ' : Broker Ctx) : Prop where
  conns : ∀ j, ¬own j → (σ'.conns j).active = true → (σ.conns j).active = true ∧ (σ.conns j).SameClock (σ'.conns j)
  stamps : Adds (Act.StampedAt σ'.nowMs) σ.trace σ'.trace

section
variable {own : Nat → Prop} {σ σ' σ'' : Broker Ctx} {ci : Nat}

theorem Turn.refl (own : Nat → Prop) (σ : Broker Ctx) : Turn own σ σ := ⟨fun _ _ h => ⟨h, .refl _⟩, .refl _ _⟩

theorem Turn.trans (h₁ : Turn own σ σ') (h₂ : Turn own σ' σ'') (hnow : σ''.nowMs = σ'.nowMs) : Turn own σ σ'' := by
  refine ⟨fun j hj hact => ?_, .trans (hnow ▸ h₁.stamps) h₂.stamps⟩
  obtain ⟨hact', hsame'⟩ := h₂.conns j hj hact
  obtain ⟨hact₀, hsame₀⟩ := h₁.conns j hj hact'
  exact ⟨hact₀, hsame₀.trans hsame'⟩

theorem Turn.of_conns (hconns : ∀ j, ¬own j → σ'.conns j = σ.conns j) (htrace : σ'.trace = σ.trace) :
    Turn own σ σ' := by
  refine ⟨fun j hj hact => ?_, by rw [htrace]; exact .refl _ _⟩
  rw [hconns j hj] at hact ⊢
  exact ⟨hact, .refl _⟩

theorem Ebbs.turn {v : Option Nat} (h : Ebbs own v σ σ') : Turn own σ σ' := by
  refine ⟨fun j hj hact => ?_, ?_⟩
  · have he := h.conns j hj hact
    refine ⟨?_, .of_dead he⟩
    rcases he with e | e <;> rw [e] at hact <;> exact hact
  · rw [h.now]
    exact h.acts.mono Act.stampedAt_of_upkeep

theorem Lasts.turn (h : Lasting σ σ') : Turn own σ σ' := (Ebbs.of_lasting (v := none) h).turn

/-! ## Serving -/

theorem Act.ticket_of_delivers {a : Act Ctx} (h : a.delivers = true) : a.ticket = none := by
  cases a <;> first | rfl | cases h

theorem TStep.ticket {k : Nat} {h : Trace Ctx} {s s' : Session Ctx} {acts : Trace Ctx} (d : TStep P k h s acts s') :
    ∀ a ∈ acts, a.ticket = none := by
  cases d with
  | deliver d => exact fun a ha => a.ticket_of_delivers (d.delivers a ha)
  | subs subs cursor hacts =>
    intro a ha
    have := hacts a ha
    cases a <;> first | rfl | cases this
  | publish ci topic payload qos t ha => cases ha <;> simp [Act.ticket]

/-- No session is parked while every slot serves. -/
theorem Serves.ticket {new : Trace Ctx} (h : Serves P σ σ') (htrace : σ'.trace = new ++ σ.trace) :
    ∀ a ∈ new, a.ticket = none := by
  have hslot : ∀ k, ∀ a ∈ slotActs k new, a.ticket = none := by
    intro k
    have hrun : ∃ acts, slotActs k σ'.trace = acts ++ slotActs k σ.trace ∧ ∀ a ∈ acts, a.ticket = none := by
      refine (h k).inv (fun h _ => ∃ acts, h = acts ++ slotActs k σ.trace ∧ ∀ a ∈ acts, a.ticket = none) ?_
        ⟨[], rfl, by simp⟩
      rintro _ _ acts _ ⟨acts', rfl, hacts'⟩ ⟨s, s', -, -, d⟩
      exact ⟨acts ++ acts', (List.append_assoc ..).symm, List.forall_mem_append.2 ⟨d.ticket, hacts'⟩⟩
    obtain ⟨acts, he, hacts⟩ := hrun
    rw [htrace, slotActs_append, List.append_cancel_right_eq] at he
    rw [he]
    exact hacts
  intro a ha
  cases hk : a.slot with
  | some k => exact hslot k a (mem_slotActs.2 ⟨ha, hk⟩)
  | none => cases a <;> first | rfl | cases hk

theorem Hush.turn (q : Hush P own σ σ') : Turn (fun _ => False) σ σ' := by
  refine ⟨fun j _ hact => ⟨by rwa [q.active] at hact, ?_⟩, ?_⟩
  · rcases q.conns j with e | ⟨e, -⟩
    · exact .of_dead (.inl e)
    · exact .of_dead (.inr e)
  · obtain ⟨new, he, -⟩ := q.grows
    exact ⟨new, he, fun a ha => a.stampedAt_of_ticket (q.slots.ticket he a ha)⟩

/-! ## A packet -/

/-- **What a packet on `ci` does to the clocks.** -/
structure Tended (P : Params Ctx) (ci : Nat) (σ σ' : Broker Ctx) : Prop extends Turn (· = ci) σ σ' where
  now : σ'.nowMs = σ.nowMs
  own : (σ.conns ci).SameClock (σ'.conns ci) ∨ (σ'.conns ci).Refreshed P.T σ.nowMs

theorem Tended.trans (h₁ : Tended P ci σ σ') (h₂ : Tended P ci σ' σ'') : Tended P ci σ σ'' := by
  refine ⟨h₁.toTurn.trans h₂.toTurn h₂.now, h₂.now.trans h₁.now, ?_⟩
  rcases h₂.own with hs₂ | hr₂
  · exact h₁.own.imp (fun hs₁ => hs₁.trans hs₂) (fun hr₁ => hr₁.same hs₂)
  · exact .inr (h₁.now ▸ hr₂)

theorem Turn.mono {own' : Nat → Prop} (h : Turn own σ σ') (hown : ∀ j, own j → own' j) : Turn own' σ σ' :=
  ⟨fun j hj => h.conns j (fun ho => hj (hown j ho)), h.stamps⟩

/-- Nothing is set by the clock but stamps, and the connection is there at the end. -/
theorem Turn.tended (h : Turn (fun _ => False) σ σ') (hnow : σ'.nowMs = σ.nowMs) (hact : (σ'.conns ci).active = true) :
    Tended P ci σ σ' := ⟨h.mono (fun _ => False.elim), hnow, .inl (h.conns ci id hact).2⟩

theorem Ebbs.tended {v : Option Nat} (h : Ebbs (fun _ => False) v σ σ') (hact : (σ'.conns ci).active = true) :
    Tended P ci σ σ' :=
  h.turn.tended h.now hact

theorem Quiet.tended {own : Nat → Prop} (q : Quiet P own σ σ') (hact : (σ.conns ci).active = true) : Tended P ci σ σ' :=
  q.toHush.turn.tended q.now ((q.active ci).trans hact)

/-- The connection the CONNECT came on was there, and its deadline is set. -/
theorem connectBind_tended (hp : p.keepaliveS < 65536) {k : Nat} (hk : k < P.T.maxSessions) (ctx : Ctx)
    (present : Bool) (s : Session Ctx) (hact : ((σ.connectBind P ci p ctx k present s).conns ci).active = true) :
    (σ.conns ci).active = true ∧ Tended P ci σ (σ.connectBind P ci p ctx k present s) := by
  have hall : Ebbs (· = ci) none σ (σ.connectBind P ci p ctx k present s) := ebbs_connectBind
      (· = ci) rfl p ctx k present s σ
  obtain ⟨σ₂, hconns, -, -, h⟩ := connectBind_ebbs (P := P) ci p ctx k present s σ
  have h : Ebbs (fun _ => False) none σ₂ (σ.connectBind P ci p ctx k present s) := h
  obtain ⟨hact₂, hsame⟩ := h.turn.conns ci id hact
  rw [hconns, conns_setConn_self] at hact₂ hsame
  rw [(refreshDeadline_sameLine P.T σ.nowMs _).active] at hact₂
  refine ⟨hact₂, hall.turn, hall.now, .inr ((Conn.refreshed_refreshDeadline ?_ hp).same hsame)⟩
  have := P.T.sessions_le
  have hku : toU16 k = k := toU16_of_lt (by omega)
  simp only [hku, noSession]
  omega

theorem parseConnectPayload_keepalive {r : Reader} {nameOk : Bool} {level flags : UInt8} {keepalive willQosRaw : Nat}
    (h : parseConnectPayload r nameOk level flags keepalive willQosRaw = .ok p) : p.keepaliveS = keepalive := by
  unfold parseConnectPayload at h
  extract_lets hasWill hasUsername hasPassword cid wt wp un pw at h
  split at h
  · cases h
  split at h
  · cases h
  cases h
  rfl

theorem parseConnect_keepalive {body : Bytes} (h : parseConnect body = .ok p) : p.keepaliveS < 65536 := by
  unfold parseConnect at h
  extract_lets name level flags keepalive willQosRaw at h
  split at h
  · cases h
  rename_i hok
  have hlt : keepalive.1 < 65536 := (Reader.u16_took (by simpa using hok)).2.2
  iterate 4
    split at h
    · cases h
  rw [parseConnectPayload_keepalive h]
  exact hlt

theorem Outcome.tended {clientId : Bytes} {ctx : Ctx} (h : Outcome P ci p clientId ctx σ σ')
    (hp : p.keepaliveS < 65536) (hover : Linked P none (takenOver P clientId σ)) (hact : (σ'.conns ci).active = true) :
    Tended P ci σ σ' := by
  cases h with
  | full hnone hbusy => exact Ebbs.tended (ebbs_refuse (v := none) ci _ _ σ) hact
  | @fresh σ₁ k pool room halloc =>
    have hroom : Ebbs (fun _ => False) _ σ (allocated P k pool clientId σ₁) := room.ebbs.trans (ebbs_allocated ..)
    obtain ⟨hact₁, hbind⟩ := connectBind_tended hp (alloc_some halloc).1 ctx false _ hact
    exact (hroom.tended hact₁).trans hbind
  | @resumed k s hclean hs hid hoff =>
    have htaken : Ebbs (fun _ => False) _ σ (takenOver P clientId σ) := ebbs_takenOver clientId σ
    obtain ⟨hact₁, hbind⟩ := connectBind_tended hp (hover.slot_lt k s hs) ctx true s hact
    exact (htaken.tended hact₁).trans hbind

/-- **CONNECT**: refused or not heard, it moves no deadline; accepted, it sets its own. -/
theorem handleConnect_tended (hL : Linked P none σ) (hact : (σ.conns ci).active = true)
    (hdead : (σ.conns ci).dead = false) (body : Bytes) (hact' : ((σ.handleConnect P ci body).conns ci).active = true) :
    Tended P ci σ (σ.handleConnect P ci body) := by
  have hcounter : ∀ n, Tended P ci σ { σ with autoIdCounter := n } :=
    fun n => Turn.tended (.of_conns (fun _ _ => rfl) rfl) rfl hact
  have heard := handleConnect_heard (P := P) ci body σ
  generalize σ.handleConnect P ci body = σ' at heard hact' ⊢
  cases heard with
  | violation n err => exact (hcounter n).trans (Ebbs.tended (ebbs_violation (v := none) ci err _) hact')
  | refused n clientId hno hcode =>
    exact (hcounter n).trans (Ebbs.tended (ebbs_refuse (v := none) ci _ clientId _) hact')
  | @passed p ctx hno hp pass =>
    obtain ⟨n, hn⟩ := identify_state P p σ
    rw [hn] at hact' ⊢
    have hL₁ : Linked P none { σ with autoIdCounter := n } := { hL with }
    have hout := connectAccepted_outcome hL₁ hact hno hdead p (σ.identify P p).1 ctx
    have hover := takenOver_spec (σ.identify P p).1 hL₁ hact hno hdead
    exact (hcounter n).trans (hout.tended (parseConnect_keepalive hp) hover.linked hact')

theorem handleDisconnect_tended (hL : Linked P none σ) (hact : (σ.conns ci).active = true)
    (hsess : (σ.conns ci).session ≠ noSession) (body : Bytes) : Tended P ci σ (σ.handleDisconnect P ci body) := by
  obtain ⟨s, hof, -, -⟩ := hL.sessionOf hsess
  unfold Broker.handleDisconnect
  split
  · exact (quiet_violation (P := P) (· = ci) rfl _ hact).tended hact
  · rw [derefSession_of hof]
    let σ₁ := (σ.setSession (σ.conns ci).session { s with hasWill := false }).emit (.disconnect (σ.conns ci).session ci)
    have h₁ : Turn (fun _ => False) σ σ₁ :=
      ⟨fun _ _ h => ⟨h, .refl _⟩, [_], rfl, List.forall_mem_singleton.2 trivial⟩
    have hlast := lasting_setDead ci σ₁
    exact (h₁.tended rfl hact).trans (hlast.turn.tended hlast.now ((hlast.active ci).trans hact))

theorem onPacket_tended (hL : Linked P none σ) (hact : (σ.conns ci).active = true) (hdead : (σ.conns ci).dead = false)
    (firstByte : UInt8) {body : Bytes} (hlen : body.length ≤ P.T.maxPacketSize) :
    Tended P ci σ (σ.onPacket P ci firstByte body).2 := by
  have hact' := (onPacket_handled hL hact hdead firstByte hlen).active.trans hact
  have hnote : Tended P ci σ (σ.emit (.packet ci firstByte body)) :=
    Turn.tended ⟨fun _ _ h => ⟨h, .refl _⟩, [_], rfl, List.forall_mem_singleton.2 trivial⟩ rfl hact
  have hL₀ : Linked P none (σ.emit (.packet ci firstByte body)) := { hL with }
  have hviolate : ∀ err, Tended P ci σ ((σ.emit (.packet ci firstByte body)).violation P ci err) :=
    fun err => hnote.trans ((quiet_violation (σ := σ.emit _) (· = ci) rfl err hact).tended hact)
  simp only [Broker.onPacket] at hact' ⊢
  split at hact' <;> rename_i hflags
  · rw [if_pos hflags]
    exact hviolate _
  rw [if_neg hflags]
  split at hact' <;> rename_i hsess
  · rw [if_pos hsess]
    exact hviolate _
  rw [if_neg hsess]
  refine hnote.trans ?_
  by_cases hconn : packetType firstByte = some .connect
  · simp only [Broker.dispatch, hconn] at hact' ⊢
    exact handleConnect_tended hL₀ hact hdead body hact'
  · have hsess : (σ.conns ci).session ≠ noSession := fun h => hsess (by simp [h, hconn])
    by_cases hdisc : packetType firstByte = some .disconnect
    · simp only [Broker.dispatch, hdisc]
      exact handleDisconnect_tended hL₀ hact hsess body
    · exact (dispatch_quiet hL₀ hact hsess hlen hconn hdisc).tended hact

/-! ## The entry points -/

theorem turn_flushDead (own : Nat → Prop) (σ : Broker Ctx) : Turn own σ (σ.flushDead P) ∧
    (σ.flushDead P).nowMs = σ.nowMs :=
  have h : Ebbs own none σ (σ.flushDead P) := ebbs_flushDead σ
  ⟨h.turn, h.now⟩

theorem Turn.flush (h : Turn own σ σ') : Turn own σ (σ'.flushDead P) :=
  h.trans (turn_flushDead own σ').1 (turn_flushDead own σ').2

/-- **What `conn_data` on an active connection does to the clocks.** -/
structure Spoken (P : Params Ctx) (ci nowMs : Nat) (σ σ' : Broker Ctx) : Prop where
  turn : Turn (· = ci) σ σ'
  now : σ'.nowMs = nowMs
  own : (σ'.conns ci).active = true →
    (σ.conns ci).session = noSession ∧ (σ.conns ci).SameClock (σ'.conns ci) ∨ (σ'.conns ci).Refreshed P.T nowMs

theorem beginData_spoken (hkeep : (σ.conns ci).keepaliveS < 65536) (nowMs : Nat) :
    Spoken P ci nowMs σ (σ.beginData P ci nowMs) := by
  have hconns : ∀ j, j ≠ ci → (σ.beginData P ci nowMs).conns j = σ.conns j := by
    intro j hj
    simp only [Broker.beginData]
    split
    · exact conns_setConn_of_ne hj ..
    · rfl
  have htrace : (σ.beginData P ci nowMs).trace = σ.trace := by
    simp only [Broker.beginData]
    split <;> rfl
  refine ⟨.of_conns hconns htrace, (beginData_fresh P ci nowMs σ).2, fun _ => ?_⟩
  simp only [Broker.beginData]
  split
  · rename_i hsess
    rw [conns_setConn_self]
    exact .inr (Conn.refreshed_refreshDeadline (bne_iff_ne.1 hsess) hkeep)
  · rename_i hsess
    exact .inl ⟨by simpa using hsess, .refl _⟩

theorem Spoken.then {nowMs : Nat} (h₁ : Spoken P ci nowMs σ σ') (h₂ : Tended P ci σ' σ'')
    (hact : (σ'.conns ci).active = true) : Spoken P ci nowMs σ σ'' := by
  refine ⟨h₁.turn.trans h₂.toTurn h₂.now, h₂.now.trans h₁.now, fun _ => ?_⟩
  rcases h₂.own with hs | hr
  · exact (h₁.own hact).imp (fun h => ⟨h.1, h.2.trans hs⟩) (fun h => h.same hs)
  · exact .inr (h₁.now ▸ hr)

theorem Spoken.last {nowMs : Nat} (h₁ : Spoken P ci nowMs σ σ') (h₂ : Turn (fun _ => False) σ' σ'')
    (hnow : σ''.nowMs = σ'.nowMs) : Spoken P ci nowMs σ σ'' := by
  refine ⟨h₁.turn.trans (h₂.mono (fun _ => False.elim)) hnow, hnow.trans h₁.now, fun hact => ?_⟩
  obtain ⟨hact', hs⟩ := h₂.conns ci id hact
  exact (h₁.own hact').imp (fun h => ⟨h.1, h.2.trans hs⟩) (fun h => h.same hs)

theorem turn_setParser (ci : Nat) (p : FrameParser) (σ : Broker Ctx) : Turn own σ (σ.setParser ci p) := by
  refine ⟨fun j _ hact => ?_, .refl _ _⟩
  by_cases hj : j = ci
  · subst hj
    rw [Broker.setParser, conns_setConn_self] at hact ⊢
    exact ⟨hact, ⟨rfl, rfl, rfl⟩⟩
  · rw [Broker.setParser, conns_setConn_of_ne hj] at hact ⊢
    exact ⟨hact, .refl _⟩

theorem connData_spoken (h : Sound P σ) (hci : ci < P.T.maxConnections) (hact : (σ.conns ci).active = true)
    (hkeep : (σ.conns ci).keepaliveS < 65536) (data : Bytes) (nowMs : Nat) :
    Spoken P ci nowMs σ (σ.connData P ci data nowMs).2 := by
  have hdead := h.flushed ci hact
  have hb := beginData_spec h.linked h.parsers ci nowMs
  have h₀ := hb.setParser (FrameParser.held_fresh _)
  have hact₀ := h₀.active.trans hact
  have hbegin : Spoken P ci nowMs σ ((σ.beginData P ci nowMs).setParser ci {}) :=
    (beginData_spoken hkeep nowMs).last (turn_setParser ci {} _) rfl
  obtain ⟨-, -, hfed⟩ := (FrameParser.feed_rule P.T.maxPacketSize (Broker.onPacket P ci) (fun σ => (σ.conns ci).dead)
    (onPacket_alive P ci)
    (fun σ' => Linked P none σ' ∧ (σ'.conns ci).active = true ∧ Spoken P ci nowMs σ σ')
    (fun f body σ' hlen hI hd => by
      have hone := onPacket_handled hI.1 hI.2.1 hd f hlen.1
      exact ⟨hone.linked, hone.active.trans hI.2.1, hI.2.2.then (onPacket_tended hI.1 hI.2.1 hd f hlen.1) hI.2.1⟩)
    (hb.parsers ci) data (h₀.dead.trans hdead) ⟨h₀.linked, hact₀, hbegin⟩).1
  rw [connData_eq hci hact hdead]
  generalize FrameParser.feed P.T.maxPacketSize (Broker.onPacket P ci)
    ((σ.beginData P ci nowMs).conns ci).parser data _ = r at hfed ⊢
  have hput := hfed.last (turn_setParser ci r.2.1 r.2.2) rfl
  unfold endData
  split
  · have hv := lasting_violation (P := P) ci r.1 (r.2.2.setParser ci r.2.1)
    exact (hput.last hv.turn hv.now).last (turn_flushDead _ _).1 (turn_flushDead (fun _ => False) _).2
  · exact hput.last (turn_flushDead _ _).1 (turn_flushDead (fun _ => False) _).2

theorem turn_connClosed (ci : Nat) (σ : Broker Ctx) :
    Turn (fun _ => False) σ (σ.connClosed P ci) ∧ (σ.connClosed P ci).nowMs = σ.nowMs := by
  unfold Broker.connClosed
  split
  · exact ⟨.refl _ σ, rfl⟩
  let σ₁ := (σ.setConn ci { σ.conns ci with notifyTransport := false, dead := true }).emit (.peerClosed ci)
  have h₁ : Turn (fun _ => False) σ σ₁ := by
    refine ⟨fun j _ hact => ?_, [_], rfl, List.forall_mem_singleton.2 trivial⟩
    change ((σ.setConn ci _).conns j).active = true at hact
    change _ ∧ Conn.SameClock _ ((σ.setConn ci _).conns j)
    by_cases hj : j = ci
    · subst hj
      rw [conns_setConn_self] at hact ⊢
      exact ⟨hact, rfl, rfl, rfl⟩
    · rw [conns_setConn_of_ne hj] at hact ⊢
      exact ⟨hact, .refl _⟩
  exact ⟨h₁.flush, (turn_flushDead (fun _ => False) σ₁).2⟩

theorem turn_publish (topic payload : Bytes) (qos : QoS) (retain : Bool) (σ : Broker Ctx) :
    Turn (fun _ => False) σ (σ.publish P topic payload qos retain).2 ∧
      (σ.publish P topic payload qos retain).2.nowMs = σ.nowMs := by
  unfold Broker.publish
  extract_lets idLen
  split
  · exact ⟨.refl _ σ, rfl⟩
  split
  · exact ⟨.refl _ σ, rfl⟩
  split
  · exact ⟨.refl _ σ, rfl⟩
  have hnote : Lasting σ (σ.emit (.application topic payload qos retain)) := lasting_emit _ rfl σ
  have hend : ∀ σ₁ : Broker Ctx, Lasting σ σ₁ →
      Turn (fun _ => False) σ (σ₁.flushDead P) ∧ (σ₁.flushDead P).nowMs = σ.nowMs := fun σ₁ h =>
    ⟨(show Turn (fun _ => False) σ σ₁ from h.turn).flush, (turn_flushDead (fun _ => False) σ₁).2.trans h.now⟩
  cases retain with
  | true => exact hend _ ((hnote.trans (lasting_applyRetain ..)).trans (lasting_routePublish ..))
  | false => exact hend _ (hnote.trans (lasting_routePublish ..))

theorem turn_connOpen (ci nowMs : Nat) (σ : Broker Ctx) :
    Turn (· = ci) σ (σ.connOpen P ci nowMs).2 ∧ (σ.connOpen P ci nowMs).2.nowMs = σ.nowMs := by
  unfold Broker.connOpen
  split
  · exact ⟨.refl _ σ, rfl⟩
  · refine ⟨⟨fun j hj hact => ?_, [_], rfl, List.forall_mem_singleton.2 trivial⟩, rfl⟩
    change ((σ.setConn ci _).conns j).active = true at hact
    change _ ∧ Conn.SameClock _ ((σ.setConn ci _).conns j)
    rw [conns_setConn_of_ne hj] at hact ⊢
    exact ⟨hact, .refl _⟩

end

end Minimosq
