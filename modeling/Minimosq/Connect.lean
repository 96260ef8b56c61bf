import Minimosq.Teardown
/-!
# CONNECT

`handle_connect` takes a session over, frees or allocates a slot, and links it to the connection.  `Handled` is what the
broker promises of every packet of connection `ci`; CONNECT is the one packet for which that is not a quiet change.
-/
namespace Minimosq

open History (Star since)

variable {Ctx : Type} {P : Params Ctx}

/-- The deadline of a connection with a session was set at the present time. -/
def FreshDeadline (P : Params Ctx) (ci : Nat) (σ : Broker Ctx) : Prop :=
  (σ.conns ci).session ≠ noSession → refreshDeadline P.T σ.nowMs (σ.conns ci) = σ.conns ci

/-- No connection but `ci` waits for `flush_dead`. -/
def Calm (ci : Nat) (σ : Broker Ctx) : Prop :=
  ∀ j, j ≠ ci → (σ.conns j).active = true → (σ.conns j).dead = false

/-- The transport takes everything. -/
def NeverRefuses (P : Params Ctx) : Prop := ∀ t ci pkt, P.send t ci pkt = true

/-- **What handling a packet of connection `ci` does.** -/
structure Handled (P : Params Ctx) (ci : Nat) (σ σ' : Broker Ctx) : Prop extends Course P σ σ' where
  linked : Linked P none σ'
  now : σ'.nowMs = σ.nowMs
  active : (σ'.conns ci).active = (σ.conns ci).active
  parser : ∀ j, (σ'.conns j).parser = (σ.conns j).parser
  calm : NeverRefuses P → Calm ci σ → Calm ci σ'
  fresh : FreshDeadline P ci σ → FreshDeadline P ci σ'

section
variable {σ σ' σ'' : Broker Ctx} {ci : Nat}

theorem Handled.trans (h₁ : Handled P ci σ σ') (h₂ : Handled P ci σ' σ'') : Handled P ci σ σ'' where
  toCourse := h₁.toCourse.trans h₂.toCourse
  linked := h₂.linked
  now := h₂.now.trans h₁.now
  active := h₂.active.trans h₁.active
  parser := fun j => (h₂.parser j).trans (h₁.parser j)
  calm := fun hn hc => h₂.calm hn (h₁.calm hn hc)
  fresh := fun hf => h₂.fresh (h₁.fresh hf)

theorem refreshDeadline_dead (T : Traits) (now : Nat) (c : Conn) :
    refreshDeadline T now { c with dead := true } = { refreshDeadline T now c with dead := true } := by
  simp only [refreshDeadline]
  split
  · rfl
  · split <;> rfl

theorem refreshDeadline_idem (T : Traits) (now : Nat) (c : Conn) :
    refreshDeadline T now (refreshDeadline T now c) = refreshDeadline T now c := by
  by_cases h : 0 < c.keepaliveS
  · simp [refreshDeadline, h]
  · by_cases h' : 0 < T.maxIdleMs
    · simp [refreshDeadline, h, h']
    · simp [refreshDeadline, h, h']

/-- A deadline is no part of a connection's life. -/
theorem refreshDeadline_sameLine (T : Traits) (now : Nat) (c : Conn) : c.SameLine (refreshDeadline T now c) := by
  simp only [refreshDeadline]
  split
  · exact ⟨rfl, rfl, rfl, rfl⟩
  · split <;> exact ⟨rfl, rfl, rfl, rfl⟩

theorem refreshDeadline_parser_eq (T : Traits) (now : Nat) (c : Conn) :
    (refreshDeadline T now c).parser = c.parser := by
  simp only [refreshDeadline]
  split
  · rfl
  · split <;> rfl

theorem Hush.parser {own : Nat → Prop} (q : Hush P own σ σ') (j : Nat) : (σ'.conns j).parser = (σ.conns j).parser := by
  rcases q.conns j with h | ⟨h, -⟩ <;> rw [h]

theorem Hush.fresh {own : Nat → Prop} (q : Hush P own σ σ') (h : FreshDeadline P ci σ) : FreshDeadline P ci σ' := by
  intro hne
  rw [q.session] at hne
  rw [q.now]
  rcases q.conns ci with e | ⟨e, -⟩ <;> rw [e]
  · exact h hne
  · rw [refreshDeadline_dead, h hne]

theorem Hush.calm (q : Hush P (· = ci) σ σ') (hn : NeverRefuses P) (h : Calm ci σ) : Calm ci σ' := by
  intro j hj hact
  rcases q.conns j with e | ⟨-, hown | ⟨-, ⟨t, pkt, hr⟩, -⟩⟩
  · rw [e] at hact ⊢
    exact h j hj hact
  · exact absurd hown hj
  · rw [hn] at hr
    cases hr

theorem Quiet.handled (q : Quiet P (· = ci) σ σ') (hL : Linked P none σ) : Handled P ci σ σ' where
  toCourse := q.course hL
  linked := hL.quiet q
  now := q.now
  active := q.active ci
  parser := q.parser
  calm := q.calm
  fresh := q.fresh

end

/-! ## Binding -/

theorem toU16_of_lt {n : Nat} (h : n < 65536) : toU16 n = n := Nat.mod_eq_of_lt h

/-- **Connection `ci` asks, with a CONNECT `p` that passed its checks, for a session**: it is up and has none. -/
structure Asking (P : Params Ctx) (ci : Nat) (p : ConnectPacket) (clientId : Bytes) (ctx : Ctx) (σ : Broker Ctx) :
    Prop where
  active : (σ.conns ci).active = true
  up : (σ.conns ci).dead = false
  free : (σ.conns ci).session = noSession
  fits : WillFits P.T p.hasWill p.willTopic p.willPayload
  id : ClientIdFits P.T clientId
  asks : Asks P ci p clientId ctx σ.trace

section
variable {σ : Broker Ctx} {ci k : Nat} {s : Session Ctx} {p : ConnectPacket} {clientId : Bytes} {ctx : Ctx}

theorem Asking.congr {σ' : Broker Ctx} (h : Asking P ci p clientId ctx σ) (new : Trace Ctx)
    (hci : σ'.conns ci = σ.conns ci) (htrace : σ'.trace = new ++ σ.trace) (hnew : ∀ a ∈ new, a.packet? = none) :
    Asking P ci p clientId ctx σ' where
  active := by rw [hci]; exact h.active
  up := by rw [hci]; exact h.up
  free := by rw [hci]; exact h.free
  fits := h.fits
  id := h.id
  asks := by rw [htrace]; exact h.asks.skip hnew

theorem boundSession_fields (T : Traits) (ci : Nat) (p : ConnectPacket) (ctx : Ctx) (s : Session Ctx) :
    let s' := boundSession T ci p ctx s
    s'.conn = toU16 ci ∧ s'.clientId = s.clientId ∧ s'.hasWill = p.hasWill ∧ s'.pending = s.pending ∧
      s'.authCtx = ctx ∧ s'.cleanSession = p.cleanSession := by
  simp only [boundSession]
  split <;> exact ⟨rfl, rfl, rfl, rfl, rfl, rfl⟩

theorem boundSession_subsEq (T : Traits) (ci : Nat) (p : ConnectPacket) (ctx : Ctx) (s : Session Ctx) :
    s.SubsEq (boundSession T ci p ctx s) := by
  simp only [boundSession]
  split <;> exact ⟨rfl, rfl⟩

theorem boundSession_will (T : Traits) (ci : Nat) (p : ConnectPacket) (ctx : Ctx) (s : Session Ctx)
    (hfit : WillFits T p.hasWill p.willTopic p.willPayload) : let s' := boundSession T ci p ctx s
    s'.hasWill = true → s'.willTopic = p.willTopic ∧ s'.willPayload = p.willPayload ∧ s'.willQos = p.willQos ∧
      s'.willRetain = p.willRetain := by
  intro s' h
  have hw : p.hasWill = true := (boundSession_fields T ci p ctx s).2.2.1.symm.trans h
  obtain ⟨ht, hp⟩ := hfit hw
  simp only [s', boundSession, hw, if_true, assign_of_le ht.stored, assign_of_le hp, and_self]

/-- The state in which connection and session point at each other. -/
def bound (P : Params Ctx) (ci : Nat) (p : ConnectPacket) (ctx : Ctx) (k : Nat) (present : Bool) (s : Session Ctx)
    (σ : Broker Ctx) : Broker Ctx :=
  ((σ.setSession k (boundSession P.T ci p ctx s)).setConn ci
    (refreshDeadline P.T σ.nowMs { σ.conns ci with session := toU16 k, keepaliveS := p.keepaliveS })).emit
      (.bind k ci (boundSession P.T ci p ctx s) present)

theorem bound_conns_of_ne {j : Nat} (hj : j ≠ ci) (present : Bool) :
    (bound P ci p ctx k present s σ).conns j = σ.conns j := Function.update_of_ne hj ..

theorem bound_conns_self (present : Bool) : (bound P ci p ctx k present s σ).conns ci =
    refreshDeadline P.T σ.nowMs { σ.conns ci with session := toU16 k, keepaliveS := p.keepaliveS } :=
  Function.update_self ..

/-- **Binding keeps the links**, from a state where only the slot bound may be out. -/
theorem Linked.bound {out : Option Nat} (hL : Linked P out σ) (hout : out = none ∨ out = some k)
    (hs : σ.sessions.slot k = some s) (hoff : s.conn = noConn) (hr : Asking P ci p clientId ctx σ) (present : Bool) :
    Linked P none (bound P ci p ctx k present s σ) := by
  have hci := hL.active_lt ci hr.active
  have hci' : ci ≠ noConn := ne_noConn_of_lt hci
  have hk := hL.slot_lt k s hs
  have hcu : toU16 ci = ci := toU16_of_lt (by have := P.T.connections_le; omega)
  have hku : toU16 k = k := toU16_of_lt (by have := P.T.sessions_le; omega)
  obtain ⟨hsc, hsid, hsw, -, -, -⟩ := boundSession_fields P.T ci p ctx s
  rw [hcu] at hsc
  let σb := Minimosq.bound P ci p ctx k present s σ
  have hself : σb.conns ci = refreshDeadline P.T σ.nowMs
      { σ.conns ci with session := toU16 k, keepaliveS := p.keepaliveS } := bound_conns_self present
  have hsame := refreshDeadline_sameLine P.T σ.nowMs
    { σ.conns ci with session := toU16 k, keepaliveS := p.keepaliveS }
  rw [← hself] at hsame
  have hra : (σb.conns ci).active = true := hsame.active.trans hr.active
  have hrs : (σb.conns ci).session = k := hsame.session.trans hku
  have hconn : ∀ j, j ≠ ci → σb.conns j = σ.conns j :=
    fun j hj => bound_conns_of_ne hj present
  have hfits : WillFits P.T (boundSession P.T ci p ctx s).hasWill (boundSession P.T ci p ctx s).willTopic
      (boundSession P.T ci p ctx s).willPayload := by
    intro hw
    obtain ⟨ht, hp, -, -⟩ := boundSession_will P.T ci p ctx s hr.fits hw
    rw [ht, hp]
    exact hr.fits (hsw.symm.trans hw)
  refine hL.write rfl rfl hk (by rw [hsid]; exact hL.others_differ hs) (hout.imp_right .inr)
    (fun hn => absurd (hsc.symm.trans hn) hci') hfits (fun j h => ?_) (fun j h => ?_) (fun j h => ?_) (fun _ => ?_)
    (fun j s₁ _ h hne => ?_)
  · by_cases hj : j = ci
    · rw [hj]
      exact hci
    · rw [hconn j hj] at h
      exact hL.active_lt j h
  · by_cases hj : j = ci
    · rw [hj, hra] at h
      cases h
    · rw [hconn j hj] at h ⊢
      exact hL.inactive j h
  · by_cases hj : j = ci
    · rw [hj]
      exact .inl ⟨hrs, hsc⟩
    · rw [hconn j hj] at h ⊢
      refine .inr ⟨fun he => ?_, rfl⟩
      -- Slot `k` is on no connection yet.
      obtain ⟨s₁, h₁, hc⟩ := hL.of_conn j h
      rw [he, hs] at h₁
      cases h₁
      have hj' : (σ.conns j).active = true := Bool.not_eq_false _ ▸ fun ha => h (hL.inactive j ha)
      exact ne_noConn_of_lt (hL.active_lt j hj') (hc.symm.trans hoff)
  · rw [hsc]
    exact ⟨hra, hrs⟩
  · rw [hconn _ (hL.conn_ne hr.free hci' h)]
    exact hL.of_session j s₁ h hne

theorem Asking.books (hr : Asking P ci p clientId ctx σ) (hid : s.clientId = clientId) {present : Bool}
    (hclean : present = true → p.cleanSession = false) (h : Books P σ) : Books P (bound P ci p ctx k present s σ) := by
  obtain ⟨-, hsid, -, -, hctx, hcs⟩ := boundSession_fields P.T ci p ctx s
  refine h.bind ⟨p, ?_, hcs⟩ (fun hp => hcs.trans (hclean hp)) rfl rfl rfl
  rw [hsid, hid, hctx]
  exact hr.asks

/-- The event of an accepted CONNECT. -/
def connectEvent (present : Bool) (s : Session Ctx) : Event :=
  { kind := if present then .sessionResumed else .sessionCreated, clientId := s.clientId, ci := eventConn s }

theorem connectEvent_kind (present : Bool) (s : Session Ctx) :
    (connectEvent present s).kind ≠ .connectionOpened ∧ (connectEvent present s).kind ≠ .connectionClosed := by
  cases present <;> simp [connectEvent]

/-- The state after the Observer is told. -/
def announced (P : Params Ctx) (ci : Nat) (p : ConnectPacket) (ctx : Ctx) (k : Nat) (present : Bool) (s : Session Ctx)
    (σ : Broker Ctx) : Broker Ctx :=
  (bound P ci p ctx k present s σ).emit (.event (connectEvent present (boundSession P.T ci p ctx s)) (some k))

/-- The state after the CONNACK. -/
def answered (P : Params Ctx) (ci : Nat) (p : ConnectPacket) (ctx : Ctx) (k : Nat) (present : Bool) (s : Session Ctx)
    (σ : Broker Ctx) : Broker Ctx :=
  (announced P ci p ctx k present s σ).sendTo P none ci (buildConnack P.T.outSize present .accepted)

/-- `handle_connect`'s end, with the checks behind it that make the copies fit. -/
theorem Asking.connectBind_eq (hr : Asking P ci p clientId ctx σ) (k : Nat) (present : Bool) (s : Session Ctx) :
    σ.connectBind P ci p ctx k present s =
      if present then
        ((answered P ci p ctx k present s σ).onSession k
          (resumeSession P (answered P ci p ctx k present s σ).conns k)).emit
          (.resumed k (online P.T (answered P ci p ctx k present s σ).conns (boundSession P.T ci p ctx s) &&
            ((answered P ci p ctx k present s σ).conns (connIndex P.T (boundSession P.T ci p ctx s))).active))
      else answered P ci p ctx k present s σ := by
  have hcopies : ∀ t : Trace Ctx, checkAssign (if p.hasWill then [(P.T.maxTopicLen, p.willTopic),
      (P.T.maxPayloadLen, p.willPayload)] else []) t = t := by
    refine fun t => checkAssign_of_fits (fun c hc => ?_) t
    split at hc
    · rename_i hw
      obtain ⟨ht, hp⟩ := hr.fits hw
      simp only [List.mem_cons, List.not_mem_nil, or_false] at hc
      rcases hc with rfl | rfl
      · exact ht.stored
      · exact hp
    · cases hc
  simp only [Broker.connectBind, hcopies]
  rfl

/-- The CONNACK that accepts, and what came of it. -/
structure Answer (P : Params Ctx) (ci : Nat) (present ok : Bool) (tail : Trace Ctx) (σ σ' : Broker Ctx) : Prop where
  sessions : σ'.sessions = σ.sessions
  retained : σ'.retained = σ.retained
  now : σ'.nowMs = σ.nowMs
  order : σ'.disconnectOrder = σ.disconnectOrder
  trace : σ'.trace = tail ++ .send ci (buildConnack P.T.outSize present .accepted) ok none :: σ.trace
  minor : ∀ a ∈ tail, a.Minor P
  /-- A CONNACK that was refused leaves the connection dead. -/
  conns : tail = [] ∧ σ'.conns = σ.conns ∨
    (∃ e : Event, tail = [.dead ci, .event e none] ∧ (Act.event e none : Act Ctx).line = none) ∧
      ∀ j, σ'.conns j = if j = ci then { σ.conns ci with dead := true } else σ.conns j

theorem sendTo_answer (hlt : ci < P.T.maxConnections) (hup : (σ.conns ci).active = true ∧ (σ.conns ci).dead = false)
    (present : Bool) :
    ∃ ok tail, Answer P ci present ok tail σ (σ.sendTo P none ci (buildConnack P.T.outSize present .accepted)) := by
  rcases (sendTo_cases P none ci _ σ).offered hlt hup (connack_isPacket P.T present .accepted).ne_nil with
    ⟨-, hsent⟩ | ⟨-, hsent⟩
  · rw [hsent]
    exact ⟨true, [], rfl, rfl, rfl, rfl, rfl, by simp, .inl ⟨rfl, rfl⟩⟩
  · rw [hsent]
    refine ⟨false, [.dead ci, .event _ none], rfl, rfl, rfl, rfl, rfl, ?_, .inr ⟨⟨_, rfl, rfl⟩, fun j => ?_⟩⟩
    · simp only [List.forall_mem_cons, List.not_mem_nil, false_imp_iff, implies_true, and_true]
      exact ⟨Act.minor_dead ci, Act.minor_event _⟩
    · rw [setDead_conns]
      rfl

section
variable {σ' : Broker Ctx} {present ok : Bool} {tail : Trace Ctx}

theorem Answer.acts (h : Answer P ci present ok tail σ σ') :
    ∀ a ∈ tail ++ [.send ci (buildConnack P.T.outSize present .accepted) ok none], a.Minor P := by
  intro a ha
  rcases List.mem_append.1 ha with ha | ha
  · exact h.minor a ha
  · rw [List.mem_singleton.1 ha]
    exact (connack_isPacket P.T present _).minor (by simp) ci ok

theorem Answer.trace' (h : Answer P ci present ok tail σ σ') :
    σ'.trace = (tail ++ [.send ci (buildConnack P.T.outSize present .accepted) ok none]) ++ σ.trace := by
  rw [h.trace, List.append_assoc]
  rfl

theorem Answer.hush (h : Answer P ci present ok tail σ σ') : Hush P (· = ci) σ σ' := by
  refine hush_aside (· = ci) _ (congrArg Pool.slot h.sessions) h.retained h.trace' h.acts h.now h.order (fun j => ?_)
  rcases h.conns with ⟨-, he⟩ | ⟨-, he⟩
  · exact .inl (by rw [he])
  · rw [he]
    split
    · rename_i hj
      subst hj
      exact .inr ⟨rfl, .inl rfl⟩
    · exact .inl rfl

theorem Answer.evolve (h : Answer P ci present ok tail σ σ') : Evolve P σ σ' :=
  .aside _ (congrArg Pool.slot h.sessions) h.retained h.trace' (fun a ha => (h.acts a ha).1) h.hush.staysDead

end

/-- **What `handle_connect` leaves after the CONNACK.** -/
structure Answered (P : Params Ctx) (ci : Nat) (p : ConnectPacket) (ctx : Ctx) (k : Nat) (present : Bool)
    (s : Session Ctx) (σ σ' : Broker Ctx) : Prop where
  evolve : Evolve P (bound P ci p ctx k present s σ) σ'
  mild : Grows (Act.Mild P) σ σ'
  lines : ∀ j, Star (LineStep P j) (lineActs j σ.trace) (σ.conns j) (lineActs j σ'.trace) (σ'.conns j)
  books : Books P σ → Books P σ'
  linked : Linked P none σ'
  now : σ'.nowMs = σ.nowMs
  active : ∀ j, (σ'.conns j).active = (σ.conns j).active
  session : (σ'.conns ci).session ≠ noSession
  dead : ∀ j, (σ.conns j).dead = true → (σ'.conns j).dead = true
  parser : ∀ j, (σ'.conns j).parser = (σ.conns j).parser
  calm : NeverRefuses P → Calm ci σ → Calm ci σ'
  fresh : FreshDeadline P ci σ'
  slots : σ'.sessions.slot = Function.update σ.sessions.slot k (some (boundSession P.T ci p ctx s))
  retained : σ'.retained = σ.retained
  sent : ∃ sent, σ'.trace = sent ++ (.event (connectEvent present (boundSession P.T ci p ctx s)) (some k) ::
    .bind k ci (boundSession P.T ci p ctx s) present :: σ.trace) ∧ ∀ a ∈ sent, a.Aside

theorem bound_fresh (present : Bool) : FreshDeadline P ci (bound P ci p ctx k present s σ) := by
  intro _
  rw [bound_conns_self]
  exact refreshDeadline_idem P.T σ.nowMs _

theorem bound_calm (present : Bool) (h : Calm ci σ) : Calm ci (bound P ci p ctx k present s σ) := by
  intro j hj
  rw [bound_conns_of_ne hj]
  exact h j hj

/-- Of a connection, binding changes the session and the deadline. -/
theorem bound_conns_same (P : Params Ctx) (ci : Nat) (p : ConnectPacket) (ctx : Ctx) (k : Nat) (present : Bool)
    (s : Session Ctx) (σ : Broker Ctx) (j : Nat) :
    ((bound P ci p ctx k present s σ).conns j).active = (σ.conns j).active ∧
      ((bound P ci p ctx k present s σ).conns j).dead = (σ.conns j).dead ∧
      ((bound P ci p ctx k present s σ).conns j).notifyTransport = (σ.conns j).notifyTransport ∧
      ((bound P ci p ctx k present s σ).conns j).parser = (σ.conns j).parser := by
  by_cases hj : j = ci
  · subst hj
    rw [bound_conns_self]
    have h := refreshDeadline_sameLine P.T σ.nowMs { σ.conns j with session := toU16 k, keepaliveS := p.keepaliveS }
    exact ⟨h.active, h.dead, h.notify, refreshDeadline_parser_eq ..⟩
  · rw [bound_conns_of_ne hj]
    exact ⟨rfl, rfl, rfl, rfl⟩

theorem bound_session (hk : k < P.T.maxSessions) (present : Bool) :
    ((bound P ci p ctx k present s σ).conns ci).session = k := by
  rw [bound_conns_self]
  exact (refreshDeadline_sameLine P.T σ.nowMs _).session.trans (toU16_of_lt (by have := P.T.sessions_le; omega))

theorem Asking.answered {out : Option Nat} (hr : Asking P ci p clientId ctx σ) (hL : Linked P out σ)
    (hout : out = none ∨ out = some k) (hs : σ.sessions.slot k = some s) (hoff : s.conn = noConn)
    (hid : s.clientId = clientId) (present : Bool) (hclean : present = true → p.cleanSession = false) :
    Answered P ci p ctx k present s σ (answered P ci p ctx k present s σ) := by
  have hLb := hL.bound hout hs hoff hr present
  have hsame := bound_conns_same P ci p ctx k present s σ
  set σb := bound P ci p ctx k present s σ
  set b := boundSession P.T ci p ctx s
  let connack := buildConnack P.T.outSize present .accepted
  have hsess : (σb.conns ci).session ≠ noSession := by
    rw [bound_session (hL.slot_lt k s hs)]
    exact hL.slot_ne_noSession hs
  have hslot : σb.sessions.slot k = some b := Function.update_self ..
  obtain ⟨ho, hc⟩ := connectEvent_kind present b
  have q : Quiet P (· = ci) σb (announced P ci p ctx k present s σ) := quiet_notify (· = ci) hslot _ ho hc
  obtain ⟨ok, tail, ha⟩ := sendTo_answer (P := P) (σ := announced P ci p ctx k present s σ) (hL.active_lt ci hr.active)
    ⟨(hsame ci).1.trans hr.active, (hsame ci).2.1.trans hr.up⟩ present
  have hq := q.toHush.trans ha.hush
  refine {
    evolve := q.evolve.trans ha.evolve
    mild := (Grows.one (a := .bind k ci b present) rfl trivial).trans (hq.grows.mono fun _ h => h.mild)
    lines := fun j => ?_
    books := fun h => hq.books (hr.books hid hclean h)
    linked := hLb.hush hq
    now := hq.now
    active := fun j => (hq.active j).trans (hsame j).1
    session := fun h => hsess ((hq.session ci).symm.trans h)
    dead := fun j hd => ?_
    parser := fun j => (hq.parser j).trans (hsame j).2.2.2
    calm := fun hn h => hq.calm hn (bound_calm present h)
    fresh := hq.fresh (bound_fresh present)
    slots := congrArg Pool.slot ha.sessions
    retained := ha.retained
    sent := ⟨_, ha.trace', fun a h => (ha.acts a h).1⟩ }
  · have hevent : (Act.event (connectEvent present b) (some k) : Act Ctx).line = none := by simp [Act.line, ho, hc]
    have htrace : lineActs j (Minimosq.answered P ci p ctx k present s σ).trace = lineActs j (tail ++
        .send ci connack ok none :: .event (connectEvent present b) (some k) :: .bind k ci b present :: σ.trace) := by
      exact congrArg (lineActs j) ha.trace
    rw [htrace]
    by_cases hj : j = ci
    · rw [hj]
      have hone : LineStep P ci (lineActs ci σ.trace) (σ.conns ci)
          [.send ci connack ok none, .bind k ci b present] (σb.conns ci) :=
        .accept k _ present ok ⟨hr.active, hr.up⟩ hr.free hsess ⟨(hsame ci).1, (hsame ci).2.1, (hsame ci).2.2.1⟩
      have hacc : Star (LineStep P ci) (lineActs ci σ.trace) (σ.conns ci)
          (.send ci connack ok none :: .bind k ci b present :: lineActs ci σ.trace) (σb.conns ci) := .single hone
      rcases ha.conns with ⟨rfl, hconns⟩ | ⟨⟨e, rfl, hline⟩, hconns⟩
      · rw [List.nil_append, lineActs_cons_own rfl, lineActs_cons_other (by simp [hevent]), lineActs_cons_own rfl]
        exact hconns ▸ hacc
      · have hdie : LineStep P ci (.send ci connack ok none :: .bind k ci b present :: lineActs ci σ.trace)
            (σb.conns ci) [.dead ci] { σb.conns ci with dead := true } := .carry (.die ((hsame ci).1.trans hr.active))
        rw [List.cons_append, List.cons_append, List.nil_append, lineActs_cons_own rfl,
          lineActs_cons_other (by simp [hline]), lineActs_cons_own rfl, lineActs_cons_other (by simp [hevent]),
          lineActs_cons_own rfl]
        have hcj := hconns ci
        rw [if_pos rfl] at hcj
        exact hcj ▸ hacc.tail hdie
    · have hcj : (Minimosq.answered P ci p ctx k present s σ).conns j = σ.conns j := by
        rcases ha.conns with ⟨-, hconns⟩ | ⟨-, hconns⟩
        · exact (congrFun hconns j).trans (bound_conns_of_ne hj present)
        · exact (hconns j).trans ((if_neg hj).trans (bound_conns_of_ne hj present))
      have hother : ∀ a ∈ tail ++ [.send ci connack ok none], a.line ≠ some j := by
        intro a hmem
        rcases List.mem_append.1 hmem with hmem | hmem
        · rcases ha.conns with ⟨rfl, -⟩ | ⟨⟨e, rfl, hline⟩, -⟩
          · cases hmem
          · simp only [List.mem_cons, List.not_mem_nil, or_false] at hmem
            rcases hmem with rfl | rfl
            · simpa [Act.line] using Ne.symm hj
            · simp [hline]
        · rw [List.mem_singleton.1 hmem]
          simpa [Act.line] using Ne.symm hj
      rw [hcj, List.append_cons, lineActs_skip hother, lineActs_cons_other (by simp [hevent]),
        lineActs_cons_other (by simpa [Act.line] using Ne.symm hj)]
      exact .refl
  · rcases hq.conns j with h | ⟨h, -⟩
    · exact (congrArg Conn.dead h).trans ((hsame j).2.1.trans hd)
    · exact congrArg Conn.dead h

/-- **CONNECT for a session the broker just made.** -/
theorem Asking.connectBind_fresh {out : Option Nat} (hr : Asking P ci p clientId ctx σ) (hL : Linked P out σ)
    (hout : out = none ∨ out = some k) (hs : σ.sessions.slot k = some s) (hoff : s.conn = noConn)
    (hid : s.clientId = clientId) (hwill : s.hasWill = false) (hnew : s = freshSession P.T ctx clientId) :
    Handled P ci σ (σ.connectBind P ci p ctx k false s) := by
  rw [hr.connectBind_eq, if_neg (by simp)]
  have h := hr.answered hL hout hs hoff hid false (by simp)
  have hE : Evolve P σ (bound P ci p ctx k false s σ) := by
    refine Evolve.one [.bind k ci (boundSession P.T ci p ctx s) false] rfl rfl rfl
      (by simp [Act.slot, Act.isSubs]) (.of_some hs (boundSession_subsEq P.T ci p ctx s))
      (.of_conns (fun j h => (bound_conns_same P ci p ctx k false s σ j).2.1.trans h)) (by simp) ?_
    rw [hs]
    exact .bind ci p ctx hoff hwill (by rw [hid]; exact hnew) (hL.active_lt ci hr.active) hr.fits
  exact { h with
    evolve := hE.trans h.evolve
    active := h.active ci
    fresh := fun _ => h.fresh }

/-- A session that is not up on an active connection is on a dead one. -/
theorem dead_of_down {conns : Nat → Conn} {s : Session Ctx} (hci : ci < P.T.maxConnections) (hconn : s.conn = ci)
    (hact : (conns ci).active = true) (hdown : (online P.T conns s && (conns (connIndex P.T s)).active) = false) :
    (conns ci).dead = true := by
  have hidx : connIndex P.T s = ci := by
    simp [connIndex, Session.connected, hconn, hci, ne_noConn_of_lt hci]
  simpa [online, connOfSession, hidx, hci, hact] using hdown

/-- **CONNECT for a session that was there.** -/
theorem Asking.connectBind_resumed (hr : Asking P ci p clientId ctx σ) (hL : Linked P none σ)
    (hs : σ.sessions.slot k = some s) (hoff : s.conn = noConn) (hid : s.clientId = clientId)
    (hclean : p.cleanSession = false) : Handled P ci σ (σ.connectBind P ci p ctx k true s) := by
  rw [hr.connectBind_eq, if_pos rfl]
  have h := hr.answered hL (.inl rfl) hs hoff hid true (fun _ => hclean)
  obtain ⟨hcl, hwill⟩ := (hL.offline k s hs hoff).resolve_left (by simp)
  have hci := hL.active_lt ci hr.active
  have hconn : (boundSession P.T ci p ctx s).conn = ci := by
    rw [(boundSession_fields P.T ci p ctx s).1]
    exact toU16_of_lt (by have := P.T.connections_le; omega)
  generalize Minimosq.answered P ci p ctx k true s σ = σ₃ at h ⊢
  obtain ⟨sent, htrace₃, hsent⟩ := h.sent
  set b := boundSession P.T ci p ctx s
  have hslot₃ : σ₃.sessions.slot k = some b := by rw [h.slots, Function.update_self]
  have hact₃ : (σ₃.conns ci).active = true := (h.active ci).trans hr.active
  simp only [Broker.onSession, hslot₃]
  obtain ⟨hworks, hstop⟩ := resumeSession_works P σ₃.conns k (b, σ₃.trace) (by rw [hconn]; exact hact₃)
  generalize resumeSession P σ₃.conns k (b, σ₃.trace) = w at hworks hstop ⊢
  have hframe := hworks.resume_frame
  have hsubs := hworks.resume_subsEq
  obtain ⟨-, new, he, hnew, run⟩ := hworks
  have hdel := Works.resume_delivers run
  have hown : slotActs k σ₃.trace =
      .event (connectEvent true b) (some k) :: .bind k ci b true :: slotActs k σ.trace := by
    rw [htrace₃, slotActs_skip (fun a ha => by simp [(hsent a ha).1]), slotActs_cons_own rfl, slotActs_cons_own rfl]
  have hcw : w.1.conn = ci := (Session.conn_eq_of_frame hframe).trans hconn
  generalize hup : (online P.T σ₃.conns b && (σ₃.conns (connIndex P.T b)).active) = up
  have hmove : Move P σ (Broker.emit (.resumed k up) { σ₃ with sessions := σ₃.sessions.set k w.1, trace := w.2 }) := by
    have hsessions : (σ₃.sessions.set k w.1).slot = Function.update σ.sessions.slot k (some w.1) := by
      rw [Pool.set, h.slots, Function.update_idem]
    have htrace : .resumed k up :: w.2 = .resumed k up :: (new ++ (sent ++
        [.event (connectEvent true b) (some k), .bind k ci b true])) ++ σ.trace := by
      rw [he, htrace₃]
      simp
    refine .slot k hsessions h.retained htrace ?_ ?_ (.of_some hs ?_) (.of_conns h.dead) ?_
    · simp only [List.mem_cons, List.mem_append, List.not_mem_nil, or_false]
      rintro a (rfl | ha | ha | rfl | rfl)
      · exact .inl ⟨rfl, rfl⟩
      · exact .inl ⟨(hnew a ha).1, Act.isSubs_of_delivers (hdel a ha) k⟩
      · exact .inr (hsent a ha)
      · exact .inl ⟨rfl, rfl⟩
      · exact .inl ⟨rfl, rfl⟩
    · have htwo : ∀ e b, slotActs k ([.event e (some k), .bind k ci b true] : Trace Ctx) =
          [.event e (some k), .bind k ci b true] := fun e b => slotActs_own (by simp [Act.slot])
      rw [hs, slotActs_cons_own rfl, slotActs_append, slotActs_own (fun a ha => (hnew a ha).1),
        slotActs_skip (fun a ha => by simp [(hsent a ha).1]), htwo]
      have hrun := run
      simp only [hown] at hrun
      refine .resume ci p ctx _ up hoff hwill hcl hci hr.fits hrun (fun h => ?_)
      have hend := hstop (by rw [h, Bool.and_eq_true] at hup; exact hup.1)
      rwa [he, slotActs_append, slotActs_own (fun a ha => (hnew a ha).1), hown] at hend
    · exact ⟨hsubs.1.trans (boundSession_subsEq P.T ci p ctx s).1, hsubs.2.trans (boundSession_subsEq P.T ci p ctx s).2⟩
    · simp only [List.mem_cons, List.mem_append, List.not_mem_nil, or_false, Option.some.injEq]
      rintro (hdown | ha | ha | ha | ha) _ rfl
      · cases hdown
        rw [hcw]
        exact dead_of_down hci hconn hact₃ hup
      · exact absurd (hdel _ ha) (by simp [Act.delivers])
      · exact absurd (hsent _ ha).1 (by simp [Act.slot])
      · cases ha
      · cases ha
  have hresumed : ∀ a ∈ (.resumed k up :: new : Trace Ctx), a.Mild P ∧ a.Unbooked := by
    intro a ha
    rcases List.mem_cons.1 ha with rfl | ha
    · exact ⟨trivial, rfl, rfl, rfl⟩
    · exact ⟨((hnew a ha).2.still (hnew a ha).1).mild, (hnew a ha).2.unbooked⟩
  have htrace : .resumed k up :: w.2 = (.resumed k up :: new) ++ σ₃.trace := congrArg _ he
  refine {
    evolve := .single hmove
    mild := h.mild.trans ⟨.resumed k up :: new, htrace, fun a ha => (hresumed a ha).1⟩
    lines := fun j => (h.lines j).trans ?_
    books := fun hb => (h.books hb).same (fun a ha => (hresumed a ha).2) htrace rfl rfl
    linked := ?_
    now := h.now
    active := h.active ci
    parser := h.parser
    calm := h.calm
    fresh := fun _ => h.fresh }
  · have hlines : lineActs j (.resumed k up :: w.2) = lineActs j (new ++ σ₃.trace) := by
      rw [lineActs_cons_other (by simp [Act.line]), he]
    have hbound : (σ₃.conns b.conn).active = true → (σ₃.conns b.conn).session ≠ noSession := fun _ => by
      rw [hconn]
      exact h.session
    exact hlines ▸ Carry.lines (Act.Lands.carry hbound j σ₃.trace (fun a ha => (hnew a ha).2))
  · refine h.linked.set hslot₃ w.1 (Session.conn_eq_of_frame hframe) (Session.clientId_eq_of_frame hframe)
      (fun hn => absurd (hcw.symm.trans hn) (ne_noConn_of_lt hci)) ?_ _
    have hfit₃ := h.linked.will k _ hslot₃
    rw [show w.1.hasWill = b.hasWill from show w.1.frame.hasWill = _ by rw [hframe]; rfl,
      show w.1.willTopic = b.willTopic from show w.1.frame.willTopic = _ by rw [hframe]; rfl,
      show w.1.willPayload = b.willPayload from show w.1.frame.willPayload = _ by rw [hframe]; rfl]
    exact hfit₃

theorem Act.Aside.not_bind {a : Act Ctx} (h : a.Aside) : a.isBind = false := by
  cases a with
  | bind => cases h.1
  | _ => rfl

/-- **The end of `handle_connect` notes the CONNECT it accepts**, once. -/
theorem Asking.connectBind_trace {out : Option Nat} (hr : Asking P ci p clientId ctx σ) (hL : Linked P out σ)
    (hout : out = none ∨ out = some k) (hs : σ.sessions.slot k = some s) (hoff : s.conn = noConn)
    (hid : s.clientId = clientId) (present : Bool) (hclean : present = true → p.cleanSession = false) :
    ∃ newer, (σ.connectBind P ci p ctx k present s).trace =
      newer ++ .bind k ci (boundSession P.T ci p ctx s) present :: σ.trace ∧ ∀ a ∈ newer, a.isBind = false := by
  have h := hr.answered hL hout hs hoff hid present hclean
  obtain ⟨sent, htrace, hsent⟩ := h.sent
  have hact : ((Minimosq.answered P ci p ctx k present s σ).conns ci).active = true := (h.active ci).trans hr.active
  have hslot : (Minimosq.answered P ci p ctx k present s σ).sessions.slot k = some
      (boundSession P.T ci p ctx s) := by
    rw [h.slots, Function.update_self]
  rw [hr.connectBind_eq]
  generalize Minimosq.answered P ci p ctx k present s σ = σ₃ at htrace hact hslot ⊢
  generalize hevent : (Act.event (connectEvent present (boundSession P.T ci p ctx s)) (some k) : Act Ctx) = e
    at htrace
  have hearly : ∀ a ∈ sent ++ [e], a.isBind = false :=
    List.forall_mem_append.2 ⟨fun a ha => (hsent a ha).not_bind, List.forall_mem_singleton.2 (by rw [← hevent]; rfl)⟩
  have htrace : σ₃.trace = (sent ++ [e]) ++ .bind k ci (boundSession P.T ci p ctx s) present :: σ.trace := by
    rw [htrace, List.append_assoc]
    rfl
  cases present with
  | false => exact ⟨sent ++ [e], htrace, hearly⟩
  | true =>
    have hconn : (boundSession P.T ci p ctx s).conn = ci := by
      rw [(boundSession_fields P.T ci p ctx s).1]
      exact toU16_of_lt (by have := hL.active_lt ci hr.active; have := P.T.connections_le; omega)
    rw [if_pos rfl]
    simp only [Broker.onSession, hslot, Broker.emit]
    generalize (online P.T σ₃.conns (boundSession P.T ci p ctx s) &&
      (σ₃.conns (connIndex P.T (boundSession P.T ci p ctx s))).active) = up
    obtain ⟨⟨-, new, he, hnew, -⟩, -⟩ := resumeSession_works P σ₃.conns k (boundSession P.T ci p ctx s, σ₃.trace)
      (by rw [hconn]; exact hact)
    refine ⟨.resumed k up :: (new ++ (sent ++ [e])), ?_, List.forall_mem_cons.2 ⟨rfl, List.forall_mem_append.2
      ⟨fun a ha => ((hnew a ha).2.still (hnew a ha).1).not_bind, hearly⟩⟩⟩
    have hresume : (resumeSession P σ₃.conns k (boundSession P.T ci p ctx s, σ₃.trace)).2 = new ++ σ₃.trace := he
    rw [hresume, htrace]
    simp only [List.cons_append, List.append_assoc]

end

end Minimosq
