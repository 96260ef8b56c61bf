import Minimosq.Quiet
/-!
# Connections and sessions, linked one to one

The link invariant, and what quiet changes and teardown make of it.  Between taking a session off its connection and
releasing it or clearing its will the invariant is off in that one slot, which `Linked` names (`out`).
-/
namespace Minimosq

open History (Star since)

variable {Ctx : Type} {P : Params Ctx}
variable {out : Option Nat} {ci k : Nat} {s : Session Ctx}

/-- **The link invariant**, but for the slot `out`. -/
structure Linked (P : Params Ctx) (out : Option Nat) (σ : Broker Ctx) : Prop where
  active_lt : ∀ ci, (σ.conns ci).active = true → ci < P.T.maxConnections
  inactive : ∀ ci, (σ.conns ci).active = false → (σ.conns ci).session = noSession
  of_conn : ∀ ci, (σ.conns ci).session ≠ noSession →
    ∃ s, σ.sessions.slot (σ.conns ci).session = some s ∧ s.conn = ci
  of_session : ∀ k s, σ.sessions.slot k = some s → s.conn ≠ noConn →
    (σ.conns s.conn).active = true ∧ (σ.conns s.conn).session = k
  offline : ∀ k s, σ.sessions.slot k = some s → s.conn = noConn →
    out = some k ∨ s.cleanSession = false ∧ s.hasWill = false
  slot_lt : ∀ k s, σ.sessions.slot k = some s → k < P.T.maxSessions
  unique : ∀ k k' s s', σ.sessions.slot k = some s → σ.sessions.slot k' = some s' → s.clientId = s'.clientId → k = k'
  will : ∀ k s, σ.sessions.slot k = some s → WillFits P.T s.hasWill s.willTopic s.willPayload
  retained : RetainedFits P.T σ.retained

/-- A table in which slot `k` was written. -/
theorem written_cases {α : Type} {slot : Nat → Option α} {o : Option α} {a : α} {j : Nat}
    (h : Function.update slot k o j = some a) : j = k ∧ o = some a ∨ j ≠ k ∧ slot j = some a := by
  by_cases hj : j = k
  · rw [hj, Function.update_self] at h
    exact .inl ⟨hj, h⟩
  · rw [Function.update_of_ne hj] at h
    exact .inr ⟨hj, h⟩

section
variable {own : Nat → Prop} {σ σ' : Broker Ctx}

theorem slot_of_released {j : Nat} (h : (σ.release P k).sessions.slot j = some s) : σ.sessions.slot j = some s := by
  simp only [Broker.release, Pool.release] at h
  split at h
  · exact h
  · rcases written_cases h with ⟨-, h⟩ | ⟨-, h⟩
    · cases h
    · exact h

/-- **A slot written**, together with the connections: what has to be seen of the new state. -/
theorem Linked.write {out' : Option Nat} {s' : Session Ctx} (hL : Linked P out σ)
    (hslot : σ'.sessions.slot = Function.update σ.sessions.slot k (some s')) (hret : σ'.retained = σ.retained)
    (hk : k < P.T.maxSessions) (hid : ∀ j s₁, j ≠ k → σ.sessions.slot j = some s₁ → s₁.clientId ≠ s'.clientId)
    (hout : out = none ∨ out = out' ∨ out = some k)
    (hoff : s'.conn = noConn → out' = some k ∨ s'.cleanSession = false ∧ s'.hasWill = false)
    (hwill : WillFits P.T s'.hasWill s'.willTopic s'.willPayload)
    (hactive : ∀ ci, (σ'.conns ci).active = true → ci < P.T.maxConnections)
    (hinactive : ∀ ci, (σ'.conns ci).active = false → (σ'.conns ci).session = noSession)
    (hconn : ∀ ci, (σ'.conns ci).session ≠ noSession → (σ'.conns ci).session = k ∧ s'.conn = ci ∨
      (σ'.conns ci).session ≠ k ∧ (σ'.conns ci).session = (σ.conns ci).session)
    (hown : s'.conn ≠ noConn → (σ'.conns s'.conn).active = true ∧ (σ'.conns s'.conn).session = k)
    (hothers : ∀ j s₁, j ≠ k → σ.sessions.slot j = some s₁ → s₁.conn ≠ noConn →
      (σ'.conns s₁.conn).active = true ∧ (σ'.conns s₁.conn).session = j) : Linked P out' σ' := by
  have hget : ∀ {j s₁}, σ'.sessions.slot j = some s₁ → j = k ∧ s' = s₁ ∨ j ≠ k ∧ σ.sessions.slot j = some s₁ :=
    fun h => (written_cases (by rwa [hslot] at h)).imp_left (fun ⟨hj, h⟩ => ⟨hj, Option.some.inj h⟩)
  refine ⟨hactive, hinactive, fun ci h => ?_, fun j s₁ h hne => ?_, fun j s₁ h hno => ?_, fun j s₁ h => ?_,
    fun j j' s₁ s₂ h h' he => ?_, fun j s₁ h => ?_, hret ▸ hL.retained⟩
  · rw [hslot]
    rcases hconn ci h with ⟨hj, hc⟩ | ⟨hj, hsame⟩
    · exact ⟨s', by rw [hj, Function.update_self], hc⟩
    · rw [hsame] at h hj ⊢
      obtain ⟨s₁, h₁, hc⟩ := hL.of_conn ci h
      exact ⟨s₁, by rw [Function.update_of_ne hj, h₁], hc⟩
  · rcases hget h with ⟨rfl, rfl⟩ | ⟨hj, h⟩
    · exact hown hne
    · exact hothers j s₁ hj h hne
  · rcases hget h with ⟨rfl, rfl⟩ | ⟨hj, h⟩
    · exact hoff hno
    · refine (hL.offline j s₁ h hno).imp_left (fun ho => ?_)
      rcases hout with hn | hn | hn <;> rw [hn] at ho
      · cases ho
      · exact ho
      · exact absurd (Option.some.inj ho).symm hj
  · rcases hget h with ⟨rfl, rfl⟩ | ⟨-, h⟩
    · exact hk
    · exact hL.slot_lt j s₁ h
  · rcases hget h with ⟨rfl, rfl⟩ | ⟨hj, h⟩ <;> rcases hget h' with ⟨rfl, rfl⟩ | ⟨hj', h'⟩
    · rfl
    · exact absurd he.symm (hid j' s₂ hj' h')
    · exact absurd he (hid j s₁ hj h)
    · exact hL.unique _ _ _ _ h h' he
  · rcases hget h with ⟨rfl, rfl⟩ | ⟨-, h⟩
    · exact hwill
    · exact hL.will j s₁ h

/-- No other session has the client id of one. -/
theorem Linked.others_differ (hL : Linked P out σ) (hs : σ.sessions.slot k = some s) (j : Nat) (s₁ : Session Ctx)
    (hj : j ≠ k) (h : σ.sessions.slot j = some s₁) : s₁.clientId ≠ s.clientId :=
  fun he => hj (hL.unique j k s₁ s h hs he)

theorem Linked.slot_ne_noSession (hL : Linked P out σ) (hs : σ.sessions.slot k = some s) : k ≠ noSession := by
  have := hL.slot_lt k s hs
  have := P.T.sessions_le
  simp only [noSession]
  omega

theorem Linked.attached (hL : Linked P out σ) : Attached σ := by
  intro k s hs hact
  have hlt := hL.active_lt _ hact
  rw [(hL.of_session k s hs (ne_noConn_of_lt hlt)).2]
  exact hL.slot_ne_noSession hs

/-- **A quiet change keeps the links.** -/
theorem Linked.hush (hL : Linked P out σ) (q : Hush P own σ σ') : Linked P out σ' where
  active_lt := fun ci h => hL.active_lt ci (by rw [← q.active]; exact h)
  inactive := fun ci h => by rw [q.session]; exact hL.inactive ci (by rw [← q.active]; exact h)
  of_conn := fun ci h => by
    rw [q.session] at h ⊢
    obtain ⟨s, hs, hc⟩ := hL.of_conn ci h
    obtain ⟨s', hs', hf⟩ := q.frame hs
    exact ⟨s', hs', (Session.conn_eq_of_frame hf).trans hc⟩
  of_session := fun k s' hs' hne => by
    obtain ⟨s, hs, hf⟩ := q.frame' hs'
    rw [Session.conn_eq_of_frame hf] at hne ⊢
    rw [q.active, q.session]
    exact hL.of_session k s hs hne
  offline := fun k s' hs' hno => by
    obtain ⟨s, hs, hf⟩ := q.frame' hs'
    rw [Session.conn_eq_of_frame hf] at hno
    have hc : s'.cleanSession = s.cleanSession := show s'.frame.cleanSession = s.frame.cleanSession by rw [hf]
    have hw : s'.hasWill = s.hasWill := show s'.frame.hasWill = s.frame.hasWill by rw [hf]
    rw [hc, hw]
    exact hL.offline k s hs hno
  slot_lt := fun k s' hs' => by
    obtain ⟨s, hs, -⟩ := q.frame' hs'
    exact hL.slot_lt k s hs
  unique := fun k k' s s' hs hs' he => by
    obtain ⟨s₁, hs₁, hf⟩ := q.frame' hs
    obtain ⟨s₂, hs₂, hf'⟩ := q.frame' hs'
    exact hL.unique k k' s₁ s₂ hs₁ hs₂
      ((Session.clientId_eq_of_frame hf).symm.trans (he.trans (Session.clientId_eq_of_frame hf')))
  will := fun k s' hs' => by
    obtain ⟨s, hs, hf⟩ := q.frame' hs'
    have hw : s'.hasWill = s.hasWill := show s'.frame.hasWill = s.frame.hasWill by rw [hf]
    have ht : s'.willTopic = s.willTopic := show s'.frame.willTopic = s.frame.willTopic by rw [hf]
    have hp : s'.willPayload = s.willPayload := show s'.frame.willPayload = s.frame.willPayload by rw [hf]
    rw [hw, ht, hp]
    exact hL.will k s hs
  retained := q.retained hL.retained

theorem Linked.quiet (hL : Linked P out σ) (q : Quiet P own σ σ') : Linked P out σ' :=
  hL.hush q.toHush

/-- The links read of a connection only whether it is active and its session. -/
theorem Linked.congr (hL : Linked P out σ) (hslots : σ'.sessions.slot = σ.sessions.slot)
    (hret : σ'.retained = σ.retained)
    (hconns : ∀ j, (σ'.conns j).active = (σ.conns j).active ∧ (σ'.conns j).session = (σ.conns j).session) :
    Linked P out σ' where
  active_lt := fun ci h => hL.active_lt ci ((hconns ci).1 ▸ h)
  inactive := fun ci h => (hconns ci).2.trans (hL.inactive ci ((hconns ci).1 ▸ h))
  of_conn := fun ci h => by
    rw [(hconns ci).2] at h ⊢
    rw [hslots]
    exact hL.of_conn ci h
  of_session := fun k s hs hne => by
    rw [hslots] at hs
    rw [(hconns s.conn).1, (hconns s.conn).2]
    exact hL.of_session k s hs hne
  offline := by rw [hslots]; exact hL.offline
  slot_lt := by rw [hslots]; exact hL.slot_lt
  unique := by rw [hslots]; exact hL.unique
  will := by rw [hslots]; exact hL.will
  retained := by rw [hret]; exact hL.retained

end

/-! ## How the broker gets from one state to another -/

/-- **By moves, by mild acts, by steps of every connection, and with its books in order.** -/
structure Course (P : Params Ctx) (σ σ' : Broker Ctx) : Prop where
  evolve : Evolve P σ σ'
  mild : Grows (Act.Mild P) σ σ'
  lines : ∀ ci, Star (LineStep P ci) (lineActs ci σ.trace) (σ.conns ci) (lineActs ci σ'.trace) (σ'.conns ci)
  books : Books P σ → Books P σ'

section
variable {own : Nat → Prop} {σ σ' σ'' : Broker Ctx}

theorem Course.refl (P : Params Ctx) (σ : Broker Ctx) : Course P σ σ := ⟨.refl, .refl σ, fun _ => .refl, id⟩

theorem Course.trans (h₁ : Course P σ σ') (h₂ : Course P σ' σ'') : Course P σ σ'' where
  evolve := h₁.evolve.trans h₂.evolve
  mild := h₁.mild.trans h₂.mild
  lines := fun ci => (h₁.lines ci).trans (h₂.lines ci)
  books := fun h => h₂.books (h₁.books h)

theorem Quiet.course (q : Quiet P own σ σ') (hL : Linked P out σ) : Course P σ σ' where
  evolve := q.evolve
  mild := q.grows.mono fun _ h => h.mild
  lines := fun ci => Carry.lines (q.lines hL.attached ci)
  books := q.books

/-- A change that leaves no act: the clock, a counter, a parser or a deadline. -/
theorem Course.silent (sessions : σ'.sessions.slot = σ.sessions.slot) (retained : σ'.retained = σ.retained)
    (trace : σ'.trace = σ.trace) (order : σ'.disconnectOrder = σ.disconnectOrder)
    (conns : ∀ ci, (σ.conns ci).SameLine (σ'.conns ci)) : Course P σ σ' where
  evolve := .aside [] sessions retained trace (by simp) (.of_conns (fun j h => (conns j).dead.trans h))
  mild := ⟨[], trace, by simp⟩
  lines := fun ci => by
    rw [trace]
    exact (conns ci).star _
  books := fun h => h.congr trace order retained

theorem Course.of_evolve (new : Trace Ctx) (hE : Evolve P σ σ') (htrace : σ'.trace = new ++ σ.trace)
    (hnew : ∀ a ∈ new, a.Mild P ∧ a.line = none) (hconns : σ'.conns = σ.conns) (hbooks : Books P σ → Books P σ') :
    Course P σ σ' where
  evolve := hE
  mild := ⟨new, htrace, fun a ha => (hnew a ha).1⟩
  lines := fun ci => by
    rw [htrace, lineActs_skip (fun a ha => by simp [(hnew a ha).2]), hconns]
    exact .refl
  books := hbooks

end

/-! ## What the invariant says of one connection -/

section
variable {out : Option Nat} {σ : Broker Ctx}

theorem Linked.conn_lt (hL : Linked P out σ) (hs : σ.sessions.slot k = some s) (hne : s.conn ≠ noConn) :
    s.conn < P.T.maxConnections := hL.active_lt _ (hL.of_session k s hs hne).1

/-- `*session_of(c)` of a connection with a session is that session, and it is live. -/
theorem Linked.sessionOf (hL : Linked P out σ) (h : (σ.conns ci).session ≠ noSession) :
    ∃ s, σ.sessionOf P (σ.conns ci) = some ((σ.conns ci).session, s) ∧
      σ.sessions.slot (σ.conns ci).session = some s ∧ s.conn = ci := by
  obtain ⟨s, hs, hc⟩ := hL.of_conn ci h
  refine ⟨s, ?_, hs, hc⟩
  have hlt := hL.slot_lt _ s hs
  simp [Broker.sessionOf, Pool.get, h, hlt, hs]

theorem slot_of_sessionOf {c : Conn} (hof : σ.sessionOf P c = some (k, s)) :
    c.session = k ∧ σ.sessions.slot k = some s := by
  unfold Broker.sessionOf Pool.get at hof
  split at hof
  · cases hof
  · split at hof
    · obtain ⟨s', hs', he⟩ := Option.map_eq_some_iff.1 hof
      cases he
      exact ⟨rfl, hs'⟩
    · cases hof

theorem Linked.serving (hL : Linked P out σ) (hact : (σ.conns ci).active = true)
    (h : (σ.conns ci).session ≠ noSession) : ∃ s, s.conn = ci ∧ Serving P (σ.conns ci).session s σ := by
  obtain ⟨s, hof, hs, rfl⟩ := hL.sessionOf h
  exact ⟨s, rfl, hof, hs, hact, h, ne_noConn_of_lt (hL.active_lt _ hact)⟩

/-- A connection without a session is bound by none. -/
theorem Linked.conn_ne (hL : Linked P out σ) (h : (σ.conns ci).session = noSession) (hno : ci ≠ noConn)
    (hs : σ.sessions.slot k = some s) : s.conn ≠ ci := by
  rintro rfl
  have hk := (hL.of_session k s hs hno).2
  rw [h] at hk
  exact hL.slot_ne_noSession hs hk.symm

@[simp] theorem conns_setConn_self (σ : Broker Ctx) (ci : Nat) (c : Conn) : (σ.setConn ci c).conns ci = c :=
  Function.update_self ..

theorem conns_setConn_of_ne {j : Nat} (hj : j ≠ ci) (σ : Broker Ctx) (c : Conn) :
    (σ.setConn ci c).conns j = σ.conns j := Function.update_of_ne hj ..

/-- A connection that no session holds, rewritten as one. -/
theorem Linked.unlinked (hL : Linked P out σ) (hci : ci < P.T.maxConnections) (hno : (σ.conns ci).session = noSession)
    {c : Conn} (hsess : c.session = noSession) : Linked P out (σ.setConn ci c) := by
  refine ⟨fun j h => ?_, fun j h => ?_, fun j h => ?_, fun k s hs hne => ?_, hL.offline, hL.slot_lt, hL.unique, hL.will,
    hL.retained⟩
  · by_cases hj : j = ci
    · rw [hj]
      exact hci
    · rw [conns_setConn_of_ne hj] at h
      exact hL.active_lt j h
  · by_cases hj : j = ci
    · rw [hj, conns_setConn_self]
      exact hsess
    · rw [conns_setConn_of_ne hj] at h ⊢
      exact hL.inactive j h
  · by_cases hj : j = ci
    · rw [hj, conns_setConn_self] at h
      exact absurd hsess h
    · rw [conns_setConn_of_ne hj] at h ⊢
      exact hL.of_conn j h
  · rw [conns_setConn_of_ne (hL.conn_ne hno (ne_noConn_of_lt hci) hs)]
    exact hL.of_session k s hs hne

end

end Minimosq
