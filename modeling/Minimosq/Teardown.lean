import Mathlib.Data.Finset.Card
import Mathlib.Data.Finset.Range
import Minimosq.Link
/-!
# Teardown

One `teardown` unlinks one connection, submits the will, and releases a clean session; it may leave further connections
dead, which `flush_dead` tears down in turn.  `flushDead_rule` is the induction over it, and `flushDead_flushed` says
that no connection is left dead: every teardown ends an active connection and none becomes active meanwhile.
-/
namespace Minimosq

open History (Star since)

variable {Ctx : Type} {P : Params Ctx}
variable {s s' : Session Ctx} {ci j k : Nat} {σ σ' : Broker Ctx}

/-! ## Writing and freeing a slot -/

section
variable {out : Option Nat} {σ : Broker Ctx} {k : Nat} {s : Session Ctx}

/-- A session rewritten in place, with its identity and its connection. -/
theorem Linked.set (hL : Linked P out σ) (hs : σ.sessions.slot k = some s) (s' : Session Ctx) (hconn : s'.conn = s.conn)
    (hid : s'.clientId = s.clientId)
    (hoff : s'.conn = noConn → out = some k ∨ s'.cleanSession = false ∧ s'.hasWill = false)
    (hwill : WillFits P.T s'.hasWill s'.willTopic s'.willPayload) (t : Trace Ctx) :
    Linked P out { σ with sessions := σ.sessions.set k s', trace := t } := by
  refine hL.write rfl rfl (hL.slot_lt k s hs) (by rw [hid]; exact hL.others_differ hs) (.inr (.inl rfl)) hoff hwill
    hL.active_lt hL.inactive (fun ci h => ?_) (fun hne => ?_) (fun j s₁ _ => hL.of_session j s₁)
  · by_cases hj : (σ.conns ci).session = k
    · obtain ⟨s₁, h₁, hc⟩ := hL.of_conn ci h
      rw [hj, hs] at h₁
      cases h₁
      exact .inl ⟨hj, hconn.trans hc⟩
    · exact .inr ⟨hj, rfl⟩
  · rw [hconn] at hne ⊢
    exact hL.of_session k s hs hne

theorem slot_release (σ : Broker Ctx) (hs : σ.sessions.slot k = some s) (hk : k < P.T.maxSessions) :
    (σ.release P k).sessions.slot = Function.update σ.sessions.slot k none := by
  simp only [Broker.release, Pool.release, hs]
  rw [if_neg (by simp; omega)]

theorem evolve_release (hs : σ.sessions.slot k = some s) (hk : k < P.T.maxSessions) (hno : s.conn = noConn)
    (hwill : s.hasWill = false) : Evolve P σ (σ.release P k) := by
  refine Evolve.one [.release k] (slot_release σ hs hk) rfl rfl (by simp [Act.slot, Act.isSubs]) (.released _)
    (.of_conns (fun _ h => h)) (by simp) ?_
  rw [hs]
  exact .release hno hwill

theorem Linked.release (hL : Linked P out σ) (hs : σ.sessions.slot k = some s) (hno : s.conn = noConn)
    (hout : out = none ∨ out = some k) : Linked P none (σ.release P k) := by
  have hslot := slot_release _ hs (hL.slot_lt k s hs)
  have hget : ∀ j s₁, (σ.release P k).sessions.slot j = some s₁ → j ≠ k ∧ σ.sessions.slot j = some s₁ := by
    intro j s₁ h
    rw [hslot] at h
    rcases written_cases h with ⟨-, h⟩ | h
    · cases h
    · exact h
  refine ⟨hL.active_lt, hL.inactive, fun ci h => ?_, fun j s₁ h hne => hL.of_session j s₁ (hget j s₁ h).2 hne,
    fun j s₁ h hoff => ?_, fun j s₁ h => hL.slot_lt j s₁ (hget j s₁ h).2,
    fun j j' s₁ s₂ h h' he => hL.unique j j' s₁ s₂ (hget j s₁ h).2 (hget j' s₂ h').2 he,
    fun j s₁ h => hL.will j s₁ (hget j s₁ h).2, hL.retained⟩
  · obtain ⟨s₁, h₁, hc⟩ := hL.of_conn ci h
    have hact : (σ.conns ci).active = true := by
      cases ha : (σ.conns ci).active with
      | true => rfl
      | false => exact absurd (hL.inactive ci ha) h
    have hne : (σ.conns ci).session ≠ k := by
      intro he
      rw [he, hs] at h₁
      cases h₁
      exact ne_noConn_of_lt (hL.active_lt ci hact) (hc.symm.trans hno)
    exact ⟨s₁, by rw [hslot]; exact (Function.update_of_ne hne ..).trans h₁, hc⟩
  · obtain ⟨hj, h₁⟩ := hget j s₁ h
    rcases hL.offline j s₁ h₁ hoff with ho | ho
    · rcases hout with hn | hn <;> rw [hn] at ho <;> cases ho
      exact absurd rfl hj
    · exact .inr ho

/-- The slot that was out is back in. -/
theorem Linked.settle (hL : Linked P (some k) σ)
    (h : ∀ s, σ.sessions.slot k = some s → s.cleanSession = false ∧ s.hasWill = false) : Linked P none σ :=
  { hL with
    offline := fun j s hs hno => by
      rcases hL.offline j s hs hno with ho | ho
      · cases ho
        exact .inr (h s hs)
      · exact .inr ho }

end

/-! ## One teardown -/

/-- The session is the same client's, as it connected last. -/
structure Session.SameClient (s s' : Session Ctx) : Prop where
  clientId : s'.clientId = s.clientId
  clean : s'.cleanSession = s.cleanSession

theorem Session.SameClient.trans {s'' : Session Ctx} (h₁ : s.SameClient s') (h₂ : s'.SameClient s'') :
    s.SameClient s'' := ⟨h₂.clientId.trans h₁.clientId, h₂.clean.trans h₁.clean⟩

theorem Session.sameClient_of_frame (h : s'.frame = s.frame) : s.SameClient s' :=
  ⟨Session.clientId_eq_of_frame h, show s'.frame.cleanSession = s.frame.cleanSession by rw [h]⟩

/-- **What one `teardown(ci)` does.** -/
structure Torn (P : Params Ctx) (ci : Nat) (σ σ' : Broker Ctx) : Prop extends Course P σ σ' where
  linked : Linked P none σ'
  grows : Grows (Act.Still P) σ σ'
  now : σ'.nowMs = σ.nowMs
  gone : σ'.conns ci = (σ.conns ci).gone
  others : ∀ j, j ≠ ci → σ'.conns j = σ.conns j ∨ σ'.conns j = { σ.conns j with dead := true } ∧ Refused P σ j
  sessions : ∀ k s', σ'.sessions.slot k = some s' → ∃ s, σ.sessions.slot k = some s ∧ s.SameClient s' ∧
    (s'.conn = noConn ∨ s'.conn = s.conn ∧ s.conn ≠ ci)
  stays : ∀ k s, σ.sessions.slot k = some s → s.cleanSession = false → ∃ s', σ'.sessions.slot k = some s'

section
variable {σ : Broker Ctx} {ci : Nat}

/-- The state in which the connection is closed and its session, if any, not yet dealt with. -/
def closed (P : Params Ctx) (ci : Nat) (σ : Broker Ctx) : Broker Ctx :=
  (σ.notifyConn P .connectionClosed ci).setConn ci (σ.conns ci).gone

theorem closed_conns_of_ne (hj : j ≠ ci) : (closed P ci σ).conns j = σ.conns j :=
  Function.update_of_ne hj ..

theorem closed_conns_self : (closed P ci σ).conns ci = (σ.conns ci).gone := Function.update_self ..

/-- The session in slot `k` taken off connection `ci`. -/
def takenOff (k ci order : Nat) (s : Session Ctx) (σ : Broker Ctx) : Broker Ctx :=
  { σ with
    disconnectOrder := order
    sessions := σ.sessions.set k (detached s σ.nowMs order)
    trace := .detach k ci :: .parked k (detached s σ.nowMs order) :: σ.trace }

/-- The steps of a teardown, after the connection is closed, keep `I`. -/
structure TeardownKeeps (P : Params Ctx) (I : Broker Ctx → Prop) : Prop where
  off : ∀ {σ} k ci order s, I σ → I (takenOff k ci order s σ)
  will : ∀ {σ} k ci s, s.conn = noConn → I σ → I (σ.submitWill P k ci s)
  release : ∀ {σ} k, I σ → I (σ.release P k)
  close : ∀ {σ} ci, I σ → I (σ.emit (.close ci))

/-- **The rule for `teardown`**: what its steps keep, it keeps. -/
theorem TeardownKeeps.teardown {I : Broker Ctx → Prop} (h : TeardownKeeps P I) (hclosed : I (closed P ci σ)) :
    I (σ.teardown P ci) := by
  have hdrop : ∀ k s, I ((closed P ci σ).dropSession P k ci s) := by
    intro k s
    unfold Broker.dropSession
    extract_lets order s₁ σ₁ σ₂
    have hoff : I σ₁ := h.off k ci order s hclosed
    have hwill : I σ₂ := by
      unfold σ₂
      split
      · exact h.will k ci s₁ rfl hoff
      · exact hoff
    split
    · exact h.release k hwill
    · exact hwill
  have hend : ∀ σ₂, I σ₂ → I (if (σ.conns ci).notifyTransport then σ₂.emit (.close ci) else σ₂) := by
    intro σ₂ h₂
    split
    · exact h.close ci h₂
    · exact h₂
  unfold Broker.teardown
  dsimp only
  refine hend _ ?_
  split
  · exact hclosed
  · exact hdrop ..

theorem Linked.closed (hL : Linked P none σ) (hact : (σ.conns ci).active = true)
    (hno : (σ.conns ci).session = noSession) : Linked P none (closed P ci σ) := by
  have hnote : Linked P none (σ.notifyConn P .connectionClosed ci) := hL.congr rfl rfl (fun _ => ⟨rfl, rfl⟩)
  exact hnote.unlinked (hL.active_lt ci hact) hno rfl

/-- The state in which the session in slot `k` has just been taken off connection `ci`. -/
def parted (P : Params Ctx) (k ci order : Nat) (s : Session Ctx) (σ : Broker Ctx) : Broker Ctx :=
  { closed P ci σ with
    disconnectOrder := order
    sessions := σ.sessions.set k (detached s σ.nowMs order)
    trace := .detach k ci :: .parked k (detached s σ.nowMs order) :: (closed P ci σ).trace }

theorem Linked.parted (hL : Linked P none σ) (order : Nat) (hs : σ.sessions.slot k = some s) (hne : s.conn ≠ noConn) :
    Linked P (some k) (parted P k s.conn order s σ) := by
  obtain ⟨hact, hsess⟩ := hL.of_session k s hs hne
  have hconn : ∀ j, j ≠ s.conn → (Minimosq.parted P k s.conn order s σ).conns j = σ.conns j :=
    fun j hj => closed_conns_of_ne hj
  have hself : (Minimosq.parted P k s.conn order s σ).conns s.conn = (σ.conns s.conn).gone := closed_conns_self
  have hapart : ∀ j s₁, j ≠ k → σ.sessions.slot j = some s₁ → s₁.conn ≠ noConn → s₁.conn ≠ s.conn := by
    intro j s₁ hj h hno he
    have hj' := (hL.of_session j s₁ h hno).2
    rw [he, hsess] at hj'
    exact hj hj'.symm
  refine hL.write rfl rfl (hL.slot_lt k s hs) (fun j s₁ => hL.others_differ hs j s₁) (.inl rfl) (fun _ => .inl rfl)
    (hL.will k s hs)
    (fun j h => ?_) (fun j h => ?_) (fun j h => ?_) (absurd rfl) (fun j s₁ hj h hno => ?_)
  · by_cases hj : j = s.conn
    · rw [hj]
      exact hL.active_lt _ hact
    · rw [hconn j hj] at h
      exact hL.active_lt j h
  · by_cases hj : j = s.conn
    · rw [hj, hself]
      rfl
    · rw [hconn j hj] at h ⊢
      exact hL.inactive j h
  · by_cases hj : j = s.conn
    · rw [hj, hself] at h
      exact absurd rfl h
    · rw [hconn j hj] at h ⊢
      refine .inr ⟨fun he => ?_, rfl⟩
      obtain ⟨s₁, h₁, hc⟩ := hL.of_conn j h
      rw [he, hs] at h₁
      cases h₁
      exact hj hc.symm
  · rw [hconn _ (hapart j s₁ hj h hno)]
    exact hL.of_session j s₁ h hno

/-- The will of the session in slot `k`, off its connection with its will armed, and nothing linked or unlinked. -/
structure Willed (P : Params Ctx) (k : Nat) (σ σ' : Broker Ctx) : Prop where
  linked : Linked P (some k) σ'
  evolve : Evolve P σ σ'
  grows : Grows (Act.Still P) σ σ'
  carries : AllCarry P σ σ'
  books : Books P σ → Books P σ'
  now : σ'.nowMs = σ.nowMs
  conns : ∀ j, σ'.conns j = σ.conns j ∨ σ'.conns j = { σ.conns j with dead := true } ∧ Refused P σ j
  sessions : ∀ j s', σ'.sessions.slot j = some s' → ∃ s, σ.sessions.slot j = some s ∧ s.SameClient s' ∧ s'.conn = s.conn
  stays : ∀ j s, σ.sessions.slot j = some s → ∃ s', σ'.sessions.slot j = some s'
  own : ∀ s, σ.sessions.slot k = some s →
    ∃ s', σ'.sessions.slot k = some s' ∧ s'.conn = s.conn ∧ s'.cleanSession = s.cleanSession ∧ s'.hasWill = false

theorem submitWill_willed (hL : Linked P (some k) σ) (hs : σ.sessions.slot k = some s) (hno : s.conn = noConn)
    (hwill : s.hasWill = true) (hjust : ∃ h', slotActs k σ.trace = .detach k ci :: h') :
    Willed P k σ (σ.submitWill P k ci s) := by
  generalize hallow : P.sec.authorizePublish σ.trace s.authCtx s.willTopic = allowed
  -- The will is disarmed and noted; only then is it published, like any PUBLISH.
  let σ₁ := (σ.setSession k { s with hasWill := false }).emit (submitNote k ci s allowed)
  have hL₁ : Linked P (some k) σ₁ :=
    hL.set hs { s with hasWill := false } rfl rfl (fun _ => .inl rfl) (fun h => by cases h) _
  have hslot₁ : σ₁.sessions.slot = Function.update σ.sessions.slot k (some { s with hasWill := false }) := rfl
  have hE₁ : Evolve P σ σ₁ := by
    refine Evolve.one [submitNote k ci s allowed] hslot₁ rfl rfl (by simp [submitNote, Act.slot, Act.isSubs])
      (.of_some hs ⟨rfl, rfl⟩) (.of_conns (fun _ h => h)) (by simp [submitNote]) ?_
    rw [hs]
    exact .submit ci allowed σ.trace hno hwill hjust hallow
  have htrace₁ : σ₁.trace = submitNote k ci s allowed :: σ.trace := rfl
  have hG₁ : Grows (Act.Still P) σ σ₁ := .one htrace₁ ⟨trivial, rfl, rfl⟩
  have hC₁ : AllCarry P σ σ₁ := by
    intro j
    rw [htrace₁, lineActs_cons_other (by simp [submitNote, Act.line])]
    exact .refl
  have hB₁ : Books P σ → Books P σ₁ := fun h => h.note ⟨rfl, rfl, rfl⟩ htrace₁ rfl rfl
  have q : Quiet P (fun _ => False) σ₁ (σ.submitWill P k ci s) := by
    obtain ⟨htopic, hpayload⟩ := hL.will k s hs hwill
    simp only [Broker.submitWill, hallow]
    rw [← submitNote]
    change Quiet P _ σ₁ (if allowed = true then _ else σ₁)
    split
    · rename_i hyes
      refine quiet_publishes _ s.willRetain ⟨?_, fun h => by cases h⟩ htopic
        (bodyFits_of_stored htopic.stored hpayload _)
      rintro _ ⟨⟩
      have hdisarmed : σ₁.sessions.slot k = some { s with hasWill := false } := by
        rw [hslot₁]
        exact Function.update_self ..
      refine ⟨_, σ.trace, hdisarmed, rfl, hallow.trans hyes, .inr ?_⟩
      refine ⟨s.willRetain, [], slotActs k σ.trace, ?_, by simp⟩
      rw [htrace₁, slotActs_cons_own rfl, submitNote, hyes]
      rfl
    · exact .refl P _ σ₁
  have hsess₁ : ∀ j s', σ₁.sessions.slot j = some s' →
      ∃ s₀, σ.sessions.slot j = some s₀ ∧ s₀.SameClient s' ∧ s'.conn = s₀.conn := by
    intro j s' h
    rw [hslot₁] at h
    rcases written_cases h with ⟨rfl, he⟩ | ⟨-, h⟩
    · cases he
      exact ⟨s, hs, ⟨rfl, rfl⟩, rfl⟩
    · exact ⟨s', h, ⟨rfl, rfl⟩, rfl⟩
  refine ⟨hL₁.quiet q, hE₁.trans q.evolve, hG₁.trans q.grows, fun j => (hC₁ j).trans (q.lines hL₁.attached j),
    fun h => q.books (hB₁ h), ?_, fun j => ?_, fun j s' h => ?_, fun j s' h => ?_, fun s₀ h₀ => ?_⟩
  · exact q.now
  · rcases q.conns j with h | ⟨h, hf | hr⟩
    · exact .inl h
    · exact hf.elim
    · obtain ⟨hj₀, hw, j', s', hs', hj⟩ := hr
      obtain ⟨s₀, h₀, -, he⟩ := hsess₁ j' s' hs'
      exact .inr ⟨h, hj₀, hw, j', s₀, h₀, he.symm.trans hj⟩
  · obtain ⟨s₁, h₁, hf⟩ := q.frame' h
    obtain ⟨s₀, h₀, hid, he⟩ := hsess₁ j s₁ h₁
    exact ⟨s₀, h₀, hid.trans (Session.sameClient_of_frame hf), (Session.conn_eq_of_frame hf).trans he⟩
  · by_cases hj : j = k
    · subst hj
      obtain ⟨s₁, hs₁, -⟩ := q.frame (k := j) (s := { s with hasWill := false }) (by rw [hslot₁, Function.update_self])
      exact ⟨s₁, hs₁⟩
    · obtain ⟨s₁, hs₁, -⟩ := q.frame (k := j) (s := s') (by rw [hslot₁, Function.update_of_ne hj]; exact h)
      exact ⟨s₁, hs₁⟩
  · rw [hs] at h₀
    cases h₀
    obtain ⟨s', hs', hf⟩ := q.frame (k := k) (s := { s with hasWill := false }) (by rw [hslot₁, Function.update_self])
    refine ⟨s', hs', ?_, ?_, ?_⟩
    · exact show s'.frame.conn = s.conn by rw [hf]; rfl
    · exact show s'.frame.cleanSession = s.cleanSession by rw [hf]; rfl
    · exact show s'.frame.hasWill = false by rw [hf]; rfl

theorem Linked.parted_move (hL : Linked P none σ) (hs : σ.sessions.slot k = some s) (hne : s.conn ≠ noConn)
    (order : Nat) : Move P σ (Minimosq.parted P k s.conn order s σ) := by
  obtain ⟨e, htrace⟩ : ∃ e, (Minimosq.parted P k s.conn order s σ).trace =
    [.detach k s.conn, .parked k (detached s σ.nowMs order), .event e none] ++ σ.trace := ⟨_, rfl⟩
  refine .slot k rfl rfl htrace ?_ ?_ (.of_some hs ⟨rfl, rfl⟩) ?_ (by simp)
  · simp [Act.slot, Act.isSubs, Act.Aside, Act.isRetained]
  · rw [slotActs_cons_own rfl, slotActs_cons_own rfl, slotActs_cons_other (by simp [Act.slot]), slotActs_nil, hs]
    exact .detach σ.nowMs order hne
  · intro j s₁ s₂ h₁ h₂ hconn hno hd
    by_cases hj : j = k
    · -- The session itself has no connection any more.
      subst hj
      rw [show (Minimosq.parted P j s.conn order s σ).sessions.slot j = some (detached s σ.nowMs order) from
        Function.update_self ..] at h₂
      cases h₂
      exact absurd hconn.symm hno
    · have hother : s₁.conn ≠ s.conn := by
        intro he
        have hk := (hL.of_session j s₁ h₁ hno).2
        rw [he, (hL.of_session k s hs hne).2] at hk
        exact hj hk.symm
      rw [show (Minimosq.parted P k s.conn order s σ).conns s₁.conn = σ.conns s₁.conn from closed_conns_of_ne hother]
      exact hd

/-- The `connection_closed` of connection `ci`. -/
def closedEvent (P : Params Ctx) (ci : Nat) (σ : Broker Ctx) : Event :=
  { kind := .connectionClosed, ci := some ci, clientId := if ci < P.T.maxConnections then σ.clientIdOf P ci else [] }

/-- What `teardown(ci)` does but for telling the transport: the acts of connection `ci` end in its `connection_closed`,
and the others carry on. -/
structure Undone (P : Params Ctx) (ci : Nat) (σ σ' : Broker Ctx) : Prop where
  linked : Linked P none σ'
  evolve : Evolve P σ σ'
  grows : Grows (Act.Still P) σ σ'
  books : Books P σ → Books P σ'
  now : σ'.nowMs = σ.nowMs
  gone : σ'.conns ci = (σ.conns ci).gone
  ended : lineActs ci σ'.trace = .event (closedEvent P ci σ) none :: lineActs ci σ.trace
  others : ∀ j, j ≠ ci → σ'.conns j = σ.conns j ∨ σ'.conns j = { σ.conns j with dead := true } ∧ Refused P σ j
  carries : ∀ j, j ≠ ci →
    Star (fun _ => Carry P j) (lineActs j σ.trace) (σ.conns j) (lineActs j σ'.trace) (σ'.conns j)
  sessions : ∀ k s', σ'.sessions.slot k = some s' → ∃ s, σ.sessions.slot k = some s ∧ s.SameClient s' ∧
    (s'.conn = noConn ∨ s'.conn = s.conn ∧ s.conn ≠ ci)
  stays : ∀ k s, σ.sessions.slot k = some s → s.cleanSession = false → ∃ s', σ'.sessions.slot k = some s'

theorem closedEvent_line (ci : Nat) (σ : Broker Ctx) : (Act.event (closedEvent P ci σ) none : Act Ctx).line = some ci :=
  rfl

/-- The session half of `teardown`, from the state in which the session is off its connection. -/
theorem teardown_session (hL : Linked P none σ) (hs : σ.sessions.slot k = some s) (hne : s.conn ≠ noConn) :
    Undone P s.conn σ ((closed P s.conn σ).dropSession P k s.conn s) := by
  generalize horder : toU32 (σ.disconnectOrder + 1) = order
  set σ₁ := parted P k s.conn order s σ
  have hL₁ : Linked P (some k) σ₁ := hL.parted order hs hne
  have hslot₁ : σ₁.sessions.slot k = some (detached s σ.nowMs order) := Function.update_self ..
  have hE₁ : Evolve P σ σ₁ := .single (hL.parted_move hs hne order)
  have htrace₁ : σ₁.trace = .detach k s.conn :: .parked k (detached s σ.nowMs order) ::
      .event (closedEvent P s.conn σ) none :: σ.trace := rfl
  have hG₁ : Grows (Act.Still P) σ σ₁ := by
    refine ⟨[_, _, _], htrace₁, ?_⟩
    simp only [List.forall_mem_cons, List.not_mem_nil, false_imp_iff, implies_true, and_true]
    exact ⟨⟨trivial, rfl, rfl⟩, ⟨trivial, rfl, rfl⟩, ⟨trivial, rfl, rfl⟩⟩
  have hB₁ : Books P σ → Books P σ₁ := by
    intro h
    have hevent : Books P (closed P s.conn σ) := h.note (a := .event (closedEvent P s.conn σ) none)
        ⟨rfl, rfl, rfl⟩ rfl rfl rfl
    exact hevent.park (List.forall_mem_singleton.2 ⟨rfl, rfl, rfl⟩) rfl rfl horder.symm rfl
  have hline₁ : ∀ j, lineActs j σ₁.trace = lineActs j (.event (closedEvent P s.conn σ) none :: σ.trace) := by
    intro j
    rw [htrace₁, lineActs_cons_other (by simp [Act.line]), lineActs_cons_other (by simp [Act.line])]
  have hconns₁ : ∀ j, j ≠ s.conn → σ₁.conns j = σ.conns j := fun j hj => closed_conns_of_ne hj
  have hgone₁ : σ₁.conns s.conn = (σ.conns s.conn).gone := closed_conns_self
  have hsess₁ : ∀ j s', σ₁.sessions.slot j = some s' →
      ∃ s₀, σ.sessions.slot j = some s₀ ∧ s₀.SameClient s' ∧
        (s'.conn = noConn ∨ s'.conn = s₀.conn ∧ s₀.conn ≠ s.conn) := by
    intro j s' h
    rcases written_cases h with ⟨rfl, he⟩ | ⟨hj, h₀⟩
    · cases he
      exact ⟨s, hs, ⟨rfl, rfl⟩, .inl rfl⟩
    · refine ⟨s', h₀, ⟨rfl, rfl⟩, .inr ⟨rfl, fun he => hj ?_⟩⟩
      have hk := (hL.of_session j s' h₀ (he ▸ hne)).2
      rw [he, (hL.of_session k s hs hne).2] at hk
      exact hk.symm
  -- The will, if one is armed.
  let σ₂ := if s.hasWill = true then σ₁.submitWill P k s.conn (detached s σ.nowMs order) else σ₁
  have hW : Willed P k σ₁ σ₂ := by
    simp only [σ₂]
    split
    · rename_i hwill
      exact submitWill_willed hL₁ hslot₁ rfl hwill ⟨_, slotActs_cons_own rfl _⟩
    · rename_i hwill
      refine ⟨hL₁, .refl, .refl _, fun _ => .refl, id, rfl, fun _ => .inl rfl, fun _ s' h => ⟨s', h, ⟨rfl, rfl⟩, rfl⟩,
        fun _ s' h => ⟨s', h⟩, fun s' h => ⟨s', h, rfl, rfl, ?_⟩⟩
      rw [hslot₁] at h
      cases h
      exact Bool.eq_false_iff.2 hwill
  obtain ⟨s₂, hs₂, hconn₂, hclean₂, hwill₂⟩ := hW.own _ hslot₁
  have hconns₂ : ∀ j, j ≠ s.conn → σ₂.conns j = σ.conns j ∨
      σ₂.conns j = { σ.conns j with dead := true } ∧ Refused P σ j := by
    intro j hj
    rcases hW.conns j with h | ⟨h, hj₀, hr, j', s', hs', hj'⟩
    · exact .inl (by rw [h, hconns₁ j hj])
    · refine .inr ⟨by rw [h, hconns₁ j hj], hj₀, hr, ?_⟩
      obtain ⟨s₀, h₀, -, hc | ⟨hc, -⟩⟩ := hsess₁ j' s' hs'
      · exact absurd (hj'.symm.trans hc) hj₀
      · exact ⟨j', s₀, h₀, hc.symm.trans hj'⟩
  -- The connection itself is not there any more, so nothing is carried on it.
  obtain ⟨hended₂, hgone₂⟩ := Carry.refl_of_inactive (hW.carries s.conn)
    (show (σ₁.conns s.conn).active = false by rw [hgone₁]; rfl)
  rw [hline₁, lineActs_cons_own (closedEvent_line s.conn σ)] at hended₂
  rw [hgone₁] at hgone₂
  have hcarry₂ : ∀ j, j ≠ s.conn →
      Star (fun _ => Carry P j) (lineActs j σ.trace) (σ.conns j) (lineActs j σ₂.trace) (σ₂.conns j) := by
    intro j hj
    have h := hW.carries j
    rwa [hline₁, lineActs_cons_other (by rw [closedEvent_line]; simpa using Ne.symm hj), hconns₁ j hj] at h
  have hsess₂ : ∀ j s', σ₂.sessions.slot j = some s' →
      ∃ s₀, σ.sessions.slot j = some s₀ ∧ s₀.SameClient s' ∧
        (s'.conn = noConn ∨ s'.conn = s₀.conn ∧ s₀.conn ≠ s.conn) := by
    intro j s' h
    obtain ⟨s₁, h₁, hsame, he⟩ := hW.sessions j s' h
    obtain ⟨s₀, h₀, hsame₀, hc⟩ := hsess₁ j s₁ h₁
    rw [he]
    exact ⟨s₀, h₀, hsame₀.trans hsame, hc⟩
  have hstay₂ : ∀ j s', σ.sessions.slot j = some s' → ∃ s'', σ₂.sessions.slot j = some s'' := by
    intro j s' h
    by_cases hj : j = k
    · subst hj
      exact hW.stays j _ hslot₁
    · exact hW.stays j s' (by simpa only [σ₁, parted, Pool.set, Function.update_of_ne hj] using h)
  simp only [Broker.dropSession]
  rw [show (closed P s.conn σ).disconnectOrder = σ.disconnectOrder from rfl, horder]
  rw [show (closed P s.conn σ).nowMs = σ.nowMs from rfl]
  change Undone P s.conn σ (if s.cleanSession = true then σ₂.release P k else σ₂)
  split
  · rename_i hclean
    have hno₂ : s₂.conn = noConn := hconn₂
    have hline₃ : ∀ j, lineActs j (σ₂.release P k).trace = lineActs j σ₂.trace :=
      fun j => lineActs_cons_other (by simp [Act.line]) _
    exact {
      linked := hW.linked.release hs₂ hno₂ (.inr rfl)
      evolve := (hE₁.trans hW.evolve).trans (evolve_release hs₂ (hW.linked.slot_lt k s₂ hs₂) hno₂ hwill₂)
      grows := (hG₁.trans hW.grows).trans (.one rfl ⟨trivial, rfl, rfl⟩)
      books := fun h => (hW.books (hB₁ h)).note (a := .release k) ⟨rfl, rfl, rfl⟩ rfl rfl rfl
      now := hW.now
      gone := hgone₂
      ended := by rw [hline₃]; exact hended₂
      others := hconns₂
      carries := fun j hj => by rw [hline₃]; exact hcarry₂ j hj
      sessions := fun j s' h => hsess₂ j s' (slot_of_released h)
      stays := fun j s' h hkeep => by
        have hj : j ≠ k := by
          rintro rfl
          rw [hs] at h
          cases h
          rw [hclean] at hkeep
          cases hkeep
        obtain ⟨s'', h''⟩ := hstay₂ j s' h
        exact ⟨s'', by rw [slot_release _ hs₂ (hW.linked.slot_lt k s₂ hs₂), Function.update_of_ne hj]; exact h''⟩ }
  · rename_i hclean
    refine ⟨hW.linked.settle (fun s' h => ?_), hE₁.trans hW.evolve, hG₁.trans hW.grows, fun h => hW.books (hB₁ h),
      hW.now, hgone₂, hended₂, hconns₂, hcarry₂, hsess₂, fun j s' h _ => hstay₂ j s' h⟩
    rw [hs₂] at h
    cases h
    exact ⟨hclean₂.trans (Bool.eq_false_iff.2 hclean), hwill₂⟩

theorem teardown_idle (hL : Linked P none σ) (hact : (σ.conns ci).active = true)
    (hno : (σ.conns ci).session = noSession) : Undone P ci σ (closed P ci σ) := by
  have hother : ∀ {k s}, σ.sessions.slot k = some s → s.conn ≠ ci :=
    fun h => hL.conn_ne hno (ne_noConn_of_lt (hL.active_lt ci hact)) h
  have hdead : StaysDead σ (closed P ci σ) := by
    intro k s s' h _ _ _ hd
    rw [closed_conns_of_ne (hother h)]
    exact hd
  have htrace : (closed P ci σ).trace = .event (closedEvent P ci σ) none :: σ.trace := rfl
  exact {
    linked := hL.closed hact hno
    evolve := .aside [_] rfl rfl rfl (by simp [Act.Aside, Act.slot, Act.isRetained]) hdead
    grows := .one htrace ⟨trivial, rfl, rfl⟩
    books := fun h => h.note ⟨rfl, rfl, rfl⟩ htrace rfl rfl
    now := rfl
    gone := closed_conns_self
    ended := by rw [htrace, lineActs_cons_own (closedEvent_line ci σ)]
    others := fun j hj => .inl (closed_conns_of_ne hj)
    carries := fun j hj => by
      rw [htrace, lineActs_cons_other (by rw [closedEvent_line]; simpa using Ne.symm hj), closed_conns_of_ne hj]
      exact .refl
    sessions := fun k s' h => ⟨s', h, ⟨rfl, rfl⟩, .inr ⟨rfl, hother h⟩⟩
    stays := fun k s h _ => ⟨s, h⟩ }

/-- The transport is told, and a connection has ended. -/
theorem Undone.torn (h : Undone P ci σ σ') (hact : (σ.conns ci).active = true) (hdead : (σ.conns ci).dead = true) :
    Torn P ci σ (if (σ.conns ci).notifyTransport = true then σ'.emit (.close ci) else σ') := by
  have hend : LineStep P ci (lineActs ci σ.trace) (σ.conns ci) (if (σ.conns ci).notifyTransport then
      [.close ci, .event (closedEvent P ci σ) none] else [.event (closedEvent P ci σ) none]) (σ.conns ci).gone :=
    .ended (closedEvent P ci σ) rfl hact hdead
  have hlines : ∀ (σ'' : Broker Ctx) (closing : Trace Ctx), σ''.trace = closing ++ σ'.trace → σ''.conns = σ'.conns →
      (∀ a ∈ closing, a = .close ci) → (closing ++ [.event (closedEvent P ci σ) none] =
        if (σ.conns ci).notifyTransport then [.close ci, .event (closedEvent P ci σ) none]
        else [.event (closedEvent P ci σ) none]) →
      ∀ j, Star (LineStep P j) (lineActs j σ.trace) (σ.conns j) (lineActs j σ''.trace) (σ''.conns j) := by
    intro σ'' closing htrace hconns hclosing hacts j
    rw [htrace, hconns]
    by_cases hj : j = ci
    · subst hj
      have hown : lineActs j (closing ++ σ'.trace) = closing ++ [.event (closedEvent P j σ) none] ++
          lineActs j σ.trace := by
        rw [lineActs, History.about_append, History.about_own (fun a ha => by rw [hclosing a ha]; rfl)]
        exact (congrArg (closing ++ ·) h.ended).trans (by simp)
      rw [hown, hacts, h.gone]
      exact .single hend
    · rw [lineActs_skip (fun a ha => by rw [hclosing a ha]; simpa [Act.line] using Ne.symm hj)]
      exact Carry.lines (h.carries j hj)
  split
  · rename_i hnotify
    have q : Evolve P σ' (σ'.emit (.close ci)) :=
      .aside [_] rfl rfl rfl (by simp [Act.Aside, Act.slot, Act.isRetained]) (.of_conns (fun _ h => h))
    have hG : Grows (Act.Still P) σ (σ'.emit (.close ci)) := h.grows.trans (.one rfl ⟨trivial, rfl, rfl⟩)
    exact { h with
      evolve := h.evolve.trans q
      mild := hG.mono fun _ h => h.mild
      lines := hlines _ [.close ci] rfl rfl (by simp) (by rw [if_pos hnotify]; rfl)
      books := fun hb => (h.books hb).note (a := .close ci) ⟨rfl, rfl, rfl⟩ rfl rfl rfl
      linked := h.linked.congr rfl rfl (fun _ => ⟨rfl, rfl⟩)
      grows := hG }
  · rename_i hnotify
    exact { h with
      mild := h.grows.mono fun _ h => h.mild
      lines := hlines _ [] rfl rfl (by simp) (by rw [if_neg hnotify]; rfl) }

/-- **One teardown of an active connection that was given up on.** -/
theorem teardown_torn (hL : Linked P none σ) (hact : (σ.conns ci).active = true) (hdead : (σ.conns ci).dead = true) :
    Torn P ci σ (σ.teardown P ci) := by
  rw [Broker.teardown]
  by_cases hno : (σ.conns ci).session = noSession
  · have hof : σ.sessionOf P (σ.conns ci) = none := by simp [Broker.sessionOf, hno]
    simp only [hof]
    exact (teardown_idle hL hact hno).torn hact hdead
  · obtain ⟨s, hof, hs, hc⟩ := hL.sessionOf hno
    have hne : s.conn ≠ noConn := by rw [hc]; exact ne_noConn_of_lt (hL.active_lt ci hact)
    have h := teardown_session hL hs hne
    rw [hc] at h
    simp only [hof]
    exact h.torn hact hdead

end

/-! ## All of them -/

/-- No connection is left for `flush_dead`. -/
def Flushed (σ : Broker Ctx) : Prop := ∀ ci, (σ.conns ci).active = true → (σ.conns ci).dead = false

/-- The active connections. -/
def activeSet (P : Params Ctx) (σ : Broker Ctx) : Finset Nat :=
  (Finset.range P.T.maxConnections).filter (fun i => (σ.conns i).active = true)

theorem Torn.parser (h : Torn P ci σ σ') (j : Nat) : (σ'.conns j).parser = (σ.conns j).parser := by
  by_cases hj : j = ci
  · rw [hj, h.gone]
    rfl
  · rcases h.others j hj with e | ⟨e, -⟩ <;> rw [e]

theorem Torn.active_of_ne (h : Torn P ci σ σ') (hj : j ≠ ci) : (σ'.conns j).active = (σ.conns j).active := by
  rcases h.others j hj with e | ⟨e, -⟩ <;> rw [e]

theorem Torn.card_lt (h : Torn P ci σ σ') (hL : Linked P none σ) (hact : (σ.conns ci).active = true) :
    (activeSet P σ').card < (activeSet P σ).card := by
  refine Finset.card_lt_card ⟨fun j hj => ?_, fun hsub => ?_⟩
  · simp only [activeSet, Finset.mem_filter] at hj ⊢
    have hne : j ≠ ci := by
      rintro rfl
      rw [h.gone] at hj
      cases hj.2
    exact ⟨hj.1, by rw [← h.active_of_ne hne]; exact hj.2⟩
  · have hmem : ci ∈ activeSet P σ := by
      simp only [activeSet, Finset.mem_filter, Finset.mem_range]
      exact ⟨hL.active_lt ci hact, hact⟩
    have := hsub hmem
    simp only [activeSet, Finset.mem_filter, h.gone] at this
    cases this.2

/-- One visit of a pass. -/
def flushVisit (P : Params Ctx) (acc : Bool × Broker Ctx) (i : Nat) : Bool × Broker Ctx :=
  if (acc.2.conns i).active && (acc.2.conns i).dead then (true, acc.2.teardown P i) else acc

/-- A pass keeps what a teardown keeps; it found nothing, or it ended a connection. -/
theorem flushFold_spec (I : Broker Ctx → Prop) (hI : ∀ σ i, Linked P none σ → I σ → (σ.conns i).active = true →
      (σ.conns i).dead = true → I (σ.teardown P i)) :
    ∀ (l : List Nat) (b : Bool) (σ : Broker Ctx), Linked P none σ → I σ →
      let r := l.foldl (flushVisit P) (b, σ)
      Linked P none r.2 ∧ I r.2 ∧
      ((r = (b, σ) ∧ ∀ i ∈ l, (σ.conns i).active = true → (σ.conns i).dead = false) ∨
        (r.1 = true ∧ (activeSet P r.2).card < (activeSet P σ).card))
  | [], b, σ, hL, h => ⟨hL, h, .inl ⟨rfl, by simp⟩⟩
  | i :: l, b, σ, hL, h => by
    rw [List.foldl_cons]
    by_cases hd : ((σ.conns i).active && (σ.conns i).dead) = true
    · have hd' := Bool.and_eq_true_iff.1 hd
      have htorn := teardown_torn hL hd'.1 hd'.2
      have hvisit : flushVisit P (b, σ) i = (true, σ.teardown P i) := if_pos hd
      rw [hvisit]
      obtain ⟨hL', h', hr⟩ := flushFold_spec I hI l true _ htorn.linked (hI σ i hL h hd'.1 hd'.2)
      refine ⟨hL', h', .inr ?_⟩
      have hlt := htorn.card_lt hL hd'.1
      rcases hr with ⟨hr, -⟩ | ⟨hr, hlt'⟩
      · rw [hr]
        exact ⟨rfl, hlt⟩
      · exact ⟨hr, hlt'.trans hlt⟩
    · have hvisit : flushVisit P (b, σ) i = (b, σ) := if_neg hd
      rw [hvisit]
      obtain ⟨hL', h', hr⟩ := flushFold_spec I hI l b σ hL h
      refine ⟨hL', h', hr.imp_left (fun ⟨hr, hnone⟩ => ⟨hr, fun j hj hact => ?_⟩)⟩
      rcases List.mem_cons.1 hj with rfl | hj
      · simpa [hact] using hd
      · exact hnone j hj hact

theorem flushLoop_spec (I : Broker Ctx → Prop) (hI : ∀ σ i, Linked P none σ → I σ → (σ.conns i).active = true →
      (σ.conns i).dead = true → I (σ.teardown P i)) :
    ∀ (n : Nat) (σ : Broker Ctx), Linked P none σ → I σ → (activeSet P σ).card < n →
      Linked P none (Broker.flushLoop P n σ) ∧ I (Broker.flushLoop P n σ) ∧ Flushed (Broker.flushLoop P n σ)
  | 0, _, _, _, hn => absurd hn (Nat.not_lt_zero _)
  | n + 1, σ, hL, h, hn => by
    obtain ⟨hL', h', hr⟩ := flushFold_spec I hI (List.range P.T.maxConnections) false σ hL h
    have hpass : σ.flushPass P = (List.range P.T.maxConnections).foldl (flushVisit P) (false, σ) := rfl
    rw [← hpass] at hL' h' hr
    rw [Broker.flushLoop]
    rcases hr with ⟨hr, hnone⟩ | ⟨hr, hlt⟩
    · simp only [hr, Bool.false_eq_true, if_false]
      exact ⟨hL, h, fun ci hact => hnone ci (List.mem_range.2 (hL.active_lt ci hact)) hact⟩
    · rw [if_pos hr]
      exact flushLoop_spec I hI n _ hL' h' (by omega)

section
variable {σ : Broker Ctx}

/-- **The rule for `flush_dead`**: what every teardown of a dead connection keeps, it keeps. -/
theorem flushDead_rule (I : Broker Ctx → Prop) (hI : ∀ σ i, Linked P none σ → I σ → (σ.conns i).active = true →
      (σ.conns i).dead = true → I (σ.teardown P i)) (hL : Linked P none σ) (h : I σ) :
    Linked P none (σ.flushDead P) ∧ I (σ.flushDead P) ∧ Flushed (σ.flushDead P) := by
  refine flushLoop_spec I hI _ σ hL h (Nat.lt_succ_of_le ?_)
  exact (Finset.card_filter_le _ _).trans (by simp)

/-- What every teardown keeps, of whatever connection, `flush_dead` keeps. -/
theorem flushLoop_keeps {I : Broker Ctx → Prop} (hI : ∀ σ i, I σ → I (σ.teardown P i)) :
    ∀ (n : Nat) {σ : Broker Ctx}, I σ → I (Broker.flushLoop P n σ)
  | 0, _, h => h
  | n + 1, σ, h => by
    have hfold : ∀ (l : List Nat) (acc : Bool × Broker Ctx), I acc.2 → I (l.foldl (flushVisit P) acc).2 := by
      intro l
      induction l with
      | nil => exact fun _ h => h
      | cons i l ih =>
        refine fun acc h => ih _ ?_
        unfold flushVisit
        split
        · exact hI acc.2 i h
        · exact h
    have hpass : I (σ.flushPass P).2 := hfold _ (false, σ) h
    rw [Broker.flushLoop]
    split
    · exact flushLoop_keeps hI n hpass
    · exact hpass

theorem flushDead_of_flushed (h : Flushed σ) : σ.flushDead P = σ := by
  have hfold : ∀ (l : List Nat) (b : Bool), l.foldl (flushVisit P) (b, σ) = (b, σ) := by
    intro l
    induction l with
    | nil => exact fun _ => rfl
    | cons i l ih =>
      intro b
      have hvisit : flushVisit P (b, σ) i = (b, σ) := by
        refine if_neg ?_
        cases hact : (σ.conns i).active with
        | false => simp
        | true => simp [h i hact]
      rw [List.foldl_cons, hvisit, ih]
  have hpass : σ.flushPass P = (false, σ) := hfold _ false
  simp only [Broker.flushDead, Broker.flushLoop, hpass, Bool.false_eq_true, if_false]

/-- **What `flush_dead` does as a whole.** -/
structure Flush (P : Params Ctx) (σ σ' : Broker Ctx) : Prop extends Course P σ σ' where
  linked : Linked P none σ'
  flushed : Flushed σ'
  grows : Grows (Act.Still P) σ σ'
  now : σ'.nowMs = σ.nowMs
  /-- A connection that is still there is as it was. -/
  conns : ∀ j, (σ'.conns j).active = true → σ'.conns j = σ.conns j
  parser : ∀ j, (σ'.conns j).parser = (σ.conns j).parser
  sessions : ∀ k s', σ'.sessions.slot k = some s' →
    ∃ s, σ.sessions.slot k = some s ∧ s.SameClient s' ∧ (s'.conn = noConn ∨ s'.conn = s.conn)
  stays : ∀ k s, σ.sessions.slot k = some s → s.cleanSession = false → ∃ s', σ'.sessions.slot k = some s'

theorem flushDead_flush (hL : Linked P none σ) : Flush P σ (σ.flushDead P) := by
  obtain ⟨hL', ⟨hE, hG, hn, hp, hs, hstay, hc⟩, hF⟩ := flushDead_rule
    (fun σ' => Course P σ σ' ∧ Grows (Act.Still P) σ σ' ∧ σ'.nowMs = σ.nowMs ∧
      (∀ j, (σ'.conns j).parser = (σ.conns j).parser) ∧
      (∀ k s', σ'.sessions.slot k = some s' →
        ∃ s, σ.sessions.slot k = some s ∧ s.SameClient s' ∧ (s'.conn = noConn ∨ s'.conn = s.conn)) ∧
      (∀ k s, σ.sessions.slot k = some s → s.cleanSession = false → ∃ s', σ'.sessions.slot k = some s') ∧
      ∀ j, (σ'.conns j).active = true → σ'.conns j = σ.conns j ∨ σ'.conns j = { σ.conns j with dead := true })
    (fun σ' i hL' h hact hdead => by
      have ht := teardown_torn hL' hact hdead
      refine ⟨h.1.trans ht.toCourse, h.2.1.trans ht.grows, ht.now.trans h.2.2.1,
        fun j => (ht.parser j).trans (h.2.2.2.1 j), fun k s' hs' => ?_, fun k s hs hclean => ?_, fun j hj => ?_⟩
      · obtain ⟨s₁, h₁, hid₁, hc₁⟩ := ht.sessions k s' hs'
        obtain ⟨s, hs, hid, hc⟩ := h.2.2.2.2.1 k s₁ h₁
        refine ⟨s, hs, hid.trans hid₁, hc₁.elim .inl (fun hc₁ => ?_)⟩
        rw [hc₁.1]
        exact hc
      · obtain ⟨s', hs'⟩ := h.2.2.2.2.2.1 k s hs hclean
        obtain ⟨s₀, hs₀, hsame, -⟩ := h.2.2.2.2.1 k s' hs'
        rw [hs] at hs₀
        cases hs₀
        exact ht.stays k s' hs' (hsame.clean.trans hclean)
      have hne : j ≠ i := by
        rintro rfl
        rw [ht.gone] at hj
        cases hj
      have hprev := h.2.2.2.2.2.2 j (by rw [← ht.active_of_ne hne]; exact hj)
      rcases ht.others j hne with e | ⟨e, -⟩
      · rw [e]
        exact hprev
      · rcases hprev with e' | e' <;> exact .inr (by rw [e, e']))
    hL ⟨.refl P σ, .refl σ, rfl, fun _ => rfl, fun _ s h => ⟨s, h, ⟨rfl, rfl⟩, .inr rfl⟩, fun _ s h _ => ⟨s, h⟩,
      fun _ _ => .inl rfl⟩
  refine ⟨hE, hL', hF, hG, hn, fun j hj => (hc j hj).resolve_right (fun e => ?_), hp, hs, hstay⟩
  have := hF j hj
  rw [e] at this
  cases this

/-- A connection without a session is not torn down by others. -/
theorem flushDead_idle (hL : Linked P none σ) (hno : (σ.conns ci).session = noSession)
    (hdead : (σ.conns ci).dead = false) : (σ.flushDead P).conns ci = σ.conns ci := by
  refine (flushDead_rule (fun σ' => σ'.conns ci = σ.conns ci) (fun σ' i hL' h hact hd => ?_) hL rfl).2.1
  have hne : ci ≠ i := by
    rintro rfl
    rw [h, hdead] at hd
    cases hd
  rcases (teardown_torn hL' hact hd).others ci hne with e | ⟨-, hn, -, k, s, hs, hc⟩
  · rw [e, h]
  · exact absurd hc (hL'.conn_ne (by rw [h]; exact hno) hn hs)

/-- A session whose connection is dead comes out of `flush_dead` without it. -/
theorem flushDead_offline (hL : Linked P none σ) (hs : σ.sessions.slot k = some s) (hj : s.conn = j)
    (hdead : (σ.conns j).dead = true) (hs' : (σ.flushDead P).sessions.slot k = some s') : s'.conn = noConn := by
  obtain ⟨hL', hI, hF⟩ := flushDead_rule
    (fun σ' => ∀ s', σ'.sessions.slot k = some s' → s'.conn = noConn ∨ s'.conn = j ∧ (σ'.conns j).dead = true)
    (fun σ' i hL' h hact hd s' hs' => by
      have ht := teardown_torn hL' hact hd
      obtain ⟨s₀, h₀, -, hn | ⟨hc, hne⟩⟩ := ht.sessions k s' hs'
      · exact .inl hn
      · rcases h s₀ h₀ with hn | ⟨hcj, hd⟩
        · exact .inl (hc.trans hn)
        · refine .inr ⟨hc.trans hcj, ?_⟩
          rcases ht.others j (by rw [← hcj]; exact hne) with e | ⟨e, -⟩ <;> rw [e]
          exact hd)
    hL (fun s₁ h₁ => by rw [hs] at h₁; cases h₁; exact .inr ⟨hj, hdead⟩)
  by_cases hne : s'.conn = noConn
  · exact hne
  · rcases hI s' hs' with hn | ⟨hc, hd⟩
    · exact hn
    · have hact := (hL'.of_session k s' hs' hne).1
      rw [hc] at hact
      rw [hF j hact] at hd
      cases hd

end

end Minimosq
