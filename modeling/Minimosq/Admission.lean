import Minimosq.Connect
/-!
# Which session a CONNECT gets

`handle_connect` from its first check to the session it binds.  A CONNECT on a connection without a session is turned
away, or it passes every check (`Heard`).  One that passes takes over whoever holds its client id, and is then refused
for lack of a slot, starts a session in a slot that was or became free (`Room`), or resumes the session that is there
(`Outcome`).
-/
namespace Minimosq

open History (Star since)

variable {Ctx : Type} {P : Params Ctx}
variable {α : Type} {cap k : Nat} {ctx : Ctx}

/-! ## Finding and making the session -/

theorem find_some {i : Nat} {pred : α → Bool} {pool : Pool α} (h : pool.find cap pred = some i) :
    ∃ a, pool.slot i = some a ∧ pred a = true := by
  have hi := List.find?_some h
  cases ha : pool.slot i with
  | none => simp [ha] at hi
  | some a => exact ⟨a, rfl, by simpa [ha] using hi⟩

theorem find_none {pred : α → Bool} {pool : Pool α} (h : pool.find cap pred = none) {i : Nat} {a : α} (hi : i < cap)
    (ha : pool.slot i = some a) : pred a = false := by
  have hn := List.find?_eq_none.1 h i (List.mem_range.2 hi)
  simpa [ha] using hn

theorem alloc_some {init : α} {pool pool' : Pool α} (h : pool.alloc cap init = some (k, pool')) :
    k < cap ∧ pool.slot k = none ∧ pool'.slot = Function.update pool.slot k (some init) := by
  simp only [Pool.alloc, Option.map_eq_some_iff] at h
  obtain ⟨i, hi, he⟩ := h
  cases he
  have hmem := List.mem_of_find?_eq_some hi
  have hp := List.find?_some hi
  exact ⟨List.mem_range.1 hmem, by simpa using hp, rfl⟩

theorem alloc_of_free {pool : Pool α} (hk : k < cap) (hfree : pool.slot k = none) (init : α) :
    ∃ j pool', pool.alloc cap init = some (j, pool') := by
  cases h : pool.free cap with
  | none =>
    have := List.find?_eq_none.1 h k (List.mem_range.2 hk)
    simp [hfree] at this
  | some j => exact ⟨j, _, by rw [Pool.alloc, h]; rfl⟩

theorem alloc_none {init : α} {pool : Pool α} (h : pool.alloc cap init = none) (hk : k < cap) :
    ∃ a, pool.slot k = some a := by
  cases ha : pool.slot k with
  | none =>
    obtain ⟨j, pool', hj⟩ := alloc_of_free hk ha init
    rw [h] at hj
    cases hj
  | some a => exact ⟨a, rfl⟩

section
variable {σ : Broker Ctx} {ci k : Nat} {s : Session Ctx} {p : ConnectPacket} {clientId : Bytes} {ctx : Ctx}

/-- One visit of the loop of `oldest_disconnected_session`. -/
def oldestVisit (σ : Broker Ctx) (acc : Option (Nat × Nat)) (k : Nat) : Option (Nat × Nat) :=
  match σ.sessions.slot k with
  | none => acc
  | some s =>
    if s.connected then acc
    else
      match acc with
      | none => some (k, s.disconnectOrder)
      | some (_, order) => if notBefore s.disconnectOrder order then acc else some (k, s.disconnectOrder)

theorem oldestDisconnected_eq (P : Params Ctx) (σ : Broker Ctx) :
    σ.oldestDisconnected P = ((List.range P.T.maxSessions).foldl (oldestVisit σ) none).map Prod.fst := rfl

/-- The session in slot `k` has no connection, and this ticket. -/
def Parked (σ : Broker Ctx) (k order : Nat) : Prop :=
  ∃ s, σ.sessions.slot k = some s ∧ s.conn = noConn ∧ s.disconnectOrder = order

/-- **What a visit makes of the oldest so far.** -/
theorem oldestVisit_cases (σ : Broker Ctx) (acc : Option (Nat × Nat)) (k : Nat) :
    ((∀ order, ¬Parked σ k order) ∧ oldestVisit σ acc k = acc) ∨
    ∃ order, Parked σ k order ∧
      ((acc = none ∨ ∃ v o, acc = some (v, o) ∧ notBefore order o = false) ∧
          oldestVisit σ acc k = some (k, order) ∨
        (∃ v o, acc = some (v, o) ∧ notBefore order o = true) ∧ oldestVisit σ acc k = acc) := by
  unfold oldestVisit
  split
  · rename_i hs
    refine .inl ⟨?_, rfl⟩
    rintro order ⟨s, hs', -⟩
    rw [hs] at hs'
    cases hs'
  rename_i s hs
  split
  · rename_i hcon
    refine .inl ⟨?_, rfl⟩
    rintro order ⟨s', hs', hoff, -⟩
    rw [hs] at hs'
    cases hs'
    simp [Session.connected, hoff] at hcon
  rename_i hno
  have hpark : Parked σ k s.disconnectOrder := ⟨s, hs, by simpa [Session.connected] using hno, rfl⟩
  refine .inr ⟨s.disconnectOrder, hpark, ?_⟩
  cases acc with
  | none => exact .inl ⟨.inl rfl, rfl⟩
  | some vo =>
    obtain ⟨v, o⟩ := vo
    cases hb : notBefore s.disconnectOrder o with
    | true => exact .inr ⟨⟨v, o, rfl, hb⟩, by simp [hb]⟩
    | false => exact .inl ⟨.inr ⟨v, o, rfl, hb⟩, by simp [hb]⟩

/-- **The rule for `oldest_disconnected_session`**: what holds before the first visit and is kept by each of them holds
of what it finds. -/
theorem oldestDisconnected_rule (I : List Nat → Option (Nat × Nat) → Prop) (hinit : I [] none)
    (hvisit : ∀ seen acc k, I seen acc → I (k :: seen) (oldestVisit σ acc k)) :
    ∃ acc, I (List.range P.T.maxSessions).reverse acc ∧ σ.oldestDisconnected P = acc.map Prod.fst := by
  have hfold : ∀ (l seen : List Nat) (acc : Option (Nat × Nat)), I seen acc →
      I (l.reverse ++ seen) (l.foldl (oldestVisit σ) acc) := by
    intro l
    induction l with
    | nil => exact fun seen acc h => h
    | cons k l ih =>
      intro seen acc h
      rw [List.reverse_cons, List.append_assoc, List.foldl_cons]
      exact ih (k :: seen) _ (hvisit seen acc k h)
  have h := hfold (List.range P.T.maxSessions) [] none hinit
  rw [List.append_nil] at h
  exact ⟨_, h, oldestDisconnected_eq P σ⟩

/-- `oldest_disconnected_session` is a session without a connection, and finds one if there is any. -/
theorem oldestDisconnected_parked (P : Params Ctx) (σ : Broker Ctx) :
    (∀ v, σ.oldestDisconnected P = some v → ∃ order, Parked σ v order) ∧
      (σ.oldestDisconnected P = none → ∀ k < P.T.maxSessions, ∀ order, ¬Parked σ k order) := by
  obtain ⟨acc, ⟨hsome, hnone⟩, he⟩ := oldestDisconnected_rule (P := P) (σ := σ)
    (fun seen acc => (∀ v o, acc = some (v, o) → Parked σ v o) ∧ (acc = none → ∀ k ∈ seen, ∀ order, ¬Parked σ k order))
    ⟨by simp, by simp⟩ (fun seen acc k hI => by
      rcases oldestVisit_cases σ acc k with ⟨hno, he⟩ | ⟨order, hp, ⟨-, he⟩ | ⟨⟨v, o, rfl, -⟩, he⟩⟩
      · rw [he]
        refine ⟨hI.1, fun hn j hj => ?_⟩
        rcases List.mem_cons.1 hj with rfl | hj
        · exact hno
        · exact hI.2 hn j hj
      · rw [he]
        refine ⟨fun v o h => ?_, by simp⟩
        cases h
        exact hp
      · rw [he]
        exact ⟨hI.1, by simp⟩)
  rw [he]
  refine ⟨fun v hv => ?_, fun hn k hk => ?_⟩
  · obtain ⟨⟨v', o⟩, hvo, rfl⟩ := Option.map_eq_some_iff.1 hv
    exact ⟨o, hsome v' o hvo⟩
  · exact hnone (Option.map_eq_none_iff.1 hn) k (by simpa using hk)

/-- `alloc` hands out slot `k`. -/
def allocated (P : Params Ctx) (k : Nat) (pool : Pool (Session Ctx)) (clientId : Bytes) (σ : Broker Ctx) : Broker Ctx :=
  { σ with sessions := pool, trace := .alloc k :: checkAssign [(P.T.maxClientIdLen, clientId)] σ.trace }

theorem allocated_eq (hid : ClientIdFits P.T clientId) (k : Nat) (pool : Pool (Session Ctx)) :
    allocated P k pool clientId σ = { σ with sessions := pool }.emit (.alloc k) := by
  rw [allocated, checkAssign_of_fits (by simpa using hid.stored)]
  rfl

theorem freshSession_clientId (ctx : Ctx) (hid : ClientIdFits P.T clientId) :
    (freshSession P.T ctx clientId).clientId = clientId := assign_of_le hid.stored

theorem Linked.allocated {pool : Pool (Session Ctx)} (hL : Linked P none σ)
    (halloc : σ.sessions.alloc P.T.maxSessions (freshSession P.T ctx clientId) = some (k, pool))
    (hid : ClientIdFits P.T clientId) (hnew : ∀ j s, σ.sessions.slot j = some s → s.clientId ≠ clientId) :
    Linked P (some k) ({ σ with sessions := pool }.emit (.alloc k)) := by
  obtain ⟨hk, hfree, hpool⟩ := alloc_some halloc
  have hfresh := freshSession_clientId ctx hid
  refine hL.write hpool rfl hk (fun j s₁ _ h => by rw [hfresh]; exact hnew j s₁ h) (.inl rfl) (fun _ => .inl rfl)
    (fun hw => by cases hw) hL.active_lt hL.inactive (fun j h => .inr ⟨fun he => ?_, rfl⟩) (absurd rfl)
    (fun j s₁ _ => hL.of_session j s₁)
  obtain ⟨s₁, h₁, -⟩ := hL.of_conn j h
  rw [show (σ.conns j).session = k from he, hfree] at h₁
  cases h₁

/-- CONNECT for a client nobody else is: a fresh session in a free slot. -/
theorem Asking.allocated {pool : Pool (Session Ctx)} (hr : Asking P ci p clientId ctx σ) (hL : Linked P none σ)
    (halloc : σ.sessions.alloc P.T.maxSessions (freshSession P.T ctx clientId) = some (k, pool))
    (hnew : ∀ j s, σ.sessions.slot j = some s → s.clientId ≠ clientId) :
    Handled P ci σ ((allocated P k pool clientId σ).connectBind P ci p ctx k false
      (freshSession P.T ctx clientId)) := by
  obtain ⟨hk, hfree, hpool⟩ := alloc_some halloc
  rw [allocated_eq hr.id]
  have hE : Evolve P σ ({ σ with sessions := pool }.emit (.alloc k)) := by
    refine Evolve.one [.alloc k] hpool rfl rfl (by simp [Act.slot, Act.isSubs]) (by rw [hfree]; exact .allocated _)
      (.of_conns (fun _ h => h)) (by simp) ?_
    rw [hfree]
    exact .alloc ctx clientId hr.id
  have hC : Course P σ ({ σ with sessions := pool }.emit (.alloc k)) :=
    .of_evolve [.alloc k] hE rfl (by simp [Act.Mild, Act.line]) rfl
      (fun h => h.note ⟨rfl, rfl, rfl⟩ rfl rfl rfl)
  have hr' : Asking P ci p clientId ctx ({ σ with sessions := pool }.emit (.alloc k)) :=
    hr.congr [.alloc k] rfl rfl (by simp [Act.packet?])
  have hslot : ({ σ with sessions := pool }.emit (.alloc k)).sessions.slot k =
      some (freshSession P.T ctx clientId) := (congrFun hpool k).trans (Function.update_self ..)
  have hB := hr'.connectBind_fresh (hL.allocated halloc hr.id hnew) (.inr rfl) hslot rfl
      (freshSession_clientId ctx hr.id) rfl rfl
  exact { hB with toCourse := hC.trans hB.toCourse }

theorem release_handled (ci : Nat) (hL : Linked P none σ) (hs : σ.sessions.slot k = some s) (hoff : s.conn = noConn) :
    Handled P ci σ (σ.release P k) where
  toCourse := .of_evolve [.release k]
    (evolve_release hs (hL.slot_lt k s hs) hoff ((hL.offline k s hs hoff).resolve_left (by simp)).2) rfl
    (by simp [Act.Mild, Act.line]) rfl (fun h => h.note ⟨rfl, rfl, rfl⟩ rfl rfl rfl)
  linked := hL.release hs hoff (.inl rfl)
  now := rfl
  active := rfl
  parser := fun _ => rfl
  calm := fun _ h => h
  fresh := fun h => h

theorem Asking.release (hr : Asking P ci p clientId ctx σ) (k : Nat) : Asking P ci p clientId ctx (σ.release P k) :=
  hr.congr [.release k] rfl rfl (by simp [Act.packet?])

theorem slot_of_release {j : Nat} {s' : Session Ctx} (hs : σ.sessions.slot k = some s) (hk : k < P.T.maxSessions)
    (h : (σ.release P k).sessions.slot j = some s') : j ≠ k ∧ σ.sessions.slot j = some s' := by
  rw [slot_release _ hs hk] at h
  rcases written_cases h with ⟨-, h⟩ | h
  · cases h
  · exact h

/-- **The takeover**: whoever holds the client id comes off its connection. -/
def takenOver (P : Params Ctx) (clientId : Bytes) (σ : Broker Ctx) : Broker Ctx :=
  match σ.findClient P clientId with
  | none => σ
  | some k =>
    match σ.sessions.slot k with
    | none => σ
    | some s =>
      if s.connected then
        ({ σ with trace := notifySession .sessionTakenOver k s σ.trace }.setDead s.conn).flushDead P
      else σ

/-- **What a takeover does for a CONNECT on `ci`.** -/
structure TakenOver (P : Params Ctx) (ci : Nat) (clientId : Bytes) (σ σ' : Broker Ctx) : Prop extends
    Handled P ci σ σ' where
  conn : σ'.conns ci = σ.conns ci
  grows : Grows (Act.Still P) σ σ'
  offline : ∀ k s, σ'.findClient P clientId = some k → σ'.sessions.slot k = some s → s.conn = noConn
  sessions : ∀ k s', σ'.sessions.slot k = some s' → ∃ s, σ.sessions.slot k = some s ∧ s.SameClient s'
  stays : ∀ k s, σ.sessions.slot k = some s → s.cleanSession = false → ∃ s', σ'.sessions.slot k = some s'

theorem takenOver_spec (clientId : Bytes) (hL : Linked P none σ) (hact : (σ.conns ci).active = true)
    (hno : (σ.conns ci).session = noSession) (hdead : (σ.conns ci).dead = false) :
    TakenOver P ci clientId σ (takenOver P clientId σ) := by
  have hrefl : Handled P ci σ σ := (Quiet.refl P (· = ci) σ).handled hL
  have hsame : ∀ k s', σ.sessions.slot k = some s' → ∃ s, σ.sessions.slot k = some s ∧ s.SameClient s' :=
    fun _ s' h => ⟨s', h, rfl, rfl⟩
  have hstay : ∀ k s, σ.sessions.slot k = some s → s.cleanSession = false → ∃ s', σ.sessions.slot k = some s' :=
    fun _ s h _ => ⟨s, h⟩
  unfold takenOver
  split
  · rename_i hnone
    exact ⟨hrefl, rfl, .refl σ, fun k s h => by (rw [hnone] at h; cases h), hsame, hstay⟩
  rename_i k hk
  obtain ⟨s, hs, hid⟩ := find_some hk
  simp only [hs]
  split
  · rename_i hcon
    have hcon : s.conn ≠ noConn := by simpa [Session.connected] using hcon
    have hne : ci ≠ s.conn := fun h => hL.conn_ne hno (ne_noConn_of_lt (hL.active_lt ci hact)) hs h.symm
    set σ₁ := Broker.setDead s.conn { σ with trace := notifySession .sessionTakenOver k s σ.trace }
    have q : Quiet P (· = s.conn) σ σ₁ := (quiet_notify (· = s.conn) hs _ (by simp) (by simp)).trans
      (quiet_setDead (.inl rfl) (hL.of_session k s hs hcon).1)
    have hL₁ := hL.quiet q
    have hconns₁ : ∀ j, σ₁.conns j = if j = s.conn then { σ.conns s.conn with dead := true } else σ.conns j :=
      setDead_conns _ _
    have hci₁ : σ₁.conns ci = σ.conns ci := by rw [hconns₁, if_neg hne]
    have hs₁ : σ₁.sessions.slot k = some s := hs
    have hdead₁ : (σ₁.conns s.conn).dead = true := by rw [hconns₁, if_pos rfl]
    have hF := flushDead_flush hL₁
    have hci₂ : (σ₁.flushDead P).conns ci = σ.conns ci :=
      (flushDead_idle hL₁ (by rw [hci₁]; exact hno) (by rw [hci₁]; exact hdead)).trans hci₁
    refine ⟨⟨(q.course hL).trans hF.toCourse, hF.linked, hF.now.trans q.now, by rw [hci₂],
      fun j => (hF.parser j).trans (q.parser j), fun _ _ j _ hj => hF.flushed j hj, fun _ hs => ?_⟩, hci₂,
      q.grows.trans hF.grows, fun k' s' hk' hs' => ?_, fun k' s' hs' => ?_, fun k' s' hs' hclean => ?_⟩
    · rw [hci₂] at hs
      exact absurd hno hs
    · obtain ⟨s₂, hs₂, hid₂⟩ := find_some hk'
      rw [hs'] at hs₂
      cases hs₂
      obtain ⟨s₀, hs₀, hid₀, -⟩ := hF.sessions k' s' hs'
      have hk : k' = k := hL₁.unique k' k s₀ s hs₀ hs₁ (by
        rw [← hid₀.clientId, eq_of_beq hid₂, eq_of_beq hid])
      rw [hk] at hs'
      exact flushDead_offline hL₁ hs₁ rfl hdead₁ hs'
    · obtain ⟨s₀, hs₀, hsame, -⟩ := hF.sessions k' s' hs'
      exact ⟨s₀, hs₀, hsame⟩
    · exact hF.stays k' s' hs' hclean
  · rename_i hcon
    have hoff : s.conn = noConn := by simpa [Session.connected] using hcon
    refine ⟨hrefl, rfl, .refl σ, fun k' s' hk' hs' => ?_, hsame, hstay⟩
    rw [hk] at hk'
    cases hk'
    rw [hs] at hs'
    cases hs'
    exact hoff

theorem connectAccepted_eq (ci : Nat) (p : ConnectPacket) (clientId : Bytes) (ctx : Ctx) (σ : Broker Ctx) :
    σ.connectAccepted P ci p clientId ctx =
      match (takenOver P clientId σ).findClient P clientId with
      | none => (takenOver P clientId σ).connectAlloc P ci p clientId ctx
      | some k =>
        if p.cleanSession then ((takenOver P clientId σ).release P k).connectAlloc P ci p clientId ctx
        else
          match (takenOver P clientId σ).sessions.slot k with
          | none => takenOver P clientId σ
          | some s => (takenOver P clientId σ).connectBind P ci p ctx k true s := rfl

/-- The slot after a client's session left it is free of that client. -/
theorem Linked.released_new (hL : Linked P none σ) (hs : σ.sessions.slot k = some s) (hid : s.clientId = clientId)
    (j : Nat) (s' : Session Ctx) (hs' : (σ.release P k).sessions.slot j = some s') : s'.clientId ≠ clientId := by
  obtain ⟨hj, hs'⟩ := slot_of_release hs (hL.slot_lt k s hs) hs'
  exact fun he => hj (hL.unique j k s' s hs' hs (he.trans hid.symm))

theorem findClient_none (hL : Linked P none σ) (h : σ.findClient P clientId = none) (j : Nat) (s : Session Ctx)
    (hs : σ.sessions.slot j = some s) : s.clientId ≠ clientId := by
  intro he
  have hno := find_none h (hL.slot_lt j s hs) hs
  simp [he] at hno

theorem findClient_some (h : σ.findClient P clientId = some k) :
    ∃ s, σ.sessions.slot k = some s ∧ s.clientId = clientId := by
  obtain ⟨s, hs, hid⟩ := find_some h
  exact ⟨s, hs, eq_of_beq hid⟩

/-- **How a fresh session comes by a free slot**: nobody holds the client id, and there is one or the session
disconnected longest gives up its own; or somebody held it, and the slot is theirs. -/
inductive Room (P : Params Ctx) (p : ConnectPacket) (clientId : Bytes) (σ : Broker Ctx) : Broker Ctx → Prop
  | free (hnone : σ.findClient P clientId = none) : Room P p clientId σ σ
  | evicted {v : Nat} {sv : Session Ctx} (hnone : σ.findClient P clientId = none)
      (hfull : ∀ k < P.T.maxSessions, ∃ s, σ.sessions.slot k = some s) (hv : σ.oldestDisconnected P = some v)
      (hs : σ.sessions.slot v = some sv) (hoff : sv.conn = noConn) :
      Room P p clientId σ (Broker.release P v { σ with trace := notifySession .sessionEvicted v sv σ.trace })
  | vacated {k : Nat} {s : Session Ctx} (hs : σ.sessions.slot k = some s) (hid : s.clientId = clientId)
      (hgone : (takenOver P clientId σ).findClient P clientId = none) : Room P p clientId σ (takenOver P clientId σ)
  | replaced {k : Nat} {s : Session Ctx} (hclean : p.cleanSession = true)
      (hs : (takenOver P clientId σ).sessions.slot k = some s) (hid : s.clientId = clientId) (hoff : s.conn = noConn) :
      Room P p clientId σ ((takenOver P clientId σ).release P k)

/-- **What becomes of a CONNECT that passed its checks.** -/
inductive Outcome (P : Params Ctx) (ci : Nat) (p : ConnectPacket) (clientId : Bytes) (ctx : Ctx) (σ : Broker Ctx) :
    Broker Ctx → Prop
  | full (hnone : σ.findClient P clientId = none)
      (hbusy : ∀ k < P.T.maxSessions, ∃ s, σ.sessions.slot k = some s ∧ s.conn ≠ noConn) :
      Outcome P ci p clientId ctx σ (σ.refuse P ci .serverUnavailable clientId)
  | fresh {σ₁ : Broker Ctx} {k : Nat} {pool : Pool (Session Ctx)} (room : Room P p clientId σ σ₁)
      (halloc : σ₁.sessions.alloc P.T.maxSessions (freshSession P.T ctx clientId) = some (k, pool)) :
      Outcome P ci p clientId ctx σ
        ((allocated P k pool clientId σ₁).connectBind P ci p ctx k false (freshSession P.T ctx clientId))
  | resumed {k : Nat} {s : Session Ctx} (hclean : p.cleanSession = false)
      (hs : (takenOver P clientId σ).sessions.slot k = some s) (hid : s.clientId = clientId) (hoff : s.conn = noConn) :
      Outcome P ci p clientId ctx σ ((takenOver P clientId σ).connectBind P ci p ctx k true s)

theorem takenOver_of_none (h : σ.findClient P clientId = none) : takenOver P clientId σ = σ := by
  rw [takenOver, h]

theorem connectAlloc_of_free (hk : k < P.T.maxSessions) (hfree : σ.sessions.slot k = none) (ci : Nat)
    (p : ConnectPacket) (clientId : Bytes) (ctx : Ctx) :
    ∃ j pool, σ.sessions.alloc P.T.maxSessions (freshSession P.T ctx clientId) = some (j, pool) ∧
      σ.connectAlloc P ci p clientId ctx =
        (allocated P j pool clientId σ).connectBind P ci p ctx j false (freshSession P.T ctx clientId) := by
  obtain ⟨j, pool, halloc⟩ := alloc_of_free hk hfree (freshSession P.T ctx clientId)
  refine ⟨j, pool, halloc, ?_⟩
  simp only [Broker.connectAlloc, halloc]
  rfl

theorem connectAlloc_outcome (hL : Linked P none σ) (hnone : σ.findClient P clientId = none) (ci : Nat)
    (p : ConnectPacket) (ctx : Ctx) : Outcome P ci p clientId ctx σ (σ.connectAlloc P ci p clientId ctx) := by
  simp only [Broker.connectAlloc]
  split
  · rename_i k pool halloc
    exact .fresh (.free hnone) halloc
  rename_i hfull
  have hfull : ∀ k < P.T.maxSessions, ∃ s, σ.sessions.slot k = some s := fun k hk => alloc_none hfull hk
  split
  · rename_i hold
    refine .full hnone (fun k hk => ?_)
    obtain ⟨s, hs⟩ := hfull k hk
    exact ⟨s, hs, fun hoff => (oldestDisconnected_parked P σ).2 hold k hk _ ⟨s, hs, hoff, rfl⟩⟩
  rename_i v hv
  obtain ⟨-, sv, hsv, hoff, -⟩ := (oldestDisconnected_parked P σ).1 v hv
  simp only [hsv]
  have hroom : Room P p clientId σ (Broker.release P v
      { σ with trace := notifySession .sessionEvicted v sv σ.trace }) :=
    .evicted hnone hfull hv hsv hoff
  have hk := hL.slot_lt v sv hsv
  have hfree : (Broker.release P v { σ with trace := notifySession .sessionEvicted v sv σ.trace }).sessions.slot v =
      none := by
    rw [slot_release { σ with trace := notifySession .sessionEvicted v sv σ.trace } hsv hk, Function.update_self]
  generalize Broker.release P v { σ with trace := notifySession .sessionEvicted v sv σ.trace } = σ₁ at hroom hfree ⊢
  obtain ⟨j, pool, halloc⟩ := alloc_of_free hk hfree (freshSession P.T ctx clientId)
  simp only [halloc]
  exact .fresh hroom halloc

/-- **A CONNECT that passed its checks is refused only when every slot has a connected session of somebody else.** -/
theorem connectAccepted_outcome (hL : Linked P none σ) (hact : (σ.conns ci).active = true)
    (hno : (σ.conns ci).session = noSession) (hdead : (σ.conns ci).dead = false) (p : ConnectPacket) (clientId : Bytes)
    (ctx : Ctx) : Outcome P ci p clientId ctx σ (σ.connectAccepted P ci p clientId ctx) := by
  have h₁ := takenOver_spec clientId hL hact hno hdead
  rw [connectAccepted_eq]
  split
  · rename_i hgone
    cases hfind : σ.findClient P clientId with
    | none =>
      rw [takenOver_of_none hfind]
      exact connectAlloc_outcome hL hfind ci p ctx
    | some k =>
      -- The session that was taken over did not outlive its connection.
      obtain ⟨s, hs, hid⟩ := findClient_some hfind
      have hk := hL.slot_lt k s hs
      have hfree : (takenOver P clientId σ).sessions.slot k = none := by
        cases hs' : (takenOver P clientId σ).sessions.slot k with
        | none => rfl
        | some s' =>
          obtain ⟨s₀, hs₀, hsame⟩ := h₁.sessions k s' hs'
          rw [hs] at hs₀
          cases hs₀
          exact absurd (hsame.clientId.trans hid) (findClient_none h₁.linked hgone k s' hs')
      obtain ⟨j, pool, halloc, he⟩ := connectAlloc_of_free hk hfree ci p clientId ctx
      rw [he]
      exact .fresh (.vacated hs hid hgone) halloc
  rename_i k hk
  obtain ⟨s, hs, hid⟩ := findClient_some hk
  have hoff := h₁.offline k s hk hs
  have hlt := h₁.linked.slot_lt k s hs
  split
  · rename_i hclean
    have hfree : ((takenOver P clientId σ).release P k).sessions.slot k = none := by
      rw [slot_release _ hs hlt, Function.update_self]
    obtain ⟨j, pool, halloc, he⟩ := connectAlloc_of_free hlt hfree ci p clientId ctx
    rw [he]
    exact .fresh (.replaced hclean hs hid hoff) halloc
  · rename_i hclean
    simp only [hs]
    exact .resumed (by simpa using hclean) hs hid hoff

/-- What a CONNECT finds once there is room for its session. -/
structure Roomy (P : Params Ctx) (ci : Nat) (p : ConnectPacket) (clientId : Bytes) (ctx : Ctx) (σ σ' : Broker Ctx) :
    Prop extends Handled P ci σ σ' where
  asking : Asking P ci p clientId ctx σ'
  grows : Grows (Act.Still P) σ σ'
  unheld : ∀ j s, σ'.sessions.slot j = some s → s.clientId ≠ clientId

theorem Asking.takenOver (hr : Asking P ci p clientId ctx σ) (hL : Linked P none σ) :
    TakenOver P ci clientId σ (takenOver P clientId σ) ∧
      Asking P ci p clientId ctx (Minimosq.takenOver P clientId σ) := by
  have h := takenOver_spec clientId hL hr.active hr.free hr.up
  obtain ⟨new, htrace, hnew⟩ := h.grows
  exact ⟨h, hr.congr new h.conn htrace (fun a ha => (hnew a ha).not_packet)⟩

theorem released_grows (k : Nat) (σ : Broker Ctx) : Grows (Act.Still P) σ (σ.release P k) :=
  .one rfl ⟨trivial, rfl, rfl⟩

theorem Room.roomy {σ₁ : Broker Ctx} (room : Room P p clientId σ σ₁) (hr : Asking P ci p clientId ctx σ)
    (hL : Linked P none σ) : Roomy P ci p clientId ctx σ σ₁ := by
  obtain ⟨h, hask⟩ := hr.takenOver hL
  cases room with
  | free hnone => exact ⟨(Quiet.refl P (· = ci) σ).handled hL, hr, .refl σ, findClient_none hL hnone⟩
  | @evicted v sv hnone hfull hv hs hoff =>
    have hq : Quiet P (· = ci) σ { σ with trace := notifySession .sessionEvicted v sv σ.trace } :=
      quiet_notify (· = ci) hs _ (by simp) (by simp)
    have hr₁ : Asking P ci p clientId ctx { σ with trace := notifySession .sessionEvicted v sv σ.trace } :=
      hr.congr [_] rfl rfl (by simp [Act.packet?])
    have h₁ := hq.handled hL
    refine ⟨h₁.trans (release_handled ci h₁.linked (k := v) (s := sv) hs hoff), hr₁.release v,
      hq.grows.trans (released_grows v _), fun j s hj => ?_⟩
    exact findClient_none hL hnone j s (slot_of_release (σ := { σ with
      trace := notifySession .sessionEvicted v sv σ.trace }) hs (hL.slot_lt v sv hs) hj).2
  | vacated hs hid hgone => exact ⟨h.toHandled, hask, h.grows, findClient_none h.linked hgone⟩
  | replaced hclean hs hid hoff =>
    exact ⟨h.toHandled.trans (release_handled ci h.linked hs hoff), hask.release _, h.grows.trans (released_grows _ _),
      h.linked.released_new hs hid⟩

/-- **A CONNECT on `ci` was accepted**, and leaves the session `b` in slot `k`. -/
def Accepted (k ci : Nat) (b : Session Ctx) (present : Bool) (σ σ' : Broker Ctx) : Prop :=
  ∃ newer older, σ'.trace = newer ++ .bind k ci b present :: (older ++ σ.trace) ∧
    (∀ a ∈ newer, a.isBind = false) ∧ ∀ a ∈ older, a.isBind = false

theorem Roomy.accepted {σ₁ : Broker Ctx} {pool : Pool (Session Ctx)} (h : Roomy P ci p clientId ctx σ σ₁)
    (halloc : σ₁.sessions.alloc P.T.maxSessions (freshSession P.T ctx clientId) = some (k, pool)) :
    Accepted k ci (boundSession P.T ci p ctx (freshSession P.T ctx clientId)) false σ₁
      ((allocated P k pool clientId σ₁).connectBind P ci p ctx k false (freshSession P.T ctx clientId)) := by
  obtain ⟨-, -, hpool⟩ := alloc_some halloc
  have hid := h.asking.id
  rw [allocated_eq hid]
  have hslot : ({ σ₁ with sessions := pool }.emit (.alloc k)).sessions.slot k =
      some (freshSession P.T ctx clientId) := (congrFun hpool k).trans (Function.update_self ..)
  have hr₂ : Asking P ci p clientId ctx ({ σ₁ with sessions := pool }.emit (.alloc k)) :=
    h.asking.congr [.alloc k] rfl rfl (by simp [Act.packet?])
  obtain ⟨newer, htrace, hnewer⟩ := hr₂.connectBind_trace (h.linked.allocated halloc hid h.unheld)
      (.inr rfl) hslot rfl (freshSession_clientId ctx hid) false (by simp)
  exact ⟨newer, [.alloc k], htrace, hnewer, List.forall_mem_singleton.2 rfl⟩

theorem Room.accepted {σ₁ : Broker Ctx} {pool : Pool (Session Ctx)} (room : Room P p clientId σ σ₁)
    (hr : Asking P ci p clientId ctx σ) (hL : Linked P none σ)
    (halloc : σ₁.sessions.alloc P.T.maxSessions (freshSession P.T ctx clientId) = some (k, pool)) :
    Accepted k ci (boundSession P.T ci p ctx (freshSession P.T ctx clientId)) false σ
      ((allocated P k pool clientId σ₁).connectBind P ci p ctx k false (freshSession P.T ctx clientId)) := by
  have h := room.roomy hr hL
  obtain ⟨newer, older, htrace, hnewer, holder⟩ := h.accepted halloc
  obtain ⟨older', he, holder'⟩ := h.grows
  refine ⟨newer, older ++ older', by rw [htrace, he, List.append_assoc], hnewer, ?_⟩
  exact List.forall_mem_append.2 ⟨holder, fun a ha => (holder' a ha).not_bind⟩

theorem Asking.resumed_accepted (hr : Asking P ci p clientId ctx σ) (hL : Linked P none σ)
    (hclean : p.cleanSession = false) (hs : (Minimosq.takenOver P clientId σ).sessions.slot k = some s)
    (hid : s.clientId = clientId) (hoff : s.conn = noConn) : Accepted k ci (boundSession P.T ci p ctx s) true σ
      ((Minimosq.takenOver P clientId σ).connectBind P ci p ctx k true s) := by
  obtain ⟨h, hask⟩ := hr.takenOver hL
  obtain ⟨newer, htrace, hnewer⟩ := hask.connectBind_trace h.linked (.inl rfl) hs hoff hid true (fun _ => hclean)
  obtain ⟨older, he, holder⟩ := h.grows
  exact ⟨newer, older, by rw [htrace, he], hnewer, fun a ha => (holder a ha).not_bind⟩

theorem Asking.connectAccepted (hr : Asking P ci p clientId ctx σ) (hL : Linked P none σ) :
    Handled P ci σ (σ.connectAccepted P ci p clientId ctx) := by
  have hout := connectAccepted_outcome hL hr.active hr.free hr.up p clientId ctx
  generalize σ.connectAccepted P ci p clientId ctx = σ' at hout ⊢
  cases hout with
  | full => exact (quiet_refuse (· = ci) rfl (by simp) _ ⟨hr.active, hr.up⟩ hr.free).handled hL
  | fresh room halloc =>
    have h := room.roomy hr hL
    exact h.toHandled.trans (h.asking.allocated h.linked halloc h.unheld)
  | resumed hclean hs hid hoff =>
    obtain ⟨h, hask⟩ := hr.takenOver hL
    exact h.toHandled.trans (hask.connectBind_resumed h.linked hs hoff hid hclean)

end

/-! ## The checks -/

/-- **The CONNECT `p` passes the checks of `handle_connect`** under `clientId`, and `authenticate` lets it in with
`ctx`. -/
structure Passes (P : Params Ctx) (p : ConnectPacket) (clientId : Bytes) (ctx : Ctx) (t : Trace Ctx) : Prop where
  name : p.protocolNameOk = true
  level : p.protocolLevel = protocolLevel311
  anonymous : p.clientId = [] → p.cleanSession = true
  id : ClientIdFits P.T clientId
  username : p.hasUsername = true → utf8Valid p.username = true
  unreserved : p.clientId ≠ [] → usesReservedPrefix clientId = false
  will : WillFits P.T p.hasWill p.willTopic p.willPayload
  auth : P.sec.authenticate t clientId (if p.hasUsername then some p.username else none)
    (if p.hasPassword then some p.password else none) = (.accepted, ctx)

/-- The client id a CONNECT goes by, and the state in which it has one. -/
def Broker.identify (P : Params Ctx) (p : ConnectPacket) (σ : Broker Ctx) : Bytes × Broker Ctx :=
  if p.clientId.isEmpty then σ.generateClientId P else (p.clientId, σ)

/-- Only the id counter moves. -/
theorem identify_state (P : Params Ctx) (p : ConnectPacket) (σ : Broker Ctx) :
    ∃ n, (σ.identify P p).2 = { σ with autoIdCounter := n } := by
  unfold Broker.identify
  split
  · exact ⟨_, rfl⟩
  · exact ⟨σ.autoIdCounter, rfl⟩

/-- **What `handle_connect` makes of a packet on a connection without a session.** -/
inductive Heard (P : Params Ctx) (ci : Nat) (body : Bytes) (σ : Broker Ctx) : Broker Ctx → Prop
  | violation (n : Nat) (err : Err) : Heard P ci body σ (Broker.violation P ci err { σ with autoIdCounter := n })
  | refused (n : Nat) {code : ConnackCode} (clientId : Bytes) (hno : (σ.conns ci).session = noSession)
      (hcode : code ≠ .accepted) : Heard P ci body σ (Broker.refuse P ci code clientId { σ with autoIdCounter := n })
  | passed {p : ConnectPacket} {ctx : Ctx} (hno : (σ.conns ci).session = noSession) (hp : parseConnect body = .ok p)
      (pass : Passes P p (σ.identify P p).1 ctx σ.trace) :
      Heard P ci body σ ((σ.identify P p).2.connectAccepted P ci p (σ.identify P p).1 ctx)

section
variable {σ : Broker Ctx} {ci : Nat} {body : Bytes} {p : ConnectPacket}

theorem connectChecked_heard (hno : (σ.conns ci).session = noSession) (hp : parseConnect body = .ok p)
    (hname : p.protocolNameOk = true) (hlevel : p.protocolLevel = protocolLevel311)
    (hanon : p.clientId = [] → p.cleanSession = true) :
    Heard P ci body σ ((σ.identify P p).2.connectChecked P ci p (σ.identify P p).1) := by
  obtain ⟨n, hn⟩ := identify_state P p σ
  have hrefuse : ∀ code cid, code ≠ .accepted → Heard P ci body σ ((σ.identify P p).2.refuse P ci code cid) :=
    fun code cid hcode => hn ▸ .refused n cid hno hcode
  have hviolate : ∀ err, Heard P ci body σ ((σ.identify P p).2.violation P ci err) := fun err => hn ▸ .violation n err
  have htrace : (σ.identify P p).2.trace = σ.trace := by rw [hn]
  have hpass : ∀ ctx, Passes P p (σ.identify P p).1 ctx σ.trace →
      Heard P ci body σ ((σ.identify P p).2.connectAccepted P ci p (σ.identify P p).1 ctx) := fun _ pass =>
        .passed hno hp pass
  generalize (σ.identify P p).2 = σ₁ at hrefuse hviolate htrace hpass ⊢
  generalize (σ.identify P p).1 = clientId at hpass ⊢
  unfold Broker.connectChecked
  refine iteInduction (motive := Heard P ci body σ) (fun _ => hrefuse _ _ (by simp)) (fun hlen => ?_)
  refine iteInduction (motive := Heard P ci body σ) (fun _ => hviolate _) (fun hutf => ?_)
  refine iteInduction (motive := Heard P ci body σ) (fun _ => hrefuse _ _ (by simp)) (fun hfree => ?_)
  refine iteInduction (motive := Heard P ci body σ) (fun _ => hviolate _) (fun hvalid => ?_)
  refine iteInduction (motive := Heard P ci body σ) (fun _ => hrefuse _ _ (by simp)) (fun hwill => ?_)
  rw [htrace]
  generalize hauth : P.sec.authenticate σ.trace clientId _ _ = auth
  refine iteInduction (motive := Heard P ci body σ) (fun hcode => hrefuse _ _ (by simpa using hcode)) (fun hcode => ?_)
  have hcode : auth.1 = .accepted := by simpa using hcode
  simp only [Bool.or_eq_true, not_or, Bool.not_eq_true, Bool.not_eq_false', Bool.and_eq_true, not_and] at hutf
  refine hpass auth.2 ⟨hname, hlevel, hanon, ⟨hutf.1, Nat.not_lt.1 hlen⟩, fun hu => ?_, fun hne => ?_, fun hw => ?_,
    hauth.trans (Prod.ext hcode rfl)⟩
  · simpa using hutf.2 hu
  · simpa [hne] using hfree
  · simp only [hw, Bool.true_and, Bool.or_eq_true, decide_eq_true_eq, not_or, Nat.not_lt] at hwill
    exact ⟨⟨by simpa [hw] using hvalid, hwill.1⟩, hwill.2⟩

theorem handleConnect_heard (ci : Nat) (body : Bytes) (σ : Broker Ctx) :
    Heard P ci body σ (σ.handleConnect P ci body) := by
  unfold Broker.handleConnect
  split
  · exact .violation σ.autoIdCounter _
  rename_i hno
  have hno : (σ.conns ci).session = noSession := by simpa using hno
  split
  · exact .violation σ.autoIdCounter _
  rename_i p hp
  split
  · exact .violation σ.autoIdCounter _
  rename_i hname
  split
  · exact .refused σ.autoIdCounter _ hno (by simp)
  rename_i hlevel
  have hname : p.protocolNameOk = true := by simpa using hname
  have hlevel : p.protocolLevel = protocolLevel311 := by simpa using hlevel
  split
  · rename_i hempty
    split
    · exact .refused σ.autoIdCounter _ hno (by simp)
    rename_i hclean
    have h : Heard P ci body σ ((σ.identify P p).2.connectChecked P ci p (σ.identify P p).1) :=
      connectChecked_heard hno hp hname hlevel (fun _ => by simpa using hclean)
    rwa [Broker.identify, if_pos hempty] at h
  · rename_i hempty
    have h : Heard P ci body σ ((σ.identify P p).2.connectChecked P ci p (σ.identify P p).1) :=
      connectChecked_heard hno hp hname hlevel (fun h => absurd h (by simpa using hempty))
    rwa [Broker.identify, if_neg hempty] at h

theorem Passes.handleConnect (pass : Passes P p (σ.identify P p).1 ctx σ.trace)
    (hno : (σ.conns ci).session = noSession) (hp : parseConnect body = .ok p) :
    σ.handleConnect P ci body = (σ.identify P p).2.connectAccepted P ci p (σ.identify P p).1 ctx := by
  have hchecked : (σ.identify P p).2.connectChecked P ci p (σ.identify P p).1 =
      (σ.identify P p).2.connectAccepted P ci p (σ.identify P p).1 ctx := by
    obtain ⟨n, hn⟩ := identify_state P p σ
    have hwill : p.hasWill = true → topicNameValid p.willTopic = true ∧ p.willTopic.length ≤ P.T.maxTopicLen ∧
        p.willPayload.length ≤ P.T.maxPayloadLen := fun hw =>
          ⟨(pass.will hw).1.valid, (pass.will hw).1.stored, (pass.will hw).2⟩
    have hauth := pass.auth
    have hid := pass.id
    have hfree := pass.unreserved
    rw [show σ.trace = (σ.identify P p).2.trace by rw [hn]] at hauth
    generalize (σ.identify P p).2 = σ₁ at hauth ⊢
    generalize (σ.identify P p).1 = clientId at hauth hid hfree ⊢
    have huser := pass.username
    rw [Broker.connectChecked, if_neg (Nat.not_lt.2 hid.stored), if_neg, if_neg, if_neg, if_neg, hauth]
    · rfl
    · cases hw : p.hasWill with
      | false => simp
      | true => simpa using (hwill hw).2
    · cases hw : p.hasWill with
      | false => simp
      | true => simpa using (hwill hw).1
    · simpa using hfree
    · simpa [hid.valid] using huser
  rw [Broker.handleConnect, if_neg (by simp [hno]), hp]
  simp only [pass.name, pass.level, Bool.not_true, Bool.false_eq_true, if_false, bne_self_eq_false]
  rw [← hchecked]
  split
  · rename_i hempty
    rw [if_neg (by simp [pass.anonymous (by simpa using hempty)])]
    simp only [Broker.identify, if_pos hempty]
  · rename_i hempty
    simp only [Broker.identify, if_neg hempty]

/-- The name a CONNECT goes by once it passes. -/
theorem Passes.goesBy {t : Trace Ctx} (pass : Passes P p (σ.identify P p).1 ctx t) : GoesBy p (σ.identify P p).1 := by
  have hfree := pass.unreserved
  unfold Broker.identify at hfree ⊢
  split
  · rename_i hempty
    have hnil : p.clientId = [] := by simpa using hempty
    exact .assigned _ hnil (pass.anonymous hnil)
  · rename_i hempty
    have hne : p.clientId ≠ [] := by simpa using hempty
    rw [if_neg hempty] at hfree
    exact .presented hne (hfree hne)

theorem counter_handled (hL : Linked P none σ) (n : Nat) : Handled P ci σ { σ with autoIdCounter := n } where
  toCourse := .silent rfl rfl rfl rfl (fun _ => ⟨rfl, rfl, rfl, rfl⟩)
  linked := { hL with }
  now := rfl
  active := rfl
  parser := fun _ => rfl
  calm := fun _ h => h
  fresh := fun h => h

theorem Passes.asking (pass : Passes P p (σ.identify P p).1 ctx σ.trace) (hact : (σ.conns ci).active = true)
    (hno : (σ.conns ci).session = noSession) (hdead : (σ.conns ci).dead = false) (hrec : Received ci p σ.trace) :
    Asking P ci p (σ.identify P p).1 ctx (σ.identify P p).2 := by
  obtain ⟨n, hn⟩ := identify_state P p σ
  have hby := pass.goesBy
  rw [hn]
  exact ⟨hact, hdead, hno, pass.will, pass.id, hrec, hby, ⟨σ.trace, pass.auth⟩⟩

/-- A CONNECT that does not pass its checks does no more than a violation or a refusal does. -/
theorem Heard.quiet {σ' : Broker Ctx} (h : Heard P ci body σ σ') (hact : (σ.conns ci).active = true)
    (hdead : (σ.conns ci).dead = false) : (∃ n, Quiet P (· = ci) { σ with autoIdCounter := n } σ') ∨
      ∃ p ctx, (σ.conns ci).session = noSession ∧ parseConnect body = .ok p ∧
        Passes P p (σ.identify P p).1 ctx σ.trace ∧
        σ' = (σ.identify P p).2.connectAccepted P ci p (σ.identify P p).1 ctx := by
  cases h with
  | violation n err =>
    refine .inl ⟨n, ?_⟩
    exact quiet_violation (· = ci) rfl err hact
  | refused n clientId hno hcode =>
    refine .inl ⟨n, ?_⟩
    exact quiet_refuse (· = ci) rfl hcode clientId ⟨hact, hdead⟩ hno
  | passed hno hp pass => exact .inr ⟨_, _, hno, hp, pass, rfl⟩

theorem handleConnect_handled {f : UInt8} (hL : Linked P none σ) (hact : (σ.conns ci).active = true)
    (hdead : (σ.conns ci).dead = false) (hlast : lastPacket σ.trace = some (ci, f, body))
    (hf : packetType f = some .connect) : Handled P ci σ (σ.handleConnect P ci body) := by
  have hn : ∀ n, Handled P ci σ { σ with autoIdCounter := n } := counter_handled hL
  rcases (handleConnect_heard ci body σ).quiet hact hdead with ⟨n, q⟩ | ⟨p, ctx, hno, hp, pass, he⟩
  · exact (hn n).trans (q.handled (hn n).linked)
  · obtain ⟨n, he'⟩ := identify_state P p σ
    have hask := pass.asking hact hno hdead ⟨f, body, hlast, hf, hp⟩
    have hstart : Handled P ci σ (σ.identify P p).2 := he' ▸ hn n
    exact he ▸ hstart.trans (hask.connectAccepted hstart.linked)

end

end Minimosq
