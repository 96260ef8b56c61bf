import Minimosq.Tenancy
/-!
# Who gets a session, and who loses one for it

A CONNECT that passes its checks is refused only if every slot has a connected session of somebody else.  If there is no
slot for it otherwise, the session longest without a connection gives up its own.  The order in which sessions lost
their connections is kept in 32-bit tickets compared by their difference, which is the order of the teardowns as long as
fewer than 2^31 lie between them (`notBefore_ticket`).
-/
namespace Minimosq

open History (since)

variable {Ctx : Type} {P : Params Ctx}

/-! ## The order of teardowns -/

/-- The session in slot `k` is taken off its connection. -/
def Act.parks (k : Nat) : Act Ctx → Bool
  | .parked j _ => j == k
  | _ => false

/-- How many sessions were taken off their connections since the one in slot `k` was. -/
def age (k : Nat) (t : Trace Ctx) : Nat := (tickets (since (Act.parks k) t)).length

/-- `s` is the session last taken off its connection in slot `k`. -/
def ParkedLast (k : Nat) (s : Session Ctx) (newer older t : Trace Ctx) : Prop :=
  t = newer ++ .parked k s :: older ∧ ∀ a ∈ newer, a.parks k = false

section
variable {k j : Nat} {s s' : Session Ctx} {newer older newer' older' t : Trace Ctx}

theorem tenant_offline : ∀ {t : Trace Ctx}, tenant k t = .offline s → ∃ newer older, ParkedLast k s newer older t
  | [], h => by cases h
  | a :: t, h => by
    have hcons : tenant k t = .offline s → a.parks k = false → ∃ newer older, ParkedLast k s newer older (a :: t) := by
      intro h ha
      obtain ⟨newer, older, rfl, hnewer⟩ := tenant_offline h
      exact ⟨a :: newer, older, rfl, List.forall_mem_cons.2 ⟨ha, hnewer⟩⟩
    by_cases ha : a.slot = some k
    · rw [tenant, slotActs_cons_own ha] at h
      cases a with
      | parked i s₁ =>
        cases ha
        cases h
        exact ⟨[], t, rfl, by simp⟩
      | alloc | release | bind => cases h
      | _ => exact hcons h rfl
    · rw [tenant, slotActs_cons_other ha] at h
      refine hcons h ?_
      cases a with
      | parked i s₁ => simpa [Act.slot, Act.parks] using ha
      | _ => rfl

theorem ParkedLast.age_eq (h : ParkedLast k s newer older t) : age k t = (tickets newer).length := by
  obtain ⟨rfl, hnewer⟩ := h
  rw [age, History.since_append hnewer, History.since_cons_mark
    (show Act.parks k (.parked k s) = true from beq_self_eq_true k),
    List.append_nil]

theorem ParkedLast.ticket (h : ParkedLast k s newer older t) : (tickets t)[age k t]? = some s.disconnectOrder := by
  rw [h.age_eq, h.1]
  simp [tickets, Act.ticket]

/-- No two sessions were taken off their connections at once. -/
theorem ParkedLast.age_lt (h : ParkedLast k s newer older t) (h' : ParkedLast j s' newer' older' t) (hne : j ≠ k)
    (hle : age j t ≤ age k t) : age j t < age k t := by
  refine Nat.lt_of_le_of_ne hle (fun he => ?_)
  rw [h.age_eq, h'.age_eq] at he
  rcases List.append_eq_append_iff.1 (h.1.symm.trans h'.1) with ⟨mid, rfl, hmid⟩ | ⟨mid, rfl, hmid⟩
  all_goals
    cases mid with
    | nil =>
      cases hmid
      exact hne rfl
    | cons a mid =>
      cases hmid
      simp [tickets, Act.ticket] at he

end

theorem firstTickets_getElem? {n i v : Nat} (h : (firstTickets n)[i]? = some v) : i < n ∧ v = toU32 (n - i) := by
  have hi : i < n := by simpa [firstTickets] using (List.getElem?_eq_some_iff.1 h).1
  refine ⟨hi, ?_⟩
  rw [firstTickets, List.getElem?_reverse (by simpa using hi)] at h
  simp only [List.length_map, List.length_range, List.getElem?_map, Option.map_eq_some_iff] at h
  obtain ⟨w, hw, rfl⟩ := h
  obtain ⟨hlt, rfl⟩ := List.getElem?_eq_some_iff.1 hw
  rw [List.getElem_range]
  congr 1
  omega

/-- **Tickets less than 2^31 apart compare as they were given out.** -/
theorem notBefore_ticket {n a b : Nat} (ha : a < n) (hb : b < n) (ha' : a < 2 ^ 31) (hb' : b < 2 ^ 31) :
    notBefore (toU32 (n - a)) (toU32 (n - b)) = decide (a ≤ b) := by
  refine decide_eq_decide.2 ?_
  simp only [toU32]
  omega

/-! ## The session longest without a connection -/

/-- The session in slot `k` has no connection. -/
def Offline (σ : Broker Ctx) (k : Nat) : Prop := ∃ s, σ.sessions.slot k = some s ∧ s.conn = noConn

section
variable {σ : Broker Ctx} {k v : Nat} {s : Session Ctx}

/-- A session without a connection was taken off one, and has the ticket it was given then. -/
theorem Entered.parkedLast {ci : Nat} {body : Bytes} (h : Entered P ci body σ) (hs : σ.sessions.slot k = some s)
    (hoff : s.conn = noConn) :
    ∃ s₁ newer older, ParkedLast k s₁ newer older σ.trace ∧ s.disconnectOrder = s₁.disconnectOrder := by
  have hx := (h.amid.slotRun k).tenant
  rw [hs] at hx
  generalize htenant : tenantOf (slotActs k σ.trace) = x at hx
  cases hx with
  | fresh _ hclean =>
    have hpersist := ((h.linked.offline k s hs hoff).resolve_left (by simp)).1
    rw [hclean] at hpersist
    cases hpersist
  | online _ hon => exact absurd hoff hon
  | @offline s₁ _ _ rests =>
    obtain ⟨newer, older, hlast⟩ := tenant_offline htenant
    exact ⟨s₁, newer, older, hlast, rests.disconnectOrder⟩

/-- The ticket of a session without a connection, by its age. -/
theorem Entered.ticket {ci : Nat} {body : Bytes} (h : Entered P ci body σ) : ∃ n, ∀ k order, Parked σ k order →
    age k σ.trace < n ∧ order = toU32 (n - age k σ.trace) := by
  obtain ⟨n, -, hall⟩ := h.books.tickets
  refine ⟨n, fun k order hpark => ?_⟩
  obtain ⟨s, hs, hoff, rfl⟩ := hpark
  obtain ⟨s₁, newer, older, hlast, horder⟩ := h.parkedLast hs hoff
  rw [horder]
  exact firstTickets_getElem? (hall ▸ hlast.ticket)

theorem Parked.offline {order : Nat} (h : Parked σ k order) : Offline σ k := by
  obtain ⟨s, hs, hoff, -⟩ := h
  exact ⟨s, hs, hoff⟩

/-- **`oldest_disconnected_session` finds the session that lost its connection first.** -/
theorem Entered.oldest {ci : Nat} {body : Bytes} (h : Entered P ci body σ)
    (hyoung : ∀ j, Offline σ j → age j σ.trace < 2 ^ 31) (hv : σ.oldestDisconnected P = some v) :
    ∀ j, Offline σ j → j ≠ v → age j σ.trace < age v σ.trace := by
  obtain ⟨n, hticket⟩ := h.ticket
  have hcompare : ∀ {j i a b}, Parked σ j a → Parked σ i b →
      (notBefore a b = true ↔ age j σ.trace ≤ age i σ.trace) := by
    intro j i a b hj hi
    obtain ⟨hjn, rfl⟩ := hticket j a hj
    obtain ⟨hin, rfl⟩ := hticket i b hi
    rw [notBefore_ticket hjn hin (hyoung j hj.offline) (hyoung i hi.offline), decide_eq_true_eq]
  obtain ⟨acc, ⟨hpark, hall⟩, he⟩ := oldestDisconnected_rule (P := P) (σ := σ)
    (fun seen acc => (∀ w o, acc = some (w, o) → Parked σ w o) ∧
      ∀ j ∈ seen, Offline σ j → ∃ w o, acc = some (w, o) ∧ age j σ.trace ≤ age w σ.trace)
    ⟨by simp, by simp⟩ (fun seen acc k hI => by
      rcases oldestVisit_cases σ acc k with ⟨hno, he⟩ | ⟨order, hp, ⟨hwhy, he⟩ | ⟨⟨w, o, rfl, hnb⟩, he⟩⟩
      · rw [he]
        refine ⟨hI.1, List.forall_mem_cons.2 ⟨?_, hI.2⟩⟩
        rintro ⟨s, hs, hoff⟩
        exact absurd ⟨s, hs, hoff, rfl⟩ (hno s.disconnectOrder)
      · -- slot `k` lost its connection before the oldest so far
        rw [he]
        refine ⟨by rintro w o ⟨⟩; exact hp, List.forall_mem_cons.2
          ⟨fun _ => ⟨k, order, rfl, le_rfl⟩, fun j hj hoff => ?_⟩⟩
        obtain ⟨w, o, rfl, hle⟩ := hI.2 j hj hoff
        refine ⟨k, order, rfl, ?_⟩
        rcases hwhy with hnone | ⟨w', o', hacc, hnb⟩
        · cases hnone
        cases hacc
        have hlt := mt (hcompare hp (hI.1 w o rfl)).2 (by simp [hnb])
        omega
      · rw [he]
        exact ⟨hI.1, List.forall_mem_cons.2
          ⟨fun _ => ⟨w, o, rfl, (hcompare hp (hI.1 w o rfl)).1 hnb⟩, hI.2⟩⟩)
  rw [he] at hv
  obtain ⟨⟨v', o⟩, rfl, rfl⟩ := Option.map_eq_some_iff.1 hv
  intro j hoff hne
  obtain ⟨s, hs, hj⟩ := hoff
  obtain ⟨sv, hsv, hoffv, -⟩ := hpark v' o rfl
  obtain ⟨w, o', hw, hle⟩ := hall j (by simpa using h.linked.slot_lt j s hs) ⟨s, hs, hj⟩
  cases hw
  obtain ⟨_, _, _, hlast, -⟩ := h.parkedLast hs hj
  obtain ⟨_, _, _, hlastv, -⟩ := h.parkedLast hsv hoffv
  exact hlastv.age_lt hlast hne hle

end

/-! ## Evictions -/

/-- **Nobody makes room for the CONNECT**: whoever has no connection keeps its slot, unless it is the client itself. -/
def NoneEvicted (clientId : Bytes) (σ σ' : Broker Ctx) : Prop :=
  ∀ j s, σ.sessions.slot j = some s → s.conn = noConn → s.clientId ≠ clientId →
    ∃ s', σ'.sessions.slot j = some s' ∧ s.SameClient s'

/-- **The session in slot `v` makes room for the CONNECT on `ci`**: it has no connection, this is reported, the slot is
released and goes to the CONNECT, and the others stay as they are. -/
def Evicted (ci v : Nat) (σ σ' : Broker Ctx) : Prop :=
  ∃ s b new, σ.sessions.slot v = some s ∧ s.conn = noConn ∧
    σ'.trace = new ++ .release v :: notifySession .sessionEvicted v s σ.trace ∧ Accepted v ci b false σ σ' ∧
    ∀ j, j ≠ v → σ'.sessions.slot j = σ.sessions.slot j

section
variable {σ σ' : Broker Ctx} {ci k : Nat}

/-- No live session has the client id, and every session there can be has a connection. -/
def NoRoom (P : Params Ctx) (clientId : Bytes) (σ : Broker Ctx) : Prop :=
  (∀ k s, σ.sessions.slot k = some s → s.clientId ≠ clientId) ∧
    ∀ k < P.T.maxSessions, ∃ s, σ.sessions.slot k = some s ∧ s.conn ≠ noConn

theorem NoRoom.not_offline {clientId : Bytes} (h : NoRoom P clientId σ) (hL : Linked P none σ) : ¬Offline σ k := by
  rintro ⟨s, hs, hoff⟩
  obtain ⟨s', hs', hon⟩ := h.2 k (hL.slot_lt k s hs)
  rw [hs] at hs'
  cases hs'
  exact hon hoff

variable {p : ConnectPacket} {clientId : Bytes} {ctx : Ctx}

/-- Somebody still holds the client id after the takeover. -/
theorem Asking.held {s : Session Ctx} (hr : Asking P ci p clientId ctx σ) (hL : Linked P none σ)
    (hs : (Minimosq.takenOver P clientId σ).sessions.slot k = some s) (hid : s.clientId = clientId) :
    ¬NoRoom P clientId σ := by
  obtain ⟨s₀, hs₀, hsame⟩ := (hr.takenOver hL).1.sessions k s hs
  exact fun h => h.1 k s₀ hs₀ (hsame.clientId.symm.trans hid)

/-- **A CONNECT that passed its checks is refused when there is no room, and accepted when there is.** -/
theorem Asking.placed (hr : Asking P ci p clientId ctx σ) (hL : Linked P none σ) :
    (NoRoom P clientId σ ∧ σ.connectAccepted P ci p clientId ctx = σ.refuse P ci .serverUnavailable clientId) ∨
    ¬NoRoom P clientId σ ∧ ∃ k b present, Accepted k ci b present σ (σ.connectAccepted P ci p clientId ctx) := by
  have hout := connectAccepted_outcome hL hr.active hr.free hr.up p clientId ctx
  generalize σ.connectAccepted P ci p clientId ctx = σ' at hout ⊢
  cases hout with
  | full hnone hbusy => exact .inl ⟨⟨findClient_none hL hnone, hbusy⟩, rfl⟩
  | @fresh σ₁ k pool room halloc =>
    refine .inr ⟨fun h => ?_, k, _, false, room.accepted hr hL halloc⟩
    cases room with
    | free hnone =>
      obtain ⟨hk, hfree, -⟩ := alloc_some halloc
      obtain ⟨s, hs, -⟩ := h.2 k hk
      rw [hfree] at hs
      cases hs
    | @evicted v sv hnone hfull hv hs hoff => exact h.not_offline hL ⟨sv, hs, hoff⟩
    | vacated hs hid hgone => exact h.1 _ _ hs hid
    | replaced hclean hs hid hoff => exact hr.held hL hs hid h
  | @resumed k s hclean hs hid hoff =>
    exact .inr ⟨hr.held hL hs hid, k, _, true, hr.resumed_accepted hL hclean hs hid hoff⟩

/-- The end of `handle_connect` is about slot `k` only. -/
theorem connectBind_others {j : Nat} (hj : j ≠ k) (ci : Nat) (p : ConnectPacket) (ctx : Ctx) (present : Bool)
    (s : Session Ctx) (σ : Broker Ctx) :
    (σ.connectBind P ci p ctx k present s).sessions.slot j = σ.sessions.slot j := by
  simp only [Broker.connectBind]
  generalize hσ₂ : ({ (σ.setSession k _).setConn ci _ with trace := notifySession _ k _ _ } : Broker Ctx) = σ₂
  have h₂ : σ₂.sessions.slot j = σ.sessions.slot j := by
    rw [← hσ₂]
    exact Function.update_of_ne hj ..
  have hcases := sendTo_cases P none ci (buildConnack P.T.outSize present .accepted) σ₂
  generalize σ₂.sendTo P none ci (buildConnack P.T.outSize present .accepted) = σ₃ at hcases ⊢
  have h₃ : σ₃.sessions.slot j = σ.sessions.slot j := by cases hcases <;> exact h₂
  split
  · simp only [Broker.onSession, Broker.emit]
    split
    · exact h₃
    · exact (Function.update_of_ne hj ..).trans h₃
  · exact h₃

/-- **What becomes of the sessions without a connection when a CONNECT is dealt with.** -/
theorem Asking.evicts (hr : Asking P ci p clientId ctx σ) (hL : Linked P none σ) :
    NoneEvicted clientId σ (σ.connectAccepted P ci p clientId ctx) ∨
      ∃ v, σ.oldestDisconnected P = some v ∧ Evicted ci v σ (σ.connectAccepted P ci p clientId ctx) := by
  have hout := connectAccepted_outcome hL hr.active hr.free hr.up p clientId ctx
  generalize σ.connectAccepted P ci p clientId ctx = σ' at hout ⊢
  -- the takeover leaves who has no connection where it is
  have htaken : ∀ j s, σ.sessions.slot j = some s → s.conn = noConn →
      ∃ s', (Minimosq.takenOver P clientId σ).sessions.slot j = some s' ∧ s.SameClient s' := by
    intro j s hs hoff
    obtain ⟨h, -⟩ := hr.takenOver hL
    obtain ⟨s', hs'⟩ := h.stays j s hs ((hL.offline j s hs hoff).resolve_left (by simp)).1
    obtain ⟨s₀, hs₀, hsame⟩ := h.sessions j s' hs'
    rw [hs] at hs₀
    cases hs₀
    exact ⟨s', hs', hsame⟩
  -- a session that is started gets a slot nobody is in
  have hstart : ∀ {σ₁ : Broker Ctx} {k j : Nat} {pool : Pool (Session Ctx)} {s : Session Ctx},
      σ₁.sessions.alloc P.T.maxSessions (freshSession P.T ctx clientId) = some (k, pool) →
      σ₁.sessions.slot j = some s → ((Minimosq.allocated P k pool clientId σ₁).connectBind P ci p ctx k false
        (freshSession P.T ctx clientId)).sessions.slot j = some s := by
    intro σ₁ k j pool s halloc hs
    obtain ⟨-, hfree, hpool⟩ := alloc_some halloc
    have hj : j ≠ k := by
      rintro rfl
      rw [hfree] at hs
      cases hs
    rw [connectBind_others hj]
    exact (congrFun hpool j).trans ((Function.update_of_ne hj ..).trans hs)
  cases hout with
  | full hnone hbusy =>
    refine .inl (fun j s hs hoff => ?_)
    obtain ⟨s', hs', hon⟩ := hbusy j (hL.slot_lt j s hs)
    rw [hs] at hs'
    cases hs'
    exact absurd hoff hon
  | @fresh σ₁ k pool room halloc =>
    have hacc := room.accepted hr hL halloc
    have hroomy := room.roomy hr hL
    cases room with
    | free => exact .inl (fun j s hs _ _ => ⟨s, hstart halloc hs, rfl, rfl⟩)
    | @evicted v sv _ hfull hv hs hoff =>
      obtain ⟨hk, hfree, hpool⟩ := alloc_some halloc
      have hothers : ∀ j, j ≠ v → (Broker.release P v { σ with
          trace := notifySession .sessionEvicted v sv σ.trace }).sessions.slot j = σ.sessions.slot j := fun j hj => by
        rw [slot_release { σ with trace := notifySession .sessionEvicted v sv σ.trace } hs (hL.slot_lt v sv hs),
          Function.update_of_ne hj]
      -- no slot but that of the session evicted is free
      have hkv : k = v := by
        by_contra hne
        obtain ⟨s, hks⟩ := hfull k hk
        rw [hothers k hne, hks] at hfree
        cases hfree
      subst hkv
      obtain ⟨newer, older, he, -⟩ := hroomy.accepted halloc
      refine .inr ⟨k, hv, sv, _, newer ++ .bind k ci _ false :: older, hs, hoff, by rw [he, List.append_assoc]; rfl,
        hacc, fun j hj => ?_⟩
      rw [connectBind_others hj]
      exact (congrFun hpool j).trans ((Function.update_of_ne hj ..).trans (hothers j hj))
    | vacated hs hid hgone =>
      refine .inl (fun j s hs hoff _ => ?_)
      obtain ⟨s', hs', hsame⟩ := htaken j s hs hoff
      exact ⟨s', hstart halloc hs', hsame⟩
    | @replaced k' s' hclean hs' hid' hoff' =>
      refine .inl (fun j s hs hoff hne => ?_)
      obtain ⟨s₁, hs₁, hsame⟩ := htaken j s hs hoff
      refine ⟨s₁, hstart halloc ?_, hsame⟩
      have hj : j ≠ k' := by
        rintro rfl
        rw [hs'] at hs₁
        cases hs₁
        exact hne (hsame.clientId.symm.trans hid')
      rw [slot_release _ hs' ((hr.takenOver hL).1.linked.slot_lt _ _ hs'), Function.update_of_ne hj]
      exact hs₁
  | @resumed k s' hclean hs' hid' hoff' =>
    refine .inl (fun j s hs hoff hne => ?_)
    obtain ⟨s₁, hs₁, hsame⟩ := htaken j s hs hoff
    have hj : j ≠ k := by
      rintro rfl
      rw [hs'] at hs₁
      cases hs₁
      exact hne (hsame.clientId.symm.trans hid')
    exact ⟨s₁, (connectBind_others hj ..).trans hs₁, hsame⟩

theorem Amid.released (hσ : Amid P σ) {newer older : Trace Ctx} (he : σ.trace = newer ++ .release k :: older) :
    (tenant k older).isOnline = false := by
  have hslot : slotActs k σ.trace = slotActs k newer ++ .release k :: slotActs k older := by
    rw [he, slotActs_append, slotActs_cons_own rfl]
  exact History.each_iff.1 (hσ.slotRun k).released _ _ _ hslot rfl

/-- A refused CONNECT is not accepted. -/
theorem Grows.not_accepted (h : Grows (Act.Still P) σ σ') {b : Session Ctx} {present : Bool} :
    ¬Accepted k ci b present σ σ' := by
  rintro ⟨newer, older, he, -⟩
  obtain ⟨new, he', hnew⟩ := h
  have hsplit : new ++ σ.trace = newer ++ .bind k ci b present :: older ++ σ.trace := by
    rw [← he', he, List.append_assoc, List.cons_append]
  have hbind := (hnew (.bind k ci b present) (by rw [List.append_cancel_right hsplit]; simp)).not_bind
  cases hbind

/-- **Session admission and eviction.**  In every state the broker passes through, no session with a connection has ever
been released.  A CONNECT that passes its checks there is refused for lack of a slot if and only if nobody has its
client id and every session there can be has a connection.  Otherwise it is accepted, and at most one session makes
room for it: one without a connection, which it lost before all others without one, if fewer than 2^31 were lost
since. -/
theorem connect_admission (hσ : Amid P σ) :
    (∀ k, (tenant k σ.trace).isOnline = true ↔ ∃ s, σ.sessions.slot k = some s ∧ s.conn ≠ noConn) ∧
    (∀ k newer older, σ.trace = newer ++ .release k :: older → (tenant k older).isOnline = false) ∧
    ∀ ci body p ctx, Connecting P ci body σ → (σ.conns ci).session = noSession → parseConnect body = .ok p →
      Passes P p (σ.identify P p).1 ctx σ.trace →
      (σ.handleConnect P ci body = (σ.identify P p).2.refuse P ci .serverUnavailable (σ.identify P p).1 ↔
        NoRoom P (σ.identify P p).1 σ) ∧
      (¬NoRoom P (σ.identify P p).1 σ → ∃ k b present, Accepted k ci b present σ (σ.handleConnect P ci body)) ∧
      (NoneEvicted (σ.identify P p).1 σ (σ.handleConnect P ci body) ∨
        ∃ v, Evicted ci v σ (σ.handleConnect P ci body) ∧
          ((∀ j, Offline σ j → age j σ.trace < 2 ^ 31) → ∀ j, Offline σ j → j ≠ v →
            age j σ.trace < age v σ.trace)) := by
  refine ⟨fun k => (hσ.slotRun k).tenant.isOnline_iff, fun k newer older he => hσ.released he, ?_⟩
  intro ci body p ctx hconn hno hp pass
  have h := hconn.entered
  have hask := pass.asking h.active hno h.alive (h.received p hp)
  rw [pass.handleConnect hno hp]
  obtain ⟨n, hn⟩ := identify_state P p σ
  rw [hn] at hask ⊢
  have hL : Linked P none { σ with autoIdCounter := n } := { h.linked with }
  have hcode : ConnackCode.serverUnavailable ≠ .accepted := by simp
  have hquiet := (quiet_refuse (P := P) (· = ci) rfl hcode (σ.identify P p).1 ⟨hask.active, hask.up⟩ hask.free).grows
  refine ⟨?_, fun hroom => ?_, ?_⟩
  · rcases hask.placed hL with ⟨hfull, he⟩ | ⟨hroom, k, b, present, hacc⟩
    · exact ⟨fun _ => hfull, fun _ => he⟩
    · refine ⟨fun he => ?_, fun hfull => absurd hfull hroom⟩
      rw [he] at hacc
      exact absurd hacc hquiet.not_accepted
  · exact ((hask.placed hL).resolve_left (fun hfull => hroom hfull.1)).2
  · refine (hask.evicts hL).imp id ?_
    rintro ⟨v, hold, hev⟩
    exact ⟨v, hev, fun hyoung => h.oldest hyoung hold⟩

/-- A CONNECT with nothing but a client id. -/
def plainConnect (clientId : Bytes) (clean : Bool) : ConnectPacket where
  clientId := clientId
  willTopic := []
  willPayload := []
  username := []
  password := []
  keepaliveS := 60
  protocolLevel := protocolLevel311
  willQos := .atMostOnce
  protocolNameOk := true
  cleanSession := clean
  hasWill := false
  willRetain := false
  hasUsername := false
  hasPassword := false

theorem plainConnect_passes {send : Trace Unit → Nat → Bytes → Bool} {σ : Broker Unit} {clientId : Bytes} {clean : Bool}
    (hne : clientId ≠ []) (hid : ClientIdFits smallTraits clientId)
      (hfree : usesReservedPrefix clientId = false) :
    Passes (bed send) (plainConnect clientId clean) (σ.identify (bed send) (plainConnect clientId clean)).1
      () σ.trace := by
  rw [show (σ.identify (bed send) (plainConnect clientId clean)).1 = clientId by
    rw [Broker.identify, if_neg (by simpa [plainConnect] using hne)]
    rfl]
  have hno : ¬ false = true := by simp
  exact ⟨rfl, rfl, fun h => absurd h hne, hid, fun h => absurd h hno, fun _ => hfree, fun h => absurd h hno, rfl⟩

theorem age_le_length (k : Nat) (t : Trace Ctx) : age k t ≤ t.length :=
  (List.length_filterMap_le _ _).trans (List.takeWhile_prefix _).length_le

/-- Three sessions without a connection are all there can be: the first of them makes room for a fourth client. -/
theorem connect_admission_evicts : let P := bed (fun _ _ _ => true)
    let body := (Wire.makeConnect [100] {}).drop 2
    ∃ σ, Connecting P 1 body σ ∧ Evicted 1 0 σ (σ.handleConnect P 1 body) ∧
      ∀ j, Offline σ j → j ≠ 0 → age j σ.trace < age 0 σ.trace := by
  intro P body
  let leave (clientId : Bytes) : List Input := Input.connect 0 clientId { clean := false } ++ [.connClosed 0]
  let inputs := leave [97] ++ leave [98] ++ leave [99] ++ [.connOpen 1 1000]
  obtain ⟨σ, hconn, hno, hshort, hbefore, hafter⟩ := exists_connecting 1 body inputs
    (fun σ => (σ.conns 1).session = noSession ∧ σ.trace.length ≤ 100 ∧
      (σ.sessions.slot 0).map (fun s => (s.clientId, s.conn)) = some ([97], noConn) ∧
      ((σ.handleConnect P 1 body).sessions.slot 0).map Session.clientId = some [100])
    (show 0 < ((run P inputs).arrivals P 1 (Wire.makeConnect [100] {}) 1000).length by decide +kernel)
    (by decide +kernel)
  let p : ConnectPacket := plainConnect [100] true
  have hp : parseConnect body = .ok p := by decide +kernel
  obtain ⟨s, hs, hpair⟩ := Option.map_eq_some_iff.1 hbefore
  obtain ⟨hid, hoff⟩ := Prod.mk.inj hpair
  have pass : Passes P p (σ.identify P p).1 () σ.trace := plainConnect_passes (by decide) ⟨by decide, by decide⟩
      (by decide)
  obtain ⟨-, -, hplace⟩ := connect_admission hconn.entered.amid
  -- another client's session is in slot 0 now
  have hgone : ∀ s', (σ.handleConnect P 1 body).sessions.slot 0 = some s' → ¬s.SameClient s' := by
    intro s' hs' hsame
    rw [hs', Option.map_some, hsame.clientId, hid] at hafter
    cases hafter
  rcases (hplace 1 body p () hconn hno hp pass).2.2 with hnone | ⟨v, hev, hold⟩
  · obtain ⟨s', hs', hsame⟩ := hnone 0 s hs hoff (by rw [hid]; exact (by decide : ([97] : Bytes) ≠ [100]))
    exact absurd hsame (hgone s' hs')
  · obtain ⟨-, -, -, -, -, -, -, hothers⟩ := id hev
    have hv : 0 = v := by
      by_contra hne
      exact hgone s ((hothers 0 hne).trans hs) ⟨rfl, rfl⟩
    subst hv
    exact ⟨σ, hconn, hev, hold (fun j _ => (age_le_length j σ.trace).trans_lt (by omega))⟩

end

end Minimosq
