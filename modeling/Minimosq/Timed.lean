import Minimosq.Deadline
/-!
# Runs by a clock that does not wrap

A `Timed` call is made at a time of an unbounded clock, of which the broker sees the lower 32 bits.  `Times` notes what
that clock showed when a connection was opened, when it last spoke, and when a session was stamped.  At the pace the
signed comparison needs (`Paced`), every stored deadline is the true one wrapped, and not too far off (`OnTime`); so
every `tick` times out and discards exactly what the unbounded clock says (`tick_exact`).
-/
namespace Minimosq

variable {Ctx : Type} {P : Params Ctx}

/-- Every `now_ms` of the call is `T`, wrapped. -/
def Input.At (T : Nat) : Input → Prop
  | .connOpen _ now | .connData _ _ now | .tick now => now = toU32 T
  | .connClosed _ | .publish _ _ _ _ => True

/-- A call made at a time of the unbounded clock. -/
structure Timed where
  time : Nat
  input : Input
  wraps : input.At time

def Input.isTick : Input → Bool
  | .tick _ => true
  | _ => false

/-- `tick` at time `T`. -/
def Timed.tick (T : Nat) : Timed := ⟨T, .tick (toU32 T), rfl⟩

/-- What the unbounded clock showed. -/
structure Times where
  /-- When connection `ci` was opened. -/
  opened : Nat → Nat := fun _ => 0
  /-- When `conn_data` was last called for connection `ci`. -/
  heard : Nat → Nat := fun _ => 0
  /-- The time last given to `tick`, or to `conn_data` for an active connection. -/
  given : Nat := 0
  /-- What `given` was when the session in slot `k` was last taken off its connection. -/
  lost : Nat → Nat := fun _ => 0

def Times.next (P : Params Ctx) (σ : Broker Ctx) (i : Timed) (ts : Times) : Times :=
  let given := match i.input with
    | .tick _ => i.time
    | .connData ci _ _ => if (σ.conns ci).active then i.time else ts.given
    | _ => ts.given
  { opened := match i.input with
      | .connOpen ci now => if (σ.connOpen P ci now).1 = .ok then Function.update ts.opened ci i.time else ts.opened
      | _ => ts.opened
    heard := match i.input with
      | .connData ci _ _ => Function.update ts.heard ci i.time
      | _ => ts.heard
    given := given
    lost := fun k => if (actsSince σ (σ.step P i.input)).any (Act.detaches k) then given else ts.lost k }

def timedStep (P : Params Ctx) (r : Broker Ctx × Times) (i : Timed) : Broker Ctx × Times :=
  (r.1.step P i.input, r.2.next P r.1 i)

/-- **A timed run**: the state of the broker, and what the clock showed. -/
def timedRun (P : Params Ctx) (inputs : List Timed) : Broker Ctx × Times := inputs.foldl (timedStep P) (.init, {})

/-- The times of the ticks. -/
def tickTimes (inputs : List Timed) : List Nat := (inputs.filter (fun i => i.input.isTick)).map Timed.time

/-- The time of the first call, and those of the ticks. -/
def marks (inputs : List Timed) : List Nat := (inputs.head?.map Timed.time).toList ++ tickTimes inputs

/-- **The clock does not go back, and from the first call to the first tick and from tick to tick it goes less than
2^31 ms.** -/
structure Paced (inputs : List Timed) : Prop where
  ordered : (inputs.map Timed.time).IsChain (· ≤ ·)
  ticking : (marks inputs).IsChain (fun a b => b < a + 2147483648)

/-! ## Deadlines that are on time -/

/-- The time the interval of a connection counts from. -/
def Times.base (ts : Times) (ci : Nat) (c : Conn) : Nat := if c.session = noSession then ts.opened ci else ts.heard ci

/-- **The deadline of a connection is the true one, wrapped**, and the last tick was not after it. -/
structure Conn.OnTime (T : Traits) (mark now base : Nat) (c : Conn) : Prop where
  keepalive : c.keepaliveS < 65536
  base_le : base ≤ now
  deadline : 0 < c.window T → c.deadlineMs = toU32 (base + c.window T) ∧ mark ≤ base + c.window T

/-- **Every deadline is on time.**  `mark` is when the last tick was, or the first call, and `now` when the last call
was. -/
structure OnTime (P : Params Ctx) (mark now : Nat) (r : Broker Ctx × Times) : Prop where
  sound : Sound P r.1
  mark_le : mark ≤ now
  conns : ∀ ci, (r.1.conns ci).active = true → (r.1.conns ci).OnTime P.T mark now (r.2.base ci (r.1.conns ci))
  sessions : ∀ k s, r.1.sessions.slot k = some s → s.conn = noConn →
    r.2.lost k ≤ now ∧ s.disconnectMs = toU32 (r.2.lost k) ∧
      (0 < P.T.sessionExpiryMs → mark ≤ r.2.lost k + P.T.sessionExpiryMs)
  clock : r.1.nowMs = toU32 r.2.given ∧ r.2.given ≤ now
  /-- Sessions come with `conn_data`. -/
  given : mark ≤ r.2.given ∨ ∀ k, r.1.sessions.slot k = none

section
variable {σ σ' : Broker Ctx} {ts ts' : Times} {mark now T : Nat} {c c' : Conn}

theorem Conn.window_le (T : Traits) (hk : c.keepaliveS < 65536) : c.window T ≤ 2147483647 := by
  have h₁ := T.connectTimeout_le
  have h₂ := T.maxIdle_le
  simp only [Conn.window, Broker.keepaliveWindowMs]
  split
  · exact h₁
  · split
    · omega
    · exact h₂

theorem Conn.SameClock.window (h : c.SameClock c') (T : Traits) : c'.window T = c.window T := by
  simp only [Conn.window, h.session, h.keepalive]

theorem Conn.SameClock.base (h : c.SameClock c') (ts : Times) (ci : Nat) : ts.base ci c' = ts.base ci c := by
  simp only [Times.base, h.session]

theorem Conn.OnTime.same {T : Traits} {base : Nat} (h : c.OnTime T mark now base) (hs : c.SameClock c') :
    c'.OnTime T mark now base := by
  refine ⟨by rw [hs.keepalive]; exact h.keepalive, h.base_le, ?_⟩
  rw [hs.window T, hs.deadline]
  exact h.deadline

theorem Conn.OnTime.later {T : Traits} {base now' : Nat} (h : c.OnTime T mark now base) (hle : now ≤ now') :
    c.OnTime T mark now' base := ⟨h.keepalive, h.base_le.trans hle, h.deadline⟩

theorem Conn.Refreshed.onTime {Tr : Traits} (h : c.Refreshed Tr (toU32 T)) (hmark : mark ≤ T) :
    c.OnTime Tr mark T T := by
  refine ⟨h.keepalive, le_refl T, fun hpos => ⟨?_, by omega⟩⟩
  have hd := h.deadline
  have hwrap : ∀ w, toU32 (toU32 T + w) = toU32 (T + w) := fun w => by
    simp only [toU32]
    omega
  simp only [Conn.window, if_neg h.session, refreshDeadline] at hd hpos ⊢
  split
  · rename_i hk
    rw [if_pos hk] at hd
    rw [← hd]
    exact hwrap _
  · rename_i hk
    rw [if_neg hk] at hd hpos
    rw [if_pos hpos] at hd
    rw [← hd]
    exact hwrap _

theorem OnTime.later (h : OnTime P mark now (σ, ts)) (hle : now ≤ T) : OnTime P mark T (σ, ts) where
  sound := h.sound
  mark_le := h.mark_le.trans hle
  conns := fun ci hact => (h.conns ci hact).later hle
  sessions := fun k s hs hoff => ⟨(h.sessions k s hs hoff).1.trans hle, (h.sessions k s hs hoff).2⟩
  clock := ⟨h.clock.1, h.clock.2.trans hle⟩
  given := h.given

theorem OnTime.init (P : Params Ctx) (T : Nat) : OnTime P T T (.init, {}) where
  sound := init_sound P
  mark_le := le_refl T
  conns := fun _ h => by cases h
  sessions := fun _ _ h => by cases h
  clock := ⟨rfl, Nat.zero_le T⟩
  given := .inr (fun _ => rfl)

/-! ## One call -/

/-- **A session comes of a CONNECT**: without one, a free slot is still free at the end of a call. -/
theorem slot_none_of_still (hevolve : Evolve P σ σ') (hL : Linked P none σ') (hgrows : Grows (Act.Still P) σ σ')
    {k : Nat} (hnone : σ.sessions.slot k = none) : σ'.sessions.slot k = none := by
  obtain ⟨new, htrace, hnew⟩ := hgrows
  obtain ⟨hoff, hdetach⟩ := detach_free (hevolve.slots k) (by rw [hnone]; exact nofun) (slotActs k new)
    (by rw [htrace, slotActs_append]) (fun a ha => (hnew a (mem_slotActs.1 ha).1).not_bind)
  cases hs : σ'.sessions.slot k with
  | none => rfl
  | some s =>
    have hno := hoff s hs
    have hclean := ((hL.offline k s hs hno).resolve_left nofun).1
    rcases offline_cases (hevolve.slots k) hs hno hclean with ⟨s₀, -, hs₀, -⟩ | ⟨newer, ci, s₁, older, he, -⟩
    · rw [hnone] at hs₀
      cases hs₀
    · rw [htrace, slotActs_append, ← List.cons_append, ← List.cons_append, ← List.append_assoc,
        List.append_cancel_right_eq] at he
      exact absurd (by rw [he]; simp) (hdetach ci)

theorem connOpen_still (ci nowMs : Nat) (σ : Broker Ctx) : Grows (Act.Still P) σ (σ.connOpen P ci nowMs).2 := by
  unfold Broker.connOpen
  split
  · exact .refl σ
  · exact .one rfl ⟨trivial, rfl, rfl⟩

theorem connClosed_still (h : Linked P none σ) (ci : Nat) : Grows (Act.Still P) σ (σ.connClosed P ci) := by
  unfold Broker.connClosed
  split
  · exact .refl σ
  · generalize hc : ({ σ.conns ci with notifyTransport := false, dead := true } : Conn) = c
    have hset : Linked P none (σ.setConn ci c) := h.setConn (by rw [← hc]) (by rw [← hc])
    have hL : Linked P none ((σ.setConn ci c).emit (.peerClosed ci)) := { hset with }
    have hnote : Grows (Act.Still P) σ ((σ.setConn ci c).emit (.peerClosed ci)) := .one rfl ⟨trivial, rfl, rfl⟩
    exact hnote.trans (flushDead_flush hL).grows

theorem publish_still (h : Linked P none σ) (topic payload : Bytes) (qos : QoS) (retain : Bool) :
    Grows (Act.Still P) σ (σ.publish P topic payload qos retain).2 := by
  rcases publish_quiet (P := P) topic payload qos retain σ with he | ⟨σ₁, q, he⟩
  · rw [he]
    exact .refl σ
  · rw [he]
    exact q.grows.trans (flushDead_flush (h.quiet q)).grows

/-- **The deadlines that a call other than `tick` leaves.** -/
theorem OnTime.turn {own : Nat → Prop} (h : OnTime P mark T (σ, ts)) (hstep : Stepped P σ σ') (hturn : Turn own σ σ')
    (hbase : ∀ j, ¬own j → ts'.opened j = ts.opened j ∧ ts'.heard j = ts.heard j)
    (hown : ∀ j, own j → (σ'.conns j).active = true →
      (σ'.conns j).OnTime P.T mark T (ts'.base j (σ'.conns j)))
    (hlost : ∀ k, ts'.lost k = if (actsSince σ σ').any (Act.detaches k) then ts'.given else ts.lost k)
    (hclock : σ'.nowMs = toU32 ts'.given ∧ ts'.given ≤ T)
    (hgiven : mark ≤ ts'.given ∨ ∀ k, σ'.sessions.slot k = none) : OnTime P mark T (σ', ts') := by
  refine ⟨hstep.sound, h.mark_le, fun ci hact => ?_, fun k s' hs' hoff => ?_, hclock, hgiven⟩
  · by_cases hci : own ci
    · exact hown ci hci hact
    · obtain ⟨hact₀, hsame⟩ := hturn.conns ci hci hact
      obtain ⟨ho, hh⟩ := hbase ci hci
      have hsamebase : ts'.base ci (σ'.conns ci) = ts.base ci (σ.conns ci) := by
        rw [hsame.base]
        simp only [Times.base, ho, hh]
      show (σ'.conns ci).OnTime P.T mark T (ts'.base ci (σ'.conns ci))
      rw [hsamebase]
      exact (h.conns ci hact₀).same hsame
  · show ts'.lost k ≤ T ∧ s'.disconnectMs = toU32 (ts'.lost k) ∧
      (0 < P.T.sessionExpiryMs → mark ≤ ts'.lost k + P.T.sessionExpiryMs)
    rw [hlost]
    rcases hturn.stamp hstep.evolve hstep.sound.linked hs' hoff with ⟨s, hs, hno, hms, hany⟩ | ⟨hms, hany⟩
    · rw [hany, hms]
      exact h.sessions k s hs hno
    · rw [hany, hms, hclock.1]
      refine ⟨hclock.2, rfl, fun _ => ?_⟩
      rcases hgiven with hle | hnone
      · exact hle.trans (Nat.le_add_right ..)
      · rw [show σ'.sessions.slot k = none from hnone k] at hs'
        cases hs'

/-- No session comes of a call without a CONNECT, so nothing has to be known of the clock. -/
theorem OnTime.given_still (h : OnTime P mark now (σ, ts)) (hstep : Stepped P σ σ')
    (hstill : Grows (Act.Still P) σ σ') : mark ≤ ts.given ∨ ∀ k, σ'.sessions.slot k = none :=
  h.given.imp_right (fun hnone k => slot_none_of_still hstep.evolve hstep.sound.linked hstill (hnone k))

theorem OnTime.connOpen (h : OnTime P mark T (σ, ts)) (ci : Nat) :
    OnTime P mark T (timedStep P (σ, ts) ⟨T, .connOpen ci (toU32 T), rfl⟩) := by
  have hstep := connOpen_stepped h.sound ci (toU32 T)
  obtain ⟨hturn, hnow⟩ := turn_connOpen (P := P) ci (toU32 T) σ
  have hgiven := h.given_still hstep (connOpen_still ci (toU32 T) σ)
  show OnTime P mark T ((σ.connOpen P ci (toU32 T)).2, ts.next P σ ⟨T, .connOpen ci (toU32 T), rfl⟩)
  have hopened : (ts.next P σ ⟨T, .connOpen ci (toU32 T), rfl⟩).opened =
    if (σ.connOpen P ci (toU32 T)).1 = .ok then Function.update ts.opened ci T else ts.opened := rfl
  refine h.turn hstep hturn (fun j hj => ⟨?_, rfl⟩) (fun j hj hact => ?_) (fun _ => rfl)
    ⟨hnow.trans h.clock.1, h.clock.2⟩ hgiven
  · rw [hopened]
    split
    · exact Function.update_of_ne hj ..
    · rfl
  subst hj
  have hheard : (ts.next P σ ⟨T, .connOpen j (toU32 T), rfl⟩).heard = ts.heard := rfl
  generalize ts.next P σ ⟨T, .connOpen j (toU32 T), rfl⟩ = ts' at hopened hheard ⊢
  by_cases hguard : (decide (P.T.maxConnections ≤ j) || (σ.conns j).active) = true
  · have hrefused : σ.connOpen P j (toU32 T) = (.state, σ) := if_pos hguard
    rw [hrefused] at hact hopened ⊢
    have hbase : ts'.base j (σ.conns j) = ts.base j (σ.conns j) := by simp [Times.base, hopened, hheard]
    rw [hbase]
    exact h.conns j hact
  · generalize hc : ({ (σ.conns j).reset with
      active := true, deadlineMs := toU32 (toU32 T + P.T.connectTimeoutMs) } : Conn) = c
    have hopen : σ.connOpen P j (toU32 T) = (.ok, (σ.setConn j c).notifyConn P .connectionOpened j) :=
      hc ▸ if_neg hguard
    have hconn : ((σ.setConn j c).notifyConn P .connectionOpened j).conns j = c := conns_setConn_self ..
    have hsess : c.session = noSession := by rw [← hc]; rfl
    have hkeep : c.keepaliveS = 0 := by rw [← hc]; rfl
    have hdl : c.deadlineMs = toU32 (toU32 T + P.T.connectTimeoutMs) := by rw [← hc]
    rw [hopen] at hopened ⊢
    have hbase : ts'.base j c = T := by simp [Times.base, hsess, hopened]
    rw [hconn, hbase]
    refine ⟨by rw [hkeep]; decide, le_refl T, fun _ => ?_⟩
    rw [Conn.window, if_pos hsess, hdl]
    refine ⟨?_, h.mark_le.trans (Nat.le_add_right ..)⟩
    simp only [toU32]
    omega

theorem OnTime.connClosed (h : OnTime P mark T (σ, ts)) (ci : Nat) :
    OnTime P mark T (timedStep P (σ, ts) ⟨T, .connClosed ci, trivial⟩) := by
  have hstep := connClosed_stepped h.sound ci
  obtain ⟨hturn, hnow⟩ := turn_connClosed (P := P) ci σ
  exact h.turn hstep hturn (fun _ _ => ⟨rfl, rfl⟩) (fun _ => False.elim) (fun _ => rfl)
    ⟨hnow.trans h.clock.1, h.clock.2⟩ (h.given_still hstep (connClosed_still h.sound.linked ci))

theorem OnTime.publish (h : OnTime P mark T (σ, ts)) (topic payload : Bytes) (qos : QoS) (retain : Bool) :
    OnTime P mark T (timedStep P (σ, ts) ⟨T, .publish topic payload qos retain, trivial⟩) := by
  have hstep := publish_stepped h.sound topic payload qos retain
  obtain ⟨hturn, hnow⟩ := turn_publish (P := P) topic payload qos retain σ
  exact h.turn hstep hturn (fun _ _ => ⟨rfl, rfl⟩) (fun _ => False.elim) (fun _ => rfl)
    ⟨hnow.trans h.clock.1, h.clock.2⟩ (h.given_still hstep (publish_still h.sound.linked topic payload qos retain))

/-- `conn_data` sets the clock if it finds its connection active, and else does nothing. -/
theorem OnTime.connData (h : OnTime P mark T (σ, ts)) (ci : Nat) (data : Bytes) :
    OnTime P mark T (timedStep P (σ, ts) ⟨T, .connData ci data (toU32 T), rfl⟩) := by
  have hstep := connData_stepped h.sound ci data (toU32 T)
  show OnTime P mark T ((σ.connData P ci data (toU32 T)).2,
    ts.next P σ ⟨T, .connData ci data (toU32 T), rfl⟩)
  have hopened : (ts.next P σ ⟨T, .connData ci data (toU32 T), rfl⟩).opened = ts.opened := rfl
  have hheard : (ts.next P σ ⟨T, .connData ci data (toU32 T), rfl⟩).heard = Function.update ts.heard ci T := rfl
  have hgiven : (ts.next P σ ⟨T, .connData ci data (toU32 T), rfl⟩).given =
    if (σ.conns ci).active then T else ts.given := rfl
  have hlost : ∀ k, (ts.next P σ ⟨T, .connData ci data (toU32 T), rfl⟩).lost k =
    if (actsSince σ (σ.connData P ci data (toU32 T)).2).any (Act.detaches k) then
      (ts.next P σ ⟨T, .connData ci data (toU32 T), rfl⟩).given else ts.lost k := fun _ => rfl
  generalize ts.next P σ ⟨T, .connData ci data (toU32 T), rfl⟩ = ts' at hopened hheard hgiven hlost ⊢
  have hbase : ∀ j, j ≠ ci → ts'.opened j = ts.opened j ∧ ts'.heard j = ts.heard j := fun j hj => by
    rw [hopened, hheard, Function.update_of_ne hj]
    exact ⟨rfl, rfl⟩
  cases hact : (σ.conns ci).active with
  | true =>
    rw [hact, if_pos rfl] at hgiven
    have hspoken := connData_spoken h.sound (h.sound.linked.active_lt ci hact) hact (h.conns ci hact).keepalive data
      (toU32 T)
    refine h.turn hstep hspoken.turn hbase (fun j hj hact' => ?_) hlost
      ⟨by rw [hgiven]; exact hspoken.now, hgiven.le⟩ (.inl (by rw [hgiven]; exact h.mark_le))
    subst hj
    rcases hspoken.own hact' with ⟨hno, hsame⟩ | hfresh
    · have hold := h.conns j hact
      rw [hsame.base]
      have hbase' : ts'.base j (σ.conns j) = ts.base j (σ.conns j) := by
        rw [Times.base, Times.base, if_pos hno, if_pos hno, hopened]
      rw [hbase']
      exact hold.same hsame
    · rw [Times.base, if_neg hfresh.session, hheard, Function.update_self]
      exact hfresh.onTime h.mark_le
  | false =>
    have hsame : (σ.connData P ci data (toU32 T)).2 = σ :=
      connData_of_inactive (fun hci => by rw [hact] at hci; cases hci.2) data _
    have hgiven : ts'.given = ts.given := by simp [hgiven, hact]
    rw [hsame] at hstep hlost ⊢
    refine h.turn hstep (.refl (· = ci) σ) hbase (fun j hj hact' => ?_) hlost (by rw [hgiven]; exact h.clock)
      (by rw [hgiven]; exact h.given)
    rw [show j = ci from hj, hact] at hact'
    cases hact'

/-- **Any call but `tick`.** -/
theorem OnTime.call (h : OnTime P mark now (σ, ts)) (i : Timed) (hle : now ≤ i.time) (hnot : i.input.isTick = false) :
    OnTime P mark i.time (timedStep P (σ, ts) i) := by
  have h := h.later hle
  obtain ⟨T, input, hat⟩ := i
  cases input with
  | connOpen ci t =>
    cases hat
    exact h.connOpen ci
  | connClosed ci => exact h.connClosed ci
  | connData ci data t =>
    cases hat
    exact h.connData ci data
  | tick t => cases hnot
  | publish topic payload qos retain => exact h.publish topic payload qos retain

/-! ## A tick -/

/-- **A connection is due when the unbounded clock says so.** -/
theorem OnTime.due_iff (h : OnTime P mark now (σ, ts)) (hle : now ≤ T) (hpace : T < mark + 2147483648) {ci : Nat}
    (hact : (σ.conns ci).active = true) : (σ.conns ci).due P.T (toU32 T) = true ↔
      0 < (σ.conns ci).window P.T ∧ ts.base ci (σ.conns ci) + (σ.conns ci).window P.T ≤ T := by
  have hon : (σ.conns ci).OnTime P.T mark now (ts.base ci (σ.conns ci)) := h.conns ci hact
  have hdead : (σ.conns ci).dead = false := h.sound.flushed ci hact
  have hwindow := Conn.window_le P.T hon.keepalive
  have hbase := hon.base_le
  simp only [Conn.due, hact, hdead, Bool.not_false, Bool.true_and, Bool.and_eq_true, decide_eq_true_eq]
  refine and_congr_right (fun hpos => ?_)
  obtain ⟨hdl, hmark⟩ := hon.deadline hpos
  rw [hdl, deadlinePassed_exact (by omega) (by omega), decide_eq_true_eq]

/-- **So is a session without a connection.** -/
theorem OnTime.expired_iff (h : OnTime P mark now (σ, ts)) (hle : now ≤ T) (hpace : T < mark + 2147483648) {k : Nat}
    {s : Session Ctx} (hs : σ.sessions.slot k = some s) (hoff : s.conn = noConn) :
    s.expired P.T (toU32 T) = true ↔ 0 < P.T.sessionExpiryMs ∧ ts.lost k + P.T.sessionExpiryMs ≤ T := by
  obtain ⟨hlost, hms, hmark⟩ : ts.lost k ≤ now ∧ s.disconnectMs = toU32 (ts.lost k) ∧ _ := h.sessions k s hs hoff
  have hexp := P.T.sessionExpiry_le
  have hcon : s.connected = false := by simp [Session.connected, hoff]
  have hwrap : toU32 (toU32 (ts.lost k) + P.T.sessionExpiryMs) =
      toU32 (ts.lost k + P.T.sessionExpiryMs) := by
    simp only [toU32]
    omega
  simp only [Session.expired, hcon, Bool.not_false, Bool.true_and, Bool.and_eq_true, decide_eq_true_eq]
  refine and_congr_right (fun hpos => ?_)
  have hpast : mark ≤ ts.lost k + P.T.sessionExpiryMs := hmark hpos
  rw [hms, hwrap, deadlinePassed_exact (by omega) (by omega), decide_eq_true_eq]

/-- **What a tick leaves is on time**: what was due is gone. -/
theorem OnTime.tick (h : OnTime P mark now (σ, ts)) (hle : now ≤ T) (hpace : T < mark + 2147483648) :
    OnTime P T T (timedStep P (σ, ts) (.tick T)) := by
  have hstep : Stepped P σ (σ.tick P (toU32 T)) := tick_stepped h.sound (toU32 T)
  have hticked : Ticked P T σ (σ.tick P (toU32 T)) := tick_ticked h.sound T
  have hlost : ∀ k, (ts.next P σ (.tick T)).lost k =
    if (actsSince σ (σ.tick P (toU32 T))).any (Act.detaches k) then T else ts.lost k := fun _ => rfl
  have hbase : ∀ ci c, (ts.next P σ (.tick T)).base ci c = ts.base ci c := fun _ _ => rfl
  have hgiven : (ts.next P σ (.tick T)).given = T := rfl
  show OnTime P T T (σ.tick P (toU32 T), ts.next P σ (.tick T))
  generalize ts.next P σ (.tick T) = ts' at hlost hbase hgiven ⊢
  refine ⟨hstep.sound, le_refl T, fun ci hact => ?_, fun k s' hs' hoff => ?_,
    ⟨by rw [hgiven]; exact hticked.now, hgiven.le⟩, .inl hgiven.ge⟩
  · obtain ⟨hact₀, hsame⟩ := hticked.turn.conns ci id hact
    have hon : (σ.conns ci).OnTime P.T mark now (ts.base ci (σ.conns ci)) := h.conns ci hact₀
    have hnotdue : ¬(0 < (σ.conns ci).window P.T ∧ ts.base ci (σ.conns ci) + (σ.conns ci).window P.T ≤ T) := by
      rw [← h.due_iff hle hpace hact₀]
      intro hdue
      have hgone := hticked.closed ci hdue
      rw [show ((σ.tick P (toU32 T)).conns ci).active = true from hact] at hgone
      cases hgone
    show ((σ.tick P (toU32 T)).conns ci).OnTime P.T T T (ts'.base ci _)
    rw [hbase, hsame.base]
    refine (show (σ.conns ci).OnTime P.T T T (ts.base ci (σ.conns ci)) from
      ⟨hon.keepalive, hon.base_le.trans hle, fun hpos => ⟨(hon.deadline hpos).1, ?_⟩⟩).same hsame
    omega
  · show ts'.lost k ≤ T ∧ s'.disconnectMs = toU32 (ts'.lost k) ∧
      (0 < P.T.sessionExpiryMs → T ≤ ts'.lost k + P.T.sessionExpiryMs)
    rw [hlost]
    rcases hticked.turn.stamp hstep.evolve hstep.sound.linked hs' hoff with ⟨s, hs, hno, hms, hany⟩ | ⟨hms, hany⟩
    · rw [hany, hms]
      obtain ⟨hle', hms', -⟩ := h.sessions k s hs hno
      have hnotexp := (hticked.offline k s hs hno).not.1 (by rw [show _ = some s' from hs']; simp)
      rw [h.expired_iff hle hpace hs hno] at hnotexp
      refine ⟨hle'.trans hle, hms', fun hpos => ?_⟩
      simp only [Bool.false_eq_true, if_false]
      omega
    · rw [hany, hms, hticked.now]
      exact ⟨le_refl T, rfl, fun _ => Nat.le_add_right ..⟩

/-- **Every deadline of a run is on time**, at any tick that keeps the pace. -/
theorem onTime_fold : ∀ (inputs : List Timed) {mark now : Nat} {r : Broker Ctx × Times}, OnTime P mark now r →
    (now :: (inputs.map Timed.time ++ [T])).IsChain (· ≤ ·) →
    (mark :: (tickTimes inputs ++ [T])).IsChain (fun a b => b < a + 2147483648) →
    ∃ mark' now', OnTime P mark' now' (inputs.foldl (timedStep P) r) ∧ now' ≤ T ∧ T < mark' + 2147483648
  | [], mark, now, r, h, hordered, hticking => by
    simp only [List.map_nil, List.nil_append, List.isChain_cons_cons, tickTimes, List.filter_nil] at hordered hticking
    exact ⟨mark, now, h, hordered.1, hticking.1⟩
  | i :: inputs, mark, now, r, h, hordered, hticking => by
    rw [List.map_cons, List.cons_append, List.isChain_cons_cons] at hordered
    rw [List.foldl_cons]
    cases htick : i.input.isTick with
    | false =>
      have hsame : tickTimes (i :: inputs) = tickTimes inputs := by simp [tickTimes, htick]
      rw [hsame] at hticking
      exact onTime_fold inputs (h.call i hordered.1 htick) hordered.2 hticking
    | true =>
      have hcons : tickTimes (i :: inputs) = i.time :: tickTimes inputs := by simp [tickTimes, htick]
      rw [hcons, List.cons_append, List.isChain_cons_cons] at hticking
      have hi : i = .tick i.time := by
        obtain ⟨t, input, hat⟩ := i
        cases input <;> cases htick
        cases hat
        rfl
      have hone := h.tick hordered.1 hticking.1
      rw [← hi] at hone
      exact onTime_fold inputs hone hordered.2 hticking.2

theorem Paced.onTime {inputs : List Timed} (h : Paced (inputs ++ [.tick T])) :
    ∃ mark now, OnTime P mark now (timedRun P inputs) ∧ now ≤ T ∧ T < mark + 2147483648 := by
  have hordered := h.ordered
  have hticking := h.ticking
  cases inputs with
  | nil => exact ⟨T, T, .init P T, le_refl T, by omega⟩
  | cons i inputs =>
    have hticks : tickTimes ((i :: inputs) ++ [.tick T]) = tickTimes (i :: inputs) ++ [T] := by
      rw [tickTimes, List.filter_append, List.map_append]
      rfl
    rw [marks, hticks] at hticking
    refine onTime_fold (i :: inputs) (.init P i.time) ?_ hticking
    rw [List.map_append] at hordered
    exact List.isChain_cons_cons.2 ⟨le_refl i.time, hordered⟩

theorem timedRun_fst (P : Params Ctx) (inputs : List Timed) :
    (timedRun P inputs).1 = run P (inputs.map Timed.input) := by
  have hfold : ∀ (inputs : List Timed) (r : Broker Ctx × Times),
      (inputs.foldl (timedStep P) r).1 = (inputs.map Timed.input).foldl (Broker.step P) r.1 := by
    intro inputs
    induction inputs with
    | nil => exact fun _ => rfl
    | cons i inputs ih => exact fun r => ih _
  exact hfold inputs _

/-- Among these acts, connection `ci` is reported timed out. -/
def TimesOut (ci : Nat) (acts : Trace Ctx) : Prop := ci ∈ acts.filterMap Act.timesOut

/-- Among these acts, the session in slot `k` is reported expired. -/
def Expires (k : Nat) (acts : Trace Ctx) : Prop := k ∈ acts.filterMap Act.expires

end

/-- **Deadlines are exact across the wrap of the clock**: a tick at `T` times out a connection without a session when
its time for a CONNECT is over, one with a keep-alive one and a half periods after it last spoke, and one without when
it was idle too long; what times out is closed.  It discards a session without a connection when its stamp is
`sessionExpiryMs` old; one that has a connection it does not discard, and if such a session is gone it ended with its
connection. -/
theorem tick_exact (P : Params Ctx) (inputs : List Timed) (T : Nat) (paced : Paced (inputs ++ [.tick T])) :
    let σ := run P (inputs.map Timed.input)
    let ts := (timedRun P inputs).2
    let σ' := σ.tick P (toU32 T)
    let acts := actsSince σ σ'
    (∀ ci, (σ.conns ci).active = true →
      ((σ.conns ci).session = noSession →
        (TimesOut ci acts ↔ 0 < P.T.connectTimeoutMs ∧ ts.opened ci + P.T.connectTimeoutMs ≤ T)) ∧
      ((σ.conns ci).session ≠ noSession → 0 < (σ.conns ci).keepaliveS →
        (TimesOut ci acts ↔ ts.heard ci + 1500 * (σ.conns ci).keepaliveS ≤ T)) ∧
      ((σ.conns ci).session ≠ noSession → (σ.conns ci).keepaliveS = 0 →
        (TimesOut ci acts ↔ 0 < P.T.maxIdleMs ∧ ts.heard ci + P.T.maxIdleMs ≤ T)) ∧
      (TimesOut ci acts → (σ'.conns ci).active = false)) ∧
    ∀ k s, σ.sessions.slot k = some s →
      (s.conn = noConn →
        (Expires k acts ↔ 0 < P.T.sessionExpiryMs ∧ ts.lost k + P.T.sessionExpiryMs ≤ T) ∧
        (σ'.sessions.slot k = none ↔ 0 < P.T.sessionExpiryMs ∧ ts.lost k + P.T.sessionExpiryMs ≤ T)) ∧
      (s.conn ≠ noConn → ¬Expires k acts ∧
        (σ'.sessions.slot k = none → s.cleanSession = true ∧ (σ'.conns s.conn).active = false)) := by
  obtain ⟨mark, now, h, hle, hpace⟩ := paced.onTime (P := P)
  rw [← timedRun_fst]
  generalize timedRun P inputs = r at h
  obtain ⟨σ, ts⟩ := r
  have hticked : Ticked P T σ (σ.tick P (toU32 T)) := tick_ticked h.sound T
  intro σ₀ ts₀ σ' acts
  have hout : ∀ ci, (σ.conns ci).active = true →
      (TimesOut ci acts ↔ (σ.conns ci).due P.T (toU32 T) = true) := by
    intro ci hact
    have hci := h.sound.linked.active_lt ci hact
    show ci ∈ (actsSince σ (σ.tick P (toU32 T))).filterMap Act.timesOut ↔ _
    rw [hticked.timeouts, List.mem_reverse, List.mem_filter, List.mem_range]
    exact ⟨And.right, fun hdue => ⟨hci, hdue⟩⟩
  have hexp : ∀ k s, σ.sessions.slot k = some s → (Expires k acts ↔ s.expired P.T (toU32 T) = true) := by
    intro k s hs
    refine (hticked.expiries k).trans ⟨fun hk => ?_, fun hk => ⟨s, hs, hk⟩⟩
    obtain ⟨s', hs', hk⟩ := hk
    rw [hs] at hs'
    cases hs'
    exact hk
  refine ⟨fun ci hact => ⟨fun hno => ?_, fun hsess (hk : 0 < (σ.conns ci).keepaliveS) => ?_,
      fun hsess (hk : (σ.conns ci).keepaliveS = 0) => ?_, fun ho => ?_⟩,
    fun k s hs => ⟨fun hoff => ⟨?_, ?_⟩, fun hon => ⟨fun hk => ?_, hticked.online k s hs hon⟩⟩⟩
  · rw [hout ci hact, h.due_iff hle hpace hact, Conn.window, Times.base, if_pos hno, if_pos hno]
  · rw [hout ci hact, h.due_iff hle hpace hact, Conn.window, Times.base, if_neg hsess, if_neg hsess, if_pos hk,
      Broker.keepaliveWindowMs, Nat.mul_comm]
    exact ⟨And.right, fun hdue => ⟨Nat.mul_pos (by decide) hk, hdue⟩⟩
  · rw [hout ci hact, h.due_iff hle hpace hact, Conn.window, Times.base, if_neg hsess, if_neg hsess,
      if_neg (by omega)]
  · exact hticked.closed ci ((hout ci hact).1 ho)
  · rw [hexp k s hs, h.expired_iff hle hpace hs hoff]
  · exact (hticked.offline k s hs hoff).trans (h.expired_iff hle hpace hs hoff)
  · rw [hexp k s hs] at hk
    simp [Session.expired, Session.connected, hon] at hk

/-- A client with a persistent session connects shortly before the clock wraps, and is gone. -/
def wrappingRun : List Timed :=
  [⟨4294967000, .connOpen 0 4294967000, rfl⟩,
    ⟨4294967000, .connData 0 (Wire.makeConnect [99] { clean := false }) 4294967000, rfl⟩, .tick 4294967100,
    ⟨4294967200, .connClosed 0, trivial⟩]

/-- Its session is stamped before the wrap and discarded after it, to the millisecond. -/
theorem tick_exact_across_wrap : let σ := run expiringBed (wrappingRun.map Timed.input)
    Paced (wrappingRun ++ [.tick 4295027100]) ∧ Paced (wrappingRun ++ [.tick 4295027099]) ∧
      (timedRun expiringBed wrappingRun).2.lost 0 = 4294967100 ∧
      (σ.tick expiringBed (toU32 4295027100)).sessions.slot 0 = none ∧
      (σ.tick expiringBed (toU32 4295027099)).sessions.slot 0 ≠ none := by
  have hafter : Paced (wrappingRun ++ [.tick 4295027100]) := ⟨by decide, by decide⟩
  have hbefore : Paced (wrappingRun ++ [.tick 4295027099]) := ⟨by decide, by decide⟩
  have hlost : (timedRun expiringBed wrappingRun).2.lost 0 = 4294967100 := by decide +kernel
  have hparked : ((run expiringBed (wrappingRun.map Timed.input)).sessions.slot 0).map Session.conn = some noConn := by
    decide +kernel
  obtain ⟨s, hs, hoff⟩ := Option.map_eq_some_iff.1 hparked
  have hdue := (((tick_exact expiringBed wrappingRun 4295027100 hafter).2 0 s hs).1 hoff).2
  have hnotdue := (((tick_exact expiringBed wrappingRun 4295027099 hbefore).2 0 s hs).1 hoff).2
  rw [hlost] at hdue hnotdue
  exact ⟨hafter, hbefore, hlost, hdue.2 (by decide), fun h => absurd (hnotdue.1 h) (by decide)⟩

/-- The call is given a time to set the clock by. -/
def Input.givesTime : Input → Bool
  | .tick _ | .connData _ _ _ => true
  | _ => false

/-- The time last given to `conn_data` or `tick`, whether or not the call found its connection. -/
def lastGiven (inputs : List Timed) : Nat :=
  ((inputs.filter (fun i => i.input.givesTime)).map Timed.time).getLastD 0

/-- `conn_data` is called for a connection that is not there, and then a client with a persistent session is gone. -/
def strayRun : List Timed :=
  [⟨0, .connOpen 0 0, rfl⟩, ⟨0, .connData 0 (Wire.makeConnect [99] { clean := false }) 0, rfl⟩,
    ⟨1000, .connData 1 [] 1000, rfl⟩, ⟨1000, .connClosed 0, trivial⟩]

/-- The refused call does not set the clock, so the session is stamped with an earlier time and discarded early. -/
theorem tick_discards_before_lastGiven : let σ := run expiringBed (strayRun.map Timed.input)
    Paced (strayRun ++ [.tick 60000]) ∧ (σ.sessions.slot 0).map Session.conn = some noConn ∧
      lastGiven strayRun = 1000 ∧ 60000 < lastGiven strayRun + expiringBed.T.sessionExpiryMs ∧
      (σ.tick expiringBed (toU32 60000)).sessions.slot 0 = none :=
  ⟨⟨by decide, by decide⟩, by decide +kernel, by decide, by decide, by decide +kernel⟩

end Minimosq
