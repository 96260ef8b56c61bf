import Minimosq.Bed
import Minimosq.Clock
/-!
# Deadlines are exact

The broker is given the time as a `uint32_t` that wraps, and compares by signed difference.  `Timed` is a call made at a
time of a clock that does not wrap, and `Times` is what that clock showed when a connection was opened, when it last
spoke, and when a session was stamped.  Under the pace the comparison needs, a `tick` finds a connection or a session
due exactly when the unbounded clock says so (`tick_exact`).
-/
namespace Minimosq

open History (Star)

variable {Ctx : Type} {P : Params Ctx} {σ : Broker Ctx}

/-! ## What a tick finds due -/

/-- The interval a connection has: to send its CONNECT, for its keep-alive, or idle.  0 is for ever. -/
def Conn.window (T : Traits) (c : Conn) : Nat :=
  if c.session = noSession then T.connectTimeoutMs
  else if 0 < c.keepaliveS then Broker.keepaliveWindowMs c.keepaliveS else T.maxIdleMs

/-- The connection times out at `now`. -/
def Conn.due (T : Traits) (now : Nat) (c : Conn) : Bool :=
  c.active && !c.dead && decide (0 < c.window T) && deadlinePassed now c.deadlineMs

/-- The session expires at `now`. -/
def Session.expired (T : Traits) (now : Nat) (s : Session Ctx) : Bool :=
  !s.connected && decide (0 < T.sessionExpiryMs) &&
    deadlinePassed now (toU32 (s.disconnectMs + T.sessionExpiryMs))

/-- The connection a timeout is reported of. -/
def Act.timesOut : Act Ctx → Option Nat
  | .event e _ =>
    match e.kind with
    | .connectTimeout | .keepaliveTimeout | .idleTimeout => e.ci
    | _ => none
  | _ => none

/-- The slot whose session is reported expired. -/
def Act.expires : Act Ctx → Option Nat
  | .event e slot => if e.kind = .sessionExpired then slot else none
  | _ => none

theorem Act.timesOut_of_upkeep {now : Nat} {v : Option Nat} {a : Act Ctx} (h : a.upkeep now v = true) :
    a.timesOut = none := by
  cases a with
  | event e slot =>
    cases hk : e.kind <;> simp_all [Act.timesOut, Act.upkeep, EventKind.upkeep]
  | _ => rfl

theorem Act.expires_of_upkeep {now : Nat} {v : Option Nat} {a : Act Ctx} (h : a.upkeep now v = true) :
    a.expires = none := by
  cases a with
  | event e slot =>
    cases hk : e.kind <;> simp_all [Act.expires, Act.upkeep, EventKind.upkeep]
  | _ => rfl

theorem Conn.armed_eq (T : Traits) (c : Conn) : (if c.session == noSession then decide (0 < T.connectTimeoutMs)
      else decide (0 < c.keepaliveS) || decide (0 < T.maxIdleMs)) = decide (0 < c.window T) := by
  simp only [Conn.window, Broker.keepaliveWindowMs]
  by_cases hs : c.session = noSession
  · simp [hs]
  · by_cases hk : 0 < c.keepaliveS
    · simp [hs, hk]
    · simp [hs, hk]

/-- What is reported of a connection that times out. -/
def Conn.timeoutKind (c : Conn) : EventKind :=
  if c.session == noSession then .connectTimeout else if 0 < c.keepaliveS then .keepaliveTimeout else .idleTimeout

theorem timesOut_timeoutKind (c : Conn) (i : Nat) (clientId : Bytes) :
    (Act.event { kind := c.timeoutKind, ci := some i, clientId := clientId } none : Act Ctx).timesOut = some i := by
  unfold Conn.timeoutKind
  split
  · rfl
  · split <;> rfl

theorem expires_timeoutKind (c : Conn) (i : Nat) (clientId : Bytes) :
    (Act.event { kind := c.timeoutKind, ci := some i, clientId := clientId } none : Act Ctx).expires = none := by
  unfold Conn.timeoutKind
  split
  · rfl
  · split <;> rfl

/-- **One visit of the timeout loop**: the connection is reported and given up on if it is due. -/
theorem timeoutOne_eq (nowMs : Nat) (σ : Broker Ctx) (i : Nat) : σ.timeoutOne P nowMs i =
    if (σ.conns i).due P.T nowMs then (σ.notifyConn P (σ.conns i).timeoutKind i).setDead i else σ := by
  simp only [Broker.timeoutOne, Conn.armed_eq]
  by_cases hup : (σ.conns i).active = true ∧ (σ.conns i).dead = false
  · simp [Conn.due, hup.1, hup.2, Conn.timeoutKind]
  · have hdown : (!(σ.conns i).active || (σ.conns i).dead) = true := by
      cases hact : (σ.conns i).active with
      | false => rfl
      | true => simpa [hact] using hup
    have hdue : (σ.conns i).due P.T nowMs = false := by
      have hno : ((σ.conns i).active && !(σ.conns i).dead) = false := by simpa [Bool.not_or] using congrArg not hdown
      simp only [Conn.due, hno, Bool.false_and]
    rw [if_pos hdown, if_neg (by simp [hdue])]

theorem timeoutOne_conns (nowMs : Nat) (σ : Broker Ctx) (i j : Nat) : (σ.timeoutOne P nowMs i).conns j =
    if j = i ∧ (σ.conns i).due P.T nowMs = true then { σ.conns j with dead := true } else σ.conns j := by
  rw [timeoutOne_eq]
  split
  · rename_i hdue
    rw [setDead_conns]
    by_cases hj : j = i
    · subst hj
      simp [hdue, Broker.notifyConn, Broker.emit]
    · simp [hj, Broker.notifyConn, Broker.emit]
  · rename_i hdue
    simp [hdue]

theorem timeoutOne_trace (nowMs : Nat) (σ : Broker Ctx) (i : Nat) :
    ∃ acts, (σ.timeoutOne P nowMs i).trace = acts ++ σ.trace ∧
      acts.filterMap Act.timesOut = (if (σ.conns i).due P.T nowMs then [i] else []) ∧
      ∀ a ∈ acts, a.expires = none ∧ a.ticket = none := by
  rw [timeoutOne_eq]
  split
  · refine ⟨[.dead i, .event _ none], rfl, ?_, ?_⟩
    · rw [List.filterMap_cons, List.filterMap_cons, timesOut_timeoutKind]
      rfl
    · refine List.forall_mem_cons.2 ⟨⟨rfl, rfl⟩, List.forall_mem_singleton.2 ⟨expires_timeoutKind .., rfl⟩⟩
  · exact ⟨[], rfl, rfl, by simp⟩

/-- **The timeout loop**: every connection that is due is reported once and given up on. -/
theorem timeoutLoop_spec (nowMs : Nat) : ∀ (l : List Nat) (σ : Broker Ctx), l.Nodup →
    let σ' := l.foldl (Broker.timeoutOne P nowMs) σ
    (∀ j, σ'.conns j = if j ∈ l ∧ (σ.conns j).due P.T nowMs = true then
      { σ.conns j with dead := true } else σ.conns j) ∧
    (∃ new, σ'.trace = new ++ σ.trace ∧
      new.filterMap Act.timesOut = (l.filter (fun j => (σ.conns j).due P.T nowMs)).reverse ∧
      ∀ a ∈ new, a.expires = none ∧ a.ticket = none) ∧
    σ'.sessions = σ.sessions ∧ σ'.nowMs = σ.nowMs
  | [], σ, _ => ⟨fun _ => by simp, ⟨[], rfl, rfl, by simp⟩, rfl, rfl⟩
  | i :: l, σ, hl => by
    obtain ⟨hi, hl⟩ := List.nodup_cons.1 hl
    obtain ⟨hconns, ⟨new, htrace, houts, hnew⟩, hsess, hnow⟩ := timeoutLoop_spec nowMs l (σ.timeoutOne P nowMs i) hl
    obtain ⟨acts, hacts, hout, hact⟩ := timeoutOne_trace (P := P) nowMs σ i
    have hother : ∀ j, j ≠ i → (σ.timeoutOne P nowMs i).conns j = σ.conns j := fun j hj => by
      rw [timeoutOne_conns, if_neg (fun h => hj h.1)]
    have hfilter : l.filter (fun j => ((σ.timeoutOne P nowMs i).conns j).due P.T nowMs) =
        l.filter (fun j => (σ.conns j).due P.T nowMs) := by
      refine List.filter_congr (fun j hj => ?_)
      rw [hother j (fun he => hi (he ▸ hj))]
    rw [List.foldl_cons]
    refine ⟨fun j => ?_, ⟨new ++ acts, ?_, ?_, List.forall_mem_append.2 ⟨hnew, hact⟩⟩, ?_, ?_⟩
    · rw [hconns]
      by_cases hj : j = i
      · subst hj
        rw [if_neg (fun h => hi h.1), timeoutOne_conns]
        simp
      · rw [hother j hj]
        simp [hj]
    · rw [htrace, hacts, List.append_assoc]
    · rw [List.filterMap_append, houts, hout, hfilter, List.filter_cons]
      split <;> simp
    · rw [hsess, timeoutOne_eq]
      split <;> rfl
    · rw [hnow, timeoutOne_eq]
      split <;> rfl

/-! ### Sessions -/

/-- The session in slot `k` expires at `now`. -/
def Broker.expiring (P : Params Ctx) (now : Nat) (σ : Broker Ctx) (k : Nat) : Bool :=
  (σ.sessions.slot k).any (Session.expired P.T now)

/-- **One visit of the expiry loop.** -/
theorem expireOne_spec (hexp : 0 < P.T.sessionExpiryMs) (nowMs : Nat) (σ : Broker Ctx) {k : Nat}
    (hk : k < P.T.maxSessions) : (σ.expireOne P nowMs k).sessions.slot =
      (if σ.expiring P nowMs k then Function.update σ.sessions.slot k none else σ.sessions.slot) ∧
    ∃ acts, (σ.expireOne P nowMs k).trace = acts ++ σ.trace ∧
      acts.filterMap Act.expires = (if σ.expiring P nowMs k then [k] else []) ∧
      ∀ a ∈ acts, a.timesOut = none ∧ a.ticket = none := by
  unfold Broker.expireOne Broker.expiring
  cases hs : σ.sessions.slot k with
  | none => exact ⟨by simp, [], rfl, rfl, by simp⟩
  | some s =>
    simp only [Option.any_some, Session.expired, hexp, decide_true, Bool.and_true]
    cases hon : s.connected with
    | true => exact ⟨by simp, [], rfl, rfl, by simp⟩
    | false =>
      cases hpassed : deadlinePassed nowMs (toU32 (s.disconnectMs + P.T.sessionExpiryMs)) with
      | false => exact ⟨by simp, [], by simp, rfl, by simp⟩
      | true =>
        refine ⟨?_, [.release k, .event _ (some k)], rfl, rfl, ?_⟩
        · exact slot_release { σ with trace := notifySession .sessionExpired k s σ.trace } hs hk
        · exact List.forall_mem_cons.2 ⟨⟨rfl, rfl⟩, List.forall_mem_singleton.2 ⟨rfl, rfl⟩⟩

theorem expireLoop_spec (hexp : 0 < P.T.sessionExpiryMs) (nowMs : Nat) : ∀ (l : List Nat) (σ : Broker Ctx), l.Nodup →
    (∀ k ∈ l, k < P.T.maxSessions) →
    let σ' := l.foldl (Broker.expireOne P nowMs) σ
    (∀ k, σ'.sessions.slot k = if k ∈ l ∧ σ.expiring P nowMs k = true then none else σ.sessions.slot k) ∧
    ∃ new, σ'.trace = new ++ σ.trace ∧
      new.filterMap Act.expires = (l.filter (σ.expiring P nowMs)).reverse ∧
      ∀ a ∈ new, a.timesOut = none ∧ a.ticket = none
  | [], σ, _, _ => ⟨fun _ => by simp, [], rfl, rfl, by simp⟩
  | i :: l, σ, hl, hlt => by
    obtain ⟨hi, hl⟩ := List.nodup_cons.1 hl
    obtain ⟨hilt, hlt⟩ := List.forall_mem_cons.1 hlt
    obtain ⟨hslots, new, htrace, hexps, hnew⟩ := expireLoop_spec hexp nowMs l (σ.expireOne P nowMs i) hl hlt
    obtain ⟨hslot, acts, hacts, hone, hact⟩ := expireOne_spec hexp nowMs σ hilt
    have hother : ∀ j, j ≠ i → (σ.expireOne P nowMs i).sessions.slot j = σ.sessions.slot j := fun j hj => by
      rw [hslot]
      split
      · exact Function.update_of_ne hj ..
      · rfl
    have hsame : ∀ j, j ≠ i → (σ.expireOne P nowMs i).expiring P nowMs j = σ.expiring P nowMs j :=
      fun j hj => by rw [Broker.expiring, hother j hj]; rfl
    have hfilter : l.filter ((σ.expireOne P nowMs i).expiring P nowMs) = l.filter (σ.expiring P nowMs) :=
      List.filter_congr (fun j hj => hsame j (fun he => hi (he ▸ hj)))
    rw [List.foldl_cons]
    refine ⟨fun j => ?_, new ++ acts, ?_, ?_, List.forall_mem_append.2 ⟨hnew, hact⟩⟩
    · rw [hslots]
      by_cases hj : j = i
      · subst hj
        rw [if_neg (fun h => hi h.1), hslot]
        cases σ.expiring P nowMs j <;> simp
      · rw [hsame j hj, hother j hj]
        simp [hj]
    · rw [htrace, hacts, List.append_assoc]
    · rw [List.filterMap_append, hexps, hone, hfilter, List.filter_cons]
      split <;> simp

/-- **`expire_sessions`**: every session that is due is reported once and released. -/
theorem expireSessions_discards (hlt : ∀ k s, σ.sessions.slot k = some s → k < P.T.maxSessions) (nowMs : Nat) :
    let σ' := σ.expireSessions P nowMs
    (∀ k, σ'.sessions.slot k = if σ.expiring P nowMs k then none else σ.sessions.slot k) ∧
    ∃ new, σ'.trace = new ++ σ.trace ∧
      new.filterMap Act.expires = ((List.range P.T.maxSessions).filter (σ.expiring P nowMs)).reverse ∧
      ∀ a ∈ new, a.timesOut = none ∧ a.ticket = none := by
  simp only [Broker.expireSessions]
  split
  · rename_i hzero
    have hnone : ∀ k, σ.expiring P nowMs k = false := by
      intro k
      rw [Broker.expiring]
      cases σ.sessions.slot k with
      | none => rfl
      | some s => simp [Session.expired, hzero]
    refine ⟨fun k => by simp [hnone k], [], rfl, ?_, by simp⟩
    rw [List.filter_eq_nil_iff.2 (fun k _ => by simp [hnone k])]
    rfl
  · rename_i hpos
    obtain ⟨hslots, hrest⟩ := expireLoop_spec (Nat.pos_of_ne_zero hpos) nowMs (List.range P.T.maxSessions) σ
      List.nodup_range (fun k hk => List.mem_range.1 hk)
    refine ⟨fun k => ?_, hrest⟩
    rw [hslots]
    by_cases hk : k < P.T.maxSessions
    · simp [hk]
    · have hnone : σ.sessions.slot k = none := by
        cases hs : σ.sessions.slot k with
        | none => rfl
        | some s => exact absurd (hlt k s hs) hk
      simp [hnone]

/-! ## A tick -/

theorem deadlinePassed_exact {T D : Nat} (hpast : T < D + 2147483648) (hnear : D < T + 2147483648) :
    deadlinePassed (toU32 T) (toU32 D) = decide (D ≤ T) := by
  refine decide_eq_decide.2 ?_
  simp only [toU32]
  omega

/-- A session stamped just now does not expire. -/
theorem expired_of_stamped {T : Nat} {s : Session Ctx} (hs : s.disconnectMs = toU32 T) :
    s.expired P.T (toU32 T) = false := by
  have hle := P.T.sessionExpiry_le
  have hsum : toU32 (toU32 T + P.T.sessionExpiryMs) = toU32 (T + P.T.sessionExpiryMs) := by
    simp only [toU32]
    omega
  by_cases hpos : 0 < P.T.sessionExpiryMs
  · have hlater : ¬T + P.T.sessionExpiryMs ≤ T := by omega
    rw [Session.expired, hs, hsum, deadlinePassed_exact (by omega) (by omega), decide_eq_false hlater, Bool.and_false]
  · simp [Session.expired, hpos]

/-- **What a tick does up to `expire_sessions`.** -/
structure TickFlushed (P : Params Ctx) (nowMs : Nat) (σ σ' : Broker Ctx) : Prop where
  stepped : Stepped P σ σ'
  now : σ'.nowMs = nowMs
  turn : Turn (fun _ => False) σ σ'
  /-- Who is due is reported, and nobody else. -/
  acts : ∃ new, σ'.trace = new ++ σ.trace ∧
    new.filterMap Act.timesOut = ((List.range P.T.maxConnections).filter (fun j => (σ.conns j).due P.T nowMs)).reverse ∧
    ∀ a ∈ new, a.expires = none ∧ a.isBind = false
  closed : ∀ ci, (σ.conns ci).due P.T nowMs = true → (σ'.conns ci).active = false
  stays : ∀ k s, σ.sessions.slot k = some s → s.cleanSession = false → ∃ s', σ'.sessions.slot k = some s'
  session : ∀ ci, (σ'.conns ci).active = true → (σ'.conns ci).session = (σ.conns ci).session

theorem tickFlushed_spec (h : Sound P σ) (nowMs : Nat) : TickFlushed P nowMs σ ((tickLoops P nowMs σ).flushDead P) := by
  have q := quiet_tickLoops (P := P) nowMs h.linked.retained
  have hL₀ : Linked P none { σ with nowMs := nowMs } := { h.linked with }
  have hstep := Stepped.flush ((Course.clock σ nowMs).trans (q.course hL₀)) (hL₀.quiet q)
    (fun j => by rw [q.parser]; exact h.parsers j)
  have hloop := timeoutLoop_spec (P := P) nowMs (List.range P.T.maxConnections) { σ with nowMs := nowMs }
    List.nodup_range
  rw [← timedOut] at hloop
  obtain ⟨hconns, ⟨t, htrace, houts, ht⟩, -, hnow⟩ := hloop
  have hpump : Lasting (timedOut P nowMs σ) (tickLoops P nowMs σ) := Lasts.foldl (fun σ k => lasting_pumpOne σ k) _ _
  have hF := flushDead_flush (hL₀.quiet q)
  obtain ⟨b, hb, hbind⟩ := (q.grows.trans hF.grows)
  generalize timedOut P nowMs σ = σt at hconns htrace hnow hpump
  generalize tickLoops P nowMs σ = σp at hpump q hF hstep hb ⊢
  have hflush : Ebbs (fun _ => False) none σp (σp.flushDead P) := ebbs_flushDead σp
  obtain ⟨p, hp, hpacts⟩ := hpump.acts
  obtain ⟨f, hf, hfacts⟩ := hflush.acts
  have hroutine : ∀ a ∈ p, a.upkeep 0 none = true := fun a ha => a.upkeep_of_routine (hpacts a ha)
  have hnew : (σp.flushDead P).trace = (f ++ p ++ t) ++ σ.trace := by
    rw [hf, hp, htrace, List.append_assoc, List.append_assoc]
  refine ⟨hstep, hflush.now.trans (hpump.now.trans hnow), ?_, ⟨f ++ p ++ t, hnew, ?_, fun a ha => ⟨?_, ?_⟩⟩, ?_, ?_, ?_⟩
  · have hclock : Turn (fun _ => False) σ σt := by
      refine ⟨fun j _ hact => ?_, t, htrace, fun a ha => a.stampedAt_of_ticket (ht a ha).2⟩
      rw [hconns] at hact ⊢
      split at hact
      · rename_i hdue
        rw [if_pos hdue]
        exact ⟨hact, rfl, rfl, rfl⟩
      · rename_i hdue
        rw [if_neg hdue]
        exact ⟨hact, .refl _⟩
    exact (hclock.trans hpump.turn hpump.now).trans hflush.turn hflush.now
  · have hnone : ∀ a ∈ f ++ p, a.timesOut = none := List.forall_mem_append.2
      ⟨fun a ha => Act.timesOut_of_upkeep (hfacts a ha),
        fun a ha => Act.timesOut_of_upkeep (hroutine a ha)⟩
    rw [List.filterMap_append, List.filterMap_eq_nil_iff.2 hnone, List.nil_append]
    exact houts
  · rcases List.mem_append.1 ha with ha | ha
    · rcases List.mem_append.1 ha with ha | ha
      · exact Act.expires_of_upkeep (hfacts a ha)
      · exact Act.expires_of_upkeep (hroutine a ha)
    · exact (ht a ha).1
  · have he : b = f ++ p ++ t := List.append_cancel_right (hb.symm.trans hnew)
    exact (hbind a (he ▸ ha)).not_bind
  · intro ci hdue
    have hup : (σ.conns ci).active = true := by
      simp only [Conn.due, Bool.and_eq_true] at hdue
      exact hdue.1.1.1
    have hdead : (σp.conns ci).dead = true := by
      have hdead : (σt.conns ci).dead = true := by
        rw [hconns, if_pos ⟨List.mem_range.2 (h.linked.active_lt ci hup), hdue⟩]
      rcases hpump.conns ci with e | e <;> rw [e]
      exact hdead
    refine Bool.eq_false_iff.2 (fun hact => ?_)
    have halive := hF.flushed ci hact
    rw [hF.conns ci hact, hdead] at halive
    cases halive
  · intro k s hs hclean
    obtain ⟨s₁, hs₁, hframe⟩ := q.frame hs
    refine hF.stays k s₁ hs₁ ((congrArg Session.cleanSession hframe : s₁.frame.cleanSession = _).trans hclean)
  · intro ci hact
    rw [hF.conns ci hact]
    exact q.session ci

/-- An act that takes the session in slot `k` off its connection. -/
def Act.detaches (k : Nat) : Act Ctx → Bool
  | .detach j _ => j == k
  | _ => false

theorem Act.eq_detach {k : Nat} {a : Act Ctx} (h : a.detaches k = true) : ∃ ci, a = .detach k ci := by
  cases a with
  | detach j ci => exact ⟨ci, by rw [eq_of_beq h]⟩
  | _ => cases h

theorem Act.slot_of_detaches {k : Nat} {a : Act Ctx} (h : a.detaches k = true) : a.slot = some k := by
  obtain ⟨ci, rfl⟩ := a.eq_detach h
  rfl

theorem Rests.no_detach {T : Traits} {acts : Trace Ctx} {s s' : Session Ctx} (h : Rests T acts s s') (k : Nat) :
    acts.any (Act.detaches k) = false := by
  refine List.any_eq_false.2 (fun a ha hd => ?_)
  obtain ⟨ci, rfl⟩ := a.eq_detach hd
  cases h.only _ ha

/-- The acts about slot `k` say whether its session was taken off its connection. -/
theorem any_detaches_slotActs (k : Nat) (acts : Trace Ctx) :
    (slotActs k acts).any (Act.detaches k) = acts.any (Act.detaches k) := by
  rw [slotActs, List.any_filter]
  refine congrArg (acts.any ·) (funext fun a => ?_)
  cases hd : a.detaches k with
  | false => simp
  | true => simp [Act.slot_of_detaches hd]

/-- **A session without a connection at the end of a call**: it had none before and its stamp is the one it had, or it
lost it in this call and is stamped with the time of the call. -/
theorem Turn.stamp {own : Nat → Prop} {σ' : Broker Ctx} (h : Turn own σ σ') (hevolve : Evolve P σ σ')
    (hL : Linked P none σ') {k : Nat} {s' : Session Ctx} (hs' : σ'.sessions.slot k = some s')
      (hoff : s'.conn = noConn) :
    (∃ s, σ.sessions.slot k = some s ∧ s.conn = noConn ∧ s'.disconnectMs = s.disconnectMs ∧
        (actsSince σ σ').any (Act.detaches k) = false) ∨
      s'.disconnectMs = σ'.nowMs ∧ (actsSince σ σ').any (Act.detaches k) = true := by
  obtain ⟨new, htrace, hstamps⟩ := h.stamps
  rw [actsSince_eq htrace, ← any_detaches_slotActs]
  have hclean := ((hL.offline k s' hs' hoff).resolve_left (by simp)).1
  rcases offline_cases (hevolve.slots k) hs' hoff hclean with ⟨s, acts, hs, hno, he, hrests⟩ |
    ⟨newer, ci, s₁, older, he, -, hrests⟩
  · rw [htrace, slotActs_append, List.append_cancel_right_eq] at he
    rw [he]
    exact .inl ⟨s, hs, hno, hrests.disconnectMs, hrests.no_detach k⟩
  · rw [htrace, slotActs_append, ← List.cons_append, ← List.cons_append, ← List.append_assoc,
      List.append_cancel_right_eq] at he
    have hpark : .parked k s₁ ∈ new := (mem_slotActs.1 (by rw [he]; simp)).1
    refine .inr ⟨hrests.disconnectMs.trans (hstamps _ hpark), ?_⟩
    rw [he]
    simp [Act.detaches]

/-- **What a tick at `T` does**, by what is due. -/
structure Ticked (P : Params Ctx) (T : Nat) (σ σ' : Broker Ctx) : Prop where
  turn : Turn (fun _ => False) σ σ'
  now : σ'.nowMs = toU32 T
  timeouts : (actsSince σ σ').filterMap Act.timesOut =
    ((List.range P.T.maxConnections).filter (fun j => (σ.conns j).due P.T (toU32 T))).reverse
  closed : ∀ ci, (σ.conns ci).due P.T (toU32 T) = true → (σ'.conns ci).active = false
  expiries : ∀ k, k ∈ (actsSince σ σ').filterMap Act.expires ↔
    ∃ s, σ.sessions.slot k = some s ∧ s.expired P.T (toU32 T) = true
  offline : ∀ k s, σ.sessions.slot k = some s → s.conn = noConn →
    (σ'.sessions.slot k = none ↔ s.expired P.T (toU32 T) = true)
  online : ∀ k s, σ.sessions.slot k = some s → s.conn ≠ noConn → σ'.sessions.slot k = none →
    s.cleanSession = true ∧ (σ'.conns s.conn).active = false

/-- What `expire_sessions` finds expired was so when the tick began. -/
theorem TickFlushed.expiring {T : Nat} {σ₁ : Broker Ctx} (h : TickFlushed P (toU32 T) σ σ₁) (hs : Sound P σ)
    (k : Nat) : σ₁.expiring P (toU32 T) k = true ↔ ∃ s, σ.sessions.slot k = some s ∧
      s.expired P.T (toU32 T) = true := by
  have hoff : ∀ {s : Session Ctx}, s.expired P.T (toU32 T) = true → s.conn = noConn := by
    intro s he
    simp only [Session.expired, Bool.and_eq_true] at he
    simpa [Session.connected] using he.1.1
  have hsame : ∀ {s s' : Session Ctx}, s.conn = s'.conn → s.disconnectMs = s'.disconnectMs →
      s.expired P.T (toU32 T) = s'.expired P.T (toU32 T) := by
    intro s s' hc hd
    simp only [Session.expired, Session.connected, hc, hd]
  rw [Broker.expiring, Option.any_eq_true]
  refine ⟨fun he => ?_, fun he => ?_⟩
  · obtain ⟨s₁, hs₁, hexp⟩ := he
    have hno₁ := hoff hexp
    rcases h.turn.stamp h.stepped.evolve h.stepped.sound.linked hs₁ hno₁ with ⟨s, hs, hno, hms, -⟩ | ⟨hms, -⟩
    · exact ⟨s, hs, by rw [← hsame (hno₁.trans hno.symm) hms]; exact hexp⟩
    · rw [h.now] at hms
      rw [expired_of_stamped hms] at hexp
      cases hexp
  · obtain ⟨s, hs', hexp⟩ := he
    have hno := hoff hexp
    have hclean := ((hs.linked.offline k s hs' hno).resolve_left (by simp)).1
    obtain ⟨s₁, hs₁⟩ := h.stays k s hs' hclean
    obtain ⟨new, htrace, -, hacts⟩ := h.acts
    have hfree := detach_free (h.stepped.evolve.slots k) (fun s₀ h₀ => by rw [hs'] at h₀; cases h₀; exact hno)
      (slotActs k new) (by rw [htrace, slotActs_append]) (fun a ha => (hacts a (mem_slotActs.1 ha).1).2)
    have hno₁ := hfree.1 s₁ hs₁
    rcases h.turn.stamp h.stepped.evolve h.stepped.sound.linked hs₁ hno₁ with ⟨s₀, hs₀, hno₀, hms, -⟩ | ⟨-, hd⟩
    · rw [hs'] at hs₀
      cases hs₀
      exact ⟨s₁, hs₁, by rw [hsame (hno₁.trans hno.symm) hms]; exact hexp⟩
    · rw [actsSince_eq htrace, ← any_detaches_slotActs] at hd
      obtain ⟨a, ha, hda⟩ := List.any_eq_true.1 hd
      obtain ⟨ci, rfl⟩ := a.eq_detach hda
      exact absurd ha (hfree.2 ci)

theorem tick_ticked (h : Sound P σ) (T : Nat) : Ticked P T σ (σ.tick P (toU32 T)) := by
  have hflushed := tickFlushed_spec h (toU32 T)
  rw [tick_eq]
  generalize (tickLoops P (toU32 T) σ).flushDead P = σ₁ at hflushed ⊢
  obtain ⟨new, htrace, houts, hnew⟩ := hflushed.acts
  have hL₁ := hflushed.stepped.sound.linked
  obtain ⟨hslots, e, he, hexps, hacts⟩ := expireSessions_discards hL₁.slot_lt (toU32 T)
  obtain ⟨hconns, hnow⟩ := expireSessions_frame (P := P) (toU32 T) σ₁
  have hexpiring := hflushed.expiring h
  generalize σ₁.expireSessions P (toU32 T) = σ' at hslots he hconns hnow ⊢
  have hall : σ'.trace = (e ++ new) ++ σ.trace := by rw [he, htrace, List.append_assoc]
  have hturn : Turn (fun _ => False) σ₁ σ' :=
    ⟨fun j _ hact => by rw [hconns] at hact ⊢; exact ⟨hact, .refl _⟩, e, he,
      fun a ha => a.stampedAt_of_ticket (hacts a ha).2⟩
  refine ⟨hflushed.turn.trans hturn hnow, hnow.trans hflushed.now, ?_, fun ci hdue => ?_, fun k => ?_,
    fun k s hs hno => ?_, fun k s hs hon hgone => ?_⟩
  · rw [actsSince_eq hall, List.filterMap_append, houts, List.filterMap_eq_nil_iff.2 (fun a ha => (hacts a ha).1)]
    rfl
  · rw [hconns]
    exact hflushed.closed ci hdue
  · rw [actsSince_eq hall, List.filterMap_append, hexps, List.filterMap_eq_nil_iff.2 (fun a ha => (hnew a ha).1),
      List.append_nil, List.mem_reverse, List.mem_filter, hexpiring, List.mem_range]
    exact ⟨And.right, fun hk => ⟨by obtain ⟨s, hs, -⟩ := hk; exact h.linked.slot_lt k s hs, hk⟩⟩
  · have hclean := ((h.linked.offline k s hs hno).resolve_left (by simp)).1
    obtain ⟨s₁, hs₁⟩ := hflushed.stays k s hs hclean
    have hone : (∃ s', σ.sessions.slot k = some s' ∧ s'.expired P.T (toU32 T) = true) ↔
        s.expired P.T (toU32 T) = true := by
      rw [hs]
      simp
    rw [hslots, ← hone, ← hexpiring, hs₁]
    cases σ₁.expiring P (toU32 T) k <;> simp
  · have hno₁ : σ₁.expiring P (toU32 T) k ≠ true := by
      rw [Ne, hexpiring]
      rintro ⟨s', hs', hexp⟩
      rw [hs] at hs'
      cases hs'
      simp [Session.expired, Session.connected, hon] at hexp
    rw [hslots, if_neg hno₁] at hgone
    refine ⟨?_, Bool.eq_false_iff.2 (fun hact => ?_)⟩
    · refine Bool.eq_true_of_not_eq_false (fun hclean => ?_)
      obtain ⟨s₁, hs₁⟩ := hflushed.stays k s hs hclean
      rw [hgone] at hs₁
      cases hs₁
    · rw [hconns] at hact
      have hk := hflushed.session s.conn hact
      rw [(h.linked.of_session k s hs hon).2] at hk
      obtain ⟨s₁, hs₁, -⟩ := hL₁.of_conn s.conn (by rw [hk]; exact h.linked.slot_ne_noSession hs)
      rw [hk, hgone] at hs₁
      cases hs₁

end Minimosq
