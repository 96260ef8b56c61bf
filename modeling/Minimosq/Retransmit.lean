import Minimosq.Resume
/-!
# Retransmission, from the CONNECT to a tick

A connection that is up at the return of an entry point has been resumed (`Alive`), and a tick whose sends are all taken
leaves no PUBREL marked for repetition on it.  Together with what the resumption leaves to do, every message that was in
flight has then gone out again, unless `resume_session` gave up on one that nobody repeats.
-/
namespace Minimosq

open History (Star since Each)

variable {Ctx : Type} {P : Params Ctx} {k : Nat}

/-! ## A connection that is up has been resumed -/

/-- The CONNECT that resumed the session last is done resuming it. -/
def Ready (k : Nat) (h : Trace Ctx) : Prop :=
  ∀ ci b, lastConnect h = some (.bind k ci b true) → .resumed k true ∈ episode h

/-- Every session on a connection that was not given up on is done resuming. -/
def Alive (σ : Broker Ctx) : Prop :=
  ∀ k s, σ.sessions.slot k = some s → s.conn ≠ noConn →
    (σ.conns s.conn).dead = true ∨ Ready k (slotActs k σ.trace)

theorem Ready.append {acts h : Trace Ctx} (hacts : ∀ a ∈ acts, a.isBind = false) (hr : Ready k h) :
    Ready k (acts ++ h) := by
  intro ci b hc
  rw [lastConnect_append hacts] at hc
  rw [episode_append hacts]
  exact List.mem_append_right _ (hr ci b hc)

section
variable {σ σ' : Broker Ctx}

theorem Serves.alive (hs : Serves P σ σ') (hdead : StaysDead σ σ') (h : Alive σ) : Alive σ' := by
  intro k s' hs' hon
  obtain ⟨s, hsk, hf⟩ := Serve.frame_of_some' (hs k) hs'
  have hconn := Session.conn_eq_of_frame hf
  rw [hconn] at hon ⊢
  rcases h k s hsk hon with hd | hr
  · exact .inl (hdead k s s' hsk hs' hconn hon hd)
  · refine .inr ((hs k).inv (fun h _ => Ready k h) ?_ hr)
    rintro h _ acts _ hr ⟨_, _, -, -, d⟩
    exact hr.append d.not_bind

theorem SlotStep.alive {j : Nat} {h acts : Trace Ctx} {o o' : Option (Session Ctx)} (one : SlotStep P j h o acts o')
    (dead dead' : Nat → Prop) (hI : ∀ s, o = some s → s.conn ≠ noConn → dead s.conn ∨ Ready j h)
    (hdead : ∀ s s', o = some s → o' = some s' → s'.conn = s.conn → s.conn ≠ noConn → dead s.conn → dead' s.conn)
    (hdown : .resumed j false ∈ acts → ∀ s', o' = some s' → dead' s'.conn) :
    ∀ s', o' = some s' → s'.conn ≠ noConn → dead' s'.conn ∨ Ready j (acts ++ h) := by
  have hkeep : ∀ {s s' : Session Ctx}, o = some s → o' = some s' → s'.conn = s.conn → (∀ a ∈ acts, a.isBind = false) →
      s'.conn ≠ noConn → dead' s'.conn ∨ Ready j (acts ++ h) := by
    intro s s' hs hs' hconn hacts hon
    rw [hconn] at hon ⊢
    exact (hI s hs hon).imp (hdead s s' hs hs' hconn hon) (fun hr => hr.append hacts)
  cases one with
  | serve d =>
    rintro _ ⟨⟩ hon
    exact hkeep rfl rfl (Session.conn_eq_of_frame d.frame) d.not_bind hon
  | bind =>
    rintro _ ⟨⟩ _
    refine .inr (fun ci b hc => ?_)
    cases hc
  | @resume s s' new ci p ctx e up =>
    rintro _ ⟨⟩ _
    cases up with
    | false => exact .inl (hdown List.mem_cons_self _ rfl)
    | true =>
      refine .inr (fun ci b _ => ?_)
      rw [List.cons_append, episode, History.since_cons rfl]
      exact List.mem_cons_self
  | disconnect =>
    rintro _ ⟨⟩ hon
    exact hkeep rfl rfl rfl (by simp [Act.isBind]) hon
  | alloc | detach =>
    rintro _ ⟨⟩ hon
    exact absurd rfl hon
  | submit _ _ _ hoff =>
    rintro _ ⟨⟩ hon
    exact absurd hoff hon
  | release => simp

theorem Move.alive (m : Move P σ σ') (h : Alive σ) : Alive σ' := by
  cases m with
  | aside sessions _ trace hacts dead =>
    intro k s hs hon
    have hs₀ : σ.sessions.slot k = some s := by rw [← sessions]; exact hs
    rw [trace, slotActs_skip (fun a ha => by simp [(hacts a ha).1])]
    exact (h k s hs₀ hon).imp_left (dead k s s hs₀ hs rfl hon)
  | @slot j acts o' sessions _ trace hacts one _ dead down =>
    intro k s' hs' hon
    rw [trace, slotActs_append]
    by_cases hk : k = j
    · subst hk
      have hs'k := hs'
      rw [sessions, Function.update_self] at hs'k
      refine one.alive (fun i => (σ.conns i).dead = true) (fun i => (σ'.conns i).dead = true) (h k)
        (fun s s₁ hs hs₁ => dead k s s₁ hs (by rw [sessions, Function.update_self, hs₁])) (fun hin => ?_) s' hs'k hon
      exact down (mem_slotActs.1 hin).1
    · have hother : ∀ a ∈ acts, a.slot ≠ some k := by
        intro a ha
        rcases hacts a ha with h | h
        · simp [h.1, Ne.symm hk]
        · simp [h.1]
      have hs₀ := hs'
      rw [sessions, Function.update_of_ne hk] at hs₀
      rw [slotActs_eq_nil hother, List.nil_append]
      exact (h k s' hs₀ hon).imp_left (dead k s' s' hs₀ hs' rfl hon)
  | retain _ _ _ _ _ conns _ _ serves => exact serves.alive (.of_conns (fun _ hd => by rw [conns]; exact hd)) h
  | subscribe _ _ _ _ _ serves dead => exact serves.alive dead h
  | unsubscribe _ _ _ eq serves => exact serves.alive (.of_conns (fun _ hd => by rw [eq]; exact hd)) h
  | replay k hs eq serves =>
    refine serves.alive (.of_conns (fun _ hd => ?_)) h
    rw [eq, Broker.onSession, hs]
    exact hd

theorem Evolve.alive (hE : Evolve P σ σ') (h : Alive σ) : Alive σ' := by
  induction hE with
  | refl => exact h
  | tail _ m ih => exact m.alive ih

theorem init_alive : Alive (.init : Broker Ctx) := fun k s hs => by cases hs

end

/-! ## What a tick pumps -/

/-- The transport refused a packet. -/
def Act.refused : Act Ctx → Bool
  | .send _ _ false _ => true
  | _ => false

/-- Everything up to a queued entry needs nothing more. -/
def Pumped (s : Session Ctx) : Prop := ∃ i, Before s i Settled ∧ ∀ m, s.pending[i]? = some m → m.state = .queued

theorem Pumped.unmarked {s : Session Ctx} (hok : QueueOk P.T s) (h : Pumped s) :
    ∀ m ∈ s.pending, m.state = .awaitingPubcomp → m.resendPubrel = false := by
  obtain ⟨i, hbefore, hat⟩ := h
  intro m hm hst
  obtain ⟨j, hj, rfl⟩ := List.getElem_of_mem hm
  by_cases hlt : j < i
  · exact (hbefore j hlt _ (List.getElem?_eq_getElem hj)).2 hst
  · have hi : i < s.pending.length := (Nat.not_lt.1 hlt).trans_lt hj
    have hq := hat _ (List.getElem?_eq_getElem hi)
    have hqj : s.pending[j].state = .queued := by
      rcases Nat.eq_or_lt_of_le (Nat.not_lt.1 hlt) with rfl | hij
      · exact hq
      · exact (List.pairwise_iff_getElem.1 hok.pairs i j hi hj hij).split hq
    rw [hqj] at hst
    cases hst

/-- **`pump_session` on a live connection** is refused, or leaves everything up to a queued entry settled. -/
theorem pumpSession_pumped (P : Params Ctx) (conns : Nat → Conn) (k : Nat) (w : Work Ctx)
    (hon : online P.T conns w.1 = true) (hact : (conns w.1.conn).active = true) :
    (∃ new, (pumpSession P conns k w).2 = new ++ w.2 ∧ ∃ a ∈ new, a.refused = true) ∨
      Pumped (pumpSession P conns k w).1 := by
  refine queueLoop_rule (fun i w' => Works P conns (DRun P k) k w w' ∧ Before w'.1 i Settled)
    (fun w' => (∃ new, w'.2 = new ++ w.2 ∧ ∃ a ∈ new, a.refused = true) ∨ Pumped w'.1)
    (fun i w' h hm => .inr ⟨i, h.2, fun m hm' => by rw [hm] at hm'; cases hm'⟩)
    (fun i m w' h hm => ?_) _ 0 w ⟨.refl _ _ _ _, .zero _ _⟩ (by omega)
  obtain ⟨hworks, hbefore⟩ := h
  have hconn : w'.1.conn = w.1.conn := Session.conn_eq_of_frame hworks.deliver.frame
  obtain ⟨hturn, hstop, hgo⟩ := pumpTurn_spec P conns k (t := w'.2) hbefore hm
  refine ⟨fun hnone => ?_, fun j hj => ⟨⟨hworks.trans hturn, (hgo j hj).1⟩, (hgo j hj).2⟩⟩
  rcases hstop hnone (by rw [online_congr hconn]; exact hon) (by rw [hconn]; exact hact) with ⟨pkt, tag, he⟩ | ⟨he, hq⟩
  · obtain ⟨-, new, hnew, -, -⟩ := hworks
    exact .inl ⟨.send w'.1.conn pkt false tag :: new, by rw [he, hnew]; rfl, _, List.mem_cons_self, rfl⟩
  · refine .inr ⟨i, by rw [he]; exact hbefore, fun m' hm' => ?_⟩
    rw [he, hm] at hm'
    cases hm'
    exact hq

section
variable {σ : Broker Ctx} {s : Session Ctx}

theorem online_of_alive {conns : Nat → Conn} (hlt : s.conn < P.T.maxConnections) (hdead : (conns s.conn).dead = false) :
    online P.T conns s = true := by
  have hidx : connIndex P.T s = s.conn := by simp [connIndex, Session.connected, hlt, ne_noConn_of_lt hlt]
  simp [online, connOfSession, hidx, hlt, hdead]

theorem pumpOne_pumped (hL : Linked P none σ) (hs : σ.sessions.slot k = some s) (hon : s.conn ≠ noConn)
    (hdead : (σ.conns s.conn).dead = false) : ∃ s', (σ.pumpOne P k).sessions.slot k = some s' ∧
      ((∃ new, (σ.pumpOne P k).trace = new ++ σ.trace ∧ ∃ a ∈ new, a.refused = true) ∨ Pumped s') := by
  have hlt := hL.conn_lt hs hon
  have hskip : ¬ (!s.connected || decide (P.T.maxConnections ≤ s.conn) || (σ.conns s.conn).dead) = true := by
    simp [Session.connected, hon, hdead, hlt]
  simp only [Broker.pumpOne, hs, if_neg hskip]
  generalize hσ₁ : (if s.anyRetainPending = true then
    σ.onSession k (replayRetained P σ.conns s.conn k (σ.retained.toList P.T.maxRetained)) else σ) = σ₁
  have h₁ : ∃ s₁ new, σ₁.sessions.slot k = some s₁ ∧ s₁.conn = s.conn ∧ σ₁.trace = new ++ σ.trace := by
    rw [← hσ₁]
    split
    · have hw := replayRetained_works P σ.conns k (σ.retained.toList P.T.maxRetained) (s, σ.trace) hon (fun e he => by
        obtain ⟨r, hr⟩ := mem_toList he
        exact hL.retained r e hr)
      obtain ⟨-, new, he, -, -⟩ := id hw
      simp only [Broker.onSession, hs]
      exact ⟨_, new, Function.update_self .., hw.conn, he⟩
    · exact ⟨s, [], hs, rfl, rfl⟩
  obtain ⟨s₁, new₁, hs₁, hconn, htrace⟩ := h₁
  simp only [Broker.onSession, hs₁]
  refine ⟨_, Function.update_self .., ?_⟩
  rcases pumpSession_pumped P σ.conns k (s₁, σ₁.trace)
    (online_of_alive (by rw [hconn]; exact hlt) (by rw [hconn]; exact hdead))
    (by rw [hconn]; exact (hL.of_session k s hs hon).1) with ⟨new, he, a, ha, hr⟩ | hp
  · exact .inl ⟨new ++ new₁, by rw [he, htrace, List.append_assoc], a, List.mem_append_left _ ha, hr⟩
  · exact .inr hp

/-- `expire_sessions` only takes sessions away, and accepts no CONNECT. -/
theorem expireSessions_spec (nowMs : Nat) (σ : Broker Ctx) : Grows (Act.Still P) σ (σ.expireSessions P nowMs) ∧
      ∀ k s, (σ.expireSessions P nowMs).sessions.slot k = some s → σ.sessions.slot k = some s := by
  have hone : ∀ (σ : Broker Ctx) j, Grows (Act.Still P) σ (σ.expireOne P nowMs j) ∧
      ∀ k s, (σ.expireOne P nowMs j).sessions.slot k = some s → σ.sessions.slot k = some s := by
    intro σ j
    unfold Broker.expireOne
    split
    · exact ⟨.refl σ, fun _ _ h => h⟩
    split
    · exact ⟨.refl σ, fun _ _ h => h⟩
    split
    · rename_i s _ _ _
      refine ⟨⟨[.release j, .event _ (some j)], rfl, ?_⟩, fun k s h => ?_⟩
      · simpa using ⟨⟨trivial, rfl, rfl⟩, ⟨trivial, rfl, rfl⟩⟩
      exact slot_of_released (P := P) (σ := σ.emit _) h
    · exact ⟨.refl σ, fun _ _ h => h⟩
  have hfold : ∀ (l : List Nat) (σ : Broker Ctx), Grows (Act.Still P) σ (l.foldl (Broker.expireOne P nowMs) σ) ∧
      ∀ k s, (l.foldl (Broker.expireOne P nowMs) σ).sessions.slot k = some s → σ.sessions.slot k = some s := by
    intro l
    induction l with
    | nil => exact fun σ => ⟨.refl σ, fun _ _ h => h⟩
    | cons j l ih =>
      intro σ
      obtain ⟨hg, hs⟩ := ih (σ.expireOne P nowMs j)
      exact ⟨(hone σ j).1.trans hg, fun k s h => (hone σ j).2 k s (hs k s h)⟩
  unfold Broker.expireSessions
  split
  · exact ⟨.refl σ, fun _ _ h => h⟩
  · exact hfold _ σ

/-- **The visit of the session loop to slot `k`**, whose session is on a live connection when the loops have ended: it
was on it all along, and the connection alive. -/
theorem tickLoops_visit (hL : Linked P none σ) (nowMs : Nat) {s' : Session Ctx}
    (hs' : (tickLoops P nowMs σ).sessions.slot k = some s') (hon : s'.conn ≠ noConn)
    (halive : ((tickLoops P nowMs σ).conns s'.conn).dead = false) :
    ∃ (l r : List Nat) (σa : Broker Ctx) (s s₁ : Session Ctx), k ∉ l ∧ k ∉ r ∧
      l.foldl (Broker.pumpOne P) (timedOut P nowMs σ) = σa ∧
      tickLoops P nowMs σ = r.foldl (Broker.pumpOne P) (σa.pumpOne P k) ∧
      Quiet P (fun _ => True) { σ with nowMs := nowMs } σa ∧ σa.sessions.slot k = some s ∧ s.conn = s'.conn ∧
      (σa.conns s.conn).dead = false ∧ (σa.pumpOne P k).sessions.slot k = some s₁ ∧ s₁.conn = s'.conn ∧
      ((σa.pumpOne P k).conns s₁.conn).dead = false := by
  have hL₀ : Linked P none { σ with nowMs := nowMs } := { hL with }
  have hk : k < P.T.maxSessions := (hL₀.quiet (quiet_tickLoops nowMs hL.retained)).slot_lt k s' hs'
  obtain ⟨l, r, hlr⟩ := List.append_of_mem (List.mem_range.2 hk)
  have hnodup : (l ++ k :: r).Nodup := hlr ▸ List.nodup_range
  rw [List.nodup_append, List.nodup_cons] at hnodup
  obtain ⟨-, ⟨hkr, -⟩, hdisjoint⟩ := hnodup
  have hkl : k ∉ l := fun hkl => hdisjoint k hkl k List.mem_cons_self rfl
  have hloops : tickLoops P nowMs σ =
      r.foldl (Broker.pumpOne P) ((l.foldl (Broker.pumpOne P) (timedOut P nowMs σ)).pumpOne P k) := by
    rw [tickLoops, hlr, List.foldl_append, List.foldl_cons]
  have qt := quiet_timedOut (P := P) nowMs σ
  have qa := qt.trans (quiet_pumpAll l (qt.retained hL₀.retained))
  generalize hσa : l.foldl (Broker.pumpOne P) (timedOut P nowMs σ) = σa at hloops qa
  have hLa := hL₀.quiet qa
  have q₁ := quiet_pumpOne (P := P) (fun _ => True) σa k hLa.retained
  have qb := quiet_pumpAll (P := P) r (hLa.quiet q₁).retained
  rw [hloops] at hs' halive
  obtain ⟨s₁, hs₁, hf₁⟩ := qb.frame' hs'
  obtain ⟨s, hs, hf⟩ := q₁.frame' hs₁
  have hc₁ := Session.conn_eq_of_frame hf₁
  have hc := Session.conn_eq_of_frame hf
  have hdead₁ : ((σa.pumpOne P k).conns s₁.conn).dead = false := Bool.eq_false_iff.2 fun hd => by
    rw [hc₁, qb.staysDead k s₁ s' hs₁ hs' hc₁ (hc₁ ▸ hon) hd] at halive
    cases halive
  have hdead : (σa.conns s.conn).dead = false := Bool.eq_false_iff.2 fun hd => by
    rw [hc, q₁.staysDead k s s₁ hs hs₁ hc (by rw [← hc, ← hc₁]; exact hon) hd] at hdead₁
    cases hdead₁
  exact ⟨l, r, σa, s, s₁, hkl, hkr, hσa, hloops, qa, hs, hc.symm.trans hc₁.symm, hdead, hs₁, hc₁.symm, hdead₁⟩

/-- **A tick whose sends are all taken pumps every session that is still up**, and accepts no CONNECT after that. -/
theorem tick_pumped (h : Sound P σ) (nowMs : Nat) {s' : Session Ctx} (hs' : (σ.tick P nowMs).sessions.slot k = some s')
    (hon : s'.conn ≠ noConn) (hcalm : ∀ a ∈ actsSince σ (σ.tick P nowMs), a.refused = false) :
    ∃ σ₁ s₁, Evolve P σ σ₁ ∧ Grows (Act.Still P) σ₁ (σ.tick P nowMs) ∧ σ₁.sessions.slot k = some s₁ ∧ s₁.conn ≠ noConn ∧
      (σ₁.conns s₁.conn).dead = false ∧ Pumped s₁ := by
  have hL₀ : Linked P none { σ with nowMs := nowMs } := { h.linked with }
  have hLb : Linked P none (tickLoops P nowMs σ) := hL₀.quiet (quiet_tickLoops nowMs h.linked.retained)
  have hF := flushDead_flush hLb
  obtain ⟨hgx, hslot⟩ := expireSessions_spec (P := P) nowMs ((tickLoops P nowMs σ).flushDead P)
  rw [tick_eq] at hs' hcalm ⊢
  have hsf := hslot k s' hs'
  obtain ⟨sb, hsb, -, hcb⟩ := hF.sessions k s' hsf
  have hcb : s'.conn = sb.conn := hcb.resolve_left hon
  have hdeadb : ((tickLoops P nowMs σ).conns sb.conn).dead = false :=
    Bool.eq_false_iff.2 fun hd => hon (flushDead_offline hLb hsb rfl hd hsf)
  obtain ⟨l, r, σa, s, s₁, -, -, -, hloops, qa, hs, hc, hdead, hs₁, hc₁, hdead₁⟩ :=
    tickLoops_visit h.linked nowMs hsb (hcb ▸ hon) hdeadb
  have hLa := hL₀.quiet qa
  have q₁ := quiet_pumpOne (P := P) (fun _ => True) σa k hLa.retained
  have hona : s.conn ≠ noConn := by rw [hc, ← hcb]; exact hon
  have hg : Grows (Act.Still P) (σa.pumpOne P k) (((tickLoops P nowMs σ).flushDead P).expireSessions P nowMs) := by
    refine ((quiet_pumpAll (P := P) r (hLa.quiet q₁).retained).grows.trans ?_).trans hgx
    rw [← hloops]
    exact hF.grows
  refine ⟨_, s₁, ((Course.clock σ nowMs).evolve.trans qa.evolve).trans q₁.evolve, hg, hs₁,
    by rw [hc₁, ← hcb]; exact hon, hdead₁, ?_⟩
  obtain ⟨s₁', hs₁', hp⟩ := pumpOne_pumped hLa hs hona hdead
  rw [hs₁] at hs₁'
  cases hs₁'
  refine hp.resolve_left (fun ⟨new, he, a, ha, hr⟩ => ?_)
  obtain ⟨x, hx, -⟩ := hg
  obtain ⟨y, hy, -⟩ := qa.grows
  have hall : (((tickLoops P nowMs σ).flushDead P).expireSessions P nowMs).trace = (x ++ (new ++ y)) ++ σ.trace := by
    rw [hx, he, hy]
    simp
  rw [actsSince_eq hall] at hcalm
  have := hcalm a (by simp [ha])
  rw [hr] at this
  cases this

end

/-! ## Retransmission is complete and in order -/

/-- **After a tick without a refusal, everything in flight has been sent again, and in order.**  A CONNECT found session
`k` as `b` and resumed it on connection `ci`, and the connection is up when the tick returns.  If no retransmission of
the resumption was refused, but perhaps the last, if it is a PUBREL, then every entry that was in flight and was not
acknowledged since has been taken by the transport on this connection, before anything that follows it in the queue. -/
theorem run_resume_retransmits (P : Params Ctx) (inputs : List Input) (now k ci : Nat) (b : Session Ctx)
    (hconnect : lastConnect (slotActs k (run P (inputs ++ [.tick now])).trace) = some (.bind k ci b true))
    (hup : (run P (inputs ++ [.tick now])).Up P k ci)
    (hcalm : ∀ a ∈ actsSince (run P inputs) (run P (inputs ++ [.tick now])), a.refused = false)
    (htaken : ResumeTaken b (episode (slotActs k (run P (inputs ++ [.tick now])).trace))) :
    ∀ m ∈ b.pending, m.state ≠ .queued → ¬ Acked k m (episode (slotActs k (run P (inputs ++ [.tick now])).trace)) →
      Resent P.T k ci m (episode (slotActs k (run P (inputs ++ [.tick now])).trace)) ∧
      ∀ newer a older, episode (slotActs k (run P (inputs ++ [.tick now])).trace) = newer ++ a :: older →
        ∀ n, m.seq < n → a.took n = true → Resent P.T k ci m older := by
  have hfinal := run_slot P (inputs ++ [.tick now]) k
  obtain ⟨s', hs', hci, hne⟩ := (run_stepped P (inputs ++ [.tick now])).sound.linked.up_iff.1 hup
  have hstep : run P (inputs ++ [.tick now]) = (run P inputs).tick P now := run_snoc P inputs (.tick now)
  generalize run P (inputs ++ [.tick now]) = σ' at *
  obtain ⟨σ₁, s₁, hE, ⟨acts, htrace, hstill⟩, hs₁, hon₁, hdead₁, hpump⟩ := tick_pumped (run_stepped P inputs).sound now
    (hstep ▸ hs') (by rw [hci]; exact hne) (hstep ▸ hcalm)
  have hslots : slotActs k σ'.trace = slotActs k acts ++ slotActs k σ₁.trace := by
    rw [hstep, htrace, slotActs_append]
  have hE₁ : Evolve P .init σ₁ := (run_stepped P inputs).evolve.trans hE
  have hrun₁ : SlotRun P k (slotActs k σ₁.trace) (σ₁.sessions.slot k) := hE₁.slots k
  rw [hs₁] at hrun₁
  rw [hslots] at hconnect htaken hfinal ⊢
  have hacts : ∀ a ∈ slotActs k acts, a.isBind = false := fun a ha => (hstill a (mem_slotActs.1 ha).1).not_bind
  -- The resumption, as it stands when the tick has visited the session.
  have hconnect₁ : lastConnect (slotActs k σ₁.trace) = some (.bind k ci b true) := by
    rw [← lastConnect_append hacts]
    exact hconnect
  have hready : .resumed k true ∈ episode (slotActs k σ₁.trace) := by
    refine (hE₁.alive init_alive k s₁ hs₁ hon₁).resolve_left (fun hd => ?_) ci b hconnect₁
    rw [hdead₁] at hd
    cases hd
  have hep := episode_append (h := slotActs k σ₁.trace) hacts
  rw [hep] at htaken ⊢
  obtain ⟨-, hafter⟩ := hrun₁.resumption s₁ rfl hon₁ ci b hconnect₁ hready htaken.of_append
  obtain ⟨-, hend⟩ := hfinal.resumption s' hs' (by rw [hci]; exact hne) ci b hconnect
    (by rw [hep]; exact List.mem_append_right _ hready) (by rw [hep]; exact htaken)
  intro m hm hst hacked
  have hnot : ∀ newer older, slotActs k acts ++ episode (slotActs k σ₁.trace) = newer ++ older → ¬ Acked k m older := by
    intro newer older he h
    rw [he] at hacked
    exact hacked (h.append newer)
  refine ⟨?_, fun newer a older he n hn ht => ?_⟩
  · rcases hafter.due m hm hst (hnot _ _ rfl) with hres | hstand
    · exact hres.append _
    · obtain ⟨m', hm', -, hst', hmark⟩ := hstand.marked
      rw [hpump.unmarked (hrun₁.flies s₁ rfl).1 m' hm' hst'] at hmark
      cases hmark
  · have horder := hend.order m hm hst
    rw [hep] at horder
    refine (History.each_iff.1 horder newer a older he n hn ht).resolve_left (hnot (newer ++ [a]) older ?_)
    rw [he, List.append_assoc, List.singleton_append]

/-! ## A refused retransmission -/

def Act.resumes : Act Ctx → Bool
  | .bind _ _ _ present => present
  | _ => false

/-- A transport that refuses one packet: the first that starts with `first` after a session was resumed. -/
def busyOnce (first : UInt8) : Trace Unit → Nat → Bytes → Bool :=
  fun t _ pkt => pkt.head? != some first || !t.any Act.resumes || t.any Act.refused

/-- A client gets a QoS 1 and a QoS 2 message, acknowledges the second with PUBREC and goes away; a third is queued, and
the client comes back. -/
def comeBack : List Input :=
  Input.connect 0 [99] { clean := false } ++
    [.feed 0 (Wire.makeSubscribe 1 [([97], 2)]), .publish [97] [1] .atLeastOnce false,
      .publish [97] [2] .exactlyOnce false, .feed 0 (Wire.makeAck .pubrec 2), .connClosed 0,
      .publish [97] [3] .atLeastOnce false] ++
    Input.connect 0 [99] { clean := false }

/-- The session the second CONNECT of `comeBack` finds. -/
def comeBackSession : Session Unit :=
  { clientId := [99], subs := [{ filter := [97], granted := .exactlyOnce }],
    pending :=
      [{ topic := [97], payload := [1], packetId := 1, state := .awaitingPuback },
        { topic := [97], payload := [2], packetId := 2, qos := .exactlyOnce, state := .awaitingPubcomp, seq := 1 },
        { topic := [97], payload := [3], seq := 2 }],
    lastPacketId := 2, cleanSession := false, conn := 0, disconnectMs := 1000, disconnectOrder := 1, authCtx := (),
    nextSeq := 3 }

/-- The PUBREL of the resumption is refused, and the tick repeats it. -/
theorem resume_retransmits_refused_pubrel : let P := bed (busyOnce 0x62)
    let σ := run P (comeBack ++ [.tick 1000])
    ResumeTaken comeBackSession (episode (slotActs 0 σ.trace)) ∧
    (∃ a ∈ (run P comeBack).trace, a.refused = true) ∧
    ∀ m ∈ comeBackSession.pending, m.state ≠ .queued → ¬ Acked 0 m (episode (slotActs 0 σ.trace)) →
      Resent P.T 0 0 m (episode (slotActs 0 σ.trace)) := by
  intro P σ
  have htaken : ResumeTaken comeBackSession (episode (slotActs 0 σ.trace)) := by decide +kernel
  have h := run_resume_retransmits P comeBack 1000 0 0 comeBackSession (by decide +kernel) (by decide +kernel)
    (by decide +kernel) htaken
  exact ⟨htaken, by decide +kernel, fun m hm hst hack => (h m hm hst hack).1⟩

/-- **A refused PUBLISH is stranded**: `resume_session` stops at it, and `pump_session` only looks at queued entries and
at marked PUBRELs.  The tick takes the queued message past it. -/
theorem resume_strands_refused_publish : let P := bed (busyOnce 0x3A)
    let σ := run P (comeBack ++ [.tick 1000])
    lastConnect (slotActs 0 σ.trace) = some (.bind 0 0 comeBackSession true) ∧ σ.Up P 0 0 ∧
    (∀ a ∈ actsSince (run P comeBack) σ, a.refused = false) ∧
    (∃ m ∈ comeBackSession.pending, m.state ≠ .queued ∧ ¬ Acked 0 m (episode (slotActs 0 σ.trace)) ∧
      ¬ Resent P.T 0 0 m (episode (slotActs 0 σ.trace))) ∧
    ∃ a ∈ episode (slotActs 0 σ.trace), a.took 2 = true := by
  intro P σ
  exact ⟨by decide +kernel, by decide +kernel, by decide +kernel, by decide +kernel, by decide +kernel⟩

end Minimosq
