import Minimosq.Verdicts
/-!
# A broker on its transport

`transport.hpp`: the transport policy, as a machine of its own that the broker calls.  A call into the broker is made
over the state the transport is in: every `send` of that call is answered by the transport as the earlier `send`s and
`close`s of the call left it, and the transport is afterwards what all of them made of it.

A connection that is there before such a call and gone after it was closed on the transport, and no other was: only
`conn_closed` takes a connection away without telling the transport, which knows (`Dealt`).
-/
namespace Minimosq

open History (Star)

variable {Ctx S : Type}

/-- The transport policy: `send` and `close`, on the transport's own state. -/
structure Transport (S : Type) where
  send : S → Nat → Bytes → Bool × S
  close : S → Nat → S

namespace Transport

/-- The state an act of the broker leaves the transport in. -/
def meet (tr : Transport S) (a : Act Ctx) (s : S) : S :=
  match a with
  | .send ci pkt _ _ => (tr.send s ci pkt).2
  | .close ci => tr.close s ci
  | _ => s

/-- The state a transport in `s` is left in by these acts, the oldest of which is the last. -/
def after (tr : Transport S) (s : S) (acts : Trace Ctx) : S := acts.foldr tr.meet s

/-- **A fact the broker's calls keep is kept by all of them.** -/
theorem after_inv (tr : Transport S) (I : S → Prop) (hsend : ∀ s ci pkt, I s → I (tr.send s ci pkt).2)
    (hclose : ∀ s ci, I s → I (tr.close s ci)) {s : S} (hs : I s) : ∀ acts : Trace Ctx, I (tr.after s acts)
  | [] => hs
  | a :: acts => by
    have ih := after_inv tr I hsend hclose hs acts
    cases a with
    | send ci pkt ok tag => exact hsend _ ci pkt ih
    | close ci => exact hclose _ ci ih
    | _ => exact ih

/-- The verdicts of a transport that was in `s` when there were `n` acts. -/
def verdict (tr : Transport S) (s : S) (n : Nat) (t : Trace Ctx) (ci : Nat) (pkt : Bytes) : Bool :=
  (tr.send (tr.after s (t.take (t.length - n))) ci pkt).1

end Transport

/-- The broker over a transport in state `s`. -/
def Params.over (P : Params Ctx) (tr : Transport S) (s : S) (σ : Broker Ctx) : Params Ctx :=
  P.wired (tr.verdict s σ.trace.length)

/-- A broker and its transport. -/
structure System (Ctx S : Type) where
  broker : Broker Ctx
  transport : S

namespace System

/-- The transport does something of its own. -/
def onTransport (f : S → S) (x : System Ctx S) : System Ctx S := ⟨x.broker, f x.transport⟩

/-- The broker has got to `σ`, and its transport to what that made of it. -/
def moved (tr : Transport S) (x : System Ctx S) (σ : Broker Ctx) : System Ctx S :=
  ⟨σ, tr.after x.transport (actsSince x.broker σ)⟩

def connOpen (tr : Transport S) (P : Params Ctx) (ci nowMs : Nat) (x : System Ctx S) : Err × System Ctx S :=
  let r := x.broker.connOpen (P.over tr x.transport x.broker) ci nowMs
  (r.1, x.moved tr r.2)

def connClosed (tr : Transport S) (P : Params Ctx) (ci : Nat) (x : System Ctx S) : System Ctx S :=
  x.moved tr (x.broker.connClosed (P.over tr x.transport x.broker) ci)

def connData (tr : Transport S) (P : Params Ctx) (ci : Nat) (data : Bytes) (nowMs : Nat) (x : System Ctx S) :
    Err × System Ctx S :=
  let r := x.broker.connData (P.over tr x.transport x.broker) ci data nowMs
  (r.1, x.moved tr r.2)

def tick (tr : Transport S) (P : Params Ctx) (nowMs : Nat) (x : System Ctx S) : System Ctx S :=
  x.moved tr (x.broker.tick (P.over tr x.transport x.broker) nowMs)

def publish (tr : Transport S) (P : Params Ctx) (topic payload : Bytes) (qos : QoS) (retain : Bool)
    (x : System Ctx S) : Err × System Ctx S :=
  let r := x.broker.publish (P.over tr x.transport x.broker) topic payload qos retain
  (r.1, x.moved tr r.2)

end System

/-! ## What a call does to the connections -/

/-- `Transport::close(ci)`. -/
def Act.closes (ci : Nat) : Act Ctx → Bool
  | .close j => j == ci
  | _ => false

/-- The transport is told of the end of every connection that is there now. -/
def Told (σ : Broker Ctx) : Prop := ∀ ci, (σ.conns ci).active = true → (σ.conns ci).notifyTransport = true

/-- **The broker as every call leaves it.** -/
structure Steady (P : Params Ctx) (σ : Broker Ctx) : Prop where
  sound : Sound P σ
  told : Told σ

section
variable {P : Params Ctx} {v : Trace Ctx → Nat → Bytes → Bool} {σ σ' : Broker Ctx}

theorem Linked.wired {out : Option Nat} (h : Linked P out σ) : Linked (P.wired v) out σ :=
  ⟨h.active_lt, h.inactive, h.of_conn, h.of_session, h.offline, h.slot_lt, h.unique, h.will, h.retained⟩

theorem Linked.of_wired {out : Option Nat} (h : Linked (P.wired v) out σ) : Linked P out σ :=
  ⟨h.active_lt, h.inactive, h.of_conn, h.of_session, h.offline, h.slot_lt, h.unique, h.will, h.retained⟩

theorem Sound.wired (h : Sound P σ) : Sound (P.wired v) σ := ⟨h.linked.wired, h.flushed, h.parsers⟩

theorem Sound.of_wired (h : Sound (P.wired v) σ) : Sound P σ := ⟨h.linked.of_wired, h.flushed, h.parsers⟩

theorem init_steady (P : Params Ctx) : Steady P (.init : Broker Ctx) := ⟨init_sound P, fun _ h => by cases h⟩

/-- **The life of one connection over a call that is not its transport's**: it ends by `Transport::close`, or not. -/
theorem ends_of_lines {ci : Nat} {h h' new : Trace Ctx} {c c' : Conn} (run : Star (LineStep P ci) h c h' c')
    (hnew : h' = new ++ h) (hin : ∀ a ∈ new, a.indoor = true)
    (htold : c.active = true → c.notifyTransport = true) :
    (c'.active = true → c'.notifyTransport = true) ∧ c'.active = (c.active && !new.any (Act.closes ci)) ∧
      (new.any (Act.closes ci) = true → c.active = true) := by
  refine run.since_inv (fun new c₁ => (c₁.active = true → c₁.notifyTransport = true) ∧
    c₁.active = (c.active && !new.any (Act.closes ci)) ∧ (new.any (Act.closes ci) = true → c.active = true)) ?_ hnew hin
    ⟨htold, by simp, by simp⟩
  rintro _ c₁ new₁ acts c₂ ⟨htold₁, hact₁, hwas⟩ one hacts
  rw [List.any_append]
  cases one with
  | carry d => cases d <;> exact ⟨htold₁, hact₁, hwas⟩
  | tune hsame => exact ⟨by rw [hsame.active, hsame.notify]; exact htold₁, hsame.active.trans hact₁, hwas⟩
  | opened e hkind =>
    have hopen := hacts (.event e none) (List.mem_singleton_self _)
    simp [Act.indoor, hkind] at hopen
  | accept _ _ _ _ _ _ _ hkeep =>
    exact ⟨by rw [hkeep.1, hkeep.2.2]; exact htold₁, hkeep.1.trans hact₁, hwas⟩
  | peer => cases hacts (.peerClosed ci) (List.mem_singleton_self _)
  | ended e hkind hact =>
    have hc : c.active = true := by
      rw [hact₁, Bool.and_eq_true] at hact
      exact hact.1
    rw [if_pos (htold₁ hact)]
    exact ⟨fun h => by (cases h), by simp [Conn.gone, Act.closes], fun _ => hc⟩

theorem any_closes_lineActs (ci : Nat) (new : Trace Ctx) :
    (lineActs ci new).any (Act.closes ci) = new.any (Act.closes ci) := by
  rw [lineActs, History.about, List.any_filter]
  congr 1
  funext a
  cases a <;> simp [Act.line, Act.closes]

/-- **The connections over a call**, those in `own` apart. -/
structure Ends (own : Nat → Prop) (acts : Trace Ctx) (σ σ' : Broker Ctx) : Prop where
  active : ∀ ci, ¬own ci → (σ'.conns ci).active = ((σ.conns ci).active && !acts.any (Act.closes ci))
  was : ∀ ci, acts.any (Act.closes ci) = true → (σ.conns ci).active = true

theorem ends_of_course {new : Trace Ctx} (hC : Course (P.wired v) σ σ') (hnew : σ'.trace = new ++ σ.trace) (ci : Nat)
    (hin : ∀ a ∈ new, a.line = some ci → a.indoor = true) (htold : Told σ) :
    ((σ'.conns ci).active = true → (σ'.conns ci).notifyTransport = true) ∧
      (σ'.conns ci).active = ((σ.conns ci).active && !new.any (Act.closes ci)) ∧
      (new.any (Act.closes ci) = true → (σ.conns ci).active = true) := by
  have hlines : lineActs ci σ'.trace = lineActs ci new ++ lineActs ci σ.trace := by
    rw [hnew]
    exact History.about_append ..
  rw [← any_closes_lineActs ci new]
  refine ends_of_lines (hC.lines ci) hlines (fun a ha => ?_) (htold ci)
  obtain ⟨hmem, hline⟩ := History.mem_about.1 ha
  exact hin a hmem hline

/-- A call that is none of its transport's own. -/
theorem steady_of_stepped (hsteady : Steady P σ) (hst : Stepped (P.wired v) σ σ') (hin : Indoors σ.trace σ'.trace) :
    Steady P σ' ∧ Ends (fun _ => False) (actsSince σ σ') σ σ' := by
  obtain ⟨new, hnew, hnew_in⟩ := hin
  have hends := fun ci => ends_of_course hst.toCourse hnew ci (fun a ha _ => hnew_in a ha) hsteady.told
  rw [actsSince_eq hnew]
  exact ⟨⟨hst.sound.of_wired, fun ci => (hends ci).1⟩, fun ci _ => (hends ci).2.1, fun ci => (hends ci).2.2⟩

theorem connData_steady (hsteady : Steady P σ) (ci : Nat) (data : Bytes) (nowMs : Nat) :
    Steady P (σ.connData (P.wired v) ci data nowMs).2 ∧
      Ends (fun _ => False) (actsSince σ (σ.connData (P.wired v) ci data nowMs).2) σ
        (σ.connData (P.wired v) ci data nowMs).2 :=
  steady_of_stepped hsteady (connData_stepped hsteady.sound.wired ci data nowMs)
    (follows_connData (v := v) (n := 0) ci data nowMs σ).acts

theorem tick_steady (hsteady : Steady P σ) (nowMs : Nat) : Steady P (σ.tick (P.wired v) nowMs) ∧
    Ends (fun _ => False) (actsSince σ (σ.tick (P.wired v) nowMs)) σ (σ.tick (P.wired v) nowMs) :=
  steady_of_stepped hsteady (tick_stepped hsteady.sound.wired nowMs) (repeats_tick (v := v) (n := 0) nowMs σ).acts

theorem publish_steady (hsteady : Steady P σ) (topic payload : Bytes) (qos : QoS) (retain : Bool) :
    Steady P (σ.publish (P.wired v) topic payload qos retain).2 ∧
      Ends (fun _ => False) (actsSince σ (σ.publish (P.wired v) topic payload qos retain).2) σ
        (σ.publish (P.wired v) topic payload qos retain).2 :=
  steady_of_stepped hsteady (publish_stepped hsteady.sound.wired topic payload qos retain)
    (follows_publish (v := v) (n := 0) topic payload qos retain σ).acts

theorem actsSince_self (σ : Broker Ctx) : actsSince σ σ = [] := by simp [actsSince]

/-- `conn_closed`: the connection is gone, and the others are as after any call. -/
theorem connClosed_steady (hsteady : Steady P σ) (ci : Nat) :
    Steady P (σ.connClosed (P.wired v) ci) ∧ ((σ.connClosed (P.wired v) ci).conns ci).active = false ∧
      Ends (· = ci) (actsSince σ (σ.connClosed (P.wired v) ci)) σ (σ.connClosed (P.wired v) ci) := by
  have hst := connClosed_stepped hsteady.sound.wired (P := P.wired v) ci
  unfold Broker.connClosed at hst ⊢
  split
  · rename_i hgone
    rw [if_pos hgone] at hst
    refine ⟨hsteady, ?_, ⟨fun j _ => ?_, fun j h => ?_⟩⟩
    · cases hact : (σ.conns ci).active with
      | false => rfl
      | true =>
        have hlt := hsteady.sound.linked.active_lt ci hact
        simp [hact, Nat.not_le.2 hlt] at hgone
    · simp [actsSince_self]
    · simp [actsSince_self] at h
  · rename_i hhere
    rw [if_neg hhere] at hst
    generalize hc : ({ σ.conns ci with notifyTransport := false, dead := true } : Conn) = c at hst ⊢
    generalize hσ₁ : (σ.setConn ci c).emit (.peerClosed ci) = σ₁ at hst ⊢
    obtain ⟨new, hnew, hnew_in⟩ := (repeats_flushDead (P := P.wired v) (v := v) (n := 0) σ₁).acts
    have hset : Linked (P.wired v) none (σ.setConn ci c) :=
      hsteady.sound.linked.wired.setConn (by rw [← hc]) (by rw [← hc])
    have hF : Flush (P.wired v) σ₁ (σ₁.flushDead (P.wired v)) := flushDead_flush (hσ₁ ▸ { hset with })
    have hdead : (σ₁.conns ci).dead = true := by
      rw [← hσ₁, ← hc]
      simp [Broker.emit]
    have hoff : ((σ₁.flushDead (P.wired v)).conns ci).active = false := by
      cases hact : ((σ₁.flushDead (P.wired v)).conns ci).active with
      | false => rfl
      | true =>
        have hlive := hF.flushed ci hact
        rw [hF.conns ci hact, hdead] at hlive
        cases hlive
    have htrace : (σ₁.flushDead (P.wired v)).trace = (new ++ [.peerClosed ci]) ++ σ.trace := by
      rw [hnew, ← hσ₁, List.append_assoc]
      rfl
    have hends : ∀ j, j ≠ ci → _ := fun j hj => ends_of_course hst.toCourse htrace j (fun a ha hline => by
      rcases List.mem_append.1 ha with ha | ha
      · exact hnew_in a ha
      · rw [List.mem_singleton.1 ha] at hline
        exact absurd (Option.some.inj hline).symm hj) hsteady.told
    rw [actsSince_eq htrace]
    refine ⟨⟨hst.sound.of_wired, fun j hact => ?_⟩, hoff, fun j hj => (hends j hj).2.1, fun j hcloses => ?_⟩
    · by_cases hj : j = ci
      · rw [hj, hoff] at hact
        cases hact
      · exact (hends j hj).1 hact
    · by_cases hj : j = ci
      · simp only [Bool.or_eq_true, Bool.not_eq_true', not_or] at hhere
        rw [hj]
        simpa using hhere.2
      · exact (hends j hj).2.2 hcloses

/-- `conn_open`: it succeeds where the index is in range and no connection is there, which then is, and nothing else
happens. -/
theorem connOpen_steady (hsteady : Steady P σ) (ci nowMs : Nat) : Steady P (σ.connOpen (P.wired v) ci nowMs).2 ∧
      ((σ.connOpen (P.wired v) ci nowMs).1 = .ok ↔ ci < P.T.maxConnections ∧ (σ.conns ci).active = false) ∧
      (∀ j, ((σ.connOpen (P.wired v) ci nowMs).2.conns j).active =
        ((σ.conns j).active || decide (j = ci ∧ ci < P.T.maxConnections))) ∧
      ∀ tr : Transport S, ∀ s, tr.after s (actsSince σ (σ.connOpen (P.wired v) ci nowMs).2) = s := by
  have hst := connOpen_stepped hsteady.sound.wired (P := P.wired v) ci nowMs
  unfold Broker.connOpen at hst ⊢
  split
  · rename_i hrefused
    simp only [Bool.or_eq_true, decide_eq_true_eq] at hrefused
    refine ⟨hsteady, ⟨fun h => by (cases h), fun h => ?_⟩, fun j => ?_, fun tr s => by rw [actsSince_self]; rfl⟩
    · rcases hrefused with hle | hact
      · exact absurd h.1 (Nat.not_lt.2 hle)
      · rw [h.2] at hact
        cases hact
    · by_cases hj : j = ci ∧ ci < P.T.maxConnections
      · rw [hj.1, hrefused.resolve_left (Nat.not_le.2 hj.2)]
        rfl
      · simp [hj]
  · rename_i hopens
    rw [if_neg hopens] at hst
    have hopens : ¬(decide (P.T.maxConnections ≤ ci) || (σ.conns ci).active) = true := hopens
    have hopens : ci < P.T.maxConnections ∧ (σ.conns ci).active = false := by simpa using hopens
    generalize hc : ({ (σ.conns ci).reset with active := true, deadlineMs := _ } : Conn) = c at hst ⊢
    have hconns : ∀ j, ((σ.setConn ci c).notifyConn (P.wired v) .connectionOpened ci).conns j =
        if j = ci then c else σ.conns j := by
      intro j
      split
      · rename_i hj
        rw [hj]
        exact conns_setConn_self σ ci c
      · rename_i hj
        exact conns_setConn_of_ne hj σ c
    refine ⟨⟨hst.sound.of_wired, fun j hact => ?_⟩, ⟨fun _ => hopens, fun _ => rfl⟩, fun j => ?_, fun tr s => ?_⟩
    · rw [hconns] at hact ⊢
      split
      · rw [← hc]
        rfl
      · rename_i hj
        rw [if_neg hj] at hact
        exact hsteady.told j hact
    · rw [hconns]
      split
      · rename_i hj
        simp [hj, hopens.1, ← hc]
      · rename_i hj
        simp [hj]
    · rw [show actsSince σ _ = [.event _ none] from actsSince_eq rfl]
      rfl

end

/-! ## Transports that know which connections are open -/

/-- **`opn` says which connections are open** on a transport the broker calls with indices below `m`: a `send` opens and
closes none, a `close` closes its own. -/
structure Gate (tr : Transport S) (m : Nat) (opn : S → Nat → Bool) : Prop where
  send : ∀ s ci pkt j, opn (tr.send s ci pkt).2 j = opn s j
  close : ∀ s ci j, ci < m → opn (tr.close s ci) j = (opn s j && j != ci)

section
variable {tr : Transport S} {m : Nat} {opn : S → Nat → Bool}

theorem Gate.after (hgate : Gate tr m opn) (s : S) (j : Nat) : ∀ acts : Trace Ctx,
    (∀ ci, acts.any (Act.closes ci) = true → ci < m) →
    opn (tr.after s acts) j = (opn s j && !acts.any (Act.closes j))
  | [], _ => by simp [Transport.after]
  | a :: acts, hlt => by
    have hrest : ∀ ci, acts.any (Act.closes ci) = true → ci < m :=
      fun ci h => hlt ci (by rw [List.any_cons, h, Bool.or_true])
    have ih := hgate.after s j acts hrest
    have hstep : tr.after s (a :: acts) = tr.meet a (tr.after s acts) := rfl
    rw [hstep, List.any_cons]
    cases a with
    | send ci pkt ok tag => exact (hgate.send _ ci pkt j).trans ih
    | close ci =>
      have hci : ci < m := hlt ci (by simp [Act.closes])
      rw [show tr.meet (.close ci) (tr.after s acts) = tr.close (tr.after s acts) ci from rfl, hgate.close _ ci j hci,
        ih]
      by_cases hj : j = ci
      · simp [hj, Act.closes]
      · have hne : (ci == j) = false := by simpa using Ne.symm hj
        have hne' : (j != ci) = true := by simpa using hj
        simp [Act.closes, hne, hne']
    | _ => exact ih

/-- **The transport and the broker lose the same connections.** -/
theorem Gate.ends (hgate : Gate tr m opn) {P : Params Ctx} (hm : P.T.maxConnections ≤ m) {own : Nat → Prop}
    {σ σ' : Broker Ctx} (hsteady : Steady P σ) {acts : Trace Ctx} (h : Ends own acts σ σ') (s : S) {j : Nat}
    (hj : ¬own j) (hwas : opn s j = true → (σ.conns j).active = true) :
    (opn (tr.after s acts) j = true → (σ'.conns j).active = true) ∧
      ((σ.conns j).active = opn s j → (σ'.conns j).active = opn (tr.after s acts) j) := by
  have hlt : ∀ ci, acts.any (Act.closes ci) = true → ci < m :=
    fun ci hc => Nat.lt_of_lt_of_le (hsteady.sound.linked.active_lt ci (h.was ci hc)) hm
  rw [hgate.after s j acts hlt, h.active j hj]
  refine ⟨fun hopen => ?_, fun heq => by rw [heq]⟩
  rw [Bool.and_eq_true] at hopen
  rw [hwas hopen.1, hopen.2]
  rfl

end

end Minimosq
