import Minimosq.Bed
import Minimosq.Run
/-!
# The broker does not see the cuts

Data of one connection handed over in two calls at one time does what it does in one.  While the transport takes
everything, no other connection dies under a packet (`Handled.calm`), so the `flush_dead` between the two calls finds
nothing to do; the deadline the second call would refresh was set at the same time (`Handled.fresh`); and the parser
goes on where it stopped (`feed_append`).
-/
namespace Minimosq

variable {Ctx : Type} {P : Params Ctx} {σ : Broker Ctx} {ci nowMs : Nat}

theorem refreshDeadline_setParser (T : Traits) (now : Nat) (c : Conn) (p : FrameParser) :
    refreshDeadline T now { c with parser := p } = { refreshDeadline T now c with parser := p } := by
  simp only [refreshDeadline]
  split
  · rfl
  · split <;> rfl

theorem FreshDeadline.setParser (h : FreshDeadline P ci σ) (p : FrameParser) :
    FreshDeadline P ci (σ.setParser ci p) := by
  intro hne
  rw [Broker.setParser, conns_setConn_self] at hne ⊢
  rw [refreshDeadline_setParser]
  exact congrArg (fun c : Conn => { c with parser := p }) (h hne)

theorem setParser_setParser (σ : Broker Ctx) (ci : Nat) (p q : FrameParser) :
    (σ.setParser ci p).setParser ci q = σ.setParser ci q := by
  simp [Broker.setParser, Broker.setConn]

theorem setParser_self {p : FrameParser} (h : (σ.conns ci).parser = p) : σ.setParser ci p = σ := by
  simp [Broker.setParser, Broker.setConn, ← h]

theorem beginData_fresh (P : Params Ctx) (ci nowMs : Nat) (σ : Broker Ctx) :
    FreshDeadline P ci (σ.beginData P ci nowMs) ∧ (σ.beginData P ci nowMs).nowMs = nowMs := by
  simp only [Broker.beginData]
  split
  · refine ⟨fun _ => ?_, rfl⟩
    rw [conns_setConn_self]
    exact refreshDeadline_idem P.T nowMs _
  · rename_i h
    exact ⟨fun hne => absurd (bne_iff_ne.2 hne) h, rfl⟩

/-- A second `conn_data` at the same time has no deadline to move. -/
theorem beginData_eq_self (hnow : σ.nowMs = nowMs) (hfresh : FreshDeadline P ci σ) : σ.beginData P ci nowMs = σ := by
  subst hnow
  simp only [Broker.beginData]
  split
  · rename_i h
    rw [hfresh (bne_iff_ne.1 h)]
    simp [Broker.setConn]
  · rfl

/-- `conn_data` from what the parser returned to the end. -/
def endData (P : Params Ctx) (ci : Nat) (r : Err × FrameParser × Broker Ctx) : Broker Ctx :=
  (if r.1 != .ok then (r.2.2.setParser ci r.2.1).violation P ci r.1 else r.2.2.setParser ci r.2.1).flushDead P

theorem connData_eq (hci : ci < P.T.maxConnections) (hact : (σ.conns ci).active = true)
    (hdead : (σ.conns ci).dead = false) (data : Bytes) (nowMs : Nat) :
    (σ.connData P ci data nowMs).2 = endData P ci (((σ.beginData P ci nowMs).conns ci).parser.feed P.T.maxPacketSize
      (Broker.onPacket P ci) data ((σ.beginData P ci nowMs).setParser ci {})) := by
  have hguard : ¬ (decide (P.T.maxConnections ≤ ci) || !(σ.conns ci).active) = true := by simp [hact, hci]
  simp only [Broker.connData, if_neg hguard, hdead]
  rfl

theorem connData_of_inactive (h : ¬ (ci < P.T.maxConnections ∧ (σ.conns ci).active = true)) (data : Bytes)
    (nowMs : Nat) : (σ.connData P ci data nowMs).2 = σ := by
  simp only [Broker.connData, if_pos (unknown_of_inactive h)]

/-- A call that went well and left nobody dead ends where the parser stopped. -/
theorem endData_alive {p : FrameParser} (hcalm : Calm ci σ) (hdead : (σ.conns ci).dead = false) :
    endData P ci (.ok, p, σ) = σ.setParser ci p := by
  refine flushDead_of_flushed (fun j hact => ?_)
  change ((σ.setParser ci p).conns j).active = true at hact
  change ((σ.setParser ci p).conns j).dead = false
  by_cases hj : j = ci
  · rw [hj, Broker.setParser, conns_setConn_self]
    exact hdead
  · rw [Broker.setParser, conns_setConn_of_ne hj] at hact ⊢
    exact hcalm j hj hact

/-- A call that met an error, or a packet that ended the connection, leaves the connection closed. -/
theorem endData_ended {r : Err × FrameParser × Broker Ctx} (hL : Linked P none r.2.2)
    (hact : (r.2.2.conns ci).active = true) (h : ¬ (r.1 = .ok ∧ (r.2.2.conns ci).dead = false)) :
    ((endData P ci r).conns ci).active = false := by
  have hL₁ : Linked P none (r.2.2.setParser ci r.2.1) := hL.setConn rfl rfl
  have key : ∀ σ : Broker Ctx, Linked P none σ → (σ.conns ci).dead = true →
      ((σ.flushDead P).conns ci).active = false := by
    intro σ hσ hdead
    have hflush := flushDead_flush hσ
    refine Bool.eq_false_iff.2 (fun hact => ?_)
    have hd := hflush.flushed ci hact
    rw [hflush.conns ci hact, hdead] at hd
    cases hd
  unfold endData
  split
  · have q := quiet_violation (P := P) (σ := r.2.2.setParser ci r.2.1) (· = ci) rfl r.1
      (by rw [Broker.setParser, conns_setConn_self]; exact hact)
    exact key _ (hL₁.quiet q) (by rw [Broker.violation, setDead_conns, if_pos rfl])
  · rename_i hok
    refine key _ hL₁ ?_
    rw [Broker.setParser, conns_setConn_self]
    exact Bool.not_eq_false _ ▸ fun hd => h ⟨by simpa using hok, hd⟩

theorem endData_course {r : Err × FrameParser × Broker Ctx} (hL : Linked P none r.2.2)
    (hact : (r.2.2.conns ci).active = true) : Course P r.2.2 (endData P ci r) := by
  have hL₁ : Linked P none (r.2.2.setParser ci r.2.1) := hL.setConn rfl rfl
  have hset : Course P r.2.2 (r.2.2.setParser ci r.2.1) := .setConn _ ⟨rfl, rfl, rfl, rfl⟩
  have hact₁ : ((r.2.2.setParser ci r.2.1).conns ci).active = true := by
    rw [Broker.setParser, conns_setConn_self]
    exact hact
  unfold endData
  split
  · have q := quiet_violation (P := P) (· = ci) rfl r.1 hact₁
    exact (hset.trans (q.course hL₁)).trans (flushDead_flush (hL₁.quiet q)).toCourse
  · exact hset.trans (flushDead_flush hL₁).toCourse

/-- **Cutting the data of one connection in two changes nothing.** -/
theorem connData_append (hs : Sound P σ) (hn : NeverRefuses P) (ci : Nat) (a b : Bytes) (nowMs : Nat) :
    ((σ.connData P ci a nowMs).2.connData P ci b nowMs).2 = (σ.connData P ci (a ++ b) nowMs).2 := by
  by_cases hopen : ci < P.T.maxConnections ∧ (σ.conns ci).active = true
  · obtain ⟨hci, hact⟩ := hopen
    have hdead := hs.flushed ci hact
    have hb := beginData_spec hs.linked hs.parsers ci nowMs
    obtain ⟨hfresh₁, hnow₁⟩ := beginData_fresh P ci nowMs σ
    have hcalm₁ : Calm ci (σ.beginData P ci nowMs) := by
      intro j hj hactj
      have hother : (σ.beginData P ci nowMs).conns j = σ.conns j := by
        simp only [Broker.beginData]
        split
        · exact conns_setConn_of_ne hj ..
        · rfl
      rw [hother] at hactj ⊢
      exact hs.flushed j hactj
    rw [connData_eq hci hact hdead, connData_eq hci hact hdead]
    generalize σ.beginData P ci nowMs = σ₁ at *
    -- The state the parser works on, and what the first part makes of it.
    have hL₀ : Linked P none (σ₁.setParser ci {}) := hb.linked.setConn rfl rfl
    have hself : (σ₁.setParser ci {}).conns ci = { σ₁.conns ci with parser := {} } := conns_setConn_self ..
    have hact₀ : ((σ₁.setParser ci {}).conns ci).active = true := by rw [hself]; exact hb.active.trans hact
    have hdead₀ : ((σ₁.setParser ci {}).conns ci).dead = false := by rw [hself]; exact hb.dead.trans hdead
    have hcalm₀ : Calm ci (σ₁.setParser ci {}) := by
      intro j hj hactj
      rw [Broker.setParser, conns_setConn_of_ne hj] at hactj ⊢
      exact hcalm₁ j hj hactj
    have hH := (feed_handled hL₀ hact₀ hdead₀ (hb.parsers ci) a).1
    have happ := FrameParser.feed_append P.T.maxPacketSize (Broker.onPacket P ci) (fun σ => (σ.conns ci).dead)
      (onPacket_alive P ci) (hb.parsers ci).wf a b hdead₀
    generalize (σ₁.conns ci).parser.feed P.T.maxPacketSize (Broker.onPacket P ci) a (σ₁.setParser ci {}) = r
      at hH happ ⊢
    rw [happ]
    by_cases halive : r.1 = .ok ∧ (r.2.2.conns ci).dead = false
    · obtain ⟨err, p, τ⟩ := r
      obtain ⟨rfl, hdeadτ⟩ : err = .ok ∧ (τ.conns ci).dead = false := halive
      replace hH : Handled P ci (σ₁.setParser ci {}) τ := hH
      simp only [hdeadτ, and_self, if_true]
      rw [endData_alive (hH.calm hn hcalm₀) hdeadτ]
      have hselfτ : (τ.setParser ci p).conns ci = { τ.conns ci with parser := p } := conns_setConn_self ..
      have hactτ : (τ.conns ci).active = true := hH.active.trans hact₀
      have hnowτ : (τ.setParser ci p).nowMs = nowMs := hH.now.trans hnow₁
      rw [connData_eq hci (by rw [hselfτ]; exact hactτ) (by rw [hselfτ]; exact hdeadτ),
        beginData_eq_self hnowτ ((hH.fresh (hfresh₁.setParser {})).setParser p), hselfτ, setParser_setParser,
        setParser_self ((hH.parser ci).trans (by rw [hself]))]
    · simp only [if_neg halive]
      refine connData_of_inactive (fun h => ?_) b nowMs
      rw [endData_ended hH.linked (hH.active.trans hact₀) halive] at h
      cases h.2
  · rw [connData_of_inactive hopen, connData_of_inactive hopen, connData_of_inactive hopen]

/-- **Chunking invariance of the broker**, from every state a run reaches: the two executions end in one state, trace
included, and a connection the first part ended ignores the second. -/
theorem run_connData_append (P : Params Ctx) (hn : NeverRefuses P) (inputs : List Input) (ci : Nat) (a b : Bytes)
    (nowMs : Nat) : let σ := run P inputs
    let σ₁ := (σ.connData P ci a nowMs).2
    (σ₁.connData P ci b nowMs).2 = (σ.connData P ci (a ++ b) nowMs).2 ∧
      ((σ₁.conns ci).active = false → (σ₁.connData P ci b nowMs).2 = σ₁) :=
  ⟨connData_append (run_stepped P inputs).sound hn ci a b nowMs,
    fun h => connData_of_inactive (fun ho => by rw [h] at ho; cases ho.2) b nowMs⟩

/-- A CONNECT and a PINGREQ, cut inside the CONNECT: the connection is there and both packets are answered. -/
theorem connData_append_cut_connect : let P := bed (fun _ _ _ => true)
    let σ := run P [.connOpen 0 1000]
    let a := (Wire.makeConnect [99] {}).take 5
    let b := (Wire.makeConnect [99] {}).drop 5 ++ Wire.makeEmpty .pingreq
    ((σ.connData P 0 a 1000).2.connData P 0 b 1000).2 = (σ.connData P 0 (a ++ b) 1000).2 ∧
      (σ.conns 0).active = true ∧ .send 0 [208, 0] true none ∈ ((σ.connData P 0 (a ++ b) 1000).2).trace :=
  ⟨(run_connData_append (bed (fun _ _ _ => true)) (fun _ _ _ => rfl) [.connOpen 0 1000] 0 _ _ 1000).1,
    by decide +kernel, by decide +kernel⟩

end Minimosq
