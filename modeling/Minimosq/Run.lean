import Minimosq.FrameChunks
import Minimosq.Admission
/-!
# Every run of the broker

From the packet handlers up: a dispatched packet, the packets of one `conn_data`, each entry point, and a run of them.
What a run keeps is `Sound`, and how it got there is that every slot moved by its steps (`run_slot`).  The link
invariant is stated once more in the words of the tables, for the return of every entry point and between the packets
of one `conn_data`.
-/
namespace Minimosq

open History (Star)

variable {Ctx : Type} {P : Params Ctx} {σ : Broker Ctx} {ci : Nat}

/-! ## One packet -/

theorem Handled.refl (hL : Linked P none σ) : Handled P ci σ σ := (Quiet.refl P (· = ci) σ).handled hL

/-- DISCONNECT disarms the will and gives up on the connection. -/
theorem handleDisconnect_handled (hL : Linked P none σ) (hact : (σ.conns ci).active = true)
    (hsess : (σ.conns ci).session ≠ noSession) (body : Bytes) : Handled P ci σ (σ.handleDisconnect P ci body) := by
  unfold Broker.handleDisconnect
  split
  · exact (quiet_violation (· = ci) rfl _ hact).handled hL
  obtain ⟨s, hof, hs, rfl⟩ := hL.sessionOf hsess
  have hon : s.conn ≠ noConn := ne_noConn_of_lt (hL.active_lt _ hact)
  rw [derefSession_of hof]
  have hE : Evolve P σ ((σ.setSession (σ.conns s.conn).session { s with hasWill := false }).emit
      (.disconnect (σ.conns s.conn).session s.conn)) := by
    refine Evolve.one [.disconnect (σ.conns s.conn).session s.conn] rfl rfl rfl (by simp [Act.slot, Act.isSubs])
      (.of_some hs ⟨rfl, rfl⟩) (.of_conns (fun _ h => h)) (by simp) ?_
    rw [hs]
    exact .disconnect hon
  have hset : Handled P s.conn σ
      ((σ.setSession (σ.conns s.conn).session { s with hasWill := false }).emit
        (.disconnect (σ.conns s.conn).session s.conn)) := {
    toCourse := .of_evolve [.disconnect (σ.conns s.conn).session s.conn] hE rfl (by simp [Act.Mild, Act.line])
      rfl (fun h => h.note ⟨rfl, rfl, rfl⟩ rfl rfl rfl)
    linked := hL.set hs { s with hasWill := false } rfl rfl (fun h => absurd h hon) (fun h => by cases h) _
    now := rfl
    active := rfl
    parser := fun _ => rfl
    calm := fun _ h => h
    fresh := fun h => h }
  exact hset.trans (Quiet.handled (quiet_setDead (.inl rfl) hact) hset.linked)

/-- A packet that is neither CONNECT nor DISCONNECT, on a connection that has a session. -/
theorem dispatch_quiet (hL : Linked P none σ) (hact : (σ.conns ci).active = true)
    (hsess : (σ.conns ci).session ≠ noSession) {firstByte : UInt8} {body : Bytes}
    (hlen : body.length ≤ P.T.maxPacketSize) (hconn : packetType firstByte ≠ some .connect)
    (hdisc : packetType firstByte ≠ some .disconnect) : Quiet P (· = ci) σ (σ.dispatch P ci firstByte body) := by
  unfold Broker.dispatch
  have hviolate : ∀ err, Quiet P (· = ci) σ (σ.violation P ci err) := fun err => quiet_violation (· = ci) rfl err hact
  obtain ⟨s, hc, hv⟩ := hL.serving hact hsess
  cases htype : packetType firstByte with
  | none => exact hviolate _
  | some type =>
    subst hc
    cases type with
    | connect => exact absurd htype hconn
    | disconnect => exact absurd htype hdisc
    | publish => exact quiet_handlePublish (· = s.conn) rfl hv firstByte hlen
    | pubrel => exact quiet_handlePubrel (· = s.conn) rfl hv body
    | puback => exact quiet_handleFinal (· = s.conn) rfl hv .puback body
    | pubrec => exact quiet_handlePubrec (· = s.conn) rfl hv body
    | pubcomp => exact quiet_handleFinal (· = s.conn) rfl hv .pubcomp body
    | subscribe => exact quiet_handleSubscribe (· = s.conn) rfl hv hL.retained body
    | unsubscribe => exact quiet_handleUnsubscribe (· = s.conn) rfl hv body
    | pingreq =>
      simp only
      split
      · exact hviolate _
      · exact quiet_sendTo (· = s.conn) rfl (by simp) (by simp) (.inl (buildPingresp_isPacket (outSize_ge P.T))) hsess
    | connack | suback | unsuback | pingresp => exact hviolate _

/-- **Dispatching a packet** of a live connection that has a session, or of a CONNECT. -/
theorem dispatch_handled (hL : Linked P none σ) (hact : (σ.conns ci).active = true) (hdead : (σ.conns ci).dead = false)
    {firstByte : UInt8} {body : Bytes} (hlen : body.length ≤ P.T.maxPacketSize)
    (hlast : lastPacket σ.trace = some (ci, firstByte, body))
    (hsess : (σ.conns ci).session ≠ noSession ∨ packetType firstByte = some .connect) :
    Handled P ci σ (σ.dispatch P ci firstByte body) := by
  by_cases hconn : packetType firstByte = some .connect
  · rw [Broker.dispatch, hconn]
    exact handleConnect_handled hL hact hdead hlast hconn
  · have hsess := hsess.resolve_right hconn
    by_cases hdisc : packetType firstByte = some .disconnect
    · rw [Broker.dispatch, hdisc]
      exact handleDisconnect_handled hL hact hsess body
    · exact (dispatch_quiet hL hact hsess hlen hconn hdisc).handled hL

theorem packet_handled (hL : Linked P none σ) (firstByte : UInt8) (body : Bytes) :
    Handled P ci σ (σ.emit (.packet ci firstByte body)) where
  toCourse := .of_evolve [.packet ci firstByte body]
    (.aside [.packet ci firstByte body] rfl rfl rfl (by simp [Act.Aside, Act.slot, Act.isRetained])
      (.of_conns (fun _ h => h))) rfl (by simp [Act.Mild, Act.line]) rfl (fun h => h.note ⟨rfl, rfl, rfl⟩ rfl rfl rfl)
  linked := { hL with }
  now := rfl
  active := rfl
  parser := fun _ => rfl
  calm := fun _ h => h
  fresh := fun h => h

theorem onPacket_handled (hL : Linked P none σ) (hact : (σ.conns ci).active = true) (hdead : (σ.conns ci).dead = false)
    (firstByte : UInt8) {body : Bytes} (hlen : body.length ≤ P.T.maxPacketSize) :
    Handled P ci σ (σ.onPacket P ci firstByte body).2 := by
  have hnote : Handled P ci σ (σ.emit (.packet ci firstByte body)) := packet_handled hL firstByte body
  have hviolate : ∀ err, Handled P ci σ ((σ.emit (.packet ci firstByte body)).violation P ci err) :=
    fun err => hnote.trans ((quiet_violation (σ := σ.emit _) (· = ci) rfl err hact).handled hnote.linked)
  simp only [Broker.onPacket]
  split
  · exact hviolate _
  split
  · exact hviolate _
  rename_i hsess
  refine hnote.trans (dispatch_handled hnote.linked hact hdead hlen rfl ?_)
  rcases (not_and_or.1 (fun h => hsess (Bool.and_eq_true_iff.2 h))) with h | h
  · exact .inl (show (σ.conns ci).session ≠ noSession by simpa using h)
  · exact .inr (by simpa using h)

/-- `on_packet` answers whether the connection is still alive. -/
theorem onPacket_alive (P : Params Ctx) (ci : Nat) (firstByte : UInt8) (body : Bytes) (σ : Broker Ctx) :
    (σ.onPacket P ci firstByte body).1 = !((σ.onPacket P ci firstByte body).2.conns ci).dead := by
  have hviolate : ∀ err (σ : Broker Ctx), ((σ.violation P ci err).conns ci).dead = true := fun err σ => by
    rw [Broker.violation, setDead_conns, if_pos rfl]
  simp only [Broker.onPacket]
  split
  · simp [hviolate]
  split
  · simp [hviolate]
  · rfl

/-! ## The packets of one `conn_data` -/

/-- **What a run keeps** between calls. -/
structure Sound (P : Params Ctx) (σ : Broker Ctx) : Prop where
  linked : Linked P none σ
  flushed : Flushed σ
  parsers : ∀ ci, (σ.conns ci).parser.Held P.T.maxPacketSize

theorem Linked.setConn {out : Option Nat} (hL : Linked P out σ) {c : Conn} (hact : c.active = (σ.conns ci).active)
    (hsess : c.session = (σ.conns ci).session) : Linked P out (σ.setConn ci c) := by
  refine hL.congr rfl rfl (fun j => ?_)
  by_cases hj : j = ci
  · subst hj
    simp [hact, hsess]
  · simp [conns_setConn_of_ne hj]

theorem Course.setConn (σ : Broker Ctx) {ci : Nat} {c : Conn} (hsame : (σ.conns ci).SameLine c) :
    Course P σ (σ.setConn ci c) := by
  refine .silent rfl rfl rfl rfl (fun j => ?_)
  by_cases hj : j = ci
  · rw [hj, conns_setConn_self]
    exact hsame
  · rw [conns_setConn_of_ne hj]
    exact ⟨rfl, rfl, rfl, rfl⟩

/-- Feeding the parser of a live connection, from the state with the parser taken out to the state before it is put
back. -/
theorem feed_handled (hL : Linked P none σ) (hact : (σ.conns ci).active = true) (hdead : (σ.conns ci).dead = false)
    {p : FrameParser} (hp : p.Held P.T.maxPacketSize) (data : Bytes) :
    Handled P ci σ (p.feed P.T.maxPacketSize (Broker.onPacket P ci) data σ).2.2 ∧
      (p.feed P.T.maxPacketSize (Broker.onPacket P ci) data σ).2.1.Held P.T.maxPacketSize := by
  refine FrameParser.feed_rule P.T.maxPacketSize (Broker.onPacket P ci) (fun σ => (σ.conns ci).dead)
    (onPacket_alive P ci) (Handled P ci σ) (fun f body σ' hlen h hd => ?_) hp data hdead (.refl hL)
  exact h.trans (onPacket_handled h.linked (h.active.trans hact) hd f hlen.1)

/-- What feeding and putting the parser back does to the state `σ` that `begin` left. -/
theorem feedConn_spec (hL : Linked P none σ) (hact : (σ.conns ci).active = true) (hdead : (σ.conns ci).dead = false)
    (hheld : ∀ j, (σ.conns j).parser.Held P.T.maxPacketSize) (data : Bytes) :
    Linked P none (σ.feedConn P ci data).2 ∧ Course P σ (σ.feedConn P ci data).2 ∧
      ((σ.feedConn P ci data).2.conns ci).active = true ∧
      ∀ j, ((σ.feedConn P ci data).2.conns j).parser.Held P.T.maxPacketSize := by
  have hL₀ : Linked P none (σ.setParser ci {}) := hL.setConn rfl rfl
  have hself : (σ.setParser ci {}).conns ci = { σ.conns ci with parser := {} } := conns_setConn_self ..
  have hact₀ : ((σ.setParser ci {}).conns ci).active = true := by rw [hself]; exact hact
  obtain ⟨h, hp⟩ := feed_handled hL₀ hact₀ (by rw [hself]; exact hdead) (hheld ci) data
  simp only [Broker.feedConn]
  generalize (σ.conns ci).parser.feed P.T.maxPacketSize (Broker.onPacket P ci) data (σ.setParser ci {}) = r at h hp ⊢
  have hC : ∀ (σ : Broker Ctx) p, Course P σ (σ.setParser ci p) := fun σ _ => .setConn σ ⟨rfl, rfl, rfl, rfl⟩
  refine ⟨h.linked.setConn rfl rfl, ((hC σ {}).trans h.toCourse).trans (hC _ _), ?_, fun j => ?_⟩
  · rw [Broker.setParser, conns_setConn_self]
    exact h.active.trans hact₀
  · by_cases hj : j = ci
    · rw [hj, Broker.setParser, conns_setConn_self]
      exact hp
    · rw [Broker.setParser, conns_setConn_of_ne hj, h.parser j, Broker.setParser, conns_setConn_of_ne hj]
      exact hheld j

/-! ## Entry points -/

/-- **What an entry point does.** -/
structure Stepped (P : Params Ctx) (σ σ' : Broker Ctx) : Prop extends Course P σ σ' where
  sound : Sound P σ'

theorem Stepped.refl (h : Sound P σ) : Stepped P σ σ := ⟨.refl P σ, h⟩

theorem Stepped.trans {σ' σ'' : Broker Ctx} (h₁ : Stepped P σ σ') (h₂ : Stepped P σ' σ'') : Stepped P σ σ'' :=
  ⟨h₁.toCourse.trans h₂.toCourse, h₂.sound⟩

theorem Stepped.foldl {α : Type} (f : Broker Ctx → α → Broker Ctx) (hf : ∀ σ a, Sound P σ → Stepped P σ (f σ a)) :
    ∀ (l : List α) {σ : Broker Ctx}, Sound P σ → Stepped P σ (l.foldl f σ)
  | [], _, h => .refl h
  | a :: l, σ, h => (hf σ a h).trans (Stepped.foldl f hf l (hf σ a h).sound)

/-- An entry point ends in `flush_dead`. -/
theorem Stepped.flush {σ₀ : Broker Ctx} (hC : Course P σ₀ σ) (hL : Linked P none σ)
    (hheld : ∀ j, (σ.conns j).parser.Held P.T.maxPacketSize) : Stepped P σ₀ (σ.flushDead P) := by
  have h := flushDead_flush hL
  exact ⟨hC.trans h.toCourse, h.linked, h.flushed, fun j => by rw [h.parser j]; exact hheld j⟩

theorem connOpen_stepped (h : Sound P σ) (ci nowMs : Nat) : Stepped P σ (σ.connOpen P ci nowMs).2 := by
  unfold Broker.connOpen
  split
  · exact .refl h
  rename_i hguard
  rw [Bool.or_eq_true, not_or, decide_eq_true_eq, Nat.not_le, Bool.not_eq_true] at hguard
  obtain ⟨hci, hno⟩ := hguard
  generalize hc : ({ (σ.conns ci).reset with
    active := true, deadlineMs := toU32 (nowMs + P.T.connectTimeoutMs) } : Conn) = c
  have hsess : c.session = noSession := by rw [← hc]; rfl
  have hL := h.linked.unlinked hci (h.linked.inactive ci hno) hsess
  obtain ⟨e, he, hkind, hline⟩ : ∃ e : Event, (σ.setConn ci c).notifyConn P .connectionOpened ci =
      (σ.setConn ci c).emit (.event e none) ∧ e.kind = .connectionOpened ∧
      (Act.event e none : Act Ctx).line = some ci := ⟨_, rfl, rfl, rfl⟩
  rw [he]
  refine ⟨⟨.aside [.event e none] rfl rfl rfl (by simp [Act.Aside, Act.slot, Act.isRetained])
    (fun k s _ hs _ _ _ hd => ?_),
    .one rfl trivial, fun j => ?_, fun h => h.note ⟨rfl, rfl, rfl⟩ rfl rfl rfl⟩, { hL with }, fun j hact => ?_,
      fun j => ?_⟩
  · change ((σ.setConn ci c).conns s.conn).dead = true
    rw [conns_setConn_of_ne (h.linked.conn_ne (h.linked.inactive ci hno) (ne_noConn_of_lt hci) hs)]
    exact hd
  · change Star _ _ _ (lineActs j (.event e none :: σ.trace)) ((σ.setConn ci c).conns j)
    by_cases hj : j = ci
    · subst hj
      have hone : LineStep P j (lineActs j σ.trace) (σ.conns j) [.event e none] c :=
        .opened e hkind hno (by rw [← hc]; exact ⟨rfl, rfl, rfl, rfl⟩)
      rw [lineActs_cons_own hline, conns_setConn_self]
      exact .single hone
    · rw [lineActs_cons_other (by rw [hline]; simpa using Ne.symm hj), conns_setConn_of_ne hj]
      exact .refl
  · change ((σ.setConn ci c).conns j).dead = false
    change ((σ.setConn ci c).conns j).active = true at hact
    by_cases hj : j = ci
    · rw [hj, conns_setConn_self, ← hc]
      rfl
    · rw [conns_setConn_of_ne hj] at hact ⊢
      exact h.flushed j hact
  · change ((σ.setConn ci c).conns j).parser.Held P.T.maxPacketSize
    by_cases hj : j = ci
    · rw [hj, conns_setConn_self, ← hc]
      exact FrameParser.reset_held _ _
    · rw [conns_setConn_of_ne hj]
      exact h.parsers j

theorem parser_setConn (hheld : ∀ j, (σ.conns j).parser.Held P.T.maxPacketSize) {c : Conn}
    (hc : c.parser = (σ.conns ci).parser) (j : Nat) : ((σ.setConn ci c).conns j).parser.Held P.T.maxPacketSize := by
  by_cases hj : j = ci
  · rw [hj, conns_setConn_self, hc]
    exact hheld ci
  · rw [conns_setConn_of_ne hj]
    exact hheld j

/-- `conn_data` and `conn_closed` do nothing on an index without a connection. -/
theorem unknown_of_inactive {ci : Nat} (h : ¬(ci < P.T.maxConnections ∧ (σ.conns ci).active = true)) :
    (decide (P.T.maxConnections ≤ ci) || !(σ.conns ci).active) = true := by
  rw [Bool.or_eq_true, decide_eq_true_eq, Bool.not_eq_true', or_iff_not_imp_left, Nat.not_le]
  exact fun hlt => Bool.eq_false_iff.2 (fun hact => h ⟨hlt, hact⟩)

theorem connClosed_stepped (h : Sound P σ) (ci : Nat) : Stepped P σ (σ.connClosed P ci) := by
  unfold Broker.connClosed
  split
  · exact .refl h
  rename_i hguard
  rw [Bool.or_eq_true, not_or, Bool.not_eq_true, Bool.not_eq_true, Bool.not_eq_false'] at hguard
  have hup := h.flushed ci hguard.2
  generalize hc : ({ σ.conns ci with notifyTransport := false, dead := true } : Conn) = c
  have hL : Linked P none (σ.setConn ci c) := h.linked.setConn (by rw [← hc]) (by rw [← hc])
  have hC : Course P σ ((σ.setConn ci c).emit (.peerClosed ci)) := by
    refine ⟨.aside [.peerClosed ci] rfl rfl rfl (by simp [Act.Aside, Act.slot, Act.isRetained])
      (.of_conns (fun j hd => ?_)), .one rfl trivial, fun j => ?_, fun h => h.note ⟨rfl, rfl, rfl⟩ rfl rfl rfl⟩
    · change ((σ.setConn ci c).conns j).dead = true
      by_cases hj : j = ci
      · rw [hj, conns_setConn_self, ← hc]
      · rw [conns_setConn_of_ne hj]
        exact hd
    · change Star _ _ _ (lineActs j (.peerClosed ci :: σ.trace)) ((σ.setConn ci c).conns j)
      by_cases hj : j = ci
      · subst hj
        have hone : LineStep P j (lineActs j σ.trace) (σ.conns j) [.peerClosed j] c := hc ▸ .peer ⟨hguard.2, hup⟩
        rw [lineActs_cons_own rfl, conns_setConn_self]
        exact .single hone
      · rw [lineActs_cons_other (by simpa [Act.line] using Ne.symm hj), conns_setConn_of_ne hj]
        exact .refl
  exact Stepped.flush hC { hL with } (parser_setConn h.parsers (by rw [← hc]))

theorem Course.clock (σ : Broker Ctx) (nowMs : Nat) : Course P σ { σ with nowMs := nowMs } :=
  .silent rfl rfl rfl rfl (fun _ => ⟨rfl, rfl, rfl, rfl⟩)

/-- `conn_data` up to the parser: the clock and a deadline. -/
structure Begun (P : Params Ctx) (ci : Nat) (σ σ' : Broker Ctx) : Prop extends Course P σ σ' where
  linked : Linked P none σ'
  parsers : ∀ j, (σ'.conns j).parser.Held P.T.maxPacketSize
  active : (σ'.conns ci).active = (σ.conns ci).active
  dead : (σ'.conns ci).dead = (σ.conns ci).dead

theorem beginData_spec (hL : Linked P none σ) (hheld : ∀ j, (σ.conns j).parser.Held P.T.maxPacketSize)
    (ci nowMs : Nat) : Begun P ci σ (σ.beginData P ci nowMs) := by
  have hL₁ : Linked P none { σ with nowMs := nowMs } := { hL with }
  simp only [Broker.beginData]
  split
  · have hsame := refreshDeadline_sameLine P.T nowMs (σ.conns ci)
    have hC : Course P { σ with nowMs := nowMs } _ := Course.setConn _ hsame
    refine ⟨(Course.clock σ nowMs).trans hC, hL₁.setConn hsame.active hsame.session,
      parser_setConn hheld (refreshDeadline_parser_eq ..), ?_, ?_⟩
    · rw [conns_setConn_self, hsame.active]
    · rw [conns_setConn_self, hsame.dead]
  · exact ⟨.clock σ nowMs, hL₁, hheld, rfl, rfl⟩

/-- The parser is out of the table while it runs. -/
theorem Begun.setParser {σ' : Broker Ctx} (h : Begun P ci σ σ') {p : FrameParser} (hp : p.Held P.T.maxPacketSize) :
    Begun P ci σ (σ'.setParser ci p) := by
  have hset : Course P σ' (σ'.setParser ci p) := .setConn σ' ⟨rfl, rfl, rfl, rfl⟩
  refine ⟨h.toCourse.trans hset, h.linked.setConn rfl rfl, fun j => ?_, ?_, ?_⟩
  · by_cases hj : j = ci
    · rw [hj, Broker.setParser, conns_setConn_self]
      exact hp
    · rw [Broker.setParser, conns_setConn_of_ne hj]
      exact h.parsers j
  · rw [Broker.setParser, conns_setConn_self]
    exact h.active
  · rw [Broker.setParser, conns_setConn_self]
    exact h.dead

theorem connData_stepped (h : Sound P σ) (ci : Nat) (data : Bytes) (nowMs : Nat) :
    Stepped P σ (σ.connData P ci data nowMs).2 := by
  unfold Broker.connData
  split
  · exact .refl h
  split
  · exact .refl h
  rename_i hguard hdead
  rw [Bool.or_eq_true, not_or, Bool.not_eq_true, Bool.not_eq_true, Bool.not_eq_false'] at hguard
  have hb := beginData_spec h.linked h.parsers ci nowMs
  obtain ⟨hL₂, hC₂, hact₂, hheld₂⟩ := feedConn_spec hb.linked (hb.active.trans hguard.2)
    (hb.dead.trans (Bool.eq_false_iff.2 hdead)) hb.parsers data
  generalize (σ.beginData P ci nowMs).feedConn P ci data = r at hL₂ hC₂ hact₂ hheld₂ ⊢
  simp only
  split
  · have q := quiet_violation (P := P) (· = ci) rfl r.1 hact₂
    exact Stepped.flush ((hb.toCourse.trans hC₂).trans (q.course hL₂)) (hL₂.quiet q)
      (fun j => by rw [q.parser]; exact hheld₂ j)
  · exact Stepped.flush (hb.toCourse.trans hC₂) hL₂ hheld₂

/-- An expired session is offline, so releasing it breaks no link. -/
theorem expireOne_stepped (h : Sound P σ) (nowMs k : Nat) : Stepped P σ (σ.expireOne P nowMs k) := by
  unfold Broker.expireOne
  split
  · exact .refl h
  rename_i s hs
  split
  · exact .refl h
  rename_i hconn
  split
  · have hno : s.conn = noConn := by simpa [Session.connected] using hconn
    have q : Quiet P (fun _ => False) σ { σ with trace := notifySession .sessionExpired k s σ.trace } :=
      quiet_notify _ hs _ (by simp) (by simp)
    have hrel := release_handled 0 (h.linked.quiet q) (k := k) (s := s) hs hno
    exact ⟨(q.course h.linked).trans hrel.toCourse, hrel.linked, h.flushed, h.parsers⟩
  · exact .refl h

theorem expireSessions_stepped (h : Sound P σ) (nowMs : Nat) : Stepped P σ (σ.expireSessions P nowMs) := by
  unfold Broker.expireSessions
  split
  · exact .refl h
  · exact Stepped.foldl _ (fun σ k h => expireOne_stepped h nowMs k) _ h

theorem quiet_pumpAll : ∀ (l : List Nat) {σ : Broker Ctx}, RetainedFits P.T σ.retained →
    Quiet P (fun _ => True) σ (l.foldl (Broker.pumpOne P) σ)
  | [], σ, _ => .refl P _ σ
  | k :: l, σ, hret => by
    have q := quiet_pumpOne (fun _ => True) σ k hret
    exact q.trans (quiet_pumpAll l (q.retained hret))

/-- The timeout loop of `tick`, -/
def timedOut (P : Params Ctx) (nowMs : Nat) (σ : Broker Ctx) : Broker Ctx :=
  (List.range P.T.maxConnections).foldl (Broker.timeoutOne P nowMs) { σ with nowMs := nowMs }

/-- and the session loop after it. -/
def tickLoops (P : Params Ctx) (nowMs : Nat) (σ : Broker Ctx) : Broker Ctx :=
  (List.range P.T.maxSessions).foldl (Broker.pumpOne P) (timedOut P nowMs σ)

theorem tick_eq (nowMs : Nat) (σ : Broker Ctx) :
    σ.tick P nowMs = ((tickLoops P nowMs σ).flushDead P).expireSessions P nowMs := rfl

theorem quiet_timedOut (nowMs : Nat) (σ : Broker Ctx) :
    Quiet P (fun _ => True) { σ with nowMs := nowMs } (timedOut P nowMs σ) :=
  Quiet.foldl _ (fun σ i => quiet_timeoutOne nowMs σ i) _ _

theorem quiet_tickLoops (nowMs : Nat) (hret : RetainedFits P.T σ.retained) :
    Quiet P (fun _ => True) { σ with nowMs := nowMs } (tickLoops P nowMs σ) :=
  (quiet_timedOut nowMs σ).trans (quiet_pumpAll _ ((quiet_timedOut nowMs σ).retained hret))

theorem tick_stepped (h : Sound P σ) (nowMs : Nat) : Stepped P σ (σ.tick P nowMs) := by
  have q := quiet_tickLoops (P := P) nowMs h.linked.retained
  have hL₀ : Linked P none { σ with nowMs := nowMs } := { h.linked with }
  have hflush := Stepped.flush ((Course.clock σ nowMs).trans (q.course hL₀)) (hL₀.quiet q)
    (fun j => by rw [q.parser]; exact h.parsers j)
  exact hflush.trans (expireSessions_stepped hflush.sound nowMs)

theorem bodyFits_of_guard {topic payload : Bytes} {qos : QoS}
    (h : ¬P.T.outSize - packetOverhead < 2 + topic.length + (if qos == .atMostOnce then 0 else 2) + payload.length) :
    BodyFits P.T topic payload qos := by
  have hu16 : ∀ n, (u16Bytes n).length = 2 := fun _ => rfl
  simp only [BodyFits, publishBody, idField, List.length_append, hu16]
  cases qos <;> simp_all

theorem quiet_application (topic payload : Bytes) (qos : QoS) (retain : Bool) (σ : Broker Ctx) :
    Quiet P (fun _ => False) σ (σ.emit (.application topic payload qos retain)) ∧
      MayPublish P none topic payload qos (σ.emit (.application topic payload qos retain)) := by
  refine ⟨quiet_acts _ [.application topic payload qos retain] ?_ σ, nofun, fun _ =>
    ⟨retain, [], σ.trace, rfl, by simp⟩⟩
  simpa using ⟨⟨⟨rfl, rfl⟩, ⟨trivial, rfl, rfl⟩, rfl, rfl, rfl⟩, rfl⟩

/-- `publish` refuses, or it is a quiet change and `flush_dead`. -/
theorem publish_quiet (topic payload : Bytes) (qos : QoS) (retain : Bool) (σ : Broker Ctx) :
    (σ.publish P topic payload qos retain).2 = σ ∨
      ∃ σ₁, Quiet P (fun _ => False) σ σ₁ ∧ (σ.publish P topic payload qos retain).2 = σ₁.flushDead P := by
  unfold Broker.publish
  extract_lets idLen
  split
  · exact .inl rfl
  rename_i hvalid
  split
  · exact .inl rfl
  rename_i hlen
  split
  · exact .inl rfl
  rename_i hbody
  have htopic : TopicFits P.T topic := ⟨by simpa using hvalid, Nat.not_lt.1 hlen⟩
  obtain ⟨hnote, hmay⟩ := quiet_application (P := P) topic payload qos retain σ
  refine .inr ⟨_, hnote.trans ?_, rfl⟩
  have hpub := fun retain => quiet_publishes (fun _ => False) retain hmay htopic (bodyFits_of_guard hbody)
  cases retain with
  | true => exact hpub true
  | false => exact hpub false

theorem publish_stepped (h : Sound P σ) (topic payload : Bytes) (qos : QoS) (retain : Bool) :
    Stepped P σ (σ.publish P topic payload qos retain).2 := by
  rcases publish_quiet (P := P) topic payload qos retain σ with he | ⟨σ₁, q, he⟩
  · rw [he]
    exact .refl h
  · rw [he]
    exact Stepped.flush (q.course h.linked) (h.linked.quiet q) (fun j => by rw [q.parser]; exact h.parsers j)

/-! ## Runs -/

theorem init_sound (P : Params Ctx) : Sound P (.init : Broker Ctx) where
  linked := by constructor <;> simp [Broker.init, Pool.empty, RetainedFits]
  flushed := fun _ h => by cases h
  parsers := fun _ => FrameParser.held_fresh _

theorem step_stepped (h : Sound P σ) (input : Input) : Stepped P σ (σ.step P input) := by
  cases input with
  | connOpen ci now => exact connOpen_stepped h ci now
  | connClosed ci => exact connClosed_stepped h ci
  | connData ci data now => exact connData_stepped h ci data now
  | tick now => exact tick_stepped h now
  | publish topic payload qos retain => exact publish_stepped h topic payload qos retain

/-- **Every run is sound**, and it got there by steps of the slots. -/
theorem run_stepped (P : Params Ctx) (inputs : List Input) : Stepped P .init (run P inputs) :=
  Stepped.foldl _ (fun _ input h => step_stepped h input) inputs (init_sound P)

theorem run_slot (P : Params Ctx) (inputs : List Input) (k : Nat) :
    SlotRun P k (slotActs k (run P inputs).trace) ((run P inputs).sessions.slot k) :=
      (run_stepped P inputs).evolve.slots k

theorem run_mild (P : Params Ctx) (inputs : List Input) {a : Act Ctx} (ha : a ∈ (run P inputs).trace) : a.Mild P := by
  obtain ⟨new, he, hmild⟩ := (run_stepped P inputs).mild
  rw [he, show (Broker.init : Broker Ctx).trace = [] from rfl, List.append_nil] at ha
  exact hmild a ha

theorem run_line (P : Params Ctx) (inputs : List Input) (ci : Nat) :
    LineRun P ci (lineActs ci (run P inputs).trace) ((run P inputs).conns ci) := (run_stepped P inputs).lines ci

theorem run_books (P : Params Ctx) (inputs : List Input) : Books P (run P inputs) :=
  (run_stepped P inputs).books (.init P)

theorem run_snoc (P : Params Ctx) (inputs : List Input) (i : Input) :
    run P (inputs ++ [i]) = (run P inputs).step P i := by
  simp only [run, List.foldl_append, List.foldl_cons, List.foldl_nil]

theorem run_onward (P : Params Ctx) (earlier later : List Input) :
    Stepped P (run P earlier) (run P (earlier ++ later)) := by
  rw [show run P (earlier ++ later) = later.foldl (Broker.step P) (run P earlier) from List.foldl_append ..]
  exact Stepped.foldl _ (fun _ i h => step_stepped h i) later (run_stepped P earlier).sound

/-- What was done between two states of a run, newest first. -/
def actsSince (σ σ' : Broker Ctx) : Trace Ctx := σ'.trace.take (σ'.trace.length - σ.trace.length)

theorem actsSince_eq {σ σ' : Broker Ctx} {new : Trace Ctx} (h : σ'.trace = new ++ σ.trace) : actsSince σ σ' = new := by
  rw [actsSince, h, List.length_append, Nat.add_sub_cancel]
  exact List.take_left' rfl

/-! ## The links, in the words of the tables -/

/-- **The connection table and the session pool are linked one to one.** -/
structure OneToOne (σ : Broker Ctx) : Prop where
  of_conn : ∀ ci, (σ.conns ci).active = true → (σ.conns ci).session ≠ noSession →
    ∃ s, σ.sessions.slot (σ.conns ci).session = some s ∧ s.conn = ci
  of_session : ∀ k s, σ.sessions.slot k = some s → s.conn ≠ noConn →
    (σ.conns s.conn).active = true ∧ (σ.conns s.conn).session = k
  inactive : ∀ ci, (σ.conns ci).active = false → (σ.conns ci).session = noSession
  offline : ∀ k s, σ.sessions.slot k = some s → s.conn = noConn → s.cleanSession = false ∧ s.hasWill = false

theorem Linked.oneToOne (hL : Linked P none σ) : OneToOne σ where
  of_conn := fun ci _ h => hL.of_conn ci h
  of_session := hL.of_session
  inactive := hL.inactive
  offline := fun k s hs hno => (hL.offline k s hs hno).resolve_left (by simp)

/-- A callback that also keeps every state it leaves, latest first. -/
def recording {S : Type} (onPacket : UInt8 → Bytes → S → Bool × S) (firstByte : UInt8) (body : Bytes) (r : S × List S) :
    Bool × S × List S :=
  ((onPacket firstByte body r.1).1, (onPacket firstByte body r.1).2, (onPacket firstByte body r.1).2 :: r.2)

/-- The states between the packets of one `conn_data`, and after the last of them. -/
def Broker.betweenPackets (P : Params Ctx) (ci : Nat) (data : Bytes) (nowMs : Nat) (σ : Broker Ctx) :
    List (Broker Ctx) :=
  if decide (P.T.maxConnections ≤ ci) || !(σ.conns ci).active || (σ.conns ci).dead then []
  else
    let σ₁ := σ.beginData P ci nowMs
    ((σ₁.conns ci).parser.feed P.T.maxPacketSize (recording (Broker.onPacket P ci)) data (σ₁.setParser ci {}, [])).2.2.2

theorem betweenPackets_linked (h : Sound P σ) (ci : Nat) (data : Bytes) (nowMs : Nat) :
    ∀ σ' ∈ σ.betweenPackets P ci data nowMs, Linked P none σ' := by
  simp only [Broker.betweenPackets]
  split
  · simp
  rename_i hguard
  simp only [Bool.or_eq_true, decide_eq_true_eq, Bool.not_eq_true', not_or, Bool.not_eq_true, Bool.not_eq_false]
    at hguard
  obtain ⟨⟨-, hact⟩, hdead⟩ := hguard
  have hb := beginData_spec h.linked h.parsers ci nowMs
  have h₀ := hb.setParser (FrameParser.held_fresh _)
  refine (FrameParser.feed_rule P.T.maxPacketSize (recording (Broker.onPacket P ci)) (fun r => (r.1.conns ci).dead)
    (fun f body r => onPacket_alive P ci f body r.1)
    (fun r => (Linked P none r.1 ∧ (r.1.conns ci).active = true) ∧ ∀ σ' ∈ r.2, Linked P none σ')
    (fun f body r hlen hr hd => ?_) (hb.parsers ci) data (h₀.dead.trans hdead)
    ⟨⟨h₀.linked, h₀.active.trans hact⟩, by simp⟩).1.2
  · have hone := onPacket_handled hr.1.1 hr.1.2 hd f hlen.1
    refine ⟨⟨hone.linked, hone.active.trans hr.1.2⟩, fun σ' hσ' => ?_⟩
    rcases List.mem_cons.1 hσ' with rfl | hσ'
    · exact hone.linked
    · exact hr.2 σ' hσ'

/-- **Linked one to one, always**: at the return of every entry point and between any two packets of one `conn_data`.
No packet handler dereferences a session that is not there. -/
theorem run_oneToOne (P : Params Ctx) (inputs : List Input) : OneToOne (run P inputs) ∧
    (∀ ci data nowMs, ∀ σ ∈ (run P inputs).betweenPackets P ci data nowMs, OneToOne σ) ∧
    ∀ ci, Act.nullDeref ci ∉ (run P inputs).trace :=
  ⟨(run_stepped P inputs).sound.linked.oneToOne,
    fun ci data nowMs σ hσ => (betweenPackets_linked (run_stepped P inputs).sound ci data nowMs σ hσ).oneToOne,
    fun _ h => run_mild P inputs h⟩

end Minimosq
