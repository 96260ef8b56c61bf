import Minimosq.Slot
/-!
# Delivery is made of slot steps

`Works P conns step k w w'`: on a session and a trace, only acts about slot `k` were added, they are steps of the
session, and what they send goes to the session's connection, which is up in `conns`.
The functions of `Delivery` are such: `pump_session`, `enqueue` and `replay_retained` by `DStep`s, `resume_session` by
`RStep`s.
-/
namespace Minimosq

open History (Star since)

variable {Ctx : Type} {P : Params Ctx} {k : Nat}
variable {s s' : Session Ctx} {i : Nat} {acts h t : Trace Ctx} {a : Act Ctx} {w w' : Work Ctx} {T : Traits}
  {conns : Nat → Conn} {pkt topic : Bytes} {m : OutMsg}

/-! ## What every step leaves alone -/

/-- The part of a session no delivery touches. -/
def Session.frame (s : Session Ctx) : Session Ctx :=
  { s with subs := [], pending := [], lastPacketId := 0, inboundQos2 := [], retainCursor := 0, nextSeq := 0 }

theorem Session.conn_eq_of_frame (h : s'.frame = s.frame) : s'.conn = s.conn :=
  show s'.frame.conn = s.frame.conn by rw [h]

theorem Session.authCtx_eq_of_frame (h : s'.frame = s.frame) : s'.authCtx = s.authCtx :=
  show s'.frame.authCtx = s.frame.authCtx by rw [h]

theorem Session.clientId_eq_of_frame (h : s'.frame = s.frame) : s'.clientId = s.clientId :=
  show s'.frame.clientId = s.frame.clientId by rw [h]

theorem QStep.frame (q : QStep P k i s acts s') : s'.frame = s.frame := by
  cases q with
  | transmit m ok => cases ok <;> rfl
  | advance | stuck => rfl
  | drop => rfl

theorem DStep.frame (d : DStep P k s acts s') : s'.frame = s.frame := by
  cases d with
  | queue i _ q => exact q.frame
  | pumpRel i m ok => cases ok <;> rfl
  | final type state id => simp only [Session.acked]; split <;> rfl
  | _ => rfl

theorem TStep.frame (d : TStep P k h s acts s') : s'.frame = s.frame := by
  cases d with
  | deliver d => exact d.frame
  | subs | publish => rfl

theorem RStep.frame (r : RStep P k h s acts s') : s'.frame = s.frame := by
  cases r with
  | queue i _ q => exact q.frame
  | retransmit i m ok => cases ok <;> rfl
  | rel => rfl

/-- Both sessions have the same subscriptions, and their replay stands at the same place. -/
def Session.SubsEq (s s' : Session Ctx) : Prop := s'.subs = s.subs ∧ s'.retainCursor = s.retainCursor

theorem QStep.subsEq (q : QStep P k i s acts s') : s.SubsEq s' := by
  cases q with
  | transmit m ok => cases ok <;> exact ⟨rfl, rfl⟩
  | _ => exact ⟨rfl, rfl⟩

theorem DStep.subsEq (d : DStep P k s acts s') : s.SubsEq s' := by
  cases d with
  | queue i _ q => exact q.subsEq
  | pumpRel i m ok => cases ok <;> exact ⟨rfl, rfl⟩
  | final type state id => simp only [Session.acked]; split <;> exact ⟨rfl, rfl⟩
  | _ => exact ⟨rfl, rfl⟩

theorem RStep.subsEq (r : RStep P k h s acts s') : s.SubsEq s' := by
  cases r with
  | queue i _ q => exact q.subsEq
  | retransmit i m ok => cases ok <;> exact ⟨rfl, rfl⟩
  | rel => exact ⟨rfl, rfl⟩

/-- An act of delivery. -/
def Act.delivers : Act Ctx → Bool
  | .send _ _ _ _ | .event _ _ | .matching _ _ _ | .routed _ _ _ _ | .unbuilt _ | .enqueue _ _ _ _ _ _ | .ack _ _ _ _
  | .inbound _ _ _ | .evict _ _ | .pubrel _ _ | .stuck _ => true
  | _ => false

theorem Act.isSubs_of_delivers (h : a.delivers = true) (k : Nat) : a.isSubs k = false := by
  cases a <;> first | rfl | cases h

theorem QStep.delivers (q : QStep P k i s acts s') : ∀ a ∈ acts, a.delivers = true := by
  cases q <;> simp [Act.delivers]

theorem DStep.delivers (d : DStep P k s acts s') : ∀ a ∈ acts, a.delivers = true := by
  cases d with
  | queue i _ q => exact q.delivers
  | _ => simp [Act.delivers]

theorem RStep.delivers (r : RStep P k h s acts s') : ∀ a ∈ acts, a.delivers = true := by
  cases r with
  | queue i _ q => exact q.delivers
  | _ => simp [Act.delivers]

theorem Act.slot_of_isSubs (h : a.isSubs k = true) : a.slot = some k := by
  cases a <;> simp_all [Act.isSubs, Act.slot]

theorem QStep.slot (q : QStep P k i s acts s') : ∀ a ∈ acts, a.slot = some k := by
  cases q <;> simp [Act.slot, tagOf]

theorem DStep.slot (d : DStep P k s acts s') : ∀ a ∈ acts, a.slot = some k := by
  cases d with
  | queue i _ q => exact q.slot
  | _ => simp [Act.slot, tagOf]

theorem TStep.slot (d : TStep P k h s acts s') : ∀ a ∈ acts, a.slot = some k := by
  cases d with
  | deliver d => exact d.slot
  | subs _ _ hacts => exact fun a ha => Act.slot_of_isSubs (hacts a ha)
  | publish _ _ _ _ _ ha => simpa using Act.slot_of_plain ha.plain

theorem RStep.slot (r : RStep P k h s acts s') : ∀ a ∈ acts, a.slot = some k := by
  cases r with
  | queue i _ q => exact q.slot
  | _ => simp [Act.slot, tagOf]

/-! ## Work on a session and the trace -/

/-- An act of delivery or of the subscriptions.  What is sent is one packet, no CONNACK, and goes to `ci`, which is
up. -/
def Act.Lands (P : Params Ctx) (conns : Nat → Conn) (ci : Nat) : Act Ctx → Prop
  | .send j pkt _ _ => j = ci ∧ (conns ci).active = true ∧ (conns ci).dead = false ∧
      ∃ t, t ≠ .connack ∧ IsPacket P.T.outSize t pkt
  | .event e slot => (Act.event e slot : Act Ctx).line = none
  | .matching _ _ _ | .routed _ _ _ _ | .unbuilt _ | .enqueue _ _ _ _ _ _ | .ack _ _ _ _ | .inbound _ _ _
  | .evict _ _ | .pubrel _ _ | .stuck _ | .subscribe _ _ _ | .unsubscribe _ _ | .replay _ => True
  | _ => False

/-- `w'` is `w` after steps of the session in slot `k`. -/
structure Works (P : Params Ctx) (conns : Nat → Conn) (step : Trace Ctx → Session Ctx → Trace Ctx → Session Ctx → Prop)
    (k : Nat) (w w' : Work Ctx) : Prop where
  conn : w'.1.conn = w.1.conn
  run : ∃ new, w'.2 = new ++ w.2 ∧ (∀ a ∈ new, a.slot = some k ∧ a.Lands P conns w.1.conn) ∧
    Star step (slotActs k w.2) w.1 (new ++ slotActs k w.2) w'.1

/-- Delivery steps, which read no history. -/
abbrev DRun (P : Params Ctx) (k : Nat) : Trace Ctx → Session Ctx → Trace Ctx → Session Ctx → Prop := fun _ => DStep P k

/-- The same, with the subscriptions. -/
abbrev TRun (P : Params Ctx) (k : Nat) : Trace Ctx → Session Ctx → Trace Ctx → Session Ctx → Prop := TStep P k

section
variable {conns : Nat → Conn} {step : Trace Ctx → Session Ctx → Trace Ctx → Session Ctx → Prop} {w w' w'' : Work Ctx}

theorem Works.refl (P : Params Ctx) (conns : Nat → Conn) (step : Trace Ctx → Session Ctx → Trace Ctx → Session Ctx →
    Prop) (w : Work Ctx) : Works P conns step k w w :=
  ⟨rfl, [], rfl, by simp, .refl⟩

theorem Works.trans (h₁ : Works P conns step k w w') (h₂ : Works P conns step k w' w'') :
    Works P conns step k w w'' := by
  obtain ⟨c₁, n₁, e₁, o₁, r₁⟩ := h₁
  obtain ⟨c₂, n₂, e₂, o₂, r₂⟩ := h₂
  refine ⟨c₂.trans c₁, n₂ ++ n₁, by rw [e₂, e₁, List.append_assoc], fun a ha => ?_, ?_⟩
  · rw [c₁] at o₂
    rcases List.mem_append.1 ha with ha | ha
    · exact o₂ a ha
    · exact o₁ a ha
  · rw [e₁, slotActs_append, slotActs_own (fun a ha => (o₁ a ha).1)] at r₂
    rw [List.append_assoc]
    exact r₁.trans r₂

theorem Works.dstep (d : DStep P k s acts s') (hland : ∀ a ∈ acts, a.Lands P conns s.conn) :
    Works P conns (DRun P k) k (s, t) (s', acts ++ t) :=
  ⟨Session.conn_eq_of_frame d.frame, acts, rfl, fun a ha => ⟨d.slot a ha, hland a ha⟩, .single d⟩

theorem Works.tstep (d : TStep P k (slotActs k t) s acts s') (hland : ∀ a ∈ acts, a.Lands P conns s.conn) :
    Works P conns (TRun P k) k (s, t) (s', acts ++ t) :=
  ⟨Session.conn_eq_of_frame d.frame, acts, rfl, fun a ha => ⟨d.slot a ha, hland a ha⟩, .single d⟩

theorem Works.rstep (r : RStep P k (slotActs k t) s acts s') (hland : ∀ a ∈ acts, a.Lands P conns s.conn) :
    Works P conns (RStep P k) k (s, t) (s', acts ++ t) :=
  ⟨Session.conn_eq_of_frame r.frame, acts, rfl, fun a ha => ⟨r.slot a ha, hland a ha⟩, .single r⟩

theorem Works.subs (s : Session Ctx) (t : Trace Ctx) (subs : List Subscription) (cursor : Nat) (hon : s.conn ≠ noConn)
    (hfits : ∀ sub ∈ subs, (∃ sub' ∈ s.subs, sub'.filter = sub.filter) ∨ FilterFits P.T sub.filter) :
    Works P conns (TRun P k) k (s, t) ({ s with subs := subs, retainCursor := cursor }, t) :=
  show Works _ _ _ _ _ (_, [] ++ t) from .tstep (.subs subs cursor (by simp) hon hfits) (by simp)

theorem Works.deliver (h : Works P conns (DRun P k) k w w') : Works P conns (TRun P k) k w w' := by
  obtain ⟨hc, new, he, ho, run⟩ := h
  exact ⟨hc, new, he, ho, run.mono (fun _ _ _ _ d => .deliver d)⟩

theorem Works.frame (h : Works P conns (TRun P k) k w w') : w'.1.frame = w.1.frame := by
  obtain ⟨_, _, _, _, run⟩ := h
  exact run.inv (fun _ s => s.frame = w.1.frame) (fun _ _ _ _ e d => d.frame.trans e) rfl

theorem Works.resume_frame (h : Works P conns (RStep P k) k w w') : w'.1.frame = w.1.frame := by
  obtain ⟨_, _, _, _, run⟩ := h
  exact run.inv (fun _ s => s.frame = w.1.frame) (fun _ _ _ _ e r => r.frame.trans e) rfl

theorem Works.resume_subsEq (h : Works P conns (RStep P k) k w w') : w.1.SubsEq w'.1 := by
  obtain ⟨_, _, _, _, run⟩ := h
  exact run.inv (fun _ s => w.1.SubsEq s)
    (fun _ _ _ _ e r => ⟨r.subsEq.1.trans e.1, r.subsEq.2.trans e.2⟩) ⟨rfl, rfl⟩

end

/-- All the acts of a resumption are deliveries. -/
theorem Works.resume_delivers {new : Trace Ctx} (run : Star (RStep P k) h s (new ++ h) s') :
    ∀ a ∈ new, a.delivers = true := by
  have hall : ∃ new', new ++ h = new' ++ h ∧ ∀ a ∈ new', a.delivers = true := by
    refine run.inv (fun h' _ => ∃ new', h' = new' ++ h ∧ ∀ a ∈ new', a.delivers = true) ?_ ⟨[], rfl, by simp⟩
    rintro _ _ acts _ ⟨new', rfl, hd⟩ r
    refine ⟨acts ++ new', (List.append_assoc ..).symm, fun a ha => ?_⟩
    exact (List.mem_append.1 ha).elim (r.delivers a) (hd a)
  obtain ⟨new', he, hd⟩ := hall
  rw [List.append_cancel_right he]
  exact hd

/-! ## Helpers -/

theorem connIndex_of_lt (h : connIndex T s < T.maxConnections) :
    connIndex T s = s.conn ∧ s.conn < T.maxConnections ∧ s.conn ≠ noConn := by
  unfold connIndex at h ⊢
  split at h
  · rename_i hcon
    simp only [Bool.and_eq_true, Session.connected, bne_iff_ne, decide_eq_true_eq] at hcon
    exact ⟨if_pos (by simp [Session.connected, hcon]), hcon.2, hcon.1⟩
  · exact absurd h (Nat.lt_irrefl _)

theorem connIndex_of_online (h : online T conns s = true) :
    connIndex T s = s.conn ∧ s.conn < T.maxConnections ∧ s.conn ≠ noConn ∧ (conns s.conn).dead = false := by
  simp only [online, connOfSession] at h
  by_cases hlt : connIndex T s < T.maxConnections
  · obtain ⟨hidx, hmax, hno⟩ := connIndex_of_lt hlt
    rw [if_pos hlt, hidx] at h
    exact ⟨hidx, hmax, hno, by simpa using h⟩
  · rw [if_neg hlt] at h
    cases h

theorem online_of_noConn (h : s.conn = noConn) : online T conns s = false :=
  Bool.eq_false_iff.2 (fun hon => (connIndex_of_online hon).2.2.1 h)

theorem online_congr (h : s'.conn = s.conn) : online T conns s' = online T conns s := by
  have hc : s'.connected = s.connected := by simp only [Session.connected, h]
  have hi : connIndex T s' = connIndex T s := by simp only [connIndex, hc, h]
  simp only [online, connOfSession, hi]

/-- **What `try_send_to` does** with a packet: nothing, or one call of the transport, whose verdict it returns. -/
theorem trySendTo_cases (P : Params Ctx) (conns : Nat → Conn) (tag : Option (Tag Ctx)) (ci : Nat) (hpkt : pkt ≠ [])
    (t : Trace Ctx) :
    trySendTo P conns tag ci pkt t = (false, t) ∧ (P.T.maxConnections ≤ ci ∨ (conns ci).active = false ∨
        (conns ci).dead = true) ∨
    ((conns ci).active = true ∧ (conns ci).dead = false) ∧
      trySendTo P conns tag ci pkt t = (P.send t ci pkt, .send ci pkt (P.send t ci pkt) tag :: t) := by
  simp only [trySendTo]
  by_cases hci : P.T.maxConnections ≤ ci
  · exact .inl ⟨if_pos hci, .inl hci⟩
  · rw [if_neg hci]
    by_cases hc : (!(conns ci).active || (conns ci).dead) = true
    · refine .inl ⟨if_pos hc, .inr ?_⟩
      simpa only [Bool.or_eq_true, Bool.not_eq_true'] using hc
    · rw [if_neg hc, if_neg (by simpa using hpkt)]
      exact .inr ⟨by simpa using hc, rfl⟩

theorem trySendTo_up (hon : online P.T conns s = true) (hact : (conns s.conn).active = true) (hpkt : pkt ≠ [])
    (tag : Option (Tag Ctx)) (t : Trace Ctx) :
    trySendTo P conns tag s.conn pkt t = (P.send t s.conn pkt, .send s.conn pkt (P.send t s.conn pkt) tag :: t) := by
  obtain ⟨-, hlt, -, hdead⟩ := connIndex_of_online hon
  rcases trySendTo_cases P conns tag s.conn hpkt t with ⟨-, h | h | h⟩ | ⟨-, h⟩
  · omega
  · simp [hact] at h
  · simp [hdead] at h
  · exact h

theorem outSize_ge (T : Traits) : packetOverhead + 2 ≤ T.outSize := by
  have hbody : 2 ≤ T.storedBodyMax := by simp only [Traits.storedBodyMax]; omega
  rw [Traits.outSize]
  split <;> omega

theorem pubrelOf_isPacket (T : Traits) (m : OutMsg) : IsPacket T.outSize .pubrel (pubrelOf T m) :=
  buildPacketIdOnly_isPacket (outSize_ge T) _ _

theorem pubrelOf_ne_nil (T : Traits) (m : OutMsg) : pubrelOf T m ≠ [] := (pubrelOf_isPacket T m).ne_nil

theorem lands_send {ci : Nat} (hup : (conns ci).active = true ∧ (conns ci).dead = false) {type : PacketType}
    (ht : type ≠ .connack) (hpkt : IsPacket P.T.outSize type pkt) (ok : Bool) (tag : Option (Tag Ctx)) :
    ∀ a ∈ [Act.send ci pkt ok tag], a.Lands P conns ci := by
  simp only [List.mem_singleton, forall_eq]
  exact ⟨rfl, hup.1, hup.2, type, ht, hpkt⟩

/-! ## Positions in the queue -/

section
variable {s : Session Ctx} {i : Nat} {p q : OutMsg → Prop} {m : OutMsg}

theorem Before.zero (s : Session Ctx) (p : OutMsg → Prop) : Before s 0 p := fun _ h => absurd h (Nat.not_lt_zero _)

theorem Before.mono (hb : Before s i p) (h : ∀ m, p m → q m) : Before s i q := fun j hj m hm => h m (hb j hj m hm)

theorem Before.skip (hb : Before s i p) (hm : s.pending[i]? = some m) (hp : p m) : Before s (i + 1) p := by
  intro j hj m' hm'
  rcases Nat.lt_succ_iff_lt_or_eq.1 hj with hj | rfl
  · exact hb j hj m' hm'
  · rw [hm] at hm'
    cases hm'
    exact hp

theorem Before.set (hb : Before s i p) (hp : p m) : Before (s.setPending i m) (i + 1) p := by
  intro j hj m' hm'
  simp only [Session.setPending, List.getElem?_set] at hm'
  rcases Nat.lt_succ_iff_lt_or_eq.1 hj with hj | rfl
  · rw [if_neg (by omega)] at hm'
    exact hb j hj m' hm'
  · rw [if_pos rfl] at hm'
    split at hm'
    · cases hm'
      exact hp
    · cases hm'

theorem Before.set_self (hb : Before s i p) : Before (s.setPending i m) i p := by
  intro j hj m' hm'
  simp only [Session.setPending] at hm'
  rw [List.getElem?_set_ne (by omega)] at hm'
  exact hb j hj m' hm'

theorem Before.remove (hb : Before s i p) : Before (s.removePending i) i p := by
  intro j hj m' hm'
  rw [Session.removePending, List.getElem?_eraseIdx_of_lt hj] at hm'
  exact hb j hj m' hm'

end

theorem sentState_settled (m : OutMsg) (id : Nat) : Settled (m.sent id) := by
  cases h : m.qos <;> simp [OutMsg.sent, Settled, sentState, h]

/-! ## The loops -/

/-- **The rule for `queueLoop`**: `I` holds of the position and the work before each turn, `Q` of the work left.  A turn
moves on or shortens the queue. -/
theorem queueLoop_rule {turn : Nat → OutMsg → Work Ctx → Option Nat × Work Ctx} (I : Nat → Work Ctx → Prop)
    (Q : Work Ctx → Prop) (hend : ∀ i w, I i w → w.1.pending[i]? = none → Q w)
    (hturn : ∀ i m w, I i w → w.1.pending[i]? = some m →
      ((turn i m w).1 = none → Q (turn i m w).2) ∧
      ∀ j, (turn i m w).1 = some j → I j (turn i m w).2 ∧
        (turn i m w).2.1.pending.length + i < w.1.pending.length + j) :
    ∀ (n i : Nat) (w : Work Ctx), I i w → w.1.pending.length ≤ i + n → Q (queueLoop turn n i w)
  | 0, i, w, hi, hn => hend i w hi (List.getElem?_eq_none (by omega))
  | n + 1, i, w, hi, hn => by
    rw [queueLoop]
    cases hm : w.1.pending[i]? with
    | none => exact hend i w hi hm
    | some m =>
      obtain ⟨hstop, hgo⟩ := hturn i m w hi hm
      rcases hr : turn i m w with ⟨j, w'⟩
      rw [hr] at hstop hgo
      dsimp only
      rw [hr]
      cases j with
      | none => exact hstop rfl
      | some j =>
        obtain ⟨hj, hlt⟩ := hgo j rfl
        exact queueLoop_rule I Q hend hturn n j w' hj (by simp only at hlt; omega)

/-- What every turn keeps, wherever it is made, the loop keeps. -/
theorem queueLoop_keeps {turn : Nat → OutMsg → Work Ctx → Option Nat × Work Ctx} {I : Work Ctx → Prop}
    (hturn : ∀ i m w, I w → I (turn i m w).2) : ∀ (n i : Nat) {w : Work Ctx}, I w → I (queueLoop turn n i w)
  | 0, _, _, h => h
  | n + 1, i, w, h => by
    rw [queueLoop]
    split
    · exact h
    rename_i m _
    have h' := hturn i m w h
    split <;> rename_i he <;> rw [he] at h'
    · exact h'
    · exact queueLoop_keeps hturn n _ h'

section
variable {s : Session Ctx} {i : Nat} {m : OutMsg}

theorem length_setPending (s : Session Ctx) (i : Nat) (m : OutMsg) :
    (s.setPending i m).pending.length = s.pending.length := List.length_set ..

theorem length_removePending (hm : s.pending[i]? = some m) :
    (s.removePending i).pending.length + 1 = s.pending.length := by
  have hi := (List.getElem?_eq_some_iff.1 hm).1
  rw [Session.removePending, List.length_eraseIdx_of_lt hi]
  omega

theorem setPending_get (hm : s.pending[i]? = some m) (m' : OutMsg) : (s.setPending i m').pending[i]? = some m' :=
  List.getElem?_set_self (List.getElem?_eq_some_iff.1 hm).1

end

/-- **A turn of `pump_session`** is made of delivery steps and leaves settled entries behind; on a live connection it
returns only at a refusal, or for want of an id. -/
theorem pumpTurn_spec (P : Params Ctx) (conns : Nat → Conn) (k : Nat) (hb : Before s i Settled)
    (hm : s.pending[i]? = some m) : let r := pumpTurn P conns k i m (s, t)
    Works P conns (DRun P k) k (s, t) r.2 ∧
    (r.1 = none → online P.T conns s = true → (conns s.conn).active = true →
      (∃ pkt tag, r.2.2 = .send s.conn pkt false tag :: t) ∨ (r.2.1 = s ∧ m.state = .queued)) ∧
    ∀ j, r.1 = some j → Before r.2.1 j Settled ∧ r.2.1.pending.length + i < s.pending.length + j := by
  simp only [pumpTurn]
  split
  · rename_i hoff
    exact ⟨.refl _ _ _ _, fun _ hon => by (rw [hon] at hoff; cases hoff), fun j hj => by cases hj⟩
  rename_i hon
  have hon : online P.T conns s = true := by simpa using hon
  obtain ⟨hidx, -, hno, -⟩ := connIndex_of_online hon
  rw [hidx]
  split
  · rename_i hrel
    simp only [Bool.and_eq_true, beq_iff_eq] at hrel
    rw [← pubrelOf]
    rcases trySendTo_cases P conns (tagOf k s (some m.seq)) s.conn (pubrelOf_ne_nil P.T m) t with ⟨he, hwhy⟩ | ⟨hup, he⟩
    · rw [he]
      refine ⟨.refl _ _ _ _, fun _ _ hact => ?_, fun j hj => by cases hj⟩
      rw [trySendTo_up hon hact (pubrelOf_ne_nil P.T m)] at he
      exact absurd (congrArg Prod.snd he) (List.cons_ne_self _ _)
    · rw [he]
      have hone := Works.dstep (t := t) (.pumpRel (P := P) (k := k) i m (P.send t s.conn (pubrelOf P.T m)) hno hm hrel.1
        hrel.2 hb) (lands_send hup (by decide) (pubrelOf_isPacket P.T m) _ _)
      cases hok : P.send t s.conn (pubrelOf P.T m) with
      | false =>
        rw [hok] at hone
        exact ⟨hone, fun _ _ _ => .inl ⟨_, _, rfl⟩, fun j hj => by cases hj⟩
      | true =>
        rw [hok] at hone
        refine ⟨hone, fun hj => by (cases hj), fun j hj => ?_⟩
        cases hj
        exact ⟨hb.set (by simp [Settled, hrel.1]), by simp [length_setPending]⟩
  · rename_i hrel
    split
    · rename_i hq
      refine ⟨.refl _ _ _ _, fun hj => by (cases hj), fun j hj => ?_⟩
      cases hj
      exact ⟨hb.skip hm ⟨by simpa using hq, fun hst => by simpa [hst] using hrel⟩, by simp⟩
    · rename_i hq
      have hq : m.state = .queued := by simpa using hq
      split
      · rename_i hid
        exact ⟨.dstep (.queue i hno (.stuck hid m hm hq)) (List.forall_mem_singleton.2 trivial), fun _ _ _ =>
          .inr ⟨rfl, hq⟩,
          fun j hj => by cases hj⟩
      rename_i id hid
      have hadv : Works P conns (DRun P k) k (s, t) ({ s with lastPacketId := id }, t) :=
        .dstep (.queue i hno (.advance hid)) (by simp)
      rw [← publishOf]
      split
      · rename_i hpkt
        have hdrop : ∀ e, DStep P k { s with lastPacketId := id } [.event e (some k), .unbuilt (some k)] _ :=
          fun e => .queue i hno (.drop m e m.dup id hm (by simp [hq]) (List.isEmpty_iff.1 hpkt))
        refine ⟨hadv.trans (.dstep (hdrop _) (List.forall_mem_cons.2 ⟨rfl, List.forall_mem_singleton.2 trivial⟩)),
          fun hj => by (cases hj), fun j hj => ?_⟩
        cases hj
        exact ⟨hb.remove, by have := length_removePending hm; simp only [Session.removePending] at this ⊢; omega⟩
      · rename_i hpkt
        have hpkt : publishOf P.T m m.dup id ≠ [] := by simpa using hpkt
        rcases trySendTo_cases P conns (tagOf k s (some m.seq)) s.conn hpkt t with ⟨he, -⟩ | ⟨hup, he⟩
        · rw [he]
          refine ⟨hadv, fun _ _ hact => ?_, fun j hj => by cases hj⟩
          rw [trySendTo_up hon hact hpkt] at he
          exact absurd (congrArg Prod.snd he) (List.cons_ne_self _ _)
        · rw [he]
          have hone := Works.dstep (t := t) (.queue i hno (.transmit (P := P) (k := k) m
            (P.send t s.conn (publishOf P.T m m.dup id)) hid hm hq hb hpkt))
            (lands_send hup (by decide) (buildPublish_isPacket hpkt) _ _)
          cases hok : P.send t s.conn (publishOf P.T m m.dup id) with
          | false =>
            rw [hok] at hone
            exact ⟨hone, fun _ _ _ => .inl ⟨_, _, rfl⟩, fun j hj => by cases hj⟩
          | true =>
            rw [hok] at hone
            refine ⟨hone, fun hj => by (cases hj), fun j hj => ?_⟩
            cases hj
            exact ⟨Before.set hb (sentState_settled m _), by simp [length_setPending]⟩

theorem pumpSession_works (P : Params Ctx) (conns : Nat → Conn) (k : Nat) (w : Work Ctx) :
    Works P conns (DRun P k) k w (pumpSession P conns k w) :=
  queueLoop_rule (fun i w' => Works P conns (DRun P k) k w w' ∧ Before w'.1 i Settled)
    (fun w' => Works P conns (DRun P k) k w w') (fun _ _ h _ => h.1)
    (fun i m w' h hm => by
      obtain ⟨hworks, -, hgo⟩ := pumpTurn_spec P conns k (t := w'.2) h.2 hm
      exact ⟨fun _ => h.1.trans hworks, fun j hj => ⟨⟨h.1.trans hworks, (hgo j hj).1⟩, (hgo j hj).2⟩⟩)
    _ 0 w ⟨.refl _ _ _ _, .zero _ _⟩ (by omega)

/-! ### Resumption -/

theorem SentSince.cons {n : Nat} (ha : a.isBind = false) (hs : SentSince h n) : SentSince (a :: h) n := by
  obtain ⟨b, hb, hn⟩ := hs
  exact ⟨b, by rw [History.since_cons ha]; exact List.mem_cons_of_mem _ hb, hn⟩

theorem SentSince.here (h : Trace Ctx) (ci n : Nat) (pkt : Bytes) (s : Session Ctx) :
    SentSince (.send ci pkt true (tagOf k s (some n)) :: h) n :=
  ⟨_, by rw [History.since_cons rfl]; exact List.mem_cons_self, by simp [Act.took, tagOf]⟩

/-- Everything before position `i` went out on this connection and needs nothing more. -/
abbrev Through (k : Nat) (t : Trace Ctx) (s : Session Ctx) (i : Nat) : Prop :=
  Before s i (fun m => SentSince (slotActs k t) m.seq ∧ Settled m)

theorem Through.cons (hb : Through k t s i) (ha : a.isBind = false) (hk : a.slot = some k) : Through k (a :: t) s i :=
  hb.mono (fun m hm => ⟨by rw [slotActs_cons_own hk]; exact hm.1.cons ha, hm.2⟩)

/-- A turn of `resume_session` that sends `pkt`, which leaves `s₁` when it is refused and goes on from `s₂`. -/
theorem resumeTurn_sends {m₁ : OutMsg} {s₁ s₂ : Session Ctx} (ok : Bool)
    (hup : (conns s.conn).active = true ∧ (conns s.conn).dead = false) {type : PacketType} (htype : type ≠ .connack)
    (hpkt : IsPacket P.T.outSize type pkt)
    (hr : RStep P k (slotActs k t) s [.send s.conn pkt ok (tagOf k s (some m.seq))] (if ok then s₂ else s₁))
    (h₁ : Through k t s₁ i) (hm₁ : s₁.pending[i]? = some m₁) (hseq₁ : m₁.seq = m.seq) (hctx : s₁.authCtx = s.authCtx)
    (hflag : m₁.state = .awaitingPubcomp → m₁.resendPubrel = true)
    (h₂ : Before s₂ (i + 1) (fun m' => (SentSince (slotActs k t) m'.seq ∨ m'.seq = m.seq) ∧ Settled m'))
    (hlen : s₂.pending.length = s.pending.length) : let t' := .send s.conn pkt ok (tagOf k s (some m.seq)) :: t
    let r : Option Nat × Work Ctx := if !ok then (none, (s₁, t')) else (some (i + 1), (s₂, t'))
    Works P conns (RStep P k) k (s, t) r.2 ∧ (r.1 = none → ResumeEnd (slotActs k r.2.2) r.2.1) ∧
    ∀ j, r.1 = some j → Through k r.2.2 r.2.1 j ∧ r.2.1.pending.length + i < s.pending.length + j := by
  have hone := Works.rstep hr (lands_send hup htype hpkt ok _)
  have hslot : (Act.send s.conn pkt ok (tagOf k s (some m.seq))).slot = some k := by simp [Act.slot, tagOf]
  cases ok with
  | false =>
    simp only [Bool.not_false, if_true]
    refine ⟨hone, fun _ => ⟨i, Through.cons h₁ rfl hslot, fun m' hm' => ?_⟩, fun j hj => by cases hj⟩
    rw [hm₁] at hm'
    cases hm'
    refine ⟨.inl ⟨s.conn, pkt, k, slotActs k t, ?_⟩, hflag⟩
    simp only [tagOf, hseq₁, hctx]
    exact slotActs_cons_own hslot t
  | true =>
    simp only [Bool.not_true, Bool.false_eq_true, if_false]
    refine ⟨hone, fun hj => by (cases hj), fun j hj => ?_⟩
    cases hj
    refine ⟨h₂.mono (fun m' hm' => ⟨?_, hm'.2⟩), by omega⟩
    rw [slotActs_cons_own hslot]
    rcases hm'.1 with hs | he
    · exact hs.cons rfl
    · rw [he]
      exact .here _ _ _ _ _

/-- **A turn of `resume_session`** is made of resume steps; it returns on a live connection only as `ResumeEnd` says. -/
theorem resumeTurn_spec (P : Params Ctx) (conns : Nat → Conn) (k : Nat) (hact : (conns s.conn).active = true)
    (hb : Through k t s i) (hm : s.pending[i]? = some m) : let r := resumeTurn P conns k i m (s, t)
    Works P conns (RStep P k) k (s, t) r.2 ∧
    (r.1 = none → online P.T conns s = true → ResumeEnd (slotActs k r.2.2) r.2.1) ∧
    ∀ j, r.1 = some j → Through k r.2.2 r.2.1 j ∧ r.2.1.pending.length + i < s.pending.length + j := by
  have hsent : Before s i (SentSince (slotActs k t) ·.seq) := hb.mono (fun _ h => h.1)
  have hset : Before s i Settled := hb.mono (fun _ h => h.2)
  have hweak : Before s i (fun m' => (SentSince (slotActs k t) m'.seq ∨ m'.seq = m.seq) ∧ Settled m') :=
    hb.mono (fun _ h => ⟨.inl h.1, h.2⟩)
  simp only [resumeTurn]
  split
  · rename_i hoff
    exact ⟨.refl _ _ _ _, fun _ hon => by (rw [hon] at hoff; cases hoff), fun j hj => by cases hj⟩
  rename_i hon
  have hon : online P.T conns s = true := by simpa using hon
  obtain ⟨hidx, -, -, hdead⟩ := connIndex_of_online hon
  rw [hidx]
  split
  · rename_i hst
    have hst : m.state = .awaitingPubcomp := by simpa using hst
    rw [← pubrelOf, trySendTo_up hon hact (pubrelOf_ne_nil P.T m)]
    have hr : ∀ ok, RStep P k (slotActs k t) s [.send s.conn (pubrelOf P.T m) ok (tagOf k s (some m.seq))]
        (if ok then s.setPending i { m with resendPubrel := false } else s.setPending i
          { m with resendPubrel := true }) :=
      fun ok => by cases ok <;> exact .rel i m _ hsent hm hst
    have hturn := resumeTurn_sends (P.send t s.conn (pubrelOf P.T m)) ⟨hact, hdead⟩ (by decide)
      (pubrelOf_isPacket P.T m) (hr _) hb.set_self (setPending_get hm _) rfl rfl (fun _ => rfl)
      (hweak.set ⟨.inr rfl, by simp [Settled, hst]⟩) (length_setPending _ _ _)
    exact ⟨hturn.1, fun h _ => hturn.2.1 h, hturn.2.2⟩
  · rename_i hst
    have hst : m.state ≠ .awaitingPubcomp := by simpa using hst
    by_cases hq : m.state = .queued
    · simp only [hq, beq_self_eq_true, if_true]
      split
      · rename_i hid
        refine ⟨.rstep (.queue i hsent (.stuck hid m hm hq)) (List.forall_mem_singleton.2 trivial), fun _ _ =>
          ⟨i, Through.cons hb rfl rfl, fun m' hm' => ?_⟩, fun j hj => by cases hj⟩
        rw [hm] at hm'
        cases hm'
        exact ⟨.inr hq, fun h => absurd h hst⟩
      rename_i id hid
      rw [← publishOf]
      split
      · rename_i hpkt
        have hadv : Works P conns (RStep P k) k (s, t) ({ s with lastPacketId := id }, t) :=
          .rstep (.queue i hsent (.advance hid)) (by simp)
        have hdrop : ∀ e, RStep P k (slotActs k t) { s with lastPacketId := id }
            [.event e (some k), .unbuilt (some k)] _ :=
          fun e => .queue i hsent (.drop m e m.dup id hm hst (List.isEmpty_iff.1 hpkt))
        refine ⟨hadv.trans (.rstep (hdrop _) (List.forall_mem_cons.2 ⟨rfl, List.forall_mem_singleton.2 trivial⟩)),
          fun hj => by (cases hj), fun j hj => ?_⟩
        cases hj
        exact ⟨Through.cons (Through.cons (Before.remove hb) rfl rfl) rfl rfl,
          by have := length_removePending hm; simp only [Session.removePending] at this ⊢; omega⟩
      · rename_i hpkt
        have hpkt : publishOf P.T m m.dup id ≠ [] := by simpa using hpkt
        rw [trySendTo_up hon hact hpkt]
        have hturn := resumeTurn_sends (P.send t s.conn (publishOf P.T m m.dup id)) ⟨hact, hdead⟩ (by decide)
          (buildPublish_isPacket hpkt) (.queue i hsent (.transmit m _ hid hm hq hset hpkt)) hb hm rfl rfl
            (fun h => absurd h hst) (Before.set hweak ⟨.inr rfl, sentState_settled m _⟩) (length_setPending _ _ _)
        exact ⟨hturn.1, fun h _ => hturn.2.1 h, hturn.2.2⟩
    · have hq' : (m.state == OutState.queued) = false := by simpa using hq
      simp only [hq', Bool.false_eq_true, if_false]
      rw [← publishOf]
      split
      · rename_i hpkt
        have hdrop : ∀ e, RStep P k (slotActs k t) s [.event e (some k), .unbuilt (some k)] _ :=
          fun e => .queue i hsent (.drop m e true m.packetId hm hst (List.isEmpty_iff.1 hpkt))
        refine ⟨.rstep (hdrop _) (List.forall_mem_cons.2 ⟨rfl, List.forall_mem_singleton.2 trivial⟩),
          fun hj => by (cases hj), fun j hj => ?_⟩
        cases hj
        exact ⟨Through.cons (Through.cons (Before.remove hb) rfl rfl) rfl rfl,
          by have := length_removePending hm; simp only [Session.removePending] at this ⊢; omega⟩
      · rename_i hpkt
        have hpkt : publishOf P.T m true m.packetId ≠ [] := by simpa using hpkt
        have hst' : m.state = .awaitingPuback ∨ m.state = .awaitingPubrec := by
          cases h : m.state <;> simp_all
        rw [trySendTo_up hon hact hpkt]
        have hturn := resumeTurn_sends (P.send t s.conn (publishOf P.T m true m.packetId)) ⟨hact, hdead⟩ (by decide)
          (buildPublish_isPacket hpkt) (.retransmit i m _ hsent hm hst' hpkt) hb hm rfl rfl (fun h => absurd h hst)
          (hweak.set ⟨.inr rfl, by simp [Settled, hq, hst]⟩) (length_setPending _ _ _)
        exact ⟨hturn.1, fun h _ => hturn.2.1 h, hturn.2.2⟩

/-- **`resume_session` is made of resume steps, and on a live connection stops as `ResumeEnd` says.** -/
theorem resumeSession_works (P : Params Ctx) (conns : Nat → Conn) (k : Nat) (w : Work Ctx)
    (hact : (conns w.1.conn).active = true) : Works P conns (RStep P k) k w (resumeSession P conns k w) ∧
    (online P.T conns w.1 = true → ResumeEnd (slotActs k (resumeSession P conns k w).2)
      (resumeSession P conns k w).1) :=
  queueLoop_rule (fun i w' => Works P conns (RStep P k) k w w' ∧ Through k w'.2 w'.1 i)
    (fun w' => Works P conns (RStep P k) k w w' ∧ (online P.T conns w.1 = true → ResumeEnd (slotActs k w'.2) w'.1))
    (fun i w' h hm => ⟨h.1, fun _ => ⟨i, h.2, fun m hm' => by rw [hm] at hm'; cases hm'⟩⟩)
    (fun i m w' h hm => by
      have hconn : w'.1.conn = w.1.conn := Session.conn_eq_of_frame h.1.resume_frame
      obtain ⟨hworks, hstop, hgo⟩ := resumeTurn_spec P conns k (t := w'.2) (by rw [hconn]; exact hact) h.2 hm
      refine ⟨fun hj => ⟨h.1.trans hworks, fun hon => hstop hj ?_⟩,
        fun j hj => ⟨⟨h.1.trans hworks, (hgo j hj).1⟩, (hgo j hj).2⟩⟩
      rw [online_congr hconn]
      exact hon)
    _ 0 w ⟨.refl _ _ _ _, .zero _ _⟩ (by omega)

/-! ### Routing and replay -/

theorem checkAssign_of_fits {copies : List (Nat × Bytes)} (h : ∀ c ∈ copies, c.2.length ≤ c.1) (t : Trace Ctx) :
    checkAssign copies t = t := by
  refine if_neg ?_
  simp only [List.any_eq_true, decide_eq_true_eq, not_exists, not_and, Nat.not_lt]
  exact h

theorem assign_of_le {cap : Nat} {old new : Bytes} (h : new.length ≤ cap) : assign cap old new = new :=
  if_neg (Nat.not_lt.2 h)

theorem enqueue_works (P : Params Ctx) (conns : Nat → Conn) (k : Nat) (payload : Bytes) {eff : QoS} (retain : Bool)
    (t : Trace Ctx) {t₀ : Trace Ctx} (hon : s.conn ≠ noConn) (auth : P.sec.authorizeReceive t₀ s.authCtx topic = true)
    (heff : eff ≠ .atMostOnce) (htopic : TopicFits P.T topic) :
    Works P conns (DRun P k) k (s, t) (enqueue P conns k topic payload eff retain (s, t)) := by
  simp only [enqueue]
  split
  · exact .dstep (.event _) (List.forall_mem_singleton.2 rfl)
  · rename_i hpayload
    split
    · exact .dstep (.event _) (List.forall_mem_singleton.2 rfl)
    · rename_i hroom
      rw [checkAssign_of_fits (by simpa using ⟨htopic.stored, Nat.not_lt.1 hpayload⟩)]
      have hq : DStep P k s [.enqueue k s.nextSeq topic payload eff retain] (s.queued P.T topic payload eff retain) :=
        .enqueue topic payload eff retain t₀ hon auth heff (by simpa using hroom) htopic (Nat.not_lt.1 hpayload)
      have hone : Works P conns (DRun P k) k (s, t) (s.queued P.T topic payload eff retain,
          .enqueue k s.nextSeq topic payload eff retain :: t) := .dstep hq (List.forall_mem_singleton.2 trivial)
      split
      · exact hone.trans (pumpSession_works P conns k _)
      · exact hone

theorem enqueue_offline_works (P : Params Ctx) (conns : Nat → Conn) (k : Nat) (payload : Bytes) {eff : QoS}
    (t : Trace Ctx) {t₀ : Trace Ctx} (hoff : s.conn = noConn) (hclean : s.cleanSession = false)
    (auth : P.sec.authorizeReceive t₀ s.authCtx topic = true) (heff : eff ≠ .atMostOnce)
    (htopic : TopicFits P.T topic) : Works P conns (DRun P k) k (s, t)
      (enqueue P conns k topic payload eff false (s, .routed k topic payload eff :: t)) := by
  have hdropped : ¬s.Keeps P.T payload eff → ∀ e : Event, e.kind = .deliveryDropped → Works P conns (DRun P k) k (s, t)
      (s, .event e (some k) :: .routed k topic payload eff :: t) := by
    intro hno e he
    have hpass : Works P conns (DRun P k) k (s, t) (s, .routed k topic payload eff :: t) :=
      .dstep (.passed topic payload eff hoff hno) (List.forall_mem_singleton.2 trivial)
    exact hpass.trans (.dstep (.event e) (by simp [Act.Lands, Act.line, he]))
  simp only [enqueue]
  split
  · rename_i hlong
    exact hdropped (fun h => Nat.not_le.2 hlong h.stored) _ rfl
  · rename_i hpayload
    split
    · rename_i hfull
      exact hdropped (fun h => h.room (by simpa using hfull)) _ rfl
    · rename_i hroom
      rw [checkAssign_of_fits (by simpa using ⟨htopic.stored, Nat.not_lt.1 hpayload⟩)]
      split
      · rename_i hon
        exact absurd hoff (connIndex_of_online hon).2.2.1
      · exact .dstep (.kept topic payload eff t₀ hoff auth htopic
          ⟨hclean, heff, Nat.not_lt.1 hpayload, by simpa using hroom⟩)
            (List.forall_mem_cons.2 ⟨trivial, List.forall_mem_singleton.2 trivial⟩)

/-- A retained message that the store can own. -/
structure EntryFits (T : Traits) (e : Entry) : Prop where
  topic : TopicFits T e.topic
  payload : e.payload.length ≤ T.maxPayloadLen

/-- Whatever is stored fits the packet buffer, with or without an id. -/
theorem bodyFits_of_stored {payload : Bytes} (htopic : topic.length ≤ T.maxTopicLen)
    (hpayload : payload.length ≤ T.maxPayloadLen) (qos : QoS) : BodyFits T topic payload qos := by
  have hid : (idField qos 0).length ≤ 2 := by
    unfold idField
    split <;> simp [u16Bytes]
  have hbody : (publishBody topic payload qos 0).length = 2 + topic.length +
      (idField qos 0).length + payload.length := by
    simp only [publishBody, u16Bytes, List.length_append, List.length_cons, List.length_nil]
  rw [BodyFits, hbody, Traits.outSize, Nat.add_sub_cancel_left, Traits.storedBodyMax]
  split <;> omega

/-- What fits the packet buffer is built, where a Remaining Length reaches as far as the buffer. -/
theorem BodyFits.publishFits {payload : Bytes} {qos : QoS} (h : BodyFits T topic payload qos)
    (htopic : TopicFits T topic) (hsize : T.outSize - packetOverhead ≤ maxRemainingLength) :
    PublishFits T.outSize topic payload qos :=
  ⟨(Nat.le_add_right _ _).trans (outSize_ge T), htopic.carried, Nat.le_min.2 ⟨h, h.trans hsize⟩⟩

theorem replayOne_works (P : Params Ctx) (conns : Nat → Conn) (k here : Nat) (paused : Bool) {e : Entry}
    (s : Session Ctx) (t : Trace Ctx) (hon : s.conn ≠ noConn) (he : EntryFits P.T e) :
    Works P conns (TRun P k) k (s, t) (replayOne P conns s.conn k e here paused (s, t)).2 := by
  simp only [replayOne]
  split
  · exact .refl _ _ _ _
  have hmatch : Works P conns (TRun P k) k (s, t) (s, .matching k
      ((s.subs.filter (fun sub => sub.retainPending)).map Subscription.filter) e.topic :: t) := by
    refine .tstep (.deliver (.matching _ e.topic (fun f hf => ?_) he.topic)) (List.forall_mem_singleton.2 trivial)
    obtain ⟨sub, hsub, rfl⟩ := List.mem_map.1 hf
    exact ⟨sub, List.mem_of_mem_filter hsub, rfl⟩
  generalize Act.matching k ((s.subs.filter (fun sub => sub.retainPending)).map Subscription.filter) e.topic :: t = t₁
    at hmatch ⊢
  refine hmatch.trans ?_
  have hevent : ∀ (ev : Event) t', ev.kind ≠ .connectionOpened → ev.kind ≠ .connectionClosed →
      Works P conns (TRun P k) k (s, t') (s, .event ev (some k) :: t') := fun ev t' ho hc =>
    .tstep (.deliver (.event ev)) (by simp [Act.Lands, Act.line, ho, hc])
  split
  · exact .refl _ _ _ _
  split
  · exact hevent _ _ (by simp) (by simp)
  rename_i hauth
  have hauth : P.sec.authorizeReceive t₁ s.authCtx e.topic = true := by simpa using hauth
  split
  · rename_i heff
    exact (enqueue_works P conns k e.payload true t₁ hon hauth (by simpa using heff) he.topic).deliver
  split
  · rename_i hpkt
    have hbody := bodyFits_of_stored he.topic.stored he.payload .atMostOnce
    have hun : Works P conns (TRun P k) k (s, t₁) (s, .unbuilt (some k) :: t₁) :=
      .tstep (.deliver (.unbuilt e.topic e.payload true he.topic hbody (List.isEmpty_iff.1 hpkt)))
        (List.forall_mem_singleton.2 trivial)
    exact hun.trans (hevent _ _ (by simp) (by simp))
  · rename_i hpkt
    have hpkt : buildPublish P.T.outSize e.topic e.payload .atMostOnce true false 0 ≠ [] := by simpa using hpkt
    have hpause : ∀ t', Works P conns (TRun P k) k (s, t') ({ s with retainCursor := here }, t') :=
      fun t' => .subs s t' s.subs here hon (fun sub hsub => .inl ⟨sub, hsub, rfl⟩)
    rcases trySendTo_cases P conns (tagOf k s none) s.conn hpkt t₁ with ⟨hs, -⟩ | ⟨hup, hs⟩
    · rw [hs]
      exact hpause t₁
    · rw [hs]
      have hlive := fun ok => Works.tstep (P := P) (k := k) (s := s) (t := t₁)
        (.deliver (.live e.topic e.payload true ok t₁ hauth))
        (lands_send hup (by decide) (buildPublish_isPacket hpkt) _ _)
      cases P.send t₁ s.conn (buildPublish P.T.outSize e.topic e.payload .atMostOnce true false 0) with
      | false => exact (hlive false).trans (hpause _)
      | true => exact hlive true

theorem replayLoop_works (P : Params Ctx) (conns : Nat → Conn) (k : Nat) :
    ∀ (es : List Entry) (here : Nat) (paused : Bool) (w : Work Ctx), w.1.conn ≠ noConn → (∀ e ∈ es, EntryFits P.T e) →
    Works P conns (TRun P k) k w (replayLoop P conns w.1.conn k es here paused w).2
  | [], _, _, w, _, _ => .refl _ _ _ w
  | e :: es, here, paused, w, hon, hes => by
    have hone := replayOne_works P conns k here paused w.1 w.2 hon (hes e List.mem_cons_self)
    have hrest := replayLoop_works P conns k es (here + 1) (replayOne P conns w.1.conn k e here paused w).1
      (replayOne P conns w.1.conn k e here paused w).2 (by rw [hone.conn]; exact hon)
      (fun e' he' => hes e' (List.mem_cons_of_mem _ he'))
    rw [hone.conn] at hrest
    exact hone.trans hrest

/-- **`replay_retained` is made of deliveries and moves of its cursor.** -/
theorem replayRetained_works (P : Params Ctx) (conns : Nat → Conn) (k : Nat) (es : List Entry) (w : Work Ctx)
    (hon : w.1.conn ≠ noConn) (hes : ∀ e ∈ es, EntryFits P.T e) :
    Works P conns (TRun P k) k w (replayRetained P conns w.1.conn k es w) := by
  have hloop := replayLoop_works P conns k es 0 false w hon hes
  simp only [replayRetained]
  generalize replayLoop P conns w.1.conn k es 0 false w = r at hloop ⊢
  have hon' : r.2.1.conn ≠ noConn := by rw [hloop.conn]; exact hon
  have hnote : ∀ subs cursor, (∀ sub ∈ subs, ∃ sub' ∈ r.2.1.subs, sub'.filter = sub.filter) →
      Works P conns (TRun P k) k r.2 ({ r.2.1 with subs := subs, retainCursor := cursor }, .replay k :: r.2.2) := by
    intro subs cursor hsubs
    have hone : TStep P k (slotActs k r.2.2) r.2.1 [.replay k] { r.2.1 with subs := subs, retainCursor := cursor } :=
      .subs subs cursor (by simp [Act.isSubs]) hon' (fun sub h => .inl (hsubs sub h))
    exact .tstep hone (List.forall_mem_singleton.2 trivial)
  split
  · exact hloop.trans (hnote r.2.1.subs r.2.1.retainCursor (fun sub h => ⟨sub, h, rfl⟩))
  · refine hloop.trans (hnote _ 0 (fun sub h => ?_))
    obtain ⟨sub', h', rfl⟩ := List.mem_map.1 h
    exact ⟨sub', h', rfl⟩

end Minimosq
