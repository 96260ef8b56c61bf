import Minimosq.Account
import Minimosq.Deadline
import Minimosq.Pauses
import Minimosq.Retransmit
/-!
# A backlog drains

What a refusing transport leaves behind, a queue of messages and an unfinished retained replay, is taken up again by
`tick` alone.  The backlog of a session is a number, `Session.owes`, and a tick in which the connection takes the first
packet it is offered lowers it by one at least.  As the number is bounded by the sizes of the queue and of the retained
store, so is the number of ticks after which nothing is left to send.
-/
namespace Minimosq

variable {Ctx : Type} {P : Params Ctx} {k ci : Nat}
variable {m : OutMsg} {s s' : Session Ctx} {i j : Nat} {older : Trace Ctx} {w w' : Work Ctx} {es : List Entry}

/-! ## The backlog -/

/-- `pump_session` has something to send for the entry. -/
def OutMsg.owed (m : OutMsg) : Bool := m.state == .queued || m.state == .awaitingPubcomp && m.resendPubrel

theorem OutMsg.owed_eq_false : m.owed = false ↔ Settled m := by
  simp only [OutMsg.owed, Settled, Bool.or_eq_false_iff, Bool.and_eq_false_imp, beq_eq_false_iff_ne, beq_iff_eq, ne_eq]

/-- The entries `pump_session` has something to send for. -/
def Session.outstanding (s : Session Ctx) : Nat := s.pending.countP OutMsg.owed

theorem outstanding_set {l : List OutMsg} {m' : OutMsg} (hm : l[i]? = some m) (h : m.owed = true)
    (h' : m'.owed = false) : (l.set i m').countP OutMsg.owed + 1 = l.countP OutMsg.owed := by
  obtain ⟨hi, rfl⟩ := List.getElem?_eq_some_iff.1 hm
  have hpos : 0 < l.countP OutMsg.owed := List.countP_pos_iff.2 ⟨_, List.getElem_mem hi, h⟩
  rw [List.countP_set hi, h, h']
  simp only [if_true, Bool.false_eq_true, if_false]
  omega

theorem outstanding_eraseIdx {l : List OutMsg} (hm : l[i]? = some m) (h : m.owed = true) :
    (l.eraseIdx i).countP OutMsg.owed + 1 = l.countP OutMsg.owed := by
  obtain ⟨hi, rfl⟩ := List.getElem?_eq_some_iff.1 hm
  conv_rhs => rw [← List.take_append_drop i l, ← List.getElem_cons_drop hi]
  rw [List.eraseIdx_eq_take_drop_succ, List.countP_append, List.countP_append, List.countP_cons_of_pos h, Nat.add_assoc]

/-- The transport was offered a packet for connection `ci`. -/
def Act.sendsOn (ci : Nat) : Act Ctx → Bool
  | .send j _ _ _ => j == ci
  | _ => false

/-- The first packet the transport was offered for connection `ci` was refused. -/
def firstRefused (ci : Nat) (acts : Trace Ctx) : Bool := (acts.filter (Act.sendsOn ci)).getLast?.any Act.refused

/-- The session in slot `k` found no turn on connection `ci`: the first packet was refused, or there was no id. -/
def Balked (k ci : Nat) (acts : Trace Ctx) : Prop := firstRefused ci acts = true ∨ .stuck k ∈ acts

theorem firstRefused_send (newer : Trace Ctx) {pkt : Bytes} {tag : Option (Tag Ctx)}
    (hsilent : ∀ a ∈ older, a.sendsOn ci = false) :
    firstRefused ci (newer ++ .send ci pkt false tag :: older) = true := by
  have hnil : older.filter (Act.sendsOn ci) = [] := List.filter_eq_nil_iff.2 fun a ha => by simp [hsilent a ha]
  have hsends : Act.sendsOn ci (.send ci pkt false tag : Act Ctx) = true := beq_self_eq_true ci
  rw [firstRefused, List.filter_append, List.filter_cons_of_pos hsends, hnil, List.getLast?_concat]
  rfl

theorem firstRefused.append (h : firstRefused ci older = true) (newer : Trace Ctx) :
    firstRefused ci (newer ++ older) = true := by
  unfold firstRefused at h ⊢
  rw [List.filter_append, List.getLast?_append]
  cases hlast : (older.filter (Act.sendsOn ci)).getLast? with
  | none =>
    rw [hlast] at h
    cases h
  | some a =>
    rw [hlast] at h
    exact h

theorem firstRefused.after {newer : Trace Ctx} (h : firstRefused ci newer = true)
    (hsilent : ∀ a ∈ older, a.sendsOn ci = false) : firstRefused ci (newer ++ older) = true := by
  have hnil : older.filter (Act.sendsOn ci) = [] := List.filter_eq_nil_iff.2 fun a ha => by simp [hsilent a ha]
  rwa [firstRefused, List.filter_append, hnil, List.append_nil]

theorem Balked.append (h : Balked k ci older) (newer : Trace Ctx) : Balked k ci (newer ++ older) :=
  h.imp (fun h => firstRefused.append h newer) (List.mem_append_right _)

theorem Balked.after {newer : Trace Ctx} (h : Balked k ci newer) (hsilent : ∀ a ∈ older, a.sendsOn ci = false) :
    Balked k ci (newer ++ older) :=
  h.imp (fun h => firstRefused.after h hsilent) (List.mem_append_left _)

/-! ## The pump -/

/-- **How a turn of `pump_session` goes on a live connection.** -/
inductive PumpTurned (k i : Nat) (m : OutMsg) (s : Session Ctx) (t : Trace Ctx) : Option Nat × Work Ctx → Prop
  | settled (h : m.owed = false) : PumpTurned k i m s t (some (i + 1), (s, t))
  | away {s₁ : Session Ctx} {m' : OutMsg} {pkt : Bytes} {tag : Option (Tag Ctx)} (h : m.owed = true)
      (h' : m'.owed = false) (hpending : s₁.pending = s.pending.set i m') :
      PumpTurned k i m s t (some (i + 1), (s₁, .send s.conn pkt true tag :: t))
  | dropped {s₁ : Session Ctx} {e : Event} (h : m.owed = true) (hpending : s₁.pending = s.pending.eraseIdx i) :
      PumpTurned k i m s t (some i, (s₁, .event e (some k) :: .unbuilt (some k) :: t))
  | refused {s₁ : Session Ctx} {pkt : Bytes} {tag : Option (Tag Ctx)} (hpending : s₁.pending = s.pending) :
      PumpTurned k i m s t (none, (s₁, .send s.conn pkt false tag :: t))
  | stuck : PumpTurned k i m s t (none, (s, .stuck k :: t))

section
variable {conns : Nat → Conn}

theorem pumpTurn_turned (P : Params Ctx) (hon : online P.T conns s = true) (hact : (conns s.conn).active = true)
    (k i : Nat) (m : OutMsg) (t : Trace Ctx) : PumpTurned k i m s t (pumpTurn P conns k i m (s, t)) := by
  simp only [pumpTurn, hon, (connIndex_of_online hon).1, Bool.not_true, Bool.false_eq_true, if_false]
  split
  · rename_i hrel
    rw [← pubrelOf, trySendTo_up hon hact (pubrelOf_ne_nil P.T m)]
    cases P.send t s.conn (pubrelOf P.T m) with
    | false => exact .refused rfl
    | true =>
      have howed : m.owed = true := by simp only [OutMsg.owed, hrel, Bool.or_true]
      have hst : m.state = .awaitingPubcomp := by simpa using (Bool.and_eq_true_iff.1 hrel).1
      exact .away howed (by simp [OutMsg.owed, hst]) rfl
  · rename_i hrel
    have hrel : (m.state == .awaitingPubcomp && m.resendPubrel) = false := by simpa using hrel
    split
    · rename_i hq
      exact .settled (by simp only [OutMsg.owed, hrel, Bool.or_false]; simpa using hq)
    · rename_i hq
      have howed : m.owed = true := by simp only [OutMsg.owed, hrel, Bool.or_false]; simpa using hq
      split
      · exact .stuck
      rename_i id _
      rw [← publishOf]
      split
      · exact .dropped howed rfl
      · rename_i hpkt
        rw [trySendTo_up hon hact (by simpa using hpkt)]
        cases P.send t s.conn (publishOf P.T m m.dup id) with
        | false => exact .refused rfl
        | true => exact .away howed (OutMsg.owed_eq_false.2 (sentState_settled m id)) rfl

/-- Position `i` of the pump: as long as nothing was offered, everything outstanding still is. -/
structure Draining (P : Params Ctx) (conns : Nat → Conn) (k : Nat) (w : Work Ctx) (i : Nat) (w' : Work Ctx) : Prop where
  works : Works P conns (DRun P k) k w w'
  settled : Before w'.1 i Settled
  acts : ∃ new, w'.2 = new ++ w.2 ∧ ((∀ a ∈ new, a.sendsOn w.1.conn = false) ∧ w'.1.outstanding = w.1.outstanding ∨
    w'.1.outstanding < w.1.outstanding)

/-- What the pump comes to: nothing more is outstanding, and something less if it found a turn. -/
def Drained (k : Nat) (w w' : Work Ctx) : Prop :=
  ∃ new, w'.2 = new ++ w.2 ∧ w'.1.outstanding ≤ w.1.outstanding ∧
    (w'.1.outstanding ≤ w.1.outstanding - 1 ∨ Balked k w.1.conn new)

theorem Draining.le (h : Draining P conns k w i w') : w'.1.outstanding ≤ w.1.outstanding := by
  obtain ⟨-, -, -, -, ⟨-, heq⟩ | hlt⟩ := h
  · exact heq.le
  · exact hlt.le

theorem Draining.turn (h : Draining P conns k w i w') (hon : online P.T conns w.1 = true)
    (hact : (conns w.1.conn).active = true) (hm : w'.1.pending[i]? = some m) :
    ((pumpTurn P conns k i m w').1 = none → Drained k w (pumpTurn P conns k i m w').2) ∧
    ∀ j, (pumpTurn P conns k i m w').1 = some j → Draining P conns k w j (pumpTurn P conns k i m w').2 ∧
      (pumpTurn P conns k i m w').2.1.pending.length + i < w'.1.pending.length + j := by
  have hle := h.le
  have hconn := h.works.conn
  obtain ⟨hturn, -, hgo⟩ := pumpTurn_spec P conns k (t := w'.2) h.settled hm
  have hturned := pumpTurn_turned P (by rw [online_congr hconn]; exact hon) (by rw [hconn]; exact hact) k i m w'.2
  obtain ⟨new, htrace, hnew⟩ := h.acts
  -- A turn that goes on has taken something off the count, or done nothing.
  have hnext : ∀ j acts, (pumpTurn P conns k i m w').1 = some j → (pumpTurn P conns k i m w').2.2 = acts ++ w'.2 →
      ((pumpTurn P conns k i m w').2.1.outstanding < w.1.outstanding ∨
        acts = [] ∧ (pumpTurn P conns k i m w').2.1 = w'.1) →
      Draining P conns k w j (pumpTurn P conns k i m w').2 ∧
        (pumpTurn P conns k i m w').2.1.pending.length + i < w'.1.pending.length + j := by
    intro j acts hj htr hcount
    refine ⟨⟨h.works.trans hturn, (hgo j hj).1, acts ++ new, ?_, ?_⟩, (hgo j hj).2⟩
    · rw [htr, htrace, List.append_assoc]
    · rcases hcount with hlt | ⟨rfl, hsame⟩
      · exact .inr hlt
      · rw [List.nil_append, hsame]
        exact hnew
  change PumpTurned k i m w'.1 w'.2 (pumpTurn P conns k i m w') at hturned
  generalize pumpTurn P conns k i m w' = r at hturned hnext ⊢
  cases hturned with
  | settled => exact ⟨fun hnone => (by cases hnone), fun j hj => hnext j [] hj rfl (.inr ⟨rfl, rfl⟩)⟩
  | @away s₁ m' _ _ howed howed' hpending =>
    have hset : s₁.outstanding + 1 = w'.1.outstanding := by
      rw [Session.outstanding, hpending]
      exact outstanding_set hm howed howed'
    exact ⟨fun hnone => (by cases hnone), fun j hj => hnext j [_] hj rfl (.inl (by simp only; omega))⟩
  | @dropped s₁ _ howed hpending =>
    have herase : s₁.outstanding + 1 = w'.1.outstanding := by
      rw [Session.outstanding, hpending]
      exact outstanding_eraseIdx hm howed
    exact ⟨fun hnone => (by cases hnone), fun j hj => hnext j [_, _] hj rfl (.inl (by simp only; omega))⟩
  | @refused s₁ pkt tag hpending =>
    have hsame : s₁.outstanding = w'.1.outstanding := by rw [Session.outstanding, hpending]; rfl
    refine ⟨fun _ => ⟨.send w'.1.conn pkt false tag :: new, by rw [htrace]; rfl, hsame.trans_le hle, ?_⟩,
      fun j hj => by cases hj⟩
    rcases hnew with ⟨hsilent, -⟩ | hlt
    · rw [hconn]
      exact .inr (.inl (firstRefused_send [] hsilent))
    · exact .inl (by simp only; omega)
  | stuck =>
    exact ⟨fun _ => ⟨.stuck k :: new, by rw [htrace]; rfl, hle, .inr (.inr List.mem_cons_self)⟩,
      fun j hj => by cases hj⟩

/-- A walk over `es` that leaves `rest`: each entry it passes over adds one to what is outstanding at most, and it
passes one over, unless there is none or the first packet is refused. -/
structure Walk.Eases (ci : Nat) (es : List Entry) (w : Work Ctx) (rest : List Entry) (w' : Work Ctx) : Prop where
  left : rest.length ≤ es.length
  outstanding : w'.1.outstanding + rest.length ≤ w.1.outstanding + es.length
  turn : ∃ new, w'.2 = new ++ w.2 ∧ (rest.length < es.length ∨ es = [] ∨ firstRefused ci new = true)

theorem Walk.Eases.cons {ci : Nat} {rest : List Entry} {w₁ : Work Ctx} (h : Eases ci es w₁ rest w')
    (hone : Abides w w₁) (hle : w₁.1.outstanding ≤ w.1.outstanding + 1) (e : Entry) : Eases ci (e :: es) w rest w' := by
  obtain ⟨hleft, hout, new, hnew, -⟩ := h
  obtain ⟨acts, hacts⟩ := hone.trace
  refine ⟨Nat.le_succ_of_le hleft, ?_, new ++ acts, by rw [hnew, ← hacts, List.append_assoc],
    .inl (Nat.lt_succ_of_le hleft)⟩
  rw [List.length_cons]
  omega

/-- What `tick` does for a session that is up: go on with an unfinished replay, then pump the queue. -/
def upkeep (P : Params Ctx) (conns : Nat → Conn) (k : Nat) (es : List Entry) (w : Work Ctx) : Work Ctx :=
  pumpSession P conns k (if w.1.anyRetainPending then replayRetained P conns w.1.conn k es w else w)

end

/-! ## The session loop of a tick -/

section
variable {σ σ' σ'' : Broker Ctx}

/-- Slot `k` is as it was, and connection `ci` was offered nothing. -/
structure StandsBy (k ci : Nat) (σ σ' : Broker Ctx) : Prop where
  same : σ'.sessions.slot k = σ.sessions.slot k
  silent : Adds (fun a => a.sendsOn ci = false) σ.trace σ'.trace

theorem StandsBy.refl (k ci : Nat) (σ : Broker Ctx) : StandsBy k ci σ σ := ⟨rfl, .refl _ _⟩

theorem StandsBy.trans (h : StandsBy k ci σ σ') (h' : StandsBy k ci σ' σ'') : StandsBy k ci σ σ'' :=
  ⟨h'.same.trans h.same, h.silent.trans h'.silent⟩

/-- A message was routed to the session in slot `k`. -/
def Act.routesTo (k : Nat) : Act Ctx → Bool
  | .routed j _ _ _ => j == k
  | _ => false

/-- The session in slot `k` is gone, offline or as it was, unless a message was routed to it. -/
def LeftAlone (k : Nat) (σ σ' : Broker Ctx) : Prop :=
  ∃ new, σ'.trace = new ++ σ.trace ∧ ((∃ a ∈ new, a.routesTo k = true) ∨
    ∀ s', σ'.sessions.slot k = some s' → s'.conn = noConn ∨ σ.sessions.slot k = some s')

theorem LeftAlone.trans (h : LeftAlone k σ σ') (h' : LeftAlone k σ' σ'') : LeftAlone k σ σ'' := by
  obtain ⟨new, htrace, hnew⟩ := h
  obtain ⟨new', htrace', hnew'⟩ := h'
  refine ⟨new' ++ new, by rw [htrace', htrace, List.append_assoc], ?_⟩
  rcases hnew with ⟨a, ha, hr⟩ | hsame
  · exact .inl ⟨a, List.mem_append_right _ ha, hr⟩
  rcases hnew' with ⟨a, ha, hr⟩ | hsame'
  · exact .inl ⟨a, List.mem_append_left _ ha, hr⟩
  · exact .inr fun s'' hs'' => (hsame' s'' hs'').elim .inl (hsame s'')

theorem LeftAlone.of_same (new : Trace Ctx) (htrace : σ'.trace = new ++ σ.trace)
    (hsame : σ'.sessions.slot k = σ.sessions.slot k) : LeftAlone k σ σ' :=
  ⟨new, htrace, .inr fun s' hs' => .inr (by rw [← hsame]; exact hs')⟩

end

/-- **Ticks in which the session in slot `k` finds its turn** on connection `ci`: the first packet the transport is
offered for the connection is taken, and nothing new is routed to the session. -/
def FindsTurns (P : Params Ctx) (k ci : Nat) : Broker Ctx → List Nat → Prop
  | _, [] => True
  | σ, now :: ticks =>
    firstRefused ci (actsSince σ (σ.tick P now)) = false ∧
      (∀ a ∈ actsSince σ (σ.tick P now), a.routesTo k = false) ∧ FindsTurns P k ci (σ.tick P now) ticks

instance decidableFindsTurns (P : Params Ctx) (k ci : Nat) :
    ∀ (ticks : List Nat) (σ : Broker Ctx), Decidable (FindsTurns P k ci σ ticks)
  | [], _ => isTrue trivial
  | now :: ticks, σ =>
    haveI := decidableFindsTurns P k ci ticks (σ.tick P now)
    inferInstanceAs (Decidable (_ ∧ _ ∧ _))

end Minimosq
