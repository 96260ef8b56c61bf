import Minimosq.Books
import Minimosq.Line
/-!
# Quiet changes

Most of the broker neither links nor unlinks a session: it delivers, answers and gives up on connections.  `Quiet` is
what such a function may do: a connection only turns dead, for a reason; every session serves; the trace grows by acts
that are still; every connection carries on; and it is all made of moves.  Each function of that kind gets one lemma
here.
-/
namespace Minimosq

open History (Star since)

variable {Ctx : Type} {P : Params Ctx}
variable {type : PacketType} {pkt topic : Bytes} {j k : Nat} {s s' : Session Ctx} {w : Work Ctx} {acts : Trace Ctx}
  {T : Traits} {store : Pool Entry} {es : List (Bytes × QoS)}

/-- Nothing of what should never happen: no dangling dereference, no copy that does not fit; every span is one packet,
and no PUBLISH is for nobody. -/
def Act.Mild (P : Params Ctx) : Act Ctx → Prop
  | .send _ pkt _ tag => ∃ type, (tag = none → type ≠ .publish) ∧ IsPacket P.T.outSize type pkt
  | .nullDeref _ | .truncated => False
  | .unbuilt none => maxRemainingLength < P.T.outSize - packetOverhead
  | .retain _ topic _ _ => TopicFits P.T topic
  | .route _ topic payload qos => TopicFits P.T topic ∧ BodyFits P.T topic payload qos
  | _ => True

/-- A mild act that is neither a packet nor an accepted CONNECT. -/
structure Act.Still (P : Params Ctx) (a : Act Ctx) : Prop where
  mild : a.Mild P
  not_bind : a.isBind = false
  not_packet : a.packet? = none

/-- An act that is about no slot and no entry in the books. -/
structure Act.Minor (P : Params Ctx) (a : Act Ctx) : Prop where
  aside : a.Aside
  still : a.Still P
  unbooked : a.Unbooked

theorem Act.minor_event (e : Event) : (Act.event e none : Act Ctx).Minor P :=
  ⟨⟨rfl, rfl⟩, ⟨trivial, rfl, rfl⟩, rfl, rfl, rfl⟩

theorem Act.minor_dead (ci : Nat) : (Act.dead ci : Act Ctx).Minor P := ⟨⟨rfl, rfl⟩, ⟨trivial, rfl, rfl⟩, rfl, rfl, rfl⟩

theorem IsPacket.minor (h : IsPacket P.T.outSize type pkt) (hpub : type ≠ .publish) (ci : Nat) (ok : Bool) :
    (Act.send ci pkt ok none : Act Ctx).Minor P :=
  ⟨⟨rfl, rfl⟩, ⟨⟨type, fun _ => hpub, h⟩, rfl, rfl⟩, rfl, rfl, rfl⟩

section
variable {conns : Nat → Conn} {ci : Nat} {a : Act Ctx}

theorem Act.Lands.still (h : a.Lands P conns ci) (hslot : a.slot = some k) : a.Still P := by
  cases a with
  | send j pkt ok tag =>
    obtain ⟨-, -, -, type, -, hpkt⟩ := h
    refine ⟨⟨type, fun ht => ?_, hpkt⟩, rfl, rfl⟩
    rw [ht] at hslot
    cases hslot
  | unbuilt slot =>
    cases slot with
    | none => cases hslot
    | some j => exact ⟨trivial, rfl, rfl⟩
  | _ => first | exact ⟨trivial, rfl, rfl⟩ | exact h.elim

theorem Act.Lands.unbooked (h : a.Lands P conns ci) : a.Unbooked := by
  refine ⟨?_, ?_, ?_⟩
  all_goals cases a <;> first | rfl | exact h.elim

/-- What lands on a connection that has a session is carried. -/
theorem Act.Lands.carry (hbound : (conns ci).active = true → (conns ci).session ≠ noSession) (j : Nat) (t : Trace Ctx) :
    ∀ {new : Trace Ctx}, (∀ a ∈ new, a.Lands P conns ci) →
      Star (fun _ => Carry P j) (lineActs j t) (conns j) (lineActs j (new ++ t)) (conns j)
  | [], _ => .refl
  | a :: new, h => by
    have ih := Act.Lands.carry hbound j t (fun b hb => h b (List.mem_cons_of_mem _ hb))
    have ha := h a List.mem_cons_self
    by_cases hline : a.line = some j
    · rw [List.cons_append, lineActs_cons_own hline]
      cases a with
      | send i pkt ok tag =>
        obtain ⟨rfl, hact, hdead, type, htype, hpkt⟩ := ha
        cases hline
        exact .tail ih (.send pkt ok tag ⟨hact, hdead⟩ (hbound hact) htype hpkt)
      | event e slot =>
        rw [show (Act.event e slot : Act Ctx).line = none from ha] at hline
        cases hline
      | _ => first | exact ha.elim | cases hline
    · rw [List.cons_append, lineActs_cons_other hline]
      exact ih

end

theorem ne_noConn_of_lt {ci : Nat} (h : ci < P.T.maxConnections) : ci ≠ noConn := by
  have := P.T.connections_le
  simp only [noConn]
  omega

/-- The transport refuses some packet of the session on connection `j`. -/
def Refused (P : Params Ctx) (σ : Broker Ctx) (j : Nat) : Prop :=
  j ≠ noConn ∧ (∃ t pkt, P.send t j pkt = false) ∧ ∃ k s, σ.sessions.slot k = some s ∧ s.conn = j

/-- Every retained message is one the store can own. -/
def RetainedFits (T : Traits) (store : Pool Entry) : Prop := ∀ r e, store.slot r = some e → EntryFits T e

/-- The trace grows, by acts with the property. -/
def Grows (p : Act Ctx → Prop) (σ σ' : Broker Ctx) : Prop := ∃ new, σ'.trace = new ++ σ.trace ∧ ∀ a ∈ new, p a

/-- An active connection that a session holds has one. -/
def Attached (σ : Broker Ctx) : Prop :=
  ∀ k s, σ.sessions.slot k = some s → (σ.conns s.conn).active = true → (σ.conns s.conn).session ≠ noSession

/-- Every connection carries on. -/
def AllCarry (P : Params Ctx) (σ σ' : Broker Ctx) : Prop :=
  ∀ ci, Star (fun _ => Carry P ci) (lineActs ci σ.trace) (σ.conns ci) (lineActs ci σ'.trace) (σ'.conns ci)

/-- What a quiet change leaves.  `own` are the connections the caller may give up on. -/
structure Hush (P : Params Ctx) (own : Nat → Prop) (σ σ' : Broker Ctx) : Prop where
  conns : ∀ j, σ'.conns j = σ.conns j ∨ σ'.conns j = { σ.conns j with dead := true } ∧ (own j ∨ Refused P σ j)
  slots : Serves P σ σ'
  grows : Grows (Act.Still P) σ σ'
  now : σ'.nowMs = σ.nowMs
  books : Books P σ → Books P σ'
  retained : RetainedFits P.T σ.retained → RetainedFits P.T σ'.retained

/-- A change under which every connection carries on. -/
structure Lull (P : Params Ctx) (own : Nat → Prop) (σ σ' : Broker Ctx) : Prop extends Hush P own σ σ' where
  lines : Attached σ → AllCarry P σ σ'

/-- **A quiet change.** -/
structure Quiet (P : Params Ctx) (own : Nat → Prop) (σ σ' : Broker Ctx) : Prop extends Lull P own σ σ' where
  evolve : Evolve P σ σ'

section
variable {p q : Act Ctx → Prop} {σ σ' σ'' : Broker Ctx}

theorem Grows.refl (σ : Broker Ctx) : Grows p σ σ := ⟨[], rfl, by simp⟩

theorem Grows.trans (h₁ : Grows p σ σ') (h₂ : Grows p σ' σ'') : Grows p σ σ'' := by
  obtain ⟨n₁, e₁, m₁⟩ := h₁
  obtain ⟨n₂, e₂, m₂⟩ := h₂
  refine ⟨n₂ ++ n₁, by rw [e₂, e₁, List.append_assoc], fun a ha => ?_⟩
  exact (List.mem_append.1 ha).elim (m₂ a) (m₁ a)

theorem Grows.one {a : Act Ctx} (h : σ'.trace = a :: σ.trace) (ha : p a) : Grows p σ σ' := ⟨[a], h, by simpa using ha⟩

theorem Grows.mono (hpq : ∀ a, p a → q a) (h : Grows p σ σ') : Grows q σ σ' := by
  obtain ⟨new, he, hnew⟩ := h
  exact ⟨new, he, fun a ha => hpq a (hnew a ha)⟩

end

/-! ## Slots that serve -/

section
variable {k : Nat} {h h' : Trace Ctx} {o o' : Option (Session Ctx)}

theorem Serve.frame_of_some (run : Star (Serve P k) h o h' o') (ho : o = some s) :
    ∃ s', o' = some s' ∧ s'.frame = s.frame := by
  refine run.inv (fun _ o => ∃ s', o = some s' ∧ s'.frame = s.frame) ?_ ⟨s, ho, rfl⟩
  rintro _ _ _ _ ⟨s₁, rfl, hf⟩ ⟨s₂, s₃, he, rfl, d⟩
  cases he
  exact ⟨s₃, rfl, d.frame.trans hf⟩

theorem Serve.frame_of_some' (run : Star (Serve P k) h o h' o') (ho : o' = some s') :
    ∃ s, o = some s ∧ s'.frame = s.frame := by
  cases o with
  | some s =>
    obtain ⟨s₁, h₁, hf⟩ := frame_of_some run rfl
    rw [h₁] at ho
    cases ho
    exact ⟨s, rfl, hf⟩
  | none =>
    have hnone : o' = none := by
      refine run.inv (fun _ o => o = none) ?_ rfl
      rintro _ _ _ _ rfl ⟨s₁, _, he, _, _⟩
      cases he
    rw [hnone] at ho
    cases ho

end

/-! ## Composing quiet changes -/

section
variable {own : Nat → Prop} {σ σ' σ'' : Broker Ctx}

theorem Hush.refl (P : Params Ctx) (own : Nat → Prop) (σ : Broker Ctx) : Hush P own σ σ where
  conns := fun _ => .inl rfl
  slots := fun _ => .refl
  grows := .refl σ
  now := rfl
  books := id
  retained := id

theorem Hush.frame (q : Hush P own σ σ') (h : σ.sessions.slot k = some s) :
    ∃ s', σ'.sessions.slot k = some s' ∧ s'.frame = s.frame := Serve.frame_of_some (q.slots k) h

theorem Hush.frame' (q : Hush P own σ σ') (h : σ'.sessions.slot k = some s') :
    ∃ s, σ.sessions.slot k = some s ∧ s'.frame = s.frame := Serve.frame_of_some' (q.slots k) h

theorem Hush.active (q : Hush P own σ σ') (j : Nat) : (σ'.conns j).active = (σ.conns j).active := by
  rcases q.conns j with h | ⟨h, -⟩ <;> rw [h]

theorem Hush.session (q : Hush P own σ σ') (j : Nat) : (σ'.conns j).session = (σ.conns j).session := by
  rcases q.conns j with h | ⟨h, -⟩ <;> rw [h]

theorem Hush.attached (q : Hush P own σ σ') (h : Attached σ) : Attached σ' := by
  intro k s' hs' hact
  obtain ⟨s, hs, hf⟩ := q.frame' hs'
  rw [Session.conn_eq_of_frame hf] at hact ⊢
  rw [q.active] at hact
  rw [q.session]
  exact h k s hs hact

theorem Hush.refused (q : Hush P own σ σ') (h : Refused P σ' j) : Refused P σ j := by
  obtain ⟨hno, hr, k, s', hk, hj⟩ := h
  obtain ⟨s, hs, hf⟩ := q.frame' hk
  exact ⟨hno, hr, k, s, hs, (Session.conn_eq_of_frame hf).symm.trans hj⟩

theorem Hush.staysDead (q : Hush P own σ σ') : StaysDead σ σ' := by
  refine .of_conns (fun j hd => ?_)
  rcases q.conns j with h | ⟨h, -⟩
  · rw [h]
    exact hd
  · rw [h]

theorem Hush.trans (q₁ : Hush P own σ σ') (q₂ : Hush P own σ' σ'') : Hush P own σ σ'' where
  conns := fun j => by
    rcases q₂.conns j with h₂ | ⟨h₂, w₂⟩
    · rw [h₂]
      exact q₁.conns j
    · refine .inr ⟨?_, w₂.imp_right q₁.refused⟩
      rcases q₁.conns j with h₁ | ⟨h₁, -⟩ <;> rw [h₂, h₁]
  slots := fun k => (q₁.slots k).trans (q₂.slots k)
  grows := q₁.grows.trans q₂.grows
  now := q₂.now.trans q₁.now
  books := fun h => q₂.books (q₁.books h)
  retained := fun h => q₂.retained (q₁.retained h)

theorem Lull.refl (P : Params Ctx) (own : Nat → Prop) (σ : Broker Ctx) : Lull P own σ σ :=
  ⟨.refl P own σ, fun _ _ => .refl⟩

theorem Lull.trans (q₁ : Lull P own σ σ') (q₂ : Lull P own σ' σ'') : Lull P own σ σ'' :=
  ⟨q₁.toHush.trans q₂.toHush, fun h ci => (q₁.lines h ci).trans (q₂.lines (q₁.attached h) ci)⟩

theorem Quiet.refl (P : Params Ctx) (own : Nat → Prop) (σ : Broker Ctx) : Quiet P own σ σ := ⟨.refl P own σ, .refl⟩

theorem Quiet.trans (q₁ : Quiet P own σ σ') (q₂ : Quiet P own σ' σ'') : Quiet P own σ σ'' :=
  ⟨q₁.toLull.trans q₂.toLull, q₁.evolve.trans q₂.evolve⟩

theorem Quiet.foldl {α : Type} (f : Broker Ctx → α → Broker Ctx) (hf : ∀ σ a, Quiet P own σ (f σ a)) :
    ∀ (l : List α) (σ : Broker Ctx), Quiet P own σ (l.foldl f σ)
  | [], σ => .refl P own σ
  | a :: l, σ => (hf σ a).trans (Quiet.foldl f hf l (f σ a))

end

/-! ## Single changes -/

section
variable {own : Nat → Prop} {σ σ' : Broker Ctx}

/-- A change that no slot and not the retained store could notice. -/
theorem hush_aside (own : Nat → Prop) (acts : Trace Ctx) (sessions : σ'.sessions.slot = σ.sessions.slot)
    (retained : σ'.retained = σ.retained) (trace : σ'.trace = acts ++ σ.trace) (hacts : ∀ a ∈ acts, a.Minor P)
    (now : σ'.nowMs = σ.nowMs) (order : σ'.disconnectOrder = σ.disconnectOrder)
    (conns : ∀ j, σ'.conns j = σ.conns j ∨ σ'.conns j = { σ.conns j with dead := true } ∧ (own j ∨ Refused P σ j)) :
    Hush P own σ σ' where
  conns := conns
  slots := fun k => by
    rw [sessions, trace, slotActs_skip (fun a ha => by simp [(hacts a ha).aside.1])]
    exact .refl
  grows := ⟨acts, trace, fun a ha => (hacts a ha).still⟩
  now := now
  books := fun h => h.same (fun a ha => (hacts a ha).unbooked) trace order retained
  retained := fun h => by rw [retained]; exact h

theorem quiet_aside (own : Nat → Prop) (acts : Trace Ctx) (sessions : σ'.sessions.slot = σ.sessions.slot)
    (retained : σ'.retained = σ.retained) (trace : σ'.trace = acts ++ σ.trace) (hacts : ∀ a ∈ acts, a.Minor P)
    (now : σ'.nowMs = σ.nowMs) (order : σ'.disconnectOrder = σ.disconnectOrder)
    (conns : ∀ j, σ'.conns j = σ.conns j ∨ σ'.conns j = { σ.conns j with dead := true } ∧ (own j ∨ Refused P σ j))
    (lines : AllCarry P σ σ') : Quiet P own σ σ' :=
  have q := hush_aside own acts sessions retained trace hacts now order conns
  ⟨⟨q, fun _ => lines⟩, .aside acts sessions retained trace (fun a ha => (hacts a ha).aside) q.staysDead⟩

theorem quiet_acts (own : Nat → Prop) (acts : Trace Ctx) (hacts : ∀ a ∈ acts, a.Minor P ∧ a.line = none)
    (σ : Broker Ctx) : Quiet P own σ { σ with trace := acts ++ σ.trace } := by
  refine quiet_aside own acts rfl rfl rfl (fun a ha => (hacts a ha).1) rfl rfl (fun _ => .inl rfl)
    (fun ci => ?_)
  rw [lineActs_skip (fun a ha => by simp [(hacts a ha).2])]
  exact .refl

theorem quiet_event (own : Nat → Prop) (e : Event) (ho : e.kind ≠ .connectionOpened) (hc : e.kind ≠ .connectionClosed)
    (σ : Broker Ctx) : Quiet P own σ (σ.emit (.event e none)) :=
  quiet_acts own [.event e none] (by simpa [Act.line, ho, hc] using Act.minor_event e) σ

theorem setDead_conns (σ : Broker Ctx) (j i : Nat) :
    (σ.setDead j).conns i = if i = j then { σ.conns j with dead := true } else σ.conns i := by
  simp only [Broker.setDead, Broker.setConn, Broker.emit, Function.update_apply]

theorem setDead_conns_or (σ : Broker Ctx) (hj : own j ∨ Refused P σ j) (i : Nat) : (σ.setDead j).conns i = σ.conns i ∨
      (σ.setDead j).conns i = { σ.conns i with dead := true } ∧ (own i ∨ Refused P σ i) := by
  rw [setDead_conns]
  split
  · rename_i hi
    subst hi
    exact .inr ⟨rfl, hj⟩
  · exact .inl rfl

theorem quiet_setDead (hj : own j ∨ Refused P σ j) (hact : (σ.conns j).active = true) :
    Quiet P own σ (σ.setDead j) := by
  refine quiet_aside own [.dead j] rfl rfl rfl (by simpa using Act.minor_dead j) rfl rfl
    (setDead_conns_or σ hj) (fun i => ?_)
  rw [setDead_conns]
  split
  · rename_i hi
    subst hi
    rw [show lineActs i (σ.setDead i).trace = [.dead i] ++ lineActs i σ.trace from lineActs_cons_own rfl _]
    exact .single (.die hact)
  · rename_i hi
    rw [show lineActs i (σ.setDead j).trace = lineActs i σ.trace from
      lineActs_cons_other (by simpa [Act.line] using Ne.symm hi) _]
    exact .refl

theorem lull_works (own : Nat → Prop) (hs : σ.sessions.slot k = some s)
    (hw : Works P σ.conns (TRun P k) k (s, σ.trace) w) :
    Lull P own σ { σ with sessions := σ.sessions.set k w.1, trace := w.2 } := by
  obtain ⟨-, new, he, hnew, run⟩ := hw
  refine ⟨⟨fun _ => .inl rfl, fun j => ?_, ⟨new, he, fun a ha => (hnew a ha).2.still (hnew a ha).1⟩, rfl,
    fun h => h.same (fun a ha => (hnew a ha).2.unbooked) he rfl rfl, id⟩, fun hatt j => ?_⟩
  · simp only [he, slotActs_append, Pool.set]
    by_cases hj : j = k
    · subst hj
      rw [slotActs_own (fun a ha => (hnew a ha).1), Function.update_self, hs]
      generalize new ++ slotActs j σ.trace = h' at run
      generalize w.1 = s' at run
      induction run with
      | refl => exact .refl
      | tail _ d ih => exact .tail ih ⟨_, _, rfl, rfl, d⟩
    · rw [slotActs_other (fun a ha => (hnew a ha).1) (Ne.symm hj), Function.update_of_ne hj]
      exact .refl
  · simp only [he]
    exact Act.Lands.carry (hatt k s hs) j σ.trace (fun a ha => (hnew a ha).2)

theorem evolve_dstep (hs : σ.sessions.slot k = some s) (d : DStep P k s acts s') :
    Evolve P σ { σ with sessions := σ.sessions.set k s', trace := acts ++ σ.trace } := by
  have hdown : .resumed k false ∉ acts := fun hin => absurd (d.delivers _ hin) (by simp [Act.delivers])
  refine .one acts rfl rfl rfl (fun a ha => ⟨d.slot a ha, Act.isSubs_of_delivers (d.delivers a ha) k⟩)
    (.of_some hs d.subsEq) (.of_conns (fun _ h => h)) hdown ?_
  rw [hs]
  exact .serve (.deliver d)

theorem evolve_works {conns : Nat → Conn} (hs : σ.sessions.slot k = some s)
    (hw : Works P conns (DRun P k) k (s, σ.trace) w) :
    Evolve P σ { σ with sessions := σ.sessions.set k w.1, trace := w.2 } := by
  obtain ⟨-, new, he, -, run⟩ := hw
  -- Along the run, the whole trace grows as the slot's history does.
  have hall : ∃ new', new ++ slotActs k σ.trace = new' ++ slotActs k σ.trace ∧
      Evolve P σ { σ with sessions := σ.sessions.set k w.1, trace := new' ++ σ.trace } := by
    generalize new ++ slotActs k σ.trace = h' at run
    generalize w.1 = s' at run
    induction run with
    | refl =>
      refine ⟨[], rfl, .aside [] ?_ rfl rfl (by simp) (.of_conns (fun _ h => h))⟩
      simp only [Pool.set, ← hs, Function.update_eq_self]
    | @tail _ acts s₁ s₂ _ d ih =>
      obtain ⟨new', rfl, hev⟩ := ih
      refine ⟨acts ++ new', (List.append_assoc ..).symm, hev.trans ?_⟩
      have hstep := evolve_dstep (σ := { σ with sessions := σ.sessions.set k s₁, trace := new' ++ σ.trace })
        (Function.update_self ..) d
      simpa only [Pool.set, Function.update_idem, List.append_assoc] using hstep
  obtain ⟨new', hn, hev⟩ := hall
  rw [he, List.append_cancel_right hn]
  exact hev

theorem quiet_works (own : Nat → Prop) (hs : σ.sessions.slot k = some s)
    (hw : Works P σ.conns (DRun P k) k (s, σ.trace) w) :
    Quiet P own σ { σ with sessions := σ.sessions.set k w.1, trace := w.2 } :=
  ⟨lull_works own hs hw.deliver, evolve_works hs hw⟩

theorem quiet_dstep (own : Nat → Prop) (hs : σ.sessions.slot k = some s) (d : DStep P k s acts s')
    (hland : ∀ a ∈ acts, a.Lands P σ.conns s.conn) :
    Quiet P own σ { σ with sessions := σ.sessions.set k s', trace := acts ++ σ.trace } :=
  quiet_works own hs (.dstep d hland)

theorem quiet_note (own : Nat → Prop) (hs : σ.sessions.slot k = some s) (d : DStep P k s acts s)
    (hland : ∀ a ∈ acts, a.Lands P σ.conns s.conn) : Quiet P own σ { σ with trace := acts ++ σ.trace } := by
  have hset : σ.sessions.set k s = σ.sessions := by
    simp only [Pool.set, ← hs, Function.update_eq_self]
  have h := quiet_dstep own hs d hland
  rwa [hset] at h

theorem quiet_notify (own : Nat → Prop) (hs : σ.sessions.slot k = some s) (e : Event)
    (ho : e.kind ≠ .connectionOpened) (hc : e.kind ≠ .connectionClosed) :
    Quiet P own σ { σ with trace := .event e (some k) :: σ.trace } :=
  quiet_note own hs (.event e) (by simp [Act.Lands, Act.line, ho, hc])

theorem quiet_onSession (own : Nat → Prop) {f : Work Ctx → Work Ctx}
    (hf : ∀ s, σ.sessions.slot k = some s → Works P σ.conns (DRun P k) k (s, σ.trace) (f (s, σ.trace))) :
    Quiet P own σ (σ.onSession k f) := by
  unfold Broker.onSession
  split
  · exact .refl P own σ
  · rename_i s hs
    exact quiet_works own hs (hf s hs)

theorem lull_onSession (own : Nat → Prop) {f : Work Ctx → Work Ctx}
    (hf : ∀ s, σ.sessions.slot k = some s → Works P σ.conns (TRun P k) k (s, σ.trace) (f (s, σ.trace))) :
    Lull P own σ (σ.onSession k f) := by
  unfold Broker.onSession
  split
  · exact .refl P own σ
  · rename_i s hs
    exact lull_works own hs (hf s hs)

end

/-! ## Answers and sends -/

section
variable {own : Nat → Prop} {σ : Broker Ctx} {ci : Nat}

theorem quiet_notifyConn (own : Nat → Prop) {kind : EventKind} (ho : kind ≠ .connectionOpened)
    (hc : kind ≠ .connectionClosed) (ci : Nat) (σ : Broker Ctx) : Quiet P own σ (σ.notifyConn P kind ci) :=
  quiet_event own _ ho hc σ

theorem quiet_violation (own : Nat → Prop) (hci : own ci) (err : Err) (hact : (σ.conns ci).active = true) :
    Quiet P own σ (σ.violation P ci err) :=
  (quiet_event own _ (by simp) (by simp) σ).trans (quiet_setDead (.inl hci) hact)

/-- **The ways `send_to` ends**: the connection is not up, the packet was not built, the transport takes it, or refuses
it and the connection is given up on. -/
inductive SentTo (P : Params Ctx) (tag : Option (Tag Ctx)) (ci : Nat) (pkt : Bytes) (σ : Broker Ctx) :
    Broker Ctx → Prop
  | down (hdown : P.T.maxConnections ≤ ci ∨ (σ.conns ci).active = false ∨ (σ.conns ci).dead = true) :
      SentTo P tag ci pkt σ σ
  | unbuilt (hlt : ci < P.T.maxConnections) (hup : (σ.conns ci).active = true ∧ (σ.conns ci).dead = false)
      (hnil : pkt = []) : SentTo P tag ci pkt σ (σ.emit (.unbuilt (tag.map Tag.slot)))
  | taken (hlt : ci < P.T.maxConnections) (hup : (σ.conns ci).active = true ∧ (σ.conns ci).dead = false)
      (hpkt : pkt ≠ []) (hok : P.send σ.trace ci pkt = true) :
      SentTo P tag ci pkt σ (σ.emit (.send ci pkt true tag))
  | refused (hlt : ci < P.T.maxConnections) (hup : (σ.conns ci).active = true ∧ (σ.conns ci).dead = false)
      (hpkt : pkt ≠ []) (hno : P.send σ.trace ci pkt = false) :
      SentTo P tag ci pkt σ (((σ.emit (.send ci pkt false tag)).notifyConn P .transportSendFailed ci).setDead ci)

theorem sendTo_cases (P : Params Ctx) (tag : Option (Tag Ctx)) (ci : Nat) (pkt : Bytes) (σ : Broker Ctx) :
    SentTo P tag ci pkt σ (σ.sendTo P tag ci pkt) := by
  unfold Broker.sendTo
  refine iteInduction (motive := SentTo P tag ci pkt σ) (fun hle => .down (.inl hle)) (fun hlt => ?_)
  refine iteInduction (motive := SentTo P tag ci pkt σ) (fun hdown => .down (.inr (by simpa using hdown)))
    (fun hup => ?_)
  have hlt := Nat.not_le.1 hlt
  have hup : (σ.conns ci).active = true ∧ (σ.conns ci).dead = false := by simpa using hup
  refine iteInduction (motive := SentTo P tag ci pkt σ) (fun hnil => .unbuilt hlt hup (List.isEmpty_iff.1 hnil))
    (fun hpkt => ?_)
  have hpkt : pkt ≠ [] := by simpa using hpkt
  cases hok : P.send σ.trace ci pkt with
  | true => exact .taken hlt hup hpkt hok
  | false => exact .refused hlt hup hpkt hok

/-- A packet to a connection that is up is offered to the transport. -/
theorem SentTo.offered {tag : Option (Tag Ctx)} {ci : Nat} {σ σ' : Broker Ctx} (h : SentTo P tag ci pkt σ σ')
    (hlt : ci < P.T.maxConnections) (hup : (σ.conns ci).active = true ∧ (σ.conns ci).dead = false) (hpkt : pkt ≠ []) :
    P.send σ.trace ci pkt = true ∧ σ' = σ.emit (.send ci pkt true tag) ∨ P.send σ.trace ci pkt = false ∧
      σ' = ((σ.emit (.send ci pkt false tag)).notifyConn P .transportSendFailed ci).setDead ci := by
  cases h with
  | down hdown =>
    rcases hdown with hle | hoff | hdead
    · exact absurd hlt (Nat.not_lt.2 hle)
    · exact absurd (hup.1.symm.trans hoff) (by simp)
    · exact absurd (hup.2.symm.trans hdead) (by simp)
  | unbuilt _ _ hnil => exact absurd hnil hpkt
  | taken _ _ _ hok => exact .inl ⟨hok, rfl⟩
  | refused _ _ _ hno => exact .inr ⟨hno, rfl⟩

/-- What a builder made: one packet, or nothing because no Remaining Length holds it. -/
def Built (P : Params Ctx) (type : PacketType) (pkt : Bytes) : Prop :=
  IsPacket P.T.outSize type pkt ∨ pkt = [] ∧ maxRemainingLength < P.T.outSize - packetOverhead

/-- A packet that is no PUBLISH and no CONNACK, to a connection that has a session and that the caller may give up
on. -/
theorem quiet_sendTo (own : Nat → Prop) (hci : own ci) (hpub : type ≠ .publish) (hack : type ≠ .connack)
    (hpkt : Built P type pkt) (hsess : (σ.conns ci).session ≠ noSession) : Quiet P own σ (σ.sendTo P none ci pkt) := by
  have hsend : (σ.conns ci).active = true ∧ (σ.conns ci).dead = false → pkt ≠ [] → ∀ ok,
      Quiet P own σ (σ.emit (.send ci pkt ok none)) := by
    intro hup hne ok
    have hpkt := hpkt.resolve_right (fun h => hne h.1)
    refine quiet_aside own [.send ci pkt ok none] rfl rfl rfl
      (by simpa using hpkt.minor hpub ci ok) rfl rfl (fun _ => .inl rfl) (fun j => ?_)
    exact Act.Lands.carry (fun _ => hsess) j σ.trace (lands_send hup hack hpkt ok none)
  have hcases := sendTo_cases P none ci pkt σ
  generalize σ.sendTo P none ci pkt = σ' at hcases ⊢
  cases hcases with
  | down => exact .refl P own σ
  | unbuilt _ _ hnil =>
    have hlong := (hpkt.resolve_left (fun h => h.ne_nil hnil)).2
    exact quiet_acts own [.unbuilt none] (by simpa using ⟨⟨⟨rfl, rfl⟩, ⟨hlong, rfl, rfl⟩, rfl, rfl, rfl⟩, rfl⟩) σ
  | taken _ hup hne => exact hsend hup hne true
  | refused _ hup hne =>
    exact ((hsend hup hne false).trans (quiet_notifyConn own (by simp) (by simp) _ _)).trans
      (quiet_setDead (.inl hci) hup.1)

theorem quiet_sendTo_session (own : Nat → Prop) (hs : σ.sessions.slot k = some s) {seq : Option Nat}
    (hack : type ≠ .connack) (hpkt : pkt ≠ [] → IsPacket P.T.outSize type pkt)
    (hun : pkt = [] → DStep P k s [.unbuilt (some k)] s)
    (hd : ∀ ok, DStep P k s [.send s.conn pkt ok (tagOf k s seq)] s) :
    Quiet P own σ (σ.sendTo P (tagOf k s seq) s.conn pkt) := by
  have hsend : (σ.conns s.conn).active = true ∧ (σ.conns s.conn).dead = false → pkt ≠ [] → ∀ ok,
      Quiet P own σ (σ.emit (.send s.conn pkt ok (tagOf k s seq))) :=
    fun hup hne ok => quiet_note own hs (hd ok) (lands_send hup hack (hpkt hne) ok _)
  have hcases := sendTo_cases P (tagOf k s seq) s.conn pkt σ
  generalize σ.sendTo P (tagOf k s seq) s.conn pkt = σ' at hcases ⊢
  cases hcases with
  | down => exact .refl P own σ
  | unbuilt _ _ hnil => exact quiet_note own hs (hun hnil) (List.forall_mem_singleton.2 trivial)
  | taken _ hup hne => exact hsend hup hne true
  | refused hlt hup hne hno =>
    exact ((hsend hup hne false).trans (quiet_notifyConn own (by simp) (by simp) _ _)).trans
      (quiet_setDead (.inr ⟨ne_noConn_of_lt hlt, ⟨σ.trace, pkt, hno⟩, k, s, hs, rfl⟩) hup.1)

theorem connack_isPacket (T : Traits) (present : Bool) (code : ConnackCode) :
    IsPacket T.outSize .connack (buildConnack T.outSize present code) := buildConnack_isPacket (outSize_ge T) _ _

/-- The CONNACK that refuses, and the connection given up on, with some events in between. -/
theorem quiet_refusal (own : Nat → Prop) (hci : own ci) {code : ConnackCode} (hcode : code ≠ .accepted) (ok : Bool)
    (hup : (σ.conns ci).active = true ∧ (σ.conns ci).dead = false) (hfree : (σ.conns ci).session = noSession)
    (evs : Trace Ctx) (hevs : ∀ a ∈ evs, a.Minor P ∧ a.line = none) : Quiet P own σ (Broker.setDead ci
      { σ with trace := evs ++ .send ci (buildConnack P.T.outSize false code) ok none :: σ.trace }) := by
  have hconns := setDead_conns { σ with
    trace := evs ++ .send ci (buildConnack P.T.outSize false code) ok none :: σ.trace } ci
  refine quiet_aside own (.dead ci :: (evs ++ [.send ci (buildConnack P.T.outSize false code) ok none] :
    Trace Ctx)) rfl rfl
    (by simp [Broker.setDead, Broker.emit, Broker.setConn]) (fun a ha => ?_) rfl rfl (fun j => ?_) (fun j => ?_)
  · simp only [List.mem_cons, List.mem_append, List.not_mem_nil, or_false] at ha
    rcases ha with rfl | ha | rfl
    · exact Act.minor_dead ci
    · exact (hevs a ha).1
    · exact (connack_isPacket P.T false code).minor (by simp) ci ok
  · rw [hconns]
    split
    · rename_i hj
      subst hj
      exact .inr ⟨rfl, .inl hci⟩
    · exact .inl rfl
  · rw [hconns]
    have hskip : ∀ t, lineActs j (evs ++ t) = lineActs j t := lineActs_skip (fun a ha => by simp [(hevs a ha).2])
    have htrace : ∀ σ' : Broker Ctx, lineActs j (σ'.setDead ci).trace = lineActs j (.dead ci :: σ'.trace) := fun _ =>
        rfl
    rw [htrace]
    split
    · rename_i hj
      subst hj
      have hone : Carry P j (σ.conns j) [.dead j, .send j (buildConnack P.T.outSize false code) ok none]
          { σ.conns j with dead := true } := .refuse code ok hup hfree hcode
      rw [lineActs_cons_own rfl, hskip, lineActs_cons_own rfl]
      exact hone.once _
    · rename_i hj
      rw [lineActs_cons_other (by simpa [Act.line] using Ne.symm hj), hskip,
        lineActs_cons_other (by simpa [Act.line] using Ne.symm hj)]
      exact .refl

theorem quiet_refuse (own : Nat → Prop) (hci : own ci) {code : ConnackCode} (hcode : code ≠ .accepted)
    (clientId : Bytes) (hup : (σ.conns ci).active = true ∧ (σ.conns ci).dead = false)
    (hfree : (σ.conns ci).session = noSession) : Quiet P own σ (σ.refuse P ci code clientId) := by
  refine (quiet_event own { kind := .connectRefused, ci := some ci, clientId := clientId, connack := code } (by simp)
    (by simp) σ).trans ?_
  rw [Broker.refuse, Broker.notifyRefused]
  generalize hσ₁ : σ.emit (.event { kind := .connectRefused, ci := some ci, clientId := clientId, connack :=
    code } none) = σ₁
  have hup₁ : (σ₁.conns ci).active = true ∧ (σ₁.conns ci).dead = false := by rw [← hσ₁]; exact hup
  have hfree₁ : (σ₁.conns ci).session = noSession := by rw [← hσ₁]; exact hfree
  have hcases := sendTo_cases P none ci (buildConnack P.T.outSize false code) σ₁
  generalize σ₁.sendTo P none ci (buildConnack P.T.outSize false code) = σ' at hcases ⊢
  cases hcases with
  | down => exact quiet_setDead (.inl hci) hup₁.1
  | unbuilt _ _ hnil => exact absurd hnil (connack_isPacket P.T false code).ne_nil
  | taken => exact quiet_refusal own hci hcode true hup₁ hfree₁ [] (by simp)
  | refused =>
    obtain ⟨e, he, ho, hc⟩ : ∃ e : Event, (σ₁.emit
        (.send ci (buildConnack P.T.outSize false code) false none)).notifyConn P
        .transportSendFailed ci = { σ₁ with
          trace := [.event e none] ++ .send ci (buildConnack P.T.outSize false code) false none :: σ₁.trace } ∧
        e.kind ≠ .connectionOpened ∧ e.kind ≠ .connectionClosed := ⟨_, rfl, by simp, by simp⟩
    rw [he]
    refine (quiet_refusal own hci hcode false hup₁ hfree₁ [.event e none] ?_).trans (quiet_setDead (.inl hci) ?_)
    · simpa [Act.line, ho, hc] using Act.minor_event e
    · rw [setDead_conns, if_pos rfl]
      exact hup₁.1

/-! ## Publishing -/

theorem RetainedFits.release (h : RetainedFits T store) (r : Nat) : RetainedFits T (store.release T.maxRetained r) := by
  unfold Pool.release
  split
  · exact h
  · intro i e he
    by_cases hi : i = r
    · subst hi
      simp at he
    · simp only [Function.update_of_ne hi] at he
      exact h i e he

theorem RetainedFits.remove (h : RetainedFits T store) (topic : Bytes) :
    RetainedFits T (Retained.remove T topic store) := by
  unfold Retained.remove
  split
  · exact h
  · exact h.release _

theorem RetainedFits.update (h : RetainedFits T store) (r : Nat) {e : Entry} (he : EntryFits T e) (count : Nat) :
    RetainedFits T ⟨Function.update store.slot r (some e), count⟩ := by
  intro i e' hi
  by_cases hir : i = r
  · subst hir
    simp only [Function.update_self, Option.some.injEq] at hi
    rw [← hi]
    exact he
  · simp only [Function.update_of_ne hir] at hi
    exact h i e' hi

theorem RetainedFits.set (h : RetainedFits T store) (htopic : TopicFits T topic) (payload : Bytes) (qos : QoS) :
      RetainedFits T (Retained.set T topic payload qos store).2 := by
  unfold Retained.set
  split
  · split
    · exact h
    · exact h.release _
  · rename_i hfits
    have hpayload : payload.length ≤ T.maxPayloadLen := by
      simp only [Bool.or_eq_true, decide_eq_true_eq, not_or, Nat.not_lt] at hfits
      exact hfits.2
    rw [assign_of_le htopic.stored]
    simp only [assign_of_le hpayload]
    split
    · split
      · exact h
      · rename_i e he
        exact h.update _ (e := { e with payload := payload, qos := qos }) ⟨(h _ e he).topic, hpayload⟩ _
    · split
      · exact h
      · rename_i halloc
        simp only [Pool.alloc, Option.map_eq_some_iff] at halloc
        obtain ⟨i, -, hi⟩ := halloc
        cases hi
        exact h.update _ ⟨htopic, hpayload⟩ _

theorem RetainedFits.applied (h : RetainedFits T store) (htopic : TopicFits T topic) (payload : Bytes) (qos : QoS) :
    RetainedFits T (Retained.applied T topic payload qos store) := by
  unfold Retained.applied
  split
  · exact h.remove topic
  · exact h.set htopic payload qos

theorem le_of_stored {payload : Bytes} {qos : QoS} (h : (Retained.set T topic payload qos store).1 = .stored) :
    topic.length ≤ T.maxTopicLen ∧ payload.length ≤ T.maxPayloadLen := by
  unfold Retained.set at h
  split at h
  · split at h <;> cases h
  · rename_i hfits
    simpa only [Bool.or_eq_true, decide_eq_true_eq, not_or, Nat.not_lt] using hfits

/-- **What `apply_retain` leaves**: the store, the note of the call and of the change, and perhaps some events. -/
theorem applyRetain_eq (P : Params Ctx) (origin : Option (Origin Ctx)) (topic payload : Bytes) (qos : QoS)
    (σ : Broker Ctx) : ∃ evs : Trace Ctx, (σ.applyRetain P origin topic payload qos).2 = { σ with
        retained := Retained.applied P.T topic payload qos σ.retained
        trace := evs ++ (σ.retainedNote P topic σ.retained (Retained.applied P.T topic payload qos σ.retained) ++
          .retain origin topic payload qos :: σ.trace) } ∧
      ∀ a ∈ evs, ∃ e : Event, a = .event e none ∧
        (e.kind = .retainedStoreFailed ∨ e.kind = .retainedStalePurged) := by
  simp only [Broker.applyRetain, Retained.applied]
  split
  · exact ⟨[], rfl, by simp⟩
  · cases hst : (Retained.set P.T topic payload qos σ.retained).1 with
    | stored =>
      obtain ⟨ht, hp⟩ := le_of_stored hst
      rw [checkAssign_of_fits (by simpa using ⟨ht, hp⟩)]
      exact ⟨[], rfl, by simp⟩
    | dropped =>
      exact ⟨[.event { kind := .retainedStoreFailed, topic := topic } none], rfl, by simp⟩
    | stalePurged =>
      exact ⟨[.event { kind := .retainedStoreFailed, topic := topic } none,
        .event { kind := .retainedStalePurged, topic := topic } none], rfl, by simp⟩

/-- **Who may publish**: the application, or a session that was asked for, on its connection or by the will it left. -/
structure MayPublish (P : Params Ctx) (origin : Option (Origin Ctx)) (topic payload : Bytes) (qos : QoS)
    (σ : Broker Ctx) : Prop where
  client : ∀ o, origin = some o → ∃ s t, σ.sessions.slot o.slot = some s ∧ s.authCtx = o.ctx ∧
    P.sec.authorizePublish t o.ctx topic = true ∧
    (s.conn = o.ci ∧ o.ci ≠ noConn ∨ Submitted o.slot o.ci o.ctx topic payload qos (slotActs o.slot σ.trace))
  application : origin = none → Requested topic payload qos σ.trace

section
variable {origin : Option (Origin Ctx)} {topic payload : Bytes} {qos : QoS} {σ' : Broker Ctx} {a : Act Ctx}

theorem retainedNote_ofRetain {store' : Pool Entry} : ∀ a ∈ σ.retainedNote P topic store store', a.ofRetain = true := by
  unfold Broker.retainedNote
  split <;> simp [Act.ofRetain]

/-- The note of a publishing call is a step of the slot it is for. -/
theorem MayPublish.serves (hmay : MayPublish P origin topic payload qos σ) (htopic : TopicFits P.T topic)
    (ha : a.slot = origin.map Origin.slot) (hpub : ∀ o, origin = some o → a.Publishes o topic payload qos)
    {note : Trace Ctx} (hnote : ∀ b ∈ note, b.slot = none) (hsess : σ'.sessions.slot = σ.sessions.slot)
    (htrace : σ'.trace = note ++ a :: σ.trace) : Serves P σ σ' := by
  intro k
  rw [hsess, htrace, slotActs_skip (fun b hb => by simp [hnote b hb])]
  cases origin with
  | none =>
    rw [slotActs_cons_other (by rw [ha]; simp)]
    exact .refl
  | some o =>
    by_cases hk : o.slot = k
    · subst hk
      obtain ⟨s, t, hs, hctx, hask, hfrom⟩ := hmay.client o rfl
      obtain ⟨k, ci, ctx⟩ := o
      subst hctx
      have hone : Serve P k (slotActs k σ.trace) (some s) [a] (some s) :=
        ⟨s, s, rfl, rfl, .publish ci topic payload qos t (hpub _ rfl) htopic hask hfrom⟩
      rw [slotActs_cons_own ha, hs]
      exact .single hone
    · rw [slotActs_cons_other (by rw [ha]; simpa using hk)]
      exact .refl

/-- After `apply_retain` the same message may still be routed. -/
theorem MayPublish.retained (hmay : MayPublish P origin topic payload qos σ) :
    MayPublish P origin topic payload qos (σ.applyRetain P origin topic payload qos).2 := by
  obtain ⟨evs, he, hevs⟩ := applyRetain_eq P origin topic payload qos σ
  rw [he]
  constructor
  · rintro o rfl
    obtain ⟨s, t, hs, hctx, hask, hfrom⟩ := hmay.client o rfl
    refine ⟨s, t, hs, hctx, hask, hfrom.imp_right ?_⟩
    rintro ⟨retain, newer, older, hold, hnewer⟩
    have hskip : ∀ a ∈ evs, a.slot ≠ some o.slot := by
      intro a ha
      obtain ⟨e, rfl, -⟩ := hevs a ha
      simp [Act.slot]
    refine ⟨retain, .retain (some o) topic payload qos :: newer, older, ?_, fun a ha => ?_⟩
    · simp only
      rw [slotActs_skip hskip, slotActs_skip (fun a ha => by simp [retainedNote_slot a ha]), slotActs_cons_own rfl,
        hold, List.cons_append]
    · rcases List.mem_cons.1 ha with rfl | ha
      · rfl
      · exact hnewer a ha
  · rintro rfl
    obtain ⟨retain, newer, older, hold, hnewer⟩ := hmay.application rfl
    refine ⟨retain, evs ++ (σ.retainedNote P topic σ.retained (Retained.applied P.T topic payload qos σ.retained) ++
      .retain none topic payload qos :: newer), older, by simp [hold], fun a ha => ?_⟩
    simp only [List.mem_append, List.mem_cons] at ha
    rcases ha with ha | ha | rfl | ha
    · obtain ⟨e, rfl, -⟩ := hevs a ha
      rfl
    · exact retainedNote_ofRetain a ha
    · rfl
    · exact hnewer a ha

theorem quiet_applyRetain (own : Nat → Prop) (hmay : MayPublish P origin topic payload qos σ)
    (htopic : TopicFits P.T topic) : Quiet P own σ (σ.applyRetain P origin topic payload qos).2 := by
  obtain ⟨evs, he, hevs⟩ := applyRetain_eq P origin topic payload qos σ
  rw [he]
  generalize hstore : Retained.applied P.T topic payload qos σ.retained = store
  have hnote : ∀ a ∈ σ.retainedNote P topic σ.retained store, a.Still P ∧ a.line = none ∧ a.Unbooked := by
    unfold Broker.retainedNote
    split
    all_goals simp only [List.mem_singleton, forall_eq, List.not_mem_nil, false_imp_iff, implies_true]
    all_goals exact ⟨⟨trivial, rfl, rfl⟩, rfl, rfl, rfl, rfl⟩
  have hserves : Serves P σ { σ with
      retained := store
      trace := σ.retainedNote P topic σ.retained store ++ .retain origin topic payload qos :: σ.trace } :=
    hmay.serves htopic rfl (fun o ho => by rw [ho]; exact .retain) retainedNote_slot rfl rfl
  have q : Quiet P own σ { σ with
      retained := store
      trace := σ.retainedNote P topic σ.retained store ++ .retain origin topic payload qos :: σ.trace } := by
    refine ⟨⟨⟨fun _ => .inl rfl, hserves, ⟨σ.retainedNote P topic σ.retained store ++
      [.retain origin topic payload qos], by simp, fun a ha => ?_⟩, rfl,
      fun h => h.retain (fun a ha => (hnote a ha).2.2) rfl hmay.application rfl hstore.symm,
      fun h => hstore ▸ h.applied htopic payload qos⟩, fun _ ci => ?_⟩,
      .single (.retain origin topic payload qos rfl rfl hstore.symm rfl hserves)⟩
    · rcases List.mem_append.1 ha with ha | ha
      · exact (hnote a ha).1
      · rw [List.mem_singleton.1 ha]
        exact ⟨htopic, rfl, rfl⟩
    · rw [lineActs_skip (fun a ha => by simp [(hnote a ha).2.1]), lineActs_cons_other (by simp [Act.line])]
      exact .refl
  refine q.trans (quiet_acts own evs (fun a ha => ?_) _)
  obtain ⟨e, rfl, hkind⟩ := hevs a ha
  refine ⟨Act.minor_event e, ?_⟩
  rcases hkind with hkind | hkind <;> simp [Act.line, hkind]

theorem quiet_routeNote (own : Nat → Prop) (hmay : MayPublish P origin topic payload qos σ)
    (htopic : TopicFits P.T topic) (hbody : BodyFits P.T topic payload qos) :
    Quiet P own σ (σ.emit (.route origin topic payload qos)) := by
  have hserves : Serves P σ (σ.emit (.route origin topic payload qos)) :=
    hmay.serves htopic rfl (fun o ho => by rw [ho]; exact .route) (List.forall_mem_nil _) rfl rfl
  refine ⟨⟨⟨fun _ => .inl rfl, hserves, .one rfl ⟨⟨htopic, hbody⟩, rfl, rfl⟩, rfl,
    fun h => h.route rfl hmay.application rfl rfl, id⟩, fun _ ci => ?_⟩, ?_⟩
  · rw [show lineActs ci (σ.emit (.route origin topic payload qos)).trace = lineActs ci σ.trace from
      lineActs_cons_other (by simp [Act.line]) _]
    exact .refl
  · cases origin with
    | none => exact .aside [_] rfl rfl rfl (by simp [Act.Aside, Act.slot, Act.isRetained]) (.of_conns (fun _ h => h))
    | some o =>
      obtain ⟨s, t, hs, hctx, hask, hfrom⟩ := hmay.client o rfl
      obtain ⟨k, ci, ctx⟩ := o
      subst hctx
      have hsame : σ.sessions.slot = Function.update σ.sessions.slot k (some s) := by
        rw [← hs, Function.update_eq_self]
      refine Evolve.one [.route (some ⟨k, ci, s.authCtx⟩) topic payload qos] hsame rfl rfl
        (by simp [Act.slot, Act.isSubs]) (.of_some hs ⟨rfl, rfl⟩) (.of_conns (fun _ h => h)) (by simp) ?_
      rw [hs]
      exact .serve (.publish ci topic payload qos t .route htopic hask hfrom)

theorem BodyFits.zero (h : BodyFits T topic payload qos) : BodyFits T topic payload .atMostOnce := by
  refine Nat.le_trans ?_ h
  simp only [publishBody, idField, List.length_append, if_true, List.length_nil]
  omega

/-- **What a message that is routed to the session `s` in slot `k` comes to**, at its effective QoS. -/
inductive GivenTo (P : Params Ctx) (topic payload : Bytes) (k : Nat) (s : Session Ctx) (σ : Broker Ctx) :
    QoS → Broker Ctx → Prop
  | live (hup : online P.T σ.conns s = true) : GivenTo P topic payload k s σ .atMostOnce
      (σ.sendTo P (tagOf k s none) (connIndex P.T s) (buildPublish P.T.outSize topic payload .atMostOnce false false 0))
  | offline (hup : online P.T σ.conns s = false) : GivenTo P topic payload k s σ .atMostOnce σ
  | queued {eff : QoS} (heff : eff ≠ .atMostOnce) (hkept : online P.T σ.conns s = true ∨ s.cleanSession = false) :
      GivenTo P topic payload k s σ eff (σ.onSession k (enqueue P σ.conns k topic payload eff false))
  | gone {eff : QoS} (heff : eff ≠ .atMostOnce) (hup : online P.T σ.conns s = false) (hclean : s.cleanSession = true) :
      GivenTo P topic payload k s σ eff σ

/-- **The ways a visit of `route_publish` goes.** -/
inductive RouteVisit (P : Params Ctx) (topic payload : Bytes) (qos : QoS) (σ : Broker Ctx) (k : Nat) :
    Broker Ctx → Prop
  | vacant (hs : σ.sessions.slot k = none) : RouteVisit P topic payload qos σ k σ
  | unmatched {s : Session Ctx} (hs : σ.sessions.slot k = some s) (hno : (grantedMax s.subs topic).1 = false) :
      RouteVisit P topic payload qos σ k (σ.emit (.matching k (s.subs.map Subscription.filter) topic))
  | denied {s : Session Ctx} (hs : σ.sessions.slot k = some s) (hyes : (grantedMax s.subs topic).1 = true)
      (hdeny : P.sec.authorizeReceive (.matching k (s.subs.map Subscription.filter) topic :: σ.trace) s.authCtx
        topic = false) :
      RouteVisit P topic payload qos σ k { σ with
        trace := notifyDenied .receiveDenied k s topic (.matching k (s.subs.map Subscription.filter) topic :: σ.trace) }
  | allowed {s : Session Ctx} {eff : QoS} {σ' : Broker Ctx} (hs : σ.sessions.slot k = some s)
      (hyes : (grantedMax s.subs topic).1 = true)
      (hauth : P.sec.authorizeReceive (.matching k (s.subs.map Subscription.filter) topic :: σ.trace) s.authCtx
        topic = true)
      (heff : eff = qosMin qos (grantedMax s.subs topic).2)
      (hgiven : GivenTo P topic payload k s
        ((σ.emit (.matching k (s.subs.map Subscription.filter) topic)).emit (.routed k topic payload eff)) eff σ') :
      RouteVisit P topic payload qos σ k σ'

theorem routeOne_cases (P : Params Ctx) (topic payload : Bytes) (qos : QoS) (σ : Broker Ctx) (k : Nat) :
    RouteVisit P topic payload qos σ k (σ.routeOne P topic payload qos k) := by
  unfold Broker.routeOne
  cases hs : σ.sessions.slot k with
  | none => exact .vacant hs
  | some s =>
    dsimp only
    refine iteInduction (motive := RouteVisit P topic payload qos σ k) (fun hno => .unmatched hs (by simpa using hno))
      (fun hyes => ?_)
    have hyes : (grantedMax s.subs topic).1 = true := by simpa using hyes
    refine iteInduction (motive := RouteVisit P topic payload qos σ k)
      (fun hdeny => .denied hs hyes (by simpa [Broker.emit] using hdeny)) (fun hauth => ?_)
    refine .allowed hs hyes (by simpa [Broker.emit] using hauth) rfl ?_
    generalize qosMin qos (grantedMax s.subs topic).2 = eff
    generalize (σ.emit (.matching k (s.subs.map Subscription.filter) topic)).emit (.routed k topic payload eff) = σ₂
    refine iteInduction (motive := GivenTo P topic payload k s σ₂ eff) (fun hzero => ?_) (fun hpos => ?_)
    · have hzero : eff = .atMostOnce := by simpa using hzero
      subst hzero
      exact iteInduction (motive := GivenTo P topic payload k s σ₂ .atMostOnce) (fun hup => .live hup)
        (fun hup => .offline (by simpa using hup))
    · have hpos : eff ≠ .atMostOnce := by simpa using hpos
      refine iteInduction (motive := GivenTo P topic payload k s σ₂ eff)
        (fun hkept => .queued hpos (by simpa using hkept)) (fun hgone => ?_)
      have hgone : online P.T σ₂.conns s = false ∧ s.cleanSession = true := by simpa using hgone
      exact .gone hpos hgone.1 hgone.2

theorem quiet_routeOne (own : Nat → Prop) (htopic : TopicFits P.T topic) (hbody : BodyFits P.T topic payload qos)
    (σ : Broker Ctx) (k : Nat) : Quiet P own σ (σ.routeOne P topic payload qos k) := by
  have hmatch : ∀ {s}, σ.sessions.slot k = some s →
      Quiet P own σ (σ.emit (.matching k (s.subs.map Subscription.filter) topic)) := fun hs =>
    quiet_note own hs (.matching _ topic (fun f hf => List.mem_map.1 hf) htopic) (List.forall_mem_singleton.2 trivial)
  have hcases := routeOne_cases P topic payload qos σ k
  generalize σ.routeOne P topic payload qos k = σ' at hcases ⊢
  cases hcases with
  | vacant => exact .refl P own σ
  | unmatched hs => exact hmatch hs
  | @denied s hs =>
    refine (hmatch hs).trans ?_
    have hs : (σ.emit (.matching k (s.subs.map Subscription.filter) topic)).sessions.slot k = some s := hs
    exact quiet_notify own hs _ (by simp) (by simp)
  | @allowed s eff _ hs _ hauth _ hgiven =>
    refine (hmatch hs).trans ?_
    have hs : (σ.emit (.matching k (s.subs.map Subscription.filter) topic)).sessions.slot k = some s := hs
    generalize hσ₁ : σ.emit (.matching k (s.subs.map Subscription.filter) topic) = σ₁ at hs hgiven ⊢
    have hauth : P.sec.authorizeReceive σ₁.trace s.authCtx topic = true := by rw [← hσ₁]; exact hauth
    -- Without a connection nothing is sent: the message is kept or not, in one step.
    have hnote : (s.conn = noConn → ¬s.Keeps P.T payload eff) →
        Quiet P own σ₁ (σ₁.emit (.routed k topic payload eff)) := by
      intro hno
      by_cases hoff : s.conn = noConn
      · exact quiet_note own hs (.passed topic payload _ hoff (hno hoff)) (List.forall_mem_singleton.2 trivial)
      · exact quiet_note own hs (.routed topic payload _ hoff) (List.forall_mem_singleton.2 trivial)
    cases hgiven with
    | live hup =>
      obtain ⟨hidx, -, hon, -⟩ := connIndex_of_online hup
      rw [hidx]
      refine (hnote (fun hoff => absurd hoff hon)).trans ?_
      have hs₂ : (σ₁.emit (.routed k topic payload .atMostOnce)).sessions.slot k = some s := hs
      exact quiet_sendTo_session own hs₂ (by decide) buildPublish_isPacket
        (fun hnil => .unbuilt topic payload false htopic hbody.zero hnil)
        (fun ok => .live topic payload false ok σ₁.trace hauth)
    | offline => exact hnote (fun _ hkeeps => hkeeps.acknowledged rfl)
    | queued heff hkept =>
      by_cases hoff : s.conn = noConn
      · have hclean : s.cleanSession = false := hkept.resolve_left (by rw [online_of_noConn hoff]; simp)
        simp only [Broker.onSession, show (σ₁.emit (.routed k topic payload eff)).sessions.slot k = some s from hs]
        exact quiet_works own hs (enqueue_offline_works P σ₁.conns k payload σ₁.trace hoff hclean hauth heff htopic)
      · refine (hnote (fun h => absurd h hoff)).trans (quiet_onSession own (fun s' hs' => ?_))
        cases hs.symm.trans hs'
        exact enqueue_works P σ₁.conns k payload false _ hoff hauth heff htopic
    | gone heff _ hclean => exact hnote (fun _ hkeeps => by rw [hkeeps.persistent] at hclean; cases hclean)

theorem quiet_routePublish (own : Nat → Prop) (hmay : MayPublish P origin topic payload qos σ)
    (htopic : TopicFits P.T topic) (hbody : BodyFits P.T topic payload qos) :
    Quiet P own σ (σ.routePublish P origin topic payload qos) :=
  (quiet_routeNote own hmay htopic hbody).trans
    (Quiet.foldl _ (fun σ k => quiet_routeOne own htopic hbody σ k) _ _)

theorem quiet_publishes (own : Nat → Prop) (retain : Bool) (hmay : MayPublish P origin topic payload qos σ)
    (htopic : TopicFits P.T topic) (hbody : BodyFits P.T topic payload qos) :
    Quiet P own σ (Broker.routePublish P origin topic payload qos
      (if retain then (σ.applyRetain P origin topic payload qos).2 else σ)) := by
  cases retain with
  | true => exact (quiet_applyRetain own hmay htopic).trans (quiet_routePublish own hmay.retained htopic hbody)
  | false => exact quiet_routePublish own hmay htopic hbody

end

/-! ## Packet handlers -/

/-- Connection `s.conn` is active, and its session `s` is in slot `k`. -/
structure Serving (P : Params Ctx) (k : Nat) (s : Session Ctx) (σ : Broker Ctx) : Prop where
  deref : σ.sessionOf P (σ.conns s.conn) = some (k, s)
  slot : σ.sessions.slot k = some s
  active : (σ.conns s.conn).active = true
  bound : (σ.conns s.conn).session ≠ noSession
  on : s.conn ≠ noConn

variable {k : Nat} {s : Session Ctx}

theorem findPending_some {id i : Nat} {a b : OutState} (h : s.findPending id a b = some i) :
    ∃ m, s.pending[i]? = some m ∧ m.packetId = id ∧ (m.state = a ∨ m.state = b) := by
  obtain ⟨hi, hp, -⟩ := List.findIdx?_eq_some_iff_getElem.1 h
  simp only [Bool.and_eq_true, beq_iff_eq, Bool.or_eq_true] at hp
  exact ⟨s.pending[i], List.getElem?_eq_getElem hi, hp.1, hp.2⟩

theorem derefSession_of {f : Nat → Session Ctx → Broker Ctx → Broker Ctx}
    (hof : σ.sessionOf P (σ.conns ci) = some (k, s)) : σ.derefSession P ci f = f k s σ := by
  simp only [Broker.derefSession, hof]

theorem quiet_sendId (own : Nat → Prop) (hci : own ci) (hpub : type ≠ .publish) (hack : type ≠ .connack) (id : Nat)
    (hsess : (σ.conns ci).session ≠ noSession) :
    Quiet P own σ (σ.sendTo P none ci (buildPacketIdOnly P.T.outSize type id)) :=
  quiet_sendTo own hci hpub hack (.inl (buildPacketIdOnly_isPacket (outSize_ge P.T) type id)) hsess

theorem quiet_trackInbound (own : Nat → Prop) (hs : σ.sessions.slot k = some s) (hon : s.conn ≠ noConn) (id : Nat) :
    Quiet P own σ (σ.trackInbound P k ci id s) := by
  unfold Broker.trackInbound
  split
  · rename_i hid
    exact quiet_note own hs (.inboundDup id hid) (List.forall_mem_singleton.2 trivial)
  · rename_i hid
    have hid : s.hasInboundQos2 id = false := by simpa using hid
    split
    · rename_i hfull
      exact quiet_dstep own hs (.inboundEvict id _ hon hid (by simpa using hfull) rfl)
        (List.forall_mem_cons.2 ⟨trivial, List.forall_mem_cons.2 ⟨trivial, List.forall_mem_singleton.2 rfl⟩⟩)
    · rename_i hroom
      exact quiet_dstep own hs (.inboundTrack id hon hid (by simpa using hroom)) (List.forall_mem_singleton.2 trivial)

/-- `s₀` is the session the handler read, before it tracked the id. -/
theorem quiet_acceptPublish (own : Nat → Prop) (hs : σ.sessions.slot k = some s) {s₀ : Session Ctx}
    (hf : s.frame = s₀.frame) (hon : s₀.conn ≠ noConn) {p : PublishPacket} (htopic : TopicFits P.T p.topic)
    (hbody : BodyFits P.T p.topic p.payload p.qos) : Quiet P own σ (σ.acceptPublish P k s₀ p) := by
  unfold Broker.acceptPublish
  split
  · exact quiet_notify own hs _ (by simp) (by simp)
  · rename_i hask
    refine quiet_publishes own p.retain ⟨?_, nofun⟩ htopic hbody
    rintro _ ⟨⟩
    exact ⟨s, σ.trace, hs, Session.authCtx_eq_of_frame hf, by simpa using hask,
      .inl ⟨Session.conn_eq_of_frame hf, hon⟩⟩

theorem packetSize_le_outSize (T : Traits) : T.maxPacketSize ≤ T.outSize - packetOverhead := by
  rw [Traits.outSize, Nat.add_sub_cancel_left]
  split <;> omega

theorem quiet_handlePublish (own : Nat → Prop) (hci : own s.conn) (hv : Serving P k s σ) (firstByte : UInt8)
    {body : Bytes} (hlen : body.length ≤ P.T.maxPacketSize) :
    Quiet P own σ (σ.handlePublish P s.conn firstByte body) := by
  have hviolate : ∀ err, Quiet P own σ (σ.violation P s.conn err) := fun err => quiet_violation own hci err hv.active
  rw [Broker.handlePublish, derefSession_of hv.deref]
  split
  · exact hviolate _
  rename_i p hp
  split
  · exact hviolate _
  rename_i hvalid
  split
  · exact hviolate _
  rename_i hle
  have htopic : TopicFits P.T p.topic := ⟨by simpa using hvalid, Nat.not_lt.1 hle⟩
  have hbody : BodyFits P.T p.topic p.payload p.qos := by
    rw [BodyFits, length_of_parsePublish hp]
    exact hlen.trans (packetSize_le_outSize P.T)
  simp only
  generalize hσ₁ : (if (p.qos == .exactlyOnce) = true then σ.trackInbound P k s.conn p.packetId s else σ) = σ₁
  have q₁ : Quiet P own σ σ₁ := by
    rw [← hσ₁]
    split
    · exact quiet_trackInbound own hv.slot hv.on p.packetId
    · exact .refl P own σ
  obtain ⟨s₁, hs₁, hf⟩ := q₁.frame hv.slot
  generalize hσ₂ : (if (!(p.qos == .exactlyOnce && s.hasInboundQos2 p.packetId)) = true then σ₁.acceptPublish P k s p
    else σ₁) = σ₂
  have q₂ : Quiet P own σ σ₂ := by
    rw [← hσ₂]
    split
    · exact q₁.trans (quiet_acceptPublish own hs₁ hf hv.on htopic hbody)
    · exact q₁
  have hbound₂ : (σ₂.conns s.conn).session ≠ noSession := by rw [q₂.session]; exact hv.bound
  split
  · exact q₂.trans (quiet_sendId own hci (by decide) (by decide) _ hbound₂)
  split
  · exact q₂.trans (quiet_sendId own hci (by decide) (by decide) _ hbound₂)
  · exact q₂

theorem quiet_handleFinal (own : Nat → Prop) (hci : own s.conn) (hv : Serving P k s σ) {state : OutState}
    (ht : FinalAck type state) (body : Bytes) : Quiet P own σ (σ.handleFinal P type state s.conn body) := by
  unfold Broker.handleFinal
  split
  · exact quiet_violation own hci _ hv.active
  · rename_i id _
    rw [derefSession_of hv.deref]
    exact quiet_dstep own hv.slot (.final type state id hv.on ht) (List.forall_mem_singleton.2 trivial)

theorem quiet_handlePubrec (own : Nat → Prop) (hci : own s.conn) (hv : Serving P k s σ) (body : Bytes) :
    Quiet P own σ (σ.handlePubrec P s.conn body) := by
  unfold Broker.handlePubrec
  split
  · exact quiet_violation own hci _ hv.active
  rename_i id _
  rw [derefSession_of hv.deref]
  split
  · rename_i hnone
    exact quiet_note own hv.slot (.pubrecUnknown id hnone) (List.forall_mem_singleton.2 trivial)
  · rename_i i hi
    obtain ⟨m, hm, hid, -⟩ := findPending_some hi
    rw [hm]
    simp only
    have q₁ := quiet_dstep (P := P) own hv.slot (.pubrec i m id hv.on hi hm) (List.forall_mem_singleton.2 trivial)
    refine q₁.trans ?_
    have hm' := setPending_get hm { m with state := .awaitingPubcomp }
    have hpkt := pubrelOf_isPacket P.T { m with state := .awaitingPubcomp }
    rw [← hid]
    exact quiet_sendTo_session own (k := k) (s := s.setPending i { m with state := .awaitingPubcomp })
      (Function.update_self ..) (by decide) (fun _ => hpkt) (fun hnil => absurd hnil hpkt.ne_nil)
      (fun ok => .answerRel i { m with state := .awaitingPubcomp } ok hm' rfl)

theorem quiet_handlePubrel (own : Nat → Prop) (hci : own s.conn) (hv : Serving P k s σ) (body : Bytes) :
    Quiet P own σ (σ.handlePubrel P s.conn body) := by
  unfold Broker.handlePubrel
  split
  · exact quiet_violation own hci _ hv.active
  · rename_i id _
    rw [derefSession_of hv.deref]
    exact (quiet_dstep own hv.slot (.pubrel id hv.on) (List.forall_mem_singleton.2 trivial)).trans
      (quiet_sendId own hci (by decide) (by decide) _ hv.bound)

/-! ### Subscriptions -/

/-- Every filter of `subs` is one of `subs₀`, or one a session can hold. -/
def FiltersFrom (T : Traits) (subs₀ subs : List Subscription) : Prop :=
  ∀ sub ∈ subs, (∃ sub' ∈ subs₀, sub'.filter = sub.filter) ∨ FilterFits T sub.filter

section
variable {T : Traits} {subs subs' subs'' : List Subscription}

theorem FiltersFrom.refl (T : Traits) (subs : List Subscription) : FiltersFrom T subs subs :=
  fun sub h => .inl ⟨sub, h, rfl⟩

theorem FiltersFrom.trans (h₁ : FiltersFrom T subs subs') (h₂ : FiltersFrom T subs' subs'') :
    FiltersFrom T subs subs'' := by
  intro sub hsub
  rcases h₂ sub hsub with ⟨sub', hsub', he⟩ | h
  · rw [← he]
    exact h₁ sub' hsub'
  · exact .inr h

theorem FiltersFrom.modify (subs : List Subscription) (i : Nat) {f : Subscription → Subscription}
    (hf : ∀ sub, (f sub).filter = sub.filter) : FiltersFrom T subs (subs.modify i f) := by
  intro sub hsub
  obtain ⟨j, hj⟩ := List.mem_iff_getElem?.1 hsub
  rw [List.getElem?_modify] at hj
  obtain ⟨sub', hsub', rfl⟩ := Option.map_eq_some_iff.1 hj
  refine .inl ⟨sub', List.mem_of_getElem? hsub', ?_⟩
  split
  · exact (hf sub').symm
  · rfl

theorem FiltersFrom.append (subs : List Subscription) {sub : Subscription} (h : FilterFits T sub.filter) :
    FiltersFrom T subs (subs ++ [sub]) := by
  intro sub' hsub'
  rcases List.mem_append.1 hsub' with hsub' | hsub'
  · exact .inl ⟨sub', hsub', rfl⟩
  · rw [List.mem_singleton.1 hsub']
    exact .inr h

end

/-- **`subscribe_one`** rewrites the subscriptions only, and grants only a filter that fits. -/
theorem subscribeOne_spec {filter : Bytes} (hvalid : topicFilterValid filter = true) (requested : QoS)
    (s : Session Ctx) : let r := Broker.subscribeOne T filter requested s
    (∃ subs, r.2.1 = { s with subs := subs } ∧ FiltersFrom T s.subs subs) ∧
      (r.2.2 ≠ none → filter.length ≤ T.maxTopicLen) := by
  unfold Broker.subscribeOne
  split
  · exact ⟨⟨s.subs, rfl, .refl T _⟩, fun h => absurd rfl h⟩
  rename_i hlen
  have hlen : filter.length ≤ T.maxTopicLen := Nat.not_lt.1 hlen
  split
  · rename_i i _
    exact ⟨⟨_, rfl, .modify s.subs i (fun _ => rfl)⟩, fun _ => hlen⟩
  split
  · exact ⟨⟨s.subs, rfl, .refl T _⟩, fun h => absurd rfl h⟩
  · refine ⟨⟨_, rfl, .append s.subs ?_⟩, fun _ => hlen⟩
    rw [assign_of_le hlen]
    exact ⟨hvalid, hlen⟩

theorem subscribeEntry_works (P : Params Ctx) (conns : Nat → Conn) (k : Nat) (acc : Pass2 Ctx) {e : Bytes × QoS}
    (hvalid : topicFilterValid e.1 = true) (hon : acc.s.conn ≠ noConn) : Works P conns (TRun P k) k (acc.s, acc.t)
      ((subscribeEntry P k acc e).s, (subscribeEntry P k acc e).t) := by
  have hsubs : ∀ subs, FiltersFrom P.T acc.s.subs subs →
      Works P conns (TRun P k) k (acc.s, acc.t) ({ acc.s with subs := subs }, acc.t) :=
    fun subs h => .subs acc.s acc.t subs acc.s.retainCursor hon h
  obtain ⟨⟨subs, hone, hfrom⟩, hgrant⟩ := subscribeOne_spec (T := P.T) hvalid e.2 acc.s
  unfold subscribeEntry
  split
  · exact .tstep (.deliver (.event _)) (List.forall_mem_singleton.2 rfl)
  · simp only [hone]
    split
    · exact hsubs subs hfrom
    · rename_i i hi
      rw [checkAssign_of_fits (by simpa using hgrant (by rw [hi]; simp))]
      exact hsubs _ (hfrom.trans (.modify subs i (fun _ => rfl)))

/-- The SUBACK under construction stays in its buffer. -/
def SubackFits (T : Traits) (w : Writer) : Prop :=
  w.cap = T.outSize - packetOverhead ∧ (w.ok = true → w.buf.length ≤ T.outSize - packetOverhead)

theorem SubackFits.writes {w w' : Writer} {b : Bytes} (h : SubackFits T w) (hw : Writes w w' b) : SubackFits T w' :=
  ⟨hw.cap.trans h.1, fun hok => by
    have hle := hw.le hok
    rwa [hw.cap, h.1] at hle⟩

theorem subscribeEntry_fits {acc : Pass2 Ctx} (h : SubackFits T acc.w) (P : Params Ctx) (k : Nat)
    (e : Bytes × QoS) : SubackFits T (subscribeEntry P k acc e).w := by
  unfold subscribeEntry
  split
  · exact h.writes (acc.w.writes_u8 _)
  · simp only
    split
    · exact h.writes (acc.w.writes_u8 _)
    · exact h.writes (acc.w.writes_u8 _)

theorem subscribePass2_works (P : Params Ctx) (conns : Nat → Conn) (k packetId : Nat)
    (hvalid : ∀ e ∈ es, topicFilterValid e.1 = true) (s : Session Ctx) (hon : s.conn ≠ noConn) (t : Trace Ctx) :
    let r := subscribePass2 P k packetId es s t
    Works P conns (TRun P k) k (s, t) (r.s, r.t) ∧ SubackFits P.T r.w := by
  have hfold : ∀ (es : List (Bytes × QoS)) (acc : Pass2 Ctx), (∀ e ∈ es, topicFilterValid e.1 = true) →
      acc.s.conn ≠ noConn → SubackFits P.T acc.w →
      let r := es.foldl (subscribeEntry P k) acc
      Works P conns (TRun P k) k (acc.s, acc.t) (r.s, r.t) ∧ SubackFits P.T r.w := by
    intro es
    induction es with
    | nil => exact fun acc _ _ hw => ⟨.refl _ _ _ _, hw⟩
    | cons e es ih =>
      intro acc hes hon hw
      have hone := subscribeEntry_works P conns k acc (hes e List.mem_cons_self) hon
      obtain ⟨hrest, hw'⟩ := ih (subscribeEntry P k acc e) (fun e' he' => hes e' (List.mem_cons_of_mem _ he'))
        (by rw [hone.conn]; exact hon) (subscribeEntry_fits hw P k e)
      exact ⟨hone.trans hrest, hw'⟩
  have hclear : Works P conns (TRun P k) k (s, t) (clearPending s, t) := by
    refine .subs s t _ s.retainCursor hon (fun sub hsub => ?_)
    obtain ⟨sub', hsub', rfl⟩ := List.mem_map.1 hsub
    exact .inl ⟨sub', hsub', rfl⟩
  have hstart : SubackFits P.T ((Writer.make (P.T.outSize - packetOverhead)).u16 packetId) :=
    SubackFits.writes ⟨rfl, fun _ => Nat.zero_le _⟩ (Writer.writes_u16 _ _)
  obtain ⟨hrest, hw⟩ := hfold es { s := clearPending s, w := _, granted := [], t := t } hvalid hon hstart
  exact ⟨hclear.trans hrest, hw⟩

theorem mem_toList {α : Type} {cap : Nat} {p : Pool α} {a : α} (h : a ∈ p.toList cap) : ∃ i, p.slot i = some a := by
  simp only [Pool.toList, List.mem_filterMap] at h
  obtain ⟨i, -, hi⟩ := h
  exact ⟨i, hi⟩

theorem lull_subscribeValid (own : Nat → Prop) (hci : own s.conn) (hv : Serving P k s σ)
    (hret : RetainedFits P.T σ.retained) (packetId : Nat) (hvalid : ∀ e ∈ es, topicFilterValid e.1 = true) :
    Lull P own σ (σ.subscribeValid P k s.conn packetId es s) := by
  obtain ⟨hpass, hsuback⟩ := subscribePass2_works P σ.conns k packetId hvalid s hv.on σ.trace
  simp only [Broker.subscribeValid]
  generalize subscribePass2 P k packetId es s σ.trace = r at hpass hsuback ⊢
  have hnote : TStep P k (slotActs k r.t) r.s [.subscribe k s r.granted] r.s :=
    .subs r.s.subs r.s.retainCursor (by simp [Act.isSubs]) (by rw [hpass.conn]; exact hv.on) (FiltersFrom.refl P.T _)
  have q₁ : Lull P own σ { σ with sessions := σ.sessions.set k r.s, trace := .subscribe k s r.granted :: r.t } :=
    lull_works own hv.slot (hpass.trans (.tstep hnote (List.forall_mem_singleton.2 trivial)))
  split
  · refine q₁.trans (Quiet.toLull ?_)
    exact quiet_violation own hci _ hv.active
  · rename_i hok
    have hpkt : Built P .suback (framePacket (makeFirstByte .suback 0) r.w.buf) := by
      refine framePacket_isPacket (by decide) ?_
      have hle := hsuback.2 (by simpa using hok)
      have hcap := outSize_ge P.T
      omega
    have q₂ := q₁.trans (Quiet.toLull (quiet_sendTo own hci (by decide) (by decide) hpkt hv.bound))
    generalize Broker.sendTo P none s.conn (framePacket (makeFirstByte .suback 0) r.w.buf) _ = σ₂ at q₂ ⊢
    split
    · refine q₂.trans (lull_onSession own (fun s' hs' => ?_))
      obtain ⟨s₀, hs₀, hf⟩ := q₂.frame' hs'
      rw [hv.slot] at hs₀
      cases hs₀
      have hconn := Session.conn_eq_of_frame hf
      have hon' : s'.conn ≠ noConn := by rw [hconn]; exact hv.on
      have hzero : ∀ t, Works P σ₂.conns (TRun P k) k (s', t) ({ s' with retainCursor := 0 }, t) :=
        fun t => .subs s' t s'.subs 0 hon' (FiltersFrom.refl P.T _)
      refine (hzero _).trans ?_
      rw [← hconn]
      refine replayRetained_works P _ k _ ({ s' with retainCursor := 0 }, _) hon' (fun e he => ?_)
      obtain ⟨r, hr⟩ := mem_toList he
      exact q₂.retained hret r e hr
    · exact q₂

theorem quiet_subscribeValid (own : Nat → Prop) (hci : own s.conn) (hv : Serving P k s σ)
    (hret : RetainedFits P.T σ.retained) (packetId : Nat) (hvalid : ∀ e ∈ es, topicFilterValid e.1 = true) :
    Quiet P own σ (σ.subscribeValid P k s.conn packetId es s) :=
  have q := lull_subscribeValid own hci hv hret packetId hvalid
  ⟨q, .single (.subscribe k packetId es hv.slot rfl q.slots q.staysDead)⟩

theorem quiet_handleSubscribe (own : Nat → Prop) (hci : own s.conn) (hv : Serving P k s σ)
    (hret : RetainedFits P.T σ.retained) (body : Bytes) : Quiet P own σ (σ.handleSubscribe P s.conn body) := by
  rw [Broker.handleSubscribe, derefSession_of hv.deref]
  simp only
  split
  · exact quiet_violation own hci _ hv.active
  rename_i hvalid
  split
  · exact quiet_violation own hci _ hv.active
  · exact quiet_subscribeValid own hci hv hret _ (by simpa using hvalid)

theorem mem_unsubscribeAll {filters : List Bytes} {subs : List Subscription} {sub : Subscription}
    (h : sub ∈ unsubscribeAll subs filters) : sub ∈ subs := by
  induction filters generalizing subs with
  | nil => exact h
  | cons f fs ih => exact List.mem_of_mem_eraseP (ih h)

theorem quiet_handleUnsubscribe (own : Nat → Prop) (hci : own s.conn) (hv : Serving P k s σ) (body : Bytes) :
    Quiet P own σ (σ.handleUnsubscribe P s.conn body) := by
  rw [Broker.handleUnsubscribe, derefSession_of hv.deref]
  simp only
  split
  · exact quiet_violation own hci _ hv.active
  split
  · exact quiet_violation own hci _ hv.active
  · generalize (TopicListParser.entries body false).1.map Prod.fst = fs
    have hnote : TStep P k (slotActs k σ.trace) s [.unsubscribe k fs]
        { s with subs := unsubscribeAll s.subs fs } :=
      .subs _ s.retainCursor (by simp [Act.isSubs]) hv.on (fun sub hsub => .inl ⟨sub, mem_unsubscribeAll hsub, rfl⟩)
    have q := lull_works own hv.slot (.tstep hnote (List.forall_mem_singleton.2 trivial))
    exact Quiet.trans ⟨q, .single (.unsubscribe k _ hv.slot rfl q.slots)⟩
      (quiet_sendId own hci (by decide) (by decide) _ hv.bound)

/-! ## Ticks -/

theorem quiet_timeoutOne (nowMs : Nat) (σ : Broker Ctx) (i : Nat) :
    Quiet P (fun _ => True) σ (σ.timeoutOne P nowMs i) := by
  simp only [Broker.timeoutOne]
  split
  · exact .refl P _ σ
  rename_i hup
  have hup : (σ.conns i).active = true ∧ (σ.conns i).dead = false := by simpa using hup
  have hgive : ∀ kind : EventKind, kind ≠ .connectionOpened → kind ≠ .connectionClosed →
      Quiet P (fun _ => True) σ ((σ.notifyConn P kind i).setDead i) :=
    fun kind ho hc => (quiet_notifyConn _ ho hc i σ).trans (quiet_setDead (.inl trivial) hup.1)
  repeat' split
  all_goals first | exact .refl P _ σ | exact hgive _ (by simp) (by simp)

theorem quiet_pumpOne (own : Nat → Prop) (σ : Broker Ctx) (k : Nat) (hret : RetainedFits P.T σ.retained) :
    Quiet P own σ (σ.pumpOne P k) := by
  unfold Broker.pumpOne
  split
  · exact .refl P own σ
  rename_i s hs
  split
  · exact .refl P own σ
  rename_i hup
  have hon : s.conn ≠ noConn := by
    simp only [Bool.or_eq_true, not_or, Session.connected] at hup
    simpa using hup.1.1
  simp only
  have q₁ : Quiet P own σ (if s.anyRetainPending then
      σ.onSession k (replayRetained P σ.conns s.conn k (σ.retained.toList P.T.maxRetained)) else σ) := by
    split
    · have q : Lull P own σ (σ.onSession k (replayRetained P σ.conns s.conn k
          (σ.retained.toList P.T.maxRetained))) := by
        refine lull_onSession own (fun s' hs' => ?_)
        rw [hs] at hs'
        cases hs'
        refine replayRetained_works P _ k _ (s, σ.trace) hon (fun e he => ?_)
        obtain ⟨r, hr⟩ := mem_toList he
        exact hret r e hr
      exact ⟨q, .single (.replay k hs rfl q.slots)⟩
    · exact .refl P own σ
  refine q₁.trans (quiet_onSession own (fun s' _ => ?_))
  have hconns : (if s.anyRetainPending then
      σ.onSession k (replayRetained P σ.conns s.conn k (σ.retained.toList P.T.maxRetained)) else σ).conns =
        σ.conns := by
    split
    · simp only [Broker.onSession, hs]
    · rfl
  rw [hconns]
  exact pumpSession_works P σ.conns k _

end

end Minimosq
