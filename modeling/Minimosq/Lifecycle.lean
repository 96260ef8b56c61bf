import Minimosq.Pending
/-!
# The life of a queued message

From `enqueue` on, a message is followed by its number through the acts of its session: what every packet sent for it
carries, and how it leaves the queue.  `MsgPast` ties the entries of the queue to those acts.
-/
namespace Minimosq

open History (Star since Each)

variable {Ctx : Type} {P : Params Ctx} {k : Nat}
variable {id n : Nat} {pkt : Bytes} {a : Act Ctx} {h : Trace Ctx} {T : Traits} {b : List OutMsg} {m : OutMsg}

/-! ## What is on the wire -/

/-- The act hands a packet of message `n` to the transport, which answers `ok`. -/
def Act.hands (n : Nat) (pkt : Bytes) (ok : Bool) : Act Ctx → Prop
  | .send _ pkt' ok' (some τ) => τ.seq = some n ∧ pkt' = pkt ∧ ok' = ok
  | _ => False

/-- The packet id a PUBLISH or a PUBREL carries. -/
def wireId (pkt : Bytes) : Option Nat := ((sentPublish pkt).map PublishPacket.packetId).or (sentPubrel pkt)

/-- The transport took a packet of message `n` with packet id `id`. -/
def TookAs (h : Trace Ctx) (n id : Nat) : Prop := ∃ a ∈ h, ∃ pkt, a.hands n pkt true ∧ wireId pkt = some id

/-- A PUBREC with the id of message `n` was processed after the message went out. -/
def ReceivedIn (h : Trace Ctx) (n : Nat) : Prop :=
  ∃ newer k ci id older, h = newer ++ .ack k ci .pubrec id :: older ∧ TookAs older n id

/-- The delivery of message `n` was completed: a PUBACK with its id for QoS 1, a PUBCOMP with its id after a PUBREC for
QoS 2. -/
def EndedIn (h : Trace Ctx) (n : Nat) (qos : QoS) : Prop :=
  ∃ newer k ci type id older, h = newer ++ .ack k ci type id :: older ∧ TookAs older n id ∧
    (qos = .atLeastOnce ∧ type = .puback ∨ qos = .exactlyOnce ∧ type = .pubcomp ∧ ReceivedIn older n)

/-- **What every packet of a queued message is**: the message as it was queued, first without and then with DUP, never
again after its PUBREC; or, after the PUBREC, its PUBREL; always with one packet id. -/
def OnWire (k : Nat) (a : Act Ctx) (older : Trace Ctx) : Prop :=
  ∀ n pkt ok, a.hands n pkt ok → ∃ topic payload qos retain,
    .enqueue k n topic payload qos retain ∈ life older ∧
    ((∃ p, sentPublish pkt = some p ∧ p.topic = topic ∧ p.payload = payload ∧ p.qos = qos ∧ p.retain = retain ∧
        (ok = true → (p.dup = true ↔ SentIn (life older) n)) ∧ (qos = .exactlyOnce → ¬ ReceivedIn (life older) n)) ∨
      (sentPubrel pkt ≠ none ∧ qos = .exactlyOnce ∧ ReceivedIn (life older) n)) ∧
    (ok = true → ∃ id, wireId pkt = some id ∧ ∀ b ∈ life older, ∀ pkt', b.hands n pkt' true → wireId pkt' = some id)

/-! ### Reading the past -/

theorem hands_tagOf {ci k : Nat} {pkt' : Bytes} {ok ok' : Bool} {s : Session Ctx} {seq : Nat}
    (h : Act.hands n pkt ok (.send ci pkt' ok' (tagOf k s (some seq)))) : n = seq ∧ pkt = pkt' ∧ ok = ok' := by
  obtain ⟨hn, hp, ho⟩ := h
  exact ⟨(Option.some.inj hn).symm, hp.symm, ho.symm⟩

theorem not_hands_of_idle (h : a.idle = true) (n : Nat) (pkt : Bytes) (ok : Bool) : ¬ a.hands n pkt ok := by
  intro hh
  cases a with
  | send ci pkt' ok' tag =>
    cases tag with
    | none => cases hh
    | some τ =>
      have : τ.seq = none := by simpa [Act.idle] using h
      rw [hh.1] at this
      cases this
  | _ => cases hh

theorem took_iff_hands : a.took n = true ↔ ∃ pkt, a.hands n pkt true := by
  cases a with
  | send ci pkt ok tag =>
    cases tag with
    | none => cases ok <;> simp [Act.took, Act.hands]
    | some τ => cases ok <;> simp [Act.took, Act.hands]
  | _ => simp [Act.took, Act.hands]

theorem sentIn_of_hands (ha : a ∈ h) (hh : a.hands n pkt true) : SentIn h n := ⟨a, ha, took_iff_hands.2 ⟨pkt, hh⟩⟩

theorem ReceivedIn.append (hr : ReceivedIn h n) (acts : Trace Ctx) : ReceivedIn (acts ++ h) n := by
  obtain ⟨newer, k, ci, id, older, rfl, ht⟩ := hr
  exact ⟨acts ++ newer, k, ci, id, older, (List.append_assoc ..).symm, ht⟩

theorem EndedIn.append {qos : QoS} (he : EndedIn h n qos) (acts : Trace Ctx) : EndedIn (acts ++ h) n qos := by
  obtain ⟨newer, k, ci, type, id, older, rfl, ht⟩ := he
  exact ⟨acts ++ newer, k, ci, type, id, older, (List.append_assoc ..).symm, ht⟩

def Act.isPubrec : Act Ctx → Bool
  | .ack _ _ .pubrec _ => true
  | _ => false

theorem receivedIn_skip : ∀ {acts : Trace Ctx}, (∀ a ∈ acts, a.isPubrec = false) →
    (ReceivedIn (acts ++ h) n ↔ ReceivedIn h n)
  | [], _ => .rfl
  | a :: acts, hacts => by
    have ih : ReceivedIn (acts ++ h) n ↔ ReceivedIn h n :=
      receivedIn_skip (fun b hb => hacts b (List.mem_cons_of_mem _ hb))
    rw [← ih, List.cons_append]
    refine ⟨fun ⟨newer, k, ci, id, older, he, ht⟩ => ?_, fun hr => hr.append [a]⟩
    cases newer with
    | nil =>
      have := hacts a List.mem_cons_self
      rw [(List.cons.inj he).1] at this
      cases this
    | cons _ newer => exact ⟨newer, k, ci, id, older, (List.cons.inj he).2, ht⟩

theorem receivedIn_ack {k ci : Nat} : ReceivedIn (.ack k ci .pubrec id :: h) n ↔ TookAs h n id ∨ ReceivedIn h n := by
  refine ⟨fun ⟨newer, k', ci', id', older, he, ht⟩ => ?_, fun hr => ?_⟩
  · cases newer with
    | nil =>
      cases he
      exact .inl ht
    | cons _ newer =>
      obtain ⟨-, he⟩ := List.cons.inj he
      exact .inr ⟨newer, k', ci', id', older, he, ht⟩
  · rcases hr with ht | hr
    · exact ⟨[], k, ci, id, h, rfl, ht⟩
    · exact hr.append [_]

/-! ### Packets that decode -/

section
variable {T : Traits} {m : OutMsg}

theorem sentPublish_publishOf (hok : m.Ok T) (hsize : T.outSize - packetOverhead ≤ maxRemainingLength) (dup : Bool)
    (h1 : 1 ≤ id) (h2 : id ≤ 65535) :
    sentPublish (publishOf T m dup id) = some ⟨m.topic, m.payload, id, m.qos, m.retain, dup⟩ :=
  sentPublish_queued (hok.fits hsize) hok.qos (by omega) (by omega)

theorem wireId_publishOf (hok : m.Ok T) (hsize : T.outSize - packetOverhead ≤ maxRemainingLength) (dup : Bool)
    (h1 : 1 ≤ id) (h2 : id ≤ 65535) : wireId (publishOf T m dup id) = some id := by
  rw [wireId, sentPublish_publishOf hok hsize dup h1 h2]
  rfl

theorem sentPubrel_pubrelOf (h1 : 1 ≤ m.packetId) (h2 : m.packetId ≤ 65535) :
    sentPubrel (pubrelOf T m) = some m.packetId :=
  sentPubrel_buildPacketIdOnly (outSize_ge T) (by omega) (by omega)

theorem wireId_pubrelOf (h1 : 1 ≤ m.packetId) (h2 : m.packetId ≤ 65535) : wireId (pubrelOf T m) = some m.packetId := by
  have hnone : sentPublish (pubrelOf T m) = none := by
    cases h : sentPublish (pubrelOf T m) with
    | none => rfl
    | some p =>
      have hhead := (headType_buildPacketIdOnly (outSize_ge T) .pubrel m.packetId).symm.trans
          (headType_of_sentPublish h)
      cases hhead
  rw [wireId, hnone, sentPubrel_pubrelOf h1 h2]
  rfl

end

/-! ## The queue and the past of its messages -/

/-- Both entries hold one message. -/
structure SameMsg (m m' : OutMsg) : Prop where
  seq : m'.seq = m.seq
  topic : m'.topic = m.topic
  payload : m'.payload = m.payload
  qos : m'.qos = m.qos
  retain : m'.retain = m.retain

theorem SameMsg.refl (m : OutMsg) : SameMsg m m := ⟨rfl, rfl, rfl, rfl, rfl⟩

/-- Message `n` is in the queue as it was queued. -/
def Holds (s : Session Ctx) (n : Nat) (topic payload : Bytes) (qos : QoS) (retain : Bool) : Prop :=
  ∃ m ∈ s.pending, m.seq = n ∧ m.topic = topic ∧ m.payload = payload ∧ m.qos = qos ∧ m.retain = retain

/-- How the entries of the queue stand to the acts of their session. -/
structure MsgPast (k : Nat) (h : Trace Ctx) (s : Session Ctx) : Prop where
  origin : ∀ m ∈ s.pending, .enqueue k m.seq m.topic m.payload m.qos m.retain ∈ life h
  ids : ∀ m ∈ s.pending, m.state ≠ .queued → ∀ a ∈ life h, ∀ pkt, a.hands m.seq pkt true → wireId pkt = some m.packetId
  received : ∀ m ∈ s.pending, m.qos = .exactlyOnce → (ReceivedIn (life h) m.seq ↔ m.state = .awaitingPubcomp)
  account : ∀ n topic payload qos retain, .enqueue k n topic payload qos retain ∈ life h →
    Holds s n topic payload qos retain ∨ EndedIn (life h) n qos

section
variable {h acts : Trace Ctx} {s s' : Session Ctx}

/-- A step after which every entry is one that was there. -/
theorem MsgPast.keep (hpast : MsgPast k h s) (hlife : life (acts ++ h) = acts ++ life h)
    (hcont : ∀ m' ∈ s'.pending, ∃ m ∈ s.pending, SameMsg m m')
    (hids : ∀ m' ∈ s'.pending, m'.state ≠ .queued → ∀ a ∈ acts ++ life h, ∀ pkt, a.hands m'.seq pkt true →
      wireId pkt = some m'.packetId)
    (hrec : ∀ m' ∈ s'.pending, m'.qos = .exactlyOnce →
      (ReceivedIn (acts ++ life h) m'.seq ↔ m'.state = .awaitingPubcomp))
    (hacc : ∀ m ∈ s.pending, (∃ m' ∈ s'.pending, SameMsg m m') ∨ EndedIn (acts ++ life h) m.seq m.qos)
    (henq : ∀ a ∈ acts, a.isEnqueue = false) : MsgPast k (acts ++ h) s' := by
  rw [← hlife] at hids hrec hacc
  refine ⟨fun m' hm' => ?_, hids, hrec, fun n topic payload qos retain hin => ?_⟩
  · obtain ⟨m, hm, hsame⟩ := hcont m' hm'
    rw [hlife, hsame.seq, hsame.topic, hsame.payload, hsame.qos, hsame.retain]
    exact List.mem_append_right _ (hpast.origin m hm)
  · rw [hlife, List.mem_append] at hin
    rcases hin with hin | hin
    · have := henq _ hin
      cases this
    · rcases hpast.account n topic payload qos retain hin with ⟨m, hm, rfl, rfl, rfl, rfl, rfl⟩ | he
      · refine (hacc m hm).imp_left (fun ⟨m', hm', hsame⟩ => ?_)
        exact ⟨m', hm', hsame.seq, hsame.topic, hsame.payload, hsame.qos, hsame.retain⟩
      · rw [hlife]
        exact .inr (he.append acts)

theorem QueueOk.others (hok : QueueOk T s) {a : List OutMsg} (hp : s.pending = a ++ m :: b) :
    ∀ x, x ∈ a ∨ x ∈ b → x ∈ s.pending ∧ x.seq ≠ m.seq ∧
      (x.state ≠ .queued → m.state ≠ .queued → x.packetId ≠ m.packetId) := by
  have hpair := hok.pairs
  rw [hp, List.pairwise_append, List.pairwise_cons] at hpair
  intro x hx
  rw [hp]
  rcases hx with hx | hx
  · have hap := hpair.2.2 x hx m List.mem_cons_self
    exact ⟨by simp [hx], hap.seq.ne, hap.ids⟩
  · have hap := hpair.2.1.1 x hx
    exact ⟨by simp [hx], hap.seq.ne', fun hqx hqm he => hap.ids hqm hqx he.symm⟩

theorem MsgPast.edit (hpast : MsgPast k h s) (hok : QueueOk T s) {a : List OutMsg} {m' : OutMsg}
    (hlife : life (acts ++ h) = acts ++ life h) (hp : s.pending = a ++ m :: b) (hs : Requeued s s' (a ++ m' :: b))
    (hsame : SameMsg m m') (henq : ∀ x ∈ acts, x.isEnqueue = false)
    (hother : ∀ x ∈ s.pending, x.seq ≠ m.seq → (x.state ≠ .queued → m.state ≠ .queued → x.packetId ≠ m.packetId) →
      (∀ y ∈ acts, ∀ pkt, ¬ y.hands x.seq pkt true) ∧
        (ReceivedIn (acts ++ life h) x.seq ↔ ReceivedIn (life h) x.seq))
    (hids : m'.state ≠ .queued → ∀ y ∈ acts ++ life h, ∀ pkt, y.hands m.seq pkt true → wireId pkt = some m'.packetId)
    (hrec : m'.qos = .exactlyOnce → (ReceivedIn (acts ++ life h) m.seq ↔ m'.state = .awaitingPubcomp)) :
    MsgPast k (acts ++ h) s' := by
  have hcase : ∀ x ∈ s'.pending, x = m' ∨ x ∈ a ∨ x ∈ b := by
    intro x hx
    rw [hs.pending, List.mem_append, List.mem_cons] at hx
    rcases hx with hx | hx | hx
    · exact .inr (.inl hx)
    · exact .inl hx
    · exact .inr (.inr hx)
  have hmem : ∀ x, x ∈ a ∨ x ∈ b → x ∈ s.pending := fun x hx => (hok.others hp x hx).1
  have hfree : ∀ x, x ∈ a ∨ x ∈ b → _ := fun x hx => hother x (hmem x hx) (hok.others hp x hx).2.1
      (hok.others hp x hx).2.2
  refine hpast.keep hlife (fun x hx => ?_) (fun x hx hst y hy pkt hh => ?_) (fun x hx hqos => ?_)
    (fun x hx => .inl ?_) henq
  · rcases hcase x hx with rfl | hx
    · exact ⟨m, by rw [hp]; simp, hsame⟩
    · exact ⟨x, hmem x hx, .refl x⟩
  · rcases hcase x hx with rfl | hx
    · rw [hsame.seq] at hh
      exact hids hst y hy pkt hh
    · rcases List.mem_append.1 hy with hy | hy
      · exact absurd hh ((hfree x hx).1 y hy pkt)
      · exact hpast.ids x (hmem x hx) hst y hy pkt hh
  · rcases hcase x hx with rfl | hx
    · rw [hsame.seq]
      exact hrec hqos
    · rw [(hfree x hx).2]
      exact hpast.received x (hmem x hx) hqos
  · rw [hp, List.mem_append, List.mem_cons] at hx
    rw [hs.pending]
    rcases hx with hx | rfl | hx
    · exact ⟨x, by simp [hx], .refl x⟩
    · exact ⟨m', by simp, hsame⟩
    · exact ⟨x, by simp [hx], .refl x⟩

/-- A step that leaves the queue alone. -/
theorem MsgPast.same (hpast : MsgPast k h s) (hlife : life (acts ++ h) = acts ++ life h)
    (hs : Requeued s s' s.pending) (henq : ∀ x ∈ acts, x.isEnqueue = false)
    (hno : ∀ y ∈ acts, ∀ n pkt, ¬ y.hands n pkt true)
    (hrec : ∀ m ∈ s.pending, m.qos = .exactlyOnce →
      (ReceivedIn (acts ++ life h) m.seq ↔ m.state = .awaitingPubcomp)) : MsgPast k (acts ++ h) s' := by
  have hp := hs.pending
  refine hpast.keep hlife ?_ ?_ ?_ ?_ henq <;> rw [hp]
  · exact fun x hx => ⟨x, hx, .refl x⟩
  · intro x hx hst y hy pkt hh
    rcases List.mem_append.1 hy with hy | hy
    · exact absurd hh (hno y hy _ pkt)
    · exact hpast.ids x hx hst y hy pkt hh
  · exact hrec
  · exact fun x hx => .inl ⟨x, hx, .refl x⟩

/-- and is no PUBREC. -/
theorem MsgPast.quiet (hpast : MsgPast k h s) (hlife : life (acts ++ h) = acts ++ life h)
    (hs : Requeued s s' s.pending) (henq : ∀ x ∈ acts, x.isEnqueue = false)
    (hno : ∀ y ∈ acts, ∀ n pkt, ¬ y.hands n pkt true) (hrec : ∀ x ∈ acts, x.isPubrec = false) :
    MsgPast k (acts ++ h) s' :=
  hpast.same hlife hs henq hno fun m hm hqos => by rw [receivedIn_skip hrec]; exact hpast.received m hm hqos

/-- A step in which a packet of one entry goes out. -/
theorem MsgPast.sends (hpast : MsgPast k h s) (hok : QueueOk T s) {a : List OutMsg} {m' : OutMsg} {ok : Bool}
    (hlife : life ([.send s.conn pkt ok (tagOf k s (some m.seq))] ++ h) =
      [.send s.conn pkt ok (tagOf k s (some m.seq))] ++ life h)
    (hp : s.pending = a ++ m :: b) (hs : Requeued s s' (a ++ m' :: b)) (hsame : SameMsg m m')
    (hid : wireId pkt = some m'.packetId)
    (hids : ∀ y ∈ life h, ∀ pkt, y.hands m.seq pkt true → wireId pkt = some m'.packetId)
    (hrec : m'.qos = .exactlyOnce → (ReceivedIn (life h) m.seq ↔ m'.state = .awaitingPubcomp)) :
    MsgPast k ([.send s.conn pkt ok (tagOf k s (some m.seq))] ++ h) s' := by
  have hskip : ∀ n, ReceivedIn ([.send s.conn pkt ok (tagOf k s (some m.seq))] ++ life h) n ↔ ReceivedIn (life h) n :=
    fun _ => receivedIn_skip (by simp [Act.isPubrec])
  refine hpast.edit hok hlife hp hs hsame (by simp [Act.isEnqueue]) (fun x _ hne _ => ⟨fun y hy pkt' hh => ?_, hskip _⟩)
    (fun _ y hy pkt' hh => ?_) (fun hqos => (hskip _).trans (hrec hqos))
  · -- A packet of one entry is no packet of another.
    rw [List.mem_singleton.1 hy] at hh
    exact hne (hands_tagOf hh).1
  · rcases List.mem_append.1 hy with hy | hy
    · rw [List.mem_singleton.1 hy] at hh
      rw [(hands_tagOf hh).2.1]
      exact hid
    · exact hids y hy pkt' hh

theorem MsgPast.erase (hpast : MsgPast k h s) (hlife : life (acts ++ h) = acts ++ life h) {a : List OutMsg}
    (hp : s.pending = a ++ m :: b) (hs : Requeued s s' (a ++ b)) (henq : ∀ x ∈ acts, x.isEnqueue = false)
    (hno : ∀ y ∈ acts, ∀ n pkt, ¬ y.hands n pkt true) (hrec : ∀ x ∈ acts, x.isPubrec = false)
    (hend : EndedIn (acts ++ life h) m.seq m.qos) : MsgPast k (acts ++ h) s' := by
  have hmem : ∀ x ∈ s'.pending, x ∈ s.pending := by
    intro x hx
    rw [hs.pending, List.mem_append] at hx
    rw [hp]
    rcases hx with hx | hx <;> simp [hx]
  refine hpast.keep hlife (fun x hx => ⟨x, hmem x hx, .refl x⟩) (fun x hx hst y hy pkt hh => ?_)
    (fun x hx hqos => ?_) (fun x hx => ?_) henq
  · rcases List.mem_append.1 hy with hy | hy
    · exact absurd hh (hno y hy _ pkt)
    · exact hpast.ids x (hmem x hx) hst y hy pkt hh
  · rw [receivedIn_skip hrec]
    exact hpast.received x (hmem x hx) hqos
  · rw [hp, List.mem_append, List.mem_cons] at hx
    rw [hs.pending]
    rcases hx with hx | rfl | hx
    · exact .inl ⟨x, by simp [hx], .refl x⟩
    · exact .inr hend
    · exact .inl ⟨x, by simp [hx], .refl x⟩

/-- A PUBLISH of an entry that waits for no PUBCOMP. -/
theorem MsgPast.onWire_publish (hsize : P.T.outSize - packetOverhead ≤ maxRemainingLength) (hok : QueueOk P.T s)
    (hpast : MsgPast k h s) (hm : m ∈ s.pending) (hst : m.state ≠ .awaitingPubcomp) (dup ok : Bool) (h1 : 1 ≤ id)
    (h2 : id ≤ 65535) (hdup : ok = true → (dup = true ↔ SentIn (life h) m.seq))
    (hid : ok = true → ∀ b ∈ life h, ∀ pkt, b.hands m.seq pkt true → wireId pkt = some id) :
    OnWire k (.send s.conn (publishOf P.T m dup id) ok (tagOf k s (some m.seq))) h := by
  intro n pkt ok' hh
  obtain ⟨rfl, rfl, rfl⟩ := hands_tagOf hh
  have hmok := hok.entries m hm
  refine ⟨m.topic, m.payload, m.qos, m.retain, hpast.origin m hm,
    .inl ⟨_, sentPublish_publishOf hmok hsize dup h1 h2, rfl, rfl, rfl, rfl, hdup, fun hqos hr => ?_⟩,
    fun hok' => ⟨id, wireId_publishOf hmok hsize dup h1 h2, hid hok'⟩⟩
  exact hst ((hpast.received m hm hqos).1 hr)

/-- A PUBREL of an entry that waits for its PUBCOMP. -/
theorem MsgPast.onWire_pubrel (hok : QueueOk P.T s) (hpast : MsgPast k h s) (hm : m ∈ s.pending)
    (hst : m.state = .awaitingPubcomp) (ok : Bool) :
    OnWire k (.send s.conn (pubrelOf P.T m) ok (tagOf k s (some m.seq))) h := by
  intro n pkt ok' hh
  obtain ⟨rfl, rfl, rfl⟩ := hands_tagOf hh
  have hmok := hok.entries m hm
  have hne : m.state ≠ .queued := by simp [hst]
  obtain ⟨h1, h2⟩ := hmok.id hne
  have hqos := hmok.pubrec (.inr hst)
  refine ⟨m.topic, m.payload, m.qos, m.retain, hpast.origin m hm,
    .inr ⟨by rw [sentPubrel_pubrelOf h1 h2]; simp, hqos, (hpast.received m hm hqos).2 hst⟩,
    fun _ => ⟨m.packetId, wireId_pubrelOf h1 h2, hpast.ids m hm hne⟩⟩

theorem ReceivedIn.sentIn (hr : ReceivedIn h n) : SentIn h n := by
  obtain ⟨newer, k, ci, id, older, rfl, a, ha, pkt, hh, -⟩ := hr
  exact sentIn_of_hands (List.mem_append_right _ (List.mem_cons_of_mem _ ha)) hh

/-- An entry in flight went out with its id. -/
theorem MsgPast.tookAs (hpast : MsgPast k h s) (hq : QueuePast h s) (hm : m ∈ s.pending) (hst : m.state ≠ .queued) :
    TookAs (life h) m.seq m.packetId := by
  obtain ⟨a, ha, ht⟩ := hq.sent m hm hst
  obtain ⟨pkt, hh⟩ := took_iff_hands.1 ht
  exact ⟨a, ha, pkt, hh, hpast.ids m hm hst a ha pkt hh⟩

theorem MsgPast.packetId_eq (hpast : MsgPast k h s) (hq : QueuePast h s) (hm : m ∈ s.pending)
    (ht : TookAs (life h) m.seq id) : m.state ≠ .queued ∧ m.packetId = id := by
  obtain ⟨a, ha, pkt, hh, hid⟩ := ht
  have hst : m.state ≠ .queued := fun hst =>
    Nat.lt_irrefl _ (hq.waiting m hm hst m.seq (sentIn_of_hands ha hh))
  exact ⟨hst, Option.some.inj ((hpast.ids m hm hst a ha pkt hh).symm.trans hid)⟩

theorem MsgPast.push (hpast : MsgPast k h s) (hq : QueuePast h s) {topic payload : Bytes} (eff : QoS) (retain : Bool)
    (htopic : TopicFits P.T topic) (hpayload : payload.length ≤ P.T.maxPayloadLen) :
    MsgPast k (.enqueue k s.nextSeq topic payload eff retain :: h) (s.queued P.T topic payload eff retain) := by
  have hlife : life (.enqueue k s.nextSeq topic payload eff retain :: h) =
      .enqueue k s.nextSeq topic payload eff retain :: life h := History.since_cons rfl h
  have hnew : outMsg P.T s topic payload eff retain =
      { topic := topic, payload := payload, qos := eff, retain := retain, seq := s.nextSeq } := by
    simp only [outMsg, assign_of_le htopic.stored, assign_of_le hpayload]
  have hcase : ∀ x ∈ (s.queued P.T topic payload eff retain).pending, x ∈ s.pending ∨
      x = { topic := topic, payload := payload, qos := eff, retain := retain, seq := s.nextSeq } := by
    intro x hx
    simpa only [Session.queued, List.mem_append, List.mem_singleton, hnew] using hx
  have hrec : ∀ n, ReceivedIn (life (.enqueue k s.nextSeq topic payload eff retain :: h)) n ↔
      ReceivedIn (life h) n := by
    intro n
    rw [hlife, ← List.singleton_append]
    exact receivedIn_skip (by simp [Act.isPubrec])
  refine ⟨fun x hx => ?_, fun x hx hst y hy pkt hh => ?_, fun x hx hqos => ?_,
    fun n topic' payload' qos' retain' hin => ?_⟩
  · rw [hlife]
    rcases hcase x hx with hx | rfl
    · exact List.mem_cons_of_mem _ (hpast.origin x hx)
    · exact List.mem_cons_self
  · rw [hlife] at hy
    rcases hcase x hx with hx | rfl
    · rcases List.mem_cons.1 hy with rfl | hy
      · cases hh
      · exact hpast.ids x hx hst y hy pkt hh
    · exact absurd rfl hst
  · rw [hrec]
    rcases hcase x hx with hx | rfl
    · exact hpast.received x hx hqos
    · exact ⟨fun hr => absurd (hq.known _ hr.sentIn) (Nat.lt_irrefl _), fun he => by (cases he)⟩
  · rw [hlife] at hin ⊢
    rcases List.mem_cons.1 hin with he | hin
    · cases he
      exact .inl ⟨_, List.mem_append_right _ (List.mem_singleton_self _), by rw [hnew]; exact ⟨rfl, rfl, rfl, rfl, rfl⟩⟩
    · refine (hpast.account n topic' payload' qos' retain' hin).imp ?_ (fun he => he.append [_])
      rintro ⟨m, hm, hc⟩
      exact ⟨m, List.mem_append_left _ hm, hc⟩

theorem Act.isPubrec_of_idle (h : a.idle = true) : a.isPubrec = false := by
  cases a <;> first | rfl | cases h

theorem MsgPast.step (hsize : P.T.outSize - packetOverhead ≤ maxRemainingLength) (hok : QueueOk P.T s)
    (hq : QueuePast h s) (hpast : MsgPast k h s) (q : QueueStep P k s acts s') :
    MsgPast k (acts ++ h) s' ∧ (Each (OnWire k) h → Each (OnWire k) (acts ++ h)) := by
  have hlife := q.life h
  have hsilent : ∀ {a : Act Ctx}, (∀ n pkt ok, ¬ a.hands n pkt ok) → ∀ older, OnWire k a older :=
    fun hno _ n pkt ok hh => absurd hh (hno n pkt ok)
  have hack : ∀ {ci type id} n pkt ok, ¬ Act.hands n pkt ok (.ack k ci type id : Act Ctx) := fun _ _ _ hh => hh
  cases q with
  | idle hacts hs =>
    exact ⟨hpast.quiet hlife hs (fun a ha => Act.isEnqueue_of_idle (hacts a ha))
      (fun a ha n pkt => not_hands_of_idle (hacts a ha) n pkt true) (fun a ha => Act.isPubrec_of_idle (hacts a ha)),
      fun hh => hh.append (fun a ha _ => hsilent (fun n pkt ok => not_hands_of_idle (hacts a ha) n pkt ok) _)⟩
  | push topic payload eff retain _ _ htopic hpayload =>
    exact ⟨hpast.push hq eff retain htopic hpayload, fun hh => ⟨fun _ _ _ hno => False.elim hno, hh⟩⟩
  | refused a b m dup id hp hst hid hs =>
    have hm : m ∈ s.pending := by rw [hp]; simp
    have hrange : 1 ≤ id ∧ id ≤ 65535 := by
      split at hid
      · exact (allocLoop_some s hid).2
      · rename_i hne
        rw [← hid]
        exact (hok.entries m hm).id hne
    refine ⟨hpast.quiet hlife hs (by simp [Act.isEnqueue]) (fun y hy n pkt hh => ?_) (by simp [Act.isPubrec]),
      fun hh => ⟨hpast.onWire_publish hsize hok hm hst dup false hrange.1 hrange.2 (fun h => by (cases h))
        (fun h => by (cases h)), hh⟩⟩
    rw [List.mem_singleton.1 hy] at hh
    cases (hands_tagOf hh).2.2
  | stuck =>
    exact ⟨hpast.quiet hlife ⟨rfl, rfl⟩ (by simp [Act.isEnqueue]) (by simp [Act.hands]) (by simp [Act.isPubrec]),
      fun hh => ⟨fun _ _ _ hno => False.elim hno, hh⟩⟩
  | first a b m hid hp hst hset hpkt hs =>
    have hm : m ∈ s.pending := by rw [hp]; simp
    obtain ⟨-, h1, h2⟩ := allocLoop_some s hid
    have hunsent : ¬ SentIn (life h) m.seq := fun hs => Nat.lt_irrefl _ (hq.waiting m hm hst m.seq hs)
    refine ⟨hpast.sends hok hlife hp hs ⟨rfl, rfl, rfl, rfl, rfl⟩
      (wireId_publishOf (hok.entries m hm) hsize m.dup h1 h2)
      (fun y hy pkt hh => absurd (sentIn_of_hands hy hh) hunsent) (fun _ => ?_),
      fun hh => ⟨hpast.onWire_publish hsize hok hm (by simp [hst]) m.dup true h1 h2 (fun _ => ?_)
        (fun _ y hy pkt hh => absurd (sentIn_of_hands hy hh) hunsent), hh⟩⟩
    · exact ⟨fun hr => absurd hr.sentIn hunsent, fun he => absurd he (sentState_ne m.qos).2⟩
    · simp [(hok.entries m hm).fresh hst, hunsent]
  | again a b m hp hst hpkt hs =>
    have hm : m ∈ s.pending := by rw [hp]; simp
    have hne : m.state ≠ .queued := by rcases hst with h | h <;> simp [h]
    obtain ⟨h1, h2⟩ := (hok.entries m hm).id hne
    exact ⟨hpast.sends hok hlife hp hs ⟨rfl, rfl, rfl, rfl, rfl⟩ (wireId_publishOf (hok.entries m hm) hsize true h1 h2)
        (hpast.ids m hm hne) (hpast.received m hm),
      fun hh => ⟨hpast.onWire_publish hsize hok hm (by rcases hst with h | h <;> simp [h]) true true h1 h2
        (fun _ => ⟨fun _ => hq.sent m hm hne, fun _ => rfl⟩) (fun _ => hpast.ids m hm hne), hh⟩⟩
  | rel a b m ok flag hp hst _ hs =>
    have hm : m ∈ s.pending := by rw [hp]; simp
    have hne : m.state ≠ .queued := by simp [hst]
    obtain ⟨h1, h2⟩ := (hok.entries m hm).id hne
    exact ⟨hpast.sends hok hlife hp hs ⟨rfl, rfl, rfl, rfl, rfl⟩ (wireId_pubrelOf h1 h2) (hpast.ids m hm hne)
      (hpast.received m hm), fun hh => ⟨hpast.onWire_pubrel hok hm hst ok, hh⟩⟩
  | stray type id hnone =>
    refine ⟨hpast.same hlife ⟨rfl, rfl⟩ (by simp [Act.isEnqueue])
      (fun y hy n pkt => by rw [List.mem_singleton.1 hy]; exact hack n pkt true) (fun m hm hqos => ?_),
      fun hh => ⟨hsilent hack _, hh⟩⟩
    have hold := hpast.received m hm hqos
    by_cases htype : type = .pubrec
    · subst htype
      rw [List.singleton_append, receivedIn_ack]
      refine ⟨fun hr => hr.elim (fun ht => ?_) hold.1, fun he => .inr (hold.2 he)⟩
      -- A QoS 2 entry in flight that waits for no PUBREC waits for its PUBCOMP.
      obtain ⟨hne, hid⟩ := hpast.packetId_eq hq hm ht
      have hrec := hnone rfl m hm hid
      have hpub := (hok.entries m hm).puback
      cases hst : m.state <;> simp_all
    · have hno : ∀ a ∈ [(.ack k s.conn type id : Act Ctx)], a.isPubrec = false := by
        intro a ha
        rw [List.mem_singleton.1 ha]
        cases type <;> first | rfl | exact absurd rfl htype
      rw [receivedIn_skip hno]
      exact hold
  | received a b m hp hst hs =>
    have hm : m ∈ s.pending := by rw [hp]; simp
    have hne : m.state ≠ .queued := by rcases hst with h | h <;> simp [h]
    refine ⟨hpast.edit hok hlife hp hs ⟨rfl, rfl, rfl, rfl, rfl⟩ (by simp [Act.isEnqueue])
      (fun x hx _ hids => ⟨fun y hy pkt => by rw [List.mem_singleton.1 hy]; exact hack _ pkt true, ?_⟩)
      (fun _ y hy pkt hh => ?_) (fun _ => ?_), fun hh => ⟨hsilent hack _, hh⟩⟩
    · rw [List.singleton_append, receivedIn_ack]
      refine ⟨fun hr => hr.elim (fun ht => ?_) id, .inr⟩
      obtain ⟨hnex, hid⟩ := hpast.packetId_eq hq hx ht
      exact absurd hid (hids hnex hne)
    · rcases List.mem_append.1 hy with hy | hy
      · rw [List.mem_singleton.1 hy] at hh
        exact absurd hh (hack _ pkt true)
      · exact hpast.ids m hm hne y hy pkt hh
    · rw [List.singleton_append, receivedIn_ack]
      exact ⟨fun _ => rfl, fun _ => .inl (hpast.tookAs hq hm hne)⟩
  | final a b m type hp ht hs =>
    have hm : m ∈ s.pending := by rw [hp]; simp
    have hne : m.state ≠ .queued := by
      intro h
      rw [h] at ht
      cases ht
    have hno : ∀ a ∈ [(.ack k s.conn type m.packetId : Act Ctx)], a.isPubrec = false := by
      intro a ha
      rw [List.mem_singleton.1 ha]
      cases type <;> first | rfl | cases ht
    refine ⟨hpast.erase hlife hp hs (by simp [Act.isEnqueue])
      (fun y hy n pkt => by rw [List.mem_singleton.1 hy]; exact hack n pkt true) hno ?_, fun hh => ⟨hsilent hack _, hh⟩⟩
    refine ⟨[], k, s.conn, type, m.packetId, life h, rfl, hpast.tookAs hq hm hne, ?_⟩
    generalize hst : m.state = st at ht
    cases ht with
    | puback => exact .inl ⟨(hok.entries m hm).puback hst, rfl⟩
    | pubcomp =>
      have hqos := (hok.entries m hm).pubrec (.inr hst)
      exact .inr ⟨hqos, rfl, (hpast.received m hm hqos).2 hst⟩
  | drop a b m dup id e hp _ hpkt hs =>
    exact absurd hpkt (buildPublish_ne_nil_iff.2 ((hok.mem hp).fits hsize))

end

/-! ## Every run -/

theorem MsgPast.fresh (T : Traits) (h : Trace Ctx) (ctx : Ctx) (clientId : Bytes) :
    MsgPast k (.alloc k :: h) (freshSession T ctx clientId) where
  origin := fun m hm => by cases hm
  ids := fun m hm => by cases hm
  received := fun m hm => by cases hm
  account := fun n topic payload qos retain hin => by
    rw [life, History.since_cons_mark rfl] at hin
    cases hin

theorem SlotRun.messages (hsize : P.T.outSize - packetOverhead ≤ maxRemainingLength) {o : Option (Session Ctx)}
    (run : SlotRun P k h o) : Each (OnWire k) h ∧ ∀ s, o = some s → QueueOk P.T s ∧ QueuePast h s ∧ MsgPast k h s := by
  refine run.queueRule (fun h o => Each (OnWire k) h ∧ ∀ s, o = some s → QueueOk P.T s ∧ QueuePast h s ∧ MsgPast k h s)
    ⟨trivial, by simp⟩ (fun h ctx clientId _ hI => ?_) (fun h s hI => ?_) (fun h s acts s' hI q => ?_)
  · refine ⟨⟨fun _ _ _ hh => (by cases hh), hI.1⟩, fun s hs => ?_⟩
    cases hs
    exact ⟨.fresh P.T ctx clientId, .fresh P.T h ctx clientId, .fresh P.T h ctx clientId⟩
  · exact ⟨⟨fun _ _ _ hh => (by cases hh), hI.1⟩, by simp⟩
  · obtain ⟨hok, hq, hpast⟩ := hI.2 s rfl
    obtain ⟨hpast', hw⟩ := hpast.step hsize hok hq q
    refine ⟨hw hI.1, fun s₁ hs₁ => ?_⟩
    cases hs₁
    exact ⟨hok.step q, (hq.step hok q).1, hpast'⟩

/-- **The delivery life cycle.**  A number stands for one message; every packet of a queued message is as `OnWire` says;
the queue keeps its order; what is in it is as it was queued; and what was queued since the session began is still there
or was acknowledged. -/
theorem run_message_lifecycle (P : Params Ctx) (hsize : P.T.outSize - packetOverhead ≤ maxRemainingLength)
    (inputs : List Input) (k : Nat) :
    Each Numbered (slotActs k (run P inputs).trace) ∧ Each (OnWire k) (slotActs k (run P inputs).trace) ∧
    ∀ s, (run P inputs).sessions.slot k = some s →
      s.pending.Pairwise (fun m m' => m.seq < m'.seq) ∧
      (∀ m ∈ s.pending,
        .enqueue k m.seq m.topic m.payload m.qos m.retain ∈ life (slotActs k (run P inputs).trace)) ∧
      ∀ n topic payload qos retain,
        .enqueue k n topic payload qos retain ∈ life (slotActs k (run P inputs).trace) →
        Holds s n topic payload qos retain ∨ EndedIn (life (slotActs k (run P inputs).trace)) n qos := by
  obtain ⟨hwire, hlive⟩ := (run_slot P inputs k).messages hsize
  refine ⟨(run_slot P inputs k).queue.1.2, hwire, fun s hs => ?_⟩
  obtain ⟨hok, -, hpast⟩ := hlive s hs
  exact ⟨hok.pairs.imp (fun hap => hap.seq), hpast.origin, hpast.account⟩

/-- A QoS 1 message acknowledged and gone, a QoS 2 message between PUBREC and PUBCOMP. -/
theorem message_lifecycle_qos2 : let P := bed (fun _ _ _ => true)
    let inputs := Input.connect 0 [99] { clean := false } ++ [.feed 0 (Wire.makeSubscribe 1 [([97], 2)]),
      .publish [97] [1] .atLeastOnce false, .publish [97] [2] .exactlyOnce false,
      .feed 0 (Wire.makeAck .puback 1), .feed 0 (Wire.makeAck .pubrec 2)]
    P.T.outSize - packetOverhead ≤ maxRemainingLength ∧
    ((run P inputs).sessions.slot 0).map (fun s => s.pending.map (fun m => (m.packetId, m.state))) =
      some [(2, .awaitingPubcomp)] ∧
    Each (OnWire 0) (slotActs 0 (run P inputs).trace) := by
  intro P inputs
  have hsize : P.T.outSize - packetOverhead ≤ maxRemainingLength := by decide
  have h := run_message_lifecycle P hsize inputs 0
  refine ⟨hsize, by decide +kernel, ?_⟩
  -- Left as it is, the run is evaluated when the two statements are compared.
  generalize run P inputs = σ at h ⊢
  exact h.2.1

end Minimosq
