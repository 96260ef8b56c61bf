import Minimosq.Lifecycle
import Minimosq.Will
/-!
# Resumption

A CONNECT that finds its session resumes it: `resume_session` sends again what was in flight, in order, and stops at the
first packet the transport refuses; `pump_session` goes on from the ticks that follow, but only for entries still queued
and for a PUBREL marked for repetition.  `Following` is what any step keeps of the entries that were in flight at the
CONNECT, `AfterResume` what is left to do once the resumption is over, and a tick without a refusal does it.
-/
namespace Minimosq

open History (Star since Each)

variable {Ctx : Type} {P : Params Ctx} {k : Nat}
variable {a : Act Ctx} {b : Session Ctx} {m m' x : OutMsg} {T : Traits} {n : Nat}

/-! ## What is owed to a message in flight -/

/-- The acknowledgement an entry in flight waits for. -/
def OutState.awaits : OutState → Option PacketType
  | .queued => none
  | .awaitingPuback => some .puback
  | .awaitingPubrec => some .pubrec
  | .awaitingPubcomp => some .pubcomp

/-- What a new connection owes to an entry in flight: its PUBREL, or its PUBLISH with DUP and its packet id. -/
def retransmission (T : Traits) (m : OutMsg) : Bytes :=
  if m.state = .awaitingPubcomp then pubrelOf T m else publishOf T m true m.packetId

def Act.acks (k : Nat) (m : OutMsg) : Act Ctx → Bool
  | .ack j _ type id => j == k && id == m.packetId && m.state.awaits == some type
  | _ => false

def Act.resends (T : Traits) (k ci : Nat) (m : OutMsg) : Act Ctx → Bool
  | .send j pkt true (some τ) => j == ci && pkt == retransmission T m && τ.slot == k && τ.seq == some m.seq
  | _ => false

/-- The entry was acknowledged. -/
def Acked (k : Nat) (m : OutMsg) (ep : Trace Ctx) : Prop := ∃ a ∈ ep, a.acks k m = true

/-- The transport took the retransmission of the entry on connection `ci`. -/
def Resent (T : Traits) (k ci : Nat) (m : OutMsg) (ep : Trace Ctx) : Prop := ∃ a ∈ ep, a.resends T k ci m = true

/-- No message that follows the entry in the queue goes out before the entry does. -/
def NotOvertaken (T : Traits) (k ci : Nat) (m : OutMsg) (a : Act Ctx) (older : Trace Ctx) : Prop :=
  ∀ n, m.seq < n → a.took n = true → Acked k m older ∨ Resent T k ci m older

def Act.refuses (n : Nat) : Act Ctx → Bool
  | .send _ _ false (some τ) => τ.seq == some n
  | _ => false

def Act.isResumed : Act Ctx → Bool
  | .resumed _ _ => true
  | _ => false

/-- The part of an episode in which `resume_session` ran. -/
def resuming (ep : Trace Ctx) : Trace Ctx := ep.dropWhile (fun a => !a.isResumed)

/-- **No retransmission of the resumption was refused**, but perhaps the last, if it is a PUBREL. -/
def ResumeTaken (b : Session Ctx) (ep : Trace Ctx) : Prop :=
  ∀ m ∈ b.pending, m.state ≠ .queued → (∃ a ∈ resuming ep, a.refuses m.seq = true) →
    m.state = .awaitingPubcomp ∧ ∀ m' ∈ b.pending, m.seq < m'.seq → m'.state = .queued

instance (k : Nat) (m : OutMsg) (ep : Trace Ctx) : Decidable (Acked k m ep) :=
  inferInstanceAs (Decidable (∃ a ∈ ep, a.acks k m = true))

instance (T : Traits) (k ci : Nat) (m : OutMsg) (ep : Trace Ctx) : Decidable (Resent T k ci m ep) :=
  inferInstanceAs (Decidable (∃ a ∈ ep, a.resends T k ci m = true))

instance (b : Session Ctx) (ep : Trace Ctx) : Decidable (ResumeTaken b ep) :=
  inferInstanceAs (Decidable (∀ m ∈ b.pending, m.state ≠ .queued → (∃ a ∈ resuming ep, a.refuses m.seq = true) →
    m.state = .awaitingPubcomp ∧ ∀ m' ∈ b.pending, m.seq < m'.seq → m'.state = .queued))

section
variable {T : Traits} {ci : Nat} {m : OutMsg} {ep : Trace Ctx}

theorem Acked.append (h : Acked k m ep) (acts : Trace Ctx) : Acked k m (acts ++ ep) := by
  obtain ⟨a, ha, hm⟩ := h
  exact ⟨a, List.mem_append_right _ ha, hm⟩

theorem Resent.append (h : Resent T k ci m ep) (acts : Trace Ctx) : Resent T k ci m (acts ++ ep) := by
  obtain ⟨a, ha, hm⟩ := h
  exact ⟨a, List.mem_append_right _ ha, hm⟩

theorem mem_resuming_append (h : a ∈ resuming ep) (acts : Trace Ctx) : a ∈ resuming (acts ++ ep) := by
  induction acts with
  | nil => exact h
  | cons x acts ih =>
    rw [resuming, List.cons_append, List.dropWhile_cons]
    split
    · exact ih
    · exact List.mem_cons_of_mem _ (List.mem_append_right _ ((List.dropWhile_sublist _).subset h))

theorem ResumeTaken.of_append {acts : Trace Ctx} (h : ResumeTaken b (acts ++ ep)) : ResumeTaken b ep := by
  intro m hm hst ⟨a, ha, hr⟩
  exact h m hm hst ⟨a, mem_resuming_append ha acts, hr⟩

theorem resuming_append {acts : Trace Ctx} (hacts : ∀ a ∈ acts, a.isResumed = false) :
    resuming (acts ++ ep) = resuming ep :=
  List.dropWhile_append_of_pos (fun a ha => by simp [hacts a ha])

end

/-! ## One step of the queue -/

/-- The entry is still there, and waits for what it waited for. -/
structure Held (m m' : OutMsg) : Prop extends SameMsg m m' where
  packetId : m'.packetId = m.packetId
  state : m'.state = m.state

theorem Held.refl (m : OutMsg) : Held m m := ⟨.refl m, rfl, rfl⟩

theorem Held.trans {m'' : OutMsg} (h : Held m m') (h' : Held m' m'') : Held m m'' :=
  ⟨⟨h'.seq.trans h.seq, h'.topic.trans h.topic, h'.payload.trans h.payload, h'.qos.trans h.qos,
    h'.retain.trans h.retain⟩, h'.packetId.trans h.packetId, h'.state.trans h.state⟩

theorem Held.acks (h : Held m m') (a : Act Ctx) : a.acks k m' = a.acks k m := by
  cases a <;> simp only [Act.acks, h.packetId, h.state]

theorem Held.retransmission (h : Held m m') (T : Traits) : retransmission T m' = Minimosq.retransmission T m := by
  simp only [Minimosq.retransmission, pubrelOf, publishOf, h.state, h.packetId, h.topic, h.payload, h.qos, h.retain]

theorem Held.resends (h : Held m m') (T : Traits) (ci : Nat) (a : Act Ctx) :
    a.resends T k ci m' = a.resends T k ci m := by
  cases a with
  | send j pkt ok tag =>
    cases ok <;> cases tag <;> simp only [Act.resends, h.retransmission, h.seq]
  | _ => rfl

/-- Every entry in flight fits in a packet: it went out in one. -/
def Flies (T : Traits) (s : Session Ctx) : Prop :=
  ∀ m ∈ s.pending, m.state ≠ .queued → PublishFits T.outSize m.topic m.payload m.qos

section
variable {s s' : Session Ctx} {acts : Trace Ctx}

theorem QueueOk.seq_inj (h : QueueOk T s) {y : OutMsg} (hx : x ∈ s.pending) (hy : y ∈ s.pending) (he : x.seq = y.seq) :
    x = y := by
  obtain ⟨a, b, hp⟩ := List.append_of_mem hx
  rw [hp, List.mem_append, List.mem_cons] at hy
  rcases hy with hy | hy | hy
  · exact absurd he.symm (h.others hp y (.inl hy)).2.1
  · exact hy.symm
  · exact absurd he.symm (h.others hp y (.inr hy)).2.1

/-- What is before an entry in the queue is older. -/
theorem QueueOk.mem_left (h : QueueOk T s) {a b : List OutMsg} (hp : s.pending = a ++ m :: b) (hx : x ∈ s.pending)
    (hlt : x.seq < m.seq) : x ∈ a := by
  have hpair := h.pairs
  rw [hp, List.pairwise_append, List.pairwise_cons] at hpair
  rw [hp, List.mem_append, List.mem_cons] at hx
  rcases hx with hx | rfl | hx
  · exact hx
  · exact absurd hlt (Nat.lt_irrefl _)
  · exact absurd (hpair.2.1.1 x hx).seq (Nat.lt_asymm hlt)

theorem QueueOk.apart (h : QueueOk T s) {y : OutMsg} (hx : x ∈ s.pending) (hy : y ∈ s.pending) (hlt : x.seq < y.seq) :
    Apart x y := by
  obtain ⟨a, b, hp⟩ := List.append_of_mem hy
  have hxa := h.mem_left hp hx hlt
  have hpair := h.pairs
  rw [hp, List.pairwise_append] at hpair
  exact hpair.2.2 x hxa y List.mem_cons_self

theorem Flies.step (h : Flies P.T s) (q : QueueStep P k s acts s') : Flies P.T s' := by
  let R := fun (y x : OutMsg) => SameMsg y x ∧ (x.state ≠ .queued → y.state ≠ .queued ∨
    PublishFits P.T.outSize y.topic y.payload y.qos)
  have hR : ∀ x, R x x := fun x => ⟨.refl x, .inl⟩
  have hsame : ∀ {m m' : OutMsg}, SameMsg m m' → m.state ≠ .queued → R m m' := fun hm hst => ⟨hm, fun _ => .inl hst⟩
  have hall : ∀ x ∈ s'.pending, x.state = .queued ∨ ∃ y ∈ s.pending, R y x := by
    intro x hx
    cases q with
    | idle _ hs => exact .inr (hs.same hR x hx)
    | refused _ _ _ _ _ _ _ _ hs => exact .inr (hs.same hR x hx)
    | stuck | stray => exact .inr ⟨x, hx, hR x⟩
    | push topic payload eff retain =>
      rcases List.mem_append.1 hx with hx | hx
      · exact .inr ⟨x, hx, hR x⟩
      · rw [List.mem_singleton.1 hx]
        exact .inl rfl
    | first a b m _ hp _ _ hpkt hs =>
      exact .inr (hs.edit hR hp ⟨⟨rfl, rfl, rfl, rfl, rfl⟩, fun _ => .inr (buildPublish_ne_nil_iff.1 hpkt)⟩ x hx)
    | again a b m hp hst _ hs =>
      exact .inr (hs.edit hR hp (hsame ⟨rfl, rfl, rfl, rfl, rfl⟩ (by rcases hst with h | h <;> simp [h])) x hx)
    | rel a b m _ _ hp hst _ hs =>
      exact .inr (hs.edit hR hp (hsame ⟨rfl, rfl, rfl, rfl, rfl⟩ (by simp [hst])) x hx)
    | received a b m hp hst hs =>
      exact .inr (hs.edit hR hp (hsame ⟨rfl, rfl, rfl, rfl, rfl⟩ (by rcases hst with h | h <;> simp [h])) x hx)
    | final a b m _ hp _ hs => exact .inr (hs.erase hR hp x hx)
    | drop a b m _ _ _ hp _ _ hs => exact .inr (hs.erase hR hp x hx)
  intro x hx hst
  rcases hall x hx with hq | ⟨y, hy, hxy, hfly⟩
  · exact absurd hq hst
  · rw [hxy.topic, hxy.payload, hxy.qos]
    exact (hfly hst).elim (h y hy) id

/-- **An entry in flight through a step**: it is acknowledged, or it is held, and then a PUBREL marked for repetition
stays marked until it is repeated. -/
theorem QueueStep.held (hfly : Flies P.T s) (q : QueueStep P k s acts s') (hm : m ∈ s.pending)
    (hst : m.state ≠ .queued) : (∃ a ∈ acts, a.acks k m = true) ∨ ∃ m' ∈ s'.pending, Held m m' ∧
      (m.resendPubrel = true → m'.resendPubrel = true ∨ ∃ a ∈ acts, a.resends P.T k s.conn m = true) := by
  have hstay : m ∈ s'.pending → (∃ a ∈ acts, a.acks k m = true) ∨ ∃ m' ∈ s'.pending, Held m m' ∧
      (m.resendPubrel = true → m'.resendPubrel = true ∨ ∃ a ∈ acts, a.resends P.T k s.conn m = true) :=
    fun h => .inr ⟨m, h, .refl m, .inl⟩
  have hsplit : ∀ {a b : List OutMsg} {x : OutMsg}, s.pending = a ++ x :: b → m = x ∨ m ∈ a ∨ m ∈ b := by
    intro a b x hp
    rw [hp, List.mem_append, List.mem_cons] at hm
    tauto
  have hedit : ∀ {a b : List OutMsg} {x : OutMsg}, Requeued s s' (a ++ x :: b) → m ∈ a ∨ m ∈ b → m ∈ s'.pending := by
    intro a b x hs h
    rw [hs.pending]
    rcases h with h | h <;> simp [h]
  have herase : ∀ {a b : List OutMsg}, Requeued s s' (a ++ b) → m ∈ a ∨ m ∈ b → m ∈ s'.pending := by
    intro a b hs h
    rw [hs.pending]
    rcases h with h | h <;> simp [h]
  cases q with
  | idle _ hs => exact hstay (hs.pending ▸ hm)
  | refused _ _ _ _ _ _ _ _ hs => exact hstay (hs.pending ▸ hm)
  | stuck | stray => exact hstay hm
  | push => exact hstay (List.mem_append_left _ hm)
  | first a b x _ hp hq _ _ hs =>
    rcases hsplit hp with rfl | h
    · exact absurd hq hst
    · exact hstay (hedit hs h)
  | again a b x hp _ _ hs =>
    rcases hsplit hp with rfl | h
    · exact .inr ⟨{ m with dup := true }, by rw [hs.pending]; simp, ⟨⟨rfl, rfl, rfl, rfl, rfl⟩, rfl, rfl⟩, .inl⟩
    · exact hstay (hedit hs h)
  | rel a b x ok flag hp hrel hflag hs =>
    rcases hsplit hp with rfl | h
    · refine .inr ⟨{ m with resendPubrel := flag }, by rw [hs.pending]; simp, ⟨⟨rfl, rfl, rfl, rfl, rfl⟩, rfl, rfl⟩,
        fun hfl => ?_⟩
      cases ok with
      | false => exact .inl (hflag rfl hfl)
      | true => exact .inr ⟨_, List.mem_singleton_self _, by simp [Act.resends, tagOf, retransmission, hrel]⟩
    · exact hstay (hedit hs h)
  | received a b x hp hx hs =>
    rcases hsplit hp with rfl | h
    · rcases hx with hx | hx
      · exact .inl ⟨_, List.mem_singleton_self _, by simp [Act.acks, hx, OutState.awaits]⟩
      · exact .inr ⟨{ m with state := .awaitingPubcomp }, by rw [hs.pending]; simp,
          ⟨⟨rfl, rfl, rfl, rfl, rfl⟩, rfl, hx.symm⟩, .inl⟩
    · exact hstay (hedit hs h)
  | final a b x type hp ht hs =>
    rcases hsplit hp with rfl | h
    · refine .inl ⟨_, List.mem_singleton_self _, ?_⟩
      generalize hx : m.state = st at ht
      cases ht <;> simp [Act.acks, hx, OutState.awaits]
    · exact hstay (herase hs h)
  | drop a b x _ _ _ hp _ hpkt hs =>
    rcases hsplit hp with rfl | h
    · exact absurd hpkt (buildPublish_ne_nil_iff.2 (hfly m hm hst))
    · exact hstay (herase hs h)

/-- **What a step takes to the transport**: the entry it is about, queued with everything before it settled, or in
flight. -/
theorem QueueStep.takes (q : QueueStep P k s acts s') (ha : a ∈ acts) (ht : a.took n = true) :
    ∃ l m r, s.pending = l ++ m :: r ∧ m.seq = n ∧
      (m.state = .queued ∧ (∀ x ∈ l, Settled x) ∨ m.state ≠ .queued ∧ a.resends P.T k s.conn m = true) := by
  have hseq : ∀ {pkt : Bytes} {ok : Bool} {m : OutMsg}, a = .send s.conn pkt ok (tagOf k s (some m.seq)) →
      ok = true ∧ m.seq = n := by
    rintro pkt ok m rfl
    cases ok with
    | false => cases ht
    | true => exact ⟨rfl, by simpa [Act.took, tagOf] using ht⟩
  cases q with
  | idle hacts _ =>
    rw [Act.took_of_idle (hacts a ha)] at ht
    cases ht
  | refused => cases (hseq (List.mem_singleton.1 ha)).1
  | first l r m _ hp hq hset _ _ => exact ⟨l, m, r, hp, (hseq (List.mem_singleton.1 ha)).2, .inl ⟨hq, hset⟩⟩
  | again l r m hp hst _ _ =>
    refine ⟨l, m, r, hp, (hseq (List.mem_singleton.1 ha)).2, .inr ⟨by rcases hst with h | h <;> simp [h], ?_⟩⟩
    rw [List.mem_singleton.1 ha]
    rcases hst with h | h <;> simp [Act.resends, tagOf, retransmission, h]
  | rel l r m ok _ hp hst _ _ =>
    obtain ⟨rfl, hn⟩ := hseq (List.mem_singleton.1 ha)
    refine ⟨l, m, r, hp, hn, .inr ⟨by simp [hst], ?_⟩⟩
    rw [List.mem_singleton.1 ha]
    simp [Act.resends, tagOf, retransmission, hst]
  | push | stuck | stray | received | final =>
    rw [List.mem_singleton.1 ha] at ht
    cases ht
  | drop =>
    simp only [List.mem_cons, List.not_mem_nil, or_false] at ha
    rcases ha with rfl | rfl <;> cases ht

/-- Where the entries come from: a queued one is still queued or just went out. -/
theorem QueueStep.origin (q : QueueStep P k s acts s') : ∀ x' ∈ s'.pending,
    (∃ x ∈ s.pending, x.seq = x'.seq ∧ (x.state = .queued → x'.state = .queued ∨ ∃ a ∈ acts, a.took x.seq = true)) ∨
      x'.state = .queued ∧ ∃ a ∈ acts, a.isEnqueue = true := by
  let R := fun (x x' : OutMsg) =>
    x.seq = x'.seq ∧ (x.state = .queued → x'.state = .queued ∨ ∃ a ∈ acts, a.took x.seq = true)
  have hR : ∀ x, R x x := fun x => ⟨rfl, .inl⟩
  intro x' hx'
  cases q with
  | idle _ hs => exact .inl (hs.same hR x' hx')
  | refused _ _ _ _ _ _ _ _ hs => exact .inl (hs.same hR x' hx')
  | stuck | stray => exact .inl ⟨x', hx', hR x'⟩
  | push topic payload eff retain =>
    rcases List.mem_append.1 hx' with hx' | hx'
    · exact .inl ⟨x', hx', hR x'⟩
    · rw [List.mem_singleton.1 hx']
      exact .inr ⟨rfl, _, List.mem_singleton_self _, rfl⟩
  | first a b m _ hp _ _ _ hs =>
    exact .inl (hs.edit hR hp ⟨rfl, fun _ => .inr ⟨_, List.mem_singleton_self _, by simp [Act.took, tagOf]⟩⟩ x' hx')
  | again a b m hp _ _ hs => exact .inl (hs.edit hR hp ⟨rfl, .inl⟩ x' hx')
  | rel a b m _ _ hp _ _ hs => exact .inl (hs.edit hR hp ⟨rfl, .inl⟩ x' hx')
  | received a b m hp hst hs =>
    exact .inl (hs.edit hR hp ⟨rfl, fun hq => by rw [hq] at hst; rcases hst with h | h <;> cases h⟩ x' hx')
  | final a b m _ hp _ hs => exact .inl (hs.erase hR hp x' hx')
  | drop a b m _ _ _ hp _ _ hs => exact .inl (hs.erase hR hp x' hx')

end

/-! ## What every step keeps -/

/-- **The entries in flight at the CONNECT that left `b`, since then**: one not acknowledged is held, what goes out for
it is its retransmission, and nothing that follows it overtakes it. -/
structure Following (P : Params Ctx) (k ci : Nat) (b : Session Ctx) (ep : Trace Ctx) (s : Session Ctx) : Prop where
  kept : ∀ m ∈ b.pending, m.state ≠ .queued → ¬ Acked k m ep → ∃ m' ∈ s.pending, Held m m'
  packets : ∀ m ∈ b.pending, m.state ≠ .queued → ¬ Acked k m ep → SentIn ep m.seq → Resent P.T k ci m ep
  order : ∀ m ∈ b.pending, m.state ≠ .queued → Each (NotOvertaken P.T k ci m) ep

section
variable {ci : Nat} {b s s' : Session Ctx} {ep acts : Trace Ctx}

theorem Following.start {s : Session Ctx} (hs : s.pending = b.pending) (e : Event) :
    Following P k ci b [.event e (some k)] s where
  kept := fun m hm _ _ => ⟨m, hs ▸ hm, .refl m⟩
  packets := fun m _ _ _ ⟨a, ha, ht⟩ => by
    rw [List.mem_singleton.1 ha] at ht
    cases ht
  order := fun m _ _ => ⟨fun n _ ht => by (cases ht), trivial⟩

theorem Following.step (hok : QueueOk P.T s) (hfly : Flies P.T s) (hconn : s.conn = ci) (hF : Following P k ci b ep s)
    (q : QueueStep P k s acts s')
    (hguard : ∀ m ∈ b.pending, m.state ≠ .queued → ¬ Acked k m ep → ∀ a ∈ acts, ∀ n, m.seq < n → a.took n = true →
      Resent P.T k ci m ep) : Following P k ci b (acts ++ ep) s' where
  kept := fun m hm hst hack => by
    obtain ⟨m', hm', hheld⟩ := hF.kept m hm hst (fun h => hack (h.append acts))
    rcases q.held hfly hm' (hheld.state ▸ hst) with ⟨a, ha, hacks⟩ | ⟨m'', hm'', hheld', -⟩
    · rw [hheld.acks] at hacks
      exact absurd ⟨a, List.mem_append_left _ ha, hacks⟩ hack
    · exact ⟨m'', hm'', hheld.trans hheld'⟩
  packets := fun m hm hst hack hsent => by
    have hack' : ¬ Acked k m ep := fun h => hack (h.append acts)
    rcases sentIn_append.1 hsent with ⟨a, ha, ht⟩ | hsent
    · obtain ⟨m', hm', hheld⟩ := hF.kept m hm hst hack'
      obtain ⟨l, x, r, hp, hseq, hx⟩ := q.takes ha ht
      -- The entry the packet is of is the one held.
      obtain rfl : x = m' := hok.seq_inj (by rw [hp]; simp) hm' (hseq.trans hheld.seq.symm)
      rcases hx with ⟨hq, -⟩ | ⟨-, hr⟩
      · exact absurd (hheld.state.symm.trans hq) hst
      · rw [hheld.resends, hconn] at hr
        exact ⟨a, List.mem_append_left _ ha, hr⟩
    · exact (hF.packets m hm hst hack' hsent).append acts
  order := fun m hm hst => by
    refine (hF.order m hm hst).append (fun a ha between n hn ht => ?_)
    by_cases hack : Acked k m ep
    · exact .inl (hack.append between)
    · exact .inr ((hguard m hm hst hack a ha n hn ht).append between)

/-- An entry that was overtaken was acknowledged or sent before. -/
theorem Following.sent_before (hF : Following P k ci b ep s) (hm : m ∈ b.pending) (hst : m.state ≠ .queued)
    (hack : ¬ Acked k m ep) (hn : m.seq < n) (hsent : SentIn ep n) : Resent P.T k ci m ep := by
  obtain ⟨a, ha, ht⟩ := hsent
  obtain ⟨newer, older, rfl⟩ := List.append_of_mem ha
  rcases History.each_iff.1 (hF.order m hm hst) newer a older rfl n hn ht with h | h
  · exact absurd ((h.append [a]).append newer) (by simpa using hack)
  · simpa using (h.append [a]).append newer

end

/-! ## After the resumption -/

/-- The PUBREL of the entry is marked for repetition, and nothing that follows the entry is in flight. -/
structure Standing (m : OutMsg) (s : Session Ctx) : Prop where
  marked : ∃ m' ∈ s.pending, Held m m' ∧ m'.state = .awaitingPubcomp ∧ m'.resendPubrel = true
  later : ∀ x ∈ s.pending, m.seq < x.seq → x.state = .queued

/-- **After the resumption**: every entry that was in flight went out again, or its PUBREL is marked for repetition. -/
structure AfterResume (P : Params Ctx) (k ci : Nat) (b : Session Ctx) (ep : Trace Ctx) (s : Session Ctx) : Prop
    extends Following P k ci b ep s where
  due : ∀ m ∈ b.pending, m.state ≠ .queued → ¬ Acked k m ep → Resent P.T k ci m ep ∨ Standing m s

section
variable {ci : Nat} {b s s' : Session Ctx} {ep acts : Trace Ctx}

/-- Nothing overtakes a PUBREL marked for repetition: `pump_session` stops at it. -/
theorem Standing.not_overtaken (hok : QueueOk P.T s) (h : Standing m s) (q : QueueStep P k s acts s') (ha : a ∈ acts)
    (ht : a.took n = true) : n ≤ m.seq := by
  obtain ⟨m', hm', hheld, hst, hfl⟩ := h.marked
  obtain ⟨l, x, r, hp, rfl, hx⟩ := q.takes ha ht
  by_contra hlt
  have hlt : m.seq < x.seq := Nat.not_le.1 hlt
  rcases hx with ⟨-, hset⟩ | ⟨hne, -⟩
  · have hsettled := hset m' (hok.mem_left hp hm' (hheld.seq ▸ hlt))
    rw [hsettled.2 hst] at hfl
    cases hfl
  · exact hne (h.later x (by rw [hp]; simp) hlt)

theorem AfterResume.step (hok : QueueOk P.T s) (hfly : Flies P.T s) (hconn : s.conn = ci)
    (hA : AfterResume P k ci b ep s) (q : QueueStep P k s acts s') : AfterResume P k ci b (acts ++ ep) s' where
  toFollowing := hA.toFollowing.step hok hfly hconn q (fun m hm hst hack a ha n hn ht => by
    refine (hA.due m hm hst hack).resolve_right (fun hstand => ?_)
    exact absurd (hstand.not_overtaken hok q ha ht) (Nat.not_le.2 hn))
  due := fun m hm hst hack => by
    rcases hA.due m hm hst (fun h => hack (h.append acts)) with h | hstand
    · exact .inl (h.append acts)
    obtain ⟨m', hm', hheld, hst', hfl⟩ := hstand.marked
    rcases q.held hfly hm' (hheld.state ▸ hst) with ⟨a, ha, hacks⟩ | ⟨m'', hm'', hheld', hmark⟩
    · rw [hheld.acks] at hacks
      exact absurd ⟨a, List.mem_append_left _ ha, hacks⟩ hack
    rcases hmark hfl with hfl' | ⟨a, ha, hr⟩
    · refine .inr ⟨⟨m'', hm'', hheld.trans hheld', hheld'.state.trans hst', hfl'⟩, fun x' hx' hlt => ?_⟩
      rcases q.origin x' hx' with ⟨x, hx, hseq, hxq⟩ | ⟨hq, -⟩
      · rw [← hseq] at hlt
        rcases hxq (hstand.later x hx hlt) with hq | ⟨a, ha, ht⟩
        · exact hq
        · exact absurd (hstand.not_overtaken hok q ha ht) (Nat.not_le.2 hlt)
      · exact hq
    · rw [hheld.resends, hconn] at hr
      exact .inl ⟨a, List.mem_append_left _ ha, hr⟩

end

/-! ## The resumption itself -/

section
variable {ci : Nat} {b s s' : Session Ctx} {h ep acts new : Trace Ctx}

/-- A turn of `resume_session` processes no acknowledgement and queues nothing. -/
theorem RStep.only_sends (r : RStep P k h s acts s') : ∀ a ∈ acts, (∀ m, a.acks k m = false) ∧ a.isEnqueue = false := by
  cases r with
  | queue i _ q => cases q <;> simp [Act.acks, Act.isEnqueue]
  | _ => simp [Act.acks, Act.isEnqueue]

/-- What a turn of `resume_session` takes to the transport comes after everything before it in the queue. -/
theorem RStep.in_turn (hok : QueueOk P.T s) (r : RStep P k h s acts s') (ha : a ∈ acts) (ht : a.took n = true) :
    ∀ x ∈ s.pending, x.seq < n → SentIn (episode h) x.seq := by
  have hturn : ∀ {i : Nat} {m : OutMsg} {pkt : Bytes} {ok : Bool}, Before s i (SentSince h ·.seq) →
      s.pending[i]? = some m → a = .send s.conn pkt ok (tagOf k s (some m.seq)) →
      ∀ x ∈ s.pending, x.seq < n → SentIn (episode h) x.seq := by
    rintro i m pkt ok hsent hm rfl x hx hlt
    obtain rfl : m.seq = n := by
      cases ok with
      | false => cases ht
      | true => simpa [Act.took, tagOf] using ht
    obtain ⟨l, r, hp, rfl, -, -⟩ := pending_split hm
    exact hsent.mem hp x (hok.mem_left hp hx hlt)
  cases r with
  | queue i hsent q =>
    cases q with
    | transmit m ok hid hm => exact hturn hsent hm (List.mem_singleton.1 ha)
    | advance => cases ha
    | stuck =>
      rw [List.mem_singleton.1 ha] at ht
      cases ht
    | drop =>
      simp only [List.mem_cons, List.not_mem_nil, or_false] at ha
      rcases ha with rfl | rfl <;> cases ht
  | retransmit i m ok hsent hm => exact hturn hsent hm (List.mem_singleton.1 ha)
  | rel i m ok hsent hm => exact hturn hsent hm (List.mem_singleton.1 ha)

/-- **While `resume_session` runs**: nothing is acknowledged, and what is in flight was at the CONNECT or went out
since. -/
structure Resuming (P : Params Ctx) (k ci : Nat) (b : Session Ctx) (ep : Trace Ctx) (s : Session Ctx) : Prop
    extends Following P k ci b ep s where
  ok : QueueOk P.T s
  flies : Flies P.T s
  conn : s.conn = ci
  open_ : ∀ m, ¬ Acked k m ep
  origin : ∀ x ∈ s.pending, ∃ y ∈ b.pending, y.seq = x.seq ∧
    (x.state = .queued ∨ y.state ≠ .queued ∨ SentIn ep x.seq)

theorem Resuming.step (hR : Resuming P k ci b (episode h) s) (r : RStep P k h s acts s') :
    Resuming P k ci b (acts ++ episode h) s' where
  toFollowing := hR.toFollowing.step hR.ok hR.flies hR.conn r.queueStep (fun m hm hst hack a ha n hn ht => by
    obtain ⟨m', hm', hheld⟩ := hR.kept m hm hst hack
    have hsent := r.in_turn hR.ok ha ht m' hm' (hheld.seq ▸ hn)
    rw [hheld.seq] at hsent
    exact hR.packets m hm hst hack hsent)
  ok := hR.ok.step r.queueStep
  flies := hR.flies.step r.queueStep
  conn := (Session.conn_eq_of_frame r.frame).trans hR.conn
  open_ := fun m ⟨a, ha, hacks⟩ => by
    rcases List.mem_append.1 ha with ha | ha
    · rw [(r.only_sends a ha).1 m] at hacks
      cases hacks
    · exact hR.open_ m ⟨a, ha, hacks⟩
  origin := fun x' hx' => by
    rcases r.queueStep.origin x' hx' with ⟨x, hx, hseq, hxq⟩ | ⟨-, a, ha, henq⟩
    · obtain ⟨y, hy, hys, hyx⟩ := hR.origin x hx
      refine ⟨y, hy, hys.trans hseq, ?_⟩
      rw [← hseq]
      rcases hyx with hq | hyx | hsent
      · rcases hxq hq with hq' | hsent
        · exact .inl hq'
        · exact .inr (.inr (sentIn_append.2 (.inl hsent)))
      · exact .inr (.inl hyx)
      · exact .inr (.inr hsent.append)
    · rw [(r.only_sends a ha).2] at henq
      cases henq

/-- **Where the resumption stops**, when the transport took what it had to. -/
theorem Resuming.stop (hb : QueueOk P.T b) (hR : Resuming P k ci b (episode h) s) (hend : ResumeEnd h s)
    (htaken : ∀ m ∈ b.pending, m.state ≠ .queued → (∃ a ∈ episode h, a.refuses m.seq = true) →
      m.state = .awaitingPubcomp ∧ ∀ m' ∈ b.pending, m.seq < m'.seq → m'.state = .queued)
    (hm : m ∈ b.pending) (hst : m.state ≠ .queued) : Resent P.T k ci m (episode h) ∨ Standing m s := by
  by_cases hres : Resent P.T k ci m (episode h)
  · exact .inl hres
  obtain ⟨m', hm', hheld⟩ := hR.kept m hm hst (hR.open_ m)
  have hst' : m'.state ≠ .queued := hheld.state ▸ hst
  obtain ⟨i, hbefore, hat⟩ := hend
  obtain ⟨j, hj, rfl⟩ := List.getElem_of_mem hm'
  have hij : i ≤ j := by
    refine Nat.not_lt.1 (fun hlt => hres (hR.packets m hm hst (hR.open_ m) ?_))
    rw [← hheld.seq]
    exact (hbefore j hlt _ (List.getElem?_eq_getElem hj)).1
  -- The resumption stopped at or before the entry, so at an entry in flight that was refused.
  have hi : i < s.pending.length := hij.trans_lt hj
  obtain ⟨hwhy, hflag⟩ := hat _ (List.getElem?_eq_getElem hi)
  have hnear : s.pending[i] = s.pending[j] ∨ Apart s.pending[i] s.pending[j] := by
    rcases Nat.eq_or_lt_of_le hij with rfl | hlt
    · exact .inl rfl
    · exact .inr (List.pairwise_iff_getElem.1 hR.ok.pairs i j hi hj hlt)
  have hfly : s.pending[i].state ≠ .queued := by
    rcases hnear with he | hap
    · rw [he]
      exact hst'
    · exact fun hq => hst' (hap.split hq)
  have hrefused : ∃ a ∈ episode h, a.refuses s.pending[i].seq = true := by
    rcases hwhy with ⟨ci', pkt, k', h', rfl⟩ | hq
    · exact ⟨_, by rw [episode, History.since_cons rfl]; exact List.mem_cons_self, by simp [Act.refuses, tagOf]⟩
    · exact absurd hq hfly
  rcases hnear with he | hap
  · rw [he] at hrefused hflag
    rw [hheld.seq] at hrefused
    obtain ⟨hpub, hlater⟩ := htaken m hm hst hrefused
    refine .inr ⟨⟨_, hm', hheld, hheld.state.trans hpub, hflag (hheld.state.trans hpub)⟩, fun x hx hlt => ?_⟩
    obtain ⟨y, hy, hys, hq | hne | hsent⟩ := hR.origin x hx
    · exact hq
    · exact absurd (hlater y hy (hys ▸ hlt)) hne
    · exact absurd (hR.sent_before hm hst (hR.open_ m) hlt hsent) hres
  · -- What was refused is an earlier entry, and not the last in flight.
    obtain ⟨y, hy, hys, -⟩ := hR.origin _ (List.getElem_mem hi)
    have hlt : y.seq < m.seq := by
      rw [hys, ← hheld.seq]
      exact hap.seq
    have hyq : y.state ≠ .queued := fun hq => hst ((hb.apart hy hm hlt).split hq)
    rw [← hys] at hrefused
    exact absurd ((htaken y hy hyq hrefused).2 m hm hlt) hst

end

/-! ## The life of a slot -/

theorem SlotRun.flies {h : Trace Ctx} {o : Option (Session Ctx)} (run : SlotRun P k h o) :
    ∀ s, o = some s → QueueOk P.T s ∧ Flies P.T s := by
  refine run.queueRule (fun _ o => ∀ s, o = some s → QueueOk P.T s ∧ Flies P.T s) (by simp)
    (fun h ctx clientId _ _ => ?_) (fun h s _ => by simp) (fun h s acts s' hI q => ?_)
  · rintro _ ⟨⟩
    exact ⟨.fresh P.T ctx clientId, fun m hm => by cases hm⟩
  · rintro _ ⟨⟩
    exact ⟨(hI s rfl).1.step q, (hI s rfl).2.step q⟩

/-- How the session stands to the CONNECT that resumed it last. -/
def Resumption (P : Params Ctx) (k : Nat) (h : Trace Ctx) (s : Session Ctx) : Prop :=
  ∀ ci b, lastConnect h = some (.bind k ci b true) → .resumed k true ∈ episode h → ResumeTaken b (episode h) →
    s.conn = ci ∧ AfterResume P k ci b (episode h) s

section
variable {s s' : Session Ctx} {h acts new : Trace Ctx}

theorem Resumption.step (hok : QueueOk P.T s) (hfly : Flies P.T s) (hI : Resumption P k h s)
    (q : QueueStep P k s acts s') (hconn : s'.conn = s.conn) (hbind : ∀ a ∈ acts, a.isBind = false)
    (hres : ∀ a ∈ acts, a.isResumed = false) : Resumption P k (acts ++ h) s' := by
  intro ci b hc hin htaken
  rw [lastConnect_append hbind] at hc
  rw [episode_append hbind] at hin htaken ⊢
  have hin : .resumed k true ∈ episode h := (List.mem_append.1 hin).resolve_left (fun ha => by cases hres _ ha)
  rw [ResumeTaken, resuming_append hres] at htaken
  obtain ⟨hci, hA⟩ := hI ci b hc hin htaken
  exact ⟨hconn.trans hci, hA.step hok hfly hci q⟩

theorem Resumption.resume {ci : Nat} {e : Event} {up : Bool} (hok : QueueOk P.T b) (hfly : Flies P.T b)
    (hconn : b.conn = ci)
    (run : Star (RStep P k) (.event e (some k) :: .bind k ci b true :: h) b
      (new ++ .event e (some k) :: .bind k ci b true :: h) s')
    (stop : up = true → ResumeEnd (new ++ .event e (some k) :: .bind k ci b true :: h) s') :
    Resumption P k (.resumed k up :: (new ++ .event e (some k) :: .bind k ci b true :: h)) s' := by
  have hnew : ∀ a ∈ new, a.delivers = true := Works.resume_delivers run
  have hdel : ∀ a ∈ new ++ [.event e (some k)], a.isBind = false ∧ a.isResumed = false := by
    intro a ha
    rcases List.mem_append.1 ha with ha | ha
    · have := hnew a ha
      cases a <;> first | exact ⟨rfl, rfl⟩ | cases this
    · rw [List.mem_singleton.1 ha]
      exact ⟨rfl, rfl⟩
  have hsplit : new ++ .event e (some k) :: .bind k ci b true :: h =
      (new ++ [.event e (some k)]) ++ .bind k ci b true :: h := by simp
  have hstart : Resuming P k ci b (episode (.event e (some k) :: .bind k ci b true :: h)) b := by
    rw [show episode (.event e (some k) :: .bind k ci b true :: h) = [.event e (some k)] by
      rw [episode, History.since_cons rfl, History.since_cons_mark rfl]]
    refine ⟨.start rfl e, hok, hfly, hconn, fun m => ?_, fun x hx => ⟨x, hx, rfl, ?_⟩⟩
    · rintro ⟨a, ha, hacks⟩
      rw [List.mem_singleton.1 ha] at hacks
      cases hacks
    · by_cases hq : x.state = .queued
      · exact .inl hq
      · exact .inr (.inl hq)
  have hend : Resuming P k ci b (episode (new ++ .event e (some k) :: .bind k ci b true :: h)) s' := by
    refine run.inv (fun h s => Resuming P k ci b (episode h) s) (fun h s acts s' hI r => ?_) hstart
    rw [episode_append (fun a ha => ?_)]
    · exact hI.step r
    · have := r.delivers a ha
      cases a <;> first | rfl | cases this
  have hlast : lastConnect (new ++ .event e (some k) :: .bind k ci b true :: h) = some (.bind k ci b true) := by
    rw [hsplit, lastConnect_append (fun a ha => (hdel a ha).1)]
    rfl
  have hyet : .resumed k true ∉ episode (new ++ .event e (some k) :: .bind k ci b true :: h) := by
    rw [hsplit, episode_append (fun a ha => (hdel a ha).1), episode, History.since_cons_mark rfl, List.append_nil]
    exact fun hin => by cases (hdel _ hin).2
  generalize new ++ .event e (some k) :: .bind k ci b true :: h = h₁ at run stop hend hlast hyet ⊢
  intro ci' b' hc hin htaken
  have hc : lastConnect h₁ = some (.bind k ci' b' true) := hc
  rw [hlast] at hc
  cases hc
  have hep : episode (.resumed k up :: h₁) = .resumed k up :: episode h₁ := History.since_cons rfl h₁
  rw [hep] at hin htaken ⊢
  have htaken : ∀ m ∈ b.pending, m.state ≠ .queued → (∃ a ∈ episode h₁, a.refuses m.seq = true) →
      m.state = .awaitingPubcomp ∧ ∀ m' ∈ b.pending, m.seq < m'.seq → m'.state = .queued := by
    rintro m hm hst ⟨a, ha, hr⟩
    exact htaken m hm hst ⟨a, List.mem_cons_of_mem _ ha, hr⟩
  have hup : up = true := by
    rcases List.mem_cons.1 hin with he | hin
    · exact (Act.resumed.inj he).2.symm
    · exact absurd hin hyet
  have hA : AfterResume P k ci b (episode h₁) s' :=
    ⟨hend.toFollowing, fun m hm hst _ => hend.stop hok (stop hup) htaken hm hst⟩
  have hidle : QueueStep P k s' [.resumed k up] s' := .idle (by simp [Act.idle]) ⟨rfl, rfl⟩
  exact ⟨hend.conn, hA.step hend.ok hend.flies hend.conn hidle⟩

/-- **Every slot, all along**: the session on its connection stands as the resumption left it. -/
theorem SlotRun.resumption {o : Option (Session Ctx)} (run : SlotRun P k h o) :
    ∀ s, o = some s → s.conn ≠ noConn → Resumption P k h s := by
  unfold SlotRun at run
  induction run with
  | refl => simp
  | @tail h acts o o' run one ih =>
    have hq := SlotRun.flies run
    cases one with
    | @serve s s' _ d =>
      rintro _ ⟨⟩ hon
      rw [Session.conn_eq_of_frame d.frame] at hon
      refine (ih s rfl hon).step (hq s rfl).1 (hq s rfl).2 (d.queueStep hon)
        (Session.conn_eq_of_frame d.frame) d.not_bind ?_
      intro a ha
      cases d with
      | deliver d =>
        have := d.delivers a ha
        cases a <;> first | rfl | cases this
      | subs _ _ hacts =>
        have := hacts a ha
        cases a <;> first | rfl | cases this
      | publish _ _ _ _ _ hpub =>
        rw [List.mem_singleton.1 ha]
        cases hpub <;> rfl
    | @bind s ci p ctx =>
      rintro _ ⟨⟩ _ ci' b' hc
      cases hc
    | @resume s s' new ci p ctx e up _ _ _ hci _ steps stop =>
      rintro _ ⟨⟩ _
      have hsame := SameQueues.bound P.T ci p ctx s
      have hconn : (boundSession P.T ci p ctx s).conn = ci := by
        rw [(boundSession_fields P.T ci p ctx s).1]
        exact toU16_of_lt (by have := P.T.connections_le; omega)
      have hfly : Flies P.T (boundSession P.T ci p ctx s) := by
        rw [Flies, hsame.pending]
        exact (hq s rfl).2
      have hR := Resumption.resume ((hq s rfl).1.same ⟨hsame.pending, hsame.nextSeq⟩) hfly hconn steps stop
      simpa only [List.cons_append, List.append_assoc, List.nil_append] using hR
    | @disconnect s hon =>
      rintro _ ⟨⟩ hon'
      have hidle : QueueStep P k s [.disconnect k s.conn] { s with hasWill := false } :=
        .idle (by simp [Act.idle]) ⟨rfl, rfl⟩
      exact (ih s rfl hon).step (hq s rfl).1 (hq s rfl).2 hidle rfl (by simp [Act.isBind]) (by simp [Act.isResumed])
    | alloc | detach =>
      rintro _ ⟨⟩ hon
      exact absurd rfl hon
    | submit _ _ _ hoff =>
      rintro _ ⟨⟩ hon
      exact absurd hoff hon
    | release => simp

end

end Minimosq
