import Mathlib.Data.Finset.Card
import Mathlib.Order.Interval.Finset.Nat
import Minimosq.Bed
import Minimosq.Run
/-!
# The pending queue

`QueueStep` says once what any step of a slot does to the queue of unacknowledged messages, as an edit of the list; what
the queue looks like and in which order messages first go out are then inductions over a slot's life.  That there is an
id for every entry is a counting argument: 65535 ids, fewer entries in flight.
-/
namespace Minimosq

open History (Star since Each)

variable {Ctx : Type} {P : Params Ctx} {k : Nat}
variable {s s' : Session Ctx} {i id : Nat} {m : OutMsg} {acts h : Trace Ctx} {a : Act Ctx} {o : Option (Session Ctx)}
  {T : Traits}

/-! ## What a step does to the queue -/

def Act.isAlloc : Act Ctx → Bool
  | .alloc _ => true
  | _ => false

/-- What the present session of a slot did: the acts since it was allocated. -/
def life (h : Trace Ctx) : Trace Ctx := since Act.isAlloc h

/-- An act that is not about a queued message. -/
def Act.idle : Act Ctx → Bool
  | .send _ _ _ tag => (tag.bind Tag.seq).isNone
  | .enqueue _ _ _ _ _ _ | .ack _ _ _ _ | .stuck _ | .alloc _ | .release _ => false
  | _ => true

/-- The queue is now `q`, and no message is new. -/
structure Requeued (s s' : Session Ctx) (q : List OutMsg) : Prop where
  pending : s'.pending = q
  nextSeq : s'.nextSeq = s.nextSeq

section
variable {s s' : Session Ctx} {a b : List OutMsg} {m m' : OutMsg} {R : OutMsg → OutMsg → Prop} (hR : ∀ x, R x x)
include hR

theorem Requeued.same (hs : Requeued s s' s.pending) : ∀ x ∈ s'.pending, ∃ y ∈ s.pending, R y x := by
  rw [hs.pending]
  exact fun x hx => ⟨x, hx, hR x⟩

theorem Requeued.edit (hs : Requeued s s' (a ++ m' :: b)) (hp : s.pending = a ++ m :: b) (hm : R m m') :
    ∀ x ∈ s'.pending, ∃ y ∈ s.pending, R y x := by
  intro x hx
  rw [hs.pending, List.mem_append, List.mem_cons] at hx
  rw [hp]
  rcases hx with hx | rfl | hx
  · exact ⟨x, by simp [hx], hR x⟩
  · exact ⟨m, by simp, hm⟩
  · exact ⟨x, by simp [hx], hR x⟩

theorem Requeued.erase (hs : Requeued s s' (a ++ b)) (hp : s.pending = a ++ m :: b) :
    ∀ x ∈ s'.pending, ∃ y ∈ s.pending, R y x := by
  intro x hx
  rw [hs.pending, List.mem_append] at hx
  refine ⟨x, ?_, hR x⟩
  rw [hp]
  rcases hx with hx | hx <;> simp [hx]

end

/-- **One step, as an edit of the queue.** -/
inductive QueueStep (P : Params Ctx) (k : Nat) (s : Session Ctx) : Trace Ctx → Session Ctx → Prop
  | idle {acts : Trace Ctx} {s' : Session Ctx} (hacts : ∀ a ∈ acts, a.idle = true) (hs : Requeued s s' s.pending) :
      QueueStep P k s acts s'
  | push (topic payload : Bytes) (eff : QoS) (retain : Bool) (heff : eff ≠ .atMostOnce)
      (hroom : s.pending.length ≠ P.T.maxPendingPerSession) (htopic : TopicFits P.T topic)
      (hpayload : payload.length ≤ P.T.maxPayloadLen) :
      QueueStep P k s [.enqueue k s.nextSeq topic payload eff retain] (s.queued P.T topic payload eff retain)
  /-- A PUBLISH the transport did not take. -/
  | refused {s' : Session Ctx} (a b : List OutMsg) (m : OutMsg) (dup : Bool) (id : Nat) (hp : s.pending = a ++ m :: b)
      (hst : m.state ≠ .awaitingPubcomp)
      (hid : if m.state = .queued then s.allocPacketId = some id else m.packetId = id)
      (hs : Requeued s s' s.pending) :
      QueueStep P k s [.send s.conn (publishOf P.T m dup id) false (tagOf k s (some m.seq))] s'
  /-- The first transmission: everything before is on its way. -/
  | first {s' : Session Ctx} (a b : List OutMsg) (m : OutMsg) {id : Nat} (hid : s.allocPacketId = some id)
      (hp : s.pending = a ++ m :: b) (hst : m.state = .queued) (hset : ∀ x ∈ a, Settled x)
      (hpkt : publishOf P.T m m.dup id ≠ []) (hs : Requeued s s' (a ++ m.sent id :: b)) :
      QueueStep P k s [.send s.conn (publishOf P.T m m.dup id) true (tagOf k s (some m.seq))] s'
  /-- There is no id for a queued entry. -/
  | stuck (hid : s.allocPacketId = none) (m : OutMsg) (hm : m ∈ s.pending) (hst : m.state = .queued) :
      QueueStep P k s [.stuck k] s
  | again {s' : Session Ctx} (a b : List OutMsg) (m : OutMsg) (hp : s.pending = a ++ m :: b)
      (hst : m.state = .awaitingPuback ∨ m.state = .awaitingPubrec) (hpkt : publishOf P.T m true m.packetId ≠ [])
      (hs : Requeued s s' (a ++ { m with dup := true } :: b)) :
      QueueStep P k s [.send s.conn (publishOf P.T m true m.packetId) true (tagOf k s (some m.seq))] s'
  | rel {s' : Session Ctx} (a b : List OutMsg) (m : OutMsg) (ok flag : Bool) (hp : s.pending = a ++ m :: b)
      (hst : m.state = .awaitingPubcomp) (hflag : ok = false → m.resendPubrel = true → flag = true)
      (hs : Requeued s s' (a ++ { m with resendPubrel := flag } :: b)) :
      QueueStep P k s [.send s.conn (pubrelOf P.T m) ok (tagOf k s (some m.seq))] s'
  /-- An acknowledgement that fits no entry. -/
  | stray (type : PacketType) (id : Nat)
      (hnone : type = .pubrec → ∀ m ∈ s.pending, m.packetId = id → m.state ≠ .awaitingPubrec) :
      QueueStep P k s [.ack k s.conn type id] s
  | received {s' : Session Ctx} (a b : List OutMsg) (m : OutMsg) (hp : s.pending = a ++ m :: b)
      (hst : m.state = .awaitingPubrec ∨ m.state = .awaitingPubcomp)
      (hs : Requeued s s' (a ++ { m with state := .awaitingPubcomp } :: b)) :
      QueueStep P k s [.ack k s.conn .pubrec m.packetId] s'
  | final {s' : Session Ctx} (a b : List OutMsg) (m : OutMsg) (type : PacketType) (hp : s.pending = a ++ m :: b)
      (ht : FinalAck type m.state) (hs : Requeued s s' (a ++ b)) : QueueStep P k s [.ack k s.conn type m.packetId] s'
  /-- No packet can carry the message. -/
  | drop {s' : Session Ctx} (a b : List OutMsg) (m : OutMsg) (dup : Bool) (id : Nat) (e : Event)
      (hp : s.pending = a ++ m :: b) (hst : m.state ≠ .awaitingPubcomp) (hpkt : publishOf P.T m dup id = [])
      (hs : Requeued s s' (a ++ b)) : QueueStep P k s [.event e (some k), .unbuilt (some k)] s'

theorem pending_split (hm : s.pending[i]? = some m) :
    ∃ a b, s.pending = a ++ m :: b ∧ a.length = i ∧ (∀ m', (s.setPending i m').pending = a ++ m' :: b) ∧
      (s.removePending i).pending = a ++ b := by
  obtain ⟨hi, rfl⟩ := List.getElem?_eq_some_iff.1 hm
  have hsplit : s.pending = s.pending.take i ++ s.pending[i] :: s.pending.drop (i + 1) := by simp
  refine ⟨s.pending.take i, s.pending.drop (i + 1), hsplit, List.length_take_of_le hi.le, fun m' => ?_, ?_⟩
  · exact List.set_eq_take_append_cons_drop.trans (if_pos hi)
  · exact List.eraseIdx_eq_take_drop_succ ..

theorem Before.mem {a b : List OutMsg} {p : OutMsg → Prop} (hp : s.pending = a ++ m :: b) (h : Before s a.length p) :
    ∀ x ∈ a, p x := by
  intro x hx
  obtain ⟨j, hj, rfl⟩ := List.getElem_of_mem hx
  exact h j hj _ (by rw [hp, List.getElem?_append_left hj, List.getElem?_eq_getElem hj])

theorem QStep.queueStep (q : QStep P k i s acts s') : QueueStep P k s acts s' := by
  cases q with
  | advance => exact .idle (by simp) ⟨rfl, rfl⟩
  | stuck hid m hm hq => exact .stuck hid m (List.mem_of_getElem? hm) hq
  | transmit m ok hid hm hq hset hpkt =>
    obtain ⟨a, b, hp, rfl, hsetp, -⟩ := pending_split hm
    cases ok with
    | true => exact .first a b m hid hp hq (hset.mem hp) hpkt ⟨hsetp _, rfl⟩
    | false => exact .refused a b m m.dup _ hp (by rw [hq]; simp) (by rw [if_pos hq]; exact hid) ⟨rfl, rfl⟩
  | drop m e dup id hm hst hpkt =>
    obtain ⟨a, b, hp, -, -, hrem⟩ := pending_split hm
    exact .drop a b m dup id e hp hst hpkt ⟨hrem, rfl⟩

theorem findPending_none {st st' : OutState} (h : s.findPending id st st' = none) :
    ∀ m ∈ s.pending, m.packetId = id → m.state ≠ st ∧ m.state ≠ st' := by
  intro m hm hid
  have := List.findIdx?_eq_none_iff.1 h m hm
  simpa [hid] using this

/-- A delivery step is one of the queue, or the note of a message that is routed to an offline session and the step that
keeps it. -/
theorem DStep.queueSteps (d : DStep P k s acts s') : QueueStep P k s acts s' ∨ s.conn = noConn ∧ ∃ topic payload eff a,
      a = .enqueue k s.nextSeq topic payload eff false ∧
      acts = [a, .routed k topic payload eff] ∧ QueueStep P k s [a] s' := by
  cases d with
  | queue i _ q => exact .inl q.queueStep
  | enqueue topic payload eff retain t _ auth heff hroom htopic hpayload =>
    exact .inl (.push topic payload eff retain heff hroom htopic hpayload)
  | kept topic payload eff t hoff auth htopic hkeeps =>
    exact .inr ⟨hoff, topic, payload, eff, _, rfl, rfl,
      .push topic payload eff false hkeeps.acknowledged hkeeps.room htopic hkeeps.stored⟩
  | pumpRel i m ok _ hm hst hflag hset =>
    obtain ⟨a, b, hp, -, hsetp, -⟩ := pending_split hm
    cases ok with
    | true => exact .inl (.rel a b m true false hp hst nofun ⟨hsetp _, rfl⟩)
    | false => exact .inl (.rel a b m false m.resendPubrel hp hst (fun _ h => h) ⟨hp, rfl⟩)
  | final type state id _ ht =>
    unfold Session.acked
    split
    · refine .inl (.stray type id (fun htype => ?_))
      rw [htype] at ht
      cases ht
    · rename_i i hi
      obtain ⟨m, hm, rfl, hst⟩ := findPending_some hi
      obtain ⟨a, b, hp, -, -, hrem⟩ := pending_split hm
      exact .inl (.final a b m type hp ((or_self_iff.1 hst) ▸ ht) ⟨hrem, rfl⟩)
  | pubrecUnknown id hnone => exact .inl (.stray .pubrec id (fun _ m hm hid => (findPending_none hnone m hm hid).1))
  | pubrec i m id _ hi hm =>
    obtain ⟨m', hm', rfl, hst⟩ := findPending_some hi
    rw [hm] at hm'
    cases hm'
    obtain ⟨a, b, hp, -, hsetp, -⟩ := pending_split hm
    exact .inl (.received a b m hp hst ⟨hsetp _, rfl⟩)
  | answerRel i m ok hm hst =>
    obtain ⟨a, b, hp, -, -, -⟩ := pending_split hm
    exact .inl (.rel a b m ok m.resendPubrel hp hst (fun _ h => h) ⟨hp, rfl⟩)
  | event | matching | unbuilt | live | routed | passed | inboundDup | inboundTrack | inboundEvict | pubrel =>
    exact .inl (.idle (by simp [Act.idle, tagOf]) ⟨rfl, rfl⟩)

theorem DStep.queueStep (d : DStep P k s acts s') (hon : s.conn ≠ noConn) :
    QueueStep P k s acts s' := d.queueSteps.resolve_right (fun h => hon h.1)

/-- An act that leaves the queues alone is not about a queued message. -/
theorem Act.idle_of_plain (h : a.plain k = true) : a.idle = true := by
  cases a <;> first | rfl | cases h

theorem TStep.queueStep (d : TStep P k h s acts s') (hon : s.conn ≠ noConn) : QueueStep P k s acts s' := by
  cases d with
  | deliver d => exact d.queueStep hon
  | subs _ _ hacts => exact .idle (fun a ha => Act.idle_of_plain (Act.plain_of_isSubs (hacts a ha))) ⟨rfl, rfl⟩
  | publish _ _ _ _ _ ha => exact .idle (by simpa using Act.idle_of_plain ha.plain) ⟨rfl, rfl⟩

theorem RStep.queueStep (r : RStep P k h s acts s') : QueueStep P k s acts s' := by
  cases r with
  | queue i hsent q => exact q.queueStep
  | retransmit i m ok hsent hm hst hpkt =>
    obtain ⟨a, b, hp, -, hsetp, -⟩ := pending_split hm
    cases ok with
    | true => exact .again a b m hp hst hpkt ⟨hsetp _, rfl⟩
    | false =>
      exact .refused a b m true m.packetId hp (by rcases hst with h | h <;> simp [h])
        (by rcases hst with h | h <;> simp [h]) ⟨rfl, rfl⟩
  | rel i m ok hsent hm hst =>
    obtain ⟨a, b, hp, -, hsetp, -⟩ := pending_split hm
    exact .rel a b m ok (!ok) hp hst (fun hno _ => by rw [hno]; rfl) ⟨hsetp _, rfl⟩

/-- **The rule for what a slot queues and did.** -/
theorem SlotRun.queueRule (I : Trace Ctx → Option (Session Ctx) → Prop) (init : I [] none)
    (alloc : ∀ h ctx clientId, ClientIdFits P.T clientId → I h none →
      I (.alloc k :: h) (some (freshSession P.T ctx clientId)))
    (release : ∀ h s, I h (some s) → I (.release k :: h) none)
    (step : ∀ h s acts s', I h (some s) → QueueStep P k s acts s' → I (acts ++ h) (some s')) (run : SlotRun P k h o) :
    I h o := by
  refine run.rule I init alloc release (fun h s acts s' hI d => ?_)
    (fun h s acts s' hI r => step h s acts s' hI r.queueStep) (fun h s acts s' hI hacts hq => ?_)
  · rcases d.queueSteps with q | ⟨-, topic, payload, eff, a, -, rfl, q⟩
    · exact step h s acts s' hI q
    · have hnote := step h s [.routed k topic payload eff] s hI (.idle (by simp [Act.idle]) ⟨rfl, rfl⟩)
      exact step (.routed k topic payload eff :: h) s [a] s' hnote q
  · exact step h s acts s' hI (.idle (fun a ha => Act.idle_of_plain (hacts a ha)) ⟨hq.pending, hq.nextSeq⟩)

/-! ## Packet ids -/

theorem bumpId_range (id : Nat) : 1 ≤ Session.bumpId id ∧ Session.bumpId id ≤ 65535 := by
  unfold Session.bumpId toU16
  by_cases h : (id + 1) % 65536 = 0
  · rw [if_pos h]
    omega
  · rw [if_neg h]
    omega

theorem bumpId_round (x : Nat) : Session.bumpId (x % 65535 + 1) = (x + 1) % 65535 + 1 := by
  unfold Session.bumpId toU16
  by_cases h : (x % 65535 + 1 + 1) % 65536 = 0
  · rw [if_pos h]
    omega
  · rw [if_neg h]
    omega

/-- The id the loop leaves with is free, and not 0. -/
theorem allocLoop_some (s : Session Ctx) : ∀ {n last id : Nat}, s.allocLoop n last = some id →
    s.idInUse id = false ∧ 1 ≤ id ∧ id ≤ 65535
  | 0, _, _, h => by cases h
  | n + 1, last, id, h => by
    rw [Session.allocLoop] at h
    split at h
    · exact allocLoop_some s h
    · rename_i huse
      cases h
      exact ⟨Bool.eq_false_iff.2 huse, bumpId_range last⟩

/-- The loop leaves when it meets a free id in time. -/
theorem allocLoop_ne_none (s : Session Ctx) : ∀ {n last j : Nat}, j < n →
    s.idInUse (Session.bumpId^[j + 1] last) = false → s.allocLoop n last ≠ none
  | 0, _, _, hj, _ => absurd hj (Nat.not_lt_zero _)
  | n + 1, last, j, hj, hfree => by
    rw [Session.allocLoop]
    split
    · rename_i huse
      cases j with
      | zero =>
        rw [Function.iterate_one, huse] at hfree
        cases hfree
      | succ j => exact allocLoop_ne_none s (by omega) hfree
    · exact Option.some_ne_none _

/-- Ids come round: from the first bump, the `j`-th next. -/
theorem iterate_bumpId (id : Nat) : ∀ j,
    Session.bumpId^[j + 1] id = (Session.bumpId id - 1 + j) % 65535 + 1
  | 0 => by
    have := bumpId_range id
    rw [Function.iterate_one]
    omega
  | j + 1 => by
    rw [Function.iterate_succ_apply', iterate_bumpId id j, bumpId_round, Nat.add_assoc]

/-- Every id comes up. -/
theorem exists_bumpId (id : Nat) {v : Nat} (h1 : 1 ≤ v) (h2 : v ≤ 65535) : ∃ j < 65535,
    Session.bumpId^[j + 1] id = v := by
  have hb := bumpId_range id
  refine ⟨(v + 65535 - Session.bumpId id) % 65535, by omega, ?_⟩
  rw [iterate_bumpId]
  omega

/-- The entries in flight. -/
def inFlight (s : Session Ctx) : List OutMsg := s.pending.filter (fun m => m.state != .queued)

theorem inFlight_lt (s : Session Ctx) (hm : m ∈ s.pending) (hq : m.state = .queued) :
    (inFlight s).length < s.pending.length :=
  List.length_filter_lt_length_iff_exists.2 ⟨m, hm, by simp [hq]⟩

/-- Fewer entries in flight than ids: one is free. -/
theorem exists_free_id (s : Session Ctx) (hfly : (inFlight s).length < 65535) :
    ∃ v, 1 ≤ v ∧ v ≤ 65535 ∧ s.idInUse v = false := by
  have hcard : (((inFlight s).map OutMsg.packetId).toFinset).card < (Finset.Icc 1 65535).card := by
    refine (List.toFinset_card_le _).trans_lt ?_
    rw [List.length_map, Nat.card_Icc]
    exact hfly
  obtain ⟨v, hv, hfree⟩ := Finset.exists_mem_notMem_of_card_lt_card hcard
  rw [Finset.mem_Icc] at hv
  refine ⟨v, hv.1, hv.2, Bool.eq_false_iff.2 (fun huse => hfree ?_)⟩
  obtain ⟨x, hx, hxv⟩ := List.any_eq_true.1 huse
  rw [Bool.and_eq_true, beq_iff_eq] at hxv
  exact List.mem_toFinset.2 (List.mem_map.2 ⟨x, List.mem_filter.2 ⟨hx, hxv.1⟩, hxv.2⟩)

/-- **`alloc_packet_id` returns** whenever an entry waits for an id. -/
theorem allocPacketId_ne_none (s : Session Ctx) (hlen : s.pending.length ≤ 65535) (hm : m ∈ s.pending)
    (hq : m.state = .queued) : s.allocPacketId ≠ none := by
  obtain ⟨v, h1, h2, hfree⟩ := exists_free_id s ((inFlight_lt s hm hq).trans_le hlen)
  obtain ⟨j, hj, rfl⟩ := exists_bumpId s.lastPacketId h1 h2
  exact allocLoop_ne_none s (hj.trans (by decide)) hfree

/-- The id the loop leaves with is the first free one it meets. -/
theorem allocLoop_first (s : Session Ctx) : ∀ {n last id : Nat}, s.allocLoop n last = some id →
    ∃ j, id = Session.bumpId^[j + 1] last ∧ ∀ i < j, s.idInUse (Session.bumpId^[i + 1] last) = true
  | 0, _, _, h => by cases h
  | n + 1, last, id, h => by
    rw [Session.allocLoop] at h
    split at h
    · rename_i huse
      obtain ⟨j, hid, hearlier⟩ := allocLoop_first s h
      refine ⟨j + 1, hid, fun i hi => ?_⟩
      cases i with
      | zero => exact huse
      | succ i => exact hearlier i (by omega)
    · cases h
      exact ⟨0, rfl, fun i hi => absurd hi (Nat.not_lt_zero i)⟩

/-- How many ids of the cycle 1, 2, …, 65535, 1, … come after `last` and before `v`. -/
def idsBetween (last v : Nat) : Nat := (v + 65534 - toU16 last % 65535) % 65535

theorem idsBetween_iterate (last : Nat) {j : Nat} (hj : j < 65535) :
    idsBetween last (Session.bumpId^[j + 1] last) = j := by
  rw [iterate_bumpId, idsBetween]
  unfold Session.bumpId toU16
  split <;> omega

theorem idInUse_false : s.idInUse id = false ↔ ∀ m ∈ s.pending, m.state ≠ .queued → m.packetId ≠ id := by
  simp [Session.idInUse]

/-- Where ids in flight are distinct, an id has one place. -/
theorem inFlight_unique {q : List OutMsg} {j : Nat} {m' : OutMsg}
    (hdistinct : q.Pairwise (fun m m' => m.state ≠ .queued → m'.state ≠ .queued → m.packetId ≠ m'.packetId))
    (hm : q[i]? = some m) (hm' : q[j]? = some m') (hfly : m.state ≠ .queued) (hfly' : m'.state ≠ .queued)
    (hid : m.packetId = m'.packetId) : i = j := by
  obtain ⟨hi, rfl⟩ := List.getElem?_eq_some_iff.1 hm
  obtain ⟨hj, rfl⟩ := List.getElem?_eq_some_iff.1 hm'
  rw [List.pairwise_iff_getElem] at hdistinct
  rcases Nat.lt_trichotomy i j with hlt | he | hgt
  · exact absurd hid (hdistinct i j hi hj hlt hfly hfly')
  · exact he
  · exact absurd hid.symm (hdistinct j i hj hi hgt hfly' hfly)

/-- **`alloc_packet_id` returns the first free id, and `find_pending` the entry that holds one.** -/
theorem packetIds_fresh (s : Session Ctx) : ((inFlight s).length < 65535 →
      ∃ id, s.allocPacketId = some id ∧ 1 ≤ id ∧ id ≤ 65535 ∧
        (∀ m ∈ s.pending, m.state ≠ .queued → m.packetId ≠ id) ∧
        ∀ v, 1 ≤ v → v ≤ 65535 → (∀ m ∈ s.pending, m.state ≠ .queued → m.packetId ≠ v) →
          idsBetween s.lastPacketId id ≤ idsBetween s.lastPacketId v) ∧
      (s.pending.Pairwise (fun m m' => m.state ≠ .queued → m'.state ≠ .queued → m.packetId ≠ m'.packetId) →
        ∀ id a b,
          (∀ i, s.findPending id a b = some i → ∃ m, s.pending[i]? = some m ∧ m.packetId = id ∧
            (m.state = a ∨ m.state = b) ∧ (m.state ≠ .queued → ∀ j m', s.pending[j]? = some m' →
              m'.state ≠ .queued → m'.packetId = id → j = i)) ∧
          (s.findPending id a b = none → ∀ m ∈ s.pending, m.packetId = id → m.state ≠ a ∧ m.state ≠ b)) := by
  refine ⟨fun hfly => ?_, fun hdistinct id a b => ⟨fun i hi => ?_, fun hnone m hm hid => ?_⟩⟩
  · obtain ⟨v₀, h1, h2, hfree₀⟩ := exists_free_id s hfly
    obtain ⟨j₀, hj₀, rfl⟩ := exists_bumpId s.lastPacketId h1 h2
    obtain ⟨id, halloc⟩ := Option.ne_none_iff_exists'.1
        (allocLoop_ne_none s (n := 0x10000) (hj₀.trans (by decide)) hfree₀)
    obtain ⟨hfree, hlo, hhi⟩ := allocLoop_some s halloc
    obtain ⟨j, rfl, hearlier⟩ := allocLoop_first s halloc
    refine ⟨_, halloc, hlo, hhi, idInUse_false.1 hfree, fun v hv1 hv2 hv => ?_⟩
    obtain ⟨i, hi, rfl⟩ := exists_bumpId s.lastPacketId hv1 hv2
    have hji : j ≤ i := by
      refine Nat.not_lt.1 (fun hlt => ?_)
      have huse := hearlier i hlt
      rw [idInUse_false.2 hv] at huse
      cases huse
    rw [idsBetween_iterate _ hi, idsBetween_iterate _ (by omega)]
    exact hji
  · obtain ⟨m, hm, hid, hstate⟩ := findPending_some hi
    exact ⟨m, hm, hid, hstate, fun hfly j m' hm' hfly' hid' =>
      inFlight_unique hdistinct hm' hm hfly' hfly (hid'.trans hid.symm)⟩
  · exact findPending_none hnone m hm hid

/-- A session whose ids 1 and 2 are in flight, the counter about to wrap. -/
def wrapping : Session Unit :=
  { pending := [{ packetId := 1, state := .awaitingPuback }, { packetId := 2, state := .awaitingPubcomp }, {}],
    lastPacketId := 65534, authCtx := () }

theorem packetIds_fresh_wrapping : (∃ id, wrapping.allocPacketId = some id ∧ 1 ≤ id) ∧
    wrapping.allocPacketId = some 65535 ∧
    (wrapping.findPending 2 .awaitingPubrec .awaitingPubcomp = some 1 ∧
      ∀ j m', wrapping.pending[j]? = some m' → m'.state ≠ .queued → m'.packetId = 2 → j = 1) := by
  have hids := packetIds_fresh wrapping
  obtain ⟨id, halloc, hlo, -⟩ := hids.1 (by decide)
  have hfind : wrapping.findPending 2 .awaitingPubrec .awaitingPubcomp = some 1 := by decide
  obtain ⟨m, hm, -, hstate, hunique⟩ := (hids.2 (by decide) 2 .awaitingPubrec .awaitingPubcomp).1 1 hfind
  refine ⟨⟨id, halloc, hlo⟩, by decide, hfind, hunique ?_⟩
  rcases hstate with h | h
  · rw [h]
    decide
  · rw [h]
    decide

/-! ## The shape of the queue -/

/-- What is true of every entry. -/
structure OutMsg.Ok (T : Traits) (m : OutMsg) : Prop where
  topic : TopicFits T m.topic
  payload : m.payload.length ≤ T.maxPayloadLen
  qos : m.qos ≠ .atMostOnce
  fresh : m.state = .queued → m.dup = false
  puback : m.state = .awaitingPuback → m.qos = .atLeastOnce
  pubrec : m.state = .awaitingPubrec ∨ m.state = .awaitingPubcomp → m.qos = .exactlyOnce
  flag : m.resendPubrel = true → m.state = .awaitingPubcomp
  id : m.state ≠ .queued → 1 ≤ m.packetId ∧ m.packetId ≤ 65535

/-- What fits in a session fits in a packet. -/
theorem OutMsg.Ok.fits (hok : m.Ok T) (hsize : T.outSize - packetOverhead ≤ maxRemainingLength) :
    PublishFits T.outSize m.topic m.payload m.qos :=
  (bodyFits_of_stored hok.topic.stored hok.payload m.qos).publishFits hok.topic hsize

/-- What is true of every two entries, in the order of the queue. -/
structure Apart (m m' : OutMsg) : Prop where
  split : m.state = .queued → m'.state = .queued
  ids : m.state ≠ .queued → m'.state ≠ .queued → m.packetId ≠ m'.packetId
  seq : m.seq < m'.seq

/-- **The queue is in order.** -/
structure QueueOk (T : Traits) (s : Session Ctx) : Prop where
  room : s.pending.length ≤ T.maxPendingPerSession
  entries : ∀ m ∈ s.pending, m.Ok T
  pairs : s.pending.Pairwise Apart
  next : ∀ m ∈ s.pending, m.seq < s.nextSeq

theorem pairwise_swap {α : Type} {R : α → α → Prop} {a b : List α} {m m' : α} (h : (a ++ m :: b).Pairwise R)
    (hl : ∀ x ∈ a, R x m → R x m') (hr : ∀ x ∈ b, R m x → R m' x) : (a ++ m' :: b).Pairwise R := by
  rw [List.pairwise_append, List.pairwise_cons] at h ⊢
  obtain ⟨ha, ⟨hm, hb⟩, hab⟩ := h
  refine ⟨ha, ⟨fun x hx => hr x hx (hm x hx), hb⟩, fun x hx y hy => ?_⟩
  rcases List.mem_cons.1 hy with rfl | hy
  · exact hl x hx (hab x hx m List.mem_cons_self)
  · exact hab x hx y (List.mem_cons_of_mem _ hy)

section
variable {T : Traits} {s s' : Session Ctx} {a b : List OutMsg} {m m' : OutMsg}

theorem QueueOk.fresh (T : Traits) (ctx : Ctx) (clientId : Bytes) : QueueOk T (freshSession T ctx clientId) :=
  ⟨Nat.zero_le _, fun m hm => by (cases hm), .nil, fun m hm => by (cases hm)⟩

theorem QueueOk.mem (h : QueueOk T s) (hp : s.pending = a ++ m :: b) : m.Ok T := h.entries m (by rw [hp]; simp)

theorem QueueOk.edit (h : QueueOk T s) (hp : s.pending = a ++ m :: b) (hs : Requeued s s' (a ++ m' :: b))
    (hok : m'.Ok T) (hseq : m'.seq = m.seq) (hl : ∀ x ∈ a, Apart x m → Apart x m')
    (hr : ∀ x ∈ b, Apart m x → Apart m' x) : QueueOk T s' := by
  obtain ⟨hroom, hent, hpair, hnext⟩ := h
  rw [hp] at hroom hent hpair hnext
  refine ⟨?_, fun x hx => ?_, ?_, fun x hx => ?_⟩
  · rw [hs.pending]
    simpa using hroom
  · rw [hs.pending, List.mem_append, List.mem_cons] at hx
    rcases hx with hx | rfl | hx
    · exact hent x (by simp [hx])
    · exact hok
    · exact hent x (by simp [hx])
  · rw [hs.pending]
    exact pairwise_swap hpair hl hr
  · rw [hs.pending, List.mem_append, List.mem_cons] at hx
    rw [hs.nextSeq]
    rcases hx with hx | rfl | hx
    · exact hnext x (by simp [hx])
    · rw [hseq]
      exact hnext m (by simp)
    · exact hnext x (by simp [hx])

theorem QueueOk.edit_inflight (h : QueueOk T s) (hp : s.pending = a ++ m :: b) (hs : Requeued s s' (a ++ m' :: b))
    (hok : m'.Ok T) (hseq : m'.seq = m.seq) (hid : m'.packetId = m.packetId) (hm : m.state ≠ .queued)
    (hm' : m'.state ≠ .queued) : QueueOk T s' := by
  refine h.edit hp hs hok hseq (fun x _ hx => ⟨fun hq => absurd (hx.split hq) hm, fun hq _ => ?_, ?_⟩)
    (fun x _ hx => ⟨fun hq => absurd hq hm', fun _ hq => ?_, ?_⟩)
  · rw [hid]
    exact hx.ids hq hm
  · rw [hseq]
    exact hx.seq
  · rw [hid]
    exact hx.ids hm hq
  · rw [hseq]
    exact hx.seq

theorem QueueOk.erase (h : QueueOk T s) (hp : s.pending = a ++ m :: b) (hs : Requeued s s' (a ++ b)) :
    QueueOk T s' := by
  obtain ⟨hroom, hent, hpair, hnext⟩ := h
  have hsub : (a ++ b).Sublist s.pending := by rw [hp]; exact List.Sublist.append_left (List.sublist_cons_self m b) a
  refine ⟨?_, ?_, ?_, ?_⟩
  · rw [hs.pending]
    exact hsub.length_le.trans hroom
  · rw [hs.pending]
    exact fun x hx => hent x (hsub.subset hx)
  · rw [hs.pending]
    exact hpair.sublist hsub
  · rw [hs.pending, hs.nextSeq]
    exact fun x hx => hnext x (hsub.subset hx)

theorem QueueOk.same (h : QueueOk T s) (hs : Requeued s s' s.pending) : QueueOk T s' := by
  obtain ⟨hroom, hent, hpair, hnext⟩ := h
  constructor
  · rwa [hs.pending]
  · rwa [hs.pending]
  · rwa [hs.pending]
  · rwa [hs.pending, hs.nextSeq]

theorem QueueOk.push (h : QueueOk T s) {topic payload : Bytes} {eff : QoS} (retain : Bool) (heff : eff ≠ .atMostOnce)
    (hroom : s.pending.length ≠ T.maxPendingPerSession) (htopic : TopicFits T topic)
    (hpayload : payload.length ≤ T.maxPayloadLen) : QueueOk T (s.queued T topic payload eff retain) := by
  have hlast : ∀ x ∈ (s.queued T topic payload eff retain).pending,
      x ∈ s.pending ∨ x = outMsg T s topic payload eff retain := by
    intro x hx
    simpa [Session.queued] using hx
  refine ⟨?_, fun x hx => ?_, ?_, fun x hx => ?_⟩
  · have := h.room
    simp only [Session.queued, List.length_append, List.length_singleton]
    omega
  · rcases hlast x hx with hx | rfl
    · exact h.entries x hx
    · refine ⟨?_, ?_, heff, fun _ => rfl, nofun, fun hst => ?_, nofun, fun hst => absurd rfl hst⟩
      · rw [outMsg, assign_of_le htopic.stored]
        exact htopic
      · rw [outMsg, assign_of_le hpayload]
        exact hpayload
      · rcases hst with hst | hst <;> cases hst
  · refine List.pairwise_append.2 ⟨h.pairs, List.pairwise_singleton .., fun x hx y hy => ?_⟩
    rw [List.mem_singleton.1 hy]
    exact ⟨fun _ => rfl, fun _ hst => absurd rfl hst, h.next x hx⟩
  · rcases hlast x hx with hx | rfl
    · exact (h.next x hx).trans (Nat.lt_succ_self _)
    · exact Nat.lt_succ_self _

end

theorem sentState_ne (qos : QoS) : sentState qos ≠ .queued ∧ sentState qos ≠ .awaitingPubcomp := by
  cases qos <;> decide

theorem OutMsg.Ok.sent (h : m.Ok T) (hq : m.state = .queued) (h1 : 1 ≤ id) (h2 : id ≤ 65535) : (m.sent id).Ok T where
  topic := h.topic
  payload := h.payload
  qos := h.qos
  fresh := fun hst => absurd hst (sentState_ne m.qos).1
  puback := fun hst => by
    cases hqos : m.qos <;> simp_all [OutMsg.sent, sentState]
  pubrec := fun hst => by
    have := h.qos
    cases hqos : m.qos <;> simp_all [OutMsg.sent, sentState]
  flag := fun hfl => by
    have := h.flag hfl
    rw [hq] at this
    cases this
  id := fun _ => ⟨h1, h2⟩

/-- **Every step keeps the queue in order.** -/
theorem QueueOk.step (h : QueueOk P.T s) (q : QueueStep P k s acts s') : QueueOk P.T s' := by
  cases q with
  | stuck => exact h
  | idle _ hs => exact h.same hs
  | push topic payload eff retain heff hroom htopic hpayload => exact h.push retain heff hroom htopic hpayload
  | refused _ _ _ _ _ _ _ _ hs => exact h.same hs
  | first a b m hid hp hst hset hpkt hs =>
    rename_i id
    have hmem : m ∈ s.pending := by rw [hp]; simp
    obtain ⟨hfresh, h1, h2⟩ := allocLoop_some s hid
    refine h.edit hp hs ((h.entries m hmem).sent hst h1 h2) rfl (fun x hx hap => ?_) (fun x _ hap => ?_)
    · -- An entry before it is in flight, with another id.
      have hxs : x.state ≠ .queued := (hset x hx).1
      refine ⟨fun hq => absurd hq hxs, fun _ _ he => ?_, hap.seq⟩
      refine Bool.eq_false_iff.1 hfresh (List.any_eq_true.2 ⟨x, by rw [hp]; simp [hx], ?_⟩)
      have he' : x.packetId = id := he
      simp [hxs, he']
    · -- An entry after it still waits.
      exact ⟨fun hq => absurd hq (sentState_ne m.qos).1, fun _ hq => absurd (hap.split hst) hq, hap.seq⟩
  | again a b m hp hst _ hs =>
    have hok := h.mem hp
    have hne : m.state ≠ .queued := by rcases hst with h | h <;> simp [h]
    exact h.edit_inflight hp hs { hok with fresh := fun hq => absurd hq hne } rfl rfl hne hne
  | rel a b m ok flag hp hst _ hs =>
    have hok := h.mem hp
    have hne : m.state ≠ .queued := by simp [hst]
    exact h.edit_inflight hp hs { hok with flag := fun _ => hst } rfl rfl hne hne
  | stray => exact h
  | received a b m hp hst hs =>
    have hok := h.mem hp
    have hne : m.state ≠ .queued := by rcases hst with h | h <;> simp [h]
    exact h.edit_inflight hp hs
      { hok with fresh := fun hq => by (cases hq), puback := fun hq => by (cases hq), pubrec := fun _ => hok.pubrec hst,
                 flag := fun _ => rfl, id := fun _ => hok.id hne } rfl rfl hne (by simp)
  | final a b m type hp _ hs => exact h.erase hp hs
  | drop a b m dup id e hp _ _ hs => exact h.erase hp hs

/-! ## The order of first transmissions -/

/-- The transport took a packet for message `n`. -/
def SentIn (h : Trace Ctx) (n : Nat) : Prop := ∃ a ∈ h, a.took n = true

def Act.isEnqueue : Act Ctx → Bool
  | .enqueue _ _ _ _ _ _ => true
  | _ => false

/-- `a` is no first transmission that overtakes another: a message that went out before is older. -/
def InOrder (a : Act Ctx) (older : Trace Ctx) : Prop :=
  ∀ n, a.took n = true → ¬ SentIn (life older) n → ∀ n', SentIn (life older) n' → n' < n

/-- Messages are numbered in the order in which they are queued. -/
def Numbered (a : Act Ctx) (older : Trace Ctx) : Prop :=
  ∀ k n topic payload qos retain, a = .enqueue k n topic payload qos retain →
    n = (life older).countP Act.isEnqueue

/-- How the queue stands to what went out before. -/
structure QueuePast (h : Trace Ctx) (s : Session Ctx) : Prop where
  count : s.nextSeq = (life h).countP Act.isEnqueue
  known : ∀ n, SentIn (life h) n → n < s.nextSeq
  waiting : ∀ m ∈ s.pending, m.state = .queued → ∀ n, SentIn (life h) n → n < m.seq
  sent : ∀ m ∈ s.pending, m.state ≠ .queued → SentIn (life h) m.seq

theorem SentIn.append {n : Nat} (hs : SentIn h n) : SentIn (acts ++ h) n := by
  obtain ⟨a, ha, ht⟩ := hs
  exact ⟨a, List.mem_append_right _ ha, ht⟩

theorem sentIn_append {n : Nat} : SentIn (acts ++ h) n ↔ SentIn acts n ∨ SentIn h n := by
  simp only [SentIn, List.mem_append, or_and_right, exists_or]

theorem Act.took_of_idle (h : a.idle = true) (n : Nat) : a.took n = false := by
  cases a with
  | send ci pkt ok tag =>
    cases ok with
    | false => rfl
    | true =>
      cases tag with
      | none => rfl
      | some τ =>
        have : τ.seq = none := by simpa [Act.idle] using h
        simp [Act.took, this]
  | _ => rfl

theorem Act.isEnqueue_of_idle (h : a.idle = true) : a.isEnqueue = false := by
  cases a <;> first | rfl | cases h

theorem Act.isAlloc_of_idle (h : a.idle = true) : a.isAlloc = false := by
  cases a <;> first | rfl | cases h

theorem QueueStep.isAlloc (q : QueueStep P k s acts s') : ∀ a ∈ acts, a.isAlloc = false := by
  cases q with
  | idle hacts _ => exact fun a ha => Act.isAlloc_of_idle (hacts a ha)
  | _ => simp [Act.isAlloc]

theorem QueueStep.life (q : QueueStep P k s acts s') (h : Trace Ctx) :
    Minimosq.life (acts ++ h) = acts ++ Minimosq.life h := History.since_append q.isAlloc h

section
variable {h acts : Trace Ctx} {s s' : Session Ctx}

theorem QueuePast.fresh (T : Traits) (h : Trace Ctx) (ctx : Ctx) (clientId : Bytes) :
    QueuePast (.alloc k :: h) (freshSession T ctx clientId) := by
  have hlife : life (.alloc k :: h) = [] := History.since_cons_mark rfl h
  refine ⟨?_, fun n hn => ?_, fun m hm => by (cases hm), fun m hm => by (cases hm)⟩
  · rw [hlife]
    rfl
  · rw [hlife] at hn
    obtain ⟨a, ha, -⟩ := hn
    cases ha

/-- The entry is the same message, waiting or in flight as before. -/
def Stays (m m' : OutMsg) : Prop := m'.seq = m.seq ∧ (m'.state = .queued ↔ m.state = .queued)

theorem Stays.refl (m : OutMsg) : Stays m m := ⟨rfl, .rfl⟩

/-- Nothing goes out for the first time, and every entry was there. -/
theorem QueuePast.keep (hpast : QueuePast h s) (hlife : life (acts ++ h) = acts ++ life h)
    (hold : ∀ n, SentIn acts n → SentIn (life h) n) (henq : acts.countP Act.isEnqueue = 0)
    (hn : s'.nextSeq = s.nextSeq)
    (hmem : ∀ m' ∈ s'.pending, ∃ m ∈ s.pending, Stays m m') : QueuePast (acts ++ h) s' := by
  have hsent : ∀ n, SentIn (life (acts ++ h)) n ↔ SentIn (life h) n := by
    intro n
    rw [hlife, sentIn_append]
    exact ⟨fun hs => hs.elim (hold n) id, .inr⟩
  refine ⟨?_, fun n hs => ?_, fun m' hm' hq n hs => ?_, fun m' hm' hq => ?_⟩
  · rw [hn, hlife, List.countP_append, henq, Nat.zero_add]
    exact hpast.count
  · rw [hn]
    exact hpast.known n ((hsent n).1 hs)
  · obtain ⟨m, hm, hseq, hst⟩ := hmem m' hm'
    rw [hseq]
    exact hpast.waiting m hm (hst.1 hq) n ((hsent n).1 hs)
  · obtain ⟨m, hm, hseq, hst⟩ := hmem m' hm'
    rw [hseq]
    exact (hsent _).2 (hpast.sent m hm (fun hq' => hq (hst.2 hq')))

/-- Idle acts and the order of first transmissions. -/
theorem idle_past (h : Trace Ctx) (hacts : ∀ a ∈ acts, a.idle = true) :
    (∀ n, SentIn acts n → SentIn (life h) n) ∧ acts.countP Act.isEnqueue = 0 ∧
      (Each InOrder h → Each InOrder (acts ++ h)) ∧ (Each Numbered h → Each Numbered (acts ++ h)) := by
  refine ⟨fun n ⟨a, ha, ht⟩ => ?_, ?_, fun hh => hh.append (fun a ha older n ht => ?_),
    fun hh => hh.append (fun a ha older k n t p q r he => ?_)⟩
  · rw [Act.took_of_idle (hacts a ha)] at ht
    cases ht
  · exact List.countP_eq_zero.2 (fun a ha => by simp [Act.isEnqueue_of_idle (hacts a ha)])
  · rw [Act.took_of_idle (hacts a ha)] at ht
    cases ht
  · have := hacts a ha
    rw [he] at this
    cases this

/-- **A step and the order of first transmissions.** -/
theorem QueuePast.step (hok : QueueOk P.T s) (hpast : QueuePast h s) (q : QueueStep P k s acts s') :
    QueuePast (acts ++ h) s' ∧
      (Each InOrder h → Each InOrder (acts ++ h)) ∧ (Each Numbered h → Each Numbered (acts ++ h)) := by
  have hlife := q.life h
  -- A packet for an entry in flight is not the first for its message.
  have hagain : ∀ (m : OutMsg) (ok : Bool) (pkt : Bytes), m ∈ s.pending → m.state ≠ .queued →
      ∀ n, SentIn [.send s.conn pkt ok (tagOf k s (some m.seq))] n → SentIn (life h) n := by
    rintro m ok pkt hm hst n ⟨a, ha, ht⟩
    rw [List.mem_singleton.1 ha] at ht
    cases ok with
    | false => cases ht
    | true =>
      have : m.seq = n := by simpa [Act.took, tagOf] using ht
      rw [← this]
      exact hpast.sent m hm hst
  have horder : ∀ {a : Act Ctx}, (∀ n, SentIn [a] n → SentIn (life h) n) → Each InOrder h → Each InOrder (a :: h) :=
    fun hold hh => ⟨fun n ht hno => absurd (hold n ⟨_, List.mem_singleton_self _, ht⟩) hno, hh⟩
  have hnum : ∀ {a : Act Ctx}, a.isEnqueue = false → Each Numbered h → Each Numbered (a :: h) :=
    fun ha hh => ⟨fun k n t p q r he => by (rw [he] at ha; cases ha), hh⟩
  have hnone : ∀ {a : Act Ctx}, (∀ n, a.took n = false) → ∀ n, SentIn [a] n → SentIn (life h) n := by
    rintro a ha n ⟨b, hb, ht⟩
    rw [List.mem_singleton.1 hb, ha] at ht
    cases ht
  cases q with
  | idle hacts hs =>
    obtain ⟨hno, henq, ho, hn⟩ := idle_past h hacts
    exact ⟨hpast.keep hlife hno henq hs.nextSeq (hs.same Stays.refl), ho, hn⟩
  | push topic payload eff retain _ _ _ _ =>
    refine ⟨⟨?_, fun n hs => ?_, fun x hx hq n hs => ?_, fun x hx hq => ?_⟩, horder (hnone (fun _ => rfl)),
      fun hh => ⟨fun _ n _ _ _ _ he => ?_, hh⟩⟩
    · rw [hlife, List.singleton_append, List.countP_cons_of_pos rfl]
      exact congrArg (· + 1) hpast.count
    · rw [hlife, sentIn_append] at hs
      exact (hpast.known n (hs.elim (hnone (fun _ => rfl) n) id)).trans (Nat.lt_succ_self _)
    · rw [hlife, sentIn_append] at hs
      have hs' := hs.elim (hnone (fun _ => rfl) n) id
      have hx' : x ∈ s.pending ∨ x = outMsg P.T s topic payload eff retain := by simpa [Session.queued] using hx
      rcases hx' with hx' | rfl
      · exact hpast.waiting x hx' hq n hs'
      · exact hpast.known n hs'
    · have hx' : x ∈ s.pending ∨ x = outMsg P.T s topic payload eff retain := by simpa [Session.queued] using hx
      rw [hlife]
      rcases hx' with hx' | rfl
      · exact (hpast.sent x hx' hq).append
      · exact absurd rfl hq
    · cases he
      exact hpast.count
  | refused a b m dup id hp hst _ hs =>
    exact ⟨hpast.keep hlife (hnone (fun _ => rfl)) rfl hs.nextSeq
      (hs.same Stays.refl), horder (hnone (fun _ => rfl)), hnum rfl⟩
  | stuck =>
    exact ⟨hpast.keep hlife (hnone (fun _ => rfl)) rfl rfl (fun x hx => ⟨x, hx, .refl x⟩),
      horder (hnone (fun _ => rfl)), hnum rfl⟩
  | first a b m hid hp hst hset hpkt hs =>
    rename_i id
    have hmem : m ∈ s.pending := by rw [hp]; simp
    have htook : ∀ n, Act.took n (.send s.conn (publishOf P.T m m.dup id) true (tagOf k s (some m.seq))) = true →
        n = m.seq := fun n ht => Eq.symm (by simpa [Act.took, tagOf] using ht)
    have hsent : ∀ n, SentIn (life ([.send s.conn (publishOf P.T m m.dup id) true (tagOf k s (some m.seq))] ++ h)) n →
        n = m.seq ∨ SentIn (life h) n := by
      intro n hn
      rw [hlife, sentIn_append] at hn
      refine hn.imp_left ?_
      rintro ⟨x, hx, ht⟩
      rw [List.mem_singleton.1 hx] at ht
      exact htook n ht
    have hpair := hok.pairs
    rw [hp, List.pairwise_append, List.pairwise_cons] at hpair
    refine ⟨⟨?_, fun n hn => ?_, fun x hx hq n hn => ?_, fun x hx hq => ?_⟩, fun hh => ⟨fun n ht _ n' hn' => ?_, hh⟩,
      hnum rfl⟩
    · rw [hlife, hs.nextSeq]
      simpa [Act.isEnqueue] using hpast.count
    · rw [hs.nextSeq]
      rcases hsent n hn with rfl | hn
      · exact hok.next m hmem
      · exact hpast.known n hn
    · -- Whoever still waits is after it.
      rw [hs.pending, List.mem_append, List.mem_cons] at hx
      rcases hx with hx | rfl | hx
      · exact absurd hq (hset x hx).1
      · exact absurd hq (sentState_ne m.qos).1
      · have hlt := (hpair.2.1.1 x hx).seq
        rcases hsent n hn with rfl | hn
        · exact hlt
        · exact (hpast.waiting m hmem hst n hn).trans hlt
    · rw [hlife]
      rw [hs.pending, List.mem_append, List.mem_cons] at hx
      rcases hx with hx | rfl | hx
      · exact (hpast.sent x (by rw [hp]; simp [hx]) hq).append
      · exact ⟨_, List.mem_append_left _ (List.mem_singleton_self _), by simp [Act.took, tagOf, OutMsg.sent]⟩
      · exact (hpast.sent x (by rw [hp]; simp [hx]) hq).append
    · rw [htook n ht]
      exact hpast.waiting m hmem hst n' hn'
  | again a b m hp hst hpkt hs =>
    have hne : m.state ≠ .queued := by rcases hst with h | h <;> simp [h]
    have hold := hagain m true (publishOf P.T m true m.packetId) (by rw [hp]; simp) hne
    exact ⟨hpast.keep hlife hold rfl hs.nextSeq (hs.edit Stays.refl hp ⟨rfl, .rfl⟩), horder hold, hnum rfl⟩
  | rel a b m ok flag hp hst _ hs =>
    have hold := hagain m ok (pubrelOf P.T m) (by rw [hp]; simp) (by simp [hst])
    exact ⟨hpast.keep hlife hold rfl hs.nextSeq (hs.edit Stays.refl hp ⟨rfl, .rfl⟩), horder hold, hnum rfl⟩
  | stray type id _ =>
    exact ⟨hpast.keep hlife (hnone (fun _ => rfl)) rfl rfl (fun x hx => ⟨x, hx, .refl x⟩),
      horder (hnone (fun _ => rfl)), hnum rfl⟩
  | received a b m hp hst hs =>
    have hne : m.state ≠ .queued := by rcases hst with h | h <;> simp [h]
    exact ⟨hpast.keep hlife (hnone (fun _ => rfl)) rfl hs.nextSeq (hs.edit Stays.refl hp ⟨rfl, by simp [hne]⟩),
      horder (hnone (fun _ => rfl)), hnum rfl⟩
  | final a b m type hp _ hs =>
    exact ⟨hpast.keep hlife (hnone (fun _ => rfl)) rfl hs.nextSeq (hs.erase Stays.refl hp),
      horder (hnone (fun _ => rfl)), hnum rfl⟩
  | drop a b m dup id e hp _ _ hs =>
    have hacts : ∀ a ∈ ([.event e (some k), .unbuilt (some k)] : Trace Ctx), a.idle = true := by simp [Act.idle]
    obtain ⟨hno, henq, ho, hn⟩ := idle_past h hacts
    exact ⟨hpast.keep hlife hno henq hs.nextSeq (hs.erase Stays.refl hp), ho, hn⟩

end

/-! ## Every run -/

/-- What a slot's queue and its past are at every point of its life. -/
theorem SlotRun.queue (run : SlotRun P k h o) :
    (Each InOrder h ∧ Each Numbered h) ∧ ∀ s, o = some s → QueueOk P.T s ∧ QueuePast h s := by
  have hmark : ∀ {a : Act Ctx} {h : Trace Ctx}, (∀ n, a.took n = false) → a.isEnqueue = false →
      Each InOrder h ∧ Each Numbered h → Each InOrder (a :: h) ∧ Each Numbered (a :: h) := by
    intro a h ht he hh
    refine ⟨⟨fun n hn => ?_, hh.1⟩, ⟨fun k n t p q r ha => ?_, hh.2⟩⟩
    · rw [ht] at hn
      cases hn
    · rw [ha] at he
      cases he
  refine run.queueRule (fun h o => (Each InOrder h ∧ Each Numbered h) ∧
    ∀ s, o = some s → QueueOk P.T s ∧ QueuePast h s) ⟨⟨trivial, trivial⟩, by simp⟩ (fun h ctx clientId _ hI => ?_)
    (fun h s hI => ?_) (fun h s acts s' hI q => ?_)
  · refine ⟨hmark (fun _ => rfl) rfl hI.1, fun s hs => ?_⟩
    cases hs
    exact ⟨.fresh P.T ctx clientId, .fresh P.T h ctx clientId⟩
  · exact ⟨hmark (fun _ => rfl) rfl hI.1, by simp⟩
  · obtain ⟨hok, hpast⟩ := hI.2 s rfl
    obtain ⟨hpast', ho, hn⟩ := hpast.step hok q
    refine ⟨⟨ho hI.1.1, hn hI.1.2⟩, fun s₁ hs₁ => ?_⟩
    cases hs₁
    exact ⟨hok.step q, hpast'⟩

/-- **The shape of a pending queue**: in flight, then queued. -/
structure QueueShape (s : Session Ctx) : Prop where
  split : ∃ fly wait, s.pending = fly ++ wait ∧ (∀ m ∈ fly, m.state ≠ .queued) ∧ ∀ m ∈ wait, m.state = .queued
  ids : ∀ m ∈ s.pending, m.state ≠ .queued → m.packetId ≠ 0
  distinct : s.pending.Pairwise (fun m m' => m.state ≠ .queued → m'.state ≠ .queued → m.packetId ≠ m'.packetId)
  dup : ∀ m ∈ s.pending, m.state = .queued → m.dup = false
  qos : ∀ m ∈ s.pending, m.qos = .atLeastOnce ∨ m.qos = .exactlyOnce
  puback : ∀ m ∈ s.pending, m.state = .awaitingPuback → m.qos = .atLeastOnce
  pubrec : ∀ m ∈ s.pending, m.state = .awaitingPubrec ∨ m.state = .awaitingPubcomp → m.qos = .exactlyOnce
  flag : ∀ m ∈ s.pending, m.resendPubrel = true → m.state = .awaitingPubcomp

theorem split_of_pairwise : ∀ {l : List OutMsg}, l.Pairwise Apart →
    ∃ fly wait, l = fly ++ wait ∧ (∀ m ∈ fly, m.state ≠ .queued) ∧ ∀ m ∈ wait, m.state = .queued
  | [], _ => ⟨[], [], rfl, by simp, by simp⟩
  | m :: l, h => by
    rw [List.pairwise_cons] at h
    by_cases hq : m.state = .queued
    · refine ⟨[], m :: l, rfl, by simp, fun x hx => ?_⟩
      rcases List.mem_cons.1 hx with rfl | hx
      · exact hq
      · exact (h.1 x hx).split hq
    · obtain ⟨fly, wait, rfl, hfly, hwait⟩ := split_of_pairwise h.2
      refine ⟨m :: fly, wait, rfl, fun x hx => ?_, hwait⟩
      rcases List.mem_cons.1 hx with rfl | hx
      · exact hq
      · exact hfly x hx

theorem QueueOk.shape (h : QueueOk T s) : QueueShape s where
  split := split_of_pairwise h.pairs
  ids := fun m hm hq => Nat.pos_iff_ne_zero.1 ((h.entries m hm).id hq).1
  distinct := h.pairs.imp (fun hap => hap.ids)
  dup := fun m hm => (h.entries m hm).fresh
  qos := fun m hm => by
    have := (h.entries m hm).qos
    cases hq : m.qos <;> simp_all
  puback := fun m hm => (h.entries m hm).puback
  pubrec := fun m hm => (h.entries m hm).pubrec
  flag := fun m hm => (h.entries m hm).flag

/-- With at most as many entries as ids, an id is always found. -/
theorem SlotRun.not_stuck (hmax : P.T.maxPendingPerSession ≤ 65535) (run : SlotRun P k h o) :
    ∀ a ∈ h, a ≠ .stuck k := by
  refine (run.queueRule (fun h o => (∀ a ∈ h, a ≠ .stuck k) ∧ ∀ s, o = some s → QueueOk P.T s) ⟨by simp, by simp⟩
    (fun h ctx clientId _ hI => ⟨?_, fun s hs => ?_⟩) (fun h s hI => ⟨?_, by simp⟩)
      (fun h s acts s' hI q => ⟨?_, ?_⟩)).1
  · simpa using hI.1
  · cases hs
    exact QueueOk.fresh P.T ctx clientId
  · simpa using hI.1
  · intro a ha
    rcases List.mem_append.1 ha with ha | ha
    · cases q with
      | idle hacts =>
        rintro rfl
        cases hacts _ ha
      | stuck hid m hm hst => exact absurd hid (allocPacketId_ne_none s (((hI.2 s rfl).room).trans hmax) hm hst)
      | drop =>
        rintro rfl
        simp at ha
      | _ =>
        rw [List.mem_singleton.1 ha]
        exact (nofun)
    · exact hI.1 a ha
  · rintro _ ⟨⟩
    exact (hI.2 s rfl).step q

/-- **Every pending queue has its shape, an id is always found, and messages first go out in the order in which they
were queued.** -/
theorem run_pending_shape (P : Params Ctx) (hmax : P.T.maxPendingPerSession ≤ 65535) (inputs : List Input) (k : Nat) :
    (∀ s, (run P inputs).sessions.slot k = some s → QueueShape s) ∧
    (∀ a ∈ (run P inputs).trace, a ≠ .stuck k) ∧
    Each InOrder (slotActs k (run P inputs).trace) ∧ Each Numbered (slotActs k (run P inputs).trace) := by
  obtain ⟨⟨ho, hn⟩, hs⟩ := (run_slot P inputs k).queue
  refine ⟨fun s h => (hs s h).1.shape, fun a ha he => ?_, ho, hn⟩
  exact (run_slot P inputs k).not_stuck hmax a (List.mem_filter.2 ⟨ha, by simp [he, Act.slot]⟩) he

/-- Two messages in flight, and one queued while the client is away. -/
theorem pending_shape_offline : let P := bed (fun _ _ _ => true)
    let σ := run P (Input.connect 0 [99] { clean := false } ++ [.feed 0 (Wire.makeSubscribe 1 [([97], 2)]),
      .publish [97] [1] .atLeastOnce false, .publish [97] [2] .exactlyOnce false, .connClosed 0,
      .publish [97] [3] .atLeastOnce false])
    (σ.sessions.slot 0).map (fun s => s.pending.map OutMsg.state) =
      some [.awaitingPuback, .awaitingPubrec, .queued] ∧
    ∀ s, σ.sessions.slot 0 = some s → QueueShape s :=
  ⟨by decide +kernel, (run_pending_shape (bed (fun _ _ _ => true)) (by decide) _ 0).1⟩

end Minimosq
