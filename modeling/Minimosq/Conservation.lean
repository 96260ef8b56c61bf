import Minimosq.StreamServer
/-!
# Output bytes of the stream server

For every occupancy of a slot, what the kernel accepted and what the ring still holds are, in order, the spans `send`
took, all of them and nothing else.  `Op` is what the server does to its slots, in any interleaving; a pass of the event
loop, with the broker's calls in it, is one (`Kept.pollOnce`).
-/
namespace Minimosq

variable {Ctx : Type} {m cap : Nat}

theorem connOpen_transport {S : Type} (tr : Transport S) (P : Params Ctx) (ci nowMs : Nat) (x : System Ctx S) :
    (x.connOpen tr P ci nowMs).2.transport = x.transport := by
  change tr.after x.transport (actsSince x.broker (x.broker.connOpen (P.over tr x.transport x.broker) ci nowMs).2) = _
  unfold Broker.connOpen
  split
  · rw [actsSince_self]
    rfl
  · rw [show actsSince x.broker _ = [.event _ none] from actsSince_eq rfl]
    rfl

namespace StreamServer

/-! ## What is on the record -/

/-- The descriptor slot `ci` was last given. -/
def holder (ci : Nat) : List SlotNote → Option Int
  | [] => none
  | .occupied j fd :: older => if j = ci then some fd else holder ci older
  | .wrote _ _ _ :: older | .span _ _ _ :: older | .closed _ :: older | .applied _ _ :: older => holder ci older

/-- The writes to slot `ci` since it was last occupied: the descriptor and what the kernel accepted, in order. -/
def deliveries (ci : Nat) : List SlotNote → List (Int × Bytes)
  | [] => []
  | .occupied j _ :: older => if j = ci then [] else deliveries ci older
  | .wrote j fd bytes :: older => if j = ci then deliveries ci older ++ [(fd, bytes)] else deliveries ci older
  | .span _ _ _ :: older | .closed _ :: older | .applied _ _ :: older => deliveries ci older

/-- The bytes the kernel has accepted from the slot's occupant. -/
def accepted (ci : Nat) (record : List SlotNote) : Bytes := ((deliveries ci record).map Prod.snd).flatten

/-- The spans of slot `ci` for which `send` returned true since it was last occupied, in order. -/
def taken (ci : Nat) : List SlotNote → List Bytes
  | [] => []
  | .occupied j _ :: older => if j = ci then [] else taken ci older
  | .span j bytes ok :: older => if j = ci ∧ ok = true then taken ci older ++ [bytes] else taken ci older
  | .wrote _ _ _ :: older | .closed _ :: older | .applied _ _ :: older => taken ci older

/-- **No byte is lost, repeated or out of place in slot `ci`.**  Its occupant's bytes all go to its occupant's
descriptor; while it is open they are followed by what is in the ring, and once it is closed nothing is left behind. -/
structure Conserved (s : StreamServer m cap) (ci : Nat) : Prop where
  held : 0 ≤ (s.slots ci).fd → holder ci s.record = some (s.slots ci).fd
  addressed : ∀ d ∈ deliveries ci s.record, holder ci s.record = some d.1
  bytes : 0 ≤ (s.slots ci).fd → accepted ci s.record ++ (s.slots ci).ring.content = (taken ci s.record).flatten
  begun : accepted ci s.record <+: (taken ci s.record).flatten
  free : (s.slots ci).fd < 0 → (s.slots ci).ring.content = []

section
variable {s s' : StreamServer m cap} {ci j : Nat}

theorem Conserved.of_same (h : Conserved s j) (hslot : s'.slots j = s.slots j)
    (hholder : holder j s'.record = holder j s.record) (hdeliveries : deliveries j s'.record = deliveries j s.record)
    (htaken : taken j s'.record = taken j s.record) : Conserved s' j := by
  refine ⟨?_, ?_, ?_, ?_, ?_⟩
  · rw [hslot, hholder]
    exact h.held
  · rw [hdeliveries, hholder]
    exact h.addressed
  · rw [hslot, accepted, hdeliveries, htaken]
    exact h.bytes
  · rw [accepted, hdeliveries, htaken]
    exact h.begun
  · rw [hslot]
    exact h.free

theorem Conserved.of_open (hheld : holder ci s.record = some (s.slots ci).fd) (hopen : 0 ≤ (s.slots ci).fd)
    (haddressed : ∀ d ∈ deliveries ci s.record, holder ci s.record = some d.1)
    (hbytes : accepted ci s.record ++ (s.slots ci).ring.content = (taken ci s.record).flatten) : Conserved s ci where
  held _ := hheld
  addressed := haddressed
  bytes _ := hbytes
  begun := ⟨_, hbytes⟩
  free hfree := absurd hopen (Int.not_le.2 hfree)

theorem Conserved.flush (h : Conserved s j) (ci : Nat) : Conserved (s.flush ci) j := by
  unfold StreamServer.flush
  split
  · exact h
  rename_i hopen
  have hcontent := writeOut_content s.writes (s.slots ci).ring
  generalize writeOut s.writes (s.slots ci).ring = r at hcontent ⊢
  by_cases hj : j = ci
  · subst hj
    have hopen : 0 ≤ (s.slots j).fd := Int.not_lt.1 hopen
    have hself : (s.wroteOut j r).slots j = { s.slots j with ring := r.2.2 } := Function.update_self ..
    have hnew : deliveries j (.wrote j (s.slots j).fd r.1 :: s.record) =
        deliveries j s.record ++ [((s.slots j).fd, r.1)] := if_pos rfl
    refine .of_open ?_ ?_ ?_ ?_
    · rw [hself]
      exact h.held hopen
    · rw [hself]
      exact hopen
    · change ∀ d ∈ deliveries j (.wrote j (s.slots j).fd r.1 :: s.record), holder j s.record = some d.1
      rw [hnew, List.forall_mem_append]
      exact ⟨h.addressed, List.forall_mem_singleton.2 (h.held hopen)⟩
    · rw [hself]
      change accepted j (.wrote j (s.slots j).fd r.1 :: s.record) ++ r.2.2.content = (taken j s.record).flatten
      rw [accepted, hnew, List.map_append, List.flatten_append, List.append_assoc, ← h.bytes hopen, ← hcontent]
      simp [accepted]
  · exact h.of_same (Function.update_of_ne hj ..) rfl (if_neg (Ne.symm hj)) rfl

theorem Conserved.refused (h : Conserved s j) (ci : Nat) (bytes : Bytes) :
    Conserved (s.note (.span ci bytes false)) j :=
  h.of_same rfl rfl rfl (if_neg (by simp))

theorem Conserved.queued (h : Conserved s j) (hopen : 0 ≤ (s.slots ci).fd) {bytes : Bytes}
    (hok : ((s.slots ci).ring.append bytes).1 = true) :
    Conserved ((s.queued ci ((s.slots ci).ring.append bytes).2).note (.span ci bytes true)) j := by
  have hcontent := (s.slots ci).ring.content_append bytes
  rw [if_pos hok] at hcontent
  generalize ((s.slots ci).ring.append bytes).2 = ring at hcontent ⊢
  by_cases hj : j = ci
  · subst hj
    have hself : ((s.queued j ring).note (.span j bytes true)).slots j =
      { s.slots j with ring := ring, dirty := true } := Function.update_self ..
    have hnew : taken j (.span j bytes true :: s.record) = taken j s.record ++ [bytes] := if_pos ⟨rfl, rfl⟩
    refine .of_open ?_ ?_ h.addressed ?_
    · rw [hself]
      exact h.held hopen
    · rw [hself]
      exact hopen
    · rw [hself]
      change accepted j s.record ++ ring.content = (taken j (.span j bytes true :: s.record)).flatten
      rw [hnew, List.flatten_append, ← h.bytes hopen, hcontent]
      simp
  · exact h.of_same (Function.update_of_ne hj ..) rfl rfl (if_neg (fun hc => hj hc.1.symm))

theorem flush_fd (s : StreamServer m cap) (ci j : Nat) : ((s.flush ci).slots j).fd = (s.slots j).fd := by
  unfold StreamServer.flush
  split
  · rfl
  · generalize writeOut s.writes (s.slots ci).ring = r
    by_cases hj : j = ci
    · rw [hj, show (s.wroteOut ci r).slots ci = { s.slots ci with ring := r.2.2 } from Function.update_self ..]
    · rw [show (s.wroteOut ci r).slots j = s.slots j from Function.update_of_ne hj ..]

theorem Conserved.send (h : Conserved s j) (ci : Nat) (bytes : Bytes) : Conserved (s.send ci bytes).2 j := by
  unfold StreamServer.send
  split
  · exact h.refused ci bytes
  split
  · exact h.refused ci bytes
  rename_i hopen
  have hopen : 0 ≤ (s.slots ci).fd := Int.not_lt.1 hopen
  dsimp only
  split
  · rename_i hok
    exact h.queued hopen hok
  -- the ring was written out in between
  have hflushed := h.flush ci
  split
  · exact hflushed.refused ci bytes
  · rename_i hok
    have hok : (((s.flush ci).slots ci).ring.append bytes).1 = true := by simpa using hok
    exact hflushed.queued (by rw [flush_fd]; exact hopen) hok

theorem Conserved.freed {slot : Slot cap} (h : Conserved s j) (ci : Nat) (hfd : slot.fd < 0)
    (hempty : slot.ring.content = []) : Conserved ((s.setSlot ci slot).note (.closed ci)) j := by
  by_cases hj : j = ci
  · subst hj
    have hself : ((s.setSlot j slot).note (.closed j)).slots j = slot := Function.update_self ..
    have hclosed : ¬0 ≤ (((s.setSlot j slot).note (.closed j)).slots j).fd := by
      rw [hself]
      exact Int.not_le.2 hfd
    exact ⟨fun hopen => absurd hopen hclosed, h.addressed, fun hopen => absurd hopen hclosed, h.begun,
      fun _ => by rw [hself]; exact hempty⟩
  · exact h.of_same (Function.update_of_ne hj ..) rfl rfl rfl

theorem Conserved.closeSlot (h : Conserved s j) (ci : Nat) : Conserved (s.closeSlot ci) j :=
  (h.flush ci).freed ci (Int.negSucc_lt_zero 0) rfl

theorem Conserved.close (h : Conserved s j) (ci : Nat) : Conserved (s.close ci) j := by
  unfold StreamServer.close
  split
  · exact h
  split
  · exact h
  · exact h.closeSlot ci

theorem Conserved.occupy (h : Conserved s j) (ci : Nat) (fd : Int) : Conserved (s.occupy ci fd) j := by
  by_cases hj : j = ci
  · subst hj
    have hself : (s.occupy j fd).slots j = { fd := fd, dirty := false, ring := (s.slots j).ring.clear } :=
      Function.update_self ..
    have hholder : holder j (s.occupy j fd).record = some fd := if_pos rfl
    have hdeliveries : deliveries j (s.occupy j fd).record = [] := if_pos rfl
    have htaken : taken j (s.occupy j fd).record = [] := if_pos rfl
    refine ⟨fun _ => ?_, ?_, fun _ => ?_, ?_, fun _ => ?_⟩
    · rw [hholder, hself]
    · rw [hdeliveries]
      exact fun d hd => absurd hd List.not_mem_nil
    · rw [accepted, hdeliveries, htaken, hself]
      rfl
    · rw [accepted, hdeliveries, htaken]
      exact List.prefix_refl _
    · rw [hself]
      rfl
  · exact h.of_same (Function.update_of_ne hj ..) (if_neg (Ne.symm hj)) (if_neg (Ne.symm hj)) (if_neg (Ne.symm hj))

/-- A connection the broker refuses leaves an empty ring behind, as `conn_open` sends nothing. -/
theorem Conserved.turnAway (h : Conserved s j) (ci : Nat) (fd : Int) : Conserved ((s.occupy ci fd).vacate ci) j := by
  have hempty : ((s.occupy ci fd).slots ci).ring.content = [] := by
    rw [show (s.occupy ci fd).slots ci = _ from Function.update_self ..]
    rfl
  exact (h.occupy ci fd).freed ci (Int.negSucc_lt_zero 0) hempty

theorem Conserved.flushOne (h : Conserved s j) (ci : Nat) : Conserved (s.flushOne ci) j := by
  unfold StreamServer.flushOne
  split
  · refine Conserved.flush ?_ ci
    by_cases hj : j = ci
    · subst hj
      have hself : (s.setSlot j { s.slots j with dirty := false }).slots j = { s.slots j with dirty := false } :=
        Function.update_self ..
      refine ⟨?_, h.addressed, ?_, h.begun, ?_⟩
      · rw [hself]
        exact h.held
      · rw [hself]
        exact h.bytes
      · rw [hself]
        exact h.free
    · exact h.of_same (Function.update_of_ne hj ..) rfl rfl rfl
  · exact h

theorem Conserved.flushAll (h : Conserved s j) : Conserved s.flushAll j :=
  List.foldlRecOn (motive := fun s => Conserved s j) _ StreamServer.flushOne h (fun _ h ci _ => h.flushOne ci)

end

/-! ## Any interleaving, and a pass -/

/-- What the server does to its slots. -/
inductive Op
  | send (ci : Nat) (bytes : Bytes)
  | close (ci : Nat)
  /-- The mid-pass flush, and the one on POLLOUT. -/
  | flush (ci : Nat)
  /-- The end of a pass. -/
  | flushAll
  /-- A connection is accepted. -/
  | occupy (fd : Nat)
  /-- A connection is accepted, and the broker would not have it. -/
  | turnAway (fd : Nat)
  /-- EOF or a fatal error of `::read`. -/
  | hangUp (ci : Nat)
  /-- What `::send` is going to return. -/
  | kernel (writes : List Wrote)

def Op.apply (s : StreamServer m cap) : Op → StreamServer m cap
  | .send ci bytes => (s.send ci bytes).2
  | .close ci => s.close ci
  | .flush ci => s.flush ci
  | .flushAll => s.flushAll
  | .occupy fd => s.freeSlot.elim s (fun ci => s.occupy ci fd)
  | .turnAway fd => s.freeSlot.elim s (fun ci => (s.occupy ci fd).vacate ci)
  | .hangUp ci => s.closeSlot ci
  | .kernel writes => { s with writes := writes }

/-- **A fact about the slots that every operation keeps.** -/
structure Kept (I : StreamServer m cap → Prop) : Prop where
  op : ∀ s (one : Op), I s → I (one.apply s)
  /-- It is about the slots and what is on the record of them. -/
  apart : ∀ {s t}, I s → t.slots = s.slots → t.record = s.record → I t
  applied : ∀ s ci occupant, I s → I (s.note (.applied ci occupant))

theorem conserved_kept (ci : Nat) : Kept (fun s : StreamServer m cap => Conserved s ci) where
  op s one h := by
    cases one with
    | send j bytes => exact h.send j bytes
    | close j => exact h.close j
    | flush j => exact h.flush j
    | flushAll => exact h.flushAll
    | occupy fd =>
      change Conserved (s.freeSlot.elim s (fun j => s.occupy j fd)) ci
      cases s.freeSlot with
      | none => exact h
      | some j => exact h.occupy j fd
    | turnAway fd =>
      change Conserved (s.freeSlot.elim s (fun j => (s.occupy j fd).vacate j)) ci
      cases s.freeSlot with
      | none => exact h
      | some j => exact h.turnAway j fd
    | hangUp j => exact h.closeSlot j
    | kernel writes => exact h.of_same rfl rfl rfl rfl
  apart h hslots hrecord := h.of_same (by rw [hslots]) (by rw [hrecord]) (by rw [hrecord]) (by rw [hrecord])
  applied s j occupant h := h.of_same rfl rfl rfl rfl

section
variable {I : StreamServer m cap → Prop} {P : Params Ctx} {x : System Ctx (StreamServer m cap)}

/-- The broker's calls are `send`s and `close`s. -/
theorem Kept.moved (hI : Kept I) (h : I x.transport) (σ : Broker Ctx) : I (x.moved policy σ).transport :=
  Transport.after_inv policy I (fun s ci pkt => hI.op s (.send ci pkt)) (fun s ci => hI.op s (.close ci)) h _

theorem Kept.takeIn (hI : Kept I) (h : I x.transport) {now ci fd : Nat} (hfree : x.transport.freeSlot = some ci) :
    I (takeIn P now ci fd x).transport := by
  have hcall := connOpen_transport policy P ci now (x.onTransport (occupy ci fd))
  unfold StreamServer.takeIn
  dsimp only
  generalize (x.onTransport (occupy ci fd)).connOpen policy P ci now = r at hcall ⊢
  have hcall : r.2.transport = x.transport.occupy ci fd := hcall
  split
  · change I (r.2.transport.vacate ci)
    have hone := hI.op x.transport (.turnAway fd) h
    rw [Op.apply, hfree] at hone
    rw [hcall]
    exact hone
  · have hone := hI.op x.transport (.occupy fd) h
    rw [Op.apply, hfree] at hone
    rw [hcall]
    exact hone

theorem Kept.acceptLoop (hI : Kept I) (now : Nat) : ∀ (attempts : Nat) {x : System Ctx (StreamServer m cap)},
    I x.transport → I (acceptLoop P now attempts x).transport
  | 0, _, h => h
  | attempts + 1, x, h => by
    unfold StreamServer.acceptLoop
    split
    · exact h
    rename_i answer accepts _
    have h : I (x.onTransport (fun s => { s with accepts := accepts })).transport := hI.apart h rfl rfl
    dsimp only
    generalize x.onTransport (fun s => { s with accepts := accepts }) = x at h ⊢
    cases answer with
    | interrupted => exact hI.acceptLoop now attempts h
    | again => exact h
    | failed => exact hI.apart (t := x.transport.backOff now) h (by simp only [backOff]) (by simp only [backOff])
    | conn fd nonblocking =>
      dsimp only
      split
      · exact hI.acceptLoop now attempts h
      rename_i ci hfree
      split
      · exact hI.acceptLoop now attempts h
      · exact hI.acceptLoop now attempts (hI.takeIn h hfree)

theorem Kept.readIntoBroker (hI : Kept I) (ci now : Nat) : ∀ (left : Nat) {x : System Ctx (StreamServer m cap)},
    I x.transport → I (readIntoBroker P ci now left x).transport
  | 0, _, h => h
  | left + 1, x, h => by
    unfold StreamServer.readIntoBroker
    split
    · exact h
    split
    · exact h
    rename_i got reads _
    have h : I (x.onTransport (fun s => { s with reads := reads })).transport := hI.apart h rfl rfl
    dsimp only
    generalize x.onTransport (fun s => { s with reads := reads }) = x at h ⊢
    have hhang : I (hangUp P ci x).transport := hI.moved (x := x.onTransport (closeSlot ci)) (hI.op _ (.hangUp ci) h) _
    cases got with
    | data bytes =>
      dsimp only
      split
      · exact hhang
      · exact hI.readIntoBroker ci now left (hI.moved h _)
    | again => exact h
    | interrupted => exact hI.readIntoBroker ci now left h
    | failed => exact hhang

theorem Kept.serveOne (hI : Kept I) (now : Nat) (p : Pollfd) (h : I x.transport) :
    I (serveOne P now x p).transport := by
  unfold StreamServer.serveOne
  split
  · exact h
  split
  · exact hI.acceptLoop now m (hI.apart h rfl rfl)
  split
  · exact h
  have h : I (x.onTransport (note (.applied p.slotOf p.occupant))).transport := hI.applied _ _ _ h
  dsimp only
  generalize x.onTransport (note (.applied p.slotOf p.occupant)) = x at h ⊢
  have h : I (if p.revents.out then x.onTransport (StreamServer.flush p.slotOf) else x).transport := by
    split
    · exact hI.op _ (.flush p.slotOf) h
    · exact h
  split
  · exact hI.readIntoBroker p.slotOf now _ h
  · exact h

/-- **It is kept by a whole pass**, whatever the kernel answers and the broker does. -/
theorem Kept.pollOnce (hI : Kept I) (k : Pass) (h : I x.transport) : I (pollOnce P k x).2.transport := by
  have h : I (x.onTransport (scripted k)).transport := hI.apart h rfl rfl
  unfold StreamServer.pollOnce
  dsimp only
  generalize x.onTransport (scripted k) = x at h ⊢
  split
  · exact hI.op _ .flushAll (hI.moved h _)
  · refine hI.op _ .flushAll (hI.moved ?_ _)
    exact List.foldlRecOn (motive := fun x => I x.transport) _ (StreamServer.serveOne P k.now) h
      (fun _ h p _ => hI.serveOne k.now p h)

theorem Kept.step (hI : Kept I) (one : Step) (h : I x.transport) : I (step P x one).transport := by
  cases one with
  | listen fd => exact hI.apart h rfl rfl
  | pollOnce k => exact hI.pollOnce k h
  | publish topic payload qos retain writes =>
    exact hI.moved (x := x.onTransport (fun s => { s with writes := writes })) (hI.apart h rfl rfl) _

theorem Kept.run (hI : Kept I) (P : Params Ctx) (steps : List Step) (h : I ({} : StreamServer m cap)) :
    I (run m cap P steps).transport :=
  List.foldlRecOn (motive := fun x => I x.transport) steps (StreamServer.step P) h (fun _ h one _ => hI.step one h)

end

theorem conserved_start (ci : Nat) : Conserved ({} : StreamServer m cap) ci where
  held hopen := by cases hopen
  addressed d hd := absurd hd List.not_mem_nil
  bytes hopen := by cases hopen
  begun := List.prefix_refl _
  free _ := rfl

/-- The span is put on record with the answer `send` gives, after what was written of the ring in between. -/
theorem send_record (s : StreamServer m cap) (ci : Nat) (bytes : Bytes) : ∃ s' : StreamServer m cap,
    (s' = s ∨ s' = s.flush ci) ∧ (s.send ci bytes).2.record = .span ci bytes (s.send ci bytes).1 :: s'.record := by
  unfold send
  split
  · exact ⟨s, .inl rfl, rfl⟩
  split
  · exact ⟨s, .inl rfl, rfl⟩
  dsimp only
  split
  · exact ⟨s, .inl rfl, rfl⟩
  · split <;> exact ⟨s.flush ci, .inr rfl, rfl⟩

/-- **The kernel gets the spans that were taken, and nothing else**, over every interleaving of what the server does to
its slots, and over every run of passes with the broker; and the spans taken are those `send` said it took. -/
theorem bytes_conserved (m cap : Nat) (ops : List Op) (P : Params Ctx) (steps : List Step) (ci : Nat) :
    Conserved (ops.foldl Op.apply ({} : StreamServer m cap)) ci ∧ Conserved (run m cap P steps).transport ci ∧
      ∀ (s : StreamServer m cap) bytes, ∃ s' : StreamServer m cap, (s' = s ∨ s' = s.flush ci) ∧
        (s.send ci bytes).2.record = .span ci bytes (s.send ci bytes).1 :: s'.record := by
  have hkept : Kept (fun s : StreamServer m cap => Conserved s ci) := conserved_kept ci
  refine ⟨?_, hkept.run P steps (conserved_start ci), fun s => send_record s ci⟩
  exact List.foldlRecOn (motive := fun s => Conserved s ci) ops Op.apply (conserved_start ci)
    (fun s h one _ => hkept.op s one h)

/-- On a ring of four: the kernel takes two bytes of a full ring mid-pass, and the span that still does not fit is
refused. -/
def squeeze : List Op :=
  [.occupy 7, .kernel [.took 2, .failed], .send 0 [1, 2, 3], .send 0 [4, 5, 6], .send 0 [7, 8, 9]]

/-- The slot is closed and given to somebody else. -/
def reuse : List Op := [.close 0, .occupy 7, .send 0 [10], .kernel [.took 9], .flushAll]

example : accepted 0 (squeeze.foldl Op.apply ({} : StreamServer 1 4)).record = [1, 2] ∧
    ((squeeze.foldl Op.apply ({} : StreamServer 1 4)).slots 0).ring.content = [3, 4, 5, 6] ∧
    taken 0 (squeeze.foldl Op.apply ({} : StreamServer 1 4)).record = [[1, 2, 3], [4, 5, 6]] := by decide

example : accepted 0 ((squeeze ++ reuse).foldl Op.apply ({} : StreamServer 1 4)).record = [10] := by decide

end StreamServer

end Minimosq
