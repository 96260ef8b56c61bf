import Minimosq.Conservation
/-!
# Slots and connections of the stream server

At the end of every pass a slot holds a descriptor exactly when the broker's connection of that index is active.  The
broker closes slots from inside the calls made for others, and `accept` fills free ones, all over one array of events
that `poll` collected before: no event is applied to a slot that has come to have another occupant.  It is the order of
the pass that sees to this, not the comparison of descriptors, which the kernel reuses: the listener is the first entry,
and once it has been served no slot is filled any more (`Wanes`).
-/
namespace Minimosq

variable {Ctx : Type} {m cap : Nat}

namespace StreamServer

/-! ## What becomes of a slot -/

/-- Every event on the record was applied to the occupant it was collected for. -/
def Apt : List SlotNote → Prop
  | [] => True
  | .applied ci who :: older => who = occupant ci older ∧ Apt older
  | .occupied _ _ :: older | .wrote _ _ _ :: older | .span _ _ _ :: older | .closed _ :: older => Apt older

theorem Apt.applied {ci who : Nat} {older : List SlotNote} : ∀ {record : List SlotNote}, Apt record →
    (.applied ci who :: older) <:+ record → who = occupant ci older
  | [], _, hsuffix => absurd (List.suffix_nil.1 hsuffix) (List.cons_ne_nil _ _)
  | a :: record, h, hsuffix => by
    rcases List.suffix_cons_iff.1 hsuffix with he | hsuffix
    · obtain ⟨rfl, rfl⟩ := List.cons.inj he
      exact h.1
    · have hrest : Apt record := by
        cases a with
        | applied _ _ => exact h.2
        | _ => exact h
      exact hrest.applied hsuffix

/-- **No slot is filled**: each keeps its descriptor or loses it. -/
structure Wanes (s s' : StreamServer m cap) : Prop where
  fd : ∀ j, (s'.slots j).fd = (s.slots j).fd ∨ (s'.slots j).fd < 0
  occupant : ∀ j, occupant j s'.record = occupant j s.record
  apt : Apt s.record → Apt s'.record

/-- **No slot in use is touched.** -/
structure Fills (s s' : StreamServer m cap) : Prop where
  fd : ∀ j, 0 ≤ (s.slots j).fd → (s'.slots j).fd = (s.slots j).fd ∧ occupant j s'.record = occupant j s.record
  apt : Apt s.record → Apt s'.record

section
variable {s s' s'' : StreamServer m cap}

theorem Wanes.trans (h : Wanes s s') (h' : Wanes s' s'') : Wanes s s'' where
  fd j := by
    rcases h'.fd j with he | hfree
    · rw [he]
      exact h.fd j
    · exact .inr hfree
  occupant j := (h'.occupant j).trans (h.occupant j)
  apt hapt := h'.apt (h.apt hapt)

theorem Fills.trans (h : Fills s s') (h' : Fills s' s'') : Fills s s'' where
  fd j hopen := by
    obtain ⟨hfd, hocc⟩ := h.fd j hopen
    obtain ⟨hfd', hocc'⟩ := h'.fd j (by rw [hfd]; exact hopen)
    exact ⟨hfd'.trans hfd, hocc'.trans hocc⟩
  apt hapt := h'.apt (h.apt hapt)

theorem Wanes.of_apart (hslots : s'.slots = s.slots) (hrecord : s'.record = s.record) : Wanes s s' :=
  ⟨fun j => .inl (by rw [hslots]), fun j => by rw [hrecord], fun h => by rw [hrecord]; exact h⟩

theorem Fills.of_apart (hslots : s'.slots = s.slots) (hrecord : s'.record = s.record) : Fills s s' :=
  ⟨fun j _ => ⟨by rw [hslots], by rw [hrecord]⟩, fun h => by rw [hrecord]; exact h⟩

theorem Wanes.refl (s : StreamServer m cap) : Wanes s s := .of_apart rfl rfl

theorem flush_wanes (s : StreamServer m cap) (ci : Nat) : Wanes s (s.flush ci) := by
  refine ⟨fun j => .inl (flush_fd s ci j), fun j => ?_, fun h => ?_⟩
  · unfold flush
    split
    · rfl
    · exact List.countP_cons_of_neg (by simp [occupies])
  · unfold flush
    split
    · exact h
    · exact h

theorem setSlot_wanes (s : StreamServer m cap) (ci : Nat) {slot : Slot cap}
    (hfd : slot.fd = (s.slots ci).fd ∨ slot.fd < 0) : Wanes s (s.setSlot ci slot) := by
  refine ⟨fun j => ?_, fun _ => rfl, id⟩
  by_cases hj : j = ci
  · rw [hj, show (s.setSlot ci slot).slots ci = slot from Function.update_self ..]
    exact hfd
  · rw [show (s.setSlot ci slot).slots j = s.slots j from Function.update_of_ne hj ..]
    exact .inl rfl

theorem span_wanes (s : StreamServer m cap) (ci : Nat) (bytes : Bytes) (ok : Bool) :
    Wanes s (s.note (.span ci bytes ok)) :=
  ⟨fun _ => .inl rfl, fun _ => List.countP_cons_of_neg (by simp [occupies]), id⟩

theorem closed_wanes (s : StreamServer m cap) (ci : Nat) : Wanes s (s.note (.closed ci)) :=
  ⟨fun _ => .inl rfl, fun _ => List.countP_cons_of_neg (by simp [occupies]), id⟩

theorem queued_wanes (s : StreamServer m cap) (ci : Nat) (ring : OutRing cap) : Wanes s (s.queued ci ring) :=
  setSlot_wanes s ci (.inl rfl)

theorem send_wanes (s : StreamServer m cap) (ci : Nat) (bytes : Bytes) : Wanes s (s.send ci bytes).2 := by
  unfold send
  split
  · exact span_wanes ..
  split
  · exact span_wanes ..
  dsimp only
  split
  · exact (queued_wanes s ci _).trans (span_wanes ..)
  split
  · exact (flush_wanes s ci).trans (span_wanes ..)
  · exact (flush_wanes s ci).trans ((queued_wanes (s.flush ci) ci _).trans (span_wanes ..))

theorem closeSlot_wanes (s : StreamServer m cap) (ci : Nat) : Wanes s (s.closeSlot ci) :=
  (flush_wanes s ci).trans ((setSlot_wanes (s.flush ci) ci (.inr (Int.negSucc_lt_zero 0))).trans (closed_wanes ..))

theorem close_wanes (s : StreamServer m cap) (ci : Nat) : Wanes s (s.close ci) := by
  unfold close
  split
  · exact .refl s
  split
  · exact .refl s
  · exact closeSlot_wanes s ci

theorem flushOne_wanes (s : StreamServer m cap) (ci : Nat) : Wanes s (s.flushOne ci) := by
  unfold flushOne
  split
  · have hclean : Wanes s (s.setSlot ci { s.slots ci with dirty := false }) := setSlot_wanes s ci (.inl rfl)
    exact hclean.trans (flush_wanes ..)
  · exact .refl s

theorem flushAll_wanes (s : StreamServer m cap) : Wanes s s.flushAll :=
  List.foldlRecOn (motive := fun s' => Wanes s s') _ flushOne (.refl s)
    (fun s' h ci _ => h.trans (flushOne_wanes s' ci))

theorem after_wanes (s : StreamServer m cap) (acts : Trace Ctx) : Wanes s (policy.after s acts) :=
  Transport.after_inv policy (fun s' => Wanes s s') (fun s' ci pkt h => h.trans (send_wanes s' ci pkt))
    (fun s' ci h => h.trans (close_wanes s' ci)) (.refl s) acts

end

/-! ## Slots and connections -/

/-- Whether slot `j` holds a descriptor. -/
def opn (s : StreamServer m cap) (j : Nat) : Bool := decide (0 ≤ (s.slots j).fd)

theorem queued_fd (s : StreamServer m cap) (ci : Nat) (ring : OutRing cap) (j : Nat) :
    ((s.queued ci ring).slots j).fd = (s.slots j).fd := by
  by_cases hj : j = ci
  · rw [hj, show (s.queued ci ring).slots ci = { s.slots ci with ring := ring, dirty := true } from
      Function.update_self ..]
  · rw [show (s.queued ci ring).slots j = s.slots j from Function.update_of_ne hj ..]

theorem send_fd (s : StreamServer m cap) (ci : Nat) (bytes : Bytes) (j : Nat) :
    ((s.send ci bytes).2.slots j).fd = (s.slots j).fd := by
  unfold send
  split
  · rfl
  split
  · rfl
  dsimp only
  split
  · exact queued_fd ..
  split
  · exact flush_fd ..
  · exact (queued_fd ..).trans (flush_fd ..)

theorem flushOne_fd (s : StreamServer m cap) (ci j : Nat) : ((s.flushOne ci).slots j).fd = (s.slots j).fd := by
  unfold flushOne
  split
  · rw [flush_fd]
    by_cases hj : j = ci
    · rw [hj, show (s.setSlot ci { s.slots ci with dirty := false }).slots ci = { s.slots ci with dirty := false } from
        Function.update_self ..]
    · rw [show (s.setSlot ci { s.slots ci with dirty := false }).slots j = s.slots j from Function.update_of_ne hj ..]
  · rfl

theorem flushAll_fd (s : StreamServer m cap) (j : Nat) : (s.flushAll.slots j).fd = (s.slots j).fd := by
  unfold flushAll
  exact List.foldlRecOn (motive := fun s' : StreamServer m cap => (s'.slots j).fd = (s.slots j).fd) _ flushOne rfl
    (fun s' h ci _ => (flushOne_fd s' ci j).trans h)

theorem opn_closeSlot (s : StreamServer m cap) (ci j : Nat) : (s.closeSlot ci).opn j = (s.opn j && j != ci) := by
  by_cases hj : j = ci
  · have hslot : (s.closeSlot ci).slots ci =
        { fd := -1, dirty := false, ring := ((s.flush ci).slots ci).ring.clear } := Function.update_self ..
    rw [hj, opn, hslot]
    simp
  · have hslot : (s.closeSlot ci).slots j = (s.flush ci).slots j := Function.update_of_ne hj ..
    rw [opn, hslot, flush_fd, opn]
    simp [hj]

theorem gate : Gate (policy : Transport (StreamServer m cap)) m opn where
  send s ci pkt j := by
    rw [opn, show ((policy.send s ci pkt).2.slots j).fd = (s.slots j).fd from send_fd s ci pkt j, opn]
  close s ci j hci := by
    change (s.close ci).opn j = _
    unfold close
    rw [if_neg (Nat.not_le.2 hci)]
    split
    · rename_i hfree
      by_cases hj : j = ci
      · simp [hj, opn, Int.not_le.2 hfree]
      · simp [hj]
    · exact opn_closeSlot s ci j

/-- **Slot `j` holds a descriptor exactly when connection `j` is active.** -/
structure Agrees (P : Params Ctx) (x : System Ctx (StreamServer m cap)) : Prop where
  steady : Steady P x.broker
  active : ∀ j, (x.broker.conns j).active = x.transport.opn j

section
variable {P : Params Ctx} {x : System Ctx (StreamServer m cap)}

theorem Agrees.of_fds (h : Agrees P x) {f : StreamServer m cap → StreamServer m cap}
    (hf : ∀ j, ((f x.transport).slots j).fd = (x.transport.slots j).fd) : Agrees P (x.onTransport f) where
  steady := h.steady
  active j := by
    change _ = opn (f x.transport) j
    rw [opn, hf]
    exact h.active j

theorem Agrees.moved (h : Agrees P x) (hfits : P.T.maxConnections ≤ m) {σ : Broker Ctx}
    (hcall : Steady P σ ∧ Ends (fun _ => False) (actsSince x.broker σ) x.broker σ) : Agrees P (x.moved policy σ) where
  steady := hcall.1
  active j := (gate.ends hfits h.steady hcall.2 x.transport id (fun ho => by rw [h.active j, ho])).2 (h.active j)

theorem Agrees.hangUp (h : Agrees P x) (hfits : P.T.maxConnections ≤ m) (ci : Nat) : Agrees P (hangUp P ci x) := by
  obtain ⟨hsteady, hgone, hends⟩ := connClosed_steady (v := policy.verdict (x.transport.closeSlot ci)
    x.broker.trace.length) h.steady ci
  refine ⟨hsteady, fun j => ?_⟩
  have hlt : ∀ i, (actsSince x.broker (x.broker.connClosed (P.over policy (x.transport.closeSlot ci) x.broker) ci)).any
      (Act.closes i) = true → i < m :=
    fun i hi => Nat.lt_of_lt_of_le (h.steady.sound.linked.active_lt i (hends.was i hi)) hfits
  have hafter := gate.after (x.transport.closeSlot ci) j _ hlt
  by_cases hj : j = ci
  · rw [hj] at hafter ⊢
    refine hgone.trans (Eq.symm (hafter.trans ?_))
    rw [opn_closeSlot]
    simp
  · have hwas : (x.broker.conns j).active = (x.transport.closeSlot ci).opn j := by
      rw [h.active j, opn_closeSlot]
      simp [hj]
    exact (gate.ends hfits h.steady hends (x.transport.closeSlot ci) hj (fun ho => by rw [hwas, ho])).2 hwas

theorem freeSlot_some {s : StreamServer m cap} {ci : Nat} (h : s.freeSlot = some ci) :
    ci < m ∧ (s.slots ci).fd < 0 := by
  refine ⟨List.mem_range.1 (List.mem_of_find?_eq_some h), ?_⟩
  simpa using List.find?_some h

theorem opn_occupy (s : StreamServer m cap) (ci fd j : Nat) : (s.occupy ci fd).opn j = (s.opn j || j == ci) := by
  by_cases hj : j = ci
  · rw [hj, opn, show (s.occupy ci fd).slots ci = { fd := fd, dirty := false, ring := (s.slots ci).ring.clear } from
      Function.update_self ..]
    simp
  · rw [opn, show (s.occupy ci fd).slots j = s.slots j from Function.update_of_ne hj .., opn]
    simp [hj]

theorem opn_vacate (s : StreamServer m cap) (ci j : Nat) : (s.vacate ci).opn j = (s.opn j && j != ci) := by
  by_cases hj : j = ci
  · rw [hj, opn, show (s.vacate ci).slots ci = { s.slots ci with fd := -1 } from Function.update_self ..]
    simp
  · rw [opn, show (s.vacate ci).slots j = s.slots j from Function.update_of_ne hj .., opn]
    simp [hj]

/-- **A free slot is taken**: the broker has the connection, or its table ends before the slot, which is free again. -/
theorem Agrees.takeIn (h : Agrees P x) (now fd : Nat) {ci : Nat} (hfree : (x.transport.slots ci).fd < 0) :
    Agrees P (takeIn P now ci fd x) := by
  have hclosed : x.transport.opn ci = false := decide_eq_false (Int.not_le.2 hfree)
  have hoff : (x.broker.conns ci).active = false := (h.active ci).trans hclosed
  have hstate := connOpen_transport policy P ci now (x.onTransport (occupy ci fd))
  obtain ⟨hsteady, hok, hactive, -⟩ := connOpen_steady (S := StreamServer m cap)
    (v := policy.verdict (x.transport.occupy ci fd) x.broker.trace.length) h.steady ci now
  unfold StreamServer.takeIn
  dsimp only
  change ((x.onTransport (occupy ci fd)).connOpen policy P ci now).1 = .ok ↔ _ at hok
  generalize hr : (x.onTransport (occupy ci fd)).connOpen policy P ci now = r at hstate hok ⊢
  have hbroker : r.2.broker = (x.broker.connOpen (P.over policy (x.transport.occupy ci fd) x.broker) ci now).2 := by
    rw [← hr]
    rfl
  have hactive : ∀ j, (r.2.broker.conns j).active =
      ((x.broker.conns j).active || decide (j = ci ∧ ci < P.T.maxConnections)) := fun j => hbroker ▸ hactive j
  have hsteady : Steady P r.2.broker := hbroker ▸ hsteady
  have hstate : r.2.transport = x.transport.occupy ci fd := hstate
  split
  · rename_i hrefused
    have hbeyond : ¬ci < P.T.maxConnections := fun hlt => by
      rw [hok.2 ⟨hlt, hoff⟩] at hrefused
      simp at hrefused
    refine ⟨hsteady, fun j => ?_⟩
    change (r.2.broker.conns j).active = (r.2.transport.vacate ci).opn j
    rw [hactive, opn_vacate, hstate, opn_occupy, h.active]
    by_cases hj : j = ci
    · simp [hj, hbeyond, hclosed]
    · have hne : (j != ci) = true := by simpa using hj
      simp [hj, hne]
  · rename_i hopened
    have hlt : ci < P.T.maxConnections := (hok.1 (by simpa using hopened)).1
    refine ⟨hsteady, fun j => ?_⟩
    rw [hactive, hstate, opn_occupy, h.active]
    by_cases hj : j = ci
    · simp [hj, hlt]
    · simp [hj]

/-- Only the slot that was free is touched. -/
theorem takeIn_fills (P : Params Ctx) (x : System Ctx (StreamServer m cap)) (now : Nat) {ci : Nat} (fd : Nat)
    (hfree : (x.transport.slots ci).fd < 0) : Fills x.transport (takeIn P now ci fd x).transport := by
  have hstate := connOpen_transport policy P ci now (x.onTransport (occupy ci fd))
  unfold StreamServer.takeIn
  dsimp only
  generalize (x.onTransport (occupy ci fd)).connOpen policy P ci now = r at hstate ⊢
  have hstate : r.2.transport = x.transport.occupy ci fd := hstate
  have hne : ∀ j, 0 ≤ (x.transport.slots j).fd → j ≠ ci := fun j hopen hj => by
    rw [hj] at hopen
    exact absurd hopen (Int.not_le.2 hfree)
  have hoccupy : Fills x.transport (x.transport.occupy ci fd) := by
    refine ⟨fun j hopen => ⟨?_, ?_⟩, id⟩
    · rw [show (x.transport.occupy ci fd).slots j = x.transport.slots j from Function.update_of_ne (hne j hopen) ..]
    · exact List.countP_cons_of_neg (by simpa [occupies] using (hne j hopen).symm)
  split
  · change Fills x.transport (r.2.transport.vacate ci)
    rw [hstate]
    refine ⟨fun j hopen => ⟨?_, ?_⟩, hoccupy.apt⟩
    · rw [show ((x.transport.occupy ci fd).vacate ci).slots j = (x.transport.occupy ci fd).slots j from
        Function.update_of_ne (hne j hopen) ..]
      exact (hoccupy.fd j hopen).1
    · exact (List.countP_cons_of_neg (by simp [occupies])).trans (hoccupy.fd j hopen).2
  · rw [hstate]
    exact hoccupy

/-! ## The loops -/

theorem Agrees.acceptLoop (now : Nat) : ∀ (attempts : Nat) {x : System Ctx (StreamServer m cap)}, Agrees P x →
    Agrees P (acceptLoop P now attempts x) ∧ Fills x.transport (acceptLoop P now attempts x).transport
  | 0, _, h => ⟨h, .of_apart rfl rfl⟩
  | attempts + 1, x, h => by
    unfold StreamServer.acceptLoop
    split
    · exact ⟨h, .of_apart rfl rfl⟩
    rename_i answer accepts _
    have h₁ : Agrees P (x.onTransport (fun s => { s with accepts := accepts })) := h.of_fds (fun _ => rfl)
    have hsame : Fills x.transport (x.onTransport (fun s => { s with accepts := accepts })).transport :=
      .of_apart rfl rfl
    dsimp only
    generalize x.onTransport (fun s => { s with accepts := accepts }) = x₁ at h₁ hsame ⊢
    have hnext := Agrees.acceptLoop now attempts h₁
    cases answer with
    | interrupted => exact ⟨hnext.1, hsame.trans hnext.2⟩
    | again => exact ⟨h₁, hsame⟩
    | failed =>
      have hslots : (x₁.transport.backOff now).slots = x₁.transport.slots := by simp only [backOff]
      have hrecord : (x₁.transport.backOff now).record = x₁.transport.record := by simp only [backOff]
      exact ⟨h₁.of_fds (f := backOff now) (fun j => by rw [hslots]), hsame.trans (.of_apart hslots hrecord)⟩
    | conn fd nonblocking =>
      dsimp only
      split
      · exact ⟨hnext.1, hsame.trans hnext.2⟩
      rename_i ci hfree
      have hfree := (freeSlot_some hfree).2
      split
      · exact ⟨hnext.1, hsame.trans hnext.2⟩
      · have hrest := Agrees.acceptLoop now attempts (h₁.takeIn now fd hfree)
        exact ⟨hrest.1, hsame.trans ((takeIn_fills P x₁ now fd hfree).trans hrest.2)⟩

theorem Agrees.acceptNew (h : Agrees P x) (now : Nat) :
    Agrees P (acceptNew P now x) ∧ Fills x.transport (acceptNew P now x).transport := by
  have h₁ : Agrees P (x.onTransport (fun s => { s with acceptBackoffArmed := false })) := h.of_fds (fun _ => rfl)
  have hloop := h₁.acceptLoop now m
  have hsame : Fills x.transport (x.onTransport (fun s => { s with acceptBackoffArmed := false })).transport :=
    .of_apart rfl rfl
  exact ⟨hloop.1, hsame.trans hloop.2⟩

theorem hangUp_wanes (P : Params Ctx) (ci : Nat) (x : System Ctx (StreamServer m cap)) :
    Wanes x.transport (hangUp P ci x).transport := (closeSlot_wanes x.transport ci).trans (after_wanes ..)

theorem Agrees.readIntoBroker (hfits : P.T.maxConnections ≤ m) (ci now : Nat) : ∀ (left : Nat)
    {x : System Ctx (StreamServer m cap)}, Agrees P x →
    Agrees P (readIntoBroker P ci now left x) ∧ Wanes x.transport (readIntoBroker P ci now left x).transport
  | 0, x, h => ⟨h, .refl x.transport⟩
  | left + 1, x, h => by
    unfold StreamServer.readIntoBroker
    split
    · exact ⟨h, .refl x.transport⟩
    split
    · exact ⟨h, .refl x.transport⟩
    rename_i got reads _
    have h₁ : Agrees P (x.onTransport (fun s => { s with reads := reads })) := h.of_fds (fun _ => rfl)
    have hsame : Wanes x.transport (x.onTransport (fun s => { s with reads := reads })).transport := .of_apart rfl rfl
    dsimp only
    generalize x.onTransport (fun s => { s with reads := reads }) = x₁ at h₁ hsame ⊢
    have hhang : Agrees P (StreamServer.hangUp P ci x₁) ∧ Wanes x.transport (StreamServer.hangUp P ci x₁).transport :=
      ⟨h₁.hangUp hfits ci, hsame.trans (hangUp_wanes P ci x₁)⟩
    cases got with
    | data bytes =>
      dsimp only
      split
      · exact hhang
      · have hcall := h₁.moved hfits (connData_steady (v := policy.verdict x₁.transport x₁.broker.trace.length)
          h₁.steady ci (bytes.take readSize) now)
        have hrest := Agrees.readIntoBroker hfits ci now left hcall
        exact ⟨hrest.1, hsame.trans ((after_wanes ..).trans hrest.2)⟩
    | again => exact ⟨h₁, hsame⟩
    | interrupted =>
      have hrest := Agrees.readIntoBroker hfits ci now left h₁
      exact ⟨hrest.1, hsame.trans hrest.2⟩
    | failed => exact hhang

/-- **The entries of slots that are still to be served**: where the slot has the descriptor of the entry, it has the
occupant too. -/
def Current (s : StreamServer m cap) (ps : List Pollfd) : Prop :=
  ∀ p ∈ ps, p.slotOf ≠ m ∧ 0 ≤ p.fd ∧ ((s.slots p.slotOf).fd = p.fd → occupant p.slotOf s.record = p.occupant)

theorem Current.wanes {s s' : StreamServer m cap} {ps : List Pollfd} (h : Current s ps) (hw : Wanes s s') :
    Current s' ps := by
  intro p hp
  obtain ⟨hne, hfd, hocc⟩ := h p hp
  refine ⟨hne, hfd, fun hsame => (hw.occupant _).trans (hocc ?_)⟩
  rcases hw.fd p.slotOf with he | hgone
  · exact he.symm.trans hsame
  · rw [hsame] at hgone
    exact absurd hfd (Int.not_le.2 hgone)

theorem Agrees.serveSlot (h : Agrees P x) (hfits : P.T.maxConnections ≤ m) (now : Nat) {p : Pollfd} {ps : List Pollfd}
    (hcurrent : Current x.transport (p :: ps)) (hapt : Apt x.transport.record) :
    Agrees P (serveOne P now x p) ∧ Current (serveOne P now x p).transport ps ∧
      Apt (serveOne P now x p).transport.record := by
  obtain ⟨⟨hne, hfd, hocc⟩, hrest⟩ := List.forall_mem_cons.1 hcurrent
  unfold StreamServer.serveOne
  split
  · exact ⟨h, hrest, hapt⟩
  split
  · exact ⟨h, hrest, hapt⟩
  rename_i hsame
  have hsame : (x.transport.slots p.slotOf).fd = p.fd := by simpa using hsame
  -- the note: the entry is applied to whom it was collected for
  have h₁ : Agrees P (x.onTransport (note (.applied p.slotOf p.occupant))) := h.of_fds (fun _ => rfl)
  have hapt₁ : Apt (x.transport.note (.applied p.slotOf p.occupant)).record := ⟨(hocc hsame).symm, hapt⟩
  have hrest₁ : Current (x.transport.note (.applied p.slotOf p.occupant)) ps := fun q hq => by
    obtain ⟨hne, hfd, hocc⟩ := hrest q hq
    exact ⟨hne, hfd, fun he => (List.countP_cons_of_neg (by simp [occupies])).trans (hocc he)⟩
  dsimp only
  change Apt (x.onTransport (note (.applied p.slotOf p.occupant))).transport.record at hapt₁
  change Current (x.onTransport (note (.applied p.slotOf p.occupant))).transport ps at hrest₁
  generalize x.onTransport (note (.applied p.slotOf p.occupant)) = x₁ at h₁ hapt₁ hrest₁ ⊢
  have h₂ : Agrees P (if p.revents.out then x₁.onTransport (flush p.slotOf) else x₁) := by
    split
    · exact h₁.of_fds (fun j => flush_fd ..)
    · exact h₁
  have hw : Wanes x₁.transport (if p.revents.out then x₁.onTransport (flush p.slotOf) else x₁).transport := by
    split
    · exact flush_wanes ..
    · exact .refl _
  generalize (if p.revents.out then x₁.onTransport (flush p.slotOf) else x₁) = x₂ at h₂ hw ⊢
  split
  · obtain ⟨h₃, hw'⟩ := h₂.readIntoBroker hfits p.slotOf now maxReadsPerPass
    exact ⟨h₃, hrest₁.wanes (hw.trans hw'), (hw.trans hw').apt hapt₁⟩
  · exact ⟨h₂, hrest₁.wanes hw, hw.apt hapt₁⟩

theorem Agrees.serveSlots (hfits : P.T.maxConnections ≤ m) (now : Nat) : ∀ (ps : List Pollfd)
    {x : System Ctx (StreamServer m cap)}, Agrees P x → Current x.transport ps → Apt x.transport.record →
    Agrees P (ps.foldl (serveOne P now) x) ∧ Apt (ps.foldl (serveOne P now) x).transport.record
  | [], _, h, _, hapt => ⟨h, hapt⟩
  | p :: ps, x, h, hcurrent, hapt => by
    obtain ⟨h', hcurrent', hapt'⟩ := h.serveSlot hfits now hcurrent hapt
    exact Agrees.serveSlots hfits now ps h' hcurrent' hapt'

/-! ## A pass -/

theorem Agrees.serveListener (h : Agrees P x) (now : Nat) {p : Pollfd} (hp : p.slotOf = m) :
    Agrees P (serveOne P now x p) ∧ Fills x.transport (serveOne P now x p).transport := by
  unfold StreamServer.serveOne
  split
  · exact ⟨h, .of_apart rfl rfl⟩
  · exact h.acceptNew now

/-- The entries collected for slots are current once the listener has been served. -/
theorem Fills.current {s s' : StreamServer m cap} (h : Fills s s') (revents : Nat → Revents) :
    Current s' (s.slotPfds.mapIdx (fun i p => { p with revents := revents i })) := by
  intro p hp
  obtain ⟨i, hi, rfl⟩ := List.mem_mapIdx.1 hp
  obtain ⟨ci, hci, hq⟩ := List.mem_map.1 (List.getElem_mem hi)
  obtain ⟨hlt, hopen⟩ := List.mem_filter.1 hci
  have hopen : 0 ≤ (s.slots ci).fd := by simpa using hopen
  rw [← hq]
  exact ⟨Nat.ne_of_lt (List.mem_range.1 hlt), hopen, fun _ => (h.fd ci hopen).2⟩

/-- **A pass keeps slots and connections together**, and applies no event to another occupant. -/
theorem Agrees.pollOnce (h : Agrees P x) (hfits : P.T.maxConnections ≤ m) (hapt : Apt x.transport.record) (k : Pass) :
    Agrees P (pollOnce P k x).2 ∧ Apt (pollOnce P k x).2.transport.record := by
  -- every pass ends with the tick and the flush
  have hend : ∀ {y : System Ctx (StreamServer m cap)}, Agrees P y → Apt y.transport.record →
      Agrees P ((y.tick policy P k.now).onTransport flushAll) ∧
        Apt ((y.tick policy P k.now).onTransport flushAll).transport.record := fun {y} hy hapt =>
    ⟨(hy.moved hfits (tick_steady (v := policy.verdict y.transport y.broker.trace.length) hy.steady k.now)).of_fds
      (fun j => flushAll_fd _ j), ((after_wanes ..).trans (flushAll_wanes _)).apt hapt⟩
  have h₁ : Agrees P (x.onTransport (scripted k)) := h.of_fds (fun _ => rfl)
  have hapt₁ : Apt (x.onTransport (scripted k)).transport.record := hapt
  unfold StreamServer.pollOnce
  dsimp only
  generalize x.onTransport (scripted k) = x₁ at h₁ hapt₁ ⊢
  split
  · exact hend h₁ hapt₁
  rw [pfds, List.mapIdx_append, List.foldl_append]
  split
  · obtain ⟨h₂, hfills⟩ := h₁.serveListener k.now
      (p := { (⟨x₁.transport.listenFd, m, 0, {}⟩ : Pollfd) with revents := k.revents 0 }) rfl
    obtain ⟨h₃, hapt₃⟩ := h₂.serveSlots hfits k.now _ (hfills.current _) (hfills.apt hapt₁)
    exact hend h₃ hapt₃
  · have hsame : Fills x₁.transport x₁.transport := .of_apart rfl rfl
    obtain ⟨h₃, hapt₃⟩ := h₁.serveSlots hfits k.now _ (hsame.current _) hapt₁
    exact hend h₃ hapt₃

theorem Agrees.step (h : Agrees P x) (hfits : P.T.maxConnections ≤ m) (hapt : Apt x.transport.record) (one : Step) :
    Agrees P (step P x one) ∧ Apt (step P x one).transport.record := by
  cases one with
  | listen fd => exact ⟨h.of_fds (f := fun s => { s.closeListener with listenFd := fd }) (fun _ => rfl), hapt⟩
  | pollOnce k => exact h.pollOnce hfits hapt k
  | publish topic payload qos retain writes =>
    have h₁ : Agrees P (x.onTransport (fun s => { s with writes := writes })) := h.of_fds (fun _ => rfl)
    refine ⟨h₁.moved hfits ?_, (after_wanes ..).apt hapt⟩
    exact publish_steady h.steady topic payload qos retain

theorem agrees_run (cap : Nat) (hfits : P.T.maxConnections ≤ m) (steps : List Step) :
    Agrees P (run m cap P steps) ∧ Apt (run m cap P steps).transport.record :=
  List.foldlRecOn (motive := fun x => Agrees P x ∧ Apt x.transport.record) steps (StreamServer.step P)
    ⟨⟨init_steady P, fun _ => rfl⟩, trivial⟩ (fun _ h one _ => h.1.step hfits h.2 one)

end

/-- **The server and the broker agree on the connections**: a pass ends with a descriptor in exactly the slots whose
connection is active, with the slots past the broker's table free, and no event was ever applied to another occupant of
its slot than the one it was collected for. -/
theorem slots_agree (m cap : Nat) (P : Params Ctx) (hfits : P.T.maxConnections ≤ m) (steps : List Step) (k : Pass) :
    (∀ ci, 0 ≤ ((pollOnce P k (run m cap P steps)).2.transport.slots ci).fd ↔
        ((pollOnce P k (run m cap P steps)).2.broker.conns ci).active = true) ∧
      (∀ ci, P.T.maxConnections ≤ ci → ((pollOnce P k (run m cap P steps)).2.transport.slots ci).fd < 0) ∧
      ∀ ci who older, (.applied ci who :: older) <:+ (pollOnce P k (run m cap P steps)).2.transport.record →
        who = occupant ci older := by
  obtain ⟨hagrees, hapt⟩ := agrees_run cap hfits steps
  obtain ⟨h, hapt⟩ := hagrees.pollOnce hfits hapt k
  generalize (pollOnce P k (run m cap P steps)).2 = x at h hapt
  have hiff : ∀ ci, 0 ≤ (x.transport.slots ci).fd ↔ (x.broker.conns ci).active = true := fun ci => by
    rw [h.active ci, opn, decide_eq_true_eq]
  refine ⟨hiff, fun ci hbeyond => ?_, fun ci who older => hapt.applied⟩
  refine Int.not_le.1 (fun hopen => ?_)
  exact absurd (h.steady.sound.linked.active_lt ci ((hiff ci).1 hopen)) (Nat.not_lt.2 hbeyond)

/-- Five clients come to a server of five slots, and a broker of four connections. -/
def crowd : List Step :=
  [.listen 3, .pollOnce ⟨0, 0, 1, fun _ => { ready := true }, [], [],
    [.conn 4 true, .conn 5 true, .conn 6 true, .conn 7 true, .conn 8 true]⟩]

/-- Everything is ready: another client comes, and the first one has gone. -/
def turnover : Pass := ⟨10, 10, 5, fun _ => { ready := true }, [], [.failed], [.conn 8 true]⟩

def turnedOver : System Unit (StreamServer 5 64) :=
  (pollOnce (bed fun _ _ _ => true) turnover (run 5 64 (bed fun _ _ _ => true) crowd)).2

theorem slots_agree_turnover : (bed fun _ _ _ => true).T.maxConnections ≤ 5 ∧
    .applied 0 1 ∈ turnedOver.transport.record ∧ (turnedOver.broker.conns 1).active = true ∧
    ¬(turnedOver.broker.conns 0).active = true := by
  have hagree : ∀ ci, 0 ≤ (turnedOver.transport.slots ci).fd ↔ (turnedOver.broker.conns ci).active = true := by
    unfold turnedOver
    exact (slots_agree 5 64 (bed fun _ _ _ => true) (by decide) crowd turnover).1
  refine ⟨by decide, by decide +kernel, (hagree 1).1 (by decide +kernel), fun h => ?_⟩
  exact absurd ((hagree 0).2 h) (by decide +kernel)

end StreamServer

end Minimosq
