import Minimosq.Pauses
/-!
# UNSUBSCRIBE

An UNSUBSCRIBE whose body is not a topic list of valid filters has no effect but to end its connection.  Any other takes
the subscriptions it lists out of the table and is answered with one UNSUBACK.  A filter removes the first subscription
that equals it, which is all of them, since no session of a state the broker passes through has a filter twice.
-/
namespace Minimosq

variable {Ctx : Type} {P : Params Ctx} {σ : Broker Ctx} {k ci : Nat} {s : Session Ctx} {body : Bytes}

/-! ## Removing from the table -/

/-- The filters of the table, in its order. -/
def filtersOf (subs : List Subscription) : List Bytes := subs.map (·.filter)

theorem filtersOf_eq (subs : List Subscription) : (table subs).map Prod.fst = filtersOf subs := by
  rw [table, List.map_map]
  rfl

/-- Where no filter stands twice, the first subscription to go is the only one. -/
theorem eraseP_eq_filter (f : Bytes) : ∀ {subs : List Subscription}, (filtersOf subs).Nodup →
    subs.eraseP (fun sub => sub.filter == f) = subs.filter (fun sub => sub.filter != f)
  | [], _ => rfl
  | sub :: subs, hnd => by
    rw [filtersOf, List.map_cons, List.nodup_cons] at hnd
    by_cases hf : sub.filter = f
    · have hothers : ∀ other ∈ subs, (other.filter != f) = true := by
        intro other hother
        rw [bne_iff_ne]
        rintro rfl
        exact hnd.1 (List.mem_map.2 ⟨other, hother, hf.symm⟩)
      rw [List.eraseP_cons_of_pos (by simpa using hf), List.filter_cons_of_neg (by simpa using hf),
        List.filter_eq_self.2 hothers]
    · rw [List.eraseP_cons_of_neg (by simpa using hf), List.filter_cons_of_pos (by simpa using hf),
        eraseP_eq_filter f hnd.2]

theorem unsubscribeAll_eq_filter : ∀ (filters : List Bytes) {subs : List Subscription}, (filtersOf subs).Nodup →
    unsubscribeAll subs filters = subs.filter (fun sub => !filters.contains sub.filter)
  | [], subs, _ => (List.filter_eq_self.2 (fun _ _ => rfl)).symm
  | f :: filters, subs, hnd => by
    have hrest : (filtersOf (subs.filter (fun sub => sub.filter != f))).Nodup :=
      hnd.sublist (List.filter_sublist.map _)
    have ih := unsubscribeAll_eq_filter filters hrest
    rw [unsubscribeAll, List.foldl_cons, eraseP_eq_filter f hnd, ← unsubscribeAll, ih, List.filter_filter]
    refine List.filter_congr (fun sub _ => ?_)
    rw [List.contains_cons, Bool.not_or, Bool.and_comm]
    rfl

/-! ## The packet -/

/-- The body lists `filters`: a packet id that is not zero, then valid filters, at least one. -/
structure Lists (body : Bytes) (id : Nat) (filters : List Bytes) : Prop where
  id_pos : id ≠ 0
  id_lt : id < 65536
  some_filter : filters ≠ []
  valid : ∀ f ∈ filters, topicFilterValid f = true
  eq : body = u16Bytes id ++ filters.flatMap field

theorem length_of_filterValid {f : Bytes} (h : topicFilterValid f = true) : f.length ≤ maxUtf8Len := by
  unfold topicFilterValid at h
  split at h
  · cases h
  rename_i hshape
  simp only [Bool.or_eq_true, decide_eq_true_eq, not_or] at hshape
  omega

theorem entryBytes_false : entryBytes false = fun e => field e.1 := funext (fun _ => List.append_nil _)

theorem Lists.topicList {id : Nat} {filters : List Bytes} (h : Lists body id filters) :
    IsTopicList false body id (filters.map (fun f => (f, .atMostOnce))) := by
  refine ⟨Nat.pos_of_ne_zero h.id_pos, h.id_lt, by simpa using h.some_filter, fun e he => ?_, ?_⟩
  · obtain ⟨f, hf, rfl⟩ := List.mem_map.1 he
    exact ⟨length_of_filterValid (h.valid f hf), fun _ => rfl⟩
  · rw [h.eq, List.flatMap_map, entryBytes_false]

theorem lists_of_topicList {id : Nat} {es : List (Bytes × QoS)} (h : IsTopicList false body id es)
    (hvalid : ∀ e ∈ es, topicFilterValid e.1 = true) : Lists body id (es.map Prod.fst) := by
  refine ⟨Nat.ne_of_gt h.id_pos, h.id_lt, by simpa using h.nonempty, fun f hf => ?_, ?_⟩
  · obtain ⟨e, he, rfl⟩ := List.mem_map.1 hf
    exact hvalid e he
  · rw [h.body, List.flatMap_map, entryBytes_false]

theorem handleUnsubscribe_invalid (hof : σ.sessionOf P (σ.conns ci) = some (k, s))
    (h : ∀ id filters, ¬ Lists body id filters) : ∃ err, σ.handleUnsubscribe P ci body = σ.violation P ci err := by
  rw [Broker.handleUnsubscribe, derefSession_of hof]
  dsimp only
  split
  · exact ⟨_, rfl⟩
  rename_i hvalid
  split
  · exact ⟨_, rfl⟩
  rename_i herr
  simp only [List.any_eq_true, not_exists, not_and, Bool.not_eq_true, Bool.not_eq_false'] at hvalid
  exact absurd (lists_of_topicList (TopicListParser.list_of_entries (by simpa using herr)) hvalid) (h _ _)

theorem handleUnsubscribe_valid (hσ : Amid P σ) (hof : σ.sessionOf P (σ.conns ci) = some (k, s)) {id : Nat}
    {filters : List Bytes} (h : Lists body id filters) : σ.handleUnsubscribe P ci body =
      ((σ.setSession k { s with subs := s.subs.filter (fun sub => !filters.contains sub.filter) }).emit
        (.unsubscribe k filters)).sendTo P none ci (buildPacketIdOnly P.T.outSize .unsuback id) := by
  obtain ⟨hes, herr, hid⟩ := TopicListParser.entries_of_list h.topicList
  have hfilters : (filters.map (fun f => (f, QoS.atMostOnce))).map Prod.fst = filters := by
    rw [List.map_map]
    exact List.map_id filters
  rw [Broker.handleUnsubscribe, derefSession_of hof]
  dsimp only
  rw [hes, hid, herr, if_neg (by simpa using h.valid), if_neg (by simp), hfilters]
  have hdistinct : (filtersOf s.subs).Nodup := by
    rw [← filtersOf_eq]
    exact hσ.distinct (hσ.sessionOf hof).1
  rw [unsubscribeAll_eq_filter filters hdistinct]

/-- In every run, the filters that an arriving UNSUBSCRIBE lists leave its session's table. -/
theorem Arrives.unsubscribes {a : Arrival Ctx} (h : Arrives P ci a)
    (hflags : fixedFlagsValid (packetType a.firstByte) (packetFlags a.firstByte) = true)
    (htype : packetType a.firstByte = some .unsubscribe) (hof : a.state.sessionOf P (a.state.conns ci) = some (k, s))
    {id : Nat} {filters : List Bytes} (hlists : Lists a.body id filters) :
    (a.state.onPacket P ci a.firstByte a.body).2.sessions.slot k =
      some { s with subs := s.subs.filter (fun sub => !filters.contains sub.filter) } := by
  obtain ⟨hσ, -, heq⟩ := amid_dispatch h hflags hof
  simp only [Broker.dispatch, htype] at heq
  rw [heq, handleUnsubscribe_valid hσ hof hlists, (sendTo_keeps ..).1]
  exact Function.update_self ..

/-- **An UNSUBSCRIBE is exact, and all or nothing**, in whatever state the broker passes through.  A body that does not
list valid filters leaves every session as it was, and nothing is sent before its connection is dead.  Any other leaves
in the table the subscriptions whose filter it does not list, as they were and in their order, and no other session is
touched; one UNSUBACK with its packet id is offered, and nothing else. -/
theorem handleUnsubscribe_exact (hσ : Amid P σ) (hup : (σ.conns ci).active = true ∧ (σ.conns ci).dead = false)
    (hof : σ.sessionOf P (σ.conns ci) = some (k, s)) : let σ' := σ.handleUnsubscribe P ci body
    ((∀ id filters, ¬ Lists body id filters) → σ'.sessions = σ.sessions ∧ (σ'.conns ci).dead = true ∧
      ∃ e : Event, σ'.trace = .dead ci :: .event e none :: σ.trace) ∧
    (∀ id filters, Lists body id filters → ∃ ok later,
      σ'.sessions.slot k = some { s with subs := s.subs.filter (fun sub => !filters.contains sub.filter) } ∧
      (∀ j, j ≠ k → σ'.sessions.slot j = σ.sessions.slot j) ∧
      readPacket (framePacket (makeFirstByte .unsuback 0) (u16Bytes id))
        = some (makeFirstByte .unsuback 0, u16Bytes id) ∧
      σ'.trace = later ++ .send ci (framePacket (makeFirstByte .unsuback 0) (u16Bytes id)) ok none
        :: .unsubscribe k filters :: σ.trace ∧
      ∀ j pkt ok' tag, .send j pkt ok' tag ∉ later) := by
  intro σ'
  refine ⟨fun hno => ?_, fun id filters hlists => ?_⟩
  · obtain ⟨err, herr⟩ := handleUnsubscribe_invalid hof hno
    rw [show σ' = σ.violation P ci err from herr, Broker.violation]
    refine ⟨rfl, ?_, _, rfl⟩
    rw [setDead_conns, if_pos rfl]
  obtain ⟨out, hL⟩ := hσ.linked
  have hack := buildPacketIdOnly_eq (outSize_ge P.T) .unsuback id
  have hσ' : σ' = _ := handleUnsubscribe_valid hσ hof hlists
  generalize hσ₁ : (σ.setSession k { s with subs := s.subs.filter (fun sub => !filters.contains sub.filter) }).emit
    (.unsubscribe k filters) = σ₁ at hσ'
  obtain ⟨ok, later, hsessions, -, htrace, -, hsent⟩ := sendTo_offers (P := P) (σ := σ₁) (hL.active_lt ci hup.1)
    (by rw [← hσ₁]; exact hup) (buildPacketIdOnly_ne_nil (outSize_ge P.T) .unsuback id)
  rw [← hσ'] at hsessions htrace
  rw [hack, ← hσ₁] at htrace
  rw [← hσ₁] at hsessions
  refine ⟨ok, later, ?_, fun j hj => ?_, readPacket_framePacket (by simp [u16Bytes, maxRemainingLength]), htrace,
    hsent⟩
  · rw [hsessions]
    exact Function.update_self ..
  · rw [hsessions]
    exact Function.update_of_ne hj ..

/-- Three subscriptions; the middle one is listed twice, and a filter that is not there once. -/
theorem handleUnsubscribe_exact_twice : let P := bed (fun _ _ _ => true)
    let σ := run P (Input.connect 0 [99] {} ++ [.feed 0 (Wire.makeSubscribe 7 [([97], 1), ([98], 0), ([99], 2)])])
    let σ' := σ.handleUnsubscribe P 0 (u16Bytes 8 ++ [[98], [98], [120]].flatMap field)
    ∃ s, σ.sessionOf P (σ.conns 0) = some (0, s) ∧ filtersOf s.subs = [[97], [98], [99]] ∧
      ∃ s', σ'.sessions.slot 0 = some s' ∧ filtersOf s'.subs = [[97], [99]] ∧
        ∃ later ok, σ'.trace = later ++ .send 0 (framePacket (makeFirstByte .unsuback 0) (u16Bytes 8)) ok none
          :: .unsubscribe 0 [[98], [98], [120]] :: σ.trace := by
  intro P σ σ'
  have hσ : Amid P σ := amid_run P _
  have hup : (σ.conns 0).active = true ∧ (σ.conns 0).dead = false := by decide +kernel
  have hof : (σ.sessionOf P (σ.conns 0)).map (fun w => (w.1, filtersOf w.2.subs)) = some (0, [[97], [98], [99]]) := by
    decide +kernel
  have hlists : Lists (u16Bytes 8 ++ [[98], [98], [120]].flatMap field) 8 [[98], [98], [120]] :=
    ⟨by decide, by decide, by decide, by decide, rfl⟩
  clear_value σ
  obtain ⟨⟨k, s⟩, hof, heq⟩ := Option.map_eq_some_iff.1 hof
  obtain ⟨rfl, hfilters⟩ := Prod.mk.inj heq
  obtain ⟨ok, later, hslot, -, -, htrace, -⟩ := (handleUnsubscribe_exact hσ hup hof).2 8 _ hlists
  refine ⟨s, hof, hfilters, _, hslot, ?_, later, ok, htrace⟩
  have hkept : filtersOf (s.subs.filter (fun sub => !([[98], [98], [120]] : List Bytes).contains sub.filter)) =
      (filtersOf s.subs).filter (fun f => !([[98], [98], [120]] : List Bytes).contains f) := by
    rw [filtersOf, filtersOf, List.filter_map]
    rfl
  rw [hkept, hfilters]
  rfl

end Minimosq
