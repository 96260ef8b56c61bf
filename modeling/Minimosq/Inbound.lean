import Minimosq.Pending
/-!
# Inbound QoS 2

`tracked` is what the table of inbound ids is for: the ids passed on for routing and neither released nor evicted since,
in the order in which they were passed on.  The table is that list at every point of a session's life, so a PUBLISH is
passed on only when its id is not in it, and what an eviction drops is its head.
-/
namespace Minimosq

open History (Star since Each)

variable {Ctx : Type} {P : Params Ctx} {k : Nat}
variable {acts h : Trace Ctx} {s s' : Session Ctx} {a : Act Ctx}

/-- The ids under way after the acts of a session, the one passed on first at the front. -/
def tracked : Trace Ctx → List Nat
  | [] => []
  | .inbound _ id true :: h => tracked h ++ [id]
  | .pubrel _ id :: h | .evict _ id :: h => (tracked h).erase id
  | _ :: h => tracked h

/-- The act ends the tracking of `id`. -/
def Act.frees (id : Nat) : Act Ctx → Bool
  | .pubrel _ id' | .evict _ id' => id' == id
  | _ => false

/-- An act about inbound ids. -/
def Act.isInbound : Act Ctx → Bool
  | .inbound _ _ _ | .pubrel _ _ | .evict _ _ => true
  | _ => false

theorem tracked_append (h : Trace Ctx) (hacts : ∀ a ∈ acts, a.isInbound = false) : tracked (acts ++ h) = tracked h := by
  induction acts with
  | nil => rfl
  | cons a acts ih =>
    have ha := hacts a List.mem_cons_self
    have ih := ih (fun b hb => hacts b (List.mem_cons_of_mem _ hb))
    cases a <;> first | exact ih | cases ha

/-- An id passed on stays tracked until it is freed. -/
theorem mem_tracked_of_passed (id k : Nat) (older : Trace Ctx) : ∀ newer : Trace Ctx,
    (∀ a ∈ newer, a.frees id = false) → id ∈ tracked (newer ++ .inbound k id true :: older)
  | [], _ => by simp [tracked]
  | a :: newer, hfree => by
    have ih := mem_tracked_of_passed id k older newer (fun b hb => hfree b (List.mem_cons_of_mem _ hb))
    have ha := hfree a List.mem_cons_self
    have hne : ∀ id', (id' == id) = false → id ∈ (tracked (newer ++ .inbound k id true :: older)).erase id' :=
      fun id' hid => (List.mem_erase_of_ne (Ne.symm (by simpa using hid))).2 ih
    cases a with
    | inbound j id' pass =>
      cases pass with
      | true => exact List.mem_append_left _ ih
      | false => exact ih
    | pubrel j id' => exact hne id' ha
    | evict j id' => exact hne id' ha
    | _ => exact ih

/-! ## One act, and the acts before it -/

/-- A QoS 2 PUBLISH is passed on once: since the session last passed on its id, that id was released or evicted. -/
def PassedOnce (a : Act Ctx) (older : Trace Ctx) : Prop :=
  ∀ k id, a = .inbound k id true → ∀ newer oldest, life older = newer ++ .inbound k id true :: oldest →
    ∃ b ∈ newer, b = .pubrel k id ∨ b = .evict k id

/-- An eviction is reported, and what it forgets is the id tracked longest. -/
def EvictsOldest (a : Act Ctx) (older : Trace Ctx) : Prop :=
  ∀ k id, a = .evict k id → (tracked (life older)).head? = some id ∧
    ∃ e rest, older = .event e (some k) :: rest ∧ e.kind = .inboundQos2Evicted

/-- How the table stands to the acts of its session. -/
structure TableOk (P : Params Ctx) (h : Trace Ctx) (s : Session Ctx) : Prop where
  eq : s.inboundQos2 = tracked (life h)
  nodup : s.inboundQos2.Nodup
  room : s.inboundQos2.length ≤ P.T.maxInboundQos2

/-- A step of delivery, as far as inbound ids go. -/
inductive InboundStep (P : Params Ctx) (k : Nat) (s : Session Ctx) : Trace Ctx → List Nat → Prop
  | none {acts : Trace Ctx} (hacts : ∀ a ∈ acts, a.isInbound = false ∧ a.isAlloc = false) :
      InboundStep P k s acts s.inboundQos2
  | dup (id : Nat) : InboundStep P k s [.inbound k id false] s.inboundQos2
  | track (id : Nat) (hid : id ∉ s.inboundQos2) (hroom : s.inboundQos2.length ≠ P.T.maxInboundQos2) :
      InboundStep P k s [.inbound k id true] (s.inboundQos2 ++ [id])
  | evict (id old : Nat) (rest : List Nat) (e : Event) (hs : s.inboundQos2 = old :: rest) (hid : id ∉ s.inboundQos2)
      (he : e.kind = .inboundQos2Evicted) :
      InboundStep P k s [.inbound k id true, .evict k old, .event e (some k)] (rest ++ [id])
  | pubrel (id : Nat) : InboundStep P k s [.pubrel k id] (s.inboundQos2.erase id)

theorem QStep.inbound {i : Nat} (q : QStep P k i s acts s') : InboundStep P k s acts s'.inboundQos2 := by
  cases q with
  | advance => exact .none (by simp)
  | stuck => exact .none (by simp [Act.isInbound, Act.isAlloc])
  | transmit m ok => cases ok <;> exact .none (by simp [Act.isInbound, Act.isAlloc])
  | drop => exact .none (by simp [Act.isInbound, Act.isAlloc])

theorem DStep.inbound (d : DStep P k s acts s') : InboundStep P k s acts s'.inboundQos2 := by
  have hnew : ∀ {id : Nat}, s.hasInboundQos2 id = false → id ∉ s.inboundQos2 := by
    intro id h hmem
    exact Bool.eq_false_iff.1 h (List.any_eq_true.2 ⟨id, hmem, by simp⟩)
  cases d with
  | queue i _ q => exact q.inbound
  | inboundDup id => exact .dup id
  | inboundTrack id _ hid hroom => exact .track id (hnew hid) hroom
  | inboundEvict id e _ hid hfull he =>
    have hpos := P.T.inbound_pos
    cases hs : s.inboundQos2 with
    | nil =>
      rw [hs, List.length_nil] at hfull
      omega
    | cons old rest => exact .evict id old rest e hs (hnew hid) he
  | pubrel id => exact .pubrel id
  | pumpRel i m ok => cases ok <;> exact .none (by simp [Act.isInbound, Act.isAlloc])
  | final type state id =>
    rw [show (s.acked id state).inboundQos2 = s.inboundQos2 by unfold Session.acked; split <;> rfl]
    exact .none (by simp [Act.isInbound, Act.isAlloc])
  | event | matching | unbuilt | live | enqueue | routed | kept | passed | pubrecUnknown | pubrec | answerRel =>
    exact .none (by simp [Act.isInbound, Act.isAlloc])

theorem RStep.inbound (r : RStep P k h s acts s') : InboundStep P k s acts s'.inboundQos2 := by
  cases r with
  | queue i _ q => exact q.inbound
  | retransmit i m ok => cases ok <;> exact .none (by simp [Act.isInbound, Act.isAlloc])
  | rel => exact .none (by simp [Act.isInbound, Act.isAlloc])

/-- An id that is not tracked was freed since it was last passed on. -/
theorem passedOnce_of_not_tracked {id : Nat} {older : Trace Ctx} (h : id ∉ tracked (life older))
    (hslot : ∀ a ∈ older, a.slot = some k) : PassedOnce (.inbound k id true) older := by
  intro k' id' he newer oldest hlife
  cases he
  by_contra hno
  push Not at hno
  refine h (hlife ▸ mem_tracked_of_passed id k oldest newer (fun a ha => Bool.eq_false_iff.2 (fun hf => ?_)))
  have hmem : a ∈ older := History.mem_of_mem_since (show a ∈ life older by rw [hlife]; exact List.mem_append_left _ ha)
  have hk := hslot a hmem
  obtain ⟨hrel, hev⟩ := hno a ha
  cases a with
  | pubrel j id' =>
    cases hk
    exact hrel (by rw [show id' = id by simpa [Act.frees] using hf])
  | evict j id' =>
    cases hk
    exact hev (by rw [show id' = id by simpa [Act.frees] using hf])
  | _ => cases hf

/-- An act that passes nothing on and evicts nothing. -/
def Act.passive : Act Ctx → Bool
  | .inbound _ _ true | .evict _ _ => false
  | _ => true

theorem passive_ok (h : a.passive = true) (older : Trace Ctx) : PassedOnce a older ∧ EvictsOldest a older :=
  ⟨fun k id he => by (rw [he] at h; cases h), fun k id he => by (rw [he] at h; cases h)⟩

theorem Act.passive_of_not_inbound (h : a.isInbound = false) : a.passive = true := by
  cases a <;> first | rfl | cases h

/-- What holds of a slot's acts so far. -/
def InboundPast (k : Nat) (h : Trace Ctx) : Prop :=
  (∀ a ∈ h, a.slot = some k) ∧ Each (fun a older => PassedOnce a older ∧ EvictsOldest a older) h

theorem InboundPast.cons (hh : InboundPast k h) (hslot : a.slot = some k) (ha : PassedOnce a h ∧ EvictsOldest a h) :
    InboundPast k (a :: h) :=
  ⟨fun b hb => (List.mem_cons.1 hb).elim (fun he => he ▸ hslot) (hh.1 b), ha, hh.2⟩

theorem TableOk.step (ht : TableOk P h s) (hpast : InboundPast k h) (hslot : ∀ a ∈ acts, a.slot = some k)
    (q : InboundStep P k s acts s'.inboundQos2) : TableOk P (acts ++ h) s' ∧ InboundPast k (acts ++ h) := by
  obtain ⟨heq, hnd, hroom⟩ := ht
  generalize htable : s'.inboundQos2 = table at q
  have hkeep : ∀ {acts : Trace Ctx} {ids : List Nat}, s'.inboundQos2 = ids → life (acts ++ h) = acts ++ life h →
      ids = tracked (acts ++ life h) → ids.Nodup → ids.length ≤ P.T.maxInboundQos2 → TableOk P (acts ++ h) s' := by
    intro acts ids he hlife hids hn hr
    exact ⟨by rw [he, hlife, hids], by rw [he]; exact hn, by rw [he]; exact hr⟩
  have hone : ∀ a : Act Ctx, a.isAlloc = false → life ([a] ++ h) = [a] ++ life h :=
    fun a ha => History.since_append (by simpa using ha) h
  cases q with
  | none hacts =>
    refine ⟨hkeep htable (History.since_append (fun a ha => (hacts a ha).2) h) ?_ hnd hroom, fun a ha => ?_, ?_⟩
    · rw [tracked_append _ (fun a ha => (hacts a ha).1), heq]
    · exact (List.mem_append.1 ha).elim (hslot a) (hpast.1 a)
    · exact hpast.2.append (fun a ha _ => passive_ok (Act.passive_of_not_inbound (hacts a ha).1) _)
  | dup id => exact ⟨hkeep htable (hone _ rfl) heq hnd hroom, hpast.cons rfl (passive_ok rfl _)⟩
  | track id hid hne =>
    refine ⟨hkeep htable (hone _ rfl) (by rw [heq]; rfl) ?_ ?_, hpast.cons rfl ⟨?_, fun k id he => by (cases he)⟩⟩
    · exact List.nodup_append.2 ⟨hnd, by simp, by rintro x hx y hy rfl; exact hid (List.mem_singleton.1 hy ▸ hx)⟩
    · rw [List.length_append, List.length_singleton]
      omega
    · rw [heq] at hid
      exact passedOnce_of_not_tracked hid hpast.1
  | evict id old rest e hs hid he =>
    rw [hs] at heq hnd hroom hid
    have hlife : life ([.inbound k id true, .evict k old, .event e (some k)] ++ h) =
        [.inbound k id true, .evict k old, .event e (some k)] ++ life h :=
      History.since_append (by simp [Act.isAlloc]) h
    have hrest : (tracked (life h)).erase old = rest := by rw [← heq]; simp
    have hevent : InboundPast k (.event e (some k) :: h) := hpast.cons rfl (passive_ok rfl _)
    have hevict : InboundPast k (.evict k old :: .event e (some k) :: h) := by
      refine hevent.cons rfl ⟨fun k id he => by (cases he), fun k' id' he' => ?_⟩
      cases he'
      refine ⟨?_, e, h, rfl, he⟩
      change (tracked (life h)).head? = some old
      rw [← heq]
      rfl
    have hnew : id ∉ rest := fun h => hid (List.mem_cons_of_mem _ h)
    refine ⟨hkeep htable hlife (by simp [tracked, hrest]) ?_ ?_, hevict.cons rfl ⟨?_, fun k id he => by (cases he)⟩⟩
    · exact List.nodup_append.2 ⟨(List.nodup_cons.1 hnd).2, by simp,
        by rintro x hx y hy rfl; exact hnew (List.mem_singleton.1 hy ▸ hx)⟩
    · simpa using hroom
    · refine passedOnce_of_not_tracked ?_ hevict.1
      change id ∉ (tracked (life h)).erase old
      rw [hrest]
      exact hnew
  | pubrel id =>
    refine ⟨hkeep htable (hone _ rfl) (by rw [heq]; rfl) (hnd.erase id) ?_, hpast.cons rfl (passive_ok rfl _)⟩
    exact (List.length_erase_le ..).trans hroom

/-! ## Every run -/

theorem SlotRun.inbound {o : Option (Session Ctx)} (run : SlotRun P k h o) :
    InboundPast k h ∧ ∀ s, o = some s → TableOk P h s := by
  refine run.rule (fun h o => InboundPast k h ∧ ∀ s, o = some s → TableOk P h s) ⟨⟨by simp, trivial⟩, by simp⟩
    (fun h ctx clientId _ hI => ?_) (fun h s hI => ?_) (fun h s acts s' hI d => ?_) (fun h s acts s' hI r => ?_)
    (fun h s acts s' hI hacts hq => ?_)
  · refine ⟨hI.1.cons rfl (passive_ok rfl h), fun s hs => ?_⟩
    cases hs
    have hlife : life (.alloc k :: h) = [] := History.since_cons_mark rfl h
    exact ⟨by rw [hlife]; rfl, .nil, Nat.zero_le _⟩
  · exact ⟨hI.1.cons rfl (passive_ok rfl h), by simp⟩
  · obtain ⟨ht, hp⟩ := (hI.2 s rfl).step hI.1 d.slot d.inbound
    exact ⟨hp, fun s₁ hs₁ => by (cases hs₁; exact ht)⟩
  · obtain ⟨ht, hp⟩ := (hI.2 s rfl).step hI.1 r.slot r.inbound
    exact ⟨hp, fun s₁ hs₁ => by (cases hs₁; exact ht)⟩
  · have hnot : ∀ a ∈ acts, a.isInbound = false ∧ a.isAlloc = false := by
      intro a ha
      have hplain := hacts a ha
      cases a <;> first | exact ⟨rfl, rfl⟩ | cases hplain
    have hstep : InboundStep P k s acts s'.inboundQos2 := hq.inbound ▸ .none hnot
    obtain ⟨ht, hp⟩ := (hI.2 s rfl).step hI.1 (fun a ha => Act.slot_of_plain (hacts a ha)) hstep
    exact ⟨hp, fun s₁ hs₁ => by (cases hs₁; exact ht)⟩

end Minimosq
