import Minimosq.Run
import Minimosq.SlotTable
/-!
# The retained store is a bounded map

`RetainedStore` is a pool searched from the front, with slots that are freed and taken again.  What it is for is
simpler: a map from topics to their last retained message, with room for `max_retained` of them.  `BoundedMap.set` says
what a message does to such a map, and the store follows it, status for status, over every history
(`storeOf_represents`).
-/
namespace Minimosq

open SlotTable (Keyed lookup size)

variable {Ctx : Type} {P : Params Ctx}

/-! ## The map -/

namespace BoundedMap

/-- The store can own the message. -/
def Storable (T : Traits) (m : Entry) : Prop := m.topic.length ≤ T.maxTopicLen ∧ m.payload.length ≤ T.maxPayloadLen

/-- A message for the map.  One that is too long takes its topic out, as what was retained there is stale. -/
noncomputable def set (T : Traits) (m : Entry) (f : Bytes → Option Entry) : RetainStatus × (Bytes → Option Entry) :=
  open Classical in
  if ¬ Storable T m then (if f m.topic = none then .dropped else .stalePurged, Function.update f m.topic none)
  else if f m.topic ≠ none ∨ size f < T.maxRetained then (.stored, Function.update f m.topic (some m))
  else (.dropped, f)

/-- A retained publish: an empty payload deletes. -/
noncomputable def retain (T : Traits) (m : Entry) (f : Bytes → Option Entry) : Bytes → Option Entry :=
  if m.payload = [] then Function.update f m.topic none else (set T m f).2

/-- What the messages make of an empty map, newest first. -/
noncomputable def ofMessages (T : Traits) (ms : List Entry) : Bytes → Option Entry :=
  ms.foldr (retain T) (fun _ => none)

section
variable {T : Traits} {m e : Entry} {topic : Bytes} {f : Bytes → Option Entry}

/-- What a message leaves under its own topic is the message or nothing. -/
theorem retain_own (h : retain T m f m.topic = some e) : e = m := by
  simp only [retain, set] at h
  split at h
  · simp at h
  · split at h
    · simp at h
    · split at h
      · simpa using h.symm
      · rename_i hroom
        have hold : f m.topic = some e := h
        exact absurd (.inl (by simp [hold])) hroom

theorem retain_other (htopic : topic ≠ m.topic) : retain T m f topic = f topic := by
  simp only [retain, set]
  split
  · exact Function.update_of_ne htopic ..
  · split
    · exact Function.update_of_ne htopic ..
    · split
      · exact Function.update_of_ne htopic ..
      · rfl

end

/-- **What a map holds under a topic is the last message for it.** -/
theorem newest_of_ofMessages {T : Traits} {topic : Bytes} {e : Entry} :
    ∀ {ms : List Entry}, ofMessages T ms topic = some e → ms.find? (fun m => m.topic = topic) = some e
  | [], h => by cases h
  | m :: ms, h => by
    have hstep : retain T m (ofMessages T ms) topic = some e := h
    by_cases htopic : m.topic = topic
    · subst htopic
      rw [List.find?_cons_of_pos (by simp), retain_own hstep]
    · rw [retain_other (Ne.symm htopic)] at hstep
      rw [List.find?_cons_of_neg (by simpa using htopic)]
      exact newest_of_ofMessages hstep

end BoundedMap

/-! ## The store follows the map -/

/-- What the store holds under each topic. -/
def contents (T : Traits) (store : Pool Entry) : Bytes → Option Entry := lookup T.maxRetained Entry.topic store.slot

/-- **The store represents the map**, one entry a topic, and counts its topics. -/
structure Represents (T : Traits) (store : Pool Entry) (f : Bytes → Option Entry) : Prop where
  keyed : Keyed T.maxRetained Entry.topic store.slot
  contents : contents T store = f
  count : store.count = size f

section
variable {T : Traits} {store : Pool Entry} {f : Bytes → Option Entry} {topic : Bytes} {r : Nat} {e : Entry}

theorem Represents.find_some (h : Represents T store f) (hr : Retained.find T topic store = some r) :
    ∃ e, store.slot r = some e ∧ e.topic = topic ∧ f topic = some e := by
  obtain ⟨e, he, hpred⟩ := Minimosq.find_some hr
  have htopic : e.topic = topic := by simpa using hpred
  refine ⟨e, he, htopic, ?_⟩
  rw [← h.contents]
  exact h.keyed.lookup_eq_some.2 ⟨⟨r, he⟩, htopic⟩

theorem Represents.find_none (h : Represents T store f) (hr : Retained.find T topic store = none) :
    (∀ j e, store.slot j = some e → e.topic ≠ topic) ∧ f topic = none := by
  have hno : ∀ j e, store.slot j = some e → e.topic ≠ topic := by
    intro j e he
    have hpred := Minimosq.find_none hr (h.keyed.lt j e he) he
    simpa using hpred
  refine ⟨hno, ?_⟩
  rw [← h.contents]
  exact h.keyed.lookup_eq_none.2 hno

theorem Represents.release (h : Represents T store f) (he : store.slot r = some e) :
    Represents T (store.release T.maxRetained r) (Function.update f e.topic none) := by
  have hlt := h.keyed.lt r e he
  have hrel : store.release T.maxRetained r = ⟨Function.update store.slot r none, store.count - 1⟩ := by
    simp [Pool.release, he, Nat.not_le.2 hlt]
  have hf : f e.topic ≠ none := by
    rw [← h.contents, Minimosq.contents, h.keyed.lookup_eq_some.2 ⟨⟨r, he⟩, rfl⟩]
    simp
  rw [hrel]
  refine ⟨h.keyed.erase r, ?_, ?_⟩
  · rw [← h.contents]
    exact h.keyed.lookup_erase he
  · rw [SlotTable.size_erase hf, ← h.count]

theorem Represents.replace (h : Represents T store f) (he : store.slot r = some e) {m : Entry}
    (hm : m.topic = e.topic) : Represents T (store.set r m) (Function.update f m.topic (some m)) := by
  have hlt := h.keyed.lt r e he
  have hother : ∀ j b, store.slot j = some b → b.topic = m.topic → j = r :=
    fun j b hj hb => h.keyed.unique j r b e hj he (hb.trans hm)
  have hf : f m.topic ≠ none := by
    rw [← h.contents, Minimosq.contents, h.keyed.lookup_eq_some.2 ⟨⟨r, he⟩, hm.symm⟩]
    simp
  refine ⟨h.keyed.write hlt hother, ?_, ?_⟩
  · rw [← h.contents]
    refine h.keyed.lookup_write hlt hother (fun b hb => ?_)
    rw [he] at hb
    cases hb
    exact hm.symm
  · rw [SlotTable.size_replace hf, ← h.count]
    rfl

theorem Represents.length (h : Represents T store f) : (store.toList T.maxRetained).length = size f := by
  rw [← h.contents]
  exact h.keyed.size_lookup.symm

/-- Taking a free slot for a topic: there is one when and only when there are fewer topics than slots. -/
theorem Represents.alloc (h : Represents T store f) {m : Entry} (hno : ∀ j b, store.slot j = some b → b.topic ≠ m.topic)
    (hf : f m.topic = none) : (∃ r store', store.alloc T.maxRetained m = some (r, store') ∧ size f < T.maxRetained ∧
      Represents T store' (Function.update f m.topic (some m))) ∨
    store.alloc T.maxRetained m = none ∧ ¬ size f < T.maxRetained := by
  have hroom : size f < T.maxRetained ↔ ∃ i < T.maxRetained, store.slot i = none := by
    rw [← h.length]
    exact SlotTable.length_values_lt_iff
  cases hfree : store.free T.maxRetained with
  | none =>
    refine .inr ⟨by rw [Pool.alloc, hfree]; rfl, fun hlt => ?_⟩
    obtain ⟨i, hi, hnone⟩ := hroom.1 hlt
    have := List.find?_eq_none.1 hfree i (List.mem_range.2 hi)
    simp [hnone] at this
  | some r =>
    have halloc : store.alloc T.maxRetained m =
        some (r, ⟨Function.update store.slot r (some m), store.count + 1⟩) := by
      rw [Pool.alloc, hfree]
      rfl
    obtain ⟨hlt, hnone, -⟩ := alloc_some halloc
    have hother : ∀ j b, store.slot j = some b → b.topic = m.topic → j = r :=
      fun j b hj hb => absurd hb (hno j b hj)
    refine .inl ⟨r, _, halloc, hroom.2 ⟨r, hlt, hnone⟩, h.keyed.write hlt hother, ?_, ?_⟩
    · rw [← h.contents]
      refine h.keyed.lookup_write hlt hother (fun b hb => ?_)
      rw [hnone] at hb
      cases hb
    · have hfin := h.keyed.keys_finite
      rw [show lookup T.maxRetained Entry.topic store.slot = f from h.contents] at hfin
      rw [SlotTable.size_insert hfin hf, ← h.count]

/-- **`RetainedStore::set` does what the map does, and says so.** -/
theorem Represents.set (h : Represents T store f) (m : Entry) :
    (Retained.set T m.topic m.payload m.qos store).1 = (BoundedMap.set T m f).1 ∧
      Represents T (Retained.set T m.topic m.payload m.qos store).2 (BoundedMap.set T m f).2 := by
  by_cases hfits : BoundedMap.Storable T m
  · obtain ⟨ht, hp⟩ := id hfits
    have hguard : ¬ (decide (T.maxTopicLen < m.topic.length) || decide (T.maxPayloadLen < m.payload.length)) =
        true := by
      simp [Nat.not_lt.2 ht, Nat.not_lt.2 hp]
    rw [Retained.set, if_neg hguard, BoundedMap.set, if_neg (not_not.2 hfits)]
    cases hr : Retained.find T m.topic store with
    | some r =>
      obtain ⟨e, he, htopic, hf⟩ := h.find_some hr
      have hentry : ({ e with payload := assign T.maxPayloadLen e.payload m.payload, qos := m.qos } : Entry) = m := by
        rw [assign, if_neg (Nat.not_lt.2 hp), htopic]
      rw [if_pos (.inl (by simp [hf]))]
      simp only [he, hentry]
      exact ⟨trivial, h.replace he htopic.symm⟩
    | none =>
      obtain ⟨hno, hf⟩ := h.find_none hr
      have hentry : (⟨assign T.maxTopicLen [] m.topic, assign T.maxPayloadLen [] m.payload, m.qos⟩ : Entry) = m := by
        rw [assign, if_neg (Nat.not_lt.2 ht), assign, if_neg (Nat.not_lt.2 hp)]
      simp only [hentry]
      obtain ⟨r, store', halloc, hroom, hh⟩ | ⟨halloc, hfull⟩ := h.alloc hno hf
      · rw [if_pos (.inr hroom)]
        simp only [halloc]
        exact ⟨trivial, hh⟩
      · rw [if_neg (by simp [hf, hfull])]
        simp only [halloc]
        exact ⟨trivial, h⟩
  · have hguard : (decide (T.maxTopicLen < m.topic.length) || decide (T.maxPayloadLen < m.payload.length)) = true := by
      rw [Bool.or_eq_true, decide_eq_true_eq, decide_eq_true_eq]
      by_contra hno
      push Not at hno
      exact hfits hno
    rw [Retained.set, if_pos hguard, BoundedMap.set, if_pos hfits]
    cases hr : Retained.find T m.topic store with
    | some r =>
      obtain ⟨e, he, htopic, hf⟩ := h.find_some hr
      rw [if_neg (by simp [hf])]
      exact ⟨rfl, htopic ▸ h.release he⟩
    | none =>
      obtain ⟨-, hf⟩ := h.find_none hr
      rw [if_pos hf, ← hf, Function.update_eq_self]
      exact ⟨rfl, h⟩

theorem Represents.remove (h : Represents T store f) (topic : Bytes) :
    Represents T (Retained.remove T topic store) (Function.update f topic none) := by
  rw [Retained.remove]
  cases hr : Retained.find T topic store with
  | some r =>
    obtain ⟨e, he, htopic, -⟩ := h.find_some hr
    exact htopic ▸ h.release he
  | none =>
    obtain ⟨-, hf⟩ := h.find_none hr
    rw [← hf, Function.update_eq_self]
    exact h

theorem Represents.applied (h : Represents T store f) (m : Entry) :
    Represents T (Retained.applied T m.topic m.payload m.qos store) (BoundedMap.retain T m f) := by
  rw [Retained.applied, BoundedMap.retain]
  simp only [List.isEmpty_iff]
  split
  · exact h.remove m.topic
  · exact (h.set m).2

end

/-- **The store holds the map, whatever the history.** -/
theorem storeOf_represents (T : Traits) : ∀ ms : List Entry, Represents T (storeOf T ms) (BoundedMap.ofMessages T ms)
  | [] => by
    refine ⟨Keyed.empty, ?_, ?_⟩
    · funext topic
      exact Keyed.empty.lookup_eq_none.2 (fun i a h => by cases h)
    · simp [storeOf, Pool.empty, BoundedMap.ofMessages, size, SlotTable.keys]
  | m :: ms => (storeOf_represents T ms).applied m

/-! ## The store of a run -/

/-- **The store is the bounded map of the messages**, newest first: each topic at most once, `size()` right, every entry
visited once by `for_each`, the status of a further `set` the map's own, and nothing but the newest message of a topic.
-/
structure IsBoundedMap (T : Traits) (ms : List Entry) (store : Pool Entry) : Prop where
  unique : ∀ i j a b, store.slot i = some a → store.slot j = some b → a.topic = b.topic → i = j
  size : store.count = (store.toList T.maxRetained).length
  visits_once : (store.toList T.maxRetained).Nodup
  visits : ∀ e, e ∈ store.toList T.maxRetained ↔ ∃ r, store.slot r = some e
  contents : contents T store = BoundedMap.ofMessages T ms
  status : ∀ m, (Retained.set T m.topic m.payload m.qos store).1 = (BoundedMap.set T m (BoundedMap.ofMessages T ms)).1
  newest : ∀ e ∈ store.toList T.maxRetained, ms.find? (fun m => m.topic = e.topic) = some e

theorem Represents.newest {T : Traits} {store : Pool Entry} {ms : List Entry}
    (h : Represents T store (BoundedMap.ofMessages T ms)) {e : Entry} (he : e ∈ store.toList T.maxRetained) :
    ms.find? (fun m => m.topic = e.topic) = some e := by
  have hlook : Minimosq.contents T store e.topic = some e := h.keyed.lookup_eq_some.2 ⟨h.keyed.mem_values.1 he, rfl⟩
  rw [h.contents] at hlook
  exact BoundedMap.newest_of_ofMessages hlook

/-- **The retained store is a bounded map.**  `apply_retain` makes of the store what `Retained.applied` says, the store
of a run is what the calls of `apply_retain` made of an empty one, and whatever such calls make is the bounded map. -/
theorem run_retained_map (P : Params Ctx) : (∀ (σ : Broker Ctx) (origin : Option (Origin Ctx)) (m : Entry),
      (σ.applyRetain P origin m.topic m.payload m.qos).2.retained =
        Retained.applied P.T m.topic m.payload m.qos σ.retained) ∧
    (∀ inputs, (run P inputs).retained = storeOf P.T (retains (run P inputs).trace)) ∧
    ∀ ms, IsBoundedMap P.T ms (storeOf P.T ms) := by
  refine ⟨fun σ origin m => ?_, fun inputs => (run_books P inputs).store, fun ms => ?_⟩
  · obtain ⟨evs, he, -⟩ := applyRetain_eq P origin m.topic m.payload m.qos σ
    rw [he]
  · have h := storeOf_represents P.T ms
    exact {
      unique := h.keyed.unique
      size := h.count.trans h.length.symm
      visits_once := h.keyed.keys_nodup.of_map
      visits := fun _ => h.keyed.mem_values
      contents := h.contents
      status := fun m => (h.set m).1
      newest := fun _ he => h.newest he }

end Minimosq
