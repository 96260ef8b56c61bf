import Mathlib.Data.Set.Card
/-!
# Tables of slots as maps

A table has `cap` slots, each empty or holding a value, and every value has a key.  When no key is held twice (`Keyed`)
the table is a map: `lookup` finds the value under a key by going through the slots in order, and writing or clearing
one slot changes the map at one key.  Maps are functions here, and `size` counts the keys of one.
-/
namespace SlotTable

variable {α κ : Type}

/-! ## Maps -/

/-- The keys of a map. -/
def keys (f : κ → Option α) : Set κ := {k | f k ≠ none}

/-- How many keys a map has. -/
noncomputable def size (f : κ → Option α) : Nat := (keys f).ncard

section
variable [DecidableEq κ] {f : κ → Option α} {k : κ}

theorem keys_update_some (f : κ → Option α) (k : κ) (a : α) :
    keys (Function.update f k (some a)) = insert k (keys f) := by
  ext j
  by_cases hj : j = k
  · subst hj
    simp [keys]
  · simp [keys, hj]

theorem keys_update_none (f : κ → Option α) (k : κ) : keys (Function.update f k none) = keys f \ {k} := by
  ext j
  by_cases hj : j = k
  · subst hj
    simp [keys]
  · simp [keys, hj]

theorem size_replace (h : f k ≠ none) (a : α) : size (Function.update f k (some a)) = size f := by
  rw [size, keys_update_some, Set.insert_eq_of_mem h, size]

theorem size_insert (hfin : (keys f).Finite) (h : f k = none) (a : α) :
    size (Function.update f k (some a)) = size f + 1 := by
  have hk : k ∉ keys f := fun hk => hk h
  rw [size, keys_update_some, Set.ncard_insert_of_notMem hk hfin, size]

theorem size_erase (h : f k ≠ none) : size (Function.update f k none) = size f - 1 := by
  rw [size, keys_update_none, Set.ncard_sdiff_singleton_of_mem h, size]

end

/-! ## Tables -/

/-- The values of the table, slot by slot. -/
def values (cap : Nat) (slot : Nat → Option α) : List α := (List.range cap).filterMap slot

/-- The first value with the key. -/
def lookup [DecidableEq κ] (cap : Nat) (key : α → κ) (slot : Nat → Option α) (k : κ) : Option α :=
  (values cap slot).find? (fun a => key a = k)

/-- **No key is held twice**, and nothing is held outside the table. -/
structure Keyed (cap : Nat) (key : α → κ) (slot : Nat → Option α) : Prop where
  lt : ∀ i a, slot i = some a → i < cap
  unique : ∀ i j a b, slot i = some a → slot j = some b → key a = key b → i = j

section
variable {cap : Nat} {key : α → κ} {slot : Nat → Option α} {i : Nat} {a : α} {k : κ}

theorem Keyed.empty : Keyed cap key (fun _ => none) := by
  constructor
  · intro i a h
    cases h
  · intro i j a b h
    cases h

theorem Keyed.mem_values (h : Keyed cap key slot) : a ∈ values cap slot ↔ ∃ i, slot i = some a := by
  simp only [values, List.mem_filterMap, List.mem_range]
  constructor
  · rintro ⟨i, -, hi⟩
    exact ⟨i, hi⟩
  · rintro ⟨i, hi⟩
    exact ⟨i, h.lt i a hi, hi⟩

theorem Keyed.keys_nodup (h : Keyed cap key slot) : ((values cap slot).map key).Nodup := by
  rw [List.Nodup, List.pairwise_map, values]
  refine List.Pairwise.filterMap slot ?_ List.nodup_range
  intro i j hne a ha b hb hkey
  exact hne (h.unique i j a b ha hb hkey)

/-- The slot of a value with the key is the only one. -/
theorem Keyed.eq_of_slot (h : Keyed cap key slot) {b : α} {j : Nat} (hi : slot i = some a) (hj : slot j = some b)
    (hkey : key a = key b) : a = b := by
  have hij := h.unique i j a b hi hj hkey
  rw [hij, hj] at hi
  exact (Option.some.inj hi).symm

theorem Keyed.erase (h : Keyed cap key slot) (i : Nat) : Keyed cap key (Function.update slot i none) := by
  have hsub : ∀ j b, Function.update slot i none j = some b → slot j = some b := by
    intro j b hj
    by_cases hji : j = i
    · subst hji
      simp at hj
    · simpa [hji] using hj
  exact ⟨fun j b hj => h.lt j b (hsub j b hj),
    fun j j' b b' hj hj' hkey => h.unique j j' b b' (hsub j b hj) (hsub j' b' hj') hkey⟩

theorem Keyed.write (h : Keyed cap key slot) (hi : i < cap) (hother : ∀ j b, slot j = some b → key b = key a → j = i) :
    Keyed cap key (Function.update slot i (some a)) := by
  constructor
  · intro j b hj
    by_cases hji : j = i
    · exact hji ▸ hi
    · exact h.lt j b (by simpa [hji] using hj)
  · intro j j' b b' hj hj' hkey
    by_cases hji : j = i
    · by_cases hji' : j' = i
      · exact hji.trans hji'.symm
      · subst hji
        simp only [Function.update_self, Option.some.injEq] at hj
        rw [Function.update_of_ne hji'] at hj'
        exact (hother j' b' hj' (by rw [hj, hkey])).symm
    · rw [Function.update_of_ne hji] at hj
      by_cases hji' : j' = i
      · subst hji'
        simp only [Function.update_self, Option.some.injEq] at hj'
        exact hother j b hj (by rw [hj', hkey])
      · rw [Function.update_of_ne hji'] at hj'
        exact h.unique j j' b b' hj hj' hkey

end

/-! ## Tables as maps -/

section
variable [DecidableEq κ] {cap : Nat} {key : α → κ} {slot : Nat → Option α} {i : Nat} {a : α} {k : κ}

theorem Keyed.lookup_eq_some (h : Keyed cap key slot) :
    lookup cap key slot k = some a ↔ (∃ i, slot i = some a) ∧ key a = k := by
  constructor
  · intro hl
    exact ⟨h.mem_values.1 (List.mem_of_find?_eq_some hl), by simpa using List.find?_some hl⟩
  · rintro ⟨⟨i, hi⟩, rfl⟩
    cases hl : lookup cap key slot (key a) with
    | none =>
      have hno := List.find?_eq_none.1 hl a (h.mem_values.2 ⟨i, hi⟩)
      simp at hno
    | some b =>
      obtain ⟨j, hj⟩ := h.mem_values.1 (List.mem_of_find?_eq_some hl)
      have hkey : key b = key a := by simpa using List.find?_some hl
      rw [h.eq_of_slot hi hj hkey.symm]

theorem Keyed.lookup_eq_none (h : Keyed cap key slot) :
    lookup cap key slot k = none ↔ ∀ i a, slot i = some a → key a ≠ k := by
  rw [lookup, List.find?_eq_none]
  simp only [h.mem_values, decide_eq_true_eq]
  constructor
  · intro hno i a hi
    exact hno a ⟨i, hi⟩
  · rintro hno a ⟨i, hi⟩
    exact hno i a hi

theorem Keyed.keys_lookup (h : Keyed cap key slot) :
    keys (lookup cap key slot) = ↑((values cap slot).map key).toFinset := by
  ext k
  simp only [keys, Set.mem_ofPred_eq, ne_eq, h.lookup_eq_none, List.coe_toFinset, List.mem_map, h.mem_values]
  constructor
  · intro hno
    by_contra hex
    exact hno (fun i a hi hkey => hex ⟨a, ⟨i, hi⟩, hkey⟩)
  · rintro ⟨a, ⟨i, hi⟩, hkey⟩ hno
    exact hno i a hi hkey

theorem Keyed.keys_finite (h : Keyed cap key slot) : (keys (lookup cap key slot)).Finite := by
  rw [h.keys_lookup]
  exact Finset.finite_toSet _

/-- **The map has as many keys as the table has values.** -/
theorem Keyed.size_lookup (h : Keyed cap key slot) : size (lookup cap key slot) = (values cap slot).length := by
  rw [size, h.keys_lookup, Set.ncard_coe_finset, List.toFinset_card_of_nodup h.keys_nodup, List.length_map]

/-- A table with a free slot has fewer values than slots, and only such a table. -/
theorem length_values_lt_iff : (values cap slot).length < cap ↔ ∃ i < cap, slot i = none := by
  constructor
  · intro hlt
    by_contra hno
    push Not at hno
    have hall : ∀ i ∈ List.range cap, (slot i).isSome := fun i hi =>
      Option.isSome_iff_ne_none.2 (hno i (List.mem_range.1 hi))
    rw [values, List.length_filterMap_eq_countP, List.countP_eq_length.2 hall, List.length_range] at hlt
    exact Nat.lt_irrefl cap hlt
  · rintro ⟨i, hi, hfree⟩
    rw [values, List.length_filterMap_eq_countP]
    refine Nat.lt_of_le_of_ne (by simpa using List.countP_le_length (l := List.range cap)) ?_
    intro heq
    have hall := List.countP_eq_length.1 (heq.trans List.length_range.symm) i (List.mem_range.2 hi)
    rw [hfree] at hall
    cases hall

/-- Clearing a slot takes its key out of the map. -/
theorem Keyed.lookup_erase (h : Keyed cap key slot) (hi : slot i = some a) :
    lookup cap key (Function.update slot i none) = Function.update (lookup cap key slot) (key a) none := by
  funext k
  ext b
  rw [(h.erase i).lookup_eq_some]
  by_cases hk : k = key a
  · subst hk
    simp only [Function.update_self, reduceCtorEq, iff_false, not_and]
    rintro ⟨j, hj⟩ hkey
    by_cases hji : j = i
    · subst hji
      simp at hj
    · rw [Function.update_of_ne hji] at hj
      exact hji (h.unique j i b a hj hi hkey)
  · rw [Function.update_of_ne hk, h.lookup_eq_some]
    refine and_congr_left fun hkey => exists_congr fun j => ?_
    by_cases hji : j = i
    · subst hji
      simp only [Function.update_self, reduceCtorEq, hi, Option.some.injEq, false_iff]
      rintro rfl
      exact hk hkey.symm
    · rw [Function.update_of_ne hji]

/-- Writing a slot that is free or holds the same key puts the value into the map. -/
theorem Keyed.lookup_write (h : Keyed cap key slot) (hi : i < cap) (hother : ∀ j b, slot j = some b → key b = key a →
    j = i) (hold : ∀ b, slot i = some b → key b = key a) :
    lookup cap key (Function.update slot i (some a)) = Function.update (lookup cap key slot) (key a) (some a) := by
  have hw := h.write hi hother
  funext k
  by_cases hk : k = key a
  · subst hk
    rw [Function.update_self]
    exact hw.lookup_eq_some.2 ⟨⟨i, Function.update_self ..⟩, rfl⟩
  · rw [Function.update_of_ne hk]
    ext b
    rw [hw.lookup_eq_some, h.lookup_eq_some]
    refine and_congr_left fun hkey => exists_congr fun j => ?_
    by_cases hji : j = i
    · subst hji
      rw [Function.update_self]
      constructor
      · rintro ⟨rfl⟩
        exact absurd hkey.symm hk
      · intro hj
        exact absurd (hkey.symm.trans (hold b hj)) hk
    · rw [Function.update_of_ne hji]

end

end SlotTable
