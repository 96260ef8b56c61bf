import Minimosq.Utf8
/-!
# Topic levels

`topic.hpp` reads filters and names by index, level by level; MQTT 4.7 speaks of the levels themselves.  A walk over the
levels is reduced here to the list of them, `levels`, once for both loops of the source (`LevelAt`); on that list
`topic_matches` is `matchLevels`, for every valid filter.
-/
namespace Minimosq

variable {f l s : Bytes} {e i : Nat}

/-- The levels of a filter or a name. -/
def levels (s : Bytes) : List Bytes := s.splitOn slash

theorem levels_nil : levels [] = [[]] := List.splitOn_nil slash

theorem levels_of_not_mem (h : slash ∉ l) : levels l = [l] := List.splitOn_eq_singleton h

theorem levels_append_slash (h : slash ∉ l) (s : Bytes) : levels (l ++ slash :: s) = l :: levels s :=
  List.splitOn_append_cons_self_of_not_mem h s

theorem levels_ne_nil (s : Bytes) : levels s ≠ [] := List.splitOn_ne_nil slash s

theorem levels_cons (x : UInt8) (s : Bytes) :
    levels (x :: s) = if x = slash then [] :: levels s else (levels s).modifyHead (x :: ·) := by
  rw [levels, List.splitOn_cons_eq_if_modifyHead]
  simp [levels]

/-- No level holds a separator. -/
theorem slash_not_mem_of_mem_levels : ∀ {s l : Bytes}, l ∈ levels s → slash ∉ l
  | [], l, h => by
    rw [levels_nil, List.mem_singleton] at h
    rw [h]
    exact List.not_mem_nil
  | x :: s, l, h => by
    obtain ⟨m, ms, hs⟩ := List.exists_cons_of_ne_nil (levels_ne_nil s)
    have ih := fun {l : Bytes} (hl : l ∈ levels s) => slash_not_mem_of_mem_levels hl
    rw [hs] at ih
    rw [levels_cons, hs] at h
    split at h
    · rcases List.mem_cons.1 h with rfl | h
      · exact List.not_mem_nil
      · exact ih h
    · rename_i hx
      rcases List.mem_cons.1 h with rfl | h
      · exact List.not_mem_cons_of_ne_of_not_mem (Ne.symm hx) (ih List.mem_cons_self)
      · exact ih (List.mem_cons_of_mem _ h)

/-- The first byte is that of the first level, unless it is a separator. -/
theorem head_level_iff {ls : List Bytes} (h : levels s = l :: ls) (c : UInt8) :
    l.head? = some c ↔ s.head? = some c ∧ c ≠ slash := by
  cases s with
  | nil =>
    rw [levels_nil] at h
    cases h
    simp
  | cons x s =>
    obtain ⟨m, ms, hs⟩ := List.exists_cons_of_ne_nil (levels_ne_nil s)
    rw [levels_cons, hs] at h
    split at h
    · rename_i hx
      cases h
      simp [hx, eq_comm]
    · rename_i hx
      cases h
      simp only [List.head?_cons, Option.some.injEq]
      exact ⟨fun he => ⟨he, he ▸ hx⟩, And.left⟩

/-! ## The level at an index -/

/-- **`l` is the level of `s` that starts at `i` and ends before `e`.** -/
structure LevelAt (s : Bytes) (i e : Nat) (l : Bytes) : Prop where
  length : l.length = e - i
  le : i ≤ e
  bound : e ≤ s.length
  get : ∀ k, k < e - i → s[i + k]? = l[k]?
  free : slash ∉ l
  rest : levels (s.drop i) = l :: if e < s.length then levels (s.drop (e + 1)) else []
  stop : e < s.length → s[e]? = some slash

theorem levelEnd_spec (s : Bytes) : ∀ (n i : Nat), i ≤ s.length → s.length - i ≤ n →
    i ≤ levelEnd s n i ∧ levelEnd s n i ≤ s.length ∧ (∀ k, i ≤ k → k < levelEnd s n i → s[k]? ≠ some slash) ∧
      (levelEnd s n i < s.length → s[levelEnd s n i]? = some slash)
  | 0, i, hi, hn => by
    have he : i = s.length := by omega
    exact ⟨Nat.le_refl _, hi, fun k h₁ h₂ => absurd h₂ (Nat.not_lt.2 h₁), fun h => absurd h (by simp [levelEnd, he])⟩
  | n + 1, i, hi, hn => by
    unfold levelEnd
    split
    · rename_i h
      simp only [Bool.and_eq_true, decide_eq_true_eq, bne_iff_ne] at h
      obtain ⟨hle, hbound, hfree, hstop⟩ := levelEnd_spec s n (i + 1) h.1 (by omega)
      refine ⟨by omega, hbound, fun k h₁ h₂ => ?_, hstop⟩
      rcases Nat.eq_or_lt_of_le h₁ with rfl | hlt
      · exact h.2
      · exact hfree k hlt h₂
    · rename_i h
      simp only [Bool.and_eq_true, decide_eq_true_eq, bne_iff_ne, not_and, Classical.not_not] at h
      exact ⟨Nat.le_refl _, hi, fun k h₁ h₂ => absurd h₂ (Nat.not_lt.2 h₁), h⟩

/-- The walk to the next separator finds a level. -/
theorem levelAt (s : Bytes) (hi : i ≤ s.length) :
    LevelAt s i (levelEnd s s.length i) ((s.drop i).take (levelEnd s s.length i - i)) := by
  obtain ⟨hle, hbound, hfree, hstop⟩ := levelEnd_spec s s.length i hi (Nat.sub_le ..)
  generalize levelEnd s s.length i = e at hle hbound hfree hstop
  have hget : ∀ k, k < e - i → s[i + k]? = ((s.drop i).take (e - i))[k]? := by
    intro k hk
    rw [List.getElem?_take_of_lt hk, List.getElem?_drop]
  have hnot : slash ∉ (s.drop i).take (e - i) := by
    intro hmem
    obtain ⟨k, hk⟩ := List.mem_iff_getElem?.1 hmem
    have hlt : k < e - i := by
      have := (List.getElem?_eq_some_iff.1 hk).1
      rw [List.length_take] at this
      omega
    exact hfree (i + k) (Nat.le_add_right ..) (by omega) ((hget k hlt).trans hk)
  refine ⟨?_, hle, hbound, hget, hnot, ?_, hstop⟩
  · rw [List.length_take, List.length_drop]
    omega
  · split
    · rename_i he
      have hcut : s.drop i = (s.drop i).take (e - i) ++ slash :: s.drop (e + 1) := by
        have hse : s[e] = slash := by
          have h := hstop he
          rw [List.getElem?_eq_getElem he] at h
          exact Option.some.inj h
        calc s.drop i = (s.drop i).take (e - i) ++ (s.drop i).drop (e - i) := (List.take_append_drop ..).symm
          _ = (s.drop i).take (e - i) ++ s.drop e := by rw [List.drop_drop, Nat.add_sub_cancel' hle]
          _ = _ := by rw [List.drop_eq_getElem_cons he, hse]
      rw [hcut, levels_append_slash hnot]
      congr 1
      rw [← hcut]
    · rename_i he
      have hend : (s.drop i).take (e - i) = s.drop i := by
        rw [List.take_of_length_le]
        rw [List.length_drop]
        omega
      rw [hend] at hnot ⊢
      exact levels_of_not_mem hnot

theorem LevelAt.is_eq (h : LevelAt s i e l) (c : UInt8) : levelIs s i e c = (l == [c]) := by
  rw [Bool.eq_iff_iff, levelIs, Bool.and_eq_true, beq_iff_eq, beq_iff_eq, beq_iff_eq]
  have hlen := h.length
  constructor
  · rintro ⟨he, hget⟩
    have h0 := h.get 0 (by omega)
    rw [Nat.add_zero, hget] at h0
    have hone : l.length = 1 := by omega
    obtain ⟨x, rfl⟩ := List.length_eq_one_iff.1 hone
    simpa using h0.symm
  · rintro rfl
    have hle := h.le
    have he : e = i + 1 := by
      rw [List.length_singleton] at hlen
      omega
    exact ⟨he, h.get 0 (by omega)⟩

theorem LevelAt.same_eq {t m : Bytes} {j e' : Nat} (h : LevelAt s i e l) (h' : LevelAt t j e' m) :
    levelEq s i e t j e' = (l == m) := by
  rw [Bool.eq_iff_iff, levelEq, Bool.and_eq_true, beq_iff_eq, beq_iff_eq, List.all_eq_true]
  have hl := h.length
  have hm := h'.length
  constructor
  · rintro ⟨he, hall⟩
    refine List.ext_getElem? fun k => ?_
    by_cases hk : k < e - i
    · have hk' := hall k (List.mem_range.2 hk)
      rw [beq_iff_eq, h.get k hk, h'.get k (by omega)] at hk'
      exact hk'
    · rw [List.getElem?_eq_none (by omega), List.getElem?_eq_none (by omega)]
  · rintro rfl
    have he : e - i = e' - j := by omega
    refine ⟨he, fun k hk => ?_⟩
    have hk := List.mem_range.1 hk
    rw [beq_iff_eq, h.get k hk, h'.get k (by omega)]

/-! ## The levels of a valid filter -/

/-- **Wildcards take up whole levels, and `#` the last one.** -/
def FilterLevels : List Bytes → Prop
  | [] => True
  | l :: ls => (plus ∈ l → l = [plus]) ∧ (hash ∈ l → l = [hash] ∧ ls = []) ∧ FilterLevels ls

theorem filterByteOk_of_valid (h : topicFilterValid f = true) : ∀ i < f.length, filterByteOk f i = true := by
  unfold topicFilterValid at h
  split at h
  · cases h
  · rw [List.all_eq_true] at h
    exact fun i hi => h i (List.mem_range.2 hi)

theorem filterByteOk_plus (hget : f[i]? = some plus) (h : filterByteOk f i = true) :
    (i = 0 ∨ f[i - 1]? = some slash) ∧ (i + 1 = f.length ∨ f[i + 1]? = some slash) := by
  rw [filterByteOk, hget, if_neg (by decide), if_pos (by decide)] at h
  simpa using h

theorem filterByteOk_hash (hget : f[i]? = some hash) (h : filterByteOk f i = true) :
    i + 1 = f.length ∧ (i = 0 ∨ f[i - 1]? = some slash) := by
  rw [filterByteOk, hget, if_pos (by decide)] at h
  simpa using h

/-- A byte of a level that may stand only at its beginning and only at its end is the whole of it. -/
theorem LevelAt.eq_singleton {k : Nat} {c : UInt8} (h : LevelAt f i e l) (hk : k < e - i) (hc : f[i + k]? = some c)
    (hbefore : i + k = 0 ∨ f[i + k - 1]? = some slash) (hafter : i + k + 1 = f.length ∨ f[i + k + 1]? = some slash) :
    l = [c] := by
  have hnot : ∀ j, j < e - i → f[i + j]? ≠ some slash := by
    intro j hj hslash
    rw [h.get j hj] at hslash
    exact h.free (List.mem_of_getElem? hslash)
  have hk0 : k = 0 := by
    rcases Nat.eq_zero_or_pos k with h0 | hpos
    · exact h0
    · rcases hbefore with h0 | hslash
      · omega
      · exact absurd (by rwa [show i + (k - 1) = i + k - 1 by omega]) (hnot (k - 1) (by omega))
  have he : e - i = 1 := by
    rcases Nat.lt_or_ge 1 (e - i) with hlt | hge
    · rcases hafter with hend | hslash
      · have hb := h.bound
        omega
      · exact absurd (by rwa [show i + 1 = i + k + 1 by omega]) (hnot 1 hlt)
    · omega
  have hget := h.get k hk
  rw [hc, hk0] at hget
  have hlen := h.length
  obtain ⟨x, rfl⟩ := List.length_eq_one_iff.1 (hlen.trans he)
  simpa using hget.symm

theorem filterLevels_drop (hok : ∀ i < f.length, filterByteOk f i = true) : ∀ (n i : Nat), i ≤ f.length →
    f.length - i ≤ n → (i = 0 ∨ f[i - 1]? = some slash) → FilterLevels (levels (f.drop i))
  | n, i, hi, hn, hstart => by
    have hat := levelAt f hi
    generalize levelEnd f f.length i = e at hat
    generalize (f.drop i).take (e - i) = l at hat
    have hle := hat.le
    have hbound := hat.bound
    have hmem : ∀ {c : UInt8}, c ∈ l → ∃ k, k < e - i ∧ f[i + k]? = some c := by
      intro c hc
      obtain ⟨k, hk⟩ := List.mem_iff_getElem?.1 hc
      have hlt : k < e - i := by
        have := (List.getElem?_eq_some_iff.1 hk).1
        have := hat.length
        omega
      exact ⟨k, hlt, (hat.get k hlt).trans hk⟩
    have hrest : FilterLevels (if e < f.length then levels (f.drop (e + 1)) else []) := by
      split
      · rename_i he
        cases n with
        | zero => omega
        | succ n => exact filterLevels_drop hok n (e + 1) he (by omega) (.inr (hat.stop he))
      · trivial
    rw [hat.rest]
    refine ⟨fun hplus => ?_, fun hhash => ?_, hrest⟩
    · obtain ⟨k, hk, hget⟩ := hmem hplus
      obtain ⟨hbefore, hafter⟩ := filterByteOk_plus hget (hok (i + k) (by omega))
      exact hat.eq_singleton hk hget hbefore hafter
    · obtain ⟨k, hk, hget⟩ := hmem hhash
      obtain ⟨hlast, hbefore⟩ := filterByteOk_hash hget (hok (i + k) (by omega))
      refine ⟨hat.eq_singleton hk hget hbefore (.inl hlast), if_neg ?_⟩
      omega

theorem filterLevels_of_valid (h : topicFilterValid f = true) : FilterLevels (levels f) :=
  filterLevels_drop (filterByteOk_of_valid h) f.length 0 (Nat.zero_le _) (Nat.le_refl _) (.inl rfl)

/-- A level of the grammar passes the scan at each of its bytes. -/
theorem LevelAt.bytes_ok (h : LevelAt f i e l) (hstart : i = 0 ∨ f[i - 1]? = some slash)
    (hplus : plus ∈ l → l = [plus]) (hhash : hash ∈ l → l = [hash] ∧ e = f.length) {j : Nat} (hij : i ≤ j)
    (hje : j < e) : filterByteOk f j = true := by
  have hget := h.get (j - i) (by omega)
  rw [Nat.add_sub_cancel' hij] at hget
  have hmem : ∀ {c : UInt8}, f[j]? = some c → c ∈ l := fun hc => List.mem_of_getElem? (hget.symm.trans hc)
  have hlen := h.length
  unfold filterByteOk
  split
  · rename_i hc
    obtain ⟨rfl, hend⟩ := hhash (hmem (by simpa using hc))
    have hj : j = i := by simp only [List.length_singleton] at hlen; omega
    have hlast : i + 1 = f.length := by simp only [List.length_singleton] at hlen; omega
    simp [hj, hlast, hstart]
  split
  · rename_i hc
    obtain rfl := hplus (hmem (by simpa using hc))
    have hend : i + 1 = e := by simp only [List.length_singleton] at hlen; omega
    have hj : j = i := by omega
    have hafter : i + 1 = f.length ∨ f[i + 1]? = some slash := by
      rw [hend]
      exact (Nat.lt_or_eq_of_le h.bound).symm.imp_right h.stop
    simp [hj, hstart, hafter]
  · rfl

theorem filterByteOk_of_levels : ∀ (n i : Nat), i ≤ f.length → f.length - i ≤ n →
    (i = 0 ∨ f[i - 1]? = some slash) → FilterLevels (levels (f.drop i)) → ∀ j, i ≤ j → j < f.length →
      filterByteOk f j = true
  | n, i, hi, hn, hstart, hlevels, j, hij, hj => by
    have hat := levelAt f hi
    generalize levelEnd f f.length i = e at hat
    generalize (f.drop i).take (e - i) = l at hat
    rw [hat.rest] at hlevels
    obtain ⟨hplus, hhash, hrest⟩ := hlevels
    rcases Nat.lt_trichotomy j e with hlt | rfl | hgt
    · refine hat.bytes_ok hstart hplus (fun hmem => ⟨(hhash hmem).1, ?_⟩) hij hlt
      have hnone := (hhash hmem).2
      have hbound := hat.bound
      split at hnone
      · exact absurd hnone (levels_ne_nil _)
      · omega
    · simp [filterByteOk, hat.stop hj, slash, hash, plus]
    · have he : e < f.length := by omega
      have hle := hat.le
      rw [if_pos he] at hrest
      cases n with
      | zero => omega
      | succ n => exact filterByteOk_of_levels n (e + 1) he (by omega) (.inr (hat.stop he)) hrest j hgt hj

theorem filterLevels_iff : ∀ ls : List Bytes, FilterLevels ls ↔ ∀ i l, ls[i]? = some l →
    plus ∉ l ∧ hash ∉ l ∨ l = [plus] ∨ l = [hash] ∧ i + 1 = ls.length
  | [] => by simp [FilterLevels]
  | l :: ls => by
    have hone : (plus ∈ l → l = [plus]) ∧ (hash ∈ l → l = [hash] ∧ ls = []) ↔
        plus ∉ l ∧ hash ∉ l ∨ l = [plus] ∨ l = [hash] ∧ ls = [] := by
      by_cases hplus : plus ∈ l
      · by_cases hhash : hash ∈ l
        · simp only [hplus, hhash, true_imp_iff, not_true, false_and, false_or]
          refine ⟨fun h => .inl h.1, ?_⟩
          rintro (rfl | ⟨rfl, -⟩)
          · exact absurd hhash (by decide)
          · exact absurd hplus (by decide)
        · simp only [hplus, hhash, true_imp_iff, false_imp_iff, and_true, not_true, false_and, false_or]
          refine ⟨.inl, ?_⟩
          rintro (rfl | ⟨rfl, -⟩)
          · rfl
          · exact absurd hplus (by decide)
      · by_cases hhash : hash ∈ l
        · simp only [hplus, hhash, true_imp_iff, false_imp_iff, true_and, not_true, and_false, false_or]
          refine ⟨.inr, ?_⟩
          rintro (rfl | h)
          · exact absurd hhash (by decide)
          · exact h
        · simp [hplus, hhash]
    rw [FilterLevels, filterLevels_iff ls, ← and_assoc, hone]
    constructor
    · rintro ⟨hl, hls⟩ i l' hget
      cases i with
      | zero =>
        cases hget
        simpa using hl
      | succ i => simpa using hls i l' (by simpa using hget)
    · intro h
      refine ⟨by simpa using h 0 l rfl, fun i l' hget => ?_⟩
      simpa using h (i + 1) l' (by simpa using hget)

/-- **The validators accept exactly the level grammar.**  The strings are those of MQTT 1.5.3: U+0000 does not occur. -/
theorem topic_grammar (s : Bytes) :
    (topicNameValid s = true ↔ s ≠ [] ∧ s.length ≤ 65535 ∧ WellFormed s ∧ plus ∉ s ∧ hash ∉ s) ∧
      (topicFilterValid s = true ↔ s ≠ [] ∧ s.length ≤ 65535 ∧ WellFormed s ∧ ∀ i l, (s.splitOn slash)[i]? = some l →
        plus ∉ l ∧ hash ∉ l ∨ l = [plus] ∨ l = [hash] ∧ i + 1 = (s.splitOn slash).length) := by
  have hguard : ((s.isEmpty || decide (maxUtf8Len < s.length) || !utf8Valid s) = true) ↔
      ¬(s ≠ [] ∧ s.length ≤ 65535 ∧ WellFormed s) := by
    rw [← utf8Valid_iff_wellFormed, Bool.or_eq_true, Bool.or_eq_true, List.isEmpty_iff, decide_eq_true_eq,
      Bool.not_eq_true', ← Bool.not_eq_true, not_and_or, not_and_or, not_not, Nat.not_le, or_assoc, maxUtf8Len]
  refine ⟨?_, ?_⟩
  · unfold topicNameValid
    split
    · rename_i h
      have hno := hguard.1 h
      exact ⟨fun h => by (cases h), fun h => absurd ⟨h.1, h.2.1, h.2.2.1⟩ hno⟩
    · rename_i h
      obtain ⟨hne, hlen, hwf⟩ := Classical.not_not.1 (mt hguard.2 h)
      rw [List.all_eq_true]
      simp only [ne_eq, hne, not_false_eq_true, hlen, hwf, true_and, Bool.not_eq_true', Bool.or_eq_false_iff,
        beq_eq_false_iff_ne]
      exact ⟨fun hall => ⟨fun hmem => (hall _ hmem).2 rfl, fun hmem => (hall _ hmem).1 rfl⟩,
        fun hno c hc => ⟨fun he => hno.2 (he ▸ hc), fun he => hno.1 (he ▸ hc)⟩⟩
  · rw [← filterLevels_iff]
    refine ⟨fun hvalid => ?_, fun h => ?_⟩
    · have hlevels := filterLevels_of_valid hvalid
      unfold topicFilterValid at hvalid
      split at hvalid
      · cases hvalid
      · rename_i h
        obtain ⟨hne, hlen, hwf⟩ := Classical.not_not.1 (mt hguard.2 h)
        exact ⟨hne, hlen, hwf, hlevels⟩
    · unfold topicFilterValid
      rw [if_neg (fun hno => hguard.1 hno ⟨h.1, h.2.1, h.2.2.1⟩), List.all_eq_true]
      intro i hi
      exact filterByteOk_of_levels s.length 0 (Nat.zero_le _) (Nat.le_refl _) (.inl rfl) h.2.2.2 i (Nat.zero_le _)
        (List.mem_range.1 hi)

/-! ## Matching -/

/-- **The levels of a filter against those of a name**, from the left. -/
def matchLevels : List Bytes → List Bytes → Bool
  | [], [] => true
  | [], _ :: _ => false
  | f :: fs, [] => f == [hash] && fs.isEmpty
  | f :: fs, n :: ns => (f == [hash] && fs.isEmpty) || ((f == [plus] || f == n) && matchLevels fs ns)

/-- The first level is a wildcard. -/
def leadingWildcard (f : Bytes) : Bool := (levels f).head? == some [plus] || (levels f).head? == some [hash]

/-- **What a filter matches**, in the words of MQTT 4.7. -/
def matchesTopic (f n : Bytes) : Bool :=
  !(leadingWildcard f && n.head? == some dollar) && matchLevels (levels f) (levels n)

theorem matchLevels_hash (ns : List Bytes) : matchLevels [[hash]] ns = true := by
  cases ns <;> rfl

/-- **The loop of `topic_matches`** matches the levels that are left. -/
theorem matchLoop_eq (f n : Bytes) : ∀ (m fi ni : Nat) (active : Bool), fi ≤ f.length → ni ≤ n.length →
    f.length - fi < m → FilterLevels (levels (f.drop fi)) →
    matchLoop f n m fi ni active = matchLevels (levels (f.drop fi)) (if active then levels (n.drop ni) else [])
  | m + 1, fi, ni, active, hfi, hni, hm, hf => by
    have hat := levelAt f hfi
    unfold matchLoop
    dsimp only
    generalize levelEnd f f.length fi = fe at hat ⊢
    generalize (f.drop fi).take (fe - fi) = l at hat
    rw [hat.is_eq, hat.is_eq]
    rw [hat.rest] at hf ⊢
    obtain ⟨-, hhash, hrest⟩ := hf
    by_cases hl : l = [hash]
    · have hlast := (hhash (by rw [hl]; exact List.mem_singleton_self _)).2
      rw [hlast, hl, matchLevels_hash]
      rfl
    have hlb : (l == [hash]) = false := beq_eq_false_iff_ne.2 hl
    rw [hlb, if_neg Bool.false_ne_true]
    cases active with
    | false => simp [matchLevels, hlb]
    | true =>
      have hnat := levelAt n hni
      generalize levelEnd n n.length ni = ne at hnat ⊢
      generalize (n.drop ni).take (ne - ni) = k at hnat
      rw [hat.same_eq hnat]
      simp only [Bool.not_true, Bool.false_eq_true, if_false, if_true, hnat.rest, matchLevels, hlb, Bool.false_and,
        Bool.false_or]
      cases hmatch : (l == [plus] || l == k) with
      | false => simp [Bool.or_eq_false_iff.1 hmatch]
      | true =>
        have hgo : (!(l == [plus]) && !(l == k)) = false := by rw [← Bool.not_or, hmatch, Bool.not_true]
        rw [hgo, if_neg Bool.false_ne_true, Bool.true_and]
        by_cases hfe : fe < f.length
        · rw [if_pos hfe] at hrest
          have ih := fun ni' act hni' => matchLoop_eq f n m (fe + 1) ni' act hfe hni' (by have := hat.le; omega) hrest
          rw [if_pos hfe, decide_eq_true hfe, Bool.not_true, if_neg Bool.false_ne_true]
          by_cases hne : ne < n.length
          · rw [if_pos hne, decide_eq_true hne, if_pos rfl, ih (ne + 1) true hne, if_pos rfl]
          · rw [if_neg hne, decide_eq_false hne, if_neg Bool.false_ne_true, ih ni false hni, if_neg Bool.false_ne_true]
        · rw [if_neg hfe, decide_eq_false hfe, Bool.not_false, if_pos rfl]
          by_cases hne : ne < n.length
          · obtain ⟨x, xs, hx⟩ := List.exists_cons_of_ne_nil (levels_ne_nil (n.drop (ne + 1)))
            rw [if_pos hne, decide_eq_true hne, hx]
            rfl
          · rw [if_neg hne, decide_eq_false hne]
            rfl

/-- The first byte of a valid filter is a wildcard exactly when its first level is. -/
theorem leadingWildcard_eq (h : topicFilterValid f = true) :
    leadingWildcard f = (f.head? == some plus || f.head? == some hash) := by
  have hlevels := filterLevels_of_valid h
  have hwild : ∀ c : UInt8, c ≠ slash → (∀ l ls, levels f = l :: ls → c ∈ l → l = [c]) →
      ((levels f).head? == some [c]) = (f.head? == some c) := by
    intro c hc hwhole
    have hat := levelAt f (Nat.zero_le _)
    generalize levelEnd f f.length 0 = e at hat
    generalize (f.drop 0).take (e - 0) = l at hat
    have hrest := hat.rest
    rw [List.drop_zero] at hrest
    have hget := hat.get 0
    rw [Bool.eq_iff_iff, beq_iff_eq, beq_iff_eq, hrest, List.head?_cons, Option.some.injEq, List.head?_eq_getElem?]
    constructor
    · rintro rfl
      exact hget (by have := hat.length; rw [List.length_singleton] at this; omega)
    · intro hf
      refine hwhole l _ hrest (List.mem_of_getElem? ((hget ?_).symm.trans hf))
      rcases Nat.eq_zero_or_pos e with rfl | hpos
      · have hstop := hat.stop (List.getElem?_eq_some_iff.1 hf).1
        rw [hf] at hstop
        exact absurd (Option.some.inj hstop) hc
      · omega
  rw [leadingWildcard, hwild plus (by decide), hwild hash (by decide)]
  · intro l ls he hmem
    rw [he] at hlevels
    exact (hlevels.2.1 hmem).1
  · intro l ls he hmem
    rw [he] at hlevels
    exact hlevels.1 hmem

/-- **`topic_matches` is matching by levels**, for a valid filter. -/
theorem topicMatches_eq_matchesTopic (h : topicFilterValid f = true) (n : Bytes) :
    topicMatches f n = matchesTopic f n := by
  have hloop := matchLoop_eq f n (f.length + 1) 0 0 true (Nat.zero_le _) (Nat.zero_le _) (Nat.lt_succ_self _)
    (filterLevels_of_valid h)
  rw [if_pos rfl] at hloop
  change _ = matchLevels (levels f) (levels n) at hloop
  rw [topicMatches, matchesTopic, leadingWildcard_eq h, hloop, Bool.and_comm (n.head? == _)]
  split
  · rename_i hdollar
    rw [hdollar]
    rfl
  · rename_i hdollar
    rw [Bool.not_eq_true] at hdollar
    rw [hdollar, Bool.not_false, Bool.true_and]

/-! ## By index

The loops as the source runs them, where a read past the end of a string, or more rounds than allowed, is `none`. -/

def levelEndScan (s : Bytes) : Nat → Nat → Option Nat
  | 0, _ => none
  | n + 1, i =>
    if i < s.length then do
      let c ← s[i]?
      if c != slash then levelEndScan s n (i + 1) else some i
    else some i

def levelIsScan (s : Bytes) (i e : Nat) (c : UInt8) : Option Bool :=
  if e == i + 1 then do
    let b ← s[i]?
    some (b == c)
  else some false

/-- The loop over `k` of a comparison, with `n` rounds to go. -/
def sameScan (a : Bytes) (i : Nat) (b : Bytes) (j : Nat) : Nat → Nat → Option Bool
  | 0, _ => some true
  | n + 1, k => do
    let x ← a[i + k]?
    let y ← b[j + k]?
    if x != y then some false else sameScan a i b j n (k + 1)

def levelEqScan (a : Bytes) (i e : Nat) (b : Bytes) (j e' : Nat) : Option Bool :=
  if e - i != e' - j then some false else sameScan a i b j (e - i) 0

/-- The current level of the filter takes that of the name: it is `+`, or the same. -/
def levelTakesScan (filter : Bytes) (fi fe : Nat) (name : Bytes) (ni ne : Nat) : Option Bool := do
  if ← levelIsScan filter fi fe plus then some true else levelEqScan filter fi fe name ni ne

def matchScan (filter name : Bytes) : Nat → Nat → Nat → Bool → Option Bool
  | 0, _, _, _ => none
  | n + 1, fi, ni, nameActive => do
    let fe ← levelEndScan filter (filter.length + 1) fi
    if ← levelIsScan filter fi fe hash then some true
    else if !nameActive then some false
    else do
      let ne ← levelEndScan name (name.length + 1) ni
      if !(← levelTakesScan filter fi fe name ni ne) then some false
      else if !decide (fe < filter.length) then some (!decide (ne < name.length))
      else if decide (ne < name.length) then matchScan filter name n (fe + 1) (ne + 1) true
      else matchScan filter name n (fe + 1) ni false

def topicMatchesScan (filter name : Bytes) : Option Bool := do
  let dollarName ← if name.isEmpty then some false else name[0]?.map (· == dollar)
  let wild ← if !dollarName || filter.isEmpty then some false else filter[0]?.map (fun c => c == plus || c == hash)
  if wild then some false else matchScan filter name (filter.length + 1) 0 0 true

theorem levelEndScan_eq (s : Bytes) : ∀ (n m i : Nat), s.length - i < n → s.length - i ≤ m →
    levelEndScan s n i = some (levelEnd s m i)
  | n + 1, m, i, hn, hm => by
    rw [levelEndScan]
    by_cases hi : i < s.length
    · cases m with
      | zero => omega
      | succ m =>
        have ih := levelEndScan_eq s n m (i + 1) (by omega) (by omega)
        rw [if_pos hi, levelEnd, List.getElem?_eq_getElem hi, decide_eq_true hi, Bool.true_and]
        change (if _ then _ else _) = _
        by_cases hs : s[i] = slash
        · simp [hs]
        · simp [hs, ih]
    · cases m with
      | zero => simp [hi, levelEnd]
      | succ m => simp [hi, levelEnd]

section
variable {s t l k : Bytes} {i e j e' : Nat}

theorem LevelAt.is_scan (h : LevelAt s i e l) (c : UInt8) : levelIsScan s i e c = some (levelIs s i e c) := by
  unfold levelIsScan levelIs
  by_cases he : e = i + 1
  · have hi : i < s.length := by
      have := h.bound
      omega
    simp [he, List.getElem?_eq_getElem hi]
  · simp [he]

theorem sameScan_eq (a b : Bytes) (i j : Nat) : ∀ n k, i + k + n ≤ a.length → j + k + n ≤ b.length →
    sameScan a i b j n k = some ((List.range' k n).all (fun k => a[i + k]? == b[j + k]?))
  | 0, _, _, _ => rfl
  | n + 1, k, ha, hb => by
    have ha' : i + k < a.length := by omega
    have hb' : j + k < b.length := by omega
    have ih := sameScan_eq a b i j n (k + 1) (by omega) (by omega)
    rw [sameScan, List.range'_succ, List.all_cons, List.getElem?_eq_getElem ha', List.getElem?_eq_getElem hb']
    change (if _ then _ else _) = _
    by_cases hx : a[i + k] = b[j + k]
    · simp [hx, ih]
    · simp [hx]

theorem LevelAt.same_scan (h : LevelAt s i e l) (h' : LevelAt t j e' k) :
    levelEqScan s i e t j e' = some (levelEq s i e t j e') := by
  unfold levelEqScan levelEq
  by_cases he : e - i = e' - j
  · have hs := h.bound
    have ht := h'.bound
    have hle := h.le
    have hle' := h'.le
    rw [if_neg (by simp [he]), sameScan_eq s t i j _ 0 (by omega) (by omega), beq_iff_eq.2 he, Bool.true_and,
      List.range_eq_range']
  · simp [he]

theorem LevelAt.takes_scan (h : LevelAt s i e l) (h' : LevelAt t j e' k) :
    levelTakesScan s i e t j e' = some (levelIs s i e plus || levelEq s i e t j e') := by
  rw [levelTakesScan, h.is_scan, h.same_scan h']
  cases levelIs s i e plus with
  | false => rfl
  | true => rfl

end

theorem matchScan_eq (f n : Bytes) : ∀ (m fi ni : Nat) (active : Bool), fi ≤ f.length → ni ≤ n.length →
    f.length - fi < m → matchScan f n m fi ni active = some (matchLoop f n m fi ni active)
  | m + 1, fi, ni, active, hfi, hni, hm => by
    have hat := levelAt f hfi
    rw [matchScan, levelEndScan_eq f (f.length + 1) f.length fi (by omega) (by omega), matchLoop]
    dsimp only [Option.bind_eq_bind, Option.bind_some]
    generalize levelEnd f f.length fi = fe at hat ⊢
    rw [hat.is_scan]
    dsimp only [Option.bind_some]
    cases levelIs f fi fe hash with
    | true => rfl
    | false =>
      cases active with
      | false => rfl
      | true =>
        have hnat := levelAt n hni
        rw [levelEndScan_eq n (n.length + 1) n.length ni (by omega) (by omega)]
        dsimp only [Option.bind_some]
        generalize levelEnd n n.length ni = ne at hnat ⊢
        rw [hat.takes_scan hnat, ← Bool.not_or]
        dsimp only [Option.bind_some]
        cases levelIs f fi fe plus || levelEq f fi fe n ni ne with
        | false => rfl
        | true =>
          have hle := hat.le
          by_cases hfe : fe < f.length
          · rw [decide_eq_true hfe]
            by_cases hne : ne < n.length
            · rw [decide_eq_true hne]
              exact matchScan_eq f n m (fe + 1) (ne + 1) true hfe hne (by omega)
            · rw [decide_eq_false hne]
              exact matchScan_eq f n m (fe + 1) ni false hfe hni (by omega)
          · rw [decide_eq_false hfe]
            rfl

/-- The source's walk returns on every input and reads no byte past either string. -/
theorem topicMatchesScan_eq (f n : Bytes) : topicMatchesScan f n = some (topicMatches f n) := by
  have hloop := matchScan_eq f n (f.length + 1) 0 0 true (Nat.zero_le _) (Nat.zero_le _) (Nat.lt_succ_self _)
  rw [topicMatchesScan, topicMatches, hloop]
  cases n with
  | nil => rfl
  | cons x n =>
    cases f with
    | nil =>
      cases hx : x == dollar with
      | false => simp [hx]
      | true => simp [hx]
    | cons y f =>
      cases hx : x == dollar with
      | false => simp [hx]
      | true =>
        cases hy : (y == plus || y == hash) with
        | false => simp_all
        | true => simp_all

/-- **`topic_matches` is MQTT 4.7's matching of levels**: for every valid filter and every name the loop returns, reads
neither string past its end, and its answer is that of the levels from the left. -/
theorem topicMatches_levels (f n : Bytes) (hf : topicFilterValid f = true) :
    topicMatchesScan f n = some (topicMatches f n) ∧ topicMatches f n = matchesTopic f n :=
  ⟨topicMatchesScan_eq f n, topicMatches_eq_matchesTopic hf n⟩

/-- "a/#" and its parent. -/
theorem topicMatches_levels_parent : topicFilterValid [97, 47, 35] = true ∧
    topicMatchesScan [97, 47, 35] [97] = some (topicMatches [97, 47, 35] [97]) ∧
    topicMatches [97, 47, 35] [97] = matchesTopic [97, 47, 35] [97] :=
  ⟨by decide +kernel, topicMatches_levels [97, 47, 35] [97] (by decide +kernel)⟩

end Minimosq
