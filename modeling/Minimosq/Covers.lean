import Mathlib.Algebra.GroupWithZero.Nat
import Minimosq.Levels
/-!
# Filters that cover filters

`topic_filter_covers`: on the levels it is `coverLevels`.  A filter that is covered matches no name its cover does not,
and of a filter that is refused some name escapes the cover: one that stands for it level by level (`Stands`), a letter
for each `+`, nothing or a letter for `#`.  Three refusals are spurious, those in which the name the argument would use
is the empty one.
-/
namespace Minimosq

variable {l n : Bytes} {fs ls ns : List Bytes}

/-- **The levels of a cover against those of a filter**, from the left. -/
def coverLevels : List Bytes → List Bytes → Bool
  | [], [] => true
  | [], _ :: _ => false
  | c :: _, [] => c == [hash]
  | c :: cs, f :: fs =>
    if c == [hash] then true
    else if f == [hash] then false
    else if f == [plus] && c != [plus] then false
    else if f != [plus] && c != [plus] && f != c then false
    else coverLevels cs fs

theorem coverLevels_hash (cs fs : List Bytes) : coverLevels ([hash] :: cs) fs = true := by
  cases fs <;> rfl

/-- **The loop of `topic_filter_covers`** compares the levels that are left. -/
theorem coverLoop_eq (c f : Bytes) : ∀ (m ci fi : Nat) (active : Bool), ci ≤ c.length → fi ≤ f.length →
    c.length - ci < m →
    coverLoop c f m ci fi active = coverLevels (levels (c.drop ci)) (if active then levels (f.drop fi) else [])
  | m + 1, ci, fi, active, hci, hfi, hm => by
    have hat := levelAt c hci
    unfold coverLoop
    dsimp only
    generalize levelEnd c c.length ci = ce at hat ⊢
    generalize (c.drop ci).take (ce - ci) = l at hat
    rw [hat.is_eq, hat.is_eq, hat.rest]
    by_cases hl : l = [hash]
    · rw [hl, coverLevels_hash]
      rfl
    have hlb : (l == [hash]) = false := beq_eq_false_iff_ne.2 hl
    rw [hlb, if_neg Bool.false_ne_true]
    cases active with
    | false => simp [coverLevels, hlb]
    | true =>
      have hfat := levelAt f hfi
      generalize levelEnd f f.length fi = fe at hfat ⊢
      generalize (f.drop fi).take (fe - fi) = k at hfat
      rw [hfat.same_eq hat, hfat.is_eq, hfat.is_eq, hfat.rest, if_pos rfl]
      simp only [Bool.not_true, Bool.false_eq_true, if_false, coverLevels, hlb, bne]
      split
      · rfl
      split
      · rfl
      split
      · rfl
      have hle := hat.le
      by_cases hce : ce < c.length
      · rw [if_pos hce, decide_eq_true hce, Bool.not_true, if_neg Bool.false_ne_true]
        by_cases hfe : fe < f.length
        · rw [if_pos hfe, decide_eq_true hfe, if_pos rfl, coverLoop_eq c f m (ce + 1) (fe + 1) true hce hfe (by omega),
            if_pos rfl]
        · rw [if_neg hfe, decide_eq_false hfe, if_neg Bool.false_ne_true,
            coverLoop_eq c f m (ce + 1) fi false hce hfi (by omega), if_neg Bool.false_ne_true]
      · rw [if_neg hce, decide_eq_false hce, Bool.not_false, if_pos rfl]
        by_cases hfe : fe < f.length
        · obtain ⟨x, xs, hx⟩ := List.exists_cons_of_ne_nil (levels_ne_nil (f.drop (fe + 1)))
          rw [if_pos hfe, decide_eq_true hfe, hx]
          rfl
        · rw [if_neg hfe, decide_eq_false hfe]
          rfl

/-- **`topic_filter_covers`, on the levels.** -/
theorem topicFilterCovers_eq (c f : Bytes) : topicFilterCovers c f =
    (!(f.head? == some dollar && (c.head? == some plus || c.head? == some hash)) &&
      coverLevels (levels c) (levels f)) := by
  have hloop := coverLoop_eq c f (c.length + 1) 0 0 true (Nat.zero_le _) (Nat.zero_le _) (Nat.lt_succ_self _)
  rw [if_pos rfl] at hloop
  change _ = coverLevels (levels c) (levels f) at hloop
  rw [topicFilterCovers, hloop]
  split
  · rename_i h
    rw [h]
    rfl
  · rename_i h
    rw [Bool.not_eq_true] at h
    rw [h, Bool.not_false, Bool.true_and]

/-! ## What is covered is matched -/

theorem matchLevels_of_coverLevels : ∀ {cs fs : List Bytes}, coverLevels cs fs = true → FilterLevels cs →
    ∀ {ns : List Bytes}, matchLevels fs ns = true → matchLevels cs ns = true
  | [], [], _, _, _, h => h
  | [], _ :: _, hcover, _, _, _ => by cases hcover
  | c :: cs, fs, hcover, hcs, ns, h => by
    by_cases hc : c = [hash]
    · rw [hc, (hcs.2.1 (by rw [hc]; exact List.mem_singleton_self _)).2]
      exact matchLevels_hash ns
    have hcb : (c == [hash]) = false := beq_eq_false_iff_ne.2 hc
    cases fs with
    | nil =>
      rw [coverLevels, hcb] at hcover
      cases hcover
    | cons f fs =>
      simp only [coverLevels, hcb, Bool.false_eq_true, if_false] at hcover
      split at hcover
      · cases hcover
      rename_i hf
      have hfb : (f == [hash]) = false := by simpa using hf
      split at hcover
      · cases hcover
      rename_i hplus
      split at hcover
      · cases hcover
      rename_i hsame
      cases ns with
      | nil =>
        rw [matchLevels, hfb] at h
        cases h
      | cons n ns =>
        simp only [matchLevels, hfb, hcb, Bool.false_and, Bool.false_or, Bool.and_eq_true, Bool.or_eq_true,
          beq_iff_eq] at h ⊢
        refine ⟨?_, matchLevels_of_coverLevels hcover hcs.2.2 h.2⟩
        by_cases hcp : c = [plus]
        · exact .inl hcp
        · simp only [Bool.and_eq_true, beq_iff_eq, bne_iff_ne] at hplus hsame
          have hfp : f ≠ [plus] := fun hfp => hplus ⟨hfp, hcp⟩
          have hfc : f = c := Classical.not_not.1 fun hne => hsame ⟨⟨hfp, hcp⟩, hne⟩
          exact .inr (hfc ▸ h.1.resolve_left hfp)

/-- **A covered filter matches no name that its cover does not match.** -/
theorem topicMatches_of_covers {c f : Bytes} (hc : topicFilterValid c = true) (hf : topicFilterValid f = true)
    (hcover : topicFilterCovers c f = true) (h : topicMatches f n = true) : topicMatches c n = true := by
  rw [topicFilterCovers_eq, Bool.and_eq_true, ← leadingWildcard_eq hc] at hcover
  rw [topicMatches_eq_matchesTopic hf, matchesTopic, Bool.and_eq_true] at h
  rw [topicMatches_eq_matchesTopic hc, matchesTopic, Bool.and_eq_true]
  obtain ⟨hguard, hlevels⟩ := hcover
  refine ⟨?_, matchLevels_of_coverLevels hlevels (filterLevels_of_valid hc) h.2⟩
  -- A name that starts with `$` is matched by a filter that starts so, literally.
  by_contra hdollar
  simp only [Bool.not_eq_true', Bool.not_eq_false, Bool.and_eq_true] at hdollar
  obtain ⟨hlead, hname⟩ := hdollar
  have hnlead : leadingWildcard f = false := by simpa [hname] using h.1
  have hmatch := h.2
  obtain ⟨l, ls, hl⟩ := List.exists_cons_of_ne_nil (levels_ne_nil f)
  obtain ⟨m, ms, hm⟩ := List.exists_cons_of_ne_nil (levels_ne_nil n)
  rw [leadingWildcard, hl, List.head?_cons, Bool.or_eq_false_iff] at hnlead
  have hl₁ : (l == [plus]) = false := hnlead.1
  have hl₂ : (l == [hash]) = false := hnlead.2
  rw [hl, hm, matchLevels, hl₁, hl₂] at hmatch
  simp only [Bool.false_and, Bool.false_or, Bool.and_eq_true, beq_iff_eq] at hmatch
  have hhead := (head_level_iff hm dollar).2 ⟨by simpa using hname, by decide⟩
  rw [← hmatch.1] at hhead
  have hfd := ((head_level_iff hl dollar).1 hhead).1
  rw [hlead, hfd] at hguard
  cases hguard

/-! ## Names that stand for a filter -/

def letterA : UInt8 := 97
def letterB : UInt8 := 98

/-- A level of one letter. -/
def IsLetter (l : Bytes) : Prop := l = [letterA] ∨ l = [letterB]

/-- **The levels `ns` stand for those of a filter**: each literal for itself, a letter for each `+`, nothing or a letter
for `#`. -/
inductive Stands : List Bytes → List Bytes → Prop
  | nil : Stands [] []
  | none : Stands [[hash]] []
  | one : Stands [[hash]] [[letterA]]
  | letter {l : Bytes} {fs ns : List Bytes} : IsLetter l → Stands fs ns → Stands ([plus] :: fs) (l :: ns)
  | literal {l : Bytes} {fs ns : List Bytes} : plus ∉ l → hash ∉ l → Stands fs ns → Stands (l :: fs) (l :: ns)

/-- A level of a valid filter is one of three. -/
theorem FilterLevels.cases (h : FilterLevels (l :: ls)) :
    (l = [hash] ∧ ls = []) ∨ l = [plus] ∨ (plus ∉ l ∧ hash ∉ l) := by
  by_cases hh : hash ∈ l
  · exact .inl (h.2.1 hh)
  · by_cases hp : plus ∈ l
    · exact .inr (.inl (h.1 hp))
    · exact .inr (.inr ⟨hp, hh⟩)

theorem exists_stands : ∀ {fs : List Bytes}, FilterLevels fs → ∃ ns, Stands fs ns
  | [], _ => ⟨[], .nil⟩
  | f :: fs, h => by
    obtain ⟨ns, hns⟩ := exists_stands h.2.2
    rcases h.cases with ⟨rfl, rfl⟩ | rfl | ⟨hp, hh⟩
    · exact ⟨[], .none⟩
    · exact ⟨[letterA] :: ns, .letter (.inl rfl) hns⟩
    · exact ⟨f :: ns, .literal hp hh hns⟩

theorem Stands.matches (h : Stands fs ns) : matchLevels fs ns = true := by
  induction h with
  | nil => rfl
  | none => rfl
  | one => rfl
  | letter _ _ ih => simp [matchLevels, ih]
  | literal _ _ _ ih => simp [matchLevels, ih]

theorem exists_letter_ne (c : Bytes) : ∃ l, IsLetter l ∧ c ≠ l := by
  by_cases hc : c = [letterA]
  · exact ⟨[letterB], .inr rfl, by rw [hc]; decide⟩
  · exact ⟨[letterA], .inl rfl, hc⟩

/-- **Levels that are not covered have levels to stand for them that the cover does not match.** -/
theorem exists_stands_unmatched : ∀ {cs fs : List Bytes}, coverLevels cs fs = false → FilterLevels fs →
    ∃ ns, Stands fs ns ∧ matchLevels cs ns = false
  | [], [], hcover, _ => by cases hcover
  | [], f :: fs, _, hf => by
    rcases hf.cases with ⟨rfl, rfl⟩ | rfl | ⟨hp, hh⟩
    · exact ⟨[[letterA]], .one, rfl⟩
    · obtain ⟨ns, hns⟩ := exists_stands hf.2.2
      exact ⟨[letterA] :: ns, .letter (.inl rfl) hns, rfl⟩
    · obtain ⟨ns, hns⟩ := exists_stands hf.2.2
      exact ⟨f :: ns, .literal hp hh hns, rfl⟩
  | c :: cs, [], hcover, _ => by
    rw [coverLevels] at hcover
    exact ⟨[], .nil, by rw [matchLevels, hcover, Bool.false_and]⟩
  | c :: cs, f :: fs, hcover, hf => by
    simp only [coverLevels] at hcover
    split at hcover
    · cases hcover
    rename_i hc
    have hcb : (c == [hash]) = false := by simpa using hc
    have hgo : ∀ (l : Bytes) (ns : List Bytes), ((c == [plus] || c == l) && matchLevels cs ns) = false →
        matchLevels (c :: cs) (l :: ns) = false := by
      intro l ns h
      rw [matchLevels, hcb, h]
      rfl
    rcases hf.cases with ⟨rfl, rfl⟩ | rfl | ⟨hp, hh⟩
    · exact ⟨[], .none, by rw [matchLevels, hcb, Bool.false_and]⟩
    · by_cases hcp : c = [plus]
      · rw [hcp, if_neg (by decide), if_neg (by decide), if_neg (by decide)] at hcover
        obtain ⟨ns, hns, hno⟩ := exists_stands_unmatched hcover hf.2.2
        exact ⟨[letterA] :: ns, .letter (.inl rfl) hns, hgo _ _ (by rw [hno, Bool.and_false])⟩
      · obtain ⟨ns, hns⟩ := exists_stands hf.2.2
        obtain ⟨l, hl, hcl⟩ := exists_letter_ne c
        exact ⟨l :: ns, .letter hl hns, hgo _ _ (by simp [hcp, hcl])⟩
    · have hfh : f ≠ [hash] := fun he => hh (he ▸ List.mem_singleton_self _)
      have hfp : f ≠ [plus] := fun he => hp (he ▸ List.mem_singleton_self _)
      by_cases hcf : c = [plus] ∨ c = f
      · have hcover : coverLevels cs fs = false := by
          rcases hcf with rfl | rfl
          · simpa [hfh] using hcover
          · simpa [hfh, hfp] using hcover
        obtain ⟨ns, hns, hno⟩ := exists_stands_unmatched hcover hf.2.2
        exact ⟨f :: ns, .literal hp hh hns, hgo _ _ (by rw [hno, Bool.and_false])⟩
      · obtain ⟨ns, hns⟩ := exists_stands hf.2.2
        obtain ⟨hcp, hcf⟩ := not_or.1 hcf
        exact ⟨f :: ns, .literal hp hh hns, hgo _ _ (by simp [hcp, hcf])⟩

/-! ## Joining the levels again -/

/-- The string with these levels. -/
def joined (ls : List Bytes) : Bytes := [slash].intercalate ls

theorem joined_levels (s : Bytes) : joined (levels s) = s := List.intercalate_splitOn slash

theorem levels_joined (h : ∀ l ∈ ls, slash ∉ l) (hne : ls ≠ []) : levels (joined ls) = ls :=
  List.splitOn_intercalate slash h hne

theorem joined_cons (h : ls ≠ []) : joined (l :: ls) = l ++ slash :: joined ls := by
  obtain ⟨m, ms, rfl⟩ := List.exists_cons_of_ne_nil h
  simp [joined, List.intercalate_cons_cons]

theorem length_joined : ∀ {ls : List Bytes}, ls ≠ [] → (joined ls).length + 1 = (ls.map (fun l => l.length + 1)).sum
  | [l], _ => by simp [joined]
  | l :: m :: ms, _ => by
    have ih := length_joined (List.cons_ne_nil m ms)
    rw [joined_cons (List.cons_ne_nil m ms), List.map_cons, List.sum_cons, ← ih, List.length_append, List.length_cons]
    omega

theorem mem_joined : ∀ {ls : List Bytes} {c : UInt8}, c ∈ joined ls → c = slash ∨ ∃ l ∈ ls, c ∈ l
  | [], c, h => by cases h
  | [l], c, h => .inr ⟨l, List.mem_singleton_self _, by simpa [joined] using h⟩
  | l :: m :: ms, c, h => by
    rw [joined_cons (List.cons_ne_nil m ms), List.mem_append, List.mem_cons] at h
    rcases h with h | h | h
    · exact .inr ⟨l, List.mem_cons_self, h⟩
    · exact .inl h
    · rcases mem_joined h with h | ⟨k, hk, hc⟩
      · exact .inl h
      · exact .inr ⟨k, List.mem_cons_of_mem _ hk, hc⟩

theorem wellFormed_joined : ∀ {ls : List Bytes}, ls ≠ [] → (WellFormed (joined ls) ↔ ∀ l ∈ ls, WellFormed l)
  | [l], _ => by simp [joined]
  | l :: m :: ms, _ => by
    rw [joined_cons (List.cons_ne_nil m ms), wellFormed_append_cons (by decide) (by decide),
      wellFormed_joined (List.cons_ne_nil m ms), List.forall_mem_cons (a := l)]

/-! ## What stands for a filter is a name -/

theorem IsLetter.length (h : IsLetter l) : l.length = 1 := by
  rcases h with rfl | rfl
  · rfl
  · rfl

theorem Stands.sum_le (h : Stands fs ns) :
    (ns.map (fun l => l.length + 1)).sum ≤ (fs.map (fun l => l.length + 1)).sum := by
  induction h with
  | nil => exact Nat.le_refl _
  | none => exact Nat.zero_le _
  | one => exact Nat.le_refl _
  | letter hl _ ih =>
    simp only [List.map_cons, List.sum_cons, hl.length, List.length_singleton]
    omega
  | literal _ _ _ ih =>
    simp only [List.map_cons, List.sum_cons]
    omega

theorem Stands.mem (h : Stands fs ns) (hl : l ∈ ns) : IsLetter l ∨ (l ∈ fs ∧ plus ∉ l ∧ hash ∉ l) := by
  induction h with
  | nil => cases hl
  | none => cases hl
  | one => exact .inl (.inl (List.mem_singleton.1 hl))
  | letter hletter _ ih =>
    rcases List.mem_cons.1 hl with rfl | hl
    · exact .inl hletter
    · exact (ih hl).imp id (fun h => ⟨List.mem_cons_of_mem _ h.1, h.2⟩)
  | literal hp hh _ ih =>
    rcases List.mem_cons.1 hl with rfl | hl
    · exact .inr ⟨List.mem_cons_self, hp, hh⟩
    · exact (ih hl).imp id (fun h => ⟨List.mem_cons_of_mem _ h.1, h.2⟩)

theorem IsLetter.facts (h : IsLetter l) : WellFormed l ∧ slash ∉ l ∧ plus ∉ l ∧ hash ∉ l ∧ l.head? ≠ some dollar := by
  rcases h with rfl | rfl
  · exact ⟨(utf8Valid_iff_wellFormed _).1 (by decide), by decide, by decide, by decide, by decide⟩
  · exact ⟨(utf8Valid_iff_wellFormed _).1 (by decide), by decide, by decide, by decide, by decide⟩

theorem valid_filter_parts {f : Bytes} (h : topicFilterValid f = true) :
    f ≠ [] ∧ f.length ≤ maxUtf8Len ∧ WellFormed f := by
  unfold topicFilterValid at h
  split at h
  · cases h
  · rename_i hparts
    simp only [Bool.or_eq_true, decide_eq_true_eq, Bool.not_eq_true', not_or, Nat.not_lt, List.isEmpty_iff] at hparts
    exact ⟨hparts.1.1, hparts.1.2, (utf8Valid_iff_wellFormed f).1 (by simpa using hparts.2)⟩

theorem topicNameValid_of_parts (hne : n ≠ []) (hlen : n.length ≤ maxUtf8Len) (hutf : WellFormed n)
    (hwild : ∀ c ∈ n, c ≠ hash ∧ c ≠ plus) : topicNameValid n = true := by
  unfold topicNameValid
  rw [if_neg, List.all_eq_true]
  · intro c hc
    simpa using hwild c hc
  · simp only [Bool.or_eq_true, decide_eq_true_eq, Bool.not_eq_true', not_or, Nat.not_lt, List.isEmpty_iff]
    exact ⟨⟨hne, hlen⟩, by simp [(utf8Valid_iff_wellFormed n).2 hutf]⟩

section
variable {f : Bytes} {ns : List Bytes}

theorem Stands.levels_joined (h : Stands (levels f) ns) (hne : ns ≠ []) : levels (joined ns) = ns := by
  refine Minimosq.levels_joined (fun l hl => ?_) hne
  rcases h.mem hl with hletter | ⟨hmem, -⟩
  · exact hletter.facts.2.1
  · exact slash_not_mem_of_mem_levels hmem

theorem Stands.nameValid (h : Stands (levels f) ns) (hf : topicFilterValid f = true) (hne : joined ns ≠ []) :
    topicNameValid (joined ns) = true := by
  obtain ⟨-, hlen, hutf⟩ := valid_filter_parts hf
  have hns : ns ≠ [] := fun he => hne (by rw [he]; rfl)
  rw [← joined_levels f, wellFormed_joined (levels_ne_nil f)] at hutf
  refine topicNameValid_of_parts hne ?_ ((wellFormed_joined hns).2 fun l hl => ?_) fun c hc => ?_
  · have hsum := h.sum_le
    rw [← length_joined hns, ← length_joined (levels_ne_nil f), joined_levels] at hsum
    omega
  · rcases h.mem hl with hletter | ⟨hmem, -⟩
    · exact hletter.facts.1
    · exact hutf l hmem
  · rcases mem_joined hc with rfl | ⟨l, hl, hcl⟩
    · exact ⟨by decide, by decide⟩
    · have hno : plus ∉ l ∧ hash ∉ l := by
        rcases h.mem hl with hletter | ⟨-, hno⟩
        · exact ⟨hletter.facts.2.2.1, hletter.facts.2.2.2.1⟩
        · exact hno
      exact ⟨fun he => hno.2 (he ▸ hcl), fun he => hno.1 (he ▸ hcl)⟩

theorem Stands.topicMatches (h : Stands (levels f) ns) (hf : topicFilterValid f = true) (hne : ns ≠ []) :
    topicMatches f (joined ns) = true := by
  rw [topicMatches_eq_matchesTopic hf, matchesTopic, h.levels_joined hne, h.matches, Bool.and_true]
  by_contra hdollar
  simp only [Bool.not_eq_true', Bool.not_eq_false, Bool.and_eq_true, beq_iff_eq] at hdollar
  obtain ⟨hlead, hname⟩ := hdollar
  obtain ⟨m, ms, rfl⟩ := List.exists_cons_of_ne_nil hne
  have hhead := (head_level_iff (h.levels_joined hne) dollar).2 ⟨hname, by decide⟩
  have hletter : IsLetter m := by
    rw [leadingWildcard, Bool.or_eq_true, beq_iff_eq, beq_iff_eq] at hlead
    generalize levels f = fs at h hlead
    cases h with
    | one => exact .inl rfl
    | letter hl _ => exact hl
    | literal hp hh _ =>
      simp only [List.head?_cons, Option.some.injEq] at hlead
      rcases hlead with rfl | rfl
      · exact absurd (List.mem_singleton_self _) hp
      · exact absurd (List.mem_singleton_self _) hh
  exact hletter.facts.2.2.2.2 hhead

end

/-! ## What is refused escapes -/

/-- A valid name that `f` matches and `c` does not. -/
def Escapes (c f : Bytes) : Prop := ∃ n, topicNameValid n = true ∧ topicMatches f n = true ∧ topicMatches c n = false

section
variable {c f : Bytes}

theorem escapes_of_levels (hc : topicFilterValid c = true) (n : Bytes) (ns : List Bytes)
    (hname : topicNameValid n = true ∧ topicMatches f n = true ∧ levels n = ns)
    (hno : matchLevels (levels c) ns = false) : Escapes c f := by
  refine ⟨n, hname.1, hname.2.1, ?_⟩
  rw [topicMatches_eq_matchesTopic hc, matchesTopic, hname.2.2, hno, Bool.and_false]

theorem not_hash_of_cons (h : FilterLevels (l :: ls)) (hne : l :: ls ≠ [[hash]]) : (l == [hash]) = false := by
  refine beq_eq_false_iff_ne.2 fun he => hne ?_
  rw [he, (h.2.1 (by rw [he]; exact List.mem_singleton_self _)).2]

/-- "#" escapes every cover but "#" and "+/#". -/
theorem hash_escapes (hc : topicFilterValid c = true) (hcover : coverLevels (levels c) [[hash]] = false)
    (hne : levels c ≠ [[plus], [hash]]) : Escapes c [hash] := by
  have hlevels := filterLevels_of_valid hc
  obtain ⟨l, ls, hl⟩ := List.exists_cons_of_ne_nil (levels_ne_nil c)
  rw [hl] at hcover hne hlevels
  have hlh : (l == [hash]) = false := by
    refine beq_eq_false_iff_ne.2 fun he => ?_
    rw [he, coverLevels_hash] at hcover
    cases hcover
  by_cases hlp : l = [plus]
  · cases ls with
    | nil =>
      refine escapes_of_levels hc [letterA, slash, letterA] [[letterA], [letterA]] (by decide +kernel) ?_
      rw [hl, hlp]
      rfl
    | cons m ms =>
      have hmh := not_hash_of_cons hlevels.2.2 (fun he => hne (by rw [hlp, he]))
      refine escapes_of_levels hc [letterA] [[letterA]] (by decide +kernel) ?_
      rw [hl, matchLevels, hlh, matchLevels, hmh]
      simp
  · obtain ⟨x, hx, hlx⟩ := exists_letter_ne l
    refine escapes_of_levels hc x [x] ?_ ?_
    · rcases hx with rfl | rfl
      · decide +kernel
      · decide +kernel
    · rw [hl, matchLevels, hlh]
      simp [hlp, hlx]

/-- "/#" escapes every cover but "#", "/#", "+/#" and two more. -/
theorem slash_hash_escapes (hc : topicFilterValid c = true) (hcover : coverLevels (levels c) [[], [hash]] = false)
    (hne₁ : levels c ≠ [[], [plus], [hash]]) (hne₂ : levels c ≠ [[plus], [plus], [hash]]) :
    Escapes c [slash, hash] := by
  have hlevels := filterLevels_of_valid hc
  obtain ⟨l, ls, hl⟩ := List.exists_cons_of_ne_nil (levels_ne_nil c)
  rw [hl] at hcover hne₁ hne₂ hlevels
  have hlh : (l == [hash]) = false := by
    refine beq_eq_false_iff_ne.2 fun he => ?_
    rw [he, coverLevels_hash] at hcover
    cases hcover
  have hlone : matchLevels (levels c) [[], []] = false → Escapes c [slash, hash] :=
    escapes_of_levels hc [slash] [[], []] (by decide +kernel)
  by_cases hlm : l = [plus] ∨ l = []
  · have hrest : coverLevels ls [[hash]] = false := by
      rcases hlm with rfl | rfl
      · exact hcover
      · exact hcover
    have hlb : (l == [plus] || l == []) = true := by simpa using hlm
    cases ls with
    | nil =>
      refine hlone ?_
      rw [hl, matchLevels, hlh]
      simp [matchLevels]
    | cons m ms =>
      have hmh : (m == [hash]) = false := by
        refine beq_eq_false_iff_ne.2 fun he => ?_
        rw [he, coverLevels_hash] at hrest
        cases hrest
      by_cases hmp : m = [plus]
      · cases ms with
        | nil =>
          refine escapes_of_levels hc [slash, slash] [[], [], []] (by decide +kernel) ?_
          rw [hl, matchLevels, hlh, matchLevels, hmh]
          simp [matchLevels]
        | cons k ks =>
          have hkh := not_hash_of_cons hlevels.2.2.2.2 fun he => by
            rcases hlm with rfl | rfl
            · exact hne₂ (by rw [hmp, he])
            · exact hne₁ (by rw [hmp, he])
          refine hlone ?_
          rw [hl, matchLevels, hlh, matchLevels, hmh, matchLevels, hkh]
          simp
      · by_cases hm0 : m = []
        · refine escapes_of_levels hc [slash, letterA] [[], [letterA]] (by decide +kernel) ?_
          rw [hl, matchLevels, hlh, matchLevels, hmh, hm0]
          simp
        · refine hlone ?_
          rw [hl, matchLevels, hlh, matchLevels, hmh]
          simp [hmp, hm0]
  · refine hlone ?_
    obtain ⟨hlp, hl0⟩ := not_or.1 hlm
    rw [hl, matchLevels, hlh]
    simp [hlp, hl0]

/-- The name that stands for a filter is empty for two filters only. -/
theorem Stands.joined_eq_nil (h : Stands (levels f) ns) (hf : f ≠ []) (hne : joined ns = []) :
    levels f = [[hash]] ∨ levels f = [[], [hash]] := by
  have hfl := levels_ne_nil f
  have hf0 : levels f ≠ [[]] := fun he => hf (by rw [← joined_levels f, he]; rfl)
  have hns : ns = [] ∨ ns = [[]] := by
    rcases ns with _ | ⟨l, _ | ⟨m, ms⟩⟩
    · exact .inl rfl
    · exact .inr (by rw [show l = [] by simpa [joined] using hne])
    · rw [joined_cons (List.cons_ne_nil m ms)] at hne
      exact absurd hne (by simp)
  generalize levels f = fs at h hfl hf0
  rcases hns with rfl | rfl
  · cases h with
    | nil => exact absurd rfl hfl
    | none => exact .inl rfl
  · cases h with
    | letter hl _ => exact absurd hl.length (by decide)
    | literal _ _ hrest =>
      cases hrest with
      | nil => exact absurd rfl hf0
      | none => exact .inr rfl

/-- A filter for `$`-topics escapes a cover that starts with a wildcard. -/
theorem dollar_escapes (hc : topicFilterValid c = true) (hf : topicFilterValid f = true)
    (hlead : leadingWildcard c = true) (hdollar : f.head? = some dollar) : Escapes c f := by
  obtain ⟨ns, hns⟩ := exists_stands (filterLevels_of_valid hf)
  obtain ⟨l, ls, hl⟩ := List.exists_cons_of_ne_nil (levels_ne_nil f)
  have hhead := (head_level_iff hl dollar).2 ⟨hdollar, by decide⟩
  have hfirst : ns.head? = some l := by
    rw [hl] at hns
    cases hns with
    | none => cases hhead
    | one => cases hhead
    | letter => cases hhead
    | literal => rfl
  obtain ⟨m, ms, rfl⟩ : ∃ m ms, ns = m :: ms := by
    cases ns with
    | nil => cases hfirst
    | cons m ms => exact ⟨m, ms, rfl⟩
  have hlevels := hns.levels_joined (List.cons_ne_nil m ms)
  have hname : (joined (m :: ms)).head? = some dollar := by
    refine ((head_level_iff hlevels dollar).1 ?_).1
    rwa [Option.some.inj hfirst]
  refine ⟨joined (m :: ms), hns.nameValid hf (fun he => by rw [he] at hname; cases hname),
    hns.topicMatches hf (List.cons_ne_nil m ms), ?_⟩
  rw [topicMatches_eq_matchesTopic hc, matchesTopic, hlead, hname]
  rfl

/-- The refusals that keep nothing out: ("+/#", "#"), ("/+/#", "/#") and ("+/+/#", "/#"). -/
def spuriousPairs : List (Bytes × Bytes) :=
  [([plus, slash, hash], [hash]), ([slash, plus, slash, hash], [slash, hash]),
    ([plus, slash, plus, slash, hash], [slash, hash])]

theorem escapes_of_refused (hc : topicFilterValid c = true) (hf : topicFilterValid f = true)
    (hcover : topicFilterCovers c f = false) (hne : (c, f) ∉ spuriousPairs) : Escapes c f := by
  rw [topicFilterCovers_eq, ← leadingWildcard_eq hc, Bool.and_eq_false_iff] at hcover
  rcases hcover with hguard | hcover
  · simp only [Bool.not_eq_false', Bool.and_eq_true, beq_iff_eq] at hguard
    exact dollar_escapes hc hf hguard.2 hguard.1
  have hpair : ∀ cs fs, (joined cs, joined fs) ∈ spuriousPairs → levels c = cs → levels f ≠ fs := by
    rintro cs fs hmem rfl rfl
    rw [joined_levels, joined_levels] at hmem
    exact hne hmem
  have hjoin : ∀ fs, levels f = fs → f = joined fs := fun fs he => by rw [← he, joined_levels]
  obtain ⟨ns, hns, hno⟩ := exists_stands_unmatched hcover (filterLevels_of_valid hf)
  by_cases hempty : joined ns = []
  · rcases hns.joined_eq_nil (valid_filter_parts hf).1 hempty with he | he
    · rw [hjoin _ he]
      rw [he] at hcover
      exact hash_escapes hc hcover fun hcs => hpair [[plus], [hash]] [[hash]] (by decide) hcs he
    · rw [hjoin _ he]
      rw [he] at hcover
      exact slash_hash_escapes hc hcover (fun hcs => hpair [[], [plus], [hash]] [[], [hash]] (by decide) hcs he)
        (fun hcs => hpair [[plus], [plus], [hash]] [[], [hash]] (by decide) hcs he)
  · have hne' : ns ≠ [] := fun he => hempty (by rw [he]; rfl)
    exact escapes_of_levels hc (joined ns) ns ⟨hns.nameValid hf hempty, hns.topicMatches hf hne',
      hns.levels_joined hne'⟩ hno

theorem levels_ne_of_nameValid (h : topicNameValid n = true) : levels n ≠ [[]] := by
  intro he
  have hnil : n = [] := by rw [← joined_levels n, he]; rfl
  rw [hnil] at h
  cases h

/-- Each of them keeps nothing out. -/
theorem not_escapes_of_spurious (h : (c, f) ∈ spuriousPairs) : ¬Escapes c f := by
  rintro ⟨n, hn, hm, hno⟩
  have hc : topicFilterValid c = true ∧ topicFilterValid f = true := by
    have hall : ∀ p ∈ spuriousPairs, topicFilterValid p.1 = true ∧ topicFilterValid p.2 = true := by decide +kernel
    exact hall _ h
  rw [topicMatches_eq_matchesTopic hc.2, matchesTopic, Bool.and_eq_true] at hm
  rw [topicMatches_eq_matchesTopic hc.1, matchesTopic] at hno
  obtain ⟨m, ms, hl⟩ := List.exists_cons_of_ne_nil (levels_ne_nil n)
  have hne := levels_ne_of_nameValid hn
  rw [hl] at hm hno hne
  -- A name that "/#" matches has a level after the empty first one, for it is not empty itself.
  have hdeep : matchLevels [[], [hash]] (m :: ms) = true → m = [] ∧ ∃ x xs, ms = x :: xs := by
    intro h
    have hm0 : m = [] := by
      simp only [matchLevels, matchLevels_hash, Bool.and_true, Bool.or_eq_true, Bool.and_eq_true, beq_iff_eq] at h
      rcases h with ⟨h, -⟩ | h | h
      · cases h
      · cases h
      · exact h.symm
    refine ⟨hm0, ?_⟩
    cases ms with
    | nil => exact absurd (by rw [hm0]) hne
    | cons x xs => exact ⟨x, xs, rfl⟩
  simp only [spuriousPairs, List.mem_cons, Prod.mk.injEq, List.not_mem_nil, or_false] at h
  rcases h with ⟨rfl, rfl⟩ | ⟨rfl, rfl⟩ | ⟨rfl, rfl⟩
  · rw [show levels [plus, slash, hash] = [[plus], [hash]] by decide, matchLevels, matchLevels_hash,
      show leadingWildcard [plus, slash, hash] = leadingWildcard [hash] by decide, hm.1] at hno
    cases hno
  · obtain ⟨rfl, x, xs, rfl⟩ := hdeep hm.2
    rw [show levels [slash, plus, slash, hash] = [[], [plus], [hash]] by decide,
      show leadingWildcard [slash, plus, slash, hash] = false by decide, matchLevels, matchLevels, matchLevels_hash]
        at hno
    cases hno
  · obtain ⟨rfl, x, xs, rfl⟩ := hdeep hm.2
    have hname : (n.head? == some dollar) = false := by
      refine beq_eq_false_iff_ne.2 fun he => ?_
      have hhead := (head_level_iff hl dollar).2 ⟨he, by decide⟩
      cases hhead
    rw [show levels [plus, slash, plus, slash, hash] = [[plus], [plus], [hash]] by decide, hname, Bool.and_false,
      matchLevels, matchLevels, matchLevels_hash] at hno
    cases hno

end

/-- **Refusals are precise**: of a valid filter that is refused some valid name escapes the cover, in all pairs of valid
filters but three, which are refused all the same. -/
theorem topicFilterCovers_precise (cover filter : Bytes) (hc : topicFilterValid cover = true)
    (hf : topicFilterValid filter = true) (hrefused : topicFilterCovers cover filter = false) :
    ((∃ n, topicNameValid n = true ∧ topicMatches filter n = true ∧ topicMatches cover n = false) ↔
        (cover, filter) ∉ spuriousPairs) ∧
      ∀ p ∈ spuriousPairs, topicFilterValid p.1 = true ∧ topicFilterValid p.2 = true ∧
        topicFilterCovers p.1 p.2 = false :=
  ⟨⟨fun h hmem => not_escapes_of_spurious hmem h, escapes_of_refused hc hf hrefused⟩, by decide +kernel⟩

/-- "a/+" does not cover "a/#". -/
theorem topicFilterCovers_precise_deeper :
    (topicFilterValid [97, 47, 43] = true ∧ topicFilterValid [97, 47, 35] = true ∧
      topicFilterCovers [97, 47, 43] [97, 47, 35] = false) ∧
    ∃ n, topicNameValid n = true ∧ topicMatches [97, 47, 35] n = true ∧ topicMatches [97, 47, 43] n = false :=
  ⟨by decide +kernel, (topicFilterCovers_precise [97, 47, 43] [97, 47, 35] (by decide +kernel) (by decide +kernel)
    (by decide +kernel)).1.2 (by decide)⟩

end Minimosq
