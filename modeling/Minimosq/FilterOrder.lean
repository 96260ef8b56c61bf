import Mathlib.Order.Basic
import Mathlib.Order.UpperLower.Basic
import Minimosq.TableAcl
/-!
# The order of topic filters

`topic_filter_covers` orders the valid filters: every filter covers itself, two that cover each other are one, and what
covers a cover covers the filter.  Reading it as `≤`, the names a filter matches grow with it (`names_mono`), and what
`authorize_subscribe` grants is a lower set: whoever may have a filter may have every filter under it.

The three spurious refusals are what makes it an order: "#" and "+/#" match the same names, and only one of them covers
the other.
-/
namespace Minimosq

/-! ## On the levels -/

theorem coverLevels_refl : ∀ ls : List Bytes, coverLevels ls ls = true
  | [] => rfl
  | l :: ls => by
    rw [coverLevels, coverLevels_refl ls]
    by_cases hl : l = [hash]
    · simp [hl]
    · simp [hl]

/-- The first levels of a cover that is not "#" and of a filter it covers. -/
theorem coverLevels_cons {c : Bytes} {cs fs : List Bytes} (hc : c ≠ [hash]) (h : coverLevels (c :: cs) fs = true) :
    ∃ f fs', fs = f :: fs' ∧ f ≠ [hash] ∧ (c = [plus] ∨ f = c) ∧ coverLevels cs fs' = true := by
  have hcb : (c == [hash]) = false := beq_eq_false_iff_ne.2 hc
  cases fs with
  | nil =>
    rw [coverLevels, hcb] at h
    cases h
  | cons f fs' =>
    simp only [coverLevels, hcb, Bool.false_eq_true, if_false] at h
    split at h
    · cases h
    rename_i hf
    split at h
    · cases h
    rename_i hplus
    split at h
    · cases h
    rename_i hsame
    simp only [Bool.and_eq_true, beq_iff_eq, bne_iff_ne] at hf hplus hsame
    refine ⟨f, fs', rfl, hf, ?_, h⟩
    by_cases hcp : c = [plus]
    · exact .inl hcp
    · have hfp : f ≠ [plus] := fun hfp => hplus ⟨hfp, hcp⟩
      exact .inr (Classical.not_not.1 fun hne => hsame ⟨⟨hfp, hcp⟩, hne⟩)

theorem coverLevels_of_cons {c f : Bytes} {cs fs : List Bytes} (hf : f ≠ [hash]) (hcf : c = [plus] ∨ f = c)
    (h : coverLevels cs fs = true) : coverLevels (c :: cs) (f :: fs) = true := by
  rw [coverLevels, h]
  rcases hcf with rfl | rfl
  · simp [hf]
  · simp [hf]

theorem coverLevels_trans : ∀ {as bs cs : List Bytes}, coverLevels as bs = true → coverLevels bs cs = true →
    coverLevels as cs = true
  | [], [], _, _, h => h
  | [], _ :: _, _, h, _ => by cases h
  | a :: as, bs, cs, hab, hbc => by
    by_cases ha : a = [hash]
    · rw [ha]
      exact coverLevels_hash as cs
    obtain ⟨b, bs, rfl, hb, hab₁, habs⟩ := coverLevels_cons ha hab
    obtain ⟨c, cs, rfl, hc, hbc₁, hbcs⟩ := coverLevels_cons hb hbc
    refine coverLevels_of_cons hc ?_ (coverLevels_trans habs hbcs)
    rcases hab₁ with hplus | rfl
    · exact .inl hplus
    · exact hbc₁

theorem coverLevels_antisymm : ∀ {cs fs : List Bytes}, FilterLevels cs → FilterLevels fs →
    coverLevels cs fs = true → coverLevels fs cs = true → cs = fs
  | [], [], _, _, _, _ => rfl
  | [], _ :: _, _, _, h, _ => by cases h
  | c :: cs, fs, hcs, hfs, hcf, hfc => by
    have hlast : ∀ {l ls}, FilterLevels (l :: ls) → l = [hash] → ls = [] := fun h hl =>
      (h.2.1 (by rw [hl]; exact List.mem_singleton_self _)).2
    by_cases hc : c = [hash]
    · -- Only "#" covers "#".
      cases fs with
      | nil => cases hfc
      | cons f fs =>
        by_cases hf : f = [hash]
        · rw [hc, hf, hlast hcs hc, hlast hfs hf]
        · obtain ⟨_, _, he, hne, -, -⟩ := coverLevels_cons hf hfc
          cases he
          exact absurd hc hne
    obtain ⟨f, fs, rfl, hf, hcf₁, hcfs⟩ := coverLevels_cons hc hcf
    obtain ⟨_, _, he, -, hfc₁, hfcs⟩ := coverLevels_cons hf hfc
    cases he
    have hhead : c = f := by
      rcases hcf₁ with hplus | heq
      · rcases hfc₁ with hplus' | heq
        · rw [hplus, hplus']
        · exact heq
      · exact heq.symm
    rw [hhead, coverLevels_antisymm hcs.2.2 hfs.2.2 hcfs hfcs]

/-! ## On the filters -/

section
variable {a b c f : Bytes}

theorem covers_refl (f : Bytes) : topicFilterCovers f f = true := by
  rw [topicFilterCovers_eq, coverLevels_refl, Bool.and_true]
  cases hf : f.head? with
  | none => rfl
  | some x =>
    by_cases hx : x = dollar
    · subst hx
      decide
    · simp [hx]

theorem covers_antisymm (hc : topicFilterValid c = true) (hf : topicFilterValid f = true)
    (hcf : topicFilterCovers c f = true) (hfc : topicFilterCovers f c = true) : c = f := by
  rw [topicFilterCovers_eq, Bool.and_eq_true] at hcf hfc
  have hlevels := coverLevels_antisymm (filterLevels_of_valid hc) (filterLevels_of_valid hf) hcf.2 hfc.2
  rw [← joined_levels c, hlevels, joined_levels]

/-- A filter that starts with `$` is covered only by filters that start so. -/
theorem head_of_covers (hb : topicFilterValid b = true) (h : topicFilterCovers b c = true)
    (hc : c.head? = some dollar) : b.head? = some dollar := by
  rw [topicFilterCovers_eq, ← leadingWildcard_eq hb, Bool.and_eq_true, hc] at h
  obtain ⟨hguard, hlevels⟩ := h
  have hlead : leadingWildcard b = false := by simpa using hguard
  obtain ⟨l, ls, hl⟩ := List.exists_cons_of_ne_nil (levels_ne_nil b)
  obtain ⟨m, ms, hm⟩ := List.exists_cons_of_ne_nil (levels_ne_nil c)
  rw [leadingWildcard, hl, List.head?_cons, Bool.or_eq_false_iff] at hlead
  have hplus : l ≠ [plus] := by simpa using hlead.1
  have hhash : l ≠ [hash] := by simpa using hlead.2
  rw [hl, hm] at hlevels
  obtain ⟨_, _, he, -, hsame, -⟩ := coverLevels_cons hhash hlevels
  cases he
  have hml : m = l := hsame.resolve_left hplus
  have hhead := (head_level_iff hm dollar).2 ⟨hc, by decide⟩
  rw [hml] at hhead
  exact ((head_level_iff hl dollar).1 hhead).1

theorem covers_trans (hb : topicFilterValid b = true) (hab : topicFilterCovers a b = true)
    (hbc : topicFilterCovers b c = true) : topicFilterCovers a c = true := by
  have hdollar := head_of_covers hb hbc
  rw [topicFilterCovers_eq, Bool.and_eq_true] at hab hbc ⊢
  refine ⟨?_, coverLevels_trans hab.2 hbc.2⟩
  by_contra hguard
  simp only [Bool.not_eq_true', Bool.not_eq_false, Bool.and_eq_true] at hguard
  have hab := hab.1
  rw [hdollar (by simpa using hguard.1), hguard.2] at hab
  cases hab

end

/-- **`topic_filter_covers` is a partial order on the valid filters.** -/
theorem topicFilterCovers_order (a b c : Bytes) (ha : topicFilterValid a = true) (hb : topicFilterValid b = true) :
    topicFilterCovers a a = true ∧ (topicFilterCovers a b = true → topicFilterCovers b a = true → a = b) ∧
      (topicFilterCovers a b = true → topicFilterCovers b c = true → topicFilterCovers a c = true) :=
  ⟨covers_refl a, covers_antisymm ha hb, covers_trans hb⟩

/-- "a/#" covers "a/+", which covers "a/b". -/
theorem topicFilterCovers_order_chain : (topicFilterValid [97, 47, 35] = true ∧ topicFilterValid [97, 47, 43] = true ∧
      topicFilterCovers [97, 47, 35] [97, 47, 43] = true ∧ topicFilterCovers [97, 47, 43] [97, 47, 98] = true) ∧
    topicFilterCovers [97, 47, 35] [97, 47, 98] = true :=
  ⟨by decide +kernel, (topicFilterCovers_order [97, 47, 35] [97, 47, 43] [97, 47, 98] (by decide +kernel)
    (by decide +kernel)).2.2 (by decide +kernel) (by decide +kernel)⟩

/-! ## The order -/

/-- A valid filter. -/
structure TopicFilter where
  text : Bytes
  valid : topicFilterValid text = true

namespace TopicFilter

theorem ext_text {f g : TopicFilter} (h : f.text = g.text) : f = g := by
  cases f
  cases g
  cases h
  rfl

/-- Under a filter is what it covers. -/
instance : PartialOrder TopicFilter where
  le f g := topicFilterCovers g.text f.text = true
  le_refl f := covers_refl f.text
  le_trans _ g _ hfg hgh := covers_trans g.valid hgh hfg
  le_antisymm f g hfg hgf := ext_text (covers_antisymm f.valid g.valid hgf hfg)

theorem le_iff {f g : TopicFilter} : f ≤ g ↔ topicFilterCovers g.text f.text = true := Iff.rfl

/-- The valid names a filter matches. -/
def names (f : TopicFilter) : Set Bytes := {n | topicNameValid n = true ∧ topicMatches f.text n = true}

theorem names_mono {f g : TopicFilter} (h : f ≤ g) : f.names ⊆ g.names := fun _ hn =>
  ⟨hn.1, topicMatches_of_covers g.valid f.valid h hn.2⟩

end TopicFilter

/-! ## What the table grants -/

namespace TableAcl

/-- The filters a role may subscribe to. -/
def subscribable (acl : TableAcl) (ctx : AclContext) : Set TopicFilter :=
  {f | acl.authorizeSubscribe ctx f.text = true}

/-- The names a role may receive. -/
def receivable (acl : TableAcl) (ctx : AclContext) : Set Bytes :=
  {n | topicNameValid n = true ∧ acl.authorizeReceive ctx n = true}

theorem allowed_of_rule {acl : TableAcl} {r : AclRule} {role need : UInt8} {subject : Bytes} (asFilter : Bool)
    (hr : r ∈ acl.rules) (hrole : r.role = role) (haccess : r.access &&& need ≠ 0)
    (hhit : (if asFilter then topicFilterCovers r.pattern subject else topicMatches r.pattern subject) = true) :
    acl.allowed role need subject asFilter = true := by
  refine List.any_eq_true.2 ⟨r, hr, ?_⟩
  rw [ruleGrants, if_neg (by simpa [hrole] using haccess)]
  exact hhit

/-- What a call leaves in the table of rules. -/
theorem step_rules (Z : AclSizes) (acl : TableAcl) (call : Call) : acl.rules <+: (step Z acl call).rules := by
  cases call with
  | addUser name password role =>
    rcases addUser_cases Z name password role acl with h | ⟨-, h⟩
    · exact ⟨[], by rw [step, h, List.append_nil]⟩
    · exact ⟨[], by rw [step, h, List.append_nil]⟩
  | allowAnonymous role => exact List.prefix_rfl
  | addRule role pattern access =>
    rcases addRule_cases Z role pattern access acl with h | ⟨-, h⟩
    · exact ⟨[], by rw [step, h, List.append_nil]⟩
    · rw [step, h]
      exact List.prefix_append ..

theorem run_rules_grow (Z : AclSizes) (calls : List Call) : ∀ more : List Call,
    (run Z calls).rules <+: (run Z (calls ++ more)).rules := by
  intro more
  induction more using List.reverseRecOn with
  | nil => exact ⟨[], by simp only [List.append_nil]⟩
  | append_singleton more call ih =>
    rw [← List.append_assoc, run_append]
    exact ih.trans (step_rules Z _ call)

/-- A role that may subscribe to a filter may receive what the filter matches. -/
theorem receive_of_subscribe {Z : AclSizes} {calls : List Call} {ctx : AclContext} {f n : Bytes}
    (hf : topicFilterValid f = true) (hgrant : (run Z calls).authorizeSubscribe ctx f = true)
    (hmatch : topicMatches f n = true) : (run Z calls).authorizeReceive ctx n = true := by
  obtain ⟨r, hr, hrole, haccess, hcover⟩ := exists_rule_of_allowed hgrant
  rw [if_pos rfl] at hcover
  exact allowed_of_rule false hr hrole haccess
    (topicMatches_of_covers (run_patterns_valid Z calls r hr) hf hcover hmatch)

/-- **Grants go down and never away.**  However the table was configured, a role that may subscribe to a filter may
subscribe to every filter under it and receive every name it matches, and further configuration takes back nothing it
may subscribe to or receive. -/
theorem subscribable_lower (Z : AclSizes) (calls more : List Call) (ctx : AclContext) :
    IsLowerSet ((run Z calls).subscribable ctx) ∧
      (∀ f ∈ (run Z calls).subscribable ctx, f.names ⊆ (run Z calls).receivable ctx) ∧
      (run Z calls).subscribable ctx ⊆ (run Z (calls ++ more)).subscribable ctx ∧
      (run Z calls).receivable ctx ⊆ (run Z (calls ++ more)).receivable ctx := by
  have hrule : ∀ f ∈ (run Z calls).subscribable ctx, ∃ r ∈ (run Z calls).rules, r.role = ctx.role ∧
      r.access &&& Access.read.code ≠ 0 ∧ topicFilterCovers r.pattern f.text = true := fun f hf => by
    have hgrant : (run Z calls).allowed ctx.role Access.read.code f.text true = true := hf
    obtain ⟨r, hr, hrole, haccess, hcover⟩ := exists_rule_of_allowed hgrant
    exact ⟨r, hr, hrole, haccess, hcover⟩
  refine ⟨fun f g hgf hf => ?_, fun f hf n hn => ?_, fun f hf => ?_, fun n hn => ?_⟩
  · obtain ⟨r, hr, hrole, haccess, hcover⟩ := hrule f hf
    have hunder : topicFilterCovers r.pattern g.text = true := covers_trans f.valid hcover hgf
    exact allowed_of_rule true hr hrole haccess hunder
  · obtain ⟨r, hr, hrole, haccess, hcover⟩ := hrule f hf
    have hin : n ∈ TopicFilter.names ⟨r.pattern, run_patterns_valid Z calls r hr⟩ := TopicFilter.names_mono hcover hn
    exact ⟨hn.1, allowed_of_rule false hr hrole haccess hin.2⟩
  · obtain ⟨r, hr, hrole, haccess, hcover⟩ := hrule f hf
    exact allowed_of_rule true ((run_rules_grow Z calls more).subset hr) hrole haccess hcover
  · obtain ⟨r, hr, hrole, haccess, hmatch⟩ := exists_rule_of_allowed hn.2
    exact ⟨hn.1, allowed_of_rule false ((run_rules_grow Z calls more).subset hr) hrole haccess hmatch⟩

/-- A role that may read "a/#" may subscribe to "a/+", and so to "a/b", whatever else is configured later. -/
theorem subscribable_lower_deeper : ∃ f g : TopicFilter, (f.text = [97, 47, 43] ∧ g.text = [97, 47, 98] ∧ g ≤ f) ∧
    f ∈ (run ⟨2, 2, 32, 32, 64⟩ [.addRule 1 [97, 47, 35] .read]).subscribable ⟨1⟩ ∧
    g ∈ (run ⟨2, 2, 32, 32, 64⟩ ([.addRule 1 [97, 47, 35] .read] ++ [.allowAnonymous 2])).subscribable ⟨1⟩ := by
  have hfv : topicFilterValid [97, 47, 43] = true := by decide +kernel
  have hgv : topicFilterValid [97, 47, 98] = true := by decide +kernel
  have hle : (⟨[97, 47, 98], hgv⟩ : TopicFilter) ≤ ⟨[97, 47, 43], hfv⟩ :=
    TopicFilter.le_iff.2 (show topicFilterCovers [97, 47, 43] [97, 47, 98] = true by decide +kernel)
  have hgrant :
      (run ⟨2, 2, 32, 32, 64⟩ [.addRule 1 [97, 47, 35] .read]).authorizeSubscribe ⟨1⟩ [97, 47, 43] = true := by
    decide +kernel
  obtain ⟨hlower, -, hgrow, -⟩ := subscribable_lower ⟨2, 2, 32, 32, 64⟩ [.addRule 1 [97, 47, 35] .read]
    [.allowAnonymous 2] ⟨1⟩
  exact ⟨⟨_, hfv⟩, ⟨_, hgv⟩, ⟨rfl, rfl, hle⟩, hgrant, hgrow (hlower hle hgrant)⟩

end TableAcl

end Minimosq
