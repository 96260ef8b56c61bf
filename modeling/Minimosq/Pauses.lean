import Minimosq.Subscribe
/-!
# Retained replay across pauses

A SUBSCRIBE begins a replay, every later `tick` continues it, and in between the broker does other things.  As long as
these leave the session's subscriptions and the retained store alone (`Period`), every retained entry meets its fate
once, in the order of the store.
-/
namespace Minimosq

variable {Ctx : Type} {P : Params Ctx}

/-! ## Distinct filters -/

/-- No filter stands twice in the session's table. -/
def Session.Distinct (s : Session Ctx) : Prop := ((table s.subs).map Prod.fst).Nodup

section
variable {σ σ' : Broker Ctx} {k : Nat} {s : Session Ctx}

theorem onSession_of (f : Work Ctx → Work Ctx) (hs : σ.sessions.slot k = some s) :
    σ.onSession k f = { σ with sessions := σ.sessions.set k (f (s, σ.trace)).1, trace := (f (s, σ.trace)).2 } := by
  rw [Broker.onSession, hs]

theorem Granting.slot {es : List (Bytes × QoS)} {codes : List UInt8} {s₂ : Session Ctx} {t : Trace Ctx}
    (h : Granting P k s es σ σ' codes s₂ t) : σ'.sessions.slot k = some s₂ := by
  rw [h.slots]
  exact Function.update_self ..

theorem replayFirst_flagged (ci : Nat) (hs : σ.sessions.slot k = some s) (hflag : s.anyRetainPending = true) :
    ∃ w, w = replayRetained P σ.conns ci k (σ.retained.toList P.T.maxRetained) ({ s with retainCursor := 0 }, σ.trace) ∧
      replayFirst P ci k s σ = { σ with sessions := σ.sessions.set k w.1, trace := w.2 } := by
  rw [replayFirst, if_pos hflag, onSession_of _ hs]
  exact ⟨_, rfl, rfl⟩

/-- Another slot is not touched, and the table is the one pass 2 left. -/
theorem subscribeValid_slot (P : Params Ctx) (k ci id : Nat) (es : List (Bytes × QoS)) (s : Session Ctx)
    (σ : Broker Ctx) : ∃ codes s' t, (σ.subscribeValid P k ci id es s).sessions = σ.sessions.set k s' ∧
      (σ.subscribeValid P k ci id es s).retained = σ.retained ∧
      Answers P k s σ.trace (table s.subs) es codes (table s'.subs) t ∧
      Adds (fun a => a.grants = false) (.subscribe k s (grantedOf es codes) :: t)
        (σ.subscribeValid P k ci id es s).trace := by
  obtain ⟨codes, s₂, t, σ₂, h, ⟨heq, -⟩ | heq⟩ := subscribeValid_granting P k ci id es s σ <;> rw [heq]
  · exact ⟨codes, s₂, t, h.slots, h.retained, h.answers, h.noted⟩
  by_cases hflag : s₂.anyRetainPending = true
  · obtain ⟨w, hw, heq⟩ := replayFirst_flagged (P := P) ci h.slot hflag
    have hacts := replayRetained_adds P σ₂.conns ci k (σ₂.retained.toList P.T.maxRetained)
      ({ s₂ with retainCursor := 0 }, σ₂.trace)
    have htable := replayRetained_table P σ₂.conns ci k (σ₂.retained.toList P.T.maxRetained)
      ({ s₂ with retainCursor := 0 }, σ₂.trace)
    rw [← hw] at hacts htable
    rw [heq]
    refine ⟨codes, w.1, t, ?_, h.retained, ?_, h.noted.trans hacts⟩
    · show σ₂.sessions.set k w.1 = _
      rw [h.slots, Pool.set, Pool.set, Pool.set, Function.update_idem]
    · rw [htable]
      exact h.answers
  · rw [replayFirst, if_neg hflag]
    exact ⟨codes, s₂, t, h.slots, h.retained, h.answers, h.noted⟩

theorem table_unsubscribeAll (filters : List Bytes) : ∀ subs : List Subscription,
    (unsubscribeAll subs filters).Sublist subs := by
  induction filters with
  | nil => exact fun subs => .refl subs
  | cons f filters ih => exact fun subs => (ih _).trans List.eraseP_sublist

theorem Move.distinct (m : Move P σ σ') (h : ∀ k s, σ.sessions.slot k = some s → s.Distinct) :
    ∀ k s, σ'.sessions.slot k = some s → s.Distinct := by
  intro k s' hs'
  have hwrite : ∀ {j s₁}, Function.update σ.sessions.slot j (some s₁) k = some s' → s₁.Distinct → s'.Distinct := by
    intro j s₁ hs' hdistinct
    rcases written_cases hs' with ⟨-, he⟩ | ⟨-, hs⟩
    · exact Option.some.inj he ▸ hdistinct
    · exact h k s' hs
  cases m with
  | aside sessions => exact h k s' (by rwa [sessions] at hs')
  | retain _ _ _ _ sessions => exact h k s' (by rwa [sessions] at hs')
  | @slot j acts o' sessions _ _ _ one subs =>
    rw [sessions, Function.update_apply] at hs'
    split at hs'
    · rename_i hk
      subst hs' hk
      cases hs : σ.sessions.slot k with
      | none =>
        rw [hs] at one
        generalize slotActs k acts = new at one
        cases one
        exact List.nodup_nil
      | some s =>
        rw [Session.Distinct, (subs s s' hs rfl).1]
        exact h k s hs
    · exact h k s' hs'
  | @subscribe j id es s hs eq =>
    obtain ⟨codes, s₁, t, hslots, -, hanswers, -⟩ := subscribeValid_slot P j s.conn id es s σ
    rw [eq, hslots] at hs'
    exact hwrite hs' (hanswers.nodup (h j s hs))
  | @unsubscribe j filters s hs eq =>
    rw [eq] at hs'
    exact hwrite hs' ((h j s hs).sublist (((table_unsubscribeAll filters s.subs).map _).map _))
  | @replay j s hs eq =>
    rw [eq, onSession_of _ hs] at hs'
    refine hwrite hs' ?_
    rw [Session.Distinct, replayRetained_table]
    exact h j s hs

theorem Amid.distinct (hσ : Amid P σ) (hs : σ.sessions.slot k = some s) : s.Distinct := by
  obtain ⟨inputs, hcourse⟩ := hσ.course
  have hE : Evolve P .init σ := (run_stepped P inputs).evolve.trans hcourse.evolve
  have hall : ∀ k s, σ.sessions.slot k = some s → s.Distinct := by
    clear hs hcourse hσ
    induction hE with
    | refl => exact fun k s hs => by cases hs
    | tail _ m ih => exact m.distinct ih
  exact hall k s hs

/-! ## The period -/

/-- `replay_retained` for the session in slot `k`, as `tick` calls it. -/
def replayAt (P : Params Ctx) (k : Nat) (σ : Broker Ctx) : Broker Ctx :=
  match σ.sessions.slot k with
  | none => σ
  | some s => σ.onSession k (replayRetained P σ.conns s.conn k (σ.retained.toList P.T.maxRetained))

/-- What that call offers, as the acts of it show. -/
def offersAt (P : Params Ctx) (k : Nat) (σ : Broker Ctx) : List Offer := offers k (actsSince σ (replayAt P k σ))

/-- The session in slot `k` stays, with its subscriptions and its cursor, and so does the retained store. -/
def Idle (k : Nat) (σ σ' : Broker Ctx) : Prop :=
  (∃ s s', σ.sessions.slot k = some s ∧ σ'.sessions.slot k = some s' ∧ s.SubsEq s') ∧ σ'.retained = σ.retained

/-- **A time in which neither the subscriptions of slot `k` nor the retained store change**, but by the replay: from one
state to another, with the states in which `replay_retained` was called for it. -/
inductive Period (P : Params Ctx) (k : Nat) (σ : Broker Ctx) : List (Broker Ctx) → Broker Ctx → Prop
  | start : Period P k σ [] σ
  | idle {visits : List (Broker Ctx)} {σ' σ'' : Broker Ctx} (before : Period P k σ visits σ') (move : Move P σ' σ'')
      (idle : Idle k σ' σ'') : Period P k σ visits σ''
  | visit {visits : List (Broker Ctx)} {σ' : Broker Ctx} (before : Period P k σ visits σ') :
      Period P k σ (visits ++ [σ']) (replayAt P k σ')

theorem replayAt_of (hs : σ.sessions.slot k = some s) :
    ∃ w, w = replayRetained P σ.conns s.conn k (σ.retained.toList P.T.maxRetained) (s, σ.trace) ∧
      replayAt P k σ = { σ with sessions := σ.sessions.set k w.1, trace := w.2 } := by
  unfold replayAt
  rw [hs]
  exact ⟨_, rfl, onSession_of _ hs⟩

theorem Move.trace (m : Move P σ σ') : σ.trace <:+ σ'.trace := by
  cases m with
  | aside _ _ trace | slot _ _ _ trace =>
    rw [trace]
    exact List.suffix_append _ _
  | retain _ _ _ _ _ _ _ trace =>
    rw [trace]
    exact (List.suffix_cons _ _).trans (List.suffix_append _ _)
  | @subscribe j id es s hs eq =>
    obtain ⟨codes, s', t, -, -, hanswers, hnoted⟩ := subscribeValid_slot P j s.conn id es s σ
    rw [eq]
    exact hanswers.trace.suffix.trans ((List.suffix_cons _ _).trans hnoted.suffix)
  | unsubscribe _ _ _ eq =>
    rw [eq]
    exact List.suffix_cons _ _
  | @replay j s hs eq =>
    rw [eq, onSession_of _ hs]
    exact (replayRetained_adds P σ.conns s.conn j (σ.retained.toList P.T.maxRetained) (s, σ.trace)).suffix

/-- What became of the entry at one of the visits. -/
def Fared (P : Params Ctx) (k : Nat) (subs : List Subscription) (visits : List (Broker Ctx)) (hi : Trace Ctx)
    (e : Entry) (os : List Offer) : Prop :=
  ∃ v ∈ visits, ∃ s, v.sessions.slot k = some s ∧ Fate P k subs s.authCtx v.trace hi e os

/-- **How far a replay for the subscriptions `subs` has come**: it stands before the entries `rest`, or all of the store
is done with, the flags are cleared and the cursor is 0.  What was offered is what became of the entries passed. -/
inductive Progress (P : Params Ctx) (k : Nat) (subs : List Subscription) (store : List Entry)
    (visits : List (Broker Ctx)) (σ : Broker Ctx) : Prop
  | unfinished {s : Session Ctx} {passed rest : List Entry} (hs : σ.sessions.slot k = some s)
      (hstore : store = passed ++ rest) (hflags : s.replaying = subs) (hcursor : s.retainCursor = passed.length)
      (fates : Fates (Fared P k subs visits σ.trace) passed (visits.flatMap (offersAt P k)))
  | finished {s : Session Ctx} (hs : σ.sessions.slot k = some s) (hflags : s.anyRetainPending = false)
      (hcursor : s.retainCursor = 0) (fates : Fates (Fared P k subs visits σ.trace) store
        (visits.flatMap (offersAt P k)))

theorem replaying_eq_nil : s.replaying = [] ↔ s.anyRetainPending = false := by
  rw [Session.replaying, List.filter_eq_nil_iff, Session.anyRetainPending, List.any_eq_false]

theorem anyRetainPending_clearPending (s : Session Ctx) : (clearPending s).anyRetainPending = false := by
  rw [Session.anyRetainPending, clearPending, List.any_eq_false]
  intro sub hsub
  obtain ⟨sub', -, rfl⟩ := List.mem_map.1 hsub
  exact Bool.false_ne_true

section
variable {subs : List Subscription} {store : List Entry} {visits : List (Broker Ctx)}

theorem Progress.idle (h : Progress P k subs store visits σ) (hidle : Idle k σ σ') (htrace : σ.trace <:+ σ'.trace) :
    Progress P k subs store visits σ' := by
  obtain ⟨⟨s, s', hs, hs', hsubs, hcursor⟩, -⟩ := hidle
  have hmono : ∀ e o, Fared P k subs visits σ.trace e o → Fared P k subs visits σ'.trace e o := by
    rintro e o ⟨v, hv, sv, hsv, hfate⟩
    exact ⟨v, hv, sv, hsv, hfate.mono List.suffix_rfl htrace⟩
  cases h with
  | unfinished hs₁ hstore hflags hcur fates =>
    rw [hs] at hs₁
    cases hs₁
    refine .unfinished hs' hstore ?_ (hcursor.trans hcur) (fates.mono hmono)
    rw [Session.replaying, hsubs]
    exact hflags
  | finished hs₁ hflags hcur fates =>
    rw [hs] at hs₁
    cases hs₁
    refine .finished hs' ?_ (hcursor.trans hcur) (fates.mono hmono)
    rw [Session.anyRetainPending, hsubs]
    exact hflags

theorem Progress.visit (h : Progress P k subs store visits σ) (hret : σ.retained.toList P.T.maxRetained = store) :
    Progress P k subs store (visits ++ [σ]) (replayAt P k σ) := by
  obtain ⟨s, hs⟩ : ∃ s, σ.sessions.slot k = some s := by
    cases h with
    | unfinished hs | finished hs => exact ⟨_, hs⟩
  obtain ⟨w, hw, heq⟩ := replayAt_of (P := P) hs
  obtain ⟨rest', w', hwalk, hrun⟩ := replayRetained_walk P σ.conns s.conn k (σ.retained.toList P.T.maxRetained)
      (s, σ.trace)
  rw [← hw] at hrun
  rw [hret] at hwalk
  obtain ⟨passed', hwalked, new, htrace, hfates⟩ := hwalk.walked
  have hslot : (replayAt P k σ).sessions.slot k = some w.1 := by
    rw [heq]
    exact Function.update_self ..
  have hgrow : w'.2 <:+ (replayAt P k σ).trace := by
    rw [heq, hrun]
    exact List.suffix_cons _ _
  have hoffers : offersAt P k σ = offers k new := by
    have hacts : actsSince σ (replayAt P k σ) = .replay k :: new := actsSince_eq (by rw [heq, hrun, htrace]; rfl)
    rw [offersAt, hacts]
    exact (offers_append k [.replay k] new).trans (List.append_nil _)
  have hold : ∀ e o, Fared P k subs visits σ.trace e o → Fared P k subs (visits ++ [σ]) (replayAt P k σ).trace e o := by
    rintro e o ⟨v, hv, sv, hsv, hfate⟩
    exact ⟨v, List.mem_append_left _ hv, sv, hsv, hfate.mono List.suffix_rfl (hwalked.acts.suffix.trans hgrow)⟩
  have hdone : rest' = [] → w.1.anyRetainPending = false ∧ w.1.retainCursor = 0 := by
    intro hnil
    rw [hrun, if_pos hnil]
    exact ⟨anyRetainPending_clearPending _, rfl⟩
  cases h with
  | @unfinished s₁ passed rest hs₁ hstore hflags hcursor fates =>
    rw [hs] at hs₁
    cases hs₁
    have hnew : Fates (Fared P k subs (visits ++ [σ]) (replayAt P k σ).trace) (passed ++ passed')
        ((visits ++ [σ]).flatMap (offersAt P k)) := by
      rw [List.flatMap_append, List.flatMap_singleton, hoffers]
      refine (fates.mono hold).append (hfates.mono fun e o hfate => ⟨σ, by simp, s, hs, ?_⟩)
      rw [← hflags]
      exact hfate.mono List.suffix_rfl hgrow
    have hsplit : rest = passed' ++ rest' := by
      have h := hwalked.split
      dsimp only at h
      rwa [hcursor, hstore, List.drop_left] at h
    by_cases hnil : rest' = []
    · obtain ⟨hclear, hzero⟩ := hdone hnil
      rw [hstore, hsplit, hnil, List.append_nil]
      exact .finished hslot hclear hzero hnew
    · rw [hrun, if_neg hnil] at hslot
      refine .unfinished hslot (by rw [hstore, hsplit, List.append_assoc]) ?_ ?_ hnew
      · rw [Session.replaying, hwalked.subs]
        exact hflags
      · rw [hwalked.cursor, if_neg hnil, List.length_append]
        exact congrArg (· + passed'.length) hcursor
  | finished hs₁ hflags hcursor fates =>
    rw [hs] at hs₁
    cases hs₁
    obtain ⟨hclear, hzero⟩ := hdone (hwalk.unflagged (replaying_eq_nil.2 hflags))
    refine .finished hslot hclear hzero ?_
    dsimp only at hfates
    rw [replaying_eq_nil.2 hflags] at hfates
    rw [List.flatMap_append, List.flatMap_singleton, hoffers, hfates.unflagged, List.append_nil]
    exact fates.mono hold

theorem Evolve.suffix (h : Evolve P σ σ') : σ.trace <:+ σ'.trace := by
  induction h with
  | refl => exact List.suffix_rfl
  | tail _ m ih => exact ih.trans m.trace

theorem Amid.sessionOf (hσ : Amid P σ) {ci : Nat} (hof : σ.sessionOf P (σ.conns ci) = some (k, s)) :
    σ.sessions.slot k = some s ∧ s.conn = ci := by
  obtain ⟨out, hL⟩ := hσ.linked
  by_cases hsess : (σ.conns ci).session = noSession
  · simp [Broker.sessionOf, hsess] at hof
  · obtain ⟨s', hof', hs', hconn⟩ := hL.sessionOf hsess
    rw [hof] at hof'
    cases hof'
    exact ⟨hs', hconn⟩

/-- **What a SUBSCRIBE begins in the slot `k` of the session `s`**, from the trace `t₀` and the state `σ₁` it leaves: it
flags the subscriptions it grants, and no others, and replays the store `store` for them from a state `σ₀` on.  The
entries of the store have the size of a payload, and of a packet.  Whatever period follows, the replay makes progress
in it; and if it grants nothing, nothing is being replayed. -/
def BeginsReplay (P : Params Ctx) (k : Nat) (s : Session Ctx) (es : List (Bytes × QoS)) (store : List Entry)
    (t₀ : Trace Ctx) (σ₁ σ₀ : Broker Ctx) (s₀ : Session Ctx) : Prop :=
  ∃ codes t, Answers P k s t₀ (table s.subs) es codes (table s₀.subs) t ∧
    (∀ sub ∈ s₀.subs, sub.retainPending = true ↔ sub.filter ∈ grantedOf es codes) ∧ σ₀.sessions.slot k = some s₀ ∧
    (grantedOf es codes ≠ [] → s₀.retainCursor = 0 ∧ s₀.replaying ≠ [] ∧ σ₁ = replayAt P k σ₀ ∧
      (∀ e ∈ store, e.payload.length ≤ P.T.maxPayloadLen ∧
        (P.T.outSize - packetOverhead ≤ maxRemainingLength → PublishFits P.T.outSize e.topic e.payload .atMostOnce)) ∧
      ∀ visits σ', Period P k σ₁ visits σ' → Progress P k s₀.replaying store (σ₀ :: visits) σ') ∧
    (grantedOf es codes = [] → σ₁ = σ₀ ∧ s₀.anyRetainPending = false)

theorem BeginsReplay.slot {es : List (Bytes × QoS)} {t₀ : Trace Ctx} {σ₁ σ₀ : Broker Ctx} {s₀ : Session Ctx}
    (h : BeginsReplay P k s es store t₀ σ₁ σ₀ s₀) : ∃ s₁, σ₁.sessions.slot k = some s₁ := by
  obtain ⟨codes, t, -, -, hs₀, hreplay, hnone⟩ := h
  by_cases hgranted : grantedOf es codes = []
  · rw [(hnone hgranted).1]
    exact ⟨s₀, hs₀⟩
  · obtain ⟨w, -, heq⟩ := replayAt_of (P := P) hs₀
    rw [(hreplay hgranted).2.2.1, heq]
    exact ⟨w.1, Function.update_self ..⟩

end

end

end Minimosq
