import Minimosq.Pauses
import Minimosq.RetainedMap
/-!
# Unfinished replays

A replay that a SUBSCRIBE began stays in the session as a flag on the subscription and a cursor into the retained store.
Whatever else the broker does, as long as the subscription and its connection stay, an entry that was there when the
filter was granted is offered or still ahead of the cursor, with one exception: a later SUBSCRIBE that does not grant
the filter again clears the flag.
-/
namespace Minimosq

variable {Ctx : Type} {P : Params Ctx}
variable {topic : Bytes} {acts lo newer : Trace Ctx} {granted : List Bytes}

/-! ## Places in the retained store -/

section
variable {T : Traits} {store store' : Pool Entry} {r : Nat} {e : Entry}

/-- Where `for_each` visits slot `r`: after the live slots before it. -/
def Pool.rank (store : Pool Entry) (r : Nat) : Nat := (store.toList r).length

theorem rank_congr (h : ∀ i, (store'.slot i).isSome = (store.slot i).isSome) (r : Nat) :
    store'.rank r = store.rank r := by
  have hlen : ∀ (s : Pool Entry) (l : List Nat),
      (l.filterMap s.slot).length = (l.filter (fun i => (s.slot i).isSome)).length := by
    intro s l
    rw [← List.countP_eq_length_filter, ← List.length_filterMap_eq_countP]
  rw [Pool.rank, Pool.rank, Pool.toList, Pool.toList, hlen, hlen]
  simp only [h]

theorem getElem_rank {cap : Nat} (hr : r < cap) (he : store.slot r = some e) :
    (store.toList cap)[store.rank r]? = some e := by
  obtain ⟨n, rfl⟩ : ∃ n, cap = r + (n + 1) := ⟨cap - r - 1, by omega⟩
  obtain ⟨rest, hrest⟩ : ∃ rest, store.toList (r + (n + 1)) = store.toList r ++ e :: rest := by
    rw [Pool.toList, List.range_add, List.filterMap_append, List.range_succ_eq_map, List.map_cons, List.filterMap_cons,
      Nat.add_zero, he]
    exact ⟨_, rfl⟩
  rw [hrest, Pool.rank, List.getElem?_append_right (Nat.le_refl _), Nat.sub_self]
  rfl

/-- **What `apply_retain` makes of the slots**, and where it finds the topic before and after. -/
inductive Changed (T : Traits) (topic : Bytes) (store store' : Pool Entry) : Prop
  | same (eq : store'.slot = store.slot)
  | removed (r : Nat) (before : Retained.find T topic store = some r) (after : Retained.find T topic store' = none)
      (eq : store'.slot = Function.update store.slot r none)
  | written (r : Nat) (e : Entry) (before : Retained.find T topic store = some r) (live : (store.slot r).isSome = true)
      (after : (Retained.find T topic store').isSome = true) (eq : store'.slot = Function.update store.slot r (some e))
  | added (r : Nat) (e : Entry) (before : Retained.find T topic store = none)
      (after : Retained.find T topic store' = some r) (eq : store'.slot = Function.update store.slot r (some e))

variable {f : Bytes → Option Entry}

theorem Represents.removed (h : Represents T store f) (hr : Retained.find T topic store = some r) :
    Changed T topic store (store.release T.maxRetained r) := by
  obtain ⟨e, he, rfl, hf⟩ := h.find_some hr
  have hlt := h.keyed.lt r e he
  refine .removed r hr ?_ ?_
  · cases hafter : Retained.find T e.topic (store.release T.maxRetained r) with
    | none => rfl
    | some r' =>
      obtain ⟨e', -, -, hf'⟩ := (h.release he).find_some hafter
      rw [Function.update_self] at hf'
      cases hf'
  · simp [Pool.release, he, Nat.not_le.2 hlt]

theorem find_isSome (hr : r < T.maxRetained) (he : store.slot r = some e) (htopic : e.topic = topic) :
    ∃ j, Retained.find T topic store = some j := by
  cases hfind : Retained.find T topic store with
  | some j => exact ⟨j, rfl⟩
  | none =>
    have hno := find_none hfind hr he
    rw [htopic, beq_self_eq_true] at hno
    cases hno

theorem Represents.changed (h : Represents T store f) (topic payload : Bytes) (qos : QoS) :
    Changed T topic store (Retained.applied T topic payload qos store) := by
  rw [Retained.applied]
  split
  · rw [Retained.remove]
    cases hr : Retained.find T topic store with
    | none => exact .same rfl
    | some r => exact h.removed hr
  rw [Retained.set]
  split
  · cases hr : Retained.find T topic store with
    | none => exact .same rfl
    | some r => exact h.removed hr
  cases hr : Retained.find T topic store with
  | some r =>
    obtain ⟨e, he, htopic, -⟩ := h.find_some hr
    simp only [he]
    have hslot : ∀ e', (store.set r e').slot r = some e' := fun e' => Function.update_self ..
    refine .written r _ hr (by rw [he]; rfl) (Option.isSome_iff_exists.2 ?_) rfl
    exact find_isSome (h.keyed.lt r e he) (hslot _) htopic
  | none =>
    rename_i hguard
    have htopic : assign T.maxTopicLen [] topic = topic := by
      simp only [Bool.or_eq_true, decide_eq_true_eq, not_or] at hguard
      exact if_neg hguard.1
    dsimp only
    rw [htopic]
    generalize hnew : (⟨topic, assign T.maxPayloadLen [] payload, qos⟩ : Entry) = new
    cases halloc : store.alloc T.maxRetained new with
    | none => exact .same rfl
    | some place =>
      obtain ⟨r, hfree, rfl⟩ := Option.map_eq_some_iff.1 halloc
      have hlt : r < T.maxRetained := List.mem_range.1 (List.mem_of_find?_eq_some hfree)
      have hslot : (⟨Function.update store.slot r (some new), store.count + 1⟩ : Pool Entry).slot r = some new :=
        Function.update_self ..
      obtain ⟨j, hj⟩ := find_isSome hlt hslot (by rw [← hnew] : new.topic = topic)
      have hjr : j = r := by
        by_contra hne
        obtain ⟨e, he, hpred⟩ := Minimosq.find_some hj
        dsimp only at he
        rw [Function.update_of_ne hne] at he
        exact (h.find_none hr).1 j e he (by simpa using hpred)
      exact .added r new hr (hjr ▸ hj) rfl

/-- An entry that no note names is as it was. -/
theorem Changed.untouched (h : Changed P.T topic store store') (σ : Broker Ctx)
    (hno : ∀ moved paused, .retained r moved paused ∉ σ.retainedNote P topic store store') :
    store'.slot r = store.slot r := by
  unfold Broker.retainedNote at hno
  have hne : ∀ {j : Nat} {moved : Bool}, (∀ m paused, (.retained r m paused : Act Ctx) ∉
      [.retained j moved (σ.pausedSlots P)]) → r ≠ j := by
    rintro j moved h rfl
    exact h _ _ (List.mem_singleton_self _)
  cases h with
  | same eq => rw [eq]
  | removed j before after eq =>
    rw [before, after] at hno
    rw [eq, Function.update_of_ne (hne hno)]
  | written j e before live after eq =>
    obtain ⟨i, hi⟩ := Option.isSome_iff_exists.1 after
    rw [before, hi] at hno
    rw [eq, Function.update_of_ne (hne hno)]
  | added j e before after eq =>
    rw [before, after] at hno
    rw [eq, Function.update_of_ne (hne hno)]

/-- Entries keep their places, or a note says that one came or went. -/
theorem Changed.unmoved (h : Changed P.T topic store store') (σ : Broker Ctx) :
    (∀ i, (store'.slot i).isSome = (store.slot i).isSome) ∨
      ∃ j, .retained j true (σ.pausedSlots P) ∈ σ.retainedNote P topic store store' := by
  unfold Broker.retainedNote
  cases h with
  | same eq => exact .inl fun i => by rw [eq]
  | removed j before after eq =>
    rw [before, after]
    exact .inr ⟨j, List.mem_singleton_self _⟩
  | written j e before live after eq =>
    refine .inl fun i => ?_
    rw [eq, Function.update_apply]
    split
    · rename_i hi
      rw [hi, live]
      rfl
    · rfl
  | added j e before after eq =>
    rw [before, after]
    exact .inr ⟨j, List.mem_singleton_self _⟩

end

section
variable {σ σ' : Broker Ctx} {k r : Nat} {f : Bytes} {s : Session Ctx} {e : Entry}

/-! ## Which acts a move adds -/

theorem Act.grants_eq_false {a : Act Ctx} (h : ∀ j s granted, a ≠ .subscribe j s granted) : a.grants = false := by
  cases a with
  | subscribe j s granted => exact absurd rfl (h j s granted)
  | _ => rfl

/-- **Only the handling of a SUBSCRIBE notes one.** -/
theorem Move.grants (m : Move P σ σ') : Adds (fun a => a.grants = false) σ.trace σ'.trace ∨
    ∃ k s id es, σ.sessions.slot k = some s ∧ σ' = σ.subscribeValid P k s.conn id es s ∧ Serves P σ σ' := by
  cases m with
  | aside _ _ trace hacts =>
    refine .inl ⟨_, trace, fun a ha => Act.grants_eq_false fun j s granted heq => ?_⟩
    have h := (hacts a ha).1
    rw [heq] at h
    cases h
  | slot k _ _ trace hacts =>
    refine .inl ⟨_, trace, fun a ha => Act.grants_eq_false fun j s granted heq => ?_⟩
    rcases hacts a ha with ⟨hslot, hsubs⟩ | ⟨hnone, -⟩
    · rw [heq] at hslot hsubs
      cases hslot
      simp [Act.isSubs] at hsubs
    · rw [heq] at hnone
      cases hnone
  | retain origin topic payload qos _ _ _ trace =>
    refine .inl ⟨σ.retainedNote P topic σ.retained σ'.retained ++ [.retain origin topic payload qos],
      by rw [trace, List.append_assoc]; rfl, List.forall_mem_append.2 ⟨fun a ha => ?_, by simp [Act.grants]⟩⟩
    unfold Broker.retainedNote at ha
    split at ha
    · rw [List.mem_singleton.1 ha]
      rfl
    · rw [List.mem_singleton.1 ha]
      rfl
    · rw [List.mem_singleton.1 ha]
      rfl
    · cases ha
  | @subscribe k id es s hs eq serves => exact .inr ⟨k, s, id, es, hs, eq, serves⟩
  | unsubscribe _ _ _ eq =>
    rw [eq]
    exact .inl (.one _ rfl)
  | @replay j s hs eq =>
    rw [eq, onSession_of _ hs]
    exact .inl (replayRetained_adds P σ.conns s.conn j (σ.retained.toList P.T.maxRetained) (s, σ.trace))

/-- Where a SUBSCRIBE was noted: not among acts that note none. -/
theorem split_grants {x u older : Trace Ctx} {b : Act Ctx} (hx : ∀ a ∈ x, a.grants = false) (hb : b.grants = true)
    (heq : x ++ u = newer ++ b :: older) : ∃ z, newer = x ++ z ∧ u = z ++ b :: older := by
  rcases List.append_eq_append_iff.1 heq with ⟨z, hz, hu⟩ | ⟨z, hx', hu⟩
  · exact ⟨z, hz, hu⟩
  · cases z with
    | nil => exact ⟨[], by rw [hx', List.append_nil, List.append_nil], hu.symm⟩
    | cons c z =>
      cases hu
      have hmem : b ∈ x := by
        rw [hx']
        exact List.mem_append_right _ List.mem_cons_self
      rw [hx b hmem] at hb
      cases hb

/-! ## The session stays -/

theorem Serves.stays (h : Serves P σ σ') (hs : σ.sessions.slot k = some s) :
    ∃ s', σ'.sessions.slot k = some s' ∧ s'.frame = s.frame ∧
      Adds (fun a => a.isSubs k = true → s.conn ≠ noConn) (slotActs k σ.trace) (slotActs k σ'.trace) := by
  refine (h k).inv (fun t o => ∃ s', o = some s' ∧ s'.frame = s.frame ∧
    Adds (fun a => a.isSubs k = true → s.conn ≠ noConn) (slotActs k σ.trace) t) ?_ ⟨s, hs, rfl, .refl _ _⟩
  rintro t o acts o' ⟨s₁, rfl, hframe, hadds⟩ ⟨s₁', s₂, hs₁, rfl, d⟩
  cases hs₁
  refine ⟨s₂, rfl, d.frame.trans hframe, hadds.trans ⟨acts, rfl, fun a ha hsubs => ?_⟩⟩
  cases d with
  | deliver d =>
    rw [Act.isSubs_of_delivers (d.delivers a ha)] at hsubs
    cases hsubs
  | subs _ _ _ hon => exact Session.conn_eq_of_frame hframe ▸ hon
  | publish _ _ _ _ _ hpub =>
    rw [List.mem_singleton.1 ha] at hsubs
    cases hpub <;> cases hsubs

theorem SlotStep.stays {h : Trace Ctx} {o' : Option (Session Ctx)} (d : SlotStep P k h (some s) acts o')
    (hon : s.conn ≠ noConn) (hno : ∀ ci, .detach k ci ∉ acts) :
    ∃ s', o' = some s' ∧ s'.conn = s.conn ∧ s'.authCtx = s.authCtx := by
  cases d with
  | serve d => exact ⟨_, rfl, Session.conn_eq_of_frame d.frame, Session.authCtx_eq_of_frame d.frame⟩
  | disconnect => exact ⟨_, rfl, rfl, rfl⟩
  | detach => exact absurd List.mem_cons_self (hno _)
  | release hoff | bind _ _ _ hoff | resume _ _ _ _ _ hoff | submit _ _ _ hoff => exact absurd hoff hon

/-! ## An entry ahead of the cursor -/

/-- Between the traces, the entry met its fate for subscriptions that match it: it was denied or offered. -/
def DoneWith (P : Params Ctx) (k : Nat) (e : Entry) (ctx : Ctx) (lo hi : Trace Ctx) : Prop :=
  ∃ subs os, matchingSubs subs e.topic ≠ [] ∧ Fate P k subs ctx lo hi e os

theorem DoneWith.mono {ctx : Ctx} {lo' hi hi' : Trace Ctx} (h : DoneWith P k e ctx lo hi) (hlo : lo' <:+ lo)
    (hhi : hi <:+ hi') : DoneWith P k e ctx lo' hi' := by
  obtain ⟨subs, os, hsome, hfate⟩ := h
  exact ⟨subs, os, hsome, hfate.mono hlo hhi⟩

theorem Fates.of_mem {F : Entry → List Offer → Prop} {es : List Entry} {os : List Offer} (h : Fates F es os)
    (he : e ∈ es) : ∃ o, F e o := by
  obtain ⟨oss, hall, -⟩ := h
  induction hall with
  | nil => cases he
  | cons hF _ ih =>
    rcases List.mem_cons.1 he with rfl | he
    · exact ⟨_, hF⟩
    · exact ih he

/-- **A replay settles the entries it passes and stops before the others**, with the flags as they were. -/
theorem replayRetained_ahead (P : Params Ctx) (conns : Nat → Conn) (ci k : Nat) {es : List Entry} {w : Work Ctx}
    {i : Nat}
    (hi : es[i]? = some e) (hcursor : w.1.retainCursor ≤ i) (hmatch : matchingSubs w.1.replaying e.topic ≠ []) :
    let w₁ := replayRetained P conns ci k es w
    DoneWith P k e w.1.authCtx w.2 w₁.2 ∨ w₁.1.subs = w.1.subs ∧ w₁.1.retainCursor ≤ i := by
  intro w₁
  obtain ⟨rest, w', hwalk, heq⟩ := replayRetained_walk P conns ci k es w
  obtain ⟨passed, hwalked, new, -, hfates⟩ := hwalk.walked
  have hw₁ : w₁ = _ := heq
  obtain ⟨j, rfl⟩ : ∃ j, i = w.1.retainCursor + j := ⟨i - w.1.retainCursor, by omega⟩
  have hj : (passed ++ rest)[j]? = some e := by
    rw [← hwalked.split, List.getElem?_drop]
    exact hi
  by_cases hlt : j < passed.length
  · rw [List.getElem?_append_left hlt] at hj
    obtain ⟨os, hfate⟩ := hfates.of_mem (List.mem_of_getElem? hj)
    refine .inl ⟨_, os, hmatch, hfate.mono List.suffix_rfl ?_⟩
    rw [hw₁]
    exact List.suffix_cons _ _
  · have hrest : rest ≠ [] := by
      rintro rfl
      rw [List.append_nil, List.getElem?_eq_none (Nat.not_lt.1 hlt)] at hj
      cases hj
    rw [if_neg hrest] at hw₁
    rw [hw₁]
    refine .inr ⟨hwalked.subs, ?_⟩
    rw [hwalked.cursor, if_neg hrest]
    omega

/-- The subscription to `f` is being replayed. -/
def Session.Replaying (s : Session Ctx) (f : Bytes) : Prop := ∃ sub ∈ s.subs, sub.filter = f ∧ sub.retainPending = true

theorem Session.Replaying.matches (h : s.Replaying f) (hmatch : topicMatches f e.topic = true) :
    matchingSubs s.replaying e.topic ≠ [] := by
  obtain ⟨sub, hsub, rfl, hflag⟩ := h
  exact List.ne_nil_of_mem (List.mem_filter.2 ⟨List.mem_filter.2 ⟨hsub, hflag⟩, hmatch⟩)

/-- **Where an entry stands since the session `s₀` was granted `f`**, at the trace `lo`: the session is still there,
with the subscription, on its connection; and the entry was settled or is ahead of the cursor of an unfinished replay,
if that connection is not given up on. -/
structure Awaits (P : Params Ctx) (k r : Nat) (f : Bytes) (e : Entry) (s₀ : Session Ctx) (lo : Trace Ctx)
    (σ : Broker Ctx) (s : Session Ctx) : Prop where
  slot : σ.sessions.slot k = some s
  on : s.conn ≠ noConn
  conn : s.conn = s₀.conn
  authCtx : s.authCtx = s₀.authCtx
  row : f ∈ (table s.subs).map Prod.fst
  stands : (σ.conns s.conn).dead = true ∨ DoneWith P k e s₀.authCtx lo σ.trace ∨
    s.Replaying f ∧ s.retainCursor ≤ σ.retained.rank r

/-- What is settled stays so, and an entry ahead stays ahead where flag, cursor and place do. -/
theorem Awaits.keep {s₀ s' : Session Ctx} (h : Awaits P k r f e s₀ lo σ s) (slot : σ'.sessions.slot k = some s')
    (conn : s'.conn = s.conn) (authCtx : s'.authCtx = s.authCtx) (row : f ∈ (table s'.subs).map Prod.fst)
    (trace : σ.trace <:+ σ'.trace) (dead : (σ.conns s.conn).dead = true → (σ'.conns s.conn).dead = true)
    (ahead : s.Replaying f → s.retainCursor ≤ σ.retained.rank r →
      (σ'.conns s.conn).dead = true ∨ DoneWith P k e s₀.authCtx lo σ'.trace ∨
        s'.Replaying f ∧ s'.retainCursor ≤ σ'.retained.rank r) : Awaits P k r f e s₀ lo σ' s' where
  slot := slot
  on := conn ▸ h.on
  conn := conn.trans h.conn
  authCtx := authCtx.trans h.authCtx
  row := row
  stands := by
    rw [conn]
    rcases h.stands with hdead | hsettled | ⟨hreplaying, hcursor⟩
    · exact .inl (dead hdead)
    · exact .inr (.inl (hsettled.mono List.suffix_rfl trace))
    · exact ahead hreplaying hcursor

/-! ## SUBSCRIBE -/

theorem replayRetained_frame (P : Params Ctx) (conns : Nat → Conn) (ci k : Nat) (es : List Entry) (w : Work Ctx) :
    (replayRetained P conns ci k es w).1.frame = w.1.frame := by
  obtain ⟨rest, w', hwalk, heq⟩ := replayRetained_walk P conns ci k es w
  obtain ⟨passed, hwalked, -⟩ := hwalk.walked
  rw [heq, ← hwalked.frame]
  split <;> rfl

theorem Marked.replaying {subs : List Subscription} (h : Marked subs granted) (hf : f ∈ granted) :
    ∃ sub ∈ subs, sub.filter = f ∧ sub.retainPending = true := by
  obtain ⟨row, hrow, rfl⟩ := List.mem_map.1 (h.rows f hf)
  obtain ⟨sub, hsub, rfl⟩ := List.mem_map.1 hrow
  exact ⟨sub, hsub, rfl, (h.flags sub hsub).2 hf⟩

/-- **A SUBSCRIBE keeps its session where it is**, and begins the replay of what it grants at the first entry. -/
structure Resubscribed (P : Params Ctx) (k : Nat) (s : Session Ctx) (es : List (Bytes × QoS)) (codes : List UInt8)
    (t : Trace Ctx) (σ σ' : Broker Ctx) (s' : Session Ctx) : Prop where
  slots : σ'.sessions = σ.sessions.set k s'
  retained : σ'.retained = σ.retained
  conn : s'.conn = s.conn
  authCtx : s'.authCtx = s.authCtx
  rows : ∀ f ∈ (table s.subs).map Prod.fst, f ∈ (table s'.subs).map Prod.fst
  before : Adds (fun a => a.grants = false) σ.trace t
  after : Adds (fun a => a.grants = false) (.subscribe k s (grantedOf es codes) :: t) σ'.trace
  begun : ∀ f r e, s.conn ≠ noConn → f ∈ grantedOf es codes → topicMatches f e.topic = true →
    (σ.retained.toList P.T.maxRetained)[σ.retained.rank r]? = some e →
    Awaits P k r f e s (.subscribe k s (grantedOf es codes) :: t) σ' s'

theorem subscribeValid_resubscribed (P : Params Ctx) (k id : Nat) (es : List (Bytes × QoS)) (hdist : s.Distinct)
    (σ : Broker Ctx) : ∃ codes t s', Resubscribed P k s es codes t σ (σ.subscribeValid P k s.conn id es s) s' := by
  obtain ⟨codes, s₂, t, σ₂, h, hend⟩ := subscribeValid_granting P k s.conn id es s σ
  have hmarked := h.marked hdist
  have hconn : s₂.conn = s.conn := by rw [h.session]
  have hctx : s₂.authCtx = s.authCtx := by rw [h.session]
  rcases hend with ⟨heq, hdead⟩ | heq <;> rw [heq]
  · refine ⟨codes, t, s₂, h.slots, h.retained, hconn, hctx, fun f => h.answers.rows, h.answers.trace, h.noted,
      fun f r e hon hf _ _ => ⟨h.slot, hconn ▸ hon, hconn, hctx, hmarked.rows f hf, .inl ?_⟩⟩
    rw [hconn]
    exact hdead
  by_cases hflag : s₂.anyRetainPending = true
  · obtain ⟨w, hw, heq⟩ := replayFirst_flagged (P := P) s.conn h.slot hflag
    have hacts := replayRetained_adds P σ₂.conns s.conn k (σ₂.retained.toList P.T.maxRetained)
      ({ s₂ with retainCursor := 0 }, σ₂.trace)
    have htable := replayRetained_table P σ₂.conns s.conn k (σ₂.retained.toList P.T.maxRetained)
      ({ s₂ with retainCursor := 0 }, σ₂.trace)
    have hframe := replayRetained_frame P σ₂.conns s.conn k (σ₂.retained.toList P.T.maxRetained)
      ({ s₂ with retainCursor := 0 }, σ₂.trace)
    rw [← hw] at hacts htable hframe
    have hconn' : w.1.conn = s.conn := (Session.conn_eq_of_frame hframe).trans hconn
    have hctx' : w.1.authCtx = s.authCtx := (Session.authCtx_eq_of_frame hframe).trans hctx
    have hslots : σ₂.sessions.set k w.1 = σ.sessions.set k w.1 := by
      rw [h.slots, Pool.set, Pool.set, Pool.set, Function.update_idem]
    rw [heq]
    refine ⟨codes, t, w.1, hslots, h.retained, hconn', hctx', fun f hf => ?_, h.answers.trace, h.noted.trans hacts,
      fun f r e hon hf hmatch he => ⟨Function.update_self .., hconn' ▸ hon, hconn', hctx', ?_, .inr ?_⟩⟩
    · rw [htable]
      exact h.answers.rows hf
    · rw [htable]
      exact hmarked.rows f hf
    · rw [← h.retained] at he
      have hreplaying : Session.Replaying { s₂ with retainCursor := 0 } f := hmarked.replaying hf
      rcases replayRetained_ahead P σ₂.conns s.conn k (w := ({ s₂ with retainCursor := 0 }, σ₂.trace)) he
        (Nat.zero_le _) (hreplaying.matches hmatch) with hdone | ⟨hsubs, hle⟩
      · rw [← hw] at hdone
        refine .inl (DoneWith.mono ?_ h.noted.suffix List.suffix_rfl)
        rw [← hctx]
        exact hdone
      · rw [← hw] at hsubs hle
        refine .inr ⟨?_, ?_⟩
        · rw [Session.Replaying, hsubs]
          exact hreplaying
        · exact hle
  · rw [replayFirst, if_neg hflag]
    refine ⟨codes, t, s₂, h.slots, h.retained, hconn, hctx, fun f => h.answers.rows, h.answers.trace, h.noted,
      fun f r e _ hf _ _ => absurd ?_ hflag⟩
    obtain ⟨sub, hsub, -, hpending⟩ := hmarked.replaying hf
    exact List.any_eq_true.2 ⟨sub, hsub, hpending⟩

/-! ## Every move -/

/-- **Nothing since the grant concerns the subscription or the entry**: the connection stays, no UNSUBSCRIBE names the
filter, the entry in slot `r` is not written, and none is added or removed while the replay is paused. -/
structure Undisturbed (k r : Nat) (f : Bytes) (newer : Trace Ctx) : Prop where
  connected : ∀ ci, .detach k ci ∉ newer
  subscribed : ∀ filters, .unsubscribe k filters ∈ newer → f ∉ filters
  stored : ∀ moved paused, .retained r moved paused ∉ newer
  placed : ∀ j paused, .retained j true paused ∈ newer → k ∉ paused

/-- **Every SUBSCRIBE that finds the replay of `f` unfinished grants `f` again.** -/
def Regranted (k : Nat) (f : Bytes) (newer : Trace Ctx) : Prop :=
  ∀ s granted, .subscribe k s granted ∈ newer → s.Replaying f → f ∈ granted

theorem Undisturbed.mono {newer' : Trace Ctx} (h : Undisturbed k r f newer) (hsub : newer' ⊆ newer) :
    Undisturbed k r f newer' where
  connected := fun ci hin => h.connected ci (hsub hin)
  subscribed := fun filters hin => h.subscribed filters (hsub hin)
  stored := fun moved paused hin => h.stored moved paused (hsub hin)
  placed := fun j paused hin => h.placed j paused (hsub hin)

theorem mem_unsubscribeAll_of_notMem {sub : Subscription} : ∀ {filters : List Bytes} {subs : List Subscription},
    sub ∈ subs → sub.filter ∉ filters → sub ∈ unsubscribeAll subs filters
  | [], _, h, _ => h
  | g :: filters, subs, h, hno => by
    show sub ∈ unsubscribeAll (subs.eraseP (fun sub => sub.filter == g)) filters
    refine mem_unsubscribeAll_of_notMem ?_ fun hin => hno (List.mem_cons_of_mem _ hin)
    refine (List.mem_eraseP_of_neg ?_).2 h
    have hne : sub.filter ≠ g := fun heq => hno (heq ▸ List.mem_cons_self)
    simpa using hne

/-- A move that leaves the session and the store as they are. -/
theorem Awaits.aside {s₀ : Session Ctx} (h : Awaits P k r f e s₀ lo σ s) (slot : σ'.sessions.slot k = some s)
    (retained : σ'.retained = σ.retained) (trace : σ.trace <:+ σ'.trace)
    (dead : (σ.conns s.conn).dead = true → (σ'.conns s.conn).dead = true) : Awaits P k r f e s₀ lo σ' s := by
  refine h.keep slot rfl rfl h.row trace dead fun hreplaying hcursor => .inr (.inr ⟨hreplaying, ?_⟩)
  rw [retained]
  exact hcursor

theorem notMem_pausedSlots (hk : k < P.T.maxSessions) (hs : σ.sessions.slot k = some s) (h : k ∉ σ.pausedSlots P) :
    ¬ s.Replaying f := by
  rintro ⟨sub, hsub, -, hflag⟩
  refine h (List.mem_filter.2 ⟨List.mem_range.2 hk, ?_⟩)
  rw [hs]
  exact List.any_eq_true.2 ⟨sub, hsub, hflag⟩

section
variable {s₀ : Session Ctx} {lo : Trace Ctx}

theorem Awaits.replayed (h : Awaits P k r f e s₀ lo σ s) (hmatch : topicMatches f e.topic = true)
    (he : (σ.retained.toList P.T.maxRetained)[σ.retained.rank r]? = some e) (hlo : lo <:+ σ.trace)
    (eq : σ' = σ.onSession k (replayRetained P σ.conns s.conn k (σ.retained.toList P.T.maxRetained))) :
    ∃ s', Awaits P k r f e s₀ lo σ' s' := by
  obtain ⟨w, hw⟩ : ∃ w, w = replayRetained P σ.conns s.conn k (σ.retained.toList P.T.maxRetained) (s, σ.trace) :=
    ⟨_, rfl⟩
  have hframe : w.1.frame = s.frame := by
    rw [hw]
    exact replayRetained_frame P σ.conns s.conn k (σ.retained.toList P.T.maxRetained) (s, σ.trace)
  have hσ' : σ' = { σ with sessions := σ.sessions.set k w.1, trace := w.2 } := by rw [eq, onSession_of _ h.slot, hw]
  have htrace : σ.trace <:+ σ'.trace := by
    rw [hσ', hw]
    exact (replayRetained_adds P σ.conns s.conn k (σ.retained.toList P.T.maxRetained) (s, σ.trace)).suffix
  refine ⟨w.1, h.keep ?_ (Session.conn_eq_of_frame hframe) (Session.authCtx_eq_of_frame hframe) ?_ htrace ?_
    fun hreplaying hcursor => .inr ?_⟩
  · rw [hσ']
    exact Function.update_self ..
  · rw [hw, replayRetained_table]
    exact h.row
  · rw [hσ']
    exact id
  · rcases replayRetained_ahead P σ.conns s.conn k (w := (s, σ.trace)) he hcursor (hreplaying.matches hmatch) with
      hdone | ⟨hsubs, hle⟩
    · rw [← hw] at hdone
      rw [hσ']
      rw [← h.authCtx]
      exact .inl (hdone.mono hlo List.suffix_rfl)
    · rw [← hw] at hsubs hle
      refine .inr ⟨?_, by rw [hσ']; exact hle⟩
      rw [Session.Replaying, hsubs]
      exact hreplaying

theorem Awaits.unsubscribed (h : Awaits P k r f e s₀ lo σ s) {filters : List Bytes} (hf : f ∉ filters)
    (eq : σ' = (σ.setSession k { s with subs := unsubscribeAll s.subs filters }).emit (.unsubscribe k filters)) :
    ∃ s', Awaits P k r f e s₀ lo σ' s' := by
  have hkept : ∀ sub ∈ s.subs, sub.filter = f → sub ∈ unsubscribeAll s.subs filters :=
    fun sub hsub heq => mem_unsubscribeAll_of_notMem hsub (heq ▸ hf)
  refine ⟨{ s with subs := unsubscribeAll s.subs filters }, h.keep ?_ rfl rfl ?_ ?_ ?_
    fun hreplaying hcursor => .inr (.inr ⟨?_, ?_⟩)⟩
  · rw [eq]
    exact Function.update_self ..
  · obtain ⟨row, hrow, heq⟩ := List.mem_map.1 h.row
    obtain ⟨sub, hsub, rfl⟩ := List.mem_map.1 hrow
    exact List.mem_map.2 ⟨_, List.mem_map.2 ⟨sub, hkept sub hsub heq, rfl⟩, heq⟩
  · rw [eq]
    exact List.suffix_cons _ _
  · rw [eq]
    exact id
  · obtain ⟨sub, hsub, heq, hflag⟩ := hreplaying
    exact ⟨sub, hkept sub hsub heq, heq, hflag⟩
  · rw [eq]
    exact hcursor

theorem Awaits.resubscribed (h : Awaits P k r f e s₀ lo σ s) (hmatch : topicMatches f e.topic = true)
    (he : (σ.retained.toList P.T.maxRetained)[σ.retained.rank r]? = some e) (hlo : lo <:+ σ.trace)
    {es : List (Bytes × QoS)} {codes : List UInt8} {t : Trace Ctx} {s' : Session Ctx}
    (hsub : Resubscribed P k s es codes t σ σ' s') (dead : (σ.conns s.conn).dead = true → (σ'.conns s.conn).dead = true)
    (hagain : s.Replaying f → f ∈ grantedOf es codes) : Awaits P k r f e s₀ lo σ' s' := by
  have htrace : σ.trace <:+ σ'.trace := hsub.before.suffix.trans ((List.suffix_cons _ _).trans hsub.after.suffix)
  refine h.keep (by rw [hsub.slots]; exact Function.update_self ..) hsub.conn hsub.authCtx
    (hsub.rows f h.row) htrace dead fun hreplaying _ => ?_
  rcases (hsub.begun f r e h.on (hagain hreplaying) hmatch he).stands with hdead | hdone | hahead
  · rw [hsub.conn] at hdead
    exact .inl hdead
  · rw [h.authCtx] at hdone
    exact .inr (.inl (hdone.mono (hlo.trans (hsub.before.suffix.trans (List.suffix_cons _ _))) List.suffix_rfl))
  · exact .inr (.inr hahead)

theorem Awaits.retained (h : Awaits P k r f e s₀ lo σ s) (hk : k < P.T.maxSessions)
    (hchanged : Changed P.T topic σ.retained σ'.retained) (sessions : σ'.sessions.slot = σ.sessions.slot)
    (conns : σ'.conns = σ.conns) (trace : σ.trace <:+ σ'.trace)
    (hplaced : ∀ j, .retained j true (σ.pausedSlots P) ∈ σ.retainedNote P topic σ.retained σ'.retained →
      k ∉ σ.pausedSlots P) : Awaits P k r f e s₀ lo σ' s := by
  refine h.keep (by rw [sessions, h.slot]) rfl rfl h.row trace (by rw [conns]; exact id) fun hreplaying hcursor => ?_
  rcases hchanged.unmoved σ with hsame | ⟨j, hj⟩
  · rw [← rank_congr hsame r] at hcursor
    exact .inr (.inr ⟨hreplaying, hcursor⟩)
  · exact absurd hreplaying (notMem_pausedSlots hk h.slot (hplaced j hj))

theorem Awaits.stepped (h : Awaits P k r f e s₀ lo σ s) {o' : Option (Session Ctx)}
    (sessions : σ'.sessions.slot = Function.update σ.sessions.slot k o') (retained : σ'.retained = σ.retained)
    (trace : σ.trace <:+ σ'.trace) (one : SlotStep P k (slotActs k σ.trace) (σ.sessions.slot k) (slotActs k acts) o')
    (subs : SameSubs (σ.sessions.slot k) o') (dead : StaysDead σ σ') (hno : ∀ ci, .detach k ci ∉ acts) :
    ∃ s', Awaits P k r f e s₀ lo σ' s' := by
  rw [h.slot] at one
  obtain ⟨s', rfl, hconn', hctx⟩ := one.stays h.on fun ci hin => hno ci (mem_slotActs.1 hin).1
  have hs' : σ'.sessions.slot k = some s' := by rw [sessions, Function.update_self]
  obtain ⟨hsubs, hcursor⟩ := subs s s' h.slot rfl
  refine ⟨s', h.keep hs' hconn' hctx ?_ trace (dead k s s' h.slot hs' hconn' h.on) fun hreplaying hle => .inr (.inr ?_)⟩
  · rw [hsubs]
    exact h.row
  · rw [Session.Replaying, hsubs, hcursor, retained]
    exact ⟨hreplaying, hle⟩

/-- **No move loses an entry that is held**, unless it is a SUBSCRIBE that does not grant the filter again. -/
theorem Move.held {g : Bytes → Option Entry} (m : Move P σ σ') (hrep : Represents P.T σ.retained g)
    (hdist : ∀ k s, σ.sessions.slot k = some s → s.Distinct) (hk : k < P.T.maxSessions)
    (htrace : σ'.trace = acts ++ σ.trace) (hund : Undisturbed k r f acts) (hagain : Regranted k f acts)
    (he : σ'.retained.slot r = some e) (hmatch : topicMatches f e.topic = true) (hlo : lo <:+ σ.trace)
    (ih : σ.retained.slot r = some e → ∃ s, Awaits P k r f e s₀ lo σ s) : ∃ s', Awaits P k r f e s₀ lo σ' s' := by
  have hplace : σ.retained.slot r = some e → (σ.retained.toList P.T.maxRetained)[σ.retained.rank r]? = some e :=
    fun he => getElem_rank (hrep.keyed.lt r e he) he
  have hgrow := m.trace
  cases m with
  | aside sessions retained _ _ dead =>
    rw [retained] at he
    obtain ⟨s, h⟩ := ih he
    have hs' : σ'.sessions.slot k = some s := by rw [sessions, h.slot]
    exact ⟨s, h.aside hs' retained hgrow (dead k s s h.slot hs' rfl h.on)⟩
  | @slot j acts' o' sessions retained trace _ one subs dead =>
    rw [retained] at he
    obtain ⟨s, h⟩ := ih he
    by_cases hj : k = j
    · subst hj
      have hacts : acts' = acts := List.append_cancel_right (trace.symm.trans htrace)
      subst hacts
      exact h.stepped sessions retained hgrow one subs dead hund.connected
    · have hs' : σ'.sessions.slot k = some s := by rw [sessions, Function.update_of_ne hj, h.slot]
      exact ⟨s, h.aside hs' retained hgrow (dead k s s h.slot hs' rfl h.on)⟩
  | retain origin topic payload qos sessions conns retained trace =>
    have hchanged : Changed P.T topic σ.retained σ'.retained := by
      rw [retained]
      exact hrep.changed topic payload qos
    have hacts : acts = σ.retainedNote P topic σ.retained σ'.retained ++ [.retain origin topic payload qos] := by
      refine List.append_cancel_right (htrace.symm.trans (trace.trans ?_))
      rw [List.append_assoc]
      rfl
    have hnotes : ∀ a ∈ σ.retainedNote P topic σ.retained σ'.retained, a ∈ acts := by
      intro a ha
      rw [hacts]
      exact List.mem_append_left _ ha
    rw [hchanged.untouched σ fun moved paused hin => hund.stored moved paused (hnotes _ hin)] at he
    obtain ⟨s, h⟩ := ih he
    exact ⟨s, h.retained hk hchanged sessions conns hgrow fun j hj => hund.placed j _ (hnotes _ hj)⟩
  | @subscribe j id es sj hs eq _ dead =>
    obtain ⟨codes, t, s', hsub⟩ := subscribeValid_resubscribed P j id es (hdist j sj hs) σ
    rw [← eq] at hsub
    rw [hsub.retained] at he
    obtain ⟨s, h⟩ := ih he
    by_cases hj : k = j
    · subst hj
      have hslot := h.slot
      rw [hs] at hslot
      cases hslot
      have hs' : σ'.sessions.slot k = some s' := by
        rw [hsub.slots]
        exact Function.update_self ..
      have hnoted : Act.subscribe k sj (grantedOf es codes) ∈ acts :=
        Adds.mem (p := (· ∈ acts)) ⟨acts, htrace, fun _ ha => ha⟩ hsub.before.suffix hsub.after.suffix
      exact ⟨s', h.resubscribed hmatch (hplace he) hlo hsub (dead k sj s' hs hs' hsub.conn h.on) (hagain sj _ hnoted)⟩
    · have hs' : σ'.sessions.slot k = some s := by
        rw [hsub.slots]
        exact (Function.update_of_ne hj ..).trans h.slot
      exact ⟨s, h.aside hs' hsub.retained hgrow (dead k s s h.slot hs' rfl h.on)⟩
  | @unsubscribe j filters sj hs eq =>
    have hret : σ'.retained = σ.retained := by
      rw [eq]
      rfl
    rw [hret] at he
    obtain ⟨s, h⟩ := ih he
    by_cases hj : k = j
    · subst hj
      have hslot := h.slot
      rw [hs] at hslot
      cases hslot
      refine h.unsubscribed (hund.subscribed filters ?_) eq
      rw [eq] at htrace
      rw [← List.append_cancel_right (show [.unsubscribe k filters] ++ σ.trace = acts ++ σ.trace from htrace)]
      exact List.mem_singleton_self _
    · refine ⟨s, h.aside ?_ hret hgrow (by rw [eq]; exact id)⟩
      rw [eq]
      exact (Function.update_of_ne hj ..).trans h.slot
  | @replay j sj hs eq =>
    have hσ' := eq
    rw [onSession_of _ hs] at hσ'
    have hret : σ'.retained = σ.retained := by rw [hσ']
    rw [hret] at he
    obtain ⟨s, h⟩ := ih he
    by_cases hj : k = j
    · subst hj
      have hslot := h.slot
      rw [hs] at hslot
      cases hslot
      exact h.replayed hmatch (hplace he) hlo eq
    · refine ⟨s, h.aside ?_ hret hgrow (by rw [hσ']; exact id)⟩
      rw [hσ']
      exact (Function.update_of_ne hj ..).trans h.slot

/-! ## Runs -/

/-- **A SUBSCRIBE noted in the trace was noted before the move, or by it.** -/
theorem Move.noted (m : Move P σ σ') (hdist : ∀ k s, σ.sessions.slot k = some s → s.Distinct) {older : Trace Ctx}
    (heq : σ'.trace = newer ++ .subscribe k s₀ granted :: older) :
    (∃ acts newer', σ'.trace = acts ++ σ.trace ∧ newer = acts ++ newer' ∧
      σ.trace = newer' ++ .subscribe k s₀ granted :: older) ∨
    s₀.conn ≠ noConn ∧ ∃ es codes s', granted = grantedOf es codes ∧ Resubscribed P k s₀ es codes older σ σ' s' := by
  rcases m.grants with ⟨x, hx, hxno⟩ | ⟨j, s, id, es, hs, heqσ, hserves⟩
  · obtain ⟨z, hz, hσ⟩ := split_grants hxno rfl (hx.symm.trans heq)
    exact .inl ⟨x, z, hx, hz, hσ⟩
  obtain ⟨codes, t, s', hsub⟩ := subscribeValid_resubscribed P j id es (hdist j s hs) σ
  rw [← heqσ] at hsub
  obtain ⟨x, hx, hxno⟩ := hsub.after
  obtain ⟨y, hy, hyno⟩ := hsub.before
  obtain ⟨z, hz, hnote⟩ := split_grants hxno rfl (hx.symm.trans heq)
  cases z with
  | nil =>
    cases hnote
    obtain ⟨s'', -, -, hadds⟩ := hserves.stays hs
    have hsplit : slotActs k σ'.trace
        = slotActs k x ++ .subscribe k s₀ (grantedOf es codes) :: (slotActs k y ++ slotActs k σ.trace) := by
      rw [hx, hy, slotActs_append, slotActs_cons_own rfl, slotActs_append]
    refine .inr ⟨?_, es, codes, s', rfl, hsub⟩
    exact hadds.mem (List.suffix_append (slotActs k y) _) ⟨_, hsplit.symm⟩ (by simp [Act.isSubs])
  | cons a z =>
    obtain ⟨rfl, ht⟩ : .subscribe j s (grantedOf es codes) = a ∧ t = z ++ .subscribe k s₀ granted :: older := by
      simpa using hnote
    obtain ⟨z', hz', hσ⟩ := split_grants hyno rfl (hy.symm.trans ht)
    refine .inl ⟨x ++ .subscribe j s (grantedOf es codes) :: y, z', ?_, ?_, hσ⟩
    · rw [hx, hy, List.append_assoc]
      rfl
    · rw [hz, hz', List.append_assoc]
      rfl

/-- What the induction over a run carries. -/
structure Keeps (P : Params Ctx) (σ : Broker Ctx) : Prop where
  represents : ∃ g, Represents P.T σ.retained g
  distinct : ∀ k s, σ.sessions.slot k = some s → s.Distinct
  held : ∀ k r f e s₀ granted newer older, k < P.T.maxSessions →
    σ.trace = newer ++ .subscribe k s₀ granted :: older → f ∈ granted → Undisturbed k r f newer → Regranted k f newer →
    σ.retained.slot r = some e → topicMatches f e.topic = true →
    ∃ s, Awaits P k r f e s₀ (.subscribe k s₀ granted :: older) σ s

theorem Move.represents (m : Move P σ σ') (h : ∃ g, Represents P.T σ.retained g) :
    ∃ g, Represents P.T σ'.retained g := by
  obtain ⟨g, hg⟩ := h
  cases m with
  | aside _ retained | slot _ _ retained =>
    rw [retained]
    exact ⟨g, hg⟩
  | retain _ topic payload qos _ _ retained =>
    rw [retained]
    exact ⟨_, hg.applied ⟨topic, payload, qos⟩⟩
  | @subscribe j id es s hs eq =>
    obtain ⟨codes, s', t, -, hret, -⟩ := subscribeValid_slot P j s.conn id es s σ
    rw [eq, hret]
    exact ⟨g, hg⟩
  | unsubscribe _ _ _ eq =>
    rw [eq]
    exact ⟨g, hg⟩
  | replay _ hs eq =>
    rw [eq, onSession_of _ hs]
    exact ⟨g, hg⟩

theorem Move.keeps (m : Move P σ σ') (h : Keeps P σ) : Keeps P σ' := by
  refine ⟨m.represents h.represents, m.distinct h.distinct, ?_⟩
  obtain ⟨g, hg⟩ := h.represents
  intro k r f e s₀ granted newer older hk htrace hf hund hagain he hmatch
  rcases m.noted h.distinct htrace with ⟨acts, newer', hacts, rfl, hbefore⟩ | ⟨hon, es, codes, s', rfl, hsub⟩
  · refine m.held hg h.distinct hk hacts (hund.mono (List.subset_append_left _ _))
      (fun s granted hin => hagain s granted (List.mem_append_left _ hin)) he hmatch ?_ fun he => ?_
    · rw [hbefore]
      exact List.suffix_append _ _
    · exact h.held k r f e s₀ granted newer' older hk hbefore hf (hund.mono (List.subset_append_right _ _))
        (fun s granted hin => hagain s granted (List.mem_append_right _ hin)) he hmatch
  · rw [hsub.retained] at he
    exact ⟨s', hsub.begun f r e hon hf hmatch (getElem_rank (hg.keyed.lt r e he) he)⟩

theorem init_keeps (P : Params Ctx) : Keeps P .init where
  represents := ⟨_, storeOf_represents P.T []⟩
  distinct := fun k s hs => by cases hs
  held := fun k r f e s₀ granted newer older _ htrace => by
    have hlen := congrArg List.length htrace
    simp [Broker.init] at hlen

theorem Evolve.keeps (h : Evolve P .init σ) : Keeps P σ := by
  induction h with
  | refl => exact init_keeps P
  | tail _ m ih => exact m.keeps ih

/-- The message was put into the queue of the session in slot `k`, or its loss was reported. -/
def Act.queues (k : Nat) (topic payload : Bytes) (eff : QoS) (retain : Bool) (a : Act Ctx) : Prop :=
  (∃ seq, a = .enqueue k seq topic payload eff retain) ∨
    ∃ e, a = .event e (some k) ∧ e.kind = .deliveryDropped ∧ e.topic = topic ∧ e.qos = eff

/-- The act offers the retained message: the transport took it at QoS 0, or it was handed to `enqueue`. -/
def Act.offers (T : Traits) (k : Nat) (e : Entry) (eff : QoS) (a : Act Ctx) : Prop :=
  (eff = .atMostOnce ∧ ∃ j ctx, a = .send j (retainedPublish T e) true (some ⟨k, ctx, none⟩)) ∨
    a.queues k e.topic e.payload eff true

theorem Offer.Carries.act {T : Traits} {eff : QoS} {o : Offer} {a : Act Ctx} (h : o.Carries T e eff)
    (ha : a.offer k = some o) : a.offers T k e eff := by
  unfold Act.offer at ha
  split at ha
  · rename_i tag
    obtain ⟨⟨rfl, hseq⟩, ho⟩ := Option.ite_none_right_eq_some.1 ha
    cases ho
    cases h
    obtain ⟨j, ctx, seq⟩ := tag
    cases hseq
    exact .inl ⟨rfl, _, _, rfl⟩
  · obtain ⟨rfl, ho⟩ := Option.ite_none_right_eq_some.1 ha
    cases ho
    cases h
    exact .inr (.inl ⟨_, rfl⟩)
  · rename_i ev slot
    obtain ⟨⟨rfl, hkind, -⟩, ho⟩ := Option.ite_none_right_eq_some.1 ha
    cases ho
    generalize htopic : ev.topic = topic, hqos : ev.qos = qos at h
    cases h
    exact .inr (.inr ⟨ev, rfl, hkind, htopic, hqos⟩)
  · cases ha

/-- What is done with was offered, or denied, since. -/
theorem DoneWith.since {ctx : Ctx} (h : DoneWith P k e ctx lo (newer ++ lo)) :
    (∃ a ∈ newer, ∃ eff, a.offers P.T k e eff) ∨
      ∃ filters t, lo <:+ t ∧ .matching k filters e.topic :: t <:+ newer ++ lo ∧
        P.sec.authorizeReceive (.matching k filters e.topic :: t) ctx e.topic = false := by
  have hmem : ∀ {a b : Act Ctx} {t u : Trace Ctx}, lo <:+ t → u ++ b :: t <:+ newer ++ lo → a ∈ u → a ∈ newer := by
    rintro a b t u ⟨x, rfl⟩ ⟨y, hy⟩ ha
    have heq : y ++ u ++ b :: x ++ lo = newer ++ lo := by
      rw [← hy]
      simp
    rw [← List.append_cancel_right heq]
    exact List.mem_append_left _ (List.mem_append_right _ ha)
  obtain ⟨subs, os, hsome, hfate⟩ := h
  cases hfate with
  | unmatched hno => exact absurd hno hsome
  | denied _ hlo hhi hask => exact .inr ⟨_, _, hlo, hhi, hask⟩
  | @offered t u eff o _ hlo hhi _ _ hoffers ho =>
    have hin : o ∈ offers k u := hoffers ▸ List.mem_singleton_self o
    obtain ⟨a, ha, hoffer⟩ := List.mem_filterMap.1 (List.mem_reverse.1 hin)
    exact .inl ⟨a, hmem hlo hhi ha, eff, ho.act hoffer⟩
  | oversize _ hlo hhi _ _ _ hd hdrop =>
    exact .inl ⟨_, hmem hlo hhi hd, _, .inr (.inr ⟨_, rfl, hdrop.1, hdrop.2.1, hdrop.2.2.1⟩)⟩

/-- **No replay is abandoned, if every SUBSCRIBE that finds it unfinished grants its filter again.**  Since the session
in slot `k` was granted `f`, a retained entry that matches `f` was offered, or denied by the policy; or the subscription
is still flagged, and the cursor is not beyond the entry. -/
theorem run_replay_held (P : Params Ctx) (inputs : List Input) {granted : List Bytes} {newer older : Trace Ctx}
    (hk : k < P.T.maxSessions) (htrace : (run P inputs).trace = newer ++ .subscribe k s₀ granted :: older)
      (hf : f ∈ granted)
    (hund : Undisturbed k r f newer) (hagain : Regranted k f newer) (he : (run P inputs).retained.slot r = some e)
    (hmatch : topicMatches f e.topic = true) :
    ∃ s, (run P inputs).sessions.slot k = some s ∧ s.conn = s₀.conn ∧ f ∈ (table s.subs).map Prod.fst ∧
      ((∃ a ∈ newer, ∃ eff, a.offers P.T k e eff) ∨
        (∃ filters t, .subscribe k s₀ granted :: older <:+ t ∧
          .matching k filters e.topic :: t <:+ (run P inputs).trace ∧
          P.sec.authorizeReceive (.matching k filters e.topic :: t) s₀.authCtx e.topic = false) ∨
        s.Replaying f ∧ s.retainCursor ≤ (run P inputs).retained.rank r) := by
  have hrun := run_stepped P inputs
  obtain ⟨s, h⟩ := (Evolve.keeps hrun.evolve).held k r f e s₀ granted newer older hk htrace hf hund hagain he hmatch
  refine ⟨s, h.slot, h.conn, h.row, ?_⟩
  rcases h.stands with hdead | hdone | hahead
  · -- no connection is dead when a call returns
    have hact := (hrun.sound.linked.of_session k s h.slot h.on).1
    rw [hrun.sound.flushed _ hact] at hdead
    cases hdead
  · rw [htrace] at hdone ⊢
    rcases hdone.since with hoffered | hdenied
    · exact .inl hoffered
    · exact .inr (.inl hdenied)
  · exact .inr (.inr hahead)

/-! ## Two SUBSCRIBEs -/

/-- The trace since the newest SUBSCRIBE of slot `k` that granted just `granted`. -/
def sinceGrant (k : Nat) (granted : List Bytes) : Trace Ctx → Option (Trace Ctx × Session Ctx × Trace Ctx)
  | [] => none
  | .subscribe j s g :: t =>
    if j = k ∧ g = granted then some ([], s, t)
    else (sinceGrant k granted t).map (fun x => (.subscribe j s g :: x.1, x.2))
  | a :: t => (sinceGrant k granted t).map (fun x => (a :: x.1, x.2))

theorem sinceGrant_spec : ∀ {t : Trace Ctx} {x : Trace Ctx × Session Ctx × Trace Ctx},
    sinceGrant k granted t = some x → t = x.1 ++ .subscribe k x.2.1 granted :: x.2.2 := by
  intro t
  induction t using sinceGrant.induct k granted with
  | case1 => simp [sinceGrant]
  | case2 j s g t h =>
    intro x hx
    rw [sinceGrant, if_pos h] at hx
    cases hx
    rw [h.1, h.2]
    rfl
  | case3 j s g t h ih =>
    intro x hx
    rw [sinceGrant, if_neg h] at hx
    obtain ⟨y, hy, rfl⟩ := Option.map_eq_some_iff.1 hx
    rw [ih hy]
    rfl
  | case4 a t hne ih =>
    intro x hx
    rw [sinceGrant] at hx
    · obtain ⟨y, hy, rfl⟩ := Option.map_eq_some_iff.1 hx
      rw [ih hy]
      rfl
    · exact hne

/-- The act neither disturbs the replay of the session in slot `k` nor offers it the entry. -/
def Act.apart (T : Traits) (k : Nat) (e : Entry) : Act Ctx → Bool
  | .detach j _ | .unsubscribe j _ => j != k
  | .retained _ _ _ | .enqueue _ _ _ _ _ _ => false
  | .event e _ => e.kind != .deliveryDropped
  | .send _ pkt ok _ => !ok || pkt != retainedPublish T e
  | _ => true

theorem apart_spec {T : Traits} (h : newer.all (Act.apart T k e) = true) :
    Undisturbed k r f newer ∧ ∀ a ∈ newer, ∀ eff, ¬ a.offers T k e eff := by
  rw [List.all_eq_true] at h
  refine ⟨⟨fun ci hin => ?_, fun filters hin => ?_, fun moved paused hin => ?_, fun j paused hin => ?_⟩,
    fun a ha eff hoffers => ?_⟩
  · simpa [Act.apart] using h _ hin
  · simpa [Act.apart] using h _ hin
  · simpa [Act.apart] using h _ hin
  · simpa [Act.apart] using h _ hin
  · rcases hoffers with ⟨-, j, ctx, rfl⟩ | ⟨seq, rfl⟩ | ⟨ev, rfl, hkind, -⟩
    · simpa [Act.apart] using h _ ha
    · simpa [Act.apart] using h _ ha
    · simpa [Act.apart, hkind] using h _ ha

/-- **A later SUBSCRIBE cancels an unfinished replay.**  Of two retained messages the transport takes the first and
refuses the second, once.  Before the next `tick` the client subscribes to another topic: that clears the flag, and the
second message is never offered. -/
theorem run_replay_cancelled : let P := bed (fun t _ _ => (t.filterMap Act.sent).length != 3)
    let e : Entry := ⟨[98], [2], .atMostOnce⟩
    let σ := run P ([.publish [97] [1] .atMostOnce true, .publish [98] [2] .atMostOnce true] ++ Input.connect 0 [99] {}
      ++ [.feed 0 (Wire.makeSubscribe 1 [([35], 0)]), .feed 0 (Wire.makeSubscribe 2 [([120], 0)]), .tick 1000,
        .tick 1100])
    ∃ newer s₀ older, σ.trace = newer ++ .subscribe 0 s₀ [[35]] :: older ∧ Undisturbed 0 1 [35] newer ∧
      σ.retained.slot 1 = some e ∧ topicMatches [35] e.topic = true ∧
      (∀ t ctx, P.sec.authorizeReceive t ctx e.topic = true) ∧
      (∀ a ∈ newer, ∀ eff, ¬ a.offers P.T 0 e eff) ∧
      ∃ s, σ.sessions.slot 0 = some s ∧ s.conn = s₀.conn ∧ [35] ∈ (table s.subs).map Prod.fst ∧ ¬ s.Replaying [35] := by
  intro P e σ
  have hgrant : (sinceGrant 0 [[35]] σ.trace).map (fun x => (x.1.all (Act.apart P.T 0 e), x.2.1.conn)) = some
      (true, 0) := by
    decide +kernel
  have hslot : (σ.sessions.slot 0).map (fun s => (s.conn, table s.subs, s.anyRetainPending))
      = some (0, [([35], .atMostOnce), ([120], .atMostOnce)], false) := by decide +kernel
  have hstored : σ.retained.slot 1 = some e := by decide +kernel
  clear_value σ
  obtain ⟨⟨newer, s₀, older⟩, hsince, heq⟩ := Option.map_eq_some_iff.1 hgrant
  obtain ⟨s, hs, hrows⟩ := Option.map_eq_some_iff.1 hslot
  simp only [Prod.mk.injEq] at heq hrows
  obtain ⟨hund, hno⟩ := apart_spec (f := [35]) (r := 1) heq.1
  refine ⟨newer, s₀, older, sinceGrant_spec hsince, hund, hstored, by decide, fun t ctx => rfl, hno, s, hs, ?_, ?_, ?_⟩
  · rw [hrows.1, heq.2]
  · rw [hrows.2.1]
    decide
  · rintro ⟨sub, hsub, -, hflag⟩
    have hnone := hrows.2.2
    rw [Session.anyRetainPending, List.any_eq_false] at hnone
    exact hnone sub hsub hflag

/-- Without that second SUBSCRIBE, and before the next `tick`. -/
theorem run_replay_held_paused : let P := bed (fun t _ _ => (t.filterMap Act.sent).length != 3)
    let σ := run P ([.publish [97] [1] .atMostOnce true, .publish [98] [2] .atMostOnce true] ++ Input.connect 0 [99] {}
      ++ [.feed 0 (Wire.makeSubscribe 1 [([35], 0)])])
    ∃ s, σ.sessions.slot 0 = some s ∧ s.Replaying [35] ∧ s.retainCursor ≤ σ.retained.rank 1 := by
  intro P σ
  have hgrant : (sinceGrant 0 [[35]] σ.trace).map
      (fun x => (x.1.all (Act.apart P.T 0 ⟨[98], [2], .atMostOnce⟩), x.1.all (fun a => !a.grants))) = some
        (true, true) := by
    decide +kernel
  have hstored : σ.retained.slot 1 = some ⟨[98], [2], .atMostOnce⟩ := by decide +kernel
  obtain ⟨inputs, hσ⟩ : ∃ inputs, run P inputs = σ := ⟨_, rfl⟩
  clear_value σ
  subst hσ
  obtain ⟨⟨newer, s₀, older⟩, hsince, heq⟩ := Option.map_eq_some_iff.1 hgrant
  simp only [Prod.mk.injEq] at heq
  obtain ⟨hund, hno⟩ := apart_spec (f := [35]) (r := 1) heq.1
  have hagain : Regranted 0 [35] newer := fun s granted hin => by
    have hgrants := List.all_eq_true.1 heq.2 _ hin
    cases hgrants
  have htrace := sinceGrant_spec hsince
  obtain ⟨s, hs, -, -, ⟨a, ha, eff, hoffers⟩ | ⟨filters, t, -, -, hask⟩ | hahead⟩ :=
    run_replay_held P inputs (by decide) htrace List.mem_cons_self hund hagain hstored (by decide)
  · exact absurd hoffers (hno a ha eff)
  · cases hask
  · exact ⟨s, hs, hahead⟩

end

end

end Minimosq
