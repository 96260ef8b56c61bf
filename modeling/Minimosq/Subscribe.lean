import Minimosq.Grammar
import Minimosq.Reply
import Minimosq.Replay
/-!
# SUBSCRIBE

A SUBSCRIBE whose body is not a topic list of valid filters has no effect but to end its connection.  Any other is
answered entry by entry: `Answers` says which code each entry gets and what it makes of the subscription table, and one
SUBACK with these codes is offered, for which there is always room.
-/
namespace Minimosq

variable {Ctx : Type} {P : Params Ctx}
variable {f : Bytes} {subs : List Subscription} {k : Nat} {s : Session Ctx} {t t' : Trace Ctx} {es : List (Bytes × QoS)}
  {codes : List UInt8}

/-! ## The subscription table -/

/-- The table of a session: its filters, and the QoS granted for each. -/
def table (subs : List Subscription) : List (Bytes × QoS) := subs.map (fun sub => (sub.filter, sub.granted))

/-- The table with `f` set to `q`, in its row or in a new one. -/
def setGrant (f : Bytes) (q : QoS) : List (Bytes × QoS) → List (Bytes × QoS)
  | [] => [(f, q)]
  | row :: rows => if row.1 = f then (f, q) :: rows else row :: setGrant f q rows

/-- What a grant makes of the subscriptions. -/
def grantSub (f : Bytes) (q : QoS) : List Subscription → List Subscription
  | [] => [{ filter := f, granted := q, retainPending := true }]
  | sub :: subs =>
    if sub.filter = f then { filter := f, granted := q, retainPending := true } :: subs else sub :: grantSub f q subs

theorem table_grantSub (f : Bytes) (q : QoS) : ∀ subs : List Subscription,
    table (grantSub f q subs) = setGrant f q (table subs)
  | [] => rfl
  | sub :: subs => by
    have ih := table_grantSub f q subs
    unfold table at ih ⊢
    rw [grantSub, List.map_cons, setGrant]
    split
    · rfl
    · rw [List.map_cons, ih]

theorem filters_setGrant (f : Bytes) (q : QoS) : ∀ rows : List (Bytes × QoS),
    (setGrant f q rows).map Prod.fst = if f ∈ rows.map Prod.fst then rows.map Prod.fst else rows.map Prod.fst ++ [f]
  | [] => rfl
  | row :: rows => by
    have ih := filters_setGrant f q rows
    rw [setGrant]
    by_cases hrow : row.1 = f
    · simp [hrow]
    · rw [if_neg hrow, List.map_cons, ih, List.map_cons]
      by_cases hmem : f ∈ rows.map Prod.fst
      · rw [if_pos hmem, if_pos (List.mem_cons_of_mem _ hmem)]
      · rw [if_neg hmem, if_neg (by simpa [Ne.symm hrow] using hmem)]
        rfl

/-- **Filters stay distinct.** -/
theorem nodup_setGrant {q : QoS} {rows : List (Bytes × QoS)} (h : (rows.map Prod.fst).Nodup) :
    ((setGrant f q rows).map Prod.fst).Nodup := by
  rw [filters_setGrant]
  split
  · exact h
  · rename_i hnot
    rw [List.nodup_append]
    refine ⟨h, List.nodup_singleton f, ?_⟩
    rintro a ha b hb rfl
    rw [List.mem_singleton.1 hb] at ha
    exact hnot ha

theorem findIdx_filter_none (h : subs.findIdx? (fun sub => sub.filter == f) = none) :
    f ∉ (table subs).map Prod.fst := by
  rw [List.findIdx?_eq_none_iff] at h
  simp only [table, List.map_map, List.mem_map, not_exists, not_and]
  rintro sub hsub rfl
  simpa using h sub hsub

theorem findIdx_filter_some {i : Nat} (h : subs.findIdx? (fun sub => sub.filter == f) = some i) :
    f ∈ (table subs).map Prod.fst := by
  obtain ⟨hlt, hi, -⟩ := List.findIdx?_eq_some_iff_getElem.1 h
  simp only [table, List.map_map, List.mem_map]
  exact ⟨subs[i], List.getElem_mem hlt, by simpa using hi⟩

theorem modify_last {α : Type} (g : α → α) (a : α) : ∀ l : List α, (l ++ [a]).modify l.length g = l ++ [g a]
  | [] => rfl
  | x :: l => by rw [List.cons_append, List.length_cons, List.modify_succ_cons, modify_last g a l, List.cons_append]

theorem grantSub_of_none (q : QoS) : ∀ {subs : List Subscription},
    subs.findIdx? (fun sub => sub.filter == f) = none →
    grantSub f q subs = subs ++ [{ filter := f, granted := q, retainPending := true }]
  | [], _ => rfl
  | sub :: subs, h => by
    rw [List.findIdx?_cons] at h
    split at h
    · cases h
    · rename_i hne
      have hne : sub.filter ≠ f := by simpa using hne
      rw [grantSub, if_neg hne, grantSub_of_none q (by simpa using h), List.cons_append]

theorem grantSub_of_some (q : QoS) : ∀ {subs : List Subscription} {i : Nat},
    subs.findIdx? (fun sub => sub.filter == f) = some i →
    grantSub f q subs = (subs.modify i (fun sub => { sub with granted := q })).modify i
      (fun sub => { sub with retainPending := true })
  | [], _, h => by cases h
  | sub :: subs, i, h => by
    rw [List.findIdx?_cons] at h
    split at h
    · rename_i heq
      have heq : sub.filter = f := by simpa using heq
      cases h
      rw [grantSub, if_pos heq, ← heq]
      rfl
    · rename_i hne
      have hne : sub.filter ≠ f := by simpa using hne
      obtain ⟨j, hj, rfl⟩ := Option.map_eq_some_iff.1 h
      rw [grantSub, if_neg hne, grantSub_of_some q hj]
      rfl

/-! ## The answers -/

/-- **How the entries of a SUBSCRIBE are answered**, in order, by the session `s` in slot `k`: from the trace and the
table before them, the codes, and the table and the trace after them. -/
inductive Answers (P : Params Ctx) (k : Nat) (s : Session Ctx) : Trace Ctx → List (Bytes × QoS) → List (Bytes × QoS) →
    List UInt8 → List (Bytes × QoS) → Trace Ctx → Prop
  | done {t : Trace Ctx} {rows : List (Bytes × QoS)} : Answers P k s t rows [] [] rows t
  | denied {t t' : Trace Ctx} {rows rows' es : List (Bytes × QoS)} {codes : List UInt8} {f : Bytes} {q : QoS}
      (hask : P.sec.authorizeSubscribe t s.authCtx f = false)
      (rest : Answers P k s (notifyDenied .subscribeDenied k s f t) rows es codes rows' t') :
      Answers P k s t rows ((f, q) :: es) (subackFailure :: codes) rows' t'
  /-- Too long, or new while the table is full. -/
  | refused {t t' : Trace Ctx} {rows rows' es : List (Bytes × QoS)} {codes : List UInt8} {f : Bytes} {q : QoS}
      (hask : P.sec.authorizeSubscribe t s.authCtx f = true)
      (hwhy : P.T.maxTopicLen < f.length ∨
        f ∉ rows.map Prod.fst ∧ rows.length = P.T.maxSubscriptionsPerSession)
      (rest : Answers P k s t rows es codes rows' t') :
      Answers P k s t rows ((f, q) :: es) (subackFailure :: codes) rows' t'
  | granted {t t' : Trace Ctx} {rows rows' es : List (Bytes × QoS)} {codes : List UInt8} {f : Bytes} {q : QoS}
      (hask : P.sec.authorizeSubscribe t s.authCtx f = true) (hfits : f.length ≤ P.T.maxTopicLen)
      (hroom : f ∈ rows.map Prod.fst ∨ rows.length ≠ P.T.maxSubscriptionsPerSession)
      (rest : Answers P k s t (setGrant f q rows) es codes rows' t') :
      Answers P k s t rows ((f, q) :: es) (UInt8.ofNat q.toNat :: codes) rows' t'

theorem Answers.nodup {rows rows' : List (Bytes × QoS)} (h : Answers P k s t rows es codes rows' t')
    (hrows : (rows.map Prod.fst).Nodup) : (rows'.map Prod.fst).Nodup := by
  induction h with
  | done => exact hrows
  | denied _ _ ih | refused _ _ _ ih => exact ih hrows
  | granted _ _ _ _ ih => exact ih (nodup_setGrant hrows)

theorem Answers.length {rows rows' : List (Bytes × QoS)} (h : Answers P k s t rows es codes rows' t') :
    codes.length = es.length := by
  induction h with
  | done => rfl
  | denied _ _ ih | refused _ _ _ ih | granted _ _ _ _ ih => rw [List.length_cons, List.length_cons, ih]

theorem Answers.trace {rows rows' : List (Bytes × QoS)} (h : Answers P k s t rows es codes rows' t') :
    Adds (fun a => a.grants = false) t t' := by
  induction h with
  | done => exact .refl _ _
  | denied _ _ ih => exact Adds.trans (.one _ rfl) ih
  | refused _ _ _ ih | granted _ _ _ _ ih => exact ih

/-- The filters of the table stay in it. -/
theorem Answers.rows {rows rows' : List (Bytes × QoS)} (h : Answers P k s t rows es codes rows' t')
    (hf : f ∈ rows.map Prod.fst) : f ∈ rows'.map Prod.fst := by
  induction h with
  | done => exact hf
  | denied _ _ ih | refused _ _ _ ih => exact ih hf
  | granted _ _ _ _ ih =>
    refine ih ?_
    rw [filters_setGrant]
    split
    · exact hf
    · exact List.mem_append_left _ hf

/-- **What one entry of pass 2 does.** -/
theorem subscribeEntry_cases (P : Params Ctx) (k : Nat) (acc : Pass2 Ctx) (f : Bytes) (q : QoS) :
    (P.sec.authorizeSubscribe acc.t acc.s.authCtx f = false ∧ subscribeEntry P k acc (f, q) =
      { acc with w := acc.w.u8 subackFailure, t := notifyDenied .subscribeDenied k acc.s f acc.t }) ∨
    (P.sec.authorizeSubscribe acc.t acc.s.authCtx f = true ∧
      (P.T.maxTopicLen < f.length ∨ f ∉ (table acc.s.subs).map Prod.fst ∧
        (table acc.s.subs).length = P.T.maxSubscriptionsPerSession) ∧
      subscribeEntry P k acc (f, q) = { acc with w := acc.w.u8 subackFailure }) ∨
    (P.sec.authorizeSubscribe acc.t acc.s.authCtx f = true ∧ f.length ≤ P.T.maxTopicLen ∧
      (f ∈ (table acc.s.subs).map Prod.fst ∨ (table acc.s.subs).length ≠ P.T.maxSubscriptionsPerSession) ∧
      subscribeEntry P k acc (f, q) =
        { s := { acc.s with subs := grantSub f q acc.s.subs }, w := acc.w.u8 (UInt8.ofNat q.toNat),
          granted := acc.granted ++ [f], t := acc.t }) := by
  have hlen : (table acc.s.subs).length = acc.s.subs.length := List.length_map _
  rw [hlen]
  unfold subscribeEntry
  cases hask : P.sec.authorizeSubscribe acc.t acc.s.authCtx f with
  | false => exact .inl ⟨rfl, rfl⟩
  | true =>
    right
    simp only [Bool.not_true, Bool.false_eq_true, if_false]
    unfold Broker.subscribeOne
    by_cases hlong : P.T.maxTopicLen < f.length
    · rw [if_pos hlong]
      exact .inl ⟨trivial, .inl hlong, rfl⟩
    rw [if_neg hlong, Session.findSub]
    have hfits := Nat.not_lt.1 hlong
    have hcheck : checkAssign [(P.T.maxTopicLen, f)] acc.t = acc.t := checkAssign_of_fits (by simpa using hfits) _
    cases hfind : acc.s.subs.findIdx? (fun sub => sub.filter == f) with
    | some i =>
      right
      refine ⟨trivial, hfits, .inl (findIdx_filter_some hfind), ?_⟩
      dsimp only
      rw [hcheck, ← grantSub_of_some q hfind]
    | none =>
      have hnew := findIdx_filter_none hfind
      by_cases hfull : acc.s.subs.length = P.T.maxSubscriptionsPerSession
      · left
        refine ⟨trivial, .inr ⟨hnew, hfull⟩, ?_⟩
        dsimp only
        rw [if_pos (by simpa using hfull)]
      · right
        refine ⟨trivial, hfits, .inr hfull, ?_⟩
        dsimp only
        rw [if_neg (by simpa using hfull)]
        dsimp only
        rw [hcheck, grantSub_of_none q hfind, assign_of_le hfits, modify_last]

/-! ## The flags -/

/-- **The subscriptions flagged are those granted**, among distinct filters. -/
structure Marked (subs : List Subscription) (granted : List Bytes) : Prop where
  distinct : ((table subs).map Prod.fst).Nodup
  flags : ∀ sub ∈ subs, sub.retainPending = true ↔ sub.filter ∈ granted
  rows : ∀ f ∈ granted, f ∈ (table subs).map Prod.fst

theorem mem_grantSub {q : QoS} {sub : Subscription} : ∀ {subs : List Subscription},
    ((table subs).map Prod.fst).Nodup → sub ∈ grantSub f q subs →
    sub = { filter := f, granted := q, retainPending := true } ∨ sub ∈ subs ∧ sub.filter ≠ f
  | [], _, h => .inl (List.mem_singleton.1 h)
  | x :: subs, hnodup, h => by
    obtain ⟨hx, hnodup⟩ := List.nodup_cons.1 (show (x.filter :: (table subs).map Prod.fst).Nodup from hnodup)
    rw [grantSub] at h
    split at h
    · rename_i heq
      rcases List.mem_cons.1 h with rfl | h
      · exact .inl rfl
      · refine .inr ⟨List.mem_cons_of_mem _ h, fun hsub => hx ?_⟩
        rw [heq, ← hsub, table, List.map_map]
        exact List.mem_map_of_mem h
    · rename_i hne
      rcases List.mem_cons.1 h with rfl | h
      · exact .inr ⟨List.mem_cons_self, hne⟩
      · exact (mem_grantSub hnodup h).imp_right fun ⟨hmem, hsub⟩ => ⟨List.mem_cons_of_mem _ hmem, hsub⟩

theorem Marked.grant {granted : List Bytes} (h : Marked subs granted) (f : Bytes) (q : QoS) :
    Marked (grantSub f q subs) (granted ++ [f]) where
  distinct := by
    rw [table_grantSub]
    exact nodup_setGrant h.distinct
  flags := fun sub hsub => by
    rcases mem_grantSub h.distinct hsub with rfl | ⟨hmem, hne⟩
    · simp
    · rw [h.flags sub hmem, List.mem_append, List.mem_singleton]
      exact ⟨.inl, fun hin => hin.resolve_right hne⟩
  rows := fun g hg => by
    rw [table_grantSub, filters_setGrant]
    split
    · rename_i hin
      rcases List.mem_append.1 hg with hg | hg
      · exact h.rows g hg
      · rw [List.mem_singleton.1 hg]
        exact hin
    · rw [List.mem_append]
      exact (List.mem_append.1 hg).imp_left (h.rows g)

theorem table_clear (subs : List Subscription) :
    table (subs.map (fun sub => { sub with retainPending := false })) = table subs := by
  rw [table, List.map_map]
  rfl

theorem marked_clear (h : ((table subs).map Prod.fst).Nodup) :
    Marked (subs.map (fun sub => { sub with retainPending := false })) [] where
  distinct := by
    rw [table_clear]
    exact h
  flags := fun sub hsub => by
    obtain ⟨sub', -, rfl⟩ := List.mem_map.1 hsub
    simp
  rows := fun f hf => by cases hf

/-! ## Pass 2 -/

/-- The filters granted: those of the entries whose code is not 0x80. -/
def grantedOf (es : List (Bytes × QoS)) (codes : List UInt8) : List Bytes :=
  ((es.zip codes).filter (fun answer => answer.2 != subackFailure)).map (fun answer => answer.1.1)

theorem grantedOf_refused (e : Bytes × QoS) (es : List (Bytes × QoS)) (codes : List UInt8) :
    grantedOf (e :: es) (subackFailure :: codes) = grantedOf es codes := by
  rw [grantedOf, List.zip_cons_cons, List.filter_cons_of_neg (by simp)]
  rfl

theorem grantedOf_granted (f : Bytes) (q : QoS) (es : List (Bytes × QoS)) (codes : List UInt8) :
    grantedOf ((f, q) :: es) (UInt8.ofNat q.toNat :: codes) = f :: grantedOf es codes := by
  have hcode : UInt8.ofNat q.toNat ≠ subackFailure := by cases q <;> decide
  rw [grantedOf, List.zip_cons_cons, List.filter_cons_of_pos (by simpa using hcode)]
  rfl

/-- **What pass 2 makes of the entries `es`**, on the accumulator `acc` that began as the session `s`. -/
structure PassedOver (P : Params Ctx) (k : Nat) (s : Session Ctx) (acc r : Pass2 Ctx) (es : List (Bytes × QoS))
    (codes : List UInt8) : Prop where
  answers : Answers P k s acc.t (table acc.s.subs) es codes (table r.s.subs) r.t
  session : r.s = { s with subs := r.s.subs }
  granted : r.granted = acc.granted ++ grantedOf es codes
  writes : ∀ {w : Writer} {b : Bytes}, Writes w acc.w b → Writes w r.w (b ++ codes)
  marked : Marked acc.s.subs acc.granted → Marked r.s.subs r.granted

theorem subscribeFold_passes (P : Params Ctx) (k : Nat) (s : Session Ctx) :
    ∀ (es : List (Bytes × QoS)) (acc : Pass2 Ctx), acc.s = { s with subs := acc.s.subs } →
      ∃ codes, PassedOver P k s acc (es.foldl (subscribeEntry P k) acc) es codes
  | [], acc, hs => ⟨[], .done, hs, (List.append_nil _).symm, fun hw => by rwa [List.append_nil], id⟩
  | (f, q) :: es, acc, hs => by
    have hctx : acc.s.authCtx = s.authCtx := by rw [hs]
    have hevent : notifyDenied .subscribeDenied k acc.s f acc.t = notifyDenied .subscribeDenied k s f acc.t := by
      rw [hs]
      rfl
    -- one more code, and the rest as the induction has it
    have hcode : ∀ {code : UInt8} {codes : List UInt8} {r : Pass2 Ctx} {w' : Writer},
        w' = acc.w.u8 code → (∀ {w : Writer} {b : Bytes}, Writes w w' b → Writes w r.w (b ++ codes)) →
        ∀ {w : Writer} {b : Bytes}, Writes w acc.w b → Writes w r.w (b ++ code :: codes) := by
      intro code codes r w' hw' hrest w b hw
      have h := hrest (hw' ▸ hw.trans (acc.w.writes_u8 code))
      rwa [List.append_assoc] at h
    rw [List.foldl_cons]
    rcases subscribeEntry_cases P k acc f q with ⟨hask, he⟩ | ⟨hask, hwhy, he⟩ | ⟨hask, hfits, hroom, he⟩ <;>
      rw [hctx] at hask <;> rw [he]
    · rw [hevent]
      obtain ⟨codes, h⟩ := subscribeFold_passes P k s es
        { acc with w := acc.w.u8 subackFailure, t := notifyDenied .subscribeDenied k s f acc.t } hs
      refine ⟨_, .denied hask h.answers, h.session, ?_, hcode rfl h.writes, h.marked⟩
      rw [h.granted, grantedOf_refused]
    · obtain ⟨codes, h⟩ := subscribeFold_passes P k s es { acc with w := acc.w.u8 subackFailure } hs
      refine ⟨_, .refused hask hwhy h.answers, h.session, ?_, hcode rfl h.writes, h.marked⟩
      rw [h.granted, grantedOf_refused]
    · obtain ⟨codes, h⟩ := subscribeFold_passes P k s es
        { s := { acc.s with subs := grantSub f q acc.s.subs }, w := acc.w.u8 (UInt8.ofNat q.toNat),
          granted := acc.granted ++ [f], t := acc.t } (by rw [hs])
      have hanswers := h.answers
      rw [table_grantSub] at hanswers
      refine ⟨_, .granted hask hfits hroom hanswers, h.session, ?_, hcode rfl h.writes, fun hm =>
        h.marked (hm.grant f q)⟩
      rw [h.granted, grantedOf_granted, List.append_assoc]
      rfl

theorem subscribePass2_passes (P : Params Ctx) (k packetId : Nat) (es : List (Bytes × QoS)) (s : Session Ctx)
    (t : Trace Ctx) : let r := subscribePass2 P k packetId es s t
    ∃ codes, Answers P k s t (table s.subs) es codes (table r.s.subs) r.t ∧ r.s = { s with subs := r.s.subs } ∧
      r.granted = grantedOf es codes ∧ Writes (Writer.make (P.T.outSize - packetOverhead)) r.w
        (u16Bytes packetId ++ codes) ∧
      (((table s.subs).map Prod.fst).Nodup → Marked r.s.subs r.granted) := by
  obtain ⟨codes, h⟩ := subscribeFold_passes P k s es
    { s := clearPending s, w := (Writer.make (P.T.outSize - packetOverhead)).u16 packetId, granted := [], t := t } rfl
  have hanswers := h.answers
  rw [show table (clearPending s).subs = table s.subs from table_clear s.subs] at hanswers
  exact ⟨codes, hanswers, h.session, h.granted, h.writes (Writer.writes_u16 _ _), fun hs => h.marked (marked_clear hs)⟩

/-! ## Room for the SUBACK -/

theorem length_flatMap_entryBytes (es : List (Bytes × QoS)) :
    3 * es.length ≤ (es.flatMap (entryBytes true)).length := by
  induction es with
  | nil => exact Nat.le_refl _
  | cons e es ih =>
    have he : 3 ≤ (entryBytes true e).length := by
      simp only [entryBytes, field, u16Bytes, List.length_append, List.length_cons, List.length_nil, if_true]
      omega
    rw [List.flatMap_cons, List.length_append, List.length_cons]
    omega

/-- Every entry takes more bytes than its code. -/
theorem IsTopicList.length_codes {body : Bytes} {id : Nat} (h : IsTopicList true body id es) :
    2 + es.length ≤ body.length := by
  have hes := length_flatMap_entryBytes es
  rw [h.body, List.length_append]
  simp only [u16Bytes, List.length_cons, List.length_nil]
  omega

/-! ## The SUBACK -/

section
variable {ci k : Nat} {s : Session Ctx} {σ : Broker Ctx} {body : Bytes}

/-- **What `send_to` does on a connection that is up**: the packet is offered, and if refused the connection is dead. -/
theorem sendTo_offers {ci : Nat} {σ : Broker Ctx} (hci : ci < P.T.maxConnections)
    (hup : (σ.conns ci).active = true ∧ (σ.conns ci).dead = false) {pkt : Bytes} (hpkt : pkt ≠ []) :
    ∃ ok tail, (σ.sendTo P none ci pkt).sessions = σ.sessions ∧ (σ.sendTo P none ci pkt).retained = σ.retained ∧
      (σ.sendTo P none ci pkt).trace = tail ++ .send ci pkt ok none :: σ.trace ∧ (∀ a ∈ tail, a.routine = true) ∧
      ∀ j pkt' ok' tag, .send j pkt' ok' tag ∉ tail := by
  rcases (sendTo_cases P none ci pkt σ).offered hci hup hpkt with ⟨-, hsent⟩ | ⟨-, hsent⟩
  · rw [hsent]
    exact ⟨true, [], rfl, rfl, rfl, by simp, by simp⟩
  · rw [hsent]
    refine ⟨false, [.dead ci, .event _ none], rfl, rfl, rfl, ?_, by simp⟩
    simp only [List.forall_mem_cons, List.not_mem_nil, false_imp_iff, implies_true, and_true]
    exact ⟨rfl, rfl⟩

theorem replayRetained_table (P : Params Ctx) (conns : Nat → Conn) (ci k : Nat) (es : List Entry) (w : Work Ctx) :
    table (replayRetained P conns ci k es w).1.subs = table w.1.subs := by
  obtain ⟨rest, w', hwalk, heq⟩ := replayRetained_walk P conns ci k es w
  obtain ⟨passed, hwalked, -⟩ := hwalk.walked
  rw [heq, ← hwalked.subs]
  split
  · exact table_clear w'.1.subs
  · rfl

theorem sendTo_keeps (P : Params Ctx) (tag : Option (Tag Ctx)) (ci : Nat) (pkt : Bytes) (σ : Broker Ctx) :
    (σ.sendTo P tag ci pkt).sessions = σ.sessions ∧ (σ.sendTo P tag ci pkt).retained = σ.retained ∧
      Adds (fun a => a.grants = false) σ.trace (σ.sendTo P tag ci pkt).trace := by
  have hcases := sendTo_cases P tag ci pkt σ
  generalize σ.sendTo P tag ci pkt = σ' at hcases ⊢
  cases hcases with
  | down => exact ⟨rfl, rfl, .refl _ _⟩
  | unbuilt => exact ⟨rfl, rfl, .one _ rfl⟩
  | taken => exact ⟨rfl, rfl, .one _ rfl⟩
  | refused => exact ⟨rfl, rfl, .cons _ rfl (.cons _ rfl (.one _ rfl))⟩

/-- **What pass 2 of a SUBSCRIBE made of its session**, once it is noted. -/
structure Granting (P : Params Ctx) (k : Nat) (s : Session Ctx) (es : List (Bytes × QoS)) (σ σ₂ : Broker Ctx)
    (codes : List UInt8) (s₂ : Session Ctx) (t : Trace Ctx) : Prop where
  answers : Answers P k s σ.trace (table s.subs) es codes (table s₂.subs) t
  session : s₂ = { s with subs := s₂.subs }
  marked : ((table s.subs).map Prod.fst).Nodup → Marked s₂.subs (grantedOf es codes)
  slots : σ₂.sessions = σ.sessions.set k s₂
  retained : σ₂.retained = σ.retained
  noted : Adds (fun a => a.grants = false) (.subscribe k s (grantedOf es codes) :: t) σ₂.trace

/-- Pass 3 of `handle_subscribe`. -/
def replayFirst (P : Params Ctx) (ci k : Nat) (s₂ : Session Ctx) (σ₂ : Broker Ctx) : Broker Ctx :=
  if s₂.anyRetainPending then
    σ₂.onSession k (fun w =>
      replayRetained P σ₂.conns ci k (σ₂.retained.toList P.T.maxRetained) ({ w.1 with retainCursor := 0 }, w.2))
  else σ₂

/-- **After pass 2 the replay begins**, unless the SUBACK did not fit. -/
theorem subscribeValid_granting (P : Params Ctx) (k ci id : Nat) (es : List (Bytes × QoS)) (s : Session Ctx)
    (σ : Broker Ctx) : ∃ codes s₂ t σ₂, Granting P k s es σ σ₂ codes s₂ t ∧
      (σ.subscribeValid P k ci id es s = σ₂ ∧ (σ₂.conns ci).dead = true ∨
        σ.subscribeValid P k ci id es s = replayFirst P ci k s₂ σ₂) := by
  obtain ⟨codes, hanswers, hsession, hgranted, -, hmarked⟩ := subscribePass2_passes P k id es s σ.trace
  unfold Broker.subscribeValid
  dsimp only
  generalize subscribePass2 P k id es s σ.trace = r at hanswers hsession hgranted hmarked
  rw [hgranted] at hmarked ⊢
  split
  · refine ⟨codes, r.s, r.t, _, ?_, .inl ⟨rfl, ?_⟩⟩
    · exact ⟨hanswers, hsession, hmarked, rfl, rfl, .cons _ rfl (.one _ rfl)⟩
    · rw [Broker.violation, setDead_conns, if_pos rfl]
  · obtain ⟨hslots, hret, htrace⟩ := sendTo_keeps P none ci (framePacket (makeFirstByte .suback 0) r.w.buf)
      { σ with sessions := σ.sessions.set k r.s, trace := .subscribe k s (grantedOf es codes) :: r.t }
    exact ⟨codes, r.s, r.t, _, ⟨hanswers, hsession, hmarked, hslots, hret, htrace⟩, .inr rfl⟩

/-- **After the SUBACK is offered**, and before the replay. -/
structure Subacked (P : Params Ctx) (ci k : Nat) (s : Session Ctx) (id : Nat) (es : List (Bytes × QoS))
    (σ σ₂ : Broker Ctx) (codes : List UInt8) (s₂ : Session Ctx) (t tail : Trace Ctx) (ok : Bool) : Prop
    extends Granting P k s es σ σ₂ codes s₂ t where
  trace : σ₂.trace = tail ++ .send ci (framePacket (makeFirstByte .suback 0) (u16Bytes id ++ codes)) ok none
    :: .subscribe k s (grantedOf es codes) :: t
  tail : ∀ a ∈ tail, a.routine = true

/-- **A valid SUBSCRIBE is answered, and then the replay begins** if any filter was granted. -/
theorem subscribeValid_subacked (hci : ci < P.T.maxConnections)
    (hup : (σ.conns ci).active = true ∧ (σ.conns ci).dead = false) (id : Nat) (es : List (Bytes × QoS))
    (hfits : 2 + es.length ≤ P.T.maxPacketSize ∧ 2 + es.length ≤ maxRemainingLength) :
    ∃ σ₂ codes s₂ t tail ok, Subacked P ci k s id es σ σ₂ codes s₂ t tail ok ∧
      σ.subscribeValid P k ci id es s = replayFirst P ci k s₂ σ₂ := by
  obtain ⟨codes, hanswers, hsession, hgranted, hwrites, hmarked⟩ := subscribePass2_passes P k id es s σ.trace
  unfold Broker.subscribeValid
  dsimp only
  generalize subscribePass2 P k id es s σ.trace = r at hanswers hsession hgranted hwrites hmarked
  have hlen : (u16Bytes id ++ codes).length = 2 + es.length := by
    rw [List.length_append, hanswers.length]
    rfl
  -- the SUBACK is no longer than the packet it answers
  have hok : r.w.ok = true := by
    refine hwrites.ok_iff.2 ⟨rfl, ?_⟩
    have hroom := packetSize_le_outSize P.T
    rw [hlen]
    simp only [Writer.make, List.length_nil]
    omega
  have hbuf : r.w.buf = u16Bytes id ++ codes := hwrites.buf hok
  have hpkt : framePacket (makeFirstByte .suback 0) (u16Bytes id ++ codes) ≠ [] := by
    rw [framePacket_eq (by omega)]
    exact List.cons_ne_nil _ _
  obtain ⟨ok, tail, hslots, hret, htrace, htail, -⟩ := sendTo_offers (P := P)
    (σ := { σ with sessions := σ.sessions.set k r.s, trace := .subscribe k s (grantedOf es codes) :: r.t }) hci hup hpkt
  rw [if_neg (by simp [hok]), hbuf, hgranted]
  rw [hgranted] at hmarked
  refine ⟨_, codes, r.s, r.t, tail, ok, ⟨⟨hanswers, hsession, hmarked, hslots, hret, ?_⟩, htrace, htail⟩, rfl⟩
  exact (sendTo_keeps ..).2.2

/-! ## The packet -/

/-- The body asks for `es`: a packet id, and valid filters with a QoS each. -/
def AsksFor (body : Bytes) (id : Nat) (es : List (Bytes × QoS)) : Prop :=
  IsTopicList true body id es ∧ ∀ e ∈ es, topicFilterValid e.1 = true

theorem handleSubscribe_invalid (hof : σ.sessionOf P (σ.conns ci) = some (k, s)) (h : ∀ id es, ¬ AsksFor body id es) :
    ∃ err, σ.handleSubscribe P ci body = σ.violation P ci err := by
  rw [Broker.handleSubscribe, derefSession_of hof]
  dsimp only
  split
  · exact ⟨_, rfl⟩
  rename_i hvalid
  split
  · exact ⟨_, rfl⟩
  rename_i herr
  refine absurd ⟨TopicListParser.list_of_entries (by simpa using herr), fun e he => ?_⟩ (h _ _)
  simp only [List.any_eq_true, not_exists, not_and, Bool.not_eq_true, Bool.not_eq_false'] at hvalid
  exact hvalid e he

theorem handleSubscribe_valid (hof : σ.sessionOf P (σ.conns ci) = some (k, s)) {id : Nat} (h : AsksFor body id es) :
    σ.handleSubscribe P ci body = σ.subscribeValid P k ci id es s := by
  obtain ⟨hes, herr, hid⟩ := TopicListParser.entries_of_list h.1
  rw [Broker.handleSubscribe, derefSession_of hof]
  dsimp only
  rw [hes, hid, herr, if_neg (by simpa using h.2), if_neg (by simp)]

/-- **A SUBSCRIBE is all or nothing, and answered entry by entry.**  A body that does not ask for valid filters leaves
every session as it was, and nothing is sent before its connection is dead.  Any other gets one SUBACK, with its packet
id and a code for each entry, and makes of the table what the codes say. -/
theorem handleSubscribe_answers (hci : ci < P.T.maxConnections)
    (hup : (σ.conns ci).active = true ∧ (σ.conns ci).dead = false) (hof : σ.sessionOf P (σ.conns ci) = some (k, s))
    (hlen : body.length ≤ P.T.maxPacketSize ∧ body.length ≤ maxRemainingLength) : let σ' := σ.handleSubscribe P ci body
    ((∀ id es, ¬ AsksFor body id es) → σ'.sessions = σ.sessions ∧ (σ'.conns ci).dead = true ∧
      ∃ e : Event, σ'.trace = .dead ci :: .event e none :: σ.trace) ∧
    (∀ id es, AsksFor body id es → ∃ codes t later ok s',
      Answers P k s σ.trace (table s.subs) es codes (table s'.subs) t ∧ codes.length = es.length ∧
      σ'.sessions.slot k = some s' ∧
      (((table s.subs).map Prod.fst).Nodup → ((table s'.subs).map Prod.fst).Nodup) ∧
      readPacket (framePacket (makeFirstByte .suback 0) (u16Bytes id ++ codes))
        = some (makeFirstByte .suback 0, u16Bytes id ++ codes) ∧
      σ'.trace = later ++ .send ci (framePacket (makeFirstByte .suback 0) (u16Bytes id ++ codes)) ok none
        :: .subscribe k s (grantedOf es codes) :: t ∧
      ∀ j pkt ok', .send j pkt ok' none ∉ later) := by
  intro σ'
  refine ⟨fun hno => ?_, fun id es hasks => ?_⟩
  · obtain ⟨err, herr⟩ := handleSubscribe_invalid hof hno
    rw [show σ' = σ.violation P ci err from herr, Broker.violation]
    refine ⟨rfl, ?_, _, rfl⟩
    rw [setDead_conns, if_pos rfl]
  have hcodes := hasks.1.length_codes
  obtain ⟨σ₂, codes, s₂, t, tail, ok, h, heq⟩ := subscribeValid_subacked (P := P) (k := k) (s := s) hci hup id
    es (by omega)
  have hσ' : σ' = _ := (handleSubscribe_valid hof hasks).trans heq
  have hslot : σ₂.sessions.slot k = some s₂ := by
    rw [h.slots]
    exact Function.update_self ..
  have hread : (u16Bytes id ++ codes).length ≤ maxRemainingLength := by
    rw [List.length_append, h.answers.length]
    simp only [u16Bytes, List.length_cons, List.length_nil]
    omega
  have huntagged : ∀ {acts : Trace Ctx}, (∀ a ∈ acts, a.routine = true) → ∀ j pkt ok', .send j pkt ok' none ∉ acts :=
    fun hacts j pkt ok' hin => absurd (hacts _ hin) (by simp [Act.routine])
  rw [hσ', replayFirst]
  split
  · obtain ⟨acts, hacts, hroutine⟩ := routinely_replayRetained (P := P) σ₂.conns ci k
        (σ₂.retained.toList P.T.maxRetained) ({ s₂ with retainCursor := 0 }, σ₂.trace)
    have htable := replayRetained_table P σ₂.conns ci k (σ₂.retained.toList P.T.maxRetained)
      ({ s₂ with retainCursor := 0 }, σ₂.trace)
    rw [Broker.onSession, hslot]
    refine ⟨codes, t, acts ++ tail, ok, _, ?_, h.answers.length, Function.update_self .., fun hs => ?_,
      readPacket_framePacket hread, ?_, huntagged ?_⟩
    · rw [htable]
      exact h.answers
    · rw [htable]
      exact h.answers.nodup hs
    · refine Eq.trans hacts ?_
      rw [h.trace, List.append_assoc]
    · exact List.forall_mem_append.2 ⟨hroutine, h.tail⟩
  · exact ⟨codes, t, tail, ok, s₂, h.answers, h.answers.length, hslot, h.answers.nodup,
      readPacket_framePacket hread, h.trace, huntagged h.tail⟩

/-- Two entries, of which the second asks for the first filter once more. -/
theorem handleSubscribe_answers_twice : let P := bed (fun _ _ _ => true)
    let σ := run P (Input.connect 0 [99] {})
    let es : List (Bytes × QoS) := [([97], .atLeastOnce), ([97], .atMostOnce)]
    ∃ s codes t s', σ.sessionOf P (σ.conns 0) = some (0, s) ∧
      Answers P 0 s σ.trace (table s.subs) es codes (table s'.subs) t ∧ codes.length = 2 ∧
      (σ.handleSubscribe P 0 (u16Bytes 7 ++ es.flatMap (entryBytes true))).sessions.slot 0 = some s' := by
  intro P σ es
  have hup : (σ.conns 0).active = true ∧ (σ.conns 0).dead = false := by decide +kernel
  have hof : ((σ.sessionOf P (σ.conns 0)).map Prod.fst) = some 0 := by decide +kernel
  have hasks : AsksFor (u16Bytes 7 ++ es.flatMap (entryBytes true)) 7 es :=
    ⟨⟨by decide, by decide, by decide, by simp [es, IsEntry, maxUtf8Len], rfl⟩, by decide⟩
  generalize σ = σ at hup hof
  obtain ⟨⟨k, s⟩, hof, rfl⟩ := Option.map_eq_some_iff.1 hof
  obtain ⟨codes, t, -, -, s', hanswers, hlen, hslot, -⟩ :=
    (handleSubscribe_answers (by decide) hup hof ⟨by decide, by decide⟩).2 7 es hasks
  exact ⟨s, codes, t, s', hof, hanswers, hlen, hslot⟩

end

end Minimosq
