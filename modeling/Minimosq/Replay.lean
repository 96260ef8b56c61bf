import Minimosq.Route
import Minimosq.Routine
/-!
# Retained replay

`replay_retained` walks the retained entries from its cursor on.  `Walk` is that walk, entry by entry: an entry is
passed over, handed to `enqueue`, sent, or, when the transport refuses it, the place where the walk stops and the next
one begins.  Along any number of walks with nothing changed in between, every entry is therefore offered once, in order.
What is offered is read off the trace (`offers`).
-/
namespace Minimosq

variable {Ctx : Type} {P : Params Ctx}
variable {w w' : Work Ctx} {here : Nat} {os : List Offer} {F : Entry → List Offer → Prop} {es : List Entry}

/-! ## What a walk offers -/

/-- A message offered to a session. -/
inductive Offer
  /-- Taken by the transport at QoS 0. -/
  | sent (pkt : Bytes)
  | queued (topic payload : Bytes) (qos : QoS) (retain : Bool)
  /-- Handed to `enqueue`, whose queue was full. -/
  | lost (topic : Bytes) (qos : QoS)

/-- The offer an act makes to the session in slot `k`. -/
def Act.offer (k : Nat) : Act Ctx → Option Offer
  | .send _ pkt true (some tag) => if tag.slot = k ∧ tag.seq = none then some (.sent pkt) else none
  | .enqueue j _ topic payload qos flag => if j = k then some (.queued topic payload qos flag) else none
  | .event e slot =>
    if slot = some k ∧ e.kind = .deliveryDropped ∧ e.err = .capacity then some (.lost e.topic e.qos) else none
  | _ => none

/-- The offers of these acts, in order. -/
def offers (k : Nat) (acts : Trace Ctx) : List Offer := (acts.filterMap (Act.offer k)).reverse

theorem offers_append (k : Nat) (new acts : Trace Ctx) : offers k (new ++ acts) = offers k acts ++ offers k new := by
  simp [offers, List.filterMap_append]

theorem Act.offer_of_pumps {k : Nat} {a : Act Ctx} (h : a.pumps = true) : a.offer k = none := by
  cases a with
  | send ci pkt ok tag =>
    cases tag with
    | none => cases h
    | some tag =>
      have hseq : tag.seq ≠ none := fun hn => by simp [Act.pumps, hn] at h
      cases ok with
      | false => rfl
      | true => exact if_neg (fun hc => hseq hc.2)
  | event e slot =>
    refine if_neg (fun hc => ?_)
    simp [Act.pumps, hc.2.2] at h
  | unbuilt | stuck => rfl
  | _ => cases h

/-- Reports that a message was dropped. -/
def Event.Drops (topic : Bytes) (qos : QoS) (err : Err) (d : Event) : Prop :=
  d.kind = .deliveryDropped ∧ d.topic = topic ∧ d.qos = qos ∧ d.err = err

/-- The subscriptions whose retained messages are being replayed. -/
def Session.replaying (s : Session Ctx) : List Subscription := s.subs.filter (fun sub => sub.retainPending)

/-- The note of matching an entry. -/
def matchNote (k : Nat) (s : Session Ctx) (e : Entry) : Act Ctx :=
  .matching k (s.replaying.map Subscription.filter) e.topic

/-- The QoS 0 PUBLISH of a retained message. -/
def retainedPublish (T : Traits) (e : Entry) : Bytes :=
  buildPublish T.outSize e.topic e.payload .atMostOnce true false 0

/-! ## The walk -/

/-- **The walk over the entries in front**, at number `here`: the session and trace it starts with, the entries it
leaves for the next walk, and the session and trace it ends with. -/
inductive Walk (P : Params Ctx) (conns : Nat → Conn) (ci k : Nat) :
    Nat → List Entry → Work Ctx → List Entry → Work Ctx → Prop
  | done {here : Nat} {w : Work Ctx} : Walk P conns ci k here [] w [] w
  | unmatched {here : Nat} {e : Entry} {es rest : List Entry} {w w' : Work Ctx}
      (hno : matchingSubs w.1.replaying e.topic = [])
      (next : Walk P conns ci k (here + 1) es (w.1, matchNote k w.1 e :: w.2) rest w') :
      Walk P conns ci k here (e :: es) w rest w'
  | denied {here : Nat} {e : Entry} {es rest : List Entry} {w w' : Work Ctx}
      (hsome : matchingSubs w.1.replaying e.topic ≠ [])
      (hask : P.sec.authorizeReceive (matchNote k w.1 e :: w.2) w.1.authCtx e.topic = false)
      (next : Walk P conns ci k (here + 1) es
        (w.1, notifyDenied .receiveDenied k w.1 e.topic (matchNote k w.1 e :: w.2)) rest w') :
      Walk P conns ci k here (e :: es) w rest w'
  | queued {here : Nat} {e : Entry} {es rest : List Entry} {w w' : Work Ctx} {eff : QoS}
      (hsome : matchingSubs w.1.replaying e.topic ≠ [])
      (hask : P.sec.authorizeReceive (matchNote k w.1 e :: w.2) w.1.authCtx e.topic = true)
      (heff : IsEffective e.qos w.1.replaying e.topic eff) (hqos : eff ≠ .atMostOnce)
      (next : Walk P conns ci k (here + 1) es
        (enqueue P conns k e.topic e.payload eff true (w.1, matchNote k w.1 e :: w.2)) rest w') :
      Walk P conns ci k here (e :: es) w rest w'
  | sent {here : Nat} {e : Entry} {es rest : List Entry} {w w' : Work Ctx}
      (hsome : matchingSubs w.1.replaying e.topic ≠ [])
      (hask : P.sec.authorizeReceive (matchNote k w.1 e :: w.2) w.1.authCtx e.topic = true)
      (heff : IsEffective e.qos w.1.replaying e.topic .atMostOnce)
      (hfits : PublishFits P.T.outSize e.topic e.payload .atMostOnce)
      (next : Walk P conns ci k (here + 1) es
        (w.1, .send ci (retainedPublish P.T e) true (tagOf k w.1 none) :: matchNote k w.1 e :: w.2) rest w') :
      Walk P conns ci k here (e :: es) w rest w'
  /-- No packet can carry it. -/
  | dropped {here : Nat} {e : Entry} {es rest : List Entry} {w w' : Work Ctx}
      (hsome : matchingSubs w.1.replaying e.topic ≠ [])
      (hask : P.sec.authorizeReceive (matchNote k w.1 e :: w.2) w.1.authCtx e.topic = true)
      (heff : IsEffective e.qos w.1.replaying e.topic .atMostOnce)
      (hno : ¬ PublishFits P.T.outSize e.topic e.payload .atMostOnce)
      (next : Walk P conns ci k (here + 1) es
        (w.1, notifyDrop k w.1 e.topic .atMostOnce .oversize
          (.unbuilt (some k) :: matchNote k w.1 e :: w.2)) rest w') :
      Walk P conns ci k here (e :: es) w rest w'
  | paused {here : Nat} {e : Entry} {es : List Entry} {w : Work Ctx} {refusal : Trace Ctx}
      (hsome : matchingSubs w.1.replaying e.topic ≠ [])
      (hask : P.sec.authorizeReceive (matchNote k w.1 e :: w.2) w.1.authCtx e.topic = true)
      (heff : IsEffective e.qos w.1.replaying e.topic .atMostOnce)
      (hrefusal : refusal = [] ∧ (P.T.maxConnections ≤ ci ∨ (conns ci).active = false ∨ (conns ci).dead = true) ∨
        refusal = [.send ci (retainedPublish P.T e) false (tagOf k w.1 none)]) :
      Walk P conns ci k here (e :: es) w (e :: es)
        ({ w.1 with retainCursor := here }, refusal ++ matchNote k w.1 e :: w.2)

section
variable {conns : Nat → Conn} {ci k : Nat}

/-- The note of a SUBSCRIBE. -/
def Act.grants : Act Ctx → Bool
  | .subscribe _ _ _ => true
  | _ => false

/-- The work leaves the session where it is, with its subscriptions and its replay, and handles no SUBSCRIBE. -/
structure Abides (w w' : Work Ctx) : Prop where
  frame : w'.1.frame = w.1.frame
  subs : w.1.SubsEq w'.1
  acts : Adds (fun a => a.grants = false) w.2 w'.2

theorem Abides.trace (h : Abides w w') : w.2 <:+ w'.2 := h.acts.suffix

theorem Abides.trans {w'' : Work Ctx} (h : Abides w w') (h' : Abides w' w'') : Abides w w'' :=
  ⟨h'.frame.trans h.frame, ⟨h'.subs.1.trans h.subs.1, h'.subs.2.trans h.subs.2⟩, h.acts.trans h'.acts⟩

theorem Abides.note (a : Act Ctx) (ha : a.grants = false) (w : Work Ctx) : Abides w (w.1, a :: w.2) :=
  ⟨rfl, ⟨rfl, rfl⟩, .one a ha⟩

theorem Act.grants_of_delivers {a : Act Ctx} (h : a.delivers = true) : a.grants = false := by
  cases a with
  | subscribe => cases h
  | _ => rfl

theorem pumpSession_abides (P : Params Ctx) (conns : Nat → Conn) (k : Nat) (w : Work Ctx) :
    Abides w (pumpSession P conns k w) := by
  obtain ⟨-, new, htrace, -, run⟩ := pumpSession_works P conns k w
  obtain ⟨hframe, hsubs, acts, hacts, hdelivers⟩ := run.inv
    (fun h s => s.frame = w.1.frame ∧ w.1.SubsEq s ∧ Adds (fun a => a.delivers = true) (slotActs k w.2) h)
    (fun _ _ _ _ e d => ⟨d.frame.trans e.1, ⟨d.subsEq.1.trans e.2.1.1, d.subsEq.2.trans e.2.1.2⟩,
      e.2.2.trans ⟨_, rfl, d.delivers⟩⟩) ⟨rfl, ⟨rfl, rfl⟩, .refl _ _⟩
  rw [← List.append_cancel_right hacts] at hdelivers
  exact ⟨hframe, hsubs, new, htrace, fun a ha => Act.grants_of_delivers (hdelivers a ha)⟩

/-- What became of a message handed to `enqueue`, as the acts of it show. -/
inductive Handed (T : Traits) (k : Nat) (topic payload : Bytes) (eff : QoS) (retain : Bool) (new : Trace Ctx) : Prop
  | queued (h : offers k new = [.queued topic payload eff retain])
  | lost (h : offers k new = [.lost topic eff])
  | oversize {d : Event} (hlong : T.maxPayloadLen < payload.length) (h : offers k new = [])
      (hd : .event d (some k) ∈ new) (hdrop : d.Drops topic eff .oversize)

/-- **`enqueue` queues the message or reports it dropped**, and offers nothing else. -/
theorem enqueue_abides (P : Params Ctx) (conns : Nat → Conn) (k : Nat) (topic payload : Bytes) (eff : QoS)
    (retain : Bool) (w : Work Ctx) : Abides w (enqueue P conns k topic payload eff retain w) ∧
      ∃ new, (enqueue P conns k topic payload eff retain w).2 = new ++ w.2 ∧
        Handed P.T k topic payload eff retain new := by
  unfold enqueue
  split
  · rename_i hlong
    exact ⟨.note _ rfl w, [_], rfl, .oversize hlong (by simp [offers, Act.offer]) (List.mem_singleton_self _)
      ⟨rfl, rfl, rfl, rfl⟩⟩
  split
  · exact ⟨.note _ rfl w, [_], rfl, .lost (by simp [offers, Act.offer])⟩
  dsimp only
  generalize hs₁ : { w.1 with pending := w.1.pending ++ [outMsg P.T w.1 topic payload eff retain],
                              nextSeq := w.1.nextSeq + 1 } = s₁
  generalize ht₁ : Act.enqueue k w.1.nextSeq topic payload eff retain ::
      checkAssign [(P.T.maxTopicLen, topic), (P.T.maxPayloadLen, payload)] w.2 = t₁
  obtain ⟨new, htrace, hgrants, hoffers⟩ : ∃ new, t₁ = new ++ w.2 ∧ (∀ a ∈ new, a.grants = false) ∧
      offers k new = [.queued topic payload eff retain] := by
    rw [← ht₁, checkAssign]
    split
    · exact ⟨[_, _], rfl, by simp [Act.grants], by simp [offers, Act.offer]⟩
    · exact ⟨[_], rfl, by simp [Act.grants], by simp [offers, Act.offer]⟩
  have hone : Abides w (s₁, t₁) := ⟨by rw [← hs₁]; rfl, by rw [← hs₁]; exact ⟨rfl, rfl⟩, new, htrace, hgrants⟩
  split
  · obtain ⟨more, hmore, hpumps⟩ := pumping_pumpSession (P := P) conns k (s₁, t₁)
    have hnone : offers k more = [] := by
      rw [offers, List.filterMap_eq_nil_iff.2 (fun a ha => Act.offer_of_pumps (hpumps a ha))]
      rfl
    refine ⟨hone.trans (pumpSession_abides P conns k (s₁, t₁)), more ++ new, ?_, .queued ?_⟩
    · rw [hmore, htrace, List.append_assoc]
    · rw [offers_append, hnone, hoffers]
      rfl
  · exact ⟨hone, new, htrace, .queued hoffers⟩

theorem replayLoop_paused : ∀ (es : List Entry) (here : Nat) (w : Work Ctx),
    replayLoop P conns ci k es here true w = (true, w)
  | [], _, _ => rfl
  | e :: es, here, w => by
    have hone : replayOne P conns ci k e here true w = (true, w) := rfl
    rw [replayLoop, hone]
    exact replayLoop_paused es (here + 1) w

theorem replayLoop_skip (P : Params Ctx) (conns : Nat → Conn) (ci k : Nat) :
    ∀ (before es : List Entry) (here : Nat) (w : Work Ctx), here + before.length ≤ w.1.retainCursor →
    replayLoop P conns ci k (before ++ es) here false w = replayLoop P conns ci k es (here + before.length) false w
  | [], es, here, w, _ => rfl
  | e :: before, es, here, w, h => by
    have hlt : here < w.1.retainCursor := by simp only [List.length_cons] at h; omega
    have hone : replayOne P conns ci k e here false w = (false, w) := by
      unfold replayOne
      rw [if_pos (by simpa using hlt)]
    have hnext : here + (before.length + 1) = here + 1 + before.length := by omega
    rw [List.cons_append, replayLoop, hone, List.length_cons, hnext]
    exact replayLoop_skip P conns ci k before es (here + 1) w (by simp only [List.length_cons] at h; omega)

theorem replayOne_at (e : Entry) (h : w.1.retainCursor ≤ here) : replayOne P conns ci k e here false w =
      let g := grantedMax w.1.replaying e.topic
      let t := matchNote k w.1 e :: w.2
      if !g.1 then (false, (w.1, t))
      else if !P.sec.authorizeReceive t w.1.authCtx e.topic then
        (false, (w.1, notifyDenied .receiveDenied k w.1 e.topic t))
      else if qosMin g.2 e.qos != .atMostOnce then
        (false, enqueue P conns k e.topic e.payload (qosMin g.2 e.qos) true (w.1, t))
      else if (retainedPublish P.T e).isEmpty then
        (false, (w.1, notifyDrop k w.1 e.topic .atMostOnce .oversize (.unbuilt (some k) :: t)))
      else
        let r := trySendTo P conns (tagOf k w.1 none) ci (retainedPublish P.T e) t
        if !r.1 then (true, ({ w.1 with retainCursor := here }, r.2)) else (false, (w.1, r.2)) := by
  unfold replayOne
  rw [if_neg (by simpa using h)]
  rfl

/-- **The loop of `replay_retained` is a walk**, from the cursor on; it is paused when the walk leaves entries. -/
theorem replayLoop_walk (P : Params Ctx) (conns : Nat → Conn) (ci k : Nat) :
    ∀ (es : List Entry) (here : Nat) (w : Work Ctx), w.1.retainCursor ≤ here →
    ∃ rest w', Walk P conns ci k here es w rest w' ∧
      replayLoop P conns ci k es here false w = (!rest.isEmpty, w')
  | [], here, w, _ => ⟨[], w, .done, rfl⟩
  | e :: es, here, w, h => by
    -- Past this entry, the walk goes on with the others.
    have honward : ∀ w₁ : Work Ctx, w₁.1.retainCursor = w.1.retainCursor →
        (∀ {rest w'}, Walk P conns ci k (here + 1) es w₁ rest w' → Walk P conns ci k here (e :: es) w rest w') →
        ∃ rest w', Walk P conns ci k here (e :: es) w rest w' ∧
          replayLoop P conns ci k es (here + 1) false w₁ = (!rest.isEmpty, w') := by
      intro w₁ hcursor hpast
      obtain ⟨rest, w', hwalk, hloop⟩ := replayLoop_walk P conns ci k es (here + 1) w₁ (by omega)
      exact ⟨rest, w', hpast hwalk, hloop⟩
    have hany := grantedMax_any w.1.replaying e.topic
    have heff : IsEffective e.qos w.1.replaying e.topic (qosMin (grantedMax w.1.replaying e.topic).2 e.qos) := by
      have h := grantedMax_effective e.qos w.1.replaying e.topic
      rw [IsEffective, qosMin_toNat] at h ⊢
      rw [Nat.min_comm, h]
    rw [replayLoop, replayOne_at e h]
    dsimp only
    generalize qosMin (grantedMax w.1.replaying e.topic).2 e.qos = eff at heff
    cases hg : (grantedMax w.1.replaying e.topic).1 with
    | false => exact honward _ rfl (.unmatched (by simpa [hg] using hany))
    | true =>
      have hsome : matchingSubs w.1.replaying e.topic ≠ [] := hany.1 hg
      cases hask : P.sec.authorizeReceive (matchNote k w.1 e :: w.2) w.1.authCtx e.topic with
      | false => exact honward _ rfl (.denied hsome hask)
      | true =>
        simp only [Bool.not_true, Bool.false_eq_true, if_false]
        by_cases hqos : eff = .atMostOnce
        · subst hqos
          simp only [bne_self_eq_false, Bool.false_eq_true, if_false]
          cases hpkt : (retainedPublish P.T e).isEmpty with
          | true =>
            have hno : ¬ PublishFits P.T.outSize e.topic e.payload .atMostOnce := by
              rw [← buildPublish_ne_nil_iff, not_not]
              exact List.isEmpty_iff.1 hpkt
            exact honward _ rfl (.dropped hsome hask heff hno)
          | false =>
            have hpkt : retainedPublish P.T e ≠ [] := by simpa using hpkt
            have hfits : PublishFits P.T.outSize e.topic e.payload .atMostOnce := buildPublish_ne_nil_iff.1 hpkt
            rcases trySendTo_cases P conns (tagOf k w.1 none) ci hpkt (matchNote k w.1 e :: w.2) with
              ⟨hs, hout⟩ | ⟨-, hs⟩
            · rw [hs]
              exact ⟨e :: es, _, .paused hsome hask heff (.inl ⟨rfl, hout⟩), replayLoop_paused ..⟩
            · rw [hs]
              cases P.send (matchNote k w.1 e :: w.2) ci (retainedPublish P.T e) with
              | false => exact ⟨e :: es, _, .paused hsome hask heff (.inr rfl), replayLoop_paused ..⟩
              | true => exact honward _ rfl (.sent hsome hask heff hfits)
        · rw [show (eff != .atMostOnce) = true by simpa using hqos]
          exact honward _ (enqueue_abides P conns k e.topic e.payload eff true (w.1, matchNote k w.1 e :: w.2)).1.subs.2
            (.queued hsome hask heff hqos)

/-! ## What becomes of an entry -/

/-- **The offer carries the retained message**, with the retain flag: at QoS 0 a PUBLISH, otherwise to `enqueue`. -/
inductive Offer.Carries (T : Traits) (e : Entry) : QoS → Offer → Prop
  | sent : Carries T e .atMostOnce (.sent (retainedPublish T e))
  | queued {eff : QoS} (heff : eff ≠ .atMostOnce) : Carries T e eff (.queued e.topic e.payload eff true)
  | lost {eff : QoS} (heff : eff ≠ .atMostOnce) : Carries T e eff (.lost e.topic eff)

/-- **What becomes of one retained entry** in a replay for the subscriptions `subs`, between the traces `lo` and `hi`:
no filter matches it, or the policy is asked, with the session's context, and the entry is denied or offered. -/
inductive Fate (P : Params Ctx) (k : Nat) (subs : List Subscription) (ctx : Ctx) (lo hi : Trace Ctx) (e : Entry) :
    List Offer → Prop
  | unmatched (hno : matchingSubs subs e.topic = []) : Fate P k subs ctx lo hi e []
  | denied {t : Trace Ctx} (hsome : matchingSubs subs e.topic ≠ []) (hlo : lo <:+ t)
      (hhi : .matching k (subs.map Subscription.filter) e.topic :: t <:+ hi)
      (hask : P.sec.authorizeReceive (.matching k (subs.map Subscription.filter) e.topic :: t) ctx e.topic = false) :
      Fate P k subs ctx lo hi e []
  | offered {t u : Trace Ctx} {eff : QoS} {o : Offer} (hsome : matchingSubs subs e.topic ≠ []) (hlo : lo <:+ t)
      (hhi : u ++ .matching k (subs.map Subscription.filter) e.topic :: t <:+ hi)
      (hask : P.sec.authorizeReceive (.matching k (subs.map Subscription.filter) e.topic :: t) ctx e.topic = true)
      (heff : IsEffective e.qos subs e.topic eff) (hoffers : offers k u = [o]) (ho : o.Carries P.T e eff) :
      Fate P k subs ctx lo hi e [o]
  /-- No packet can carry it, or no queue hold it, and that is reported. -/
  | oversize {t u : Trace Ctx} {eff : QoS} {d : Event} (hsome : matchingSubs subs e.topic ≠ []) (hlo : lo <:+ t)
      (hhi : u ++ .matching k (subs.map Subscription.filter) e.topic :: t <:+ hi)
      (hask : P.sec.authorizeReceive (.matching k (subs.map Subscription.filter) e.topic :: t) ctx e.topic = true)
      (heff : IsEffective e.qos subs e.topic eff)
      (hno : eff = .atMostOnce ∧ ¬PublishFits P.T.outSize e.topic e.payload .atMostOnce ∨
        P.T.maxPayloadLen < e.payload.length)
      (hd : .event d (some k) ∈ u) (hdrop : d.Drops e.topic eff .oversize) : Fate P k subs ctx lo hi e []

theorem Fate.mono {subs : List Subscription} {ctx : Ctx} {lo lo' hi hi' : Trace Ctx} {e : Entry}
    (h : Fate P k subs ctx lo hi e os) (hlo : lo' <:+ lo) (hhi : hi <:+ hi') : Fate P k subs ctx lo' hi' e os := by
  cases h with
  | unmatched hno => exact .unmatched hno
  | denied hsome ht hnote hask => exact .denied hsome (hlo.trans ht) (hnote.trans hhi) hask
  | offered hsome ht hnote hask heff hoffers ho =>
    exact .offered hsome (hlo.trans ht) (hnote.trans hhi) hask heff hoffers ho
  | oversize hsome ht hnote hask heff hno hd hdrop =>
    exact .oversize hsome (hlo.trans ht) (hnote.trans hhi) hask heff hno hd hdrop

/-- The entries, in order, with what becomes of each. -/
def Fates (F : Entry → List Offer → Prop) (es : List Entry) (os : List Offer) : Prop :=
  ∃ oss, List.Forall₂ F es oss ∧ os = oss.flatten

theorem Fates.nil : Fates F [] [] := ⟨[], .nil, rfl⟩

theorem Fates.cons {e : Entry} {o : List Offer} (h : F e o) (hs : Fates F es os) : Fates F (e :: es) (o ++ os) := by
  obtain ⟨oss, hall, rfl⟩ := hs
  exact ⟨o :: oss, .cons h hall, rfl⟩

theorem Fates.append {es' : List Entry} {os' : List Offer} (h : Fates F es os) (h' : Fates F es' os') :
    Fates F (es ++ es') (os ++ os') := by
  obtain ⟨oss, hall, rfl⟩ := h
  obtain ⟨oss', hall', rfl⟩ := h'
  exact ⟨oss ++ oss', List.rel_append hall hall', List.flatten_append.symm⟩

theorem Fates.mono {F' : Entry → List Offer → Prop} (h : Fates F es os) (himp : ∀ e o, F e o → F' e o) :
    Fates F' es os := by
  obtain ⟨oss, hall, rfl⟩ := h
  exact ⟨oss, hall.imp himp, rfl⟩

/-- The entries a walk leaves are the last of those it was given, and its session stays, but for the cursor. -/
structure Walked (here : Nat) (es : List Entry) (w : Work Ctx) (rest : List Entry) (w' : Work Ctx)
    (passed : List Entry) : Prop where
  split : es = passed ++ rest
  frame : w'.1.frame = w.1.frame
  subs : w'.1.subs = w.1.subs
  cursor : w'.1.retainCursor = if rest = [] then w.1.retainCursor else here + passed.length
  acts : Adds (fun a => a.grants = false) w.2 w'.2

theorem Abides.replaying (h : Abides w w') : w'.1.replaying = w.1.replaying := by
  rw [Session.replaying, Session.replaying, h.subs.1]

theorem Abides.authCtx (h : Abides w w') : w'.1.authCtx = w.1.authCtx := by
  show w'.1.frame.authCtx = w.1.frame.authCtx
  rw [h.frame]

/-- **A walk passes entries over for good, in order**, each with its fate, and leaves the rest.  What it offers is what
its acts show. -/
theorem Walk.walked {rest : List Entry} (h : Walk P conns ci k here es w rest w') :
    ∃ passed, Walked here es w rest w' passed ∧ ∃ new, w'.2 = new ++ w.2 ∧
      Fates (Fate P k w.1.replaying w.1.authCtx w.2 w'.2) passed (offers k new) := by
  have hnext : ∀ {here e es rest} {w w₁ w' : Work Ctx} {u : Trace Ctx}, Abides w w₁ →
      w₁.2 = u ++ matchNote k w.1 e :: w.2 → Fate P k w.1.replaying w.1.authCtx w.2 w₁.2 e (offers k u) →
      (∃ passed, Walked (here + 1) es w₁ rest w' passed ∧ ∃ new, w'.2 = new ++ w₁.2 ∧
        Fates (Fate P k w₁.1.replaying w₁.1.authCtx w₁.2 w'.2) passed (offers k new)) →
      ∃ passed, Walked here (e :: es) w rest w' passed ∧ ∃ new, w'.2 = new ++ w.2 ∧
        Fates (Fate P k w.1.replaying w.1.authCtx w.2 w'.2) passed (offers k new) := by
    rintro here e es rest w w₁ w' u hone hu hfate ⟨passed, h, new, hnew, hfates⟩
    refine ⟨e :: passed, ⟨by rw [h.split]; rfl, h.frame.trans hone.frame, h.subs.trans hone.subs.1, ?_,
      hone.acts.trans h.acts⟩, new ++ (u ++ [matchNote k w.1 e]), by rw [hnew, hu]; simp, ?_⟩
    · rw [h.cursor, hone.subs.2, List.length_cons]
      split
      · rfl
      · omega
    · rw [hone.replaying, hone.authCtx] at hfates
      rw [offers_append, offers_append, show offers k [matchNote k w.1 e] = [] from rfl, List.nil_append]
      exact .cons (hfate.mono List.suffix_rfl h.acts.suffix)
        (hfates.mono fun _ _ hf => hf.mono hone.trace List.suffix_rfl)
  induction h with
  | done => exact ⟨[], ⟨rfl, rfl, rfl, rfl, .refl _ _⟩, [], rfl, .nil⟩
  | unmatched hno _ ih => exact hnext (u := []) (.note _ rfl _) rfl (.unmatched hno) ih
  | @denied here e es rest w w' hsome hask _ ih =>
    have hnone : offers k (notifyDenied .receiveDenied k w.1 e.topic []) = [] := by
      simp [offers, notifyDenied, Act.offer]
    refine hnext (u := notifyDenied .receiveDenied k w.1 e.topic []) ((Abides.note _ rfl _).trans (.note _ rfl _)) rfl
      ?_ ih
    rw [hnone]
    exact .denied hsome List.suffix_rfl (List.suffix_cons _ _) hask
  | @queued here e es rest w w' eff hsome hask heff hqos _ ih =>
    obtain ⟨hkept, u, htrace, hhanded⟩ := enqueue_abides P conns k e.topic e.payload eff true
      (w.1, matchNote k w.1 e :: w.2)
    refine hnext ((Abides.note _ rfl _).trans hkept) htrace ?_ ih
    have hhi : u ++ matchNote k w.1 e :: w.2 <:+ _ := ⟨[], htrace.symm⟩
    cases hhanded with
    | queued h =>
      rw [h]
      exact .offered hsome List.suffix_rfl hhi hask heff h (.queued hqos)
    | lost h =>
      rw [h]
      exact .offered hsome List.suffix_rfl hhi hask heff h (.lost hqos)
    | oversize hlong h hd hdrop =>
      rw [h]
      exact .oversize hsome List.suffix_rfl hhi hask heff (.inr hlong) hd hdrop
  | @sent here e es rest w w' hsome hask heff _ _ ih =>
    have hone : offers k [.send ci (retainedPublish P.T e) true (tagOf k w.1 none)] =
        [.sent (retainedPublish P.T e)] := by
      simp [offers, Act.offer, tagOf]
    refine hnext (u := [_]) ((Abides.note _ rfl _).trans (.note _ rfl _)) rfl ?_ ih
    rw [hone]
    exact .offered hsome List.suffix_rfl List.suffix_rfl hask heff hone .sent
  | @dropped here e es rest w w' hsome hask heff hno _ ih =>
    have hnone : offers k (notifyDrop k w.1 e.topic .atMostOnce .oversize [.unbuilt (some k)]) = [] := by
      simp [offers, notifyDrop, Act.offer]
    refine hnext (((Abides.note _ rfl _).trans (.note _ rfl _)).trans (.note _ rfl _)) rfl ?_ ih
      (u := notifyDrop k w.1 e.topic .atMostOnce .oversize [.unbuilt (some k)])
    rw [hnone]
    exact .oversize (u := [_, _]) hsome List.suffix_rfl List.suffix_rfl hask heff (.inl ⟨rfl, hno⟩) List.mem_cons_self
      ⟨rfl, rfl, rfl, rfl⟩
  | @paused here e es w refusal _ _ _ hrefusal =>
    have hrefused : ∀ a ∈ refusal, a.grants = false ∧ a.offer k = none := by
      rcases hrefusal with ⟨rfl, -⟩ | rfl
      · simp
      · simp [Act.grants, Act.offer]
    refine ⟨[], ⟨rfl, rfl, rfl, rfl, ?_⟩, refusal ++ [matchNote k w.1 e], by simp, ?_⟩
    · exact Adds.trans (.one (matchNote k w.1 e) rfl) ⟨refusal, rfl, fun a ha => (hrefused a ha).1⟩
    · rw [offers_append, offers, offers, List.filterMap_eq_nil_iff.2 (fun a ha => (hrefused a ha).2)]
      exact .nil

/-- With no flag set, a walk passes everything over, -/
theorem Walk.unflagged {rest : List Entry} (h : Walk P conns ci k here es w rest w') :
    w.1.replaying = [] → rest = [] := by
  induction h with
  | done => exact fun _ => rfl
  | unmatched _ _ ih => exact ih
  | denied hsome | queued hsome | sent hsome | dropped hsome | paused hsome =>
    intro hnone
    rw [hnone] at hsome
    exact absurd rfl hsome

/-- and offers nothing. -/
theorem Fates.unflagged {ctx : Ctx} {lo hi : Trace Ctx} (h : Fates (Fate P k [] ctx lo hi) es os) : os = [] := by
  obtain ⟨oss, hall, rfl⟩ := h
  induction hall with
  | nil => rfl
  | cons hf _ ih =>
    rw [List.flatten_cons, ih]
    cases hf with
    | unmatched | denied | oversize => rfl
    | offered hsome => exact absurd rfl hsome

/-- **A call of `replay_retained`**: a walk over the entries from the cursor on.  Paused, it remembers the entry it
stopped at; completed, it clears the flags and the cursor. -/
theorem replayRetained_walk (P : Params Ctx) (conns : Nat → Conn) (ci k : Nat) (es : List Entry) (w : Work Ctx) :
    ∃ rest w', Walk P conns ci k w.1.retainCursor (es.drop w.1.retainCursor) w rest w' ∧
      replayRetained P conns ci k es w =
        (if rest = [] then clearPending { w'.1 with retainCursor := 0 } else w'.1, .replay k :: w'.2) := by
  have hloop : replayLoop P conns ci k es 0 false w =
      replayLoop P conns ci k (es.drop w.1.retainCursor) w.1.retainCursor false w := by
    by_cases hle : w.1.retainCursor ≤ es.length
    · have hlen : (es.take w.1.retainCursor).length = w.1.retainCursor := List.length_take_of_le hle
      have h := replayLoop_skip P conns ci k (es.take w.1.retainCursor)
        (es.drop w.1.retainCursor) 0 w (by rw [hlen]; omega)
      rwa [List.take_append_drop, hlen, Nat.zero_add] at h
    · have h := replayLoop_skip P conns ci k es [] 0 w (by omega)
      rw [List.append_nil] at h
      rw [List.drop_of_length_le (by omega)]
      exact h
  obtain ⟨rest, w', hwalk, hend⟩ := replayLoop_walk P conns ci k
    (es.drop w.1.retainCursor) w.1.retainCursor w (Nat.le_refl _)
  refine ⟨rest, w', hwalk, ?_⟩
  unfold replayRetained
  rw [hloop, hend]
  cases rest <;> rfl

theorem replayRetained_adds (P : Params Ctx) (conns : Nat → Conn) (ci k : Nat) (es : List Entry) (w : Work Ctx) :
    Adds (fun a => a.grants = false) w.2 (replayRetained P conns ci k es w).2 := by
  obtain ⟨rest, w', hwalk, heq⟩ := replayRetained_walk P conns ci k es w
  obtain ⟨passed, hwalked, -⟩ := hwalk.walked
  rw [heq]
  exact .cons _ rfl hwalked.acts

end

end Minimosq
