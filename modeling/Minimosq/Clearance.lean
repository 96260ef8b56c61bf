import Minimosq.Bed
import Minimosq.FilterOrder
import Minimosq.Fits
import Minimosq.Pauses
import Minimosq.Tenancy
/-!
# Clearance — the table of rules over a whole run

`authorize_subscribe` is asked once, when a filter is granted, and `authorize_receive` at every delivery.  A session is
cleared while every filter in its table was allowed under the context it now has.  Only a resumption puts old filters
under a new context, and a clean session is never resumed, so it stays cleared in every state the broker passes through
(`Amid.cleared`).  With `TableAcl` for the policy the two questions agree, and such a session is never denied what it
subscribed to (`TableAcl.clean_never_denied`).
-/
namespace Minimosq

section
variable {Ctx : Type} {P : Params Ctx} {σ σ' : Broker Ctx} {k : Nat} {s s' : Session Ctx}

/-- Every filter in the session's table was allowed under the context the session has. -/
def Session.Cleared (P : Params Ctx) (s : Session Ctx) : Prop :=
  ∀ f ∈ (table s.subs).map Prod.fst, ∃ t, P.sec.authorizeSubscribe t s.authCtx f = true

/-- A CONNECT resumed the session in slot `k`, with the clean flag the session still has. -/
def Returned (k : Nat) (s : Session Ctx) (t : Trace Ctx) : Prop :=
  ∃ ci s₀, .bind k ci s₀ true ∈ t ∧ s₀.cleanSession = s.cleanSession

/-- The session is cleared, unless it was resumed. -/
def Vouched (P : Params Ctx) (k : Nat) (s : Session Ctx) (t : Trace Ctx) : Prop := s.Cleared P ∨ Returned k s t

theorem Session.cleanSession_eq_of_frame (h : s'.frame = s.frame) : s'.cleanSession = s.cleanSession :=
  show s'.frame.cleanSession = s.frame.cleanSession by rw [h]

/-- A filter in the table after a SUBSCRIBE was there before, or it was just allowed. -/
theorem Answers.asked {t t' : Trace Ctx} {rows rows' es : List (Bytes × QoS)} {codes : List UInt8} {f : Bytes}
    (h : Answers P k s t rows es codes rows' t') (hf : f ∈ rows'.map Prod.fst) :
    f ∈ rows.map Prod.fst ∨ ∃ t, P.sec.authorizeSubscribe t s.authCtx f = true := by
  induction h with
  | done => exact .inl hf
  | denied _ _ ih | refused _ _ _ ih => exact ih hf
  | @granted t _ rows _ _ _ g q hask _ _ _ ih =>
    rcases ih hf with hf | hf
    · rw [filters_setGrant] at hf
      split at hf
      · exact .inl hf
      · rcases List.mem_append.1 hf with hf | hf
        · exact .inl hf
        · rw [List.mem_singleton.1 hf]
          exact .inr ⟨t, hask⟩
    · exact .inr hf

/-! ## What keeps it -/

/-- The session keeps its context and its clean flag, and every new filter was allowed. -/
theorem Vouched.mono {t t' : Trace Ctx} (h : Vouched P k s t) (hctx : s'.authCtx = s.authCtx)
    (hclean : s'.cleanSession = s.cleanSession) (hsub : t ⊆ t')
    (hsubs : ∀ f ∈ (table s'.subs).map Prod.fst,
      f ∈ (table s.subs).map Prod.fst ∨ ∃ t, P.sec.authorizeSubscribe t s.authCtx f = true) : Vouched P k s' t' := by
  rcases h with h | ⟨ci, s₀, hbind, hflag⟩
  · refine .inl fun f hf => ?_
    rw [hctx]
    exact (hsubs f hf).elim (h f) id
  · exact .inr ⟨ci, s₀, hsub hbind, by rw [hclean, hflag]⟩

theorem Vouched.frame {t t' : Trace Ctx} (h : Vouched P k s t) (hframe : s'.frame = s.frame) (hsub : t ⊆ t')
    (hsubs : ∀ f ∈ (table s'.subs).map Prod.fst,
      f ∈ (table s.subs).map Prod.fst ∨ ∃ t, P.sec.authorizeSubscribe t s.authCtx f = true) : Vouched P k s' t' :=
  h.mono (Session.authCtx_eq_of_frame hframe) (Session.cleanSession_eq_of_frame hframe) hsub hsubs

theorem cleared_of_empty (h : s.subs = []) : s.Cleared P := fun f hf => by
  rw [h] at hf
  cases hf

theorem Serves.frame (h : Serves P σ σ') (hs : σ.sessions.slot k = some s) (hs' : σ'.sessions.slot k = some s') :
    s'.frame = s.frame := by
  obtain ⟨s₁, h₁, hf⟩ := Serve.frame_of_some (h k) hs
  rw [hs'] at h₁
  cases h₁
  exact hf

/-- **A step of a slot that leaves the table alone keeps its session vouched for.** -/
theorem SlotStep.vouched {h acts : Trace Ctx} {o : Option (Session Ctx)} {t t' : Trace Ctx}
    (one : SlotStep P k h o acts (some s')) (subs : SameSubs o (some s')) (hsub : t ⊆ t') (hacts : acts ⊆ t')
    (hv : ∀ s, o = some s → Vouched P k s t) : Vouched P k s' t' := by
  have hsame : ∀ s, o = some s → ∀ f ∈ (table s'.subs).map Prod.fst,
      f ∈ (table s.subs).map Prod.fst ∨ ∃ t, P.sec.authorizeSubscribe t s.authCtx f = true := fun s hs f hf => by
    rw [(subs s s' hs rfl).1] at hf
    exact .inl hf
  cases one with
  | serve d => exact (hv _ rfl).frame d.frame hsub (hsame _ rfl)
  | alloc ctx clientId => exact .inl (cleared_of_empty rfl)
  | @bind s ci p ctx _ _ hnew =>
    refine .inl (cleared_of_empty ?_)
    rw [(boundSession_subsEq P.T ci p ctx s).1, hnew]
    rfl
  | @resume s _ new ci p ctx e up _ _ _ _ _ run =>
    refine .inr ⟨ci, boundSession P.T ci p ctx s, hacts (by simp), ?_⟩
    exact (run.inv (fun _ s' => s'.cleanSession = (boundSession P.T ci p ctx s).cleanSession)
      (fun _ _ _ _ hs r => (Session.cleanSession_eq_of_frame r.frame).trans hs) rfl).symm
  | detach | disconnect | submit => exact (hv _ rfl).mono rfl rfl hsub (hsame _ rfl)

/-- Handling the subscriptions of slot `j` keeps every session vouched for, if each filter of its new table was there or
was allowed. -/
theorem handled_vouched {j : Nat} {s₁ : Session Ctx} (h : ∀ k s, σ.sessions.slot k = some s → Vouched P k s σ.trace)
    (hgrow : σ.trace ⊆ σ'.trace) (serves : Serves P σ σ') (hs : σ.sessions.slot j = some s)
    (hslot : σ'.sessions.slot = Function.update σ.sessions.slot j (some s₁)) (hs' : σ'.sessions.slot k = some s')
    (hsubs : ∀ f ∈ (table s₁.subs).map Prod.fst,
      f ∈ (table s.subs).map Prod.fst ∨ ∃ t, P.sec.authorizeSubscribe t s.authCtx f = true) :
    Vouched P k s' σ'.trace := by
  rcases written_cases (by rwa [hslot] at hs') with ⟨rfl, h₁⟩ | ⟨-, h₁⟩
  · cases h₁
    exact (h k s hs).frame (serves.frame hs hs') hgrow hsubs
  · exact (h k s' h₁).frame rfl hgrow fun f hf => .inl hf

/-- **A move keeps every session vouched for.** -/
theorem Move.vouched (m : Move P σ σ') (h : ∀ k s, σ.sessions.slot k = some s → Vouched P k s σ.trace) :
    ∀ k s, σ'.sessions.slot k = some s → Vouched P k s σ'.trace := by
  intro k s' hs'
  have hgrow := m.trace.subset
  have hsame : σ.sessions.slot k = some s' → Vouched P k s' σ'.trace := fun hs =>
    (h k s' hs).frame rfl hgrow (fun f hf => .inl hf)
  cases m with
  | aside sessions => exact hsame (by rwa [sessions] at hs')
  | retain _ _ _ _ sessions => exact hsame (by rwa [sessions] at hs')
  | @slot j acts o' sessions _ trace _ one subs =>
    rw [sessions, Function.update_apply] at hs'
    split at hs'
    · rename_i hk
      subst hk hs'
      refine one.vouched subs hgrow ?_ (h k)
      rw [trace]
      exact fun a ha => List.mem_append_left _ (List.mem_of_mem_filter ha)
    · exact hsame hs'
  | @subscribe j id es s hs eq serves =>
    obtain ⟨codes, s₁, t, hslots, -, hanswers, -⟩ := subscribeValid_slot P j s.conn id es s σ
    have hslot : σ'.sessions.slot = Function.update σ.sessions.slot j (some s₁) := by rw [eq, hslots]; rfl
    exact handled_vouched h hgrow serves hs hslot hs' fun f hf => hanswers.asked hf
  | @unsubscribe j filters s hs eq serves =>
    have hslot : σ'.sessions.slot = Function.update σ.sessions.slot j
        (some { s with subs := unsubscribeAll s.subs filters }) := by
      rw [eq]
      rfl
    exact handled_vouched h hgrow serves hs hslot hs'
      fun f hf => .inl ((((table_unsubscribeAll filters s.subs).map _).map _).subset hf)
  | @replay j s hs eq serves =>
    have hslot : σ'.sessions.slot = Function.update σ.sessions.slot j
        (some (replayRetained P σ.conns s.conn j (σ.retained.toList P.T.maxRetained) (s, σ.trace)).1) := by
      rw [eq, onSession_of _ hs]
      rfl
    refine handled_vouched h hgrow serves hs hslot hs' fun f hf => ?_
    rw [replayRetained_table] at hf
    exact .inl hf

/-- **A clean session is cleared**, in every state the broker passes through. -/
theorem Amid.cleared (hσ : Amid P σ) (hs : σ.sessions.slot k = some s) (hclean : s.cleanSession = true) :
    s.Cleared P := by
  obtain ⟨inputs, hcourse⟩ := hσ.course
  have hE : Evolve P .init σ := (run_stepped P inputs).evolve.trans hcourse.evolve
  have hall : ∀ k s, σ.sessions.slot k = some s → Vouched P k s σ.trace := by
    clear hs hclean hcourse hσ
    induction hE with
    | refl => exact fun k s hs => by cases hs
    | tail _ m ih => exact m.vouched ih
  refine (hall k s hs).resolve_right ?_
  rintro ⟨ci, s₀, hbind, hflag⟩
  obtain ⟨newer, older, htrace⟩ := List.append_of_mem hbind
  have hrecord := History.each_iff.1 hσ.books.records newer _ older htrace
  rw [hrecord.2 rfl, hclean] at hflag
  cases hflag

end

/-! ## The table of rules -/

namespace TableAcl

/-- The policy that only denies what is published and subscribed to. -/
def unfiltered (acl : TableAcl) : Security AclContext := { acl.security with authorizeReceive := fun _ _ _ => true }

/-- **A clean session is never denied what it subscribed to.**  However the table was configured, in every state the
broker passes through, `authorize_receive` allows whatever a subscription of a clean session matches, and routing a
message to the session is what it would be without that question. -/
theorem clean_never_denied (Z : AclSizes) (calls : List Call) (P : Params AclContext)
    (hsec : P.sec = (run Z calls).security) {σ : Broker AclContext} (hσ : Amid P σ) {k : Nat} {s : Session AclContext}
    (hs : σ.sessions.slot k = some s) (hclean : s.cleanSession = true) :
    (∀ sub ∈ s.subs, ∀ n, topicMatches sub.filter n = true → (run Z calls).authorizeReceive s.authCtx n = true) ∧
      ∀ topic payload qos, σ.routeOne P topic payload qos k =
        σ.routeOne { P with sec := (run Z calls).unfiltered } topic payload qos k := by
  have hall : ∀ sub ∈ s.subs, ∀ n, topicMatches sub.filter n = true →
      (run Z calls).authorizeReceive s.authCtx n = true := fun sub hsub n hmatch => by
    have hvalid := (((hσ.slotRun k).textsFit.1 s hs).filters sub hsub).valid
    obtain ⟨t, hask⟩ := hσ.cleared hs hclean sub.filter (by
      rw [table, List.map_map]
      exact List.mem_map.2 ⟨sub, hsub, rfl⟩)
    rw [hsec] at hask
    exact receive_of_subscribe hvalid hask hmatch
  refine ⟨hall, fun topic payload qos => ?_⟩
  unfold Broker.routeOne
  rw [hs]
  dsimp only
  by_cases hmatch : (grantedMax s.subs topic).1 = true
  · obtain ⟨sub, hsub⟩ := List.exists_mem_of_ne_nil _ ((grantedMax_any s.subs topic).1 hmatch)
    obtain ⟨hsub, htopic⟩ := List.mem_filter.1 hsub
    have hyes : ∀ t, P.sec.authorizeReceive t s.authCtx topic = true := fun t => by
      rw [hsec]
      exact hall sub hsub topic htopic
    rw [hyes]
    rfl
  · rw [Bool.not_eq_true] at hmatch
    rw [hmatch]
    rfl

/-- An anonymous client whose role may read "a/#" subscribes to "a/+". -/
theorem clean_never_denied_anonymous :
    let acl := run ⟨2, 2, 32, 32, 64⟩ [.allowAnonymous 1, .addRule 1 [97, 47, 35] .read]
    let P : Params AclContext := ⟨smallTraits, acl.security, fun _ _ _ => true⟩
    let σ := Minimosq.run P (Input.connect 0 [99] {} ++ [.feed 0 (Wire.makeSubscribe 7 [([97, 47, 43], 1)])])
    ∃ s, σ.sessions.slot 0 = some s ∧ s.cleanSession = true ∧ s.subs.map Subscription.filter = [[97, 47, 43]] ∧
      acl.authorizeReceive s.authCtx [97, 47, 98] = true := by
  intro acl P σ
  have hslot : (σ.sessions.slot 0).map (fun s => (s.cleanSession, s.subs.map Subscription.filter)) =
      some (true, [[97, 47, 43]]) := by decide +kernel
  have hσ : Amid P σ := amid_run P _
  have hmatch : topicMatches [97, 47, 43] [97, 47, 98] = true := by decide +kernel
  generalize σ = σ at hslot hσ
  obtain ⟨s, hs, hpair⟩ := Option.map_eq_some_iff.1 hslot
  obtain ⟨hclean, hsubs⟩ := Prod.mk.inj hpair
  have hmem : ([97, 47, 43] : Bytes) ∈ s.subs.map Subscription.filter := by
    rw [hsubs]
    exact List.mem_singleton_self _
  obtain ⟨sub, hsub, hfilter⟩ := List.mem_map.1 hmem
  refine ⟨s, hs, hclean, hsubs, (clean_never_denied _ _ P rfl hσ hs hclean).1 sub hsub _ ?_⟩
  rw [hfilter]
  exact hmatch

end TableAcl

end Minimosq
