import Minimosq.SlotDelivery
/-!
# Sessions without a connection

A session that loses its connection is parked.  From then on, until a CONNECT finds it or it is released, all that
changes in it is its queue, by the messages routed to it that it may keep (`Rests`).  So a persistent session without a
connection is, at any time, the session last parked with those messages behind its queue (`offline_cases`).
-/
namespace Minimosq

open History (Star)

variable {Ctx : Type} {P : Params Ctx} {T : Traits} {k : Nat}

/-- Nothing of what links a session to a connection or takes it off, and nothing of how it begins and ends. -/
def Act.rests : Act Ctx → Bool
  | .alloc _ | .release _ | .bind _ _ _ _ | .resumed _ _ | .detach _ _ | .parked _ _ => false
  | _ => true

/-- The session `s` without connection after one act: a message routed to it goes into its queue if it may be kept. -/
def Session.keep (T : Traits) (s : Session Ctx) : Act Ctx → Session Ctx
  | .routed _ topic payload eff => if s.Keeps T payload eff then s.queued T topic payload eff false else s
  | _ => s

/-- The session `s` without connection after these acts, newest first. -/
def Session.resting (T : Traits) (s : Session Ctx) (acts : Trace Ctx) : Session Ctx :=
  acts.foldr (fun a s => s.keep T a) s

theorem Session.keep_hasWill (T : Traits) (s : Session Ctx) (b : Bool) (a : Act Ctx) :
    Session.keep T { s with hasWill := b } a = { s.keep T a with hasWill := b } := by
  cases a with
  | routed j topic payload eff =>
    have hiff : Session.Keeps T { s with hasWill := b } payload eff ↔ s.Keeps T payload eff :=
      ⟨fun h => ⟨h.1, h.2, h.3, h.4⟩, fun h => ⟨h.1, h.2, h.3, h.4⟩⟩
    simp only [Session.keep]
    by_cases h : s.Keeps T payload eff
    · rw [if_pos h, if_pos (hiff.2 h)]
      rfl
    · rw [if_neg h, if_neg (fun h' => h (hiff.1 h'))]
  | _ => rfl

theorem Session.resting_hasWill (T : Traits) (s : Session Ctx) (b : Bool) : ∀ acts : Trace Ctx,
    Session.resting T { s with hasWill := b } acts = { s.resting T acts with hasWill := b }
  | [] => rfl
  | a :: acts => by
    have ih := resting_hasWill T s b acts
    simp only [Session.resting, List.foldr_cons] at ih ⊢
    rw [ih, Session.keep_hasWill]

theorem Session.resting_append (T : Traits) (s : Session Ctx) (new acts : Trace Ctx) :
    s.resting T (new ++ acts) = (s.resting T acts).resting T new := List.foldr_append ..

theorem Session.resting_frame (T : Traits) (s : Session Ctx) : ∀ acts : Trace Ctx,
    (s.resting T acts).frame = s.frame ∧ (s.resting T acts).subs = s.subs ∧
      (s.resting T acts).inboundQos2 = s.inboundQos2
  | [] => ⟨rfl, rfl, rfl⟩
  | a :: acts => by
    obtain ⟨hf, hsubs, hin⟩ := resting_frame T s acts
    have hkeep : ∀ s : Session Ctx, (s.keep T a).frame = s.frame ∧ (s.keep T a).subs = s.subs ∧
        (s.keep T a).inboundQos2 = s.inboundQos2 := by
      intro s
      unfold Session.keep
      split
      · split <;> exact ⟨rfl, rfl, rfl⟩
      · exact ⟨rfl, rfl, rfl⟩
    obtain ⟨hf', hsubs', hin'⟩ := hkeep (s.resting T acts)
    exact ⟨hf'.trans hf, hsubs'.trans hsubs, hin'.trans hin⟩

/-- **`s'` is what `s` became without a connection**, by these acts.  Its will may have been submitted meanwhile. -/
structure Rests (T : Traits) (acts : Trace Ctx) (s s' : Session Ctx) : Prop where
  only : ∀ a ∈ acts, a.rests = true
  left : s' = { s.resting T acts with hasWill := s'.hasWill }

section
variable {h acts acts' : Trace Ctx} {s s' s'' : Session Ctx}

theorem Rests.refl (T : Traits) (s : Session Ctx) : Rests T [] s s := ⟨by simp, rfl⟩

theorem Rests.trans (h₁ : Rests T acts s s') (h₂ : Rests T acts' s' s'') : Rests T (acts' ++ acts) s s'' := by
  refine ⟨List.forall_mem_append.2 ⟨h₂.only, h₁.only⟩, ?_⟩
  have hleft := h₂.left
  rw [h₁.left, Session.resting_hasWill] at hleft
  rw [hleft, Session.resting_append]

/-- What neither the queue nor the will has a part in stays. -/
theorem Rests.field {α : Type} (h : Rests T acts s s') (f : Session Ctx → α)
    (hframe : ∀ s : Session Ctx, f s.frame = f s)
    (hwill : ∀ (s : Session Ctx) b, f { s with hasWill := b } = f s) : f s' = f s := by
  rw [h.left, hwill, ← hframe, (Session.resting_frame T s acts).1, hframe]

theorem Rests.conn (h : Rests T acts s s') : s'.conn = s.conn := h.field Session.conn (fun _ => rfl) (fun _ _ => rfl)

theorem Rests.clean (h : Rests T acts s s') : s'.cleanSession = s.cleanSession :=
  h.field Session.cleanSession (fun _ => rfl) (fun _ _ => rfl)

theorem Rests.disconnectMs (h : Rests T acts s s') : s'.disconnectMs = s.disconnectMs :=
  h.field Session.disconnectMs (fun _ => rfl) (fun _ _ => rfl)

theorem Rests.disconnectOrder (h : Rests T acts s s') : s'.disconnectOrder = s.disconnectOrder :=
  h.field Session.disconnectOrder (fun _ => rfl) (fun _ _ => rfl)

theorem Rests.of_eq (honly : ∀ a ∈ acts, a.rests = true) (heq : s.resting T acts = s') : Rests T acts s s' :=
  ⟨honly, by rw [heq]⟩

theorem Rests.one {a : Act Ctx} (ha : a.rests = true) (hkeep : s.keep T a = s) : Rests T [a] s s :=
  .of_eq (List.forall_mem_singleton.2 ha) hkeep

/-! ## Steps of a slot -/

theorem DStep.rests (d : DStep P k s acts s') (hoff : s.conn = noConn) : Rests P.T acts s s' := by
  cases d with
  | queue i hon | enqueue topic payload eff retain t hon | routed topic payload eff hon | pumpRel i m ok hon
  | final type state id hon | pubrec i m id hon | inboundTrack id hon | inboundEvict id e hon | pubrel id hon =>
    exact absurd hoff hon
  | event | matching | unbuilt | live | pubrecUnknown | answerRel | inboundDup => exact .one rfl rfl
  | kept topic payload eff t _ _ _ hkeeps => exact .of_eq (by simp [Act.rests]) (if_pos hkeeps)
  | passed topic payload eff _ hno => exact .one rfl (if_neg hno)

theorem TStep.rests (d : TStep P k h s acts s') (hoff : s.conn = noConn) : Rests P.T acts s s' := by
  cases d with
  | deliver d => exact d.rests hoff
  | subs subs cursor hacts hon => exact absurd hoff hon
  | publish ci topic payload qos t ha => cases ha <;> exact .one rfl rfl

theorem boundSession_conn (T : Traits) (ci : Nat) (p : ConnectPacket) (ctx : Ctx) (s : Session Ctx) :
    (boundSession T ci p ctx s).conn = toU16 ci := by
  simp only [boundSession]
  split <;> rfl

theorem toU16_ne_noConn {ci : Nat} (hci : ci < P.T.maxConnections) : toU16 ci ≠ noConn := by
  have := P.T.connections_le
  simp only [toU16, noConn]
  omega

/-- **A step of a slot that leaves a persistent session without a connection**: one more while it rests, or the session
is parked by it. -/
theorem SlotStep.rests {o : Option (Session Ctx)} (one : SlotStep P k h o acts (some s')) (hoff : s'.conn = noConn)
    (hclean : s'.cleanSession = false) : (∃ s, o = some s ∧ s.conn = noConn ∧ Rests P.T acts s s') ∨
      ∃ s now order, o = some s ∧ s.conn ≠ noConn ∧ s' = detached s now order ∧
        acts = [.detach k s.conn, .parked k s'] := by
  cases one with
  | @serve s _ _ d =>
    have hon := Session.conn_eq_of_frame d.frame
    have hno : s.conn = noConn := hon.symm.trans hoff
    exact .inl ⟨s, rfl, hno, d.rests hno⟩
  | alloc ctx clientId => cases hclean
  | bind ci p ctx _ _ _ hci =>
    rw [boundSession_conn] at hoff
    exact absurd hoff (toU16_ne_noConn hci)
  | resume ci p ctx e up _ _ _ hci _ run =>
    have hframe := run.inv (fun _ s => s.conn = toU16 ci)
        (fun _ _ _ _ hs r => (Session.conn_eq_of_frame r.frame).trans hs)
      (boundSession_conn ..)
    exact absurd (hframe.symm.trans hoff) (toU16_ne_noConn hci)
  | @detach s now order hon => exact .inr ⟨s, now, order, rfl, hon, rfl, rfl⟩
  | @disconnect s hon => exact absurd hoff hon
  | @submit s ci allowed t hno => exact .inl ⟨s, rfl, hno, ⟨by simp [submitNote, Act.rests], rfl⟩⟩

end

/-- **A persistent session without a connection**, after any number of steps: it had none to begin with and rested, or
it was parked meanwhile and rested since. -/
theorem offline_cases {h₀ h : Trace Ctx} {o₀ o : Option (Session Ctx)} (run : Star (SlotStep P k) h₀ o₀ h o)
    {s : Session Ctx} (hs : o = some s) (hoff : s.conn = noConn) (hclean : s.cleanSession = false) :
    (∃ s₀ new, o₀ = some s₀ ∧ s₀.conn = noConn ∧ h = new ++ h₀ ∧ Rests P.T new s₀ s) ∨
    ∃ newer ci s₁ older, h = newer ++ .detach k ci :: .parked k s₁ :: (older ++ h₀) ∧ s₁.conn = noConn ∧
      Rests P.T newer s₁ s := by
  induction run generalizing s with
  | refl => exact .inl ⟨s, [], hs, hoff, rfl, .refl P.T s⟩
  | @tail h' acts o₁ o₂ run one ih =>
    subst hs
    rcases one.rests hoff hclean with ⟨s', rfl, hno, hrest⟩ | ⟨s', _, _, -, -, -, rfl⟩
    · rcases ih rfl hno (hrest.clean.symm.trans hclean) with ⟨s₀, new, ho, hno₀, rfl, hr⟩ |
        ⟨newer, ci, s₁, older, rfl, hno₁, hr⟩
      · exact .inl ⟨s₀, acts ++ new, ho, hno₀, (List.append_assoc ..).symm, hr.trans hrest⟩
      · exact .inr ⟨acts ++ newer, ci, s₁, older, (List.append_assoc ..).symm, hno₁, hr.trans hrest⟩
    · obtain ⟨older, rfl⟩ := run.append
      exact .inr ⟨[], s'.conn, s, older, rfl, hoff, .refl P.T s⟩

/-- What a step needs to take a session off a connection is a connection. -/
theorem SlotStep.detached_on {h acts : Trace Ctx} {o o' : Option (Session Ctx)} (one : SlotStep P k h o acts o')
    (hoff : ∀ s, o = some s → s.conn = noConn) (hbind : ∀ a ∈ acts, a.isBind = false) :
    (∀ s, o' = some s → s.conn = noConn) ∧ ∀ ci, .detach k ci ∉ acts := by
  have hno : ∀ {a b : Act Ctx}, a.rests = true → b.rests = false → a ≠ b := by
    rintro a b ha hb rfl
    rw [ha] at hb
    cases hb
  cases one with
  | @serve s s' _ d =>
    have hrest := d.rests (hoff s rfl)
    exact ⟨by rintro _ ⟨⟩; exact hrest.conn.trans (hoff s rfl), fun ci hmem => hno (hrest.only _ hmem) rfl rfl⟩
  | alloc ctx clientId => exact ⟨by rintro _ ⟨⟩; rfl, by simp⟩
  | release => exact ⟨nofun, by simp⟩
  | bind ci p ctx => cases hbind _ (List.mem_singleton_self _)
  | @resume s _ new ci p ctx =>
    have := hbind (.bind k ci (boundSession P.T ci p ctx s) true) (by simp)
    cases this
  | detach now order hon => exact absurd (hoff _ rfl) hon
  | disconnect hon => exact absurd (hoff _ rfl) hon
  | submit ci allowed t hno => exact ⟨by rintro _ ⟨⟩; exact hno, by simp [submitNote]⟩

/-- **Without a CONNECT, a slot without a connection gets none and loses none.** -/
theorem detach_free {h₀ h : Trace Ctx} {o₀ o : Option (Session Ctx)} (run : Star (SlotStep P k) h₀ o₀ h o)
    (hoff : ∀ s, o₀ = some s → s.conn = noConn) : ∀ new, h = new ++ h₀ → (∀ a ∈ new, a.isBind = false) →
      (∀ s, o = some s → s.conn = noConn) ∧ ∀ ci, .detach k ci ∉ new := by
  induction run with
  | refl =>
    intro new he _
    rw [List.self_eq_append_left.1 he]
    exact ⟨hoff, by simp⟩
  | @tail h' acts o₁ o₂ run one ih =>
    intro new he hbind
    obtain ⟨new', rfl⟩ := run.append
    rw [← List.append_assoc, List.append_cancel_right_eq] at he
    subst he
    obtain ⟨hacts, hnew'⟩ := List.forall_mem_append.1 hbind
    obtain ⟨hoff', hnot⟩ := ih new' rfl hnew'
    obtain ⟨hoff'', hnot'⟩ := one.detached_on hoff' hacts
    exact ⟨hoff'', fun ci hmem => (List.mem_append.1 hmem).elim (hnot' ci) (hnot ci)⟩

end Minimosq
