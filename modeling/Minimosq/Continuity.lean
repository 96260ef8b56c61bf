import Minimosq.Eviction
import Minimosq.Identity
/-!
# What a client finds when it comes back

A CONNECT is answered with the session present flag exactly if it asks for a persistent session and a persistent session
with its client id is there.  That session then has the subscriptions and the inbound QoS 2 table it had when its last
connection was torn down, and in its queue, behind what was in it then, the messages routed to it meanwhile that the
queue had room for.  Every other session starts empty.
-/
namespace Minimosq

open History (Star)

variable {Ctx : Type} {P : Params Ctx} {T : Traits} {k : Nat}

/-! ## The queue of a session without a connection -/

/-- A message routed to a session: topic, payload and QoS. -/
abbrev Routed := Bytes × Bytes × QoS

def OutMsg.routed (m : OutMsg) : Routed := (m.topic, m.payload, m.qos)

def Act.routedMsg : Act Ctx → Option Routed
  | .routed _ topic payload eff => some (topic, payload, eff)
  | _ => none

/-- The messages routed by these acts, oldest first. -/
def routedMsgs (acts : Trace Ctx) : List Routed := (acts.filterMap Act.routedMsg).reverse

/-- The messages that a queue of `n` takes, of those routed to its session while it is without a connection: QoS above
0, a payload that can be stored, and a free place. -/
def taken (T : Traits) : Nat → List Routed → List Routed
  | _, [] => []
  | n, m :: ms =>
    if m.2.2 ≠ .atMostOnce ∧ m.2.1.length ≤ T.maxPayloadLen ∧ n ≠ T.maxPendingPerSession then m :: taken T (n + 1) ms
    else taken T n ms

theorem taken_append (T : Traits) (ms' : List Routed) : ∀ (n : Nat) (ms : List Routed),
    taken T n (ms ++ ms') = taken T n ms ++ taken T (n + (taken T n ms).length) ms'
  | _, [] => rfl
  | n, m :: ms => by
    simp only [List.cons_append, taken]
    split
    · rw [taken_append T ms' (n + 1) ms, List.length_cons, List.cons_append]
      congr 3
      omega
    · exact taken_append T ms' n ms

/-- **`s'` has the queue of `s`, and behind it what it took of the messages routed meanwhile.** -/
def Gathers (T : Traits) (acts : Trace Ctx) (s s' : Session Ctx) : Prop :=
  ∃ ms, s'.pending = s.pending ++ ms ∧ ms.map OutMsg.routed = taken T s.pending.length (routedMsgs acts)

section
variable {h acts acts' : Trace Ctx} {s s' s'' : Session Ctx} {o : Option (Session Ctx)}

theorem Gathers.refl (T : Traits) (s : Session Ctx) : Gathers T [] s s := ⟨[], (List.append_nil _).symm, rfl⟩

theorem Gathers.trans (h₁ : Gathers T acts s s') (h₂ : Gathers T acts' s' s'') : Gathers T (acts' ++ acts) s s'' := by
  obtain ⟨ms, hp, hms⟩ := h₁
  obtain ⟨ms', hp', hms'⟩ := h₂
  refine ⟨ms ++ ms', by rw [hp', hp, List.append_assoc], ?_⟩
  have hlen : s'.pending.length = s.pending.length + (taken T s.pending.length (routedMsgs acts)).length := by
    rw [hp, List.length_append, ← hms, List.length_map]
  rw [routedMsgs, List.filterMap_append, List.reverse_append, ← routedMsgs, ← routedMsgs, taken_append, ← hlen,
    List.map_append, hms, hms']

theorem Gathers.none (hacts : ∀ a ∈ acts, a.routedMsg = .none) (hp : s'.pending = s.pending) : Gathers T acts s s' := by
  refine ⟨[], by rw [hp, List.append_nil], ?_⟩
  rw [routedMsgs, List.filterMap_eq_nil_iff.2 hacts]
  rfl

theorem DStep.gathers (d : DStep P k s acts s') (hoff : s.conn = noConn) (hclean : s.cleanSession = false) :
    Gathers P.T acts s s' := by
  cases d with
  | queue i hon | enqueue topic payload eff retain t hon | routed topic payload eff hon | pumpRel i m ok hon
  | final type state id hon | pubrec i m id hon | inboundTrack id hon | inboundEvict id e hon | pubrel id hon =>
    exact absurd hoff hon
  | event | matching | unbuilt | live | pubrecUnknown | answerRel | inboundDup =>
    exact .none (List.forall_mem_singleton.2 rfl) rfl
  | kept topic payload eff t _ _ htopic hkeeps =>
    refine ⟨[_], rfl, ?_⟩
    have htake : taken P.T s.pending.length [(topic, payload, eff)] = [(topic, payload, eff)] :=
      if_pos ⟨hkeeps.acknowledged, hkeeps.stored, hkeeps.room⟩
    refine Eq.trans ?_ htake.symm
    simp only [List.map_cons, List.map_nil, OutMsg.routed, outMsg, assign_of_le htopic.stored,
      assign_of_le hkeeps.stored]
  | passed topic payload eff _ hno =>
    refine ⟨[], (List.append_nil _).symm, ?_⟩
    exact (if_neg (fun hfit => hno ⟨hclean, hfit.1, hfit.2.1, hfit.2.2⟩)).symm

theorem TStep.gathers (d : TStep P k h s acts s') (hoff : s.conn = noConn) (hclean : s.cleanSession = false) :
    Gathers P.T acts s s' := by
  cases d with
  | deliver d => exact d.gathers hoff hclean
  | subs subs cursor hacts hon => exact absurd hoff hon
  | publish ci topic payload qos t ha => cases ha <;> exact .none (List.forall_mem_singleton.2 rfl) rfl

theorem serves_gathers {h' : Trace Ctx} {o o' : Option (Session Ctx)} (run : Star (Serve P k) h o h' o')
    (hs : o' = some s') (hoff : s'.conn = noConn) (hclean : s'.cleanSession = false) :
    ∃ s new, o = some s ∧ s.conn = noConn ∧ s.cleanSession = false ∧ h' = new ++ h ∧ Rests P.T new s s' ∧
      Gathers P.T new s s' := by
  induction run generalizing s' with
  | refl => exact ⟨s', [], hs, hoff, hclean, rfl, .refl P.T s', .refl P.T s'⟩
  | @tail h₁ acts o₁ o₂ run one ih =>
    obtain ⟨s₁, s₂, rfl, ho₂, d⟩ := one
    cases ho₂.symm.trans hs
    have hoff₁ : s₁.conn = noConn := (Session.conn_eq_of_frame d.frame).symm.trans hoff
    have hrest := d.rests hoff₁
    have hclean₁ : s₁.cleanSession = false := hrest.clean.symm.trans hclean
    obtain ⟨s, new, ho, hno, hp, rfl, hr, hg⟩ := ih rfl hoff₁ hclean₁
    exact ⟨s, acts ++ new, ho, hno, hp, (List.append_assoc ..).symm, hr.trans hrest, hg.trans (d.gathers hoff₁ hclean₁)⟩

/-- **A move that leaves a persistent session without a connection**: it had none before and rested, or the move took it
off its connection. -/
theorem Move.gathers {σ σ' : Broker Ctx} (m : Move P σ σ') (hs : σ'.sessions.slot k = some s')
    (hoff : s'.conn = noConn) (hclean : s'.cleanSession = false) :
    (∃ s new, σ.sessions.slot k = some s ∧ s.conn = noConn ∧ s.cleanSession = false ∧
      slotActs k σ'.trace = new ++ slotActs k σ.trace ∧ Rests P.T new s s' ∧ Gathers P.T new s s') ∨
    ∃ s now order, σ.sessions.slot k = some s ∧ s.conn ≠ noConn ∧ s' = detached s now order ∧
      slotActs k σ'.trace = .detach k s.conn :: .parked k s' :: slotActs k σ.trace := by
  rcases m.slot_cases k with serves | ⟨acts, he, one⟩
  · exact .inl (serves_gathers serves hs hoff hclean)
  rw [hs] at one
  rcases one.rests hoff hclean with ⟨s, ho, hno, hrests⟩ | ⟨s, now, order, ho, hon, hs', rfl⟩
  · have hclean₀ : s.cleanSession = false := hrests.clean.symm.trans hclean
    refine .inl ⟨s, acts, ho, hno, hclean₀, he, hrests, ?_⟩
    rw [ho] at one
    cases one with
    | serve d => exact d.gathers hno hclean₀
    | bind ci p ctx _ _ _ hci => exact absurd ((boundSession_conn ..).symm.trans hoff) (toU16_ne_noConn hci)
    | resume => cases hrests.only _ List.mem_cons_self
    | detach now order hon => exact absurd hno hon
    | disconnect hon => exact absurd hno hon
    | submit => exact .none (List.forall_mem_singleton.2 rfl) rfl
  · exact .inr ⟨s, now, order, ho, hon, hs', he⟩

/-- **What a session has of when it last had a connection**: `σ₀` is the state from which the broker took `s₀` off it,
and `between` what happened about its slot from then until `σ`. -/
structure TakesUp (P : Params Ctx) (k : Nat) (σ₀ σ : Broker Ctx) (between : Trace Ctx) (s₀ b : Session Ctx) :
    Prop where
  before : Evolve P .init σ₀
  since : Evolve P σ₀ σ
  slot : σ₀.sessions.slot k = some s₀
  online : s₀.conn ≠ noConn
  acts : ∃ s₁, slotActs k σ.trace = between ++ .detach k s₀.conn :: .parked k s₁ :: slotActs k σ₀.trace
  rests : ∀ a ∈ between, a.rests = true
  subs : b.subs = s₀.subs
  inbound : b.inboundQos2 = s₀.inboundQos2
  queue : Gathers P.T between s₀ b

/-- **A persistent session without a connection takes up the one it was**, in every state the broker comes through. -/
theorem Evolve.takesUp {σ : Broker Ctx} (hE : Evolve P .init σ) (hs : σ.sessions.slot k = some s)
    (hoff : s.conn = noConn) (hclean : s.cleanSession = false) : ∃ σ₀ between s₀, TakesUp P k σ₀ σ between s₀ s := by
  induction hE generalizing s with
  | refl => cases hs
  | @tail σ₁ σ hE m ih =>
    rcases m.gathers hs hoff hclean with ⟨s', new, hs', hno, hp, he, hrest, hg⟩ | ⟨s₀, now, order, hs₀, hon, rfl, he⟩
    · obtain ⟨σ₀, between, s₀, h⟩ := ih hs' hno hp
      obtain ⟨s₁, hacts⟩ := h.acts
      obtain ⟨-, hsubs, hin⟩ := Session.resting_frame P.T s' new
      refine ⟨σ₀, new ++ between, s₀, h.before, h.since.tail m, h.slot, h.online,
        ⟨s₁, by rw [he, hacts, List.append_assoc]⟩, List.forall_mem_append.2 ⟨hrest.only, h.rests⟩, ?_, ?_,
        h.queue.trans hg⟩
      · rw [hrest.left]
        exact hsubs.trans h.subs
      · rw [hrest.left]
        exact hin.trans h.inbound
    · exact ⟨σ₁, [], s₀, hE, .single m, hs₀, hon, ⟨_, he⟩, by simp, rfl, rfl, [], (List.append_nil _).symm, rfl⟩

end

/-! ## The CONNECT -/

section
variable {σ σ' : Broker Ctx} {ci : Nat} {p : ConnectPacket} {clientId : Bytes} {ctx : Ctx} {b s : Session Ctx}
  {present : Bool} {body : Bytes}

/-- Only a CONNECT changes whose the session is. -/
theorem SlotStep.sameClient {h acts : Trace Ctx} {s s' : Session Ctx} (one : SlotStep P k h (some s) acts (some s'))
    (hacts : ∀ a ∈ acts, a.isBind = false) : s.SameClient s' := by
  cases one with
  | serve d => exact Session.sameClient_of_frame d.frame
  | bind => cases hacts _ (List.mem_singleton_self _)
  | @resume _ _ new ci p ctx e up =>
    have := hacts (.bind k ci (boundSession P.T ci p ctx s) true) (by simp)
    cases this
  | detach | disconnect | submit => exact ⟨rfl, rfl⟩

/-- The session in a slot is as its last CONNECT left it, as far as its client and its flag go. -/
theorem Amid.lastBound (hσ : Amid P σ) (hs : σ.sessions.slot k = some s) {newer older : Trace Ctx}
    (he : σ.trace = newer ++ .bind k ci b present :: older)
    (hlast : ∀ a ∈ newer, a ≠ .release k ∧ (a.isBind = true → a.slot ≠ some k)) : b.SameClient s := by
  have hslot : slotActs k σ.trace = slotActs k newer ++ .bind k ci b present :: slotActs k older := by
    rw [he, slotActs_append, slotActs_cons_own rfl]
  have hnewer : ∀ a ∈ slotActs k newer, a ≠ .release k ∧ a.isBind = false := by
    intro a ha
    obtain ⟨hmem, hk⟩ := List.mem_filter.1 ha
    refine ⟨(hlast a hmem).1, Bool.eq_false_iff.2 (fun hbind => (hlast a hmem).2 hbind (by simpa using hk))⟩
  obtain ⟨s', hs', hsame⟩ := (hσ.slotRun k).since_bind (R := fun b s => b.SameClient s)
    (q := fun a => a ≠ .release k ∧ a.isBind = false) (fun hq => hq.1 rfl) (fun _ _ same => same)
    (fun one hacts same => same.trans (one.sameClient (fun a ha => (hacts a ha).2))) _ _ _ _ _ hslot hnewer
  rw [hs] at hs'
  cases hs'
  exact hsame

/-- One CONNECT is accepted once. -/
theorem Accepted.unique {k' : Nat} {b' : Session Ctx} {present' : Bool} (h : Accepted k ci b present σ σ')
    (h' : Accepted k' ci b' present' σ σ') : k = k' ∧ b = b' ∧ present = present' := by
  obtain ⟨newer, older, he, hnewer, holder⟩ := h
  obtain ⟨newer', older', he', hnewer', holder'⟩ := h'
  have hbinds : ∀ {newer older : Trace Ctx} {a : Act Ctx}, a.isBind = true → (∀ a ∈ newer, a.isBind = false) →
      (∀ a ∈ older, a.isBind = false) → (newer ++ a :: older).filter Act.isBind = [a] := by
    intro newer older a ha hnewer holder
    rw [List.filter_append, List.filter_cons_of_pos ha, List.filter_eq_nil_iff.2 (by simpa using hnewer),
      List.filter_eq_nil_iff.2 (by simpa using holder), List.nil_append]
  have hsame : newer ++ .bind k ci b present :: older = newer' ++ .bind k' ci b' present' :: older' := by
    refine (List.append_left_inj σ.trace).1 ?_
    rw [List.append_assoc, List.append_assoc, List.cons_append, List.cons_append, ← he, ← he']
  have hone := congrArg (List.filter Act.isBind) hsame
  rw [hbinds rfl hnewer holder, hbinds rfl hnewer' holder'] at hone
  cases hone
  exact ⟨rfl, rfl, rfl⟩

/-- **The CONNACK of an accepted CONNECT**, after which `resume_session` starts if the session was there. -/
structure Welcome (P : Params Ctx) (ci k : Nat) (b : Session Ctx) (present : Bool) (older : Trace Ctx)
    (σ₃ σ' : Broker Ctx) : Prop where
  slot : σ₃.sessions.slot k = some b
  answer : ∃ newer ok e, σ₃.trace = newer ++ .send ci (buildConnack P.T.outSize present .accepted) ok none ::
    .event e (some k) :: .bind k ci b present :: older
  resumes : present = true → ∃ up, σ' = (σ₃.onSession k (resumeSession P σ₃.conns k)).emit (.resumed k up)
  starts : present = false → σ' = σ₃

/-- **The end of `handle_connect` answers with the flag it was given.** -/
theorem Asking.welcome (hr : Asking P ci p clientId ctx σ) (hlt : ci < P.T.maxConnections) (k : Nat) (present : Bool)
    (s : Session Ctx) : ∃ σ₃, Welcome P ci k (boundSession P.T ci p ctx s) present σ.trace σ₃
      (σ.connectBind P ci p ctx k present s) := by
  have hsame := bound_conns_same P ci p ctx k present s σ
  obtain ⟨ok, tail, ha⟩ := sendTo_answer (P := P) (σ := announced P ci p ctx k present s σ) hlt
    ⟨(hsame ci).1.trans hr.active, (hsame ci).2.1.trans hr.up⟩ present
  have hslot : (Minimosq.answered P ci p ctx k present s σ).sessions.slot k = some
      (boundSession P.T ci p ctx s) := by
    rw [Minimosq.answered, ha.sessions]
    exact Function.update_self ..
  refine ⟨Minimosq.answered P ci p ctx k present s σ, hslot, ⟨tail, ok, _, ha.trace⟩, ?_, ?_⟩
  · rintro rfl
    exact ⟨_, (hr.connectBind_eq ..).trans (if_pos rfl)⟩
  · rintro rfl
    exact (hr.connectBind_eq ..).trans (if_neg (by simp))

/-- The session with this client id is a persistent one. -/
def Persists (clientId : Bytes) (σ : Broker Ctx) : Prop :=
  ∃ k s, σ.sessions.slot k = some s ∧ s.clientId = clientId ∧ s.cleanSession = false

theorem TakesUp.bound {σ₀ : Broker Ctx} {between : Trace Ctx} {s₀ : Session Ctx} (h : TakesUp P k σ₀ σ between s₀ s)
    (ci : Nat) (p : ConnectPacket) (ctx : Ctx) : TakesUp P k σ₀ σ between s₀ (boundSession P.T ci p ctx s) := by
  have hq := SameQueues.bound P.T ci p ctx s
  obtain ⟨ms, hp, hms⟩ := h.queue
  exact { h with
    subs := (boundSession_subsEq ..).1.trans h.subs
    inbound := hq.inbound.trans h.inbound
    queue := ⟨ms, hq.pending.trans hp, hms⟩ }

/-- **What an accepted CONNECT starts with.** -/
structure Begins (P : Params Ctx) (ci : Nat) (p : ConnectPacket) (clientId : Bytes) (ctx : Ctx) (k : Nat)
    (b : Session Ctx) (present : Bool) (σ σ' : Broker Ctx) : Prop where
  accepted : Accepted k ci b present σ σ'
  flag : present = true ↔ p.cleanSession = false ∧ Persists clientId σ
  answer : ∃ σ₁ σ₃, (∃ older, σ₁.trace = older ++ σ.trace) ∧ Welcome P ci k b present σ₁.trace σ₃ σ' ∧
    (present = true → ∃ σ₀ between s₀, TakesUp P k σ₀ σ₁ between s₀ b)
  resumed : present = true → ∃ s, σ.sessions.slot k = some s ∧ s.clientId = clientId
  fresh : present = false → b = boundSession P.T ci p ctx (freshSession P.T ctx clientId)

/-- A fresh session is made for nobody who has a persistent one and asks for it. -/
theorem Room.not_persists {σ₁ : Broker Ctx} (room : Room P p clientId σ σ₁) (hr : Asking P ci p clientId ctx σ)
    (hL : Linked P none σ) : ¬(p.cleanSession = false ∧ Persists clientId σ) := by
  rintro ⟨hclean, j, s, hs, hid, hpersist⟩
  cases room with
  | free hnone | evicted hnone => exact findClient_none hL hnone j s hs hid
  | vacated _ _ hgone =>
    obtain ⟨htaken, -⟩ := hr.takenOver hL
    obtain ⟨s', hs'⟩ := htaken.stays j s hs hpersist
    obtain ⟨s₀, hs₀, hsame⟩ := htaken.sessions j s' hs'
    rw [hs] at hs₀
    cases hs₀
    exact findClient_none htaken.linked hgone j s' hs' (hsame.clientId.trans hid)
  | replaced hclean' =>
    rw [hclean] at hclean'
    cases hclean'

theorem Asking.begins (hr : Asking P ci p clientId ctx σ) (hL : Linked P none σ) (hσ : Amid P σ) :
    σ.connectAccepted P ci p clientId ctx = σ.refuse P ci .serverUnavailable clientId ∨
      ∃ k b present, Begins P ci p clientId ctx k b present σ (σ.connectAccepted P ci p clientId ctx) := by
  have hout := connectAccepted_outcome hL hr.active hr.free hr.up p clientId ctx
  have hlt := hL.active_lt ci hr.active
  obtain ⟨htaken, hask⟩ := hr.takenOver hL
  generalize σ.connectAccepted P ci p clientId ctx = σ' at hout ⊢
  cases hout with
  | full => exact .inl rfl
  | @fresh σ₁ k pool room halloc =>
    refine .inr ⟨k, _, false, room.accepted hr hL halloc, ⟨fun h => absurd h (by simp), fun hboth => ?_⟩, ?_,
      fun h => absurd h (by simp), fun _ => rfl⟩
    · exact absurd hboth (room.not_persists hr hL)
    · have hroomy := room.roomy hr hL
      have hr₂ : Asking P ci p clientId ctx ({ σ₁ with sessions := pool }.emit (.alloc k)) :=
        hroomy.asking.congr [.alloc k] rfl rfl (by simp [Act.packet?])
      obtain ⟨σ₃, hwelcome⟩ := hr₂.welcome hlt k false (freshSession P.T ctx clientId)
      obtain ⟨older, he, -⟩ := hroomy.grows
      rw [allocated_eq hr.id]
      exact ⟨_, σ₃, ⟨.alloc k :: older, congrArg (Act.alloc k :: ·) he⟩, hwelcome, fun h => by cases h⟩
  | @resumed k s hclean hs hid hoff =>
    obtain ⟨s₀, hs₀, hsame⟩ := htaken.sessions k s hs
    have hid₀ : s₀.clientId = clientId := hsame.clientId.symm.trans hid
    have hpersist := ((htaken.linked.offline k s hs hoff).resolve_left (by simp)).1
    refine .inr ⟨k, _, true, hr.resumed_accepted hL hclean hs hid hoff,
      ⟨fun _ => ⟨hclean, k, s₀, hs₀, hid₀, hsame.clean.symm.trans hpersist⟩, fun _ => rfl⟩, ?_,
      fun _ => ⟨s₀, hs₀, hid₀⟩, fun h => by cases h⟩
    obtain ⟨σ₃, hwelcome⟩ := hask.welcome hlt k true s
    obtain ⟨older, he, -⟩ := htaken.grows
    obtain ⟨inputs, hcourse⟩ := hσ.course
    have hE := ((run_stepped P inputs).toCourse.trans (hcourse.trans htaken.toCourse)).evolve
    obtain ⟨σ₀, between, s₁, htakes⟩ := Evolve.takesUp hE hs hoff hpersist
    exact ⟨_, σ₃, ⟨older, he⟩, hwelcome, fun _ => ⟨σ₀, between, s₁, htakes.bound ci p ctx⟩⟩

theorem Entered.begins (h : Entered P ci body σ) (hp : parseConnect body = .ok p)
    (hacc : Accepted k ci b present σ (σ.handleConnect P ci body)) :
    ∃ ctx, Begins P ci p (σ.identify P p).1 ctx k b present σ (σ.handleConnect P ci body) := by
  rcases (handleConnect_heard ci body σ).quiet h.active h.alive with ⟨n, q⟩ | ⟨p', ctx, hno, hp', pass, he⟩
  · exact absurd hacc q.grows.not_accepted
  · rw [hp] at hp'
    cases hp'
    have hask := pass.asking h.active hno h.alive (h.received p hp)
    obtain ⟨n, hn⟩ := identify_state P p σ
    rw [he, hn] at hacc ⊢
    rw [hn] at hask
    have hstart : Handled P ci σ { σ with autoIdCounter := n } := counter_handled h.linked n
    obtain ⟨inputs, hcourse⟩ := h.amid.course
    rcases hask.begins hstart.linked ⟨⟨inputs, hcourse.trans hstart.toCourse⟩, none, hstart.linked⟩ with
      he | ⟨k', b', present', hbegins⟩
    · have hcode : ConnackCode.serverUnavailable ≠ .accepted := by simp
      rw [he] at hacc
      exact absurd hacc (quiet_refuse (σ := { σ with autoIdCounter := n }) (· = ci) rfl hcode _ ⟨h.active, h.alive⟩
        hno).grows.not_accepted
    · obtain ⟨rfl, rfl, rfl⟩ := hbegins.accepted.unique hacc
      exact ⟨ctx, { hbegins with }⟩

/-- **Session continuity.**  An accepted CONNECT is answered with the session present flag if and only if it asks for a
persistent session and there is one with its client id: one whose last CONNECT asked for a persistent session.  That one
it takes up: when `resume_session` starts, the session in the slot has the subscriptions and the inbound table it had
before the broker took it off its last connection, and its queue of then with what it was routed since.  Otherwise the
session is a fresh one, of which nothing comes from the slot. -/
theorem connect_continuity (h : Connecting P ci body σ) (hp : parseConnect body = .ok p)
    (hacc : Accepted k ci b present σ (σ.handleConnect P ci body)) :
    (∀ j s newer cj b' present' older, σ.sessions.slot j = some s → σ.trace = newer ++ .bind j cj b' present' :: older →
      (∀ a ∈ newer, a ≠ .release j ∧ (a.isBind = true → a.slot ≠ some j)) → b'.SameClient s) ∧
    (present = true ↔ p.cleanSession = false ∧ Persists (σ.identify P p).1 σ) ∧
    (∃ σ₁ σ₃, (∃ older, σ₁.trace = older ++ σ.trace) ∧
      Welcome P ci k b present σ₁.trace σ₃ (σ.handleConnect P ci body) ∧
      (present = true → ∃ σ₀ between s₀, TakesUp P k σ₀ σ₁ between s₀ b)) ∧
    (present = true → ∃ s, σ.sessions.slot k = some s ∧ s.clientId = (σ.identify P p).1) ∧
    (present = false → b.subs = [] ∧ b.pending = [] ∧ b.inboundQos2 = [] ∧
      ∃ ctx, b = boundSession P.T ci p ctx (freshSession P.T ctx (σ.identify P p).1)) := by
  obtain ⟨ctx, hbegins⟩ := h.entered.begins hp hacc
  refine ⟨fun j s newer cj b' present' older hs he hlast => h.entered.amid.lastBound hs he hlast, hbegins.flag,
    hbegins.answer, hbegins.resumed, fun hfresh => ?_⟩
  have he := hbegins.fresh hfresh
  have hqueues := SameQueues.bound P.T ci p ctx (freshSession P.T ctx (σ.identify P p).1)
  refine ⟨?_, ?_, ?_, ctx, he⟩
  · rw [he]
    exact (boundSession_subsEq ..).1
  · rw [he]
    exact hqueues.pending
  · rw [he]
    exact hqueues.inbound

/-- A persistent client with a subscription goes, a message is routed to it meanwhile, and it comes back. -/
theorem connect_continuity_resumed : let P := bed (fun _ _ _ => true)
    let body := (Wire.makeConnect [97] { clean := false }).drop 2
    ∃ σ k b σ₁ σ₃ σ₀ between s₀, Connecting P 0 body σ ∧ Welcome P 0 k b true σ₁.trace σ₃ (σ.handleConnect P 0 body) ∧
      TakesUp P k σ₀ σ₁ between s₀ b := by
  intro P body
  let inputs := Input.connect 0 [97] { clean := false } ++
    [.feed 0 (Wire.makeSubscribe 1 [([116], 1)]), .connClosed 0] ++
    Input.connect 1 [98] {} ++ [.feed 1 (Wire.makePublish [116] [7] .atLeastOnce false false 5), .connOpen 0 1000]
  obtain ⟨σ, hconn, hno, hslot⟩ := exists_connecting 0 body inputs (fun σ => (σ.conns 0).session = noSession ∧
      (σ.sessions.slot 0).map (fun s => (s.clientId, s.cleanSession)) = some ([97], false))
    (show 0 < ((run P inputs).arrivals P 0 (Wire.makeConnect [97] { clean := false }) 1000).length by decide +kernel)
    (by decide +kernel)
  have hp : parseConnect body = .ok (plainConnect [97] false) := by decide +kernel
  have hpersists : Persists [97] σ := by
    obtain ⟨s, hs, hpair⟩ := Option.map_eq_some_iff.1 hslot
    obtain ⟨hid, hclean⟩ := Prod.mk.inj hpair
    exact ⟨0, s, hs, hid, hclean⟩
  have h := hconn.entered
  have pass : Passes P (plainConnect [97] false) (σ.identify P (plainConnect [97] false)).1 () σ.trace :=
    plainConnect_passes (by decide) ⟨by decide, by decide⟩ (by decide)
  have hask : Asking P 0 (plainConnect [97] false) [97] () σ := pass.asking h.active hno h.alive (h.received _ hp)
  obtain ⟨k, b, present, hacc⟩ := ((hask.placed h.linked).resolve_left (fun hfull => by
    obtain ⟨j, s, hs, hid, -⟩ := hpersists
    exact hfull.1.1 j s hs hid)).2
  have hacc : Accepted k 0 b present σ (σ.handleConnect P 0 body) := by
    rw [pass.handleConnect hno hp]
    exact hacc
  obtain ⟨-, hflag, ⟨σ₁, σ₃, -, hwelcome, htakes⟩, -⟩ := connect_continuity hconn hp hacc
  have hpresent := hflag.2 ⟨rfl, hpersists⟩
  obtain ⟨σ₀, between, s₀, htakes⟩ := htakes hpresent
  exact ⟨σ, k, b, σ₁, σ₃, σ₀, between, s₀, hconn, hpresent ▸ hwelcome, htakes⟩

end

end Minimosq
