import Mathlib.Logic.Relation
import Minimosq.SlotDelivery
/-!
# The broker as a machine

`Move` is what the broker does at once: something aside from every slot, one step of one slot, a change of the retained
store, or the handling of one session's subscriptions.  Every entry point is a sequence of moves (`Evolve`), and every
move takes each slot along steps of its own (`Move.slots`), so that a property of one session is an induction over its
slot, and a property that also reads connections or the retained store an induction over moves.
-/
namespace Minimosq

open History (Star since)

variable {Ctx : Type} {P : Params Ctx}

/-- A step of a live slot that keeps its session where it is. -/
def Serve (P : Params Ctx) (k : Nat) : Trace Ctx → Option (Session Ctx) → Trace Ctx → Option (Session Ctx) → Prop :=
  fun h o acts o' => ∃ s s', o = some s ∧ o' = some s' ∧ TStep P k h s acts s'

/-- Every slot serves. -/
def Serves (P : Params Ctx) (σ σ' : Broker Ctx) : Prop :=
  ∀ k, Star (Serve P k) (slotActs k σ.trace) (σ.sessions.slot k) (slotActs k σ'.trace) (σ'.sessions.slot k)

/-- `apply_retain`, or what it did. -/
def Act.isRetained : Act Ctx → Bool
  | .retained _ _ _ | .retain _ _ _ _ => true
  | _ => false

/-- The act is about no slot and not about the retained store. -/
def Act.Aside (a : Act Ctx) : Prop := a.slot = none ∧ a.isRetained = false

/-- A connection that was given up on stays so while a session holds it. -/
def StaysDead (σ σ' : Broker Ctx) : Prop :=
  ∀ k s s', σ.sessions.slot k = some s → σ'.sessions.slot k = some s' → s'.conn = s.conn → s.conn ≠ noConn →
    (σ.conns s.conn).dead = true → (σ'.conns s.conn).dead = true

/-- The session, if it stays, keeps its subscriptions and its replay where they are. -/
def SameSubs (o o' : Option (Session Ctx)) : Prop := ∀ s s', o = some s → o' = some s' → s.SubsEq s'

/-- The store `apply_retain` leaves. -/
def Retained.applied (T : Traits) (topic payload : Bytes) (qos : QoS) (store : Pool Entry) : Pool Entry :=
  if payload.isEmpty then Retained.remove T topic store else (Retained.set T topic payload qos store).2

/-- **One move of the broker.**  A session resumed while its connection was already given up on (`down`) is on a dead
connection. -/
inductive Move (P : Params Ctx) (σ σ' : Broker Ctx) : Prop
  | aside {acts : Trace Ctx} (sessions : σ'.sessions.slot = σ.sessions.slot) (retained : σ'.retained = σ.retained)
      (trace : σ'.trace = acts ++ σ.trace) (hacts : ∀ a ∈ acts, a.Aside) (dead : StaysDead σ σ')
  | slot (k : Nat) {acts : Trace Ctx} {o' : Option (Session Ctx)}
      (sessions : σ'.sessions.slot = Function.update σ.sessions.slot k o') (retained : σ'.retained = σ.retained)
      (trace : σ'.trace = acts ++ σ.trace) (hacts : ∀ a ∈ acts, a.slot = some k ∧ a.isSubs k = false ∨ a.Aside)
      (one : SlotStep P k (slotActs k σ.trace) (σ.sessions.slot k) (slotActs k acts) o')
      (subs : SameSubs (σ.sessions.slot k) o') (dead : StaysDead σ σ')
      (down : .resumed k false ∈ acts → ∀ s', o' = some s' → (σ'.conns s'.conn).dead = true)
  | retain (origin : Option (Origin Ctx)) (topic payload : Bytes) (qos : QoS)
      (sessions : σ'.sessions.slot = σ.sessions.slot) (conns : σ'.conns = σ.conns)
      (retained : σ'.retained = Retained.applied P.T topic payload qos σ.retained)
      (trace : σ'.trace = σ.retainedNote P topic σ.retained σ'.retained ++ .retain origin topic payload qos :: σ.trace)
      (serves : Serves P σ σ')
  | subscribe (k packetId : Nat) (es : List (Bytes × QoS)) {s : Session Ctx} (hs : σ.sessions.slot k = some s)
      (eq : σ' = σ.subscribeValid P k s.conn packetId es s) (serves : Serves P σ σ') (dead : StaysDead σ σ')
  | unsubscribe (k : Nat) (filters : List Bytes) {s : Session Ctx} (hs : σ.sessions.slot k = some s)
      (eq : σ' = (σ.setSession k { s with subs := unsubscribeAll s.subs filters }).emit (.unsubscribe k filters))
      (serves : Serves P σ σ')
  | replay (k : Nat) {s : Session Ctx} (hs : σ.sessions.slot k = some s)
      (eq : σ' = σ.onSession k (replayRetained P σ.conns s.conn k (σ.retained.toList P.T.maxRetained)))
      (serves : Serves P σ σ')

/-- Any number of moves. -/
abbrev Evolve (P : Params Ctx) : Broker Ctx → Broker Ctx → Prop := Relation.ReflTransGen (Move P)

/-! ## Moves and slots -/

theorem retainedNote_slot {topic : Bytes} {store store' : Pool Entry} {σ : Broker Ctx} :
    ∀ a ∈ σ.retainedNote P topic store store', a.slot = none := by
  unfold Broker.retainedNote
  split <;> simp [Act.slot]

/-- **In one move a slot serves, or takes one step.** -/
theorem Move.slot_cases {σ σ' : Broker Ctx} (m : Move P σ σ') (k : Nat) :
    Star (Serve P k) (slotActs k σ.trace) (σ.sessions.slot k) (slotActs k σ'.trace) (σ'.sessions.slot k) ∨
      ∃ acts, slotActs k σ'.trace = acts ++ slotActs k σ.trace ∧
        SlotStep P k (slotActs k σ.trace) (σ.sessions.slot k) acts (σ'.sessions.slot k) := by
  cases m with
  | aside sessions _ trace hacts _ =>
    rw [sessions, trace, slotActs_skip (fun a ha => by simp [(hacts a ha).1])]
    exact .inl .refl
  | @slot j acts o' sessions _ trace hacts one _ _ _ =>
    rw [sessions, trace]
    by_cases hk : k = j
    · subst hk
      rw [Function.update_self]
      exact .inr ⟨slotActs k acts, slotActs_append .., one⟩
    · have hother : ∀ a ∈ acts, a.slot ≠ some k := by
        intro a ha
        rcases hacts a ha with h | h
        · simp [h.1, Ne.symm hk]
        · simp [h.1]
      rw [Function.update_of_ne hk, slotActs_skip hother]
      exact .inl .refl
  | retain _ _ _ _ _ _ _ _ serves => exact .inl (serves k)
  | subscribe _ _ _ _ _ serves _ => exact .inl (serves k)
  | unsubscribe _ _ _ _ serves => exact .inl (serves k)
  | replay _ _ _ serves => exact .inl (serves k)

/-- **A move takes every slot along its own steps.** -/
theorem Move.slots {σ σ' : Broker Ctx} (m : Move P σ σ') (k : Nat) :
    Star (SlotStep P k) (slotActs k σ.trace) (σ.sessions.slot k) (slotActs k σ'.trace) (σ'.sessions.slot k) := by
  rcases m.slot_cases k with serves | ⟨acts, he, one⟩
  · exact serves.mono (fun _ _ _ _ ⟨_, _, ho, ho', d⟩ => by rw [ho, ho']; exact .serve d)
  · rw [he]
    exact .single one

/-- A run of the broker is a run of every slot. -/
theorem Evolve.slots {σ σ' : Broker Ctx} (h : Evolve P σ σ') (k : Nat) :
    Star (SlotStep P k) (slotActs k σ.trace) (σ.sessions.slot k) (slotActs k σ'.trace) (σ'.sessions.slot k) := by
  induction h with
  | refl => exact .refl
  | tail _ m ih => exact ih.trans (m.slots k)

theorem SameSubs.of_some {o : Option (Session Ctx)} {s s' : Session Ctx} (hs : o = some s) (h : s.SubsEq s') :
    SameSubs o (some s') := by
  subst hs
  rintro _ _ ⟨⟩ ⟨⟩
  exact h

theorem SameSubs.released (o : Option (Session Ctx)) : SameSubs o none := by
  intro s s' _ hs'
  cases hs'

theorem SameSubs.allocated (o' : Option (Session Ctx)) : SameSubs none o' := by
  intro s s' hs _
  cases hs

/-! ## Single moves -/

section
variable {σ σ' : Broker Ctx}

theorem StaysDead.of_conns (h : ∀ j, (σ.conns j).dead = true → (σ'.conns j).dead = true) : StaysDead σ σ' :=
  fun _ s _ _ _ _ _ hd => h s.conn hd

theorem Evolve.aside (acts : Trace Ctx) (sessions : σ'.sessions.slot = σ.sessions.slot)
    (retained : σ'.retained = σ.retained) (trace : σ'.trace = acts ++ σ.trace) (hacts : ∀ a ∈ acts, a.Aside)
    (dead : StaysDead σ σ') : Evolve P σ σ' := .single (.aside sessions retained trace hacts dead)

theorem Evolve.one {k : Nat} (acts : Trace Ctx) {o' : Option (Session Ctx)}
    (sessions : σ'.sessions.slot = Function.update σ.sessions.slot k o') (retained : σ'.retained = σ.retained)
    (trace : σ'.trace = acts ++ σ.trace) (hacts : ∀ a ∈ acts, a.slot = some k ∧ a.isSubs k = false)
    (subs : SameSubs (σ.sessions.slot k) o') (dead : StaysDead σ σ') (down : .resumed k false ∉ acts)
    (one : SlotStep P k (slotActs k σ.trace) (σ.sessions.slot k) acts o') : Evolve P σ σ' := by
  refine .single (.slot k sessions retained trace (fun a ha => .inl (hacts a ha)) ?_ subs dead
    (fun h => absurd h down))
  rwa [slotActs_own (fun a ha => (hacts a ha).1)]

end

end Minimosq
