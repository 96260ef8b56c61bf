import Minimosq.Parting
import Minimosq.Route
/-!
# Whom a slot is with

A slot of the session pool is vacant; a CONNECT allocates it and links its session to a connection; a teardown takes the
session off; it is resumed, or released.  `Tenant` is this machine, run over the slot's history, and the session in the
slot is always what it says (`SlotRun.tenant`).  `Connecting` are the states in which a CONNECT finds the slots.
-/
namespace Minimosq

open History (Star since)

variable {Ctx : Type} {P : Params Ctx} {k : Nat}

/-- **Whom a slot is with**, as its history has it: nobody, a session just allocated, the session `b` a CONNECT left on
connection `ci`, or the session `s` as a teardown left it. -/
inductive Tenant (Ctx : Type)
  | vacant
  | fresh
  | online (ci : Nat) (b : Session Ctx)
  | offline (s : Session Ctx)

/-- What one act about the slot makes of it. -/
def Tenant.after (x : Tenant Ctx) : Act Ctx → Tenant Ctx
  | .alloc _ => .fresh
  | .release _ => .vacant
  | .bind _ ci b _ => .online ci b
  | .parked _ s => .offline s
  | _ => x

/-- Whom a slot is with after the acts `h` about it. -/
def tenantOf (h : Trace Ctx) : Tenant Ctx := h.foldr (fun a x => x.after a) .vacant

/-- Whom slot `k` is with. -/
def tenant (k : Nat) (t : Trace Ctx) : Tenant Ctx := tenantOf (slotActs k t)

/-- The acts of one stay leave the slot with whom it is with. -/
theorem tenantOf_append {new : Trace Ctx} (h : Trace Ctx) (hnew : ∀ a ∈ new, a.rests = true) :
    tenantOf (new ++ h) = tenantOf h := by
  induction new with
  | nil => rfl
  | cons a new ih =>
    obtain ⟨ha, hnew⟩ := List.forall_mem_cons.1 hnew
    rw [← ih hnew]
    cases a <;> first | rfl | cases ha

/-- The session comes off its connection. -/
def Act.isDetach : Act Ctx → Bool
  | .detach _ _ => true
  | _ => false

theorem Act.isDetach_of_rests {a : Act Ctx} (h : a.rests = true) : a.isDetach = false := by
  cases a <;> first | rfl | cases h

theorem Act.rests_of_delivers {a : Act Ctx} (h : a.delivers = true) : a.rests = true := by
  cases a <;> first | rfl | cases h

/-- **The session in the slot is what the history `h` says.** -/
inductive Tenant.Has (T : Traits) (h : Trace Ctx) : Tenant Ctx → Option (Session Ctx) → Prop
  | vacant : Has T h .vacant none
  | fresh {s : Session Ctx} (hoff : s.conn = noConn) (hclean : s.cleanSession = true) : Has T h .fresh (some s)
  | online {ci : Nat} {b s : Session Ctx} (hconn : s.conn = toU16 ci) (hon : s.conn ≠ noConn) (same : b.SameClient s) :
      Has T h (.online ci b) (some s)
  | offline {s₁ s : Session Ctx} (hoff : s₁.conn = noConn) (rests : Rests T (since Act.isDetach h) s₁ s) :
      Has T h (.offline s₁) (some s)

section
variable {h acts new : Trace Ctx} {s s' : Session Ctx} {o o' : Option (Session Ctx)}

theorem TStep.only_rests (d : TStep P k h s acts s') : ∀ a ∈ acts, a.rests = true := by
  cases d with
  | deliver d => exact fun a ha => Act.rests_of_delivers (d.delivers a ha)
  | subs subs cursor hacts =>
    intro a ha
    have := hacts a ha
    cases a <;> first | rfl | cases this
  | publish ci topic payload qos t ha => cases ha <;> simp [Act.rests]

/-- The session without a connection goes on resting. -/
theorem Tenant.Has.rest {s₁ : Session Ctx} (hoff : s₁.conn = noConn) (h₁ : Rests P.T (since Act.isDetach h) s₁ s)
    (h₂ : Rests P.T acts s s') : Tenant.Has P.T (acts ++ h) (.offline s₁) (some s') := by
  refine .offline hoff ?_
  rw [History.since_append (fun a ha => Act.isDetach_of_rests (h₂.only a ha))]
  exact h₁.trans h₂

/-- What serves the session leaves its tenancy. -/
theorem Tenant.Has.serve (hx : Tenant.Has P.T h (tenantOf h) (some s)) (d : TStep P k h s acts s') :
    Tenant.Has P.T (acts ++ h) (tenantOf (acts ++ h)) (some s') := by
  have hconn := Session.conn_eq_of_frame d.frame
  rw [tenantOf_append h d.only_rests]
  generalize tenantOf h = x at hx ⊢
  cases hx with
  | fresh hoff hclean => exact .fresh (hconn.trans hoff) ((Session.sameClient_of_frame d.frame).clean.trans hclean)
  | online hci hon same =>
    exact .online (hconn.trans hci) (hconn ▸ hon) (same.trans (Session.sameClient_of_frame d.frame))
  | offline hoff rests => exact .rest hoff rests (d.rests (rests.conn.trans hoff))

/-- A CONNECT links the session, and whatever else it does serves it. -/
theorem Tenant.Has.bound {ci : Nat} {b : Session Ctx} (hci : ci < P.T.maxConnections) (hb : b.conn = toU16 ci)
    (hframe : s'.frame = b.frame) : Tenant.Has P.T h (.online ci b) (some s') := by
  have hconn : s'.conn = toU16 ci := (Session.conn_eq_of_frame hframe).trans hb
  exact .online hconn (hconn ▸ toU16_ne_noConn hci) (Session.sameClient_of_frame hframe)

/-- **A step of the slot is a step of its tenancy.** -/
theorem SlotStep.tenant (one : SlotStep P k h o acts o') (hx : Tenant.Has P.T h (tenantOf h) o) :
    Tenant.Has P.T (acts ++ h) (tenantOf (acts ++ h)) o' := by
  cases one with
  | serve d => exact hx.serve d
  | alloc ctx clientId => exact .fresh rfl rfl
  | release => exact .vacant
  | bind ci p ctx _ _ _ hci => exact .bound hci (boundSession_conn ..) rfl
  | @resume s s' new ci p ctx e up _ _ _ hci _ run =>
    have hframe : s'.frame = (boundSession P.T ci p ctx s).frame := run.inv
      (fun _ s' => s'.frame = (boundSession P.T ci p ctx s).frame) (fun _ _ _ _ hs r => r.frame.trans hs) rfl
    have hnew : ∀ a ∈ new ++ [.event e (some k)], a.rests = true := List.forall_mem_append.2
      ⟨fun a ha => Act.rests_of_delivers (Works.resume_delivers run a ha), List.forall_mem_singleton.2 rfl⟩
    have hx' : tenantOf (.resumed k up :: (new ++ [.event e (some k),
        .bind k ci (boundSession P.T ci p ctx s) true]) ++ h) =
        .online ci (boundSession P.T ci p ctx s) := by
      have := tenantOf_append (.bind k ci (boundSession P.T ci p ctx s) true :: h) hnew
      simp only [List.append_assoc, List.cons_append, List.nil_append] at this ⊢
      exact this
    rw [hx']
    exact .bound hci (boundSession_conn ..) hframe
  | detach now order hon => exact .offline rfl (.refl P.T _)
  | disconnect hon =>
    rw [tenantOf_append h (List.forall_mem_singleton.2 rfl)]
    generalize tenantOf h = x at hx ⊢
    cases hx with
    | fresh hoff => exact absurd hoff hon
    | online hci hon' same => exact .online hci hon' ⟨same.clientId, same.clean⟩
    | offline hoff rests => exact absurd (rests.conn.trans hoff) hon
  | submit ci allowed t hoff =>
    rw [tenantOf_append h (List.forall_mem_singleton.2 rfl)]
    generalize tenantOf h = x at hx ⊢
    cases hx with
    | fresh _ hclean => exact .fresh hoff hclean
    | online hci hon => exact absurd hoff hon
    | offline hoff₁ rests => exact .rest hoff₁ rests ⟨List.forall_mem_singleton.2 rfl, rfl⟩

/-- **The session in a slot is what the slot's history says.** -/
theorem SlotRun.tenant (run : SlotRun P k h o) : Tenant.Has P.T h (tenantOf h) o :=
  run.inv (fun h o => Tenant.Has P.T h (tenantOf h) o) (fun _ _ _ _ hx one => one.tenant hx) .vacant

/-- The slot has a session with a connection. -/
def Tenant.isOnline : Tenant Ctx → Bool
  | .online _ _ => true
  | _ => false

theorem Tenant.Has.isOnline_iff {x : Tenant Ctx} (hx : Tenant.Has P.T h x o) :
    x.isOnline = true ↔ ∃ s, o = some s ∧ s.conn ≠ noConn := by
  cases hx with
  | vacant => simp [Tenant.isOnline]
  | fresh hoff => simp [Tenant.isOnline, hoff]
  | online hconn hon => simp [Tenant.isOnline, hon]
  | offline hoff rests => simp [Tenant.isOnline, rests.conn, hoff]

/-- **A session is released only when it has no connection.** -/
theorem SlotRun.released (run : SlotRun P k h o) :
    History.Each (fun a older => a = .release k → (tenantOf older).isOnline = false) h := by
  refine (run.inv (fun h o => Tenant.Has P.T h (tenantOf h) o ∧
    History.Each (fun a older => a = .release k → (tenantOf older).isOnline = false) h) (fun h o acts o' hI one => ?_)
    ⟨.vacant, trivial⟩).2
  refine ⟨one.tenant hI.1, ?_⟩
  cases o' with
  | none =>
    cases one with
    | release hoff =>
      refine ⟨fun _ => Bool.eq_false_iff.2 (fun hon => ?_), hI.2⟩
      obtain ⟨s, hs, hne⟩ := hI.1.isOnline_iff.1 hon
      cases hs
      exact hne hoff
  | some s' =>
    refine hI.2.append (fun a ha between he => ?_)
    subst he
    cases one with
    | serve d => cases d.only_rests _ ha
    | alloc | bind | detach | disconnect | submit => simp [submitNote] at ha
    | resume ci p ctx e up _ _ _ _ _ run =>
      rcases List.mem_cons.1 ha with he | ha
      · cases he
      rcases List.mem_append.1 ha with ha | ha
      · cases Works.resume_delivers run _ ha
      · simp at ha

/-- The session of a slot keeps its client id. -/
theorem SlotStep.clientId (one : SlotStep P k h (some s) acts (some s')) : s'.clientId = s.clientId := by
  cases one with
  | serve d => exact Session.clientId_eq_of_frame d.frame
  | bind ci p ctx => exact (boundSession_fields P.T ci p ctx s).2.1
  | resume ci p ctx e up _ _ _ _ _ run =>
    exact run.inv (fun _ s' => s'.clientId = s.clientId)
      (fun _ _ _ _ hs r => (Session.clientId_eq_of_frame r.frame).trans hs) (boundSession_fields P.T ci p ctx s).2.1
  | detach | disconnect | submit => rfl

end

/-! ## Where a CONNECT is processed -/

/-- **`handle_connect(ci, body)` is entered in the state `σ`**, in some run. -/
def Connecting (P : Params Ctx) (ci : Nat) (body : Bytes) (σ : Broker Ctx) : Prop :=
  ∃ a, Arrives P ci a ∧ packetType a.firstByte = some .connect ∧
    fixedFlagsValid (packetType a.firstByte) (packetFlags a.firstByte) = true ∧ a.body = body ∧
    a.state.emit (.packet ci a.firstByte a.body) = σ

/-- A way to see one: every packet of a call is a CONNECT. -/
theorem exists_connecting {nowMs : Nat} {data : Bytes} (ci : Nat) (body : Bytes) (inputs : List Input)
    (Q : Broker Ctx → Prop) (hsome : 0 < ((run P inputs).arrivals P ci data nowMs).length)
    (hall : ∀ a ∈ (run P inputs).arrivals P ci data nowMs, packetType a.firstByte = some .connect ∧
      fixedFlagsValid (packetType a.firstByte) (packetFlags a.firstByte) = true ∧ a.body = body ∧
      Q (a.state.emit (.packet ci a.firstByte a.body))) : ∃ σ, Connecting P ci body σ ∧ Q σ := by
  obtain ⟨a, ha⟩ := List.exists_mem_of_length_pos hsome
  obtain ⟨htype, hflags, hbody, hQ⟩ := hall a ha
  exact ⟨_, ⟨a, ⟨inputs, _, _, ha⟩, htype, hflags, hbody, rfl⟩, hQ⟩

/-- What a CONNECT finds. -/
structure Entered (P : Params Ctx) (ci : Nat) (body : Bytes) (σ : Broker Ctx) : Prop where
  amid : Amid P σ
  linked : Linked P none σ
  books : Books P σ
  active : (σ.conns ci).active = true
  alive : (σ.conns ci).dead = false
  received : ∀ p, parseConnect body = .ok p → Received ci p σ.trace

theorem Amid.books {σ : Broker Ctx} (h : Amid P σ) : Books P σ := by
  obtain ⟨inputs, hcourse⟩ := h.course
  exact hcourse.books (run_books P inputs)

theorem Connecting.entered {ci : Nat} {body : Bytes} {σ : Broker Ctx} (h : Connecting P ci body σ) :
    Entered P ci body σ := by
  obtain ⟨a, harrives, htype, -, rfl, rfl⟩ := h
  obtain ⟨hamid, hlinked, hup⟩ := amid_arrival harrives
  exact ⟨hamid, hlinked, hamid.books, hup.1, hup.2, fun p hp => ⟨_, _, rfl, htype, hp⟩⟩

/-- The slots of a state the broker passes through have lived by their machine. -/
theorem Amid.slotRun {σ : Broker Ctx} (h : Amid P σ) (k : Nat) :
    SlotRun P k (slotActs k σ.trace) (σ.sessions.slot k) := by
  obtain ⟨inputs, hcourse⟩ := h.course
  exact (run_slot P inputs k).trans (hcourse.evolve.slots k)

end Minimosq
