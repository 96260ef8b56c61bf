import Minimosq.Move
/-!
# What the trace says of the state

The trace is also the broker's books.  The tickets sessions get when they are taken off their connections are numbered
as they are given out; the retained store is what the noted calls of `apply_retain` make of an empty one; every accepted
CONNECT is the packet received last, under the context it was authenticated with; and what is published for no client is
a message of the application.  `Books` is all of it, and most changes touch none of it.
-/
namespace Minimosq

variable {Ctx : Type} {P : Params Ctx}

/-! ## Tickets -/

/-- The ticket a session gets when it is taken off its connection. -/
def Act.ticket : Act Ctx → Option Nat
  | .parked _ s => some s.disconnectOrder
  | _ => none

/-- All the tickets given out, newest first. -/
def tickets (t : Trace Ctx) : List Nat := t.filterMap Act.ticket

/-- The first `n` tickets, newest first. -/
def firstTickets (n : Nat) : List Nat := ((List.range n).map (fun i => toU32 (i + 1))).reverse

/-! ## The retained store -/

/-- The message of a call of `apply_retain`. -/
def Act.retains : Act Ctx → Option Entry
  | .retain _ topic payload qos => some ⟨topic, payload, qos⟩
  | _ => none

/-- The messages `apply_retain` was called with, newest first. -/
def retains (t : Trace Ctx) : List Entry := t.filterMap Act.retains

/-- What an empty store becomes by these messages, newest first. -/
def storeOf (T : Traits) (ms : List Entry) : Pool Entry :=
  ms.foldr (fun m store => Retained.applied T m.topic m.payload m.qos store) .empty

/-! ## Accepted CONNECTs -/

/-- The packet of an act, with its connection. -/
def Act.packet? : Act Ctx → Option (Nat × UInt8 × Bytes)
  | .packet ci f body => some (ci, f, body)
  | _ => none

/-- The packet received last. -/
def lastPacket (t : Trace Ctx) : Option (Nat × UInt8 × Bytes) := t.findSome? Act.packet?

/-- The client id an accepted CONNECT goes by: the one it presents, or one the broker made. -/
inductive GoesBy (p : ConnectPacket) : Bytes → Prop
  | presented (hid : p.clientId ≠ []) (hfree : usesReservedPrefix p.clientId = false) : GoesBy p p.clientId
  | assigned (n : Nat) (hid : p.clientId = []) (hclean : p.cleanSession = true) : GoesBy p (autoId n)

/-- `authenticate` accepts the CONNECT `p` under `clientId`, with the context `ctx`. -/
def Authenticated (P : Params Ctx) (p : ConnectPacket) (clientId : Bytes) (ctx : Ctx) : Prop :=
  ∃ t, P.sec.authenticate t clientId (if p.hasUsername then some p.username else none)
    (if p.hasPassword then some p.password else none) = (.accepted, ctx)

/-- `p` is the packet received last, a CONNECT on `ci`. -/
def Received (ci : Nat) (p : ConnectPacket) (t : Trace Ctx) : Prop :=
  ∃ f body, lastPacket t = some (ci, f, body) ∧ packetType f = some .connect ∧ parseConnect body = .ok p

/-- The CONNECT `p` on `ci` asks for `clientId`, and is let in with `ctx`. -/
structure Asks (P : Params Ctx) (ci : Nat) (p : ConnectPacket) (clientId : Bytes) (ctx : Ctx) (t : Trace Ctx) :
    Prop where
  received : Received ci p t
  goesBy : GoesBy p clientId
  authenticated : Authenticated P p clientId ctx

/-- **The session an accepted CONNECT on `ci` leaves is the one it asked for.** -/
def Admitted (P : Params Ctx) (ci : Nat) (s : Session Ctx) (t : Trace Ctx) : Prop :=
  ∃ p, Asks P ci p s.clientId s.authCtx t ∧ s.cleanSession = p.cleanSession

/-! ## Messages of the application -/

/-- What `apply_retain` does for the application. -/
def Act.ofRetain : Act Ctx → Bool
  | .retain none _ _ _ | .retained _ _ _ | .event _ none => true
  | _ => false

/-- `Broker::publish` accepted this message, and went no further than `apply_retain` since. -/
def Requested (topic payload : Bytes) (qos : QoS) (t : Trace Ctx) : Prop :=
  ∃ retain newer older, t = newer ++ .application topic payload qos retain :: older ∧ ∀ a ∈ newer, a.ofRetain = true

/-- What every act of a trace keeps, with what came before it. -/
def Act.Recorded (P : Params Ctx) : Act Ctx → Trace Ctx → Prop
  | .bind _ ci s present, older => Admitted P ci s older ∧ (present = true → s.cleanSession = false)
  | .retain none topic payload qos, older | .route none topic payload qos, older => Requested topic payload qos older
  | _, _ => True

/-- The act has to be accounted for by what came before it. -/
def Act.isRecorded : Act Ctx → Bool
  | .bind _ _ _ _ | .retain none _ _ _ | .route none _ _ _ => true
  | _ => false

/-! ## All of it -/

/-- **The books are in order.** -/
structure Books (P : Params Ctx) (σ : Broker Ctx) : Prop where
  tickets : ∃ n, σ.disconnectOrder = toU32 n ∧ tickets σ.trace = firstTickets n
  store : σ.retained = storeOf P.T (retains σ.trace)
  records : History.Each (Act.Recorded P) σ.trace

/-- The act is no entry in the books. -/
structure Act.Unbooked (a : Act Ctx) : Prop where
  ticket : a.ticket = none
  retains : a.retains = none
  recorded : a.isRecorded = false

theorem filterMap_skip {α β : Type} {f : α → Option β} {new : List α} (h : ∀ a ∈ new, f a = none) (t : List α) :
    (new ++ t).filterMap f = t.filterMap f := by
  rw [List.filterMap_append, List.filterMap_eq_nil_iff.2 h]
  rfl

theorem Act.recorded_of {a : Act Ctx} (h : a.isRecorded = false) (t : Trace Ctx) : a.Recorded P t := by
  cases a with
  | bind => cases h
  | retain origin | route origin =>
    cases origin with
    | none => cases h
    | some o => trivial
  | _ => trivial

section
variable {σ σ' : Broker Ctx} {new : Trace Ctx}

theorem Books.init (P : Params Ctx) : Books P (.init : Broker Ctx) := ⟨⟨0, rfl, rfl⟩, rfl, trivial⟩

theorem Books.same (h : Books P σ) (hnew : ∀ a ∈ new, a.Unbooked) (htrace : σ'.trace = new ++ σ.trace)
    (horder : σ'.disconnectOrder = σ.disconnectOrder) (hret : σ'.retained = σ.retained) : Books P σ' where
  tickets := by
    rw [htrace, Minimosq.tickets, filterMap_skip (fun a ha => (hnew a ha).ticket), horder]
    exact h.tickets
  store := by
    rw [htrace, Minimosq.retains, filterMap_skip (fun a ha => (hnew a ha).retains), hret]
    exact h.store
  records := by
    rw [htrace]
    exact h.records.append (fun a ha _ => Act.recorded_of (hnew a ha).recorded _)

theorem Books.congr (h : Books P σ) (htrace : σ'.trace = σ.trace) (horder : σ'.disconnectOrder = σ.disconnectOrder)
    (hret : σ'.retained = σ.retained) : Books P σ' :=
  h.same (List.forall_mem_nil _) htrace horder hret

theorem Books.note (h : Books P σ) {a : Act Ctx} (ha : a.Unbooked) (htrace : σ'.trace = a :: σ.trace)
    (horder : σ'.disconnectOrder = σ.disconnectOrder) (hret : σ'.retained = σ.retained) : Books P σ' :=
  h.same (List.forall_mem_singleton.2 ha) htrace horder hret

theorem Books.park (h : Books P σ) {k : Nat} {s : Session Ctx} (hnew : ∀ a ∈ new, a.Unbooked)
    (htrace : σ'.trace = new ++ .parked k s :: σ.trace) (hs : s.disconnectOrder = σ'.disconnectOrder)
    (horder : σ'.disconnectOrder = toU32 (σ.disconnectOrder + 1)) (hret : σ'.retained = σ.retained) : Books P σ' where
  tickets := by
    obtain ⟨n, hn, ht⟩ := h.tickets
    have hnext : σ'.disconnectOrder = toU32 (n + 1) := by
      rw [horder, hn]
      simp only [toU32]
      omega
    refine ⟨n + 1, hnext, ?_⟩
    rw [htrace, Minimosq.tickets, filterMap_skip (fun a ha => (hnew a ha).ticket)]
    rw [Minimosq.tickets] at ht
    simp only [List.filterMap_cons, Act.ticket, ht, firstTickets, List.range_succ, List.map_append, List.map_cons,
      List.map_nil, List.reverse_append, List.reverse_cons, List.reverse_nil, List.nil_append, List.cons_append, hs,
        hnext]
  store := by
    rw [htrace, Minimosq.retains, filterMap_skip (fun a ha => (hnew a ha).retains), hret]
    exact h.store
  records := by
    have hpark : History.Each (Act.Recorded P) (.parked k s :: σ.trace) := ⟨trivial, h.records⟩
    rw [htrace]
    exact hpark.append (fun a ha _ => Act.recorded_of (hnew a ha).recorded _)

theorem Books.retain (h : Books P σ) {origin : Option (Origin Ctx)} {topic payload : Bytes} {qos : QoS}
    (hnew : ∀ a ∈ new, a.Unbooked) (htrace : σ'.trace = new ++ .retain origin topic payload qos :: σ.trace)
    (hreq : origin = none → Requested topic payload qos σ.trace) (horder : σ'.disconnectOrder = σ.disconnectOrder)
    (hret : σ'.retained = Retained.applied P.T topic payload qos σ.retained) : Books P σ' where
  tickets := by
    rw [htrace, Minimosq.tickets, filterMap_skip (fun a ha => (hnew a ha).ticket), horder]
    exact h.tickets
  store := by
    rw [htrace, Minimosq.retains, filterMap_skip (fun a ha => (hnew a ha).retains), hret, h.store]
    rfl
  records := by
    have hretain : History.Each (Act.Recorded P) (.retain origin topic payload qos :: σ.trace) := by
      refine ⟨?_, h.records⟩
      cases origin with
      | none => exact hreq rfl
      | some o => trivial
    rw [htrace]
    exact hretain.append (fun a ha _ => Act.recorded_of (hnew a ha).recorded _)

theorem Books.route (h : Books P σ) {origin : Option (Origin Ctx)} {topic payload : Bytes} {qos : QoS}
    (htrace : σ'.trace = .route origin topic payload qos :: σ.trace)
    (hreq : origin = none → Requested topic payload qos σ.trace) (horder : σ'.disconnectOrder = σ.disconnectOrder)
    (hret : σ'.retained = σ.retained) : Books P σ' where
  tickets := by
    rw [htrace, horder]
    exact h.tickets
  store := by
    rw [htrace, hret]
    exact h.store
  records := by
    rw [htrace]
    refine ⟨?_, h.records⟩
    cases origin with
    | none => exact hreq rfl
    | some o => trivial

theorem Books.bind (h : Books P σ) {k ci : Nat} {s : Session Ctx} {resumed : Bool} (hadm : Admitted P ci s σ.trace)
    (hclean : resumed = true → s.cleanSession = false) (htrace : σ'.trace = .bind k ci s resumed :: σ.trace)
    (horder : σ'.disconnectOrder = σ.disconnectOrder) (hret : σ'.retained = σ.retained) : Books P σ' where
  tickets := by
    rw [htrace, horder]
    exact h.tickets
  store := by
    rw [htrace, hret]
    exact h.store
  records := by
    rw [htrace]
    exact ⟨⟨hadm, hclean⟩, h.records⟩

end

/-! ## The packet received last -/

theorem lastPacket_skip {new : Trace Ctx} (h : ∀ a ∈ new, a.packet? = none) (t : Trace Ctx) :
    lastPacket (new ++ t) = lastPacket t := by
  rw [lastPacket, List.findSome?_append, List.findSome?_eq_none_iff.2 h]
  rfl

theorem Asks.skip {ci : Nat} {p : ConnectPacket} {clientId : Bytes} {ctx : Ctx} {t new : Trace Ctx}
    (h : Asks P ci p clientId ctx t) (hnew : ∀ a ∈ new, a.packet? = none) : Asks P ci p clientId ctx (new ++ t) := by
  obtain ⟨f, body, hlast, hrest⟩ := h.received
  exact ⟨⟨f, body, (lastPacket_skip hnew t).trans hlast, hrest⟩, h.goesBy, h.authenticated⟩

end Minimosq
