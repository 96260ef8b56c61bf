import Minimosq.Frame
import Minimosq.Session
/-!
# What the broker does, and to whom it is connected

`broker/observer.hpp`, and the trace every run leaves.  A trace lists, newest first, the calls the broker makes on its
policies (`Transport::send` with the verdict it got, `Transport::close`, `Observer::on_event`) and notes of the model's
own, which mark the points the properties of a run speak of: a connection given up on, a session allocated, bound to a
connection, detached or released, a message routed or queued, an acknowledgement processed, and so on.  Some notes mark
what should never happen: a dangling dereference, a packet that cannot be built, a copy that does not fit.  A note is
written and never read.

The policies answer as they like: `Security` and `Transport` see everything the broker did, so every pattern of refusals
and every policy whose state is a function of that is some value of these types.  The questions `authorize_*` themselves
leave no act, so a policy that counts them is not.
-/
namespace Minimosq

inductive EventKind
  | connectionOpened | connectionClosed | connectRefused | protocolViolation | transportSendFailed | connectTimeout
  | keepaliveTimeout | idleTimeout | sessionCreated | sessionResumed | sessionTakenOver | sessionExpired
  | sessionEvicted | publishDenied | subscribeDenied | receiveDenied | retainedStoreFailed | retainedStalePurged
  | deliveryDropped | inboundQos2Evicted
  deriving DecidableEq, Repr

/-- `ci = none` is `Event::no_conn`. -/
structure Event where
  kind : EventKind
  ci : Option Nat := none
  clientId : Bytes := []
  topic : Bytes := []
  err : Err := .ok
  connack : ConnackCode := .accepted
  qos : QoS := .atMostOnce
  deriving DecidableEq, Repr

/-- Whom a packet is sent for: the session's slot, the context the session holds at that moment, and the queued message
it carries or releases, if it is one. -/
structure Tag (Ctx : Type) where
  slot : Nat
  ctx : Ctx
  seq : Option Nat
  deriving DecidableEq, Repr

/-- For whom a message is published: the session in `slot`, which got `ctx` with its CONNECT on `ci`. -/
structure Origin (Ctx : Type) where
  slot : Nat
  ci : Nat
  ctx : Ctx
  deriving DecidableEq, Repr

inductive Act (Ctx : Type)
  /-- `Transport::send(ci, pkt)` returned `ok`. -/
  | send (ci : Nat) (pkt : Bytes) (ok : Bool) (tag : Option (Tag Ctx))
  | close (ci : Nat)
  /-- `Observer::on_event(e)`, raised for the session in `slot`. -/
  | event (e : Event) (slot : Option Nat)
  /-- `on_packet(ci, firstByte, body)` was entered. -/
  | packet (ci : Nat) (firstByte : UInt8) (body : Bytes)
  /-- `conn_closed(ci)` found the connection active. -/
  | peerClosed (ci : Nat)
  /-- `conns_[ci].dead` was set. -/
  | dead (ci : Nat)
  /-- `*session_of(c)` was formed for a connection whose session is not live. -/
  | nullDeref (ci : Nat)
  /-- Entry `r` of the retained store was written, or (`moved`) added or removed, while the sessions in `paused` had an
  unfinished replay. -/
  | retained (r : Nat) (moved : Bool) (paused : List Nat)
  /-- `apply_retain` was called, for a client or (`none`) by `Broker::publish`. -/
  | retain (origin : Option (Origin Ctx)) (topic payload : Bytes) (qos : QoS)
  /-- `route_publish` was called, for a client or (`none`) by `Broker::publish`. -/
  | route (origin : Option (Origin Ctx)) (topic payload : Bytes) (qos : QoS)
  /-- `Broker::publish` accepted a message of the application. -/
  | application (topic payload : Bytes) (qos : QoS) (retain : Bool)
  /-- `route_publish` has this message for the session in slot `k`, at QoS `eff`: a filter matches, and the session may
  receive it. -/
  | routed (k : Nat) (topic payload : Bytes) (eff : QoS)
  /-- `topic_matches` was called with `topic` and each of `filters`, for the session in slot `k`. -/
  | matching (k : Nat) (filters : List Bytes) (topic : Bytes)
  /-- A packet could not be built, for the session in `slot` if for one. -/
  | unbuilt (slot : Option Nat)
  /-- An `assign` whose result is ignored failed. -/
  | truncated
  | alloc (k : Nat)
  | release (k : Nat)
  /-- A CONNECT was accepted on `ci` and leaves the session `s`, before its CONNACK. -/
  | bind (k ci : Nat) (s : Session Ctx) (resumed : Bool)
  /-- `resume_session` returned; `up` is whether the CONNACK had left the connection alive. -/
  | resumed (k : Nat) (up : Bool)
  /-- `teardown(ci)` took the session off its connection. -/
  | detach (k ci : Nat)
  /-- The session a teardown took off its connection, as it leaves it. -/
  | parked (k : Nat) (s : Session Ctx)
  /-- A well-formed DISCONNECT was processed. -/
  | disconnect (k ci : Nat)
  /-- `teardown(ci)` submits the will: `authorize_publish` is asked under `ctx`, and on `allowed` the will is retained,
  if it asks to be, and routed. -/
  | submit (k ci : Nat) (ctx : Ctx) (topic payload : Bytes) (qos : QoS) (retain allowed : Bool)
  | enqueue (k seq : Nat) (topic payload : Bytes) (qos : QoS) (retain : Bool)
  /-- A PUBACK, PUBREC or PUBCOMP for `id` was processed. -/
  | ack (k ci : Nat) (type : PacketType) (id : Nat)
  /-- A QoS 2 PUBLISH was processed; `pass` is whether it goes on to authorization and routing. -/
  | inbound (k id : Nat) (pass : Bool)
  /-- `id` was dropped from a full table of inbound ids. -/
  | evict (k id : Nat)
  /-- A PUBREL for `id` was processed. -/
  | pubrel (k id : Nat)
  /-- Pass 2 of a well-formed SUBSCRIBE found the session `s` and granted these filters. -/
  | subscribe (k : Nat) (s : Session Ctx) (granted : List Bytes)
  | unsubscribe (k : Nat) (filters : List Bytes)
  /-- `replay_retained` returned. -/
  | replay (k : Nat)
  /-- `alloc_packet_id` found every id in use and does not return.  The source's call ends here; the model's leaves the
  send loop. -/
  | stuck (k : Nat)
  deriving DecidableEq

abbrev Trace (Ctx : Type) := List (Act Ctx)

namespace Act

variable {Ctx : Type}

/-- The session slot an act is about. -/
def slot : Act Ctx → Option Nat
  | .send _ _ _ tag => tag.map Tag.slot
  | .event _ slot => slot
  | .retain origin _ _ _ | .route origin _ _ _ => origin.map Origin.slot
  | .unbuilt slot => slot
  | .close _ | .packet _ _ _ | .peerClosed _ | .dead _ | .nullDeref _ | .retained _ _ _ | .application _ _ _ _
  | .truncated => none
  | .matching k _ _ | .routed k _ _ _ | .parked k _ | .alloc k | .release k | .bind k _ _ _ | .resumed k _
  | .detach k _ | .disconnect k _ | .submit k _ _ _ _ _ _ _ | .enqueue k _ _ _ _ _ | .ack k _ _ _ | .inbound k _ _
  | .evict k _ | .pubrel k _ | .subscribe k _ _ | .unsubscribe k _ | .replay k | .stuck k => some k

/-- The connection whose life an act is part of: what is sent on it, and how it begins and ends. -/
def line : Act Ctx → Option Nat
  | .send ci _ _ _ | .close ci | .peerClosed ci | .dead ci | .bind _ ci _ _ => some ci
  | .event e _ => if e.kind = .connectionOpened ∨ e.kind = .connectionClosed then e.ci else none
  | _ => none

end Act

/-- The `Security` policy: each hook is asked with the trace so far. -/
structure Security (Ctx : Type) where
  authenticate : Trace Ctx → Bytes → Option Bytes → Option Bytes → ConnackCode × Ctx
  authorizePublish : Trace Ctx → Ctx → Bytes → Bool
  authorizeSubscribe : Trace Ctx → Ctx → Bytes → Bool
  authorizeReceive : Trace Ctx → Ctx → Bytes → Bool

/-- The template parameters of `Broker`. -/
structure Params (Ctx : Type) where
  T : Traits
  sec : Security Ctx
  /-- `Transport::send`: whether the span is taken, asked with the trace so far. -/
  send : Trace Ctx → Nat → Bytes → Bool

/-- `Broker::Conn`. -/
structure Conn where
  parser : FrameParser := {}
  deadlineMs : Nat := 0
  session : Nat := noSession
  keepaliveS : Nat := 0
  active : Bool := false
  dead : Bool := false
  notifyTransport : Bool := true
  deriving DecidableEq, Repr

def Conn.reset (c : Conn) : Conn := { parser := c.parser.reset }

/-- `AllowAllSecurity`. -/
def allowAllSecurity : Security Unit where
  authenticate := fun _ _ _ _ => (.accepted, ())
  authorizePublish := fun _ _ _ => true
  authorizeSubscribe := fun _ _ _ => true
  authorizeReceive := fun _ _ _ => true

end Minimosq
