import Minimosq.Bed
import Minimosq.Posix
/-!
# The stream-socket server

`transports/posix/stream_server.hpp`: `poll`-driven slots, one for each connection index, each with a descriptor and a
ring of bytes its peer has not accepted yet.  A pass of the event loop comes with what the kernel answers during it.
The template parameters are `m`, for `MaxConns`, and `cap`, for `OutBufSize`.

The server keeps a record of what matters about a slot, the newest note first: who came to occupy it, what `send` was
asked and answered, what the kernel accepted, and which events of `poll` were applied to it.
-/
namespace Minimosq

variable {Ctx : Type} {m cap : Nat}

structure Slot (cap : Nat) where
  fd : Int := -1
  /-- Gained bytes since the last `flush_all`. -/
  dirty : Bool := false
  ring : OutRing cap := .make cap

/-- What one `::accept` returns. -/
inductive Came
  /-- A descriptor, with the outcome of `set_nonblocking` on it. -/
  | conn (fd : Nat) (nonblocking : Bool)
  /-- EINTR or ECONNABORTED. -/
  | interrupted
  /-- EAGAIN. -/
  | again
  /-- A hard failure. -/
  | failed
  deriving DecidableEq, Repr

/-- The `revents` of one entry of `poll`. -/
structure Revents where
  /-- POLLOUT. -/
  out : Bool := false
  /-- POLLIN, POLLHUP or POLLERR. -/
  ready : Bool := false
  /-- Any other. -/
  other : Bool := false
  deriving DecidableEq, Repr

/-- `revents` is not zero. -/
def Revents.any (r : Revents) : Bool := r.out || r.ready || r.other

/-- A note on the record. -/
inductive SlotNote
  /-- A descriptor was put into the slot. -/
  | occupied (ci : Nat) (fd : Int)
  /-- `send`, and what it returned. -/
  | span (ci : Nat) (bytes : Bytes) (ok : Bool)
  /-- The kernel accepted these bytes on this descriptor. -/
  | wrote (ci : Nat) (fd : Int) (bytes : Bytes)
  | closed (ci : Nat)
  /-- An event `poll` reported for the slot was applied to it; it was collected for this occupant. -/
  | applied (ci occupant : Nat)
  deriving DecidableEq, Repr

structure StreamServer (m cap : Nat) where
  slots : Nat → Slot cap := fun _ => {}
  listenFd : Int := -1
  acceptRetryAtMs : Nat := 0
  acceptBackoffArmed : Bool := false
  /-- What `::send`, `::read` and `::accept` are going to return. -/
  writes : List Wrote := []
  reads : List Got := []
  accepts : List Came := []
  record : List SlotNote := []

namespace StreamServer

def note (a : SlotNote) (s : StreamServer m cap) : StreamServer m cap := { s with record := a :: s.record }

def setSlot (ci : Nat) (slot : Slot cap) (s : StreamServer m cap) : StreamServer m cap :=
  { s with slots := Function.update s.slots ci slot }

/-- The kernel accepted some of the slot's ring. -/
def wroteOut (ci : Nat) (r : Bytes × List Wrote × OutRing cap) (s : StreamServer m cap) : StreamServer m cap :=
  ({ s with writes := r.2.1 }.setSlot ci { s.slots ci with ring := r.2.2 }).note (.wrote ci (s.slots ci).fd r.1)

def flush (ci : Nat) (s : StreamServer m cap) : StreamServer m cap :=
  if (s.slots ci).fd < 0 then s else s.wroteOut ci (writeOut s.writes (s.slots ci).ring)

/-- The ring of the slot has taken a span. -/
def queued (ci : Nat) (ring : OutRing cap) (s : StreamServer m cap) : StreamServer m cap :=
  s.setSlot ci { s.slots ci with ring := ring, dirty := true }

def send (s : StreamServer m cap) (ci : Nat) (bytes : Bytes) : Bool × StreamServer m cap :=
  if m ≤ ci then (false, s.note (.span ci bytes false))
  else if (s.slots ci).fd < 0 then (false, s.note (.span ci bytes false))
  else
    let r := (s.slots ci).ring.append bytes
    if r.1 then (true, (s.queued ci r.2).note (.span ci bytes true))
    else
      -- the ring is full mid-pass: write what is in it and try once more
      let s := s.flush ci
      let r := (s.slots ci).ring.append bytes
      if !r.1 then (false, s.note (.span ci bytes false)) else (true, (s.queued ci r.2).note (.span ci bytes true))

/-- The last bytes are flushed, the descriptor is closed, and the slot is free. -/
def closeSlot (ci : Nat) (s : StreamServer m cap) : StreamServer m cap :=
  let s := s.flush ci
  (s.setSlot ci { fd := -1, dirty := false, ring := (s.slots ci).ring.clear }).note (.closed ci)

def close (s : StreamServer m cap) (ci : Nat) : StreamServer m cap :=
  if m ≤ ci then s else if (s.slots ci).fd < 0 then s else s.closeSlot ci

/-- The transport policy. -/
def policy : Transport (StreamServer m cap) := ⟨send, close⟩

/-- One visit of the loop of `flush_all`. -/
def flushOne (s : StreamServer m cap) (ci : Nat) : StreamServer m cap :=
  if decide (0 ≤ (s.slots ci).fd) && (s.slots ci).dirty then (s.setSlot ci { s.slots ci with dirty := false }).flush ci
  else s

def flushAll (s : StreamServer m cap) : StreamServer m cap := (List.range m).foldl flushOne s

/-! ## Accepting -/

/-- The first free slot. -/
def freeSlot (s : StreamServer m cap) : Option Nat := (List.range m).find? (fun i => decide ((s.slots i).fd < 0))

def occupy (ci : Nat) (fd : Int) (s : StreamServer m cap) : StreamServer m cap :=
  (s.setSlot ci { fd := fd, dirty := false, ring := (s.slots ci).ring.clear }).note (.occupied ci fd)

/-- The broker would not have the connection: its descriptor is closed. -/
def vacate (ci : Nat) (s : StreamServer m cap) : StreamServer m cap :=
  (s.setSlot ci { s.slots ci with fd := -1 }).note (.closed ci)

/-- An accepted connection is put into slot `ci`, and the broker is asked. -/
def takeIn (P : Params Ctx) (now ci : Nat) (fd : Int) (x : System Ctx (StreamServer m cap)) :
    System Ctx (StreamServer m cap) :=
  let r := (x.onTransport (occupy ci fd)).connOpen policy P ci now
  if r.1 != .ok then r.2.onTransport (vacate ci) else r.2

/-- The pending connection stays in the backlog: the listener is paused. -/
def backOff (now : Nat) (s : StreamServer m cap) : StreamServer m cap :=
  { s with acceptBackoffArmed := true, acceptRetryAtMs := toU32 (now + 1000) }

/-- The loop of `accept_new`: so many attempts are left. -/
def acceptLoop (P : Params Ctx) (now : Nat) : Nat → System Ctx (StreamServer m cap) → System Ctx (StreamServer m cap)
  | 0, x => x
  | attempts + 1, x =>
    match x.transport.accepts with
    | [] => x
    | answer :: accepts =>
      let x := x.onTransport (fun s => { s with accepts := accepts })
      match answer with
      | .interrupted => acceptLoop P now attempts x
      | .again => x
      | .failed => x.onTransport (backOff now)
      | .conn fd nonblocking =>
        match x.transport.freeSlot with
        | none => acceptLoop P now attempts x
        | some ci =>
          if !nonblocking then acceptLoop P now attempts x else acceptLoop P now attempts (takeIn P now ci fd x)

def acceptNew (P : Params Ctx) (now : Nat) (x : System Ctx (StreamServer m cap)) : System Ctx (StreamServer m cap) :=
  acceptLoop P now m (x.onTransport (fun s => { s with acceptBackoffArmed := false }))

/-! ## Reading -/

/-- EOF or a fatal error: the replies queued earlier go out first, and the broker is told. -/
def hangUp (P : Params Ctx) (ci : Nat) (x : System Ctx (StreamServer m cap)) : System Ctx (StreamServer m cap) :=
  (x.onTransport (closeSlot ci)).connClosed policy P ci

/-- The loop of `read_into_broker`: so many reads are left. -/
def readIntoBroker (P : Params Ctx) (ci now : Nat) :
    Nat → System Ctx (StreamServer m cap) → System Ctx (StreamServer m cap)
  | 0, x => x
  | left + 1, x =>
    if (x.transport.slots ci).fd < 0 then x
    else
      match x.transport.reads with
      | [] => x
      | got :: reads =>
        let x := x.onTransport (fun s => { s with reads := reads })
        match got with
        | .data bytes =>
          if (bytes.take readSize).isEmpty then hangUp P ci x
          else readIntoBroker P ci now left (x.connData policy P ci (bytes.take readSize) now).2
        | .again => x
        | .interrupted => readIntoBroker P ci now left x
        | .failed => hangUp P ci x

/-! ## A pass -/

/-- Slot `ci` was given to somebody. -/
def occupies (ci : Nat) : SlotNote → Bool
  | .occupied j _ => j == ci
  | _ => false

/-- Which of its occupants slot `ci` has, or had last. -/
def occupant (ci : Nat) (record : List SlotNote) : Nat := record.countP (occupies ci)

/-- An entry of `pfds` with its `slot_of`, where `m` marks the listener, and the occupant it is collected for. -/
structure Pollfd where
  fd : Int
  slotOf : Nat
  occupant : Nat
  revents : Revents := {}

def listenerPaused (now : Nat) (s : StreamServer m cap) : Bool :=
  s.acceptBackoffArmed && !deadlinePassed now s.acceptRetryAtMs

def slotPfds (s : StreamServer m cap) : List Pollfd :=
  ((List.range m).filter (fun ci => decide (0 ≤ (s.slots ci).fd))).map
    (fun ci => ⟨(s.slots ci).fd, ci, occupant ci s.record, {}⟩)

/-- What is handed to `::poll`: the listener, if it is not paused, and every open slot. -/
def pfds (now : Nat) (s : StreamServer m cap) : List Pollfd :=
  (if decide (0 ≤ s.listenFd) && !s.listenerPaused now then [⟨s.listenFd, m, 0, {}⟩] else []) ++ s.slotPfds

/-- One visit of the loop over `pfds`. -/
def serveOne (P : Params Ctx) (now : Nat) (x : System Ctx (StreamServer m cap)) (p : Pollfd) :
    System Ctx (StreamServer m cap) :=
  if !p.revents.any then x
  else if p.slotOf = m then acceptNew P now x
  else if (x.transport.slots p.slotOf).fd != p.fd then x
  else
    let x := x.onTransport (note (.applied p.slotOf p.occupant))
    let x := if p.revents.out then x.onTransport (flush p.slotOf) else x
    if p.revents.ready then readIntoBroker P p.slotOf now maxReadsPerPass x else x

/-- What the kernel answers during one `poll_once`.  `rc` and `revents` are the outcome of `::poll`. -/
structure Pass where
  nowStart : Nat
  now : Nat
  rc : Int
  revents : Nat → Revents
  writes : List Wrote
  reads : List Got
  accepts : List Came

/-- The answers the kernel has ready for the pass. -/
def scripted (k : Pass) (s : StreamServer m cap) : StreamServer m cap :=
  { s with writes := k.writes, reads := k.reads, accepts := k.accepts }

def pollOnce (P : Params Ctx) (k : Pass) (x : System Ctx (StreamServer m cap)) :
    Int × System Ctx (StreamServer m cap) :=
  let x := x.onTransport (scripted k)
  if k.rc < 0 then (0, (x.tick policy P k.now).onTransport flushAll)
  else
    let polled := (x.transport.pfds k.nowStart).mapIdx (fun i p => { p with revents := k.revents i })
    (k.rc, ((polled.foldl (serveOne P k.now) x).tick policy P k.now).onTransport flushAll)

def closeListener (s : StreamServer m cap) : StreamServer m cap :=
  { s with listenFd := -1, acceptBackoffArmed := false, acceptRetryAtMs := 0 }

/-- What may happen to the server and its broker. -/
inductive Step
  /-- A derived class opens a listener. -/
  | listen (fd : Nat)
  | pollOnce (k : Pass)
  /-- The application publishes, and the broker may close connections over it. -/
  | publish (topic payload : Bytes) (qos : QoS) (retain : Bool) (writes : List Wrote)

def step (P : Params Ctx) (x : System Ctx (StreamServer m cap)) : Step → System Ctx (StreamServer m cap)
  | .listen fd => x.onTransport (fun s => { s.closeListener with listenFd := fd })
  | .pollOnce k => (pollOnce P k x).2
  | .publish topic payload qos retain writes =>
    ((x.onTransport (fun s => { s with writes := writes })).publish policy P topic payload qos retain).2

/-- A broker and a server as constructed. -/
def start (m cap : Nat) : System Ctx (StreamServer m cap) := ⟨.init, {}⟩

def run (m cap : Nat) (P : Params Ctx) (steps : List Step) : System Ctx (StreamServer m cap) :=
  steps.foldl (step P) (start m cap)

end StreamServer

end Minimosq
