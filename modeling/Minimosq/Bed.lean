import Minimosq.Broker
/-!
# The test bed

`tests/wire_util.hpp` and `tests/broker_util.hpp`: the packets a client sends, as the broker's own tests write them, and
the tiny configuration they run on.  The concrete runs of this development are calls on such a bed.
-/
namespace Minimosq

/-- `SmallTraits`. -/
def smallTraits : Traits where
  maxConnections := 4
  maxSessions := 3
  maxSubscriptionsPerSession := 3
  maxTopicLen := 32
  maxClientIdLen := 16
  maxPacketSize := 256
  maxPayloadLen := 64
  maxRetained := 3
  maxPendingPerSession := 4
  maxInboundQos2 := 2
  connectTimeoutMs := 5000
  maxIdleMs := 0
  sessionExpiryMs := 0
  sessions_pos := by decide
  subscriptions_pos := by decide
  topicLen_pos := by decide
  clientIdLen_pos := by decide
  payloadLen_pos := by decide
  retained_pos := by decide
  pending_pos := by decide
  inbound_pos := by decide
  retained_le := by decide
  connectTimeout_le := by decide
  maxIdle_le := by decide
  sessionExpiry_le := by decide
  connections_le := by decide
  sessions_le := by decide

/-- A broker with `SmallTraits` and `AllowAllSecurity`, over a transport that answers as `send` does. -/
def bed (send : Trace Unit → Nat → Bytes → Bool) : Params Unit := ⟨smallTraits, allowAllSecurity, send⟩

/-- `ExpiringTraits`. -/
def expiringTraits : Traits := { smallTraits with sessionExpiryMs := 60000, sessionExpiry_le := by decide }

/-- A broker with `ExpiringTraits`, over a transport that takes everything. -/
def expiringBed : Params Unit := ⟨expiringTraits, allowAllSecurity, fun _ _ _ => true⟩

namespace Wire

/-- The writer of a `Pkt`. -/
def writer : Writer := .make (1600 - packetOverhead)

structure ConnectOpts where
  clean : Bool := true
  keepaliveS : Nat := 60
  willTopic : Option Bytes := none
  willPayload : Bytes := []
  willQos : QoS := .atMostOnce
  willRetain : Bool := false
  username : Option Bytes := none
  password : Option Bytes := none
  protocolName : Bytes := Minimosq.protocolName
  protocolLevel : UInt8 := 4
  extraFlags : UInt8 := 0

/-- The flags byte of `make_connect`. -/
def connectFlags (o : ConnectOpts) : UInt8 :=
  let clean : UInt8 := if o.clean then 0x02 else 0
  let retain : UInt8 := if o.willRetain then 0x20 else 0
  let will : UInt8 := if o.willTopic.isSome then (0x04 : UInt8) |||
    (UInt8.ofNat o.willQos.toNat <<< 3) ||| retain else 0
  let username : UInt8 := if o.username.isSome then 0x80 else 0
  let password : UInt8 := if o.password.isSome then 0x40 else 0
  o.extraFlags ||| clean ||| will ||| username ||| password

def makeConnect (clientId : Bytes) (o : ConnectOpts) : Bytes :=
  let w := ((((writer.utf8 o.protocolName).u8 o.protocolLevel).u8 (connectFlags o)).u16 o.keepaliveS).utf8 clientId
  let w := match o.willTopic with
    | none => w
    | some topic => ((w.utf8 topic).u16 (toU16 o.willPayload.length)).bytes o.willPayload
  let w := match o.username with
    | none => w
    | some name => w.utf8 name
  let w := match o.password with
    | none => w
    | some pw => (w.u16 (toU16 pw.length)).bytes pw
  framePacket (makeFirstByte .connect 0) w.buf

def makePublish (topic payload : Bytes) (qos : QoS) (retain dup : Bool) (id : Nat) : Bytes :=
  buildPublish 1600 topic payload qos retain dup id

def makeSubscribe (id : Nat) (entries : List (Bytes × UInt8)) : Bytes :=
  framePacket (makeFirstByte .subscribe 0x02)
    (entries.foldl (fun w e => (w.utf8 e.1).u8 e.2) (writer.u16 id)).buf

def makeAck (t : PacketType) (id : Nat) : Bytes := buildPacketIdOnly 16 t id

def makeEmpty (t : PacketType) : Bytes := [makeFirstByte t 0, 0]

end Wire

/-- `Bed::connect`: open a connection and send CONNECT on it. -/
def Input.connect (ci : Nat) (clientId : Bytes) (o : Wire.ConnectOpts) : List Input :=
  [.connOpen ci 1000, .connData ci (Wire.makeConnect clientId o) 1000]

/-- `Bed::feed`: one packet on a connection. -/
def Input.feed (ci : Nat) (pkt : Bytes) : Input := .connData ci pkt 1000

end Minimosq
