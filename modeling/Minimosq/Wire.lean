import Mathlib.Data.List.Basic
/-!
# The wire: constants, reader, writer, packets

`protocol/constants.hpp`, `reader.hpp`, `writer.hpp` and `packets.hpp`.  Bytes are `UInt8`; a `ByteSpan` and a `StrView`
are both a list of bytes, an empty span the empty list.  A `uint16_t` read off the wire is a `Nat` below 65536.
`Reader` and `Writer` fail stickily, as the source's do, and a parser returns its `Err` through `Except`.
-/
namespace Minimosq

abbrev Bytes := List UInt8

/-- `core/error.hpp`. -/
inductive Err
  | ok | truncated | malformed | oversize | capacity | state
  deriving DecidableEq, Repr

inductive PacketType
  | connect | connack | publish | puback | pubrec | pubrel | pubcomp | subscribe | suback | unsubscribe | unsuback
  | pingreq | pingresp | disconnect
  deriving DecidableEq, Repr

def PacketType.code : PacketType → UInt8
  | .connect => 1 | .connack => 2 | .publish => 3 | .puback => 4 | .pubrec => 5 | .pubrel => 6 | .pubcomp => 7
  | .subscribe => 8 | .suback => 9 | .unsubscribe => 10 | .unsuback => 11 | .pingreq => 12 | .pingresp => 13
  | .disconnect => 14

inductive QoS
  | atMostOnce | atLeastOnce | exactlyOnce
  deriving DecidableEq, Repr

def QoS.toNat : QoS → Nat
  | .atMostOnce => 0 | .atLeastOnce => 1 | .exactlyOnce => 2

/-- `static_cast<QoS>` of a value already known to be at most 2. -/
def qosOfRaw : Nat → QoS
  | 0 => .atMostOnce | 1 => .atLeastOnce | _ => .exactlyOnce

inductive ConnackCode
  | accepted | unacceptableProtocol | identifierRejected | serverUnavailable | badCredentials | notAuthorized
  deriving DecidableEq, Repr

def ConnackCode.code : ConnackCode → UInt8
  | .accepted => 0 | .unacceptableProtocol => 1 | .identifierRejected => 2 | .serverUnavailable => 3
  | .badCredentials => 4 | .notAuthorized => 5

def protocolLevel311 : UInt8 := 4
def subackFailure : UInt8 := 0x80
def maxRemainingLength : Nat := 268435455
def maxUtf8Len : Nat := 0xFFFF

/-! ## Fixed header -/

def makeFirstByte (t : PacketType) (flags : UInt8) : UInt8 := (t.code <<< 4) ||| (flags &&& 0x0F)

/-- `packet_type`; `none` is a nibble outside the enumeration (0 and 15). -/
def packetType (firstByte : UInt8) : Option PacketType :=
  match (firstByte >>> 4).toNat with
  | 1 => some .connect | 2 => some .connack | 3 => some .publish | 4 => some .puback | 5 => some .pubrec
  | 6 => some .pubrel | 7 => some .pubcomp | 8 => some .subscribe | 9 => some .suback | 10 => some .unsubscribe
  | 11 => some .unsuback | 12 => some .pingreq | 13 => some .pingresp | 14 => some .disconnect | _ => none

def packetFlags (firstByte : UInt8) : UInt8 := firstByte &&& 0x0F

def varintSize (v : Nat) : Nat := if v < 128 then 1 else if v < 16384 then 2 else if v < 2097152 then 3 else 4

def fixedFlagsValid (t : Option PacketType) (flags : UInt8) : Bool :=
  match t with
  | some .publish => true
  | some .pubrel | some .subscribe | some .unsubscribe => flags == 0x02
  | _ => flags == 0x00

/-! ## Reader -/

structure Reader where
  rest : Bytes
  ok : Bool
  deriving DecidableEq, Repr

namespace Reader

def make (s : Bytes) : Reader := ⟨s, true⟩

def atEnd (r : Reader) : Bool := r.rest.isEmpty

def fail (r : Reader) : Reader := { r with ok := false }

def u8 (r : Reader) : UInt8 × Reader :=
  match r.ok, r.rest with
  | true, b :: bs => (b, ⟨bs, true⟩)
  | _, _ => (0, r.fail)

def u16 (r : Reader) : Nat × Reader :=
  match r.ok, r.rest with
  | true, b₀ :: b₁ :: bs => ((b₀.toNat <<< 8) ||| b₁.toNat, ⟨bs, true⟩)
  | _, _ => (0, r.fail)

def bytes (r : Reader) (n : Nat) : Bytes × Reader :=
  if !r.ok || decide (r.rest.length < n) then ([], r.fail) else (r.rest.take n, { r with rest := r.rest.drop n })

def lenPrefixedBytes (r : Reader) : Bytes × Reader :=
  if !r.u16.2.ok then ([], r.u16.2) else r.u16.2.bytes r.u16.1

/-- `utf8()`: the same bytes, viewed as text. -/
def utf8 (r : Reader) : Bytes × Reader := r.lenPrefixedBytes

/-- `rest()`: everything not yet consumed. -/
def takeRest (r : Reader) : Bytes × Reader := if !r.ok then ([], r) else (r.rest, { r with rest := [] })

end Reader

/-! ## Writer

`buf` is what has been written, so `size()` is its length. -/

structure Writer where
  cap : Nat
  buf : Bytes
  ok : Bool
  deriving DecidableEq, Repr

namespace Writer

def make (cap : Nat) : Writer := ⟨cap, [], true⟩

def fail (w : Writer) : Writer := { w with ok := false }

def bytes (w : Writer) (b : Bytes) : Writer :=
  if !w.ok || decide (w.cap - w.buf.length < b.length) then w.fail else { w with buf := w.buf ++ b }

def u8 (w : Writer) (v : UInt8) : Writer :=
  if !w.ok || decide (w.cap < w.buf.length + 1) then w.fail else { w with buf := w.buf ++ [v] }

def u16 (w : Writer) (v : Nat) : Writer :=
  if !w.ok || decide (w.cap < w.buf.length + 2) then w.fail
  else { w with buf := w.buf ++ [UInt8.ofNat (v >>> 8), UInt8.ofNat (v &&& 0xFF)] }

def utf8 (w : Writer) (s : Bytes) : Writer :=
  if maxUtf8Len < s.length then w.fail else (w.u16 s.length).bytes s

/-- The do-while of `varint`; a `uint32_t` has at most five base-128 digits. -/
def varintLoop : Nat → Nat → Writer → Writer
  | 0, _, w => w
  | n + 1, v, w =>
    let digit := if 0 < v / 128 then UInt8.ofNat (v % 128) ||| 0x80 else UInt8.ofNat (v % 128)
    if 0 < v / 128 then varintLoop n (v / 128) (w.u8 digit) else w.u8 digit

def varint (w : Writer) (v : Nat) : Writer := if maxRemainingLength < v then w.fail else varintLoop 5 v w

end Writer

/-! ## Parsing -/

structure ConnectPacket where
  clientId : Bytes
  willTopic : Bytes
  willPayload : Bytes
  username : Bytes
  password : Bytes
  keepaliveS : Nat
  protocolLevel : UInt8
  willQos : QoS
  protocolNameOk : Bool
  cleanSession : Bool
  hasWill : Bool
  willRetain : Bool
  hasUsername : Bool
  hasPassword : Bool
  deriving DecidableEq, Repr

/-- "MQTT". -/
def protocolName : Bytes := [77, 81, 84, 84]

/-- The payload half of `parse_connect`: the fields the flags announce, then nothing. -/
def parseConnectPayload (r : Reader) (nameOk : Bool) (level flags : UInt8) (keepalive willQosRaw : Nat) :
    Except Err ConnectPacket :=
  let hasWill := flags &&& 0x04 != 0
  let hasUsername := flags &&& 0x80 != 0
  let hasPassword := flags &&& 0x40 != 0
  let cid := r.utf8
  let wt := if hasWill then cid.2.utf8 else ([], cid.2)
  let wp := if hasWill then wt.2.lenPrefixedBytes else ([], wt.2)
  let un := if hasUsername then wp.2.utf8 else ([], wp.2)
  let pw := if hasPassword then un.2.lenPrefixedBytes else ([], un.2)
  if !pw.2.ok then .error .truncated
  else if !pw.2.atEnd then .error .malformed
  else .ok {
    clientId := cid.1, willTopic := wt.1, willPayload := wp.1, username := un.1, password := pw.1
    keepaliveS := keepalive, protocolLevel := level, willQos := qosOfRaw willQosRaw, protocolNameOk := nameOk
    cleanSession := flags &&& 0x02 != 0, hasWill := hasWill, willRetain := flags &&& 0x20 != 0
    hasUsername := hasUsername, hasPassword := hasPassword }

def parseConnect (body : Bytes) : Except Err ConnectPacket :=
  let name := (Reader.make body).utf8
  let level := name.2.u8
  let flags := level.2.u8
  let keepalive := flags.2.u16
  let willQosRaw := ((flags.1 &&& 0x18) >>> 3).toNat
  if !keepalive.2.ok then .error .truncated
  else if flags.1 &&& 0x01 != 0 then .error .malformed
  else if decide (2 < willQosRaw) then .error .malformed
  else if !(flags.1 &&& 0x04 != 0) && (willQosRaw != 0 || flags.1 &&& 0x20 != 0) then .error .malformed
  else if flags.1 &&& 0x40 != 0 && !(flags.1 &&& 0x80 != 0) then .error .malformed
  else parseConnectPayload keepalive.2 (name.1 == protocolName) level.1 flags.1 keepalive.1 willQosRaw

structure PublishPacket where
  topic : Bytes
  payload : Bytes
  packetId : Nat
  qos : QoS
  retain : Bool
  dup : Bool
  deriving DecidableEq, Repr

def parsePublish (firstByte : UInt8) (body : Bytes) : Except Err PublishPacket :=
  let flags := packetFlags firstByte
  let qosRaw := ((flags &&& 0x06) >>> 1).toNat
  let dup := flags &&& 0x08 != 0
  if decide (2 < qosRaw) then .error .malformed
  else if qosRaw == 0 && dup then .error .malformed
  else
    let topic := (Reader.make body).utf8
    let id := if qosRaw != 0 then topic.2.u16 else (0, topic.2)
    if !id.2.ok then .error .truncated
    else if qosRaw != 0 && id.1 == 0 then .error .malformed
    else .ok ⟨topic.1, id.2.takeRest.1, id.1, qosOfRaw qosRaw, flags &&& 0x01 != 0, dup⟩

def parsePacketIdOnly (body : Bytes) : Except Err Nat :=
  let id := (Reader.make body).u16
  if !id.2.ok then .error .truncated
  else if !id.2.atEnd then .error .malformed
  else if id.1 == 0 then .error .malformed
  else .ok id.1

/-- `TopicListParser`: the reader over the entries, and its sticky status. -/
structure TopicListParser where
  r : Reader
  packetId : Nat
  count : Nat
  err : Err
  withQos : Bool
  deriving DecidableEq, Repr

namespace TopicListParser

def make (body : Bytes) (withQos : Bool) : TopicListParser :=
  let id := (Reader.make body).u16
  { r := id.2, packetId := id.1, count := 0, withQos := withQos
    err := if !id.2.ok then .truncated else if id.1 == 0 then .malformed else .ok }

/-- `next`: the entry read, or `none` when it returns false. -/
def next (p : TopicListParser) : Option (Bytes × QoS) × TopicListParser :=
  if p.err != .ok then (none, p)
  else if p.r.atEnd then (none, if p.count == 0 then { p with err := .malformed } else p)
  else
    let filter := p.r.utf8
    let q := if p.withQos then filter.2.u8 else (0, filter.2)
    if !q.2.ok then (none, { p with r := q.2, err := .truncated })
    else if decide (2 < q.1) then (none, { p with r := q.2, err := .malformed })
    else (some (filter.1, qosOfRaw q.1.toNat), { p with r := q.2, count := p.count + 1 })

/-- `while (next(..))`: the entries yielded, in order, and the parser the loop leaves.  Every entry takes two bytes at
least, so a fuel of the body's length is enough. -/
def drain : Nat → TopicListParser → List (Bytes × QoS) × TopicListParser
  | 0, p => ([], p)
  | n + 1, p =>
    match p.next with
    | (none, p') => ([], p')
    | (some e, p') => (e :: (drain n p').1, (drain n p').2)

def entries (body : Bytes) (withQos : Bool) : List (Bytes × QoS) × TopicListParser :=
  drain body.length (make body withQos)

end TopicListParser

/-! ## Serialization

A builder returns the framed packet, or `[]` when it does not fit. -/

def packetOverhead : Nat := 5

/-- `frame_packet`: the fixed header, right-aligned against the body. -/
def framePacket (firstByte : UInt8) (body : Bytes) : Bytes :=
  if maxRemainingLength < body.length then []
  else
    let w := ((Writer.make (1 + varintSize body.length)).u8 firstByte).varint body.length
    if !w.ok then [] else w.buf ++ body

def buildConnack (cap : Nat) (sessionPresent : Bool) (code : ConnackCode) : Bytes :=
  if cap < packetOverhead + 2 then []
  else
    let w := ((Writer.make (cap - packetOverhead)).u8 (if sessionPresent then 0x01 else 0x00)).u8 code.code
    if !w.ok then [] else framePacket (makeFirstByte .connack 0) w.buf

def publishFlags (qos : QoS) (retain dup : Bool) : UInt8 :=
  (UInt8.ofNat qos.toNat <<< 1) ||| (if retain then 0x01 else 0x00) ||| (if dup then 0x08 else 0x00)

def buildPublish (cap : Nat) (topic payload : Bytes) (qos : QoS) (retain dup : Bool) (packetId : Nat) : Bytes :=
  if cap < packetOverhead then []
  else
    let w := (Writer.make (cap - packetOverhead)).utf8 topic
    let w := if qos != .atMostOnce then w.u16 packetId else w
    let w := w.bytes payload
    if !w.ok then [] else framePacket (makeFirstByte .publish (publishFlags qos retain dup)) w.buf

def buildPacketIdOnly (cap : Nat) (type : PacketType) (packetId : Nat) : Bytes :=
  if cap < packetOverhead + 2 then []
  else
    let w := (Writer.make (cap - packetOverhead)).u16 packetId
    if !w.ok then [] else framePacket (makeFirstByte type (if type == .pubrel then 0x02 else 0x00)) w.buf

def buildPingresp (cap : Nat) : Bytes := if cap < 2 then [] else [makeFirstByte .pingresp 0, 0]

end Minimosq
