import Minimosq.Wire
/-!
# The frame parser

`protocol/frame.hpp`, and the one-shot decoder it is compared with.  `feed` calls back with each complete packet; the
callback's state is threaded through the loop, and its answer `false` stops the loop with the parser on a packet
boundary.  `body` is the part of `body_` written so far, so `body_len_` is its length.
-/
namespace Minimosq

inductive FrameState
  | firstByte | length | body
  deriving DecidableEq, Repr

structure FrameParser where
  state : FrameState := .firstByte
  firstByte : UInt8 := 0
  remLen : Nat := 0
  lenShift : Nat := 0
  body : Bytes := []
  deriving DecidableEq, Repr

namespace FrameParser

variable {S : Type}

def reset (p : FrameParser) : FrameParser := { p with state := .firstByte, remLen := 0, body := [], lenShift := 0 }

/-- The loop of `feed`, one iteration a unit of fuel.  An iteration consumes at least one byte, so the length of the
data is fuel enough. -/
def feedLoop (maxBody : Nat) (onPacket : UInt8 → Bytes → S → Bool × S) :
    Nat → FrameParser → Bytes → S → Err × FrameParser × S
  | 0, p, _, s => (.ok, p, s)
  | _ + 1, p, [], s => (.ok, p, s)
  | n + 1, p, b :: data, s =>
    match p.state with
    | .firstByte =>
      feedLoop maxBody onPacket n
        { p with firstByte := b, remLen := 0, lenShift := 0, body := [], state := .length } data s
    | .length =>
      let rem := p.remLen ||| ((b &&& 0x7F).toNat <<< p.lenShift)
      if b &&& 0x80 != 0 then
        if 21 ≤ p.lenShift then (.malformed, { p with remLen := rem }, s)
        else feedLoop maxBody onPacket n { p with remLen := rem, lenShift := p.lenShift + 7 } data s
      else if maxBody < rem then (.oversize, { p with remLen := rem }, s)
      else if rem = 0 then
        let r := onPacket p.firstByte [] s
        let p' := { p with remLen := rem, state := .firstByte }
        if !r.1 then (.ok, p', r.2) else feedLoop maxBody onPacket n p' data r.2
      else feedLoop maxBody onPacket n { p with remLen := rem, state := .body } data s
    | .body =>
      let take := min (p.remLen - p.body.length) (b :: data).length
      let body := p.body ++ (b :: data).take take
      if body.length = p.remLen then
        let r := onPacket p.firstByte body s
        let p' := { p with body := body, state := .firstByte }
        if !r.1 then (.ok, p', r.2) else feedLoop maxBody onPacket n p' ((b :: data).drop take) r.2
      else feedLoop maxBody onPacket n { p with body := body } ((b :: data).drop take) s

def feed (maxBody : Nat) (onPacket : UInt8 → Bytes → S → Bool × S) (p : FrameParser) (data : Bytes) (s : S) :
    Err × FrameParser × S := feedLoop maxBody onPacket data.length p data s

end FrameParser

/-! ## The reference decoder -/

/-- What a Remaining Length read off the front of a stream can be. -/
inductive LengthRead
  | incomplete
  | malformed
  | value (n : Nat) (rest : Bytes)
  deriving DecidableEq, Repr

/-- At most `n` base-128 digits, least significant first, the first of them worth `mul`. -/
def readLength : Nat → Nat → Bytes → LengthRead
  | _, _, [] => .incomplete
  | 0, _, _ :: _ => .malformed
  | n + 1, mul, b :: bs =>
    if b.toNat < 128 then .value (b.toNat * mul) bs
    else if n = 0 then .malformed
    else
      match readLength n (mul * 128) bs with
      | .value v rest => .value ((b.toNat - 128) * mul + v) rest
      | r => r

/-- The packets of a stream, and the error the decoding stops at (`ok` when it only runs out of bytes). -/
def decodeLoop (maxBody : Nat) : Nat → Bytes → List (UInt8 × Bytes) × Err
  | 0, _ => ([], .ok)
  | _ + 1, [] => ([], .ok)
  | n + 1, f :: bs =>
    match readLength 4 1 bs with
    | .incomplete => ([], .ok)
    | .malformed => ([], .malformed)
    | .value len rest =>
      if maxBody < len then ([], .oversize)
      else if rest.length < len then ([], .ok)
      else ((f, rest.take len) :: (decodeLoop maxBody n (rest.drop len)).1, (decodeLoop maxBody n (rest.drop len)).2)

def decodeStream (maxBody : Nat) (stream : Bytes) : List (UInt8 × Bytes) × Err :=
  decodeLoop maxBody stream.length stream

end Minimosq
