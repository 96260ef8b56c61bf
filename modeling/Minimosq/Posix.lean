import Minimosq.RingBuffer
import Minimosq.Transport
/-!
# What the POSIX transports share

`transports/posix/common.hpp`: the ring of bytes a peer has not accepted yet, and the loop both transports empty it
with.  What the kernel answers is an input: a list holds the answers to the calls of one kind, in the order they are
made, and where it ends the call would block.  Every outcome of every call is some list, and a loop that retries on
EINTR ends, as the list does.
-/
namespace Minimosq

abbrev OutRing (cap : Nat) := RingBuffer UInt8 cap

/-- A ring as constructed. -/
def OutRing.make (cap : Nat) : OutRing cap := ⟨fun _ => 0, 0, 0, RingBuffer.first_lt, Nat.zero_le cap⟩

/-! ## The ring and the queue it holds -/

namespace OutRing

variable {cap : Nat}

/-- What may be done to a ring. -/
inductive Op
  | append (b : Bytes)
  | consume (n : Nat)
  | clear
  deriving DecidableEq, Repr

def Op.apply (r : OutRing cap) : Op → OutRing cap
  | .append b => (r.append b).2
  | .consume n => r.consume n
  | .clear => r.clear

/-- The same, done to a queue of at most `cap` bytes. -/
def Op.onQueue (cap : Nat) (q : Bytes) : Op → Bytes
  | .append b => if q.length + b.length ≤ cap then q ++ b else q
  | .consume n => q.drop (min n q.length)
  | .clear => []

theorem content_apply (r : OutRing cap) (op : Op) : (op.apply r).content = op.onQueue cap r.content := by
  cases op with
  | append b =>
    change (r.append b).2.content = if r.content.length + b.length ≤ cap then r.content ++ b else r.content
    rw [r.content_append b, r.append_fst b, r.length_content]
    simp only [decide_eq_true_eq]
  | consume n =>
    change (r.consume n).content = r.content.drop (min n r.content.length)
    rw [r.content_consume n]
    rcases Nat.le_total n r.content.length with hle | hge
    · rw [Nat.min_eq_left hle]
    · rw [Nat.min_eq_right hge, List.drop_length, List.drop_eq_nil_of_le hge]
  | clear => exact r.content_clear

theorem content_run : ∀ (ops : List Op) (r : OutRing cap),
    (ops.foldl Op.apply r).content = ops.foldl (Op.onQueue cap) r.content
  | [], _ => rfl
  | op :: ops, r => by
    rw [List.foldl_cons, List.foldl_cons, content_run ops (op.apply r), content_apply]

/-- **The ring is a bounded queue of bytes**, whatever is done to it: `append` answers whether the span fits, and the
chunk handed to the kernel is a part of the buffer and the beginning of the queue. -/
theorem is_queue (cap : Nat) (hcap : 0 < cap) (ops : List Op) :
    (ops.foldl Op.apply (make cap)).content = ops.foldl (Op.onQueue cap) [] ∧
      (∀ b, ((ops.foldl Op.apply (make cap)).append b).1 =
        decide ((ops.foldl (Op.onQueue cap) []).length + b.length ≤ cap)) ∧
      (ops.foldl Op.apply (make cap)).frontChunk <+: ops.foldl (Op.onQueue cap) [] ∧
      (ops.foldl Op.apply (make cap)).head + (ops.foldl Op.apply (make cap)).frontChunk.length ≤ cap ∧
      ((ops.foldl Op.apply (make cap)).empty = false → (ops.foldl Op.apply (make cap)).frontChunk ≠ []) ∧
      (ops.foldl Op.apply (make cap)).head < cap ∧ (ops.foldl Op.apply (make cap)).len ≤ cap := by
  have hcontent := content_run ops (make cap)
  have hmade : (make cap).content = [] := rfl
  rw [hmade] at hcontent
  rw [← hcontent]
  generalize ops.foldl Op.apply (make cap) = r
  have hhead := r.head_lt hcap
  refine ⟨rfl, fun b => ?_, ?_, ?_, RingBuffer.frontChunk_ne_nil, hhead, r.len_le⟩
  · rw [r.append_fst b, r.length_content]
  · rw [r.frontChunk_eq]
    exact List.take_prefix ..
  · rw [RingBuffer.frontChunk, List.length_map, List.length_range]
    omega

/-- A ring of four goes round, is filled to the last place and asked for more than it holds. -/
def round : List Op := [.append [1, 2, 3], .consume 2, .append [4, 5, 6], .append [7], .consume 1]

theorem is_queue_round : (round.foldl Op.apply (make 4)).content = [4, 5, 6] ∧
    (round.foldl Op.apply (make 4)).frontChunk = [4] ∧
    (round.foldl Op.apply (make 4)).frontChunk <+: round.foldl (Op.onQueue 4) [] :=
  ⟨by decide, by decide, (is_queue 4 (by decide) round).2.2.1⟩

end OutRing

/-! ## Calls of the kernel -/

/-- What one `::write` or `::send` returns. -/
inductive Wrote
  /-- The count it would accept; it accepts no more than it is offered. -/
  | took (n : Nat)
  /-- EINTR. -/
  | interrupted
  /-- EAGAIN, or an error. -/
  | failed
  deriving DecidableEq, Repr

/-- What one `::read` returns. -/
inductive Got
  | data (bytes : Bytes)
  /-- EAGAIN. -/
  | again
  /-- EINTR. -/
  | interrupted
  /-- An error. -/
  | failed
  deriving DecidableEq, Repr

/-- The size of the buffer `::read` is given. -/
def readSize : Nat := 2048

/-- `max_reads_per_pass`. -/
def maxReadsPerPass : Nat := 8

/-- The loop of `flush` on an open descriptor: the bytes the kernel accepted, its answers to come, and the ring. -/
def writeOut {cap : Nat} : List Wrote → OutRing cap → Bytes × List Wrote × OutRing cap
  | [], r => ([], [], r)
  | w :: ws, r =>
    if r.empty then ([], w :: ws, r)
    else
      match w with
      | .took n =>
        let count := min n r.frontChunk.length
        if count = 0 then ([], ws, r)
        else
          let rest := writeOut ws (r.consume count)
          (r.frontChunk.take count ++ rest.1, rest.2)
      | .interrupted => writeOut ws r
      | .failed => ([], ws, r)

/-- **What the kernel accepted and what the ring still holds is what it held.** -/
theorem writeOut_content {cap : Nat} : ∀ (ws : List Wrote) (r : OutRing cap),
    (writeOut ws r).1 ++ (writeOut ws r).2.2.content = r.content
  | [], r => rfl
  | w :: ws, r => by
    unfold writeOut
    split
    · rfl
    cases w with
    | interrupted => exact writeOut_content ws r
    | failed => rfl
    | took n =>
      dsimp only
      split
      · rfl
      · have hrest := writeOut_content ws (r.consume (min n r.frontChunk.length))
        rw [List.append_assoc, hrest]
        exact r.take_frontChunk_append (Nat.min_le_right ..)

end Minimosq
