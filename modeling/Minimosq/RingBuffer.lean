import Mathlib.Data.List.Basic
import Mathlib.Logic.Function.Basic
/-!
# A bounded queue in a circular buffer

A buffer of `cap` places, of which `len` from `head` on hold the queue, going round at the end.  `content` is the queue
as a list; every operation is shown to do to it what it should: `append` adds the whole list or nothing, `consume` drops
from the front, and `frontChunk`, the part of the queue that does not go round, is the beginning of it.
-/

/-- The places from `head` on hold the queue.  With no places at all there is no `head` to speak of. -/
structure RingBuffer (α : Type) (cap : Nat) where
  buf : Nat → α
  head : Nat
  len : Nat
  head_lt : 0 < cap → head < cap
  len_le : len ≤ cap

namespace RingBuffer

variable {α : Type} {cap : Nat}

def empty (r : RingBuffer α cap) : Bool := r.len == 0

/-- Write a list into the places from `pos` on. -/
def write (cap : Nat) : List α → Nat → (Nat → α) → Nat → α
  | [], _, buf => buf
  | a :: as, pos, buf => write cap as (pos + 1) (Function.update buf (pos % cap) a)

/-- Append the whole list or nothing. -/
def append (b : List α) (r : RingBuffer α cap) : Bool × RingBuffer α cap :=
  if h : cap < r.len + b.length then (false, r)
  else (true, { r with buf := write cap b (r.head + r.len) r.buf, len := r.len + b.length, len_le := Nat.not_lt.1 h })

/-- The longest part that does not go round. -/
def frontChunk (r : RingBuffer α cap) : List α := (List.range (min r.len (cap - r.head))).map
    (fun i => r.buf (r.head + i))

def consume (n : Nat) (r : RingBuffer α cap) : RingBuffer α cap where
  buf := r.buf
  head := (r.head + min n r.len) % cap
  len := r.len - min n r.len
  head_lt := Nat.mod_lt _
  len_le := Nat.le_trans (Nat.sub_le ..) r.len_le

/-- An empty queue begins at the first place. -/
theorem first_lt (h : 0 < cap) : 0 < cap := h

def clear (r : RingBuffer α cap) : RingBuffer α cap :=
  { r with head := 0, len := 0, head_lt := first_lt, len_le := Nat.zero_le _ }

/-- The queue. -/
def content (r : RingBuffer α cap) : List α := (List.range r.len).map (fun i => r.buf ((r.head + i) % cap))

/-! ## The operations on the queue -/

@[simp] theorem length_content (r : RingBuffer α cap) : r.content.length = r.len := by simp [content]

@[simp] theorem content_clear (r : RingBuffer α cap) : r.clear.content = [] := rfl

/-- Two places of the buffer no further apart than it is long are different. -/
theorem mod_ne {p i n : Nat} (hi : i < n) (hn : n < cap) : (p + n) % cap ≠ (p + i) % cap := by
  intro he
  have hdvd : cap ∣ (p + n) - (p + i) := Nat.dvd_of_mod_eq_zero (Nat.sub_mod_eq_zero_of_mod_eq he)
  have hzero : (p + n) - (p + i) = 0 := Nat.eq_zero_of_dvd_of_lt hdvd (by omega)
  omega

/-- What is written after `n` places from `p` on leaves those places alone. -/
theorem write_before (p : Nat) {i : Nat} : ∀ (b : List α) (n : Nat) (buf : Nat → α), i < n → n + b.length ≤ cap →
    write cap b (p + n) buf ((p + i) % cap) = buf ((p + i) % cap)
  | [], _, _, _, _ => rfl
  | a :: b, n, buf, hi, hn => by
    rw [List.length_cons] at hn
    rw [write, Nat.add_assoc, write_before p b (n + 1) _ (by omega) (by omega)]
    exact Function.update_of_ne (mod_ne hi (by omega)).symm ..

theorem write_at (p : Nat) : ∀ (b : List α) (n : Nat) (buf : Nat → α), n + b.length ≤ cap →
    (List.range b.length).map (fun i => write cap b (p + n) buf ((p + (n + i)) % cap)) = b
  | [], _, _, _ => rfl
  | a :: b, n, buf, hn => by
    rw [List.length_cons] at hn
    rw [List.length_cons, List.range_succ_eq_map, List.map_cons, List.map_map]
    have ih := write_at p b (n + 1) (Function.update buf ((p + n) % cap) a) (by omega)
    have hfirst : write cap (a :: b) (p + n) buf ((p + (n + 0)) % cap) = a := by
      change write cap b (p + (n + 1)) (Function.update buf ((p + n) % cap) a) ((p + n) % cap) = a
      rw [write_before p b (n + 1) _ (Nat.lt_succ_self n) (by omega)]
      exact Function.update_self ..
    rw [hfirst]
    congr 1
    refine Eq.trans (List.map_congr_left (fun i _ => ?_)) ih
    rw [Function.comp, write, Nat.succ_eq_add_one, Nat.add_right_comm n 1 i, Nat.add_assoc n i 1, Nat.add_assoc p n 1]

theorem append_fst (b : List α) (r : RingBuffer α cap) : (r.append b).1 = decide (r.len + b.length ≤ cap) := by
  unfold append
  split
  · rename_i h
    exact (decide_eq_false (Nat.not_le.2 h)).symm
  · rename_i h
    exact (decide_eq_true (Nat.not_lt.1 h)).symm

theorem content_append (b : List α) (r : RingBuffer α cap) :
    (r.append b).2.content = if (r.append b).1 then r.content ++ b else r.content := by
  unfold append
  split
  · rfl
  · rename_i h
    have hfits : r.len + b.length ≤ cap := Nat.not_lt.1 h
    simp only [content, if_true]
    rw [List.range_add, List.map_append, List.map_map]
    congr 1
    · refine List.map_congr_left (fun i hi => ?_)
      exact write_before r.head b r.len r.buf (List.mem_range.1 hi) hfits
    · exact write_at r.head b r.len r.buf hfits

theorem content_consume (n : Nat) (r : RingBuffer α cap) : (r.consume n).content = r.content.drop n := by
  have hlen : (r.consume n).len = r.len - n := by
    simp only [consume]
    omega
  refine List.ext_getElem (by simp [hlen]) (fun i h _ => ?_)
  rw [length_content, hlen] at h
  simp only [content, List.getElem_map, List.getElem_range, List.getElem_drop]
  simp only [consume]
  rw [Nat.mod_add_mod, Nat.min_eq_left (by omega), Nat.add_assoc]

theorem frontChunk_eq (r : RingBuffer α cap) : r.frontChunk = r.content.take (min r.len (cap - r.head)) := by
  refine List.ext_getElem (by simp [frontChunk]) (fun i h _ => ?_)
  have hi : i < cap - r.head := by
    simp only [frontChunk, List.length_map, List.length_range] at h
    omega
  simp only [frontChunk, content, List.getElem_map, List.getElem_range, List.getElem_take]
  rw [Nat.mod_eq_of_lt (by omega)]

theorem frontChunk_ne_nil {r : RingBuffer α cap} (h : r.empty = false) : r.frontChunk ≠ [] := by
  have hlen : 0 < r.len := Nat.pos_of_ne_zero (by simpa [empty] using h)
  have hhead : r.head < cap := r.head_lt (Nat.lt_of_lt_of_le hlen r.len_le)
  rw [← List.length_pos_iff, frontChunk, List.length_map, List.length_range]
  omega

/-- What is taken from the chunk is what leaves the queue. -/
theorem take_frontChunk_append {n : Nat} (r : RingBuffer α cap) (hn : n ≤ r.frontChunk.length) :
    r.frontChunk.take n ++ (r.consume n).content = r.content := by
  have hle : n ≤ min r.len (cap - r.head) := by simpa [frontChunk] using hn
  rw [content_consume, frontChunk_eq, List.take_take, Nat.min_eq_left hle, List.take_append_drop]

end RingBuffer
