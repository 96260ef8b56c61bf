import Minimosq.Session
import Minimosq.Storage
/-!
# The pool in storage

`core/pool.hpp` on raw storage: objects are constructed, assigned and destroyed in cells, and handed out by address.  No
sequence of calls constructs over a living object or touches one that is not alive, and what lives where is what the
`Pool` of the broker model says.
-/
namespace Minimosq

open Storage

variable {α : Type}

/-- Where a pool has its storage, and `sizeof(T)`. -/
structure Layout where
  base : Nat
  size : Nat
  size_pos : 0 < size

/-- The address of slot `i`. -/
def Layout.addr (L : Layout) (i : Nat) : Nat := L.base + i * L.size

/-- A pointer to a `T`: an address, or null. -/
abbrev Ptr := Option Nat

/-- The slot a pointer points at: it has the address of one of the slots. -/
def Layout.slotAt (L : Layout) (cap : Nat) : Ptr → Option Nat
  | none => none
  | some q =>
    if L.base ≤ q ∧ (q - L.base) % L.size = 0 ∧ (q - L.base) / L.size < cap then some ((q - L.base) / L.size) else none

structure PoolMemory (α : Type) where
  storage : Cells α := fun _ => none
  used : Nat → Bool := fun _ => false
  count : Nat := 0

namespace PoolMemory

section
variable (L : Layout) (cap : Nat)

/-- `slot_index`, the loop of which compares one address after the other. -/
def slotIndex : Ptr → Nat
  | none => cap
  | some q => ((List.range cap).find? (fun i => q == L.addr i)).getD cap

def alloc (init : α) (x : PoolMemory α) : Option (Ptr × PoolMemory α) :=
  match (List.range cap).find? (fun i => !x.used i) with
  | none => some (none, x)
  | some i => (construct cap i init x.storage).map fun c =>
    (some (L.addr i), { storage := c, used := Function.update x.used i true, count := x.count + 1 })

/-- `release`.  A count below zero is a fault. -/
def release (p : Ptr) (x : PoolMemory α) : Option (PoolMemory α) :=
  let i := slotIndex L cap p
  if decide (cap ≤ i) || !x.used i then some x
  else if x.count = 0 then none
  else (destroy i x.storage).map fun c =>
    { storage := c, used := Function.update x.used i false, count := x.count - 1 }

def clear (x : PoolMemory α) : Option (PoolMemory α) :=
  (forUpTo (fun i x =>
    if x.used i then (destroy i x.storage).map fun c => { x with storage := c, used := Function.update x.used i false }
    else some x) cap x).map fun x => { x with count := 0 }

/-- `index_of`. -/
def indexOf (p : Nat) : Nat := (p - L.base) / L.size

/-- `at`. -/
def pointerAt (i : Nat) (x : PoolMemory α) : Ptr := if decide (i < cap) && x.used i then some (L.addr i) else none

/-- `find`, which reads the objects it asks about. -/
def find (pred : α → Bool) (x : PoolMemory α) : Option Ptr :=
  forUpTo (fun i found =>
    if found.isSome then some found
    else if x.used i then (x.storage i).map fun a => if pred a then some (L.addr i) else none
    else some none) cap none

/-- `if (T* p = pool.at(i)) *p = f(*p)`. -/
def modify (i : Nat) (f : α → α) (x : PoolMemory α) : Option (PoolMemory α) :=
  if (pointerAt L cap i x).isNone then some x
  else (x.storage i).bind fun a => (write i (f a) x.storage).map fun c => { x with storage := c }

end

/-- **The memory is a pool of the broker model**: `used_` says where an object lives, and `count_` how many do. -/
structure Is (cap : Nat) (x : PoolMemory α) (p : Pool α) : Prop where
  storage : x.storage = p.slot
  used : ∀ i, x.used i = (p.slot i).isSome
  count : x.count = p.count
  bound : ∀ i, cap ≤ i → p.slot i = none
  live : p.count = (live cap p.slot).card

section
variable {L : Layout} {cap : Nat} {x : PoolMemory α} {p : Pool α}

theorem slotAt_eq_some {q i : Nat} : L.slotAt cap (some q) = some i ↔ q = L.addr i ∧ i < cap := by
  simp only [Layout.slotAt, Layout.addr]
  constructor
  · intro h
    split at h
    · rename_i hq
      cases h
      have := Nat.div_add_mod (q - L.base) L.size
      rw [hq.2.1, Nat.mul_comm] at this
      exact ⟨by omega, hq.2.2⟩
    · cases h
  · rintro ⟨rfl, hi⟩
    have hsub : L.base + i * L.size - L.base = i * L.size := by omega
    rw [hsub, Nat.mul_div_cancel i L.size_pos, Nat.mul_mod_left, if_pos ⟨by omega, rfl, hi⟩]

/-- **`slot_index` finds the slot a pointer points at**, and `cap` for any other pointer. -/
theorem slotIndex_eq (q : Ptr) : slotIndex L cap q = (L.slotAt cap q).getD cap := by
  cases q with
  | none => rfl
  | some q =>
    rw [slotIndex]
    congr 1
    cases hfind : (List.range cap).find? (fun i => q == L.addr i) with
    | none =>
      cases hslot : L.slotAt cap (some q) with
      | none => rfl
      | some i =>
        obtain ⟨hq, hi⟩ := slotAt_eq_some.1 hslot
        simpa [hq] using List.find?_eq_none.1 hfind i (List.mem_range.2 hi)
    | some i =>
      have hq : q = L.addr i := by simpa using List.find?_some hfind
      exact (slotAt_eq_some.2 ⟨hq, List.mem_range.1 (List.mem_of_find?_eq_some hfind)⟩).symm

end

/-! ## The pool of the broker model under the same calls -/

section
variable (L : Layout) (cap : Nat)

def poolAlloc (init : α) (p : Pool α) : Ptr × Pool α :=
  match p.alloc cap init with
  | none => (none, p)
  | some (i, p') => (some (L.addr i), p')

def poolRelease (q : Ptr) (p : Pool α) : Pool α :=
  match L.slotAt cap q with
  | none => p
  | some i => p.release cap i

def poolModify (i : Nat) (f : α → α) (p : Pool α) : Pool α :=
  match p.get cap i with
  | none => p
  | some a => p.set i (f a)

end

section
variable {L : Layout} {cap : Nat} {x : PoolMemory α} {p : Pool α}

theorem alloc_ok (h : x.Is cap p) (init : α) :
    Ok (alloc L cap init x) (fun r => r.1 = (poolAlloc L cap init p).1 ∧ r.2.Is cap (poolAlloc L cap init p).2) := by
  have hfree : (List.range cap).find? (fun i => !x.used i) = p.free cap := by
    rw [Pool.free]
    congr 1
    funext i
    rw [h.used i, Option.not_isSome]
  unfold alloc poolAlloc Pool.alloc
  rw [hfree]
  cases hi : p.free cap with
  | none => exact .pure ⟨rfl, h⟩
  | some i =>
    have hlt : i < cap := List.mem_range.1 (List.mem_of_find?_eq_some hi)
    have hnone : p.slot i = none := by simpa using List.find?_some hi
    simp only [Option.map_some]
    rw [h.storage, construct_eq hlt hnone]
    refine .pure ⟨rfl, rfl, fun j => ?_, by simp [h.count], fun j hj => ?_, ?_⟩
    · by_cases hj : j = i
      · simp [hj]
      · simp [hj, h.used j]
    · simp only [Function.update_of_ne (show j ≠ i by omega)]
      exact h.bound j hj
    · rw [live_construct hlt hnone, ← h.live]

theorem release_ok (h : x.Is cap p) (q : Ptr) :
    Ok (release L cap q x) (fun x' => x'.Is cap (poolRelease L cap q p)) := by
  have hsame : Ok (some x) (fun x' => x'.Is cap p) := .pure h
  unfold release poolRelease
  simp only [slotIndex_eq]
  cases hslot : L.slotAt cap q with
  | none => simpa using hsame
  | some i =>
    have hlt : i < cap := by
      cases q with
      | none => cases hslot
      | some q => exact (slotAt_eq_some.1 hslot).2
    simp only [Option.getD_some, Nat.not_le.2 hlt, decide_false, Bool.false_or, h.used i, Pool.release]
    cases ha : p.slot i with
    | none => simpa using hsame
    | some a =>
      have hlive := live_destroy hlt ha
      simp only [Option.isSome_some, Bool.not_true, Bool.false_eq_true, if_false, Option.isNone_some]
      rw [if_neg (by rw [h.count, h.live]; omega), h.storage, destroy_eq ha]
      refine .pure ⟨rfl, fun j => ?_, by simp [h.count], fun j hj => ?_, ?_⟩
      · by_cases hj : j = i
        · simp [hj]
        · simp [hj, h.used j]
      · simp only [Function.update_of_ne (show j ≠ i by omega)]
        exact h.bound j hj
      · simp only
        rw [h.live]
        omega

theorem modify_ok (h : x.Is cap p) (i : Nat) (f : α → α) :
    Ok (modify L cap i f x) (fun x' => x'.Is cap (poolModify cap i f p)) := by
  have hsame : Ok (some x) (fun x' => x'.Is cap p) := .pure h
  unfold modify poolModify pointerAt Pool.get
  by_cases hi : i < cap
  · simp only [hi, decide_true, Bool.true_and, if_true, h.used i]
    cases ha : p.slot i with
    | none => simpa using hsame
    | some a =>
      simp only [Option.isSome_some, if_true, Option.isNone_some, Bool.false_eq_true, if_false, h.storage, ha,
        Option.bind_some, write_eq ha, Option.map_some]
      refine .pure ⟨rfl, fun j => ?_, h.count, fun j hj => ?_, ?_⟩
      · by_cases hj : j = i
        · simp [hj, Pool.set, h.used, ha]
        · simp [hj, Pool.set, h.used j]
      · simp only [Pool.set, Function.update_of_ne (show j ≠ i by omega)]
        exact h.bound j hj
      · simp only [Pool.set, live_write ha]
        exact h.live
  · simpa [hi] using hsame

theorem clear_eq (h : x.Is cap p) : clear cap x = some {} := by
  -- Before turn `i` the slots below `i` are free, and the others as they were.
  have hloop : Ok (clear cap x) (· = {}) := by
    refine (Ok.forUpTo (fun i y => (∀ j < i, y.storage j = none ∧ y.used j = false) ∧
      ∀ j, i ≤ j → y.storage j = x.storage j ∧ y.used j = x.used j) ⟨by simp, fun _ _ => ⟨rfl, rfl⟩⟩ cap ?_).map ?_
    · rintro i - y ⟨hbelow, hrest⟩
      obtain ⟨hs, hu⟩ := hrest i (Nat.le_refl i)
      have hused : y.used i = (y.storage i).isSome := by rw [hu, hs, h.used i, h.storage]
      cases ha : y.storage i with
      | none =>
        have hfree : y.used i = false := by rw [hused, ha]; rfl
        simp only [hfree, Bool.false_eq_true, if_false]
        refine .pure ⟨fun j hj => ?_, fun j hj => hrest j (by omega)⟩
        rcases Nat.lt_succ_iff_lt_or_eq.1 hj with hj | rfl
        · exact hbelow j hj
        · exact ⟨ha, hfree⟩
      | some a =>
        have htaken : y.used i = true := by rw [hused, ha]; rfl
        simp only [htaken, if_true, destroy_eq ha]
        refine .pure ⟨fun j hj => ?_, fun j hj => ?_⟩
        · rcases Nat.lt_succ_iff_lt_or_eq.1 hj with hj | rfl
          · simpa [Nat.ne_of_lt hj] using hbelow j hj
          · simp
        · simpa [show j ≠ i by omega] using hrest j (by omega)
    · rintro y ⟨hbelow, hrest⟩
      have hall : ∀ j, y.storage j = none ∧ y.used j = false := by
        intro j
        rcases Nat.lt_or_ge j cap with hj | hj
        · exact hbelow j hj
        · obtain ⟨hs, hu⟩ := hrest j hj
          rw [hs, hu, h.used j, h.storage, h.bound j hj]
          exact ⟨rfl, rfl⟩
      rw [PoolMemory.mk.injEq]
      exact ⟨funext fun j => (hall j).1, funext fun j => (hall j).2, rfl⟩
  obtain ⟨y, heq, rfl⟩ := hloop
  exact heq

/-- **`find` is `find` of the model.** -/
theorem find_eq (h : x.Is cap p) (pred : α → Bool) : find L cap pred x = some ((p.find cap pred).map L.addr) := by
  have hloop : Ok (find L cap pred x) (· = ((List.range cap).find? (fun i => (p.slot i).any pred)).map L.addr) := by
    refine Ok.forUpTo (fun n found => found = ((List.range n).find? (fun i => (p.slot i).any pred)).map L.addr) rfl
      cap ?_
    rintro i - found rfl
    rw [List.range_succ, List.find?_append]
    cases hfind : (List.range i).find? (fun i => (p.slot i).any pred) with
    | some j => exact .pure rfl
    | none =>
      simp only [Option.map_none, Option.isSome_none, Bool.false_eq_true, if_false, Option.none_or, h.used i, h.storage]
      cases ha : p.slot i with
      | none => exact .pure (by simp [ha])
      | some a =>
        simp only [Option.isSome_some, if_true, Option.map_some]
        cases hp : pred a with
        | true => exact .pure (by simp [ha, hp])
        | false => exact .pure (by simp [ha, hp])
  obtain ⟨found, heq, rfl⟩ := hloop
  rw [heq, Pool.find]
  congr 3
  funext i
  cases p.slot i <;> rfl

end

/-! ## Any sequence of calls -/

/-- A call that changes the pool. -/
inductive Call (α : Type)
  | alloc
  | release (q : Ptr)
  | clear
  | modify (i : Nat) (f : α → α)

/-- A call, or a loop over the pool whose visitor may make calls of its own. -/
inductive Task (α : Type)
  | call (c : Call α)
  | find (pred : α → Bool)
  | forEach (visit : Nat → α → List (Call α))

section
variable (L : Layout) (cap : Nat) (init : α)

/-- A call, and the pointer it returns if it does. -/
def call (x : PoolMemory α) : Call α → Option (List Ptr × PoolMemory α)
  | .alloc => (alloc L cap init x).map fun r => ([r.1], r.2)
  | .release q => (release L cap q x).map fun x => ([], x)
  | .clear => (clear cap x).map fun x => ([], x)
  | .modify i f => (modify L cap i f x).map fun x => ([], x)

def calls (x : PoolMemory α) : List (Call α) → Option (PoolMemory α)
  | [] => some x
  | c :: cs => (call L cap init x c).bind fun r => calls r.2 cs

/-- `for_each`, with the pointers of the objects visited. -/
def forEach (visit : Nat → α → List (Call α)) (x : PoolMemory α) : Option (List Ptr × PoolMemory α) :=
  forUpTo (fun i r =>
    if r.2.used i then (r.2.storage i).bind fun a =>
      (calls L cap init r.2 (visit (L.addr i) a)).map fun x => (r.1 ++ [some (L.addr i)], x)
    else some r) cap ([], x)

def perform (x : PoolMemory α) : Task α → Option (List Ptr × PoolMemory α)
  | .call c => call L cap init x c
  | .find pred => (find L cap pred x).map fun q => ([q], x)
  | .forEach visit => forEach L cap init visit x

/-- Tasks one after the other, and the pointers they hand out. -/
def runFrom (x : PoolMemory α) : List (Task α) → Option (List Ptr × PoolMemory α)
  | [] => some ([], x)
  | task :: tasks =>
    (perform L cap init x task).bind fun r => (runFrom r.2 tasks).map fun rest => (r.1 ++ rest.1, rest.2)

def poolCall (p : Pool α) : Call α → List Ptr × Pool α
  | .alloc => ([(poolAlloc L cap init p).1], (poolAlloc L cap init p).2)
  | .release q => ([], poolRelease L cap q p)
  | .clear => ([], .empty)
  | .modify i f => ([], poolModify cap i f p)

def poolCalls (p : Pool α) (cs : List (Call α)) : Pool α := cs.foldl (fun p c => (poolCall L cap init p c).2) p

/-- The slots below `n`: the visitor is given what lives in a slot when its turn comes. -/
def poolForEach (visit : Nat → α → List (Call α)) (p : Pool α) : Nat → List Ptr × Pool α
  | 0 => ([], p)
  | n + 1 =>
    let r := poolForEach visit p n
    match r.2.slot n with
    | none => r
    | some a => (r.1 ++ [some (L.addr n)], poolCalls L cap init r.2 (visit (L.addr n) a))

def poolPerform (p : Pool α) : Task α → List Ptr × Pool α
  | .call c => poolCall L cap init p c
  | .find pred => ([(p.find cap pred).map L.addr], p)
  | .forEach visit => poolForEach L cap init visit p cap

def poolRunFrom (p : Pool α) : List (Task α) → List Ptr × Pool α
  | [] => ([], p)
  | task :: tasks =>
    let r := poolPerform L cap init p task
    let rest := poolRunFrom r.2 tasks
    (r.1 ++ rest.1, rest.2)

variable {L cap} {x : PoolMemory α} {p : Pool α}

theorem Is.empty (cap : Nat) : Is cap {} (.empty : Pool α) where
  storage := rfl
  used := fun _ => rfl
  count := rfl
  bound := fun _ _ => rfl
  live := by simp [Pool.empty, Storage.live]

theorem call_ok (h : x.Is cap p) (c : Call α) : Ok (call L cap init x c) (fun r =>
    r.1 = (poolCall L cap init p c).1 ∧ r.2.Is cap (poolCall L cap init p c).2) := by
  cases c with
  | alloc => exact (alloc_ok h init).map fun r hr => ⟨by rw [hr.1]; rfl, hr.2⟩
  | release q => exact (release_ok h q).map fun x hx => ⟨rfl, hx⟩
  | clear => exact ⟨_, by rw [call, clear_eq h]; rfl, rfl, Is.empty cap⟩
  | modify i f => exact (modify_ok h i f).map fun x hx => ⟨rfl, hx⟩

theorem calls_ok : ∀ (cs : List (Call α)) {x : PoolMemory α} {p : Pool α}, x.Is cap p →
    Ok (calls L cap init x cs) (fun x' => x'.Is cap (poolCalls L cap init p cs))
  | [], _, _, h => .pure h
  | c :: cs, _, _, h => (call_ok init h c).bind fun _ hr => calls_ok cs hr.2

/-- **`for_each`, whatever the visitor does to the pool.** -/
theorem forEach_ok (h : x.Is cap p) (visit : Nat → α → List (Call α)) : Ok (forEach L cap init visit x) (fun r =>
    r.1 = (poolForEach L cap init visit p cap).1 ∧ r.2.Is cap (poolForEach L cap init visit p cap).2) := by
  refine Ok.forUpTo (fun i (r : List Ptr × PoolMemory α) => r.1 = (poolForEach L cap init visit p i).1 ∧
    r.2.Is cap (poolForEach L cap init visit p i).2) ⟨rfl, h⟩ cap ?_
  rintro i - ⟨visited, y⟩ ⟨hvisited, hy⟩
  dsimp only at hvisited hy
  simp only [poolForEach, hy.used i, hy.storage]
  cases ha : (poolForEach L cap init visit p i).2.slot i with
  | none => exact .pure ⟨hvisited, hy⟩
  | some a =>
    exact (calls_ok init (visit (L.addr i) a) hy).map fun y' hy' => ⟨by rw [hvisited], hy'⟩

theorem perform_ok (h : x.Is cap p) (task : Task α) : Ok (perform L cap init x task) (fun r =>
    r.1 = (poolPerform L cap init p task).1 ∧ r.2.Is cap (poolPerform L cap init p task).2) := by
  cases task with
  | call c => exact call_ok init h c
  | find pred => exact ⟨_, by rw [perform, find_eq h]; rfl, rfl, h⟩
  | forEach visit => exact forEach_ok init h visit

theorem runFrom_ok : ∀ (tasks : List (Task α)) {x : PoolMemory α} {p : Pool α}, x.Is cap p →
    Ok (runFrom L cap init x tasks) (fun r =>
      r.1 = (poolRunFrom L cap init p tasks).1 ∧ r.2.Is cap (poolRunFrom L cap init p tasks).2)
  | [], _, _, h => .pure ⟨rfl, h⟩
  | task :: tasks, _, _, h => (perform_ok init h task).bind fun r hr =>
    (runFrom_ok tasks hr.2).map fun rest hrest => ⟨by rw [hr.1, hrest.1]; rfl, hrest.2⟩

/-- The pointers a pool hands out: null, or the address of a slot, of which `index_of` is the slot. -/
def HandedOut (L : Layout) (cap : Nat) (q : Ptr) : Prop :=
  q = none ∨ ∃ i < cap, q = some (L.addr i) ∧ indexOf L (L.addr i) = i

theorem handedOut_addr {i : Nat} (hi : i < cap) : HandedOut L cap (some (L.addr i)) := by
  refine .inr ⟨i, hi, rfl, ?_⟩
  rw [indexOf, Layout.addr, Nat.add_sub_cancel_left, Nat.mul_div_cancel i L.size_pos]

theorem poolCall_handedOut (p : Pool α) (c : Call α) : ∀ q ∈ (poolCall L cap init p c).1, HandedOut L cap q := by
  cases c with
  | alloc =>
    rw [poolCall, List.forall_mem_singleton, poolAlloc, Pool.alloc]
    cases hi : p.free cap with
    | none => exact .inl rfl
    | some i => exact handedOut_addr (List.mem_range.1 (List.mem_of_find?_eq_some hi))
  | _ => simp [poolCall]

theorem poolForEach_handedOut (visit : Nat → α → List (Call α)) (p : Pool α) : ∀ n ≤ cap,
    ∀ q ∈ (poolForEach L cap init visit p n).1, HandedOut L cap q
  | 0, _ => by simp [poolForEach]
  | n + 1, hn => by
    have ih := poolForEach_handedOut visit p n (by omega)
    simp only [poolForEach]
    split
    · exact ih
    · exact List.forall_mem_append.2 ⟨ih, List.forall_mem_singleton.2 (handedOut_addr (by omega))⟩

theorem poolPerform_handedOut (p : Pool α) (task : Task α) :
    ∀ q ∈ (poolPerform L cap init p task).1, HandedOut L cap q := by
  cases task with
  | call c => exact poolCall_handedOut init p c
  | find pred =>
    rw [poolPerform, List.forall_mem_singleton]
    cases hi : p.find cap pred with
    | none => exact .inl rfl
    | some i => exact handedOut_addr (List.mem_range.1 (List.mem_of_find?_eq_some hi))
  | forEach visit => exact poolForEach_handedOut init visit p cap (Nat.le_refl _)

theorem poolRunFrom_handedOut : ∀ (tasks : List (Task α)) (p : Pool α),
    ∀ q ∈ (poolRunFrom L cap init p tasks).1, HandedOut L cap q
  | [], p => by simp [poolRunFrom]
  | task :: tasks, p =>
    List.forall_mem_append.2 ⟨poolPerform_handedOut init p task, poolRunFrom_handedOut tasks _⟩

end

/-- **A pool in storage is the pool of the broker model, whatever is called on it.**  `release` may be given any
pointer, a second time, foreign, interior or null, and the visitor of a `for_each` may allocate and release while the
loop runs: no call constructs over a living object or touches one that is not alive.  What lives where is what the model
says, `count_` is the number of objects alive, every pointer handed out is null or a slot's with its number for
`index_of`, and the destructor leaves nothing alive. -/
theorem tasks_refine_pool (L : Layout) (cap : Nat) (init : α) (tasks : List (Task α)) :
    ∃ x, runFrom L cap init {} tasks = some ((poolRunFrom L cap init .empty tasks).1, x) ∧
      x.storage = (poolRunFrom L cap init .empty tasks).2.slot ∧
      (∀ i, pointerAt L cap i x = ((poolRunFrom L cap init .empty tasks).2.get cap i).map fun _ => L.addr i) ∧
      x.count = (poolRunFrom L cap init .empty tasks).2.count ∧ x.count = (live cap x.storage).card ∧
      (∀ q ∈ (poolRunFrom L cap init .empty tasks).1, HandedOut L cap q) ∧ clear cap x = some {} := by
  obtain ⟨⟨pointers, x⟩, heq, hpointers, his⟩ := runFrom_ok (L := L) init tasks (Is.empty cap)
  refine ⟨x, heq.trans (by rw [← hpointers]), his.storage, fun i => ?_, his.count, ?_,
    poolRunFrom_handedOut init tasks .empty, clear_eq his⟩
  · rw [pointerAt, Pool.get, his.used i]
    by_cases hi : i < cap
    · cases (poolRunFrom L cap init .empty tasks).2.slot i <;> simp [hi]
    · simp [hi]
  · simp only at his
    rw [his.count, his.live, his.storage]

end PoolMemory

end Minimosq
