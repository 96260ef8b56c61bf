import Mathlib.Data.Finset.Card
import Mathlib.Logic.Function.Basic
/-!
# Storage and lifetimes

Raw storage is a row of cells, each of which holds an object or none.  To construct an object where one lives, to
destroy, read or assign one where none lives, and to leave the row is a fault, which is `none` here.  `Ok r Q` says that
a computation goes through and ends in `Q`; it has a rule for each way to put computations together.
-/
namespace Storage

variable {α β γ σ : Type}

/-! ## Computations that go through -/

/-- **The computation goes through**, and its result has the property. -/
def Ok (r : Option β) (Q : β → Prop) : Prop := ∃ x, r = some x ∧ Q x

theorem Ok.pure {x : β} {Q : β → Prop} (h : Q x) : Ok (some x) Q := ⟨x, rfl, h⟩

theorem Ok.bind {r : Option β} {f : β → Option γ} {Q : β → Prop} {R : γ → Prop} (h : Ok r Q)
    (hf : ∀ x, Q x → Ok (f x) R) : Ok (r.bind f) R := by
  obtain ⟨x, rfl, hx⟩ := h
  exact hf x hx

theorem Ok.map {r : Option β} {f : β → γ} {Q : β → Prop} {R : γ → Prop} (h : Ok r Q) (hf : ∀ x, Q x → R (f x)) :
    Ok (r.map f) R := by
  obtain ⟨x, rfl, hx⟩ := h
  exact ⟨f x, rfl, hf x hx⟩

/-- `for (i = 0; i < n; ++i) body`. -/
def forUpTo (body : Nat → σ → Option σ) : Nat → σ → Option σ
  | 0, s => some s
  | n + 1, s => (forUpTo body n s).bind (body n)

/-- **The rule for counting up**: what holds before turn `i` holds before turn `i + 1`. -/
theorem Ok.forUpTo {body : Nat → σ → Option σ} (I : Nat → σ → Prop) {s : σ} (h₀ : I 0 s) :
    ∀ (n : Nat), (∀ i < n, ∀ s, I i s → Ok (body i s) (I (i + 1))) → Ok (forUpTo body n s) (I n)
  | 0, _ => .pure h₀
  | n + 1, hbody =>
    (Ok.forUpTo I h₀ n fun i hi => hbody i (by omega)).bind fun s hs => hbody n (Nat.lt_succ_self n) s hs

/-! ## Cells -/

/-- The cells of a row, and what lives in them. -/
abbrev Cells (α : Type) := Nat → Option α

/-- `new (slot(i)) T(a)` in a row of `cap` cells. -/
def construct (cap i : Nat) (a : α) (c : Cells α) : Option (Cells α) :=
  if decide (i < cap) && (c i).isNone then some (Function.update c i (some a)) else none

/-- `ptr(i)->~T()`. -/
def destroy (i : Nat) (c : Cells α) : Option (Cells α) :=
  if (c i).isSome then some (Function.update c i none) else none

/-- `*ptr(i) = a`. -/
def write (i : Nat) (a : α) (c : Cells α) : Option (Cells α) :=
  if (c i).isSome then some (Function.update c i (some a)) else none

section
variable {cap i : Nat} {a : α} {c : Cells α}

theorem construct_eq (hi : i < cap) (h : c i = none) (a : α) :
    construct cap i a c = some (Function.update c i (some a)) := by
  simp [construct, hi, h]

theorem destroy_eq (h : c i = some a) : destroy i c = some (Function.update c i none) := by
  simp [destroy, h]

theorem write_eq (h : c i = some a) (b : α) : write i b c = some (Function.update c i (some b)) := by
  simp [write, h]

end

/-! ## How many objects live -/

/-- The cells of the row in which an object lives. -/
def live (cap : Nat) (c : Cells α) : Finset Nat := (Finset.range cap).filter (fun i => (c i).isSome)

section
variable {cap i : Nat} {a : α} {c : Cells α}

theorem live_construct (hi : i < cap) (h : c i = none) (a : α) :
    (live cap (Function.update c i (some a))).card = (live cap c).card + 1 := by
  have hset : live cap (Function.update c i (some a)) = insert i (live cap c) := by
    ext j
    by_cases hj : j = i
    · simp [live, hj, hi]
    · simp [live, hj]
  rw [hset, Finset.card_insert_of_notMem (by simp [live, h])]

theorem live_destroy (hi : i < cap) (h : c i = some a) :
    (live cap (Function.update c i none)).card + 1 = (live cap c).card := by
  have hset : live cap (Function.update c i none) = (live cap c).erase i := by
    ext j
    by_cases hj : j = i
    · simp [live, hj]
    · simp [live, hj]
  rw [hset, Finset.card_erase_add_one (by simp [live, h, hi])]

theorem live_write (h : c i = some a) (b : α) : live cap (Function.update c i (some b)) = live cap c := by
  ext j
  by_cases hj : j = i
  · simp [live, hj, h]
  · simp [live, hj]

end

end Storage
