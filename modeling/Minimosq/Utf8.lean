import Minimosq.Topic
/-!
# UTF-8

`protocol/utf8.hpp`: `utf8_valid` accepts exactly the byte strings that encode a sequence of Unicode scalar values other
than U+0000.  A Lean `Char` is such a scalar value, and `String.utf8EncodeChar` its encoding in the shortest form.

The walk of `Topic.lean` takes the string apart from the front; `utf8Scan` is the source's, which reads it by index, and
in which a read past the end is an outcome of its own.
-/
namespace Minimosq

variable {cp n : Nat} {c : UInt8} {s s' : Bytes}

/-- **The well-formed MQTT strings**: encodings of scalar values from U+0001 on, one after the other. -/
def WellFormed (s : Bytes) : Prop := ∃ cs : List Char, (∀ c ∈ cs, 0 < c.toNat) ∧ s = cs.flatMap String.utf8EncodeChar

/-! ## One character -/

/-- A round of the loop of `utf8_valid` past the lead byte. -/
def utf8Tail (cont cp₀ : Nat) (s : Bytes) : Option Bytes :=
  if decide (s.length < cont) then none
  else
    match utf8Continue cont cp₀ s with
    | none => none
    | some (cp, s') =>
      if utf8Overlong cont cp then none
      else if decide (0x10FFFF < cp) || (decide (0xD800 ≤ cp) && decide (cp ≤ 0xDFFF)) then none
      else some s'

/-- A round of the loop of `utf8_valid`: what is left after a character, `none` where the scan returns false. -/
def utf8Step (c : UInt8) (s : Bytes) : Option Bytes :=
  if c == 0x00 then none
  else if c < 0x80 then some s
  else
    match utf8Lead c with
    | none => none
    | some (cont, cp₀) => utf8Tail cont cp₀ s

theorem utf8Loop_cons (n : Nat) (c : UInt8) (s : Bytes) :
    utf8Loop (n + 1) (c :: s) = (utf8Step c s).elim false (utf8Loop n) := by
  unfold utf8Loop utf8Step
  split
  · rfl
  split
  · rfl
  cases utf8Lead c with
  | none => rfl
  | some lead =>
    obtain ⟨cont, cp₀⟩ := lead
    dsimp only [utf8Tail]
    split
    · rfl
    cases utf8Continue cont cp₀ s with
    | none => rfl
    | some done =>
      obtain ⟨cp, s'⟩ := done
      dsimp only
      split
      · rfl
      split
      · rfl
      · rfl

theorem forall_uint8 {p : UInt8 → Prop} (h : ∀ n < 256, p (UInt8.ofNat n)) (c : UInt8) : p c := by
  have hc := h c.toNat c.toNat_lt
  rwa [UInt8.ofNat_toNat] at hc

/-- The lead bytes, by value. -/
theorem utf8Lead_eq : ∀ c : UInt8, utf8Lead c =
    if c.toNat < 0xC0 then none
    else if c.toNat < 0xE0 then some (1, c.toNat % 32)
    else if c.toNat < 0xF0 then some (2, c.toNat % 16)
    else if c.toNat < 0xF8 then some (3, c.toNat % 8)
    else none :=
  forall_uint8 (by decide +kernel)

/-- A continuation byte is one of `80..BF` and carries six bits. -/
theorem continuation : ∀ b : UInt8, (b &&& 0xC0 != 0x80) = !decide (0x80 ≤ b.toNat ∧ b.toNat < 0xC0) ∧
    (b &&& 0x3F).toNat = b.toNat % 64 :=
  forall_uint8 (by decide +kernel)

/-- A continuation byte. -/
def IsCont (b : UInt8) : Prop := 0x80 ≤ b.toNat ∧ b.toNat < 0xC0

theorem utf8Continue_succ_iff (n cp : Nat) (s : Bytes) (r : Nat × Bytes) : utf8Continue (n + 1) cp s = some r ↔
    ∃ b t, s = b :: t ∧ IsCont b ∧ utf8Continue n (cp * 64 + b.toNat % 64) t = some r := by
  cases s with
  | nil => simp [utf8Continue]
  | cons b t =>
    obtain ⟨hcont, hbits⟩ := continuation b
    have hlt : b.toNat % 64 < 2 ^ 6 := Nat.mod_lt _ (by decide)
    have hor : (cp <<< 6) ||| (b.toNat % 64) = cp * 64 + b.toNat % 64 := by
      rw [← Nat.shiftLeft_add_eq_or_of_lt hlt, Nat.shiftLeft_eq]
    rw [utf8Continue, hcont, hbits, hor]
    by_cases h : 0x80 ≤ b.toNat ∧ b.toNat < 0xC0
    · rw [decide_eq_true h, Bool.not_true, if_neg Bool.false_ne_true]
      exact ⟨fun hr => ⟨b, t, rfl, h, hr⟩, by rintro ⟨_, _, ⟨⟩, -, hr⟩; exact hr⟩
    · rw [decide_eq_false h, Bool.not_false, if_pos rfl]
      exact ⟨fun hr => by (cases hr), by rintro ⟨_, _, ⟨⟩, hb, -⟩; exact absurd hb h⟩

theorem length_of_utf8Continue : ∀ {n cp : Nat} {s : Bytes} {r : Nat × Bytes}, utf8Continue n cp s = some r →
    n ≤ s.length
  | 0, _, _, _, _ => Nat.zero_le _
  | n + 1, cp, s, r, h => by
    obtain ⟨b, t, rfl, -, ht⟩ := (utf8Continue_succ_iff n cp s r).1 h
    exact Nat.succ_le_succ (length_of_utf8Continue ht)

/-- What the code points a scan accepts have in common. -/
def IsScalar (cp : Nat) : Prop := cp ≤ 0x10FFFF ∧ ¬(0xD800 ≤ cp ∧ cp ≤ 0xDFFF)

theorem exists_char (h : IsScalar cp) : ∃ c : Char, c.toNat = cp := by
  have hvalid : cp.isValidChar := by
    unfold IsScalar at h
    unfold Nat.isValidChar
    omega
  exact ⟨Char.ofNat cp, by rw [Char.ofNat, dif_pos hvalid]; rfl⟩

theorem isScalar_toNat (c : Char) : IsScalar c.toNat := by
  have h := c.valid
  unfold IsScalar
  rcases h with h | h
  · simp only [Char.toNat] at *
    omega
  · simp only [Char.toNat] at *
    omega

theorem utf8Range_iff (cp : Nat) :
    (decide (0x10FFFF < cp) || (decide (0xD800 ≤ cp) && decide (cp ≤ 0xDFFF))) = false ↔ IsScalar cp := by
  simp only [Bool.or_eq_false_iff, Bool.and_eq_false_iff, decide_eq_false_iff_not, IsScalar]
  omega

theorem utf8Tail_iff (cont cp₀ : Nat) (s s' : Bytes) : utf8Tail cont cp₀ s = some s' ↔
    ∃ cp, utf8Continue cont cp₀ s = some (cp, s') ∧ utf8Overlong cont cp = false ∧ IsScalar cp := by
  unfold utf8Tail
  cases hc : utf8Continue cont cp₀ s with
  | none => simp
  | some r =>
    obtain ⟨cp, t⟩ := r
    have hlen := length_of_utf8Continue hc
    rw [if_neg (by simpa using hlen)]
    simp only [← utf8Range_iff, Option.some.injEq, Prod.mk.injEq]
    constructor
    · intro h
      split at h
      · cases h
      rename_i hover
      split at h
      · cases h
      rename_i hrange
      cases h
      exact ⟨cp, ⟨rfl, rfl⟩, by simpa using hover, by simpa using hrange⟩
    · rintro ⟨_, ⟨rfl, rfl⟩, hover, hrange⟩
      rw [hover, hrange]
      rfl

/-- The four forms of a character at the front of `c :: s`: the code point, and what comes after. -/
inductive Takes : UInt8 → Bytes → Nat → Bytes → Prop
  | one {c : UInt8} {s : Bytes} : 0 < c.toNat → c.toNat < 0x80 → Takes c s c.toNat s
  | two {c b : UInt8} {s : Bytes} {cp : Nat} : 0xC0 ≤ c.toNat → c.toNat < 0xE0 → IsCont b →
      cp = c.toNat % 32 * 64 + b.toNat % 64 → 0x80 ≤ cp → Takes c (b :: s) cp s
  | three {c b₁ b₂ : UInt8} {s : Bytes} {cp : Nat} : 0xE0 ≤ c.toNat → c.toNat < 0xF0 → IsCont b₁ → IsCont b₂ →
      cp = (c.toNat % 16 * 64 + b₁.toNat % 64) * 64 + b₂.toNat % 64 → 0x800 ≤ cp → IsScalar cp →
      Takes c (b₁ :: b₂ :: s) cp s
  | four {c b₁ b₂ b₃ : UInt8} {s : Bytes} {cp : Nat} : 0xF0 ≤ c.toNat → c.toNat < 0xF8 → IsCont b₁ → IsCont b₂ →
      IsCont b₃ → cp = ((c.toNat % 8 * 64 + b₁.toNat % 64) * 64 + b₂.toNat % 64) * 64 + b₃.toNat % 64 →
      0x10000 ≤ cp → IsScalar cp → Takes c (b₁ :: b₂ :: b₃ :: s) cp s

theorem Takes.scalar (h : Takes c s cp s') : IsScalar cp := by
  cases h with
  | one => unfold IsScalar; omega
  | two => unfold IsScalar; omega
  | three _ _ _ _ _ _ hs => exact hs
  | four _ _ _ _ _ _ _ hs => exact hs

theorem Takes.pos (h : Takes c s cp s') : 0 < cp := by
  cases h <;> omega

theorem Takes.length_le (h : Takes c s cp s') : s'.length ≤ s.length := by
  cases h with
  | one => exact Nat.le_refl _
  | two => exact Nat.le_succ _
  | three => exact Nat.le_add_right _ 2
  | four => exact Nat.le_add_right _ 3

theorem takes_of_utf8Step (h : utf8Step c s = some s') : ∃ cp, Takes c s cp s' := by
  unfold utf8Step at h
  split at h
  · cases h
  rename_i hzero
  split at h
  · rename_i hascii
    cases h
    refine ⟨_, .one ?_ hascii⟩
    exact Nat.pos_of_ne_zero (fun h0 => hzero (by rw [beq_iff_eq]; exact UInt8.toNat_inj.1 h0))
  rw [utf8Lead_eq] at h
  by_cases h₁ : c.toNat < 0xC0
  · simp only [h₁, if_true] at h
    cases h
  by_cases h₂ : c.toNat < 0xE0
  · simp only [h₁, h₂, if_true, if_false, utf8Tail_iff, utf8Continue_succ_iff] at h
    obtain ⟨cp, ⟨b, t, rfl, hb, hcp⟩, hover, -⟩ := h
    cases hcp
    exact ⟨_, .two (Nat.not_lt.1 h₁) h₂ hb rfl (by simpa [utf8Overlong] using hover)⟩
  by_cases h₃ : c.toNat < 0xF0
  · simp only [h₁, h₂, h₃, if_true, if_false, utf8Tail_iff, utf8Continue_succ_iff] at h
    obtain ⟨cp, ⟨b₁, _, rfl, hb₁, b₂, t, rfl, hb₂, hcp⟩, hover, hscalar⟩ := h
    cases hcp
    exact ⟨_, .three (Nat.not_lt.1 h₂) h₃ hb₁ hb₂ rfl (by simpa [utf8Overlong] using hover) hscalar⟩
  by_cases h₄ : c.toNat < 0xF8
  · simp only [h₁, h₂, h₃, h₄, if_true, if_false, utf8Tail_iff, utf8Continue_succ_iff] at h
    obtain ⟨cp, ⟨b₁, _, rfl, hb₁, b₂, _, rfl, hb₂, b₃, t, rfl, hb₃, hcp⟩, hover, hscalar⟩ := h
    cases hcp
    exact ⟨_, .four (Nat.not_lt.1 h₃) h₄ hb₁ hb₂ hb₃ rfl (by simpa [utf8Overlong] using hover) hscalar⟩
  · simp only [h₁, h₂, h₃, h₄, if_false] at h
    cases h

theorem utf8Step_of_takes (h : Takes c s cp s') : utf8Step c s = some s' := by
  have hzero : 0 < c.toNat → ¬(c == 0x00) = true := by
    intro hc h0
    rw [beq_iff_eq] at h0
    rw [h0] at hc
    cases hc
  have hhigh : 0xC0 ≤ c.toNat → ¬c < 0x80 := by
    intro hc hlt
    have hlt : c.toNat < 0x80 := hlt
    omega
  cases h with
  | one hpos hlt =>
    unfold utf8Step
    rw [if_neg (hzero hpos), if_pos (show c < 0x80 from hlt)]
  | two hlo hhi hb hcp hmin =>
    unfold utf8Step
    rw [if_neg (hzero (by omega)), if_neg (hhigh hlo), utf8Lead_eq, if_neg (by omega), if_pos hhi]
    have hread : utf8Continue 1 (c.toNat % 32) _ = some (cp, s') :=
      (utf8Continue_succ_iff ..).2 ⟨_, _, rfl, hb, by rw [← hcp]; rfl⟩
    refine (utf8Tail_iff ..).2 ⟨cp, hread, by simpa [utf8Overlong] using hmin, ?_⟩
    unfold IsScalar
    omega
  | three hlo hhi hb₁ hb₂ hcp hmin hscalar =>
    unfold utf8Step
    rw [if_neg (hzero (by omega)), if_neg (hhigh (by omega)), utf8Lead_eq, if_neg (by omega), if_neg (by omega),
      if_pos hhi]
    have hread : utf8Continue 2 (c.toNat % 16) _ = some (cp, s') :=
      (utf8Continue_succ_iff ..).2 ⟨_, _, rfl, hb₁, (utf8Continue_succ_iff ..).2 ⟨_, _, rfl, hb₂, by rw [← hcp]; rfl⟩⟩
    exact (utf8Tail_iff ..).2 ⟨cp, hread, by simpa [utf8Overlong] using hmin, hscalar⟩
  | four hlo hhi hb₁ hb₂ hb₃ hcp hmin hscalar =>
    unfold utf8Step
    rw [if_neg (hzero (by omega)), if_neg (hhigh (by omega)), utf8Lead_eq, if_neg (by omega), if_neg (by omega),
      if_neg (by omega), if_pos hhi]
    have hread : utf8Continue 3 (c.toNat % 8) _ = some (cp, s') :=
      (utf8Continue_succ_iff ..).2 ⟨_, _, rfl, hb₁, (utf8Continue_succ_iff ..).2 ⟨_, _, rfl, hb₂,
        (utf8Continue_succ_iff ..).2 ⟨_, _, rfl, hb₃, by rw [← hcp]; rfl⟩⟩⟩
    exact (utf8Tail_iff ..).2 ⟨cp, hread, by simpa [utf8Overlong] using hmin, hscalar⟩

/-- A byte is told by its value. -/
theorem ofNat_eq (h : n = c.toNat) : UInt8.ofNat n = c := by rw [h, UInt8.ofNat_toNat]

section
variable {ch : Char}

theorem utf8EncodeChar_one (h : ch.toNat < 0x80) : String.utf8EncodeChar ch = [UInt8.ofNat ch.toNat] :=
  if_pos (Nat.le_of_lt_succ h)

theorem utf8EncodeChar_two (hlo : 0x80 ≤ ch.toNat) (h : ch.toNat < 0x800) : String.utf8EncodeChar ch =
    [UInt8.ofNat (ch.toNat / 64 % 32 + 0xC0), UInt8.ofNat (ch.toNat % 64 + 0x80)] :=
  (if_neg (Nat.not_le.2 hlo)).trans (if_pos (Nat.le_of_lt_succ h))

theorem utf8EncodeChar_three (hlo : 0x800 ≤ ch.toNat) (h : ch.toNat < 0x10000) : String.utf8EncodeChar ch =
    [UInt8.ofNat (ch.toNat / 4096 % 16 + 0xE0), UInt8.ofNat (ch.toNat / 64 % 64 + 0x80),
      UInt8.ofNat (ch.toNat % 64 + 0x80)] :=
  (if_neg (Nat.not_le.2 (Nat.lt_of_lt_of_le (by decide) hlo))).trans
    ((if_neg (Nat.not_le.2 hlo)).trans (if_pos (Nat.le_of_lt_succ h)))

theorem utf8EncodeChar_four (hlo : 0x10000 ≤ ch.toNat) : String.utf8EncodeChar ch =
    [UInt8.ofNat (ch.toNat / 262144 % 8 + 0xF0), UInt8.ofNat (ch.toNat / 4096 % 64 + 0x80),
      UInt8.ofNat (ch.toNat / 64 % 64 + 0x80), UInt8.ofNat (ch.toNat % 64 + 0x80)] :=
  (if_neg (Nat.not_le.2 (Nat.lt_of_lt_of_le (by decide) hlo))).trans
    ((if_neg (Nat.not_le.2 (Nat.lt_of_lt_of_le (by decide) hlo))).trans (if_neg (Nat.not_le.2 hlo)))

end

/-- **What a round takes is the encoding of its code point.** -/
theorem encode_of_takes {ch : Char} (h : Takes c s ch.toNat s') : c :: s = String.utf8EncodeChar ch ++ s' := by
  generalize hcp : ch.toNat = cp at h
  cases h with
  | one hpos hlt => rw [utf8EncodeChar_one (hcp ▸ hlt), ofNat_eq hcp, List.singleton_append]
  | @two b _ _ hlo hhi hb hv hmin =>
    unfold IsCont at hb
    rw [utf8EncodeChar_two (by omega) (by omega), ofNat_eq (c := c) (by omega), ofNat_eq (c := b) (by omega)]
    rfl
  | @three b₁ b₂ _ _ hlo hhi hb₁ hb₂ hv hmin =>
    unfold IsCont at hb₁ hb₂
    rw [utf8EncodeChar_three (by omega) (by omega), ofNat_eq (c := c) (by omega), ofNat_eq (c := b₁) (by omega),
      ofNat_eq (c := b₂) (by omega)]
    rfl
  | @four b₁ b₂ b₃ _ _ hlo hhi hb₁ hb₂ hb₃ hv hmin =>
    unfold IsCont at hb₁ hb₂ hb₃
    rw [utf8EncodeChar_four (by omega), ofNat_eq (c := c) (by omega), ofNat_eq (c := b₁) (by omega),
      ofNat_eq (c := b₂) (by omega), ofNat_eq (c := b₃) (by omega)]
    rfl

theorem toNat_lead {m : Nat} (h : n + m < 256) : (UInt8.ofNat (n + m)).toNat = n + m := by
  rw [UInt8.toNat_ofNat', Nat.mod_eq_of_lt h]

/-- A continuation byte carries six bits. -/
theorem isCont_ofNat (n : Nat) : IsCont (UInt8.ofNat (n % 64 + 0x80)) := by
  rw [IsCont, toNat_lead (by omega)]
  omega

theorem toNat_ofNat_cont (n : Nat) : (UInt8.ofNat (n % 64 + 0x80)).toNat % 64 = n % 64 := by
  rw [toNat_lead (by omega)]
  omega

/-- The other way about: an encoded character at the front is taken. -/
theorem takes_of_encode {ch : Char} (hpos : 0 < ch.toNat) (h : c :: s = String.utf8EncodeChar ch ++ s') :
    Takes c s ch.toNat s' := by
  have hscalar := isScalar_toNat ch
  have hmax := hscalar.1
  by_cases h₁ : ch.toNat < 0x80
  · rw [utf8EncodeChar_one h₁] at h
    cases h
    have hc : (UInt8.ofNat ch.toNat).toNat = ch.toNat := by rw [UInt8.toNat_ofNat']; omega
    have hone := Takes.one (c := UInt8.ofNat ch.toNat) (s := s') (by omega) (by omega)
    rwa [hc] at hone
  by_cases h₂ : ch.toNat < 0x800
  · rw [utf8EncodeChar_two (Nat.not_lt.1 h₁) h₂] at h
    cases h
    have hlead := toNat_lead (n := ch.toNat / 64 % 32) (m := 0xC0) (by omega)
    refine .two ?_ ?_ (isCont_ofNat _) ?_ (Nat.not_lt.1 h₁)
    · omega
    · omega
    · rw [hlead, toNat_ofNat_cont]
      omega
  by_cases h₃ : ch.toNat < 0x10000
  · rw [utf8EncodeChar_three (Nat.not_lt.1 h₂) h₃] at h
    cases h
    have hlead := toNat_lead (n := ch.toNat / 4096 % 16) (m := 0xE0) (by omega)
    refine .three ?_ ?_ (isCont_ofNat _) (isCont_ofNat _) ?_ (Nat.not_lt.1 h₂) hscalar
    · omega
    · omega
    · rw [hlead, toNat_ofNat_cont, toNat_ofNat_cont]
      omega
  · rw [utf8EncodeChar_four (Nat.not_lt.1 h₃)] at h
    cases h
    have hlead := toNat_lead (n := ch.toNat / 262144 % 8) (m := 0xF0) (by omega)
    refine .four ?_ ?_ (isCont_ofNat _) (isCont_ofNat _) (isCont_ofNat _) ?_ (Nat.not_lt.1 h₃) hscalar
    · omega
    · omega
    · rw [hlead, toNat_ofNat_cont, toNat_ofNat_cont, toNat_ofNat_cont]
      omega

/-- **A round of the scan takes one encoded character off the front, and takes any.** -/
theorem utf8Step_eq_some_iff (c : UInt8) (s s' : Bytes) :
    utf8Step c s = some s' ↔ ∃ ch : Char, 0 < ch.toNat ∧ c :: s = String.utf8EncodeChar ch ++ s' := by
  constructor
  · intro h
    obtain ⟨cp, htakes⟩ := takes_of_utf8Step h
    obtain ⟨ch, rfl⟩ := exists_char htakes.scalar
    exact ⟨ch, htakes.pos, encode_of_takes htakes⟩
  · rintro ⟨ch, hpos, he⟩
    exact utf8Step_of_takes (takes_of_encode hpos he)

/-! ## The whole string -/

theorem length_of_utf8Step (h : utf8Step c s = some s') : s'.length ≤ s.length := by
  obtain ⟨cp, htakes⟩ := takes_of_utf8Step h
  exact htakes.length_le

theorem utf8Loop_iff : ∀ {n : Nat} {s : Bytes}, s.length ≤ n → (utf8Loop n s = true ↔ WellFormed s)
  | 0, [], _ => ⟨fun _ => ⟨[], by simp, rfl⟩, fun _ => rfl⟩
  | n + 1, [], _ => ⟨fun _ => ⟨[], by simp, rfl⟩, fun _ => rfl⟩
  | n + 1, c :: s, hlen => by
    rw [utf8Loop_cons]
    constructor
    · intro h
      cases hstep : utf8Step c s with
      | none =>
        rw [hstep] at h
        cases h
      | some s' =>
        rw [hstep] at h
        obtain ⟨ch, hpos, he⟩ := (utf8Step_eq_some_iff c s s').1 hstep
        obtain ⟨cs, hcs, rfl⟩ := (utf8Loop_iff (Nat.le_trans (length_of_utf8Step hstep)
            (Nat.le_of_succ_le_succ hlen))).1 h
        exact ⟨ch :: cs, List.forall_mem_cons.2 ⟨hpos, hcs⟩, he⟩
    · rintro ⟨cs, hcs, he⟩
      cases cs with
      | nil => cases he
      | cons ch cs =>
        obtain ⟨hpos, hcs⟩ := List.forall_mem_cons.1 hcs
        have hstep := (utf8Step_eq_some_iff c s _).2 ⟨ch, hpos, he⟩
        rw [hstep]
        exact (utf8Loop_iff (Nat.le_trans (length_of_utf8Step hstep) (Nat.le_of_succ_le_succ hlen))).2 ⟨cs, hcs, rfl⟩

theorem utf8Valid_iff_wellFormed (s : Bytes) : utf8Valid s = true ↔ WellFormed s := utf8Loop_iff (Nat.le_refl _)

theorem utf8Loop_eq_utf8Valid (h : s.length ≤ n) : utf8Loop n s = utf8Valid s := by
  rw [Bool.eq_iff_iff, utf8Loop_iff h, utf8Valid_iff_wellFormed]

theorem utf8Valid_cons (c : UInt8) (s : Bytes) : utf8Valid (c :: s) = (utf8Step c s).elim false utf8Valid := by
  rw [utf8Valid, List.length_cons, utf8Loop_cons]
  cases hstep : utf8Step c s with
  | none => rfl
  | some s' => exact utf8Loop_eq_utf8Valid (length_of_utf8Step hstep)

/-! ## Cut at an ASCII byte -/

theorem wellFormed_nil : WellFormed [] := ⟨[], by simp, rfl⟩

theorem wellFormed_cons_iff (c : UInt8) (s : Bytes) :
    WellFormed (c :: s) ↔ ∃ cp s', Takes c s cp s' ∧ WellFormed s' := by
  rw [← utf8Valid_iff_wellFormed, utf8Valid_cons]
  constructor
  · intro h
    cases hstep : utf8Step c s with
    | none =>
      rw [hstep] at h
      cases h
    | some s' =>
      rw [hstep] at h
      obtain ⟨cp, htakes⟩ := takes_of_utf8Step hstep
      exact ⟨cp, s', htakes, (utf8Valid_iff_wellFormed s').1 h⟩
  · rintro ⟨cp, s', htakes, h⟩
    rw [utf8Step_of_takes htakes]
    exact (utf8Valid_iff_wellFormed s').2 h

theorem Takes.append (h : Takes c s cp s') (t : Bytes) : Takes c (s ++ t) cp (s' ++ t) := by
  cases h with
  | one hpos hlt => exact .one hpos hlt
  | two hlo hhi hb hcp hmin => exact .two hlo hhi hb hcp hmin
  | three hlo hhi hb₁ hb₂ hcp hmin hs => exact .three hlo hhi hb₁ hb₂ hcp hmin hs
  | four hlo hhi hb₁ hb₂ hb₃ hcp hmin hs => exact .four hlo hhi hb₁ hb₂ hb₃ hcp hmin hs

/-- No character reaches over an ASCII byte. -/
theorem Takes.cut {x : UInt8} {a t : Bytes} (hc : c.toNat < 0x80) (h : Takes x (a ++ c :: t) cp s') :
    ∃ s, Takes x a cp s ∧ s' = s ++ c :: t := by
  have hnot : ¬IsCont c := fun hcont => Nat.not_le.2 hc hcont.1
  generalize he : a ++ c :: t = l at h
  cases h with
  | one hpos hlt => exact ⟨a, .one hpos hlt, he.symm⟩
  | two hlo hhi hb hcp hmin =>
    rcases a with _ | ⟨y, a⟩
    · cases he
      exact absurd hb hnot
    · cases he
      exact ⟨a, .two hlo hhi hb hcp hmin, rfl⟩
  | three hlo hhi hb₁ hb₂ hcp hmin hs =>
    rcases a with _ | ⟨y, _ | ⟨z, a⟩⟩
    · cases he
      exact absurd hb₁ hnot
    · cases he
      exact absurd hb₂ hnot
    · cases he
      exact ⟨a, .three hlo hhi hb₁ hb₂ hcp hmin hs, rfl⟩
  | four hlo hhi hb₁ hb₂ hb₃ hcp hmin hs =>
    rcases a with _ | ⟨y, _ | ⟨z, _ | ⟨w, a⟩⟩⟩
    · cases he
      exact absurd hb₁ hnot
    · cases he
      exact absurd hb₂ hnot
    · cases he
      exact absurd hb₃ hnot
    · cases he
      exact ⟨a, .four hlo hhi hb₁ hb₂ hb₃ hcp hmin hs, rfl⟩

/-- **A string is well formed when both sides of an ASCII byte in it are.** -/
theorem wellFormed_append_cons (hpos : 0 < c.toNat) (hc : c.toNat < 0x80) (t : Bytes) :
    ∀ a : Bytes, WellFormed (a ++ c :: t) ↔ WellFormed a ∧ WellFormed t
  | [] => by
    rw [List.nil_append, wellFormed_cons_iff]
    constructor
    · rintro ⟨cp, s', htakes, h⟩
      cases htakes with
      | one => exact ⟨wellFormed_nil, h⟩
      | two => omega
      | three => omega
      | four => omega
    · rintro ⟨-, h⟩
      exact ⟨_, t, .one hpos hc, h⟩
  | x :: a => by
    rw [List.cons_append, wellFormed_cons_iff, wellFormed_cons_iff]
    constructor
    · rintro ⟨cp, s', htakes, h⟩
      obtain ⟨s, hshort, rfl⟩ := htakes.cut hc
      have hlen := hshort.length_le
      obtain ⟨hs, ht⟩ := (wellFormed_append_cons hpos hc t s).1 h
      exact ⟨⟨cp, s, hshort, hs⟩, ht⟩
    · rintro ⟨⟨cp, s, htakes, hs⟩, ht⟩
      have hlen := htakes.length_le
      exact ⟨cp, s ++ c :: t, htakes.append _, (wellFormed_append_cons hpos hc t s).2 ⟨hs, ht⟩⟩
termination_by a => a.length
decreasing_by all_goals simp only [List.length_cons]; omega

/-! ## By index -/

/-- The inner loop from `k`, with `n` rounds to go: the code point, or `none` at a byte that does not continue the
character.  A read past the end is the outer `none`. -/
def utf8ScanCont (s : Bytes) (i : Nat) : Nat → Nat → Nat → Option (Option Nat)
  | 0, _, cp => some (some cp)
  | n + 1, k, cp => do
    let b ← s[i + k]?
    if b &&& 0xC0 != 0x80 then some none else utf8ScanCont s i n (k + 1) ((cp <<< 6) ||| (b &&& 0x3F).toNat)

/-- `utf8_valid` from index `i`; `none` when a byte past the end is read or the rounds run out. -/
def utf8Scan (s : Bytes) : Nat → Nat → Option Bool
  | 0, _ => none
  | n + 1, i =>
    if i < s.length then do
      let c ← s[i]?
      if c == 0x00 then some false
      else if c < 0x80 then utf8Scan s n (i + 1)
      else
        match utf8Lead c with
        | none => some false
        | some (cont, cp₀) =>
          if s.length < i + 1 + cont then some false
          else do
            match ← utf8ScanCont s i cont 1 cp₀ with
            | none => some false
            | some cp =>
              if utf8Overlong cont cp then some false
              else if decide (0x10FFFF < cp) || (decide (0xD800 ≤ cp) && decide (cp ≤ 0xDFFF)) then some false
              else utf8Scan s n (i + 1 + cont)
    else some true

theorem utf8Continue_rest : ∀ {n cp : Nat} {s : Bytes} {r : Nat × Bytes}, utf8Continue n cp s = some r → r.2 = s.drop n
  | 0, _, _, _, h => by cases h; rfl
  | n + 1, cp, s, r, h => by
    obtain ⟨b, t, rfl, -, ht⟩ := (utf8Continue_succ_iff n cp s r).1 h
    have ih := utf8Continue_rest ht
    rwa [List.drop_succ_cons]

theorem utf8ScanCont_eq (s : Bytes) (i : Nat) : ∀ (n k cp : Nat), i + k + n ≤ s.length →
    utf8ScanCont s i n k cp = some ((utf8Continue n cp (s.drop (i + k))).map Prod.fst)
  | 0, _, _, _ => rfl
  | n + 1, k, cp, h => by
    have hk : i + k < s.length := by omega
    have ih := utf8ScanCont_eq s i n (k + 1)
    rw [List.drop_eq_getElem_cons hk, utf8ScanCont, List.getElem?_eq_getElem hk, utf8Continue]
    change (if _ then _ else _) = _
    split
    · rfl
    · exact ih _ (by omega)

/-- **The walk by index is the walk from the front**, in no more rounds than there are bytes and one. -/
theorem utf8Scan_eq (s : Bytes) : ∀ (n i : Nat), s.length - i < n → utf8Scan s n i = some (utf8Valid (s.drop i))
  | n + 1, i, h => by
    rw [utf8Scan]
    split
    · rename_i hi
      have ih := fun j (hj : i < j) => utf8Scan_eq s n j (by omega)
      rw [List.getElem?_eq_getElem hi, List.drop_eq_getElem_cons hi, utf8Valid_cons]
      change (if _ then _ else _) = _
      unfold utf8Step
      split
      · rfl
      split
      · exact ih _ (Nat.lt_succ_self i)
      cases utf8Lead s[i] with
      | none => rfl
      | some lead =>
        obtain ⟨cont, cp₀⟩ := lead
        dsimp only [utf8Tail]
        have hlen : s.length < i + 1 + cont ↔ (s.drop (i + 1)).length < cont := by
          rw [List.length_drop]
          omega
        simp only [hlen, decide_eq_true_eq]
        split
        · rfl
        rename_i hfits
        rw [utf8ScanCont_eq s i cont 1 cp₀ (by rw [List.length_drop] at hfits; omega)]
        cases hcont : utf8Continue cont cp₀ (s.drop (i + 1)) with
        | none => rfl
        | some r =>
          obtain ⟨cp, t⟩ := r
          have ht : t = s.drop (i + 1 + cont) := by
            have hrest := utf8Continue_rest hcont
            rwa [List.drop_drop] at hrest
          change (if _ then _ else _) = _
          dsimp only
          split
          · rfl
          split
          · rfl
          · rw [ht]
            exact ih _ (by omega)
    · rename_i hi
      rw [List.drop_eq_nil_of_le (Nat.not_lt.1 hi)]
      rfl

/-- **`utf8_valid` accepts exactly the well-formed MQTT strings**, returns on every input and reads no byte past its
end. -/
theorem utf8Scan_iff (s : Bytes) : utf8Scan s (s.length + 1) 0 = some (utf8Valid s) ∧
      (utf8Valid s = true ↔
        ∃ cs : List Char, (∀ c ∈ cs, 0 < c.toNat) ∧ s = cs.flatMap String.utf8EncodeChar) :=
  ⟨utf8Scan_eq s _ 0 (Nat.lt_succ_self _), utf8Valid_iff_wellFormed s⟩

end Minimosq
