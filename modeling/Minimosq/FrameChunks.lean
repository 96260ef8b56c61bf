import Mathlib.Tactic.Ring
import Minimosq.Frame
/-!
# Framing does not depend on the cuts

`feed` copies a body in blocks; `feedBytes` is the same machine fed one byte at a time, for which cutting the stream is
an induction on the list.  The two agree from every parser that has not overrun its body (`Wf`), and every parser `feed`
leaves is one.  The reference decoder is then compared with the byte machine, one phase of a packet a lemma, and a
framed packet is read back digit by digit.
-/
namespace Minimosq
namespace FrameParser

variable {S : Type}

/-- A parser that reads a length has no body yet, and one that reads a body still misses some of it. -/
def Wf (p : FrameParser) : Prop :=
  match p.state with
  | .firstByte => True
  | .length => p.body = []
  | .body => p.body.length < p.remLen

theorem wf_fresh : ({} : FrameParser).Wf := trivial

theorem reset_wf (p : FrameParser) : p.reset.Wf := trivial

/-- **`feed`, one byte at a time.** -/
def feedBytes (maxBody : Nat) (onPacket : UInt8 → Bytes → S → Bool × S) :
    FrameParser → Bytes → S → Err × FrameParser × S
  | p, [], s => (.ok, p, s)
  | p, b :: data, s =>
    match p.state with
    | .firstByte =>
      feedBytes maxBody onPacket
        { p with firstByte := b, remLen := 0, lenShift := 0, body := [], state := .length } data s
    | .length =>
      let rem := p.remLen ||| ((b &&& 0x7F).toNat <<< p.lenShift)
      if b &&& 0x80 != 0 then
        if 21 ≤ p.lenShift then (.malformed, { p with remLen := rem }, s)
        else feedBytes maxBody onPacket { p with remLen := rem, lenShift := p.lenShift + 7 } data s
      else if maxBody < rem then (.oversize, { p with remLen := rem }, s)
      else if rem = 0 then
        let r := onPacket p.firstByte [] s
        let p' := { p with remLen := rem, state := .firstByte }
        if !r.1 then (.ok, p', r.2) else feedBytes maxBody onPacket p' data r.2
      else feedBytes maxBody onPacket { p with remLen := rem, state := .body } data s
    | .body =>
      if (p.body ++ [b]).length = p.remLen then
        let r := onPacket p.firstByte (p.body ++ [b]) s
        let p' := { p with body := p.body ++ [b], state := .firstByte }
        if !r.1 then (.ok, p', r.2) else feedBytes maxBody onPacket p' data r.2
      else feedBytes maxBody onPacket { p with body := p.body ++ [b] } data s

section
variable (maxBody : Nat) (onPacket : UInt8 → Bytes → S → Bool × S)

/-! ## Blocks and bytes -/

/-- A block that does not complete the body. -/
theorem feedBytes_block_short : ∀ (chunk rest : Bytes) (p : FrameParser) (s : S), p.state = .body →
    p.body.length + chunk.length < p.remLen →
    feedBytes maxBody onPacket p (chunk ++ rest) s = feedBytes maxBody onPacket
      { p with body := p.body ++ chunk } rest s
  | [], rest, p, s, _, _ => by simp
  | b :: chunk, rest, p, s, hst, hlen => by
    rw [List.length_cons] at hlen
    have hne : ¬ (p.body ++ [b]).length = p.remLen := by
      rw [List.length_append, List.length_singleton]; omega
    rw [List.cons_append, feedBytes]
    simp only [hst, if_neg hne]
    rw [feedBytes_block_short chunk rest _ s rfl
      (by simp only [List.length_append, List.length_singleton]; omega)]
    simp only [List.append_assoc, List.singleton_append]

/-- A block that completes the body: the callback gets it, and decides whether the rest is read. -/
theorem feedBytes_block_full (chunk rest : Bytes) (p : FrameParser) (s : S) (hst : p.state = .body)
    (hne : chunk ≠ []) (hlen : p.body.length + chunk.length = p.remLen) :
    feedBytes maxBody onPacket p (chunk ++ rest) s =
      let r := onPacket p.firstByte (p.body ++ chunk) s
      let p' := { p with body := p.body ++ chunk, state := .firstByte }
      if !r.1 then (.ok, p', r.2) else feedBytes maxBody onPacket p' rest r.2 := by
  obtain ⟨init, b, rfl⟩ : ∃ init b, chunk = init ++ [b] := ⟨_, _, (List.dropLast_concat_getLast hne).symm⟩
  rw [List.length_append, List.length_singleton] at hlen
  rw [List.append_assoc, feedBytes_block_short maxBody onPacket init _ p s hst (by omega), List.singleton_append,
    feedBytes]
  have hfull : (p.body ++ (init ++ [b])).length = p.remLen := by
    simp only [List.length_append, List.length_singleton]; omega
  simp only [hst, List.append_assoc, hfull, if_true]

/-- **The block loop is the byte machine**, with fuel for every byte. -/
theorem feedLoop_eq_feedBytes : ∀ (n : Nat) (p : FrameParser) (data : Bytes) (s : S), p.Wf → data.length ≤ n →
    feedLoop maxBody onPacket n p data s = feedBytes maxBody onPacket p data s
  | 0, p, data, s, _, hn => by
    rw [List.eq_nil_of_length_eq_zero (Nat.le_zero.1 hn)]
    simp only [feedLoop, feedBytes]
  | _ + 1, _, [], _, _, _ => by simp only [feedLoop, feedBytes]
  | n + 1, p, b :: data, s, hp, hn => by
    rw [List.length_cons] at hn
    cases hst : p.state with
    | firstByte =>
      simp only [feedLoop, feedBytes, hst]
      exact feedLoop_eq_feedBytes n _ data s rfl (by omega)
    | length =>
      simp only [Wf, hst] at hp
      simp only [feedLoop, feedBytes, hst]
      split
      · split
        · rfl
        · exact feedLoop_eq_feedBytes n _ data s hp (by omega)
      · split
        · rfl
        · split
          · split
            · rfl
            · exact feedLoop_eq_feedBytes n _ data _ trivial (by omega)
          · rename_i hrem
            refine feedLoop_eq_feedBytes n _ data s ?_ (by omega)
            simp only [Wf, hp, List.length_nil]
            exact Nat.pos_of_ne_zero hrem
    | body =>
      simp only [Wf, hst] at hp
      generalize hk : min (p.remLen - p.body.length) (b :: data).length = k
      have hk0 : 0 < k := by rw [List.length_cons] at hk; omega
      have hkl : k ≤ (b :: data).length := by omega
      have htake : ((b :: data).take k).length = k := List.length_take_of_le hkl
      have hdrop : ((b :: data).drop k).length ≤ n := by rw [List.length_drop, List.length_cons]; omega
      have hsplit : (b :: data).take k ++ (b :: data).drop k = b :: data := List.take_append_drop k (b :: data)
      simp only [feedLoop, hst, hk]
      by_cases hfull : (p.body ++ (b :: data).take k).length = p.remLen
      · rw [if_pos hfull, ← hsplit]
        rw [List.length_append] at hfull
        rw [feedBytes_block_full maxBody onPacket _ _ p s hst
          (List.ne_nil_of_length_pos (by rw [htake]; exact hk0)) hfull, hsplit]
        simp only
        split
        · rfl
        · exact feedLoop_eq_feedBytes n _ _ _ trivial hdrop
      · have hshort : (p.body ++ (b :: data).take k).length < p.remLen := by
          rw [List.length_append] at hfull ⊢; omega
        have hwf : Wf { p with body := p.body ++ (b :: data).take k, state := .body } := hshort
        rw [if_neg hfull, feedLoop_eq_feedBytes n _ _ s hwf hdrop]
        rw [List.length_append] at hshort
        have hblock := feedBytes_block_short maxBody onPacket _ ((b :: data).drop k) p s hst hshort
        rw [hsplit, hst] at hblock
        exact hblock.symm

theorem feed_eq_feedBytes {p : FrameParser} (hp : p.Wf) (data : Bytes) (s : S) :
    feed maxBody onPacket p data s = feedBytes maxBody onPacket p data s :=
  feedLoop_eq_feedBytes maxBody onPacket _ p data s hp (Nat.le_refl _)

theorem feedBytes_wf : ∀ (data : Bytes) (p : FrameParser) (s : S), p.Wf → (feedBytes maxBody onPacket p data s).2.1.Wf
  | [], _, _, hp => hp
  | b :: data, p, s, hp => by
    cases hst : p.state with
    | firstByte =>
      simp only [feedBytes, hst]
      exact feedBytes_wf data _ s rfl
    | length =>
      simp only [Wf, hst] at hp
      simp only [feedBytes, hst]
      split
      · split
        · exact hp
        · exact feedBytes_wf data _ s hp
      · split
        · exact hp
        · split
          · split
            · trivial
            · exact feedBytes_wf data _ _ trivial
          · rename_i hrem
            refine feedBytes_wf data _ s ?_
            simp only [Wf, hp, List.length_nil]
            exact Nat.pos_of_ne_zero hrem
    | body =>
      simp only [Wf, hst] at hp
      simp only [feedBytes, hst]
      split
      · split
        · trivial
        · exact feedBytes_wf data _ _ trivial
      · rename_i hne
        refine feedBytes_wf data _ s ?_
        rw [List.length_append, List.length_singleton] at hne
        simp only [Wf, List.length_append, List.length_singleton]
        omega

theorem feed_wf {p : FrameParser} (hp : p.Wf) (data : Bytes) (s : S) : (feed maxBody onPacket p data s).2.1.Wf := by
  rw [feed_eq_feedBytes maxBody onPacket hp]
  exact feedBytes_wf maxBody onPacket data p s hp

/-! ## Cutting the data in two -/

/-- **Feeding `a ++ b` is feeding `a`, then `b` unless `a` ended it.**  `stop` is a mark the callback leaves on its
state exactly when it answers `false`. -/
theorem feedBytes_append (stop : S → Bool) (hstop : ∀ f body s, (onPacket f body s).1 = !stop (onPacket f body s).2) :
    ∀ (a b : Bytes) (p : FrameParser) (s : S), stop s = false →
      feedBytes maxBody onPacket p (a ++ b) s =
        let r := feedBytes maxBody onPacket p a s
        if r.1 = .ok ∧ stop r.2.2 = false then feedBytes maxBody onPacket r.2.1 b r.2.2 else r
  | [], b, p, s, hs => by simp [feedBytes, hs]
  | x :: a, b, p, s, hs => by
    have hcall : ∀ (f : UInt8) (body : Bytes) (p' : FrameParser),
        (if !(onPacket f body s).1 then (Err.ok, p', (onPacket f body s).2)
          else feedBytes maxBody onPacket p' (a ++ b) (onPacket f body s).2) =
        let r := if !(onPacket f body s).1 then (Err.ok, p', (onPacket f body s).2)
          else feedBytes maxBody onPacket p' a (onPacket f body s).2
        if r.1 = .ok ∧ stop r.2.2 = false then feedBytes maxBody onPacket r.2.1 b r.2.2 else r := by
      intro f body p'
      cases hst : stop (onPacket f body s).2 with
      | true => simp [hstop, hst]
      | false =>
        simp only [hstop, hst, Bool.not_false, Bool.not_true, Bool.false_eq_true, if_false]
        exact feedBytes_append stop hstop a b p' _ hst
    cases hst : p.state with
    | firstByte =>
      simp only [List.cons_append, feedBytes, hst]
      exact feedBytes_append stop hstop a b _ s hs
    | length =>
      simp only [List.cons_append, feedBytes, hst]
      split
      · split
        · simp
        · exact feedBytes_append stop hstop a b _ s hs
      · split
        · simp
        · split
          · exact hcall _ _ _
          · exact feedBytes_append stop hstop a b _ s hs
    | body =>
      simp only [List.cons_append, feedBytes, hst]
      split
      · exact hcall _ _ _
      · exact feedBytes_append stop hstop a b _ s hs

theorem feed_append (stop : S → Bool) (hstop : ∀ f body s, (onPacket f body s).1 = !stop (onPacket f body s).2)
    {p : FrameParser} (hp : p.Wf) (a b : Bytes) {s : S} (hs : stop s = false) : feed maxBody onPacket p (a ++ b) s =
      let r := feed maxBody onPacket p a s
      if r.1 = .ok ∧ stop r.2.2 = false then feed maxBody onPacket r.2.1 b r.2.2 else r := by
  simp only [feed_eq_feedBytes maxBody onPacket hp]
  rw [feed_eq_feedBytes maxBody onPacket (feedBytes_wf maxBody onPacket a p s hp)]
  exact feedBytes_append maxBody onPacket stop hstop a b p s hs

/-- A Remaining Length of at most four digits is being read, or was read and found to be at most `maxBody`. -/
structure Measured (maxBody : Nat) (p : FrameParser) : Prop where
  reading : p.state = .length → p.lenShift % 7 = 0 ∧ p.lenShift ≤ 21 ∧ p.remLen < 2 ^ (p.lenShift + 7)
  within : p.state = .body → p.remLen ≤ maxBody ∧ p.remLen ≤ maxRemainingLength

/-- A parser on its way, which has let no body longer than `maxBody` begin. -/
structure Held (maxBody : Nat) (p : FrameParser) : Prop where
  wf : p.Wf
  measured : p.Measured maxBody

theorem measured_firstByte {p : FrameParser} (h : p.state = .firstByte) : p.Measured maxBody :=
  ⟨fun hl => by (rw [h] at hl; cases hl), fun hb => by (rw [h] at hb; cases hb)⟩

theorem measured_digit {rem shift : Nat} (hrem : rem < 2 ^ (shift + 7)) (b : UInt8) :
    rem ||| ((b &&& 0x7F).toNat <<< shift) < 2 ^ (shift + 7) := by
  have hb : (b &&& 0x7F).toNat < 2 ^ 7 := by
    rw [UInt8.toNat_and]
    exact Nat.lt_of_le_of_lt Nat.and_le_right (by decide)
  refine Nat.or_lt_two_pow hrem ?_
  rw [Nat.shiftLeft_eq, Nat.pow_add, Nat.mul_comm (2 ^ shift)]
  exact Nat.mul_lt_mul_of_pos_right hb (Nat.two_pow_pos shift)

/-- **The rule for `feed`**: what every callback on an unmarked state keeps holds at the end, and the parser stays
held.  No body longer than `maxBody` is called back with. -/
theorem feedBytes_rule (stop : S → Bool) (hstop : ∀ f body s, (onPacket f body s).1 = !stop (onPacket f body s).2)
    (I : S → Prop) (hI : ∀ f body s, body.length ≤ maxBody ∧ body.length ≤ maxRemainingLength → I s → stop s = false →
      I (onPacket f body s).2) :
    ∀ (data : Bytes) (p : FrameParser) (s : S), p.Measured maxBody → stop s = false → I s →
      I (feedBytes maxBody onPacket p data s).2.2 ∧
        (feedBytes maxBody onPacket p data s).2.1.Measured maxBody
  | [], _, _, hp, _, h => ⟨h, hp⟩
  | x :: data, p, s, hp, hs, h => by
    have hcall : ∀ (f : UInt8) (body : Bytes) (p' : FrameParser),
        body.length ≤ maxBody ∧ body.length ≤ maxRemainingLength → p'.state = .firstByte →
        let r := if !(onPacket f body s).1 then (Err.ok, p', (onPacket f body s).2)
          else feedBytes maxBody onPacket p' data (onPacket f body s).2
        I r.2.2 ∧ r.2.1.Measured maxBody := by
      intro f body p' hlen hp'
      have hfirst : p'.Measured maxBody := measured_firstByte maxBody hp'
      cases hst : stop (onPacket f body s).2 with
      | true => simpa [hstop, hst] using ⟨hI f body s hlen h hs, hfirst⟩
      | false =>
        simp only [hstop, hst, Bool.not_false, Bool.not_true, Bool.false_eq_true, if_false]
        exact feedBytes_rule stop hstop I hI data p' _ hfirst hst (hI f body s hlen h hs)
    cases hst : p.state with
    | firstByte =>
      simp only [feedBytes, hst]
      exact feedBytes_rule stop hstop I hI data _ s ⟨fun _ => ⟨rfl, Nat.zero_le _, Nat.two_pow_pos _⟩, nofun⟩ hs h
    | length =>
      obtain ⟨hseven, hshift, hrem⟩ := hp.reading hst
      have hdigit := measured_digit hrem x
      simp only [feedBytes, hst]
      generalize p.remLen ||| ((x &&& 0x7F).toNat <<< p.lenShift) = rem at hdigit ⊢
      have hstill : ({ p with state := .length, remLen := rem } : FrameParser).Measured maxBody :=
        ⟨fun _ => ⟨hseven, hshift, hdigit⟩, nofun⟩
      split
      · split
        · exact ⟨h, hstill⟩
        · rename_i hmore
          refine feedBytes_rule stop hstop I hI data _ s ⟨fun _ => ⟨?_, ?_, ?_⟩, nofun⟩ hs h
          · exact (Nat.add_mod_right ..).trans hseven
          · change p.lenShift + 7 ≤ 21
            omega
          · exact hdigit.trans_le (Nat.pow_le_pow_right (by decide) (Nat.le_add_right ..))
      · split
        · exact ⟨h, hstill⟩
        · rename_i hle
          split
          · exact hcall _ _ _ ⟨Nat.zero_le _, Nat.zero_le _⟩ rfl
          · have hmax : rem ≤ maxRemainingLength := by
              have := Nat.pow_le_pow_right (show 0 < 2 by decide) (Nat.add_le_add_right hshift 7)
              simp only [maxRemainingLength]
              omega
            exact feedBytes_rule stop hstop I hI data _ s ⟨nofun, fun _ => ⟨Nat.not_lt.1 hle, hmax⟩⟩ hs h
    | body =>
      simp only [feedBytes, hst]
      split
      · rename_i hlen
        exact hcall _ _ _ (by rw [hlen]; exact hp.within hst) rfl
      · exact feedBytes_rule stop hstop I hI data _ s
          ⟨nofun, fun _ => hp.within hst⟩ hs h

theorem feed_rule (stop : S → Bool) (hstop : ∀ f body s, (onPacket f body s).1 = !stop (onPacket f body s).2)
    (I : S → Prop) (hI : ∀ f body s, body.length ≤ maxBody ∧ body.length ≤ maxRemainingLength → I s → stop s = false →
      I (onPacket f body s).2)
    {p : FrameParser} (hp : p.Held maxBody) (data : Bytes) {s : S} (hs : stop s = false) (h : I s) :
    I (feed maxBody onPacket p data s).2.2 ∧ (feed maxBody onPacket p data s).2.1.Held maxBody := by
  have hwf := feed_wf maxBody onPacket hp.wf data s
  rw [feed_eq_feedBytes maxBody onPacket hp.wf] at hwf ⊢
  obtain ⟨hI', hmeasured⟩ := feedBytes_rule maxBody onPacket stop hstop I hI data p s hp.measured hs h
  exact ⟨hI', hwf, hmeasured⟩

/-- A callback that also keeps something beside the state is fed like the plain one. -/
theorem feedLoop_project {S' : Type} (π : S' → S) {onPacket' : UInt8 → Bytes → S' → Bool × S'}
    (hfst : ∀ f body s, (onPacket' f body s).1 = (onPacket f body (π s)).1)
    (hsnd : ∀ f body s, π (onPacket' f body s).2 = (onPacket f body (π s)).2) :
    ∀ (n : Nat) (p : FrameParser) (data : Bytes) (s : S'),
      let fed := feedLoop maxBody onPacket' n p data s
      feedLoop maxBody onPacket n p data (π s) = (fed.1, fed.2.1, π fed.2.2)
  | 0, _, _, _ => rfl
  | _ + 1, _, [], _ => rfl
  | n + 1, p, b :: data, s => by
    have ih := feedLoop_project π hfst hsnd n
    have hcall : ∀ (f : UInt8) (body : Bytes) (p' : FrameParser) (data : Bytes),
        let fed := if !(onPacket' f body s).1 then (Err.ok, p', (onPacket' f body s).2)
          else feedLoop maxBody onPacket' n p' data (onPacket' f body s).2
        (if !(onPacket f body (π s)).1 then (Err.ok, p', (onPacket f body (π s)).2)
          else feedLoop maxBody onPacket n p' data (onPacket f body (π s)).2) = (fed.1, fed.2.1, π fed.2.2) := by
      intro f body p' data
      rw [← hfst, ← hsnd]
      cases (onPacket' f body s).1 with
      | true => exact ih p' data (onPacket' f body s).2
      | false => rfl
    cases hst : p.state with
    | firstByte =>
      simp only [feedLoop, hst]
      exact ih _ _ s
    | length =>
      simp only [feedLoop, hst]
      split
      · split
        · rfl
        · exact ih _ _ s
      · split
        · rfl
        · split
          · exact hcall _ _ _ _
          · exact ih _ _ s
    | body =>
      simp only [feedLoop, hst]
      split
      · exact hcall _ _ _ _
      · exact ih _ _ s

theorem feed_project {S' : Type} (π : S' → S) {onPacket' : UInt8 → Bytes → S' → Bool × S'}
    (hfst : ∀ f body s, (onPacket' f body s).1 = (onPacket f body (π s)).1)
    (hsnd : ∀ f body s, π (onPacket' f body s).2 = (onPacket f body (π s)).2) (p : FrameParser) (data : Bytes)
      (s : S') :
    let fed := feed maxBody onPacket' p data s
    feed maxBody onPacket p data (π s) = (fed.1, fed.2.1, π fed.2.2) :=
  feedLoop_project maxBody onPacket π hfst hsnd _ p data s

theorem held_fresh (maxBody : Nat) : ({} : FrameParser).Held maxBody := ⟨wf_fresh, measured_firstByte maxBody rfl⟩

theorem reset_held (maxBody : Nat) (p : FrameParser) : p.reset.Held maxBody :=
  ⟨reset_wf p, measured_firstByte maxBody rfl⟩

end

/-! ## Any number of cuts -/

/-- Successive `feed` calls, up to the first that does not return `ok`. -/
def feedChunks (maxBody : Nat) (onPacket : UInt8 → Bytes → S → Bool × S) :
    FrameParser → List Bytes → S → Err × FrameParser × S
  | p, [], s => (.ok, p, s)
  | p, c :: cs, s =>
    let r := feed maxBody onPacket p c s
    if r.1 = .ok then feedChunks maxBody onPacket r.2.1 cs r.2.2 else r

/-- A callback that always returns true. -/
def always (visit : UInt8 → Bytes → S → S) : UInt8 → Bytes → S → Bool × S := fun f body s => (true, visit f body s)

variable (maxBody : Nat) (visit : UInt8 → Bytes → S → S)

/-- **The cuts do not matter.** -/
theorem feedChunks_eq_feed : ∀ (cs : List Bytes) (p : FrameParser) (s : S), p.Wf →
    feedChunks maxBody (always visit) p cs s = feed maxBody (always visit) p cs.flatten s
  | [], p, s, _ => rfl
  | c :: cs, p, s, hp => by
    rw [List.flatten_cons, feed_append maxBody (always visit) (fun _ => false) (fun _ _ _ => rfl) hp c _ rfl,
      feedChunks]
    simp only [and_true]
    split
    · exact feedChunks_eq_feed cs _ _ (feed_wf maxBody _ hp c s)
    · rfl

/-! ## The reference decoder -/

/-- What a caller of `feed` sees of it. -/
def outcome (r : Err × FrameParser × S) : Err × S := (r.1, r.2.2)

theorem high_bit (b : UInt8) : (b &&& 0x80 != 0) = decide (128 ≤ b.toNat) := by
  have h : ∀ n < 256, (UInt8.ofNat n &&& 0x80 != 0) = decide (128 ≤ n) := by decide +kernel
  have hb := h b.toNat b.toNat_lt
  rwa [UInt8.ofNat_toNat] at hb

theorem low_bits (b : UInt8) : (b &&& 0x7F).toNat = b.toNat % 128 := by
  rw [UInt8.toNat_and]
  exact Nat.and_two_pow_sub_one_eq_mod b.toNat 7

/-- Or-ing a digit above the digits read so far adds its value. -/
theorem or_digit {rem k : Nat} (d : Nat) (h : rem < 2 ^ k) : rem ||| (d <<< k) = rem + d * 2 ^ k := by
  rw [Nat.or_comm, ← Nat.shiftLeft_add_eq_or_of_lt h, Nat.shiftLeft_eq, Nat.add_comm]

/-- Between two packets nothing is left of the first. -/
theorem feedBytes_boundary {p : FrameParser} (hp : p.state = .firstByte) (data : Bytes) (s : S) :
    outcome (feedBytes maxBody (always visit) p data s) = outcome (feedBytes maxBody (always visit) {} data s) := by
  cases data with
  | nil => rfl
  | cons b data => simp only [feedBytes, hp]

/-- What is to come once the length `len` is known and `rest` follows it. -/
def afterLength (f : UInt8) (len : Nat) (rest : Bytes) (s : S) : Err × S :=
  if maxBody < len then (.oversize, s)
  else if rest.length < len then (.ok, s)
  else outcome (feedBytes maxBody (always visit) {} (rest.drop len) (visit f (rest.take len) s))

theorem feedBytes_body {p : FrameParser} (hst : p.state = .body) (hbody : p.body = []) (hpos : 0 < p.remLen)
    (hmax : p.remLen ≤ maxBody) (data : Bytes) (s : S) :
    outcome (feedBytes maxBody (always visit) p data s) = afterLength maxBody visit p.firstByte p.remLen data s := by
  rw [afterLength, if_neg (Nat.not_lt.2 hmax)]
  by_cases hshort : data.length < p.remLen
  · have h := feedBytes_block_short maxBody (always visit) data [] p s hst (by rw [hbody]; simpa using hshort)
    rw [List.append_nil] at h
    rw [if_pos hshort, h]
    rfl
  · have hlen : (data.take p.remLen).length = p.remLen := List.length_take_of_le (Nat.not_lt.1 hshort)
    have h := feedBytes_block_full maxBody (always visit) (data.take p.remLen) (data.drop p.remLen) p s hst
      (List.ne_nil_of_length_pos (by rw [hlen]; exact hpos)) (by rw [hbody, hlen]; simp)
    rw [List.take_append_drop] at h
    rw [if_neg hshort, h]
    simp only [always, hbody, List.nil_append, Bool.not_true, Bool.false_eq_true, if_false]
    exact feedBytes_boundary maxBody visit rfl _ _

/-- **The length phase reads what the reference reads**: `n` digits may follow this one. -/
theorem feedBytes_length : ∀ (n : Nat) (data : Bytes) (p : FrameParser) (s : S), n < 4 → p.state = .length →
    p.body = [] → p.lenShift = 7 * (3 - n) → p.remLen < 2 ^ (7 * (3 - n)) →
    outcome (feedBytes maxBody (always visit) p data s) =
      match readLength (n + 1) (2 ^ (7 * (3 - n))) data with
      | .incomplete => (.ok, s)
      | .malformed => (.malformed, s)
      | .value v rest => afterLength maxBody visit p.firstByte (p.remLen + v) rest s
  | _, [], _, _, _, _, _, _, _ => rfl
  | n, b :: data, p, s, hn, hst, hbody, hshift, hrem => by
    have hb : b.toNat < 256 := b.toNat_lt
    simp only [feedBytes, hst, readLength, high_bit, low_bits, hshift, or_digit _ hrem, decide_eq_true_eq]
    by_cases hlast : b.toNat < 128
    · rw [if_neg (by omega), if_pos hlast, Nat.mod_eq_of_lt hlast]
      simp only
      generalize p.remLen + b.toNat * 2 ^ (7 * (3 - n)) = len
      by_cases hover : maxBody < len
      · rw [if_pos hover, afterLength, if_pos hover]
        rfl
      · rw [if_neg hover]
        by_cases hzero : len = 0
        · rw [if_pos hzero, hzero, afterLength, if_neg (Nat.not_lt_zero _), if_neg (Nat.not_lt_zero _)]
          simp only [always, Bool.not_true, Bool.false_eq_true, if_false, List.drop_zero, List.take_zero]
          exact feedBytes_boundary maxBody visit rfl _ _
        · rw [if_neg hzero]
          exact feedBytes_body maxBody visit (p := ⟨.body, p.firstByte, len, 7 * (3 - n), p.body⟩) rfl hbody
            (Nat.pos_of_ne_zero hzero) (Nat.not_lt.1 hover) data s
    · rw [if_pos (by omega), if_neg hlast]
      cases n with
      | zero => rfl
      | succ n =>
        have hexp : 7 * (3 - n) = 7 * (3 - (n + 1)) + 7 := by omega
        have hmod : b.toNat % 128 = b.toNat - 128 := by omega
        have hdigit : (b.toNat - 128) * 2 ^ (7 * (3 - (n + 1))) ≤ 127 * 2 ^ (7 * (3 - (n + 1))) :=
          Nat.mul_le_mul_right _ (by omega)
        rw [if_neg (by omega), if_neg (Nat.succ_ne_zero n), hmod]
        have hnext := feedBytes_length n data
          { p with remLen := p.remLen + (b.toNat - 128) * 2 ^ (7 * (3 - (n + 1))), lenShift := p.lenShift + 7 } s
          (by omega) hst hbody (by simp only [hshift]; omega) (by simp only [hexp, Nat.pow_add]; omega)
        rw [hexp, Nat.pow_add] at hnext
        simp only [hst, hshift] at hnext ⊢
        rw [hnext]
        cases readLength (n + 1) (2 ^ (7 * (3 - (n + 1))) * 128) data with
        | incomplete => rfl
        | malformed => rfl
        | value v rest => simp only [Nat.add_assoc]

end FrameParser

/-! ## Whole streams -/

theorem readLength_rest_length : ∀ (n mul : Nat) (bs : Bytes) (v : Nat) (rest : Bytes),
    readLength n mul bs = .value v rest → rest.length < bs.length
  | _, _, [], _, _, h => by simp [readLength] at h
  | 0, _, _ :: _, _, _, h => by simp [readLength] at h
  | n + 1, mul, b :: bs, v, rest, h => by
    rw [readLength] at h
    split at h
    · cases h
      exact Nat.lt_succ_self _
    · split at h
      · cases h
      · split at h
        · rename_i v' rest' hrec
          cases h
          exact Nat.lt_succ_of_lt (readLength_rest_length n _ bs v' _ hrec)
        · rename_i hnot
          exact absurd h (hnot v rest)

/-- The packets of a list, visited in order. -/
def visitAll {S : Type} (visit : UInt8 → Bytes → S → S) (pkts : List (UInt8 × Bytes)) (s : S) : S :=
  pkts.foldl (fun s p => visit p.1 p.2 s) s

/-- **The byte machine decodes what the reference decodes.** -/
theorem feedBytes_eq_decodeLoop {S : Type} (maxBody : Nat) (visit : UInt8 → Bytes → S → S) :
    ∀ (n : Nat) (bs : Bytes) (s : S), bs.length ≤ n →
      FrameParser.outcome (FrameParser.feedBytes maxBody (FrameParser.always visit) {} bs s) =
        ((decodeLoop maxBody n bs).2, visitAll visit (decodeLoop maxBody n bs).1 s)
  | 0, bs, s, h => by
    rw [List.eq_nil_of_length_eq_zero (Nat.le_zero.1 h)]
    rfl
  | _ + 1, [], _, _ => rfl
  | n + 1, f :: bs, s, h => by
    rw [List.length_cons] at h
    simp only [FrameParser.feedBytes, decodeLoop]
    rw [FrameParser.feedBytes_length maxBody visit 3 bs _ s (by omega) rfl rfl rfl (by simp)]
    simp only [Nat.sub_self, Nat.mul_zero, Nat.pow_zero, Nat.zero_add, Nat.reduceAdd]
    cases hread : readLength 4 1 bs with
    | incomplete => rfl
    | malformed => rfl
    | value len rest =>
      have hlen := readLength_rest_length _ _ _ _ _ hread
      simp only [FrameParser.afterLength]
      split
      · rfl
      · split
        · rfl
        · rw [feedBytes_eq_decodeLoop maxBody visit n _ _ (by rw [List.length_drop]; omega)]
          rfl

/-! ## Framed packets -/

/-- The base-128 digits `Writer::varint` writes. -/
def digits : Nat → Nat → Bytes
  | 0, _ => []
  | n + 1, v =>
    if 0 < v / 128 then (UInt8.ofNat (v % 128) ||| 0x80) :: digits n (v / 128) else [UInt8.ofNat (v % 128)]

theorem Writer.varintLoop_eq : ∀ (n v : Nat) (w : Writer), w.ok = true →
    w.buf.length + (digits n v).length ≤ w.cap → Writer.varintLoop n v w = { w with buf := w.buf ++ digits n v }
  | 0, _, w, _, _ => by simp [Writer.varintLoop, digits]
  | n + 1, v, w, hok, hcap => by
    have hu8 : ∀ d, w.buf.length + 1 ≤ w.cap → w.u8 d = { w with buf := w.buf ++ [d] } := by
      intro d hd
      rw [Writer.u8, if_neg (by simp [hok]; omega)]
    rw [Writer.varintLoop]
    simp only [digits] at hcap ⊢
    by_cases hmore : 0 < v / 128
    · simp only [if_pos hmore, List.length_cons] at hcap ⊢
      have hrest := Writer.varintLoop_eq n (v / 128) { w with buf := w.buf ++ [UInt8.ofNat (v % 128) ||| 0x80] } hok
        (by simp only [List.length_append, List.length_singleton]; omega)
      rw [hu8 _ (by omega), hrest]
      simp only [List.append_assoc, List.singleton_append]
    · simp only [if_neg hmore, List.length_singleton] at hcap ⊢
      exact hu8 _ hcap

theorem length_digits {v : Nat} (hv : v ≤ maxRemainingLength) : (digits 5 v).length = varintSize v := by
  simp only [maxRemainingLength] at hv
  simp only [digits, varintSize]
  repeat' split
  all_goals first | rfl | (exfalso; omega)

theorem framePacket_eq {f : UInt8} {body : Bytes} (hb : body.length ≤ maxRemainingLength) :
    framePacket f body = f :: (digits 5 body.length ++ body) := by
  have hsize := length_digits hb
  have hu8 : (Writer.make (1 + varintSize body.length)).u8 f = ⟨1 + varintSize body.length, [f], true⟩ := by
    simp [Writer.u8, Writer.make]
  rw [framePacket, if_neg (Nat.not_lt.2 hb), hu8]
  rw [Writer.varint, if_neg (Nat.not_lt.2 hb), Writer.varintLoop_eq 5 _ _ rfl (by simp [hsize])]
  simp

theorem digit_toNat (v : Nat) :
    (UInt8.ofNat (v % 128)).toNat = v % 128 ∧ (UInt8.ofNat (v % 128) ||| 0x80).toNat = v % 128 + 128 := by
  have h : ∀ n < 128, (UInt8.ofNat n).toNat = n ∧ (UInt8.ofNat n ||| 0x80).toNat = n + 128 := by decide +kernel
  exact h (v % 128) (Nat.mod_lt _ (by omega))

/-- **The reference reads a varint back.** -/
theorem readLength_digits : ∀ (k n v mul : Nat) (rest : Bytes), k ≤ n → v < 128 ^ (k + 1) →
    readLength (k + 1) mul (digits (n + 1) v ++ rest) = .value (v * mul) rest
  | k, n, v, mul, rest, hkn, hv => by
    obtain ⟨hlow, hhigh⟩ := digit_toNat v
    rw [digits]
    by_cases hmore : 0 < v / 128
    · obtain ⟨k, rfl⟩ : ∃ j, k = j + 1 := by
        cases k with
        | zero => exact absurd hv (by simp; omega)
        | succ k => exact ⟨k, rfl⟩
      obtain ⟨n, rfl⟩ : ∃ j, n = j + 1 := ⟨n - 1, by omega⟩
      have hdiv : v / 128 < 128 ^ (k + 1) := Nat.div_lt_of_lt_mul (by rw [Nat.pow_succ'] at hv; exact hv)
      rw [if_pos hmore, List.cons_append, readLength, if_neg (by omega), if_neg (Nat.succ_ne_zero k),
        readLength_digits k n (v / 128) (mul * 128) rest (by omega) hdiv]
      simp only [hhigh, Nat.add_sub_cancel, LengthRead.value.injEq, and_true]
      calc v % 128 * mul + v / 128 * (mul * 128) = (v % 128 + 128 * (v / 128)) * mul := by ring
        _ = v * mul := by rw [Nat.mod_add_div]
    · have hsmall : v % 128 = v := Nat.mod_eq_of_lt (by omega)
      rw [if_neg hmore, List.singleton_append, readLength, if_pos (by omega), hlow, hsmall]

theorem decodeLoop_framePacket {maxBody n : Nat} {body : Bytes} (f : UInt8) (rest : Bytes)
    (hb : body.length ≤ maxRemainingLength) (hmax : body.length ≤ maxBody)
      (hn : (framePacket f body ++ rest).length ≤ n) :
    ∃ m, rest.length ≤ m ∧ decodeLoop maxBody n (framePacket f body ++ rest) =
      ((f, body) :: (decodeLoop maxBody m rest).1, (decodeLoop maxBody m rest).2) := by
  rw [framePacket_eq hb] at hn ⊢
  obtain ⟨n, rfl⟩ : ∃ j, n = j + 1 := ⟨n - 1, by simp at hn; omega⟩
  refine ⟨n, by simp at hn; omega, ?_⟩
  have hread := readLength_digits 3 4 body.length 1 (body ++ rest) (by omega)
    (by simp only [maxRemainingLength] at hb; omega)
  rw [List.cons_append, decodeLoop, List.append_assoc, hread]
  simp only [Nat.mul_one]
  rw [if_neg (Nat.not_lt.2 hmax), if_neg (by simp)]
  simp

/-- The concatenation of framed packets. -/
def framed (pkts : List (UInt8 × Bytes)) : Bytes := (pkts.map (fun p => framePacket p.1 p.2)).flatten

theorem decodeLoop_framed {maxBody : Nat} : ∀ (pkts : List (UInt8 × Bytes)) (n : Nat),
    (∀ p ∈ pkts, p.2.length ≤ min maxBody maxRemainingLength) → (framed pkts).length ≤ n →
    decodeLoop maxBody n (framed pkts) = (pkts, .ok)
  | [], n, _, _ => by cases n <;> rfl
  | p :: pkts, n, hp, hn => by
    have hlen := Nat.le_min.1 (hp p List.mem_cons_self)
    obtain ⟨m, hm, hdec⟩ := decodeLoop_framePacket p.1 (framed pkts) hlen.2 hlen.1 hn
    rw [show framed (p :: pkts) = framePacket p.1 p.2 ++ framed pkts from rfl, hdec,
      decodeLoop_framed pkts m (fun q hq => hp q (List.mem_cons_of_mem _ hq)) hm]

/-- Whatever the cuts, a fresh parser visits what the reference decodes. -/
theorem feedChunks_outcome {S : Type} (maxBody : Nat) (visit : UInt8 → Bytes → S → S) (chunks : List Bytes) (s : S) :
    FrameParser.outcome (FrameParser.feedChunks maxBody (FrameParser.always visit) {} chunks s) =
      ((decodeStream maxBody chunks.flatten).2, visitAll visit (decodeStream maxBody chunks.flatten).1 s) := by
  rw [FrameParser.feedChunks_eq_feed maxBody visit chunks {} s FrameParser.wf_fresh,
    FrameParser.feed_eq_feedBytes _ _ FrameParser.wf_fresh]
  exact feedBytes_eq_decodeLoop maxBody visit _ _ s (Nat.le_refl _)

theorem feedChunks_framed {S : Type} (maxBody : Nat) (visit : UInt8 → Bytes → S → S) {chunks : List Bytes} (s : S)
    {pkts : List (UInt8 × Bytes)} (hp : ∀ p ∈ pkts, p.2.length ≤ min maxBody maxRemainingLength)
    (hchunks : chunks.flatten = framed pkts) :
    FrameParser.outcome (FrameParser.feedChunks maxBody (FrameParser.always visit) {} chunks s) =
      (.ok, visitAll visit pkts s) := by
  rw [feedChunks_outcome, hchunks, decodeStream, decodeLoop_framed pkts _ hp (Nat.le_refl _)]

/-- **Framing is chunking independent.**  With a callback that always returns true, any cutting of a stream into
successive `feed` calls visits the packets and gives the result of one `feed` of the whole stream, and these are the
reference decoder's; the packets of a stream of framed packets are those packets, in order. -/
theorem feedChunks_eq_decodeStream {S : Type} (maxBody : Nat) (visit : UInt8 → Bytes → S → S) (chunks : List Bytes)
    (s : S) : let onPacket := FrameParser.always visit
    let stream := chunks.flatten
    FrameParser.feedChunks maxBody onPacket {} chunks s = FrameParser.feed maxBody onPacket {} stream s ∧
    FrameParser.outcome (FrameParser.feed maxBody onPacket {} stream s) =
      ((decodeStream maxBody stream).2, visitAll visit (decodeStream maxBody stream).1 s) ∧
    ∀ pkts : List (UInt8 × Bytes), (∀ p ∈ pkts, p.2.length ≤ min maxBody maxRemainingLength) → stream = framed pkts →
      FrameParser.outcome (FrameParser.feedChunks maxBody onPacket {} chunks s) = (.ok, visitAll visit pkts s) := by
  have hchunks := FrameParser.feedChunks_eq_feed maxBody visit chunks {} s FrameParser.wf_fresh
  refine ⟨hchunks, ?_, fun pkts hp hstream => feedChunks_framed maxBody visit s hp hstream⟩
  rw [← hchunks]
  exact feedChunks_outcome maxBody visit chunks s

/-- A PINGREQ and a one-byte PUBLISH body, cut inside both headers. -/
theorem feedChunks_cut_headers : FrameParser.outcome (FrameParser.feedChunks 8 (FrameParser.always
      (fun f b (l : List (UInt8 × Bytes)) => l ++ [(f, b)]))
      {} [[0xC0], [0, 0x30], [1, 7]] []) = (.ok, [(0xC0, []), (0x30, [7])]) :=
  (feedChunks_eq_decodeStream 8 _ [[0xC0], [0, 0x30], [1, 7]] []).2.2 [(0xC0, []), (0x30, [7])] (by decide) (by decide)

end Minimosq
