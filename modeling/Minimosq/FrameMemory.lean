import Minimosq.FrameChunks
/-!
# The frame parser in memory

`FrameParser` again, with its buffer `body_` as cells and the input as a span read by index.  What C++ leaves undefined
or would not end is `none` here: a write past `body_`, a read past the input, a difference below zero, an iteration that
consumes nothing.  None of it happens (`feed_refines`), and the list parser says what does.
-/
namespace Minimosq

variable {p : FrameMemory} {i n : Nat}

structure FrameMemory where
  state : FrameState := .firstByte
  firstByte : UInt8 := 0
  remLen : Nat := 0
  lenShift : Nat := 0
  bodyLen : Nat := 0
  /-- The cells of `body_`, which nothing initialises. -/
  buf : Nat → UInt8

/-- Why `feed` returns: the input is used up, the callback wants no more, or an error. -/
inductive Leave
  | dry
  | stopped
  | failed (e : Err)
  deriving DecidableEq, Repr

def Leave.err : Leave → Err
  | .dry => .ok
  | .stopped => .ok
  | .failed e => e

namespace FrameMemory

variable {S : Type}

/-- The span the callback is given. -/
def span (p : FrameMemory) : Bytes := (List.range p.bodyLen).map p.buf

def reset (p : FrameMemory) : FrameMemory := { p with state := .firstByte, remLen := 0, bodyLen := 0, lenShift := 0 }

/-- What one iteration of `feed`'s loop comes to. -/
inductive Turn (S : Type)
  | leave (why : Leave) (p : FrameMemory) (s : S)
  | next (i : Nat) (p : FrameMemory) (s : S)

/-- A packet has been delivered, and the callback has answered. -/
def answered (r : Bool × S) (i : Nat) (p : FrameMemory) : Turn S :=
  if !r.1 then .leave .stopped p r.2 else .next i p r.2

/-- `body_[at + k] = data[i + k]` for the next `n` values of `k`. -/
def copyLoop (maxBody : Nat) (data : Bytes) : Nat → Nat → Nat → (Nat → UInt8) → Option (Nat → UInt8)
  | 0, _, _, buf => some buf
  | n + 1, i, dst, buf =>
    if dst < maxBody then
      match data[i]? with
      | none => none
      | some b => copyLoop maxBody data n (i + 1) (dst + 1) (fun j => if j = dst then b else buf j)
    else none

/-- The iteration of state `length`, `i` being past the byte read. -/
def lengthTurn (maxBody : Nat) (onPacket : UInt8 → Bytes → S → Bool × S) (i : Nat) (b : UInt8) (p : FrameMemory)
    (s : S) : Turn S :=
  let rem := (p.remLen ||| ((b &&& 0x7F).toNat <<< p.lenShift)) % 4294967296
  if b &&& 0x80 != 0 then
    if 21 ≤ p.lenShift then .leave (.failed .malformed) { p with remLen := rem } s
    else .next i { p with remLen := rem, lenShift := (p.lenShift + 7) % 256 } s
  else if maxBody < rem then .leave (.failed .oversize) { p with remLen := rem } s
  else if rem = 0 then answered (onPacket p.firstByte [] s) i { p with remLen := rem, state := .firstByte }
  else .next i { p with remLen := rem, state := .body } s

/-- The iteration of state `body`, after the copy of `take` bytes. -/
def bodyTurn (onPacket : UInt8 → Bytes → S → Bool × S) (i take : Nat) (p : FrameMemory) (s : S) (buf : Nat → UInt8) :
    Turn S :=
  let q : FrameMemory := { p with buf := buf, bodyLen := p.bodyLen + take }
  if q.bodyLen = q.remLen then answered (onPacket q.firstByte q.span s) (i + take) { q with state := .firstByte }
  else .next (i + take) q s

def turn (maxBody : Nat) (onPacket : UInt8 → Bytes → S → Bool × S) (data : Bytes) (i : Nat) (p : FrameMemory) (s : S) :
    Option (Turn S) :=
  match p.state with
  | .firstByte =>
    data[i]?.map (fun b =>
      .next (i + 1) { p with firstByte := b, remLen := 0, lenShift := 0, bodyLen := 0, state := .length } s)
  | .length => data[i]?.map (fun b => lengthTurn maxBody onPacket (i + 1) b p s)
  | .body =>
    if p.remLen < p.bodyLen then none
    else
      (copyLoop maxBody data (min (p.remLen - p.bodyLen) (data.length - i)) i p.bodyLen p.buf).map
        (bodyTurn onPacket i (min (p.remLen - p.bodyLen) (data.length - i)) p s)

/-- The loop of `feed`, which may take as many iterations as it is given fuel and has to get on with each. -/
def feedLoop (maxBody : Nat) (onPacket : UInt8 → Bytes → S → Bool × S) (data : Bytes) :
    Nat → Nat → FrameMemory → S → Option (Leave × FrameMemory × S)
  | fuel, i, p, s =>
    if i < data.length then
      match fuel with
      | 0 => none
      | n + 1 =>
        match turn maxBody onPacket data i p s with
        | none => none
        | some (.leave why q s') => some (why, q, s')
        | some (.next j q s') => if i < j then feedLoop maxBody onPacket data n j q s' else none
    else some (.dry, p, s)

/-- `feed`, with an iteration for each byte of the input. -/
def feed (maxBody : Nat) (onPacket : UInt8 → Bytes → S → Bool × S) (p : FrameMemory) (data : Bytes) (s : S) :
    Option (Leave × FrameMemory × S) := feedLoop maxBody onPacket data data.length 0 p s

/-! ## The list parser says what happens -/

/-- The parser as the list model has it. -/
def view (p : FrameMemory) : FrameParser := ⟨p.state, p.firstByte, p.remLen, p.lenShift, p.span⟩

/-- **What holds of the parser between two iterations**: a length is being read of whose digits all before `len_shift_`
are in, or a body that is not complete and fits in the buffer. -/
structure Sound (maxBody : Nat) (p : FrameMemory) : Prop where
  length : p.state = .length →
    p.bodyLen = 0 ∧ (p.lenShift = 0 ∨ p.lenShift = 7 ∨ p.lenShift = 14 ∨ p.lenShift = 21) ∧ p.remLen < 2 ^ p.lenShift
  body : p.state = .body → p.bodyLen < p.remLen ∧ p.remLen ≤ maxBody

theorem sound_firstByte (maxBody : Nat) (h : p.state = .firstByte) : p.Sound maxBody :=
  ⟨fun hl => by (rw [h] at hl; cases hl), fun hb => by (rw [h] at hb; cases hb)⟩

theorem map_range_set (buf : Nat → UInt8) (n : Nat) (b : UInt8) :
    (List.range (n + 1)).map (fun j => if j = n then b else buf j) = (List.range n).map buf ++ [b] := by
  rw [List.range_succ, List.map_append, List.map_singleton, if_pos rfl]
  congr 1
  refine List.map_congr_left (fun j hj => ?_)
  rw [if_neg (Nat.ne_of_lt (List.mem_range.1 hj))]

/-- **The copy stays in the buffer and in the input**, when there is room for it and there are the bytes. -/
theorem copyLoop_spec (maxBody : Nat) (data : Bytes) : ∀ (n i dst : Nat) (buf : Nat → UInt8), dst + n ≤ maxBody →
    i + n ≤ data.length → ∃ buf', copyLoop maxBody data n i dst buf = some buf' ∧
      (List.range (dst + n)).map buf' = (List.range dst).map buf ++ (data.drop i).take n
  | 0, i, dst, buf, _, _ => ⟨buf, rfl, by rw [List.take_zero, List.append_nil]; rfl⟩
  | n + 1, i, dst, buf, hroom, hdata => by
    have hi : i < data.length := by omega
    obtain ⟨buf', hcopy, hcells⟩ :=
      copyLoop_spec maxBody data n (i + 1) (dst + 1) (fun j => if j = dst then data[i] else buf j) (by omega) (by omega)
    refine ⟨buf', ?_, ?_⟩
    · rw [copyLoop, if_pos (by omega), List.getElem?_eq_getElem hi]
      exact hcopy
    · rw [show dst + (n + 1) = dst + 1 + n by omega, hcells, map_range_set, List.append_assoc,
        List.drop_eq_getElem_cons hi]
      rfl

section
variable (maxBody : Nat) (onPacket : UInt8 → Bytes → S → Bool × S) (data : Bytes)

/-- **An iteration that comes to `t` is fair**: it leaves the parser sound unless it fails, on a boundary when the
callback stops it, and gets on otherwise; and the list parser, from `r`, does the same. -/
def Turn.Fair (i n : Nat) (r : Err × FrameParser × S) : Turn S → Prop
  | .leave why q s' =>
    (why.err = .ok → q.Sound maxBody) ∧ (why = .stopped → q.state = .firstByte) ∧ r = (why.err, q.view, s')
  | .next j q s' =>
    i < j ∧ j ≤ data.length ∧ q.Sound maxBody ∧ r = FrameParser.feedLoop maxBody onPacket n q.view (data.drop j) s'

variable {maxBody}

theorem answered_fair {j : Nat} {q : FrameMemory} (hq : q.state = .firstByte) (hi : i < j) (hj : j ≤ data.length)
    (a : Bool × S) : (answered a j q).Fair maxBody onPacket data i n (if !a.1 then (.ok, q.view, a.2)
      else FrameParser.feedLoop maxBody onPacket n q.view (data.drop j) a.2) := by
  unfold answered
  split
  · exact ⟨fun _ => sound_firstByte maxBody hq, fun _ => hq, rfl⟩
  · exact ⟨hi, hj, sound_firstByte maxBody hq, rfl⟩

theorem feedLoop_length (n : Nat) (f : UInt8) (rem shift : Nat) (body : Bytes) (b : UInt8) (rest : Bytes) (s : S) :
    FrameParser.feedLoop maxBody onPacket (n + 1) ⟨.length, f, rem, shift, body⟩ (b :: rest) s =
      if b &&& 0x80 != 0 then
        if 21 ≤ shift then (.malformed, ⟨.length, f, rem ||| ((b &&& 0x7F).toNat <<< shift), shift, body⟩, s)
        else FrameParser.feedLoop maxBody onPacket n
          ⟨.length, f, rem ||| ((b &&& 0x7F).toNat <<< shift), shift + 7, body⟩ rest s
      else if maxBody < rem ||| ((b &&& 0x7F).toNat <<< shift) then
        (.oversize, ⟨.length, f, rem ||| ((b &&& 0x7F).toNat <<< shift), shift, body⟩, s)
      else if rem ||| ((b &&& 0x7F).toNat <<< shift) = 0 then
        if !(onPacket f [] s).1 then
          (.ok, ⟨.firstByte, f, rem ||| ((b &&& 0x7F).toNat <<< shift), shift, body⟩, (onPacket f [] s).2)
        else FrameParser.feedLoop maxBody onPacket n
          ⟨.firstByte, f, rem ||| ((b &&& 0x7F).toNat <<< shift), shift, body⟩ rest (onPacket f [] s).2
      else FrameParser.feedLoop maxBody onPacket n
        ⟨.body, f, rem ||| ((b &&& 0x7F).toNat <<< shift), shift, body⟩ rest s := rfl

theorem lengthTurn_fair (hp : p.Sound maxBody) (hst : p.state = .length) (hi : i < data.length) (s : S) :
    (lengthTurn maxBody onPacket (i + 1) data[i] p s).Fair maxBody onPacket data i n
      (FrameParser.feedLoop maxBody onPacket (n + 1) p.view (data[i] :: data.drop (i + 1)) s) := by
  obtain ⟨hzero, hshift, hrem⟩ := hp.length hst
  obtain ⟨st, f, rem, shift, len, buf⟩ := p
  cases hst
  simp only at hzero hshift hrem
  have hdigit := FrameParser.measured_digit
    (Nat.lt_of_lt_of_le hrem (Nat.pow_le_pow_right (by omega) (Nat.le_add_right shift 7))) data[i]
  have hword : 2 ^ (shift + 7) ≤ 2 ^ 32 := Nat.pow_le_pow_right (by omega) (by omega)
  -- the word does not overflow, nor does the shift
  have hrem' := Nat.mod_eq_of_lt (Nat.lt_of_lt_of_le hdigit hword)
  have hshift' : (shift + 7) % 256 = shift + 7 := Nat.mod_eq_of_lt (by omega)
  simp only [lengthTurn, view, feedLoop_length, Nat.reducePow] at hrem' ⊢
  rw [hrem', hshift']
  generalize rem ||| ((data[i] &&& 0x7F).toNat <<< shift) = value at hdigit ⊢
  split
  · split
    · exact ⟨nofun, nofun, rfl⟩
    · exact ⟨by omega, hi, ⟨fun _ => ⟨hzero, by simp only; omega, hdigit⟩, nofun⟩, rfl⟩
  split
  · exact ⟨nofun, nofun, rfl⟩
  rename_i hfits
  split
  · exact answered_fair onPacket data rfl (by omega) hi _
  · rename_i hpos
    exact ⟨by omega, hi, ⟨nofun, fun _ => ⟨by simp only [hzero]; omega, Nat.le_of_not_lt hfits⟩⟩, rfl⟩

theorem feedLoop_body (n : Nat) (f : UInt8) (rem shift : Nat) {body body' : Bytes} (b : UInt8) (rest : Bytes) (s : S)
    {take : Nat} (htake : take = min (rem - body.length) (b :: rest).length)
    (hbody : body' = body ++ (b :: rest).take take) :
    FrameParser.feedLoop maxBody onPacket (n + 1) ⟨.body, f, rem, shift, body⟩ (b :: rest) s =
      if body'.length = rem then
        if !(onPacket f body' s).1 then (.ok, ⟨.firstByte, f, rem, shift, body'⟩, (onPacket f body' s).2)
        else FrameParser.feedLoop maxBody onPacket n ⟨.firstByte, f, rem, shift, body'⟩ ((b :: rest).drop take)
          (onPacket f body' s).2
      else FrameParser.feedLoop maxBody onPacket n ⟨.body, f, rem, shift, body'⟩ ((b :: rest).drop take) s := by
  subst hbody htake
  rfl

theorem bodyTurn_fair (hp : p.Sound maxBody) (hst : p.state = .body) (hi : i < data.length) (s : S) {take : Nat}
    (htake : take = min (p.remLen - p.bodyLen) (data.length - i)) :
    ∃ buf, copyLoop maxBody data take i p.bodyLen p.buf = some buf ∧
      (bodyTurn onPacket i take p s buf).Fair maxBody onPacket data i n
        (FrameParser.feedLoop maxBody onPacket (n + 1) p.view (data[i] :: data.drop (i + 1)) s) := by
  obtain ⟨hmissing, hroom⟩ := hp.body hst
  obtain ⟨st, f, rem, shift, len, cells⟩ := p
  cases hst
  simp only at hmissing hroom htake
  obtain ⟨buf, hcopy, hcells⟩ := copyLoop_spec maxBody data take i len cells (by omega) (by omega)
  have hdrop := List.drop_eq_getElem_cons hi
  have htake' : take = min (rem - ((List.range len).map cells).length) (data[i] :: data.drop (i + 1)).length := by
    rw [← hdrop, List.length_map, List.length_range, List.length_drop, htake]
  have hlen : ((List.range (len + take)).map buf).length = len + take := by
    rw [List.length_map, List.length_range]
  refine ⟨buf, hcopy, ?_⟩
  rw [hdrop] at hcells
  simp only [view, span, bodyTurn, feedLoop_body onPacket n f rem shift data[i] (data.drop (i + 1)) s htake' hcells]
  rw [← hdrop, List.drop_drop, hlen]
  split
  · exact answered_fair onPacket data rfl (by omega) (by omega) _
  · exact ⟨by omega, by omega, ⟨nofun, fun _ => ⟨by simp only; omega, hroom⟩⟩, rfl⟩

/-- **One iteration**: it is defined, and fair. -/
theorem turn_fair (n : Nat) (hp : p.Sound maxBody) (hi : i < data.length) (s : S) :
    ∃ t, turn maxBody onPacket data i p s = some t ∧
      t.Fair maxBody onPacket data i n (FrameParser.feedLoop maxBody onPacket (n + 1) p.view (data.drop i) s) := by
  rw [List.drop_eq_getElem_cons hi]
  cases hst : p.state with
  | firstByte =>
    have hview : p.view.state = .firstByte := hst
    rw [turn, hst, List.getElem?_eq_getElem hi]
    refine ⟨_, rfl, by omega, hi, ⟨fun _ => ⟨rfl, .inl rfl, Nat.two_pow_pos _⟩, nofun⟩, ?_⟩
    simp only [FrameParser.feedLoop, hview]
    exact rfl
  | length =>
    rw [turn, hst, List.getElem?_eq_getElem hi]
    exact ⟨_, rfl, lengthTurn_fair onPacket data hp hst hi s⟩
  | body =>
    obtain ⟨buf, hcopy, hfair⟩ := bodyTurn_fair onPacket data (n := n) hp hst hi s rfl
    refine ⟨_, ?_, hfair⟩
    have hless := hp.body hst
    rw [turn, hst]
    simp only [if_neg (by omega : ¬ p.remLen < p.bodyLen), hcopy]
    exact rfl

/-- **The loop**, with an iteration for each byte that is left: it ends, and as the list parser's does. -/
theorem feedLoop_refines : ∀ (n i : Nat) (p : FrameMemory) (s : S), data.length ≤ i + n → p.Sound maxBody →
    ∃ why q s', feedLoop maxBody onPacket data n i p s = some (why, q, s') ∧ (why.err = .ok → q.Sound maxBody) ∧
      (why = .stopped → q.state = .firstByte) ∧
      FrameParser.feedLoop maxBody onPacket n p.view (data.drop i) s = (why.err, q.view, s') := by
  intro n
  induction n with
  | zero =>
    intro i p s hn hp
    refine ⟨.dry, p, s, ?_, fun _ => hp, nofun, ?_⟩
    · rw [feedLoop, if_neg (by omega)]
    · simp only [FrameParser.feedLoop]
      rfl
  | succ n ih =>
    intro i p s hn hp
    by_cases hi : i < data.length
    · obtain ⟨t, hturn, hfair⟩ := turn_fair onPacket data n hp hi s
      cases t with
      | leave why q s' =>
        refine ⟨why, q, s', ?_, hfair⟩
        rw [feedLoop, if_pos hi]
        simp only [hturn]
      | next j q s' =>
        obtain ⟨hij, -, hq, hlist⟩ := hfair
        obtain ⟨why, r, s'', hloop, hrest⟩ := ih j q s' (by omega) hq
        refine ⟨why, r, s'', ?_, hrest.1, hrest.2.1, hlist.trans hrest.2.2⟩
        rw [feedLoop, if_pos hi]
        simp only [hturn, if_pos hij, hloop]
    · refine ⟨.dry, p, s, ?_, fun _ => hp, nofun, ?_⟩
      · rw [feedLoop, if_neg hi]
      · rw [List.drop_eq_nil_of_le (by omega)]
        simp only [FrameParser.feedLoop]
        rfl

/-- **`feed` in memory is `feed` on lists.** -/
theorem feed_refines (hp : p.Sound maxBody) (s : S) :
    ∃ why q s', feed maxBody onPacket p data s = some (why, q, s') ∧ (why.err = .ok → q.Sound maxBody) ∧
      (why = .stopped → q.state = .firstByte) ∧
      FrameParser.feed maxBody onPacket p.view data s = (why.err, q.view, s') :=
  feedLoop_refines onPacket data data.length 0 p s (by omega) hp

end

/-! ## Any calls -/

/-- **A parser as calls leave it**: constructed or reset, then fed any number of times, none of which failed. -/
inductive Fed (maxBody : Nat) : FrameMemory → Prop
  | fresh (buf : Nat → UInt8) : Fed maxBody { buf := buf }
  | reset (p : FrameMemory) : Fed maxBody p.reset
  | feed {S : Type} {p q : FrameMemory} {s s' : S} {why : Leave} (onPacket : UInt8 → Bytes → S → Bool × S)
      (data : Bytes) :
      Fed maxBody p → feed maxBody onPacket p data s = some (why, q, s') → why.err = .ok → Fed maxBody q

theorem Fed.sound {maxBody : Nat} (h : Fed maxBody p) : p.Sound maxBody := by
  induction h with
  | fresh buf => exact sound_firstByte maxBody rfl
  | reset p => exact sound_firstByte maxBody rfl
  | @feed S p q s s' why onPacket data _ hfeed hok ih =>
    obtain ⟨why', q', t, hfeed', hsound, -, -⟩ := feed_refines onPacket data ih s
    rw [hfeed] at hfeed'
    cases hfeed'
    exact hsound hok

/-- What a caller sees of a call. -/
def outcome (r : Leave × FrameMemory × S) : Err × S := (r.1.err, r.2.2)

/-- On a packet boundary nothing is left of the packets before. -/
theorem feed_boundary {maxBody : Nat} {q : FrameMemory} (hp : p.state = .firstByte) (hq : q.state = .firstByte)
    (onPacket : UInt8 → Bytes → S → Bool × S) (data : Bytes) (s : S) :
    (feed maxBody onPacket p data s).map outcome = (feed maxBody onPacket q data s).map outcome := by
  obtain ⟨why, p', t, hfeed, -, -, hlist⟩ := feed_refines onPacket data (sound_firstByte maxBody hp) s
  obtain ⟨why', q', t', hfeed', -, -, hlist'⟩ := feed_refines onPacket data (sound_firstByte maxBody hq) s
  have hpv : p.view.state = .firstByte := hp
  have hqv : q.view.state = .firstByte := hq
  have hsame : FrameParser.outcome (FrameParser.feed maxBody onPacket p.view data s) =
      FrameParser.outcome (FrameParser.feed maxBody onPacket q.view data s) := by
    cases data with
    | nil => rfl
    | cons b data => simp only [FrameParser.feed, List.length_cons, FrameParser.feedLoop, hpv, hqv]
  rw [hlist, hlist'] at hsame
  rw [hfeed, hfeed', Option.map_some, Option.map_some]
  exact congrArg some hsame

/-- **`feed` is safe, and gets on**, whatever the calls before it and the bytes and the callback of this one: between
calls an unfinished body fits in the buffer and an unfinished length has at most three digits; no access is out of
bounds and every iteration consumes a byte, or there would be no result; and a callback that stops `feed` leaves the
parser on a packet boundary, where the next call does what a new parser would. -/
theorem feed_safe {maxBody : Nat} {p : FrameMemory} (h : Fed maxBody p) :
    (p.state = .body → p.bodyLen < p.remLen ∧ p.remLen ≤ maxBody) ∧
    (p.state = .length → (p.lenShift = 0 ∨ p.lenShift = 7 ∨ p.lenShift = 14 ∨ p.lenShift = 21) ∧
      p.remLen < 2 ^ p.lenShift) ∧
    ∀ (S : Type) (onPacket : UInt8 → Bytes → S → Bool × S) (data : Bytes) (s : S),
      ∃ why q s', feed maxBody onPacket p data s = some (why, q, s') ∧
        (why = .stopped → q.state = .firstByte ∧
          ∀ (S' : Type) (onPacket' : UInt8 → Bytes → S' → Bool × S') (data' : Bytes) (t : S') (buf : Nat → UInt8),
            (feed maxBody onPacket' q data' t).map outcome =
              (feed maxBody onPacket' { buf := buf } data' t).map outcome) := by
  refine ⟨h.sound.body, fun hl => (h.sound.length hl).2, fun S onPacket data s => ?_⟩
  obtain ⟨why, q, s', hfeed, -, hstop, -⟩ := feed_refines onPacket data h.sound s
  exact ⟨why, q, s', hfeed, fun hs => ⟨hstop hs, fun S' onPacket' data' t buf =>
    feed_boundary (hstop hs) rfl onPacket' data' t⟩⟩

/-- One byte of three has come. -/
def halfway : FrameMemory := ⟨.body, 0x30, 3, 0, 1, fun j => if j = 0 then 7 else 0⟩

theorem feed_safe_halfway : Fed 4 halfway ∧ (halfway.bodyLen < halfway.remLen ∧ halfway.remLen ≤ 4) ∧
    ∃ why q s', feed 4 (fun _ body n => (false, n + body.length)) halfway [8, 9, 0xC0, 0] 0 = some (why, q, s') ∧
      why = .stopped ∧ q.state = .firstByte ∧ s' = 3 := by
  have hfed : Fed 4 halfway :=
    @Fed.feed 4 Unit _ halfway () () .dry (fun _ _ s => (true, s)) [0x30, 3, 7] (.fresh (fun _ => 0)) rfl rfl
  obtain ⟨hbody, -, hnext⟩ := feed_safe hfed
  obtain ⟨why, q, s', hfeed, hstop⟩ := hnext Nat (fun _ body n => (false, n + body.length)) [8, 9, 0xC0, 0] 0
  have hwhy : why = .stopped ∧ s' = 3 := by
    have hrun : (feed 4 (fun _ body n => (false, n + body.length)) halfway [8, 9, 0xC0, 0] 0).map
        (fun r => (r.1, r.2.2)) = some (.stopped, 3) := by decide
    rw [hfeed] at hrun
    simpa using hrun
  exact ⟨hfed, hbody rfl, why, q, s', hfeed, hwhy.1, (hstop hwhy.1).1, hwhy.2⟩

end FrameMemory
end Minimosq
