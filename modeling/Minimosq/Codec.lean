import Minimosq.FrameChunks
/-!
# Packets, read back

What a receiver makes of a packet the broker hands to the transport: `readPacket` takes the frame off, `sentPublish` and
`sentPubrel` parse what is inside with the parsers of `packets.hpp`.  Each builder either does not fit or is read back
as what it was built from.
-/
namespace Minimosq

variable {p : PublishPacket} {f : UInt8} {b body payload topic : Bytes} {w : Writer} {cap id : Nat} {qos : QoS}
  {dup retain : Bool}

/-! ## Reading one packet -/

/-- One whole packet: its first byte and its body. -/
def readPacket : Bytes → Option (UInt8 × Bytes)
  | [] => none
  | f :: bs =>
    match readLength 4 1 bs with
    | .value len rest => if rest.length = len then some (f, rest) else none
    | _ => none

/-- The PUBLISH a packet is. -/
def sentPublish (pkt : Bytes) : Option PublishPacket :=
  match readPacket pkt with
  | none => none
  | some (f, body) => if packetType f = some .publish then (parsePublish f body).toOption else none

/-- The id of the PUBREL a packet is. -/
def sentPubrel (pkt : Bytes) : Option Nat :=
  match readPacket pkt with
  | none => none
  | some (f, body) => if packetType f = some .pubrel then (parsePacketIdOnly body).toOption else none

/-- The type in the first byte. -/
def headType (pkt : Bytes) : Option PacketType := pkt.head?.bind packetType

theorem headType_of_sentPublish {pkt : Bytes} (h : sentPublish pkt = some p) : headType pkt = some .publish := by
  cases pkt with
  | nil => cases h
  | cons f bs =>
    simp only [sentPublish, readPacket] at h
    split at h
    · cases h
    · rename_i f' body hread
      split at h
      · rename_i hf
        split at hread
        · split at hread
          · cases hread
            exact hf
          · cases hread
        · cases hread
      · cases h

theorem readPacket_framePacket (hb : body.length ≤ maxRemainingLength) :
    readPacket (framePacket f body) = some (f, body) := by
  have hread := readLength_digits 3 4 body.length 1 body (by omega) (by simp only [maxRemainingLength] at hb; omega)
  rw [framePacket_eq hb, readPacket, hread]
  simp

/-! ## Two-byte integers -/

/-- What `Writer::u16` writes. -/
def u16Bytes (v : Nat) : Bytes := [UInt8.ofNat (v >>> 8), UInt8.ofNat (v &&& 0xFF)]

theorem Reader.u16_u16Bytes {v : Nat} (hv : v < 65536) (rest : Bytes) :
    (Reader.make (u16Bytes v ++ rest)).u16 = (v, ⟨rest, true⟩) := by
  have hhi : (UInt8.ofNat (v >>> 8)).toNat = v / 256 := by
    rw [Nat.shiftRight_eq_div_pow, UInt8.toNat_ofNat']
    omega
  have hlo : (UInt8.ofNat (v &&& 0xFF)).toNat = v % 256 := by
    rw [Nat.and_two_pow_sub_one_eq_mod v 8, UInt8.toNat_ofNat']
    omega
  have hsum : ((v / 256) <<< 8) ||| (v % 256) = v := by
    rw [← Nat.shiftLeft_add_eq_or_of_lt (Nat.mod_lt v (by omega)), Nat.shiftLeft_eq]
    omega
  simp only [Reader.u16, Reader.make, u16Bytes, List.cons_append, List.nil_append, hhi, hlo, hsum]

theorem Reader.utf8_u16Bytes (hb : b.length ≤ maxUtf8Len) (rest : Bytes) :
    (Reader.make (u16Bytes b.length ++ (b ++ rest))).utf8 = (b, ⟨rest, true⟩) := by
  simp only [maxUtf8Len] at hb
  rw [Reader.utf8, Reader.lenPrefixedBytes, Reader.u16_u16Bytes (by omega)]
  simp [Reader.bytes]

/-! ## Writing -/

/-- **`w'` is `w` after writing `b`**: it is still good exactly when `b` fitted, and then holds it. -/
structure Writes (w w' : Writer) (b : Bytes) : Prop where
  cap : w'.cap = w.cap
  ok_iff : w'.ok = true ↔ w.ok = true ∧ w.buf.length + b.length ≤ w.cap
  buf : w'.ok = true → w'.buf = w.buf ++ b

namespace Writer

theorem writes_u8 (w : Writer) (v : UInt8) : Writes w (w.u8 v) [v] := by
  unfold Writer.u8
  split
  · rename_i h
    simp only [Bool.or_eq_true, Bool.not_eq_true', decide_eq_true_eq] at h
    exact ⟨rfl, by simp only [Writer.fail, List.length_singleton]; grind, by simp [Writer.fail]⟩
  · rename_i h
    simp only [Bool.or_eq_true, Bool.not_eq_true', decide_eq_true_eq, not_or] at h
    exact ⟨rfl, by simp only [List.length_singleton]; grind, fun _ => rfl⟩

theorem writes_u16 (w : Writer) (v : Nat) : Writes w (w.u16 v) (u16Bytes v) := by
  unfold Writer.u16
  split
  · rename_i h
    simp only [Bool.or_eq_true, Bool.not_eq_true', decide_eq_true_eq] at h
    exact ⟨rfl, by simp only [Writer.fail, u16Bytes, List.length_cons, List.length_nil]; grind, by simp [Writer.fail]⟩
  · rename_i h
    simp only [Bool.or_eq_true, Bool.not_eq_true', decide_eq_true_eq, not_or] at h
    exact ⟨rfl, by simp only [u16Bytes, List.length_cons, List.length_nil]; grind, fun _ => rfl⟩

theorem writes_bytes (hw : w.ok = true → w.buf.length ≤ w.cap) (b : Bytes) : Writes w (w.bytes b) b := by
  unfold Writer.bytes
  split
  · rename_i h
    simp only [Bool.or_eq_true, Bool.not_eq_true', decide_eq_true_eq] at h
    exact ⟨rfl, by simp only [Writer.fail]; grind, by simp [Writer.fail]⟩
  · rename_i h
    simp only [Bool.or_eq_true, Bool.not_eq_true', decide_eq_true_eq, not_or] at h
    exact ⟨rfl, by grind, fun _ => rfl⟩

end Writer

theorem Writes.trans {w' w'' : Writer} {a : Bytes} (h₁ : Writes w w' a) (h₂ : Writes w' w'' b) :
    Writes w w'' (a ++ b) where
  cap := h₂.cap.trans h₁.cap
  ok_iff := by
    rw [h₂.ok_iff, List.length_append]
    constructor
    · rintro ⟨hok, hle⟩
      rw [h₁.buf hok, h₁.cap, List.length_append] at hle
      exact ⟨(h₁.ok_iff.1 hok).1, by omega⟩
    · rintro ⟨hok, hle⟩
      have hok' := h₁.ok_iff.2 ⟨hok, by omega⟩
      refine ⟨hok', ?_⟩
      rw [h₁.buf hok', h₁.cap, List.length_append]
      omega
  buf := fun hok => by rw [h₂.buf hok, h₁.buf (h₂.ok_iff.1 hok).1, List.append_assoc]

theorem Writes.le {w' : Writer} (h : Writes w w' b) (hok : w'.ok = true) : w'.buf.length ≤ w'.cap := by
  rw [h.buf hok, h.cap, List.length_append]
  exact (h.ok_iff.1 hok).2

theorem Writer.writes_utf8 (w : Writer) {s : Bytes} (hs : s.length ≤ maxUtf8Len) :
    Writes w (w.utf8 s) (u16Bytes s.length ++ s) := by
  have h := w.writes_u16 s.length
  rw [Writer.utf8, if_neg (Nat.not_lt.2 hs)]
  exact h.trans (Writer.writes_bytes h.le s)

/-! ## PUBLISH -/

/-- The id field of a PUBLISH. -/
def idField (qos : QoS) (id : Nat) : Bytes := if qos = .atMostOnce then [] else u16Bytes id

/-- The body of a PUBLISH. -/
def publishBody (topic payload : Bytes) (qos : QoS) (id : Nat) : Bytes :=
  u16Bytes topic.length ++ topic ++ idField qos id ++ payload

/-- A PUBLISH of this topic and payload fits a buffer of `cap` bytes and a Remaining Length. -/
def PublishFits (cap : Nat) (topic payload : Bytes) (qos : QoS) : Prop :=
  packetOverhead ≤ cap ∧ topic.length ≤ maxUtf8Len ∧
    (publishBody topic payload qos 0).length ≤ min (cap - packetOverhead) maxRemainingLength

theorem length_publishBody (topic payload : Bytes) (qos : QoS) (id : Nat) :
    (publishBody topic payload qos id).length = (publishBody topic payload qos 0).length := by
  simp only [publishBody, idField, List.length_append]
  split <;> rfl

/-- **`build_publish` frames the body when it fits, and nothing otherwise**, whatever the id and the flags. -/
theorem buildPublish_eq (cap : Nat) (topic payload : Bytes) (qos : QoS) (retain dup : Bool) (id : Nat) :
    PublishFits cap topic payload qos ∧ buildPublish cap topic payload qos retain dup id =
        framePacket (makeFirstByte .publish (publishFlags qos retain dup)) (publishBody topic payload qos id) ∨
    ¬ PublishFits cap topic payload qos ∧ buildPublish cap topic payload qos retain dup id = [] := by
  unfold PublishFits buildPublish
  by_cases hcap : cap < packetOverhead
  · exact .inr ⟨by omega, if_pos hcap⟩
  · rw [if_neg hcap]
    simp only
    generalize hw : (Writer.make (cap - packetOverhead)).utf8 topic = w₁
    by_cases htopic : topic.length ≤ maxUtf8Len
    · have h₁ : Writes _ w₁ _ := hw ▸ Writer.writes_utf8 _ htopic
      have h₂ : Writes (Writer.make (cap - packetOverhead)) (if (qos != .atMostOnce) = true then w₁.u16 id else w₁)
          (u16Bytes topic.length ++ topic ++ idField qos id) := by
        by_cases hq : qos = .atMostOnce
        · simpa [idField, hq] using h₁
        · simpa [idField, hq] using h₁.trans (w₁.writes_u16 id)
      have h₃ := h₂.trans (Writer.writes_bytes h₂.le payload)
      rw [← publishBody] at h₃
      generalize ((if (qos != .atMostOnce) = true then w₁.u16 id else w₁).bytes payload) = w₃ at h₃ ⊢
      have hok := h₃.ok_iff
      rw [length_publishBody] at hok
      simp only [Writer.make, List.length_nil, Nat.zero_add, true_and] at hok
      by_cases hfit : (publishBody topic payload qos 0).length ≤ cap - packetOverhead
      · have hbuf := h₃.buf (hok.2 hfit)
        simp only [Writer.make, List.nil_append] at hbuf
        simp only [hok.2 hfit, Bool.not_true, Bool.false_eq_true, if_false, hbuf]
        by_cases hmax : (publishBody topic payload qos 0).length ≤ maxRemainingLength
        · exact .inl ⟨⟨by omega, htopic, by omega⟩, trivial⟩
        · refine .inr ⟨by omega, ?_⟩
          rw [framePacket, if_pos (by rw [length_publishBody]; omega)]
      · have hbad : w₃.ok = false := by
          cases h : w₃.ok with
          | false => rfl
          | true => exact absurd (hok.1 h) hfit
        exact .inr ⟨by omega, by simp [hbad]⟩
    · have hbad : w₁.ok = false := by rw [← hw, Writer.utf8, if_pos (Nat.not_le.1 htopic)]; rfl
      refine .inr ⟨by omega, ?_⟩
      by_cases hq : qos = .atMostOnce
      · simp [hq, Writer.bytes, hbad, Writer.fail]
      · simp [hq, Writer.bytes, Writer.u16, hbad, Writer.fail]

theorem buildPublish_ne_nil_iff :
    buildPublish cap topic payload qos retain dup id ≠ [] ↔ PublishFits cap topic payload qos := by
  rcases buildPublish_eq cap topic payload qos retain dup id with ⟨hfit, he⟩ | ⟨hfit, he⟩
  · have hlen : (publishBody topic payload qos id).length ≤ maxRemainingLength := by
      rw [length_publishBody]; exact (Nat.le_min.1 hfit.2.2).2
    rw [he, framePacket_eq hlen]
    simp [hfit]
  · simp [hfit, he]

theorem publish_first_byte (qos : QoS) (retain dup : Bool) :
    let f := makeFirstByte .publish (publishFlags qos retain dup)
    packetType f = some .publish ∧ ((packetFlags f &&& 0x06) >>> 1).toNat = qos.toNat ∧
      (packetFlags f &&& 0x08 != 0) = dup ∧ (packetFlags f &&& 0x01 != 0) = retain := by
  cases qos <;> cases retain <;> cases dup <;> decide

theorem parsePublish_publishBody (htopic : topic.length ≤ maxUtf8Len) (hid : id < 65536) :
    parsePublish (makeFirstByte .publish (publishFlags qos retain dup)) (publishBody topic payload qos id) =
      if (qos = .atMostOnce ∧ dup = true) ∨ (qos ≠ .atMostOnce ∧ id = 0) then .error .malformed
      else .ok ⟨topic, payload, if qos = .atMostOnce then 0 else id, qos, retain, dup⟩ := by
  obtain ⟨-, hqos, hdup, hretain⟩ := publish_first_byte qos retain dup
  have hraw : qosOfRaw qos.toNat = qos := by cases qos <;> rfl
  simp only [parsePublish, hqos, hdup, hretain, hraw]
  have hread := Reader.utf8_u16Bytes htopic (idField qos id ++ payload)
  rw [publishBody, List.append_assoc, List.append_assoc, hread]
  cases qos with
  | atMostOnce => cases dup <;> simp [QoS.toNat, idField, Reader.takeRest]
  | atLeastOnce =>
    have hu16 := Reader.u16_u16Bytes hid payload
    simp only [Reader.make] at hu16
    simp [QoS.toNat, idField, hu16, Reader.takeRest]
  | exactlyOnce =>
    have hu16 := Reader.u16_u16Bytes hid payload
    simp only [Reader.make] at hu16
    simp [QoS.toNat, idField, hu16, Reader.takeRest]

/-- What `build_publish` frames is parsed as it stands. -/
theorem sentPublish_eq (hfit : PublishFits cap topic payload qos) (hid : id < 65536) :
    sentPublish (buildPublish cap topic payload qos retain dup id) =
      if (qos = .atMostOnce ∧ dup = true) ∨ (qos ≠ .atMostOnce ∧ id = 0) then none
      else some ⟨topic, payload, if qos = .atMostOnce then 0 else id, qos, retain, dup⟩ := by
  rcases buildPublish_eq cap topic payload qos retain dup id with ⟨-, he⟩ | ⟨hno, -⟩
  · have hlen : (publishBody topic payload qos id).length ≤ maxRemainingLength := by
      rw [length_publishBody]; exact (Nat.le_min.1 hfit.2.2).2
    rw [he, sentPublish, readPacket_framePacket hlen]
    simp only [(publish_first_byte qos retain dup).1, if_true, parsePublish_publishBody hfit.2.1 hid]
    split <;> rfl
  · exact absurd hfit hno

/-- **A PUBLISH with an id is read back as it was built.** -/
theorem sentPublish_queued (hfit : PublishFits cap topic payload qos) (hqos : qos ≠ .atMostOnce) (h0 : id ≠ 0)
    (hid : id < 65536) :
    sentPublish (buildPublish cap topic payload qos retain dup id) = some ⟨topic, payload, id, qos, retain, dup⟩ := by
  rw [sentPublish_eq hfit hid]
  simp [hqos, h0]

/-! ### What a parsed PUBLISH took of its body -/

theorem u16Bytes_or (b₀ b₁ : UInt8) : u16Bytes ((b₀.toNat <<< 8) ||| b₁.toNat) = [b₀, b₁] := by
  have h₀ : b₀.toNat < 256 := b₀.toNat_lt
  have h₁ : b₁.toNat < 256 := b₁.toNat_lt
  have hsum : (b₀.toNat <<< 8) ||| b₁.toNat = b₀.toNat * 256 + b₁.toNat := by
    rw [← Nat.shiftLeft_add_eq_or_of_lt (i := 8) h₁, Nat.shiftLeft_eq]
  have hhi : (b₀.toNat * 256 + b₁.toNat) >>> 8 = b₀.toNat := by
    rw [Nat.shiftRight_eq_div_pow]
    omega
  have hlo : (b₀.toNat * 256 + b₁.toNat) &&& 0xFF = b₁.toNat := by
    rw [Nat.and_two_pow_sub_one_eq_mod _ 8]
    omega
  rw [hsum, u16Bytes, hhi, hlo, UInt8.ofNat_toNat, UInt8.ofNat_toNat]

theorem or_lt_65536 (b₀ b₁ : UInt8) : (b₀.toNat <<< 8) ||| b₁.toNat < 65536 := by
  have h₀ : b₀.toNat < 256 := b₀.toNat_lt
  have h₁ : b₁.toNat < 256 := b₁.toNat_lt
  rw [← Nat.shiftLeft_add_eq_or_of_lt (i := 8) h₁, Nat.shiftLeft_eq]
  omega

theorem Reader.u16_took {r : Reader} (h : r.u16.2.ok = true) :
    r.ok = true ∧ r.rest = u16Bytes r.u16.1 ++ r.u16.2.rest ∧ r.u16.1 < 65536 := by
  unfold Reader.u16 at h ⊢
  split at h
  · rename_i hok hrest
    exact ⟨hok, by rw [hrest, u16Bytes_or]; rfl, or_lt_65536 _ _⟩
  · cases h

theorem Reader.utf8_took {r : Reader} (h : r.utf8.2.ok = true) :
    r.rest = u16Bytes r.utf8.1.length ++ r.utf8.1 ++ r.utf8.2.rest ∧ r.utf8.1.length ≤ maxUtf8Len := by
  unfold Reader.utf8 Reader.lenPrefixedBytes at h ⊢
  split at h
  · rename_i hbad
    rw [h] at hbad
    cases hbad
  · rename_i hok
    rw [if_neg hok]
    obtain ⟨-, hrest, hlt⟩ := Reader.u16_took (by simpa using hok)
    unfold Reader.bytes at h ⊢
    split at h
    · cases h
    · rename_i hfit
      rw [if_neg hfit]
      simp only [Bool.or_eq_true, decide_eq_true_eq, not_or, Nat.not_lt] at hfit
      have hlen : (r.u16.2.rest.take r.u16.1).length = r.u16.1 := List.length_take_of_le hfit.2
      simp only [hlen, List.append_assoc, List.take_append_drop]
      exact ⟨hrest, Nat.le_of_lt_succ hlt⟩

theorem qosOfRaw_atMostOnce : ∀ n ≤ 2, qosOfRaw n = .atMostOnce ↔ n = 0 := by decide

/-- **A parsed PUBLISH is its body**: written out again, field by field, it is what was parsed. -/
theorem body_of_parsePublish (h : parsePublish f body = .ok p) :
    publishBody p.topic p.payload p.qos p.packetId = body ∧ p.topic.length ≤ maxUtf8Len ∧ p.packetId < 65536 := by
  simp only [parsePublish] at h
  generalize ((packetFlags f &&& 0x06) >>> 1).toNat = raw at h
  split at h
  · cases h
  rename_i hraw
  have hraw : raw ≤ 2 := by simpa using hraw
  split at h
  · cases h
  by_cases hzero : raw = 0
  · simp only [hzero, bne_self_eq_false, Bool.false_eq_true, if_false, Bool.false_and] at h
    split at h
    · cases h
    rename_i hok
    have hok : (Reader.make body).utf8.2.ok = true := by simpa using hok
    obtain ⟨htook, hlen⟩ := Reader.utf8_took hok
    cases h
    refine ⟨?_, hlen, Nat.zero_lt_succ _⟩
    simp only [publishBody, idField, (qosOfRaw_atMostOnce 0 (by decide)).2 rfl, if_true, Reader.takeRest, hok,
      Bool.not_true, Bool.false_eq_true, if_false, List.append_nil]
    exact htook.symm
  · have hne : (raw != 0) = true := by simpa using hzero
    simp only [hne, if_true, Bool.true_and] at h
    split at h
    · cases h
    rename_i hok
    have hok : (Reader.make body).utf8.2.u16.2.ok = true := by simpa using hok
    obtain ⟨hok', hid, hlt⟩ := Reader.u16_took hok
    obtain ⟨htook, hlen⟩ := Reader.utf8_took hok'
    split at h
    · cases h
    cases h
    refine ⟨?_, hlen, hlt⟩
    simp only [publishBody, idField, (qosOfRaw_atMostOnce raw hraw).not.2 hzero, if_false, Reader.takeRest, hok,
      Bool.not_true, Bool.false_eq_true]
    rw [List.append_assoc, ← hid]
    exact htook.symm

theorem length_of_parsePublish (h : parsePublish f body = .ok p) :
    (publishBody p.topic p.payload p.qos 0).length = body.length := by
  rw [← length_publishBody _ _ _ p.packetId, (body_of_parsePublish h).1]

/-! ### There and back -/

/-- The first byte a parsed PUBLISH came with is the one it is built with. -/
theorem first_byte_of_parsePublish (hf : packetType f = some .publish) (h : parsePublish f body = .ok p) :
    makeFirstByte .publish (publishFlags p.qos p.retain p.dup) = f := by
  have hbyte : ∀ n < 256, packetType (UInt8.ofNat n) = some .publish →
      let flags := packetFlags (UInt8.ofNat n)
      ((flags &&& 0x06) >>> 1).toNat ≤ 2 →
      makeFirstByte .publish (publishFlags (qosOfRaw ((flags &&& 0x06) >>> 1).toNat) (flags &&& 0x01 != 0)
        (flags &&& 0x08 != 0)) = UInt8.ofNat n := by decide +kernel
  have hthis := hbyte f.toNat f.toNat_lt
  rw [UInt8.ofNat_toNat] at hthis
  simp only [parsePublish] at h
  split at h
  · cases h
  rename_i hraw
  have heq := hthis hf (by simpa using hraw)
  split at h
  · cases h
  generalize (if (((packetFlags f &&& 0x06) >>> 1).toNat != 0) = true then (Reader.make body).utf8.2.u16
    else (0, (Reader.make body).utf8.2)) = id at h
  split at h
  · cases h
  split at h
  · cases h
  · cases h
    exact heq

/-- What a fresh parser makes of a stream that comes in chunks: its result, and the packets in order. -/
def FrameParser.delivered (maxBody : Nat) (chunks : List Bytes) : Err × List (UInt8 × Bytes) :=
  outcome (feedChunks maxBody (always fun f body pkts => pkts ++ [(f, body)]) {} chunks [])

theorem FrameParser.delivered_framePacket {maxBody : Nat} {chunks : List Bytes}
    (hb : body.length ≤ maxRemainingLength) (hmax : body.length ≤ maxBody)
    (hchunks : chunks.flatten = framePacket f body) : delivered maxBody chunks = (.ok, [(f, body)]) := by
  have hone : framed [(f, body)] = chunks.flatten := by simp [framed, hchunks]
  exact feedChunks_framed maxBody _ _ (by simpa using ⟨hmax, hb⟩) hone.symm

theorem length_publishBody_eq (topic payload : Bytes) (qos : QoS) (id : Nat) :
    (publishBody topic payload qos id).length =
    2 + topic.length + (if qos = .atMostOnce then 0 else 2) + payload.length := by
  simp only [publishBody, idField, List.length_append]
  split <;> rfl

/-- **A PUBLISH goes there and back.**  What `build_publish` is given, it frames exactly if there is room, and a parser
that takes bodies of that length delivers it, however the stream is cut, as one packet that `parse_publish` reads with
the fields it was built from.  What `parse_publish` accepts is built again as the first byte and the body it came from.
-/
theorem publish_there_and_back :
    (∀ (topic payload : Bytes) (qos : QoS) (retain dup : Bool) (id cap : Nat), topic.length ≤ 65535 → id < 65536 →
      (qos = .atMostOnce → dup = false) → (qos ≠ .atMostOnce → id ≠ 0) →
      let len := 2 + topic.length + (if qos = .atMostOnce then 0 else 2) + payload.length
      let pkt := buildPublish cap topic payload qos retain dup id
      (pkt ≠ [] ↔ packetOverhead + len ≤ cap ∧ len ≤ 268435455) ∧
      (pkt ≠ [] → ∀ maxBody chunks, len ≤ maxBody → chunks.flatten = pkt →
        ∃ f body p, FrameParser.delivered maxBody chunks = (.ok, [(f, body)]) ∧ packetType f = some .publish ∧
          parsePublish f body = .ok p ∧ p.topic = topic ∧ p.payload = payload ∧ p.qos = qos ∧ p.retain = retain ∧
          p.dup = dup ∧ (qos ≠ .atMostOnce → p.packetId = id))) ∧
    (∀ (f : UInt8) (body : Bytes) (p : PublishPacket), packetType f = some .publish → body.length ≤ 268435455 →
      parsePublish f body = .ok p → ∀ cap, packetOverhead + body.length ≤ cap →
      let pkt := buildPublish cap p.topic p.payload p.qos p.retain p.dup p.packetId
      pkt ≠ [] ∧ ∀ maxBody chunks, body.length ≤ maxBody → chunks.flatten = pkt →
        FrameParser.delivered maxBody chunks = (.ok, [(f, body)])) := by
  constructor
  · intro topic payload qos retain dup id cap htopic hid hdup hzero len pkt
    have hlen : (publishBody topic payload qos id).length = len := length_publishBody_eq ..
    have hfits : PublishFits cap topic payload qos ↔ packetOverhead + len ≤ cap ∧ len ≤ 268435455 := by
      unfold PublishFits
      rw [← length_publishBody topic payload qos id, hlen, maxUtf8Len, maxRemainingLength]
      omega
    refine ⟨buildPublish_ne_nil_iff.trans hfits, fun hne maxBody chunks hmax hchunks => ?_⟩
    have hfit := buildPublish_ne_nil_iff.1 hne
    have hpkt := (buildPublish_eq cap topic payload qos retain dup id).resolve_right (fun h => h.1 hfit)
    have hparse : parsePublish (makeFirstByte .publish (publishFlags qos retain dup))
        (publishBody topic payload qos id) = _ :=
      parsePublish_publishBody htopic hid
    rw [if_neg (by rintro (⟨h, hd⟩ | ⟨h, h0⟩) <;> simp_all)] at hparse
    refine ⟨_, _, _, FrameParser.delivered_framePacket (by rw [hlen]; exact (hfits.1 hfit).2) (by rw [hlen]; exact hmax)
      (hchunks.trans hpkt.2), (publish_first_byte qos retain dup).1, hparse, rfl, rfl, rfl, rfl, rfl, fun h => if_neg h⟩
  · intro f body p hf hlen hp cap hcap pkt
    obtain ⟨hbody, htopic, -⟩ := body_of_parsePublish hp
    have hfit : PublishFits cap p.topic p.payload p.qos := by
      unfold PublishFits
      rw [length_of_parsePublish hp, maxRemainingLength]
      exact ⟨by omega, htopic, by omega⟩
    have hpkt := (buildPublish_eq cap p.topic p.payload p.qos p.retain p.dup p.packetId).resolve_right
        (fun h => h.1 hfit)
    rw [hbody, first_byte_of_parsePublish hf hp] at hpkt
    exact ⟨buildPublish_ne_nil_iff.2 hfit,
      fun maxBody chunks hmax hchunks => FrameParser.delivered_framePacket hlen hmax (hchunks.trans hpkt.2)⟩

/-- A QoS 1 PUBLISH, cut inside its header and inside its packet id. -/
theorem publish_there_and_back_qos1 :
    ∃ f body p, FrameParser.delivered 6 [[0x32], [6, 0, 1, 97, 0], [7, 1]] = (.ok, [(f, body)]) ∧
      packetType f = some .publish ∧ parsePublish f body = .ok p ∧ p.topic = [97] ∧ p.payload = [1] ∧
      p.qos = .atLeastOnce ∧ p.retain = false ∧ p.dup = false ∧ (QoS.atLeastOnce ≠ .atMostOnce → p.packetId = 7) :=
  (publish_there_and_back.1 [97] [1] .atLeastOnce false false 7 64 (by decide) (by decide) (by decide) (by decide)).2
    (by decide) 6 _ (by decide) (by decide)

/-! ## The packets that are an id -/

theorem buildPacketIdOnly_eq (hcap : packetOverhead + 2 ≤ cap) (type : PacketType) (id : Nat) :
    buildPacketIdOnly cap type id =
      framePacket (makeFirstByte type (if type == .pubrel then 0x02 else 0x00)) (u16Bytes id) := by
  have h := (Writer.make (cap - packetOverhead)).writes_u16 id
  have hok := h.ok_iff.2 ⟨rfl, by simp [Writer.make, u16Bytes]; omega⟩
  rw [buildPacketIdOnly, if_neg (Nat.not_lt.2 hcap)]
  simp only [hok, Bool.not_true, Bool.false_eq_true, if_false]
  rw [h.buf hok]
  rfl

theorem buildPacketIdOnly_ne_nil (hcap : packetOverhead + 2 ≤ cap) (type : PacketType) (id : Nat) :
    buildPacketIdOnly cap type id ≠ [] := by
  rw [buildPacketIdOnly_eq hcap, framePacket_eq (by simp [u16Bytes, maxRemainingLength])]
  exact List.cons_ne_nil _ _

theorem sentPubrel_buildPacketIdOnly (hcap : packetOverhead + 2 ≤ cap) (h0 : id ≠ 0) (hid : id < 65536) :
    sentPubrel (buildPacketIdOnly cap .pubrel id) = some id := by
  have hu16 := Reader.u16_u16Bytes hid []
  rw [List.append_nil] at hu16
  have hf : packetType (makeFirstByte .pubrel (if PacketType.pubrel == .pubrel then 0x02 else 0x00)) =
      some .pubrel := by
    decide
  rw [buildPacketIdOnly_eq hcap, sentPubrel, readPacket_framePacket (by simp [u16Bytes, maxRemainingLength])]
  simp only [hf, if_true, parsePacketIdOnly, hu16]
  simp [Reader.atEnd, h0, Except.toOption]

/-! ## One packet -/

/-- **The span is the framing of one packet of type `t`**, for a buffer of `cap` bytes. -/
def IsPacket (cap : Nat) (t : PacketType) (pkt : Bytes) : Prop :=
  ∃ f body, packetType f = some t ∧ pkt = framePacket f body ∧ body.length + packetOverhead ≤ cap ∧
    body.length ≤ maxRemainingLength

section
variable {cap : Nat} {t : PacketType} {pkt : Bytes}

theorem IsPacket.ne_nil (h : IsPacket cap t pkt) : pkt ≠ [] := by
  obtain ⟨f, body, -, rfl, -, hmax⟩ := h
  rw [framePacket_eq hmax]
  exact List.cons_ne_nil _ _

theorem IsPacket.headType (h : IsPacket cap t pkt) : headType pkt = some t := by
  obtain ⟨f, body, ht, rfl, -, hmax⟩ := h
  rw [framePacket_eq hmax]
  exact ht

theorem varintSize_le (v : Nat) : varintSize v ≤ 4 := by
  unfold varintSize
  repeat' split
  all_goals omega

theorem IsPacket.length_le (h : IsPacket cap t pkt) : pkt.length ≤ cap := by
  obtain ⟨f, body, -, rfl, hcap, hmax⟩ := h
  have hv := varintSize_le body.length
  rw [framePacket_eq hmax, List.length_cons, List.length_append, length_digits hmax]
  simp only [packetOverhead] at hcap
  omega

/-- The reference decoder reads one packet, with nothing left over. -/
theorem IsPacket.decode (h : IsPacket cap t pkt) : ∃ f body, packetType f = some t ∧ readPacket pkt = some (f, body) ∧
      decodeStream maxRemainingLength pkt = ([(f, body)], .ok) := by
  obtain ⟨f, body, ht, rfl, -, hmax⟩ := h
  refine ⟨f, body, ht, readPacket_framePacket hmax, ?_⟩
  have hone : framed [(f, body)] = framePacket f body := by simp [framed]
  have hdec : decodeLoop maxRemainingLength (framed [(f, body)]).length (framed [(f, body)]) = ([(f, body)], .ok) :=
    decodeLoop_framed [(f, body)] _ (by simpa using hmax) (Nat.le_refl _)
  rwa [hone] at hdec

theorem buildPublish_isPacket (h : buildPublish cap topic payload qos retain dup id ≠ []) :
    IsPacket cap .publish (buildPublish cap topic payload qos retain dup id) := by
  rcases buildPublish_eq cap topic payload qos retain dup id with ⟨⟨hcap, -, hlen⟩, he⟩ | ⟨-, he⟩
  · rw [← length_publishBody topic payload qos id] at hlen
    exact ⟨_, _, (publish_first_byte qos retain dup).1, he, by omega, by omega⟩
  · exact absurd he h

/-- A body the buffer holds is framed, unless it is too long for a Remaining Length. -/
theorem framePacket_isPacket (ht : packetType f = some t) (hcap : body.length + packetOverhead ≤ cap) :
    IsPacket cap t (framePacket f body) ∨ framePacket f body = [] ∧ maxRemainingLength < cap - packetOverhead := by
  by_cases hmax : body.length ≤ maxRemainingLength
  · exact .inl ⟨f, body, ht, rfl, hcap, hmax⟩
  · exact .inr ⟨if_pos (Nat.not_le.1 hmax), by omega⟩

theorem buildPacketIdOnly_isPacket (hcap : packetOverhead + 2 ≤ cap) (type : PacketType) (id : Nat) :
    IsPacket cap type (buildPacketIdOnly cap type id) := by
  refine ⟨_, _, ?_, buildPacketIdOnly_eq hcap type id, ?_, by simp [u16Bytes, maxRemainingLength]⟩
  · cases type <;> decide
  · simp only [u16Bytes, List.length_cons, List.length_nil]
    omega

theorem headType_buildPacketIdOnly (hcap : packetOverhead + 2 ≤ cap) (type : PacketType) (id : Nat) :
    Minimosq.headType (buildPacketIdOnly cap type id) = some type := (buildPacketIdOnly_isPacket hcap type id).headType

theorem buildConnack_isPacket (hcap : packetOverhead + 2 ≤ cap) (present : Bool) (code : ConnackCode) :
    IsPacket cap .connack (buildConnack cap present code) := by
  have hcap' : 2 ≤ cap - packetOverhead := by omega
  refine ⟨makeFirstByte .connack 0, [if present then 0x01 else 0x00, code.code], by decide, ?_, ?_,
    by simp [maxRemainingLength]⟩
  · rw [buildConnack, if_neg (Nat.not_lt.2 hcap)]
    have h₁ : ¬ (cap - packetOverhead = 0) := by omega
    have h₂ : ¬ (cap - packetOverhead < 2) := by omega
    simp [Writer.make, Writer.u8, h₁, h₂]
  · simp only [List.length_cons, List.length_nil]
    omega

theorem buildPingresp_isPacket (hcap : packetOverhead + 2 ≤ cap) : IsPacket cap .pingresp (buildPingresp cap) := by
  refine ⟨makeFirstByte .pingresp 0, [], by decide, ?_, by simp; omega, by simp⟩
  rw [buildPingresp, if_neg (by simp only [packetOverhead] at hcap; omega)]
  decide

end

end Minimosq
