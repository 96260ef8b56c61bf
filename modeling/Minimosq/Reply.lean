import Minimosq.Arrival
import Minimosq.Bed
import Minimosq.Episode
import Minimosq.Upkeep
/-!
# Every packet gets its answer

PUBACK, PUBREC, PUBCOMP, SUBACK, UNSUBACK and PINGRESP are the packets that answer a client's.  Which answer a packet
calls for is read off its bytes (`required`), and what was answered is read off the bytes the transport accepted
(`responseOf`).  A handler sends the answer called for, once, or marks the connection dead (`Replies`); nothing else the
broker does is an answer, whatever it sends on whichever connection.
-/
namespace Minimosq

open History (pieces Star)

variable {Ctx : Type} {P : Params Ctx}
variable {id : Nat} {t : PacketType} {body : Bytes}

/-! ## Answers on the wire -/

def PacketType.responds : PacketType → Bool
  | .puback | .pubrec | .pubcomp | .suback | .unsuback | .pingresp => true
  | _ => false

/-- The type of an answer, and the packet id it carries if it has one. -/
abbrev Response := PacketType × Option Nat

/-- The packet id a body begins with. -/
def headId (body : Bytes) : Option Nat :=
  if (Reader.make body).u16.2.ok then some (Reader.make body).u16.1 else none

/-- The answer a packet is. -/
def responseOf (pkt : Bytes) : Option Response :=
  (headType pkt).bind fun t =>
    if t.responds then some (t, (readPacket pkt).bind fun r => headId r.2) else none

/-- The acknowledgement a PUBLISH calls for. -/
def acknowledgement (p : PublishPacket) : Option Response :=
  match p.qos with
  | .atMostOnce => none
  | .atLeastOnce => some (.puback, some p.packetId)
  | .exactlyOnce => some (.pubrec, some p.packetId)

/-- The answer a list of topics calls for, when all of it is valid. -/
def listResponse (type : PacketType) (r : List (Bytes × QoS) × TopicListParser) : Option Response :=
  if r.1.any (fun e => !topicFilterValid e.1) || r.2.err != .ok then none else some (type, some r.2.packetId)

/-- **The answer a well-formed packet calls for.** -/
def required (firstByte : UInt8) (body : Bytes) : Option Response :=
  if !fixedFlagsValid (packetType firstByte) (packetFlags firstByte) then none
  else
    match packetType firstByte with
    | some .publish =>
      match parsePublish firstByte body with
      | .error _ => none
      | .ok p => if !topicNameValid p.topic then none else acknowledgement p
    | some .pubrel => (parsePacketIdOnly body).toOption.map fun id => (.pubcomp, some id)
    | some .subscribe => listResponse .suback (TopicListParser.entries body true)
    | some .unsubscribe => listResponse .unsuback (TopicListParser.entries body false)
    | some .pingreq => if body.isEmpty then some (.pingresp, none) else none
    | _ => none

theorem responseOf_of_headType {pkt : Bytes} (h : ∀ t, headType pkt = some t → t.responds = false) :
    responseOf pkt = none := by
  unfold responseOf
  cases ht : headType pkt with
  | none => rfl
  | some t => simp [h t ht]

theorem headId_u16Bytes (hid : id < 65536) (rest : Bytes) : headId (u16Bytes id ++ rest) = some id := by
  rw [headId, Reader.u16_u16Bytes hid]
  rfl

theorem responseOf_framePacket {f : UInt8} (hf : packetType f = some t) (ht : t.responds = true)
    (hbody : body.length ≤ maxRemainingLength) : responseOf (framePacket f body) = some (t, headId body) := by
  have hhead : headType (framePacket f body) = some t := by
    rw [framePacket_eq hbody]
    exact hf
  rw [responseOf, hhead, readPacket_framePacket hbody]
  simp [ht]

theorem responseOf_packetIdOnly {cap : Nat} (hcap : packetOverhead + 2 ≤ cap) (ht : t.responds = true)
    (hid : id < 65536) : responseOf (buildPacketIdOnly cap t id) = some (t, some id) := by
  have hf : packetType (makeFirstByte t (if t == .pubrel then 0x02 else 0x00)) = some t := by cases t <;> decide
  rw [buildPacketIdOnly_eq hcap, responseOf_framePacket hf ht (by simp [u16Bytes, maxRemainingLength]),
    ← List.append_nil (u16Bytes id), headId_u16Bytes hid]

theorem responseOf_pingresp {cap : Nat} (hcap : packetOverhead + 2 ≤ cap) :
    responseOf (buildPingresp cap) = some (.pingresp, none) := by
  rw [buildPingresp, if_neg (by simp only [packetOverhead] at hcap; omega)]
  decide

/-! ## Packet ids -/

theorem parsePacketIdOnly_lt (h : parsePacketIdOnly body = .ok id) : id < 65536 := by
  simp only [parsePacketIdOnly] at h
  split at h
  · cases h
  rename_i hok
  split at h
  · cases h
  split at h
  · cases h
  cases h
  exact (Reader.u16_took (by simpa using hok)).2.2

namespace TopicListParser

/-- Every entry takes two bytes at least, and the id and the status stay. -/
theorem next_some {p p' : TopicListParser} {e : Bytes × QoS} (h : p.next = (some e, p')) :
    p'.r.rest.length + 2 ≤ p.r.rest.length ∧ p'.packetId = p.packetId := by
  unfold next at h
  split at h
  · cases h
  split at h
  · cases h
  dsimp only at h
  generalize hq : (if p.withQos then p.r.utf8.2.u8 else (0, p.r.utf8.2)) = q at h
  split at h
  · cases h
  rename_i hok
  split at h
  · cases h
  cases h
  have hq' : p.r.utf8.2.ok = true ∧ q.2.rest.length ≤ p.r.utf8.2.rest.length := by
    rw [← hq] at hok ⊢
    split at hok
    · rename_i hw
      rw [if_pos hw]
      unfold Reader.u8 at hok ⊢
      split at hok
      · rename_i hgood hrest
        rw [hrest]
        exact ⟨hgood, Nat.le_succ _⟩
      · simp [Reader.fail] at hok
    · rename_i hw
      rw [if_neg hw]
      exact ⟨by simpa using hok, Nat.le_refl _⟩
  have htook := congrArg List.length (Reader.utf8_took hq'.1).1
  simp only [u16Bytes, List.length_append, List.length_cons, List.length_nil] at htook
  refine ⟨?_, rfl⟩
  change q.2.rest.length + 2 ≤ p.r.rest.length
  omega

theorem next_none {p p' : TopicListParser} (h : p.next = (none, p')) : p'.packetId = p.packetId := by
  unfold next at h
  split at h
  · cases h
    rfl
  split at h
  · split at h <;> cases h <;> rfl
  dsimp only at h
  generalize (if p.withQos then p.r.utf8.2.u8 else (0, p.r.utf8.2)) = q at h
  split at h
  · cases h
    rfl
  split at h <;> cases h
  rfl

theorem drain_length : ∀ (n : Nat) (p : TopicListParser),
    2 * (drain n p).1.length ≤ p.r.rest.length ∧ (drain n p).2.packetId = p.packetId
  | 0, p => ⟨Nat.zero_le _, rfl⟩
  | n + 1, p => by
    rw [drain]
    split
    · rename_i p' hnext
      exact ⟨Nat.zero_le _, next_none hnext⟩
    · rename_i e p' hnext
      obtain ⟨hlen, hid⟩ := next_some hnext
      obtain ⟨ih, hid'⟩ := drain_length n p'
      refine ⟨?_, hid'.trans hid⟩
      simp only [List.length_cons]
      omega

/-- **What a list of topics that was read holds**: an id, and fewer entries than an answer has room for. -/
theorem entries_spec (withQos : Bool) (hbody : body.length ≤ maxRemainingLength) :
    (entries body withQos).2.packetId < 65536 ∧ 2 + (entries body withQos).1.length ≤ maxRemainingLength := by
  obtain ⟨hlen, hid⟩ := drain_length body.length (make body withQos)
  have hmake : (make body withQos).packetId < 65536 ∧ (make body withQos).r.rest.length ≤ body.length := by
    simp only [make, Reader.u16, Reader.make]
    split
    · exact ⟨or_lt_65536 .., Nat.le_add_right _ 2⟩
    · exact ⟨Nat.zero_lt_succ _, Nat.le_refl _⟩
  rw [entries, hid]
  refine ⟨hmake.1, ?_⟩
  simp only [maxRemainingLength] at hbody ⊢
  omega

end TopicListParser

/-! ## Acts that answer nothing -/

/-- A packet sent is for a session, or a CONNACK; none comes in, and no connection opens. -/
def Act.mute : Act Ctx → Bool
  | .send _ pkt _ tag => tag.isSome || headType pkt == some .connack
  | .event e _ => e.kind != .connectionOpened
  | .packet _ _ _ => false
  | _ => true

theorem Act.mute_of_upkeep {now : Nat} {v : Option Nat} (a : Act Ctx) (h : a.upkeep now v = true) : a.mute = true := by
  cases a with
  | event e slot =>
    have hne : e.kind ≠ .connectionOpened := by
      intro he
      rw [Act.upkeep, he] at h
      cases h
    simp [Act.mute, hne]
  | parked k s => rfl
  | _ => exact h

/-- The trace grows by such acts. -/
abbrev Mutely (t t' : Trace Ctx) : Prop := Adds (fun a => a.mute = true) t t'

theorem mutely_note (a : Act Ctx) (ha : a.mute = true) (t : Trace Ctx) : Mutely t (a :: t) := .one a ha

section
variable {σ σ' σ₁ : Broker Ctx} {ci : Nat} {own : Nat → Prop} {r : Option Response}

theorem Ebbs.mutely {v : Option Nat} (h : Ebbs own v σ σ') : Mutely σ.trace σ'.trace := h.acts.mono Act.mute_of_upkeep

theorem Lasts.mutely (h : Lasting σ σ') : Mutely σ.trace σ'.trace :=
  (show Ebbs (fun _ => False) none σ σ' from .of_lasting h).mutely

/-! ## What a handler answers -/

/-- **A packet that calls for `r`, handled**: the answer was offered to the transport, and taken or the connection is
dead; or there was none to give, or the connection is dead. -/
inductive Replies (ci : Nat) (r : Option Response) (σ σ' : Broker Ctx) : Prop
  | silent (acts : Mutely σ.trace σ'.trace) (h : r = none ∨ (σ'.conns ci).dead = true)
  | spoke (pkt : Bytes) (ok : Bool) {t : Trace Ctx} (before : Mutely σ.trace t)
      (after : Mutely (.send ci pkt ok none :: t) σ'.trace) (hr : responseOf pkt = r)
      (h : ok = true ∨ (σ'.conns ci).dead = true)

theorem Replies.after (h₀ : Mutely σ.trace σ₁.trace) (h : Replies ci r σ₁ σ') : Replies ci r σ σ' := by
  cases h with
  | silent acts h => exact .silent (h₀.trans acts) h
  | spoke pkt ok before after hr h => exact .spoke pkt ok (h₀.trans before) after hr h

theorem Lasts.dead_mono (h : Lasting σ σ') (hd : (σ.conns ci).dead = true) : (σ'.conns ci).dead = true := by
  rcases h.conns ci with e | e <;> rw [e]
  exact hd

theorem Replies.then (h : Replies ci r σ σ₁) (h' : Lasting σ₁ σ') : Replies ci r σ σ' := by
  cases h with
  | silent acts h => exact .silent (acts.trans h'.mutely) (h.imp_right h'.dead_mono)
  | spoke pkt ok before after hr h => exact .spoke pkt ok before (after.trans h'.mutely) hr (h.imp_right h'.dead_mono)

theorem replies_none (h : Mutely σ.trace σ'.trace) : Replies ci none σ σ' := .silent h (.inl rfl)

theorem replies_violation (r : Option Response) (err : Err) (σ : Broker Ctx) :
    Replies ci r σ (σ.violation P ci err) := by
  refine .silent (lasting_violation ci err σ).mutely (.inr ?_)
  rw [Broker.violation, setDead_conns, if_pos rfl]

/-- **The answer itself.** -/
theorem replies_sendTo (hci : ci < P.T.maxConnections) (hact : (σ.conns ci).active = true) {pkt : Bytes}
    (hpkt : pkt ≠ []) : Replies ci (responseOf pkt) σ (σ.sendTo P none ci pkt) := by
  have hcases := sendTo_cases P none ci pkt σ
  generalize σ.sendTo P none ci pkt = σ' at hcases ⊢
  cases hcases with
  | down hdown =>
    rcases hdown with hle | hoff | hdead
    · exact absurd hci (Nat.not_lt.2 hle)
    · exact absurd (hact.symm.trans hoff) (by simp)
    · exact .silent (.refl _ _) (.inr hdead)
  | unbuilt _ _ hnil => exact absurd hnil hpkt
  | taken => exact .spoke pkt true (.refl _ _) (.refl _ _) rfl (.inl rfl)
  | refused =>
    refine .spoke pkt false (.refl _ _) ?_ rfl (.inr ?_)
    · exact ((lasting_notifyConn rfl ci none _).trans (lasting_setDead ci _)).mutely
    · rw [setDead_conns, if_pos rfl]

theorem replies_ack (hci : ci < P.T.maxConnections) (hact : (σ.conns ci).active = true) (h : Lasting σ σ₁)
    (ht : t.responds = true) (hid : id < 65536) :
    Replies ci (some (t, some id)) σ (σ₁.sendTo P none ci (buildPacketIdOnly P.T.outSize t id)) := by
  rw [← responseOf_packetIdOnly (outSize_ge P.T) ht hid]
  exact .after h.mutely (replies_sendTo hci ((h.active ci).trans hact) (buildPacketIdOnly_ne_nil (outSize_ge P.T) t id))

variable {k : Nat} {s : Session Ctx}

theorem replies_handlePublish (hci : ci < P.T.maxConnections) (hact : (σ.conns ci).active = true)
    (hof : σ.sessionOf P (σ.conns ci) = some (k, s)) {firstByte : UInt8} (hf : packetType firstByte = some .publish)
    (body : Bytes) : Replies ci (required firstByte body) σ (σ.handlePublish P ci firstByte body) := by
  rw [Broker.handlePublish, derefSession_of hof]
  split
  · exact replies_violation _ _ σ
  rename_i p hp
  split
  · exact replies_violation _ _ σ
  rename_i hvalid
  split
  · exact replies_violation _ _ σ
  dsimp only
  generalize (!(p.qos == .exactlyOnce && s.hasInboundQos2 p.packetId)) = deliver
  generalize hσ₁ : (if (p.qos == .exactlyOnce) = true then σ.trackInbound P k ci p.packetId s else σ) = σ₁
  have h₁ : Lasting σ σ₁ := by
    rw [← hσ₁]
    split
    · exact lasting_trackInbound k ci p.packetId s σ
    · exact .refl _ σ
  generalize hσ₂ : (if deliver = true then σ₁.acceptPublish P k s p else σ₁) = σ₂
  have h₂ : Lasting σ σ₂ := by
    rw [← hσ₂]
    split
    · exact h₁.trans (lasting_acceptPublish k s p σ₁)
    · exact h₁
  have hid := (body_of_parsePublish hp).2.2
  have hreq : required firstByte body = acknowledgement p := by simp [required, hf, hp, hvalid, fixedFlagsValid]
  rw [hreq, acknowledgement]
  cases p.qos with
  | atMostOnce => exact replies_none h₂.mutely
  | atLeastOnce => exact replies_ack hci hact h₂ rfl hid
  | exactlyOnce => exact replies_ack hci hact h₂ rfl hid

theorem lasting_handleFinal {type : PacketType} {state : OutState} (hp : parsePacketIdOnly body = .ok id)
    (hof : σ.sessionOf P (σ.conns ci) = some (k, s)) : Lasting σ (σ.handleFinal P type state ci body) := by
  rw [Broker.handleFinal, hp]
  dsimp only
  rw [derefSession_of hof]
  exact (Lasts.setSession k _ σ).trans (lasting_emit _ rfl _)

theorem replies_handleFinal (hof : σ.sessionOf P (σ.conns ci) = some (k, s)) (type : PacketType) (state : OutState)
    (body : Bytes) : Replies ci none σ (σ.handleFinal P type state ci body) := by
  cases hp : parsePacketIdOnly body with
  | error e =>
    rw [Broker.handleFinal, hp]
    exact replies_violation none .malformed σ
  | ok id => exact replies_none (lasting_handleFinal hp hof).mutely

theorem replies_handlePubrec (hof : σ.sessionOf P (σ.conns ci) = some (k, s)) (body : Bytes) :
    Replies ci none σ (σ.handlePubrec P ci body) := by
  rw [Broker.handlePubrec]
  split
  · exact replies_violation none .malformed σ
  rw [derefSession_of hof]
  split
  · exact replies_none (lasting_emit _ rfl σ).mutely
  split
  · exact replies_none (.refl _ _)
  · exact replies_none (((Lasts.setSession k _ σ).trans (lasting_emit _ rfl _)).trans (lasting_sendTo ..)).mutely

theorem replies_handlePubrel (hci : ci < P.T.maxConnections) (hact : (σ.conns ci).active = true)
    (hof : σ.sessionOf P (σ.conns ci) = some (k, s)) (body : Bytes) :
    Replies ci ((parsePacketIdOnly body).toOption.map fun id => (.pubcomp, some id)) σ (σ.handlePubrel P ci body) := by
  rw [Broker.handlePubrel]
  split
  · exact replies_violation _ .malformed σ
  rename_i id hid
  rw [derefSession_of hof, hid]
  exact replies_ack hci hact ((Lasts.setSession k _ σ).trans (lasting_emit _ rfl _)) rfl (parsePacketIdOnly_lt hid)

/-! ### SUBSCRIBE and UNSUBSCRIBE -/

theorem subscribeEntry_writes (k : Nat) (acc : Pass2 Ctx) (e : Bytes × QoS) :
    Routinely acc.t (subscribeEntry P k acc e).t ∧
      ∃ code, Writes acc.w (subscribeEntry P k acc e).w [code] := by
  unfold subscribeEntry
  split
  · exact ⟨.note _ rfl _, _, acc.w.writes_u8 _⟩
  · dsimp only
    split
    · exact ⟨.refl _ _, _, acc.w.writes_u8 _⟩
    · exact ⟨routinely_checkAssign .., _, acc.w.writes_u8 _⟩

/-- Pass 2 writes one code for every entry. -/
theorem subscribeFold_writes (k : Nat) : ∀ (es : List (Bytes × QoS)) (acc : Pass2 Ctx) {w₀ : Writer} {b : Bytes},
    Writes w₀ acc.w b → Routinely acc.t (es.foldl (subscribeEntry P k) acc).t ∧
      ∃ codes, codes.length = es.length ∧ Writes w₀ (es.foldl (subscribeEntry P k) acc).w (b ++ codes)
  | [], _, _, _, hw => ⟨.refl _ _, [], rfl, by simpa using hw⟩
  | e :: es, acc, w₀, b, hw => by
    obtain ⟨ht, code, hcode⟩ := subscribeEntry_writes (P := P) k acc e
    obtain ⟨ht', codes, hlen, hcodes⟩ := subscribeFold_writes k es (subscribeEntry P k acc e) (hw.trans hcode)
    rw [List.append_assoc] at hcodes
    exact ⟨ht.trans ht', [code] ++ codes, by simp [hlen], hcodes⟩

/-- The SUBACK names the packet it answers. -/
theorem subscribePass2_suback (k : Nat) {packetId : Nat} (hid : packetId < 65536) (es : List (Bytes × QoS))
    (hes : 2 + es.length ≤ maxRemainingLength) (s : Session Ctx) (t : Trace Ctx) :
    let r := subscribePass2 P k packetId es s t
    Routinely t r.t ∧ (r.w.ok = true →
      framePacket (makeFirstByte .suback 0) r.w.buf ≠ [] ∧
      responseOf (framePacket (makeFirstByte .suback 0) r.w.buf) = some (.suback, some packetId)) := by
  obtain ⟨ht, codes, hlen, hw⟩ := subscribeFold_writes (P := P) k es
    { s := clearPending s, w := (Writer.make (P.T.outSize - packetOverhead)).u16 packetId, granted := [], t := t }
    ((Writer.make (P.T.outSize - packetOverhead)).writes_u16 packetId)
  refine ⟨ht, fun hok => ?_⟩
  have hbuf : (subscribePass2 P k packetId es s t).w.buf = u16Bytes packetId ++ codes := hw.buf hok
  have hmax : (u16Bytes packetId ++ codes).length ≤ maxRemainingLength := by
    simp only [List.length_append, hlen, u16Bytes, List.length_cons, List.length_nil]
    omega
  have hf : packetType (makeFirstByte .suback 0) = some .suback := by decide
  rw [hbuf, responseOf_framePacket hf rfl hmax, headId_u16Bytes hid, framePacket_eq hmax]
  exact ⟨List.cons_ne_nil _ _, rfl⟩

theorem replies_subscribeValid (hci : ci < P.T.maxConnections) (hact : (σ.conns ci).active = true) {packetId : Nat}
    (hid : packetId < 65536) (es : List (Bytes × QoS)) (hes : 2 + es.length ≤ maxRemainingLength) (s : Session Ctx) :
    Replies ci (some (.suback, some packetId)) σ (σ.subscribeValid P k ci packetId es s) := by
  obtain ⟨ht, hack⟩ := subscribePass2_suback (P := P) k hid es hes s σ.trace
  simp only [Broker.subscribeValid]
  generalize subscribePass2 P k packetId es s σ.trace = pass at ht hack ⊢
  set σ₁ : Broker Ctx :=
    { σ with sessions := σ.sessions.set k pass.s, trace := .subscribe k s pass.granted :: pass.t }
  have h₁ : Lasting σ σ₁ := .of_conns rfl (ht.noted _ rfl) rfl
  split
  · exact .after h₁.mutely (replies_violation _ _ σ₁)
  rename_i hok
  obtain ⟨hne, hres⟩ := hack (by simpa using hok)
  have hsent := Replies.after h₁.mutely (replies_sendTo (P := P) hci ((h₁.active ci).trans hact) hne)
  rw [hres] at hsent
  split
  · refine hsent.then (lasting_onSession (fun w => ?_) _)
    exact routinely_replayRetained _ ci k _ ({ w.1 with retainCursor := 0 }, w.2)
  · exact hsent

theorem replies_handleSubscribe (hci : ci < P.T.maxConnections) (hact : (σ.conns ci).active = true)
    (hof : σ.sessionOf P (σ.conns ci) = some (k, s)) (hlen : body.length ≤ maxRemainingLength) :
    Replies ci (listResponse .suback (TopicListParser.entries body true)) σ (σ.handleSubscribe P ci body) := by
  obtain ⟨hid, hes⟩ := TopicListParser.entries_spec true hlen
  rw [Broker.handleSubscribe, derefSession_of hof]
  dsimp only
  split
  · exact replies_violation _ _ σ
  rename_i hvalid
  split
  · exact replies_violation _ _ σ
  rename_i hok
  rw [listResponse, if_neg (by simp only [Bool.or_eq_true, not_or]; exact ⟨hvalid, hok⟩)]
  exact replies_subscribeValid hci hact hid _ hes s

theorem replies_handleUnsubscribe (hci : ci < P.T.maxConnections) (hact : (σ.conns ci).active = true)
    (hof : σ.sessionOf P (σ.conns ci) = some (k, s)) (hlen : body.length ≤ maxRemainingLength) :
    Replies ci (listResponse .unsuback (TopicListParser.entries body false)) σ (σ.handleUnsubscribe P ci body) := by
  obtain ⟨hid, -⟩ := TopicListParser.entries_spec false hlen
  rw [Broker.handleUnsubscribe, derefSession_of hof]
  dsimp only
  split
  · exact replies_violation _ _ σ
  rename_i hvalid
  split
  · exact replies_violation _ _ σ
  rename_i hok
  rw [listResponse, if_neg (by simp only [Bool.or_eq_true, not_or]; exact ⟨hvalid, hok⟩)]
  exact replies_ack hci hact ((Lasts.setSession k _ σ).trans (lasting_emit _ rfl _)) rfl hid

theorem replies_handleDisconnect (hof : σ.sessionOf P (σ.conns ci) = some (k, s)) (body : Bytes) :
    Replies ci none σ (σ.handleDisconnect P ci body) := by
  rw [Broker.handleDisconnect]
  split
  · exact replies_violation none _ σ
  rw [derefSession_of hof]
  exact replies_none ((mutely_note (.disconnect k ci) rfl σ.trace).trans (lasting_setDead ci _).mutely)

/-! ### Dispatch -/

theorem dispatch_replies (hL : Linked P none σ) (hact : (σ.conns ci).active = true)
    (hdead : (σ.conns ci).dead = false) {firstByte : UInt8}
    (hflags : fixedFlagsValid (packetType firstByte) (packetFlags firstByte) = true)
    (hlen : body.length ≤ maxRemainingLength)
    (hsess : (σ.conns ci).session ≠ noSession ∨ packetType firstByte = some .connect) :
    Replies ci (required firstByte body) σ (σ.dispatch P ci firstByte body) := by
  have hci := hL.active_lt ci hact
  have hof : packetType firstByte ≠ some .connect →
      ∃ s, σ.sessionOf P (σ.conns ci) = some ((σ.conns ci).session, s) := by
    intro hne
    obtain ⟨s, hs, -, -⟩ := hL.sessionOf (hsess.resolve_right hne)
    exact ⟨s, hs⟩
  rw [Broker.dispatch]
  cases htype : packetType firstByte with
  | none => exact replies_violation _ _ σ
  | some type =>
    rw [htype] at hof hflags
    cases type with
    | connect =>
      obtain ⟨v, hconnect, -⟩ := ebbs_handleConnect (· = ci) rfl hL hact hdead body
      have hreq : required firstByte body = none := by simp [required, htype]
      rw [hreq]
      exact replies_none hconnect.mutely
    | publish =>
      obtain ⟨s, hof⟩ := hof (by simp)
      exact replies_handlePublish hci hact hof htype body
    | puback | pubcomp =>
      obtain ⟨s, hof⟩ := hof (by simp)
      have hreq : required firstByte body = none := by simp [required, htype]
      rw [hreq]
      exact replies_handleFinal hof _ _ body
    | pubrec =>
      obtain ⟨s, hof⟩ := hof (by simp)
      have hreq : required firstByte body = none := by simp [required, htype]
      rw [hreq]
      exact replies_handlePubrec hof body
    | pubrel =>
      obtain ⟨s, hof⟩ := hof (by simp)
      have hreq : required firstByte body = (parsePacketIdOnly body).toOption.map fun id => (.pubcomp, some id) := by
        simp [required, htype, hflags]
      rw [hreq]
      exact replies_handlePubrel hci hact hof body
    | subscribe =>
      obtain ⟨s, hof⟩ := hof (by simp)
      have hreq : required firstByte body = listResponse .suback (TopicListParser.entries body true) := by
        simp [required, htype, hflags]
      rw [hreq]
      exact replies_handleSubscribe hci hact hof hlen
    | unsubscribe =>
      obtain ⟨s, hof⟩ := hof (by simp)
      have hreq : required firstByte body = listResponse .unsuback (TopicListParser.entries body false) := by
        simp [required, htype, hflags]
      rw [hreq]
      exact replies_handleUnsubscribe hci hact hof hlen
    | pingreq =>
      have hreq : required firstByte body = if body.isEmpty then some (.pingresp, none) else none := by
        simp [required, htype, hflags]
      rw [hreq]
      cases hempty : body.isEmpty with
      | true =>
        rw [if_pos rfl, ← responseOf_pingresp (outSize_ge P.T)]
        exact replies_sendTo hci hact (buildPingresp_isPacket (outSize_ge P.T)).ne_nil
      | false => exact replies_violation _ _ σ
    | disconnect =>
      obtain ⟨s, hof⟩ := hof (by simp)
      have hreq : required firstByte body = none := by simp [required, htype]
      rw [hreq]
      exact replies_handleDisconnect hof body
    | connack | suback | unsuback | pingresp => exact replies_violation _ _ σ

/-- **`on_packet` answers what is called for.** -/
theorem onPacket_replies (hL : Linked P none σ) (hact : (σ.conns ci).active = true)
    (hdead : (σ.conns ci).dead = false) (firstByte : UInt8) (hlen : body.length ≤ maxRemainingLength) :
    Replies ci (required firstByte body) (σ.emit (.packet ci firstByte body)) (σ.onPacket P ci firstByte body).2 := by
  simp only [Broker.onPacket]
  split
  · exact replies_violation _ _ _
  rename_i hflags
  split
  · exact replies_violation _ _ _
  rename_i hsess
  have hL₀ : Linked P none (σ.emit (.packet ci firstByte body)) := { hL with }
  refine dispatch_replies hL₀ hact hdead (by simpa using hflags) hlen ?_
  rcases (not_and_or.1 (fun h => hsess (Bool.and_eq_true_iff.2 h))) with h | h
  · exact .inl (show (σ.conns ci).session ≠ noSession by simpa using h)
  · exact .inr (by simpa using h)

end

end Minimosq
