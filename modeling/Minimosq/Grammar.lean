import Minimosq.Codec
/-!
# What the parsers accept

`parse_connect` and `TopicListParser` read their bodies through a reader that fails stickily.  Each reading operation
succeeds exactly when what it returns stands, encoded, at the front of what is left (`Took`); so a body is accepted
exactly when it is the concatenation of the components its grammar names, which are what the parser returns.
-/
namespace Minimosq

/-! ## Reading -/

/-- **Reading `b` off `r` leaves `r'`.** -/
structure Took (r : Reader) (b : Bytes) (r' : Reader) : Prop where
  ok : r.ok = true
  ok' : r'.ok = true
  rest : r.rest = b ++ r'.rest

/-- A byte string with its length before it. -/
def field (b : Bytes) : Bytes := u16Bytes b.length ++ b

/-- One that is there if the flag is set. -/
def optionalField (flag : Bool) (b : Bytes) : Bytes := if flag then field b else []

section
variable {r r' r'' : Reader} {a b : Bytes}

theorem Took.of_append (rest : Bytes) : Took ⟨b ++ rest, true⟩ b ⟨rest, true⟩ := ⟨rfl, rfl, rfl⟩

theorem Took.eq_of_ok (h : Took r b r') : r = ⟨b ++ r'.rest, true⟩ := by
  obtain ⟨rest, ok⟩ := r
  rw [h.rest.symm, show ok = true from h.ok]

theorem Took.trans (h : Took r a r') (h' : Took r' b r'') : Took r (a ++ b) r'' :=
  ⟨h.ok, h'.ok', by rw [h.rest, h'.rest, List.append_assoc]⟩

theorem Reader.u8_iff (v : UInt8) : (r.u8 = (v, r') ∧ r'.ok = true) ↔ Took r [v] r' := by
  constructor
  · rintro ⟨h, hok⟩
    unfold Reader.u8 at h
    split at h
    · rename_i hgood hrest
      cases h
      exact ⟨hgood, rfl, hrest⟩
    · cases h
      cases hok
  · intro h
    rw [h.eq_of_ok]
    obtain ⟨rest, ok⟩ := r'
    exact ⟨by rw [show ok = true from h.ok']; rfl, h.ok'⟩

theorem Reader.u16_iff (v : Nat) : (r.u16 = (v, r') ∧ r'.ok = true) ↔ v < 65536 ∧ Took r (u16Bytes v) r' := by
  constructor
  · rintro ⟨h, hok⟩
    have htook := Reader.u16_took (r := r) (by rw [h]; exact hok)
    rw [h] at htook
    exact ⟨htook.2.2, htook.1, hok, htook.2.1⟩
  · rintro ⟨hv, h⟩
    obtain ⟨rest, ok⟩ := r'
    have hread := Reader.u16_u16Bytes hv rest
    rw [h.eq_of_ok, show ok = true from h.ok']
    exact ⟨hread, rfl⟩

theorem Reader.field_iff : (r.lenPrefixedBytes = (b, r') ∧ r'.ok = true) ↔
    b.length ≤ maxUtf8Len ∧ Took r (field b) r' := by
  constructor
  · rintro ⟨h, hok⟩
    have h : r.utf8 = (b, r') := h
    have htook := Reader.utf8_took (r := r) (by rw [h]; exact hok)
    rw [h] at htook
    refine ⟨htook.2, ?_, hok, htook.1⟩
    have hid : r.u16.2.ok = true := by
      unfold Reader.utf8 Reader.lenPrefixedBytes at h
      split at h
      · cases h
        exact hok
      · rename_i hgood
        simpa using hgood
    exact (Reader.u16_took hid).1
  · rintro ⟨hb, h⟩
    obtain ⟨rest, ok⟩ := r'
    have hread := Reader.utf8_u16Bytes hb rest
    rw [h.eq_of_ok, show ok = true from h.ok', field, List.append_assoc]
    exact ⟨hread, rfl⟩

theorem Reader.optional_iff (flag : Bool) : ((if flag then r.lenPrefixedBytes else ([], r)) = (b, r') ∧ r'.ok = true) ↔
      (b.length ≤ maxUtf8Len ∧ (flag = false → b = [])) ∧ Took r (optionalField flag b) r' := by
  cases flag with
  | true => simpa [optionalField] using Reader.field_iff
  | false =>
    simp only [Bool.false_eq_true, if_false, optionalField]
    constructor
    · rintro ⟨h, hok⟩
      cases h
      exact ⟨⟨Nat.zero_le _, fun _ => rfl⟩, hok, hok, rfl⟩
    · rintro ⟨⟨-, hb⟩, h⟩
      obtain ⟨rest, ok⟩ := r'
      rw [hb trivial, h.eq_of_ok, show ok = true from h.ok']
      exact ⟨rfl, rfl⟩

end

/-! ## CONNECT -/

/-- The components of a CONNECT body. -/
structure ConnectFields where
  name : Bytes
  level : UInt8
  flags : UInt8
  keepalive : Nat
  clientId : Bytes
  willTopic : Bytes
  willPayload : Bytes
  username : Bytes
  password : Bytes

namespace ConnectFields

def hasWill (c : ConnectFields) : Bool := c.flags &&& 0x04 != 0
def hasUsername (c : ConnectFields) : Bool := c.flags &&& 0x80 != 0
def hasPassword (c : ConnectFields) : Bool := c.flags &&& 0x40 != 0
def willRetain (c : ConnectFields) : Bool := c.flags &&& 0x20 != 0
def willQos (c : ConnectFields) : Nat := ((c.flags &&& 0x18) >>> 3).toNat

/-- **The body with these components**: those the flags announce, one after the other, and nothing else. -/
def body (c : ConnectFields) : Bytes :=
  field c.name ++ ([c.level] ++ ([c.flags] ++ (u16Bytes c.keepalive ++ (field c.clientId ++
    (optionalField c.hasWill c.willTopic ++ (optionalField c.hasWill c.willPayload ++
      (optionalField c.hasUsername c.username ++ optionalField c.hasPassword c.password)))))))

/-- What the flags and the lengths must be; a component that is not announced is empty. -/
structure Valid (c : ConnectFields) : Prop where
  reserved : c.flags &&& 0x01 = 0
  willQos_le : c.willQos ≤ 2
  no_will : c.hasWill = false → c.willQos = 0 ∧ c.willRetain = false
  password : c.hasPassword = true → c.hasUsername = true
  name_le : c.name.length ≤ maxUtf8Len
  keepalive_lt : c.keepalive < 65536
  clientId_le : c.clientId.length ≤ maxUtf8Len
  willTopic_le : c.willTopic.length ≤ maxUtf8Len ∧ (c.hasWill = false → c.willTopic = [])
  willPayload_le : c.willPayload.length ≤ maxUtf8Len ∧ (c.hasWill = false → c.willPayload = [])
  username_le : c.username.length ≤ maxUtf8Len ∧ (c.hasUsername = false → c.username = [])
  password_le : c.password.length ≤ maxUtf8Len ∧ (c.hasPassword = false → c.password = [])

/-- **What the parser hands over for them.** -/
def packet (c : ConnectFields) : ConnectPacket where
  clientId := c.clientId
  willTopic := c.willTopic
  willPayload := c.willPayload
  username := c.username
  password := c.password
  keepaliveS := c.keepalive
  protocolLevel := c.level
  willQos := qosOfRaw c.willQos
  protocolNameOk := c.name == protocolName
  cleanSession := c.flags &&& 0x02 != 0
  hasWill := c.hasWill
  willRetain := c.willRetain
  hasUsername := c.hasUsername
  hasPassword := c.hasPassword

theorem parseConnectPayload_eq {c : ConnectFields} (h : c.Valid) {r : Reader} (nameOk : Bool)
    (hr : Took r (field c.clientId ++ (optionalField c.hasWill c.willTopic ++ (optionalField c.hasWill c.willPayload ++
      (optionalField c.hasUsername c.username ++ optionalField c.hasPassword c.password)))) ⟨[], true⟩) :
    parseConnectPayload r nameOk c.level c.flags c.keepalive c.willQos =
      .ok { c.packet with protocolNameOk := nameOk } := by
  rw [hr.eq_of_ok]
  simp only [List.append_nil]
  have hpw := ((Reader.optional_iff c.hasPassword).2 ⟨h.password_le, .of_append []⟩).1
  rw [List.append_nil] at hpw
  generalize ht₄ : optionalField c.hasPassword c.password = t₄ at hpw
  have hun := ((Reader.optional_iff c.hasUsername).2 ⟨h.username_le, .of_append t₄⟩).1
  generalize ht₃ : optionalField c.hasUsername c.username ++ t₄ = t₃ at hun
  have hwp := ((Reader.optional_iff c.hasWill).2 ⟨h.willPayload_le, .of_append t₃⟩).1
  generalize ht₂ : optionalField c.hasWill c.willPayload ++ t₃ = t₂ at hwp
  have hwt := ((Reader.optional_iff c.hasWill).2 ⟨h.willTopic_le, .of_append t₂⟩).1
  generalize ht₁ : optionalField c.hasWill c.willTopic ++ t₂ = t₁ at hwt
  have hcid := (Reader.field_iff.2 ⟨h.clientId_le, .of_append t₁⟩).1
  unfold hasPassword at hpw
  unfold hasUsername at hun
  unfold hasWill at hwp hwt
  unfold parseConnectPayload
  simp only [Reader.utf8, hcid, hwt, hwp, hun, hpw]
  rfl

theorem parseConnect_body {c : ConnectFields} (h : c.Valid) : parseConnect c.body = .ok c.packet := by
  unfold body
  generalize ht₄ : field c.clientId ++ (optionalField c.hasWill c.willTopic ++ (optionalField c.hasWill c.willPayload ++
    (optionalField c.hasUsername c.username ++ optionalField c.hasPassword c.password))) = t₄
  have hkeep := ((Reader.u16_iff c.keepalive).2 ⟨h.keepalive_lt, .of_append t₄⟩).1
  generalize ht₃ : u16Bytes c.keepalive ++ t₄ = t₃ at hkeep
  have hflags := ((Reader.u8_iff c.flags).2 (.of_append t₃)).1
  generalize ht₂ : [c.flags] ++ t₃ = t₂ at hflags
  have hlevel := ((Reader.u8_iff c.level).2 (.of_append t₂)).1
  generalize ht₁ : [c.level] ++ t₂ = t₁ at hlevel
  have hname := (Reader.field_iff.2 ⟨h.name_le, .of_append t₁⟩).1
  have hnowill : (!(c.flags &&& 0x04 != 0) && (c.willQos != 0 || c.flags &&& 0x20 != 0)) = false := by
    cases hw : c.flags &&& 0x04 != 0 with
    | true => rfl
    | false =>
      obtain ⟨hq, hr⟩ := h.no_will hw
      unfold willRetain at hr
      rw [hq, hr]
      rfl
  have hpassword : (c.flags &&& 0x40 != 0 && !(c.flags &&& 0x80 != 0)) = false := by
    cases hp : c.flags &&& 0x40 != 0 with
    | false => rfl
    | true =>
      have hu := h.password hp
      unfold hasUsername at hu
      rw [hu]
      rfl
  unfold parseConnect
  simp only [Reader.utf8, Reader.make, hname, hlevel, hflags, hkeep]
  rw [← willQos, hnowill, hpassword, h.reserved, decide_eq_false (Nat.not_lt.2 h.willQos_le)]
  exact parseConnectPayload_eq h _ ⟨rfl, rfl, by rw [List.append_nil, ht₄]⟩

end ConnectFields

theorem fields_of_parseConnect {body : Bytes} {p : ConnectPacket} (h : parseConnect body = .ok p) :
    ∃ c : ConnectFields, c.Valid ∧ body = c.body ∧ p = c.packet := by
  unfold parseConnect at h
  dsimp only at h
  generalize hname : (Reader.make body).utf8 = name at h
  generalize hlevel : name.2.u8 = level at h
  generalize hflags : level.2.u8 = flags at h
  generalize hkeep : flags.2.u16 = keepalive at h
  split at h
  · cases h
  rename_i hok
  split at h
  · cases h
  rename_i hreserved
  split at h
  · cases h
  rename_i hqos
  split at h
  · cases h
  rename_i hnowill
  split at h
  · cases h
  rename_i hpassword
  unfold parseConnectPayload at h
  dsimp only at h
  generalize hcid : keepalive.2.utf8 = cid at h
  generalize hwt : (if (flags.1 &&& 0x04 != 0) = true then cid.2.utf8 else ([], cid.2)) = wt at h
  generalize hwp : (if (flags.1 &&& 0x04 != 0) = true then wt.2.lenPrefixedBytes else ([], wt.2)) = wp at h
  generalize hun : (if (flags.1 &&& 0x80 != 0) = true then wp.2.utf8 else ([], wp.2)) = un at h
  generalize hpw : (if (flags.1 &&& 0x40 != 0) = true then un.2.lenPrefixedBytes else ([], un.2)) = pw at h
  split at h
  · cases h
  rename_i hpwok
  split at h
  · cases h
  rename_i hend
  cases h
  obtain ⟨hpw', tpw⟩ := (Reader.optional_iff (flags.1 &&& 0x40 != 0)).1 ⟨hpw, by simpa using hpwok⟩
  obtain ⟨hun', tun⟩ := (Reader.optional_iff (flags.1 &&& 0x80 != 0)).1 ⟨hun, tpw.ok⟩
  obtain ⟨hwp', twp⟩ := (Reader.optional_iff (flags.1 &&& 0x04 != 0)).1 ⟨hwp, tun.ok⟩
  obtain ⟨hwt', twt⟩ := (Reader.optional_iff (flags.1 &&& 0x04 != 0)).1 ⟨hwt, twp.ok⟩
  obtain ⟨hcid', tcid⟩ := Reader.field_iff.1 ⟨hcid, twt.ok⟩
  obtain ⟨hkeep', tkeep⟩ := (Reader.u16_iff _).1 ⟨hkeep, tcid.ok⟩
  have tflags := (Reader.u8_iff _).1 ⟨hflags, tkeep.ok⟩
  have tlevel := (Reader.u8_iff _).1 ⟨hlevel, tflags.ok⟩
  obtain ⟨hname', tname⟩ := Reader.field_iff.1 ⟨hname, tlevel.ok⟩
  refine ⟨⟨name.1, level.1, flags.1, keepalive.1, cid.1, wt.1, wp.1, un.1, pw.1⟩, ?_, ?_, rfl⟩
  · refine ⟨by simpa using hreserved, Nat.not_lt.1 fun h => hqos (decide_eq_true h), fun hw => ?_, fun hp => ?_, hname',
      hkeep', hcid', hwt', hwp', hun', hpw'⟩
    · unfold ConnectFields.hasWill at hw
      rw [hw] at hnowill
      simpa [ConnectFields.willQos, ConnectFields.willRetain] using hnowill
    · unfold ConnectFields.hasPassword at hp
      rw [hp] at hpassword
      simpa [ConnectFields.hasUsername] using hpassword
  · have hall := tname.trans (tlevel.trans (tflags.trans
        (tkeep.trans (tcid.trans (twt.trans (twp.trans (tun.trans tpw)))))))
    have hnil : pw.2.rest = [] := by simpa [Reader.atEnd] using hend
    have hbody := hall.rest
    rw [hnil, List.append_nil] at hbody
    exact hbody

theorem Reader.u16_short {r : Reader} (h : r.rest.length < 2) : r.u16 = (0, r.fail) := by
  obtain ⟨rest, ok⟩ := r
  match rest, ok, h with
  | [], true, _ | [], false, _ | [_], true, _ | [_], false, _ => rfl

/-! ## By index

The reader as the source has it, two pointers into the body, in which a read past the end of it is `none`. -/

/-- `Reader`: `p_` by its index into the body, whose length `end_` stands for. -/
structure Cursor where
  pos : Nat := 0
  ok : Bool := true

namespace Cursor

def remaining (s : Bytes) (c : Cursor) : Nat := s.length - c.pos

def atEnd (s : Bytes) (c : Cursor) : Bool := c.pos == s.length

def fail (c : Cursor) : Cursor := { c with ok := false }

def u8 (s : Bytes) (c : Cursor) : Option (UInt8 × Cursor) :=
  if !c.ok || decide (c.remaining s < 1) then some (0, c.fail)
  else do
    let b ← s[c.pos]?
    some (b, { c with pos := c.pos + 1 })

def u16 (s : Bytes) (c : Cursor) : Option (Nat × Cursor) :=
  if !c.ok || decide (c.remaining s < 2) then some (0, c.fail)
  else do
    let b₀ ← s[c.pos]?
    let b₁ ← s[c.pos + 1]?
    some ((b₀.toNat <<< 8) ||| b₁.toNat, { c with pos := c.pos + 2 })

/-- The span of `n` bytes from `i`. -/
def span (s : Bytes) (i n : Nat) : Option Bytes := if i + n ≤ s.length then some ((s.drop i).take n) else none

def bytes (s : Bytes) (c : Cursor) (n : Nat) : Option (Bytes × Cursor) :=
  if !c.ok || decide (c.remaining s < n) then some ([], c.fail)
  else do
    let b ← span s c.pos n
    some (b, { c with pos := c.pos + n })

def lenPrefixedBytes (s : Bytes) (c : Cursor) : Option (Bytes × Cursor) := do
  let n ← c.u16 s
  if !n.2.ok then some ([], n.2) else n.2.bytes s n.1

def optional (s : Bytes) (flag : Bool) (c : Cursor) : Option (Bytes × Cursor) :=
  if flag then c.lenPrefixedBytes s else some ([], c)

/-- The bytes in front of it. -/
def reader (s : Bytes) (c : Cursor) : Reader := ⟨s.drop c.pos, c.ok⟩

theorem reader_ok (s : Bytes) (c : Cursor) : (c.reader s).ok = c.ok := rfl

theorem reader_atEnd {s : Bytes} {c : Cursor} (h : c.pos ≤ s.length) : (c.reader s).atEnd = c.atEnd s := by
  rw [Reader.atEnd, atEnd, reader, Bool.eq_iff_iff, List.isEmpty_iff, List.drop_eq_nil_iff, beq_iff_eq]
  omega

/-- **The cursor does what the reader does**, inside the body. -/
def Follows {α : Type} (s : Bytes) (x : Option (α × Cursor)) (y : α × Reader) : Prop :=
  ∃ c, x = some (y.1, c) ∧ c.pos ≤ s.length ∧ c.reader s = y.2

section
variable {s : Bytes} {c : Cursor}

theorem u8_follows (h : c.pos ≤ s.length) : Follows s (c.u8 s) (c.reader s).u8 := by
  obtain ⟨pos, ok⟩ := c
  cases ok with
  | false => exact ⟨⟨pos, false⟩, rfl, h, rfl⟩
  | true =>
    unfold u8 Reader.u8 reader remaining
    dsimp only
    by_cases hlt : pos < s.length
    · rw [decide_eq_false (by omega : ¬ s.length - pos < 1), List.getElem?_eq_getElem hlt,
        List.drop_eq_getElem_cons hlt]
      exact ⟨⟨pos + 1, true⟩, rfl, hlt, rfl⟩
    · have hnil : s.drop pos = [] := List.drop_eq_nil_of_le (Nat.not_lt.1 hlt)
      rw [decide_eq_true (by omega : s.length - pos < 1), hnil]
      exact ⟨⟨pos, false⟩, rfl, h, by rw [reader, hnil]; rfl⟩

theorem u16_follows (h : c.pos ≤ s.length) : Follows s (c.u16 s) (c.reader s).u16 := by
  obtain ⟨pos, ok⟩ := c
  cases ok with
  | false => exact ⟨⟨pos, false⟩, rfl, h, rfl⟩
  | true =>
    unfold u16 remaining
    dsimp only
    by_cases hlt : pos + 1 < s.length
    · have hlt₀ : pos < s.length := Nat.lt_of_succ_lt hlt
      rw [decide_eq_false (by omega : ¬ s.length - pos < 2), reader, List.getElem?_eq_getElem hlt₀,
        List.getElem?_eq_getElem hlt, List.drop_eq_getElem_cons hlt₀, List.drop_eq_getElem_cons hlt]
      exact ⟨⟨pos + 2, true⟩, rfl, hlt, rfl⟩
    · rw [decide_eq_true (by omega : s.length - pos < 2), Reader.u16_short (show (s.drop pos).length < 2 by
        rw [List.length_drop]
        omega)]
      exact ⟨⟨pos, false⟩, rfl, h, rfl⟩

theorem bytes_follows (h : c.pos ≤ s.length) (n : Nat) : Follows s (c.bytes s n) ((c.reader s).bytes n) := by
  unfold bytes Reader.bytes reader remaining
  dsimp only
  rw [List.length_drop]
  by_cases hfits : (!c.ok || decide (s.length - c.pos < n)) = true
  · rw [if_pos hfits, if_pos hfits]
    exact ⟨c.fail, rfl, h, rfl⟩
  · have hle : c.pos + n ≤ s.length := by
      simp only [Bool.or_eq_true, decide_eq_true_eq, not_or, Nat.not_lt] at hfits
      omega
    rw [if_neg hfits, if_neg hfits, span, if_pos hle]
    exact ⟨{ c with pos := c.pos + n }, rfl, hle, by rw [reader, List.drop_drop]⟩

theorem lenPrefixedBytes_follows (h : c.pos ≤ s.length) :
    Follows s (c.lenPrefixedBytes s) (c.reader s).lenPrefixedBytes := by
  obtain ⟨c₁, h₁, hpos, hreader⟩ := u16_follows h
  unfold lenPrefixedBytes Reader.lenPrefixedBytes
  rw [h₁, ← hreader]
  change Follows s (if !c₁.ok then _ else _) (if !c₁.ok then _ else _)
  split
  · exact ⟨c₁, rfl, hpos, rfl⟩
  · exact bytes_follows hpos _

theorem optional_follows (h : c.pos ≤ s.length) (flag : Bool) :
    Follows s (c.optional s flag) (if flag then (c.reader s).lenPrefixedBytes else ([], c.reader s)) := by
  cases flag with
  | true => exact lenPrefixedBytes_follows h
  | false => exact ⟨c, rfl, h, rfl⟩

end

end Cursor

/-- The payload half of `parse_connect`, by index. -/
def parseConnectPayloadScan (s : Bytes) (c : Cursor) (nameOk : Bool) (level flags : UInt8)
    (keepalive willQosRaw : Nat) : Option (Except Err ConnectPacket) := do
  let cid ← c.lenPrefixedBytes s
  let wt ← cid.2.optional s (flags &&& 0x04 != 0)
  let wp ← wt.2.optional s (flags &&& 0x04 != 0)
  let un ← wp.2.optional s (flags &&& 0x80 != 0)
  let pw ← un.2.optional s (flags &&& 0x40 != 0)
  if !pw.2.ok then some (.error .truncated)
  else if !pw.2.atEnd s then some (.error .malformed)
  else some (.ok {
    clientId := cid.1, willTopic := wt.1, willPayload := wp.1, username := un.1, password := pw.1
    keepaliveS := keepalive, protocolLevel := level, willQos := qosOfRaw willQosRaw, protocolNameOk := nameOk
    cleanSession := flags &&& 0x02 != 0, hasWill := flags &&& 0x04 != 0, willRetain := flags &&& 0x20 != 0
    hasUsername := flags &&& 0x80 != 0, hasPassword := flags &&& 0x40 != 0 })

/-- `parse_connect`, by index. -/
def parseConnectScan (body : Bytes) : Option (Except Err ConnectPacket) := do
  let name ← Cursor.lenPrefixedBytes body {}
  let level ← name.2.u8 body
  let flags ← level.2.u8 body
  let keepalive ← flags.2.u16 body
  let willQosRaw := ((flags.1 &&& 0x18) >>> 3).toNat
  if !keepalive.2.ok then some (.error .truncated)
  else if flags.1 &&& 0x01 != 0 then some (.error .malformed)
  else if decide (2 < willQosRaw) then some (.error .malformed)
  else if !(flags.1 &&& 0x04 != 0) && (willQosRaw != 0 || flags.1 &&& 0x20 != 0) then some (.error .malformed)
  else if flags.1 &&& 0x40 != 0 && !(flags.1 &&& 0x80 != 0) then some (.error .malformed)
  else
    parseConnectPayloadScan body keepalive.2 (name.1 == protocolName) level.1 flags.1 keepalive.1 willQosRaw

theorem parseConnectPayloadScan_eq {s : Bytes} {c : Cursor} (h : c.pos ≤ s.length) (nameOk : Bool)
    (level flags : UInt8) (keepalive willQosRaw : Nat) :
    parseConnectPayloadScan s c nameOk level flags keepalive willQosRaw
      = some (parseConnectPayload (c.reader s) nameOk level flags keepalive willQosRaw) := by
  obtain ⟨c₁, hcid, h₁, r₁⟩ := Cursor.lenPrefixedBytes_follows h
  obtain ⟨c₂, hwt, h₂, r₂⟩ := Cursor.optional_follows h₁ (flags &&& 0x04 != 0)
  obtain ⟨c₃, hwp, h₃, r₃⟩ := Cursor.optional_follows h₂ (flags &&& 0x04 != 0)
  obtain ⟨c₄, hun, h₄, r₄⟩ := Cursor.optional_follows h₃ (flags &&& 0x80 != 0)
  obtain ⟨c₅, hpw, h₅, r₅⟩ := Cursor.optional_follows h₄ (flags &&& 0x40 != 0)
  unfold parseConnectPayloadScan parseConnectPayload
  simp only [hcid, hwt, hwp, hun, hpw, Option.bind_eq_bind, Option.bind_some, Reader.utf8, ← r₁, ← r₂, ← r₃, ← r₄,
    ← r₅, Cursor.reader_ok, Cursor.reader_atEnd h₅]
  split
  · rfl
  · split <;> rfl

theorem parseConnectScan_eq (body : Bytes) : parseConnectScan body = some (parseConnect body) := by
  obtain ⟨c₁, hname, h₁, r₁⟩ := Cursor.lenPrefixedBytes_follows (s := body) (c := {}) (Nat.zero_le _)
  obtain ⟨c₂, hlevel, h₂, r₂⟩ := Cursor.u8_follows h₁
  obtain ⟨c₃, hflags, h₃, r₃⟩ := Cursor.u8_follows h₂
  obtain ⟨c₄, hkeep, h₄, r₄⟩ := Cursor.u16_follows h₃
  have hstart : Cursor.reader body {} = Reader.make body := rfl
  rw [hstart] at hname r₁
  unfold parseConnectScan parseConnect
  simp only [hname, hlevel, hflags, hkeep, Option.bind_eq_bind, Option.bind_some, Reader.utf8, ← r₁, ← r₂, ← r₃,
    ← r₄, Cursor.reader_ok, parseConnectPayloadScan_eq h₄]
  repeat' split
  all_goals rfl

/-- **`parse_connect` accepts exactly the CONNECT grammar**: a body of the fields its flags announce, the flags being
valid, and nothing after them; what it returns is those fields.  By index it reads nothing outside the body, on any
body. -/
theorem parseConnect_grammar (body : Bytes) : parseConnectScan body = some (parseConnect body) ∧
      ∀ p, parseConnect body = .ok p ↔ ∃ c : ConnectFields, c.Valid ∧ body = c.body ∧ p = c.packet := by
  refine ⟨parseConnectScan_eq body, fun p => ⟨?_, ?_⟩⟩
  · intro h
    exact fields_of_parseConnect h
  · rintro ⟨c, hvalid, rfl, rfl⟩
    exact c.parseConnect_body hvalid


/-! ## Topic lists -/

/-- An entry as a topic list encodes it. -/
def entryBytes (withQos : Bool) (e : Bytes × QoS) : Bytes :=
  field e.1 ++ if withQos then [UInt8.ofNat e.2.toNat] else []

/-- What an entry can be; without a QoS byte it is read as QoS 0. -/
def IsEntry (withQos : Bool) (e : Bytes × QoS) : Prop :=
  e.1.length ≤ maxUtf8Len ∧ (withQos = false → e.2 = .atMostOnce)

/-- **The entries well formed at the front of `rest`.** -/
def BeginsWith (withQos : Bool) (rest : Bytes) (es : List (Bytes × QoS)) : Prop :=
  (∀ e ∈ es, IsEntry withQos e) ∧ ∃ rest', rest = es.flatMap (entryBytes withQos) ++ rest'

/-- **The longest list of them**, of which every other is a beginning. -/
def LongestPrefix (withQos : Bool) (rest : Bytes) (es : List (Bytes × QoS)) : Prop :=
  BeginsWith withQos rest es ∧ ∀ es', BeginsWith withQos rest es' → es' <+: es

/-- **The topic list grammar**: a packet id that is not zero, one entry or more, and nothing left over. -/
structure IsTopicList (withQos : Bool) (body : Bytes) (id : Nat) (es : List (Bytes × QoS)) : Prop where
  id_pos : 0 < id
  id_lt : id < 65536
  nonempty : es ≠ []
  entries : ∀ e ∈ es, IsEntry withQos e
  body : body = u16Bytes id ++ es.flatMap (entryBytes withQos)

namespace TopicListParser

/-- `while (p.next(..))`: `next` until it returns false, the entries it yielded and the parser it leaves. -/
inductive Drains : TopicListParser → List (Bytes × QoS) → TopicListParser → Prop
  | stop {p p' : TopicListParser} (h : p.next = (none, p')) : Drains p [] p'
  | more {p p₁ p' : TopicListParser} {e : Bytes × QoS} {es : List (Bytes × QoS)} (h : p.next = (some e, p₁))
      (t : Drains p₁ es p') : Drains p (e :: es) p'

/-- No error yet. -/
structure Going (p : TopicListParser) : Prop where
  err : p.err = .ok
  ok : p.r.ok = true

section
variable {p p' : TopicListParser} {e : Bytes × QoS} {es : List (Bytes × QoS)}

theorem Drains.unique (h : Drains p es p') : ∀ {es₂ p₂}, Drains p es₂ p₂ → es₂ = es ∧ p₂ = p' := by
  induction h with
  | stop h =>
    intro es₂ p₂ h₂
    cases h₂ with
    | stop h₂ =>
      rw [h] at h₂
      cases h₂
      exact ⟨rfl, rfl⟩
    | more h₂ =>
      rw [h] at h₂
      cases h₂
  | more h _ ih =>
    intro es₂ p₂ h₂
    cases h₂ with
    | stop h₂ =>
      rw [h] at h₂
      cases h₂
    | more h₂ t =>
      rw [h] at h₂
      cases h₂
      obtain ⟨rfl, rfl⟩ := ih t
      exact ⟨rfl, rfl⟩

/-- **Reading an entry**: it succeeds exactly when the entry stands in front. -/
theorem entry_iff {r r' : Reader} (withQos : Bool) (b : Bytes) (v : UInt8) :
    (∃ f, r.lenPrefixedBytes = (b, f) ∧ (if withQos then f.u8 else (0, f)) = (v, r') ∧ r'.ok = true) ↔
      b.length ≤ maxUtf8Len ∧ (withQos = false → v = 0) ∧
        Took r (field b ++ if withQos then [v] else []) r' := by
  cases withQos with
  | false =>
    simp only [Bool.false_eq_true, if_false, List.append_nil]
    constructor
    · rintro ⟨f, hfield, hv, hok⟩
      cases hv
      obtain ⟨hb, htook⟩ := Reader.field_iff.1 ⟨hfield, hok⟩
      exact ⟨hb, fun _ => rfl, htook⟩
    · rintro ⟨hb, hv, htook⟩
      obtain ⟨hfield, hok⟩ := Reader.field_iff.2 ⟨hb, htook⟩
      exact ⟨r', hfield, by rw [hv trivial], hok⟩
  | true =>
    simp only [if_true]
    constructor
    · rintro ⟨f, hfield, hv, hok⟩
      have hbyte := (Reader.u8_iff v).1 ⟨hv, hok⟩
      obtain ⟨hb, htook⟩ := Reader.field_iff.1 ⟨hfield, hbyte.ok⟩
      exact ⟨hb, fun h => (by cases h), htook.trans hbyte⟩
    · rintro ⟨hb, -, htook⟩
      have hfirst : Took r (field b) ⟨[v] ++ r'.rest, true⟩ :=
        ⟨htook.ok, rfl, by rw [htook.rest, List.append_assoc]⟩
      obtain ⟨hfield, -⟩ := Reader.field_iff.2 ⟨hb, hfirst⟩
      obtain ⟨hv, hok⟩ := (Reader.u8_iff (r := ⟨[v] ++ r'.rest, true⟩) v).2 ⟨rfl, htook.ok', rfl⟩
      exact ⟨_, hfield, hv, hok⟩

theorem qosOfRaw_toNat : ∀ n ≤ 2, (qosOfRaw n).toNat = n := by decide

theorem next_some_iff (hp : Going p) : p.next = (some e, p') ↔ IsEntry p.withQos e ∧
    ∃ rest, p.r.rest = entryBytes p.withQos e ++ rest ∧ p' = { p with r := ⟨rest, true⟩, count := p.count + 1 } := by
  have herr : (p.err != .ok) = false := by rw [hp.err]; rfl
  constructor
  · intro h
    unfold next at h
    rw [herr] at h
    simp only [Bool.false_eq_true, if_false] at h
    split at h
    · cases h
    generalize hq : (if p.withQos then p.r.utf8.2.u8 else (0, p.r.utf8.2)) = q at h
    split at h
    · cases h
    rename_i hok
    split at h
    · cases h
    rename_i hle
    cases h
    have hok : q.2.ok = true := by simpa using hok
    have hle : q.1.toNat ≤ 2 := by simpa [UInt8.lt_iff_toNat_lt] using hle
    obtain ⟨hb, hv, htook⟩ := (entry_iff p.withQos p.r.utf8.1 q.1).1 ⟨p.r.utf8.2, rfl, hq, hok⟩
    refine ⟨⟨hb, fun hw => by rw [hv hw]; rfl⟩, q.2.rest, ?_, ?_⟩
    · rw [entryBytes, qosOfRaw_toNat _ hle, UInt8.ofNat_toNat]
      exact htook.rest
    · rw [← hok]
  · rintro ⟨⟨hb, hzero⟩, rest, hrest, rfl⟩
    have htook : Took p.r (field e.1 ++ if p.withQos then [UInt8.ofNat e.2.toNat] else []) ⟨rest, true⟩ :=
      ⟨hp.ok, rfl, hrest⟩
    obtain ⟨f, hfield, hv, -⟩ := (entry_iff p.withQos e.1 (UInt8.ofNat e.2.toNat)).2
      ⟨hb, fun hw => by rw [hzero hw]; rfl, htook⟩
    have hend : p.r.atEnd = false := by rw [Reader.atEnd, hrest]; rfl
    have hle : decide (2 < UInt8.ofNat e.2.toNat) = false := by cases e.2 <;> rfl
    have hqos : qosOfRaw (UInt8.ofNat e.2.toNat).toNat = e.2 := by cases e.2 <;> rfl
    unfold next
    rw [herr, hend]
    simp only [Bool.false_eq_true, if_false, Reader.utf8, hfield, hv, hle, hqos, Bool.not_true]

theorem next_of_err (h : p.err ≠ .ok) : p.next = (none, p) := by
  unfold next
  rw [if_pos (by simpa using h)]

/-- **When `next` stops**: without an error only at the end, after an entry; and it stops again. -/
theorem next_none_spec (hp : Going p) (h : p.next = (none, p')) :
    (p'.err = .ok ↔ p.r.rest = [] ∧ 0 < p.count) ∧ p'.next = (none, p') ∧ p'.packetId = p.packetId := by
  have herr : (p.err != .ok) = false := by rw [hp.err]; rfl
  have h₀ := h
  unfold next at h
  rw [herr] at h
  simp only [Bool.false_eq_true, if_false] at h
  split at h
  · rename_i hend
    have hnil : p.r.rest = [] := by simpa [Reader.atEnd] using hend
    by_cases hcount : p.count = 0
    · rw [hcount] at h
      cases h
      exact ⟨by simp [hcount], next_of_err (by simp), rfl⟩
    · rw [if_neg (by simpa using hcount)] at h
      cases h
      exact ⟨⟨fun _ => ⟨hnil, Nat.pos_of_ne_zero hcount⟩, fun _ => hp.err⟩, h₀, rfl⟩
  · rename_i hend
    have hsome : p.r.rest ≠ [] := by simpa [Reader.atEnd] using hend
    generalize (if p.withQos then p.r.utf8.2.u8 else (0, p.r.utf8.2)) = q at h
    split at h
    · cases h
      exact ⟨by simp [hsome], next_of_err (by simp), rfl⟩
    split at h <;> cases h
    exact ⟨by simp [hsome], next_of_err (by simp), rfl⟩

/-- **What the loop yields** from a parser without an error. -/
theorem Drains.spec (h : Drains p es p') (hp : Going p) : LongestPrefix p.withQos p.r.rest es ∧
      (p'.err = .ok ↔ p.r.rest = es.flatMap (entryBytes p.withQos) ∧ 0 < p.count + es.length) ∧
      p'.next = (none, p') ∧ p'.packetId = p.packetId := by
  induction h with
  | @stop p p' h =>
    obtain ⟨herr, hagain, hid⟩ := next_none_spec hp h
    refine ⟨⟨⟨by simp, p.r.rest, rfl⟩, ?_⟩, by simpa using herr, hagain, hid⟩
    rintro (_ | ⟨e, es⟩) ⟨hes, rest, hrest⟩
    · exact List.prefix_rfl
    · rw [List.flatMap_cons, List.append_assoc] at hrest
      have hsome := (next_some_iff hp).2 ⟨hes e (List.mem_cons_self ..), _, hrest, rfl⟩
      rw [h] at hsome
      cases hsome
  | @more p p₁ p' e es h t ih =>
    obtain ⟨he, rest, hrest, rfl⟩ := (next_some_iff hp).1 h
    obtain ⟨⟨⟨hes, rest', hrest'⟩, hlongest⟩, herr, hagain, hid⟩ := ih ⟨hp.err, rfl⟩
    dsimp only at hes hrest' hlongest herr hid
    refine ⟨⟨⟨?_, rest', ?_⟩, ?_⟩, ?_, hagain, hid⟩
    · rintro x (_ | ⟨_, hx⟩)
      · exact he
      · exact hes x hx
    · rw [hrest, hrest', List.flatMap_cons, List.append_assoc]
    · rintro (_ | ⟨e₂, es₂⟩) ⟨hes₂, rest₂, hrest₂⟩
      · exact List.nil_prefix
      -- the entry in front is the one `next` yields, whatever list of entries begins the bytes
      rw [List.flatMap_cons, List.append_assoc] at hrest₂
      have hsome := (next_some_iff hp).2 ⟨hes₂ e₂ (List.mem_cons_self ..), _, hrest₂, rfl⟩
      rw [h] at hsome
      cases hsome
      exact List.cons_prefix_cons.2 ⟨rfl, hlongest es₂ ⟨fun x hx => hes₂ x (List.mem_cons_of_mem _ hx), rest₂, rfl⟩⟩
    · rw [herr, hrest, List.flatMap_cons, List.append_cancel_left_eq, List.length_cons]
      exact and_congr_right fun _ => by omega

/-- Fuel for every byte left runs the loop to its end. -/
theorem drain_drains : ∀ {n : Nat} {p : TopicListParser}, (p.r.rest.length < n ∨ p.err ≠ .ok) →
    (p.err = .ok → p.r.ok = true) → Drains p (drain n p).1 (drain n p).2
  | 0, p, h, _ => .stop (next_of_err (h.resolve_left (Nat.not_lt_zero _)))
  | n + 1, p, h, hok => by
    by_cases herr : p.err = .ok
    · have hlen : p.r.rest.length < n + 1 := h.resolve_right (not_not_intro herr)
      rw [drain]
      split
      · rename_i hnext
        exact .stop hnext
      · rename_i e p₁ hnext
        obtain ⟨-, rest, hrest, rfl⟩ := (next_some_iff ⟨herr, hok herr⟩).1 hnext
        refine .more hnext (drain_drains (.inl ?_) fun _ => rfl)
        rw [hrest] at hlen
        simp only [entryBytes, field, u16Bytes, List.length_append, List.length_cons] at hlen
        dsimp only
        omega
    · rw [drain, next_of_err herr]
      exact .stop (next_of_err herr)

end

/-- The parser over a body: at fault without a packet id, or with the id 0; else in front of the entries. -/
theorem make_spec (body : Bytes) (withQos : Bool) : (∃ id rest, 0 < id ∧ id < 65536 ∧ body = u16Bytes id ++ rest ∧
      make body withQos = ⟨⟨rest, true⟩, id, 0, .ok, withQos⟩) ∨
    ((make body withQos).err ≠ .ok ∧ ¬ ∃ id rest, 0 < id ∧ id < 65536 ∧ body = u16Bytes id ++ rest) := by
  generalize hid : (Reader.make body).u16 = id
  by_cases hok : id.2.ok = true
  · obtain ⟨hlt, htook⟩ := (Reader.u16_iff id.1).1 ⟨hid, hok⟩
    by_cases hzero : id.1 = 0
    · refine .inr ⟨?_, ?_⟩
      · simp [make, hid, hok, hzero]
      · rintro ⟨id', rest, hpos, hlt', hbody⟩
        have hread := Reader.u16_u16Bytes hlt' rest
        rw [← hbody, hid] at hread
        rw [hread] at hzero
        exact hpos.ne' hzero
    · refine .inl ⟨id.1, id.2.rest, Nat.pos_of_ne_zero hzero, hlt, htook.rest, ?_⟩
      simp [make, hid, hok, hzero]
      rw [← hok]
  · refine .inr ⟨?_, ?_⟩
    · simp [make, hid, hok]
    · rintro ⟨id', rest, -, hlt', hbody⟩
      have hread := Reader.u16_u16Bytes hlt' rest
      rw [← hbody, hid] at hread
      rw [hread] at hok
      exact hok rfl

theorem entries_drains (body : Bytes) (withQos : Bool) :
    Drains (make body withQos) (entries body withQos).1 (entries body withQos).2 := by
  refine drain_drains ?_ ?_
  · obtain ⟨id, rest, -, -, hbody, hmake⟩ | ⟨herr, -⟩ := make_spec body withQos
    · left
      rw [hmake, hbody]
      simp only [u16Bytes, List.length_append, List.length_cons]
      omega
    · exact .inr herr
  · intro hgood
    obtain ⟨id, rest, -, -, hbody, hmake⟩ | ⟨herr, -⟩ := make_spec body withQos
    · rw [hmake]
    · exact absurd hgood herr

/-- **The list read when there is an id**: what `IsTopicList` says of the bytes behind it. -/
theorem isTopicList_iff {withQos : Bool} {rest : Bytes} {id id' : Nat} {es : List (Bytes × QoS)} (hpos : 0 < id)
    (hlt : id < 65536) : IsTopicList withQos (u16Bytes id ++ rest) id' es ↔
      id' = id ∧ es ≠ [] ∧ (∀ e ∈ es, IsEntry withQos e) ∧ rest = es.flatMap (entryBytes withQos) := by
  constructor
  · rintro ⟨-, hlt', hne, hes, hbody⟩
    have hread := Reader.u16_u16Bytes hlt rest
    rw [hbody, Reader.u16_u16Bytes hlt'] at hread
    cases hread
    exact ⟨rfl, hne, hes, rfl⟩
  · rintro ⟨rfl, hne, hes, rfl⟩
    exact ⟨hpos, hlt, hne, hes, rfl⟩

/-- A list that is the longest there is holds every list that ends where the bytes do. -/
theorem LongestPrefix.eq {withQos : Bool} {rest : Bytes} {es es' : List (Bytes × QoS)}
    (h : LongestPrefix withQos rest es) (hes' : ∀ e ∈ es', IsEntry withQos e)
    (hrest : rest = es'.flatMap (entryBytes withQos)) : es = es' := by
  obtain ⟨more, hmore⟩ := h.2 es' ⟨hes', [], by rw [hrest, List.append_nil]⟩
  obtain ⟨-, rest', hrest'⟩ := h.1
  rw [← hmore, hrest, List.flatMap_append, List.append_assoc] at hrest'
  have hnil : more.flatMap (entryBytes withQos) = [] :=
    (List.append_eq_nil_iff.1 (List.self_eq_append_right.1 hrest')).1
  cases more with
  | nil => rw [← hmore, List.append_nil]
  | cons e more =>
    rw [List.flatMap_cons, entryBytes, field, u16Bytes] at hnil
    cases hnil

theorem entries_of_id {id : Nat} (hpos : 0 < id) (hlt : id < 65536) (rest : Bytes) (withQos : Bool) :
    let r := entries (u16Bytes id ++ rest) withQos
    LongestPrefix withQos rest r.1 ∧ (r.2.err = .ok ↔ rest = r.1.flatMap (entryBytes withQos) ∧ 0 < r.1.length) ∧
      r.2.next = (none, r.2) ∧ r.2.packetId = id := by
  have hdrains := entries_drains (u16Bytes id ++ rest) withQos
  have hmake : make (u16Bytes id ++ rest) withQos = ⟨⟨rest, true⟩, id, 0, .ok, withQos⟩ := by
    simp [make, Reader.u16_u16Bytes hlt, hpos.ne']
  rw [hmake] at hdrains
  obtain ⟨hlongest, herr, hagain, hid⟩ := hdrains.spec ⟨rfl, rfl⟩
  exact ⟨hlongest, by simpa using herr, hagain, hid⟩

/-- **A topic list is read as it is.** -/
theorem entries_of_list {withQos : Bool} {body : Bytes} {id : Nat} {es : List (Bytes × QoS)}
    (h : IsTopicList withQos body id es) :
    (entries body withQos).1 = es ∧ (entries body withQos).2.err = .ok ∧ (entries body withQos).2.packetId = id := by
  obtain ⟨hpos, hlt, hne, hes, rfl⟩ := h
  obtain ⟨hlongest, herr, -, hid⟩ := entries_of_id hpos hlt (es.flatMap (entryBytes withQos)) withQos
  have heq := LongestPrefix.eq hlongest hes rfl
  rw [heq] at herr
  exact ⟨heq, herr.2 ⟨rfl, List.length_pos_iff.2 hne⟩, hid⟩

/-- **What is read without an error is a topic list.** -/
theorem list_of_entries {withQos : Bool} {body : Bytes} (h : (entries body withQos).2.err = .ok) :
    IsTopicList withQos body (entries body withQos).2.packetId (entries body withQos).1 := by
  obtain ⟨id, rest, hpos, hlt, rfl, -⟩ | ⟨herr, -⟩ := make_spec body withQos
  · obtain ⟨hlongest, herr, -, hid⟩ := entries_of_id hpos hlt rest withQos
    obtain ⟨hrest, hcount⟩ := herr.1 h
    rw [hid, isTopicList_iff hpos hlt]
    exact ⟨rfl, List.ne_nil_of_length_pos hcount, hlongest.1.1, hrest⟩
  · have hstop := (entries_drains body withQos).unique (.stop (next_of_err herr))
    rw [← hstop.2] at h
    exact absurd h herr

/-- **`TopicListParser` accepts exactly the topic list grammar.**  Calling `next` until it returns false ends; the
status is then `ok` exactly for a topic list, whose entries and id it has yielded.  On every body with an id it has
yielded the longest list of entries that the bytes behind the id begin with, and nothing without one; a later `next`
yields nothing and changes nothing. -/
theorem entries_grammar (body : Bytes) (withQos : Bool) :
    ∃ es p', Drains (make body withQos) es p' ∧ (∀ es₂ p₂, Drains (make body withQos) es₂ p₂ → es₂ = es ∧ p₂ = p') ∧
      entries body withQos = (es, p') ∧
      (p'.err = .ok ↔ ∃ id es', IsTopicList withQos body id es') ∧
      (∀ id es', IsTopicList withQos body id es' → es = es' ∧ p'.packetId = id) ∧
      (∀ id rest, 0 < id → id < 65536 → body = u16Bytes id ++ rest → LongestPrefix withQos rest es) ∧
      ((¬ ∃ id rest, 0 < id ∧ id < 65536 ∧ body = u16Bytes id ++ rest) → es = []) ∧
      p'.next = (none, p') := by
  have hdrains := entries_drains body withQos
  refine ⟨(entries body withQos).1, (entries body withQos).2, hdrains, fun _ _ h => hdrains.unique h, rfl, ?_, ?_, ?_,
    ?_, ?_⟩
  · refine ⟨fun h => ⟨_, _, list_of_entries h⟩, ?_⟩
    rintro ⟨id, es, h⟩
    exact (entries_of_list h).2.1
  · intro id es h
    exact ⟨(entries_of_list h).1, (entries_of_list h).2.2⟩
  · rintro id rest hpos hlt rfl
    exact (entries_of_id hpos hlt rest withQos).1
  · intro hnone
    obtain ⟨id, rest, hpos, hlt, hbody, -⟩ | ⟨herr, -⟩ := make_spec body withQos
    · exact absurd ⟨id, rest, hpos, hlt, hbody⟩ hnone
    · exact (hdrains.unique (.stop (next_of_err herr))).1.symm
  · obtain ⟨id, rest, hpos, hlt, rfl, -⟩ | ⟨herr, -⟩ := make_spec body withQos
    · exact (entries_of_id hpos hlt rest withQos).2.2.1
    · rw [← (hdrains.unique (.stop (next_of_err herr))).2]
      exact next_of_err herr

end TopicListParser

end Minimosq
