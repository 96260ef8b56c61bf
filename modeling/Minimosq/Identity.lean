import Minimosq.Tenancy
import Minimosq.Upkeep
import Mathlib.Data.Finset.Card
import Mathlib.Data.Finset.Range
/-!
# Who is who

No two live sessions have the same client id.  The ids the broker makes are apart from all others: a client may not
present one that begins as they do, and `generate_client_id` makes one nobody holds, since there are more of them than
sessions (`generateClientId_free`).  So a CONNECT never comes by the session of a client the broker named.
-/
namespace Minimosq

open History (Star)

variable {Ctx : Type} {P : Params Ctx}

/-! ## The ids the broker makes -/

theorem toU16_lt (n : Nat) : toU16 n < 65536 := Nat.mod_lt n (by omega)

/-- The number these decimal digits write. -/
def decimalValue (ds : Bytes) : Nat := ds.foldl (fun n d => 10 * n + (d.toNat - 48)) 0

theorem decimalValue_decimal : ∀ n v : Nat, v < 10 ^ n → decimalValue (decimal n v) = v
  | 0, v, hv => by
    rw [Nat.lt_one_iff.1 hv]
    rfl
  | n + 1, v, hv => by
    have hdigit : (UInt8.ofNat (48 + v % 10)).toNat - 48 = v % 10 := by
      rw [UInt8.toNat_ofNat']
      omega
    have ih := decimalValue_decimal n (v / 10) (by rw [pow_succ] at hv; omega)
    rw [decimal, decimalValue, List.foldl_append, List.foldl_cons, List.foldl_nil, hdigit]
    split
    · rename_i hzero
      simp only [List.foldl_nil]
      omega
    · rw [← decimalValue, ih]
      omega

theorem autoId_injective {v w : Nat} (hv : v < 65536) (hw : w < 65536) (h : autoId v = autoId w) : v = w := by
  have hdigits : decimal 5 v = decimal 5 w := List.append_cancel_left h
  rw [← decimalValue_decimal 5 v (by omega), hdigits, decimalValue_decimal 5 w (by omega)]

theorem autoId_reserved (n : Nat) : usesReservedPrefix (autoId n) = true :=
  List.isPrefixOf_iff_prefix.2 (List.prefix_append ..)

/-- The digit loop writes a number as it is usually written, with no leading zeros. -/
theorem decimal_canonical : ∀ n v : Nat, v < 10 ^ (n + 1) →
    decimal (n + 1) v = (Nat.toDigits 10 v).map (fun c => UInt8.ofNat c.toNat)
  | n, v, hv => by
    have hdigit : ∀ d < 10, UInt8.ofNat (48 + d) = UInt8.ofNat d.digitChar.toNat := by decide
    rw [decimal, hdigit _ (Nat.mod_lt v (by omega)), Nat.toDigits_eq_if (by omega)]
    by_cases hv10 : v < 10
    · rw [if_pos (Nat.div_eq_of_lt hv10), if_pos hv10, Nat.mod_eq_of_lt hv10]
      rfl
    rw [if_neg (by omega), if_neg hv10]
    cases n with
    | zero => exact absurd hv hv10
    | succ n =>
      rw [decimal_canonical n (v / 10) (by rw [pow_succ] at hv; omega), List.map_append]
      rfl

theorem decimal_length : ∀ n v : Nat, (decimal n v).length ≤ n
  | 0, _ => Nat.le_refl 0
  | n + 1, v => by
    have ih := decimal_length n (v / 10)
    rw [decimal, List.length_append, List.length_singleton]
    split
    · simp
    · omega

theorem autoId_length (v : Nat) : (autoId v).length ≤ 9 := by
  have hdigits := decimal_length 5 v
  have hmmq : Broker.autoIdPrefix.length = 4 := rfl
  rw [autoId, List.length_append]
  omega

/-- The loop stops at the first id that nobody holds. -/
theorem generateLoop_first (P : Params Ctx) (σ : Broker Ctx) : ∀ n v i : Nat, i < n →
    σ.findClient P (autoId (toU16 (v + 1 + i))) = none →
    ∃ j ≤ i, Broker.generateLoop P σ n v = toU16 (v + 1 + j) ∧
      σ.findClient P (autoId (toU16 (v + 1 + j))) = none ∧
      ∀ l < j, (σ.findClient P (autoId (toU16 (v + 1 + l)))).isSome = true
  | 0, _, _, hi, _ => absurd hi (Nat.not_lt_zero _)
  | n + 1, v, i, hi, hfree => by
    rw [Broker.generateLoop]
    split
    · rename_i hnone
      exact ⟨0, by omega, rfl, Option.isNone_iff_eq_none.1 hnone, fun _ hl => absurd hl (Nat.not_lt_zero _)⟩
    rename_i hheld
    have hround : ∀ l, toU16 (toU16 (v + 1) + 1 + l) = toU16 (v + 1 + (l + 1)) := fun l => by
      simp only [toU16]
      omega
    cases i with
    | zero => exact absurd (Option.isNone_iff_eq_none.2 hfree) hheld
    | succ i =>
      obtain ⟨j, hj, hloop, hnone, hbefore⟩ :=
        generateLoop_first P σ n (toU16 (v + 1)) i (by omega) (by rw [hround]; exact hfree)
      rw [hround] at hloop hnone
      refine ⟨j + 1, by omega, hloop, hnone, fun l hl => ?_⟩
      cases l with
      | zero => simpa [Option.isSome_iff_ne_none] using hheld
      | succ l =>
        rw [← hround]
        exact hbefore l (by omega)

/-- How many sessions are live. -/
def liveSessions (P : Params Ctx) (σ : Broker Ctx) : Nat := (σ.sessions.toList P.T.maxSessions).length

theorem liveSessions_le (P : Params Ctx) (σ : Broker Ctx) : liveSessions P σ ≤ P.T.maxSessions := by
  have hle := List.length_filterMap_le σ.sessions.slot (List.range P.T.maxSessions)
  rwa [List.length_range] at hle

theorem mem_clientIds {σ : Broker Ctx} {id : Bytes} (h : (σ.findClient P id).isSome = true) :
    id ∈ (σ.sessions.toList P.T.maxSessions).map (·.clientId) := by
  obtain ⟨k, hk⟩ := Option.isSome_iff_exists.1 h
  obtain ⟨s, hs, hid⟩ := findClient_some hk
  exact List.mem_map.2 ⟨s, List.mem_filterMap.2 ⟨k, List.mem_of_find?_eq_some hk, hs⟩, hid⟩

/-- Of the ids that follow, one more than there are sessions, one is free: else as many sessions would hold them. -/
theorem autoId_free (P : Params Ctx) (σ : Broker Ctx) (c : Nat) :
    ∃ i ≤ liveSessions P σ, σ.findClient P (autoId (toU16 (c + 1 + i))) = none := by
  by_contra hall
  have hheld : ∀ i ≤ liveSessions P σ, (σ.findClient P (autoId (toU16 (c + 1 + i)))).isSome = true := fun i hi =>
    Option.isSome_iff_ne_none.2 (fun hnone => hall ⟨i, hi, hnone⟩)
  have hlive := liveSessions_le P σ
  have hmax := P.T.sessions_le
  have hcard : (Finset.range (liveSessions P σ + 1)).card ≤
      ((σ.sessions.toList P.T.maxSessions).map (·.clientId)).toFinset.card := by
    refine Finset.card_le_card_of_injOn (fun i => autoId (toU16 (c + 1 + i))) (fun i hi => ?_) ?_
    · have hi : i < liveSessions P σ + 1 := by simpa using hi
      exact List.mem_toFinset.2 (mem_clientIds (hheld i (by omega)))
    · intro i hi j hj he
      have hi : i < liveSessions P σ + 1 := by simpa using hi
      have hj : j < liveSessions P σ + 1 := by simpa using hj
      have hsame := autoId_injective (toU16_lt _) (toU16_lt _) he
      simp only [toU16] at hsame
      omega
  have hnodes := List.toFinset_card_le ((σ.sessions.toList P.T.maxSessions).map (·.clientId))
  rw [Finset.card_range] at hcard
  rw [List.length_map] at hnodes
  have hlen : (σ.sessions.toList P.T.maxSessions).length = liveSessions P σ := rfl
  omega

/-- **`generate_client_id` stops**, after one turn more than there are live sessions at most, at the first id nobody
holds. -/
theorem generateLoop_stops (P : Params Ctx) (σ : Broker Ctx) : ∃ i ≤ liveSessions P σ,
    Broker.generateLoop P σ 0x10000 σ.autoIdCounter = toU16 (σ.autoIdCounter + 1 + i) ∧
    σ.findClient P (autoId (toU16 (σ.autoIdCounter + 1 + i))) = none ∧
    ∀ l < i, (σ.findClient P (autoId (toU16 (σ.autoIdCounter + 1 + l)))).isSome = true := by
  have hlive := liveSessions_le P σ
  have hmax := P.T.sessions_le
  obtain ⟨i, hi, hfree⟩ := autoId_free P σ σ.autoIdCounter
  obtain ⟨j, hj, hstops⟩ := generateLoop_first P σ 0x10000 σ.autoIdCounter i (by omega) hfree
  exact ⟨j, by omega, hstops⟩

/-- **`generate_client_id` makes an id nobody holds.** -/
theorem generateClientId_free (P : Params Ctx) (σ : Broker Ctx) : σ.findClient P (σ.generateClientId P).1 = none := by
  obtain ⟨i, -, hloop, hfree, -⟩ := generateLoop_stops P σ
  rw [Broker.generateClientId, hloop]
  exact hfree

/-- **The id `generate_client_id` comes back with**, from any counter and any sessions: "mmq-" and the decimal of a
16-bit number, nine bytes at most, that no live session has, the first such one after the counter.  It is found within
one turn more than there are live sessions; and the ids of two numbers are two. -/
theorem generateClientId_fresh (P : Params Ctx) (σ : Broker Ctx) :
    (∃ v i, v < 65536 ∧ i ≤ liveSessions P σ ∧ v = toU16 (σ.autoIdCounter + 1 + i) ∧
      σ.generateClientId P = (autoId v, { σ with autoIdCounter := v }) ∧
      autoId v = [109, 109, 113, 45] ++ (Nat.toDigits 10 v).map (fun c => UInt8.ofNat c.toNat) ∧
      (autoId v).length ≤ 9 ∧
      (∀ s ∈ σ.sessions.toList P.T.maxSessions, s.clientId ≠ autoId v) ∧
      ∀ l < i, ∃ s ∈ σ.sessions.toList P.T.maxSessions, s.clientId = autoId (toU16 (σ.autoIdCounter + 1 + l))) ∧
    ∀ v w, v < 65536 → w < 65536 → autoId v = autoId w → v = w := by
  obtain ⟨i, hi, hloop, hfree, hbefore⟩ := generateLoop_stops P σ
  refine ⟨⟨_, i, toU16_lt _, hi, rfl, ?_, ?_, autoId_length _, fun s hs hid => ?_, fun l hl => ?_⟩,
    fun v w hv hw he => autoId_injective hv hw he⟩
  · rw [Broker.generateClientId, hloop]
  · have hv : toU16 (σ.autoIdCounter + 1 + i) < 65536 := toU16_lt _
    rw [autoId, decimal_canonical 4 _ (by omega)]
    rfl
  · obtain ⟨k, hk, hslot⟩ := List.mem_filterMap.1 hs
    have hno := find_none hfree (List.mem_range.1 hk) hslot
    simp [hid] at hno
  · exact List.mem_map.1 (mem_clientIds (hbefore l hl))

/-! ## The sessions the broker named -/

/-- **The client id of the session in slot `k` was assigned by the broker**: a CONNECT without one was accepted for the
slot, which has not been released since. -/
def Assigned (k : Nat) (t : Trace Ctx) : Prop :=
  ∃ newer ci b present older p, t = newer ++ .bind k ci b present :: older ∧ .release k ∉ newer ∧ Received ci p older ∧
    p.clientId = []

section
variable {k : Nat} {h acts : Trace Ctx} {o o' : Option (Session Ctx)}

/-- A CONNECT is accepted for the session that is then in the slot. -/
theorem SlotStep.bound_client {s' : Session Ctx} (one : SlotStep P k h o acts (some s')) {ci : Nat} {b : Session Ctx}
    {present : Bool} (hb : .bind k ci b present ∈ acts) : b.SameClient s' := by
  cases one with
  | serve d => cases d.only_rests _ hb
  | alloc | detach | disconnect | submit => simp [submitNote] at hb
  | bind ci' p ctx =>
    cases List.mem_singleton.1 hb
    exact ⟨rfl, rfl⟩
  | @resume s _ new ci' p ctx e up _ _ _ _ _ run =>
    have hframe := run.inv (fun _ s' => s'.frame = (boundSession P.T ci' p ctx s).frame)
      (fun _ _ _ _ hs r => r.frame.trans hs) rfl
    have hnew : .bind k ci b present ∉ new := fun hmem => by cases Works.resume_delivers run _ hmem
    have he : b = boundSession P.T ci' p ctx s := by
      simp only [List.mem_cons, List.mem_append, hnew, reduceCtorEq, false_or, List.not_mem_nil, or_false,
        Act.bind.injEq] at hb
      exact hb.2.2.1
    rw [he]
    exact Session.sameClient_of_frame hframe

theorem SlotStep.vacates (one : SlotStep P k h o acts none) : acts = [.release k] := by
  cases one
  rfl

/-- **What a CONNECT leaves in its slot stays there** while only acts with the property `q` follow, none of which
releases the slot. -/
theorem SlotRun.since_bind {R : Session Ctx → Session Ctx → Prop} {q : Act Ctx → Prop} (hq : ¬q (.release k))
    (hbound : ∀ b s, b.SameClient s → R b s)
    (hkeep : ∀ {h acts s s' b}, SlotStep P k h (some s) acts (some s') → (∀ a ∈ acts, q a) → R b s → R b s')
    (run : SlotRun P k h o) : ∀ newer ci b present older, h = newer ++ .bind k ci b present :: older →
      (∀ a ∈ newer, q a) → ∃ s, o = some s ∧ R b s := by
  refine run.inv (fun h o => ∀ newer ci b present older, h = newer ++ .bind k ci b present :: older →
    (∀ a ∈ newer, q a) → ∃ s, o = some s ∧ R b s) (fun h o acts o' ih one => ?_) (by simp)
  intro newer ci b present older he hnewer
  -- the CONNECT is before this step, or part of it
  have hwhere : (∃ mid, newer = acts ++ mid ∧ h = mid ++ .bind k ci b present :: older) ∨
      .bind k ci b present ∈ acts := by
    rcases List.append_eq_append_iff.1 he with ⟨mid, hacts, hh⟩ | ⟨mid, hacts, hmid⟩
    · exact .inl ⟨mid, hacts, hh⟩
    · cases mid with
      | nil => exact .inl ⟨[], by simpa using hacts.symm, by simpa using hmid.symm⟩
      | cons a mid =>
        rw [List.cons_append, List.cons.injEq] at hmid
        exact .inr (by rw [hacts, ← hmid.1]; simp)
  cases o' with
  | none =>
    have hacts := one.vacates
    rcases hwhere with ⟨mid, rfl, -⟩ | hmem
    · exact absurd (hnewer _ (by simp [hacts])) hq
    · simp [hacts] at hmem
  | some s' =>
    refine ⟨s', rfl, ?_⟩
    rcases hwhere with ⟨mid, rfl, hh⟩ | hmem
    · obtain ⟨hacts, hmid⟩ := List.forall_mem_append.1 hnewer
      obtain ⟨s, rfl, hR⟩ := ih mid ci b present older hh hmid
      exact hkeep one hacts hR
    · exact hbound b s' (one.bound_client hmem)

/-- **From a CONNECT to the release of its slot the session there keeps its client id.** -/
theorem SlotRun.named (run : SlotRun P k h o) {newer older : Trace Ctx} {ci : Nat} {b : Session Ctx} {present : Bool}
    (he : h = newer ++ .bind k ci b present :: older) (hkept : .release k ∉ newer) :
    ∃ s, o = some s ∧ s.clientId = b.clientId :=
  run.since_bind (R := fun b s => s.clientId = b.clientId) (q := fun a => a ≠ .release k) (fun hne => hne rfl)
    (fun _ _ same => same.clientId) (fun one _ hid => one.clientId.trans hid) newer ci b present older he
    (fun _ ha hrel => hkept (hrel ▸ ha))

end

section
variable {σ : Broker Ctx} {ci k : Nat} {s : Session Ctx} {body : Bytes}

/-- The id the broker assigned begins as all of them do. -/
theorem Amid.reserved (hσ : Amid P σ) (hs : σ.sessions.slot k = some s) (hassigned : Assigned k σ.trace) :
    usesReservedPrefix s.clientId = true := by
  obtain ⟨newer, cj, b, present, older, p, he, hkept, hrec, hempty⟩ := hassigned
  have hslot : slotActs k σ.trace = slotActs k newer ++ .bind k cj b present :: slotActs k older := by
    rw [he, slotActs_append, slotActs_cons_own rfl]
  obtain ⟨s', hs', hid⟩ := (hσ.slotRun k).named hslot (fun hmem => hkept (List.mem_filter.1 hmem).1)
  rw [hs] at hs'
  cases hs'
  -- the CONNECT that was accepted is the one received last
  obtain ⟨⟨p', hasks, -⟩, -⟩ := History.each_iff.1 hσ.books.records newer _ older he
  have hp : p' = p := by
    obtain ⟨f, body, hlast, -, hp⟩ := hrec
    obtain ⟨f', body', hlast', -, hp'⟩ := hasks.received
    rw [hlast] at hlast'
    cases hlast'
    rw [hp] at hp'
    cases hp'
    rfl
  have hby := hasks.goesBy
  rw [hid]
  generalize b.clientId = clientId at hby ⊢
  cases hby with
  | presented hne => exact absurd (hp ▸ hempty) hne
  | assigned n => exact autoId_reserved n

/-- **A CONNECT that passes its checks goes by an id of its own**, not by one the broker made for a live session. -/
theorem Passes.unheld {p : ConnectPacket} {ctx : Ctx} {t : Trace Ctx} (pass : Passes P p (σ.identify P p).1 ctx t)
    (hL : Linked P none σ) (hs : σ.sessions.slot k = some s) (hres : usesReservedPrefix s.clientId = true) :
    s.clientId ≠ (σ.identify P p).1 := by
  intro he
  by_cases hempty : p.clientId = []
  · have hgen : (σ.identify P p).1 = (σ.generateClientId P).1 := by rw [Broker.identify, if_pos (by simp [hempty])]
    exact findClient_none hL (generateClientId_free P σ) k s hs (he.trans hgen)
  · have hfree := pass.unreserved hempty
    rw [← he, hres] at hfree
    cases hfree

/-- The CONNECT is accepted under the client id `clientId`, if at all. -/
def BindsAs (clientId : Bytes) (σ σ' : Broker Ctx) : Prop :=
  ∃ new, σ'.trace = new ++ σ.trace ∧ ∀ k ci b present, .bind k ci b present ∈ new → b.clientId = clientId

theorem Accepted.bindsAs {σ' : Broker Ctx} {b : Session Ctx} {present : Bool} (h : Accepted k ci b present σ σ') :
    BindsAs b.clientId σ σ' := by
  obtain ⟨newer, older, he, hnewer, holder⟩ := h
  refine ⟨newer ++ .bind k ci b present :: older, by simp [he], fun j cj b' present' hmem => ?_⟩
  rcases List.mem_append.1 hmem with hmem | hmem
  · cases hnewer _ hmem
  rcases List.mem_cons.1 hmem with he | hmem
  · cases he
    rfl
  · cases holder _ hmem

theorem Asking.bindsAs {p : ConnectPacket} {clientId : Bytes} {ctx : Ctx} (hr : Asking P ci p clientId ctx σ)
    (hL : Linked P none σ) : BindsAs clientId σ (σ.connectAccepted P ci p clientId ctx) := by
  have hout := connectAccepted_outcome hL hr.active hr.free hr.up p clientId ctx
  generalize σ.connectAccepted P ci p clientId ctx = σ' at hout ⊢
  cases hout with
  | full =>
    have hcode : ConnackCode.serverUnavailable ≠ .accepted := by simp
    obtain ⟨new, he, hnew⟩ := (quiet_refuse (P := P) (· = ci) rfl hcode clientId ⟨hr.active, hr.up⟩ hr.free).grows
    exact ⟨new, he, fun k ci b present hmem => by cases (hnew _ hmem).not_bind⟩
  | fresh room halloc =>
    have h := (room.accepted hr hL halloc).bindsAs
    rwa [(boundSession_fields ..).2.1, freshSession_clientId ctx hr.id] at h
  | resumed hclean hs hid hoff =>
    have h := (hr.resumed_accepted hL hclean hs hid hoff).bindsAs
    rwa [(boundSession_fields ..).2.1, hid] at h

/-- **A CONNECT binds nothing, or passes its checks and is bound under the id it goes by.** -/
theorem Entered.bindsAs (h : Entered P ci body σ) : Grows (Act.Still P) σ (σ.handleConnect P ci body) ∨
    ∃ p ctx, parseConnect body = .ok p ∧ Passes P p (σ.identify P p).1 ctx σ.trace ∧
      BindsAs (σ.identify P p).1 σ (σ.handleConnect P ci body) := by
  rcases (handleConnect_heard ci body σ).quiet h.active h.alive with ⟨n, q⟩ | ⟨p, ctx, hno, hp, pass, he⟩
  · exact .inl q.grows
  · obtain ⟨n, hn⟩ := identify_state P p σ
    have hask := pass.asking h.active hno h.alive (h.received p hp)
    have hL : Linked P none (σ.identify P p).2 := hn ▸ (counter_handled h.linked n : Handled P ci σ _).linked
    have hbinds := hask.bindsAs hL
    rw [BindsAs, show (σ.identify P p).2.trace = σ.trace by rw [hn], ← he] at hbinds
    exact .inr ⟨p, ctx, hp, pass, hbinds⟩

/-- **Client identity.**  In every state the broker passes through, no two live sessions have the same client id; and
whatever a CONNECT presents or is assigned, it does not find a live session whose id the broker assigned, nor is it ever
accepted under that id, nor is that session reported taken over. -/
theorem connect_identity (hσ : Amid P σ) :
    (∀ j k s s', σ.sessions.slot j = some s → σ.sessions.slot k = some s' → s.clientId = s'.clientId → j = k) ∧
    ∀ ci body, Connecting P ci body σ → ∀ k s, σ.sessions.slot k = some s → Assigned k σ.trace →
      (∀ p ctx, parseConnect body = .ok p → Passes P p (σ.identify P p).1 ctx σ.trace →
        (σ.identify P p).2.findClient P (σ.identify P p).1 ≠ some k) ∧
      ∃ new, (σ.handleConnect P ci body).trace = new ++ σ.trace ∧
        (∀ j cj b present, .bind j cj b present ∈ new → b.clientId ≠ s.clientId) ∧
        ∀ e, .event e (some k) ∈ new → e.kind ≠ .sessionTakenOver := by
  obtain ⟨out, hL⟩ := hσ.linked
  refine ⟨hL.unique, fun ci body hconn k s hs hassigned => ?_⟩
  have h := hconn.entered
  have hres := hσ.reserved hs hassigned
  have hlost : ∀ p ctx, parseConnect body = .ok p → Passes P p (σ.identify P p).1 ctx σ.trace →
      (σ.identify P p).2.findClient P (σ.identify P p).1 ≠ some k := by
    intro p ctx _ pass hfind
    obtain ⟨n, hn⟩ := identify_state P p σ
    obtain ⟨s', hs', hid⟩ := findClient_some hfind
    rw [hn, hs] at hs'
    cases hs'
    exact pass.unheld h.linked hs hres hid
  obtain ⟨v, hebbs, hfound⟩ := ebbs_handleConnect (· = ci) rfl h.linked h.active h.alive body
  obtain ⟨new, he, hnew⟩ := hebbs.acts
  refine ⟨hlost, new, he, fun j cj b present hmem hid => ?_, fun e hmem hkind => ?_⟩
  · rcases h.bindsAs with ⟨new', he', hstill⟩ | ⟨p, ctx, -, pass, new', he', hbinds⟩ <;>
      cases List.append_cancel_right (he.symm.trans he')
    · cases (hstill _ hmem).not_bind
    · exact pass.unheld h.linked hs hres (hid.symm.trans (hbinds j cj b present hmem))
  · -- the only session taken over is the one the CONNECT finds
    have hslot : e.kind.upkeep (some k == v) = true := hnew _ hmem
    rw [hkind] at hslot
    obtain ⟨p, ctx, hp, pass, hfind⟩ := hfound k (beq_iff_eq.1 hslot).symm
    exact hlost p ctx hp pass hfind

/-- A way to see it in a given trace: the CONNECT is its act number `i`. -/
theorem Amid.assigned (hσ : Amid P σ) (i : Nat) {a : Act Ctx} (ha : σ.trace[i]? = some a)
    (hbind : a.isBind = true ∧ a.slot = some k) (hkept : .release k ∉ σ.trace.take i)
    (hempty : ∀ x ∈ lastPacket (σ.trace.drop (i + 1)), (parseConnect x.2.2).toOption.map ConnectPacket.clientId = some
      []) :
    Assigned k σ.trace := by
  obtain ⟨hi, ha⟩ := List.getElem?_eq_some_iff.1 ha
  have he : σ.trace = σ.trace.take i ++ a :: σ.trace.drop (i + 1) := by
    rw [← ha, ← List.drop_eq_getElem_cons hi, List.take_append_drop]
  have hrec := History.each_iff.1 hσ.books.records _ a _ he
  cases a with
  | bind j cj b present =>
    obtain ⟨⟨p, hasks, -⟩, -⟩ := hrec
    cases hbind.2
    refine ⟨_, cj, b, present, _, p, he, hkept, hasks.received, ?_⟩
    obtain ⟨f, body, hlast, -, hp⟩ := hasks.received
    have := hempty _ hlast
    simpa [hp, Except.toOption] using this
  | _ => cases hbind.1

/-- Two clients without a client id: the second is not accepted as the first. -/
theorem connect_identity_twice : let P := bed (fun _ _ _ => true)
    let body := (Wire.makeConnect [] {}).drop 2
    ∃ σ s, Connecting P 1 body σ ∧ σ.sessions.slot 0 = some s ∧ s.clientId = autoId 1 ∧ Assigned 0 σ.trace ∧
      ∃ new, (σ.handleConnect P 1 body).trace = new ++ σ.trace ∧
        (∀ j cj b present, .bind j cj b present ∈ new → b.clientId ≠ s.clientId) ∧
        ∀ e, .event e (some 0) ∈ new → e.kind ≠ .sessionTakenOver := by
  intro P body
  let inputs := Input.connect 0 [] {} ++ [.connOpen 1 1000]
  obtain ⟨σ, hconn, hslot, hbind, hkept, hempty⟩ := exists_connecting 1 body inputs
    (fun σ => (σ.sessions.slot 0).map Session.clientId = some (autoId 1) ∧
      (σ.trace[4]?).map (fun x => (x.isBind, x.slot)) = some (true, some 0) ∧ Act.release 0 ∉ σ.trace.take 4 ∧
      ∀ x ∈ lastPacket (σ.trace.drop 5), (parseConnect x.2.2).toOption.map ConnectPacket.clientId = some [])
    (show 0 < ((run P inputs).arrivals P 1 (Wire.makeConnect [] {}) 1000).length by decide +kernel)
    (by decide +kernel)
  obtain ⟨s, hs, hid⟩ := Option.map_eq_some_iff.1 hslot
  obtain ⟨x, hx, hxb⟩ := Option.map_eq_some_iff.1 hbind
  obtain ⟨hxb, hxs⟩ := Prod.mk.inj hxb
  have hassigned : Assigned 0 σ.trace := hconn.entered.amid.assigned 4 hx ⟨hxb, hxs⟩ hkept hempty
  exact ⟨σ, s, hconn, hs, hid, hassigned, ((connect_identity hconn.entered.amid).2 1 body hconn 0 s hs hassigned).2⟩

end

end Minimosq
