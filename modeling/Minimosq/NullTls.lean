import Minimosq.Spell
import Minimosq.Tls
/-!
# The pass-through engine

`NullTlsEngine` copies bytes through unchanged.  A broker behind the adapter with this engine is the broker wired to
the raw transport: every call of the driver returns the same, makes the same calls of the raw transport in the same
order and leaves the broker in the same state, whatever the raw transport refuses.

The adapter adds bounds of its own, on the index and on the length of what passes.  That the broker never meets them is
a fact about the broker: what it sends is one packet, never empty and never longer than `out_size` (`Act.Mild`), and it
speaks only to connections that are there (`line_active`).
-/
namespace Minimosq

open History (Star)

variable {Ctx S : Type}

/-! ## Whom a call speaks to -/

section
variable {P : Params Ctx} {σ σ' : Broker Ctx} {new : Trace Ctx} {ci : Nat}

/-- A call of the transport with an index below `m` and, if it is a `send`, one to `size` bytes. -/
def Act.Proper (m size : Nat) : Act Ctx → Prop
  | .send ci pkt _ _ => ci < m ∧ pkt ≠ [] ∧ pkt.length ≤ size
  | .close ci => ci < m
  | _ => True

theorem proper_of_course {m size : Nat} (hC : Course P σ σ') (hnew : σ'.trace = new ++ σ.trace)
    (hopens : ∀ a ∈ new, a.opens = false)
    (hlt : ∀ ci, (σ.conns ci).active = true → ci < m) (hsize : P.T.outSize ≤ size) : ∀ a ∈ new, a.Proper m size := by
  intro a ha
  cases a with
  | send ci pkt ok tag =>
    obtain ⟨new', hnew', hmild⟩ := hC.mild
    have hsame : new = new' := List.append_cancel_right (hnew.symm.trans hnew')
    obtain ⟨type, -, hpkt⟩ := hmild _ (hsame ▸ ha)
    have hup := line_active hC hnew hopens ha rfl
    exact ⟨hlt ci hup, hpkt.ne_nil, Nat.le_trans hpkt.length_le hsize⟩
  | close ci => exact hlt ci (line_active hC hnew hopens ha rfl)
  | _ => trivial

end

/-! ## The engine and the bare broker -/

/-- Wiring demonstration only: copies bytes through unchanged. -/
def nullTlsEngine : Engine Unit where
  reset e := e
  onCiphertext e cipherIn plainCap :=
    if plainCap < cipherIn.length then { ok := false, engine := e } else { ok := true, plain := cipherIn, engine := e }
  encrypt e plain cipherCap :=
    if cipherCap < plain.length then { ok := false, engine := e } else { ok := true, cipher := plain, engine := e }
  drain := none

namespace Tls

/-- **The configuration compiles**: the adapter's own assertion, and the broker's of what the adapter publishes. -/
structure Compiles {E : Type} (tls : Tls E S) (T : Traits) : Prop where
  overhead : tls.recordOverhead < tls.cipherCapacity
  slots : tls.maxConnections = 0 ∨ T.maxConnections ≤ tls.maxConnections
  packets : tls.outBufSize = 0 ∨ T.outSize ≤ tls.outBufSize

/-- What the raw transport may call: indices below the adapter's, and bytes that fit its buffer. -/
def Call.Fair {E : Type} (tls : Tls E S) : Call S → Prop
  | .connOpen ci _ => ci < tls.maxConnections
  | .connClosed ci => ci < tls.maxConnections
  | .connData ci cipherIn _ => ci < tls.maxConnections ∧ cipherIn ≠ [] ∧ cipherIn.length ≤ tls.bufSize
  | _ => True

/-- The same calls to a broker wired directly to the raw transport. -/
def bareStep (raw : Transport S) (P : Params Ctx) (x : System Ctx S) : Call S → Option Err × System Ctx S
  | .connOpen ci nowMs => let r := x.connOpen raw P ci nowMs; (some r.1, r.2)
  | .connClosed ci => (none, x.connClosed raw P ci)
  | .connData ci data nowMs => let r := x.connData raw P ci data nowMs; (some r.1, r.2)
  | .tick nowMs => (none, x.tick raw P nowMs)
  | .publish topic payload qos retain => let r := x.publish raw P topic payload qos retain; (some r.1, r.2)
  | .raw s => (none, x.onTransport fun _ => s)

/-- What of a broker behind the adapter is there without it. -/
def bare {E : Type} (x : System Ctx (TlsAdapter E S)) : System Ctx S := ⟨x.broker, x.transport.raw⟩

/-- **The broker between two calls**: the indices it has in use are below `m`. -/
structure Within (P : Params Ctx) (m : Nat) (σ : Broker Ctx) : Prop where
  steady : Steady P σ
  lt : ∀ ci, (σ.conns ci).active = true → ci < m

theorem Compiles.outSize_le {E : Type} {tls : Tls E S} {T : Traits} (h : tls.Compiles T) : T.outSize ≤ tls.bufSize := by
  have hroom := h.overhead
  have hout : T.outSize ≤ tls.outBufSize := by
    refine h.packets.resolve_left ?_
    unfold outBufSize
    omega
  have hcap : tls.cipherCapacity ≤ tls.bufSize := by
    unfold cipherCapacity narrowerCapacity
    split
    · exact Nat.le_refl _
    split
    · omega
    · exact Nat.le_refl _
  unfold outBufSize at hout
  omega

section
variable {tls : Tls Unit S} {P : Params Ctx} {x : System Ctx (TlsAdapter Unit S)} {σ' : Broker Ctx} {new : Trace Ctx}

/-- **A packet goes through as it is.** -/
theorem send_raw (hengine : tls.engine = nullTlsEngine) (a : TlsAdapter Unit S) {ci : Nat} {pkt : Bytes}
    (hci : ci < tls.maxConnections) (hne : pkt ≠ []) (hfits : pkt.length ≤ tls.bufSize) :
    (tls.send a ci pkt).1 = (tls.raw.send a.raw ci pkt).1 ∧
      (tls.send a ci pkt).2.raw = (tls.raw.send a.raw ci pkt).2 := by
  have hencrypt : tls.engine.encrypt (a.engines ci) pkt tls.bufSize = { ok := true, cipher := pkt, engine := () } := by
    rw [hengine]
    exact if_neg (Nat.not_lt.2 hfits)
  have hempty : pkt.isEmpty = false := by simpa using hne
  unfold send
  rw [if_neg (Nat.not_le.2 hci), hencrypt]
  simp only [hempty, Bool.not_true, Bool.false_or, decide_eq_true_eq, Nat.not_lt.2 hfits, if_false, Bool.false_eq_true]
  exact ⟨rfl, rfl⟩

theorem after_raw (hengine : tls.engine = nullTlsEngine) (a : TlsAdapter Unit S) : ∀ acts : Trace Ctx,
    (∀ b ∈ acts, b.Proper tls.maxConnections tls.bufSize) → (tls.policy.after a acts).raw = tls.raw.after a.raw acts
  | [], _ => rfl
  | b :: acts, h => by
    obtain ⟨hb, hrest⟩ := List.forall_mem_cons.1 h
    have ih := after_raw hengine a acts hrest
    cases b with
    | send ci pkt ok tag =>
      have hraw := (send_raw hengine (tls.policy.after a acts) hb.1 hb.2.1 hb.2.2).2
      rw [ih] at hraw
      exact hraw
    | close ci =>
      have hclose : tls.policy.close (tls.policy.after a acts) ci = { setOpen ci false (tls.policy.after a acts) with
          raw := tls.raw.close (tls.policy.after a acts).raw ci } := if_pos hb
      have hraw := congrArg TlsAdapter.raw hclose
      dsimp only at hraw
      rw [ih] at hraw
      exact hraw
    | _ => exact ih

/-- **The adapter gives the verdicts of the raw transport**, call by call. -/
theorem gives_of_proper (hengine : tls.engine = nullTlsEngine) (σ : Broker Ctx) (a : TlsAdapter Unit S) {t : Trace Ctx}
    (hnew : t = new ++ σ.trace) (hproper : ∀ b ∈ new, b.Proper tls.maxConnections tls.bufSize) :
    Gives (P.over tls.raw a.raw σ) (tls.policy.verdict a σ.trace.length) σ.trace.length t := by
  intro ci pkt ok tag older hsuffix hlen
  obtain ⟨later, hlater⟩ := hsuffix
  -- `older` is the trace before the call with some of the call's acts before it
  obtain ⟨acts, rfl⟩ : ∃ acts, older = acts ++ σ.trace := by
    have hold : σ.trace <:+ t := hnew ▸ List.suffix_append new σ.trace
    have hthis : older <:+ t := ⟨later ++ [.send ci pkt ok tag], by rw [← hlater]; simp⟩
    obtain ⟨acts, hacts⟩ := List.suffix_of_suffix_length_le hold hthis hlen
    exact ⟨acts, hacts.symm⟩
  have hsplit : new = later ++ .send ci pkt ok tag :: acts := by
    have hboth : new ++ σ.trace = (later ++ .send ci pkt ok tag :: acts) ++ σ.trace := by
      rw [← hnew, ← hlater]
      simp
    exact List.append_cancel_right hboth
  have htake : (acts ++ σ.trace).take ((acts ++ σ.trace).length - σ.trace.length) = acts := by
    rw [List.length_append, Nat.add_sub_cancel]
    exact List.take_left' rfl
  have hsend := hproper (.send ci pkt ok tag) (by rw [hsplit]; simp)
  have hacts : ∀ b ∈ acts, b.Proper tls.maxConnections tls.bufSize :=
    fun b hb => hproper b (by rw [hsplit]; simp [hb])
  change (tls.send (tls.policy.after a _) ci pkt).1 = (tls.raw.send (tls.raw.after a.raw _) ci pkt).1
  rw [htake, (send_raw hengine _ hsend.1 hsend.2.1 hsend.2.2).1, after_raw hengine a acts hacts]

theorem moved_bare (hengine : tls.engine = nullTlsEngine) (hnew : σ'.trace = new ++ x.broker.trace)
    (hproper : ∀ b ∈ new, b.Proper tls.maxConnections tls.bufSize) :
    bare (x.moved tls.policy σ') = (bare x).moved tls.raw σ' := by
  have hraw := after_raw hengine x.transport new hproper
  rw [← actsSince_eq hnew] at hraw
  exact congrArg (System.mk σ') hraw

/-- **A call that is none of its transport's own** ends in the same over both. -/
theorem call_bare (hengine : tls.engine = nullTlsEngine) (hsize : P.T.outSize ≤ tls.bufSize)
    (h : Within P tls.maxConnections x.broker) {α : Type} {f : α → Broker Ctx} {r r' : α}
    (hcall : Follows (P.over tls.raw x.transport.raw x.broker) (tls.policy.verdict x.transport x.broker.trace.length)
      x.broker.trace.length (fun r => (f r).trace) x.broker.trace r r')
    (hst : Stepped (P.over tls.raw x.transport.raw x.broker) x.broker (f r)) :
    r = r' ∧ bare (x.moved tls.policy (f r')) = (bare x).moved tls.raw (f r) := by
  obtain ⟨new, hnew, hin⟩ := hcall.acts
  have hproper := proper_of_course hst.toCourse hnew (fun b hb => b.opens_of_indoor (hin b hb)) h.lt hsize
  have hsame := hcall.same (Nat.le_refl _) (gives_of_proper hengine x.broker x.transport hnew hproper)
  rw [← hsame]
  exact ⟨rfl, moved_bare hengine hnew hproper⟩

/-- `conn_closed`: if the broker knows the connection, its index is in range. -/
theorem connClosed_bare (hengine : tls.engine = nullTlsEngine) (hsize : P.T.outSize ≤ tls.bufSize)
    (h : Within P tls.maxConnections x.broker) (ci : Nat) :
    bare (x.connClosed tls.policy P ci) = (bare x).connClosed tls.raw P ci := by
  have hst := connClosed_stepped (P := P.over tls.raw x.transport.raw x.broker) h.steady.sound.wired ci
  obtain ⟨new, hnew, hopens⟩ := unopened_step (P.over tls.raw x.transport.raw x.broker) x.broker (i := .connClosed ci)
    (by simp)
  have hproper := proper_of_course hst.toCourse hnew hopens h.lt hsize
  have hsame := connClosed_same ci x.broker (Nat.le_refl _)
    (gives_of_proper (P := P) hengine x.broker x.transport hnew hproper)
  have hmoved := moved_bare (x := x) hengine hnew hproper
  unfold System.connClosed
  rw [show x.broker.connClosed (P.over tls.policy x.transport x.broker) ci =
    x.broker.connClosed (P.over tls.raw x.transport.raw x.broker) ci from hsame.symm]
  exact hmoved

/-! ## Call by call -/

theorem Within.of_ends {m : Nat} {σ : Broker Ctx} {acts : Trace Ctx} (h : Within P m σ)
    (hcall : Steady P σ' ∧ Ends (fun _ => False) acts σ σ') : Within P m σ' where
  steady := hcall.1
  lt ci hact := by
    rw [hcall.2.active ci id, Bool.and_eq_true] at hact
    exact h.lt ci hact.1

/-- **A call through the driver and the call without it**: the same is returned, the broker and the raw transport are
left in the same state, and no index in use is out of range. -/
structure Tallies (tls : Tls Unit S) (P : Params Ctx) (r : Option Err × System Ctx (TlsAdapter Unit S))
    (direct : Option Err × System Ctx S) : Prop where
  answer : r.1 = direct.1
  state : bare r.2 = direct.2
  within : Within P tls.maxConnections r.2.broker

theorem connOpen_tallies (h : Within P tls.maxConnections x.broker) {ci : Nat} (hci : ci < tls.maxConnections)
    (nowMs : Nat) :
    Tallies tls P (tls.step P x (.connOpen ci nowMs)) (bareStep tls.raw P (bare x) (.connOpen ci nowMs)) := by
  have hstep : tls.connOpen P ci nowMs x = (x.onTransport fun a =>
      setOpen ci true (setEngine ci (tls.engine.reset (a.engines ci)) a)).connOpen tls.policy P ci nowMs :=
    if_neg (Nat.not_le.2 hci)
  generalize hf : (fun a => setOpen ci true (setEngine ci (tls.engine.reset (a.engines ci)) a)) = f at hstep
  have hraw : (f x.transport).raw = x.transport.raw := by rw [← hf]; rfl
  obtain ⟨hsteady, -, hactive, hafter⟩ := connOpen_steady (S := TlsAdapter Unit S)
    (v := tls.policy.verdict (f x.transport) x.broker.trace.length) h.steady ci nowMs
  obtain ⟨-, -, -, hafter'⟩ := connOpen_steady (S := S)
    (v := tls.raw.verdict x.transport.raw x.broker.trace.length) h.steady ci nowMs
  have hstate := hafter tls.policy (f x.transport)
  have hstate' := hafter' tls.raw x.transport.raw
  refine ⟨?_, ?_, ?_⟩
  · change some (tls.connOpen P ci nowMs x).1 = _
    rw [hstep]
    rfl
  · change bare (tls.connOpen P ci nowMs x).2 = _
    rw [hstep]
    refine congrArg (System.mk _) ?_
    rw [show ((x.onTransport f).connOpen tls.policy P ci nowMs).2.transport = f x.transport from hstate, hraw]
    exact hstate'.symm
  · change Within P _ (tls.connOpen P ci nowMs x).2.broker
    rw [hstep]
    refine ⟨hsteady, fun j hact => ?_⟩
    have hact := (hactive j).symm.trans hact
    rw [Bool.or_eq_true, decide_eq_true_eq] at hact
    rcases hact with hact | hj
    · exact h.lt j hact
    · exact hj.1 ▸ hci

theorem connClosed_tallies (hengine : tls.engine = nullTlsEngine) (hsize : P.T.outSize ≤ tls.bufSize)
    (h : Within P tls.maxConnections x.broker) {ci : Nat} (hci : ci < tls.maxConnections) :
    Tallies tls P (tls.step P x (.connClosed ci)) (bareStep tls.raw P (bare x) (.connClosed ci)) := by
  have hstep : tls.connClosed P ci x = (x.onTransport (setOpen ci false)).connClosed tls.policy P ci := if_pos hci
  have hbare := connClosed_bare (x := x.onTransport (setOpen ci false)) hengine hsize h ci
  obtain ⟨hsteady, hgone, hends⟩ := connClosed_steady (v := tls.policy.verdict (setOpen ci false x.transport)
    x.broker.trace.length) h.steady ci
  refine ⟨rfl, (congrArg bare hstep).trans hbare, ?_⟩
  change Within P _ (tls.connClosed P ci x).broker
  rw [hstep]
  refine ⟨hsteady, fun j hact => ?_⟩
  by_cases hj : j = ci
  · exact hj ▸ hci
  · have hact := (hends.active j hj).symm.trans hact
    rw [Bool.and_eq_true] at hact
    exact h.lt j hact.1

theorem connData_tallies (hengine : tls.engine = nullTlsEngine) (hsize : P.T.outSize ≤ tls.bufSize)
    (h : Within P tls.maxConnections x.broker) {ci : Nat} (hci : ci < tls.maxConnections) {data : Bytes}
    (hne : data ≠ []) (hfits : data.length ≤ tls.bufSize) (nowMs : Nat) :
    Tallies tls P (tls.step P x (.connData ci data nowMs)) (bareStep tls.raw P (bare x) (.connData ci data nowMs)) := by
  have hdecrypt : tls.engine.onCiphertext (x.transport.engines ci) data tls.bufSize =
      { ok := true, plain := data, engine := () } := by
    rw [hengine]
    exact if_neg (Nat.not_lt.2 hfits)
  have hempty : data.isEmpty = false := by simpa using hne
  have hstep : tls.connData P ci data nowMs x =
      (x.onTransport (setEngine ci ())).connData tls.policy P ci data nowMs := by
    unfold connData
    rw [if_neg (Nat.not_le.2 hci), hdecrypt]
    simp only [hempty, Bool.not_true, Nat.not_lt.2 hfits, List.length_nil, Nat.not_lt_zero,
      Bool.false_eq_true, if_false, List.isEmpty_nil, if_true, Bool.or_self, decide_false]
    rfl
  have hcall := call_bare (x := x.onTransport (setEngine ci ())) hengine hsize h
    (follows_connData ci data nowMs x.broker) (connData_stepped h.steady.sound.wired ci data nowMs)
  have hwithin := h.of_ends (connData_steady (v := tls.policy.verdict (setEngine ci () x.transport)
    x.broker.trace.length) h.steady ci data nowMs)
  refine ⟨?_, ?_, ?_⟩
  · change some (tls.connData P ci data nowMs x).1 = _
    rw [hstep]
    exact congrArg (fun r : Err × Broker Ctx => some r.1) hcall.1.symm
  · change bare (tls.connData P ci data nowMs x).2 = _
    rw [hstep]
    exact hcall.2
  · change Within P _ (tls.connData P ci data nowMs x).2.broker
    rw [hstep]
    exact hwithin

theorem tick_tallies (hengine : tls.engine = nullTlsEngine) (hsize : P.T.outSize ≤ tls.bufSize)
    (h : Within P tls.maxConnections x.broker) (nowMs : Nat) :
    Tallies tls P (tls.step P x (.tick nowMs)) (bareStep tls.raw P (bare x) (.tick nowMs)) := by
  have hdrain : tls.drainEngines P x = x := by
    unfold drainEngines
    rw [hengine]
    rfl
  have hstep : tls.tick P nowMs x = x.tick tls.policy P nowMs := by rw [tick, hdrain]
  have hcall := call_bare (f := id) hengine hsize h (repeats_tick nowMs x.broker)
    (tick_stepped h.steady.sound.wired nowMs)
  have hwithin := h.of_ends (tick_steady (v := tls.policy.verdict x.transport x.broker.trace.length) h.steady nowMs)
  refine ⟨rfl, (congrArg bare hstep).trans hcall.2, ?_⟩
  change Within P _ (tls.tick P nowMs x).broker
  rw [hstep]
  exact hwithin

theorem publish_tallies (hengine : tls.engine = nullTlsEngine) (hsize : P.T.outSize ≤ tls.bufSize)
    (h : Within P tls.maxConnections x.broker) (topic payload : Bytes) (qos : QoS) (retain : Bool) :
    Tallies tls P (tls.step P x (.publish topic payload qos retain))
      (bareStep tls.raw P (bare x) (.publish topic payload qos retain)) := by
  have hcall := call_bare hengine hsize h (follows_publish topic payload qos retain x.broker)
    (publish_stepped h.steady.sound.wired topic payload qos retain)
  have hwithin := h.of_ends (publish_steady (v := tls.policy.verdict x.transport x.broker.trace.length) h.steady topic
    payload qos retain)
  exact ⟨congrArg (fun r : Err × Broker Ctx => some r.1) hcall.1.symm, hcall.2, hwithin⟩

/-- **One call through the driver is the call without it.** -/
theorem step_tallies (hengine : tls.engine = nullTlsEngine) (hsize : P.T.outSize ≤ tls.bufSize)
    (h : Within P tls.maxConnections x.broker) (call : Call S) (hfair : call.Fair tls) :
    Tallies tls P (tls.step P x call) (bareStep tls.raw P (bare x) call) := by
  cases call with
  | connOpen ci nowMs => exact connOpen_tallies h hfair nowMs
  | connClosed ci => exact connClosed_tallies hengine hsize h hfair
  | connData ci data nowMs => exact connData_tallies hengine hsize h hfair.1 hfair.2.1 hfair.2.2 nowMs
  | tick nowMs => exact tick_tallies hengine hsize h nowMs
  | publish topic payload qos retain => exact publish_tallies hengine hsize h topic payload qos retain
  | raw s => exact ⟨rfl, rfl, h⟩

end

end Tls

/-! ## Whole runs, with what the raw transport was called with -/

/-- A call of the raw transport. -/
inductive RawCall
  | send (ci : Nat) (bytes : Bytes)
  | close (ci : Nat)
  deriving DecidableEq, Repr

/-- The transport, with a record of its calls, the newest first. -/
def Transport.recorded (tr : Transport S) : Transport (S × List RawCall) where
  send s ci bytes := ((tr.send s.1 ci bytes).1, ((tr.send s.1 ci bytes).2, .send ci bytes :: s.2))
  close s ci := (tr.close s.1 ci, .close ci :: s.2)

namespace Tls

/-- The adapter over a raw transport that keeps a record. -/
def recorded {E : Type} (tls : Tls E S) : Tls E (S × List RawCall) where
  engine := tls.engine
  raw := tls.raw.recorded
  maxConns := tls.maxConns
  bufSize := tls.bufSize
  rawMaxConnections := tls.rawMaxConnections
  rawOutBufSize := tls.rawOutBufSize
  recordOverhead := tls.recordOverhead

/-- The same call; what the raw transport does of its own is not on the record. -/
def Call.recorded (record : List RawCall) : Call S → Call (S × List RawCall)
  | .connOpen ci nowMs => .connOpen ci nowMs
  | .connClosed ci => .connClosed ci
  | .connData ci cipherIn nowMs => .connData ci cipherIn nowMs
  | .tick nowMs => .tick nowMs
  | .publish topic payload qos retain => .publish topic payload qos retain
  | .raw s => .raw (s, record)

/-- Everything these calls return, and where they end. -/
def runCalls {X : Type} (step : X → Call S → Option Err × X) : X → List (Call S) → List (Option Err) × X
  | x, [] => ([], x)
  | x, call :: calls =>
    let rest := runCalls step (step x call).2 calls
    ((step x call).1 :: rest.1, rest.2)

def recordedStep {E : Type} (tls : Tls E S) (P : Params Ctx) (x : System Ctx (TlsAdapter E (S × List RawCall)))
    (call : Call S) : Option Err × System Ctx (TlsAdapter E (S × List RawCall)) :=
  tls.recorded.step P x (call.recorded x.transport.raw.2)

def recordedBareStep (raw : Transport S) (P : Params Ctx) (x : System Ctx (S × List RawCall)) (call : Call S) :
    Option Err × System Ctx (S × List RawCall) := bareStep raw.recorded P x (call.recorded x.transport.2)

/-- **Behind the pass-through engine the broker is the bare broker.**  Both return the same, call by call, end in the
same broker state, and leave the raw transport, with the record of its calls, the same. -/
theorem null_transparent (tls : Tls Unit S) (hengine : tls.engine = nullTlsEngine) (P : Params Ctx)
    (hcompiles : tls.Compiles P.T) (s : S) (calls : List (Call S)) (hfair : ∀ call ∈ calls, call.Fair tls) :
    (runCalls (tls.recordedStep P) (start (s, []) fun _ => ()) calls).1 =
        (runCalls (recordedBareStep tls.raw P) ⟨.init, (s, [])⟩ calls).1 ∧
      (runCalls (tls.recordedStep P) (start (s, []) fun _ => ()) calls).2.broker =
        (runCalls (recordedBareStep tls.raw P) ⟨.init, (s, [])⟩ calls).2.broker ∧
      (runCalls (tls.recordedStep P) (start (s, []) fun _ => ()) calls).2.transport.raw =
        (runCalls (recordedBareStep tls.raw P) ⟨.init, (s, [])⟩ calls).2.transport := by
  have hrun : ∀ (calls : List (Call S)) (x : System Ctx (TlsAdapter Unit (S × List RawCall))),
      Within P tls.maxConnections x.broker → (∀ call ∈ calls, call.Fair tls) →
      (runCalls (tls.recordedStep P) x calls).1 = (runCalls (recordedBareStep tls.raw P) (bare x) calls).1 ∧
        bare (runCalls (tls.recordedStep P) x calls).2 = (runCalls (recordedBareStep tls.raw P) (bare x) calls).2 := by
    intro calls
    induction calls with
    | nil => exact fun _ _ _ => ⟨rfl, rfl⟩
    | cons call calls ih =>
      intro x h hfair
      obtain ⟨hcall, hrest⟩ := List.forall_mem_cons.1 hfair
      have hcall' : (call.recorded x.transport.raw.2).Fair tls.recorded := by cases call <;> exact hcall
      have hstep : Tallies tls.recorded P (tls.recordedStep P x call) (recordedBareStep tls.raw P (bare x) call) :=
        step_tallies (show tls.recorded.engine = nullTlsEngine from hengine) hcompiles.outSize_le h _ hcall'
      have hnext := ih (tls.recordedStep P x call).2 hstep.within hrest
      rw [hstep.state] at hnext
      exact ⟨congrArg₂ List.cons hstep.answer hnext.1, hnext.2⟩
  have h := hrun calls (start (s, []) fun _ => ()) ⟨init_steady P, fun _ h => by (cases h)⟩ hfair
  exact ⟨h.1, congrArg System.broker h.2, congrArg System.transport h.2⟩

/-- A pass-through adapter over a transport that counts its `send`s and refuses the third. -/
def choosy : Tls Unit Nat where
  engine := nullTlsEngine
  raw := ⟨fun n _ _ => (n != 2, n + 1), fun n _ => n⟩
  maxConns := 4
  bufSize := 512

/-- A client connects and pings twice. -/
def twoPings : List (Call Nat) :=
  [.connOpen 0 1000, .connData 0 (Wire.makeConnect [99] {}) 1001, .connData 0 (Wire.makeEmpty .pingreq) 1002,
    .connData 0 (Wire.makeEmpty .pingreq) 1003, .tick 1004]

theorem null_transparent_twoPings :
    (runCalls (recordedBareStep choosy.raw (bed fun _ _ _ => true)) ⟨.init, (0, [])⟩ twoPings).2.transport =
        (3, [.close 0, .send 0 [0xd0, 0], .send 0 [0xd0, 0], .send 0 [0x20, 2, 0, 0]]) ∧
      (runCalls (choosy.recordedStep (bed fun _ _ _ => true)) (start (0, []) fun _ => ()) twoPings).1 =
        (runCalls (recordedBareStep choosy.raw (bed fun _ _ _ => true)) ⟨.init, (0, [])⟩ twoPings).1 ∧
      (runCalls (choosy.recordedStep (bed fun _ _ _ => true)) (start (0, []) fun _ => ()) twoPings).2.broker =
        (runCalls (recordedBareStep choosy.raw (bed fun _ _ _ => true)) ⟨.init, (0, [])⟩ twoPings).2.broker ∧
      (runCalls (choosy.recordedStep (bed fun _ _ _ => true)) (start (0, []) fun _ => ()) twoPings).2.transport.raw =
        (runCalls (recordedBareStep choosy.raw (bed fun _ _ _ => true)) ⟨.init, (0, [])⟩ twoPings).2.transport := by
  have hcompiles : choosy.Compiles (bed fun _ _ _ => true).T := ⟨by decide, by decide, by decide⟩
  refine ⟨by decide +kernel, null_transparent choosy rfl (bed fun _ _ _ => true) hcompiles 0 twoPings ?_⟩
  intro call hmem
  simp only [twoPings, List.mem_cons, List.not_mem_nil, or_false] at hmem
  rcases hmem with rfl | rfl | rfl | rfl | rfl
  · exact (by decide : 0 < choosy.maxConnections)
  · exact (by decide +kernel : 0 < choosy.maxConnections ∧ Wire.makeConnect [99] {} ≠ [] ∧
      (Wire.makeConnect [99] {}).length ≤ choosy.bufSize)
  · exact (by decide +kernel : 0 < choosy.maxConnections ∧ Wire.makeEmpty .pingreq ≠ [] ∧
      (Wire.makeEmpty .pingreq).length ≤ choosy.bufSize)
  · exact (by decide +kernel : 0 < choosy.maxConnections ∧ Wire.makeEmpty .pingreq ≠ [] ∧
      (Wire.makeEmpty .pingreq).length ≤ choosy.bufSize)
  · trivial

end Tls

end Minimosq
