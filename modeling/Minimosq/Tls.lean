import Minimosq.Bed
import Minimosq.Transport
/-!
# The TLS adapter

`transports/tls_adapter.hpp`: an engine for each connection between the broker and a raw transport.  To the broker the
adapter is a transport; to the raw transport its `Driver` is the broker.  An engine writes into the adapter's buffers
and reports a length; here it hands over the bytes it reports, which the adapter takes or, if they are more than its
buffers hold, leaves unread.  Engines and raw transport answer as they like.
-/
namespace Minimosq

variable {Ctx E S : Type}

/-- What an engine reports: whether the call succeeded, the plaintext and the ciphertext it wrote, and its own state. -/
structure Report (E : Type) where
  ok : Bool
  plain : Bytes := []
  cipher : Bytes := []
  engine : E

/-- The `Engine` interface; `none` is an engine that does not offer `drain`. -/
structure Engine (E : Type) where
  reset : E → E
  onCiphertext : E → Bytes → Nat → Report E
  encrypt : E → Bytes → Nat → Report E
  drain : Option (E → Nat → Report E)

def narrowerCapacity (own wrapped : Nat) : Nat := if wrapped = 0 then own else if wrapped < own then wrapped else own

/-- The template parameters of `TlsAdapter`, with what the raw transport and the engine publish (0 when they do not). -/
structure Tls (E S : Type) where
  engine : Engine E
  raw : Transport S
  maxConns : Nat
  bufSize : Nat
  rawMaxConnections : Nat := 0
  rawOutBufSize : Nat := 0
  recordOverhead : Nat := 0

structure TlsAdapter (E S : Type) where
  raw : S
  engines : Nat → E
  engineOpen : Nat → Bool := fun _ => false
  /-- Every call of `drain`: the connection, and whether the broker's is active at that moment. -/
  drains : List (Nat × Bool) := []

namespace Tls

def maxConnections (tls : Tls E S) : Nat := narrowerCapacity tls.maxConns tls.rawMaxConnections

def cipherCapacity (tls : Tls E S) : Nat := narrowerCapacity tls.bufSize tls.rawOutBufSize

def outBufSize (tls : Tls E S) : Nat := tls.cipherCapacity - tls.recordOverhead

/-- The engine of connection `ci` is left as it reports. -/
def setEngine (ci : Nat) (e : E) (a : TlsAdapter E S) : TlsAdapter E S :=
  { a with engines := Function.update a.engines ci e }

def setOpen (ci : Nat) (b : Bool) (a : TlsAdapter E S) : TlsAdapter E S :=
  { a with engineOpen := Function.update a.engineOpen ci b }

def send (tls : Tls E S) (a : TlsAdapter E S) (ci : Nat) (plaintext : Bytes) : Bool × TlsAdapter E S :=
  if tls.maxConnections ≤ ci then (false, a)
  else
    let r := tls.engine.encrypt (a.engines ci) plaintext tls.bufSize
    let a := setEngine ci r.engine a
    if !r.ok || decide (tls.bufSize < r.cipher.length) then (false, a)
    else if r.cipher.isEmpty then (true, a)
    else
      let sent := tls.raw.send a.raw ci r.cipher
      (sent.1, { a with raw := sent.2 })

def close (tls : Tls E S) (a : TlsAdapter E S) (ci : Nat) : TlsAdapter E S :=
  if ci < tls.maxConnections then { setOpen ci false a with raw := tls.raw.close a.raw ci } else a

/-- The transport policy the broker is given. -/
def policy (tls : Tls E S) : Transport (TlsAdapter E S) := ⟨tls.send, tls.close⟩

/-- The engine of connection `ci` has been asked to `drain`. -/
def drained (ci : Nat) (e : E) (known : Bool) (a : TlsAdapter E S) : TlsAdapter E S :=
  { setEngine ci e a with drains := (ci, known) :: a.drains }

/-- One visit of the loop of `drain_engines`. -/
def drainOne (tls : Tls E S) (P : Params Ctx) (drain : E → Nat → Report E) (x : System Ctx (TlsAdapter E S))
    (ci : Nat) : System Ctx (TlsAdapter E S) :=
  if !x.transport.engineOpen ci then x
  else
    let r := drain (x.transport.engines ci) tls.bufSize
    let ok := r.ok && decide (r.cipher.length ≤ tls.bufSize)
    let a := drained ci r.engine (x.broker.conns ci).active x.transport
    if ok && r.cipher.isEmpty then ⟨x.broker, a⟩
    else
      let sent := tls.raw.send a.raw ci r.cipher
      if ok && sent.1 then ⟨x.broker, { a with raw := sent.2 }⟩
      else
        let raw := if ok then sent.2 else a.raw
        System.connClosed tls.policy P ci ⟨x.broker, { setOpen ci false a with raw := tls.raw.close raw ci }⟩

def drainEngines (tls : Tls E S) (P : Params Ctx) (x : System Ctx (TlsAdapter E S)) : System Ctx (TlsAdapter E S) :=
  match tls.engine.drain with
  | none => x
  | some drain => (List.range tls.maxConnections).foldl (drainOne tls P drain) x

/-! ## The driver the raw transport calls -/

def connOpen (tls : Tls E S) (P : Params Ctx) (ci nowMs : Nat) (x : System Ctx (TlsAdapter E S)) :
    Err × System Ctx (TlsAdapter E S) :=
  if tls.maxConnections ≤ ci then (.state, x)
  else
    (x.onTransport (fun a => setOpen ci true (setEngine ci (tls.engine.reset (a.engines ci)) a))).connOpen tls.policy P
      ci nowMs

def connClosed (tls : Tls E S) (P : Params Ctx) (ci : Nat) (x : System Ctx (TlsAdapter E S)) :
    System Ctx (TlsAdapter E S) :=
  if ci < tls.maxConnections then (x.onTransport (setOpen ci false)).connClosed tls.policy P ci else x

/-- The connection is closed and the broker told. -/
def giveUp (tls : Tls E S) (P : Params Ctx) (ci : Nat) (x : System Ctx (TlsAdapter E S)) :
    System Ctx (TlsAdapter E S) :=
  (x.onTransport (fun a => tls.close a ci)).connClosed tls.policy P ci

def connData (tls : Tls E S) (P : Params Ctx) (ci : Nat) (cipherIn : Bytes) (nowMs : Nat)
    (x : System Ctx (TlsAdapter E S)) : Err × System Ctx (TlsAdapter E S) :=
  if tls.maxConnections ≤ ci then (.state, x)
  else
    let r := tls.engine.onCiphertext (x.transport.engines ci) cipherIn tls.bufSize
    let x := x.onTransport (setEngine ci r.engine)
    if !r.ok || decide (tls.bufSize < r.plain.length) || decide (tls.bufSize < r.cipher.length) then
      (.malformed, tls.giveUp P ci x)
    else
      let sent := if r.cipher.isEmpty then (true, x.transport.raw) else tls.raw.send x.transport.raw ci r.cipher
      let x := x.onTransport (fun a => { a with raw := sent.2 })
      if !sent.1 then (.capacity, tls.giveUp P ci x)
      else if r.plain.isEmpty then (.ok, x)
      else x.connData tls.policy P ci r.plain nowMs

def tick (tls : Tls E S) (P : Params Ctx) (nowMs : Nat) (x : System Ctx (TlsAdapter E S)) :
    System Ctx (TlsAdapter E S) := (tls.drainEngines P x).tick tls.policy P nowMs

/-- What may happen between the raw transport, the adapter and the broker. -/
inductive Call (S : Type)
  | connOpen (ci nowMs : Nat)
  | connClosed (ci : Nat)
  | connData (ci : Nat) (cipherIn : Bytes) (nowMs : Nat)
  | tick (nowMs : Nat)
  | publish (topic payload : Bytes) (qos : QoS) (retain : Bool)
  /-- The raw transport does something of its own. -/
  | raw (s : S)

/-- A call, with what it returns if it does. -/
def step (tls : Tls E S) (P : Params Ctx) (x : System Ctx (TlsAdapter E S)) :
    Call S → Option Err × System Ctx (TlsAdapter E S)
  | .connOpen ci nowMs => let r := tls.connOpen P ci nowMs x; (some r.1, r.2)
  | .connClosed ci => (none, tls.connClosed P ci x)
  | .connData ci cipherIn nowMs => let r := tls.connData P ci cipherIn nowMs x; (some r.1, r.2)
  | .tick nowMs => (none, tls.tick P nowMs x)
  | .publish topic payload qos retain => let r := x.publish tls.policy P topic payload qos retain; (some r.1, r.2)
  | .raw s => (none, x.onTransport (fun a => { a with raw := s }))

/-- The broker, the adapter and the raw transport as constructed. -/
def start (raw : S) (engines : Nat → E) : System Ctx (TlsAdapter E S) := ⟨.init, { raw := raw, engines := engines }⟩

def run (tls : Tls E S) (P : Params Ctx) (raw : S) (engines : Nat → E) (calls : List (Call S)) :
    System Ctx (TlsAdapter E S) := calls.foldl (fun x call => (tls.step P x call).2) (start raw engines)

/-! ## Open engines and active connections -/

/-- **Every open engine belongs to a connection the broker knows**, and `drain` was called for no other. -/
structure Known (P : Params Ctx) (x : System Ctx (TlsAdapter E S)) : Prop where
  steady : Steady P x.broker
  known : ∀ ci, x.transport.engineOpen ci = true → (x.broker.conns ci).active = true
  drains : ∀ d ∈ x.transport.drains, d.2 = true

section
variable {tls : Tls E S} {P : Params Ctx} {x : System Ctx (TlsAdapter E S)} {ci : Nat}

theorem setOpen_of_ne {j : Nat} (hj : j ≠ ci) (b : Bool) (a : TlsAdapter E S) :
    (setOpen ci b a).engineOpen j = a.engineOpen j := Function.update_of_ne hj ..

theorem setOpen_self (ci : Nat) (b : Bool) (a : TlsAdapter E S) : (setOpen ci b a).engineOpen ci = b :=
  Function.update_self ..

theorem send_frame (tls : Tls E S) (a : TlsAdapter E S) (ci : Nat) (plaintext : Bytes) :
    (tls.send a ci plaintext).2.engineOpen = a.engineOpen ∧ (tls.send a ci plaintext).2.drains = a.drains := by
  unfold send
  split
  · exact ⟨rfl, rfl⟩
  dsimp only
  split
  · exact ⟨rfl, rfl⟩
  split
  · exact ⟨rfl, rfl⟩
  · exact ⟨rfl, rfl⟩

theorem close_drains (tls : Tls E S) (a : TlsAdapter E S) (ci : Nat) : (tls.close a ci).drains = a.drains := by
  unfold close
  split
  · rfl
  · rfl

theorem gate {m : Nat} (hm : m ≤ tls.maxConnections) : Gate tls.policy m TlsAdapter.engineOpen where
  send a ci pkt j := congrFun (tls.send_frame a ci pkt).1 j
  close a ci j hci := by
    have hclose : tls.policy.close a ci = { setOpen ci false a with raw := tls.raw.close a.raw ci } :=
      if_pos (Nat.lt_of_lt_of_le hci hm)
    rw [hclose]
    change (setOpen ci false a).engineOpen j = _
    by_cases hj : j = ci
    · rw [hj, setOpen_self]
      simp
    · rw [setOpen_of_ne hj]
      simp [hj]

theorem drains_after (a : TlsAdapter E S) (acts : Trace Ctx) : (tls.policy.after a acts).drains = a.drains :=
  Transport.after_inv tls.policy (fun a' : TlsAdapter E S => a'.drains = a.drains)
    (fun a' ci pkt h => (tls.send_frame a' ci pkt).2.trans h) (fun a' ci h => (tls.close_drains a' ci).trans h) rfl acts

theorem Known.moved (h : Known P x) (hfits : P.T.maxConnections ≤ tls.maxConnections) {σ : Broker Ctx}
    (hsteady : Steady P σ) (hends : Ends (fun _ => False) (actsSince x.broker σ) x.broker σ) :
    Known P (x.moved tls.policy σ) where
  steady := hsteady
  known j := ((gate hfits).ends (Nat.le_refl _) h.steady hends x.transport id (h.known j)).1
  drains := by
    rw [show (x.moved tls.policy σ).transport.drains = x.transport.drains from drains_after ..]
    exact h.drains

/-- The broker is told that a connection is gone whose engine is not open any more. -/
theorem connClosed_known (hsteady : Steady P x.broker)
    (hknown : ∀ j, j ≠ ci → x.transport.engineOpen j = true → (x.broker.conns j).active = true)
    (hoff : x.transport.engineOpen ci = false) (hdrains : ∀ d ∈ x.transport.drains, d.2 = true)
    (hfits : P.T.maxConnections ≤ tls.maxConnections) : Known P (x.connClosed tls.policy P ci) := by
  obtain ⟨hsteady', -, hends⟩ :=
    connClosed_steady (v := tls.policy.verdict x.transport x.broker.trace.length) hsteady ci
  refine ⟨hsteady', fun j hopen => ?_, fun d hd => hdrains d ?_⟩
  · by_cases hj : j = ci
    · have hlt : ∀ i, (actsSince x.broker (x.broker.connClosed (P.over tls.policy x.transport x.broker) ci)).any
          (Act.closes i) = true → i < P.T.maxConnections :=
        fun i hi => hsteady.sound.linked.active_lt i (hends.was i hi)
      have hstill := (gate hfits).after x.transport ci _ hlt
      rw [hoff, Bool.false_and] at hstill
      rw [hj] at hopen
      exact absurd hopen (by rw [show (x.connClosed tls.policy P ci).transport.engineOpen ci = false from hstill]; simp)
    · exact ((gate hfits).ends (Nat.le_refl _) hsteady hends x.transport hj (hknown j hj)).1 hopen
  · rwa [show (x.connClosed tls.policy P ci).transport.drains = x.transport.drains from drains_after ..] at hd

theorem Known.connClosed (h : Known P x) (hfits : P.T.maxConnections ≤ tls.maxConnections) (ci : Nat) :
    Known P (tls.connClosed P ci x) := by
  unfold Tls.connClosed
  split
  · refine connClosed_known h.steady (fun j hj hopen => h.known j ?_) (setOpen_self ci false _) h.drains hfits
    rwa [show (x.onTransport (setOpen ci false)).transport.engineOpen j = x.transport.engineOpen j from
      setOpen_of_ne hj ..] at hopen
  · exact h

theorem Known.giveUp (h : Known P x) (hfits : P.T.maxConnections ≤ tls.maxConnections) (hci : ci < tls.maxConnections) :
    Known P (tls.giveUp P ci x) := by
  have hclose : x.onTransport (fun a => tls.close a ci) =
      ⟨x.broker, { setOpen ci false x.transport with raw := tls.raw.close x.transport.raw ci }⟩ :=
    congrArg (System.mk x.broker) (if_pos hci)
  unfold Tls.giveUp
  rw [hclose]
  refine connClosed_known h.steady (fun j hj hopen => h.known j ?_) (setOpen_self ci false _) h.drains hfits
  rwa [show ({ setOpen ci false x.transport with raw := tls.raw.close x.transport.raw ci } :
    TlsAdapter E S).engineOpen j = x.transport.engineOpen j from setOpen_of_ne hj ..] at hopen

theorem Known.of_frame (h : Known P x) {f : TlsAdapter E S → TlsAdapter E S}
    (hopen : (f x.transport).engineOpen = x.transport.engineOpen)
      (hdrains : (f x.transport).drains = x.transport.drains) :
    Known P (x.onTransport f) where
  steady := h.steady
  known ci := by
    change (f x.transport).engineOpen ci = true → _
    rw [hopen]
    exact h.known ci
  drains := by
    change ∀ d ∈ (f x.transport).drains, _
    rw [hdrains]
    exact h.drains

theorem Known.connData (h : Known P x) (hfits : P.T.maxConnections ≤ tls.maxConnections) (ci : Nat) (cipherIn : Bytes)
    (nowMs : Nat) : Known P (tls.connData P ci cipherIn nowMs x).2 := by
  unfold Tls.connData
  split
  · exact h
  rename_i hci
  have hci : ci < tls.maxConnections := Nat.lt_of_not_le hci
  dsimp only
  generalize tls.engine.onCiphertext (x.transport.engines ci) cipherIn tls.bufSize = r
  have h₁ : Known P (x.onTransport (setEngine ci r.engine)) := h.of_frame rfl rfl
  generalize x.onTransport (setEngine ci r.engine) = x₁ at h₁ ⊢
  split
  · exact h₁.giveUp hfits hci
  generalize (if r.cipher.isEmpty = true then (true, x₁.transport.raw) else tls.raw.send x₁.transport.raw ci r.cipher) =
    sent
  have h₂ : Known P (x₁.onTransport (fun a => { a with raw := sent.2 })) := h₁.of_frame rfl rfl
  generalize x₁.onTransport (fun a => { a with raw := sent.2 }) = x₂ at h₂ ⊢
  split
  · exact h₂.giveUp hfits hci
  split
  · exact h₂
  · have hcall := connData_steady (v := tls.policy.verdict x₂.transport x₂.broker.trace.length) h₂.steady ci r.plain
      nowMs
    exact h₂.moved hfits hcall.1 hcall.2

theorem Known.connOpen (h : Known P x) (ci nowMs : Nat)
    (hlt : ci < tls.maxConnections → ci < P.T.maxConnections) : Known P (tls.connOpen P ci nowMs x).2 := by
  unfold Tls.connOpen
  split
  · exact h
  rename_i hci
  have hlt := hlt (Nat.lt_of_not_le hci)
  generalize hf : (fun a => setOpen ci true (setEngine ci (tls.engine.reset (a.engines ci)) a)) = f
  obtain ⟨hsteady, -, hactive, hafter⟩ := connOpen_steady (S := TlsAdapter E S)
    (v := tls.policy.verdict (f x.transport) x.broker.trace.length) h.steady ci nowMs
  have hstate : ((x.onTransport f).connOpen tls.policy P ci nowMs).2 =
      ⟨(x.broker.connOpen (P.over tls.policy (f x.transport) x.broker) ci nowMs).2, f x.transport⟩ :=
    congrArg (System.mk _) (hafter tls.policy (f x.transport))
  rw [hstate]
  refine ⟨hsteady, fun j hopen => (hactive j).trans ?_, ?_⟩
  · by_cases hj : j = ci
    · simp [hj, hlt]
    · have hwas : x.transport.engineOpen j = true := by
        rw [← hf] at hopen
        exact (setOpen_of_ne hj true (setEngine ci
          (tls.engine.reset (x.transport.engines ci)) x.transport)).symm.trans hopen
      rw [h.known j hwas, Bool.true_or]
  · rw [← hf]
    exact h.drains

theorem Known.drainOne (h : Known P x) (hfits : P.T.maxConnections ≤ tls.maxConnections) (drain : E → Nat → Report E)
    (ci : Nat) : Known P (tls.drainOne P drain x ci) := by
  unfold Tls.drainOne
  split
  · exact h
  rename_i hopen
  have hopen : x.transport.engineOpen ci = true := by simpa using hopen
  dsimp only
  generalize drain (x.transport.engines ci) tls.bufSize = r
  generalize (r.ok && decide (r.cipher.length ≤ tls.bufSize)) = ok
  have hopens : (drained ci r.engine (x.broker.conns ci).active x.transport).engineOpen = x.transport.engineOpen := rfl
  have hdrains : ∀ d ∈ (drained ci r.engine (x.broker.conns ci).active x.transport).drains, d.2 = true :=
    List.forall_mem_cons.2 ⟨h.known ci hopen, h.drains⟩
  generalize drained ci r.engine (x.broker.conns ci).active x.transport = a at hopens hdrains ⊢
  have hknown : ∀ raw : S, Known P (⟨x.broker, { a with raw := raw }⟩ : System Ctx (TlsAdapter E S)) :=
    fun raw => ⟨h.steady, fun j => by rw [hopens]; exact h.known j, hdrains⟩
  split
  · exact hknown a.raw
  split
  · exact hknown _
  · refine connClosed_known h.steady (fun j hj hj' => h.known j ?_) (setOpen_self ci false _) hdrains hfits
    rw [← hopens]
    exact (setOpen_of_ne hj false a).symm.trans hj'

theorem Known.drainEngines (h : Known P x) (hfits : P.T.maxConnections ≤ tls.maxConnections) :
    Known P (tls.drainEngines P x) := by
  unfold Tls.drainEngines
  split
  · exact h
  · rename_i drain hdrain
    exact List.foldlRecOn _ (tls.drainOne P drain) h (fun x h ci _ => h.drainOne hfits drain ci)

theorem Known.step (h : Known P x) (hfits : P.T.maxConnections ≤ tls.maxConnections) (call : Call S)
    (hlt : ∀ ci nowMs, call = .connOpen ci nowMs → ci < tls.maxConnections → ci < P.T.maxConnections) :
    Known P (tls.step P x call).2 := by
  cases call with
  | connOpen ci nowMs => exact h.connOpen ci nowMs (hlt ci nowMs rfl)
  | connClosed ci => exact h.connClosed hfits ci
  | connData ci cipherIn nowMs => exact h.connData hfits ci cipherIn nowMs
  | tick nowMs =>
    have h₁ := h.drainEngines hfits
    have hcall := tick_steady (v := tls.policy.verdict (tls.drainEngines P x).transport
      (tls.drainEngines P x).broker.trace.length) h₁.steady nowMs
    exact h₁.moved hfits hcall.1 hcall.2
  | publish topic payload qos retain =>
    have hcall := publish_steady (v := tls.policy.verdict x.transport x.broker.trace.length) h.steady topic payload
      qos retain
    exact h.moved hfits hcall.1 hcall.2
  | raw s => exact h.of_frame (f := fun a => { a with raw := s }) rfl rfl

end

/-- **The adapter and the broker agree on which connections exist**, where no engine is opened past the broker's own
table. -/
theorem run_known (tls : Tls E S) (P : Params Ctx) (hfits : P.T.maxConnections ≤ tls.maxConnections) (raw : S)
    (engines : Nat → E) (calls : List (Call S))
    (hopens : ∀ ci nowMs, .connOpen ci nowMs ∈ calls → ci < tls.maxConnections → ci < P.T.maxConnections) :
    (∀ ci, (tls.run P raw engines calls).transport.engineOpen ci = true →
        ((tls.run P raw engines calls).broker.conns ci).active = true) ∧
      ∀ d ∈ (tls.run P raw engines calls).transport.drains, d.2 = true := by
  have hrun : ∀ (calls : List (Call S)) (x : System Ctx (TlsAdapter E S)), Known P x →
      (∀ ci nowMs, .connOpen ci nowMs ∈ calls → ci < tls.maxConnections → ci < P.T.maxConnections) →
      Known P (calls.foldl (fun x call => (tls.step P x call).2) x) := by
    intro calls
    induction calls with
    | nil => exact fun _ h _ => h
    | cons call calls ih =>
      intro x h hlt
      refine ih _ (h.step hfits call (fun ci nowMs he => hlt ci nowMs ?_)) (fun ci nowMs hmem => hlt ci nowMs ?_)
      · rw [he]
        exact List.mem_cons_self
      · exact List.mem_cons_of_mem _ hmem
  have h := hrun calls (start raw engines) ⟨init_steady P, fun _ h => by (cases h), fun _ h => by (cases h)⟩ hopens
  exact ⟨h.known, h.drains⟩

/-- An engine that takes and gives nothing, and refuses to `drain`. -/
def muteEngine : Engine Unit where
  reset _ := ()
  onCiphertext _ _ _ := { ok := true, engine := () }
  encrypt _ _ _ := { ok := true, engine := () }
  drain := some fun _ _ => { ok := false, engine := () }

/-- An adapter of eight connections over a transport that takes everything, for the four connections of a bed. -/
def wide : Tls Unit Unit :=
  { engine := muteEngine, raw := ⟨fun _ _ _ => (true, ()), fun _ _ => ()⟩, maxConns := 8, bufSize := 512 }

/-- Two connections come, one of them after a `tick` has drained and closed the other. -/
def twoOpens : List (Call Unit) := [.connOpen 3 1000, .tick 1001, .connOpen 0 1002]

theorem run_known_twoOpens :
    ((wide.run (bed fun _ _ _ => true) () (fun _ => ()) twoOpens).transport.engineOpen 0 = true ∧
        (3, true) ∈ (wide.run (bed fun _ _ _ => true) () (fun _ => ()) twoOpens).transport.drains) ∧
      (∀ ci, (wide.run (bed fun _ _ _ => true) () (fun _ => ()) twoOpens).transport.engineOpen ci = true →
        ((wide.run (bed fun _ _ _ => true) () (fun _ => ()) twoOpens).broker.conns ci).active = true) ∧
      ∀ d ∈ (wide.run (bed fun _ _ _ => true) () (fun _ => ()) twoOpens).transport.drains, d.2 = true := by
  refine ⟨by decide +kernel, run_known wide (bed fun _ _ _ => true) (by decide) () (fun _ => ()) twoOpens ?_⟩
  intro ci nowMs hmem _
  simp only [twoOpens, List.mem_cons, Call.connOpen.injEq, List.not_mem_nil, or_false, reduceCtorEq, false_or] at hmem
  rcases hmem with h | h
  · exact h.1 ▸ (by decide)
  · exact h.1 ▸ (by decide)

/-- **An index between the two tables leaves an engine open for no connection**: `conn_open` returns `Err::state`, and
the next `tick` drains it and closes the slot. -/
theorem connOpen_leaves_engine : ((wide.connOpen (bed fun _ _ _ => true) 5 1000 (start () fun _ => ())).1 = .state ∧
      (wide.run (bed fun _ _ _ => true) () (fun _ => ()) [.connOpen 5 1000]).transport.engineOpen 5 = true ∧
      ((wide.run (bed fun _ _ _ => true) () (fun _ => ()) [.connOpen 5 1000]).broker.conns 5).active = false) ∧
      (5, false) ∈ (wide.run (bed fun _ _ _ => true) () (fun _ => ())
        [.connOpen 5 1000, .tick 1001]).transport.drains := by
  decide +kernel

end Tls

end Minimosq
