import Minimosq.Bed
import Minimosq.Posix
/-!
# The pipe transport

`transports/posix/pipe.hpp`: one client over a pair of descriptors, as connection 0.  Descriptors are numbers, negative
where there is none.  A step of the event loop comes with what the kernel answers during it.
-/
namespace Minimosq

variable {Ctx : Type} {cap : Nat}

structure Pipe (cap : Nat) where
  ring : OutRing cap := .make cap
  rfd : Int := -1
  wfd : Int := -1
  started : Bool := false
  /-- Gained bytes since the last `flush_pass`. -/
  dirty : Bool := false
  /-- What `::write` is going to return. -/
  writes : List Wrote := []

namespace Pipe

def flush (s : Pipe cap) : Pipe cap :=
  if s.wfd < 0 then s
  else
    let r := writeOut s.writes s.ring
    { s with ring := r.2.2, writes := r.2.1 }

def closeFds (s : Pipe cap) : Pipe cap := { s with rfd := -1, wfd := -1, ring := s.ring.clear, dirty := false }

/-- `open`, with the outcomes of the two `set_nonblocking`. -/
def openPair (readFd writeFd : Int) (readOk writeOk : Bool) (s : Pipe cap) : Bool × Pipe cap :=
  let rStale := decide (0 ≤ readFd) && (readFd == s.rfd || readFd == s.wfd)
  let wStale := decide (0 ≤ writeFd) && (writeFd == s.rfd || writeFd == s.wfd)
  if decide (readFd < 0) || decide (writeFd < 0) || rStale || wStale then (false, s.closeFds)
  else if !readOk || !writeOk then (false, s.closeFds)
  else (true, { s.closeFds with rfd := readFd, wfd := writeFd, started := false })

def send (s : Pipe cap) (_ci : Nat) (bytes : Bytes) : Bool × Pipe cap :=
  if s.wfd < 0 then (false, s)
  else if (s.ring.append bytes).1 then (true, { s with ring := (s.ring.append bytes).2, dirty := true })
  else
    let r := s.flush.ring.append bytes
    if !r.1 then (false, s.flush) else (true, { s.flush with ring := r.2, dirty := true })

def close (s : Pipe cap) (_ci : Nat) : Pipe cap := s.flush.closeFds

/-- The transport policy. -/
def policy : Transport (Pipe cap) := ⟨send, close⟩

def flushPass (s : Pipe cap) : Pipe cap := if s.dirty then { s with dirty := false }.flush else s

/-- EOF or a fatal error: the replies queued earlier go out first. -/
def hangUp (P : Params Ctx) (x : System Ctx (Pipe cap)) : System Ctx (Pipe cap) :=
  (x.onTransport (fun s => s.flush.closeFds)).connClosed policy P 0

/-- The loop of `read_into_broker`. -/
def readIntoBroker (P : Params Ctx) (now : Nat) : Nat → List Got → System Ctx (Pipe cap) → System Ctx (Pipe cap)
  | 0, _, x => x
  | _ + 1, [], x => x
  | n + 1, got :: reads, x =>
    if x.transport.rfd < 0 then x
    else
      match got with
      | .data bytes =>
        if (bytes.take readSize).isEmpty then hangUp P x
        else readIntoBroker P now n reads (x.connData policy P 0 (bytes.take readSize) now).2
      | .again => x
      | .interrupted => readIntoBroker P now n reads x
      | .failed => hangUp P x

/-- What the kernel answers during one `poll_once`.  `rc`, `readable` and `writable` are the outcome of `::poll`. -/
structure Pass where
  nowStart : Nat
  now : Nat
  rc : Int
  readable : Bool
  writable : Bool
  reads : List Got
  writes : List Wrote

/-- A pair that was opened is not known to the broker yet. -/
def fresh (s : Pipe cap) : Bool := !s.started && decide (0 ≤ s.rfd)

/-- The beginning of `poll_once`: the broker is told of a fresh pair, and may refuse it. -/
def admitPair (P : Params Ctx) (nowStart : Nat) (x : System Ctx (Pipe cap)) : System Ctx (Pipe cap) :=
  if x.transport.fresh then
    let r := (x.onTransport (fun s => { s with started := true })).connOpen policy P 0 nowStart
    if r.1 != .ok then r.2.onTransport closeFds else r.2
  else x

def pollOnce (P : Params Ctx) (k : Pass) (x : System Ctx (Pipe cap)) : Int × System Ctx (Pipe cap) :=
  let x₁ := admitPair P k.nowStart (x.onTransport (fun s => { s with writes := k.writes }))
  if x₁.transport.rfd < 0 then (0, x₁.tick policy P k.nowStart)
  else if k.rc < 0 then (0, (x₁.tick policy P k.now).onTransport flushPass)
  else
    let polled := !x₁.transport.ring.empty && decide (0 ≤ x₁.transport.wfd)
    let x₂ := if polled && k.writable then x₁.onTransport flush else x₁
    let x₃ := if k.readable then readIntoBroker P k.now maxReadsPerPass k.reads x₂ else x₂
    (k.rc, (x₃.tick policy P k.now).onTransport flushPass)

/-- What may happen to the transport and its broker. -/
inductive Step
  | openPair (readFd writeFd : Int) (readOk writeOk : Bool)
  | pollOnce (k : Pass)
  /-- The application publishes, and the broker may close the connection over it. -/
  | publish (topic payload : Bytes) (qos : QoS) (retain : Bool) (writes : List Wrote)

def step (P : Params Ctx) (x : System Ctx (Pipe cap)) : Step → System Ctx (Pipe cap)
  | .openPair readFd writeFd readOk writeOk => x.onTransport (fun s => (s.openPair readFd writeFd readOk writeOk).2)
  | .pollOnce k => (pollOnce P k x).2
  | .publish topic payload qos retain writes =>
    ((x.onTransport (fun s => { s with writes := writes })).publish policy P topic payload qos retain).2

/-- A broker and a pipe as constructed. -/
def start (cap : Nat) : System Ctx (Pipe cap) := ⟨.init, {}⟩

def run (cap : Nat) (P : Params Ctx) (steps : List Step) : System Ctx (Pipe cap) := steps.foldl (step P) (start cap)

/-! ## The pair and connection 0 -/

/-- The pair is open. -/
def held (s : Pipe cap) : Prop := 0 ≤ s.rfd ∧ 0 ≤ s.wfd

/-- Whether connection `j` is open: only connection 0 ever is. -/
def opn (s : Pipe cap) (j : Nat) : Bool := decide (j = 0 ∧ 0 ≤ s.rfd)

/-- `s'` holds what `s` does, and is started if `s` is. -/
structure Same (s s' : Pipe cap) : Prop where
  rfd : s'.rfd = s.rfd
  wfd : s'.wfd = s.wfd
  started : s'.started = s.started

theorem flush_same (s : Pipe cap) : Same s s.flush := by
  unfold flush
  split
  · exact ⟨rfl, rfl, rfl⟩
  · exact ⟨rfl, rfl, rfl⟩

theorem send_same (s : Pipe cap) (ci : Nat) (bytes : Bytes) : Same s (s.send ci bytes).2 := by
  have h := s.flush_same
  unfold send
  split
  · exact ⟨rfl, rfl, rfl⟩
  split
  · exact ⟨rfl, rfl, rfl⟩
  · dsimp only
    split
    · exact h
    · exact ⟨h.rfd, h.wfd, h.started⟩

theorem flushPass_same (s : Pipe cap) : Same s s.flushPass := by
  unfold flushPass
  split
  · have h := flush_same { s with dirty := false }
    exact ⟨h.rfd, h.wfd, h.started⟩
  · exact ⟨rfl, rfl, rfl⟩

theorem gate : Gate (policy : Transport (Pipe cap)) 1 opn where
  send s ci pkt j := by
    have h : ((policy.send s ci pkt).2 : Pipe cap).rfd = s.rfd := (s.send_same ci pkt).rfd
    rw [opn, h, opn]
  close s ci j hci := by
    have hci : ci = 0 := by omega
    have h : (policy.close s ci : Pipe cap).rfd = -1 := rfl
    rw [opn, h, opn, hci]
    by_cases hj : j = 0 <;> simp [hj]

/-- **The pair is open and started exactly when connection 0 is active.** -/
structure Agrees (P : Params Ctx) (x : System Ctx (Pipe cap)) : Prop where
  steady : Steady P x.broker
  pair : 0 ≤ x.transport.rfd ↔ 0 ≤ x.transport.wfd
  active : (x.broker.conns 0).active = (x.transport.started && decide (0 ≤ x.transport.rfd))

section
variable {P : Params Ctx} {x : System Ctx (Pipe cap)}

theorem Agrees.same (h : Agrees P x) {f : Pipe cap → Pipe cap} (hf : ∀ s, Same s (f s)) :
    Agrees P (x.onTransport f) := by
  have hs := hf x.transport
  refine ⟨h.steady, ?_, ?_⟩
  · change 0 ≤ (f x.transport).rfd ↔ 0 ≤ (f x.transport).wfd
    rw [hs.rfd, hs.wfd]
    exact h.pair
  · change (x.broker.conns 0).active = ((f x.transport).started && decide (0 ≤ (f x.transport).rfd))
    rw [hs.started, hs.rfd]
    exact h.active

theorem Agrees.moved (h : Agrees P x) (hT : P.T.maxConnections = 1) {σ : Broker Ctx} (hsteady : Steady P σ)
    (hends : Ends (fun _ => False) (actsSince x.broker σ) x.broker σ) : Agrees P (x.moved policy σ) := by
  generalize hacts : actsSince x.broker σ = acts at hends
  have hmoved : x.moved policy σ = ⟨σ, policy.after x.transport acts⟩ := by rw [System.moved, hacts]
  rw [hmoved]
  obtain ⟨hstarted, hpair⟩ := Transport.after_inv policy
    (fun s : Pipe cap => s.started = x.transport.started ∧ (0 ≤ s.rfd ↔ 0 ≤ s.wfd))
    (fun s ci pkt hs => by
      have hsame := s.send_same ci pkt
      refine ⟨hsame.started.trans hs.1, ?_⟩
      rw [show (policy.send s ci pkt).2 = (s.send ci pkt).2 from rfl, hsame.rfd, hsame.wfd]
      exact hs.2)
    (fun s ci hs => ⟨s.flush_same.started.trans hs.1, Iff.rfl⟩) ⟨rfl, h.pair⟩ acts
  refine ⟨hsteady, hpair, ?_⟩
  change (σ.conns 0).active = ((policy.after x.transport acts).started && decide
    (0 ≤ (policy.after x.transport acts).rfd))
  rw [hstarted]
  cases hs : x.transport.started with
  | false => rw [hends.active 0 id, h.active, hs, Bool.false_and, Bool.false_and, Bool.false_and]
  | true =>
    have hopn : ∀ s : Pipe cap, opn s 0 = decide (0 ≤ s.rfd) := fun s => by simp [opn]
    have hwas : (x.broker.conns 0).active = opn x.transport 0 := by rw [h.active, hs, hopn, Bool.true_and]
    rw [(gate.ends (Nat.le_of_eq hT) h.steady hends x.transport id (fun ho => by rw [hwas, ho])).2 hwas, hopn,
      Bool.true_and]

theorem Agrees.publish (h : Agrees P x) (hT : P.T.maxConnections = 1) (topic payload : Bytes) (qos : QoS)
    (retain : Bool) : Agrees P (x.publish policy P topic payload qos retain).2 :=
  have hcall := publish_steady (v := policy.verdict x.transport x.broker.trace.length) h.steady topic payload qos retain
  h.moved hT hcall.1 hcall.2

/-- **No pair is waiting for the broker to hear of it.** -/
structure Served (P : Params Ctx) (x : System Ctx (Pipe cap)) : Prop extends Agrees P x where
  settled : x.transport.rfd < 0 ∨ x.transport.started = true

theorem Served.active_iff (h : Served P x) : x.transport.held ↔ (x.broker.conns 0).active = true := by
  rw [held, ← h.pair, and_self, h.active]
  rcases h.settled with hr | hs
  · simp [Int.not_le.2 hr]
  · simp [hs]

theorem Served.same (h : Served P x) {f : Pipe cap → Pipe cap} (hf : ∀ s, Same s (f s)) :
    Served P (x.onTransport f) := by
  refine ⟨h.toAgrees.same hf, ?_⟩
  change (f x.transport).rfd < 0 ∨ (f x.transport).started = true
  rw [(hf _).rfd, (hf _).started]
  exact h.settled

theorem Served.moved (h : Served P x) (hT : P.T.maxConnections = 1) {σ : Broker Ctx} (hsteady : Steady P σ)
    (hends : Ends (fun _ => False) (actsSince x.broker σ) x.broker σ) : Served P (x.moved policy σ) := by
  refine ⟨h.toAgrees.moved hT hsteady hends, ?_⟩
  refine Transport.after_inv policy (fun s : Pipe cap => s.rfd < 0 ∨ s.started = true)
    (fun s ci pkt hs => ?_) (fun s ci _ => .inl (Int.negSucc_lt_zero 0)) h.settled _
  rw [show (policy.send s ci pkt).2 = (s.send ci pkt).2 from rfl, (s.send_same ci pkt).rfd,
    (s.send_same ci pkt).started]
  exact hs

theorem Served.tick (h : Served P x) (hT : P.T.maxConnections = 1) (nowMs : Nat) : Served P (x.tick policy P nowMs) :=
  have hcall := tick_steady (v := policy.verdict x.transport x.broker.trace.length) h.steady nowMs
  h.moved hT hcall.1 hcall.2

theorem Served.connData (h : Served P x) (hT : P.T.maxConnections = 1) (ci : Nat) (data : Bytes) (nowMs : Nat) :
    Served P (x.connData policy P ci data nowMs).2 :=
  have hcall := connData_steady (v := policy.verdict x.transport x.broker.trace.length) h.steady ci data nowMs
  h.moved hT hcall.1 hcall.2

/-- A pair that is closed stays closed. -/
theorem after_closed {s : Pipe cap} (hr : s.rfd < 0) (hw : s.wfd < 0) (acts : Trace Ctx) :
    (policy.after s acts).rfd < 0 ∧ (policy.after s acts).wfd < 0 :=
  Transport.after_inv policy (fun s : Pipe cap => s.rfd < 0 ∧ s.wfd < 0)
    (fun s ci pkt hs => by
      have hsame := s.send_same ci pkt
      rw [show (policy.send s ci pkt).2 = (s.send ci pkt).2 from rfl, hsame.rfd, hsame.wfd]
      exact hs)
    (fun s ci _ => ⟨Int.negSucc_lt_zero 0, Int.negSucc_lt_zero 0⟩) ⟨hr, hw⟩ acts

theorem Agrees.hangUp (h : Agrees P x) : Served P (hangUp P x) := by
  have hcall := connClosed_steady (v := policy.verdict x.transport.flush.closeFds x.broker.trace.length) h.steady 0
  obtain ⟨hr, hw⟩ := after_closed (s := x.transport.flush.closeFds) (Int.negSucc_lt_zero 0) (Int.negSucc_lt_zero 0)
    (actsSince x.broker (x.broker.connClosed (P.over policy x.transport.flush.closeFds x.broker) 0))
  refine ⟨⟨hcall.1, ?_, hcall.2.1.trans ?_⟩, .inl hr⟩
  · exact ⟨fun h => absurd h (Int.not_le.2 hr), fun h => absurd h (Int.not_le.2 hw)⟩
  · have hno := decide_eq_false (Int.not_le.2 hr)
    exact (Bool.and_eq_false_iff.2 (.inr hno)).symm

theorem Served.readIntoBroker (hT : P.T.maxConnections = 1) (now : Nat) : ∀ (n : Nat) (reads : List Got)
    {x : System Ctx (Pipe cap)}, Served P x → Served P (readIntoBroker P now n reads x)
  | 0, _, _, h => h
  | _ + 1, [], _, h => h
  | n + 1, got :: reads, x, h => by
    unfold Pipe.readIntoBroker
    split
    · exact h
    cases got with
    | data bytes =>
      dsimp only
      split
      · exact h.hangUp
      · exact Served.readIntoBroker hT now n reads (h.connData hT 0 _ now)
    | again => exact h
    | interrupted => exact Served.readIntoBroker hT now n reads h
    | failed => exact h.hangUp

/-- **A fresh pair is served.** -/
theorem Agrees.admitPair (h : Agrees P x) (hT : P.T.maxConnections = 1) (nowStart : Nat) :
    Served P (admitPair P nowStart x) ∧ (admitPair P nowStart x).transport.rfd = x.transport.rfd := by
  unfold Pipe.admitPair
  split
  · rename_i hfresh
    simp only [fresh, Bool.and_eq_true, Bool.not_eq_true', decide_eq_true_eq] at hfresh
    have hoff : (x.broker.conns 0).active = false := by rw [h.active, hfresh.1, Bool.false_and]
    generalize hs : ({ x.transport with started := true } : Pipe cap) = s
    obtain ⟨hsteady, hok, hactive, hafter⟩ :=
      connOpen_steady (S := Pipe cap) (v := policy.verdict s x.broker.trace.length) h.steady 0 nowStart
    have hok := hok.2 ⟨by omega, hoff⟩
    have hstate : (x.onTransport (fun s => { s with started := true })).connOpen policy P 0 nowStart =
        (.ok, ⟨(x.broker.connOpen (P.over policy s x.broker) 0 nowStart).2, s⟩) := by
      simp only [System.connOpen, System.onTransport, System.moved, hs]
      rw [show (x.broker.connOpen (P.over policy s x.broker) 0 nowStart).1 = .ok from hok,
        show policy.after s (actsSince x.broker (x.broker.connOpen (P.over policy s x.broker) 0 nowStart).2) = s from
          hafter policy s]
    rw [hstate]
    refine ⟨⟨⟨hsteady, ?_, (hactive 0).trans ?_⟩, .inr ?_⟩, ?_⟩
    · change 0 ≤ s.rfd ↔ 0 ≤ s.wfd
      rw [← hs]
      exact h.pair
    · change _ = (s.started && decide (0 ≤ s.rfd))
      rw [← hs, hT]
      simp [hfresh.2]
    · change s.started = true
      rw [← hs]
    · change s.rfd = x.transport.rfd
      rw [← hs]
  · rename_i hold
    refine ⟨⟨h, ?_⟩, rfl⟩
    simp only [fresh, Bool.and_eq_true, Bool.not_eq_true', decide_eq_true_eq, not_and, Int.not_le] at hold
    cases hs : x.transport.started with
    | false => exact .inl (hold hs)
    | true => exact .inr rfl

theorem Agrees.pollOnce (h : Agrees P x) (hT : P.T.maxConnections = 1) (k : Pass) : Served P (pollOnce P k x).2 := by
  have hstart : Agrees P (x.onTransport (fun s => { s with writes := k.writes })) := h.same (fun _ => ⟨rfl, rfl, rfl⟩)
  obtain ⟨hserved, -⟩ := hstart.admitPair hT k.nowStart
  unfold Pipe.pollOnce
  dsimp only
  generalize Pipe.admitPair P k.nowStart (x.onTransport (fun s => { s with writes := k.writes })) = x₁ at hserved ⊢
  split
  · exact hserved.tick hT k.nowStart
  split
  · exact (hserved.tick hT k.now).same flushPass_same
  · refine Served.same (Served.tick ?_ hT k.now) flushPass_same
    have hflushed : Served P (if (!x₁.transport.ring.empty && decide (0 ≤ x₁.transport.wfd) && k.writable) = true then
        x₁.onTransport flush else x₁) := by
      split
      · exact hserved.same flush_same
      · exact hserved
    split
    · exact hflushed.readIntoBroker hT k.now _ _
    · exact hflushed

theorem Agrees.openPair (h : Agrees P x) (hoff : (x.broker.conns 0).active = false) (readFd writeFd : Int)
    (readOk writeOk : Bool) : Agrees P (x.onTransport (fun s => (s.openPair readFd writeFd readOk writeOk).2)) := by
  have hclosed : Agrees P (x.onTransport closeFds) := by
    refine ⟨h.steady, Iff.rfl, hoff.trans (Eq.symm ?_)⟩
    exact Bool.and_false _
  unfold System.onTransport Pipe.openPair at *
  dsimp only at *
  split
  · exact hclosed
  rename_i hfds
  split
  · exact hclosed
  · simp only [Bool.or_eq_true, decide_eq_true_eq, not_or, Int.not_lt] at hfds
    exact ⟨h.steady, ⟨fun _ => hfds.1.1.2, fun _ => hfds.1.1.1⟩, hoff⟩

end

/-- The step is an `open`. -/
def Step.opens : Step → Bool
  | .openPair _ _ _ _ => true
  | _ => false

/-- From `x` on, every `open` finds connection 0 inactive. -/
def Orderly (P : Params Ctx) (x : System Ctx (Pipe cap)) : List Step → Prop
  | [] => True
  | one :: steps => (one.opens = true → (x.broker.conns 0).active = false) ∧ Orderly P (step P x one) steps

instance decidableOrderly (P : Params Ctx) : ∀ (x : System Ctx (Pipe cap)) (steps : List Step),
    Decidable (Orderly P x steps)
  | _, [] => inferInstanceAs (Decidable True)
  | x, one :: steps =>
    have := decidableOrderly P (step P x one) steps
    inferInstanceAs (Decidable ((one.opens = true → (x.broker.conns 0).active = false) ∧
      Orderly P (step P x one) steps))

theorem Agrees.step {P : Params Ctx} {x : System Ctx (Pipe cap)} (h : Agrees P x) (hT : P.T.maxConnections = 1)
    (one : Step) (hopens : one.opens = true → (x.broker.conns 0).active = false) : Agrees P (step P x one) := by
  cases one with
  | openPair readFd writeFd readOk writeOk => exact h.openPair (hopens rfl) readFd writeFd readOk writeOk
  | pollOnce k => exact (h.pollOnce hT k).toAgrees
  | publish topic payload qos retain writes =>
    have hwrites : Agrees P (x.onTransport (fun s => { s with writes := writes })) := h.same (fun _ => ⟨rfl, rfl, rfl⟩)
    exact hwrites.publish hT topic payload qos retain

theorem Agrees.steps {P : Params Ctx} (hT : P.T.maxConnections = 1) : ∀ (steps : List Step)
    {x : System Ctx (Pipe cap)}, Agrees P x → Orderly P x steps → Agrees P (steps.foldl (Pipe.step P) x)
  | [], _, h, _ => h
  | one :: steps, _, h, horderly => Agrees.steps hT steps (h.step hT one horderly.1) horderly.2

theorem agrees_run {P : Params Ctx} (hT : P.T.maxConnections = 1) (steps : List Step)
    (h : Orderly P (start cap) steps) : Agrees P (run cap P steps) :=
  Agrees.steps hT steps ⟨init_steady P, Iff.rfl, rfl⟩ h

/-- **The pipe and the broker agree on the connection**: a pass ends with the pair open exactly when connection 0 is
active, and a fresh pair it finds is served. -/
theorem pollOnce_agrees (cap : Nat) (P : Params Ctx) (hT : P.T.maxConnections = 1) (steps : List Step)
    (horderly : Orderly P (start cap) steps) (k : Pass) : ((pollOnce P k (run cap P steps)).2.transport.held ↔
        ((pollOnce P k (run cap P steps)).2.broker.conns 0).active = true) ∧
      ((run cap P steps).transport.fresh = true →
        (admitPair P k.nowStart (run cap P steps)).transport.rfd = (run cap P steps).transport.rfd ∧
          ((admitPair P k.nowStart (run cap P steps)).broker.conns 0).active = true) := by
  have hagrees := agrees_run hT steps horderly
  obtain ⟨hserved, hrfd⟩ := hagrees.admitPair hT k.nowStart
  refine ⟨(hagrees.pollOnce hT k).active_iff, fun hfresh => ⟨hrfd, hserved.active_iff.1 ?_⟩⟩
  simp only [fresh, Bool.and_eq_true, Bool.not_eq_true', decide_eq_true_eq] at hfresh
  rw [held, ← hserved.pair, and_self, hrfd]
  exact hfresh.2

/-- One connection, which is what a pipe serves. -/
def bed : Params Unit := ⟨{ smallTraits with maxConnections := 1, connections_le := by decide }, allowAllSecurity,
  fun _ _ _ => true⟩

/-- A pass in which nothing arrives. -/
def idle (now : Nat) : Pass := ⟨now, now, 0, false, false, [], []⟩

/-- The peer of a first pair hangs up, and a second pair is opened. -/
def relayed : List Step :=
  [.openPair 3 4 true true, .pollOnce (idle 0), .pollOnce
    { idle 10 with rc := 1, readable := true, reads := [.failed] },
    .openPair 5 6 true true]

theorem orderly_relayed : Orderly bed (start 512) relayed := by decide +kernel

/-- The second pair is served. -/
theorem pollOnce_agrees_relayed : Orderly bed (start 512) relayed ∧ (run 512 bed relayed).transport.fresh = true ∧
    (pollOnce bed (idle 20) (run 512 bed relayed)).2.transport.held := by
  have hactive : ((pollOnce bed (idle 20) (run 512 bed relayed)).2.broker.conns 0).active = true := by decide +kernel
  exact ⟨orderly_relayed, by decide +kernel, (pollOnce_agrees 512 bed rfl relayed orderly_relayed
    (idle 20)).1.2 hactive⟩

/-- A second pair is opened while the first is in use. -/
def reopened : List Step := [.openPair 3 4 true true, .pollOnce (idle 0), .openPair 5 6 true true]

/-- **The second pair is refused and closed**, and connection 0 stays active with no pair behind it. -/
theorem pollOnce_refuses_reopened : (run 512 bed reopened).transport.held ∧
    (run 512 bed reopened).transport.fresh = true ∧
    ¬(pollOnce bed (idle 20) (run 512 bed reopened)).2.transport.held ∧
    ((pollOnce bed (idle 20) (run 512 bed reopened)).2.broker.conns 0).active = true := by
  refine ⟨?_, ?_, ?_, ?_⟩ <;> first | decide +kernel | (unfold held; decide +kernel)

end Pipe

end Minimosq
