import Minimosq.Account
import Minimosq.Transport
/-!
# Contract — a broker driven by its transport

`transport.hpp` says how the two are put together: the transport calls the broker, and the broker, inside those calls,
calls `send` and `close`.  Whatever a transport is and does of its own between its calls, the broker it drives is in a
state of `run`: some fixed verdicts, those the transport gave, answer every `send` of all its calls (`Drives.run`).  So
what is proved of all runs holds of a broker on a transport that keeps a state.
-/
namespace Minimosq

open History (Each)

variable {Ctx S : Type}

/-- **What a transport may call**: `conn_open` where no connection is, and `conn_data` and `conn_closed` of one that is
there. -/
def Input.Due (σ : Broker Ctx) : Input → Prop
  | .connOpen ci _ => (σ.conns ci).active = false
  | .connClosed ci => (σ.conns ci).active = true
  | .connData ci data _ => (σ.conns ci).active = true ∧ data ≠ []
  | .tick _ | .publish _ _ _ _ => True

/-- One call into the broker. -/
def System.call (tr : Transport S) (P : Params Ctx) (i : Input) (x : System Ctx S) : System Ctx S :=
  x.moved tr (x.broker.step (P.over tr x.transport x.broker) i)

/-- **A transport in `s` drives a broker**, by these calls, in order, and whatever it does of its own. -/
inductive Drives (tr : Transport S) (P : Params Ctx) (s : S) : List Input → System Ctx S → Prop
  | start : Drives tr P s [] ⟨.init, s⟩
  | own {inputs : List Input} {x : System Ctx S} (h : Drives tr P s inputs x) (f : S → S) :
      Drives tr P s inputs (x.onTransport f)
  | call {inputs : List Input} {x : System Ctx S} (h : Drives tr P s inputs x) (i : Input) (hdue : i.Due x.broker) :
      Drives tr P s (inputs ++ [i]) (x.call tr P i)

/-- The `send`s of the acts were answered by a transport that was in `s` before them. -/
def Transport.Answers (tr : Transport S) (s : S) (acts : Trace Ctx) : Prop :=
  Each (fun a older => ∀ ci pkt ok tag, a = .send ci pkt ok tag → ok = (tr.send (tr.after s older) ci pkt).1) acts

/-! ## One call after another -/

section
variable {P : Params Ctx} {v w : Trace Ctx → Nat → Bytes → Bool} {n : Nat}

theorem step_same (σ : Broker Ctx) (i : Input) (hn : n ≤ σ.trace.length) (hgives : Gives P v n (σ.step P i).trace) :
    σ.step P i = σ.step (P.wired v) i := by
  cases i with
  | connOpen ci now => rfl
  | connClosed ci => exact connClosed_same ci σ hn hgives
  | connData ci data now => exact congrArg Prod.snd ((follows_connData ci data now σ).same hn hgives)
  | tick now => exact (repeats_tick now σ).same hn hgives
  | publish topic payload qos retain =>
    exact congrArg Prod.snd ((follows_publish topic payload qos retain σ).same hn hgives)

theorem run_suffix (P : Params Ctx) (earlier later : List Input) :
    (run P earlier).trace <:+ (run P (earlier ++ later)).trace := by
  obtain ⟨new, htrace, -⟩ := (run_onward P earlier later).mild
  exact ⟨new, htrace.symm⟩

theorem Gives.of_suffix {t t' : Trace Ctx} (h : Gives P v n t') (hs : t <:+ t') : Gives P v n t :=
  fun ci pkt ok tag older hmem => h ci pkt ok tag older (hmem.trans hs)

/-- **The same verdicts, the same run.** -/
theorem run_same (inputs : List Input) (hgives : Gives P v 0 (run P inputs).trace) :
    run P inputs = run (P.wired v) inputs := by
  induction inputs using List.reverseRecOn with
  | nil => simp only [run, List.foldl_nil]
  | append_singleton inputs i ih =>
    have hbefore := ih (hgives.of_suffix (run_suffix P inputs [i]))
    rw [run_snoc] at hgives
    rw [run_snoc, run_snoc, step_same _ i (Nat.zero_le _) hgives, hbefore]

/-- The verdicts `v` on the first `n` acts, and `w` from there on. -/
def spliced (n : Nat) (v w : Trace Ctx → Nat → Bytes → Bool) (older : Trace Ctx) (ci : Nat) (pkt : Bytes) : Bool :=
  if older.length < n then v older ci pkt else w older ci pkt

theorem run_spliced (inputs : List Input) (hn : (run (P.wired v) inputs).trace.length ≤ n) :
    run (P.wired (spliced n v w)) inputs = run (P.wired v) inputs := by
  refine (run_same (P := P.wired v) inputs fun ci pkt ok tag older hs _ => if_pos ?_).symm
  exact Nat.lt_of_lt_of_le (Nat.lt_of_succ_le hs.length_le) hn

theorem step_spliced (σ : Broker Ctx) (i : Input) :
    σ.step (P.wired (spliced σ.trace.length v w)) i = σ.step (P.wired w) i :=
  (step_same (P := P.wired w) σ i (Nat.le_refl _) fun _ _ _ _ _ _ hn => if_neg (Nat.not_lt.2 hn)).symm

end

/-! ## The whole -/

section
variable {tr : Transport S} {P : Params Ctx} {s : S} {inputs : List Input} {x : System Ctx S}

theorem call_run (tr : Transport S) {v : Trace Ctx → Nat → Bytes → Bool} (h : x.broker = run (P.wired v) inputs)
    (i : Input) : (x.call tr P i).broker = run
      (P.wired (spliced x.broker.trace.length v (tr.verdict x.transport x.broker.trace.length))) (inputs ++ [i]) := by
  rw [run_snoc, run_spliced inputs (Nat.le_of_eq (by rw [h])), ← h, step_spliced]
  rfl

/-- **A driven broker is in a state of a run, and every call of its transport's was due.** -/
theorem Drives.run (h : Drives tr P s inputs x) : ∃ v, x.broker = Minimosq.run (P.wired v) inputs ∧
    ∀ earlier i later, inputs = earlier ++ i :: later → i.Due (Minimosq.run (P.wired v) earlier) := by
  induction h with
  | start => exact ⟨P.send, rfl, fun earlier i later he => by cases earlier <;> cases he⟩
  | own _ f ih => exact ih
  | @call inputs x _ i hdue ih =>
    obtain ⟨v, hrun, hall⟩ := ih
    refine ⟨_, call_run tr hrun i, fun earlier j later he => ?_⟩
    -- up to `i`, the run is the one of the verdicts so far
    have hsame : ∀ earlier, earlier <+: inputs → Minimosq.run (P.wired (spliced x.broker.trace.length v
        (tr.verdict x.transport x.broker.trace.length))) earlier = Minimosq.run (P.wired v) earlier := by
      rintro earlier ⟨rest, rfl⟩
      exact run_spliced earlier (by rw [hrun]; exact (run_suffix _ earlier rest).length_le)
    rcases List.eq_nil_or_concat later with rfl | ⟨later, last, rfl⟩
    · obtain ⟨rfl, hi⟩ := List.append_inj' he rfl
      cases hi
      rw [hsame inputs (List.prefix_refl _), ← hrun]
      exact hdue
    · have hinit : inputs = earlier ++ j :: later := by
        rw [List.concat_eq_append, ← List.cons_append, ← List.append_assoc] at he
        exact (List.append_inj' he rfl).1
      rw [hsame earlier ⟨j :: later, hinit.symm⟩]
      exact hall earlier j later hinit

theorem Emits.verdict {ci : Nat} {pkt : Bytes} {ok : Bool} {tag : Option (Tag Ctx)} {t : Trace Ctx}
    (h : Emits P (.send ci pkt ok tag) t) : ok = P.send t ci pkt := by
  cases h with
  | note hnote => cases hnote
  | _ => rfl

/-- **What a call sends, its transport answers.** -/
theorem Drives.answers (h : Drives tr P s inputs x) (i : Input) :
    tr.Answers x.transport (actsSince x.broker (x.call tr P i).broker) := by
  obtain ⟨v, hrun, -⟩ := h.run
  have hnext := call_run tr hrun i
  obtain ⟨new, hnew⟩ := run_suffix (P.wired (spliced x.broker.trace.length v
    (tr.verdict x.transport x.broker.trace.length))) inputs [i]
  rw [← hnext, run_spliced inputs (Nat.le_of_eq (by rw [hrun])), ← hrun] at hnew
  rw [actsSince_eq hnew.symm]
  refine History.each_iff.2 fun newer a older hsplit ci pkt ok tag ha => ?_
  have htrace : (x.call tr P i).broker.trace = newer ++ a :: (older ++ x.broker.trace) := by
    rw [← hnew, hsplit, List.append_assoc, List.cons_append]
  rw [hnext, ha] at htrace
  have hverdict := (run_emits _ _ htrace).verdict
  have hlater : ¬(older ++ x.broker.trace).length < x.broker.trace.length := by simp
  rw [hverdict]
  refine (if_neg hlater).trans ?_
  rw [Transport.verdict, List.length_append, Nat.add_sub_cancel, List.take_left' rfl]

end

end Minimosq
