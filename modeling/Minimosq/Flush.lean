import Minimosq.Bed
import Minimosq.Routine
/-!
# Deferred teardown comes to an end

`flush_dead` from any state whatever: the tables need not be linked, any connections may be dead and any sessions hold a
will, and the transport may refuse whatever those wills make the broker send, which marks further connections dead.  A
teardown ends its own connection and routing ends and opens none, so the active connections become fewer with every
teardown (`Tears`), and the loop stops.
-/
namespace Minimosq

variable {Ctx : Type} {P : Params Ctx}

/-- The connection an act says was torn down. -/
def Act.closed? : Act Ctx → Option Nat
  | .event e _ => if e.kind = .connectionClosed then e.ci else none
  | _ => none

/-- The connections torn down so far, latest first. -/
def closings (t : Trace Ctx) : List Nat := t.filterMap Act.closed?

/-- The loop of `flush_dead`: pass after pass, for as many as it takes, until one finds nothing. -/
inductive FlushRuns (P : Params Ctx) : Broker Ctx → Broker Ctx → Prop
  | done {σ : Broker Ctx} (h : (σ.flushPass P).1 = false) : FlushRuns P σ (σ.flushPass P).2
  | again {σ σ' : Broker Ctx} (h : (σ.flushPass P).1 = true) (rest : FlushRuns P (σ.flushPass P).2 σ') :
      FlushRuns P σ σ'

/-- No connection is both active and dead. -/
def NoneDead (P : Params Ctx) (σ : Broker Ctx) : Prop :=
  ∀ ci < P.T.maxConnections, (σ.conns ci).active = true → (σ.conns ci).dead = false

/-! ## Teardowns -/

theorem closings_of_adds {p : Act Ctx → Prop} (hp : ∀ a, p a → a.closed? = none) {t t' : Trace Ctx} (h : Adds p t t') :
    closings t' = closings t := by
  obtain ⟨new, rfl, hnew⟩ := h
  rw [closings, closings, List.filterMap_append, List.filterMap_eq_nil_iff.2 (fun a ha => hp a (hnew a ha)),
    List.nil_append]

theorem Act.closed?_of_routine {a : Act Ctx} (h : a.routine = true) : a.closed? = none := by
  cases a with
  | event e slot =>
    have hne : e.kind ≠ .connectionClosed := by
      intro he
      rw [Act.routine, he] at h
      cases h
    simp [Act.closed?, hne]
  | _ => rfl

section
variable {σ σ' σ'' : Broker Ctx}

/-- Nothing that follows a closing closes a connection. -/
theorem teardownActs_closed? (now : Nat) : TeardownActs now (fun a : Act Ctx => a.closed? = none) :=
  ⟨fun _ => Act.closed?_of_routine, fun _ _ => rfl, fun _ _ _ => rfl, fun _ => rfl, fun _ => rfl⟩

/-- **The connections `torn` were torn down**, each once, and they were active. -/
structure Tears (P : Params Ctx) (torn : List Nat) (σ σ' : Broker Ctx) : Prop where
  closings : closings σ'.trace = torn ++ closings σ.trace
  nodup : torn.Nodup
  were : ∀ ci ∈ torn, ci ∈ activeSet P σ
  active : ∀ ci, (σ'.conns ci).active = true ↔ (σ.conns ci).active = true ∧ ci ∉ torn

theorem Tears.refl (P : Params Ctx) (σ : Broker Ctx) : Tears P [] σ σ := ⟨rfl, .nil, by simp, by simp⟩

theorem mem_activeSet {ci : Nat} : ci ∈ activeSet P σ ↔ ci < P.T.maxConnections ∧ (σ.conns ci).active = true := by
  simp [activeSet]

theorem Tears.trans {torn torn' : List Nat} (h₁ : Tears P torn σ σ') (h₂ : Tears P torn' σ' σ'') :
    Tears P (torn' ++ torn) σ σ'' where
  closings := by rw [h₂.closings, h₁.closings, List.append_assoc]
  nodup := by
    refine List.nodup_append.2 ⟨h₂.nodup, h₁.nodup, ?_⟩
    rintro a ha b hb rfl
    exact ((h₁.active a).1 (mem_activeSet.1 (h₂.were a ha)).2).2 hb
  were := by
    intro ci hci
    rcases List.mem_append.1 hci with h | h
    · obtain ⟨hlt, hact⟩ := mem_activeSet.1 (h₂.were ci h)
      exact mem_activeSet.2 ⟨hlt, ((h₁.active ci).1 hact).1⟩
    · exact h₁.were ci h
  active := fun ci => by
    rw [h₂.active, h₁.active, List.mem_append, not_or]
    tauto

/-- What is torn down was active, so there are no more teardowns than active connections. -/
theorem Tears.length_le {torn : List Nat} (h : Tears P torn σ σ') : torn.length ≤ (activeSet P σ).card := by
  rw [← List.toFinset_card_of_nodup h.nodup]
  exact Finset.card_le_card (fun ci hci => h.were ci (List.mem_toFinset.1 hci))

theorem Tears.card {torn : List Nat} (h : Tears P torn σ σ') (hne : torn ≠ []) :
    (activeSet P σ').card < (activeSet P σ).card := by
  obtain ⟨ci, hci⟩ := List.exists_mem_of_ne_nil torn hne
  refine Finset.card_lt_card ⟨fun j hj => ?_, fun hsub => ?_⟩
  · obtain ⟨hlt, hact⟩ := mem_activeSet.1 hj
    exact mem_activeSet.2 ⟨hlt, ((h.active j).1 hact).1⟩
  · exact ((h.active ci).1 (mem_activeSet.1 (hsub (h.were ci hci))).2).2 hci

/-- **One teardown**, of whatever connection in whatever state. -/
theorem teardown_tears {ci : Nat} (hci : ci < P.T.maxConnections) (hact : (σ.conns ci).active = true) :
    Tears P [ci] σ (σ.teardown P ci) := by
  have hafter := lasts_teardown (P := P) (σ := σ) (teardownActs_closed? σ.nowMs) ci
  refine ⟨closings_of_adds (fun _ h => h) hafter.acts, List.nodup_singleton ci, ?_, fun j => ?_⟩
  · rintro j hj
    rw [List.mem_singleton.1 hj]
    exact mem_activeSet.2 ⟨hci, hact⟩
  · rw [hafter.active]
    by_cases hj : j = ci
    · rw [hj, closed_conns_self]
      simp [Conn.gone]
    · rw [closed_conns_of_ne hj]
      simp [hj]

/-! ## Passes -/

/-- A pass tears down what it finds, and says whether it found anything. -/
theorem flushFold_tears : ∀ (l : List Nat), (∀ i ∈ l, i < P.T.maxConnections) → ∀ (b : Bool) (σ : Broker Ctx),
    let r := l.foldl (flushVisit P) (b, σ)
    ∃ torn, Tears P torn σ r.2 ∧
      (torn ≠ [] ∧ r.1 = true ∨ r = (b, σ) ∧ ∀ i ∈ l, (σ.conns i).active = true → (σ.conns i).dead = false)
  | [], _, b, σ => ⟨[], .refl P σ, .inr ⟨rfl, by simp⟩⟩
  | i :: l, hl, b, σ => by
    have hl' : ∀ j ∈ l, j < P.T.maxConnections := fun j hj => hl j (List.mem_cons_of_mem i hj)
    rw [List.foldl_cons]
    by_cases hd : ((σ.conns i).active && (σ.conns i).dead) = true
    · have hone := teardown_tears (hl i List.mem_cons_self) (Bool.and_eq_true_iff.1 hd).1
      have hvisit : flushVisit P (b, σ) i = (true, σ.teardown P i) := if_pos hd
      rw [hvisit]
      obtain ⟨torn, hrest, hr⟩ := flushFold_tears l hl' true (σ.teardown P i)
      refine ⟨torn ++ [i], hone.trans hrest, .inl ⟨by simp, ?_⟩⟩
      rcases hr with ⟨-, hr⟩ | ⟨hr, -⟩
      · exact hr
      · rw [hr]
    · have hvisit : flushVisit P (b, σ) i = (b, σ) := if_neg hd
      rw [hvisit]
      obtain ⟨torn, hrest, hr⟩ := flushFold_tears l hl' b σ
      refine ⟨torn, hrest, hr.imp_right (fun h => ⟨h.1, fun j hj hact => ?_⟩)⟩
      rcases List.mem_cons.1 hj with rfl | hj
      · simpa [hact] using hd
      · exact h.2 j hj hact

theorem flushPass_tears (P : Params Ctx) (σ : Broker Ctx) : ∃ torn, Tears P torn σ (σ.flushPass P).2 ∧
      (torn ≠ [] ∧ (σ.flushPass P).1 = true ∨ σ.flushPass P = (false, σ) ∧ NoneDead P σ) := by
  obtain ⟨torn, h, hr⟩ := flushFold_tears (P := P) (List.range P.T.maxConnections)
      (fun _ hi => List.mem_range.1 hi) false σ
  exact ⟨torn, h, hr.imp_right (fun h => ⟨h.1, fun i hi => h.2 i (List.mem_range.2 hi)⟩)⟩

theorem flushLoop_tears (P : Params Ctx) : ∀ (n : Nat) (σ : Broker Ctx), (activeSet P σ).card < n →
    FlushRuns P σ (Broker.flushLoop P n σ) ∧ NoneDead P (Broker.flushLoop P n σ) ∧
      ∃ torn, Tears P torn σ (Broker.flushLoop P n σ)
  | 0, _, hn => absurd hn (Nat.not_lt_zero _)
  | n + 1, σ, hn => by
    obtain ⟨torn, hpass, ⟨hne, hagain⟩ | ⟨hstop, hnone⟩⟩ := flushPass_tears P σ
    · obtain ⟨hruns, hnone, torn', hrest⟩ := flushLoop_tears P n (σ.flushPass P).2 (by have := hpass.card hne; omega)
      rw [Broker.flushLoop, if_pos hagain]
      exact ⟨.again hagain hruns, hnone, torn' ++ torn, hpass.trans hrest⟩
    · have hfst : (σ.flushPass P).1 = false := by rw [hstop]
      rw [Broker.flushLoop, if_neg (by simp [hfst])]
      refine ⟨.done hfst, ?_, torn, hpass⟩
      rw [hstop]
      exact hnone

theorem flushDead_tears (P : Params Ctx) (σ : Broker Ctx) :
    FlushRuns P σ (σ.flushDead P) ∧ NoneDead P (σ.flushDead P) ∧ ∃ torn, Tears P torn σ (σ.flushDead P) :=
  flushLoop_tears P _ σ (Nat.lt_succ_of_le ((Finset.card_filter_le _ _).trans (by simp)))

/-! ## Entry points -/

theorem NoneDead.step (h : NoneDead P σ) (input : Input) : NoneDead P (σ.step P input) := by
  have hflush : ∀ σ : Broker Ctx, NoneDead P (σ.flushDead P) := fun σ => (flushDead_tears P σ).2.1
  cases input with
  | connOpen ci now =>
    simp only [Broker.step, Broker.connOpen]
    split
    · exact h
    · intro j hj hact
      change ((σ.setConn ci _).conns j).active = true at hact
      change ((σ.setConn ci _).conns j).dead = false
      by_cases hji : j = ci
      · rw [hji, conns_setConn_self]
        rfl
      · rw [conns_setConn_of_ne hji] at hact ⊢
        exact h j hj hact
  | connClosed ci =>
    simp only [Broker.step, Broker.connClosed]
    split
    · exact h
    · exact hflush _
  | connData ci data now =>
    simp only [Broker.step, Broker.connData]
    split
    · exact h
    · split
      · exact h
      · exact hflush _
  | tick now =>
    intro j hj
    simp only [Broker.step, Broker.tick, (expireSessions_frame _ _).1]
    exact hflush _ j hj
  | publish topic payload qos retain =>
    change NoneDead P (σ.publish P topic payload qos retain).2
    unfold Broker.publish
    extract_lets idLen
    split
    · exact h
    · split
      · exact h
      · split
        · exact h
        · exact hflush _

end

/-- **Deferred teardown terminates and leaves nothing behind.**  From any state the loop of `flush_dead` comes to an
end, after no more teardowns than there were active connections and with none torn down twice, and no connection is left
both active and dead.  An entry point called where there is none leaves none, and so does every run. -/
theorem flushDead_terminates (P : Params Ctx) (σ : Broker Ctx) :
    FlushRuns P σ (σ.flushDead P) ∧ NoneDead P (σ.flushDead P) ∧
    (∃ torn, closings (σ.flushDead P).trace = torn ++ closings σ.trace ∧ torn.Nodup ∧
      (∀ ci ∈ torn, ci ∈ activeSet P σ) ∧ torn.length ≤ (activeSet P σ).card) ∧
    (NoneDead P σ → ∀ input, NoneDead P (σ.step P input)) ∧ ∀ inputs, NoneDead P (run P inputs) := by
  obtain ⟨hruns, hnone, torn, htears⟩ := flushDead_tears P σ
  refine ⟨hruns, hnone, ⟨torn, htears.closings, htears.nodup, htears.were, htears.length_le⟩, fun h => h.step, ?_⟩
  exact fun inputs ci _ hact => (run_stepped P inputs).sound.flushed ci hact

/-- The will of connection 0 is refused on connection 1, whose own will goes out then: two passes with a teardown each.
-/
theorem flushDead_terminates_cascade : let P := bed (fun _ ci pkt => !(ci == 1 && pkt.head? == some 0x30))
    let σ := (run P (Input.connect 0 [97] { willTopic := some [116] } ++ Input.connect 1 [98]
      { willTopic := some [117] } ++ [.feed 1 (Wire.makeSubscribe 1 [([116], 0)])])).setDead 0
    FlushRuns P σ (σ.flushDead P) ∧ closings (σ.flushDead P).trace = [1, 0] ∧ closings σ.trace = [] :=
  ⟨(flushDead_terminates _ _).1, by decide +kernel, by decide +kernel⟩

end Minimosq
