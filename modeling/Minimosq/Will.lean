import Minimosq.Bed
import Minimosq.Run
/-!
# Wills

An accepted CONNECT opens an episode of its slot: what the slot does until the next one.  The will that CONNECT carried
is submitted in its episode, once, when teardown takes the session off the connection, unless a DISCONNECT was processed
before.  `Armed` is the invariant while that is open, `Spent` the one when it is not.
-/
namespace Minimosq

open History (Star since Each)

variable {Ctx : Type} {P : Params Ctx} {k : Nat}
variable {acts h : Trace Ctx} {a : Act Ctx} {ci : Nat} {s s' : Session Ctx}

/-! ## Episodes -/

/-- The CONNECT accepted last. -/
def lastConnect (h : Trace Ctx) : Option (Act Ctx) := h.find? Act.isBind

/-- What was done since the CONNECT accepted last. -/
def episode (h : Trace Ctx) : Trace Ctx := since Act.isBind h

def Act.isSubmit : Act Ctx → Bool
  | .submit _ _ _ _ _ _ _ _ => true
  | _ => false

def submits (ep : Trace Ctx) : Trace Ctx := ep.filter Act.isSubmit

/-- **The connection `ci` ended, and with it the episode of the CONNECT that left the session `b`**: its will, if it had
one, was submitted once, as the CONNECT left it and with its context, but not after a DISCONNECT. -/
structure Over (k ci : Nat) (b : Session Ctx) (ep : Trace Ctx) : Prop where
  ended : .detach k ci ∈ ep
  once : b.hasWill = true → .disconnect k ci ∉ ep →
    ∃ allowed, submits ep = [submitNote k ci b allowed]
  never : b.hasWill = false ∨ .disconnect k ci ∈ ep → submits ep = []

/-- The last episode is over, if there was one. -/
def Spent (k : Nat) (h : Trace Ctx) : Prop :=
  ∀ ci b resumed, lastConnect h = some (.bind k ci b resumed) → Over k ci b (episode h)

/-- An accepted CONNECT finds the last episode over. -/
def OpensAfter (k : Nat) (a : Act Ctx) (older : Trace Ctx) : Prop := a.isBind = true → Spent k older

/-- A will is submitted right after its session was taken off its connection. -/
def AtTeardown (a : Act Ctx) (older : Trace Ctx) : Prop :=
  ∀ k ci ctx topic payload qos retain allowed, a = .submit k ci ctx topic payload qos retain allowed →
    ∃ h', older = .detach k ci :: h'

theorem lastConnect_append (hacts : ∀ a ∈ acts, a.isBind = false) (h : Trace Ctx) :
    lastConnect (acts ++ h) = lastConnect h := by
  rw [lastConnect, List.find?_append, List.find?_eq_none.2 (fun a ha => by simp [hacts a ha])]
  rfl

theorem episode_append (hacts : ∀ a ∈ acts, a.isBind = false) (h : Trace Ctx) :
    episode (acts ++ h) = acts ++ episode h := History.since_append hacts h

/-! ### Acts that are no business of a will -/

def Act.ofWill : Act Ctx → Bool
  | .bind _ _ _ _ | .detach _ _ | .disconnect _ _ | .submit _ _ _ _ _ _ _ _ => true
  | _ => false

theorem Act.isBind_of_inert (h : a.ofWill = false) : a.isBind = false := by
  cases a <;> first | rfl | cases h

theorem Act.isSubmit_of_inert (h : a.ofWill = false) : a.isSubmit = false := by
  cases a <;> first | rfl | cases h

section
variable {acts : Trace Ctx} (hacts : ∀ a ∈ acts, a.ofWill = false)
include hacts

theorem lastConnect_inert (h : Trace Ctx) : lastConnect (acts ++ h) = lastConnect h :=
  lastConnect_append (fun a ha => Act.isBind_of_inert (hacts a ha)) h

theorem episode_inert (h : Trace Ctx) : episode (acts ++ h) = acts ++ episode h :=
  episode_append (fun a ha => Act.isBind_of_inert (hacts a ha)) h

theorem submits_inert (ep : Trace Ctx) : submits (acts ++ ep) = submits ep := by
  rw [submits, List.filter_append, List.filter_eq_nil_iff.2 (fun a ha => by simp [Act.isSubmit_of_inert (hacts a ha)])]
  rfl

theorem mem_inert (ha : a.ofWill = true) (ep : Trace Ctx) : a ∈ acts ++ ep ↔ a ∈ ep := by
  refine ⟨fun h => (List.mem_append.1 h).elim (fun h' => ?_) id, List.mem_append_right _⟩
  have := hacts a h'
  rw [ha] at this
  cases this

theorem Over.inert {b : Session Ctx} {ep : Trace Ctx} (h : Over k ci b ep) : Over k ci b (acts ++ ep) where
  ended := List.mem_append_right _ h.ended
  once := fun hw hd => by
    rw [submits_inert hacts]
    exact h.once hw (fun hin => hd (List.mem_append_right _ hin))
  never := fun hd => by
    rw [submits_inert hacts]
    exact h.never (hd.imp_right (mem_inert hacts rfl ep).1)

theorem Spent.inert (hs : Spent k h) : Spent k (acts ++ h) := by
  intro ci b resumed hc
  rw [lastConnect_inert hacts] at hc
  rw [episode_inert hacts]
  exact (hs ci b resumed hc).inert hacts

end

theorem Act.inert_of_delivers (h : a.delivers = true) : a.ofWill = false := by
  cases a <;> first | rfl | cases h

theorem TStep.inert (d : TStep P k h s acts s') : ∀ a ∈ acts, a.ofWill = false := by
  intro a ha
  cases d with
  | deliver d => exact Act.inert_of_delivers (d.delivers a ha)
  | subs _ _ hacts =>
    have hsubs := hacts a ha
    cases a <;> first | rfl | cases hsubs
  | publish _ _ _ _ _ hpub =>
    rw [List.mem_singleton.1 ha]
    cases hpub <;> rfl

theorem TStep.not_bind (d : TStep P k h s acts s') :
    ∀ a ∈ acts, a.isBind = false := fun a ha => Act.isBind_of_inert (d.inert a ha)

/-! ## The will of the last CONNECT -/

/-- What of a session its will is submitted with. -/
structure SameWill (s s' : Session Ctx) : Prop where
  ctx : s'.authCtx = s.authCtx
  topic : s'.willTopic = s.willTopic
  payload : s'.willPayload = s.willPayload
  qos : s'.willQos = s.willQos
  retain : s'.willRetain = s.willRetain

theorem SameWill.submitNote (h : SameWill s s') (ci : Nat) (allowed : Bool) :
    submitNote k ci s' allowed = Minimosq.submitNote k ci s allowed := by
  simp only [Minimosq.submitNote, h.ctx, h.topic, h.payload, h.qos, h.retain]

theorem SameWill.of_frame (h : s'.frame = s.frame) : SameWill s s' where
  ctx := Session.authCtx_eq_of_frame h
  topic := show s'.frame.willTopic = s.frame.willTopic by rw [h]
  payload := show s'.frame.willPayload = s.frame.willPayload by rw [h]
  qos := show s'.frame.willQos = s.frame.willQos by rw [h]
  retain := show s'.frame.willRetain = s.frame.willRetain by rw [h]

theorem SameWill.trans {s'' : Session Ctx} (h : SameWill s s') (h' : SameWill s' s'') : SameWill s s'' :=
  ⟨h'.ctx.trans h.ctx, h'.topic.trans h.topic, h'.payload.trans h.payload, h'.qos.trans h.qos,
    h'.retain.trans h.retain⟩

/-- **The will of the last CONNECT is not settled**: nothing was submitted yet, and the session holds the will as the
CONNECT left it, armed unless a DISCONNECT was processed. -/
structure Armed (k : Nat) (h : Trace Ctx) (s : Session Ctx) (ci : Nat) (b : Session Ctx) : Prop where
  connect : ∃ resumed, lastConnect h = some (.bind k ci b resumed)
  conn : s.conn ≠ noConn → s.conn = ci
  ended : .detach k ci ∈ episode h ↔ s.conn = noConn
  only : ∀ j, .detach k j ∈ episode h → j = ci
  none : submits (episode h) = []
  will : s.hasWill = true ↔ b.hasWill = true ∧ .disconnect k ci ∉ episode h
  same : SameWill b s

/-- How the will of a live session stands. -/
structure WillNow (k : Nat) (h : Trace Ctx) (s : Session Ctx) : Prop where
  spent : s.conn = noConn → s.hasWill = false → Spent k h
  armed : s.conn ≠ noConn ∨ s.hasWill = true → ∃ ci b, Armed k h s ci b

theorem WillNow.inert (hw : WillNow k h s) (hacts : ∀ a ∈ acts, a.ofWill = false) (hf : s'.frame = s.frame) :
    WillNow k (acts ++ h) s' := by
  have hconn := Session.conn_eq_of_frame hf
  have hwill : s'.hasWill = s.hasWill := show s'.frame.hasWill = s.frame.hasWill by rw [hf]
  refine ⟨fun ho hn => (hw.spent (hconn ▸ ho) (hwill ▸ hn)).inert hacts, fun ha => ?_⟩
  rw [hconn, hwill] at ha
  obtain ⟨ci, b, ha⟩ := hw.armed ha
  refine ⟨ci, b, ?_, ?_, ?_, fun j hj => ?_, ?_, ?_, ha.same.trans (.of_frame hf)⟩
  · rw [lastConnect_inert hacts]
    exact ha.connect
  · rw [hconn]
    exact ha.conn
  · rw [episode_inert hacts, mem_inert hacts rfl, hconn]
    exact ha.ended
  · rw [episode_inert hacts, mem_inert hacts rfl] at hj
    exact ha.only j hj
  · rw [episode_inert hacts, submits_inert hacts]
    exact ha.none
  · rw [episode_inert hacts, mem_inert hacts rfl, hwill]
    exact ha.will

theorem WillNow.bind {b : Session Ctx} (ci : Nat) (resumed : Bool) (hconn : b.conn = ci) (hci : ci ≠ noConn) :
    WillNow k (.bind k ci b resumed :: h) b := by
  have hep : episode (.bind k ci b resumed :: h) = [] := History.since_cons_mark rfl h
  refine ⟨fun ho => absurd (hconn.symm.trans ho) hci, fun _ => ⟨ci, b, ⟨resumed, rfl⟩, fun _ => hconn, ?_, ?_, ?_, ?_,
    ⟨rfl, rfl, rfl, rfl, rfl⟩⟩⟩
  · simp [hep, hconn, hci]
  · simp [hep]
  · simp [hep, submits]
  · simp [hep]

theorem WillNow.detach (hw : WillNow k h s) (now order : Nat) (hon : s.conn ≠ noConn) :
    WillNow k (.detach k s.conn :: h) (detached s now order) := by
  obtain ⟨ci, b, ha⟩ := hw.armed (.inl hon)
  have hci := ha.conn hon
  have hep : episode (.detach k s.conn :: h) = .detach k s.conn :: episode h := History.since_cons rfl h
  have hin : .detach k ci ∈ episode (.detach k s.conn :: h) := by
    rw [hep, hci]
    exact List.mem_cons_self
  have hdis : .disconnect k ci ∈ episode (.detach k s.conn :: h) ↔ .disconnect k ci ∈ episode h := by simp [hep]
  have hnone : submits (episode (.detach k s.conn :: h)) = [] := by
    rw [hep]
    exact ha.none
  refine ⟨fun _ hno ci' b' resumed hc => ?_, fun _ => ⟨ci, b, ha.connect, fun hne => absurd rfl hne,
    ⟨fun _ => rfl, fun _ => hin⟩, fun j hj => ?_, hnone, ?_, ?_⟩⟩
  · -- Nothing was armed: nothing is due.
    obtain ⟨resumed', hc'⟩ := ha.connect
    obtain ⟨-, rfl, rfl, -⟩ := Act.bind.inj (Option.some.inj (hc'.symm.trans hc))
    refine ⟨hin, fun hwill hno' => ?_, fun _ => hnone⟩
    have := ha.will.2 ⟨hwill, fun hd => hno' (hdis.2 hd)⟩
    rw [show s.hasWill = false from hno] at this
    cases this
  · rw [hep] at hj
    rcases List.mem_cons.1 hj with he | hj
    · cases he
      exact hci
    · exact ha.only j hj
  · rw [hdis]
    exact ha.will
  · exact ha.same.trans ⟨rfl, rfl, rfl, rfl, rfl⟩

theorem WillNow.disconnect (hw : WillNow k h s) (hon : s.conn ≠ noConn) :
    WillNow k (.disconnect k s.conn :: h) { s with hasWill := false } := by
  obtain ⟨ci, b, ha⟩ := hw.armed (.inl hon)
  have hci := ha.conn hon
  have hep : episode (.disconnect k s.conn :: h) = .disconnect k s.conn :: episode h := History.since_cons rfl h
  refine ⟨fun ho => absurd ho hon, fun _ => ⟨ci, b, ha.connect, fun _ => hci, ?_, fun j hj => ?_, ?_, ?_,
    ha.same.trans ⟨rfl, rfl, rfl, rfl, rfl⟩⟩⟩
  · simpa [hep] using ha.ended
  · rw [hep] at hj
    exact ha.only j (by simpa using hj)
  · rw [hep]
    exact ha.none
  · rw [hep, hci]
    exact ⟨fun he => by (cases he), fun ⟨_, hno⟩ => absurd List.mem_cons_self hno⟩

theorem WillNow.submit (hw : WillNow k h s) {allowed : Bool} (hoff : s.conn = noConn) (hwill : s.hasWill = true)
    (hjust : ∃ h', h = .detach k ci :: h') :
    WillNow k (submitNote k ci s allowed :: h) { s with hasWill := false } := by
  obtain ⟨ci', b, ha⟩ := hw.armed (.inr hwill)
  have hep : episode (submitNote k ci s allowed :: h) = submitNote k ci s allowed :: episode h :=
    History.since_cons rfl h
  refine ⟨fun _ _ ci'' b' resumed hc => ?_, fun hno => ?_⟩
  · obtain ⟨resumed', hc'⟩ := ha.connect
    have hc : lastConnect h = some (.bind k ci'' b' resumed) := hc
    obtain ⟨-, rfl, rfl, -⟩ := Act.bind.inj (Option.some.inj (hc'.symm.trans hc))
    -- The teardown the will follows is that of the CONNECT's own connection.
    obtain rfl : ci = ci' := by
      obtain ⟨h', rfl⟩ := hjust
      refine ha.only ci ?_
      rw [episode, History.since_cons rfl]
      exact List.mem_cons_self
    obtain ⟨hb, hno⟩ := ha.will.1 hwill
    have hnot : .disconnect k ci ∉ episode (submitNote k ci s allowed :: h) := by
      rw [hep]
      simpa [submitNote] using hno
    refine ⟨?_, fun _ _ => ⟨allowed, ?_⟩, fun hd => ?_⟩
    · rw [hep]
      exact List.mem_cons_of_mem _ (ha.ended.2 hoff)
    · rw [hep, submits, List.filter_cons_of_pos rfl, ← ha.same.submitNote]
      exact congrArg _ ha.none
    · rcases hd with hd | hd
      · rw [hb] at hd
        cases hd
      · exact absurd hd hnot
  · rcases hno with hno | hno
    · exact absurd hoff hno
    · cases hno

/-! ## Every run -/

/-- What is known of a slot's wills at every point of its life. -/
structure WillPast (k : Nat) (h : Trace Ctx) (o : Option (Session Ctx)) : Prop where
  opens : Each (OpensAfter k) h
  atTeardown : Each AtTeardown h
  off : o = none → Spent k h
  live : ∀ s, o = some s → WillNow k h s

theorem atTeardown_of_not_submit (ha : a.isSubmit = false) (older : Trace Ctx) : AtTeardown a older := by
  rintro _ _ _ _ _ _ _ _ rfl
  cases ha

theorem WillPast.inert (hI : WillPast k h (some s)) (hacts : ∀ a ∈ acts, a.ofWill = false) (hf : s'.frame = s.frame) :
    WillPast k (acts ++ h) (some s') := by
  refine ⟨hI.opens.append (fun a ha _ hb => ?_),
    hI.atTeardown.append (fun a ha _ => atTeardown_of_not_submit (Act.isSubmit_of_inert (hacts a ha)) _), by simp, ?_⟩
  · rw [Act.isBind_of_inert (hacts a ha)] at hb
    cases hb
  · rintro _ ⟨⟩
    exact (hI.live s rfl).inert hacts hf

theorem WillPast.bind (hI : WillPast k h (some s)) (p : ConnectPacket) (ctx : Ctx) (resumed : Bool)
    (hoff : s.conn = noConn) (hwill : s.hasWill = false) (hci : ci < P.T.maxConnections) :
    WillPast k (.bind k ci (boundSession P.T ci p ctx s) resumed :: h)
      (some (boundSession P.T ci p ctx s)) := by
  have hmax := P.T.connections_le
  have hno : ci ≠ noConn := by simp only [noConn]; omega
  have hconn : (boundSession P.T ci p ctx s).conn = ci := by
    rw [(boundSession_fields P.T ci p ctx s).1, toU16]
    omega
  refine ⟨⟨fun _ => (hI.live s rfl).spent hoff hwill, hI.opens⟩, ⟨atTeardown_of_not_submit rfl _, hI.atTeardown⟩,
    by simp, ?_⟩
  rintro _ ⟨⟩
  exact .bind ci resumed hconn hno

theorem SlotRun.wills {o : Option (Session Ctx)} (run : SlotRun P k h o) : WillPast k h o := by
  have hquiet : ∀ {a : Act Ctx} {h : Trace Ctx}, a.isBind = false → a.isSubmit = false →
      Each (OpensAfter k) h ∧ Each AtTeardown h → Each (OpensAfter k) (a :: h) ∧ Each AtTeardown (a :: h) :=
    fun hb hs hh => ⟨⟨fun hb' => absurd (hb.symm.trans hb') (by simp), hh.1⟩, ⟨atTeardown_of_not_submit hs _, hh.2⟩⟩
  refine run.inv (WillPast k) (fun h o acts o' hI one => ?_)
    ⟨trivial, trivial, fun _ _ _ _ hc => by (cases hc), by simp⟩
  have hsofar := And.intro hI.opens hI.atTeardown
  cases one with
  | serve d => exact hI.inert d.inert d.frame
  | alloc ctx clientId =>
    have hspent : Spent k ([.alloc k] ++ h) := (hI.off rfl).inert (by simp [Act.ofWill])
    obtain ⟨ho, ha⟩ := hquiet (a := .alloc k) rfl rfl hsofar
    refine ⟨ho, ha, by simp, ?_⟩
    rintro _ ⟨⟩
    exact ⟨fun _ _ => hspent, fun hne => by rcases hne with hne | hne; exacts [absurd rfl hne, by cases hne]⟩
  | @release s hoff hwill =>
    have hspent : Spent k ([.release k] ++ h) := ((hI.live s rfl).spent hoff hwill).inert (by simp [Act.ofWill])
    obtain ⟨ho, ha⟩ := hquiet (a := .release k) rfl rfl hsofar
    exact ⟨ho, ha, fun _ => hspent, by simp⟩
  | bind ci p ctx hoff hwill _ hci _ => exact hI.bind p ctx false hoff hwill hci
  | @resume s s' new ci p ctx e up hoff hwill _ hci _ steps _ =>
    have hbind := hI.bind p ctx true hoff hwill hci
    have hevent : WillPast k ([.event e (some k)] ++ _) _ := hbind.inert (by simp [Act.ofWill]) rfl
    have hend := steps.inv (fun h s => WillPast k h (some s))
      (fun _ _ _ _ hI r => hI.inert (fun a ha => Act.inert_of_delivers (r.delivers a ha)) r.frame) hevent
    have hdone : WillPast k ([.resumed k up] ++ _) (some s') := hend.inert (by simp [Act.ofWill]) rfl
    simpa only [List.cons_append, List.append_assoc, List.nil_append] using hdone
  | @detach s now order hon =>
    have hpark : WillPast k ([.parked k (detached s now order)] ++ h) (some s) :=
      hI.inert (by simp [Act.ofWill]) rfl
    obtain ⟨ho, ha⟩ := hquiet (a := .detach k s.conn) rfl rfl ⟨hpark.opens, hpark.atTeardown⟩
    refine ⟨ho, ha, by simp, ?_⟩
    rintro _ ⟨⟩
    exact (hpark.live s rfl).detach now order hon
  | @disconnect s hon =>
    obtain ⟨ho, ha⟩ := hquiet (a := .disconnect k s.conn) rfl rfl hsofar
    refine ⟨ho, ha, by simp, ?_⟩
    rintro _ ⟨⟩
    exact (hI.live s rfl).disconnect hon
  | @submit s ci allowed t hoff hwill hjust =>
    refine ⟨⟨fun hb => by (cases hb), hI.opens⟩, ⟨?_, hI.atTeardown⟩, by simp, ?_⟩
    · intro k' ci' _ _ _ _ _ _ he
      cases he
      exact hjust
    · rintro _ ⟨⟩
      exact (hI.live s rfl).submit hoff hwill hjust

/-- Connection `ci` is up and its session is the one in slot `k`. -/
def Broker.Up (P : Params Ctx) (σ : Broker Ctx) (k ci : Nat) : Prop :=
  (σ.conns ci).active = true ∧ ∃ s, σ.sessionOf P (σ.conns ci) = some (k, s)

instance (σ : Broker Ctx) (k ci : Nat) : Decidable (σ.Up P k ci) :=
  decidable_of_iff ((σ.conns ci).active = true ∧ (σ.sessionOf P (σ.conns ci)).map Prod.fst = some k)
    (by simp [Broker.Up])

theorem Linked.up_iff {σ : Broker Ctx} (hL : Linked P none σ) :
    σ.Up P k ci ↔ ∃ s, σ.sessions.slot k = some s ∧ s.conn = ci ∧ ci ≠ noConn := by
  refine ⟨fun ⟨hact, s, hs⟩ => ?_, ?_⟩
  · have hne : (σ.conns ci).session ≠ noSession := by
      intro hno
      simp [Broker.sessionOf, hno] at hs
    obtain ⟨s', hs', hslot, hconn⟩ := hL.sessionOf hne
    rw [hs] at hs'
    cases hs'
    have hlt := hL.active_lt ci hact
    have := P.T.connections_le
    exact ⟨s, hslot, hconn, by simp only [noConn]; omega⟩
  · rintro ⟨s, hs, rfl, hne⟩
    obtain ⟨hact, hk⟩ := hL.of_session k s hs hne
    have hno : (σ.conns s.conn).session ≠ noSession := by
      rw [hk]
      exact hL.slot_ne_noSession hs
    obtain ⟨s', hs', -, -⟩ := hL.sessionOf hno
    rw [hk] at hs'
    exact ⟨hact, s', hs'⟩

example :
    let will : Wire.ConnectOpts := { willTopic := some [119], willPayload := [1] }
    let ends := fun last => submits (episode (slotActs 0 (run (bed (fun _ _ _ => true))
      (Input.connect 0 [99] will ++ [last])).trace))
    ends (.connClosed 0) = [.submit 0 0 () [119] [1] .atMostOnce false true] ∧
    ends (.feed 0 (Wire.makeEmpty .disconnect)) = [] := by
  decide +kernel

end Minimosq
