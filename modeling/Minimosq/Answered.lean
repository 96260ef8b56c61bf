import Minimosq.Chunking
import Minimosq.Reply
/-!
# The answers of a connection, complete and in order

The trace is cut at every opening of connection `ci`.  In each piece, the answers the transport accepted on `ci` are
those the packets processed on it called for, in order and each once; but when a connection is marked dead while a
packet is handled, that packet is its last and its answer may be missing.
-/
namespace Minimosq

open History (pieces Star)

variable {Ctx : Type} {P : Params Ctx}
variable {acts h : Trace Ctx} {a : Act Ctx} {k : Nat} {s s' : Session Ctx}

/-- An answer the transport accepted on `ci`. -/
def Act.answer (ci : Nat) : Act Ctx → Option Response
  | .send j pkt true _ => if j = ci then responseOf pkt else none
  | _ => none

/-- The answer a packet processed on `ci` calls for. -/
def Act.demand (ci : Nat) : Act Ctx → Option Response
  | .packet j firstByte body => if j = ci then required firstByte body else none
  | _ => none

/-- Connection `ci` is opened. -/
def Act.opensOn (ci : Nat) : Act Ctx → Bool
  | .event e _ => e.kind == .connectionOpened && e.ci == some ci
  | _ => false

/-- The answers accepted on `ci` in a piece of a trace, in order. -/
def answers (ci : Nat) (ep : Trace Ctx) : List Response := (ep.filterMap (Act.answer ci)).reverse

/-- The answers called for on `ci` in a piece of a trace, in order. -/
def demands (ci : Nat) (ep : Trace Ctx) : List Response := (ep.filterMap (Act.demand ci)).reverse

/-- **The last answer is missing**: the connection was alive when the packet arrived, and dead when it had been handled.
-/
inductive Unanswered (P : Params Ctx) (ci : Nat) (arrives : Arrival Ctx → Prop) (ep : Trace Ctx) : Prop
  | mk (a : Arrival Ctx) (r : Response) (later during earlier older : Trace Ctx) (here : arrives a)
      (hr : required a.firstByte a.body = some r) (halive : (a.state.conns ci).dead = false)
      (hdead : ((a.state.onPacket P ci a.firstByte a.body).2.conns ci).dead = true)
      (hduring : (a.state.onPacket P ci a.firstByte a.body).2.trace =
        during ++ .packet ci a.firstByte a.body :: a.state.trace)
      (hbefore : a.state.trace = earlier ++ older)
      (hep : ep = later ++ (during ++ .packet ci a.firstByte a.body :: earlier))
      (hlast : ∀ act ∈ later ++ during, act.packet?.map Prod.fst ≠ some ci)
      (hmissing : demands ci ep = answers ci ep ++ [r])

/-- **Every answer called for was accepted, in order**, or all but the last. -/
def Fair (P : Params Ctx) (ci : Nat) (arrives : Arrival Ctx → Prop) (ep : Trace Ctx) : Prop :=
  answers ci ep = demands ci ep ∨ Unanswered P ci arrives ep

/-- Nothing comes in, is answered or opened on `ci`. -/
structure Act.Unheard (ci : Nat) (a : Act Ctx) : Prop where
  answer : a.answer ci = none
  packet : a.packet?.map Prod.fst ≠ some ci
  opens : a.opensOn ci = false

section
variable {ci : Nat} {arrives arrives' : Arrival Ctx → Prop} {ep new : Trace Ctx} {σ σ' : Broker Ctx}

theorem answers_append (new ep : Trace Ctx) : answers ci (new ++ ep) = answers ci ep ++ answers ci new := by
  simp [answers, List.filterMap_append]

theorem demands_append (new ep : Trace Ctx) : demands ci (new ++ ep) = demands ci ep ++ demands ci new := by
  simp [demands, List.filterMap_append]

theorem answers_eq_nil (h : ∀ a ∈ new, a.answer ci = none) : answers ci new = [] := by
  rw [answers, List.filterMap_eq_nil_iff.2 h]
  rfl

theorem demands_eq_nil (h : ∀ a ∈ new, a.packet?.map Prod.fst ≠ some ci) : demands ci new = [] := by
  rw [demands, List.filterMap_eq_nil_iff.2 (fun a ha => ?_)]
  · rfl
  have hne := h a ha
  cases a with
  | packet j f body => exact if_neg (fun hj => hne (by rw [hj]; rfl))
  | _ => rfl

theorem Unanswered.mono (h : Unanswered P ci arrives ep) (hmono : ∀ a, arrives a → arrives' a) :
    Unanswered P ci arrives' ep := by
  obtain ⟨a, r, later, during, earlier, older, here, hr, halive, hdead, hduring, hbefore, hep, hlast, hmissing⟩ := h
  exact ⟨a, r, later, during, earlier, older, hmono a here, hr, halive, hdead, hduring, hbefore, hep, hlast, hmissing⟩

/-- What is unheard on `ci` changes nothing. -/
theorem Fair.append (h : Fair P ci arrives ep) (hnew : ∀ a ∈ new, a.Unheard ci) : Fair P ci arrives (new ++ ep) := by
  have hans : answers ci (new ++ ep) = answers ci ep := by
    rw [answers_append, answers_eq_nil (fun a ha => (hnew a ha).answer), List.append_nil]
  have hdem : demands ci (new ++ ep) = demands ci ep := by
    rw [demands_append, demands_eq_nil (fun a ha => (hnew a ha).packet), List.append_nil]
  rcases h with h | ⟨a, r, later, during, earlier, older, here, hr, halive, hdead, hduring, hbefore, hep, hlast,
    hmissing⟩
  · exact .inl (by rw [hans, hdem, h])
  · refine .inr ⟨a, r, new ++ later, during, earlier, older, here, hr, halive, hdead, hduring, hbefore, ?_, ?_, ?_⟩
    · rw [hep, List.append_assoc]
    · rw [List.append_assoc]
      exact List.forall_mem_append.2 ⟨fun act hact => (hnew act hact).packet, hlast⟩
    · rw [hans, hdem, hmissing]

/-! ## One connection, step by step -/

/-- The piece of the trace since connection `ci` was last opened. -/
def current (ci : Nat) (t : Trace Ctx) : Trace Ctx := (pieces (Act.opensOn ci) t).headD []

/-- **How the answers of connection `ci` stand.** -/
structure Answering (P : Params Ctx) (ci : Nat) (arrives : Arrival Ctx → Prop) (σ : Broker Ctx) : Prop where
  fair : ∀ ep ∈ pieces (Act.opensOn ci) σ.trace, Fair P ci arrives ep
  alive : (σ.conns ci).active = true ∧ (σ.conns ci).dead = false →
    answers ci (current ci σ.trace) = demands ci (current ci σ.trace)

theorem Answering.mono (h : Answering P ci arrives σ) (hmono : ∀ a, arrives a → arrives' a) :
    Answering P ci arrives' σ :=
  ⟨fun ep hep => (h.fair ep hep).imp_right (·.mono hmono), h.alive⟩

theorem Answering.current_fair (h : Answering P ci arrives σ) : Fair P ci arrives (current ci σ.trace) := by
  unfold current
  cases hp : pieces (Act.opensOn ci) σ.trace with
  | nil => exact .inl rfl
  | cons ep es => exact h.fair ep (by rw [hp]; exact List.mem_cons_self)

/-- A connection that is alive and was not opened meanwhile was alive before. -/
theorem alive_of_lines {h' : Trace Ctx} {c c' : Conn} (run : Star (LineStep P ci) h c h' c') (hnew : h' = new ++ h)
    (hopens : ∀ a ∈ new, a.opens = false) (hup : c'.active = true ∧ c'.dead = false) :
    c.active = true ∧ c.dead = false := by
  refine run.since_inv (fun _ c₁ => c₁.active = true ∧ c₁.dead = false → c.active = true ∧ c.dead = false) ?_ hnew
    hopens id hup
  intro _ c₁ _ acts c₂ himp one hacts hup
  refine himp ?_
  cases one with
  | carry d =>
    cases d with
    | send => exact hup
    | die | refuse => exact absurd hup.2 (by simp)
  | tune hsame => exact ⟨hsame.active.symm.trans hup.1, hsame.dead.symm.trans hup.2⟩
  | opened e hkind =>
    have hopen := hacts (.event e none) (List.mem_singleton_self _)
    simp [Act.opens, hkind] at hopen
  | accept _ _ _ _ hbefore => exact hbefore
  | peer hbefore => exact hbefore
  | ended => exact absurd hup.1 (by simp [Conn.gone])

theorem alive_of_course (hC : Course P σ σ') (htrace : σ'.trace = new ++ σ.trace)
    (hnew : ∀ a ∈ new, a.opensOn ci = false) (hup : (σ'.conns ci).active = true ∧ (σ'.conns ci).dead = false) :
    (σ.conns ci).active = true ∧ (σ.conns ci).dead = false := by
  have hlines : lineActs ci σ'.trace = lineActs ci new ++ lineActs ci σ.trace := by
    rw [htrace]
    exact History.about_append ..
  refine alive_of_lines (hC.lines ci) hlines (fun a ha => ?_) hup
  · obtain ⟨hmem, hline⟩ := History.mem_about.1 ha
    have hopens := hnew a hmem
    cases a with
    | event e slot =>
      by_cases hkind : e.kind = .connectionOpened
      · have hci : e.ci = some ci := by simpa [Act.line, hkind] using hline
        simp [Act.opensOn, hkind, hci] at hopens
      · simp [Act.opens, hkind]
    | _ => rfl

theorem pieces_opensOn (hnew : ∀ a ∈ new, a.opensOn ci = false) (t : Trace Ctx) :
    current ci (new ++ t) = new ++ current ci t ∧
      ∀ ep ∈ pieces (Act.opensOn ci) (new ++ t), ep = new ++ current ci t ∨ ep ∈ pieces (Act.opensOn ci) t := by
  by_cases hne : new = []
  · subst hne
    exact ⟨rfl, fun ep hep => .inr hep⟩
  · rw [current, History.pieces_grow hne hnew]
    refine ⟨rfl, fun ep hep => ?_⟩
    rcases List.mem_cons.1 hep with rfl | hep
    · exact .inl rfl
    · exact .inr (List.mem_of_mem_tail hep)

/-- **A step in which nothing is heard on `ci`.** -/
theorem Answering.unheard (h : Answering P ci arrives σ) (hC : Course P σ σ') (htrace : σ'.trace = new ++ σ.trace)
    (hnew : ∀ a ∈ new, a.Unheard ci) : Answering P ci arrives σ' := by
  obtain ⟨hcurrent, hpieces⟩ := pieces_opensOn (fun a ha => (hnew a ha).opens) σ.trace
  refine ⟨fun ep hep => ?_, fun hup => ?_⟩
  · rw [htrace] at hep
    rcases hpieces ep hep with rfl | hep
    · exact h.current_fair.append hnew
    · exact h.fair ep hep
  · rw [htrace, hcurrent, answers_append, demands_append, answers_eq_nil (fun a ha => (hnew a ha).answer),
      demands_eq_nil (fun a ha => (hnew a ha).packet), List.append_nil, List.append_nil]
    exact h.alive (alive_of_course hC htrace (fun a ha => (hnew a ha).opens) hup)

/-- Connection `ci` is opened: a new piece begins. -/
theorem Answering.opened (h : Answering P ci arrives σ) (htrace : σ'.trace = a :: σ.trace) (ha : a.opensOn ci = true) :
    Answering P ci arrives σ' := by
  have hpieces := History.pieces_cons_mark (p := Act.opensOn ci) ha σ.trace
  have hquiet : answers ci [a] = [] ∧ demands ci [a] = [] := by
    cases a with
    | event e slot => exact ⟨rfl, rfl⟩
    | _ => cases ha
  refine ⟨fun ep hep => ?_, fun _ => ?_⟩
  · rw [htrace, hpieces] at hep
    rcases List.mem_cons.1 hep with rfl | hep
    · exact .inl (hquiet.1.trans hquiet.2.symm)
    · exact h.fair ep hep
  · rw [htrace, current, hpieces]
    exact hquiet.1.trans hquiet.2.symm

/-! ## What the broker sends for a session is no answer -/

/-- The act is not an answer. -/
def Act.noAnswer : Act Ctx → Prop
  | .send _ pkt _ _ => responseOf pkt = none
  | _ => True

theorem responseOf_buildPublish (cap : Nat) (topic payload : Bytes) (qos : QoS) (retain dup : Bool) (id : Nat) :
    responseOf (buildPublish cap topic payload qos retain dup id) = none := by
  by_cases hne : buildPublish cap topic payload qos retain dup id = []
  · rw [hne]
    rfl
  · refine responseOf_of_headType (fun t ht => ?_)
    rw [(buildPublish_isPacket hne).headType] at ht
    cases ht
    rfl

theorem responseOf_pubrelOf (T : Traits) (m : OutMsg) : responseOf (pubrelOf T m) = none := by
  refine responseOf_of_headType (fun t ht => ?_)
  rw [(pubrelOf_isPacket T m).headType] at ht
  cases ht
  rfl

theorem QStep.noAnswer {i : Nat} (q : QStep P k i s acts s') : ∀ a ∈ acts, a.noAnswer := by
  cases q with
  | advance hid => simp
  | stuck hid m hm hq => simp [Act.noAnswer]
  | transmit m ok hid hm hq hset hpkt => exact List.forall_mem_singleton.2 (responseOf_buildPublish ..)
  | drop m e dup id hm hst hpkt => simp [Act.noAnswer]

theorem DStep.noAnswer (d : DStep P k s acts s') : ∀ a ∈ acts, a.noAnswer := by
  cases d with
  | queue i hon q => exact q.noAnswer
  | live topic payload retain ok t auth => exact List.forall_mem_singleton.2 (responseOf_buildPublish ..)
  | pumpRel i m ok hon hm hst hflag hset => exact List.forall_mem_singleton.2 (responseOf_pubrelOf ..)
  | answerRel i m ok hm hst => exact List.forall_mem_singleton.2 (responseOf_pubrelOf ..)
  | _ => simp [Act.noAnswer]

theorem RStep.noAnswer (r : RStep P k h s acts s') : ∀ a ∈ acts, a.noAnswer := by
  cases r with
  | queue i hsent q => exact q.noAnswer
  | retransmit i m ok hsent hm hst hpkt => exact List.forall_mem_singleton.2 (responseOf_buildPublish ..)
  | rel i m ok hsent hm hst => exact List.forall_mem_singleton.2 (responseOf_pubrelOf ..)

/-- **A packet of a session is a PUBLISH or a PUBREL.** -/
theorem SlotRun.noAnswer {o : Option (Session Ctx)} (run : SlotRun P k h o) : ∀ a ∈ h, a.noAnswer := by
  refine SlotRun.rule (fun h _ => ∀ a ∈ h, a.noAnswer) (by simp) (fun h _ _ _ ih => ?_) (fun h _ ih => ?_)
    (fun h s acts s' ih d => ?_) (fun h s acts s' ih r => ?_) (fun h s acts s' ih hplain _ => ?_) run
  · exact List.forall_mem_cons.2 ⟨trivial, ih⟩
  · exact List.forall_mem_cons.2 ⟨trivial, ih⟩
  · exact List.forall_mem_append.2 ⟨d.noAnswer, ih⟩
  · exact List.forall_mem_append.2 ⟨r.noAnswer, ih⟩
  · refine List.forall_mem_append.2 ⟨fun a ha => ?_, ih⟩
    have := hplain a ha
    cases a <;> trivial

/-- What is sent for a session, in any state on the way. -/
theorem Course.noAnswer (hC : Course P .init σ) {j : Nat} {pkt : Bytes} {ok : Bool} {tag : Tag Ctx}
    (h : .send j pkt ok (some tag) ∈ σ.trace) : responseOf pkt = none := by
  have hrun : SlotRun P tag.slot (slotActs tag.slot σ.trace) (σ.sessions.slot tag.slot) := hC.evolve.slots tag.slot
  exact hrun.noAnswer _ (History.mem_about.2 ⟨h, rfl⟩)

/-- **Acts that answer nothing are unheard**, on every connection. -/
theorem Act.unheard_of_mute (hC : Course P .init σ) (hmem : a ∈ σ.trace) (hmute : a.mute = true) (ci : Nat) :
    a.Unheard ci := by
  cases a with
  | send j pkt ok tag =>
    have hno : responseOf pkt = none := by
      cases tag with
      | some tag => exact hC.noAnswer hmem
      | none =>
        refine responseOf_of_headType (fun t ht => ?_)
        have hhead : headType pkt = some .connack := by simpa [Act.mute] using hmute
        rw [hhead] at ht
        cases ht
        rfl
    refine ⟨?_, by simp [Act.packet?], rfl⟩
    cases ok with
    | false => rfl
    | true =>
      rw [Act.answer, hno]
      split <;> rfl
  | event e slot =>
    have hkind : e.kind ≠ .connectionOpened := by simpa [Act.mute] using hmute
    exact ⟨rfl, by simp [Act.packet?], by simp [Act.opensOn, hkind]⟩
  | packet j f body => cases hmute
  | _ => exact ⟨rfl, by simp [Act.packet?], rfl⟩

theorem Answering.mutely (h : Answering P ci arrives σ) (hinit : Course P .init σ) (hC : Course P σ σ')
    (hacts : Mutely σ.trace σ'.trace) : Answering P ci arrives σ' := by
  obtain ⟨new, htrace, hnew⟩ := hacts
  refine h.unheard hC htrace (fun a ha => Act.unheard_of_mute (hinit.trans hC) ?_ (hnew a ha) ci)
  rw [htrace]
  exact List.mem_append_left _ ha

/-! ## A packet -/

/-- The acts of handling a packet on `ci`: no other comes in, no connection opens, and nothing is answered on others. -/
structure During (ci : Nat) (during : Trace Ctx) : Prop where
  packet : ∀ a ∈ during, a.packet? = none
  opens : ∀ a ∈ during, ∀ j, a.opensOn j = false
  others : ∀ a ∈ during, ∀ j, j ≠ ci → a.answer j = none

theorem Act.packet?_of_mute (h : a.mute = true) : a.packet? = none := by
  cases a with
  | packet => cases h
  | _ => rfl

theorem During.of_mute (hC : Course P .init σ) (hmem : ∀ a ∈ new, a ∈ σ.trace) (hnew : ∀ a ∈ new, a.mute = true)
    (ci : Nat) : During ci new ∧ answers ci new = [] := by
  have hunheard := fun a ha j => Act.unheard_of_mute hC (hmem a ha) (hnew a ha) j
  exact ⟨⟨fun a ha => Act.packet?_of_mute (hnew a ha), fun a ha j => (hunheard a ha j).opens,
    fun a ha j _ => (hunheard a ha j).answer⟩, answers_eq_nil (fun a ha => (hunheard a ha ci).answer)⟩

theorem During.append {new' : Trace Ctx} (h : During ci new) (h' : During ci new') : During ci (new ++ new') :=
  ⟨List.forall_mem_append.2 ⟨h.packet, h'.packet⟩, List.forall_mem_append.2 ⟨h.opens, h'.opens⟩,
    List.forall_mem_append.2 ⟨h.others, h'.others⟩⟩

theorem During.send (ci : Nat) (pkt : Bytes) (ok : Bool) (tag : Option (Tag Ctx)) :
    During ci ([.send ci pkt ok tag] : Trace Ctx) := by
  refine ⟨by simp [Act.packet?], by simp [Act.opensOn], ?_⟩
  rw [List.forall_mem_singleton]
  intro j hj
  cases ok with
  | false => rfl
  | true => exact if_neg (Ne.symm hj)

theorem answers_send (ci : Nat) (pkt : Bytes) (ok : Bool) (tag : Option (Tag Ctx)) :
    answers ci [.send ci pkt ok tag] = if ok then (responseOf pkt).toList else [] := by
  cases ok with
  | false => rfl
  | true =>
    have hone : (Act.send ci pkt true tag).answer ci = responseOf pkt := if_pos rfl
    rw [answers, List.filterMap_cons, hone]
    cases responseOf pkt <;> rfl

/-- **What handling a packet on `ci` adds to the trace**: the answer called for, or none and the connection is dead. -/
theorem Replies.during {r : Option Response} (h : Replies ci r σ σ') (hC : Course P .init σ') :
    ∃ during, σ'.trace = during ++ σ.trace ∧ During ci during ∧
      (answers ci during = r.toList ∨ answers ci during = [] ∧ (σ'.conns ci).dead = true) := by
  cases h with
  | silent acts h =>
    obtain ⟨new, htrace, hnew⟩ := acts
    obtain ⟨hduring, hans⟩ := During.of_mute hC (fun a ha => by rw [htrace]; exact List.mem_append_left _ ha) hnew ci
    refine ⟨new, htrace, hduring, ?_⟩
    rcases h with rfl | hdead
    · exact .inl hans
    · exact .inr ⟨hans, hdead⟩
  | spoke pkt ok before after hr h =>
    obtain ⟨new₁, rfl, hnew₁⟩ := before
    obtain ⟨new₂, htrace, hnew₂⟩ := after
    have hmem : ∀ a ∈ new₂ ++ (.send ci pkt ok none :: new₁), a ∈ σ'.trace := fun a ha => by
      rw [htrace, ← List.cons_append, ← List.append_assoc]
      exact List.mem_append_left _ ha
    obtain ⟨hd₁, ha₁⟩ := During.of_mute hC (fun a ha => hmem a (by simp [ha])) hnew₁ ci
    obtain ⟨hd₂, ha₂⟩ := During.of_mute hC (fun a ha => hmem a (by simp [ha])) hnew₂ ci
    refine ⟨new₂ ++ ([.send ci pkt ok none] ++ new₁), by simp [htrace], hd₂.append ((During.send ..).append hd₁), ?_⟩
    rw [answers_append, answers_append, ha₁, ha₂, answers_send, List.append_nil, List.nil_append, hr]
    cases ok with
    | true => exact .inl rfl
    | false => exact .inr ⟨rfl, h.resolve_left (by simp)⟩

theorem demands_packet (ci : Nat) (firstByte : UInt8) (body : Bytes) :
    demands ci ([.packet ci firstByte body] : Trace Ctx) = (required firstByte body).toList := by
  have hone : (Act.packet ci firstByte body : Act Ctx).demand ci = required firstByte body := if_pos rfl
  rw [demands, List.filterMap_cons, hone]
  cases required firstByte body <;> rfl

/-- **A packet on `ci` and its answer.** -/
theorem Answering.packet (h : Answering P ci arrives σ) (hinit : Course P .init σ) (hL : Linked P none σ)
    (hact : (σ.conns ci).active = true) (hdead : (σ.conns ci).dead = false) {firstByte : UInt8} {body : Bytes}
    (hlen : body.length ≤ P.T.maxPacketSize ∧ body.length ≤ maxRemainingLength) (here : arrives ⟨σ, firstByte, body⟩) :
    Answering P ci arrives (σ.onPacket P ci firstByte body).2 := by
  have hone := onPacket_handled hL hact hdead firstByte hlen.1
  obtain ⟨during, htrace, hduring, hans⟩ :=
    (onPacket_replies hL hact hdead firstByte hlen.2).during (hinit.trans hone.toCourse)
  have hequal := h.alive ⟨hact, hdead⟩
  generalize hσ' : (σ.onPacket P ci firstByte body).2 = σ' at hone htrace hans ⊢
  replace htrace : σ'.trace = (during ++ [.packet ci firstByte body]) ++ σ.trace := by simp [htrace, Broker.emit]
  have hopens : ∀ a ∈ during ++ [.packet ci firstByte body], a.opensOn ci = false :=
    List.forall_mem_append.2 ⟨fun a ha => hduring.opens a ha ci, List.forall_mem_singleton.2 rfl⟩
  obtain ⟨hcurrent, hpieces⟩ := pieces_opensOn hopens σ.trace
  have hnone : ∀ a ∈ during, a.packet?.map Prod.fst ≠ some ci := fun a ha => by simp [hduring.packet a ha]
  have hdem : demands ci (current ci σ'.trace) = demands ci (current ci σ.trace) ++
      (required firstByte body).toList := by
    rw [htrace, hcurrent, demands_append, demands_append, demands_packet, demands_eq_nil hnone, List.append_nil]
  have hanswers : answers ci (current ci σ'.trace) = demands ci (current ci σ.trace) ++ answers ci during := by
    rw [htrace, hcurrent, answers_append, answers_append, hequal]
    rfl
  have hfair : Fair P ci arrives (current ci σ'.trace) := by
    rcases hans with hans | ⟨hans, hgone⟩
    · exact .inl (by rw [hanswers, hdem, hans])
    · cases hr : required firstByte body with
      | none => exact .inl (by rw [hanswers, hdem, hans, hr]; rfl)
      | some r =>
        refine .inr ⟨⟨σ, firstByte, body⟩, r, [], during, current ci σ.trace,
          (pieces (Act.opensOn ci) σ.trace).tail.flatten, here, hr, hdead, by rw [hσ']; exact hgone, ?_, ?_, ?_, hnone,
            ?_⟩
        · rw [hσ', htrace]
          simp
        · exact (History.flatten_pieces_head ..).symm
        · rw [htrace, hcurrent]
          simp
        · rw [hdem, hanswers, hans, hr, List.append_nil]
          rfl
  refine ⟨fun ep hep => ?_, fun hup => ?_⟩
  · rw [htrace] at hep
    rcases hpieces ep hep with rfl | hep
    · rw [← hcurrent, ← htrace]
      exact hfair
    · exact h.fair ep hep
  · rcases hans with hans | ⟨-, hgone⟩
    · rw [hanswers, hdem, hans]
    · rw [hup.2] at hgone
      cases hgone

theorem Answering.packet_other {j : Nat} (hj : j ≠ ci) (h : Answering P j arrives σ) (hinit : Course P .init σ)
    (hL : Linked P none σ) (hact : (σ.conns ci).active = true) (hdead : (σ.conns ci).dead = false) {firstByte : UInt8}
    {body : Bytes} (hlen : body.length ≤ P.T.maxPacketSize ∧ body.length ≤ maxRemainingLength) :
    Answering P j arrives (σ.onPacket P ci firstByte body).2 := by
  have hone := onPacket_handled hL hact hdead firstByte hlen.1
  obtain ⟨during, htrace, hduring, -⟩ :=
    (onPacket_replies hL hact hdead firstByte hlen.2).during (hinit.trans hone.toCourse)
  replace htrace : (σ.onPacket P ci firstByte body).2.trace = (during ++ [.packet ci firstByte body]) ++ σ.trace := by
    simp [htrace, Broker.emit]
  refine h.unheard hone.toCourse htrace (List.forall_mem_append.2 ⟨fun a ha => ?_, List.forall_mem_singleton.2 ?_⟩)
  · exact ⟨hduring.others a ha j hj, by simp [hduring.packet a ha], hduring.opens a ha j⟩
  · exact ⟨rfl, by simpa [Act.packet?] using Ne.symm hj, rfl⟩

/-! ## Every run -/

theorem mutely_timeoutOne (nowMs : Nat) (σ : Broker Ctx) (i : Nat) : Mutely σ.trace (σ.timeoutOne P nowMs i).trace := by
  unfold Broker.timeoutOne
  extract_lets c armed kind
  split
  · exact .refl _ _
  split
  · have hkind : (kind != .connectionOpened) = true := by
      change ((if c.session == noSession then .connectTimeout
        else if 0 < c.keepaliveS then .keepaliveTimeout else .idleTimeout : EventKind) != .connectionOpened) = true
      split
      · rfl
      · split <;> rfl
    have hnote : Mutely σ.trace (σ.notifyConn P kind i).trace := by
      refine mutely_note _ ?_ _
      exact hkind
    exact hnote.trans (lasting_setDead i _).mutely
  · exact .refl _ _

theorem mutely_expireOne (nowMs : Nat) (σ : Broker Ctx) (k : Nat) : Mutely σ.trace (σ.expireOne P nowMs k).trace := by
  unfold Broker.expireOne
  split
  · exact .refl _ _
  split
  · exact .refl _ _
  split
  · exact (mutely_note _ rfl _).trans (mutely_note _ rfl _)
  · exact .refl _ _

theorem mutely_foldl {f : Broker Ctx → Nat → Broker Ctx} (hf : ∀ σ i, Mutely σ.trace (f σ i).trace) :
    ∀ (l : List Nat) (σ : Broker Ctx), Mutely σ.trace (l.foldl f σ).trace
  | [], _ => .refl _ _
  | i :: l, σ => (hf σ i).trans (mutely_foldl hf l _)

theorem mutely_flushDead (σ : Broker Ctx) : Mutely σ.trace (σ.flushDead P).trace :=
  (show Ebbs (fun _ => False) none σ (σ.flushDead P) from ebbs_flushDead σ).mutely

/-- **`tick` answers nothing.** -/
theorem mutely_tick (nowMs : Nat) (σ : Broker Ctx) : Mutely σ.trace (σ.tick P nowMs).trace := by
  simp only [Broker.tick, Broker.expireSessions]
  have hloops := (mutely_foldl (mutely_timeoutOne (P := P) nowMs) (List.range P.T.maxConnections)
    { σ with nowMs := nowMs }).trans
    (mutely_foldl (fun σ k => (lasting_pumpOne (P := P) σ k).mutely) (List.range P.T.maxSessions) _)
  split
  · exact hloops.trans (mutely_flushDead _)
  · exact (hloops.trans (mutely_flushDead _)).trans (mutely_foldl (mutely_expireOne nowMs) _ _)

theorem mutely_endData (ci : Nat) (r : Err × FrameParser × Broker Ctx) : Mutely r.2.2.trace (endData P ci r).trace := by
  unfold endData
  split
  · exact (lasting_violation (P := P) ci r.1 (r.2.2.setParser ci r.2.1)).mutely.trans (mutely_flushDead _)
  · exact mutely_flushDead (r.2.2.setParser ci r.2.1)

theorem mutely_connClosed (ci : Nat) (σ : Broker Ctx) : Mutely σ.trace (σ.connClosed P ci).trace := by
  unfold Broker.connClosed
  split
  · exact .refl _ _
  · exact (mutely_note (.peerClosed ci) rfl σ.trace).trans (mutely_flushDead _)

theorem mutely_publish (topic payload : Bytes) (qos : QoS) (retain : Bool) (σ : Broker Ctx) :
    Mutely σ.trace (σ.publish P topic payload qos retain).2.trace := by
  unfold Broker.publish
  extract_lets idLen
  split
  · exact .refl _ _
  split
  · exact .refl _ _
  split
  · exact .refl _ _
  have hnote : Lasting σ (σ.emit (.application topic payload qos retain)) := lasting_emit _ rfl σ
  refine Adds.trans ?_ (mutely_flushDead _)
  cases retain with
  | true => exact ((hnote.trans (lasting_applyRetain ..)).trans (lasting_routePublish ..)).mutely
  | false => exact (hnote.trans (lasting_routePublish ..)).mutely

/-- The packets a call brings in, newest first. -/
def Input.packets (P : Params Ctx) (σ : Broker Ctx) : Input → List (Nat × UInt8 × Bytes)
  | .connData ci data now => (σ.arrivals P ci data now).map fun a => (ci, a.firstByte, a.body)
  | _ => []

/-- The arrivals of earlier calls, and those of this one so far. -/
def ArrivesNow (P : Params Ctx) (ci : Nat) (l : List (Arrival Ctx)) (j : Nat) (a : Arrival Ctx) : Prop :=
  Arrives P j a ∨ j = ci ∧ a ∈ l

/-- **The packets of one `conn_data`.** -/
theorem feed_answering (hs : Sound P σ) (hinit : Course P .init σ) (hact : (σ.conns ci).active = true)
    (hdead : (σ.conns ci).dead = false) (h : ∀ j, Answering P j (Arrives P j) σ) (data : Bytes) (nowMs : Nat) :
    let σ₁ := σ.beginData P ci nowMs
    let r := (σ₁.conns ci).parser.feed P.T.maxPacketSize (attending (Broker.onPacket P ci)) data
      (σ₁.setParser ci {}, [])
    (Course P .init r.2.2.1 ∧ Linked P none r.2.2.1 ∧ (r.2.2.1.conns ci).active = true ∧
        r.2.2.1.trace.filterMap Act.packet? =
          r.2.2.2.map (fun a => (ci, a.firstByte, a.body)) ++ σ.trace.filterMap Act.packet?) ∧
      ∀ j, Answering P j (ArrivesNow P ci r.2.2.2 j) r.2.2.1 := by
  have hb := beginData_spec hs.linked hs.parsers ci nowMs
  have h₀ := hb.setParser (FrameParser.held_fresh _)
  have htrace : ((σ.beginData P ci nowMs).setParser ci {}).trace = [] ++ σ.trace := by
    simp only [Broker.setParser, Broker.setConn, Broker.beginData]
    split <;> rfl
  refine (FrameParser.feed_rule P.T.maxPacketSize (attending (Broker.onPacket P ci)) (fun r => (r.1.conns ci).dead)
    (fun f body r => onPacket_alive P ci f body r.1)
    (fun r => (Course P .init r.1 ∧ Linked P none r.1 ∧ (r.1.conns ci).active = true ∧
        r.1.trace.filterMap Act.packet? =
          r.2.map (fun a => (ci, a.firstByte, a.body)) ++ σ.trace.filterMap Act.packet?) ∧
      ∀ j, Answering P j (ArrivesNow P ci r.2 j) r.1)
    (fun f body r hlen hr hd => ?_) (hb.parsers ci) data (h₀.dead.trans hdead)
    ⟨⟨hinit.trans h₀.toCourse, h₀.linked, h₀.active.trans hact, by rw [htrace]; rfl⟩, fun j => ?_⟩).1
  · obtain ⟨⟨hC, hL, hact', hpackets⟩, hall⟩ := hr
    have hone := onPacket_handled hL hact' hd f hlen.1
    obtain ⟨during, hduring, hquiet, -⟩ := (onPacket_replies hL hact' hd f hlen.2).during (hC.trans hone.toCourse)
    refine ⟨⟨hC.trans hone.toCourse, hone.linked, hone.active.trans hact', ?_⟩, fun j => ?_⟩
    · change (r.1.onPacket P ci f body).2.trace.filterMap Act.packet? = _
      rw [hduring, filterMap_skip hquiet.packet]
      exact congrArg (_ :: ·) hpackets
    have hmore : ∀ a, ArrivesNow P ci r.2 j a → ArrivesNow P ci (⟨r.1, f, body⟩ :: r.2) j a := fun a ha =>
      ha.imp_right (fun h => ⟨h.1, List.mem_cons_of_mem _ h.2⟩)
    by_cases hj : j = ci
    · subst hj
      exact ((hall j).mono hmore).packet hC hL hact' hd hlen (.inr ⟨rfl, List.mem_cons_self⟩)
    · exact ((hall j).mono hmore).packet_other hj hC hL hact' hd hlen
  · exact ((h j).unheard h₀.toCourse htrace (by simp)).mono (fun a ha => .inl ha)

/-- **One call**: the packets it brings in are processed, and all answers stand as they should. -/
theorem step_answering {inputs : List Input} (h : ∀ ci, Answering P ci (Arrives P ci) (run P inputs)) (input : Input) :
    (∀ j, Answering P j (Arrives P j) ((run P inputs).step P input)) ∧
      ((run P inputs).step P input).trace.filterMap Act.packet? =
        input.packets P (run P inputs) ++ (run P inputs).trace.filterMap Act.packet? := by
  have hrun := run_stepped P inputs
  have hstep := step_stepped hrun.sound input
  have hmute : ∀ {σ : Broker Ctx}, Course P (run P inputs) σ → Mutely (run P inputs).trace σ.trace →
      (∀ j, Answering P j (Arrives P j) σ) ∧
        σ.trace.filterMap Act.packet? = [] ++ (run P inputs).trace.filterMap Act.packet? := by
    intro σ hC hacts
    refine ⟨fun j => (h j).mutely hrun.toCourse hC hacts, ?_⟩
    obtain ⟨new, he, hnew⟩ := hacts
    rw [he]
    exact filterMap_skip (fun a ha => Act.packet?_of_mute (hnew a ha)) _
  cases input with
  | connOpen ci now =>
    have hC : Course P (run P inputs) ((run P inputs).connOpen P ci now).2 := hstep.toCourse
    change (∀ j, Answering P j (Arrives P j) ((run P inputs).connOpen P ci now).2) ∧ _ =
      [] ++ (run P inputs).trace.filterMap Act.packet?
    simp only [Broker.step]
    unfold Broker.connOpen at hC ⊢
    split
    · exact ⟨h, rfl⟩
    rename_i hguard
    rw [if_neg hguard] at hC
    refine ⟨fun j => ?_, rfl⟩
    by_cases hj : j = ci
    · exact (h j).opened rfl (by simp [Act.opensOn, hj])
    · refine (h j).unheard hC (List.singleton_append ..).symm
        (List.forall_mem_singleton.2 ⟨rfl, by simp [Act.packet?], ?_⟩)
      simpa [Act.opensOn] using Ne.symm hj
  | connClosed ci => exact hmute hstep.toCourse (mutely_connClosed ci _)
  | tick now => exact hmute hstep.toCourse (mutely_tick now _)
  | publish topic payload qos retain => exact hmute hstep.toCourse (mutely_publish ..)
  | connData ci data now =>
    change (∀ j, Answering P j (Arrives P j) ((run P inputs).connData P ci data now).2) ∧
      ((run P inputs).connData P ci data now).2.trace.filterMap Act.packet? =
        ((run P inputs).arrivals P ci data now).map _ ++ _
    by_cases hup : ci < P.T.maxConnections ∧ ((run P inputs).conns ci).active = true
    · have hdead := hrun.sound.flushed ci hup.2
      have harrivals : (run P inputs).arrivals P ci data now = _ :=
        if_neg (by simp [Nat.not_le.2 hup.1, hup.2, hdead])
      obtain ⟨⟨hC, hL, hact, hpackets⟩, hall⟩ := feed_answering hrun.sound hrun.toCourse hup.2 hdead h data now
      rw [connData_eq hup.1 hup.2 hdead, feed_attending _ _ _ _ (_, [])]
      dsimp only at harrivals hC hL hact hall hpackets ⊢
      rw [← harrivals] at hall hpackets
      generalize FrameParser.feed P.T.maxPacketSize (attending (Broker.onPacket P ci)) _ _ _ = r
        at hC hL hact hall hpackets ⊢
      have hmutely := mutely_endData (P := P) ci (r.1, r.2.1, r.2.2.1)
      refine ⟨fun j => ?_, ?_⟩
      · refine ((hall j).mutely hC (endData_course (r := (r.1, r.2.1, r.2.2.1)) hL hact) hmutely).mono (fun a ha => ?_)
        rcases ha with ha | ⟨rfl, ha⟩
        · exact ha
        · exact ⟨inputs, data, now, ha⟩
      · obtain ⟨new, he, hnew⟩ := hmutely
        rw [he, filterMap_skip (fun a ha => Act.packet?_of_mute (hnew a ha))]
        exact hpackets
    · rw [connData_of_inactive hup, Broker.arrivals, if_pos (Bool.or_eq_true_iff.2 (.inl (unknown_of_inactive hup)))]
      exact ⟨h, rfl⟩

theorem run_answering (P : Params Ctx) (inputs : List Input) (ci : Nat) :
    Answering P ci (Arrives P ci) (run P inputs) := by
  induction inputs using List.reverseRecOn generalizing ci with
  | nil => exact ⟨fun ep hep => by (cases hep), fun _ => rfl⟩
  | append_singleton inputs input ih =>
    rw [run_snoc]
    exact (step_answering ih input).1 ci

end

/-- **Responses are complete and ordered.**  However a run goes, cut its trace at every opening of connection `ci`: in
each piece the PUBACK, PUBREC, PUBCOMP, SUBACK, UNSUBACK and PINGRESP packets the transport accepted on `ci` are, in
order and each once, those the well-formed packets processed on it call for; or all of them but the last, whose packet
was being handled when the connection was marked dead.  While the connection is up, none is missing.  And the packets
processed are those that come in: each call adds the packets the parser completes in it, in order. -/
theorem run_responses (P : Params Ctx) (inputs : List Input) (ci : Nat) :
    (∀ ep ∈ pieces (Act.opensOn ci) (run P inputs).trace,
      answers ci ep = demands ci ep ∨ Unanswered P ci (Arrives P ci) ep) ∧
    (((run P inputs).conns ci).active = true →
      answers ci (current ci (run P inputs).trace) = demands ci (current ci (run P inputs).trace)) ∧
    ∀ input, ((run P inputs).step P input).trace.filterMap Act.packet? =
      input.packets P (run P inputs) ++ (run P inputs).trace.filterMap Act.packet? := by
  have h := run_answering P inputs ci
  exact ⟨h.fair, fun hact => h.alive ⟨hact, (run_stepped P inputs).sound.flushed ci hact⟩,
    fun input => (step_answering (run_answering P inputs) input).2⟩

/-- A client that subscribes, publishes at QoS 1 and 2, pings and leaves. -/
example :
    let σ := run (bed (fun _ _ _ => true)) (Input.connect 0 [99] {} ++ [.feed 0 (Wire.makeSubscribe 1 [([97], 0)]),
      .feed 0 (Wire.makePublish [97] [1] .atLeastOnce false false 2),
      .feed 0 (Wire.makePublish [97] [1] .exactlyOnce false false 3), .feed 0 (Wire.makeEmpty .pingreq)])
    answers 0 (current 0 σ.trace) =
      [(.suback, some 1), (.puback, some 2), (.pubrec, some 3), (.pingresp, none)] := by
  decide +kernel

end Minimosq
