import Minimosq.Bed
import Minimosq.Run
/-!
# Episodes of a connection

Every successful `conn_open` begins an episode of its index.  What is sent in it is a conversation: nothing, or one
CONNACK that refuses, or the CONNACK that accepts and then no other.  An episode ends once: the broker gives the
connection up and calls `Transport::close`, or the transport calls `conn_closed`; and the Observer sees it begin and
end.  `Stage` is how the current episode stands to the state of its connection, and `Stage.step` what a step of the
connection makes of it.
-/
namespace Minimosq

open History (Star pieces)

variable {Ctx : Type} {P : Params Ctx} {ci : Nat}

/-- An episode begins. -/
def Act.opens : Act Ctx → Bool
  | .event e _ => e.kind == .connectionOpened
  | _ => false

/-- The episodes of connection `ci`, newest first. -/
def episodes (ci : Nat) (t : Trace Ctx) : List (Trace Ctx) := pieces Act.opens (lineActs ci t)

/-! ## Shapes -/

/-- A packet that is no CONNACK. -/
def Later (P : Params Ctx) (ci : Nat) (a : Act Ctx) : Prop :=
  ∃ pkt ok tag type, a = .send ci pkt ok tag ∧ type ≠ .connack ∧ IsPacket P.T.outSize type pkt

/-- The CONNECT was accepted, and what followed its CONNACK is no other. -/
def Welcomed (P : Params Ctx) (ci : Nat) (talk : Trace Ctx) : Prop :=
  ∃ k s present ok later,
    talk = later ++ [.send ci (buildConnack P.T.outSize present .accepted) ok none, .bind k ci s present] ∧
    ∀ a ∈ later, Later P ci a

/-- The CONNECT was refused, and that was all. -/
def TurnedAway (P : Params Ctx) (ci : Nat) (talk : Trace Ctx) : Prop :=
  ∃ code ok, code ≠ .accepted ∧ talk = [.send ci (buildConnack P.T.outSize false code) ok none]

/-- What is said in an episode. -/
def Talk (P : Params Ctx) (ci : Nat) (talk : Trace Ctx) : Prop :=
  talk = [] ∨ TurnedAway P ci talk ∨ Welcomed P ci talk

/-- **An episode that goes on.** -/
inductive Ongoing (P : Params Ctx) (ci : Nat) : Trace Ctx → Prop
  | mk (e : Event) (talk : Trace Ctx) (hopen : e.kind = .connectionOpened) (htalk : Talk P ci talk) :
      Ongoing P ci (talk ++ [.event e none])

/-- **An episode that is over**, newest act first.  Nothing is sent after the connection is marked dead, and it is
closed by the broker or by the transport, not by both. -/
inductive Finished (P : Params Ctx) (ci : Nat) : Trace Ctx → Prop
  | byBroker (e e' : Event) (talk marks : Trace Ctx) (hopen : e.kind = .connectionOpened)
      (hclosed : e'.kind = .connectionClosed) (htalk : Talk P ci talk) (hmarks : ∀ a ∈ marks, a = .dead ci)
      (hdead : marks ≠ []) : Finished P ci ([.close ci, .event e' none] ++ (marks ++ (talk ++ [.event e none])))
  | byTransport (e e' : Event) (talk marks : Trace Ctx) (hopen : e.kind = .connectionOpened)
      (hclosed : e'.kind = .connectionClosed) (htalk : Talk P ci talk) (hmarks : ∀ a ∈ marks, a = .dead ci) :
      Finished P ci ([.event e' none] ++ (marks ++ .peerClosed ci :: (talk ++ [.event e none])))

/-! ## How an episode stands -/

/-- **The episode of an active connection, against its state.** -/
inductive Stage (P : Params Ctx) (ci : Nat) (c : Conn) : Trace Ctx → Prop
  | up (e : Event) (talk : Trace Ctx) (hopen : e.kind = .connectionOpened) (hup : c.active = true ∧ c.dead = false)
      (hnotify : c.notifyTransport = true) (hfree : c.session = noSession → talk = [])
      (hbound : c.session ≠ noSession → Welcomed P ci talk) : Stage P ci c (talk ++ [.event e none])
  | doomed (e : Event) (talk marks : Trace Ctx) (hopen : e.kind = .connectionOpened)
      (hdown : c.active = true ∧ c.dead = true) (hnotify : c.notifyTransport = true) (htalk : Talk P ci talk)
      (hmarks : ∀ a ∈ marks, a = .dead ci) (hdead : marks ≠ []) : Stage P ci c (marks ++ (talk ++ [.event e none]))
  | left (e : Event) (talk marks : Trace Ctx) (hopen : e.kind = .connectionOpened)
      (hdown : c.active = true ∧ c.dead = true) (hnotify : c.notifyTransport = false) (htalk : Talk P ci talk)
      (hmarks : ∀ a ∈ marks, a = .dead ci) : Stage P ci c (marks ++ .peerClosed ci :: (talk ++ [.event e none]))

section
variable {c c' : Conn} {ep acts h hist : Trace Ctx}

theorem Stage.active (h : Stage P ci c ep) : c.active = true := by
  cases h with
  | up _ _ _ hup => exact hup.1
  | doomed _ _ _ _ hdown | left _ _ _ _ hdown => exact hdown.1

/-- While the connection is up, what was said depends on whether it has a session. -/
theorem Stage.up_inv (h : Stage P ci c ep) (hdead : c.dead = false) :
    ∃ e talk, e.kind = .connectionOpened ∧ ep = talk ++ [.event e none] ∧ c.notifyTransport = true ∧
      (c.session = noSession → talk = []) ∧ (c.session ≠ noSession → Welcomed P ci talk) := by
  cases h with
  | up e talk hopen _ hnotify hfree hbound => exact ⟨e, talk, hopen, rfl, hnotify, hfree, hbound⟩
  | doomed _ _ _ _ hdown | left _ _ _ _ hdown =>
    rw [hdown.2] at hdead
    cases hdead

theorem talk_of_session {talk : Trace Ctx} (hfree : c.session = noSession → talk = [])
    (hbound : c.session ≠ noSession → Welcomed P ci talk) : Talk P ci talk := by
  by_cases hno : c.session = noSession
  · exact .inl (hfree hno)
  · exact .inr (.inr (hbound hno))

theorem Stage.same (h : Stage P ci c ep) (hsame : c.SameLine c') : Stage P ci c' ep := by
  cases h with
  | up e talk hopen hup hnotify hfree hbound =>
    exact .up e talk hopen ⟨hsame.active.trans hup.1, hsame.dead.trans hup.2⟩ (hsame.notify.trans hnotify)
      (fun hno => hfree (hsame.session.symm.trans hno)) (fun hne => hbound (fun hno => hne (hsame.session.trans hno)))
  | doomed e talk marks hopen hdown hnotify htalk hmarks hdead =>
    exact .doomed e talk marks hopen ⟨hsame.active.trans hdown.1, hsame.dead.trans hdown.2⟩ (hsame.notify.trans hnotify)
      htalk hmarks hdead
  | left e talk marks hopen hdown hnotify htalk hmarks =>
    exact .left e talk marks hopen ⟨hsame.active.trans hdown.1, hsame.dead.trans hdown.2⟩ (hsame.notify.trans hnotify)
      htalk hmarks

theorem Welcomed.send {talk : Trace Ctx} (h : Welcomed P ci talk) (pkt : Bytes) (ok : Bool) (tag : Option (Tag Ctx))
    {type : PacketType} (htype : type ≠ .connack) (hpkt : IsPacket P.T.outSize type pkt) :
    Welcomed P ci (.send ci pkt ok tag :: talk) := by
  obtain ⟨k, s, present, ok', later, rfl, hlater⟩ := h
  exact ⟨k, s, present, ok', .send ci pkt ok tag :: later, rfl,
    List.forall_mem_cons.2 ⟨⟨pkt, ok, tag, type, rfl, htype, hpkt⟩, hlater⟩⟩

theorem Stage.die (h : Stage P ci c ep) : Stage P ci { c with dead := true } (.dead ci :: ep) := by
  cases h with
  | up e talk hopen hup hnotify hfree hbound =>
    exact .doomed e talk [.dead ci] hopen ⟨hup.1, rfl⟩ hnotify (talk_of_session hfree hbound)
      (List.forall_mem_singleton.2 rfl) (by simp)
  | doomed e talk marks hopen hdown hnotify htalk hmarks hdead =>
    exact .doomed e talk (.dead ci :: marks) hopen ⟨hdown.1, rfl⟩ hnotify htalk (List.forall_mem_cons.2 ⟨rfl, hmarks⟩)
      (by simp)
  | left e talk marks hopen hdown hnotify htalk hmarks =>
    exact .left e talk (.dead ci :: marks) hopen ⟨hdown.1, rfl⟩ hnotify htalk (List.forall_mem_cons.2 ⟨rfl, hmarks⟩)

theorem Stage.carry (h : Stage P ci c ep) (d : Carry P ci c acts c') : Stage P ci c' (acts ++ ep) := by
  cases d with
  | send pkt ok tag hup hbound htype hpkt =>
    obtain ⟨e, talk, hopen, rfl, hnotify, -, hwel⟩ := h.up_inv hup.2
    exact .up e (.send ci pkt ok tag :: talk) hopen hup hnotify (fun hno => absurd hno hbound)
      (fun _ => (hwel hbound).send pkt ok tag htype hpkt)
  | die => exact h.die
  | refuse code ok hup hfree hcode =>
    obtain ⟨e, talk, hopen, rfl, hnotify, hnil, -⟩ := h.up_inv hup.2
    rw [hnil hfree]
    exact .doomed e [.send ci (buildConnack P.T.outSize false code) ok none] [.dead ci] hopen ⟨hup.1, rfl⟩ hnotify
      (.inr (.inl ⟨code, ok, hcode, rfl⟩)) (List.forall_mem_singleton.2 rfl) (by simp)

/-- **A step of a connection that is active goes on with its episode, or ends it.** -/
theorem Stage.step (h : Stage P ci c ep) (one : LineStep P ci hist c acts c') : (∀ a ∈ acts, a.opens = false) ∧
      (Stage P ci c' (acts ++ ep) ∨ c'.active = false ∧ Finished P ci (acts ++ ep)) := by
  cases one with
  | carry d =>
    refine ⟨?_, .inl (h.carry d)⟩
    cases d <;> simp [Act.opens]
  | tune hsame => exact ⟨by simp, .inl (h.same hsame)⟩
  | opened e hkind hoff hnew =>
    rw [h.active] at hoff
    cases hoff
  | accept k s present ok hup hfree hbound hkeep =>
    obtain ⟨e, talk, hopen, rfl, hnotify, hnil, -⟩ := h.up_inv hup.2
    rw [hnil hfree]
    refine ⟨by simp [Act.opens], .inl ?_⟩
    exact .up e [.send ci (buildConnack P.T.outSize present .accepted) ok none, .bind k ci s present] hopen
      ⟨hkeep.1.trans hup.1, hkeep.2.1.trans hup.2⟩ (hkeep.2.2.trans hnotify) (fun hno => absurd hno hbound)
      (fun _ => ⟨k, s, present, ok, [], rfl, by simp⟩)
  | peer hup =>
    obtain ⟨e, talk, hopen, rfl, hnotify, hfree, hbound⟩ := h.up_inv hup.2
    refine ⟨by simp [Act.opens], .inl ?_⟩
    exact .left e talk [] hopen ⟨hup.1, rfl⟩ rfl (talk_of_session hfree hbound) (by simp)
  | ended e' hkind hact hdead =>
    refine ⟨?_, .inr ⟨rfl, ?_⟩⟩
    · split <;> simp [Act.opens, hkind]
    · cases h with
      | up _ _ _ hup =>
        rw [hup.2] at hdead
        cases hdead
      | doomed e talk marks hopen _ hnotify htalk hmarks hne =>
        rw [if_pos hnotify]
        exact .byBroker e e' talk marks hopen hkind htalk hmarks hne
      | left e talk marks hopen _ hnotify htalk hmarks =>
        rw [if_neg (by simp [hnotify])]
        exact .byTransport e e' talk marks hopen hkind htalk hmarks

/-! ## Every run -/

/-- The episodes of a connection: all are over, or the newest is on. -/
structure Episodes (P : Params Ctx) (ci : Nat) (h : Trace Ctx) (c : Conn) : Prop where
  idle : c.active = false → ∀ ep ∈ pieces Act.opens h, Finished P ci ep
  busy : c.active = true → ∃ ep es, pieces Act.opens h = ep :: es ∧ Stage P ci c ep ∧ ∀ e ∈ es, Finished P ci e

theorem LineStep.inactive (one : LineStep P ci hist c acts c') (hoff : c.active = false) :
    (acts = [] ∧ c'.active = false) ∨ ∃ e, acts = [.event e none] ∧ e.kind = .connectionOpened ∧
      Stage P ci c' [.event e none] := by
  cases one with
  | carry d =>
    cases d with
    | send _ _ _ hup => exact absurd hup.1 (by simp [hoff])
    | die hact => exact absurd hact (by simp [hoff])
    | refuse _ _ hup => exact absurd hup.1 (by simp [hoff])
  | tune hsame => exact .inl ⟨rfl, hsame.active.trans hoff⟩
  | opened e hkind _ hnew =>
    refine .inr ⟨e, rfl, hkind, .up e [] hkind ⟨hnew.1, hnew.2.1⟩ hnew.2.2.2 (fun _ => rfl) (fun hne => ?_)⟩
    exact absurd hnew.2.2.1 hne
  | accept _ _ _ _ hup => exact absurd hup.1 (by simp [hoff])
  | peer hup => exact absurd hup.1 (by simp [hoff])
  | ended _ _ hact => exact absurd hact (by simp [hoff])

/-- Nothing happens on a connection that is not there, but that it is opened. -/
theorem lines_inactive {new h' : Trace Ctx} (run : Star (LineStep P ci) h c h' c') (hnew : h' = new ++ h)
    (hopens : ∀ a ∈ new, a.opens = false) (hoff : c.active = false) : new = [] := by
  refine (run.since_inv (fun new c₁ => new = [] ∧ c₁.active = false) ?_ hnew hopens ⟨rfl, hoff⟩).1
  rintro _ c₁ _ acts c₂ ⟨rfl, hoff₁⟩ one hacts
  rcases one.inactive hoff₁ with ⟨rfl, hoff₂⟩ | ⟨e, rfl, hkind, -⟩
  · exact ⟨rfl, hoff₂⟩
  · simp [Act.opens, hkind] at hacts

/-- **What is done on a connection without opening it is done on one that was there.** -/
theorem line_active {σ σ' : Broker Ctx} {new : Trace Ctx} {a : Act Ctx} (hC : Course P σ σ')
    (hnew : σ'.trace = new ++ σ.trace) (hopens : ∀ a ∈ new, a.opens = false) (ha : a ∈ new) (hline : a.line = some ci) :
    (σ.conns ci).active = true := by
  by_contra hoff
  have hlines : lineActs ci σ'.trace = lineActs ci new ++ lineActs ci σ.trace := by
    rw [hnew]
    exact History.about_append ..
  have hnone := lines_inactive (hC.lines ci) hlines (fun b hb => hopens b (History.mem_about.1 hb).1)
    (by simpa using hoff)
  have hmem : a ∈ lineActs ci new := History.mem_about.2 ⟨ha, hline⟩
  rw [hnone] at hmem
  cases hmem

theorem LineRun.episodes (run : LineRun P ci h c) : Episodes P ci h c := by
  refine run.inv (Episodes P ci) ?_ ⟨fun _ ep hep => by (cases hep), fun hact => by (cases hact)⟩
  intro h c acts c' hI one
  cases hact : c.active with
  | true =>
    obtain ⟨ep, es, hpieces, hstage, hes⟩ := hI.busy hact
    obtain ⟨hacts, hnext⟩ := hstage.step one
    have hpieces' := History.pieces_append hpieces hacts
    rcases hnext with hnext | ⟨hoff, hfin⟩
    · refine ⟨fun hno => ?_, fun _ => ⟨_, es, hpieces', hnext, hes⟩⟩
      rw [hnext.active] at hno
      cases hno
    · refine ⟨fun _ => ?_, fun hon => ?_⟩
      · rw [hpieces']
        exact List.forall_mem_cons.2 ⟨hfin, hes⟩
      · rw [hoff] at hon
        cases hon
  | false =>
    rcases one.inactive hact with ⟨rfl, hoff⟩ | ⟨e, rfl, hkind, hstage⟩
    · refine ⟨fun _ => hI.idle hact, fun hon => ?_⟩
      rw [hoff] at hon
      cases hon
    · have hpieces : pieces Act.opens ([.event e none] ++ h) = [.event e none] :: pieces Act.opens h :=
        History.pieces_cons_mark (by simp [Act.opens, hkind]) h
      refine ⟨fun hno => ?_, fun _ => ⟨_, _, hpieces, hstage, hI.idle hact⟩⟩
      rw [hstage.active] at hno
      cases hno

end

theorem Stage.ongoing {c : Conn} {ep : Trace Ctx} (h : Stage P ci c ep) (hup : c.dead = false) : Ongoing P ci ep := by
  obtain ⟨e, talk, hopen, rfl, -, hfree, hbound⟩ := h.up_inv hup
  exact .mk e talk hopen (talk_of_session hfree hbound)

/-! ## The conversation -/

/-- The packet handed to the transport. -/
def Act.sent : Act Ctx → Option Bytes
  | .send _ pkt _ _ => some pkt
  | _ => none

/-- The packets of an episode, in the order in which they were handed to the transport. -/
def packets (ep : Trace Ctx) : List Bytes := (ep.filterMap Act.sent).reverse

/-- **Nothing, one CONNACK that refuses, or the CONNACK that accepts and then no other.** -/
def Conversation (cap : Nat) (pkts : List Bytes) : Prop :=
  pkts = [] ∨ (∃ code, code ≠ .accepted ∧ pkts = [buildConnack cap false code]) ∨
  ∃ present rest, pkts = buildConnack cap present .accepted :: rest ∧ ∀ pkt ∈ rest, headType pkt ≠ some .connack

section
variable {talk ep : Trace Ctx}

theorem packets_append (new old : Trace Ctx) : packets (new ++ old) = packets old ++ packets new := by
  simp [packets, List.filterMap_append]

theorem packets_silent {new old : Trace Ctx} (h : ∀ a ∈ new, a.sent = none) : packets (new ++ old) = packets old := by
  rw [packets, List.filterMap_append, List.filterMap_eq_nil_iff.2 h]
  rfl

theorem Talk.conversation (h : Talk P ci talk) : Conversation P.T.outSize (packets talk) := by
  rcases h with rfl | ⟨code, ok, hcode, rfl⟩ | ⟨k, s, present, ok, later, rfl, hlater⟩
  · exact .inl rfl
  · exact .inr (.inl ⟨code, hcode, rfl⟩)
  · refine .inr (.inr ⟨present, packets later, ?_, fun pkt hpkt => ?_⟩)
    · rw [packets_append]
      rfl
    · obtain ⟨a, ha, hsent⟩ := List.mem_filterMap.1 (List.mem_reverse.1 hpkt)
      obtain ⟨pkt', ok', tag, type, rfl, htype, his⟩ := hlater a ha
      cases hsent
      rw [his.headType]
      simpa using htype

theorem Ongoing.conversation (h : Ongoing P ci ep) : Conversation P.T.outSize (packets ep) := by
  cases h with
  | mk e talk hopen htalk =>
    rw [packets_append]
    exact htalk.conversation

theorem Finished.conversation (h : Finished P ci ep) : Conversation P.T.outSize (packets ep) := by
  have hmute {marks : Trace Ctx} (hmarks : ∀ a ∈ marks, a = .dead ci) : ∀ a ∈ marks, a.sent = none := fun a ha => by
    rw [hmarks a ha]
    rfl
  cases h with
  | byBroker e e' talk marks hopen hclosed htalk hmarks hdead =>
    have hclose : ∀ a ∈ ([.close ci, .event e' none] : Trace Ctx), a.sent = none := by simp [Act.sent]
    rw [packets_silent hclose, packets_silent (hmute hmarks)]
    exact (Ongoing.mk e talk hopen htalk).conversation
  | byTransport e e' talk marks hopen hclosed htalk hmarks =>
    have hclose : ∀ a ∈ ([.event e' none] : Trace Ctx), a.sent = none := by simp [Act.sent]
    have hpeer : ∀ a ∈ ([.peerClosed ci] : Trace Ctx), a.sent = none := by simp [Act.sent]
    rw [packets_silent hclose, packets_silent (hmute hmarks), ← List.singleton_append, packets_silent hpeer]
    exact (Ongoing.mk e talk hopen htalk).conversation

end

/-- **What is sent on a connection is a conversation, episode by episode.** -/
theorem run_conversation (P : Params Ctx) (inputs : List Input) (ci : Nat) :
    ∀ ep ∈ episodes ci (run P inputs).trace, Conversation P.T.outSize (packets ep) := by
  have heps := (run_line P inputs ci).episodes
  intro ep hep
  cases hact : ((run P inputs).conns ci).active with
  | false => exact (heps.idle hact ep hep).conversation
  | true =>
    obtain ⟨ep', es, hpieces, hstage, hes⟩ := heps.busy hact
    rw [episodes, hpieces] at hep
    rcases List.mem_cons.1 hep with rfl | hep
    · exact (hstage.ongoing ((run_stepped P inputs).sound.flushed ci hact)).conversation
    · exact (hes ep hep).conversation

/-- A client that is accepted, subscribes and leaves, and one that is refused. -/
theorem run_conversation_twice : let P := bed (fun _ _ _ => true)
    let inputs := Input.connect 0 [99] {} ++ [.feed 0 (Wire.makeSubscribe 1 [([97], 0)]),
      .publish [97] [1] .atMostOnce false, .feed 0 (Wire.makeEmpty .disconnect)] ++
      Input.connect 0 [99] { protocolLevel := 3 }
    ∃ refused accepted, episodes 0 (run P inputs).trace = [refused, accepted] ∧
      ((packets refused).map headType = [some .connack] ∧ Conversation P.T.outSize (packets refused)) ∧
      (packets accepted).map headType = [some .connack, some .suback, some .publish] ∧
        Conversation P.T.outSize (packets accepted) := by
  intro P inputs
  have hheads : (episodes 0 (run P inputs).trace).map (fun ep => (packets ep).map headType) =
      [[some .connack], [some .connack, some .suback, some .publish]] := by decide +kernel
  obtain ⟨refused, eps, heps, hrefused, hrest⟩ := List.map_eq_cons_iff.1 hheads
  obtain ⟨accepted, rfl, haccepted⟩ := List.map_eq_singleton_iff.1 hrest
  have hconv := run_conversation P inputs 0
  rw [heps] at hconv
  exact ⟨refused, accepted, heps, ⟨hrefused, hconv refused (by simp)⟩, haccepted, hconv accepted (by simp)⟩

end Minimosq
