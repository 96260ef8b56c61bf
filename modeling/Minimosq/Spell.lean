import Minimosq.Episode
import Minimosq.Verdicts
/-!
# Spell — what is said on a connection since it was opened

The packets offered to the transport since `conn_open`, and those of them it accepted.  They are only offered while
neither side has closed the connection, they are a conversation, and so are those accepted if the first of them is.
Whole packets that follow one another are read again by a `FrameParser`, from however much of them has come.
-/
namespace Minimosq

open History (Each Star since)

variable {Ctx : Type}

/-! ## Offered and accepted -/

section
variable {P : Params Ctx} {ci : Nat} {h acts : Trace Ctx} {c c' : Conn}

/-- What the connection did since it was last opened, newest first. -/
def spell (ci : Nat) (t : Trace Ctx) : Trace Ctx := since Act.opens (lineActs ci t)

theorem spell_cons_own {a : Act Ctx} (hopens : a.opens = false) (hline : a.line = some ci) (t : Trace Ctx) :
    spell ci (a :: t) = a :: spell ci t := by
  rw [spell, lineActs_cons_own hline, History.since_cons hopens, spell]

theorem spell_cons_other {a : Act Ctx} (hline : a.line ≠ some ci) (t : Trace Ctx) : spell ci (a :: t) = spell ci t := by
  rw [spell, lineActs_cons_other hline, spell]

theorem spell_append {new : Trace Ctx} (hnew : ∀ a ∈ new, a.opens = false) (t : Trace Ctx) :
    spell ci (new ++ t) = lineActs ci new ++ spell ci t := by
  rw [spell, lineActs, History.about_append,
    History.since_append (fun a ha => hnew a (History.mem_about.1 ha).1)]
  rfl

/-- The act is a `send` that was accepted. -/
def Act.accepted : Act Ctx → Bool
  | .send _ _ ok _ => ok
  | _ => false

/-- The packets offered to the transport since the connection was opened, in order. -/
def offered (ci : Nat) (t : Trace Ctx) : List Bytes := packets (spell ci t)

/-- Those it accepted. -/
def heard (ci : Nat) (t : Trace Ctx) : List Bytes := packets ((spell ci t).filter Act.accepted)

theorem heard_sublist (ci : Nat) (t : Trace Ctx) : (heard ci t).Sublist (offered ci t) :=
  (List.filter_sublist.filterMap _).reverse

theorem packets_cons (a : Act Ctx) (t : Trace Ctx) : packets (a :: t) = packets t ++ a.sent.toList := by
  rw [packets, List.filterMap_cons]
  cases a.sent with
  | none => simp [packets]
  | some pkt => simp [packets]

theorem offered_silent (ci : Nat) {a : Act Ctx} (hopens : a.opens = false) (hsent : a.sent = none) (t : Trace Ctx) :
    offered ci (a :: t) = offered ci t ∧ heard ci (a :: t) = heard ci t := by
  have hoff : a.accepted = false := by cases a <;> first | rfl | cases hsent
  by_cases hline : a.line = some ci
  · rw [offered, heard, spell_cons_own hopens hline, packets_cons, hsent, List.filter_cons_of_neg (by simp [hoff])]
    exact ⟨List.append_nil _, rfl⟩
  · rw [offered, heard, spell_cons_other hline]
    exact ⟨rfl, rfl⟩

theorem offered_send (ci : Nat) (pkt : Bytes) (ok : Bool) (tag : Option (Tag Ctx)) (t : Trace Ctx) :
    offered ci (.send ci pkt ok tag :: t) = offered ci t ++ [pkt] ∧
      heard ci (.send ci pkt ok tag :: t) = heard ci t ++ if ok then [pkt] else [] := by
  rw [offered, heard, spell_cons_own rfl rfl, packets_cons]
  refine ⟨rfl, ?_⟩
  cases ok with
  | true =>
    rw [List.filter_cons_of_pos rfl, packets_cons]
    rfl
  | false =>
    rw [List.filter_cons_of_neg (by simp [Act.accepted])]
    exact (List.append_nil _).symm

theorem offered_send_other {j : Nat} (hj : j ≠ ci) (pkt : Bytes) (ok : Bool) (tag : Option (Tag Ctx)) (t : Trace Ctx) :
    offered ci (.send j pkt ok tag :: t) = offered ci t ∧ heard ci (.send j pkt ok tag :: t) = heard ci t := by
  have hline : (Act.send j pkt ok tag : Act Ctx).line ≠ some ci := fun h => hj (Option.some.inj h)
  rw [offered, heard, spell_cons_other hline]
  exact ⟨rfl, rfl⟩

/-- A packet is only sent on a connection that was not closed since it was opened. -/
def Speaks (ci : Nat) : Act Ctx → Trace Ctx → Prop
  | .send _ _ _ _, h => .close ci ∉ since Act.opens h ∧ .peerClosed ci ∉ since Act.opens h
  | _, _ => True

/-- How a connection that is there stands to what was done on it. -/
def StillOn (ci : Nat) (h : Trace Ctx) (c : Conn) : Prop :=
  c.active = true → .close ci ∉ since Act.opens h ∧ (c.dead = false → .peerClosed ci ∉ since Act.opens h)

theorem StillOn.cons (hon : StillOn ci h c) {a : Act Ctx} (hopens : a.opens = false) (hclose : a ≠ .close ci)
    (hpeer : a ≠ .peerClosed ci) (hactive : c'.active = c.active) (hdead : c'.dead = false → c.dead = false) :
    StillOn ci (a :: h) c' := by
  intro hact
  obtain ⟨hno, hlive⟩ := hon (hactive ▸ hact)
  rw [History.since_cons hopens]
  refine ⟨?_, fun hd => ?_⟩
  · simpa [Ne.symm hclose] using hno
  · simpa [Ne.symm hpeer] using hlive (hdead hd)

theorem LineStep.speaks (one : LineStep P ci h c acts c') (hI : Each (Speaks ci) h ∧ StillOn ci h c) :
    Each (Speaks ci) (acts ++ h) ∧ StillOn ci (acts ++ h) c' := by
  have hup : c.active = true ∧ c.dead = false → .close ci ∉ since Act.opens h ∧ .peerClosed ci ∉ since Act.opens h :=
    fun hup => ⟨(hI.2 hup.1).1, (hI.2 hup.1).2 hup.2⟩
  cases one with
  | carry d =>
    cases d with
    | send pkt ok tag hlive => exact ⟨⟨hup hlive, hI.1⟩, hI.2.cons rfl (by simp) (by simp) rfl id⟩
    | die => exact ⟨⟨trivial, hI.1⟩, hI.2.cons rfl (by simp) (by simp) rfl (fun hd => by cases hd)⟩
    | refuse code ok hlive =>
      have hsent : StillOn ci (.send ci (buildConnack P.T.outSize false code) ok none :: h) c :=
        hI.2.cons rfl (by simp) (by simp) rfl id
      exact ⟨⟨trivial, hup hlive, hI.1⟩, hsent.cons rfl (by simp) (by simp) rfl (fun hd => by cases hd)⟩
  | tune hsame =>
    refine ⟨hI.1, fun hact => ?_⟩
    rw [hsame.active] at hact
    rw [hsame.dead]
    exact hI.2 hact
  | opened e hkind hoff hnew =>
    have hmark : (Act.event e none : Act Ctx).opens = true := by simp [Act.opens, hkind]
    refine ⟨⟨trivial, hI.1⟩, fun _ => ?_⟩
    rw [List.singleton_append, History.since_cons_mark hmark]
    exact ⟨List.not_mem_nil, fun _ => List.not_mem_nil⟩
  | accept k s present ok hlive hfree hbound hkeep =>
    have hbind : StillOn ci (.bind k ci s present :: h) c := hI.2.cons rfl (by simp) (by simp) rfl id
    have hspeaks := hbind hlive.1
    exact ⟨⟨⟨hspeaks.1, hspeaks.2 hlive.2⟩, trivial, hI.1⟩,
      hbind.cons rfl (by simp) (by simp) hkeep.1 (fun hd => hkeep.2.1.symm.trans hd)⟩
  | peer hlive =>
    refine ⟨⟨trivial, hI.1⟩, fun _ => ⟨?_, fun hd => by cases hd⟩⟩
    rw [List.singleton_append, History.since_cons rfl]
    simpa using (hup hlive).1
  | ended e hkind =>
    refine ⟨?_, fun hact => by cases hact⟩
    split
    · exact ⟨trivial, trivial, hI.1⟩
    · exact ⟨trivial, hI.1⟩

theorem run_speaks (P : Params Ctx) (inputs : List Input) (ci : Nat) :
    Each (Speaks ci) (lineActs ci (run P inputs).trace) ∧
      StillOn ci (lineActs ci (run P inputs).trace) ((run P inputs).conns ci) :=
  Star.inv (fun h c => Each (Speaks ci) h ∧ StillOn ci h c) (fun _ _ _ _ hI one => one.speaks hI)
    (run_line P inputs ci) ⟨trivial, fun hact => by cases hact⟩

/-- Neither side has closed the connection, as far back as it was not opened. -/
theorem unclosed_before {inputs : List Input} {newer older t : Trace Ctx} {pkt : Bytes} {ok : Bool}
    {tag : Option (Tag Ctx)} (htrace : (run P inputs).trace = newer ++ .send ci pkt ok tag :: (older ++ t))
    (holder : ∀ a ∈ older, a.opens = false) : .close ci ∉ older ∧ .peerClosed ci ∉ older := by
  have hline := (run_speaks P inputs ci).1
  rw [htrace] at hline
  obtain ⟨hclose, hpeer⟩ : Act.close ci ∉ spell ci (older ++ t) ∧ Act.peerClosed ci ∉ spell ci (older ++ t) :=
    Each.at_about hline rfl
  rw [spell_append holder, List.mem_append, not_or] at hclose hpeer
  exact ⟨fun hmem => hclose.1 (History.mem_about.2 ⟨hmem, rfl⟩),
    fun hmem => hpeer.1 (History.mem_about.2 ⟨hmem, rfl⟩)⟩

theorem Act.opens_of_indoor (a : Act Ctx) (ha : a.indoor = true) : a.opens = false := by
  cases a with
  | event e k => simpa [Act.indoor, Act.opens] using ha
  | _ => rfl

theorem connClosed_trace {σ : Broker Ctx} (hlt : ci < P.T.maxConnections) (hact : (σ.conns ci).active = true) :
    ∃ acts, (σ.connClosed P ci).trace = acts ++ .peerClosed ci :: σ.trace ∧ ∀ a ∈ acts, a.indoor = true := by
  unfold Broker.connClosed
  rw [if_neg (by simp [hact, Nat.not_le.2 hlt])]
  exact (repeats_flushDead (P := P) (v := P.send) (n := 0) _).acts

theorem connClosed_of_inactive {σ : Broker Ctx} (h : ¬(ci < P.T.maxConnections ∧ (σ.conns ci).active = true)) :
    σ.connClosed P ci = σ := if_pos (unknown_of_inactive h)

/-- Only `conn_open` and `conn_closed` are not done indoors. -/
theorem indoors_step (P : Params Ctx) (σ : Broker Ctx) {i : Input} (hopen : ∀ ci now, i ≠ .connOpen ci now)
    (hclosed : ∀ ci, i ≠ .connClosed ci) : Indoors σ.trace (σ.step P i).trace := by
  cases i with
  | connOpen ci now => exact absurd rfl (hopen ci now)
  | connClosed ci => exact absurd rfl (hclosed ci)
  | connData ci data now => exact (follows_connData (v := P.send) (n := 0) ci data now σ).acts
  | tick now => exact (repeats_tick (v := P.send) (n := 0) now σ).acts
  | publish topic payload qos retain => exact (follows_publish (v := P.send) (n := 0) topic payload qos retain σ).acts

/-- Only `conn_open` reports a connection opened. -/
theorem unopened_step (P : Params Ctx) (σ : Broker Ctx) {i : Input} (hi : ∀ ci now, i ≠ .connOpen ci now) :
    Adds (fun a => a.opens = false) σ.trace (σ.step P i).trace := by
  cases i with
  | connClosed ci =>
    change Adds _ σ.trace (σ.connClosed P ci).trace
    by_cases hup : ci < P.T.maxConnections ∧ (σ.conns ci).active = true
    · obtain ⟨acts, he, hacts⟩ := connClosed_trace (P := P) hup.1 hup.2
      refine ⟨acts ++ [.peerClosed ci], by rw [he, List.append_assoc]; rfl,
        List.forall_mem_append.2 ⟨fun a ha => ?_, ?_⟩⟩
      · exact a.opens_of_indoor (hacts a ha)
      · exact List.forall_mem_singleton.2 rfl
    · rw [connClosed_of_inactive hup]
      exact .refl _ _
  | _ => exact (indoors_step P σ hi (by simp)).mono Act.opens_of_indoor

end

/-! ## The transport's own calls -/

/-- **Whether a call of the transport's own opens connection `ci`, or closes it**: `conn_open` of an idle index,
`conn_closed` of one that is open. -/
def Input.turns (P : Params Ctx) (ci : Nat) (σ : Broker Ctx) : Input → Option Bool
  | .connOpen j _ => if j = ci ∧ ci < P.T.maxConnections ∧ (σ.conns ci).active = false then some true else none
  | .connClosed j => if j = ci ∧ (σ.conns ci).active = true then some false else none
  | _ => none

/-- What of it is noted. -/
def Act.turns (ci : Nat) : Act Ctx → Option Bool
  | .event e _ => if e.kind = .connectionOpened ∧ e.ci = some ci then some true else none
  | .peerClosed j => if j = ci then some false else none
  | _ => none

theorem turns_of_indoors {t new : Trace Ctx} (hnew : ∀ a ∈ new, a.indoor = true) (ci : Nat) :
    (new ++ t).filterMap (Act.turns ci) = t.filterMap (Act.turns ci) := by
  refine filterMap_skip (fun a ha => ?_) t
  have hin := hnew a ha
  cases a with
  | event e k =>
    refine if_neg (fun h => ?_)
    simp [Act.indoor, h.1] at hin
  | peerClosed => cases hin
  | _ => rfl

theorem step_turns {P : Params Ctx} {σ : Broker Ctx} (hs : Sound P σ) (input : Input) (ci : Nat) :
    (σ.step P input).trace.filterMap (Act.turns ci) =
      (input.turns P ci σ).toList ++ σ.trace.filterMap (Act.turns ci) := by
  have hindoors := indoors_step P σ (i := input)
  cases input with
  | connOpen j now =>
    change (σ.connOpen P j now).2.trace.filterMap (Act.turns ci) = _
    unfold Broker.connOpen
    split
    · rename_i hrefused
      rw [Input.turns, if_neg]
      · rfl
      · rintro ⟨rfl, hlt, hoff⟩
        simp [hoff, Nat.not_le.2 hlt] at hrefused
    · rename_i hopens
      have hopens : j < P.T.maxConnections ∧ (σ.conns j).active = false := by simpa using hopens
      change (Act.event { kind := .connectionOpened, ci := some j, .. } none :: σ.trace).filterMap (Act.turns ci) = _
      by_cases hj : j = ci
      · subst hj
        simp [Input.turns, Act.turns, hopens]
      · simp [Input.turns, Act.turns, hj]
  | connClosed j =>
    change (σ.connClosed P j).trace.filterMap (Act.turns ci) = _
    by_cases hact : (σ.conns j).active = true
    · obtain ⟨acts, he, hacts⟩ := connClosed_trace (P := P) (hs.linked.active_lt j hact) hact
      rw [he, turns_of_indoors hacts]
      by_cases hj : j = ci
      · subst hj
        simp [Input.turns, Act.turns, hact]
      · simp [Input.turns, Act.turns, hj]
    · rw [connClosed_of_inactive (fun h => hact h.2), Input.turns, if_neg]
      · rfl
      · rintro ⟨rfl, h⟩
        exact hact h
  | _ =>
    obtain ⟨new, he, hnew⟩ := hindoors (by simp) (by simp)
    rw [he]
    exact turns_of_indoors hnew ci

/-- **Transport discipline.**  Every connection index lives in complete episodes: all its acts are in one; an episode is
over exactly when the connection is gone, and then it was closed once, by the broker or by the transport.  What begins
an episode, and what the transport closes, are the transport's own calls, one by one: a `conn_open` succeeds on an idle
index, and after a `conn_closed` the episode it was called in is over. -/
theorem run_transport_discipline (P : Params Ctx) (inputs : List Input) (ci : Nat) : let σ := run P inputs
    (episodes ci σ.trace).flatten = lineActs ci σ.trace ∧
    ((σ.conns ci).active = false → ∀ ep ∈ episodes ci σ.trace, Finished P ci ep) ∧
    ((σ.conns ci).active = true →
      ∃ ep es, episodes ci σ.trace = ep :: es ∧ Ongoing P ci ep ∧ ∀ e ∈ es, Finished P ci e) ∧
    (∀ now, (σ.connOpen P ci now).1 = .ok ↔ ci < P.T.maxConnections ∧ (σ.conns ci).active = false) ∧
    ∀ input, (σ.step P input).trace.filterMap (Act.turns ci) =
        (input.turns P ci σ).toList ++ σ.trace.filterMap (Act.turns ci) ∧
      ∀ b, input.turns P ci σ = some b → ((σ.step P input).conns ci).active = b := by
  intro σ
  have heps := (run_line P inputs ci).episodes
  have hs := (run_stepped P inputs).sound
  refine ⟨History.flatten_pieces _ _, heps.idle, fun hact => ?_, fun now => ?_, fun input =>
    ⟨step_turns hs input ci, fun b hb => ?_⟩⟩
  · obtain ⟨ep, es, hpieces, hstage, hes⟩ := heps.busy hact
    exact ⟨ep, es, hpieces, hstage.ongoing (hs.flushed ci hact), hes⟩
  · unfold Broker.connOpen
    split
    · rename_i hrefused
      refine ⟨fun h => by (cases h), fun h => ?_⟩
      simp [h.2, Nat.not_le.2 h.1] at hrefused
    · rename_i hopens
      exact ⟨fun _ => by simpa using hopens, fun _ => rfl⟩
  · cases input with
    | connOpen j now =>
      obtain ⟨⟨rfl, hlt, hoff⟩, he⟩ := Option.ite_none_right_eq_some.1 hb
      cases he
      change ((σ.connOpen P j now).2.conns j).active = true
      unfold Broker.connOpen
      rw [if_neg (by simp [hoff, Nat.not_le.2 hlt])]
      exact congrArg Conn.active (conns_setConn_self ..)
    | connClosed j =>
      -- a connection that is up after the call was not closed since it was opened
      obtain ⟨⟨rfl, hact⟩, he⟩ := Option.ite_none_right_eq_some.1 hb
      cases he
      refine Bool.eq_false_iff.2 (fun hup => ?_)
      have hon := (run_speaks P (inputs ++ [.connClosed j]) j).2
      have hflushed := (run_stepped P (inputs ++ [.connClosed j])).sound.flushed j
      rw [run_snoc] at hon hflushed
      obtain ⟨acts, he, hacts⟩ := connClosed_trace (P := P) (hs.linked.active_lt j hact) hact
      have hmem : Act.peerClosed j ∈ spell j (acts ++ .peerClosed j :: σ.trace) := by
        rw [spell_append (fun a ha => a.opens_of_indoor (hacts a ha)), spell_cons_own rfl rfl]
        simp
      rw [← he] at hmem
      exact (hon hup).2 (hflushed hup) hmem
    | _ => cases hb

/-! ## Conversations -/

/-- The packets offered on a connection since it was opened are a conversation. -/
theorem offered_conversation (P : Params Ctx) (inputs : List Input) (ci : Nat) :
    Conversation P.T.outSize (offered ci (run P inputs).trace) := by
  have heps := (run_line P inputs ci).episodes
  cases hpieces : History.pieces Act.opens (lineActs ci (run P inputs).trace) with
  | nil =>
    have hnone := History.flatten_pieces Act.opens (lineActs ci (run P inputs).trace)
    rw [hpieces] at hnone
    rw [offered, spell, ← hnone]
    exact .inl rfl
  | cons ep es =>
    have hconv : Conversation P.T.outSize (packets ep) := by
      cases hact : ((run P inputs).conns ci).active with
      | false => exact (heps.idle hact ep (by rw [hpieces]; exact List.mem_cons_self)).conversation
      | true =>
        obtain ⟨ep', es', he, hstage, -⟩ := heps.busy hact
        cases hpieces.symm.trans he
        exact (hstage.ongoing ((run_stepped P inputs).sound.flushed ci hact)).conversation
    obtain ⟨mark, hmark, rfl⟩ := History.pieces_head hpieces
    have hsilent : packets mark = [] := by
      have hmute : ∀ a ∈ mark, a.sent = none := fun a ha => by
        have hopens := hmark a ha
        cases a with
        | event => rfl
        | _ => cases hopens
      rw [← List.append_nil mark, packets_silent hmute]
      rfl
    rwa [packets_append, hsilent, List.nil_append] at hconv

/-- What is left of a conversation when packets are missing from it, but not its first. -/
theorem Conversation.sublist {cap : Nat} {pkts got : List Bytes} (h : Conversation cap pkts) (hsub : got.Sublist pkts)
    (hhead : pkts.head? = got.head?) : Conversation cap got := by
  rcases h with rfl | ⟨code, hcode, rfl⟩ | ⟨present, rest, rfl, hrest⟩
  · exact .inl (List.sublist_nil.1 hsub)
  · obtain ⟨more, rfl⟩ := List.head?_eq_some_iff.1 hhead.symm
    rw [List.sublist_nil.1 (List.cons_sublist_cons.1 hsub)]
    exact .inr (.inl ⟨code, hcode, rfl⟩)
  · obtain ⟨more, rfl⟩ := List.head?_eq_some_iff.1 hhead.symm
    have hmore := List.cons_sublist_cons.1 hsub
    exact .inr (.inr ⟨present, more, rfl, fun pkt hpkt => hrest pkt (hmore.subset hpkt)⟩)

/-- Whole packets, read one by one. -/
theorem read_packets {cap : Nat} : ∀ {pkts : List Bytes}, (∀ pkt ∈ pkts, ∃ type, IsPacket cap type pkt) →
    ∃ ps : List (UInt8 × Bytes), pkts.map readPacket = ps.map some ∧ pkts.flatten = framed ps ∧
      ∀ p ∈ ps, p.2.length ≤ min maxRemainingLength maxRemainingLength
  | [], _ => ⟨[], rfl, rfl, List.forall_mem_nil _⟩
  | pkt :: pkts, h => by
    obtain ⟨ps, hmap, hframed, hlen⟩ := read_packets (fun q hq => h q (List.mem_cons_of_mem _ hq))
    obtain ⟨type, f, body, -, rfl, -, hbody⟩ := h pkt List.mem_cons_self
    refine ⟨(f, body) :: ps, ?_, ?_, List.forall_mem_cons.2 ⟨Nat.le_min.2 ⟨hbody, hbody⟩, hlen⟩⟩
    · rw [List.map_cons, readPacket_framePacket hbody, hmap, List.map_cons]
    · rw [List.flatten_cons, hframed]
      rfl

theorem visitAll_append : ∀ (ps done : List (UInt8 × Bytes)),
    visitAll (fun f body pkts => pkts ++ [(f, body)]) ps done = done ++ ps
  | [], done => (List.append_nil done).symm
  | p :: ps, done => (visitAll_append ps (done ++ [p])).trans (List.append_assoc ..)

/-- **The beginning of a stream of packets**, in whatever pieces, is no error and gives the first of the packets. -/
theorem delivered_begun {maxBody : Nat} {ps : List (UInt8 × Bytes)} {chunks : List Bytes}
    (hlen : ∀ p ∈ ps, p.2.length ≤ min maxBody maxRemainingLength) (hchunks : chunks.flatten <+: framed ps) :
    ∃ got, FrameParser.delivered maxBody chunks = (.ok, got) ∧ got <+: ps := by
  obtain ⟨rest, hrest⟩ := hchunks
  -- the rest of the stream is one more piece
  have hpieces : [chunks.flatten, rest].flatten = framed ps := by simpa using hrest
  have hwhole := feedChunks_framed maxBody (fun f body (pkts : List (UInt8 × Bytes)) => pkts ++ [(f, body)]) [] hlen
    hpieces
  rw [visitAll_append, List.nil_append, FrameParser.feedChunks] at hwhole
  rw [FrameParser.delivered, FrameParser.feedChunks_eq_feed _ _ chunks {} [] FrameParser.wf_fresh]
  have hheld := (FrameParser.feed_rule maxBody (FrameParser.always (fun f body (pkts : List (UInt8 × Bytes)) =>
    pkts ++ [(f, body)])) (fun _ => false) (fun _ _ _ => rfl) (fun _ => True) (fun _ _ _ _ _ _ => trivial)
    (FrameParser.held_fresh maxBody) chunks.flatten (s := []) rfl trivial).2
  generalize FrameParser.feed maxBody _ {} chunks.flatten [] = r at hwhole hheld ⊢
  by_cases hok : r.1 = .ok
  · rw [if_pos hok, FrameParser.feedChunks_eq_feed _ _ [rest] r.2.1 r.2.2 hheld.wf] at hwhole
    have hgrows := (FrameParser.feed_rule maxBody (FrameParser.always (fun f body (pkts : List (UInt8 × Bytes)) =>
      pkts ++ [(f, body)])) (fun _ => false) (fun _ _ _ => rfl) (r.2.2 <+: ·)
      (fun _ _ _ _ h _ => h.trans (List.prefix_append ..)) hheld [rest].flatten rfl (List.prefix_refl r.2.2)).1
    refine ⟨r.2.2, Prod.ext hok rfl, ?_⟩
    rwa [show (FrameParser.feed maxBody _ r.2.1 [rest].flatten r.2.2).2.2 = ps from congrArg Prod.snd hwhole] at hgrows
  · rw [if_neg hok] at hwhole
    exact absurd (congrArg Prod.fst hwhole) hok

end Minimosq
