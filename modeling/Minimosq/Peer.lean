import Minimosq.Contract
import Minimosq.Occupancy
import Minimosq.Spell
/-!
# Peer — what is at the other end of a slot

The stream server and the broker as one system.  `Served` is what their passes are made of; by it the server keeps to
what `transport.hpp` asks of a transport, so the broker on it is in a state of a run (`run_honours`).  What the server
took for the occupant of a slot is then what the broker said on that connection since it was opened, and a peer that
parses what the kernel accepted, in whatever pieces it comes, finds whole packets and no error: its CONNACK first, which
is never refused, and then what the broker sent, in order (`peer_parses`).
-/
namespace Minimosq

open History (Each Star since)

variable {Ctx : Type} {m cap : Nat}
variable {s : StreamServer m cap} {i : Input} {t : Trace Ctx} {ci : Nat} {inputs : List Input}

/-! ## What the record of the server and the trace of the broker both tell -/

inductive Word
  | opened (ci : Nat)
  | said (ci : Nat) (pkt : Bytes) (ok : Bool)
  deriving DecidableEq, Repr

/-- Slots past the `n` of the broker's table are of no interest to it. -/
def SlotNote.word (n : Nat) : SlotNote → Option Word
  | .occupied ci _ => if ci < n then some (.opened ci) else none
  | .span ci bytes ok => some (.said ci bytes ok)
  | .wrote _ _ _ | .closed _ | .applied _ _ => none

def Act.word : Act Ctx → Option Word
  | .event e _ => if e.kind = .connectionOpened then e.ci.map .opened else none
  | .send ci pkt ok _ => some (.said ci pkt ok)
  | _ => none

/-- What was accepted on connection `ci` since it was last opened, in order. -/
def acceptedWords (ci : Nat) : List Word → List Bytes
  | [] => []
  | .opened j :: older => if j = ci then [] else acceptedWords ci older
  | .said j pkt ok :: older =>
    if j = ci ∧ ok = true then acceptedWords ci older ++ [pkt] else acceptedWords ci older

theorem heard_eq (ci : Nat) : ∀ t : Trace Ctx, heard ci t = acceptedWords ci (t.filterMap Act.word)
  | [] => rfl
  | a :: t => by
    have ih := heard_eq ci t
    cases a with
    | send j pkt ok tag =>
      have hword : (Act.send j pkt ok tag : Act Ctx).word = some (.said j pkt ok) := rfl
      rw [List.filterMap_cons_some hword, acceptedWords, ← ih]
      by_cases hj : j = ci
      · subst hj
        rw [(offered_send j pkt ok tag t).2]
        cases ok <;> simp
      · rw [(offered_send_other hj pkt ok tag t).2, if_neg (fun h => hj h.1)]
    | event e k =>
      by_cases hkind : e.kind = .connectionOpened
      · have hmark : (Act.event e k : Act Ctx).opens = true := by simp [Act.opens, hkind]
        have hline : (Act.event e k : Act Ctx).line = e.ci := by simp [Act.line, hkind]
        have hword : (Act.event e k : Act Ctx).word = e.ci.map .opened := if_pos hkind
        cases hci : e.ci with
        | none =>
          rw [List.filterMap_cons_none (by rw [hword, hci]; rfl), ← ih, heard,
            spell_cons_other (by rw [hline, hci]; simp), heard]
        | some j =>
          rw [List.filterMap_cons_some (by rw [hword, hci]; rfl), acceptedWords]
          split
          · rename_i hj
            rw [heard, spell, lineActs_cons_own (by rw [hline, hci, hj]), History.since_cons_mark hmark]
            rfl
          · rename_i hj
            rw [← ih, heard, spell_cons_other (by rw [hline, hci]; exact fun h => hj (Option.some.inj h)), heard]
      · have hword : (Act.event e k : Act Ctx).word = none := if_neg hkind
        rw [List.filterMap_cons_none hword, ← ih]
        exact (offered_silent ci (by simp [Act.opens, hkind]) rfl t).2
    | _ => exact (offered_silent ci rfl rfl t).2.trans ih

namespace StreamServer

/-! ## What a pass is made of -/

/-- What the server does by itself, and no slot is given or taken by it. -/
inductive Aside (s : StreamServer m cap) : StreamServer m cap → Prop
  | tune {s' : StreamServer m cap} (hslots : s'.slots = s.slots) (hrecord : s'.record = s.record) : Aside s s'
  | applied (ci who : Nat) : Aside s (s.note (.applied ci who))
  | flush (ci : Nat) : Aside s (s.flush ci)
  | flushAll : Aside s s.flushAll

/-- What the server calls without having touched a slot for it. -/
def Asks (s : StreamServer m cap) : Input → Prop
  | .connData ci data _ => 0 ≤ (s.slots ci).fd ∧ data ≠ []
  | .tick _ | .publish _ _ _ _ => True
  | .connOpen _ _ | .connClosed _ => False

/-- **What the server and its broker get to**, one thing after another. -/
inductive Served (P : Params Ctx) : System Ctx (StreamServer m cap) → Prop
  | start : Served P (start m cap)
  | aside {x : System Ctx (StreamServer m cap)} (h : Served P x) (f : StreamServer m cap → StreamServer m cap)
      (hf : Aside x.transport (f x.transport)) : Served P (x.onTransport f)
  | call {x : System Ctx (StreamServer m cap)} (h : Served P x) (i : Input) (hi : Asks x.transport i) :
      Served P (x.call policy P i)
  | takeIn {x : System Ctx (StreamServer m cap)} (h : Served P x) (now : Nat) {ci : Nat} (fd : Nat)
      (hfree : x.transport.freeSlot = some ci) : Served P (takeIn P now ci fd x)
  | hangUp {x : System Ctx (StreamServer m cap)} (h : Served P x) {ci : Nat} (hopen : 0 ≤ (x.transport.slots ci).fd) :
      Served P (hangUp P ci x)

section
variable {P : Params Ctx} {x : System Ctx (StreamServer m cap)}

theorem Served.acceptLoop (now : Nat) : ∀ (attempts : Nat) {x : System Ctx (StreamServer m cap)}, Served P x →
    Served P (acceptLoop P now attempts x)
  | 0, _, h => h
  | attempts + 1, x, h => by
    unfold StreamServer.acceptLoop
    split
    · exact h
    rename_i answer accepts _
    have h : Served P (x.onTransport (fun s => { s with accepts := accepts })) := h.aside _ (.tune rfl rfl)
    dsimp only
    generalize x.onTransport (fun s => { s with accepts := accepts }) = x at h ⊢
    cases answer with
    | interrupted => exact h.acceptLoop now attempts
    | again => exact h
    | failed => exact h.aside (backOff now) (.tune (by simp only [backOff]) (by simp only [backOff]))
    | conn fd nonblocking =>
      dsimp only
      split
      · exact h.acceptLoop now attempts
      rename_i ci hfree
      split
      · exact h.acceptLoop now attempts
      · exact (h.takeIn now fd hfree).acceptLoop now attempts

theorem Served.readIntoBroker (ci now : Nat) : ∀ (left : Nat) {x : System Ctx (StreamServer m cap)}, Served P x →
    Served P (readIntoBroker P ci now left x)
  | 0, _, h => h
  | left + 1, x, h => by
    unfold StreamServer.readIntoBroker
    split
    · exact h
    rename_i hfd
    split
    · exact h
    rename_i got reads _
    have hopen : 0 ≤ ((x.onTransport (fun s => { s with reads := reads })).transport.slots ci).fd := Int.not_lt.1 hfd
    have h : Served P (x.onTransport (fun s => { s with reads := reads })) := h.aside _ (.tune rfl rfl)
    dsimp only
    generalize x.onTransport (fun s => { s with reads := reads }) = x at h hopen ⊢
    cases got with
    | data bytes =>
      dsimp only
      split
      · exact h.hangUp hopen
      · rename_i hsome
        exact (h.call (.connData ci _ now) ⟨hopen, by simpa using hsome⟩).readIntoBroker ci now left
    | again => exact h
    | interrupted => exact h.readIntoBroker ci now left
    | failed => exact h.hangUp hopen

theorem Served.serveOne (h : Served P x) (now : Nat) (p : Pollfd) : Served P (serveOne P now x p) := by
  unfold StreamServer.serveOne
  split
  · exact h
  split
  · exact (h.aside (fun s => { s with acceptBackoffArmed := false }) (.tune rfl rfl)).acceptLoop now m
  split
  · exact h
  have h := h.aside _ (.applied p.slotOf p.occupant)
  dsimp only
  generalize x.onTransport (note (.applied p.slotOf p.occupant)) = x at h ⊢
  have h : Served P (if p.revents.out then x.onTransport (StreamServer.flush p.slotOf) else x) := by
    split
    · exact h.aside _ (.flush p.slotOf)
    · exact h
  split
  · exact h.readIntoBroker p.slotOf now _
  · exact h

theorem Served.pollOnce (h : Served P x) (k : Pass) : Served P (pollOnce P k x).2 := by
  have h : Served P (x.onTransport (scripted k)) := h.aside _ (.tune rfl rfl)
  unfold StreamServer.pollOnce
  dsimp only
  generalize x.onTransport (scripted k) = x at h ⊢
  have hend : ∀ {y : System Ctx (StreamServer m cap)}, Served P y →
      Served P ((y.tick policy P k.now).onTransport flushAll) :=
    fun hy => (hy.call (.tick k.now) trivial).aside _ .flushAll
  split
  · exact hend h
  · refine hend ?_
    exact List.foldlRecOn (motive := Served P) _ (StreamServer.serveOne P k.now) h (fun _ h p _ => h.serveOne k.now p)

/-- **Every run is served so.** -/
theorem served_run (m cap : Nat) (P : Params Ctx) (steps : List Step) : Served P (run m cap P steps) := by
  refine List.foldlRecOn (motive := Served P) steps (StreamServer.step P) .start (fun x h one _ => ?_)
  cases one with
  | listen fd => exact h.aside (fun s => { s.closeListener with listenFd := fd }) (.tune rfl rfl)
  | pollOnce k => exact h.pollOnce k
  | publish topic payload qos retain writes =>
    have h := h.aside (fun s => { s with writes := writes }) (.tune rfl rfl)
    exact h.call (.publish topic payload qos retain) trivial

/-! ## The transport's part -/

theorem Aside.fd {s' : StreamServer m cap} (h : Aside s s') (j : Nat) : (s'.slots j).fd = (s.slots j).fd := by
  cases h with
  | tune hslots => rw [hslots]
  | applied => rfl
  | flush ci => exact flush_fd s ci j
  | flushAll => exact flushAll_fd s j

theorem Agrees.due (h : Agrees P x) (hi : Asks x.transport i) : i.Due x.broker := by
  cases i with
  | connData ci data now => exact ⟨(h.active ci).trans (decide_eq_true hi.1), hi.2⟩
  | tick | publish => trivial
  | connOpen | connClosed => exact absurd hi id

theorem Agrees.call (h : Agrees P x) (hfits : P.T.maxConnections ≤ m) (hi : Asks x.transport i) :
    Agrees P (x.call policy P i) := by
  refine h.moved hfits ?_
  cases i with
  | connData ci data now => exact connData_steady h.steady ci data now
  | tick now => exact tick_steady h.steady now
  | publish topic payload qos retain => exact publish_steady h.steady topic payload qos retain
  | connOpen | connClosed => exact absurd hi id

/-- **The server keeps to what is asked of a transport**: it opens a connection in a slot that was free, and reads and
reports the end of one that is there. -/
theorem Served.drives (hfits : P.T.maxConnections ≤ m) (h : Served P x) :
    Agrees P x ∧ ∃ inputs, Drives policy P {} inputs x := by
  induction h with
  | start => exact ⟨⟨init_steady P, fun _ => rfl⟩, [], .start⟩
  | aside _ f hf ih =>
    obtain ⟨hagrees, inputs, hdrives⟩ := ih
    exact ⟨hagrees.of_fds hf.fd, inputs, hdrives.own f⟩
  | call _ i hi ih =>
    obtain ⟨hagrees, inputs, hdrives⟩ := ih
    exact ⟨hagrees.call hfits hi, _, hdrives.call i (hagrees.due hi)⟩
  | @takeIn x _ now ci fd hfree ih =>
    obtain ⟨hagrees, inputs, hdrives⟩ := ih
    have hfree := (freeSlot_some hfree).2
    have hdue : (x.broker.conns ci).active = false := (hagrees.active ci).trans (decide_eq_false (Int.not_le.2 hfree))
    have hcall := (hdrives.own (occupy ci fd)).call (.connOpen ci now) hdue
    refine ⟨hagrees.takeIn now fd hfree, inputs ++ [.connOpen ci now], ?_⟩
    unfold StreamServer.takeIn
    dsimp only
    split
    · exact hcall.own (vacate ci)
    · exact hcall
  | @hangUp x _ ci hopen ih =>
    obtain ⟨hagrees, inputs, hdrives⟩ := ih
    have hdue : (x.broker.conns ci).active = true := (hagrees.active ci).trans (decide_eq_true hopen)
    exact ⟨hagrees.hangUp hfits ci, _, (hdrives.own (closeSlot ci)).call (.connClosed ci) hdue⟩

/-! ## One story -/

/-- What is on the record, in the words of the broker. -/
def words (n : Nat) (s : StreamServer m cap) : List Word := s.record.filterMap (SlotNote.word n)

section
variable {n : Nat} {s s' : StreamServer m cap} {ci : Nat}

theorem taken_eq (hci : ci < n) : ∀ record : List SlotNote,
    taken ci record = acceptedWords ci (record.filterMap (SlotNote.word n))
  | [] => rfl
  | a :: record => by
    have ih := taken_eq hci record
    cases a with
    | occupied j fd =>
      by_cases hj : j < n
      · have hword : SlotNote.word n (.occupied j fd) = some (.opened j) := if_pos hj
        rw [List.filterMap_cons_some hword, taken, acceptedWords, ih]
      · have hword : SlotNote.word n (.occupied j fd) = none := if_neg hj
        have hne : j ≠ ci := fun h => hj (by rw [h]; exact hci)
        rw [List.filterMap_cons_none hword, taken, ih, if_neg hne]
    | span j bytes ok =>
      have hword : SlotNote.word n (.span j bytes ok) = some (.said j bytes ok) := rfl
      rw [List.filterMap_cons_some hword, taken, acceptedWords, ih]
    | wrote | closed | applied => exact ih

theorem flush_words (s : StreamServer m cap) (ci : Nat) : (s.flush ci).words n = s.words n := by
  unfold flush
  split <;> rfl

theorem send_words (s : StreamServer m cap) (ci : Nat) (bytes : Bytes) :
    (s.send ci bytes).2.words n = .said ci bytes (s.send ci bytes).1 :: s.words n := by
  obtain ⟨s', hs', hrecord⟩ := send_record s ci bytes
  have hwords : s'.words n = s.words n := by
    rcases hs' with rfl | rfl
    · rfl
    · exact flush_words s ci
  rw [words, hrecord, ← hwords]
  rfl

theorem closeSlot_words (s : StreamServer m cap) (ci : Nat) : (s.closeSlot ci).words n = s.words n := flush_words s ci

theorem close_words (s : StreamServer m cap) (ci : Nat) : (s.close ci).words n = s.words n := by
  unfold close
  split
  · rfl
  split
  · rfl
  · exact closeSlot_words s ci

theorem occupy_words (s : StreamServer m cap) (ci : Nat) (fd : Int) :
    (s.occupy ci fd).words n = if ci < n then .opened ci :: s.words n else s.words n := by
  by_cases hci : ci < n
  · have hword : SlotNote.word n (.occupied ci fd) = some (.opened ci) := if_pos hci
    rw [if_pos hci]
    exact List.filterMap_cons_some hword
  · have hword : SlotNote.word n (.occupied ci fd) = none := if_neg hci
    rw [if_neg hci]
    exact List.filterMap_cons_none hword

theorem Aside.words (h : Aside s s') : s'.words n = s.words n := by
  cases h with
  | tune _ hrecord => rw [StreamServer.words, hrecord, StreamServer.words]
  | applied => rfl
  | flush ci => exact flush_words s ci
  | flushAll =>
    refine List.foldlRecOn (motive := fun s' : StreamServer m cap => s'.words n = s.words n) (List.range m) flushOne rfl
      (fun s' h ci _ => Eq.trans ?_ h)
    unfold flushOne
    split
    · exact flush_words _ ci
    · rfl

/-- **What the broker says in a call, the record says too.** -/
theorem after_words (h : s.words n = t.filterMap Act.word) : ∀ {new : Trace Ctx},
    (policy : Transport (StreamServer m cap)).Answers s new → (∀ a ∈ new, a.opens = false) →
      (policy.after s new).words n = (new ++ t).filterMap Act.word
  | [], _, _ => h
  | a :: new, hanswers, hopens => by
    have ih := after_words h hanswers.2 (fun b hb => hopens b (List.mem_cons_of_mem _ hb))
    have hstep : policy.after s (a :: new) = policy.meet a (policy.after s new) := rfl
    rw [hstep, List.cons_append]
    cases a with
    | send ci pkt ok tag =>
      have hok := hanswers.1 ci pkt ok tag rfl
      have hword : (Act.send ci pkt ok tag : Act Ctx).word = some (.said ci pkt ok) := rfl
      rw [List.filterMap_cons_some hword, ← ih, hok]
      exact send_words ..
    | close ci => exact (close_words ..).trans ih
    | event e k =>
      have hkind : ¬e.kind = .connectionOpened := by simpa [Act.opens] using hopens (.event e k) List.mem_cons_self
      have hword : (Act.event e k : Act Ctx).word = none := if_neg hkind
      rw [List.filterMap_cons_none hword]
      exact ih
    | _ => exact ih

end

theorem connOpen_words (P : Params Ctx) {σ : Broker Ctx} (now : Nat) (hoff : (σ.conns ci).active = false) :
    (σ.connOpen P ci now).2.trace.filterMap Act.word =
      if ci < P.T.maxConnections then .opened ci :: σ.trace.filterMap Act.word else σ.trace.filterMap Act.word := by
  unfold Broker.connOpen
  split
  · rename_i hrefused
    rw [if_neg (by simpa [hoff] using hrefused)]
  · rename_i hopens
    rw [if_pos (by simpa [hoff] using hopens)]
    rfl

theorem call_words {n : Nat} (hdrives : Drives policy P {} inputs x)
    (h : x.transport.words n = x.broker.trace.filterMap Act.word) (hi : ∀ ci now, i ≠ .connOpen ci now) :
    (x.call policy P i).transport.words n = (x.call policy P i).broker.trace.filterMap Act.word := by
  obtain ⟨new, hnew, hopens⟩ := unopened_step (P.over policy x.transport x.broker) x.broker hi
  have hanswers := hdrives.answers i
  have hnew : (x.call policy P i).broker.trace = new ++ x.broker.trace := hnew
  rw [hnew]
  rw [actsSince_eq hnew] at hanswers
  have hafter : (x.call policy P i).transport = policy.after x.transport new :=
    congrArg (policy.after x.transport) (actsSince_eq hnew)
  rw [hafter]
  exact after_words h hanswers hopens

/-- **The record of the server tells what the trace of the broker tells**: which connections were opened, and what was
sent on them with what answer. -/
theorem Served.words (hfits : P.T.maxConnections ≤ m) (h : Served P x) :
    x.transport.words P.T.maxConnections = x.broker.trace.filterMap Act.word := by
  induction h with
  | start => rfl
  | aside _ f hf ih => exact hf.words.trans ih
  | call hx i hi ih =>
    obtain ⟨-, inputs, hdrives⟩ := hx.drives hfits
    refine call_words hdrives ih (fun ci now he => ?_)
    rw [he] at hi
    exact hi
  | @takeIn x hx now ci fd hfree ih =>
    have hfd := (freeSlot_some hfree).2
    have hoff : (x.broker.conns ci).active = false :=
      ((hx.drives hfits).1.active ci).trans (decide_eq_false (Int.not_le.2 hfd))
    have hstate := connOpen_transport policy P ci now (x.onTransport (occupy ci fd))
    have htrace := connOpen_words (P.over policy (x.transport.occupy ci fd) x.broker) now hoff
    unfold StreamServer.takeIn
    dsimp only
    change ((x.onTransport (occupy ci fd)).connOpen policy P ci now).2.broker.trace.filterMap Act.word = _ at htrace
    generalize (x.onTransport (occupy ci fd)).connOpen policy P ci now = r at hstate htrace ⊢
    have hopened : r.2.transport.words P.T.maxConnections = r.2.broker.trace.filterMap Act.word := by
      rw [hstate, htrace, ← ih]
      exact occupy_words ..
    split
    · exact hopened
    · exact hopened
  | @hangUp x hx ci hopen ih =>
    obtain ⟨-, inputs, hdrives⟩ := hx.drives hfits
    have hclosed := (closeSlot_words (n := P.T.maxConnections) x.transport ci).trans ih
    exact call_words (i := .connClosed ci) (hdrives.own (closeSlot ci)) hclosed (fun j now he => by cases he)

/-! ## The first packet -/

theorem Aside.keeps {I : StreamServer m cap → Prop} (hI : Kept I) {s' : StreamServer m cap} (h : Aside s s')
    (hs : I s) : I s' := by
  cases h with
  | tune hslots hrecord => exact hI.apart hs hslots hrecord
  | applied ci who => exact hI.applied s ci who hs
  | flush ci => exact hI.op s (.flush ci) hs
  | flushAll => exact hI.op s .flushAll hs

theorem Served.keeps {I : StreamServer m cap → Prop} (hI : Kept I) (h₀ : I {}) (h : Served P x) : I x.transport := by
  induction h with
  | start => exact h₀
  | aside _ f hf ih => exact hf.keeps hI ih
  | call _ i _ ih => exact hI.moved ih _
  | takeIn _ now fd hfree ih => exact hI.takeIn ih hfree
  | hangUp _ _ ih => exact hI.moved (hI.op _ (.hangUp _) ih) _

/-- **A ring nothing was queued in takes a packet**, as it is no smaller than the widest. -/
theorem send_first (hcons : Conserved s ci) (hci : ci < m) (hopen : 0 ≤ (s.slots ci).fd)
    (hnone : taken ci s.record = []) {pkt : Bytes} (hlen : pkt.length ≤ cap) : (s.send ci pkt).1 = true := by
  have hempty : (s.slots ci).ring.content = [] := by
    have hbytes := hcons.bytes hopen
    rw [hnone] at hbytes
    exact (List.append_eq_nil_iff.1 hbytes).2
  have hfree : (s.slots ci).ring.len = 0 := by rw [← RingBuffer.length_content, hempty, List.length_nil]
  have hok : ((s.slots ci).ring.append pkt).1 = true := by
    rw [RingBuffer.append_fst, hfree]
    exact decide_eq_true (by omega)
  unfold send
  rw [if_neg (Nat.not_le.2 hci), if_neg (Int.not_lt.2 hopen)]
  dsimp only
  rw [if_pos hok]

/-- Only a connection that was there is closed. -/
theorem closes_active {v : Trace Ctx → Nat → Bytes → Bool} {σ : Broker Ctx} (hsteady : Steady P σ)
    (hi : ∀ ci now, i ≠ .connOpen ci now) {j : Nat}
    (hcloses : (actsSince σ (σ.step (P.wired v) i)).any (Act.closes j) = true) : (σ.conns j).active = true := by
  cases i with
  | connOpen ci now => exact absurd rfl (hi ci now)
  | connClosed ci => exact (connClosed_steady hsteady ci).2.2.was j hcloses
  | connData ci data now => exact (connData_steady hsteady ci data now).2.was j hcloses
  | tick now => exact (tick_steady hsteady now).2.was j hcloses
  | publish topic payload qos retain => exact (publish_steady hsteady topic payload qos retain).2.was j hcloses

/-- The first packet offered on a connection since it was opened is the first that was accepted. -/
def Led (t : Trace Ctx) : Prop := ∀ ci, (offered ci t).head? = (heard ci t).head?

theorem Led.cons (h : Led t) {a : Act Ctx} (hopens : a.opens = false)
    (hfirst : ∀ ci pkt ok tag, a = .send ci pkt ok tag → offered ci t = [] → ok = true) : Led (a :: t) := by
  intro ci
  cases hsent : a.sent with
  | none =>
    obtain ⟨hoffered, hheard⟩ := offered_silent ci hopens hsent t
    rw [hoffered, hheard]
    exact h ci
  | some pkt =>
    cases a with
    | send j pkt ok tag =>
      by_cases hj : j = ci
      · subst hj
        obtain ⟨hoffered, hheard⟩ := offered_send j pkt ok tag t
        rw [hoffered, hheard]
        cases hnone : offered j t with
        | nil =>
          have hnothing : heard j t = [] := List.sublist_nil.1 (hnone ▸ heard_sublist j t)
          rw [hfirst j pkt ok tag rfl hnone, hnothing]
          rfl
        | cons first rest =>
          have hhead := h j
          rw [hnone] at hhead
          obtain ⟨more, hmore⟩ := List.head?_eq_some_iff.1 hhead.symm
          rw [hmore]
          rfl
      · obtain ⟨hoffered, hheard⟩ := offered_send_other hj pkt ok tag t
        rw [hoffered, hheard]
        exact h ci
    | _ => cases hsent

theorem Led.opened (h : Led t) (e : Event) (hkind : e.kind = .connectionOpened) : Led (.event e none :: t) := by
  intro ci
  by_cases hline : (Act.event e none : Act Ctx).line = some ci
  · rw [offered, heard, spell, lineActs_cons_own hline, History.since_cons_mark (by simp [Act.opens, hkind])]
    rfl
  · rw [offered, heard, spell_cons_other hline]
    exact h ci

section
variable (hdrives : Drives policy P {} inputs x) (hsteady : Steady P x.broker)
  (hfits : P.T.maxConnections ≤ m) (hroom : P.T.outSize ≤ cap) (hcons : ∀ ci, Conserved x.transport ci)
  (hwords : x.transport.words P.T.maxConnections = x.broker.trace.filterMap Act.word)
  (hi : ∀ ci now, i ≠ .connOpen ci now)
  (hopen : ∀ ci, (x.broker.conns ci).active = true → i ≠ .connClosed ci → 0 ≤ (x.transport.slots ci).fd)
include hdrives hsteady hfits hroom hcons hwords hi hopen

/-- **Where the first packet of a connection is offered, its slot is open and nothing was queued for it.** -/
theorem call_first {newer older : Trace Ctx} {pkt : Bytes} {ok : Bool} {tag : Option (Tag Ctx)}
    (hnew : (x.call policy P i).broker.trace = newer ++ .send ci pkt ok tag :: (older ++ x.broker.trace))
    (hnone : offered ci (older ++ x.broker.trace) = []) : ok = true := by
  obtain ⟨v, hrun, -⟩ := hdrives.run
  obtain ⟨w, hnext⟩ : ∃ w, (x.call policy P i).broker = Minimosq.run (P.wired w) (inputs ++ [i]) :=
    ⟨_, call_run policy hrun i⟩
  -- the acts of the call
  have hacts : (x.call policy P i).broker.trace = (newer ++ .send ci pkt ok tag :: older) ++ x.broker.trace := by
    rw [hnew, List.append_assoc, List.cons_append]
  have hsend : .send ci pkt ok tag ∈ newer ++ .send ci pkt ok tag :: older := by simp
  obtain ⟨new, hsplit, hopens⟩ := unopened_step (P.over policy x.transport x.broker) x.broker hi
  cases List.append_cancel_right (hsplit.symm.trans hacts)
  have holder : ∀ a ∈ older, a.opens = false := fun a ha => hopens a (by simp [ha])
  have hanswers := hdrives.answers i
  rw [actsSince_eq hacts] at hanswers
  obtain ⟨hclose, hpeer⟩ : .close ci ∉ older ∧ .peerClosed ci ∉ older :=
    unclosed_before (P := P.wired w) (by rw [← hnext]; exact hnew) holder
  have hactive : (x.broker.conns ci).active = true :=
    line_active (step_stepped hsteady.sound.wired i).toCourse hacts hopens hsend rfl
  have hci : ci < P.T.maxConnections := hsteady.sound.linked.active_lt ci hactive
  have hstays : i ≠ .connClosed ci := by
    rintro rfl
    obtain ⟨acts, hlast, -⟩ := connClosed_trace (P := P.over policy x.transport x.broker) hci hactive
    have hends : acts ++ [.peerClosed ci] = newer ++ .send ci pkt ok tag :: older := by
      refine List.append_cancel_right (Eq.trans ?_ (hlast.symm.trans hacts))
      rw [List.append_assoc, List.singleton_append]
    rcases List.eq_nil_or_concat older with rfl | ⟨rest, last, rfl⟩
    · exact absurd (List.append_inj' hends rfl).2 (by simp)
    · rw [List.concat_eq_append, ← List.cons_append, ← List.append_assoc] at hends
      cases (List.append_inj' hends rfl).2
      exact hpeer (by simp)
  have hfd : 0 ≤ ((policy.after x.transport older).slots ci).fd := by
    have hlt : ∀ j, older.any (Act.closes j) = true → j < m := fun j hj => by
      have hcloses : (actsSince x.broker (x.call policy P i).broker).any (Act.closes j) = true := by
        rw [actsSince_eq hacts]
        simp [hj]
      exact Nat.lt_of_lt_of_le (hsteady.sound.linked.active_lt j (closes_active hsteady hi hcloses)) hfits
    have hstill : older.any (Act.closes ci) = false := by
      refine List.any_eq_false.2 fun a ha hcloses => hclose ?_
      cases a with
      | close j =>
        have hj : j = ci := by simpa [Act.closes] using hcloses
        rwa [hj] at ha
      | _ => cases hcloses
    have hopn := gate.after x.transport ci older hlt
    rw [hstill, opn, opn, decide_eq_true (hopen ci hactive hstays)] at hopn
    exact of_decide_eq_true hopn
  have hnothing : taken ci (policy.after x.transport older).record = [] := by
    have hbefore := after_words hwords (hanswers.suffix ⟨newer ++ [.send ci pkt ok tag], by simp⟩) holder
    rw [taken_eq hci]
    change acceptedWords ci ((policy.after x.transport older).words P.T.maxConnections) = []
    rw [hbefore, ← heard_eq]
    exact List.sublist_nil.1 (hnone ▸ heard_sublist ci _)
  have hlen : pkt.length ≤ cap := by
    have hmem : .send ci pkt ok tag ∈ (x.call policy P i).broker.trace := by simp [hnew]
    rw [hnext] at hmem
    obtain ⟨type, -, hpkt⟩ := run_mild _ _ hmem
    exact Nat.le_trans hpkt.length_le hroom
  have hkept := Transport.after_inv policy (fun s => Conserved s ci) (fun s j pkt h => h.send j pkt)
    (fun s j h => h.close j) (hcons ci) older
  have hok := (History.each_iff.1 hanswers _ _ _ rfl) ci pkt ok tag rfl
  rw [hok]
  exact send_first hkept (Nat.lt_of_lt_of_le hci hfits) hfd hnothing hlen

theorem call_led (hled : Led x.broker.trace) : Led (x.call policy P i).broker.trace := by
  obtain ⟨new, hnew, hopens⟩ := unopened_step (P.over policy x.transport x.broker) x.broker hi
  have hnew : (x.call policy P i).broker.trace = new ++ x.broker.trace := hnew
  -- act by act, the oldest first
  have hparts : ∀ older newer, new = newer ++ older → Led (older ++ x.broker.trace) := by
    intro older
    induction older with
    | nil => exact fun _ _ => hled
    | cons a older ih =>
      intro newer hsplit
      have hbefore := ih (newer ++ [a]) (by rw [hsplit, List.append_assoc, List.singleton_append])
      refine hbefore.cons (hopens a (by rw [hsplit]; simp)) fun ci pkt ok tag ha hnone => ?_
      have htrace : (x.call policy P i).broker.trace = newer ++ .send ci pkt ok tag :: (older ++ x.broker.trace) := by
        rw [hnew, hsplit, ha, List.append_assoc, List.cons_append]
      exact call_first hdrives hsteady hfits hroom hcons hwords hi hopen htrace hnone
  rw [hnew]
  exact hparts new [] rfl

end

/-- **The first packet of every connection is accepted.** -/
theorem Served.led (hfits : P.T.maxConnections ≤ m) (hroom : P.T.outSize ≤ cap) (h : Served P x) :
    Led x.broker.trace := by
  have hcons : ∀ {x : System Ctx (StreamServer m cap)}, Served P x → ∀ ci, Conserved x.transport ci :=
    fun h ci => h.keeps (conserved_kept ci) (conserved_start ci)
  induction h with
  | start => exact fun ci => rfl
  | aside _ _ _ ih => exact ih
  | @call x hx i hi ih =>
    obtain ⟨hagrees, inputs, hdrives⟩ := hx.drives hfits
    refine call_led hdrives hagrees.steady hfits hroom (hcons hx) (hx.words hfits) ?_ ?_ ih
    · rintro ci now rfl
      exact hi
    · intro ci hactive _
      exact of_decide_eq_true ((hagrees.active ci).symm.trans hactive)
  | @takeIn x hx now ci fd hfree ih =>
    have hopened : Led (x.broker.connOpen (P.over policy (x.transport.occupy ci fd) x.broker) ci now).2.trace := by
      unfold Broker.connOpen
      split
      · exact ih
      · exact ih.opened _ rfl
    unfold StreamServer.takeIn
    dsimp only
    split
    · exact hopened
    · exact hopened
  | @hangUp x hx ci hopen ih =>
    obtain ⟨hagrees, inputs, hdrives⟩ := hx.drives hfits
    refine call_led (i := .connClosed ci) (hdrives.own (closeSlot ci)) hagrees.steady hfits hroom
      (fun j => (hcons hx j).closeSlot ci) ((closeSlot_words ..).trans (hx.words hfits)) (fun j now he => by cases he)
      (fun j hactive hj => ?_) ih
    have hne : j ≠ ci := fun h => hj (by rw [h])
    have hwas : x.transport.opn j = true := (hagrees.active j).symm.trans hactive
    have hopn := opn_closeSlot x.transport ci j
    rw [hwas] at hopn
    exact of_decide_eq_true (hopn.trans (by simpa using hne))

end

/-! ## Every run -/

/-- **A broker on the stream server is in a state of a run**: what the server and the broker come to is brought about by
calls that are due when they are made (`Drives`), with the answers `v` of the server, and the record of the server tells
what the trace of that run tells. -/
theorem run_honours (m cap : Nat) (P : Params Ctx) (hfits : P.T.maxConnections ≤ m) (steps : List Step) :
    ∃ v inputs, Drives policy P {} inputs (run m cap P steps) ∧
      (run m cap P steps).broker = Minimosq.run (P.wired v) inputs ∧
      (∀ earlier i later, inputs = earlier ++ i :: later → i.Due (Minimosq.run (P.wired v) earlier)) ∧
      (run m cap P steps).transport.words P.T.maxConnections =
        (Minimosq.run (P.wired v) inputs).trace.filterMap Act.word := by
  have hserved := served_run m cap P steps
  obtain ⟨-, inputs, hdrives⟩ := hserved.drives hfits
  obtain ⟨v, hrun, hdue⟩ := hdrives.run
  exact ⟨v, inputs, hdrives, hrun, hdue, hrun ▸ hserved.words hfits⟩

/-- **What the peer of a slot finds**: what the kernel accepted and what is still in the ring is a conversation of whole
packets, those the broker had accepted since it opened the connection; and a parser that is fed what has come so far, in
whatever pieces, has no error and the first of these packets. -/
theorem peer_parses (m cap : Nat) (P : Params Ctx) (hfits : P.T.maxConnections ≤ m) (hroom : P.T.outSize ≤ cap)
    (steps : List Step) {ci : Nat} (hci : ci < P.T.maxConnections) {chunks : List Bytes}
    (hchunks : chunks.flatten = accepted ci (run m cap P steps).transport.record) :
    Conversation P.T.outSize (heard ci (run m cap P steps).broker.trace) ∧
      (0 ≤ ((run m cap P steps).transport.slots ci).fd →
        accepted ci (run m cap P steps).transport.record ++ ((run m cap P steps).transport.slots ci).ring.content =
          (heard ci (run m cap P steps).broker.trace).flatten) ∧
      ∃ ps got, (heard ci (run m cap P steps).broker.trace).map readPacket = ps.map some ∧
        FrameParser.delivered maxRemainingLength chunks = (.ok, got) ∧ got <+: ps := by
  have hserved := served_run m cap P steps
  have hcons := hserved.keeps (conserved_kept ci) (conserved_start ci)
  have htaken : taken ci (run m cap P steps).transport.record = heard ci (run m cap P steps).broker.trace := by
    rw [taken_eq hci, heard_eq, ← hserved.words hfits]
    rfl
  obtain ⟨-, inputs, hdrives⟩ := hserved.drives hfits
  obtain ⟨v, hrun, -⟩ := hdrives.run
  have hled := hserved.led hfits hroom ci
  rw [← htaken] at hled ⊢
  rw [hrun] at hled htaken
  have hsub := heard_sublist ci (Minimosq.run (P.wired v) inputs).trace
  rw [← htaken] at hsub
  refine ⟨(offered_conversation (P.wired v) inputs ci).sublist hsub hled, hcons.bytes, ?_⟩
  have hwhole : ∀ pkt ∈ taken ci (run m cap P steps).transport.record, ∃ type, IsPacket P.T.outSize type pkt := by
    intro pkt hpkt
    obtain ⟨a, ha, hsent⟩ := List.mem_filterMap.1 (List.mem_reverse.1 (hsub.subset hpkt))
    have hmem : a ∈ (Minimosq.run (P.wired v) inputs).trace :=
      (History.mem_about.1 (History.mem_of_mem_since ha)).1
    cases a with
    | send j pkt' ok tag =>
      cases hsent
      obtain ⟨type, -, hmild⟩ := run_mild _ _ hmem
      exact ⟨type, hmild⟩
    | _ => cases hsent
  obtain ⟨ps, hmap, hframed, hlen⟩ := read_packets hwhole
  have hstream : chunks.flatten <+: framed ps := by
    rw [hchunks, ← hframed]
    exact hcons.begun
  obtain ⟨got, hgot, hbegun⟩ := delivered_begun hlen hstream
  exact ⟨ps, got, hmap, hgot, hbegun⟩

/-- A client comes to slot 0, connects and asks for a ping; the kernel takes the CONNACK and a byte of the answer. -/
def greeted : List Step :=
  [.listen 3, .pollOnce ⟨0, 0, 1, fun _ => { ready := true }, [], [], [.conn 4 true]⟩,
    .pollOnce ⟨5, 5, 1, fun i => { ready := i == 1 }, [.took 5], [.data (Wire.makeConnect [99] {} ++ [0xC0, 0])], []⟩]

theorem run_honours_greeted : ∃ v inputs,
    (run 5 512 (bed fun _ _ _ => true) greeted).broker = Minimosq.run ((bed fun _ _ _ => true).wired v) inputs ∧
      [.said 0 [0xD0, 0] true, .said 0 [0x20, 2, 0, 0] true, .opened 0] =
        (Minimosq.run ((bed fun _ _ _ => true).wired v) inputs).trace.filterMap Act.word := by
  obtain ⟨v, inputs, -, hrun, -, hwords⟩ := run_honours 5 512 (bed fun _ _ _ => true) (by decide) greeted
  refine ⟨v, inputs, hrun, Eq.trans ?_ hwords⟩
  decide +kernel

theorem peer_parses_greeted : Conversation (bed fun _ _ _ => true).T.outSize
      (heard 0 (run 5 512 (bed fun _ _ _ => true) greeted).broker.trace) ∧
    ∃ ps got, FrameParser.delivered maxRemainingLength [[0x20], [2, 0, 0, 0xD0]] = (.ok, got) ∧ got <+: ps ∧
      (heard 0 (run 5 512 (bed fun _ _ _ => true) greeted).broker.trace).map readPacket = ps.map some := by
  have hchunks : [[0x20], [2, 0, 0, 0xD0]].flatten =
      accepted 0 (run 5 512 (bed fun _ _ _ => true) greeted).transport.record := by decide +kernel
  obtain ⟨hconv, -, ps, got, hmap, hgot, hbegun⟩ := peer_parses 5 512 (bed fun _ _ _ => true) (by decide)
    (by decide) greeted (by decide) hchunks
  exact ⟨hconv, ps, got, hgot, hbegun, hmap⟩

end StreamServer

end Minimosq
