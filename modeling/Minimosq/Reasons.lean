import Minimosq.Account
import Minimosq.Episode
/-!
# Reasons — why a connection ends

A connection ends for a reason: before `connection_closed` the observer was told of a failure, a refusal, a timeout or a
takeover of that connection, or its client sent DISCONNECT, or its transport reported the end; and only in this last
case is the transport not told to close (`run_ends_explained`).
-/
namespace Minimosq

open History (Each Star since)

variable {Ctx : Type} {P : Params Ctx}

/-- The act ends connection `ci`, which was given up on since it was opened, by the broker or by its transport. -/
def Parted (ci : Nat) : Act Ctx → Trace Ctx → Prop
  | .close _, h => .dead ci ∈ since Act.opens h
  | .event e _, h => e.kind = .connectionClosed →
      .dead ci ∈ since Act.opens h ∨ .peerClosed ci ∈ since Act.opens h
  | _, _ => True

/-- Why connection `c` is given up on, if it is. -/
def GivenUp (ci : Nat) (h : Trace Ctx) (c : Conn) : Prop :=
  c.active = true → c.dead = true →
    .dead ci ∈ since Act.opens h ∨ c.notifyTransport = false ∧ .peerClosed ci ∈ since Act.opens h

section
variable {ci : Nat} {h : Trace Ctx} {c c' : Conn}

theorem mem_since_append {acts : Trace Ctx} {a : Act Ctx} (hacts : ∀ b ∈ acts, b.opens = false)
    (ha : a ∈ since Act.opens h) : a ∈ since Act.opens (acts ++ h) := by
  rw [History.since_append hacts]
  exact List.mem_append_right _ ha

theorem GivenUp.append (hg : GivenUp ci h c) (acts : Trace Ctx) (hacts : ∀ b ∈ acts, b.opens = false)
    (hactive : c'.active = c.active) (hdead : c'.dead = c.dead) (hnotify : c'.notifyTransport = c.notifyTransport) :
    GivenUp ci (acts ++ h) c' := by
  rw [GivenUp, hactive, hdead, hnotify]
  exact fun ha hd => (hg ha hd).imp (mem_since_append hacts) (And.imp_right (mem_since_append hacts))

theorem givenUp_dead : GivenUp ci (.dead ci :: h) c := fun _ _ => by
  rw [History.since_cons rfl]
  exact .inl List.mem_cons_self

/-- **A step of a connection keeps what is known of its end.** -/
theorem LineStep.parted {acts : Trace Ctx} (one : LineStep P ci h c acts c')
    (hI : Each (Parted ci) h ∧ GivenUp ci h c) : Each (Parted ci) (acts ++ h) ∧ GivenUp ci (acts ++ h) c' := by
  cases one with
  | carry d =>
    cases d with
    | send pkt ok tag => exact ⟨⟨trivial, hI.1⟩, hI.2.append [_] (by simp [Act.opens]) rfl rfl rfl⟩
    | die => exact ⟨⟨trivial, hI.1⟩, givenUp_dead⟩
    | refuse code ok => exact ⟨⟨trivial, trivial, hI.1⟩, givenUp_dead⟩
  | tune hsame =>
    exact ⟨hI.1, hI.2.append [] (by simp) hsame.active hsame.dead hsame.notify⟩
  | opened e hkind _ hnew =>
    refine ⟨⟨fun hk => ?_, hI.1⟩, fun _ hdead => ?_⟩
    · rw [hkind] at hk
      cases hk
    · rw [hnew.2.1] at hdead
      cases hdead
  | accept k s present ok _ _ _ hkeep =>
    exact ⟨⟨trivial, trivial, hI.1⟩, hI.2.append [_, _] (by simp [Act.opens]) hkeep.1 hkeep.2.1 hkeep.2.2⟩
  | peer =>
    refine ⟨⟨trivial, hI.1⟩, fun _ _ => .inr ⟨rfl, ?_⟩⟩
    rw [List.singleton_append, History.since_cons rfl]
    exact List.mem_cons_self
  | ended e hkind hact hdead =>
    have hmark : (Act.event e none : Act Ctx).opens = false := by
      rw [Act.opens, hkind]
      rfl
    have hwhy := hI.2 hact hdead
    have hclosed : Parted ci (.event e none) h := fun _ => hwhy.imp_right And.right
    have hgone : ∀ h' : Trace Ctx, GivenUp ci h' c.gone := fun _ hactive => by cases hactive
    split
    · rename_i hnotify
      have hblamed : .dead ci ∈ since Act.opens h := hwhy.resolve_right (fun hpeer => by
        rw [hpeer.1] at hnotify
        cases hnotify)
      have hstill : .dead ci ∈ since Act.opens ([.event e none] ++ h) :=
        mem_since_append (List.forall_mem_singleton.2 hmark) hblamed
      exact ⟨⟨hstill, hclosed, hI.1⟩, hgone _⟩
    · exact ⟨⟨hclosed, hI.1⟩, hgone _⟩

theorem LineRun.parted (run : LineRun P ci h c) : Each (Parted ci) h :=
  (Star.inv (fun h c => Each (Parted ci) h ∧ GivenUp ci h c) (fun _ _ _ _ hI one => one.parted hI) run
    ⟨trivial, fun hact => by cases hact⟩).1

end

/-- `connection_opened` was reported for `ci`. -/
def Act.Opens (ci : Nat) : Act Ctx → Prop
  | .event e _ => e.kind = .connectionOpened ∧ e.ci = some ci
  | _ => False

/-- Something with the property happened since connection `ci` was opened. -/
def SinceOpened (ci : Nat) (q : Act Ctx → Prop) (t : Trace Ctx) : Prop :=
  ∃ newer a older, t = newer ++ a :: older ∧ q a ∧ ∀ b ∈ newer, ¬b.Opens ci

/-- **What ends a connection is explained.** -/
def Act.Explained : Act Ctx → Trace Ctx → Prop
  | .close ci, older => SinceOpened ci (Act.Condemns ci) older
  | .event e _, older => e.kind = .connectionClosed → ∀ ci, e.ci = some ci →
      SinceOpened ci (fun a => a.Condemns ci ∨ a = .peerClosed ci) older
  | _, _ => True

theorem Act.not_opens_of_line {ci : Nat} {a : Act Ctx} (h : a.line = some ci → a.opens = false) : ¬a.Opens ci := by
  cases a with
  | event e slot =>
    rintro ⟨hkind, hci⟩
    have hmark := h (by rw [Act.line, if_pos (.inl hkind), hci])
    rw [Act.opens, hkind] at hmark
    cases hmark
  | _ => exact id

theorem Act.not_opens_of_indoor {ci : Nat} {a : Act Ctx} (h : a.indoor = true) : ¬a.Opens ci := by
  cases a with
  | event e slot =>
    rintro ⟨hkind, -⟩
    rw [Act.indoor, hkind] at h
    cases h
  | _ => exact id

/-- Where a connection was given up on, there is a reason before it. -/
theorem sinceOpened_of_dead {ci : Nat} {t : Trace Ctx} (hemits : Each (Emits P) t)
    (hdead : .dead ci ∈ since Act.opens (lineActs ci t)) : SinceOpened ci (Act.Condemns ci) t := by
  obtain ⟨newer, older, rfl, hnewer⟩ := History.exists_of_mem_since_about hdead
  have hwhy := History.each_iff.1 hemits newer _ older rfl
  cases hwhy with
  | @dead newer' older' _ a hcond hindoor =>
    refine ⟨newer ++ .dead ci :: newer', a, older', by simp, hcond, fun b hb => ?_⟩
    rcases List.mem_append.1 hb with hb | hb
    · exact Act.not_opens_of_line (hnewer b hb)
    · rcases List.mem_cons.1 hb with rfl | hb
      · exact id
      · exact Act.not_opens_of_indoor (hindoor b hb)
  | note hnote => cases hnote

/-- **No connection ends without a reason.** -/
theorem run_ends_explained (P : Params Ctx) (inputs : List Input) : Each Act.Explained (run P inputs).trace := by
  refine History.each_iff.2 fun newer a older htrace => ?_
  have hacts := (run_ledger P inputs).acts
  have hparted := fun ci => (run_line P inputs ci).parted
  rw [htrace] at hacts hparted
  have hemits : Each (Emits P) older := hacts.suffix ((List.suffix_cons _ _).trans (List.suffix_append _ _))
  cases a with
  | close ci => exact sinceOpened_of_dead hemits ((hparted ci).at_about rfl)
  | event e slot =>
    intro hkind ci hci
    have hline : (Act.event e slot : Act Ctx).line = some ci := by rw [Act.line, if_pos (.inr hkind), hci]
    rcases (hparted ci).at_about hline hkind with hdead | hpeer
    · obtain ⟨n, why, o, he, hwhy, hn⟩ := sinceOpened_of_dead hemits hdead
      exact ⟨n, why, o, he, .inl hwhy, hn⟩
    · obtain ⟨n, o, he, hn⟩ := History.exists_of_mem_since_about hpeer
      exact ⟨n, _, o, he, .inr rfl, fun b hb => Act.not_opens_of_line (hn b hb)⟩
  | _ => trivial

end Minimosq
