import Minimosq.Chunking
/-!
# The states packets arrive in

One `conn_data` may hold many packets.  `arrivals` are the states in which `on_packet` is entered during it, each with
its packet, so that a property of what a handler does can be stated of every state it is ever called in.
-/
namespace Minimosq

variable {Ctx : Type} {P : Params Ctx} {σ : Broker Ctx} {ci : Nat}

/-- A packet, and the state `on_packet` finds when it is entered with it. -/
structure Arrival (Ctx : Type) where
  state : Broker Ctx
  firstByte : UInt8
  body : Bytes

/-- A callback that also keeps what it is entered with, latest first. -/
def attending {Ctx : Type} (onPacket : UInt8 → Bytes → Broker Ctx → Bool × Broker Ctx) (firstByte : UInt8)
    (body : Bytes) (r : Broker Ctx × List (Arrival Ctx)) : Bool × Broker Ctx × List (Arrival Ctx) :=
  ((onPacket firstByte body r.1).1, (onPacket firstByte body r.1).2, ⟨r.1, firstByte, body⟩ :: r.2)

/-- Every packet of one `conn_data`, latest first, with the state it arrives in. -/
def Broker.arrivals (P : Params Ctx) (ci : Nat) (data : Bytes) (nowMs : Nat) (σ : Broker Ctx) : List (Arrival Ctx) :=
  if decide (P.T.maxConnections ≤ ci) || !(σ.conns ci).active || (σ.conns ci).dead then []
  else
    let σ₁ := σ.beginData P ci nowMs
    ((σ₁.conns ci).parser.feed P.T.maxPacketSize (attending (Broker.onPacket P ci)) data (σ₁.setParser ci {}, [])).2.2.2

/-- The packet can arrive so on connection `ci`, in some run. -/
def Arrives (P : Params Ctx) (ci : Nat) (a : Arrival Ctx) : Prop :=
  ∃ inputs data nowMs, a ∈ (run P inputs).arrivals P ci data nowMs

/-- Attending the packets does not change what is fed. -/
theorem feed_attending (maxBody : Nat) (onPacket : UInt8 → Bytes → Broker Ctx → Bool × Broker Ctx) (p : FrameParser)
    (data : Bytes) (r : Broker Ctx × List (Arrival Ctx)) : let fed := p.feed maxBody (attending onPacket) data r
    p.feed maxBody onPacket data r.1 = (fed.1, fed.2.1, fed.2.2.1) :=
  FrameParser.feed_project maxBody onPacket Prod.fst (fun _ _ _ => rfl) (fun _ _ _ => rfl) p data r

/-- **What an arriving packet finds**: the tables linked, and its own connection alive. -/
structure Arrived (P : Params Ctx) (ci : Nat) (σ : Broker Ctx) (a : Arrival Ctx) : Prop where
  course : Course P σ a.state
  linked : Linked P none a.state
  active : (a.state.conns ci).active = true
  alive : (a.state.conns ci).dead = false
  fits : a.body.length ≤ P.T.maxPacketSize ∧ a.body.length ≤ maxRemainingLength

/-- **Every packet arrives so, and the rest of the call goes on from where it was handled.** -/
theorem arrivals_arrived (h : Sound P σ) (ci : Nat) (data : Bytes) (nowMs : Nat) :
    ∀ a ∈ σ.arrivals P ci data nowMs, Arrived P ci σ a ∧
      Course P (a.state.onPacket P ci a.firstByte a.body).2 (σ.connData P ci data nowMs).2 := by
  by_cases hup : ci < P.T.maxConnections ∧ (σ.conns ci).active = true
  · have hdead := h.flushed ci hup.2
    have hb := beginData_spec h.linked h.parsers ci nowMs
    have h₀ := hb.setParser (FrameParser.held_fresh _)
    have hfed := (FrameParser.feed_rule P.T.maxPacketSize (attending (Broker.onPacket P ci))
      (fun r => (r.1.conns ci).dead) (fun f body r => onPacket_alive P ci f body r.1)
      (fun r => (Course P σ r.1 ∧ Linked P none r.1 ∧ (r.1.conns ci).active = true) ∧
        ∀ a ∈ r.2, Arrived P ci σ a ∧ Course P (a.state.onPacket P ci a.firstByte a.body).2 r.1)
      (fun f body r hlen hr hd => by
        obtain ⟨⟨hC, hL, hact⟩, hall⟩ := hr
        have hone := onPacket_handled hL hact hd f hlen.1
        refine ⟨⟨hC.trans hone.toCourse, hone.linked, hone.active.trans hact⟩, fun a ha => ?_⟩
        rcases List.mem_cons.1 ha with rfl | ha
        · exact ⟨⟨hC, hL, hact, hd, hlen⟩, .refl P _⟩
        · exact ⟨(hall a ha).1, (hall a ha).2.trans hone.toCourse⟩)
      (hb.parsers ci) data (s := ((σ.beginData P ci nowMs).setParser ci {}, [])) (h₀.dead.trans hdead)
      ⟨⟨h₀.toCourse, h₀.linked, h₀.active.trans hup.2⟩, List.forall_mem_nil _⟩).1
    rw [Broker.arrivals, if_neg (by simp [Nat.not_le.2 hup.1, hup.2, hdead]), connData_eq hup.1 hup.2 hdead,
      feed_attending _ _ _ _ (_, [])]
    dsimp only
    generalize FrameParser.feed P.T.maxPacketSize (attending (Broker.onPacket P ci)) _ _ _ = r at hfed ⊢
    obtain ⟨⟨-, hL, hact⟩, hall⟩ := hfed
    exact fun a ha => ⟨(hall a ha).1, (hall a ha).2.trans (endData_course (r := (r.1, r.2.1, r.2.2.1)) hL hact)⟩
  · rw [Broker.arrivals, if_pos (Bool.or_eq_true_iff.2 (.inl (unknown_of_inactive hup)))]
    exact List.forall_mem_nil _

/-- The handler of a packet's type is called in the state the packet arrived in, its arrival noted. -/
theorem onPacket_dispatch {ci : Nat} {firstByte : UInt8} (body : Bytes)
    (hflags : fixedFlagsValid (packetType firstByte) (packetFlags firstByte) = true)
    (hbound : (σ.conns ci).session ≠ noSession) : (σ.onPacket P ci firstByte body).2 =
      (σ.emit (.packet ci firstByte body)).dispatch P ci firstByte body := by
  simp [Broker.onPacket, hflags, hbound]

end Minimosq
