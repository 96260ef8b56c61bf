import Minimosq.SlotDelivery
/-!
# The life of one connection

What may happen on one connection index, as a machine over the acts about it.  `Carry` is what the broker does with a
connection without ending it: send, give up on it, refuse it.  `LineStep` is the whole: `conn_open`, an accepted
CONNECT, `conn_closed` of the transport, teardown and `Transport::close`.  The broker is shown to move every connection
by these steps only, as it does every slot.
-/
namespace Minimosq

open History (Star)

variable {Ctx : Type} {P : Params Ctx} {ci : Nat}

/-- The acts about a connection. -/
def lineActs (ci : Nat) (t : Trace Ctx) : Trace Ctx := History.about Act.line ci t

theorem lineActs_cons_own {a : Act Ctx} (h : a.line = some ci) (t : Trace Ctx) :
    lineActs ci (a :: t) = a :: lineActs ci t := History.about_cons_own h t

theorem lineActs_cons_other {a : Act Ctx} (h : a.line ≠ some ci) (t : Trace Ctx) :
    lineActs ci (a :: t) = lineActs ci t := History.about_cons_other h t

theorem lineActs_skip {new : Trace Ctx} (h : ∀ a ∈ new, a.line ≠ some ci) (t : Trace Ctx) :
    lineActs ci (new ++ t) = lineActs ci t := History.about_skip h t

/-- **What happens on a connection that stays.**  A packet needs a session, and the connection of the one CONNACK that
refuses it is given up on. -/
inductive Carry (P : Params Ctx) (ci : Nat) (c : Conn) : Trace Ctx → Conn → Prop
  | send (pkt : Bytes) (ok : Bool) (tag : Option (Tag Ctx)) {type : PacketType}
      (hup : c.active = true ∧ c.dead = false) (hbound : c.session ≠ noSession) (htype : type ≠ .connack)
      (hpkt : IsPacket P.T.outSize type pkt) : Carry P ci c [.send ci pkt ok tag] c
  | die (hact : c.active = true) : Carry P ci c [.dead ci] { c with dead := true }
  | refuse (code : ConnackCode) (ok : Bool) (hup : c.active = true ∧ c.dead = false) (hfree : c.session = noSession)
      (hcode : code ≠ .accepted) :
      Carry P ci c [.dead ci, .send ci (buildConnack P.T.outSize false code) ok none] { c with dead := true }

/-- The connection `ci` as teardown leaves it. -/
def Conn.gone (c : Conn) : Conn := { c with active := false, dead := false, session := noSession }

/-- Both are the same connection, but for its parser and its deadline. -/
structure Conn.SameLine (c c' : Conn) : Prop where
  active : c'.active = c.active
  dead : c'.dead = c.dead
  session : c'.session = c.session
  notify : c'.notifyTransport = c.notifyTransport

/-- **Every step of a connection.** -/
inductive LineStep (P : Params Ctx) (ci : Nat) (h : Trace Ctx) (c : Conn) : Trace Ctx → Conn → Prop
  | carry {acts : Trace Ctx} {c' : Conn} (d : Carry P ci c acts c') : LineStep P ci h c acts c'
  | tune {c' : Conn} (hsame : c.SameLine c') : LineStep P ci h c [] c'
  | opened {c' : Conn} (e : Event) (hkind : e.kind = .connectionOpened) (hoff : c.active = false)
      (hnew : c'.active = true ∧ c'.dead = false ∧ c'.session = noSession ∧ c'.notifyTransport = true) :
      LineStep P ci h c [.event e none] c'
  | accept {c' : Conn} (k : Nat) (s : Session Ctx) (present ok : Bool) (hup : c.active = true ∧ c.dead = false)
      (hfree : c.session = noSession) (hbound : c'.session ≠ noSession)
      (hkeep : c'.active = c.active ∧ c'.dead = c.dead ∧ c'.notifyTransport = c.notifyTransport) :
      LineStep P ci h c [.send ci (buildConnack P.T.outSize present .accepted) ok none, .bind k ci s present] c'
  | peer (hup : c.active = true ∧ c.dead = false) :
      LineStep P ci h c [.peerClosed ci] { c with notifyTransport := false, dead := true }
  /-- Teardown; the transport is told, unless it was the one to close. -/
  | ended (e : Event) (hkind : e.kind = .connectionClosed) (hact : c.active = true) (hdead : c.dead = true) :
      LineStep P ci h c (if c.notifyTransport then [.close ci, .event e none] else [.event e none]) c.gone

/-- The whole life of connection `ci`, so far. -/
def LineRun (P : Params Ctx) (ci : Nat) (h : Trace Ctx) (c : Conn) : Prop := Star (LineStep P ci) [] {} h c

section
variable {c c' : Conn} {h h' : Trace Ctx}

theorem Carry.refl_of_inactive (run : Star (fun _ => Carry P ci) h c h' c') (hoff : c.active = false) :
    h' = h ∧ c' = c := by
  refine run.inv (fun h₁ c₁ => h₁ = h ∧ c₁ = c) ?_ ⟨rfl, rfl⟩
  rintro _ _ acts c₂ ⟨rfl, rfl⟩ d
  cases d with
  | send _ _ _ hup => exact absurd hup.1 (by simp [hoff])
  | die hact => exact absurd hact (by simp [hoff])
  | refuse _ _ hup => exact absurd hup.1 (by simp [hoff])

theorem Carry.once {acts : Trace Ctx} (d : Carry P ci c acts c') (h : Trace Ctx) :
    Star (fun _ => Carry P ci) h c (acts ++ h) c' := .single d

theorem Conn.SameLine.star (hsame : c.SameLine c') (h : Trace Ctx) : Star (LineStep P ci) h c h c' :=
  show Star _ _ _ ([] ++ h) _ from .single (.tune hsame)

theorem Carry.lines (run : Star (fun _ => Carry P ci) h c h' c') : Star (LineStep P ci) h c h' c' :=
  run.mono (fun _ _ _ _ d => .carry d)

end

end Minimosq
