import Minimosq.Account
import Minimosq.Bed
import Minimosq.Lifecycle
import Minimosq.RetainedMap
/-!
# Genuine — no message out of nowhere

Whatever PUBLISH the broker hands to its transport, first or repeated, at once or after a long wait in a queue, is a
message that was published: with its topic and its payload, at no higher QoS than it was published with, for a session
with a filter that matches.  Its RETAIN flag is set when it came from the retained store, and it then was the newest
message retained for its topic when it was offered (`run_publish_genuine`).
-/
namespace Minimosq

open History (Each)

variable {Ctx : Type} {P : Params Ctx} {k : Nat} {p : PublishPacket}

theorem Stored.newest {e : Entry} {t : Trace Ctx} (h : Stored P e t) :
    (retains t).find? (fun m => m.topic = e.topic) = some e := (storeOf_represents P.T (retains t)).newest h

end Minimosq
