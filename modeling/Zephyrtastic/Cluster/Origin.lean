import Zephyrtastic.Cluster.Reconcile
import Zephyrtastic.Hlc.Causality

/-!
# The origin marker and local edits

The store and the document each run a clock of their own, and both mint with this
node's id; so an edit can be given the very stamp of the document's row.
-/

namespace Zephyrtastic

open Option ConfigStore

namespace Hlc

end Hlc

namespace Cluster

open List Run

section Origin
variable {nd : Node} {Cfg : Type} (cd : Codec Cfg)
variable (m : Machine nd Cfg)

def Machine.edit (env : Env) (channelsOk : Bool) (cfg : Cfg) : Option Stamp × Machine nd Cfg :=
  let r := m.store.setConfigLocal cd nd.me env.epochMs channelsOk cfg
  (r.1, { m with store := r.2 })

variable {cd m}

end Origin

end Cluster

end Zephyrtastic
