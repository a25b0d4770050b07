/-
  Converge.TrafficPolicy — the traffic policy next to a service.
-/
import Converge.Child
import Converge.Naming

namespace Converge

/-- The policy of a spec for a service, placed beside the service. -/
def Child.trafficPolicy (root : Root) (ns service : String) (b : Balancing) : Child :=
  Child.make root ns (Naming.policy service) [(nameLabel, root.name)]
    (.destinationRule { host := Naming.host service ns, algorithm := b.algorithm, pool := b.pool })

end Converge
