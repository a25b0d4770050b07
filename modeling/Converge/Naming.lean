/-
  Converge.Naming — the names of children.

  Every name is the root's name with the child's role added, so that roots of
  one kind with different names never share a child.
-/

namespace Converge.Naming

/-! ## §1. Children of a SchedulerInstall -/

/-- The endpoint picker. -/
def picker (root : String) : String := root ++ "-epp"

/-- The service in front of the simulators. -/
def proxy (root : String) : String := root ++ "-proxy"

/-- The gateway through which requests arrive. -/
def gateway (root : String) : String := root ++ "-gateway"

/-- The route from the gateway to the service or a pool. -/
def route (root : String) : String := root ++ "-route"

/-- The leave for the route to cross namespaces. -/
def grant (root : String) : String := root ++ "-allow-httproute"

/-! ## §2. Children of a SimulatorDeployment -/

/-- The endpoint picker. -/
def simPicker (root : String) : String := root ++ "-sim-epp"

/-- The service of simulators that do not run in stages. -/
def simProxy (root : String) : String := root ++ "-sim-proxy"

/-- The standard gateway. -/
def simGateway (root : String) : String := root ++ "-sim-gateway"

/-- The Istio gateway. -/
def simIstioGateway (root : String) : String := root ++ "-sim-gateway-istio"

/-- The deployment and the service of a stage. -/
def stage (root stage : String) : String := "ms-sim-" ++ root ++ "-" ++ stage

/-- The deployment of simulators that do not run in stages. -/
def unstaged (root : String) : String := stage root "decode"

/-! ## §3. Children of both -/

/-- The config map of a picker. -/
def pickerConfig (picker : String) : String := picker ++ "-config"

/-- The traffic policy of a service. -/
def policy (service : String) : String := service ++ "-lb"

/-- The name of a service inside the cluster. -/
def host (service ns : String) : String := service ++ "." ++ ns ++ ".svc.cluster.local"

end Converge.Naming
