import MitosNetwork.Device.Device
import MitosNetwork.Ip.Route

/-!
# Connectivity and diagnostics

`src/connectivity/internet.rs`, `src/manager/state.rs`, `read_current` of `src/dns/resolver.rs` and
the report of `src/monitoring/diagnostics.rs`.
-/

namespace MitosNetwork

inductive ConnectivityState where
  | unknown
  | none
  | portal
  | limited
  | full
deriving DecidableEq

/-- The state of the daemon as a whole. `overall_state` never reports `unknown`. -/
inductive NetworkState where
  | unknown
  | unavailable
  | disconnected
  | connecting
  | connectedLocal
  | connected
  | limited
  | portal
  | disconnecting
deriving DecidableEq

def NetworkState.ofConnectivity : ConnectivityState → NetworkState
  | .full => connected
  | .limited => limited
  | .portal => portal
  | .none => connectedLocal
  | .unknown => connectedLocal

/-- `overall_state`. -/
def overallState (devices : List NetworkDevice) (connectivity : ConnectivityState) : NetworkState :=
  if devices.any fun d => d.state = .connecting || d.state = .ipConfiguring then .connecting
  else if devices.any fun d => d.state = .deactivating then .disconnecting
  else if devices.any fun d => d.state = .activated then .ofConnectivity connectivity
  else if !(devices.any fun d => d.state ≠ .unmanaged) then .unavailable
  else if devices.any fun d => d.state ≠ .unavailable && d.state ≠ .unmanaged then .disconnected
  else .unavailable

/-! ## The report -/

inductive NeighborState where
  | incomplete
  | reachable
  | stale
  | delay
  | probe
  | failed
  | permanent
  | unknown
deriving DecidableEq

structure Neighbor where
  ifindex : Int32
  ip : IpAddr
  mac : Option Dhcp4.Mac
  state : NeighborState

structure ResolvConf where
  nameservers : List IpAddr
  search : List String

structure RouteSummary where
  destination : String
  gateway : Option String
  interfaceIndex : Int32
  metric : Option UInt32

structure NeighborSummary where
  ip : String
  mac : Option String
  interfaceIndex : Int32
  reachable : Bool

structure DnsSummary where
  nameservers : List String
  search : List String

structure DiagnosticReport where
  devices : List NetworkDevice
  routesV4 : List RouteSummary
  routesV6 : List RouteSummary
  dns : DnsSummary
  neighbors : List NeighborSummary
  connectivity : ConnectivityState

namespace Diagnostics

/-- One line of `/etc/resolv.conf` in `read_current`. -/
def readLine (conf : ResolvConf) (line : List Char) : ResolvConf :=
  let line := (Text.trim (String.ofList line)).toList
  match Text.stripPrefix? "nameserver ".toList line with
  | some rest =>
    match IpAddr.parse (Text.trim (String.ofList rest)).toList with
    | some ip => { conf with nameservers := conf.nameservers ++ [ip] }
    | none => conf
  | none =>
    match Text.stripPrefix? "search ".toList line with
    | some rest => { conf with search := (Text.splitWhitespace rest).map String.ofList }
    | none => conf

/-- `read_current` on the text of the file. -/
def readCurrent (text : String) : ResolvConf := (Text.lines text).foldl readLine ⟨[], []⟩

def summarizeRoute (r : Route) : RouteSummary where
  destination :=
    match r.destination with
    | some (ip, len) => ip.display ++ "/" ++ toString len.toNat
    | none => "default"
  gateway := r.gateway.map IpAddr.display
  interfaceIndex := r.oifIndex
  metric := r.metric

def summarizeNeighbor (n : Neighbor) : NeighborSummary where
  ip := n.ip.display
  mac := n.mac.map Discovery.formatMac
  interfaceIndex := n.ifindex
  reachable := n.state = .reachable || n.state = .permanent

/-- The report that `collect` puts together; an unreadable file counts as empty. -/
def report (devices : List NetworkDevice) (connectivity : ConnectivityState)
    (routesV4 routesV6 : List Route) (resolvConf : Result String) (neighbors : List Neighbor) :
    DiagnosticReport :=
  let dns :=
    match resolvConf with
    | .ok text => readCurrent text
    | .error _ => ⟨[], []⟩
  { devices
    routesV4 := routesV4.map summarizeRoute
    routesV6 := routesV6.map summarizeRoute
    dns := ⟨dns.nameservers.map IpAddr.display, dns.search⟩
    neighbors := neighbors.map summarizeNeighbor
    connectivity }

end Diagnostics

end MitosNetwork
