import MitosNetwork.Common.Table
import MitosNetwork.Ip.Address

/-!
# Configuration

`src/config`: the sections of the configuration, the compiled-in defaults, the overlay of the files
found on disk and the check of the result. Reading the files is left to the caller, who passes the
sections that were there.
-/

namespace MitosNetwork

inductive AddressMethod where
  | auto
  | manual
  | disabled
  | linkLocal
deriving DecidableEq

inductive Ipv6Method where
  | slaac
  | slaacWithStatelessDhcp
  | dhcp6
deriving DecidableEq

inductive DnsMode where
  | auto
  | manual
  | none
deriving DecidableEq

/-- The fields of a section are those that are read. -/
structure GeneralConfig where
  unmanagedDevices : List String
  connectivityCheckUrl : String
  socketPath : String
deriving DecidableEq

structure InterfaceConfig where
  method : AddressMethod
  addresses : List String
deriving DecidableEq

structure DnsConfig where
  mode : DnsMode
  servers : List String
  searchDomains : List String
  resolvConfPath : String
deriving DecidableEq

structure WirelessConfig where
  scanIntervalSecs : UInt64
  ctrlInterfaceDir : String
deriving DecidableEq

structure NetworkConfig where
  general : GeneralConfig
  interfaces : Table String InterfaceConfig
  dns : DnsConfig
  wireless : WirelessConfig

namespace Config

def defaultResolvConf : String := "/etc/resolv.conf"

/-- `default_config`. -/
def defaultConfig : NetworkConfig where
  general :=
    { unmanagedDevices := ["lo"]
      connectivityCheckUrl := "http://connectivity.mitos-os.org/check"
      socketPath := "/run/mitos-network/network.sock" }
  interfaces := ∅
  dns :=
    { mode := .auto
      servers := ["1.1.1.1", "9.9.9.9"]
      searchDomains := []
      resolvConfPath := defaultResolvConf }
  wireless :=
    { scanIntervalSecs := 60
      ctrlInterfaceDir := "/run/mitos-network/wpa" }

def validateServer (server : String) : Result Unit :=
  match IpAddr.parse server.toList with
  | some _ => .ok ()
  | none => .error (.config ("invalid DNS server address: " ++ server))

/-- The checks on one `[interface]` table. -/
def validateInterface (name : String) (iface : InterfaceConfig) : Result Unit := do
  if name.isEmpty then throw (.config "interface name must not be empty")
  if iface.method = .manual ∧ iface.addresses.isEmpty then
    throw (.config ("interface '" ++ name ++ "' uses method = manual but lists no addresses"))
  iface.addresses.forM fun addr =>
    match Address.parseCidr addr with
    | .ok _ => pure ()
    | .error _ =>
      throw (.config ("interface '" ++ name ++ "': invalid address '" ++ addr ++ "'"))

/-- `validate`; the interfaces are checked in the order of the table. -/
def validate (order : Order (Σ _ : String, InterfaceConfig)) (cfg : NetworkConfig) :
    Result Unit := do
  if cfg.general.socketPath.isEmpty then
    throw (.config "general.socket-path must not be empty")
  cfg.dns.servers.forM validateServer
  (order.arrange cfg.interfaces.entries).forM fun e => validateInterface e.1 e.2
  if cfg.wireless.scanIntervalSecs = 0 then
    throw (.config "wireless.scan-interval-secs must be > 0")

/-- What `parse_optional` returns for each of the four files. -/
structure Files where
  general : Result (Option GeneralConfig)
  interfaces : Result (Option (Table String InterfaceConfig))
  dns : Result (Option DnsConfig)
  wireless : Result (Option WirelessConfig)

/-- `load`: the sections found on disk over the defaults, checked. -/
def load (files : Files) (order : Order (Σ _ : String, InterfaceConfig)) :
    Result NetworkConfig := do
  let general ← files.general
  let interfaces ← files.interfaces
  let dns ← files.dns
  let wireless ← files.wireless
  let cfg : NetworkConfig :=
    { general := general.getD defaultConfig.general
      interfaces := interfaces.getD defaultConfig.interfaces
      dns := dns.getD defaultConfig.dns
      wireless := wireless.getD defaultConfig.wireless }
  validate order cfg
  return cfg

end Config

end MitosNetwork
