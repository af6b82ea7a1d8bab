import MitosNetwork.Common.Proc
import MitosNetwork.Dhcp.Lease
import MitosNetwork.Ipc.Messages
import MitosNetwork.Sharing.DhcpServer

/-!
# What the daemon asks of the outside

One constructor of `Call` for each operation of the kernel, of the file system, of another program
or of the network that the manager thread waits for, with its arguments, and `Answer` for what comes
back. The order in which a hash map is iterated is asked for as well. Every answer is possible: a
`World` is any choice of them.
-/

namespace MitosNetwork

/-- `wifi::wifi::EapConfig`. -/
structure EapConfig where
  identity : Option String
  caCertPath : Option String
  clientCertPath : Option String
  privateKeyPath : Option String
  privateKeyPassword : Option String
  eapMethod : Option String
  eapPhase2 : Option String

inductive RemoveOutcome where
  | removed
  | missing
  | failed (message : String)
deriving DecidableEq

inductive Call where
  -- the kernel
  | listLinks
  | listAddresses
  | sysfs
  | bringUp (index : Int32)
  | waitForCarrier (index : Int32)
  | flush (index : Int32)
  | addAddress (index : Int32) (ip : IpAddr) (prefixlen : UInt8)
  | applyDefaultRoute (index : Int32) (gateway : IpAddr) (metric : UInt32)
      (protocol : RouteProtocol)
  | listRoutes (family : Family)
  | listNeighbors
  | setIpv4Forwarding (enabled : Bool)
  -- iteration orders and the clock
  | deviceOrder
  | activeOrder
  | interfaceOrder
  | now
  -- DHCP
  | dhcpAcquire (ifname : String) (index : Int32)
  | dhcpRenew (ifname : String) (lease : Lease)
  | dhcpRelease (ifname : String)
  | dhcp6Release (ifname : String)
  | getMac (ifname : String)
  | dhcp6StatefulLease (ifname : String) (mac : Dhcp4.Mac)
  | dhcp6StatelessInfo (ifname : String) (mac : Dhcp4.Mac)
  -- files
  | loadProfiles
  | profileTimes
  | writeProfile (profile : ConnectionProfile)
  | removeProfile (id : String)
  | touchProfile (id : String)
  | readLease (ifname : String)
  | writeLease (ifname : String) (lease : Lease)
  | writeLease6 (ifname : String) (lease : Lease6)
  | readResolvConf
  | writeResolvConf (path : String) (servers : List IpAddr) (search : List String)
  | readConfig
  | readProxyConfig
  | writeProxyConfig (config : ProxyConfig)
  | writeProxyScript (text : String)
  | removeProxyScript
  | writeHostapdConfig (ifname text : String)
  | removeHostapdConfig (ifname : String)
  | audit (actor action detail : String)
  -- the secrets backend
  | secretGet (owner key : String)
  | secretSet (owner key value : String)
  | secretDeleteAll (owner : String)
  -- other programs
  | nft (ruleset : String)
  | spawnHostapd (ifname : String)
  | killHostapd (ifname : String)
  | startDhcpServer (config : DhcpServer.DhcpServerConfig)
  | bluetoothctl (args : List String)
  | scanWifi (ctrlDir ifname : String)
  | scanResults (ctrlDir ifname : String)
  | wifiConnect (ifname ssid : String) (security : SecurityType) (passphrase : Option String)
      (eap : Option EapConfig)
  | wifiDisconnect (ifname : String)
  | wifiForget (ifname ssid : String)
  | vpnConnect (kind : VpnKind) (config profileId : String)
  | vpnDisconnect (kind : VpnKind) (ifname : String)
  -- the network and the clients
  | checkConnectivity (url : String)
  | fetchPac (url : String)
  | evaluatePac (script url host : String)
  | liveClients

def Call.Answer : Call → Type
  | listLinks => Result (List Interface)
  | listAddresses => Result (List LinkAddress)
  | sysfs => String → Sysfs
  | bringUp _ | waitForCarrier _ | flush _ | addAddress _ _ _
  | applyDefaultRoute _ _ _ _ => Result Unit
  | listRoutes _ => Result (List Route)
  | listNeighbors => Result (List Neighbor)
  | setIpv4Forwarding _ => Result Unit
  | deviceOrder => Order NetworkDevice
  | activeOrder => Order (Σ _ : String, ActiveConnection)
  | interfaceOrder => Order (Σ _ : String, InterfaceConfig)
  | now => ℕ
  | dhcpAcquire _ _ | dhcpRenew _ _ => Result Lease
  | dhcpRelease _ | dhcp6Release _ => Result Unit
  | getMac _ => Result Dhcp4.Mac
  | dhcp6StatefulLease _ _ => Result Lease6
  | dhcp6StatelessInfo _ _ => Result StatelessInfo
  | loadProfiles => Result (List ConnectionProfile)
  | profileTimes => String → Option ℤ
  | writeProfile _ => Result Unit
  | removeProfile _ => RemoveOutcome
  | touchProfile _ => Unit
  | readLease _ => Result (Option Lease)
  | writeLease _ _ | writeLease6 _ _ => Result Unit
  | readResolvConf => Result String
  | writeResolvConf _ _ _ => Result Unit
  | readConfig => Config.Files
  | readProxyConfig | writeProxyConfig _ | writeProxyScript _ => Result Unit
  | removeProxyScript => RemoveOutcome
  | writeHostapdConfig _ _ => Result Unit
  | removeHostapdConfig _ | audit _ _ _ => Unit
  | secretGet _ _ => Result (Option String)
  | secretSet _ _ _ | secretDeleteAll _ => Result Unit
  | nft _ => Firewall.NftOutcome
  | spawnHostapd _ => Except String Unit
  | killHostapd _ => Unit
  | startDhcpServer _ => Result Unit
  | bluetoothctl _ | scanWifi _ _ | scanResults _ _ => Result String
  | wifiConnect _ _ _ _ _ | wifiDisconnect _ | wifiForget _ _ => Result Unit
  | vpnConnect _ _ _ => Result String
  | vpnDisconnect _ _ => Result Unit
  | checkConnectivity _ => Result ConnectivityState
  | fetchPac _ | evaluatePac _ _ _ => Result String
  | liveClients => ℕ → Bool

/-- The call may bring name servers, or it writes resolv.conf. -/
def Call.isDns : Call → Bool
  | dhcpAcquire _ _ | dhcp6StatefulLease _ _ | dhcp6StatelessInfo _ _
  | writeResolvConf _ _ _ => true
  | _ => false

def Call.isAudit : Call → Bool
  | audit _ _ _ => true
  | _ => false

/-- The call has no part in name servers or in the audit log. -/
def Call.isPlain (c : Call) : Bool := !c.isDns && !c.isAudit

theorem Call.isDns_of_isPlain {c : Call} (h : c.isPlain = true) : c.isDns = false := by
  rw [isPlain, Bool.and_eq_true, Bool.not_eq_true'] at h
  exact h.1

theorem Call.isAudit_of_isPlain {c : Call} (h : c.isPlain = true) : c.isAudit = false := by
  rw [isPlain, Bool.and_eq_true, Bool.not_eq_true', Bool.not_eq_true'] at h
  exact h.2

def Call.link : Call → Option Int32
  | flush index | addAddress index _ _ => some index
  | _ => none

def Call.leaseOf : Call → Option String
  | writeLease ifname _ | writeLease6 ifname _ | dhcpRelease ifname
  | dhcp6Release ifname => some ifname
  | _ => none

/-- The call changes neither the addresses of a link nor a lease. -/
def Call.isOffLink (c : Call) : Bool := c.link.isNone && c.leaseOf.isNone

theorem Call.of_isOffLink {c : Call} (h : c.isOffLink = true) :
    c.link = none ∧ c.leaseOf = none := by
  simpa only [isOffLink, Bool.and_eq_true, Option.isNone_iff_eq_none] using h

def Call.hostapdOf : Call → Option String
  | writeHostapdConfig ifname _ | removeHostapdConfig ifname | spawnHostapd ifname
  | killHostapd ifname => some ifname
  | _ => none

theorem Call.of_hostapdOf {c : Call} {ifname : String} (h : c.hostapdOf = some ifname) :
    c.isPlain = true ∧ c.isOffLink = true := by
  cases c <;> first | exact ⟨rfl, rfl⟩ | cases h

/-- The call is plain, and it is about neither the addresses of a link nor a lease nor hostapd. -/
def Call.isInert (c : Call) : Bool := c.isPlain && c.isOffLink && c.hostapdOf.isNone

theorem Call.of_isInert {c : Call} (h : c.isInert = true) :
    c.isPlain = true ∧ c.isOffLink = true := by
  rw [isInert, Bool.and_eq_true, Bool.and_eq_true] at h
  exact h.1

theorem Call.hostapdOf_of_isInert {c : Call} (h : c.isInert = true) : c.hostapdOf = none := by
  rw [isInert, Bool.and_eq_true, Option.isNone_iff_eq_none] at h
  exact h.2

/-- The same outside, with the device registry iterated in this order. -/
def withDeviceOrder (w : World Call.Answer) (order : Order NetworkDevice) : World Call.Answer :=
  fun k c =>
    match c with
    | .deviceOrder => order
    | c => w k c

/-- The same outside, but no link comes up. -/
def withoutCarrier (w : World Call.Answer) : World Call.Answer := fun k c =>
  match c with
  | .waitForCarrier _ => Except.error (.timeout "no carrier")
  | c => w k c

/-- A machine with these links on which nothing happens by itself. Flushing a link has the given
outcome; everything else that only has to be done succeeds, and nothing is there to be read. -/
def calm (links : List Interface) (flushed : Result Unit) : (c : Call) → c.Answer
  | .listLinks => Except.ok links
  | .listAddresses => Except.ok []
  | .sysfs => fun _ => ⟨false, false, true, none⟩
  | .bringUp _ | .waitForCarrier _ => Except.ok ()
  | .flush _ => flushed
  | .addAddress _ _ _ | .applyDefaultRoute _ _ _ _ => Except.ok ()
  | .listRoutes _ | .listNeighbors => Except.ok []
  | .setIpv4Forwarding _ => Except.ok ()
  | .deviceOrder | .activeOrder | .interfaceOrder => Order.stored
  | .now => (0 : ℕ)
  | .dhcpAcquire _ _ | .dhcpRenew _ _ => Except.error (.timeout "")
  | .dhcpRelease _ | .dhcp6Release _ => Except.ok ()
  | .getMac _ => Except.error (.io "")
  | .dhcp6StatefulLease _ _ | .dhcp6StatelessInfo _ _ => Except.error (.timeout "")
  | .loadProfiles => Except.ok []
  | .profileTimes => fun _ => none
  | .writeProfile _ => Except.ok ()
  | .removeProfile _ => RemoveOutcome.removed
  | .touchProfile _ => ()
  | .readLease _ => Except.ok none
  | .writeLease _ _ | .writeLease6 _ _ => Except.ok ()
  | .readResolvConf => Except.error (.io "")
  | .writeResolvConf _ _ _ => Except.ok ()
  | .readConfig => ⟨.ok none, .ok none, .ok none, .ok none⟩
  | .readProxyConfig | .writeProxyConfig _ | .writeProxyScript _ => Except.ok ()
  | .removeProxyScript => RemoveOutcome.removed
  | .writeHostapdConfig _ _ => Except.ok ()
  | .removeHostapdConfig _ | .audit _ _ _ => ()
  | .secretGet _ _ => Except.ok none
  | .secretSet _ _ _ | .secretDeleteAll _ => Except.ok ()
  | .nft _ => Firewall.NftOutcome.loaded
  | .spawnHostapd _ => Except.ok ()
  | .killHostapd _ => ()
  | .startDhcpServer _ => Except.ok ()
  | .bluetoothctl _ | .scanWifi _ _ | .scanResults _ _ => Except.ok ""
  | .wifiConnect _ _ _ _ _ | .wifiDisconnect _ | .wifiForget _ _ => Except.ok ()
  | .vpnConnect _ _ _ => Except.error (.vpn "")
  | .vpnDisconnect _ _ => Except.ok ()
  | .checkConnectivity _ => Except.ok .unknown
  | .fetchPac _ => Except.error (.io "")
  | .evaluatePac _ _ _ => Except.error (.other "")
  | .liveClients => fun _ => true

/-- A program on a part of the daemon's state. -/
abbrev Prog (σ α : Type) := Proc Call.Answer Empty σ α

/-- A program on a part of the daemon's state that may fail. -/
abbrev TryProg (σ α : Type) := Try Call.Answer Empty NetworkError σ α

def call {N σ : Type} (c : Call) : Proc Call.Answer N σ c.Answer := Proc.call c

/-- A program whose result is a `Result`, as one that fails with its error. -/
def attempt {σ α : Type} (m : Prog σ (Result α)) : TryProg σ α := Try.ofProc m

section Keeps

variable {w : World Call.Answer} {σ N α : Type} {I : σ → Prop}

theorem keeps_call (c : Call) : Proc.Keeps w I (call c : Proc Call.Answer N σ c.Answer) := .call c

theorem keeps_attempt {m : Prog σ (Result α)} (hm : Proc.Keeps w I m) :
    Try.Keeps w I (attempt m) := .ofProc hm

end Keeps

/-- The program has no part in name servers, in the audit log, in the addresses of a link, in a
lease or in hostapd. -/
abbrev Inert {N σ α : Type} (m : Proc Call.Answer N σ α) : Prop :=
  m.Makes fun c => c.isInert = true

theorem makes_call {N σ : Type} {R : Call → Prop} {c : Call} (hc : R c) :
    Proc.Makes R (call c : Proc Call.Answer N σ c.Answer) := .call hc

end MitosNetwork
