import MitosNetwork.Common.Table
import MitosNetwork.Dhcp.Dhcp4
import MitosNetwork.Ip.Address

/-!
# Network devices

`src/device/device.rs`, the pure part of `src/device/discovery.rs` and the registry of
`src/device/manager.rs`. What the kernel reports about a link (`Interface`, `Address`, `Sysfs`) is
turned into a `NetworkDevice`; the registry keeps devices under their own names, and a refresh takes
the scanned devices over while it preserves the daemon's own policy state.
-/

namespace MitosNetwork

inductive DeviceType where
  | ethernet
  | wifi
  | loopback
  | bridge
  | bond
  | vlan
  | tunnel
  | vpn
  | bluetooth
  | virtual
  | unknown
deriving DecidableEq

/-- The text of `Display`. -/
def DeviceType.display : DeviceType → String
  | ethernet => "ethernet"
  | wifi => "wifi"
  | loopback => "loopback"
  | bridge => "bridge"
  | bond => "bond"
  | vlan => "vlan"
  | tunnel => "tunnel"
  | vpn => "vpn"
  | bluetooth => "bluetooth"
  | virtual => "virtual"
  | unknown => "unknown"

inductive DeviceState where
  | unmanaged
  | unavailable
  | disconnected
  | connecting
  | ipConfiguring
  | activated
  | deactivating
  | failed
deriving DecidableEq

structure NetworkDevice where
  name : String
  index : UInt32
  deviceType : DeviceType
  state : DeviceState
  macAddress : Option String
  mtu : UInt32
  ipv4Addresses : List String
  ipv6Addresses : List String
  carrier : Bool
  driver : Option String
  activeConnection : Option String
deriving DecidableEq

/-! ## Discovery -/

/-- `ip::interface::Interface`; the operational state is not read. -/
structure Interface where
  index : Int32
  name : String
  flags : UInt32
  mtu : UInt32
  hwaddr : Option Dhcp4.Mac
  kind : Option String

namespace Interface

def isUp (iface : Interface) : Bool := iface.flags &&& 0x1 != 0

def hasCarrier (iface : Interface) : Bool := iface.flags &&& 0x40 != 0

def isLoopback (iface : Interface) : Bool := iface.flags &&& 0x8 != 0

end Interface

/-- `ip::address::Address`; the label is not read. -/
structure LinkAddress where
  index : Int32
  ip : IpAddr
  prefixlen : UInt8

/-- `format!("{}/{}", a.ip, a.prefixlen)`. -/
def LinkAddress.cidr (a : LinkAddress) : String :=
  a.ip.display ++ "/" ++ toString a.prefixlen.toNat

/-- What `/sys/class/net/<name>` says about a link. -/
structure Sysfs where
  wireless : Bool
  phy80211 : Bool
  device : Bool
  driver : Option String

namespace Discovery

/-- The kinds that `classify` names; every other kind is virtual. -/
def kindType (kind : String) : DeviceType :=
  if kind = "bridge" then .bridge
  else if kind = "bond" then .bond
  else if kind = "vlan" then .vlan
  else if kind = "wireguard" then .vpn
  else if kind ∈ ["gre", "gretap", "ipip", "sit", "vxlan", "tun", "tap"] then .tunnel
  else .virtual

/-- `classify`. -/
def classify (sys : Sysfs) (iface : Interface) : DeviceType :=
  if iface.isLoopback then .loopback
  else
    match iface.kind with
    | some kind => kindType kind
    | none =>
      if sys.wireless || sys.phy80211 then .wifi
      else if "bnep".toList.isPrefixOf iface.name.toList then .bluetooth
      else if sys.device then .ethernet
      else .unknown

/-- `{b:02x}`. -/
def hexByte (b : UInt8) : String := if b < 16 then "0" ++ hexText b.toNat else hexText b.toNat

/-- `format_mac`. -/
def formatMac (mac : Dhcp4.Mac) : String := ":".intercalate ((Dhcp4.macBytes mac).map hexByte)

/-- The device that `scan` builds from one interface. -/
def scanned (addrs : List LinkAddress) (sysfs : String → Sysfs) (iface : Interface) :
    NetworkDevice :=
  let own := addrs.filter fun a => a.index = iface.index
  { name := iface.name
    index := iface.index.toUInt32
    deviceType := classify (sysfs iface.name) iface
    state := if iface.isUp && iface.hasCarrier then .disconnected else .unavailable
    macAddress := iface.hwaddr.map formatMac
    mtu := iface.mtu
    ipv4Addresses := (own.filter fun a => a.ip.isIpv4).map LinkAddress.cidr
    ipv6Addresses := (own.filter fun a => !a.ip.isIpv4).map LinkAddress.cidr
    carrier := iface.hasCarrier
    driver := (sysfs iface.name).driver
    activeConnection := none }

end Discovery

inductive HotplugEvent where
  | linkAdded (name : String)
  | linkRemoved (name : String)
  | linkChanged (name : String)
  | addressChanged (name : String)
deriving DecidableEq

/-! ## The registry -/

structure DeviceRegistry where
  devices : Table String NetworkDevice
  named : ∀ n d, devices.lookup n = some d → d.name = n

namespace DeviceRegistry

/-- `DeviceRegistry::new`. -/
def new : DeviceRegistry := ⟨∅, fun _ _ h => nomatch h⟩

variable (r : DeviceRegistry)

def get (name : String) : Option NetworkDevice := r.devices.lookup name

/-- Store a device under its name; a device mutated in place is stored back by it. -/
def insert (d : NetworkDevice) : DeviceRegistry where
  devices := r.devices.insert d.name d
  named n d' h := by
    rw [Table.lookup_insert_eq] at h
    split at h
    · cases h
      exact Eq.symm ‹_›
    · exact r.named n d' h

def remove (name : String) : DeviceRegistry where
  devices := r.devices.erase name
  named n d h := by
    rw [Table.lookup_erase_eq] at h
    split at h
    · cases h
    · exact r.named n d h

def values : List NetworkDevice := r.devices.values

variable (unmanaged : List String)

/-- A scanned device as `refresh` takes it over. -/
def takeOver (dev : NetworkDevice) : NetworkDevice :=
  if dev.name ∈ unmanaged then { dev with state := .unmanaged }
  else
    match r.get dev.name with
    | some known => { dev with state := known.state, activeConnection := known.activeConnection }
    | none => dev

/-- The registry after `refresh` with these scanned devices. -/
def refreshed (scan : List NetworkDevice) : DeviceRegistry :=
  scan.foldl (fun next dev => next.insert (r.takeOver unmanaged dev)) new

/-! ### Lookups -/

variable {n : String} {d : NetworkDevice}

theorem name_of_get {r : DeviceRegistry} (h : r.get n = some d) : d.name = n := r.named n d h

theorem get_new (n : String) : new.get n = none := rfl

theorem get_insert (d : NetworkDevice) (n : String) :
    (r.insert d).get n = if n = d.name then some d else r.get n :=
  Table.lookup_insert_eq r.devices d.name n d

theorem get_insert_insert (d d' : NetworkDevice) (h : d'.name = d.name) (r : DeviceRegistry)
    (n : String) :
    ((r.insert d).insert d').get n = if n = d'.name then some d' else r.get n := by
  rw [get_insert, get_insert, h]
  split <;> rfl

theorem get_remove (name n : String) : (r.remove name).get n = if n = name then none else r.get n :=
  Table.lookup_erase_eq r.devices name n

theorem mem_values {r : DeviceRegistry} : d ∈ r.values ↔ r.get d.name = some d := by
  rw [values, Table.mem_values]
  constructor
  · rintro ⟨k, hk⟩
    rwa [← name_of_get (r := r) hk] at hk
  · exact fun h => ⟨d.name, h⟩

@[simp] theorem name_takeOver (dev : NetworkDevice) :
    (r.takeOver unmanaged dev).name = dev.name := by
  unfold takeOver
  split
  · rfl
  · split <;> rfl

theorem get_foldl_insert (scan : List NetworkDevice) (next : DeviceRegistry) (n : String) :
    (scan.foldl (fun next dev => next.insert (r.takeOver unmanaged dev)) next).get n =
      ((scan.reverse.find? fun dev => dev.name = n).map (r.takeOver unmanaged)).or
        (next.get n) := by
  induction scan generalizing next with
  | nil => rfl
  | cons dev scan ih =>
    rw [List.foldl_cons, ih, List.reverse_cons, List.find?_append, get_insert]
    cases scan.reverse.find? fun dev => dev.name = n with
    | some found => rfl
    | none =>
      by_cases hn : n = dev.name
      · simp [hn]
      · simp [hn, Ne.symm hn]

theorem get_refreshed (scan : List NetworkDevice) (n : String) :
    (r.refreshed unmanaged scan).get n =
      (scan.reverse.find? fun dev => dev.name = n).map (r.takeOver unmanaged) := by
  rw [refreshed, get_foldl_insert, get_new, Option.or_none]

theorem get_refreshed_of_mem {scan : List NetworkDevice} (hns : (scan.map (·.name)).Nodup)
    {dev : NetworkDevice} (hdev : dev ∈ scan) :
    (r.refreshed unmanaged scan).get dev.name = some (r.takeOver unmanaged dev) := by
  rw [get_refreshed, Option.map_eq_some_iff]
  refine ⟨dev, ?_, rfl⟩
  cases hfound : scan.reverse.find? fun other => other.name = dev.name with
  | none =>
    have hother := List.find?_eq_none.mp hfound dev (List.mem_reverse.mpr hdev)
    exact absurd (decide_eq_true rfl) hother
  | some other =>
    have hmem := List.mem_reverse.mp (List.mem_of_find?_eq_some hfound)
    have hname : other.name = dev.name := by simpa using List.find?_some hfound
    rw [List.inj_on_of_nodup_map hns hmem hdev hname]

end DeviceRegistry

end MitosNetwork
