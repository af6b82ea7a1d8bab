import MitosNetwork.Connection.Activation
import MitosNetwork.Manager.Services
import MitosNetwork.Sharing.Hotspot

/-!
# The manager

`src/manager/manager.rs` without the request handlers, and `src/manager/events.rs`. The state is
that of `NetworkManager` with the statics of the modules it calls (the proxy, the VPN sessions, the
access points) and the kernel's firewall table. A call of `activation::activate` is noted in the log
with the registry it is made in.
-/

namespace MitosNetwork

/-! ## The event bus -/

/-- A registered client with what was sent to it so far. -/
structure EventClient where
  id : ℕ
  sent : List Event

structure EventBus where
  clients : List EventClient
  nextId : ℕ

namespace EventBus

/-- `EventBus::new`. -/
def new : EventBus := ⟨[], 0⟩

def register (bus : EventBus) : EventBus := ⟨bus.clients ++ [⟨bus.nextId, []⟩], bus.nextId + 1⟩

def unregister (bus : EventBus) (id : ℕ) : EventBus :=
  { bus with clients := bus.clients.filter fun c => c.id ≠ id }

/-- `broadcast`: every client whose receiver is still there gets the event, the others are dropped.
-/
def broadcast (bus : EventBus) (live : ℕ → Bool) (event : Event) : EventBus :=
  { bus with
    clients := (bus.clients.filter fun c => live c.id).map fun c =>
      { c with sent := c.sent ++ [event] } }

end EventBus

/-! ## The state -/

structure NetworkManager where
  config : NetworkConfig
  devices : DeviceRegistry
  connections : List ConnectionProfile
  active : Table String ActiveConnection
  host : Firewall.Host
  connectivity : ConnectivityState
  events : EventBus
  proxy : ProxyState
  sessions : Table String VpnKind
  hostapd : List String

/-- A call of `activation::activate`: the registry at the moment of the call, the profile, and the
device as the registry has it. -/
structure ActivateCall where
  registry : DeviceRegistry
  profile : ConnectionProfile
  device : NetworkDevice

inductive TickKind where
  | connectivity
  | wifiScan
  | leaseCheck
  | deviceRefresh
deriving DecidableEq

abbrev M (α : Type) := Proc Call.Answer ActivateCall NetworkManager α

namespace NetworkManager

def stored (m : NetworkManager) (id : String) : Option ConnectionProfile :=
  m.connections.find? fun p => p.id = id

/-! ### Parts of the state -/

def onProxy {α : Type} (prog : Prog ProxyState α) : M α :=
  Proc.zoom NetworkManager.proxy (fun proxy m => { m with proxy }) prog

def onFirewall (op : Firewall.Op) : M (Result Unit) :=
  Proc.zoom NetworkManager.host (fun host m => { m with host }) (Firewall.operate op)

def onRadio {α : Type} (prog : Prog Radio α) : M α :=
  Proc.zoom (fun m => ⟨m.host, m.hostapd⟩)
    (fun radio m => { m with host := radio.host, hostapd := radio.hostapd }) prog

/-- Run a program on a device of the registry, in place. -/
def onDevice {α : Type} (device : NetworkDevice) (prog : TryProg Work α) : M (Result α) :=
  Proc.zoom (fun m => ⟨device, m.sessions⟩)
    (fun work m => { m with devices := m.devices.insert work.device, sessions := work.sessions })
    prog.run

/-! ### Events and the audit log -/

def broadcast (event : Event) : M Unit := do
  let live : ℕ → Bool ← call .liveClients
  Proc.modify fun m => { m with events := m.events.broadcast live event }

/-- `broadcast_state`; the overall state does not depend on the order of the devices. -/
def broadcastState : M Unit := do
  let m ← Proc.get
  broadcast (.stateChanged (overallState m.devices.values m.connectivity))

def audit (actor action detail : String) : M Unit := call (.audit actor action detail)

/-! ## Devices -/

/-- `discovery::scan` with the links of the kernel. -/
def scanLinks : Result (List Interface) → M (Result (List NetworkDevice))
  | .error e => return .error e
  | .ok links => do
    let addrs : Result (List LinkAddress) ← call .listAddresses
    let sysfs ← call .sysfs
    return .ok (links.map (Discovery.scanned (addrs.toOption.getD []) sysfs))

/-- `discovery::scan`. -/
def scan : M (Result (List NetworkDevice)) := do
  let links ← call .listLinks
  scanLinks links

/-- `DeviceRegistry::refresh` with the unmanaged devices of the configuration. -/
def refresh : M (Result Unit) := do
  let scanned ← scan
  match scanned with
  | .error e => return .error e
  | .ok scanned => do
    Proc.modify fun m =>
      { m with devices := m.devices.refreshed m.config.general.unmanagedDevices scanned }
    return .ok ()

/-- The names of `devices.all()` that pass a test, in iteration order. -/
def deviceNames (test : NetworkDevice → Bool) : M (List String) := do
  let m ← Proc.get
  let order : Order NetworkDevice ← call .deviceOrder
  return ((order.arrange m.devices.values).filter test).map (·.name)

/-! ## Activation -/

variable (profile : ConnectionProfile)

/-- The test of `find_device_for_profile`: the type, no active connection, and the pin. The state of
the device is not looked at. -/
def fits (d : NetworkDevice) : Bool :=
  d.deviceType = profile.deviceType && d.activeConnection.isNone &&
    match profile.interfaceName with
    | some n => n == d.name
    | none => true

/-- `find_device_for_profile`. -/
def findDeviceForProfile : M (Option String) := do
  let m ← Proc.get
  let order : Order NetworkDevice ← call .deviceOrder
  return ((order.arrange m.devices.values).find? (fits profile)).map (·.name)

variable (profileId actor deviceName : String)

/-- The end of `activate_profile` after a successful activation. -/
def activated (active : ActiveConnection) : M Response := do
  Proc.modify fun m => { m with active := m.active.insert deviceName active }
  Profiles.touch profileId
  audit actor "connection.activate" (profileId ++ " on " ++ deviceName)
  let m ← Proc.get
  broadcast (.deviceStateChanged deviceName
    ((m.devices.get deviceName).elim .activated (·.state)))
  broadcast (.connectionActivated profileId)
  broadcastState
  return .ok

variable (deviceName : String)

/-- The end of `activate_profile` after a failed one. -/
def activationFailed (e : NetworkError) : M Response := do
  Proc.modify fun m =>
    match m.devices.get deviceName with
    | some d => { m with devices := m.devices.insert { d with state := .failed } }
    | none => m
  return .error ("activation failed: " ++ e.display)

/-- The rest of `activate_profile` after the call. -/
def activationDone : Result ActiveConnection → M Response
  | .ok active => activated profileId actor deviceName active
  | .error e => activationFailed deviceName e

/-- `activate_profile` with the device that the registry has under the name. -/
def activateDevice (profileId actor deviceName : String) (registry : DeviceRegistry) :
    Option NetworkDevice → M Response
  | none => return .error ("device '" ++ deviceName ++ "' disappeared")
  | some device => do
    Proc.note ⟨registry, profile, device⟩
    let result ← onDevice device (Activation.activate profile)
    activationDone profileId actor deviceName result

/-- `activate_profile` once the profile and the name of the device are known. -/
def activateOn (profileId actor deviceName : String) : M Response := do
  let m ← Proc.get
  activateDevice profile profileId actor deviceName m.devices (m.devices.get deviceName)

/-- `activate_profile`. -/
def activateProfile (profileId actor : String) : M Response := do
  let m ← Proc.get
  match m.stored profileId with
  | none => return .error ("no such connection profile '" ++ profileId ++ "'")
  | some profile => do
    let found ← findDeviceForProfile profile
    match found with
    | none =>
      return .error
        ("no available " ++ profile.deviceType.display ++ " device for '" ++ profileId ++ "'")
    | some deviceName => activateOn profile profileId actor deviceName

/-- The rest of `deactivate_profile` once the device was torn down, or not. -/
def deactivated : Result Unit → M Response
  | .error e => return .error ("deactivation failed: " ++ e.display)
  | .ok () => do
    audit actor "connection.deactivate" (profileId ++ " on " ++ deviceName)
    broadcast (.connectionDeactivated profileId)
    broadcastState
    return .ok

/-- `deactivate_profile` with the device that the registry has under the name. -/
def deactivateDevice : Option NetworkDevice → M Response
  | none => return .error ("device '" ++ deviceName ++ "' disappeared")
  | some device => do
    let result ← onDevice device Activation.deactivate
    deactivated profileId actor deviceName result

/-- `deactivate_profile` with the entry that was found: it is removed before anything is torn down.
It is there to be removed, so the branch for an inconsistent state is never taken. -/
def deactivateEntry (profileId actor : String) :
    Option (Σ _ : String, ActiveConnection) → M Response
  | none => return .error ("connection '" ++ profileId ++ "' is not active")
  | some entry => do
    Proc.modify fun m => { m with active := m.active.erase entry.1 }
    let m ← Proc.get
    deactivateDevice profileId actor entry.1 (m.devices.get entry.1)

/-- `deactivate_profile`. -/
def deactivateProfile (profileId actor : String) : M Response := do
  let m ← Proc.get
  let order : Order (Σ _ : String, ActiveConnection) ← call .activeOrder
  deactivateEntry profileId actor
    ((order.arrange m.active.entries).find? fun e => e.2.profileId = profileId)

/-! ## Autoconnect -/

/-- The devices that `try_autoconnect` goes on with. -/
def isReady (device : NetworkDevice) : Bool :=
  device.state ≠ .unmanaged && device.activeConnection.isNone &&
    (device.state = .disconnected || device.state = .unavailable)

/-- The SSIDs of a reply to `SCAN_RESULTS`; none if there is no reply. -/
def ssidsOf (raw : Result String) : List String :=
  ((raw.toOption.map WifiNetwork.parseScanResults).getD []).map (·.ssid)

def visibleSsids (device : NetworkDevice) : M (List String) :=
  if device.deviceType = .wifi ∧ device.carrier then do
    let m ← Proc.get
    let raw ← call (.scanResults m.config.wireless.ctrlInterfaceDir device.name)
    return ssidsOf raw
  else return []

def choose (device : NetworkDevice) (sorted : List ConnectionProfile) (visible : List String) :
    Option ConnectionProfile :=
  if device.carrier then
    if device.deviceType = .wifi then Autoconnect.selectWifi device sorted visible
    else Autoconnect.select device sorted
  else none

def activateChosen : Option ConnectionProfile → M Unit
  | none => return ()
  | some profile => do
    let _ ← activateProfile profile.id "system:autoconnect"
    return ()

/-- `try_autoconnect`. -/
def tryAutoconnect : M Unit := do
  let m ← Proc.get
  match m.devices.get deviceName with
  | none => return ()
  | some device =>
    if isReady device then do
      let times : String → Option ℤ ← call .profileTimes
      let visible ← visibleSsids device
      activateChosen (choose device (Autoconnect.recentlyUsedFirst times m.connections) visible)
    else return ()

/-- `try_autoconnect_all`. -/
def tryAutoconnectAll : M Unit := do
  let names ← deviceNames fun _ => true
  names.forM tryAutoconnect

/-! ## Hotplug events and ticks -/

def announce (name : String) (event : NetworkDevice → Event) : M Unit := do
  let m ← Proc.get
  match m.devices.get name with
  | some dev => broadcast (event dev)
  | none => return ()

/-- A new link, once the registry was refreshed. -/
def linkAdded (name : String) : M Unit := do
  let _ ← onFirewall (.ensureDefaultZone name)
  announce name .deviceAdded
  tryAutoconnect name

/-- The cases of `handle_hotplug`. -/
def hotplug : HotplugEvent → M Unit
  | .linkAdded name => do
    let _ ← refresh
    linkAdded name
  | .linkRemoved name => do
    Proc.modify fun m =>
      { m with active := m.active.erase name, devices := m.devices.remove name }
    broadcast (.deviceRemoved name)
  | .linkChanged name => do
    let _ ← refresh
    announce name fun dev => .deviceStateChanged name dev.state
  | .addressChanged name => do
    let _ ← refresh
    announce name fun dev => .deviceStateChanged name dev.state

/-- `handle_hotplug`. -/
def handleHotplug (event : HotplugEvent) : M Unit := do
  hotplug event
  broadcastState

def connectivityChecked (new : ConnectivityState) : M Unit := do
  let m ← Proc.get
  if new ≠ m.connectivity then do
    Proc.modify fun m => { m with connectivity := new }
    broadcast (.connectivityChanged new)
    broadcastState
  else return ()

def saveRenewed : Result Lease → M Unit
  | .error _ => return ()
  | .ok lease => do
    let _ ← call (.writeLease deviceName lease)
    return ()

def renewIfDue : Result (Option Lease) → M Unit
  | .ok (some lease) => do
    let now : ℕ ← call .now
    if lease.renewalTime ≤ now then do
      let renewed ← call (.dhcpRenew deviceName lease)
      saveRenewed deviceName renewed
    else return ()
  | .ok none => return ()
  | .error _ => return ()

def checkLease (entry : Σ _ : String, ActiveConnection) : M Unit :=
  if entry.2.state = .activated then do
    let lease ← call (.readLease entry.1)
    renewIfDue entry.1 lease
  else return ()

/-- `handle_tick`. -/
def handleTick : TickKind → M Unit
  | .connectivity => do
    let m ← Proc.get
    let checked : Result ConnectivityState ←
      call (.checkConnectivity m.config.general.connectivityCheckUrl)
    connectivityChecked (checked.toOption.getD .unknown)
  | .wifiScan => do
    let names ← deviceNames fun d => d.deviceType = .wifi && d.state ≠ .unmanaged
    names.forM tryAutoconnect
  | .leaseCheck => do
    let m ← Proc.get
    let order : Order (Σ _ : String, ActiveConnection) ← call .activeOrder
    (order.arrange m.active.entries).forM checkLease
  | .deviceRefresh => do
    let _ ← refresh
    tryAutoconnectAll

end NetworkManager

end MitosNetwork
