import MitosNetwork.Manager.Manager
import MitosNetwork.Security.Policy

/-!
# Request handlers

`handle_request` of `src/manager/manager.rs`. Most handlers run one operation and, when it succeeds,
record it in the audit log under the uid of the peer that asked.
-/

namespace MitosNetwork.NetworkManager

/-- The answer to an operation that is recorded when it succeeds. -/
def recorded (actor action detail : String) : Result Unit → M Response
  | .error e => return .error e.display
  | .ok () => do
    audit actor action detail
    return .ok

def networksOf : Result String → Response
  | .ok raw => .wifiNetworks (WifiNetwork.parseScanResults raw)
  | .error e => .error e.display

def removeConnection (id : String) : M Unit :=
  Proc.modify fun m => { m with connections := m.connections.filter fun p => p.id ≠ id }

def putConnection (profile : ConnectionProfile) : M Unit :=
  Proc.modify fun m =>
    { m with connections := m.connections.filter (fun p => p.id ≠ profile.id) ++ [profile] }

/-! ## Connections -/

variable (actor : String)

/-- `Request::AddConnection` after `save`. -/
def connectionSaved (profile : ConnectionProfile) : Result Unit → M Response
  | .error e => return .error e.display
  | .ok () => do
    audit actor "connection.add" profile.id
    putConnection profile
    return .ok

def addConnection (profile : ConnectionProfile) : M Response := do
  let saved ← Profiles.save profile
  connectionSaved actor profile saved

/-- `Request::DeleteConnection` first takes an active connection down; the answer is ignored. -/
def deactivateIfActive (actor id : String) : M Unit := do
  let m ← Proc.get
  if m.active.values.any fun a => a.profileId = id then do
    let _ ← deactivateProfile id actor
    return ()
  else return ()

/-- `Request::DeleteConnection` after `delete`. -/
def connectionDeleted (actor id : String) : Result Unit → M Response
  | .error e => return .error e.display
  | .ok () => do
    audit actor "connection.delete" id
    removeConnection id
    let _ ← call (.secretDeleteAll id)
    return .ok

def deleteConnection (actor id : String) : M Response := do
  deactivateIfActive actor id
  let deleted ← Profiles.delete id
  connectionDeleted actor id deleted

/-! ## Wi-Fi -/

/-- The passphrase of `Request::ConnectWifi`, if one was given. -/
def storePassphrase (id : String) : Option String → M (Result Unit)
  | none => return .ok ()
  | some pass => call (.secretSet id "psk" pass)

/-- `Request::ConnectWifi` after the profile was saved. -/
def wifiSaved (profile : ConnectionProfile) : Result Unit → M Response
  | .error e => return .error e.display
  | .ok () => do
    audit actor "wifi.connect" profile.id
    putConnection profile
    activateProfile profile.id actor

/-- `Request::ConnectWifi` after the passphrase was stored. -/
def secretStored (profile : ConnectionProfile) : Result Unit → M Response
  | .error e => return .error e.display
  | .ok () => do
    let saved ← Profiles.save profile
    wifiSaved actor profile saved

def connectWifi (actor device ssid : String) (security : SecurityType)
    (passphrase : Option String) : M Response := do
  let id := "wifi-" ++ ssid
  let stored ← storePassphrase id passphrase
  secretStored actor
    { ConnectionProfile.newWifi id ssid security with interfaceName := some device } stored

def forgetWifi (actor device ssid : String) : M Response := do
  let id := "wifi-" ++ ssid
  let _ ← call (.wifiForget device ssid)
  let _ ← call (.secretDeleteAll id)
  let _ ← Profiles.delete id
  removeConnection id
  audit actor "wifi.forget" id
  return .ok

/-! ## Everything else -/

def firewallRequest (actor action detail : String) (op : Firewall.Op) : M Response := do
  let result ← onFirewall op
  recorded actor action detail result

def bluetoothRequest (actor action verb mac : String) : M Response := do
  let result ← Bluetooth.onDevice verb mac
  recorded actor action mac result

def startHotspot (actor device ssid : String) (passphrase uplink : Option String) :
    M Response := do
  let result ← onRadio (Hotspot.start device ssid passphrase uplink).run
  recorded actor "hotspot.start" (device ++ " (" ++ ssid ++ ")") result

def stopHotspot (actor device : String) : M Response := do
  onRadio (Hotspot.stopHostapd device)
  audit actor "hotspot.stop" device
  return .ok

/-- The answer of `bluetooth::list_devices`. -/
def bluetoothListed : Result (List BluetoothDevice) → Response
  | .ok devices => .bluetoothDevices devices
  | .error e => .error e.display

/-- The answer of `diagnostics::collect`. -/
def diagnosed : Result DiagnosticReport → Response
  | .ok report => .diagnostics report
  | .error e => .error e.display

def diagnose : M Response := do
  let m ← Proc.get
  let order : Order NetworkDevice ← call .deviceOrder
  let collected ← Proc.zoom (fun _ => ()) (fun _ m => m)
    (Diagnostics.collect (order.arrange m.devices.values) m.connectivity).run
  return diagnosed collected

/-- `Request::Reload` after `config::load`: only the configuration is replaced. -/
def reloaded : Result NetworkConfig → M Response
  | .error e => return .error e.display
  | .ok cfg => do
    Proc.modify fun m => { m with config := cfg }
    audit actor "config.reload" ""
    return .ok

def reload : M Response := do
  let files : Config.Files ← call .readConfig
  let order : Order (Σ _ : String, InterfaceConfig) ← call .interfaceOrder
  reloaded actor (Config.load files order)

def setProxyConfig (config : ProxyConfig) : M Response := do
  let result ← onProxy (Proxy.apply config)
  recorded actor "proxy.set" config.mode.debug result

/-- The text of a switch. -/
def onOff (on : Bool) : String := if on then "on" else "off"

/-- `handle_request`. -/
def handleRequest (identity : PeerIdentity) (req : Request) : M Response := do
  let actor := "uid:" ++ toString identity.uid.toNat
  match req with
  | .getState => do
    let m ← Proc.get
    return .state (overallState m.devices.values m.connectivity)
  | .listDevices => do
    let m ← Proc.get
    let order : Order NetworkDevice ← call .deviceOrder
    return .devices (order.arrange m.devices.values)
  | .getDevice name => do
    let m ← Proc.get
    return (m.devices.get name).elim (.error ("no such device '" ++ name ++ "'")) .device
  | .listConnections => do
    let m ← Proc.get
    return .connections m.connections
  | .getConnection id => do
    let m ← Proc.get
    return (m.stored id).elim (.error ("no such connection '" ++ id ++ "'")) .connection
  | .addConnection profile => addConnection actor profile
  | .deleteConnection id => deleteConnection actor id
  | .activateConnection id => activateProfile id actor
  | .deactivateConnection id => deactivateProfile id actor
  | .scanWifi device => do
    let m ← Proc.get
    let raw ← call (.scanWifi m.config.wireless.ctrlInterfaceDir device)
    return networksOf raw
  | .listWifiNetworks device => do
    let m ← Proc.get
    let raw ← call (.scanResults m.config.wireless.ctrlInterfaceDir device)
    return networksOf raw
  | .connectWifi device ssid security passphrase =>
    connectWifi actor device ssid security passphrase
  | .forgetWifi device ssid => forgetWifi actor device ssid
  | .startHotspot device ssid passphrase uplink => startHotspot actor device ssid passphrase uplink
  | .stopHotspot device => stopHotspot actor device
  | .setFirewallZone interface zone =>
    firewallRequest actor "firewall.zone" (interface ++ " -> " ++ zone) (.assignZone interface zone)
  | .addFirewallRule rule => firewallRequest actor "firewall.rule.add" rule.id (.addRule rule)
  | .removeFirewallRule id => firewallRequest actor "firewall.rule.remove" id (.removeRule id)
  | .listBluetoothDevices => do
    let devices ← Bluetooth.listDevices
    return bluetoothListed devices
  | .bluetoothPower on => do
    let result ← Bluetooth.control ["power", onOff on]
    recorded actor "bluetooth.power" (onOff on) result
  | .bluetoothScan on => do
    let result ← Bluetooth.control ["scan", onOff on]
    return .ofResult result
  | .pairBluetooth mac => bluetoothRequest actor "bluetooth.pair" "pair" mac
  | .trustBluetooth mac => bluetoothRequest actor "bluetooth.trust" "trust" mac
  | .connectBluetooth mac => bluetoothRequest actor "bluetooth.connect" "connect" mac
  | .disconnectBluetooth mac => bluetoothRequest actor "bluetooth.disconnect" "disconnect" mac
  | .removeBluetooth mac => bluetoothRequest actor "bluetooth.remove" "remove" mac
  | .setProxyConfig config => setProxyConfig actor config
  | .getProxyConfig => do
    let m ← Proc.get
    return .proxyConfig m.proxy.active
  | .resolveProxy url => do
    let answer ← onProxy (Proxy.resolveForUrl url)
    return .proxyResolution answer
  | .getConnectivity => do
    let m ← Proc.get
    return .connectivity m.connectivity
  | .diagnose => diagnose
  | .reload => reload actor

end MitosNetwork.NetworkManager
