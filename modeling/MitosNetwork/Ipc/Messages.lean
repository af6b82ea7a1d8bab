import MitosNetwork.Connection.Profile
import MitosNetwork.Firewall.Firewall
import MitosNetwork.Monitoring.Diagnostics
import MitosNetwork.Proxy.Proxy

/-!
# Messages

`src/ipc/messages.rs`: what a client can ask, what it is answered and what is pushed to it.
-/

namespace MitosNetwork

structure BluetoothDevice where
  mac : String
  name : String
  paired : Bool
  connected : Bool

inductive Request where
  | getState
  | listDevices
  | getDevice (name : String)
  | listConnections
  | getConnection (id : String)
  | addConnection (profile : ConnectionProfile)
  | deleteConnection (id : String)
  | activateConnection (id : String)
  | deactivateConnection (id : String)
  | scanWifi (device : String)
  | listWifiNetworks (device : String)
  | connectWifi (device ssid : String) (security : SecurityType) (passphrase : Option String)
  | forgetWifi (device ssid : String)
  | startHotspot (device ssid : String) (passphrase uplink : Option String)
  | stopHotspot (device : String)
  | setFirewallZone (interface zone : String)
  | addFirewallRule (rule : Firewall.Rule)
  | removeFirewallRule (id : String)
  | getConnectivity
  | diagnose
  | reload
  | listBluetoothDevices
  | bluetoothPower (on : Bool)
  | bluetoothScan (on : Bool)
  | pairBluetooth (mac : String)
  | trustBluetooth (mac : String)
  | connectBluetooth (mac : String)
  | disconnectBluetooth (mac : String)
  | removeBluetooth (mac : String)
  | setProxyConfig (config : ProxyConfig)
  | getProxyConfig
  | resolveProxy (url : String)

inductive Response where
  | ok
  | state (state : NetworkState)
  | devices (devices : List NetworkDevice)
  | device (device : NetworkDevice)
  | connections (connections : List ConnectionProfile)
  | connection (connection : ConnectionProfile)
  | wifiNetworks (networks : List WifiNetwork)
  | connectivity (state : ConnectivityState)
  | diagnostics (report : DiagnosticReport)
  | bluetoothDevices (devices : List BluetoothDevice)
  | proxyConfig (config : Option ProxyConfig)
  | proxyResolution (answer : String)
  | error (message : String)

/-- The answer to a request whose effect succeeds or fails. -/
def Response.ofResult : Result Unit → Response
  | .ok () => .ok
  | .error e => .error e.display

inductive Event where
  | stateChanged (state : NetworkState)
  | deviceAdded (device : NetworkDevice)
  | deviceRemoved (name : String)
  | deviceStateChanged (device : String) (state : DeviceState)
  | connectionActivated (id : String)
  | connectionDeactivated (id : String)
  | connectivityChanged (state : ConnectivityState)
deriving DecidableEq

/-- What is written to a client: the answer to its request, or an event at any time. -/
inductive ServerMessage where
  | response (response : Response)
  | event (event : Event)

end MitosNetwork
