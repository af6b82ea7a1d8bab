import MitosNetwork.Manager.Conduct

/-!
# The request gate

`required_capability` and `request_loop` of `src/ipc/server.rs` in front of the daemon. A request is
checked against the policy before it is handed to the manager; everything else that reaches the
manager's channel comes from the daemon itself.

`unprivileged_noninterference` compares two runs: with and without the requests of unprivileged
peers.
-/

namespace MitosNetwork.Ipc

open Policy NetworkManager

/-- `required_capability`. -/
def requiredCapability : Request → Capability
  | .getState | .listDevices | .getDevice _ | .listConnections | .getConnection _
  | .listWifiNetworks _ | .getConnectivity | .listBluetoothDevices | .getProxyConfig
  | .resolveProxy _ | .diagnose => .viewState
  | .addConnection _ | .deleteConnection _ | .activateConnection _
  | .deactivateConnection _ => .manageConnections
  | .scanWifi _ | .connectWifi _ _ _ _ | .forgetWifi _ _ => .manageWifi
  | .startHotspot _ _ _ _ | .stopHotspot _ => .manageHotspot
  | .setFirewallZone _ _ | .addFirewallRule _ | .removeFirewallRule _ => .manageFirewall
  | .bluetoothPower _ | .bluetoothScan _ | .pairBluetooth _ | .trustBluetooth _
  | .connectBluetooth _ | .disconnectBluetooth _ | .removeBluetooth _ => .manageBluetooth
  | .setProxyConfig _ => .manageProxy
  | .reload => .admin

/-- What happens next: a peer sends a request, with the user database as it is at that moment, or
one of the daemon's own threads sends a command. -/
inductive Incoming where
  | request (peer : PeerIdentity) (db : UserDb) (req : Request)
  | registerEventClient
  | unregisterEventClient (id : ℕ)
  | hotplug (event : HotplugEvent)
  | tick (kind : TickKind)
  | shutdown

abbrev Input := Incoming × World Call.Answer

def deliver (d : Daemon) (c : Command) (w : World Call.Answer) : Daemon × Option Response :=
  let r := d.step (.command c, w)
  (r.1, r.2.response)

/-- A request passes the policy or is answered with its error; `none` is no answer. -/
def serve (d : Daemon) (i : Input) : Daemon × Option Response :=
  match i.1 with
  | .request peer db req =>
    match check db peer (requiredCapability req) with
    | .ok () => deliver d (.request req peer) i.2
    | .error e => (d, some (.error e.display))
  | .registerEventClient => deliver d .registerEventClient i.2
  | .unregisterEventClient id => deliver d (.unregisterEventClient id) i.2
  | .hotplug event => deliver d (.hotplug event) i.2
  | .tick kind => deliver d (.tick kind) i.2
  | .shutdown => deliver d .shutdown i.2

/-! ## Looking changes nothing -/

theorem readOnly_handleRequest (identity : PeerIdentity) {req : Request}
    (h : requiredCapability req = .viewState) : (handleRequest identity req).ReadOnly := by
  have hcall : AllowsInert .still := fun _ _ _ => rfl
  intro w
  change Obeys w .still _
  cases req with
  | getState | getDevice name | listConnections | getConnection id | getProxyConfig
  | getConnectivity => exact obeys_query _
  | listDevices | listWifiNetworks device =>
    exact Proc.Obeys.get.bind fun _ => (obeys_call hcall rfl).bind fun _ => .pure _
  | listBluetoothDevices => exact (obeys_listDevices hcall).bind fun _ => .pure _
  | resolveProxy url =>
    refine .bind (fun k m => ?_) fun _ => .pure _
    exact congrArg (fun proxy => { m with proxy := proxy })
      (Proxy.readOnly_resolveForUrl url w k m.proxy)
  | diagnose =>
    exact Proc.Obeys.get.bind fun _ => (obeys_call hcall rfl).bind fun _ =>
      .bind (fun _ _ => rfl) fun _ => .pure _
  | addConnection profile | deleteConnection id | activateConnection id | deactivateConnection id
  | scanWifi device | connectWifi device ssid security passphrase | forgetWifi device ssid
  | startHotspot device ssid passphrase uplink | stopHotspot device
  | setFirewallZone interface zone | addFirewallRule rule | removeFirewallRule id
  | bluetoothPower on | bluetoothScan on | pairBluetooth mac | trustBluetooth mac
  | connectBluetooth mac | disconnectBluetooth mac | removeBluetooth mac | setProxyConfig config
  | reload => cases h

theorem deliver_of_readOnly (d : Daemon) {req : Request} {peer : PeerIdentity}
    (h : (handleRequest peer req).ReadOnly) (w : World Call.Answer) :
    (deliver d (.request req peer) w).1 = d := by
  obtain ⟨m, running⟩ := d
  cases running with
  | false => rfl
  | true => exact congrArg (Daemon.mk · true) (h w 0 m)

/-! ## Noninterference -/

/-- Whether an input is anything but a request of an unprivileged peer. -/
def isPrivileged (i : Input) : Bool :=
  match i.1 with
  | .request peer db _ => !decide (Unprivileged db peer)
  | _ => true

theorem serve_of_not_isPrivileged (d : Daemon) (i : Input) (h : isPrivileged i = false) :
    (serve d i).1 = d := by
  obtain ⟨incoming, w⟩ := i
  cases incoming with
  | request peer db req =>
    have hpeer : Unprivileged db peer := by simpa [isPrivileged] using h
    unfold serve
    dsimp only
    split
    · rename_i hok
      exact deliver_of_readOnly d
        (readOnly_handleRequest peer ((check_eq_ok_iff hpeer _).mp hok)) w
    · rfl
  | registerEventClient | unregisterEventClient id | hotplug event | tick kind | shutdown => cases h

/-- **Unprivileged peers do not influence the daemon.** Deleting their requests from a run changes
neither the state after any prefix nor any answer that is given to the others. -/
theorem unprivileged_noninterference (d : Daemon) (inputs : List Input) :
    (∀ n, Machine.finalState serve d ((inputs.take n).filter isPrivileged) =
      Machine.finalState serve d (inputs.take n)) ∧
    Machine.outputs serve d (inputs.filter isPrivileged) =
      ((inputs.zip (Machine.outputs serve d inputs)).filter fun p =>
        isPrivileged p.1).map (·.2) := by
  constructor
  · intro n
    exact Machine.finalState_filter serve_of_not_isPrivileged d (inputs.take n)
  · exact Machine.outputs_filter serve_of_not_isPrivileged d inputs

end MitosNetwork.Ipc
