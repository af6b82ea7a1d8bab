import MitosNetwork.Ip.NetlinkSlices
import MitosNetwork.Manager.Activations

/-!
# Address notifications

The thread that `spawn_monitor` of `src/device/discovery.rs` starts turns the messages of the kernel
into hotplug events. A message about a link carries its name, but one about an address carries only
the index of its link. The event has the decimal text of the index, where `handle_hotplug` of
`src/manager/manager.rs` looks up a name.
-/

namespace MitosNetwork

open Netlink.Slices Wire

/-- What `spawn_monitor` makes of an event of `Monitor::recv`. -/
def mapped : RawEvent → HotplugEvent
  | .linkNew name => .linkAdded name
  | .linkDel name => .linkRemoved name
  | .addrNew index | .addrDel index => .addressChanged (toString index.toInt)

/-- A message about an address, read by `parse_addr`. -/
def IsAddress (order : ByteOrder) (msgType : UInt16) (body : List UInt8) (info : AddrInfo) : Prop :=
  (msgType = rtmNewaddr ∨ msgType = rtmDeladdr) ∧ parseAddr order body = some (some info)

theorem IsAddress.mapped {order : ByteOrder} {msgType : UInt16} {body : List UInt8}
    {info : AddrInfo} (h : IsAddress order msgType body info) :
    ∃ raw, rawEvent order msgType body = some (some raw) ∧
      mapped raw = .addressChanged (toString info.index.toInt) := by
  obtain ⟨rfl | rfl, hp⟩ := h
  · exact ⟨.addrNew info.index, congrArg (Option.map (Option.map _)) hp, rfl⟩
  · exact ⟨.addrDel info.index, congrArg (Option.map (Option.map _)) hp, rfl⟩

namespace NetworkManager

open Proc

variable {w : World Call.Answer} {m : NetworkManager} {c : EventClient} {k : ℕ}

/-- The receiver of the client is there all the time. -/
def Listens (w : World Call.Answer) (c : EventClient) : Prop :=
  ∀ k, (w k .liveClients : ℕ → Bool) c.id = true

theorem mem_clients_broadcast (hc : c ∈ m.events.clients) (hlive : Listens w c) (event : Event) :
    ⟨c.id, c.sent ++ [event]⟩ ∈ (broadcast event w k m).state.events.clients :=
  List.mem_map.mpr ⟨c, List.mem_filter.mpr ⟨hc, hlive k⟩, rfl⟩

/-- What an address event has a client be sent. -/
def addressNews (w : World Call.Answer) (m : NetworkManager) (name : String) : List Event :=
  (((rescanned w m).get name).map fun dev => .deviceStateChanged name dev.state).toList ++
    [.stateChanged (overallState (rescanned w m).values m.connectivity)]

theorem mem_clients_addressChanged (hc : c ∈ m.events.clients) (hlive : Listens w c)
    (name : String) : ⟨c.id, c.sent ++ addressNews w m name⟩ ∈
      (handleHotplug (.addressChanged name) w 0 m).state.events.clients := by
  rw [handleHotplug, state_bind, broadcastState, get_bind, hotplug, state_bind, state_refresh,
    announce, get_bind, addressNews]
  cases (rescanned w m).get name with
  | none => exact mem_clients_broadcast hc hlive _
  | some dev =>
    rw [← List.append_assoc]
    exact mem_clients_broadcast (mem_clients_broadcast hc hlive _) hlive _

theorem devices_addressChanged (name : String) :
    (handleHotplug (.addressChanged name) w 0 m).state.devices = rescanned w m := by
  rw [handleHotplug, state_bind, broadcastState, get_bind, hotplug, state_bind, state_refresh,
    announce, get_bind]
  cases hget : (rescanned w m).get name <;> rfl

theorem mem_addressNews_iff {n name : String} {state : DeviceState} :
    .deviceStateChanged n state ∈ addressNews w m name ↔
      ∃ dev, (rescanned w m).get name = some dev ∧ name = n ∧ dev.state = state := by
  simp [addressNews]

/-- **Address notifications.** The registry is refreshed, but a client is told of the device only if
the name of the device is the text of its index. -/
theorem address_announced_iff (order : ByteOrder) (msgType : UInt16) (body : List UInt8)
    (info : AddrInfo) (hmsg : IsAddress order msgType body info) (d : NetworkDevice)
    (hidx : info.index = d.index.toInt32) (w : World Call.Answer) (m : NetworkManager)
    (found : List NetworkDevice) (hscan : (scan w 0 m).result = .ok found)
    (hfound : d.name ∈ found.map (·.name)) :
    ∃ raw, rawEvent order msgType body = some (some raw) ∧
      let m' := (handleHotplug (mapped raw) w 0 m).state
      m'.devices = m.devices.refreshed m.config.general.unmanagedDevices found ∧
      ∀ c ∈ m.events.clients, Listens w c → ∃ news, ⟨c.id, c.sent ++ news⟩ ∈ m'.events.clients ∧
        ((∃ state, .deviceStateChanged d.name state ∈ news) ↔
          d.name = toString d.index.toInt32.toInt) := by
  obtain ⟨raw, hraw, hmap⟩ := hmsg.mapped
  refine ⟨raw, hraw, ?_⟩
  rw [hmap, hidx]
  refine ⟨(devices_addressChanged _).trans (rescanned_of_scan hscan), fun c hc hlive =>
    ⟨_, mem_clients_addressChanged hc hlive _, ?_⟩⟩
  constructor
  · rintro ⟨state, hst⟩
    obtain ⟨dev, -, hname, -⟩ := mem_addressNews_iff.mp hst
    exact hname.symm
  · intro hname
    obtain ⟨dev, hdev⟩ : ∃ dev, (rescanned w m).get d.name = some dev := by
      obtain ⟨dev, hdev, hsame⟩ := List.mem_map.mp hfound
      rw [rescanned_of_scan hscan, DeviceRegistry.get_refreshed]
      refine Option.isSome_iff_exists.mp ?_
      rw [Option.isSome_map, List.find?_isSome]
      exact ⟨dev, List.mem_reverse.mpr hdev, decide_eq_true hsame⟩
    exact ⟨dev.state, mem_addressNews_iff.mpr ⟨dev, hname ▸ hdev, hname.symm, rfl⟩⟩

/-- An index in the order of a little-endian machine, as `RTM_NEWADDR` has it after the family, the
prefix length and the scope. -/
def newAddress (index : UInt8) : List UInt8 := [2, 24, 0, 0, index, 0, 0, 0]

/-- A manager with one client. -/
def watched : NetworkManager :=
  { blank Config.defaultConfig ⟨none, none⟩ with events := EventBus.new.register }

/-- A device whose name is the text of its index. -/
theorem address_announced_numbered :
    let w : World Call.Answer := fun _ => calm [Daemon.wired 2 "2"] (.ok ())
    IsAddress .little rtmNewaddr (newAddress 2) ⟨2, 2, 24, [], none⟩ ∧
      ∃ raw, rawEvent .little rtmNewaddr (newAddress 2) = some (some raw) ∧
        ∃ news, ⟨0, news⟩ ∈ (handleHotplug (mapped raw) w 0 watched).state.events.clients ∧
          ∃ state, .deviceStateChanged "2" state ∈ news := by
  intro w
  have hmsg : IsAddress .little rtmNewaddr (newAddress 2) ⟨2, 2, 24, [], none⟩ := ⟨.inl rfl, rfl⟩
  let d := Discovery.scanned [] (fun _ => ⟨false, false, true, none⟩) (Daemon.wired 2 "2")
  obtain ⟨raw, hraw, -, hnews⟩ := address_announced_iff _ _ _ _ hmsg d rfl w watched [d] rfl
    (List.mem_singleton_self _)
  obtain ⟨news, hmem, hiff⟩ := hnews ⟨0, []⟩ (List.mem_singleton_self _) fun _ => rfl
  exact ⟨hmsg, raw, hraw, news, hmem, hiff.mpr (by decide)⟩

/-- The address of `eth0` changes, and its only client is told of the overall state alone. -/
theorem address_unannounced :
    let w : World Call.Answer := fun _ => calm [Daemon.wired 2 "eth0"] (.ok ())
    ((rawEvent .little rtmNewaddr (newAddress 2)).map fun raw => raw.map fun raw =>
      let m := (handleHotplug (mapped raw) w 0 watched).state
      (m.devices.values.map (·.name), m.events.clients.map (·.sent))) =
      some (some (["eth0"], [[.stateChanged .disconnected]])) := by
  decide +kernel

end NetworkManager

end MitosNetwork
