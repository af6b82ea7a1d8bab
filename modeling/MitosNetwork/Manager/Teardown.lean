import MitosNetwork.Manager.Agreement
import MitosNetwork.Manager.SharedServers

/-!
# What a deactivation leaves behind

`deactivate_profile` looks up one entry of the active map, drops it, and only then tears the device
down; `vpn::disconnect` drops the session before it removes the interface. The outcome of the
teardown is a function of the answers of the outside (`tornDown`), and so is what is left behind.
`complete_iff` says when a request that is answered with `Ok` leaves nothing of the profile, and
`retry_iff` that one that fails cannot be made again.
-/

namespace MitosNetwork

open Option Activation

/-! ## The teardown of a device -/

namespace Activation

variable {w : World Call.Answer} {k : ℕ} {dev : NetworkDevice} {sessions : Table String VpnKind}

/-- The outcome of the steps that count for a link: the addresses are flushed, and a Wi-Fi device is
disconnected. -/
def linkDown (w : World Call.Answer) (k : ℕ) (name : String) (index : UInt32) (type : DeviceType) :
    Result Unit :=
  match (w k (.flush index.toInt32) : Result Unit) with
  | .error e => .error e
  | .ok () => if type = .wifi then w (k + 1) (.wifiDisconnect name) else .ok ()

/-- The outcome of disconnecting a VPN, which has to be tracked under the name. -/
def vpnDown (w : World Call.Answer) (k : ℕ) (name : String) (sessions : Table String VpnKind) :
    Result Unit :=
  match sessions.lookup name with
  | none => .error (.notFound ("no active VPN session on '" ++ name ++ "'"))
  | some kind => w k (.vpnDisconnect kind name)

/-- The outcome of tearing a device down, by the answers from the `k`-th call on. For a link two
calls that release leases come first. -/
def tornDown (w : World Call.Answer) (k : ℕ) (dev : NetworkDevice)
    (sessions : Table String VpnKind) : Result Unit :=
  if dev.deviceType = .vpn then vpnDown w k dev.name sessions
  else linkDown w (k + 2) dev.name dev.index dev.deviceType

def sessionsLeft (dev : NetworkDevice) (sessions : Table String VpnKind) : Table String VpnKind :=
  if dev.deviceType = .vpn then sessions.erase dev.name else sessions

theorem sessionsLeft_of_lookup_none (h : sessions.lookup dev.name = none) :
    sessionsLeft dev sessions = sessions := by
  unfold sessionsLeft
  split
  · exact AList.ext (List.kerase_of_notMem_keys (AList.lookup_eq_none.mp h))
  · rfl

theorem teardown_vpn (htype : dev.deviceType = .vpn) (work : Work) :
    (teardown dev).run w k work =
      ⟨vpnDown w k dev.name work.sessions, ⟨work.device, sessionsLeft dev work.sessions⟩,
        (work.sessions.lookup dev.name).toList.map fun kind =>
          .call (.vpnDisconnect kind dev.name) (w k (.vpnDisconnect kind dev.name))⟩ := by
  have hget : (Try.lift Proc.get : TryProg Work Work).run w k work = ⟨.ok work, work, []⟩ := rfl
  rw [teardown, if_pos htype, disconnectVpn, Try.run_bind_of_ok hget, vpnDown]
  cases hlk : work.sessions.lookup dev.name with
  | none =>
    rw [sessionsLeft_of_lookup_none hlk]
    rfl
  | some kind =>
    rw [sessionsLeft, if_pos htype]
    rfl

theorem flush_disconnectWifi_spec (dev : NetworkDevice) (work : Work) :
    ∃ log, (do
        attempt (call (.flush dev.index.toInt32))
        disconnectWifi dev : TryProg Work Unit).run w k work =
          ⟨linkDown w k dev.name dev.index dev.deviceType, work, log⟩ := by
  have hfl : (attempt (call (.flush dev.index.toInt32)) : TryProg Work Unit).run w k work =
      ⟨w k (.flush dev.index.toInt32), work,
        [.call (.flush dev.index.toInt32) (w k (.flush dev.index.toInt32))]⟩ := rfl
  unfold linkDown disconnectWifi
  cases hans : (w k (.flush dev.index.toInt32) : Result Unit) with
  | error e =>
    rw [hans] at hfl
    rw [Try.run_bind_of_error hfl]
    exact ⟨_, rfl⟩
  | ok u =>
    rw [hans] at hfl
    rw [Try.run_bind_of_ok hfl]
    by_cases hwifi : dev.deviceType = .wifi
    · rw [if_pos hwifi]
      exact ⟨_, congrArg (Ran.mk · work _) (if_pos hwifi).symm⟩
    · rw [if_neg hwifi]
      exact ⟨_, congrArg (Ran.mk · work _) (if_neg hwifi).symm⟩

theorem teardown_spec (dev : NetworkDevice) (work : Work) :
    ∃ log, (teardown dev).run w k work =
      ⟨tornDown w k dev work.sessions, ⟨work.device, sessionsLeft dev work.sessions⟩, log⟩ := by
  by_cases htype : dev.deviceType = .vpn
  · rw [teardown_vpn htype, tornDown, if_pos htype]
    exact ⟨_, rfl⟩
  · rw [teardown, if_neg htype, tornDown, if_neg htype, sessionsLeft, if_neg htype]
    obtain ⟨log, hlog⟩ := flush_disconnectWifi_spec (w := w) (k := k + 2) dev work
    exact ⟨.call (.dhcpRelease dev.name) (w k (.dhcpRelease dev.name)) ::
        .call (.dhcp6Release dev.name) (w (k + 1) (.dhcp6Release dev.name)) :: log,
      congrArg (fun ran => Ran.mk ran.result ran.state (_ :: _ :: ran.log)) hlog⟩

def deviceLeft (dev : NetworkDevice) : Result Unit → NetworkDevice
  | .ok () =>
    { dev with
      state := .disconnected, activeConnection := none, ipv4Addresses := [], ipv6Addresses := [] }
  | .error _ => { dev with state := .deactivating }

theorem deactivate_spec (dev : NetworkDevice) (sessions : Table String VpnKind) :
    ∃ log, deactivate.run w k ⟨dev, sessions⟩ =
      ⟨tornDown w k dev sessions,
        ⟨deviceLeft dev (tornDown w k dev sessions), sessionsLeft dev sessions⟩, log⟩ := by
  let down : NetworkDevice := { dev with state := .deactivating }
  have hst : (setState .deactivating).run w k ⟨dev, sessions⟩ = ⟨.ok (), ⟨down, sessions⟩, []⟩ :=
    rfl
  have hdev : device.run w k ⟨down, sessions⟩ = ⟨.ok down, ⟨down, sessions⟩, []⟩ := rfl
  obtain ⟨log, hlog⟩ := teardown_spec (w := w) (k := k) down ⟨down, sessions⟩
  have hout : tornDown w k down sessions = tornDown w k dev sessions := rfl
  rw [hout] at hlog
  rw [deactivate, Try.run_bind_of_ok hst, List.length_nil, Nat.add_zero,
    Try.run_bind_of_ok hdev, List.length_nil, Nat.add_zero]
  cases hdown : tornDown w k dev sessions with
  | error e =>
    rw [hdown] at hlog
    rw [Try.run_bind_of_error hlog]
    exact ⟨log, rfl⟩
  | ok u =>
    rw [hdown] at hlog
    rw [Try.run_bind_of_ok hlog]
    exact ⟨_, rfl⟩

end Activation

namespace NetworkManager

variable {w : World Call.Answer} {k : ℕ} {m : NetworkManager} {profileId actor : String}

variable {entry : Σ _ : String, ActiveConnection} {n name : String} {device : NetworkDevice}
  {m' : NetworkManager}

/-- The outcome of tearing down what the registry has under a name. -/
def tornDownUnder (w : World Call.Answer) (k : ℕ) (m : NetworkManager) (name : String) :
    Result Unit :=
  match m.devices.get name with
  | none => .error (.notFound ("device '" ++ name ++ "' disappeared"))
  | some device => tornDown w k device m.sessions

theorem listed_entryToTakeDown (h : entryToTakeDown w k m profileId = some entry) :
    listed m.active entry.1 = some profileId := by
  obtain ⟨hmem, hid⟩ := Order.of_find?_arrange h
  rw [listed, Table.mem_entries_iff.mp hmem, map_some, of_decide_eq_true hid]

theorem entryToTakeDown_of_listed (h : listed m.active n = some profileId) :
    ∃ entry, entryToTakeDown w k m profileId = some entry := by
  obtain ⟨a, hlk, hid⟩ := map_eq_some_iff.mp h
  apply isSome_iff_exists.mp
  rw [entryToTakeDown, List.find?_isSome]
  exact ⟨⟨n, a⟩, (Order.mem_arrange _).mpr (Table.mem_entries_iff.mpr hlk), decide_eq_true hid⟩

theorem entryToTakeDown_of_any (h : (m.active.values.any fun a => a.profileId = profileId) = true) :
    ∃ entry, entryToTakeDown w k m profileId = some entry := by
  obtain ⟨a, ha, hid⟩ := List.any_eq_true.mp h
  obtain ⟨n, hlk⟩ := Table.mem_values.mp ha
  apply entryToTakeDown_of_listed (n := n)
  rw [listed, hlk, map_some, of_decide_eq_true hid]

theorem not_listed_of_not_any (h : ¬(m.active.values.any fun a => a.profileId = profileId) = true)
    (n : String) : listed m.active n ≠ some profileId := by
  intro hn
  obtain ⟨a, hlk, hid⟩ := map_eq_some_iff.mp hn
  exact h (List.any_eq_true.mpr ⟨a, Table.mem_values.mpr ⟨n, hlk⟩, decide_eq_true hid⟩)

/-- What a deactivation leaves behind, once an entry is picked: its name is no longer listed, it
carries what it carried unless the teardown succeeds, and a VPN is no longer tracked. -/
structure TakesDown (m m' : NetworkManager) (name : String) (outcome : Result Unit) : Prop where
  listed : ∀ n, MitosNetwork.listed m'.active n =
    if n = name then none else MitosNetwork.listed m.active n
  carried : ∀ n, MitosNetwork.carried m'.devices n =
    if n = name ∧ outcome = .ok () then none else MitosNetwork.carried m.devices n
  sessions : ∀ n, m'.sessions.lookup n =
    if n = name ∧ (m.devices.get name).any (·.deviceType = .vpn) then none
    else m.sessions.lookup n

theorem state_deactivated (profileId actor deviceName : String) (result : Result Unit) :
    ∃ events, (deactivated profileId actor deviceName result w k m).state =
      { m with events := events } := by
  cases result with
  | error e => exact ⟨m.events, rfl⟩
  | ok u => exact ⟨_, rfl⟩

theorem result_deactivated (profileId actor deviceName : String) (result : Result Unit) :
    (deactivated profileId actor deviceName result w k m).result = .ok ↔ result = .ok () := by
  cases result with
  | error e => exact ⟨nofun, nofun⟩
  | ok u => exact ⟨fun _ => rfl, fun _ => rfl⟩

theorem lookup_sessionsLeft (dev : NetworkDevice) (sessions : Table String VpnKind) (n : String) :
    (sessionsLeft dev sessions).lookup n =
      if n = dev.name ∧ dev.deviceType = .vpn then none else sessions.lookup n := by
  unfold sessionsLeft
  split
  · rename_i htype
    rw [Table.lookup_erase_eq]
    simp only [htype, and_true]
  · rename_i htype
    simp only [htype, and_false, if_false]

theorem carried_insert_deviceLeft (hget : m.devices.get device.name = some device)
    (outcome : Result Unit) (n : String) :
    carried (m.devices.insert (deviceLeft device outcome)) n =
      if n = device.name ∧ outcome = .ok () then none else carried m.devices n := by
  rw [carried_insert]
  cases outcome with
  | ok u =>
    show (if n = device.name then none else carried m.devices n) = _
    simp only [and_true]
  | error e =>
    show (if n = device.name then device.activeConnection else carried m.devices n) = _
    rw [if_neg (c := n = device.name ∧ _) fun h => nomatch h.2]
    split
    · rename_i hn
      rw [hn, carried, hget, bind_some]
    · rfl

theorem deactivateDevice_apply (profileId actor name : String) (device : NetworkDevice) :
    ∃ log, deactivateDevice profileId actor name (some device) w k m =
      let done := deactivated profileId actor name (tornDown w k device m.sessions) w
        (k + log.length)
        { m with
          devices := m.devices.insert
            (deviceLeft device (tornDown w k device m.sessions))
          sessions := sessionsLeft device m.sessions }
      ⟨done.result, done.state, log ++ done.log⟩ := by
  obtain ⟨log, hrun⟩ := deactivate_spec (w := w) (k := k) device m.sessions
  refine ⟨log.map Proc.liftEntry, Proc.bind_apply ?_⟩
  rw [onDevice, Proc.zoom, hrun]

theorem takesDown_deactivateDevice (profileId actor : String)
    (hget : m.devices.get device.name = some device) :
    TakesDown m (deactivateDevice profileId actor device.name (some device) w k
        { m with active := m.active.erase device.name }).state device.name
        (tornDown w k device m.sessions) ∧
      ((deactivateDevice profileId actor device.name (some device) w k
        { m with active := m.active.erase device.name }).result = .ok ↔
        tornDown w k device m.sessions = .ok ()) := by
  obtain ⟨log, hran⟩ := deactivateDevice_apply (w := w) (k := k)
    (m := { m with active := m.active.erase device.name }) profileId actor device.name device
  rw [hran]
  refine ⟨?_, result_deactivated _ _ _ _⟩
  obtain ⟨events, hst⟩ := state_deactivated (w := w) (k := k + log.length)
    (m := { m with
      active := m.active.erase device.name
      devices := m.devices.insert
        (deviceLeft device (tornDown w k device m.sessions))
      sessions := sessionsLeft device m.sessions })
    profileId actor device.name (tornDown w k device m.sessions)
  rw [hst]
  refine ⟨listed_erase _ _, carried_insert_deviceLeft hget _, fun n => ?_⟩
  rw [hget]
  simpa using lookup_sessionsLeft device m.sessions n

theorem takesDown_deactivateProfile (actor : String)
    (h : entryToTakeDown w k m profileId = some entry) :
    TakesDown m (deactivateProfile profileId actor w k m).state entry.1
        (tornDownUnder w (k + 1) m entry.1) ∧
      ((deactivateProfile profileId actor w k m).result = .ok ↔
        tornDownUnder w (k + 1) m entry.1 = .ok ()) := by
  rw [deactivateProfile_apply _ _ _ _ _ h, deactivateEntry_some]
  unfold tornDownUnder
  cases hget : m.devices.get entry.1 with
  | none =>
    refine ⟨⟨listed_erase _ _, fun n => ?_, fun n => ?_⟩, ⟨nofun, nofun⟩⟩
    · rw [if_neg fun h => nomatch h.2]
      rfl
    · rw [hget, if_neg fun h => nomatch h.2]
      rfl
  | some device =>
    have hname := DeviceRegistry.name_of_get hget
    rw [← hname] at hget ⊢
    exact takesDown_deactivateDevice profileId actor hget

/-! ## Complete deactivations -/

/-- Nothing is left of a profile: no entry of the active map has it, and no device carries it. -/
def Cleared (m : NetworkManager) (profileId : String) : Prop :=
  (∀ e ∈ m.active.entries, e.2.profileId ≠ profileId) ∧
    ∀ dev ∈ m.devices.values, dev.activeConnection ≠ some profileId

/-- All that there is of a profile is taken down: what the map lists of it is under one name, and a
device that carries it has that name, is listed with it and can be torn down. -/
def TakesAllDown (w : World Call.Answer) (k : ℕ) (m : NetworkManager) (profileId : String) : Prop :=
  ∃ name, (∀ e ∈ m.active.entries, e.2.profileId = profileId → e.1 = name) ∧
    ∀ dev ∈ m.devices.values, dev.activeConnection = some profileId →
      dev.name = name ∧ listed m.active name = some profileId ∧
        tornDown w (k + 1) dev m.sessions = .ok ()

theorem exists_mem_values_iff {r : DeviceRegistry} :
    carried r n = some profileId ↔
      ∃ dev ∈ r.values, dev.name = n ∧ dev.activeConnection = some profileId := by
  rw [carried_eq_some_iff]
  constructor
  · rintro ⟨dev, hget, hcarries⟩
    have hname := DeviceRegistry.name_of_get hget
    exact ⟨dev, DeviceRegistry.mem_values.mpr (hname ▸ hget), hname, hcarries⟩
  · rintro ⟨dev, hmem, rfl, hcarries⟩
    exact ⟨dev, DeviceRegistry.mem_values.mp hmem, hcarries⟩

theorem cleared_iff : Cleared m profileId ↔
    ∀ n, listed m.active n ≠ some profileId ∧ carried m.devices n ≠ some profileId := by
  constructor
  · rintro ⟨hact, hdevs⟩ n
    refine ⟨fun h => ?_, fun h => ?_⟩
    · obtain ⟨e, he, -, hid⟩ := listed_eq_some_iff.mp h
      exact hact e he hid
    · obtain ⟨dev, hdev, -, hcarries⟩ := exists_mem_values_iff.mp h
      exact hdevs dev hdev hcarries
  · intro h
    exact ⟨fun e he hid => (h e.1).1 (listed_eq_some_iff.mpr ⟨e, he, rfl, hid⟩),
      fun dev hdev hcarries =>
        (h dev.name).2 (exists_mem_values_iff.mpr ⟨dev, hdev, rfl, hcarries⟩)⟩

theorem TakesDown.cleared_iff (h : TakesDown m m' name (tornDownUnder w (k + 1) m name))
    (hls : MitosNetwork.listed m.active name = some profileId) :
    Cleared m' profileId ↔ TakesAllDown w k m profileId := by
  have hunder : ∀ dev ∈ m.devices.values, dev.name = name →
      tornDownUnder w (k + 1) m name = tornDown w (k + 1) dev m.sessions := by
    rintro dev hdev rfl
    rw [tornDownUnder, DeviceRegistry.mem_values.mp hdev]
  rw [NetworkManager.cleared_iff]
  constructor
  · intro hclr
    have hname : ∀ n, MitosNetwork.carried m.devices n = some profileId →
        n = name ∧ tornDownUnder w (k + 1) m name = .ok () := by
      intro n hn
      by_contra hne
      apply (hclr n).2
      rw [h.carried, if_neg hne, hn]
    refine ⟨name, fun e he hid => ?_, fun dev hdev hcarries => ?_⟩
    · by_contra hne
      apply (hclr e.1).1
      rw [h.listed, if_neg hne]
      exact listed_eq_some_iff.mpr ⟨e, he, rfl, hid⟩
    · obtain ⟨hdevName, hdown⟩ :=
        hname dev.name (exists_mem_values_iff.mpr ⟨dev, hdev, rfl, hcarries⟩)
      exact ⟨hdevName, hls, (hunder dev hdev hdevName).symm.trans hdown⟩
  · rintro ⟨only, hents, hdevs⟩ n
    obtain ⟨e, he, hkey, hid⟩ := listed_eq_some_iff.mp hls
    have honly : name = only := hkey.symm.trans (hents e he hid)
    constructor
    · rw [h.listed]
      split
      · exact nofun
      · rename_i hn
        intro hlisted'
        obtain ⟨e', he', hkey', hid'⟩ := listed_eq_some_iff.mp hlisted'
        exact hn (hkey'.symm.trans ((hents e' he' hid').trans honly.symm))
    · rw [h.carried]
      split
      · exact nofun
      · rename_i hkept
        intro hcar
        obtain ⟨dev, hdev, hdevName, hcarries⟩ := exists_mem_values_iff.mp hcar
        obtain ⟨hdevOnly, -, hdown⟩ := hdevs dev hdev hcarries
        have hnmd : dev.name = name := hdevOnly.trans honly.symm
        exact hkept ⟨hdevName.symm.trans hnmd, (hunder dev hdev hnmd).trans hdown⟩

theorem cleared_iff_of_not_listed (h : ∀ n, listed m.active n ≠ some profileId) :
    Cleared m profileId ↔ TakesAllDown w k m profileId := by
  constructor
  · rintro ⟨hact, hdevs⟩
    exact ⟨"", fun e he hid => absurd hid (hact e he),
      fun dev hdev hcarries => absurd hcarries (hdevs dev hdev)⟩
  · rintro ⟨name, -, hdevs⟩
    exact ⟨fun e he hid => h e.1 (listed_eq_some_iff.mpr ⟨e, he, rfl, hid⟩),
      fun dev hdev hcarries => h name (hdevs dev hdev hcarries).2.1⟩

theorem cleared_deactivateProfile_iff (actor : String)
    (h : entryToTakeDown w k m profileId = some entry) :
    Cleared (deactivateProfile profileId actor w k m).state profileId ↔
      TakesAllDown w k m profileId :=
  (takesDown_deactivateProfile actor h).1.cleared_iff (listed_entryToTakeDown h)

theorem cleared_deactivateIfActive_iff (actor : String) :
    Cleared (deactivateIfActive actor profileId w k m).state profileId ↔
      TakesAllDown w k m profileId := by
  rw [deactivateIfActive, Proc.get_bind]
  split
  · rename_i hact
    obtain ⟨entry, hent⟩ := entryToTakeDown_of_any (w := w) (k := k) hact
    exact cleared_deactivateProfile_iff actor hent
  · rename_i hact
    exact cleared_iff_of_not_listed (not_listed_of_not_any hact)

theorem cleared_deleteConnection_iff (actor : String) :
    Cleared (deleteConnection actor profileId w k m).state profileId ↔
      TakesAllDown w k m profileId := by
  rw [← cleared_deactivateIfActive_iff actor]
  let m₁ := (deactivateIfActive actor profileId w k m).state
  have hdel : Lawful w (holding m₁.devices m₁.active) anyLog
      (Profiles.delete profileId >>= connectionDeleted actor profileId) :=
    obeys_deleted (lenient_ruleOf fun _ _ _ _ _ _ _ h => h) (fun _ h => ⟨h, anyLog.nil⟩) fun _ =>
      allowsAudit_ruleOf _ _ _
  obtain ⟨⟨hdevs, hact⟩, -⟩ := hdel
    (k + (deactivateIfActive actor profileId w k m).log.length) m₁ ⟨rfl, rfl⟩
  rw [deleteConnection, Proc.state_bind, Cleared, hdevs, hact]
  rfl

/-- A request to deactivate or delete a profile that is answered with `Ok` leaves nothing of it if
and only if it takes down all that there is. -/
theorem complete_iff (identity : PeerIdentity) {req : Request}
    (hreq : (Daemon.Stage.command (.request req identity)).takesDown = some profileId)
    (hok : (handleRequest identity req w k m).result = .ok) :
    Cleared (handleRequest identity req w k m).state profileId ↔ TakesAllDown w k m profileId := by
  cases req with
  | deactivateConnection id =>
    cases hreq
    cases hentry : entryToTakeDown w k m profileId with
    | none =>
      change (deactivateProfile profileId _ w k m).result = _ at hok
      rw [deactivateProfile_apply _ _ _ _ _ hentry] at hok
      cases hok
    | some entry => exact cleared_deactivateProfile_iff _ hentry
  | deleteConnection id =>
    cases hreq
    exact cleared_deleteConnection_iff _
  | _ => cases hreq

/-- A profile is added and activated so many times, on a machine with these links. -/
def activatedTimes (links : List Interface) (times : ℕ) : Daemon.Run :=
  Daemon.wiredRun ["lo"] links (.addConnection (Daemon.wiredProfile "office" false) ::
    List.replicate times (.activateConnection "office"))

def managerAfter (r : Daemon.Run) : Option NetworkManager :=
  r.initial.map fun d => (Machine.finalState Daemon.step d r.stages).manager

theorem reachable_managerAfter {r : Daemon.Run} (h : managerAfter r = some m) :
    Daemon.Reachable m := by
  obtain ⟨d, hd, rfl⟩ := map_eq_some_iff.mp h
  exact Daemon.reachable_finalState hd

/-- The profile is deactivated where everything works. -/
def officeDown (links : List Interface) (m : NetworkManager) : Ran Call.Answer ActivateCall
    NetworkManager Response :=
  handleRequest ⟨0, 0, 1⟩ (.deactivateConnection "office") (fun _ => calm links (.ok ())) 0 m

theorem complete_office :
    ∃ m, managerAfter (activatedTimes [Daemon.wired 2 "eth0"] 1) = some m ∧
      (officeDown [Daemon.wired 2 "eth0"] m).result = .ok ∧
      Cleared (officeDown [Daemon.wired 2 "eth0"] m).state "office" := by
  obtain ⟨m, hm, hok, hentries, hlisted, hdevices⟩ :
      ∃ m ∈ managerAfter (activatedTimes [Daemon.wired 2 "eth0"] 1),
      some (officeDown [Daemon.wired 2 "eth0"] m).result = some .ok ∧
      (∀ e ∈ m.active.entries, e.1 = "eth0") ∧ listed m.active "eth0" = some "office" ∧
      ∀ dev ∈ m.devices.values, dev.name = "eth0" ∧ dev.deviceType = .ethernet := by decide +kernel
  have hok' := Option.some.inj hok
  have hreq : (Daemon.Stage.command (.request (.deactivateConnection "office")
      ⟨0, 0, 1⟩)).takesDown = some "office" := rfl
  refine ⟨m, hm, hok', (complete_iff ⟨0, 0, 1⟩ hreq hok').mpr
    ⟨"eth0", fun e he _ => hentries e he, fun dev hdev _ => ?_⟩⟩
  obtain ⟨hname, htype⟩ := hdevices dev hdev
  refine ⟨hname, hlisted, ?_⟩
  simp only [tornDown, htype]
  rfl

/-- With two ports the profile can be activated twice, and the second one stays up. -/
theorem incomplete_office :
    ((managerAfter (activatedTimes Tracked.twoLinks 2)).map fun m => decide (
      some (officeDown Tracked.twoLinks m).result = some .ok ∧
      ∃ e ∈ (officeDown Tracked.twoLinks m).state.active.entries, e.2.profileId = "office")) =
        some true ∧
    ¬∀ m, Daemon.Reachable m → ∀ identity profileId w,
      (handleRequest identity (.deactivateConnection profileId) w 0 m).result = .ok →
      Cleared (handleRequest identity (.deactivateConnection profileId) w 0 m).state profileId := by
  refine and_iff_left_of_imp (fun hrun h => ?_) |>.mpr (by decide +kernel)
  obtain ⟨m, hm, hfacts⟩ := map_eq_some_iff.mp hrun
  obtain ⟨hok, e, he, hid⟩ := of_decide_eq_true hfacts
  exact (h m (reachable_managerAfter hm) _ "office" _ (Option.some.inj hok)).1 e he hid

/-! ## Failed deactivations -/

/-- An entry is still recorded after a request, and the session that it reports is tracked if it
was. -/
def StillRecorded (m m' : NetworkManager) (entry : Σ _ : String, ActiveConnection) : Prop :=
  m'.active.lookup entry.1 = some entry.2 ∧
    ((m.sessions.lookup entry.2.deviceName).isSome → (m'.sessions.lookup entry.2.deviceName).isSome)

theorem result_deactivateProfile (actor : String) :
    (deactivateProfile profileId actor w k m).result = .ok ∨
      ∃ message, (deactivateProfile profileId actor w k m).result = .error message := by
  cases hent : entryToTakeDown w k m profileId with
  | none =>
    rw [deactivateProfile_apply _ _ _ _ _ hent]
    exact .inr ⟨_, rfl⟩
  | some entry =>
    rw [deactivateProfile_apply _ _ _ _ _ hent, deactivateEntry_some]
    cases m.devices.get entry.1 with
    | none => exact .inr ⟨_, rfl⟩
    | some device =>
      obtain ⟨log, hran⟩ := deactivateDevice_apply (w := w) (k := k + 1)
        (m := { m with active := m.active.erase entry.1 }) profileId actor entry.1 device
      rw [hran]
      cases tornDown w (k + 1) device m.sessions with
      | error e => exact .inr ⟨_, rfl⟩
      | ok u => exact .inl rfl

/-- **A failed teardown cannot be retried.** That an `Error` leaves the entry of the request
recorded holds if and only if the teardown succeeds, so that there is no `Error`. Whatever entry a
later request for the profile picks, it is not the one that failed. -/
theorem retry_iff (identity : PeerIdentity) {entry : Σ _ : String, ActiveConnection}
    (hactive : entryToTakeDown w k m profileId = some entry) :
    (((∃ message, (handleRequest identity (.deactivateConnection profileId) w k m).result =
        .error message) →
      StillRecorded m (handleRequest identity (.deactivateConnection profileId) w k m).state
        entry) ↔
      tornDownUnder w (k + 1) m entry.1 = .ok ()) ∧
    ∀ w' k' later, entryToTakeDown w' k'
        (handleRequest identity (.deactivateConnection profileId) w k m).state profileId =
          some later → later.1 ≠ entry.1 := by
  let actor := "uid:" ++ toString identity.uid.toNat
  obtain ⟨htakes, hok⟩ := takesDown_deactivateProfile (w := w) (k := k) actor hactive
  have hgone : listed (deactivateProfile profileId actor w k m).state.active entry.1 = none :=
    (htakes.listed entry.1).trans (if_pos rfl)
  change (((∃ message, (deactivateProfile profileId actor w k m).result = .error message) →
    StillRecorded m (deactivateProfile profileId actor w k m).state entry) ↔ _) ∧
    ∀ w' k' later, entryToTakeDown w' k' (deactivateProfile profileId actor w k m).state
      profileId = some later → _
  refine ⟨⟨fun hretry => ?_, fun hdown herror => ?_⟩, fun w' k' later hlater hsame => ?_⟩
  · by_contra hdown
    have hkept := hretry ((result_deactivateProfile actor).resolve_left (mt hok.mp hdown))
    rw [listed, hkept.1] at hgone
    cases hgone
  · obtain ⟨message, herror⟩ := herror
    rw [hok.mpr hdown] at herror
    cases herror
  · have hlisted := listed_entryToTakeDown hlater
    rw [hsame, hgone] at hlisted
    cases hlisted

/-- A wired link whose addresses cannot be flushed. -/
def busyLink : World Call.Answer := fun _ =>
  calm [Daemon.wired 2 "eth0"] (.error (.netlink "busy"))

/-- On that link the request answers `Error`, and its entry is gone. -/
theorem retry_office :
    ∃ m entry, managerAfter (activatedTimes [Daemon.wired 2 "eth0"] 1) = some m ∧
      (∃ message, (handleRequest ⟨0, 0, 1⟩ (.deactivateConnection "office") busyLink 0 m).result =
        .error message) ∧
      ¬StillRecorded m (handleRequest ⟨0, 0, 1⟩ (.deactivateConnection "office") busyLink 0 m).state
        entry := by
  obtain ⟨m, hm, hentry, hdevice⟩ : ∃ m ∈ managerAfter (activatedTimes [Daemon.wired 2 "eth0"] 1),
      (entryToTakeDown busyLink 0 m "office").map (·.1) = some "eth0" ∧
      (m.devices.get "eth0").map (·.deviceType) = some .ethernet := by decide +kernel
  obtain ⟨entry, hentry, hkey⟩ := map_eq_some_iff.mp hentry
  obtain ⟨device, hget, htype⟩ := map_eq_some_iff.mp hdevice
  refine ⟨m, entry, hm, Classical.not_imp.mp (mt (retry_iff ⟨0, 0, 1⟩ hentry).1.mp ?_)⟩
  rw [hkey]
  simp only [tornDownUnder, hget, tornDown, htype]
  exact nofun

def errorText : Response → Option String
  | .error message => some message
  | _ => none

theorem errorText_eq_some {r : Response} {message : String} :
    errorText r = some message ↔ r = .error message := by
  cases r <;> simp [errorText]

def tunnelProfile : ConnectionProfile :=
  { Daemon.wiredProfile "tunnel" false with
    deviceType := .vpn, vpn := some ⟨.wireGuard, "[Interface]"⟩ }

/-- A machine with a WireGuard device, where VPN sessions come up with this name and are taken down
with this outcome. -/
def tunnelWorld (session : String) (down : Result Unit) : World Call.Answer := fun _ c =>
  match c with
  | .vpnConnect _ _ _ => Except.ok session
  | .vpnDisconnect _ _ => down
  | c => calm [⟨4, "wg0", 0x41, 1420, none, some "wireguard"⟩] (.ok ()) c

/-- The profile is added and activated. -/
def tunnelRun (session : String) : Daemon.Run where
  config := Config.defaultConfig
  boot := ⟨none, none⟩
  newWorld := tunnelWorld session (.ok ())
  startWorld := tunnelWorld session (.ok ())
  commands := [.addConnection tunnelProfile, .activateConnection "tunnel"].map fun req =>
    (.request req ⟨0, 0, 1⟩, tunnelWorld session (.ok ()))

/-- The answers to two requests to deactivate a profile, with the sessions in between. -/
def deactivatedTwice (profileId : String) (w : World Call.Answer) (m : NetworkManager) :
    Option String × List String × Option String :=
  let first := handleRequest ⟨0, 0, 1⟩ (.deactivateConnection profileId) w 0 m
  let second := handleRequest ⟨0, 0, 1⟩ (.deactivateConnection profileId) w 0 first.state
  (errorText first.result, first.state.sessions.keys, errorText second.result)

/-- The addresses cannot be flushed, or the VPN interface cannot be deleted: the second request does
not find the connection. -/
theorem not_retried :
    (managerAfter (activatedTimes [Daemon.wired 2 "eth0"] 1)).map
        (deactivatedTwice "office" busyLink) =
      some (some "deactivation failed: netlink error: busy", [],
        some "connection 'office' is not active") ∧
    ((managerAfter (tunnelRun "wg0")).map fun m => (m.sessions.keys, deactivatedTwice "tunnel"
        (tunnelWorld "wg0" (.error (.vpn "busy"))) m)) =
      some (["wg0"], some "deactivation failed: VPN error: busy", [],
        some "connection 'tunnel' is not active") ∧
    ¬∀ m, Daemon.Reachable m → ∀ identity profileId w entry,
      entryToTakeDown w 0 m profileId = some entry →
      (∃ message, (handleRequest identity (.deactivateConnection profileId) w 0 m).result =
        .error message) →
      StillRecorded m (handleRequest identity (.deactivateConnection profileId) w 0 m).state
        entry := by
  refine ⟨by decide +kernel, by decide +kernel, fun h => ?_⟩
  have hrun : ((managerAfter (activatedTimes [Daemon.wired 2 "eth0"] 1)).map fun m =>
      let r := handleRequest ⟨0, 0, 1⟩ (.deactivateConnection "office") busyLink 0 m
      decide ((entryToTakeDown busyLink 0 m "office").isSome ∧
        errorText r.result = some "deactivation failed: netlink error: busy" ∧
        r.state.active.entries.length = 0)) = some true := by decide +kernel
  obtain ⟨m, hm, hfacts⟩ := map_eq_some_iff.mp hrun
  obtain ⟨hactive, herror, hempty⟩ := of_decide_eq_true hfacts
  obtain ⟨entry, hentry⟩ := isSome_iff_exists.mp hactive
  have hkept := (h m (reachable_managerAfter hm) _ "office" _ entry hentry
    ⟨_, errorText_eq_some.mp herror⟩).1
  have hmem := Table.mem_entries_iff.mpr hkept
  rw [List.length_eq_zero_iff.mp hempty] at hmem
  cases hmem

end NetworkManager

end MitosNetwork
