import MitosNetwork.Connection.NameServers
import MitosNetwork.Manager.Daemon

/-!
# What a stage of the daemon may do

One pass over the programs of the manager, for any rule of conduct. A rule that is lenient leaves
alone everything but the configuration, the connections, the connectivity, the registry, the active
map, the addresses, the leases and the audit log; for what touches those the lemmas here take what
the rule has to allow as hypotheses: activating a profile, deactivating one, refreshing the
registry, dropping an unplugged device, starting a hotspot, checking the leases, each kind of edit,
and each record of the audit log, of which `Records` says which a request can make.
-/

namespace MitosNetwork

namespace NetworkManager

open Validation Proc

variable {action detail : String} {op : Firewall.Op} {req : Request}

abbrev Conduct := Proc.Conduct Call.Answer ActivateCall NetworkManager

abbrev Obeys {α : Type} (w : World Call.Answer) (R : Conduct) (prog : M α) : Prop :=
  Proc.Obeys w R prog

abbrev ObeysAt {α : Type} (w : World Call.Answer) (R : Conduct) (prog : M α) (k : ℕ)
    (m : NetworkManager) : Prop :=
  Proc.ObeysAt w R prog k m

def isStateChange : Event → Bool
  | .stateChanged _ => true
  | _ => false

def Truthful (m : NetworkManager) (event : Event) : Prop :=
  ∀ state, event = .stateChanged state → state = overallState m.devices.values m.connectivity

/-- The rule allows calls that are inert, events that are true, the operations of the firewall that
the manager performs, and whatever is done to the proxy and the access points. -/
structure Lenient (R : Conduct) : Prop where
  call : ∀ {c : Call}, c.isInert = true → ∀ m a, R.Allows m [.call c a] m
  event : ∀ {m event}, Truthful m event → ∀ live : ℕ → Bool,
    R.Allows m [.call .liveClients live] { m with events := m.events.broadcast live event }
  proxy : ∀ m proxy, R.Allows m [] { m with proxy := proxy }
  firewall : ∀ m (op : Firewall.Op) nft, op.isOwn = true →
    R.Allows m [] { m with host := (m.host.perform op nft).1 }
  hostapd : ∀ m hostapd, R.Allows m [] { m with hostapd := hostapd }

abbrev AllowsInert (R : Conduct) : Prop :=
  ∀ {c : Call}, c.isInert = true → ∀ m a, R.Allows m [.call c a] m

def AllowsPlain (R : Conduct) : Prop :=
  ∀ {c : Call}, c.isPlain = true → ∀ m a, R.Allows m [.call c a] m

/-- The rule allows the calls for hostapd on an interface. -/
def AllowsHostapd (R : Conduct) (ifname : String) : Prop :=
  ∀ {c : Call}, c.hostapdOf = some ifname → ∀ m a, R.Allows m [.call c a] m

theorem AllowsPlain.hostapd {R : Conduct} {ifname : String} (h : AllowsPlain R) :
    AllowsHostapd R ifname := fun hc => h (Call.of_hostapdOf hc).1

def AllowsAudit (R : Conduct) (actor action detail : String) : Prop :=
  ∀ m a, R.Allows m [.call (.audit actor action detail) a] m

variable {w : World Call.Answer} {R : Conduct} {α : Type} {m : NetworkManager}

theorem obeys_audit {actor : String} (h : AllowsAudit R actor action detail) :
    Obeys w R (audit actor action detail) := .call h

theorem obeys_query (f : NetworkManager → Response) :
    Obeys w R (Proc.get >>= fun m => pure (f m)) :=
  Proc.Obeys.get.bind fun m => .pure (f m)

section Inert

variable (h : AllowsInert R)
include h

theorem obeys_call {c : Call} (hc : c.isInert = true) : Obeys w R (call c) := .call (h hc)

theorem obeys_scan : Obeys w R scan := by
  refine (obeys_call h rfl).bind fun links => ?_
  cases links with
  | error e => exact .pure _
  | ok links =>
    exact (obeys_call h rfl).bind fun _ => (obeys_call h rfl).bind fun _ => .pure _

theorem obeys_visibleSsids (device : NetworkDevice) : Obeys w R (visibleSsids device) := by
  unfold visibleSsids
  split
  · exact Proc.Obeys.get.bind fun _ => (obeys_call h rfl).bind fun _ => .pure _
  · exact .pure []

theorem obeys_deviceNames (test : NetworkDevice → Bool) : Obeys w R (deviceNames test) :=
  Proc.Obeys.get.bind fun _ => (obeys_call h rfl).bind fun _ => .pure _

theorem obeys_delete (id : String) : Obeys w R (Profiles.delete id) := by
  unfold Profiles.delete
  split
  · exact .pure _
  · exact (obeys_call h rfl).bind fun _ => .pure _

theorem obeys_touch (id : String) : Obeys w R (Profiles.touch id) := by
  unfold Profiles.touch
  split
  · exact .pure _
  · exact obeys_call h rfl

theorem obeys_control (args : List String) : Obeys w R (Bluetooth.control args) :=
  (obeys_call h rfl).bind fun _ => .pure _

theorem obeys_infos (devices : List (List Char × List Char)) :
    Obeys w R (Bluetooth.infos devices) := by
  induction devices with
  | nil => exact .pure _
  | cons d rest ih =>
    exact (obeys_call h rfl).bind fun _ => ih.bind fun _ => .pure _

theorem obeys_listDevices : Obeys w R Bluetooth.listDevices := by
  refine (obeys_call h rfl).bind fun raw => ?_
  cases raw with
  | error e => exact .pure _
  | ok raw => exact (obeys_infos h _).bind fun _ => .pure _

end Inert

theorem readOnly_scan : scan.ReadOnly := fun _ => obeys_scan (R := .still) fun _ _ _ => rfl

/-- The registry after a refresh, by the answers of the outside. -/
def rescanned (w : World Call.Answer) (m : NetworkManager) : DeviceRegistry :=
  match (w 0 .listLinks : Result (List Interface)) with
  | .error _ => m.devices
  | .ok links =>
    let addrs : Result (List LinkAddress) := w 1 .listAddresses
    m.devices.refreshed m.config.general.unmanagedDevices
      (links.map (Discovery.scanned (addrs.toOption.getD []) (w 2 .sysfs)))

theorem state_refresh :
    (refresh w 0 m).state = { m with devices := rescanned w m } := by
  have hres : (scan w 0 m).result = (scanLinks (w 0 .listLinks) w 1 m).result := rfl
  rw [refresh, state_bind, readOnly_scan, hres, rescanned]
  cases (w 0 .listLinks : Result (List Interface)) with
  | error e => rfl
  | ok links => rfl

theorem rescanned_of_scan {scanned : List NetworkDevice}
    (h : (scan w 0 m).result = .ok scanned) :
    rescanned w m = m.devices.refreshed m.config.general.unmanagedDevices scanned := by
  have hres : (scan w 0 m).result = (scanLinks (w 0 .listLinks) w 1 m).result := rfl
  rw [hres] at h
  unfold rescanned
  cases hlk : (w 0 .listLinks : Result (List Interface)) with
  | error e =>
    rw [hlk] at h
    cases h
  | ok links =>
    rw [hlk] at h
    rw [← Except.ok.inj h]
    rfl

/-! ## The profile that a request activates -/

/-- The profile that `Request::ConnectWifi` stores. -/
def wifiProfile (device ssid : String) (security : SecurityType) : ConnectionProfile :=
  { ConnectionProfile.newWifi ("wifi-" ++ ssid) ssid security with interfaceName := some device }

def profileToActivate (m : NetworkManager) : Request → Option ConnectionProfile
  | .activateConnection id => m.stored id
  | .connectWifi device ssid security _ => some (wifiProfile device ssid security)
  | _ => none

theorem stored_put (m : NetworkManager) (profile : ConnectionProfile) :
    stored { m with connections := m.connections.filter (fun p => p.id ≠ profile.id) ++ [profile] }
      profile.id = some profile := by
  have hnone : (m.connections.filter fun p => p.id ≠ profile.id).find?
      (fun p => p.id = profile.id) = none := by
    rw [List.find?_eq_none]
    intro p hp
    simpa using (List.mem_filter.mp hp).2
  rw [stored, List.find?_append, hnone, Option.none_or]
  exact List.find?_cons_of_pos (decide_eq_true rfl)

/-! ## The device that a profile is activated on -/

/-- The first device that fits, in the order that the registry is iterated in. -/
def chosenDevice (w : World Call.Answer) (k : ℕ) (m : NetworkManager)
    (profile : ConnectionProfile) : Option NetworkDevice :=
  ((w k .deviceOrder : Order NetworkDevice).arrange m.devices.values).find? (fits profile)

section Chosen

variable {k : ℕ} {profileId actor : String} {profile : ConnectionProfile}
  {device : NetworkDevice}

theorem id_of_stored (h : m.stored profileId = some profile) : profile.id = profileId := by
  have hid := List.find?_some h
  exact of_decide_eq_true hid

theorem of_chosenDevice (h : chosenDevice w k m profile = some device) :
    m.devices.get device.name = some device ∧ fits profile device = true := by
  obtain ⟨hmem, hfits⟩ := Order.of_find?_arrange h
  exact ⟨DeviceRegistry.mem_values.mp hmem, hfits⟩

theorem free_of_fits (h : fits profile device = true) : device.activeConnection = none := by
  simp only [fits, Bool.and_eq_true] at h
  exact Option.isNone_iff_eq_none.mp h.1.2

theorem activateProfile_of_not_stored (hstored : m.stored profileId = none) :
    activateProfile profileId actor w k m =
      ⟨.error ("no such connection profile '" ++ profileId ++ "'"), m, []⟩ := by
  rw [activateProfile, get_bind, hstored]
  rfl

variable (hstored : m.stored profileId = some profile)
include hstored

theorem activateProfile_of_not_chosen (hch : chosenDevice w k m profile = none) :
    activateProfile profileId actor w k m =
      ⟨.error ("no available " ++ profile.deviceType.display ++ " device for '" ++ profileId ++
          "'"),
        m, [.call .deviceOrder (w k .deviceOrder)]⟩ := by
  have hfind : findDeviceForProfile profile w k m =
      ⟨(chosenDevice w k m profile).map (·.name), m, [.call .deviceOrder (w k .deviceOrder)]⟩ := rfl
  rw [hch] at hfind
  simp only [activateProfile, get_bind, hstored, bind_apply hfind]
  rfl

theorem activateProfile_of_chosen (hch : chosenDevice w k m profile = some device) :
    activateProfile profileId actor w k m =
      let ran := activateDevice profile profileId actor device.name m.devices (some device) w
        (k + 1) m
      ⟨ran.result, ran.state, [.call .deviceOrder (w k .deviceOrder)] ++ ran.log⟩ := by
  have hfind : findDeviceForProfile profile w k m =
      ⟨(chosenDevice w k m profile).map (·.name), m, [.call .deviceOrder (w k .deviceOrder)]⟩ := rfl
  have hon : activateOn profile profileId actor device.name w (k + 1) m =
      activateDevice profile profileId actor device.name m.devices (some device) w (k + 1) m := by
    rw [activateOn, get_bind, (of_chosenDevice hch).1]
  rw [hch] at hfind
  simp only [activateProfile, get_bind, hstored, bind_apply hfind]
  rw [← hon]
  rfl

end Chosen

/-! ## Everything that only looks, calls and tells -/

section Lenient

variable (hR : Lenient R)
include hR

variable {Q : Call → Prop} {event : Event} {deviceName profileId device ssid id : String}
  {act : Ran Call.Answer Empty Work (Result ActiveConnection)} {profile : ConnectionProfile}
  {sessions : Table String VpnKind} {passphrase : Option String}

variable {k : ℕ} {actor : String}

omit hR in
theorem allows_calls (hQ : ∀ {c : Call}, Q c → ∀ m a, R.Allows m [.call c a] m)
    {log : List (Entry Call.Answer Empty)} (h : ∀ c a, .call c a ∈ log → Q c) (m : NetworkManager) :
    R.Allows m (log.map Proc.liftEntry) m := by
  induction log with
  | nil => exact R.refl m
  | cons e log ih =>
    have hrest := ih fun c a hmem => h c a (List.mem_cons_of_mem _ hmem)
    cases e with
    | note n => exact n.elim
    | call c a => exact R.trans (hQ (h c a List.mem_cons_self) m a) hrest

omit hR in
theorem obeys_zoom (hQ : ∀ {c : Call}, Q c → ∀ m a, R.Allows m [.call c a] m) {τ : Type}
    {view : NetworkManager → τ} {update : τ → NetworkManager → NetworkManager} {prog : Prog τ α}
    (hmk : prog.Makes Q) (hst : ∀ m k, R.Allows m [] (update (prog w k (view m)).state m)) :
    Obeys w R (Proc.zoom view update prog) := by
  intro k m
  have hall := R.trans (allows_calls hQ (hmk w k (view m)) m) (hst m k)
  rwa [List.append_nil] at hall

theorem obeysAt_broadcast (h : Truthful m event) : ObeysAt w R (broadcast event) k m := hR.event h _

theorem obeys_broadcast (h : isStateChange event = false) : Obeys w R (broadcast event) := by
  refine fun _ _ => obeysAt_broadcast hR fun state heq => ?_
  rw [heq] at h
  cases h

theorem obeys_broadcastState : Obeys w R broadcastState := fun _ m =>
  .bind_run (R.refl m)
    (obeysAt_broadcast hR fun _ heq => (Event.stateChanged.inj heq).symm)

theorem obeys_onProxy {prog : Prog ProxyState α} (hin : Inert prog) :
    Obeys w R (onProxy prog) := obeys_zoom hR.call hin fun m _ => hR.proxy m _

theorem obeys_announce (name : String) {event : NetworkDevice → Event}
    (h : ∀ dev, isStateChange (event dev) = false) : Obeys w R (announce name event) := by
  refine Proc.Obeys.get.bind fun m => ?_
  split
  · exact obeys_broadcast hR (h _)
  · exact .pure ()

theorem obeys_diagnose : Obeys w R diagnose := by
  refine Proc.Obeys.get.bind fun m => (obeys_call hR.call rfl).bind fun order =>
    .bind ?_ fun _ => .pure _
  exact obeys_zoom hR.call (Diagnostics.inert_collect _ _) fun m _ => R.refl m

theorem obeys_restoreProxy (readable : Result Unit) : Obeys w R (restoreProxy readable) := by
  cases readable with
  | error e => exact .pure ()
  | ok u =>
    refine Proc.Obeys.get.bind fun m => ?_
    split
    · exact .pure ()
    · exact (obeys_onProxy hR (Proxy.inert_apply _)).bind fun _ => .pure ()

omit hR in
theorem obeys_applyDnsFromConfig {cfg : DnsConfig}
    (hwrite : cfg.mode = .manual → ∀ m path servers search outcome,
      R.Allows m [.call (.writeResolvConf path servers search) outcome] m) :
    Obeys w R (applyDnsFromConfig cfg) := by
  unfold applyDnsFromConfig
  split
  · exact .pure ()
  · rename_i hmode
    exact (Proc.Obeys.call fun m => hwrite hmode m _ _ _).bind fun _ => .pure ()
  · exact .pure ()

/-! ## Leases -/

section Leases

variable (hplain : AllowsPlain R)
include hplain

omit hR

theorem obeys_saveRenewed (deviceName : String) (renewed : Result Lease) :
    Obeys w R (saveRenewed deviceName renewed) := by
  cases renewed with
  | error e => exact .pure ()
  | ok lease => exact (Proc.Obeys.call (hplain rfl)).bind fun _ => .pure ()

theorem obeys_renewIfDue (deviceName : String) (lease : Result (Option Lease)) :
    Obeys w R (renewIfDue deviceName lease) := by
  unfold renewIfDue
  split
  · refine (Proc.Obeys.call (hplain rfl)).bind fun now => ?_
    split
    · exact (Proc.Obeys.call (hplain rfl)).bind fun _ => obeys_saveRenewed hplain _ _
    · exact Proc.Obeys.pure ()
  · exact Proc.Obeys.pure ()
  · exact .pure ()

theorem obeys_checkLease (entry : Σ _ : String, ActiveConnection) :
    Obeys w R (checkLease entry) := by
  unfold checkLease
  split
  · exact (Proc.Obeys.call (hplain rfl)).bind fun _ => obeys_renewIfDue hplain _ _
  · exact .pure ()

theorem obeys_leaseCheck : Obeys w R (handleTick .leaseCheck) :=
  Proc.Obeys.get.bind fun _ => (Proc.Obeys.call (hplain rfl)).bind fun _ =>
    .forM (obeys_checkLease hplain) _

end Leases

/-! ## The firewall and the access points -/

theorem obeys_onFirewall (hop : op.isOwn = true) : Obeys w R (onFirewall op) := by
  refine obeys_zoom hR.call (Firewall.inert_operate op) fun m k => ?_
  obtain ⟨nft, hst⟩ := Firewall.state_operate op w k m.host
  rw [hst]
  exact hR.firewall m op nft hop

theorem obeys_zones (names : List String) :
    Obeys w R (names.forM fun name => do
      let _ ← onFirewall (.ensureDefaultZone name)
      return ()) :=
  .forM (fun _ => (obeys_onFirewall hR rfl).bind fun _ => .pure ()) names

theorem obeys_onRadio (hQ : ∀ {c : Call}, Q c → ∀ m a, R.Allows m [.call c a] m)
    {prog : Prog Radio α} (hmk : prog.Makes Q)
    (hkp : ∀ I : Radio → Prop, (∀ r hostapd, I r → I { r with hostapd := hostapd }) →
      (∀ r (op : Firewall.Op) nft, op.isOwn = true → I r →
        I { r with host := (r.host.perform op nft).1 }) → Proc.Keeps w I prog) :
    Obeys w R (onRadio prog) := by
  refine obeys_zoom hQ hmk fun m k => ?_
  refine hkp (fun r => R.Allows m [] { m with host := r.host, hostapd := r.hostapd })
    (fun r hostapd hr => ?_) (fun r op nft hop hr => ?_) k ⟨m.host, m.hostapd⟩ (R.refl m)
  · exact R.trans hr (hR.hostapd { m with host := r.host, hostapd := r.hostapd } hostapd)
  · exact R.trans hr (hR.firewall { m with host := r.host, hostapd := r.hostapd } op nft hop)

/-! ## The ends of activation and deactivation -/

theorem obeys_afterEntry
    (haudit : AllowsAudit R actor "connection.activate" (profileId ++ " on " ++ deviceName)) :
    Obeys w R (do
      Profiles.touch profileId
      audit actor "connection.activate" (profileId ++ " on " ++ deviceName)
      let m ← Proc.get
      broadcast (.deviceStateChanged deviceName
        ((m.devices.get deviceName).elim .activated (·.state)))
      broadcast (.connectionActivated profileId)
      broadcastState
      return Response.ok) :=
  (obeys_touch hR.call _).bind fun _ => (obeys_audit haudit).bind fun _ =>
    Proc.Obeys.get.bind fun _ => (obeys_broadcast hR rfl).bind fun _ =>
    (obeys_broadcast hR rfl).bind fun _ => (obeys_broadcastState hR).bind fun _ => .pure _

theorem obeysAt_activated {a : ActiveConnection}
    (hent : R.Allows m [] { m with active := m.active.insert deviceName a })
    (haudit : AllowsAudit R actor "connection.activate" (profileId ++ " on " ++ deviceName)) :
    ObeysAt w R (activated profileId actor deviceName a) k m :=
  .bind hent fun _ => obeys_afterEntry hR haudit

theorem obeys_deactivated
    (haudit : AllowsAudit R actor "connection.deactivate" (profileId ++ " on " ++ deviceName))
    (result : Result Unit) : Obeys w R (deactivated profileId actor deviceName result) := by
  cases result with
  | error e => exact .pure _
  | ok u =>
    exact (obeys_audit haudit).bind fun _ => (obeys_broadcast hR rfl).bind fun _ =>
      (obeys_broadcastState hR).bind fun _ => .pure _

/-! ## Activation, deactivation and refresh, as far as they go by themselves -/

omit hR in
theorem activateDevice_apply (profile : ConnectionProfile) (profileId actor name : String)
    (registry : DeviceRegistry) (device : NetworkDevice)
    (hact : (Activation.activate profile).run w (k + 1) ⟨device, m.sessions⟩ = act) :
    ∃ k', activateDevice profile profileId actor name registry (some device) w k m =
      let done := activationDone profileId actor name act.result w k'
        { m with
          devices := m.devices.insert act.state.device
          sessions := act.state.sessions }
      ⟨done.result, done.state,
        (.note ⟨registry, profile, device⟩ :: act.log.map Proc.liftEntry) ++ done.log⟩ := by
  subst hact
  exact ⟨_, rfl⟩

omit hR in
theorem state_activationFailed {device : NetworkDevice}
    (hact : (Activation.activate profile).run w k ⟨device, m.sessions⟩ = act) (e : NetworkError)
    (k' : ℕ) :
    (activationFailed device.name e w k'
      { m with
        devices := m.devices.insert act.state.device
        sessions := act.state.sessions }).state =
      { m with
        devices := (m.devices.insert act.state.device).insert
          { act.state.device with state := .failed }
        sessions := act.state.sessions } := by
  have hget : (m.devices.insert act.state.device).get device.name = some act.state.device := by
    rw [DeviceRegistry.get_insert, if_pos (Activation.name_of_activate hact).symm]
  rw [activationFailed, modify_bind]
  simp only [hget]
  rfl

theorem obeysAt_activateDevice {registry : DeviceRegistry} {device : NetworkDevice}
    (hact : (Activation.activate profile).run w (k + 1) ⟨device, m.sessions⟩ = act)
    (hok : ∀ a, act.result = .ok a →
      R.Allows m (.note ⟨registry, profile, device⟩ :: act.log.map Proc.liftEntry)
        { m with
          devices := m.devices.insert act.state.device
          sessions := act.state.sessions
          active := m.active.insert device.name a })
    (haudit : AllowsAudit R actor "connection.activate" (profileId ++ " on " ++ device.name))
    (herr : ∀ e, act.result = .error e →
      R.Allows m (.note ⟨registry, profile, device⟩ :: act.log.map Proc.liftEntry)
        { m with
          devices := (m.devices.insert act.state.device).insert
            { act.state.device with state := .failed }
          sessions := act.state.sessions }) :
    ObeysAt w R (activateDevice profile profileId actor device.name registry (some device)) k
      m := by
  obtain ⟨k', hran⟩ := activateDevice_apply profile profileId actor device.name registry device hact
  rw [ObeysAt, Proc.ObeysAt, hran]
  cases hres : act.result with
  | ok a => exact R.trans (hok a hres) (obeys_afterEntry hR haudit k' _)
  | error e =>
    have hall := R.trans (herr e hres) (R.refl _)
    rw [← state_activationFailed hact e k'] at hall
    exact hall

theorem obeysAt_deactivateEntry {entry : Σ _ : String, ActiveConnection}
    (hnone : m.devices.get entry.1 = none →
      R.Allows m [] { m with active := m.active.erase entry.1 })
    (hsome : ∀ device down, m.devices.get entry.1 = some device →
      Activation.deactivate.run w k ⟨device, m.sessions⟩ = down →
      R.Allows m (down.log.map Proc.liftEntry)
        { m with
          active := m.active.erase entry.1
          devices := m.devices.insert down.state.device
          sessions := down.state.sessions })
    (haudit : AllowsAudit R actor "connection.deactivate" (profileId ++ " on " ++ entry.1)) :
    ObeysAt w R (deactivateEntry profileId actor (some entry)) k m := by
  show ObeysAt w R (do
    Proc.modify fun m : NetworkManager => { m with active := m.active.erase entry.1 }
    let m ← Proc.get
    deactivateDevice profileId actor entry.1 (m.devices.get entry.1)) k m
  show R.Allows m (deactivateDevice profileId actor entry.1 (m.devices.get entry.1) w k
      { m with active := m.active.erase entry.1 }).log
    (deactivateDevice profileId actor entry.1 (m.devices.get entry.1) w k
      { m with active := m.active.erase entry.1 }).state
  cases hget : m.devices.get entry.1 with
  | none => exact hnone hget
  | some device => exact R.trans (hsome device _ hget rfl) (obeys_deactivated hR haudit _ _ _)

theorem obeysAt_activateProfile (hdev : ∀ profile device, m.stored profileId = some profile →
      chosenDevice w k m profile = some device →
      ObeysAt w R (activateDevice profile profileId actor device.name m.devices (some device))
        (k + 1) m) : ObeysAt w R (activateProfile profileId actor) k m := by
  rw [ObeysAt, Proc.ObeysAt]
  cases hstored : m.stored profileId with
  | none =>
    rw [activateProfile_of_not_stored hstored]
    exact R.refl m
  | some profile =>
    have hord : R.Allows m [.call .deviceOrder (w k .deviceOrder)] m := hR.call rfl m _
    cases hch : chosenDevice w k m profile with
    | none =>
      rw [activateProfile_of_not_chosen hstored hch]
      exact hord
    | some device =>
      rw [activateProfile_of_chosen hstored hch]
      exact R.trans hord (hdev profile device hstored hch)

theorem obeys_activateProfile (hdev : ∀ k m profile device, m.stored profileId = some profile →
      m.devices.get device.name = some device → fits profile device = true →
      ObeysAt w R (activateDevice profile profileId actor device.name m.devices (some device)) k
        m) : Obeys w R (activateProfile profileId actor) := by
  refine fun k m => obeysAt_activateProfile hR fun profile device hstored hch => ?_
  obtain ⟨hget, hfits⟩ := of_chosenDevice hch
  exact hdev (k + 1) m profile device hstored hget hfits

theorem obeysAt_deactivateProfile
    (hent : ∀ entry ∈ m.active.entries, entry.2.profileId = profileId →
      ObeysAt w R (deactivateEntry profileId actor (some entry)) (k + 1) m) :
    ObeysAt w R (deactivateProfile profileId actor) k m := by
  refine .bind_run (R.refl m) ?_
  refine .bind_run (hR.call (c := .activeOrder) rfl m _) ?_
  show ObeysAt w R (deactivateEntry profileId actor (((w k .activeOrder : Order (Σ _ : String,
    ActiveConnection)).arrange m.active.entries).find? fun e => e.2.profileId = profileId))
    (k + 1) m
  cases hfound : ((w k .activeOrder : Order (Σ _ : String, ActiveConnection)).arrange
    m.active.entries).find? fun e => e.2.profileId = profileId with
  | none => exact R.refl m
  | some entry =>
    obtain ⟨hmem, hid⟩ := Order.of_find?_arrange hfound
    exact hent entry hmem (of_decide_eq_true hid)

theorem obeysAt_refresh
    (hrefreshed : ∀ scanned, (scan w k m).result = .ok scanned → R.Allows m [] { m with
      devices := m.devices.refreshed m.config.general.unmanagedDevices scanned }) :
    ObeysAt w R refresh k m := by
  refine .bind_run (obeys_scan hR.call k m) ?_
  rw [readOnly_scan]
  cases hscan : (scan w k m).result with
  | error e => exact R.refl m
  | ok scanned => exact hrefreshed scanned hscan

/-! ## Autoconnect -/

section Activates

variable (hactivate : ∀ id, Obeys w R (activateProfile id "system:autoconnect"))
include hactivate

omit hR in
theorem obeys_activateChosen (chosen : Option ConnectionProfile) :
    Obeys w R (activateChosen chosen) := by
  cases chosen with
  | none => exact .pure ()
  | some profile => exact (hactivate _).bind fun _ => .pure ()

theorem obeys_tryAutoconnect (name : String) : Obeys w R (tryAutoconnect name) := by
  refine Proc.Obeys.get.bind fun m => ?_
  split
  · exact .pure ()
  · split
    · exact (obeys_call hR.call rfl).bind fun _ => (obeys_visibleSsids hR.call _).bind fun _ =>
        obeys_activateChosen hactivate _
    · exact .pure ()

theorem obeys_tryAutoconnectAll : Obeys w R tryAutoconnectAll :=
  (obeys_deviceNames hR.call _).bind fun names =>
    .forM (obeys_tryAutoconnect hR hactivate) names

theorem obeys_wifiScan : Obeys w R (handleTick .wifiScan) :=
  (obeys_deviceNames hR.call _).bind fun names =>
    .forM (obeys_tryAutoconnect hR hactivate) names

theorem obeysAt_deviceRefresh (href : ObeysAt w R refresh k m) :
    ObeysAt w R (handleTick .deviceRefresh) k m :=
  href.bind fun _ => obeys_tryAutoconnectAll hR hactivate

theorem obeys_linkAdded (name : String) : Obeys w R (linkAdded name) :=
  (obeys_onFirewall hR rfl).bind fun _ => (obeys_announce hR _ fun _ => rfl).bind fun _ =>
    obeys_tryAutoconnect hR hactivate name

end Activates

/-! ## Requests -/

omit hR in
theorem obeys_recorded {result : Result Unit}
    (haudit : result = .ok () → AllowsAudit R actor action detail) :
    Obeys w R (recorded actor action detail result) := by
  cases result with
  | error e => exact .pure _
  | ok u => exact (obeys_audit (haudit rfl)).bind fun _ => .pure _

theorem obeys_bluetoothRequest {verb mac : String}
    (haudit : validateMacAddress mac = .ok () → AllowsAudit R actor action mac) :
    Obeys w R (bluetoothRequest actor action verb mac) := by
  unfold bluetoothRequest Bluetooth.onDevice
  split
  · exact .pure_bind (.pure _)
  · exact (obeys_control hR.call _).bind fun _ => obeys_recorded fun _ => haudit ‹_›

theorem obeys_firewallRequest (haudit : AllowsAudit R actor action detail) (hop : op.isOwn = true) :
    Obeys w R (firewallRequest actor action detail op) :=
  (obeys_onFirewall hR hop).bind fun _ => obeys_recorded fun _ => haudit

theorem obeys_startHotspot (hplain : AllowsPlain R)
    (haudit : Hotspot.validateHotspot device ssid passphrase = .ok () →
      AllowsAudit R actor "hotspot.start" (device ++ " (" ++ ssid ++ ")"))
    (uplink : Option String) : Obeys w R (startHotspot actor device ssid passphrase uplink) := by
  refine .bind_of_result (P := fun result => result = .ok () →
    Hotspot.validateHotspot device ssid passphrase = .ok ()) ?_
    (fun _ _ => Hotspot.valid_of_result_start) fun _ hvalid => obeys_recorded (haudit ∘ hvalid)
  exact obeys_onRadio hR hplain (Hotspot.makes_start (fun _ _ h => (Call.of_hostapdOf h).1)
    (fun _ h => (Call.of_isInert h).1) (fun c h => by cases c <;> first | rfl | cases h) uplink)
    fun _ hhap hhost => Hotspot.keeps_start hhap hhost device ssid passphrase uplink

theorem obeys_stopHotspot (hhap : AllowsHostapd R device)
    (haudit : AllowsAudit R actor "hotspot.stop" device) : Obeys w R (stopHotspot actor device) :=
  (obeys_onRadio hR hhap (Hotspot.makes_stopHostapd fun _ h => h) fun _ hhap _ =>
    Hotspot.keeps_stopHostapd hhap device).bind fun _ =>
    (obeys_audit haudit).bind fun _ => .pure _

def AllowsPut (R : Conduct) (profile : ConnectionProfile) : Prop :=
  validateIdentifier profile.id = .ok () → ∀ m : NetworkManager, R.Allows m []
    { m with connections := m.connections.filter (fun p => p.id ≠ profile.id) ++ [profile] }

/-- A profile that is saved has a valid id. -/
theorem obeys_save_bind {rest : Result Unit → M α}
    (herror : ∀ e, Obeys w R (rest (.error e)))
    (hok : validateIdentifier profile.id = .ok () → Obeys w R (rest (.ok ()))) :
    Obeys w R (Profiles.save profile >>= rest) := by
  unfold Profiles.save
  split
  · exact .pure_bind (herror _)
  · rename_i hvalid
    refine (obeys_call hR.call rfl).bind fun saved => ?_
    cases saved with
    | error e => exact herror e
    | ok u => exact hok hvalid

theorem obeys_addConnection (hput : AllowsPut R profile)
    (haudit : validateIdentifier profile.id = .ok () →
      AllowsAudit R actor "connection.add" profile.id) :
    Obeys w R (addConnection actor profile) :=
  obeys_save_bind hR (fun _ => .pure _) fun hvalid => (obeys_audit (haudit hvalid)).bind fun _ =>
    (Proc.Obeys.modify (hput hvalid)).bind fun _ => .pure _

theorem obeys_secretStored (hput : AllowsPut R profile)
    (haudit : validateIdentifier profile.id = .ok () →
      AllowsAudit R actor "wifi.connect" profile.id)
    (hactivate : ∀ k m, m.stored profile.id = some profile →
      ObeysAt w R (activateProfile profile.id actor) k m) (stored : Result Unit) :
    Obeys w R (secretStored actor profile stored) := by
  cases stored with
  | error e => exact .pure _
  | ok u =>
    refine obeys_save_bind hR (fun _ => .pure _) fun hvalid => ?_
    refine (obeys_audit (haudit hvalid)).bind fun _ k m => ?_
    exact .bind_run (hput hvalid m) (hactivate k _ (stored_put _ profile))

theorem obeys_connectWifi {security : SecurityType} (hput : ∀ profile, AllowsPut R profile)
    (haudit : validateIdentifier ("wifi-" ++ ssid) = .ok () →
      AllowsAudit R actor "wifi.connect" ("wifi-" ++ ssid))
    (hactivate : ∀ k m, m.stored ("wifi-" ++ ssid) = some (wifiProfile device ssid security) →
      ObeysAt w R (activateProfile ("wifi-" ++ ssid) actor) k m) :
    Obeys w R (connectWifi actor device ssid security passphrase) := by
  refine .bind ?_ fun stored =>
    obeys_secretStored hR (hput _) haudit hactivate stored
  cases passphrase with
  | none => exact .pure _
  | some pass => exact obeys_call hR.call rfl

def AllowsRemove (R : Conduct) (id : String) : Prop :=
  ∀ m : NetworkManager, R.Allows m []
    { m with connections := m.connections.filter fun p => p.id ≠ id }

theorem obeys_forgetWifi (hremove : AllowsRemove R ("wifi-" ++ ssid))
    (haudit : AllowsAudit R actor "wifi.forget" ("wifi-" ++ ssid)) :
    Obeys w R (forgetWifi actor device ssid) :=
  (obeys_call hR.call rfl).bind fun _ => (obeys_call hR.call rfl).bind fun _ =>
    (obeys_delete hR.call _).bind fun _ => (Proc.Obeys.modify hremove).bind fun _ =>
    (obeys_audit haudit).bind fun _ => .pure _

theorem obeys_deleted (hremove : AllowsRemove R id)
    (haudit : validateIdentifier id = .ok () → AllowsAudit R actor "connection.delete" id) :
    Obeys w R (Profiles.delete id >>= connectionDeleted actor id) := by
  unfold Profiles.delete
  split
  · exact .pure_bind (.pure _)
  · rename_i hvalid
    refine .bind (.bind (obeys_call hR.call rfl) fun _ => .pure _)
      fun deleted => ?_
    cases deleted with
    | error e => exact .pure _
    | ok u =>
      exact (obeys_audit (haudit hvalid)).bind fun _ => (Proc.Obeys.modify hremove).bind fun _ =>
        (obeys_call hR.call rfl).bind fun _ => .pure _

omit hR in
theorem obeysAt_deactivateIfActive (hdown : ObeysAt w R (deactivateProfile id actor) k m) :
    ObeysAt w R (deactivateIfActive actor id) k m := by
  show ObeysAt w R (if m.active.values.any fun a => a.profileId = id then _ else _) k m
  split
  · exact hdown.bind fun _ => .pure ()
  · exact R.refl m

theorem obeysAt_deleteConnection (hdown : ObeysAt w R (deactivateProfile id actor) k m)
    (hremove : AllowsRemove R id)
    (haudit : validateIdentifier id = .ok () → AllowsAudit R actor "connection.delete" id) :
    ObeysAt w R (deleteConnection actor id) k m :=
  (obeysAt_deactivateIfActive hdown).bind fun _ => obeys_deleted hR hremove haudit

theorem obeys_reload (hcfg : ∀ m config, R.Allows m [] { m with config := config })
    (haudit : AllowsAudit R actor "config.reload" "") : Obeys w R (reload actor) := by
  refine (obeys_call hR.call rfl).bind fun files => (obeys_call hR.call rfl).bind fun order => ?_
  unfold reloaded
  split
  · exact .pure _
  · exact (Proc.Obeys.modify fun m => hcfg m _).bind fun _ => (obeys_audit haudit).bind fun _ =>
      .pure _

end Lenient

/-! ## What a request records -/

def firewallOf : Request → Option (String × String × Firewall.Op)
  | .setFirewallZone interface zone =>
    some ("firewall.zone", interface ++ " -> " ++ zone, .assignZone interface zone)
  | .addFirewallRule rule => some ("firewall.rule.add", rule.id, .addRule rule)
  | .removeFirewallRule id => some ("firewall.rule.remove", id, .removeRule id)
  | _ => none

theorem isOwn_of_firewallOf (h : firewallOf req = some (action, detail, op)) : op.isOwn = true := by
  unfold firewallOf at h
  split at h
  · cases h
    rfl
  · cases h
    rfl
  · cases h
    rfl
  · cases h

def profileToRemove : Request → Option String
  | .deleteConnection id => some id
  | .forgetWifi _ ssid => some ("wifi-" ++ ssid)
  | _ => none

/-- What a request may record of itself, besides the operations of the firewall and the connections
that are activated or deactivated. -/
inductive Records : Request → String → String → Prop
  | addConnection {profile : ConnectionProfile} (h : validateIdentifier profile.id = .ok ()) :
      Records (.addConnection profile) "connection.add" profile.id
  | deleteConnection {id : String} (h : validateIdentifier id = .ok ()) :
      Records (.deleteConnection id) "connection.delete" id
  | connectWifi {device ssid : String} {security : SecurityType} {passphrase : Option String}
      (h : validateIdentifier ("wifi-" ++ ssid) = .ok ()) :
      Records (.connectWifi device ssid security passphrase) "wifi.connect" ("wifi-" ++ ssid)
  | forgetWifi {device ssid : String} :
      Records (.forgetWifi device ssid) "wifi.forget" ("wifi-" ++ ssid)
  | startHotspot {device ssid : String} {passphrase uplink : Option String}
      (h : Hotspot.validateHotspot device ssid passphrase = .ok ()) :
      Records (.startHotspot device ssid passphrase uplink) "hotspot.start"
        (device ++ " (" ++ ssid ++ ")")
  | stopHotspot {device : String} : Records (.stopHotspot device) "hotspot.stop" device
  | bluetoothPower {on : Bool} : Records (.bluetoothPower on) "bluetooth.power" (onOff on)
  | pairBluetooth {mac : String} (h : validateMacAddress mac = .ok ()) :
      Records (.pairBluetooth mac) "bluetooth.pair" mac
  | trustBluetooth {mac : String} (h : validateMacAddress mac = .ok ()) :
      Records (.trustBluetooth mac) "bluetooth.trust" mac
  | connectBluetooth {mac : String} (h : validateMacAddress mac = .ok ()) :
      Records (.connectBluetooth mac) "bluetooth.connect" mac
  | disconnectBluetooth {mac : String} (h : validateMacAddress mac = .ok ()) :
      Records (.disconnectBluetooth mac) "bluetooth.disconnect" mac
  | removeBluetooth {mac : String} (h : validateMacAddress mac = .ok ()) :
      Records (.removeBluetooth mac) "bluetooth.remove" mac
  | setProxyConfig {config : ProxyConfig} :
      Records (.setProxyConfig config) "proxy.set" config.mode.debug
  | reload : Records .reload "config.reload" ""

/-- The user that a request is recorded under. -/
def actorOf (identity : PeerIdentity) : String := "uid:" ++ toString identity.uid.toNat

/-! ## The stages -/

/-- The rule also allows a profile to be stored and the configuration to be reloaded. -/
structure Editable (R : Conduct) : Prop extends Lenient R where
  put : ∀ profile, AllowsPut R profile
  config : ∀ m config, R.Allows m [] { m with config := config }

/-- The rule also allows registrations and a new connectivity. -/
structure Permissive (R : Conduct) : Prop extends Editable R where
  connectivity : ∀ m connectivity, R.Allows m [] { m with connectivity := connectivity }
  register : ∀ m, R.Allows m [] { m with events := m.events.register }
  unregister : ∀ m id, R.Allows m [] { m with events := m.events.unregister id }

/-- What a stage does first to the registry is allowed: it refreshes it or drops an unplugged
device. -/
structure AllowsFirst (w : World Call.Answer) (R : Conduct) (stage : Daemon.Stage)
    (m : NetworkManager) : Prop where
  refresh : stage.refreshes = true → ObeysAt w R refresh 0 m
  unplug : ∀ name, stage = .command (.hotplug (.linkRemoved name)) →
    R.Allows m [] { m with active := m.active.erase name, devices := m.devices.remove name }

/-- **Conduct of a request.** What it records has to be allowed, and so has activating the profile
that it is about and removing the one that it removes; what works on the firewall, starts a hotspot
or takes a connection down has to keep to the rules from the state that the request starts in. -/
theorem obeysAt_handleRequest (hR : Editable R) {identity : PeerIdentity} {k : ℕ}
    (hactivate : ∀ profile, profileToActivate m req = some profile →
      ∀ k m, m.stored profile.id = some profile →
        ObeysAt w R (activateProfile profile.id (actorOf identity)) k m)
    (hrec : ∀ action detail, Records req action detail →
      AllowsAudit R (actorOf identity) action detail)
    (hfirewall : ∀ action detail op, firewallOf req = some (action, detail, op) →
      ObeysAt w R (firewallRequest (actorOf identity) action detail op) k m)
    (hhs : ∀ device ssid passphrase uplink,
      req = .startHotspot device ssid passphrase uplink →
      ObeysAt w R (startHotspot (actorOf identity) device ssid passphrase uplink) k m)
    (hhap : ∀ device, req = .stopHotspot device → AllowsHostapd R device)
    (hdeactivate : ∀ id, (Daemon.Stage.command (.request req identity)).takesDown = some id →
      ObeysAt w R (deactivateProfile id (actorOf identity)) k m)
    (hremove : ∀ id, profileToRemove req = some id → AllowsRemove R id) :
    ObeysAt w R (handleRequest identity req) k m := by
  have hL := hR.toLenient
  cases req with
  | getState | getDevice name | listConnections | getConnection id | getProxyConfig
  | getConnectivity => exact obeys_query _ k m
  | listDevices | scanWifi device | listWifiNetworks device =>
    exact (Proc.Obeys.get.bind fun _ => (obeys_call hL.call rfl).bind fun _ => .pure _) k m
  | addConnection profile =>
    exact obeys_addConnection hL (hR.put profile) (fun h => hrec _ _ (.addConnection h)) k m
  | activateConnection id =>
    show ObeysAt w R (activateProfile id (actorOf identity)) k m
    cases hstored : m.stored id with
    | none =>
      rw [ObeysAt, Proc.ObeysAt, activateProfile_of_not_stored hstored]
      exact R.refl m
    | some profile =>
      obtain rfl := id_of_stored hstored
      exact hactivate profile hstored k m hstored
  | deactivateConnection id => exact hdeactivate id rfl
  | deleteConnection id =>
    exact obeysAt_deleteConnection hL (hdeactivate id rfl) (hremove id rfl) fun h =>
      hrec _ _ (.deleteConnection h)
  | connectWifi device ssid security passphrase =>
    exact obeys_connectWifi hL hR.put (fun h => hrec _ _ (.connectWifi h)) (hactivate _ rfl) k m
  | forgetWifi device ssid =>
    exact obeys_forgetWifi hL (hremove _ rfl) (hrec _ _ .forgetWifi) k m
  | startHotspot device ssid passphrase uplink =>
    exact hhs device ssid passphrase uplink rfl
  | stopHotspot device =>
    exact obeys_stopHotspot hL (hhap device rfl) (hrec _ _ .stopHotspot) k m
  | setFirewallZone interface zone | addFirewallRule rule | removeFirewallRule id =>
    exact hfirewall _ _ _ rfl
  | listBluetoothDevices =>
    exact ((obeys_listDevices hL.call).bind fun _ => .pure _) k m
  | bluetoothPower on =>
    exact ((obeys_control hL.call _).bind fun _ => obeys_recorded fun _ =>
      hrec _ _ .bluetoothPower) k m
  | bluetoothScan on => exact ((obeys_control hL.call _).bind fun _ => .pure _) k m
  | pairBluetooth mac | trustBluetooth mac | connectBluetooth mac | disconnectBluetooth mac
  | removeBluetooth mac =>
    exact obeys_bluetoothRequest hL (fun h => hrec _ _ (by constructor; exact h)) k m
  | setProxyConfig config =>
    exact ((obeys_onProxy hL (Proxy.inert_apply _)).bind fun _ => obeys_recorded fun _ =>
      hrec _ _ .setProxyConfig) k m
  | resolveProxy url =>
    exact ((obeys_onProxy hL (Proxy.inert_resolveForUrl _)).bind fun _ => .pure _) k m
  | diagnose => exact obeys_diagnose hL k m
  | reload => exact obeys_reload hL hR.config (hrec _ _ .reload) k m

section Stages

variable (hR : Permissive R)
  (hactivate : ∀ id, Obeys w R (activateProfile id "system:autoconnect"))
include hR

variable {stage : Daemon.Stage}

theorem obeys_connectivityTick : Obeys w R (handleTick .connectivity) := by
  refine Proc.Obeys.get.bind fun _ => (obeys_call hR.call rfl).bind fun _ =>
    Proc.Obeys.get.bind fun m => ?_
  split
  · exact (Proc.Obeys.modify fun m => hR.connectivity m _).bind fun _ =>
      (obeys_broadcast hR.toLenient rfl).bind fun _ => obeys_broadcastState hR.toLenient
  · exact .pure ()

include hactivate

theorem obeysAt_hotplug {event : HotplugEvent}
    (hfirst : AllowsFirst w R (.command (.hotplug event)) m) : ObeysAt w R (hotplug event) 0 m := by
  cases event with
  | linkAdded name =>
    exact (hfirst.refresh rfl).bind fun _ => obeys_linkAdded hR.toLenient hactivate name
  | linkRemoved name =>
    exact .bind (hfirst.unplug name rfl) fun _ => obeys_broadcast hR.toLenient rfl
  | linkChanged name | addressChanged name =>
    exact (hfirst.refresh rfl).bind fun _ => obeys_announce hR.toLenient _ fun _ => rfl

/-- **Conduct of a stage.** If the rule is permissive and activating keeps to it, and so does, from
the state that the stage starts in, what it does first to the registry, the request that it makes or
its check of the leases, then the stage keeps to it. -/
theorem obeysAt_program (hfirst : AllowsFirst w R stage m)
    (hrequest : ∀ req identity, stage = .command (.request req identity) →
      ObeysAt w R (handleRequest identity req) 0 m)
    (hles : stage = .command (.tick .leaseCheck) → ObeysAt w R (handleTick .leaseCheck) 0 m) :
    ObeysAt w R stage.program 0 m := by
  cases stage with
  | autoconnectAll =>
    exact ((obeys_tryAutoconnectAll hR.toLenient hactivate).bind fun _ => .pure none) 0 m
  | command c =>
    cases c with
    | request req identity =>
      exact (hrequest req identity rfl).bind fun _ => .pure _
    | registerEventClient =>
      exact ((Proc.Obeys.modify hR.register).bind fun _ => .pure none) 0 m
    | unregisterEventClient id =>
      exact ((Proc.Obeys.modify fun m => hR.unregister m id).bind fun _ => .pure none) 0 m
    | hotplug event =>
      exact ((obeysAt_hotplug hR hactivate hfirst).bind fun _ =>
        obeys_broadcastState hR.toLenient).bind fun _ => .pure none
    | tick kind =>
      refine .bind ?_ fun _ => .pure none
      cases kind with
      | connectivity => exact obeys_connectivityTick hR 0 m
      | wifiScan => exact obeys_wifiScan hR.toLenient hactivate 0 m
      | leaseCheck => exact hles rfl
      | deviceRefresh => exact obeysAt_deviceRefresh hR.toLenient hactivate (hfirst.refresh rfl)
    | shutdown => exact R.refl m

end Stages

section Audited

variable {stage : Daemon.Stage} (hR : Permissive R)
  (haudit : ∀ actor action detail, AllowsAudit R actor action detail)
  (hactivate : ∀ id actor, Obeys w R (activateProfile id actor)) (hfirst : AllowsFirst w R stage m)
  (hdeactivate : ∀ id actor, stage.takesDown = some id →
    ObeysAt w R (deactivateProfile id actor) 0 m)
  (hremove : ∀ req identity id, stage = .command (.request req identity) →
    profileToRemove req = some id → AllowsRemove R id)
include hR haudit hactivate hfirst hdeactivate hremove

theorem obeysAt_program_of_audits (hhs : ∀ device ssid passphrase uplink identity,
      stage = .command (.request (.startHotspot device ssid passphrase uplink) identity) →
      ObeysAt w R (startHotspot (actorOf identity) device ssid passphrase uplink) 0 m)
    (hhap : ∀ device, AllowsHostapd R device)
    (hles : stage = .command (.tick .leaseCheck) → ObeysAt w R (handleTick .leaseCheck) 0 m) :
    ObeysAt w R stage.program 0 m := by
  refine obeysAt_program hR (fun id => hactivate id _) hfirst (fun req identity hstg => ?_)
    hles
  refine obeysAt_handleRequest hR.toEditable (fun profile _ k m _ => hactivate profile.id _ k m)
    (fun _ _ _ => haudit _ _ _)
    (fun _ _ _ hop => obeys_firewallRequest hR.toLenient (haudit _ _ _) (isOwn_of_firewallOf hop)
      0 m)
    (fun device ssid passphrase uplink hreq => ?_) (fun device _ => hhap device)
    (fun id htk => ?_) fun id => hremove req identity id hstg
  · exact hhs device ssid passphrase uplink identity (by rw [hstg, hreq])
  · exact hdeactivate id _ (by rw [hstg, htk])

theorem obeysAt_program_of_plain (hplain : AllowsPlain R) : ObeysAt w R stage.program 0 m :=
  obeysAt_program_of_audits hR haudit hactivate hfirst hdeactivate hremove
    (fun _ _ _ uplink _ _ => obeys_startHotspot hR.toLenient hplain (fun _ => haudit _ _ _) uplink 0
      m)
    (fun _ => hplain.hostapd) fun _ => obeys_leaseCheck hplain 0 m

end Audited

/-- The rule is about the firewall and the event clients only. -/
structure Indifferent (R : Conduct) : Prop where
  rest : ∀ {m m' : NetworkManager} {log}, m'.host = m.host → m'.events = m.events →
    R.Allows m log m'
  event : ∀ (m : NetworkManager) event (live : ℕ → Bool),
    R.Allows m [.call .liveClients live] { m with events := m.events.broadcast live event }
  firewall : ∀ m (op : Firewall.Op) nft, op.isOwn = true →
    R.Allows m [] { m with host := (m.host.perform op nft).1 }
  register : ∀ m, R.Allows m [] { m with events := m.events.register }
  unregister : ∀ m id, R.Allows m [] { m with events := m.events.unregister id }

namespace Indifferent

variable (hR : Indifferent R)
include hR

theorem permissive : Permissive R where
  call _ _ _ := hR.rest rfl rfl
  event _ live := hR.event _ _ live
  proxy _ _ := hR.rest rfl rfl
  firewall := hR.firewall
  hostapd _ _ := hR.rest rfl rfl
  put _ _ _ := hR.rest rfl rfl
  config _ _ := hR.rest rfl rfl
  connectivity _ _ := hR.rest rfl rfl
  register := hR.register
  unregister := hR.unregister

theorem allowsPlain : AllowsPlain R := fun _ _ _ => hR.rest rfl rfl

theorem allowsAudit (actor action detail : String) : AllowsAudit R actor action detail :=
  fun _ _ => hR.rest rfl rfl

theorem obeys_activateProfile (profileId actor : String) :
    Obeys w R (activateProfile profileId actor) :=
  NetworkManager.obeys_activateProfile hR.permissive.toLenient fun _ _ _ _ _ _ _ =>
    obeysAt_activateDevice hR.permissive.toLenient rfl (fun _ _ => hR.rest rfl rfl)
      (hR.allowsAudit _ _ _) fun _ _ => hR.rest rfl rfl

theorem obeys_deactivateProfile (profileId actor : String) :
    Obeys w R (deactivateProfile profileId actor) := fun _ _ =>
  obeysAt_deactivateProfile hR.permissive.toLenient fun _ _ _ =>
    obeysAt_deactivateEntry hR.permissive.toLenient (fun _ => hR.rest rfl rfl)
      (fun _ _ _ _ => hR.rest rfl rfl) (hR.allowsAudit _ _ _)

theorem allowsFirst (stage : Daemon.Stage) (m : NetworkManager) : AllowsFirst w R stage m where
  refresh _ := obeysAt_refresh hR.permissive.toLenient fun _ _ => hR.rest rfl rfl
  unplug _ _ := hR.rest rfl rfl

theorem obeysAt_program (stage : Daemon.Stage) (m : NetworkManager) :
    ObeysAt w R stage.program 0 m :=
  obeysAt_program_of_plain hR.permissive hR.allowsAudit hR.obeys_activateProfile
    (hR.allowsFirst stage m) (fun id actor _ => hR.obeys_deactivateProfile id actor 0 m)
    (fun _ _ _ _ _ _ => hR.rest rfl rfl) hR.allowsPlain

end Indifferent

/-! ## Starting -/

section New

variable (hR : Lenient R)
  (hwrite : ∀ m path servers search outcome,
    R.Allows m [.call (.writeResolvConf path servers search) outcome] m)
include hR hwrite

theorem obeys_settle : Obeys w R settle :=
  (obeys_deviceNames hR.call _).bind fun names => (obeys_zones hR names).bind fun _ =>
    Proc.Obeys.get.bind fun _ => (obeys_applyDnsFromConfig fun _ => hwrite).bind fun _ =>
    (obeys_call hR.call rfl).bind fun _ => obeys_restoreProxy hR _

theorem obeysAt_profilesLoaded {k : ℕ} {profiles : List ConnectionProfile}
    (hload : R.Allows m [] { m with connections := profiles })
    (href : ObeysAt w R refresh k { m with connections := profiles }) :
    ObeysAt w R (profilesLoaded (.ok profiles)) k m := by
  refine .bind_run hload (href.bind fun refreshed => ?_)
  cases refreshed with
  | error e => exact .pure _
  | ok u => exact (obeys_settle hR hwrite).bind fun _ => .pure _

end New

end NetworkManager

end MitosNetwork
