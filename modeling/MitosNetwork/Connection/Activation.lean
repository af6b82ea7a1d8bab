import MitosNetwork.Manager.Outside

/-!
# Activation and deactivation

`src/connection/activation.rs`, `src/connection/deactivation.rs` and the session table of
`src/vpn/vpn.rs`. Both work on a device in place: what was written before a step failed stays
written. `ensures_activate` and `ensures_deactivate` say what is left of the device in either case.
-/

namespace MitosNetwork

/-- What activation works on: the device and the VPN sessions that are tracked. -/
structure Work where
  device : NetworkDevice
  sessions : Table String VpnKind

/-- The device is this one but for its state and its addresses. -/
structure Work.Like (dev : NetworkDevice) (work : Work) : Prop where
  name : work.device.name = dev.name
  index : work.device.index = dev.index
  deviceType : work.device.deviceType = dev.deviceType
  carries : work.device.activeConnection = dev.activeConnection

theorem Work.Like.refl (work : Work) : work.Like work.device := ⟨rfl, rfl, rfl, rfl⟩

namespace Activation

variable (profile : ConnectionProfile) (index : Int32)

def device : TryProg Work NetworkDevice := do
  let work ← Try.lift Proc.get
  return work.device

def modifyDevice (f : NetworkDevice → NetworkDevice) : TryProg Work Unit :=
  Try.lift (Proc.modify fun work => { work with device := f work.device })

def setState (state : DeviceState) : TryProg Work Unit := modifyDevice ({ · with state := state })

/-- `dns::resolver::apply_static`. -/
def applyDns (servers : List IpAddr) (search : List String) : TryProg Work Unit :=
  attempt (call (.writeResolvConf Config.defaultResolvConf servers search))

def applyLeaseDns (servers : List IpAddr) (search : List String) : TryProg Work Unit :=
  if servers.isEmpty then pure () else applyDns servers search

/-! ## The link -/

def wifiPassphrase (id : String) (wifi : WifiSettings) : TryProg Work (Option String) :=
  if wifi.hasSecret then attempt (call (.secretGet id "psk"))
  else if wifi.hasEapSecret then attempt (call (.secretGet id "eap-password"))
  else pure none

def wifiKeyPassword (id : String) (wifi : WifiSettings) : TryProg Work (Option String) :=
  if wifi.eapPrivateKeyPath.isSome then attempt (call (.secretGet id "eap-private-key-password"))
  else pure none

def eapConfig (wifi : WifiSettings) (keyPassword : Option String) : Option EapConfig :=
  if wifi.security.isEnterprise then
    some
      { identity := wifi.eapIdentity
        caCertPath := wifi.eapCaCertPath
        clientCertPath := wifi.eapClientCertPath
        privateKeyPath := wifi.eapPrivateKeyPath
        privateKeyPassword := keyPassword
        eapMethod := wifi.eapMethod
        eapPhase2 := wifi.eapPhase2 }
  else none

/-- The Wi-Fi branch. -/
def connectWifi : TryProg Work Unit :=
  match profile.wifi with
  | none => throw (.config ("profile '" ++ profile.id ++ "' has no [wifi] section"))
  | some wifi => do
    let passphrase ← wifiPassphrase profile.id wifi
    let keyPassword ← wifiKeyPassword profile.id wifi
    let dev ← device
    attempt (call (.wifiConnect dev.name wifi.ssid wifi.security passphrase
      (eapConfig wifi keyPassword)))

/-- The VPN branch with `vpn::vpn::connect`: the session is tracked under the name of its own
interface, which is returned. -/
def connectVpn : TryProg Work String :=
  match profile.vpn with
  | none => throw (.config ("profile '" ++ profile.id ++ "' has no [vpn] section"))
  | some vpn => do
    let ifname ← attempt (call (.vpnConnect vpn.kind vpn.config profile.id))
    Try.lift (Proc.modify fun work =>
      { work with sessions := work.sessions.insert ifname vpn.kind })
    return ifname

/-- Every other device: bring the link up and wait for its carrier. -/
def connectLink : TryProg Work Unit := do
  attempt (call (.bringUp index))
  attempt (call (.waitForCarrier index))

/-! ## Addresses -/

/-- The default route of `apply_static`. -/
def applyGateway (gateway : Option String) : TryProg Work Unit :=
  match gateway with
  | none => pure ()
  | some gw =>
    match IpAddr.parse gw.toList with
    | none => throw (.config ("invalid gateway '" ++ gw ++ "'"))
    | some ip => attempt (call (.applyDefaultRoute index ip 100 .static))

/-- One address of `apply_static`. -/
def addStaticAddress (addr : String) : TryProg Work Unit := do
  let cidr ← attempt (pure (Address.parseCidr addr))
  attempt (call (.addAddress index cidr.1 cidr.2))

/-- `apply_static`. -/
def applyStatic : TryProg Work Unit := do
  profile.addresses.forM (addStaticAddress index)
  applyGateway index profile.gateway

/-- The default route of `apply_dhcp`. -/
def applyLeaseGateway (gateway : Option Ipv4Addr) : TryProg Work Unit :=
  match gateway with
  | none => pure ()
  | some gw => attempt (call (.applyDefaultRoute index (.v4 gw) 100 .dhcp))

/-- `apply_dhcp`. -/
def applyDhcp : TryProg Work Unit := do
  let dev ← device
  let lease ← attempt (call (.dhcpAcquire dev.name index))
  attempt (call (.addAddress index (.v4 lease.address) lease.prefixlen))
  applyLeaseGateway index lease.gateway
  applyLeaseDns (lease.dnsServers.map .v4) lease.domain.toList
  modifyDevice ({ · with
    ipv4Addresses := [lease.address.display ++ "/" ++ toString lease.prefixlen.toNat] })
  attempt (call (.writeLease dev.name lease))

/-- `apply_dhcp6`. -/
def applyDhcp6 : TryProg Work Unit := do
  let dev ← device
  let mac ← attempt (call (.getMac dev.name))
  let lease ← attempt (call (.dhcp6StatefulLease dev.name mac))
  attempt (call (.addAddress index (.v6 lease.address) lease.prefixlen))
  applyLeaseDns (lease.dnsServers.map .v6) lease.domainSearch
  modifyDevice ({ · with
    ipv6Addresses := [lease.address.display ++ "/" ++ toString lease.prefixlen.toNat] })
  attempt (call (.writeLease6 dev.name lease))

/-- The exchange of `apply_dhcp6_stateless`. -/
def stateless : TryProg Work Unit := do
  let dev ← device
  let mac ← attempt (call (.getMac dev.name))
  let info ← attempt (call (.dhcp6StatelessInfo dev.name mac))
  applyLeaseDns (info.dnsServers.map .v6) info.domainSearch

/-- `apply_dhcp6_stateless`: whatever fails in the exchange, activation goes on. -/
def applyDhcp6Stateless : TryProg Work Unit := do
  let _ ← Try.lift stateless.run
  return ()

def applyMethod : TryProg Work Unit :=
  match profile.method with
  | .manual => applyStatic profile index
  | .auto => applyDhcp index
  | .linkLocal | .disabled => pure ()

def applyIpv6Method : TryProg Work Unit :=
  match profile.ipv6Method with
  | .slaac => pure ()
  | .slaacWithStatelessDhcp => applyDhcp6Stateless
  | .dhcp6 => applyDhcp6 index

/-- The name servers of the profile itself; an entry that is no address is skipped. -/
def applyProfileDns : TryProg Work Unit :=
  if profile.dns.isEmpty then pure ()
  else applyDns (profile.dns.filterMap fun s => IpAddr.parse s.toList) []

/-- What follows once the link is up. -/
def configureIp : TryProg Work Unit := do
  setState .ipConfiguring
  attempt (call (.flush index))
  applyMethod profile index
  applyIpv6Method profile index
  applyProfileDns profile

variable (dev : NetworkDevice)

/-- The branches of `activate`: the name of the device that the connection is reported on. -/
def connect : TryProg Work String :=
  match profile.deviceType with
  | .wifi => do
    connectWifi profile
    configureIp profile dev.index.toInt32
    return dev.name
  | .vpn => connectVpn profile
  | _ => do
    connectLink dev.index.toInt32
    configureIp profile dev.index.toInt32
    return dev.name

/-- Everything in `activate` that can fail. -/
def bringUp : TryProg Work String := do
  setState .connecting
  let dev ← device
  connect profile dev

/-- `activate`. -/
def activate : TryProg Work ActiveConnection := do
  let deviceName ← bringUp profile
  modifyDevice ({ · with state := .activated, activeConnection := some profile.id })
  return { profileId := profile.id, deviceName, state := .activated }

/-! ## Deactivation -/

/-- `vpn::vpn::disconnect`. -/
def disconnectVpn (ifname : String) : TryProg Work Unit := do
  let work ← Try.lift Proc.get
  match work.sessions.lookup ifname with
  | none => throw (.notFound ("no active VPN session on '" ++ ifname ++ "'"))
  | some kind => do
    Try.lift (Proc.modify fun work => { work with sessions := work.sessions.erase ifname })
    attempt (call (.vpnDisconnect kind ifname))

/-- The Wi-Fi part of the teardown. -/
def disconnectWifi : TryProg Work Unit :=
  if dev.deviceType = .wifi then attempt (call (.wifiDisconnect dev.name)) else pure ()

/-- The external steps of `deactivate`; releasing the leases may fail. -/
def teardown : TryProg Work Unit :=
  if dev.deviceType = .vpn then disconnectVpn dev.name
  else do
    let _ ← Try.lift (call (.dhcpRelease dev.name))
    let _ ← Try.lift (call (.dhcp6Release dev.name))
    attempt (call (.flush dev.index.toInt32))
    disconnectWifi dev

/-- `deactivate`. -/
def deactivate : TryProg Work Unit := do
  setState .deactivating
  let dev ← device
  teardown dev
  modifyDevice ({ · with
    state := .disconnected, activeConnection := none, ipv4Addresses := [], ipv6Addresses := [] })

def isSetup : Call → Bool
  | .bringUp _ | .waitForCarrier _ | .applyDefaultRoute _ _ _ _ | .secretGet _ _
  | .wifiConnect _ _ _ _ _ | .wifiDisconnect _ | .vpnConnect _ _ _ | .vpnDisconnect _ _ => true
  | _ => false

/-! ## What programs leave of the device, and what they call -/

/-- The program leaves the device as it is but for its state and its addresses, and makes only calls
that satisfy `P`. -/
structure Minds {α : Type} (P : Call → Prop) (m : TryProg Work α) : Prop where
  keeps : ∀ w device₀, Try.Keeps w (Work.Like device₀) m
  makes : Try.Makes P m

namespace Minds

variable {α β : Type} {P P' : Call → Prop} {m : TryProg Work α} {f : α → TryProg Work β}

theorem mono (hm : Minds P m) (h : ∀ c, P c → P' c) : Minds P' m := ⟨hm.keeps, .mono hm.makes h⟩

theorem pure (a : α) : Minds P (pure a) := ⟨fun _ _ => Try.Keeps.pure a, Try.Makes.pure a⟩

theorem throw (e : NetworkError) : Minds P (throw e : TryProg Work α) :=
  ⟨fun _ _ => .throw e, .throw e⟩

theorem attempt {m : Prog Work (Result α)} (hst : m.ReadOnly) (hm : m.Makes P) :
    Minds P (attempt m) := by
  refine ⟨fun w _ k s hs => ?_, .ofProc hm⟩
  rw [← hst w k s] at hs
  exact hs

theorem lift {m : Prog Work α} (hst : ∀ w device₀, Proc.Keeps w (Work.Like device₀) m)
    (hm : m.Makes P) : Minds P (Try.lift m) :=
  ⟨fun w device₀ => .lift (hst w device₀), .lift hm⟩

theorem bind (hm : Minds P m) (hf : ∀ a, Minds P (f a)) : Minds P (m >>= f) :=
  ⟨fun w device₀ => (hm.keeps w device₀).bind fun a => (hf a).keeps w device₀,
    hm.makes.bind fun a => (hf a).makes⟩

theorem forM {f : α → TryProg Work Unit} (hf : ∀ a, Minds P (f a)) (l : List α) :
    Minds P (l.forM f) :=
  ⟨fun w device₀ => .forM (fun a => (hf a).keeps w device₀) l,
    .forM (fun a => (hf a).makes) l⟩

theorem get : Minds P (Try.lift Proc.get : TryProg Work Work) :=
  .lift (fun _ _ _ _ hs => hs) .get

theorem device : Minds P device := get.bind fun _ => .pure _

theorem modifyDevice {f : NetworkDevice → NetworkDevice}
    (hf : ∀ work : Work, Work.Like work.device { work with device := f work.device }) :
    Minds P (modifyDevice f) :=
  .lift (fun _ _ => .modify fun work hs =>
    ⟨(hf work).name.trans hs.name, (hf work).index.trans hs.index,
      (hf work).deviceType.trans hs.deviceType, (hf work).carries.trans hs.carries⟩)
    (.modify _)

theorem setState (state : DeviceState) : Minds P (setState state) :=
  modifyDevice fun _ => ⟨rfl, rfl, rfl, rfl⟩

theorem modifySessions (f : Table String VpnKind → Table String VpnKind) :
    Minds P (Try.lift (Proc.modify fun work => { work with sessions := f work.sessions })) :=
  .lift (fun _ _ _ _ hs => { hs with }) (.modify _)

end Minds

abbrev SetsUp {α : Type} (m : TryProg Work α) : Prop := Minds (fun c => isSetup c = true) m

theorem setsUp_wifiPassphrase (id : String) (wifi : WifiSettings) :
    SetsUp (wifiPassphrase id wifi) := by
  unfold wifiPassphrase
  split
  · exact .attempt (.call _) (makes_call rfl)
  · split
    · exact .attempt (.call _) (makes_call rfl)
    · exact .pure none

theorem setsUp_wifiKeyPassword (id : String) (wifi : WifiSettings) :
    SetsUp (wifiKeyPassword id wifi) := by
  unfold wifiKeyPassword
  split
  · exact .attempt (.call _) (makes_call rfl)
  · exact .pure none

theorem setsUp_connectWifi : SetsUp (connectWifi profile) := by
  unfold connectWifi
  split
  · exact .throw _
  · exact (setsUp_wifiPassphrase _ _).bind fun _ => (setsUp_wifiKeyPassword _ _).bind fun _ =>
      Minds.device.bind fun _ => .attempt (.call _) (makes_call rfl)

theorem setsUp_connectVpn : SetsUp (connectVpn profile) := by
  unfold connectVpn
  split
  · exact .throw _
  · exact .bind (.attempt (.call _) (makes_call rfl)) fun _ =>
      (Minds.modifySessions _).bind fun _ => .pure _

theorem setsUp_connectLink : SetsUp (connectLink index) :=
  .bind (.attempt (.call _) (makes_call rfl)) fun _ => .attempt (.call _) (makes_call rfl)

theorem setsUp_applyGateway (gateway : Option String) : SetsUp (applyGateway index gateway) := by
  unfold applyGateway
  split
  · exact .pure ()
  · split
    · exact .throw _
    · exact .attempt (.call _) (makes_call rfl)

theorem setsUp_applyLeaseGateway (gateway : Option Ipv4Addr) :
    SetsUp (applyLeaseGateway index gateway) := by
  unfold applyLeaseGateway
  split
  · exact .pure ()
  · exact .attempt (.call _) (makes_call rfl)

theorem setsUp_disconnectVpn (ifname : String) : SetsUp (disconnectVpn ifname) := by
  refine Minds.get.bind fun work => ?_
  split
  · exact .throw _
  · exact (Minds.modifySessions _).bind fun _ => .attempt (.call _) (makes_call rfl)

theorem setsUp_disconnectWifi : SetsUp (disconnectWifi dev) := by
  unfold disconnectWifi
  split
  · exact .attempt (.call _) (makes_call rfl)
  · exact .pure ()

abbrev OffLink {α : Type} (m : TryProg Work α) : Prop := Minds (fun c => c.isOffLink = true) m

theorem isOffLink_of_isSetup {c : Call} (h : isSetup c = true) : c.isOffLink = true := by
  cases c <;> first | rfl | cases h

theorem SetsUp.offLink {α : Type} {m : TryProg Work α} (h : SetsUp m) : OffLink m :=
  h.mono fun _ => isOffLink_of_isSetup

theorem offLink_applyLeaseDns (servers : List IpAddr) (search : List String) :
    OffLink (applyLeaseDns servers search) := by
  unfold applyLeaseDns
  split
  · exact .pure ()
  · exact .attempt (.call _) (makes_call rfl)

theorem offLink_stateless : OffLink stateless :=
  Minds.device.bind fun _ => .bind (.attempt (.call _) (makes_call rfl)) fun _ =>
    .bind (.attempt (.call _) (makes_call rfl)) fun _ => offLink_applyLeaseDns _ _

theorem offLink_applyProfileDns : OffLink (applyProfileDns profile) := by
  unfold applyProfileDns
  split
  · exact .pure ()
  · exact .attempt (.call _) (makes_call rfl)

section Steps

variable {P : Call → Prop} (hsetup : ∀ c, isSetup c = true → P c)
include hsetup

theorem minds_applyStatic {index : Int32}
    (hadd : ∀ ip prefixlen, P (.addAddress index ip prefixlen)) (profile : ConnectionProfile) :
    Minds P (applyStatic profile index) :=
  .bind (.forM (fun _ => .bind (.attempt (.pure _) (.pure _)) fun _ =>
    .attempt (.call _) (makes_call (hadd _ _))) _) fun _ => (setsUp_applyGateway _ _).mono hsetup

theorem minds_teardown {dev : NetworkDevice} (hrelease : P (.dhcpRelease dev.name))
    (hrelease6 : P (.dhcp6Release dev.name)) (hfl : P (.flush dev.index.toInt32)) :
    Minds P (teardown dev) := by
  unfold teardown
  split
  · exact (setsUp_disconnectVpn _).mono hsetup
  · exact .bind (.lift (fun _ _ => keeps_call _) (makes_call hrelease)) fun _ =>
      .bind (.lift (fun _ _ => keeps_call _) (makes_call hrelease6)) fun _ =>
      .bind (.attempt (.call _) (makes_call hfl)) fun _ =>
      (setsUp_disconnectWifi dev).mono hsetup

end Steps

/-! ## What is left of the device -/

section Specs

variable {w : World Call.Answer} {device₀ : NetworkDevice}

/-- No call is left out. -/
abbrev Tame {α : Type} (m : TryProg Work α) : Prop := Minds (fun _ => True) m

theorem tame_call {α : Type} {m : Prog Work (Result α)} (hst : m.ReadOnly) : Tame (attempt m) :=
  .attempt hst fun _ _ _ _ _ _ => trivial

theorem Minds.tame {α : Type} {P : Call → Prop} {m : TryProg Work α} (h : Minds P m) : Tame m :=
  h.mono fun _ _ => trivial

theorem tame_applyMethod : Tame (applyMethod profile index) := by
  unfold applyMethod
  split
  · exact minds_applyStatic (fun _ _ => trivial) (fun _ _ => trivial) profile
  · refine Minds.device.bind fun _ => (tame_call (.call _)).bind fun _ =>
      (tame_call (.call _)).bind fun _ => (setsUp_applyLeaseGateway _ _).tame.bind fun _ =>
      (offLink_applyLeaseDns _ _).tame.bind fun _ => .bind ?_ fun _ => tame_call (.call _)
    exact .modifyDevice fun _ => ⟨rfl, rfl, rfl, rfl⟩
  · exact .pure ()
  · exact .pure ()

theorem tame_applyIpv6Method : Tame (applyIpv6Method profile index) := by
  unfold applyIpv6Method
  split
  · exact .pure ()
  · exact (Minds.lift offLink_stateless.keeps offLink_stateless.tame.makes).bind fun _ => .pure ()
  · refine Minds.device.bind fun _ => (tame_call (.call _)).bind fun _ =>
      (tame_call (.call _)).bind fun _ => (tame_call (.call _)).bind fun _ =>
      (offLink_applyLeaseDns _ _).tame.bind fun _ => .bind ?_ fun _ => tame_call (.call _)
    exact .modifyDevice fun _ => ⟨rfl, rfl, rfl, rfl⟩

theorem tame_configureIp : Tame (configureIp profile index) :=
  (Minds.setState _).bind fun _ => (tame_call (.call _)).bind fun _ =>
    (tame_applyMethod _ _).bind fun _ => (tame_applyIpv6Method _ _).bind fun _ =>
    (offLink_applyProfileDns _).tame

theorem tame_connect : Tame (connect profile dev) := by
  unfold connect
  split
  · exact (setsUp_connectWifi _).tame.bind fun _ => (tame_configureIp _ _).bind fun _ => .pure _
  · exact (setsUp_connectVpn _).tame
  · exact (setsUp_connectLink _).tame.bind fun _ => (tame_configureIp _ _).bind fun _ => .pure _

theorem tame_bringUp : Tame (bringUp profile) :=
  (Minds.setState _).bind fun _ => Minds.device.bind fun _ => tame_connect _ _

theorem ensures_activate :
    Proc.Ensures w (Work.Like device₀) (activate profile).run fun r work =>
      match r with
      | .ok active => active.profileId = profile.id ∧
          work.Like { device₀ with activeConnection := some profile.id }
      | .error _ => work.Like device₀ :=
  ((tame_bringUp profile).keeps w device₀).ensures_bind
    (fun _ _ _ hs => ⟨rfl, hs.name, hs.index, hs.deviceType, rfl⟩) fun _ _ hs => hs

section Outcome

variable {device : NetworkDevice} {sessions : Table String VpnKind} {k : ℕ}
  {profile} {act : Ran Call.Answer Empty Work (Result ActiveConnection)}
  (hact : (activate profile).run w k ⟨device, sessions⟩ = act)
include hact

theorem activate_ok {active : ActiveConnection} (hok : act.result = .ok active) :
    active.profileId = profile.id ∧
      act.state.Like { device with activeConnection := some profile.id } := by
  have hspec := ensures_activate (w := w) profile k ⟨device, sessions⟩ (.refl _)
  rwa [hact, hok] at hspec

theorem activate_error {e : NetworkError} (herr : act.result = .error e) :
    act.state.Like device := by
  have hspec := ensures_activate (w := w) profile k ⟨device, sessions⟩ (.refl _)
  rwa [hact, herr] at hspec

theorem name_of_activate : act.state.device.name = device.name := by
  cases hres : act.result with
  | ok active => exact (activate_ok hact hres).2.name
  | error e => exact (activate_error hact hres).name

end Outcome

/-! ### Teardown -/

theorem ensures_deactivate :
    Proc.Ensures w (Work.Like device₀) deactivate.run fun r work =>
      match r with
      | .ok _ => work.Like { device₀ with activeConnection := none }
      | .error _ => work.Like device₀ := by
  have htame : ∀ dev, Tame (teardown dev) := fun _ =>
    minds_teardown (fun _ _ => trivial) trivial trivial trivial
  refine ((Minds.setState (P := fun _ => True) _).keeps w device₀).ensures_bind (fun _ => ?_)
    fun _ _ hs => hs
  refine ((Minds.device (P := fun _ => True)).keeps w device₀).ensures_bind (fun dev => ?_)
    fun _ _ hs => hs
  exact ((htame dev).keeps w device₀).ensures_bind
    (fun _ _ _ hs => ⟨hs.name, hs.index, hs.deviceType, rfl⟩) fun _ _ hs => hs

theorem like_of_deactivate {device : NetworkDevice} {sessions : Table String VpnKind} {k : ℕ}
    {down : Ran Call.Answer Empty Work (Result Unit)}
    (hdown : deactivate.run w k ⟨device, sessions⟩ = down) :
    down.state.Like { device with activeConnection := down.state.device.activeConnection } := by
  have hspec := ensures_deactivate (w := w) k ⟨device, sessions⟩ (.refl _)
  rw [hdown] at hspec
  revert hspec
  cases down.result with
  | ok u | error e => exact fun hspec => ⟨hspec.name, hspec.index, hspec.deviceType, rfl⟩

/-- Every external step of tearing a device down succeeds; a VPN also has to be tracked under the
name of the device. -/
structure TeardownSucceeds (w : World Call.Answer) (dev : NetworkDevice)
    (sessions : Table String VpnKind) : Prop where
  vpn : dev.deviceType = .vpn → ∃ kind, sessions.lookup dev.name = some kind ∧
    ∀ k, w k (.vpnDisconnect kind dev.name) = Except.ok ()
  flush : dev.deviceType ≠ .vpn → ∀ k, w k (.flush dev.index.toInt32) = Except.ok ()
  wifi : dev.deviceType = .wifi → ∀ k, w k (.wifiDisconnect dev.name) = Except.ok ()

theorem result_teardown {dev : NetworkDevice} (work : Work)
    (h : TeardownSucceeds w dev work.sessions) (k : ℕ) :
    ((teardown dev).run w k work).result = .ok () := by
  unfold teardown
  split
  · rename_i htype
    obtain ⟨kind, htracked, hdown⟩ := h.vpn htype
    refine (Try.result_bind_of_ok (a := work) rfl).trans ?_
    rw [htracked]
    exact hdown _
  · rename_i htype
    have hfl : ∀ k s, ((attempt (call (.flush dev.index.toInt32)) : TryProg Work Unit).run w k
        s).result = .ok () := fun k _ => h.flush htype k
    refine (Try.result_bind_of_ok rfl).trans ?_
    refine (Try.result_bind_of_ok rfl).trans ?_
    refine (Try.result_bind_of_ok (hfl _ _)).trans ?_
    unfold disconnectWifi
    split
    · exact h.wifi ‹_› _
    · rfl

theorem result_deactivate {work : Work} (h : TeardownSucceeds w work.device work.sessions) (k : ℕ) :
    (deactivate.run w k work).result = .ok () := by
  let dev : NetworkDevice := { work.device with state := .deactivating }
  have hdev : TeardownSucceeds w dev work.sessions := ⟨h.vpn, h.flush, h.wifi⟩
  refine (Try.result_bind_of_ok (a := ()) rfl).trans ?_
  refine (Try.result_bind_of_ok (a := dev) rfl).trans ?_
  exact Try.result_bind_of_ok (result_teardown ⟨dev, work.sessions⟩ hdev _)

end Specs

end Activation

end MitosNetwork
