import Mathlib.Data.List.Sort
import MitosNetwork.Config.Config
import MitosNetwork.Device.Device
import MitosNetwork.Security.Validation
import MitosNetwork.Wifi.Network

/-!
# Connection profiles and autoconnect

`src/connection/profile.rs`, `src/connection/connection.rs` and `src/connection/autoconnect.rs`,
with `recently_used_first` of `src/persistence/profiles.rs`. The sorts of the source are stable, and
so is `List.insertionSort`.
-/

namespace MitosNetwork

inductive VpnKind where
  | wireGuard
  | openVpn
deriving DecidableEq

structure WifiSettings where
  ssid : String
  security : SecurityType
  hidden : Bool
  hasSecret : Bool
  eapIdentity : Option String
  eapCaCertPath : Option String
  eapClientCertPath : Option String
  eapPrivateKeyPath : Option String
  hasEapSecret : Bool
  eapMethod : Option String
  eapPhase2 : Option String
deriving DecidableEq

structure VpnSettings where
  kind : VpnKind
  config : String
deriving DecidableEq

structure ConnectionProfile where
  id : String
  name : String
  deviceType : DeviceType
  interfaceName : Option String
  method : AddressMethod
  ipv6Method : Ipv6Method
  addresses : List String
  gateway : Option String
  dns : List String
  autoconnect : Bool
  autoconnectPriority : ℤ
  metered : Bool
  wifi : Option WifiSettings
  vpn : Option VpnSettings
deriving DecidableEq

/-- `ConnectionProfile::new_wifi`. -/
def ConnectionProfile.newWifi (id ssid : String) (security : SecurityType) : ConnectionProfile where
  id := id
  name := ssid
  deviceType := .wifi
  interfaceName := none
  method := .auto
  ipv6Method := .slaac
  addresses := []
  gateway := none
  dns := []
  autoconnect := true
  autoconnectPriority := 0
  metered := false
  wifi := some
    { ssid := ssid
      security := security
      hidden := false
      hasSecret := security ≠ .open
      eapIdentity := none
      eapCaCertPath := none
      eapClientCertPath := none
      eapPrivateKeyPath := none
      hasEapSecret := false
      eapMethod := none
      eapPhase2 := none }
  vpn := none

inductive ActiveConnectionState where
  | activating
  | activated
  | deactivating
  | deactivated
  | failed
deriving DecidableEq

/-- A connection that is up; the time since when and the failure reason are not read. -/
structure ActiveConnection where
  profileId : String
  deviceName : String
  state : ActiveConnectionState
deriving DecidableEq

namespace Autoconnect

/-- `matches`: the device type, and the pin if there is one. -/
def matchesDevice (profile : ConnectionProfile) (device : NetworkDevice) : Bool :=
  profile.deviceType = device.deviceType &&
    match profile.interfaceName with
    | some name => name == device.name
    | none => true

variable (device : NetworkDevice)

def isPinned (p : ConnectionProfile) : Bool :=
  p.interfaceName = some device.name

/-- The order of `select`: pinned profiles first, then by descending priority. -/
def ranksBefore (a b : ConnectionProfile) : Prop :=
  (isPinned device a = true ∧ isPinned device b = false) ∨
    (isPinned device a = isPinned device b ∧ b.autoconnectPriority ≤ a.autoconnectPriority)

instance (device : NetworkDevice) : DecidableRel (ranksBefore device) :=
  fun _ _ => inferInstanceAs (Decidable (_ ∨ _))

/-- `select`. -/
def select (candidates : List ConnectionProfile) : Option ConnectionProfile :=
  let eligible := candidates.filter fun p => p.autoconnect && matchesDevice p device
  (eligible.insertionSort (ranksBefore device)).head?

/-- `select_wifi`: by the SSIDs that are visible; the pin is not looked at. -/
def selectWifi (candidates : List ConnectionProfile) (visibleSsids : List String) :
    Option ConnectionProfile :=
  if device.deviceType = .wifi then
    let eligible := candidates.filter fun p => p.autoconnect &&
      match p.wifi with
      | some wifi => visibleSsids.any (· == wifi.ssid)
      | none => false
    (eligible.insertionSort fun a b => b.autoconnectPriority ≤ a.autoconnectPriority).head?
  else none

/-- The time a profile was last used: the modification time of its file, or the epoch. -/
def lastUsed (mtimes : String → Option ℤ) (p : ConnectionProfile) : ℤ :=
  match Validation.validateIdentifier p.id with
  | .ok () => (mtimes p.id).getD 0
  | .error _ => 0

/-- `recently_used_first`. -/
def recentlyUsedFirst (mtimes : String → Option ℤ) (profiles : List ConnectionProfile) :
    List ConnectionProfile :=
  profiles.insertionSort fun a b => lastUsed mtimes b ≤ lastUsed mtimes a

end Autoconnect

end MitosNetwork
