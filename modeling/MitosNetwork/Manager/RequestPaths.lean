import MitosNetwork.Manager.Conduct
import MitosNetwork.Persistence.Profiles
import MitosNetwork.Security.Secrets

/-!
# Paths from requests

The paths that the daemon makes of the strings of a request: `profile_path` of
`src/persistence/profiles.rs`, `FileSecretsBackend::path` of `src/security/secrets.rs`, the socket
of `WpaCtrl::connect` of `src/wifi/wpa.rs` and `config_path` of `src/wifi/hotspot.rs`. The first
three validate the name. For the last, `start` has done so, but `stop` has not.
-/

namespace MitosNetwork

open Validation

/-- `profile_path`, as a name in the directory. -/
def Profiles.path (id : String) : Result String := do
  validateIdentifier id
  pure (fileName id)

/-- The control socket of `WpaCtrl::connect`, as a name in the directory. -/
def controlSocket (ifname : String) : Result String := do
  validateInterfaceName ifname
  pure ifname

/-- `config_path`, as a name in `/run/mitos-network`. -/
def Hotspot.configPath (ifname : String) : String := "hostapd-" ++ ifname ++ ".conf"

/-- The secrets that `connect` looks for. -/
def VpnKind.secretKeys : VpnKind → List String
  | .wireGuard => ["wg-private-key"]
  | .openVpn => ["auth-username", "auth-password"]

/-- The paths that a call makes of the names that it is given. -/
def Call.paths : Call → List (Result String)
  | writeProfile p => [Profiles.path p.id]
  | removeProfile id | touchProfile id => [Profiles.path id]
  | secretGet owner key | secretSet owner key _ => [Secrets.path owner key]
  | vpnConnect kind _ profileId => kind.secretKeys.map (Secrets.path profileId)
  | scanWifi _ ifname | scanResults _ ifname | wifiConnect ifname _ _ _ _ | wifiDisconnect ifname
  | wifiForget ifname _ => [controlSocket ifname]
  | writeHostapdConfig ifname _ | removeHostapdConfig ifname | spawnHostapd ifname =>
    [.ok (Hotspot.configPath ifname)]
  | _ => []

def IsComponent (name : String) : Prop := '/' ∉ name.toList ∧ name ≠ "." ∧ name ≠ ".."

def Call.Stays (c : Call) : Prop := ∀ name, .ok name ∈ c.paths → IsComponent name

theorem isComponent_of_length {name : String} (h : '/' ∉ name.toList)
    (hlen : 2 < name.toList.length) : IsComponent name := by
  refine ⟨h, ?_, ?_⟩ <;>
  · rintro rfl
    revert hlen
    decide

theorem slash_notMem {id : String} (h : validateIdentifier id = .ok ()) : '/' ∉ id.toList :=
  fun hmem => Bool.noConfusion ((of_validateIdentifier h).2 '/' hmem)

theorem isComponent_profile {id name : String} (h : Profiles.path id = .ok name) :
    IsComponent name := by
  obtain ⟨_, hid, h⟩ := of_bind_eq_ok h
  cases h
  refine isComponent_of_length ?_ ?_ <;> rw [Profiles.toList_fileName]
  · simp [slash_notMem hid]
  · simp

theorem isComponent_secret {owner key name : String} (h : Secrets.path owner key = .ok name) :
    IsComponent name := by
  obtain ⟨_, how, h⟩ := of_bind_eq_ok h
  obtain ⟨_, hkey, h⟩ := of_bind_eq_ok h
  cases h
  have hlen := List.length_pos_of_ne_nil (of_validateIdentifier how).1
  have hlength' := List.length_pos_of_ne_nil (of_validateIdentifier hkey).1
  refine isComponent_of_length ?_ ?_ <;> rw [← Secrets.secretName, Secrets.toList_secretName]
  · simp [slash_notMem how, slash_notMem hkey]
  · rw [List.length_append, List.length_cons]
    omega

theorem isComponent_controlSocket {ifname name : String} (h : controlSocket ifname = .ok name) :
    IsComponent name := by
  obtain ⟨_, hname, h⟩ := of_bind_eq_ok h
  cases h
  have hnot := of_validateInterfaceName hname
  simp only [not_or] at hnot
  exact ⟨hnot.1, hnot.2.2⟩

theorem isComponent_configPath {ifname : String} :
    IsComponent (Hotspot.configPath ifname) ↔ '/' ∉ ifname.toList := by
  have hsl : '/' ∉ (Hotspot.configPath ifname).toList ↔ '/' ∉ ifname.toList := by
    simp [Hotspot.configPath]
  refine ⟨fun h => hsl.mp h.1, fun h => isComponent_of_length (hsl.mpr h) ?_⟩
  simp [Hotspot.configPath]

theorem Call.stays {c : Call} (h : ∀ ifname, c.hostapdOf = some ifname → '/' ∉ ifname.toList) :
    c.Stays := by
  have hone {path : Result String} (hpath : ∀ name, path = .ok name → IsComponent name) :
      ∀ name, .ok name ∈ [path] → IsComponent name := fun name hmem =>
    hpath name (List.mem_singleton.mp hmem).symm
  cases c with
  | writeProfile p | removeProfile id | touchProfile id => exact hone fun _ => isComponent_profile
  | secretGet owner key | secretSet owner key value => exact hone fun _ => isComponent_secret
  | vpnConnect kind config profileId =>
    intro name hmem
    obtain ⟨key, -, hkey⟩ := List.mem_map.mp hmem
    exact isComponent_secret hkey
  | scanWifi dir ifname | scanResults dir ifname | wifiConnect ifname | wifiDisconnect ifname
  | wifiForget ifname => exact hone fun _ => isComponent_controlSocket
  | writeHostapdConfig ifname | removeHostapdConfig ifname | spawnHostapd ifname =>
    refine hone fun name hname => ?_
    cases hname
    exact isComponent_configPath.mpr (h ifname rfl)
  | _ => exact fun _ hmem => nomatch hmem

theorem Call.stays_of_hostapdOf {c : Call} (h : c.hostapdOf = none) : c.Stays :=
  Call.stays fun _ hname => nomatch h.symm.trans hname

namespace NetworkManager

open Proc

def staying : Conduct where
  Allows _ log _ := ∀ (c : Call) (a : c.Answer), .call c a ∈ log → c.Stays
  refl _ _ _ h := nomatch h
  trans h h' c a hmem := (List.mem_append.mp hmem).elim (h c a) (h' c a)

variable {c : Call} {w : World Call.Answer}

theorem staying_call (h : c.Stays) (m : NetworkManager) (a : c.Answer) :
    staying.Allows m [.call c a] m := by
  intro c' a' hmem
  cases List.mem_singleton.mp hmem
  exact h

theorem editable_staying : Editable staying where
  call hc := staying_call (Call.stays_of_hostapdOf (Call.hostapdOf_of_isInert hc))
  event {m _} _ live c a h :=
    staying_call (c := .liveClients) (Call.stays_of_hostapdOf rfl) m live c a h
  proxy _ _ _ _ h := nomatch h
  firewall _ _ _ _ _ _ h := nomatch h
  hostapd _ _ _ _ h := nomatch h
  put _ _ _ _ _ h := nomatch h
  config _ _ _ _ h := nomatch h

theorem allowsAudit_staying (actor action detail : String) :
    AllowsAudit staying actor action detail := staying_call (Call.stays_of_hostapdOf rfl)

theorem staying_activation {log : List (Entry Call.Answer Empty)}
    (h : ∀ c a, .call c a ∈ log → c.ofActivation = true) (m : NetworkManager) :
    staying.Allows m (log.map Proc.liftEntry) m := by
  refine allows_calls (fun {c} hc => staying_call (Call.stays_of_hostapdOf ?_)) h m
  cases c <;> first | rfl | cases hc

theorem obeys_activateProfile_staying (profileId actor : String) :
    Obeys w staying (activateProfile profileId actor) := by
  refine obeys_activateProfile editable_staying.toLenient fun k m profile device _ _ _ => ?_
  have hcs := staying_activation
    ((Activation.settles_activate profile).calls w (k + 1) ⟨device, m.sessions⟩) m
  have hnote (a : ActivateCall) : staying.Allows m [.note a] m := fun _ _ h => by simp at h
  exact obeysAt_activateDevice editable_staying.toLenient rfl
    (fun _ _ => staying.trans (hnote _) hcs) (allowsAudit_staying _ _ _)
    fun _ _ => staying.trans (hnote _) hcs

theorem obeysAt_deactivateProfile_staying {k : ℕ} {m : NetworkManager} (profileId actor : String) :
    ObeysAt w staying (deactivateProfile profileId actor) k m := by
  refine obeysAt_deactivateProfile editable_staying.toLenient fun entry _ _ => ?_
  refine obeysAt_deactivateEntry editable_staying.toLenient (fun _ _ _ h => nomatch h)
    (fun device down _ hdown => ?_) (allowsAudit_staying _ _ _)
  subst hdown
  exact staying_activation
    ((Activation.quiet_deactivate.mono fun _ => Call.ofActivation_of_isLink) w _ _) m

theorem obeys_startHotspot_staying (actor device ssid : String)
    (passphrase uplink : Option String) :
    Obeys w staying (startHotspot actor device ssid passphrase uplink) := by
  have hsty : Proc.Makes Call.Stays (Hotspot.start device ssid passphrase uplink).run := by
    refine Hotspot.makes_start (fun hvalid c hc => Call.stays fun ifname h => ?_)
      (fun c hc => Call.stays_of_hostapdOf (Call.hostapdOf_of_isInert hc))
      (fun c hc => Call.stays_of_hostapdOf ?_) uplink
    · obtain rfl := Option.some.inj (hc.symm.trans h)
      have hnot := of_validateInterfaceName (Hotspot.of_validateHotspot hvalid).1
      exact fun hmem => hnot (.inl hmem)
    · cases c <;> first | rfl | cases hc
  refine .bind (obeys_zoom (fun h => staying_call h) hsty fun _ _ _ _ h => nomatch h)
    fun _ => obeys_recorded fun _ => allowsAudit_staying _ _ _

theorem removes_config (identity : PeerIdentity) (device : String) (w : World Call.Answer) (k : ℕ)
    (m : NetworkManager) : .call (.removeHostapdConfig device) () ∈
      (handleRequest identity (.stopHotspot device) w k m).log := by
  have hstop : .call (.removeHostapdConfig device) () ∈
      (Hotspot.stopHostapd device w k ⟨m.host, m.hostapd⟩).log :=
    List.mem_append_right _ List.mem_cons_self
  exact List.mem_append_left _ (List.mem_map_of_mem hstop)

/-- **Paths from requests.** Every path that the daemon makes of a string of a request is a
directory of its own and one component that stays in it, if and only if the request does not stop a
hotspot on a device with a slash in its name. -/
theorem request_stays_iff (identity : PeerIdentity) (req : Request) (w : World Call.Answer) (k : ℕ)
    (m : NetworkManager) :
    (∀ c a, .call c a ∈ (handleRequest identity req w k m).log → c.Stays) ↔
      ∀ device, req = .stopHotspot device → '/' ∉ device.toList := by
  constructor
  · rintro h device rfl
    exact isComponent_configPath.mp
      (h _ _ (removes_config identity device w k m) _ List.mem_cons_self)
  · intro h
    refine obeysAt_handleRequest editable_staying
      (fun profile _ k m _ => obeys_activateProfile_staying profile.id _ k m)
      (fun _ _ _ => allowsAudit_staying _ _ _)
      (fun _ _ _ hop => obeys_firewallRequest editable_staying.toLenient (allowsAudit_staying _ _ _)
        (isOwn_of_firewallOf hop) k m)
      (fun device ssid passphrase uplink _ =>
        obeys_startHotspot_staying _ device ssid passphrase uplink k m)
      (fun device hreq c hc => staying_call (Call.stays fun ifname hname => ?_))
      (fun id _ => obeysAt_deactivateProfile_staying id _) fun _ _ _ _ _ h => nomatch h
    obtain rfl := Option.some.inj (hc.symm.trans hname)
    exact h device hreq

/-- The file that is removed is `/run/victim.conf`, if `hostapd-x` is a directory. -/
theorem stopHotspot_escapes :
    let w : World Call.Answer := fun _ => calm [] (.ok ())
    let m : NetworkManager := .blank Config.defaultConfig ⟨none, none⟩
    ∃ c a, .call c a ∈ (handleRequest ⟨0, 0, 0⟩ (.stopHotspot "x/../../victim") w 0 m).log ∧
      c.paths = [.ok "hostapd-x/../../victim.conf"] :=
  ⟨_, _, removes_config ⟨0, 0, 0⟩ "x/../../victim" _ 0 _, rfl⟩

end NetworkManager

end MitosNetwork
