import MitosNetwork.Connection.Leases
import MitosNetwork.Manager.Conduct

/-!
# Leases that stay on their links

An activation obtains leases and configures their addresses. `Leased` says that the stored leases of
every active device are on its link; `leasing` is the rule of conduct that keeps it so, as long as
the outside answers truthfully and no lease of an earlier connection is left behind. Every stage but
the check of the leases keeps to it, if it leaves the links of the active devices alone.
-/

namespace MitosNetwork

open Links NetworkManager DeviceRegistry

/-! ## Leases that are configured -/

/-- The stored leases of the interface are on the link: the IPv4 lease is its only IPv4 address, and
the IPv6 lease is among its addresses. -/
structure Links.Carries (s : Links) (index : Int32) (n : String) : Prop where
  v4 : ∀ lease, s.lease n = some lease → ∃ len, s.v4 index = [(.v4 lease.address, len)]
  v6 : ∀ lease, s.lease6 n = some lease → ∃ len, (.v6 lease.address, len) ∈ s.addresses index

theorem Links.Carries.congr {s s' : Links} {index : Int32} {n : String} (h : s.Carries index n)
    (hadrs : s'.addresses index = s.addresses index)
    (hfile : s'.files (leasePath n) = s.files (leasePath n))
    (hfile6 : s'.files (lease6Path n) = s.files (lease6Path n)) : s'.Carries index n where
  v4 lease hle := by
    rw [lease_of_files_eq hfile] at hle
    rw [Links.v4, hadrs]
    exact h.v4 lease hle
  v6 lease hle := by
    rw [lease6_of_files_eq hfile6] at hle
    rw [hadrs]
    exact h.v6 lease hle

theorem Links.Carries.of_none {s : Links} {index : Int32} {n : String} (h : s.lease n = none)
    (h6 : s.lease6 n = none) : s.Carries index n where
  v4 _ hle := nomatch h.symm.trans hle
  v6 _ hle := nomatch h6.symm.trans hle

/-- Different devices have different links and different lease files. -/
def LinksApart (r : DeviceRegistry) : Prop :=
  ∀ n n' dev dev', r.get n = some dev → r.get n' = some dev' → n ≠ n' →
    dev.index.toInt32 ≠ dev'.index.toInt32 ∧ n ≠ n' ++ ".v6"

theorem LinksApart.shrink {r r' : DeviceRegistry} (h : LinksApart r)
    (hold : ∀ n dev, r'.get n = some dev → ∃ old, r.get n = some old ∧ old.index = dev.index) :
    LinksApart r' := by
  intro n n' dev dev' hdev hdev' hne
  obtain ⟨old, hget, hidx⟩ := hold n dev hdev
  obtain ⟨old', hget', hindex'⟩ := hold n' dev' hdev'
  rw [← hidx, ← hindex']
  exact h n n' old old' hget hget' hne

theorem Links.Carries.of_sameBut {s s' : Links} {r : DeviceRegistry} (hap : LinksApart r)
    {n n' : String} {dev dev' : NetworkDevice} (hget : r.get n = some dev)
    (hget' : r.get n' = some dev') (hne : n' ≠ n) (hsame : SameBut dev.index.toInt32 n s s')
    (h : s.Carries dev'.index.toInt32 n') : s'.Carries dev'.index.toInt32 n' := by
  obtain ⟨hidx, hpath⟩ := hap n' n dev' dev hget' hget hne
  obtain ⟨-, hpath'⟩ := hap n n' dev dev' hget hget' hne.symm
  refine h.congr (hsame.addresses _ hidx) (hsame.files _ ?_ ?_) (hsame.files _ ?_ ?_)
  · exact fun heq => hne (leasePath_inj.mp heq)
  · exact fun heq => hpath (leasePath_eq_lease6Path.mp heq)
  · exact fun heq => hpath' (leasePath_eq_lease6Path.mp heq.symm)
  · exact fun heq => hne (lease6Path_inj.mp heq)

namespace NetworkManager

/-- Every entry of the active map is for a device that carries a connection, and the leases that are
stored for it are on its link. -/
structure Leased (m : NetworkManager) (s : Links) : Prop where
  apart : LinksApart m.devices
  carries : ∀ n a, m.active.lookup n = some a → ∃ dev, m.devices.get n = some dev ∧
    dev.activeConnection ≠ none ∧ s.Carries dev.index.toInt32 n

namespace Leased

variable {m m' : NetworkManager} {s s' : Links}

section

variable (h : m.Leased s)
include h

theorem lookup_eq_none {device : NetworkDevice}
    (hget : m.devices.get device.name = some device) (hfree : device.activeConnection = none) :
    m.active.lookup device.name = none := by
  rw [Option.eq_none_iff_forall_ne_some]
  intro a ha
  obtain ⟨dev, hdev, hcarries, -⟩ := h.carries device.name a ha
  rw [hget] at hdev
  cases hdev
  exact hcarries hfree

theorem update {device device' : NetworkDevice}
    (hget : m.devices.get device.name = some device)
    (hdevs : ∀ n, m'.devices.get n =
      if n = device'.name then some device' else m.devices.get n)
    (hname : device'.name = device.name) (hidx : device'.index = device.index)
    (hact : ∀ n, n ≠ device.name → m'.active.lookup n = m.active.lookup n)
    (hsame : SameBut device.index.toInt32 device.name s s')
    (hself : ∀ a, m'.active.lookup device.name = some a →
      device'.activeConnection ≠ none ∧ s'.Carries device.index.toInt32 device.name) :
    m'.Leased s' := by
  rw [hname] at hdevs
  -- What is in the new registry has the name and the link of what was in the old one.
  have hold : ∀ n dev, m'.devices.get n = some dev →
      ∃ old, m.devices.get n = some old ∧ old.index = dev.index := by
    intro n dev hdev
    rw [hdevs] at hdev
    split at hdev
    · rename_i hn
      cases hdev
      exact ⟨device, hn ▸ hget, hidx.symm⟩
    · exact ⟨dev, hdev, rfl⟩
  refine ⟨h.apart.shrink hold, fun n a ha => ?_⟩
  by_cases hn : n = device.name
  · subst hn
    obtain ⟨hcarries, hlk⟩ := hself a ha
    refine ⟨device', by rw [hdevs, if_pos rfl], hcarries, ?_⟩
    rwa [hidx]
  · rw [hact n hn] at ha
    obtain ⟨dev, hdev, hcarries, hlk⟩ := h.carries n a ha
    refine ⟨dev, by rw [hdevs, if_neg hn, hdev], hcarries, ?_⟩
    exact hlk.of_sameBut h.apart hget hdev hn hsame

theorem erase (name : String) : Leased { m with active := m.active.erase name } s where
  apart := h.apart
  carries n a ha := by
    rw [Table.lookup_erase_eq] at ha
    split at ha
    · cases ha
    · exact h.carries n a ha

theorem unplug (name : String) :
    Leased { m with active := m.active.erase name, devices := m.devices.remove name } s := by
  constructor
  · refine h.apart.shrink fun n dev hdev => ?_
    rw [get_remove] at hdev
    split at hdev
    · cases hdev
    · exact ⟨dev, hdev, rfl⟩
  · intro n a ha
    rw [Table.lookup_erase_eq] at ha
    split at ha
    · cases ha
    · rename_i hn
      obtain ⟨dev, hdev, hrest⟩ := h.carries n a ha
      exact ⟨dev, by rw [get_remove, if_neg hn, hdev], hrest⟩

theorem congr (hdevs : m'.devices = m.devices) (hact : m'.active = m.active)
    (hadrs : ∀ n a dev, m.active.lookup n = some a → m.devices.get n = some dev →
      s'.addresses dev.index.toInt32 = s.addresses dev.index.toInt32)
    (hfs : s'.files = s.files) : m'.Leased s' := by
  constructor
  · rw [hdevs]
    exact h.apart
  · intro n a ha
    rw [hact] at ha
    obtain ⟨dev, hdev, hcarries, hlk⟩ := h.carries n a ha
    refine ⟨dev, by rw [hdevs, hdev], hcarries, ?_⟩
    exact hlk.congr (hadrs n a dev ha hdev) (congrFun hfs _) (congrFun hfs _)

end

end Leased

/-! ## What the outside has to do for it -/

/-- No lease of an earlier connection is left where the profile will not obtain a new one. -/
structure Fresh (s : Links) (call : ActivateCall) : Prop where
  v4 : call.profile.deviceType = .vpn ∨ call.profile.method ≠ .auto →
    s.lease call.device.name = none
  v6 : call.profile.deviceType = .vpn ∨ call.profile.ipv6Method ≠ .dhcp6 →
    s.lease6 call.device.name = none

instance (s : Links) (call : ActivateCall) : Decidable (Fresh s call) :=
  decidable_of_iff
    ((call.profile.deviceType = .vpn ∨ call.profile.method ≠ .auto →
        s.lease call.device.name = none) ∧
      (call.profile.deviceType = .vpn ∨ call.profile.ipv6Method ≠ .dhcp6 →
        s.lease6 call.device.name = none))
    ⟨fun h => ⟨h.1, h.2⟩, fun h => ⟨h.v4, h.v6⟩⟩

/-- The file that is read is the one that was written, and the clock does not run backwards. -/
def isSane (time : ℕ) (s : Links) (c : Call) (a : c.Answer) : Bool :=
  match c, a with
  | .readLease ifname, .ok lease => lease = s.lease ifname
  | .now, now => Nat.ble time now
  | _, _ => true

def Sane (time : ℕ) (s : Links) : Entry Call.Answer ActivateCall → Prop
  | .call c a => isSane time s c a
  | .note call => Fresh s call

instance (time : ℕ) (s : Links) : DecidablePred (Sane time s)
  | .call c a => inferInstanceAs (Decidable (isSane time s c a = true))
  | .note call => inferInstanceAs (Decidable (Fresh s call))

/-- A refresh keeps every device of the active map, with its link and its connection. -/
structure KeepsLinks (w : World Call.Answer) (m : NetworkManager) : Prop where
  apart : LinksApart (rescanned w m)
  kept : ∀ n a dev, m.active.lookup n = some a → m.devices.get n = some dev →
    ∃ dev', (rescanned w m).get n = some dev' ∧ dev'.index = dev.index ∧
      dev'.activeConnection = dev.activeConnection

/-- The access point is not on the link of a device of the active map. -/
def OwnLink (w : World Call.Answer) (m : NetworkManager) (interface : String) : Prop :=
  ∀ link, Hotspot.linkNamed w 0 interface = some link → ∀ n a dev, m.active.lookup n = some a →
    m.devices.get n = some dev → dev.index.toInt32 ≠ link.index

/-! ## The rule -/

variable {w : World Call.Answer} {left : ℕ → IpAddr × UInt8 → Bool} {time : ℕ}

/-- The leases stay on their links as long as the entries of the log are sane. -/
def leasing (left : ℕ → IpAddr × UInt8 → Bool) (time : ℕ) : Conduct where
  Allows m log m' := ∀ k s, Proc.Along (effect left) (Sane time) k s log → m.Leased s →
    m'.Leased (Proc.follow (effect left) k s log)
  refl _ _ _ _ h := h
  trans h h' k s halong hs := by
    rw [Proc.along_append] at halong
    rw [Proc.follow_append]
    exact h' _ _ halong.2 (h k s halong.1 hs)

theorem allows_of_isOffLink {c : Call} (hc : c.isOffLink = true) (m : NetworkManager)
    (a : c.Answer) : (leasing left time).Allows m [.call c a] m := by
  intro k s _ hs
  rw [Proc.follow, effect_of_isOffLink hc]
  exact hs

theorem permissive_leasing : Permissive (leasing left time) where
  call hc m a := allows_of_isOffLink (Call.of_isInert hc).2 m a
  event _ _ := fun _ _ _ hs => { hs with }
  proxy _ _ := fun _ _ _ hs => { hs with }
  firewall _ _ _ _ := fun _ _ _ hs => { hs with }
  hostapd _ _ := fun _ _ _ hs => { hs with }
  put _ _ _ := fun _ _ _ hs => { hs with }
  config _ _ := fun _ _ _ hs => { hs with }
  connectivity _ _ := fun _ _ _ hs => { hs with }
  register _ := fun _ _ _ hs => { hs with }
  unregister _ _ := fun _ _ _ hs => { hs with }

theorem allowsAudit_leasing (actor action detail : String) :
    AllowsAudit (leasing left time) actor action detail := fun m a => allows_of_isOffLink rfl m a

/-! ### Activation and deactivation -/

theorem carries_of_activated {x : Activation.Setting} {profile : ConnectionProfile} {t : Links}
    {registry : DeviceRegistry} (hfre : Fresh x.before ⟨registry, profile, x.target⟩)
    (h : x.Activated profile t) : t.Carries x.index x.name := by
  unfold Activation.Setting.Activated at h
  split at h
  · rename_i hvpn
    rw [h]
    exact .of_none (hfre.v4 (.inl hvpn)) (hfre.v6 (.inl hvpn))
  · constructor
    · intro lease hle
      by_cases hauto : profile.method = .auto
      · obtain ⟨obtained, hfile, hlink⟩ := h.auto hauto
        rw [lease_of_files hfile] at hle
        cases hle
        exact ⟨_, hlink⟩
      · rw [lease_of_files_eq (h.notAuto hauto)] at hle
        exact nomatch (hfre.v4 (.inr hauto)).symm.trans hle
    · intro lease hle
      by_cases hdhcp6 : profile.ipv6Method = .dhcp6
      · obtain ⟨obtained, hfile, hlink⟩ := h.dhcp6 hdhcp6
        rw [lease6_of_files hfile] at hle
        cases hle
        exact ⟨_, hlink⟩
      · rw [lease6_of_files_eq (h.notDhcp6 hdhcp6)] at hle
        exact nomatch (hfre.v6 (.inr hdhcp6)).symm.trans hle

theorem obeys_activateProfile_leasing (profileId actor : String) :
    Obeys w (leasing left time) (activateProfile profileId actor) := by
  refine obeys_activateProfile permissive_leasing.toLenient
    fun k m profile device _ hget hfits => ?_
  generalize hact : (Activation.activate profile).run w (k + 1) ⟨device, m.sessions⟩ = act
  refine obeysAt_activateDevice permissive_leasing.toLenient hact (fun a hok j s halong hs => ?_)
    (allowsAudit_leasing _ _ _) fun e herr j s halong hs => ?_
  · obtain ⟨-, hlike⟩ := Activation.activate_ok hact hok
    obtain ⟨hwi, hactivated⟩ := Activation.links_of_activate left hact (j + 1) s
    rw [Proc.follow, Proc.follow_map_liftEntry]
    refine hs.update hget (get_insert _ _) hlike.name hlike.index (fun n hn => ?_)
      hwi fun _ _ => ⟨?_, ?_⟩
    · rw [Table.lookup_insert_eq, if_neg hn]
    · rw [hlike.carries]
      exact Option.some_ne_none _
    · exact carries_of_activated (x := ⟨w, left, device, s⟩) halong.1 (hactivated a hok)
  · have hlike := Activation.activate_error hact herr
    obtain ⟨hwi, -⟩ := Activation.links_of_activate left hact (j + 1) s
    rw [Proc.follow, Proc.follow_map_liftEntry]
    have hrep := get_insert_insert act.state.device
      { act.state.device with state := .failed } rfl m.devices
    refine hs.update hget hrep hlike.name hlike.index (fun _ _ => rfl) hwi fun a ha => ?_
    rw [hs.lookup_eq_none hget (free_of_fits hfits)] at ha
    cases ha

theorem obeys_deactivateProfile_leasing (profileId actor : String) :
    Obeys w (leasing left time) (deactivateProfile profileId actor) := by
  intro k m
  refine obeysAt_deactivateProfile permissive_leasing.toLenient fun entry _ _ => ?_
  refine obeysAt_deactivateEntry permissive_leasing.toLenient
    (fun _ _ _ _ hs => hs.erase entry.1) (fun device down hget hdown j s _ hs => ?_)
    (allowsAudit_leasing _ _ _)
  have hname := name_of_get hget
  have hlike := Activation.like_of_deactivate hdown
  have hfound : m.devices.get device.name = some device := hname ▸ hget
  rw [Proc.follow_map_liftEntry, ← hname]
  refine hs.update hfound (get_insert _ _) hlike.name hlike.index (fun n hn => ?_)
    (Activation.links_of_deactivate left hdown j s) fun a ha => ?_
  · rw [Table.lookup_erase_eq, if_neg hn]
  · rw [Table.lookup_erase_eq, if_pos rfl] at ha
    cases ha

/-! ### The stages -/

theorem obeysAt_refresh_leasing {m : NetworkManager} (h : KeepsLinks w m) :
    ObeysAt w (leasing left time) refresh 0 m := by
  refine obeysAt_refresh permissive_leasing.toLenient fun scanned hscan k s _ hs => ?_
  rw [← rescanned_of_scan hscan]
  refine ⟨h.apart, fun n a ha => ?_⟩
  obtain ⟨dev, hdev, hcarries, hlk⟩ := hs.carries n a ha
  obtain ⟨dev', hdev', hidx, hcon⟩ := h.kept n a dev ha hdev
  refine ⟨dev', hdev', ?_, ?_⟩
  · rwa [hcon]
  · rwa [hidx]

theorem obeysAt_startHotspot_leasing {m : NetworkManager} {interface : String}
    (h : OwnLink w m interface) (actor ssid : String) (passphrase uplink : Option String) :
    ObeysAt w (leasing left time) (startHotspot actor interface ssid passphrase uplink) 0 m := by
  refine .bind (fun k s _ hs => ?_) fun _ => obeys_recorded fun _ =>
    allowsAudit_leasing _ _ _
  show Leased _ (Proc.follow (effect left) k s
    (((Hotspot.start interface ssid passphrase uplink).run w 0 ⟨m.host, m.hostapd⟩).log.map
      Proc.liftEntry))
  rw [Proc.follow_map_liftEntry]
  refine hs.congr rfl rfl (fun n a dev ha hdev => ?_) (funext fun path => ?_)
  · refine addresses_follow (fun c answer hmem hlink => ?_) k
    obtain ⟨link, hnmd, hidx⟩ := (Hotspot.onLink_start hmem).1 _ hlink
    exact h link hnmd n a dev ha hdev hidx.symm
  · refine files_follow (fun c answer hmem n hn => ?_) k
    exact nomatch (Hotspot.onLink_start hmem).2.symm.trans hn

structure LeavesLinks (w : World Call.Answer) (m : NetworkManager) (stage : Daemon.Stage) :
    Prop where
  refresh : stage.refreshes = true → KeepsLinks w m
  hotspot : ∀ interface ssid passphrase uplink identity,
    stage = .command (.request (.startHotspot interface ssid passphrase uplink) identity) →
    OwnLink w m interface

theorem obeysAt_program_leasing {m : NetworkManager} {stage : Daemon.Stage}
    (h : LeavesLinks w m stage) (hstg : stage ≠ .command (.tick .leaseCheck)) :
    ObeysAt w (leasing left time) stage.program 0 m :=
  obeysAt_program_of_audits permissive_leasing allowsAudit_leasing obeys_activateProfile_leasing
    ⟨fun hrefreshes => obeysAt_refresh_leasing (h.refresh hrefreshes),
      fun name _ _ _ _ hs => hs.unplug name⟩
    (fun id actor _ => obeys_deactivateProfile_leasing id actor 0 m)
    (fun _ _ _ _ _ _ _ _ _ hs => { hs with })
    (fun interface ssid passphrase uplink identity hreq => obeysAt_startHotspot_leasing
      (h.hotspot interface ssid passphrase uplink identity hreq) _ ssid passphrase uplink)
    (fun _ _ h => allows_of_isOffLink (Call.of_hostapdOf h).2) fun htick => absurd htick hstg

end NetworkManager

end MitosNetwork
