import Mathlib.Data.List.Chain
import MitosNetwork.Manager.Teardown

/-!
# VPN sessions and the devices they are entered under

`vpn::connect` returns the name of the interface that it set up, and tracks the session under it.
`activate` reports that name in the connection, but the connection is entered in the active map
under the name of the device that was picked by type, and `deactivate` disconnects the session of
that device. `vpn_teardown_iff` says when the names coincide along a run, and when a deactivation
reaches the session that was set up.
-/

namespace MitosNetwork

open List Try Activation DeviceRegistry

variable {log : List (Entry Call.Answer Empty)} {e : NetworkError} {vpn : VpnSettings} {s : String}
  {active : Table String ActiveConnection} {a : ActivateCall}

/-! ## Activation of a VPN profile -/

namespace Activation

variable {w : World Call.Answer} {k : ℕ} {profile : ConnectionProfile} {dev : NetworkDevice}
  {sessions : Table String VpnKind}

theorem bringUp_eq_connect :
    (bringUp profile).run w k ⟨dev, sessions⟩ =
      (connect profile { dev with state := .connecting }).run w k
        ⟨{ dev with state := .connecting }, sessions⟩ := rfl

theorem activate_of_connect_ok {name : String} {work : Work}
    (h : (connect profile { dev with state := .connecting }).run w k
      ⟨{ dev with state := .connecting }, sessions⟩ = ⟨.ok name, work, log⟩) :
    (activate profile).run w k ⟨dev, sessions⟩ =
      ⟨.ok { profileId := profile.id, deviceName := name, state := .activated },
        { work with device := { work.device with
          state := .activated, activeConnection := some profile.id } }, log⟩ := by
  rw [← bringUp_eq_connect] at h
  rw [activate, run_bind_of_ok h]
  exact congrArg (Ran.mk _ _) (append_nil log)

theorem activate_of_connect_error {work : Work}
    (h : (connect profile { dev with state := .connecting }).run w k
      ⟨{ dev with state := .connecting }, sessions⟩ = ⟨.error e, work, log⟩) :
    (activate profile).run w k ⟨dev, sessions⟩ = ⟨.error e, work, log⟩ := by
  rw [← bringUp_eq_connect] at h
  rw [activate, run_bind_of_error h]

/-- A VPN profile without its section cannot be activated. -/
theorem isSome_vpn_of_activate (htype : profile.deviceType = .vpn) {a : ActiveConnection}
    (h : ((activate profile).run w k ⟨dev, sessions⟩).result = .ok a) : profile.vpn.isSome := by
  obtain ⟨name, _, _, hname, -⟩ := result_bind_eq_ok h
  rw [bringUp_eq_connect, connect, htype] at hname
  cases hvpn : profile.vpn with
  | none =>
    simp only [connectVpn, hvpn] at hname
    cases hname
  | some vpn => rfl

/-- Anything else reports the device that it was activated on. -/
theorem deviceName_of_activate (htype : profile.deviceType ≠ .vpn) {a : ActiveConnection}
    (h : ((activate profile).run w k ⟨dev, sessions⟩).result = .ok a) :
    a.deviceName = dev.name := by
  obtain ⟨name, k', work, hname, ha⟩ := result_bind_eq_ok h
  have hdev : a.deviceName = name := by
    cases ha
    rfl
  rw [hdev]
  rw [bringUp_eq_connect, connect] at hname
  split at hname
  · obtain ⟨-, _, _, -, hrest⟩ := result_bind_eq_ok hname
    obtain ⟨-, _, _, -, hname⟩ := result_bind_eq_ok hrest
    exact (Except.ok.inj hname).symm
  · exact absurd ‹_› htype
  · obtain ⟨-, _, _, -, hrest⟩ := result_bind_eq_ok hname
    obtain ⟨-, _, _, -, hname⟩ := result_bind_eq_ok hrest
    exact (Except.ok.inj hname).symm

end Activation

/-! ## Names of sessions -/

/-- Every entry of the active map is stored under the name of the device that it reports. -/
def Keyed (active : Table String ActiveConnection) : Prop :=
  ∀ e ∈ active.entries, e.2.deviceName = e.1

theorem Keyed.erase (h : Keyed active) (name : String) : Keyed (active.erase name) := by
  rintro ⟨n, a⟩ he
  rw [Table.mem_entries_iff, Table.lookup_erase_eq] at he
  split at he
  · cases he
  · exact h ⟨n, a⟩ (Table.mem_entries_iff.mpr he)

theorem Keyed.insert (h : Keyed active) (a : ActiveConnection) :
    Keyed (active.insert a.deviceName a) := by
  rintro ⟨n, b⟩ he
  rw [Table.mem_entries_iff, Table.lookup_insert_eq] at he
  split at he
  · rename_i hn
    cases he
    exact hn.symm
  · exact h ⟨n, b⟩ (Table.mem_entries_iff.mpr he)

namespace Daemon

/-- The device of a noted activation of a VPN profile that has a VPN section. -/
def vpnDevice? : Entry Call.Answer ActivateCall → Option String
  | .note a =>
    if a.profile.deviceType = .vpn ∧ a.profile.vpn.isSome then some a.device.name else none
  | .call _ _ => none

/-- The interface that a VPN session was set up on. -/
def vpnSession? : Entry Call.Answer ActivateCall → Option String
  | .call (.vpnConnect _ _ _) answer => (answer : Result String).toOption
  | _ => none

/-- Every VPN session that is set up in the log has the name of the device it is set up for. -/
def SessionsNamed (log : Log) : Prop :=
  log.IsChain fun e e' => ∀ n ∈ vpnDevice? e, ∀ s ∈ vpnSession? e', s = n

instance (log : Log) : Decidable (SessionsNamed log) :=
  inferInstanceAs (Decidable (log.IsChain _))

/-- The log does not end with a note that is still to be answered. -/
def Settled (log : Log) : Prop := ∀ e ∈ log.getLast?, vpnDevice? e = none

/-- Logs can be taken apart wherever no note is open. -/
theorem sessionsNamed_append {log log' : Log} (h : Settled log) :
    SessionsNamed (log ++ log') ↔ SessionsNamed log ∧ SessionsNamed log' := by
  rw [SessionsNamed, isChain_append]
  refine and_congr_right fun _ => and_iff_left fun e he e' _ n hn => ?_
  rw [h e he] at hn
  cases hn

theorem Settled.append {log log' : Log} (h : Settled log) (h' : Settled log') :
    Settled (log ++ log') := by
  intro e he
  rw [getLast?_append] at he
  cases hlast : log'.getLast? with
  | none =>
    rw [hlast] at he
    exact h e he
  | some last =>
    rw [hlast] at he
    cases he
    exact h' e hlast

theorem vpnDevice?_of_mem_calls {e : Entry Call.Answer ActivateCall}
    (he : e ∈ log.map Proc.liftEntry) : vpnDevice? e = none := by
  obtain ⟨e', -, rfl⟩ := mem_map.mp he
  cases e' with
  | note n => exact n.elim
  | call c a => rfl

theorem settled_calls (log : List (Entry Call.Answer Empty)) :
    Settled (log.map Proc.liftEntry) := fun _ he =>
  vpnDevice?_of_mem_calls (mem_of_getLast? he)

theorem sessionsNamed_calls (log : List (Entry Call.Answer Empty)) :
    SessionsNamed (log.map Proc.liftEntry) := by
  refine List.Pairwise.isChain (pairwise_of_forall_mem_list fun e he e' _ n hn => ?_)
  rw [vpnDevice?_of_mem_calls he] at hn
  cases hn

theorem settled_activation (h : log = [] → vpnDevice? (.note a) = none) :
    Settled (.note a :: log.map Proc.liftEntry) := by
  cases log with
  | nil =>
    rintro e he
    cases he
    exact h rfl
  | cons e log =>
    exact settled_calls (e :: log)

/-- A note is followed at once by the session that it asks for. -/
theorem sessionsNamed_activation :
    SessionsNamed (.note a :: log.map Proc.liftEntry) ↔
      ∀ n ∈ vpnDevice? (.note a), ∀ e ∈ log.head?, ∀ s ∈ vpnSession? (Proc.liftEntry e), s = n := by
  cases log with
  | nil => exact iff_of_true (List.IsChain.singleton _) fun _ _ _ he => nomatch he
  | cons e log =>
    rw [SessionsNamed, map_cons, isChain_cons_cons]
    refine (and_iff_left (sessionsNamed_calls (e :: log))).trans ?_
    simp only [head?_cons, Option.mem_def, Option.some.injEq, forall_eq']

end Daemon

/-! ## What one activation does -/

namespace NetworkManager

open Daemon

variable {m' : NetworkManager}

section Activation

variable {w : World Call.Answer} {k : ℕ} {profile : ConnectionProfile} {device : NetworkDevice}
  {sessions : Table String VpnKind} {registry : DeviceRegistry}
  {act : Ran Call.Answer Empty Work (Result ActiveConnection)}
  (hact : (activate profile).run w k ⟨device, sessions⟩ = act)
include hact

/-- An activation of a VPN profile makes one call, whose answer decides what it reports. -/
theorem activation_cases (hvpn : profile.deviceType = .vpn ∧ profile.vpn.isSome) :
    ∃ vpn : VpnSettings, (∃ e work, act = ⟨.error e, work,
        [.call (.vpnConnect vpn.kind vpn.config profile.id) (Except.error e)]⟩) ∨
      ∃ s, act = ⟨.ok { profileId := profile.id, deviceName := s, state := .activated },
        ⟨{ device with state := .activated, activeConnection := some profile.id },
          sessions.insert s vpn.kind⟩,
        [.call (.vpnConnect vpn.kind vpn.config profile.id) (Except.ok s)]⟩ := by
  obtain ⟨htype, hsome⟩ := hvpn
  obtain ⟨vpn, hvpn⟩ := Option.isSome_iff_exists.mp hsome
  refine ⟨vpn, ?_⟩
  let work : Work := ⟨{ device with state := .connecting }, sessions⟩
  have hcall : (attempt (call (.vpnConnect vpn.kind vpn.config profile.id)) :
      TryProg Work String).run w k work =
      ⟨w k (.vpnConnect vpn.kind vpn.config profile.id), work,
        [.call (.vpnConnect vpn.kind vpn.config profile.id)
          (w k (.vpnConnect vpn.kind vpn.config profile.id))]⟩ := rfl
  have hconnect : connect profile work.device = connectVpn profile := by
    rw [connect, htype]
  rw [connectVpn, hvpn] at hconnect
  cases hanswer : (w k (.vpnConnect vpn.kind vpn.config profile.id) : Result String) with
  | error e =>
    rw [hanswer] at hcall
    refine .inl ⟨e, work, hact.symm.trans (activate_of_connect_error ?_)⟩
    exact (congrArg (·.run w k work) hconnect).trans (run_bind_of_error hcall)
  | ok s =>
    rw [hanswer] at hcall
    have hrun := (congrArg (·.run w k work) hconnect).trans (run_bind_of_ok hcall)
    exact .inr ⟨s, hact.symm.trans (activate_of_connect_ok hrun)⟩

theorem settled_activate :
    Settled (.note ⟨registry, profile, device⟩ :: act.log.map Proc.liftEntry) := by
  refine settled_activation fun hnil => if_neg fun hvpn => ?_
  obtain ⟨vpn, ⟨e, work, rfl⟩ | ⟨s, rfl⟩⟩ := activation_cases hact hvpn
  · cases hnil
  · cases hnil

/-- The session is named as it should be if the report names the device. -/
theorem sessionsNamed_activate_iff {a : ActiveConnection} (hok : act.result = .ok a) :
    SessionsNamed (.note ⟨registry, profile, device⟩ :: act.log.map Proc.liftEntry) ↔
      a.deviceName = device.name := by
  rw [sessionsNamed_activation]
  by_cases hvpn : profile.deviceType = .vpn ∧ profile.vpn.isSome
  · have hdev : vpnDevice? (.note ⟨registry, profile, device⟩) = some device.name := if_pos hvpn
    obtain ⟨vpn, ⟨e, work, rfl⟩ | ⟨s, rfl⟩⟩ := activation_cases hact hvpn
    · cases hok
    · cases hok
      rw [hdev]
      constructor
      · exact fun h => h _ rfl _ rfl _ rfl
      · rintro h _ ⟨⟩ _ ⟨⟩ _ ⟨⟩
        exact h
  · have hdev : vpnDevice? (.note ⟨registry, profile, device⟩) = none := if_neg hvpn
    rw [hdev]
    refine iff_of_true (fun n hn => nomatch hn) ?_
    rw [← hact] at hok
    refine deviceName_of_activate (fun htype => hvpn ⟨htype, ?_⟩) hok
    exact isSome_vpn_of_activate htype hok

theorem sessionsNamed_of_error (herr : act.result = .error e) :
    SessionsNamed (.note ⟨registry, profile, device⟩ :: act.log.map Proc.liftEntry) := by
  rw [sessionsNamed_activation]
  intro n hn
  have hvpn : profile.deviceType = .vpn ∧ profile.vpn.isSome := by
    by_contra hnot
    rw [vpnDevice?, if_neg hnot] at hn
    cases hn
  obtain ⟨vpn, ⟨e', work, rfl⟩ | ⟨s, rfl⟩⟩ := activation_cases hact hvpn
  · rintro _ ⟨⟩ s hs
    cases hs
  · cases herr

end Activation

/-- Some entry is not stored under the name that it reports, and the device carries a connection. -/
def Stuck (m : NetworkManager) : Prop :=
  ∃ name a dev, m.active.lookup name = some a ∧ a.deviceName ≠ name ∧
    m.devices.get name = some dev ∧ dev.activeConnection.isSome

theorem not_stuck {m : NetworkManager} (h : Keyed m.active) : ¬Stuck m := by
  rintro ⟨name, a, dev, hlookup, hne, -⟩
  exact hne (h ⟨name, a⟩ (Table.mem_entries_iff.mpr hlookup))

/-- What is allowed as far as the names of sessions go: an entry under another name comes from a
session under another name, and stays. -/
structure KeepsNames (m : NetworkManager) (log : Log) (m' : NetworkManager) : Prop where
  settled : Settled log
  stuck : Stuck m → Stuck m'
  misnamed : ¬SessionsNamed log → Stuck m'
  keyed : Keyed m.active → SessionsNamed log → Keyed m'.active

theorem KeepsNames.of_eq {m : NetworkManager} {log : Log} (hdevices : m'.devices = m.devices)
    (hactive : m'.active = m.active) (hset : Settled log) (hnamed : SessionsNamed log) :
    KeepsNames m log m' where
  settled := hset
  stuck h := by rwa [Stuck, hdevices, hactive]
  misnamed h := absurd hnamed h
  keyed h _ := by rwa [hactive]

theorem KeepsNames.of_keyed {m : NetworkManager} (hm : Keyed m.active) (hm' : Keyed m'.active)
    (log : List (Entry Call.Answer Empty)) : KeepsNames m (log.map Proc.liftEntry) m' where
  settled := settled_calls log
  stuck h := absurd h (not_stuck hm)
  misnamed h := absurd (sessionsNamed_calls log) h
  keyed _ _ := hm'

theorem KeepsNames.trans {m m'' : NetworkManager} {log log' : Log} (h : KeepsNames m log m')
    (h' : KeepsNames m' log' m'') : KeepsNames m (log ++ log') m'' where
  settled := h.settled.append h'.settled
  stuck hm := h'.stuck (h.stuck hm)
  misnamed hlog := by
    rw [sessionsNamed_append h.settled, not_and_or] at hlog
    exact hlog.elim (fun h₁ => h'.stuck (h.misnamed h₁)) h'.misnamed
  keyed hm hlog := by
    rw [sessionsNamed_append h.settled] at hlog
    exact h'.keyed (h.keyed hm hlog.1) hlog.2

def namesRule : Conduct where
  Allows := KeepsNames
  refl _ := .of_eq rfl rfl (fun _ h => nomatch h) .nil
  trans := KeepsNames.trans

section Rule

variable {w : World Call.Answer}

variable {m : NetworkManager}

theorem keepsNames_call {c : Call} {a : c.Answer} (hdevices : m'.devices = m.devices)
    (hactive : m'.active = m.active) : KeepsNames m [.call c a] m' :=
  .of_eq hdevices hactive (settled_calls [.call c a]) (.singleton _)

theorem keepsNames_silent (hdevices : m'.devices = m.devices) (hactive : m'.active = m.active) :
    KeepsNames m [] m' :=
  .of_eq hdevices hactive (fun _ h => nomatch h) .nil

theorem allowsPlain_namesRule : AllowsPlain namesRule := fun _ _ _ => keepsNames_call rfl rfl

theorem permissive_namesRule : Permissive namesRule where
  call hc := allowsPlain_namesRule (Call.of_isInert hc).1
  event _ _ := keepsNames_call rfl rfl
  proxy _ _ := keepsNames_silent rfl rfl
  firewall _ _ _ _ := keepsNames_silent rfl rfl
  hostapd _ _ := keepsNames_silent rfl rfl
  put _ _ _ := keepsNames_silent rfl rfl
  config _ _ := keepsNames_silent rfl rfl
  connectivity _ _ := keepsNames_silent rfl rfl
  register _ := keepsNames_silent rfl rfl
  unregister _ _ := keepsNames_silent rfl rfl

theorem allowsAudit_namesRule (actor action detail : String) :
    AllowsAudit namesRule actor action detail := fun _ _ => keepsNames_call rfl rfl

/-- A further activation is on a free device, so it cannot free one that is stuck. -/
theorem Stuck.insert (h : Stuck m) {device : NetworkDevice}
    (hget : m.devices.get device.name = some device) (hfree : device.activeConnection = none)
    (hdevices : ∀ n, n ≠ device.name → m'.devices.get n = m.devices.get n)
    (hactive : ∀ n, n ≠ device.name → m'.active.lookup n = m.active.lookup n) : Stuck m' := by
  obtain ⟨name, a, dev, hlookup, hne, hdev, hcarries⟩ := h
  have hname : name ≠ device.name := by
    rintro rfl
    rw [hget] at hdev
    cases hdev
    rw [hfree] at hcarries
    cases hcarries
  exact ⟨name, a, dev, (hactive name hname).trans hlookup, hne, (hdevices name hname).trans hdev,
    hcarries⟩

/-- An activation keeps the names, or is where one goes wrong. -/
theorem obeys_activateProfile_names (profileId actor : String) :
    Obeys w namesRule (activateProfile profileId actor) := by
  refine obeys_activateProfile permissive_namesRule.toLenient
    fun k m profile device hstored hget hfits => ?_
  have hfree := free_of_fits hfits
  generalize hact : (activate profile).run w (k + 1) ⟨device, m.sessions⟩ = act
  have hname := name_of_activate hact
  refine obeysAt_activateDevice permissive_namesRule.toLenient hact (fun a hok => ?_)
    (allowsAudit_namesRule _ _ _) fun e herr => ?_
  · have hnamed : SessionsNamed (.note ⟨m.devices, profile, device⟩ ::
        act.log.map Proc.liftEntry) ↔ _ := sessionsNamed_activate_iff hact hok
    refine ⟨settled_activate hact, fun hm => hm.insert hget hfree ?_ ?_, fun hlog => ?_,
      fun hm hlog => ?_⟩
    · intro n hn
      rw [get_insert, if_neg (hname ▸ hn)]
    · intro n hn
      exact AList.lookup_insert_ne hn
    · refine ⟨device.name, a, act.state.device, AList.lookup_insert _, mt hnamed.mpr hlog, ?_, ?_⟩
      · rw [get_insert, if_pos hname.symm]
      · rw [(activate_ok hact hok).2.carries]
        rfl
    · have hkey := hnamed.mp hlog
      show Keyed (m.active.insert device.name a)
      rw [← hkey]
      exact hm.insert a
  · refine ⟨settled_activate hact, fun hm => hm.insert hget hfree ?_ fun _ _ => rfl,
      fun hlog => absurd (sessionsNamed_of_error hact herr) hlog, fun hm _ => hm⟩
    intro n hn
    rw [get_insert, get_insert, if_neg (hname ▸ hn), if_neg (hname ▸ hn)]

/-- Every stage does what `KeepsNames` allows. -/
theorem keepsNames_program (hm : Keyed m.active) (stage : Daemon.Stage) :
    KeepsNames m (stage.program w 0 m).log (stage.program w 0 m).state := by
  have hR := permissive_namesRule
  have hfirst : AllowsFirst w namesRule stage m := by
    refine ⟨fun _ => obeysAt_refresh hR.toLenient fun _ _ => ?_, fun name _ => ?_⟩
    · refine .of_keyed hm ?_ []
      exact hm
    · exact .of_keyed hm (hm.erase name) []
  have hdown : ∀ id actor, ObeysAt w namesRule (deactivateProfile id actor) 0 m := fun id actor =>
    obeysAt_deactivateProfile hR.toLenient fun entry _ _ =>
      obeysAt_deactivateEntry hR.toLenient
        (fun _ => .of_keyed hm (hm.erase entry.1) [])
        (fun _ down _ _ => .of_keyed hm (hm.erase entry.1) down.log) (allowsAudit_namesRule _ _ _)
  exact obeysAt_program_of_plain hR allowsAudit_namesRule obeys_activateProfile_names hfirst
    (fun id actor _ => hdown id actor) (fun _ _ _ _ _ _ => keepsNames_silent rfl rfl)
    allowsPlain_namesRule

/-- The entries stay under their names exactly if the sessions of the stage are named so. -/
theorem keyed_program_iff (hm : Keyed m.active) (stage : Daemon.Stage) :
    Keyed (stage.program w 0 m).state.active ↔ SessionsNamed (stage.program w 0 m).log := by
  have h := keepsNames_program (w := w) hm stage
  refine ⟨fun hkeyed => ?_, h.keyed hm⟩
  by_contra hlog
  exact not_stuck hkeyed (h.misnamed hlog)

end Rule

/-! ## Disconnecting -/

def isVpn : Call → Bool
  | .vpnConnect _ _ _ => true
  | .vpnDisconnect _ _ => true
  | _ => false

def Disconnects {N : Type} (log : List (Entry Call.Answer N)) (ifname : String) : Prop :=
  ∃ kind answer, .call (.vpnDisconnect kind ifname) answer ∈ log

/-- A session on this interface is set up. -/
def Connects {N : Type} (log : List (Entry Call.Answer N)) (ifname : String) : Prop :=
  ∃ kind config profileId, .call (.vpnConnect kind config profileId) (Except.ok ifname) ∈ log

section Disconnects

variable {w : World Call.Answer} {k : ℕ} {m : NetworkManager} {profileId actor : String}

theorem makes_touch (id : String) :
    Proc.Makes (fun c => isVpn c = false) (Profiles.touch id : M Unit) := by
  unfold Profiles.touch
  split
  · exact .pure ()
  · exact makes_call rfl

theorem makes_broadcast (event : Event) :
    Proc.Makes (fun c => isVpn c = false) (broadcast event) :=
  .bind (makes_call rfl) fun _ => .modify _

theorem makes_broadcastState : Proc.Makes (fun c => isVpn c = false) broadcastState :=
  Proc.Makes.get.bind fun _ => makes_broadcast _

theorem makes_activated (profileId actor deviceName : String) (a : ActiveConnection) :
    Proc.Makes (fun c => isVpn c = false) (activated profileId actor deviceName a) :=
  (Proc.Makes.modify _).bind fun _ => (makes_touch _).bind fun _ =>
    .bind (makes_call rfl) fun _ => Proc.Makes.get.bind fun _ =>
    (makes_broadcast _).bind fun _ => (makes_broadcast _).bind fun _ =>
    makes_broadcastState.bind fun _ => .pure _

theorem makes_deactivated (profileId actor deviceName : String) (result : Result Unit) :
    Proc.Makes (fun c => isVpn c = false) (deactivated profileId actor deviceName result) := by
  cases result with
  | error e => exact .pure _
  | ok u =>
    exact .bind (makes_call rfl) fun _ => (makes_broadcast _).bind fun _ =>
      makes_broadcastState.bind fun _ => .pure _

theorem makes_teardown {dev : NetworkDevice} (htype : dev.deviceType ≠ .vpn) :
    Try.Makes (fun c => isVpn c = false) (teardown dev) := by
  rw [teardown, if_neg htype]
  refine .bind (.lift (makes_call rfl)) fun _ =>
    .bind (.lift (makes_call rfl)) fun _ =>
    .bind (.ofProc (makes_call rfl)) fun _ => ?_
  unfold disconnectWifi
  split
  · exact .ofProc (makes_call rfl)
  · exact .pure ()

theorem log_deactivate (device : NetworkDevice) (sessions : Table String VpnKind) :
    (deactivate.run w k ⟨device, sessions⟩).log =
      ((teardown { device with state := .deactivating }).run w k
        ⟨{ device with state := .deactivating }, sessions⟩).log := by
  obtain ⟨e, -, -, hlog⟩ | ⟨u, k', s', -, -, hlog⟩ := run_bind_cases
    (teardown { device with state := .deactivating }) _ w k
    ⟨{ device with state := .deactivating }, sessions⟩
  · exact hlog
  · exact hlog.trans (append_nil _)

/-- A teardown reaches the session that is tracked under the name of the device. -/
theorem disconnects_deactivate_iff (device : NetworkDevice) (sessions : Table String VpnKind)
    (s : String) :
    Disconnects (deactivate.run w k ⟨device, sessions⟩).log s ↔
      device.name = s ∧ device.deviceType = .vpn ∧ (sessions.lookup s).isSome := by
  rw [log_deactivate]
  generalize hlog : ((teardown { device with state := .deactivating }).run w k
    ⟨{ device with state := .deactivating }, sessions⟩).log = log
  by_cases htype : device.deviceType = .vpn
  · have hdown : ({ device with state := .deactivating } : NetworkDevice).deviceType = .vpn := htype
    rw [teardown_vpn hdown] at hlog
    subst hlog
    constructor
    · rintro ⟨kind, answer, h⟩
      obtain ⟨kind', hkind, heq⟩ := mem_map.mp h
      cases heq
      exact ⟨rfl, htype, Option.isSome_of_eq_some (Option.mem_toList.mp hkind)⟩
    · rintro ⟨rfl, -, hsome⟩
      obtain ⟨kind, hkind⟩ := Option.isSome_iff_exists.mp hsome
      exact ⟨kind, _, mem_map.mpr ⟨kind, Option.mem_toList.mpr hkind, rfl⟩⟩
  · refine iff_of_false ?_ fun h => htype h.2.1
    rintro ⟨kind, answer, h⟩
    rw [← hlog] at h
    exact Bool.noConfusion (makes_teardown htype w k _ _ _ h)

theorem disconnects_append {N : Type} {log log' : List (Entry Call.Answer N)} :
    Disconnects (log ++ log') s ↔ Disconnects log s ∨ Disconnects log' s := by
  simp only [Disconnects, mem_append, exists_or]

theorem disconnects_map_liftEntry :
    Disconnects (log.map Proc.liftEntry : Log) s ↔ Disconnects log s := by
  refine exists₂_congr fun kind answer => ?_
  rw [mem_map]
  constructor
  · rintro ⟨e, he, heq⟩
    cases e with
    | note n => exact n.elim
    | call c a =>
      cases heq
      exact he
  · exact fun h => ⟨_, h, rfl⟩

theorem not_disconnects {α : Type} {prog : M α} (h : Proc.Makes (fun c => isVpn c = false) prog)
    (w : World Call.Answer) (k : ℕ) (m : NetworkManager) (s : String) :
    ¬Disconnects (prog w k m).log s := by
  rintro ⟨kind, answer, hmem⟩
  exact Bool.noConfusion (h w k m _ _ hmem)

theorem disconnects_deactivateDevice_iff (actor name s : String) {device : NetworkDevice} :
    Disconnects (deactivateDevice profileId actor name (some device) w k m).log s ↔
      device.name = s ∧ device.deviceType = .vpn ∧ (m.sessions.lookup s).isSome := by
  rw [deactivateDevice, Proc.log_bind, disconnects_append,
    or_iff_left (not_disconnects (makes_deactivated _ _ _ _) _ _ _ _)]
  exact disconnects_map_liftEntry.trans (disconnects_deactivate_iff device m.sessions s)

theorem disconnects_deactivateProfile_iff (actor s : String) :
    Disconnects (deactivateProfile profileId actor w k m).log s ↔
      (entryToTakeDown w k m profileId).map (·.1) = some s ∧
        (∃ device, m.devices.get s = some device ∧ device.deviceType = .vpn) ∧
        (m.sessions.lookup s).isSome := by
  have hord : ¬Disconnects ([.call .activeOrder (w k .activeOrder)] : Log) s := by
    rintro ⟨kind, answer, h⟩
    cases mem_singleton.mp h
  rw [deactivateProfile_apply _ _ _ _ _ rfl, disconnects_append, or_iff_right hord]
  cases entryToTakeDown w k m profileId with
  | none =>
    refine iff_of_false ?_ fun h => nomatch h.1
    rintro ⟨kind, answer, h⟩
    cases h
  | some entry =>
    rw [deactivateEntry_some, Option.map_some, Option.some.injEq]
    cases hget : m.devices.get entry.1 with
    | none =>
      refine iff_of_false ?_ ?_
      · rintro ⟨kind, answer, h⟩
        cases h
      · rintro ⟨rfl, ⟨device, hdev, -⟩, -⟩
        cases hget.symm.trans hdev
    | some device =>
      have hname := name_of_get hget
      rw [disconnects_deactivateDevice_iff, hname]
      refine and_congr_right fun hs => and_congr_left fun _ => ?_
      rw [← hs, hget]
      simp only [Option.some.injEq, exists_eq_left']

/-! ## Reaching the session that was set up -/

/-- What a successful activation of a VPN profile leaves behind. -/
structure SetsUp (m m' : NetworkManager) (device : NetworkDevice) (profileId s : String) :
    Prop where
  active : ∀ n, listed m'.active n = if n = device.name then some profileId else listed m.active n
  device : ∃ dev, m'.devices.get device.name = some dev ∧ dev.deviceType = .vpn
  session : (m'.sessions.lookup s).isSome

theorem state_activated (profileId actor deviceName : String) (a : ActiveConnection) :
    ∃ events, (activated profileId actor deviceName a w k m).state =
      { m with active := m.active.insert deviceName a, events := events } := by
  have htouch : (Profiles.touch profileId : M Unit).ReadOnly := fun _ =>
    obeys_touch (R := .still) (fun _ _ _ => rfl) profileId
  rw [activated, Proc.modify_bind, Proc.state_bind, htouch]
  exact ⟨_, rfl⟩

theorem eq_of_connects {t : String} {id : String} {before after : Log}
    (hbefore : ∀ c answer, .call c answer ∈ before → isVpn c = false)
    (hafter : ∀ c answer, .call c answer ∈ after → isVpn c = false)
    (h : Connects (before ++ ([.note a, .call (.vpnConnect vpn.kind vpn.config id) (Except.ok t)] ++
      after)) s) : s = t := by
  obtain ⟨kind, config, id', hmem⟩ := h
  rcases mem_append.mp hmem with hmem | hmem
  · cases hbefore _ _ hmem
  · rcases mem_append.mp hmem with hmem | hmem
    · rcases mem_cons.mp hmem with hmem | hmem
      · cases hmem
      · cases mem_singleton.mp hmem
        rfl
    · cases hafter _ _ hmem

theorem setsUp_activateProfile {profile : ConnectionProfile}
    (hstored : m.stored profileId = some profile) (htype : profile.deviceType = .vpn)
    (hok : (activateProfile profileId actor w k m).result = .ok)
    (hses : Connects (activateProfile profileId actor w k m).log s) :
    ∃ device, chosenDevice w k m profile = some device ∧
      SetsUp m (activateProfile profileId actor w k m).state device profileId s := by
  cases hch : chosenDevice w k m profile with
  | none =>
    rw [activateProfile_of_not_chosen hstored hch] at hok
    cases hok
  | some device =>
    refine ⟨device, rfl, ?_⟩
    obtain ⟨hget, hfits⟩ := of_chosenDevice hch
    generalize hact : (activate profile).run w (k + 2) ⟨device, m.sessions⟩ = act
    obtain ⟨k', hran⟩ := activateDevice_apply profile profileId actor device.name m.devices device
      hact
    rw [activateProfile_of_chosen hstored hch] at hok hses ⊢
    rw [hran] at hok hses ⊢
    cases hres : act.result with
    | error e =>
      rw [hres] at hok
      cases hok
    | ok a =>
      have hsome := isSome_vpn_of_activate htype (hact ▸ hres)
      obtain ⟨vpn', ⟨e, work, rfl⟩ | ⟨t, rfl⟩⟩ := activation_cases hact ⟨htype, hsome⟩
      · cases hres
      · cases hres
        have hord : Proc.Makes (fun c => isVpn c = false) (call .deviceOrder : M _) :=
          makes_call rfl
        have hs : s = t := eq_of_connects (hord w k m)
          (makes_activated profileId actor device.name _ w k' _) hses
        have hid : profile.id = profileId := id_of_stored hstored
        have hvpnDevice : device.deviceType = .vpn := by
          simp only [fits, Bool.and_eq_true, decide_eq_true_eq] at hfits
          exact hfits.1.1.trans htype
        obtain ⟨events, hst⟩ := state_activated (w := w) (k := k') (m := { m with
            devices := m.devices.insert
              { device with state := .activated, activeConnection := some profile.id }
            sessions := m.sessions.insert t vpn'.kind })
          profileId actor device.name
          { profileId := profile.id, deviceName := t, state := .activated }
        show SetsUp m (activated profileId actor device.name _ w k' _).state device profileId s
        rw [hst, hs]
        refine ⟨fun n => ?_, ⟨{ device with state := .activated, activeConnection := profile.id },
          ?_, hvpnDevice⟩, ?_⟩
        · rw [listed_insert, hid]
        · exact (get_insert _ _ _).trans (if_pos rfl)
        · exact Option.isSome_of_eq_some (AList.lookup_insert _)

def withFirstEntry (w : World Call.Answer) (entry : Σ _ : String, ActiveConnection) :
    World Call.Answer := fun k c =>
  match c with
  | .activeOrder => Order.frontOf entry
  | c => w k c

theorem SetsUp.reached_iff {device : NetworkDevice} (h : SetsUp m m' device profileId s) :
    (∀ identity w, Disconnects
      (handleRequest identity (.deactivateConnection profileId) w 0 m').log s) ↔
      device.name = s ∧ ∀ e ∈ m.active.entries, e.2.profileId = profileId → e.1 = s := by
  constructor
  · intro hall
    have hkey : ∀ n, listed m'.active n = some profileId → n = s := by
      intro n hn
      obtain ⟨e, he, rfl, hid⟩ := listed_eq_some_iff.mp hn
      have hpicked : entryToTakeDown (withFirstEntry (fun _ => calm [] (.ok ())) e) 0 m' profileId =
          some e := Order.find?_frontOf he (decide_eq_true hid)
      have hrch := (disconnects_deactivateProfile_iff _ s).mp
        (hall ⟨0, 0, 1⟩ (withFirstEntry (fun _ => calm [] (.ok ())) e))
      rw [hpicked] at hrch
      exact Option.some.inj hrch.1
    refine ⟨hkey _ (by rw [h.active, if_pos rfl]), fun e he hid => ?_⟩
    by_cases hname : e.1 = device.name
    · exact hkey e.1 (by rw [h.active, if_pos hname])
    · apply hkey
      rw [h.active, if_neg hname]
      exact listed_eq_some_iff.mpr ⟨e, he, rfl, hid⟩
  · rintro ⟨rfl, hents⟩ identity w
    refine (disconnects_deactivateProfile_iff _ _).mpr ⟨?_, h.device, h.session⟩
    obtain ⟨entry, hent⟩ := entryToTakeDown_of_listed (w := w) (k := 0) (n := device.name)
      (m := m') (by rw [h.active, if_pos rfl])
    have hls := listed_entryToTakeDown hent
    rw [hent, Option.map_some, Option.some.injEq]
    rw [h.active] at hls
    split at hls
    · assumption
    · obtain ⟨e, he, hkey, hid⟩ := listed_eq_some_iff.mp hls
      exact hkey.symm.trans (hents e he hid)

end Disconnects

end NetworkManager

/-! ## Runs -/

namespace Daemon

open NetworkManager

/-- The VPN sessions of the step have the names of the devices they are set up for. -/
def KeepsKeys (d : Daemon) (i : Input) : Prop := SessionsNamed (d.step i).2.log

theorem keyed_step_iff (d : Daemon) (i : Input) (hd : Keyed d.manager.active) :
    Keyed (d.step i).1.manager.active ↔ KeepsKeys d i := by
  unfold KeepsKeys step
  split
  · exact keyed_program_iff hd i.1
  · exact iff_of_true hd .nil

/-- **VPN teardown reaches the session that was set up.** Along a run every entry of the active map
is stored under the name that it reports if and only if every session has the name of its device. A
deactivation that follows the activation of a VPN profile disconnects the session of the activation
if and only if the device has its name, and so has every other device that the profile is active on.
-/
theorem vpn_teardown_iff (r : Run) (d : Daemon) (hinit : r.initial = some d) :
    ((∀ n, Keyed (Machine.finalState step d (r.stages.take n)).manager.active) ↔
      Machine.AllSteps step KeepsKeys d r.stages) ∧
    ∀ (w : World Call.Answer) (k : ℕ) (m : NetworkManager) (profileId actor s : String)
      (profile : ConnectionProfile), m.stored profileId = some profile →
      profile.deviceType = .vpn → (activateProfile profileId actor w k m).result = .ok →
      Connects (activateProfile profileId actor w k m).log s →
      ((∀ identity w', Disconnects (handleRequest identity (.deactivateConnection profileId) w' 0
          (activateProfile profileId actor w k m).state).log s) ↔
        (chosenDevice w k m profile).map (·.name) = some s ∧
          ∀ e ∈ m.active.entries, e.2.profileId = profileId → e.1 = s) := by
  refine ⟨?_, fun w k m profileId actor s profile hstored htype hok hsession => ?_⟩
  · refine Machine.forall_take_iff_allSteps (I := fun _ => True) (D := fun _ _ => True)
      (P := fun d => Keyed d.manager.active) (fun _ _ _ _ => trivial)
      (fun d i _ _ hd => keyed_step_iff d i hd) trivial ?_
      (Machine.allSteps_iff_forall_split.mpr fun _ _ _ _ => trivial)
    rw [active_initial hinit]
    exact fun _ h => nomatch h
  · obtain ⟨device, hchosen, hup⟩ := setsUp_activateProfile hstored htype hok hsession
    rw [hchosen, Option.map_some, Option.some.injEq]
    exact hup.reached_iff

theorem connects_iff {log : Log} : Connects log s ↔ s ∈ log.filterMap vpnSession? := by
  rw [mem_filterMap]
  constructor
  · rintro ⟨kind, config, id, hmem⟩
    exact ⟨_, hmem, rfl⟩
  · rintro ⟨e, he, hs⟩
    unfold vpnSession? at hs
    split at hs
    · rename_i kind config id answer
      cases hanswer : (answer : Result String) with
      | error e =>
        rw [hanswer] at hs
        cases hs
      | ok t =>
        rw [hanswer] at hs
        cases hs
        exact ⟨kind, config, id, hanswer ▸ he⟩
    · cases hs

instance (log : Log) (s : String) : Decidable (Connects log s) :=
  decidable_of_iff _ connects_iff.symm

instance (d : Daemon) (i : Input) : Decidable (KeepsKeys d i) :=
  inferInstanceAs (Decidable (SessionsNamed _))

def beforeTunnel (d : Daemon) (session : String) : Daemon :=
  Machine.finalState step d ((tunnelRun session).stages.take 2)

theorem vpn_teardown_tunnelRun :
    ∃ d, (tunnelRun "wg0").initial = some d ∧
      (∀ n, Keyed (Machine.finalState step d ((tunnelRun "wg0").stages.take n)).manager.active) ∧
      ∀ identity w, Disconnects (handleRequest identity (.deactivateConnection "tunnel") w 0
        (activateProfile "tunnel" "uid:0" (tunnelWorld "wg0" (.ok ())) 0
          (beforeTunnel d "wg0").manager).state).log "wg0" := by
  have hinit := (Option.some_get (show (tunnelRun "wg0").initial.isSome by decide +kernel)).symm
  obtain ⟨hkeyed, hreached⟩ := vpn_teardown_iff _ _ hinit
  exact ⟨_, hinit, hkeyed.mpr (by decide +kernel), (hreached _ _ _ _ _ _ tunnelProfile
    (by decide +kernel) rfl rfl (by decide +kernel)).mpr (by decide +kernel)⟩

/-- The names that the entries are stored under, with the names that they report, and the VPN
interfaces that a request to deactivate the profile disconnects. -/
def tunnelNames (session : String) (m : NetworkManager) : List (String × String) × List String :=
  (m.active.entries.map fun e => (e.1, e.2.deviceName),
    (handleRequest ⟨0, 0, 1⟩ (.deactivateConnection "tunnel") (tunnelWorld session (.ok ())) 0
      m).log.filterMap fun
      | .call (.vpnDisconnect _ ifname) _ => some ifname
      | _ => none)

/-- A session that comes up under another name than the device is not disconnected. -/
theorem session_left_up :
    (managerAfter (tunnelRun "wg0")).map (tunnelNames "wg0") = some ([("wg0", "wg0")], ["wg0"]) ∧
    (managerAfter (tunnelRun "tun1")).map (tunnelNames "tun1") = some ([("wg0", "tun1")], []) ∧
    ¬∀ m, Reachable m → Keyed m.active := by
  refine ⟨by decide +kernel, by decide +kernel, fun h => ?_⟩
  obtain ⟨m, hm, e, he, hne⟩ : ∃ m ∈ managerAfter (tunnelRun "tun1"),
      ∃ e ∈ m.active.entries, e.2.deviceName ≠ e.1 := by decide +kernel
  exact hne (h m (reachable_managerAfter hm) e he)

end Daemon

end MitosNetwork
