import MitosNetwork.Manager.Activations

/-!
# The registry and the active map

A connection that is up is stored twice: in the device that carries it and in the active map. The
two copies are compared name by name: what the registry says a name carries (`carried`) and what the
map lists for it (`listed`). Activation, whatever becomes of it, and unplugging keep the copies
equal. A refresh does if it leaves every carrying device in place, and a deactivation does if the
device can be torn down.
-/

namespace MitosNetwork

open Option DeviceRegistry

variable {p : String} {d : NetworkDevice} {a : ActiveConnection}

def carried (r : DeviceRegistry) (n : String) : Option String :=
  (r.get n).bind (·.activeConnection)

def listed (active : Table String ActiveConnection) (n : String) : Option String :=
  (active.lookup n).map (·.profileId)

/-- Registry and active map agree: a device that is in the registry under a name carries a profile
if and only if the map has an entry with that profile. -/
def Agree (r : DeviceRegistry) (active : Table String ActiveConnection) : Prop :=
  ∀ n p, (∃ d, r.get n = some d ∧ d.activeConnection = some p) ↔
    ∃ a, active.lookup n = some a ∧ a.profileId = p

/-! ## One change at a time -/

variable {r : DeviceRegistry} {active : Table String ActiveConnection} {n : String}

theorem carried_eq_some_iff :
    carried r n = some p ↔ ∃ d, r.get n = some d ∧ d.activeConnection = some p :=
  bind_eq_some_iff

theorem listed_eq_some_iff :
    listed active n = some p ↔ ∃ e ∈ active.entries, e.1 = n ∧ e.2.profileId = p := by
  rw [listed, map_eq_some_iff]
  constructor
  · rintro ⟨a, hlk, hid⟩
    exact ⟨⟨n, a⟩, Table.mem_entries_iff.mpr hlk, rfl, hid⟩
  · rintro ⟨⟨name, a⟩, hmem, rfl, hid⟩
    exact ⟨a, Table.mem_entries_iff.mp hmem, hid⟩

theorem agree_iff : Agree r active ↔ ∀ n, carried r n = listed active n := by
  have hls : ∀ n p, listed active n = some p ↔
      ∃ a, active.lookup n = some a ∧ a.profileId = p := fun n p => map_eq_some_iff
  constructor
  · intro h n
    refine Option.ext fun p => ?_
    rw [carried_eq_some_iff, hls]
    exact h n p
  · intro h n p
    rw [← carried_eq_some_iff, ← hls, h n]

theorem carried_insert (r : DeviceRegistry) (d : NetworkDevice) (n : String) :
    carried (r.insert d) n = if n = d.name then d.activeConnection else carried r n := by
  unfold carried
  rw [get_insert]
  split <;> rfl

theorem listed_insert (active : Table String ActiveConnection) (name : String)
    (a : ActiveConnection) (n : String) :
    listed (active.insert name a) n = if n = name then some a.profileId else listed active n := by
  unfold listed
  rw [Table.lookup_insert_eq]
  split <;> rfl

theorem listed_erase (active : Table String ActiveConnection) (name n : String) :
    listed (active.erase name) n = if n = name then none else listed active n := by
  unfold listed
  rw [Table.lookup_erase_eq]
  split <;> rfl

theorem Agree.insert (h : Agree r active) (hd : d.activeConnection = carried r d.name) :
    Agree (r.insert d) active := by
  rw [agree_iff] at h ⊢
  intro n
  rw [carried_insert]
  split
  · rename_i hn
    rw [hd, ← hn, h]
  · exact h n

theorem Agree.insert_insert (h : Agree r active) (hd : d.activeConnection = some a.profileId) :
    Agree (r.insert d) (active.insert d.name a) := by
  rw [agree_iff] at h ⊢
  intro n
  rw [carried_insert, listed_insert, hd, h]

theorem Agree.remove_erase (h : Agree r active) (name : String) :
    Agree (r.remove name) (active.erase name) := by
  rw [agree_iff] at h ⊢
  intro n
  rw [listed_erase, ← h n]
  unfold carried
  rw [get_remove]
  split <;> rfl

/-! ## A refresh -/

section Refresh

variable {unmanaged : List String} {scan : List NetworkDevice}
  (hscan : ∀ dev ∈ scan, dev.activeConnection = none)
include hscan

theorem carried_refreshed (r : DeviceRegistry) (n : String) :
    carried (r.refreshed unmanaged scan) n =
      if n ∈ scan.map (·.name) ∧ n ∉ unmanaged then carried r n else none := by
  unfold carried
  rw [get_refreshed]
  cases hfound : scan.reverse.find? fun dev => dev.name = n with
  | none =>
    have hmis : n ∉ scan.map (·.name) := by
      intro hmem
      obtain ⟨dev, hdev, hname⟩ := List.mem_map.mp hmem
      have := List.find?_eq_none.mp hfound dev (List.mem_reverse.mpr hdev)
      simp [hname] at this
    rw [if_neg fun h => hmis h.1]
    rfl
  | some dev =>
    have hdev : dev ∈ scan := List.mem_reverse.mp (List.mem_of_find?_eq_some hfound)
    have hname : dev.name = n := by simpa using List.find?_some hfound
    have hmem : n ∈ scan.map (·.name) := List.mem_map.mpr ⟨dev, hdev, hname⟩
    rw [map_some, takeOver, hname]
    by_cases hunm : n ∈ unmanaged
    · rw [if_pos hunm, if_neg fun h => h.2 hunm]
      exact hscan dev hdev
    · rw [if_neg hunm, if_pos ⟨hmem, hunm⟩]
      cases hkn : r.get n with
      | none => exact hscan dev hdev
      | some known => rfl

theorem Agree.refreshed (h : Agree r active)
    (hkept : ∀ dev ∈ r.values, dev.activeConnection.isSome →
      dev.name ∈ scan.map (·.name) ∧ dev.name ∉ unmanaged) :
    Agree (r.refreshed unmanaged scan) active := by
  rw [agree_iff] at h ⊢
  intro n
  rw [← h, carried_refreshed hscan]
  split
  · rfl
  · rename_i hlost
    cases hcarries : carried r n with
    | none => rfl
    | some p =>
      obtain ⟨dev, hget, hp⟩ := carried_eq_some_iff.mp hcarries
      have hname := name_of_get hget
      have hdev : dev ∈ r.values := mem_values.mpr (hname ▸ hget)
      have hkeep := hkept dev hdev (hp ▸ rfl)
      rw [hname] at hkeep
      exact absurd hkeep hlost

end Refresh

/-! ## The programs of the manager -/

namespace NetworkManager

variable {w : World Call.Answer} {m : NetworkManager} {k : ℕ} {α : Type}

/-- The agreement as a property of the state; the firewall has no part in it. -/
def Agreed (r : DeviceRegistry) (active : Table String ActiveConnection) (_ : Firewall.Host) :
    Prop :=
  Agree r active

abbrev anyCall (_ : ActivateCall) : Prop := True

abbrev anyLog : Law := .activations anyCall

abbrev bindings : Property := fun _ _ => Agreed

theorem carried_of_get {n : String} (h : m.devices.get n = some d) :
    carried m.devices d.name = d.activeConnection := by
  rw [name_of_get h, carried, h, bind_some]

theorem lenient_bindings : Lenient (ruleOf bindings anyLog) :=
  lenient_ruleOf fun _ _ _ _ _ _ _ h => h

theorem lawful_activateProfile_bindings (profileId actor : String) :
    Lawful w bindings anyLog (activateProfile profileId actor) := by
  refine obeys_activateProfile lenient_bindings fun k m profile device _ hget _ => ?_
  generalize hact : (Activation.activate profile).run w (k + 1) ⟨device, m.sessions⟩ = act
  refine obeysAt_activateDevice lenient_bindings hact (fun a hok hm => ⟨?_, fun _ _ => trivial⟩)
    (allowsAudit_ruleOf _ _ _) fun e herr hm => ⟨?_, fun _ _ => trivial⟩
  · obtain ⟨hid, hlike⟩ := Activation.activate_ok hact hok
    show Agree (m.devices.insert act.state.device) (m.active.insert device.name a)
    rw [← hlike.name]
    exact hm.insert_insert (hlike.carries.trans (congrArg some hid.symm))
  · have hlike := Activation.activate_error hact herr
    refine (hm.insert ?_).insert ?_
    · rw [hlike.carries, hlike.name, carried_of_get hget]
    · rw [carried_insert, if_pos rfl]

/-- The scan finds every device that carries a connection, and none of them is listed as unmanaged.
-/
def ScanKeeps (w : World Call.Answer) (k : ℕ) (m : NetworkManager) : Prop :=
  ∀ links : List Interface, w k .listLinks = Except.ok links →
    ∀ dev ∈ m.devices.values, dev.activeConnection.isSome →
      dev.name ∈ links.map (·.name) ∧ dev.name ∉ m.config.general.unmanagedDevices

theorem result_scan {scanned : List NetworkDevice} (h : (scan w k m).result = .ok scanned) :
    ∃ (links : List Interface) (addrs : List LinkAddress) (sysfs : String → Sysfs),
      w k .listLinks = Except.ok links ∧ scanned = links.map (Discovery.scanned addrs sysfs) := by
  change (scanLinks (w k .listLinks) w (k + 1) m).result = _ at h
  cases hlk : (w k .listLinks : Result (List Interface)) with
  | error e =>
    rw [hlk] at h
    cases h
  | ok links =>
    rw [hlk] at h
    exact ⟨links, _, _, rfl, (Except.ok.inj h).symm⟩

theorem lawfulAt_refresh (hm : Agree m.devices m.active) (hkp : ScanKeeps w k m) :
    LawfulAt w bindings anyLog refresh k m := by
  refine obeysAt_refresh lenient_bindings (fun scanned hscan _ => ?_) hm
  obtain ⟨links, addrs, sysfs, hlk, rfl⟩ := result_scan hscan
  refine ⟨Agree.refreshed ?_ hm ?_, fun _ _ => trivial⟩
  · intro dev hdev
    obtain ⟨link, -, rfl⟩ := List.mem_map.mp hdev
    rfl
  · rw [List.map_map]
    exact hkp links hlk

def TakesDownCleanly (w : World Call.Answer) (m : NetworkManager) (profileId : String) : Prop :=
  ∀ dev ∈ m.devices.values, dev.activeConnection = some profileId →
    Activation.TeardownSucceeds w dev m.sessions

theorem lawfulAt_deactivateProfile {profileId : String} (actor : String)
    (hm : Agree m.devices m.active) (hdown : TakesDownCleanly w m profileId) :
    LawfulAt w bindings anyLog (deactivateProfile profileId actor) 0 m := by
  refine obeysAt_deactivateProfile lenient_bindings (fun entry hmem hid => ?_) hm
  have hcarries : carried m.devices entry.1 = some profileId := by
    rw [agree_iff.mp hm, listed, Table.mem_entries_iff.mp hmem, map_some, hid]
  refine obeysAt_deactivateEntry lenient_bindings (fun hnone => ?_)
    (fun device down hget hrun _ => ⟨?_, fun _ _ => trivial⟩) (allowsAudit_ruleOf _ _ _)
  · rw [carried, hnone] at hcarries
    cases hcarries
  · have hname := name_of_get hget
    have hval : device ∈ m.devices.values := mem_values.mpr (hname ▸ hget)
    rw [carried, hget] at hcarries
    have hspec := Activation.ensures_deactivate (w := w) 1 ⟨device, m.sessions⟩ (.refl _)
    rw [Activation.result_deactivate (hdown device hval hcarries) 1, hrun] at hspec
    show Agree (m.devices.insert down.state.device) (m.active.erase entry.1)
    rw [← hname, ← hspec.name]
    rw [agree_iff] at hm ⊢
    intro n
    rw [carried_insert, listed_erase, hspec.carries, hm]

end NetworkManager

/-! ## Whole runs -/

namespace Daemon

open NetworkManager

/-- What a step needs to keep the agreement: a refresh finds every device that carries a connection
and leaves it managed, and a device whose connection is taken down can be torn down. -/
def KeepsBindings (d : Daemon) (i : Input) : Prop :=
  (i.1.refreshes = true → ScanKeeps i.2 0 d.manager) ∧
    ∀ profileId, i.1.takesDown = some profileId → TakesDownCleanly i.2 d.manager profileId

def Agrees (d : Daemon) : Prop := Agree d.manager.devices d.manager.active

theorem agrees_initial {r : Run} {d : Daemon} (h : r.initial = some d) : d.Agrees := by
  have hbl : Agree (blank r.config r.boot).devices (blank r.config r.boot).active :=
    agree_iff.mpr fun _ => rfl
  rw [Agrees, Run.manager_of_initial h]
  -- There are no devices yet, so the first refresh has nothing to keep.
  exact (lawfulAt_new (fun _ _ _ _ _ _ _ h => h) (fun _ _ _ _ _ _ => trivial) hbl fun _ =>
    lawfulAt_refresh hbl fun _ _ _ hdev => nomatch hdev).1

theorem active_initial {r : Run} {d : Daemon} (h : r.initial = some d) : d.manager.active = ∅ := by
  let J : Property := fun _ _ _ active _ => active = ∅
  rw [Run.manager_of_initial h]
  have href : ∀ m : NetworkManager, m.active = ∅ → LawfulAt r.newWorld J anyLog refresh 1 m :=
    fun m => obeysAt_refresh (R := ruleOf J anyLog) (lenient_ruleOf fun _ _ _ _ _ _ _ h => h)
      fun _ _ hm => ⟨hm, anyLog.nil⟩
  exact (lawfulAt_new (J := J) (L := anyLog) (fun _ _ _ _ _ _ _ h => h) (fun _ _ _ _ _ _ => trivial)
    rfl fun _ => href _ rfl).1

theorem agrees_step (d : Daemon) (i : Input) (hd : d.Agrees) (hi : KeepsBindings d i) :
    (d.step i).1.Agrees := by
  unfold step
  split
  · exact (lawfulAt_program (fun _ _ _ _ _ _ _ h => h) (Property.ignoresEdits_const _)
      (fun _ _ _ _ _ name h => h.remove_erase name) lawful_activateProfile_bindings hd i.1
      (fun h => lawfulAt_refresh hd (hi.1 h))
      fun id actor h => lawfulAt_deactivateProfile actor hd (hi.2 id h)).1
  · exact hd

/-- **Registry and active map agree.** In every run of the daemon all of whose steps meet the
condition, the two copies agree after `new` and after every stage. -/
theorem registry_active_agree (r : Run) (d : Daemon) (hinit : r.initial = some d)
    (hsteps : Machine.AllSteps step KeepsBindings d r.stages) (n : ℕ) :
    Agree (Machine.finalState step d (r.stages.take n)).manager.devices
      (Machine.finalState step d (r.stages.take n)).manager.active := by
  rw [← List.take_append_drop n r.stages, Machine.allSteps_append] at hsteps
  exact Machine.finalState_invariant_of_allSteps (agrees_initial hinit) agrees_step hsteps.1

/-- A profile is activated on the only device, and then more happens. -/
def officeRun (more : List (Command × World Call.Answer)) : Run :=
  { wiredRun ["lo"] [wired 2 "eth0"] office with
    commands := (wiredRun ["lo"] [wired 2 "eth0"] office).commands ++ more }

def copies (d : Daemon) : Option String × Option String :=
  (carried d.manager.devices "eth0", listed d.manager.active "eth0")

/-- A refresh and a deactivation on a machine where everything works. -/
def tidyRun : Run :=
  officeRun [(.tick .deviceRefresh, fun _ => calm [wired 2 "eth0"] (.ok ())),
    (.request (.deactivateConnection "office") ⟨0, 0, 1⟩, fun _ => calm [wired 2 "eth0"] (.ok ()))]

theorem registry_active_agree_tidyRun :
    ∃ d, tidyRun.initial = some d ∧
      (Machine.finalState step d (tidyRun.stages.take 4)).copies = (some "office", some "office") ∧
      (Machine.finalState step d tidyRun.stages).copies = (none, none) ∧
      ∀ n, Agree (Machine.finalState step d (tidyRun.stages.take n)).manager.devices
        (Machine.finalState step d (tidyRun.stages.take n)).manager.active := by
  have hinit := (Option.some_get (show tidyRun.initial.isSome by decide +kernel)).symm
  refine ⟨_, hinit, by decide +kernel, by decide +kernel, registry_active_agree tidyRun _ hinit ?_⟩
  refine ⟨⟨nofun, nofun⟩, ⟨nofun, nofun⟩, ⟨nofun, nofun⟩,
    ⟨fun _ links hlinks => ?_, nofun⟩, ⟨nofun, fun _ _ dev hdev hcarries => ?_⟩, trivial⟩
  · cases hlinks
    decide +kernel
  · have htype : dev.deviceType = .ethernet := by
      clear hcarries
      revert dev
      decide +kernel
    exact ⟨fun h => (nomatch htype.symm.trans h), fun _ _ => rfl,
      fun h => (nomatch htype.symm.trans h)⟩

/-- The kernel refuses to flush the device when the connection is taken down. -/
def busyRun : Run :=
  officeRun [(.request (.deactivateConnection "office") ⟨0, 0, 1⟩,
    fun _ => calm [wired 2 "eth0"] (.error (.netlink "busy")))]

def vanishedRun : Run := officeRun [(.tick .deviceRefresh, fun _ => calm [] (.ok ()))]

/-- The failed deactivation drops the entry and leaves the connection in the device; the refresh
drops the connection and leaves the entry. -/
theorem copies_drift :
    (busyRun.initial.map fun d => (Machine.finalState step d busyRun.stages).copies) =
      some (some "office", none) ∧
    (vanishedRun.initial.map fun d => (Machine.finalState step d vanishedRun.stages).copies) =
      some (none, some "office") ∧
    ¬∀ m, Reachable m → Agree m.devices m.active := by
  have hbusy : (busyRun.initial.map fun d => (Machine.finalState step d busyRun.stages).copies) =
      some (some "office", none) := by decide +kernel
  refine ⟨hbusy, by decide +kernel, fun h => ?_⟩
  obtain ⟨d, hd, hcopies⟩ := map_eq_some_iff.mp hbusy
  have hagree := agree_iff.mp (h _ (reachable_finalState hd)) "eth0"
  obtain ⟨hcarried, hlisted⟩ := Prod.mk.inj hcopies
  rw [hcarried, hlisted] at hagree
  cases hagree

end Daemon

end MitosNetwork
