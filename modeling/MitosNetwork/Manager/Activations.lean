import MitosNetwork.Manager.Soundness

/-!
# Which devices are activated

`find_device_for_profile` takes the first device of the right type that is free and that the profile
is not pinned away from. Whether the device is managed, and whether it is the one that autoconnect
chose the profile for, is not asked. `activations_activateProfile` says exactly which calls of
`activation::activate` come of that.
-/

namespace MitosNetwork

open Daemon

variable {order : Order NetworkDevice} {a : ActivateCall}

/-- The device of the call is in the registry, and it passes the test of `find_device_for_profile`.
-/
def ActivateCall.Fits (a : ActivateCall) : Prop :=
  a.device ∈ a.registry.values ∧ NetworkManager.fits a.profile a.device = true

namespace NetworkManager

variable {w : World Call.Answer} {k : ℕ} {m : NetworkManager} {P : ActivateCall → Prop}

variable {α : Type}

/-! ## Programs that activate nothing -/

/-- Nothing is asked of the state. -/
abbrev Anything : Invariant := OfHost fun _ => True

/-- The program makes no call of `activation::activate`. -/
abbrev Passive {α : Type} (w : World Call.Answer) (prog : M α) : Prop :=
  Sound w Anything (fun _ => False) prog

theorem activations_append (log log' : Log) :
    activations (log ++ log') = activations log ++ activations log' := List.filterMap_append

theorem Passive.activations_eq_nil {prog : M α} (h : Passive w prog) (k : ℕ) (m : NetworkManager) :
    activations (prog w k m).log = [] := by
  rw [List.eq_nil_iff_forall_not_mem]
  intro a ha
  exact (h k m trivial).2 a (mem_activations.mp ha)

theorem passive_onDevice (device : NetworkDevice) (prog : TryProg Work α) :
    Passive w (onDevice device prog) :=
  fun _ _ _ => ⟨trivial, fun _ hn => Proc.note_notMem_log_zoom hn⟩

theorem passive_activationDone (profileId actor deviceName : String)
    (result : Result ActiveConnection) :
    Passive w (activationDone profileId actor deviceName result) :=
  (lawful_activationDone (fun _ _ _ _ _ _ _ _ => trivial) (Property.ignoresDevices_ofHost _) _ _ _
    _).sound

theorem passive_visibleSsids (device : NetworkDevice) : Passive w (visibleSsids device) :=
  Lawful.sound (obeys_visibleSsids (R := ruleOf (fun _ _ => Anything) (.activations fun _ => False))
    (lenient_ruleOf fun _ _ _ _ _ _ _ _ => trivial).call device)

theorem activations_bind {β : Type} (prog : M α) (rest : α → M β) :
    activations ((prog >>= rest) w k m).log = activations (prog w k m).log ++
      activations (rest (prog w k m).result w (k + (prog w k m).log.length)
        (prog w k m).state).log := by
  rw [Proc.log_bind, activations_append]

/-! ## The calls of one `activate_profile` -/

theorem activations_activateDevice (profile : ConnectionProfile) (profileId actor name : String)
    (registry : DeviceRegistry) (device : NetworkDevice) (w : World Call.Answer) (k : ℕ)
    (m : NetworkManager) :
    activations (activateDevice profile profileId actor name registry (some device) w k m).log =
      [⟨registry, profile, device⟩] := by
  rw [activateDevice, activations_bind, activations_bind,
    Passive.activations_eq_nil (passive_onDevice _ _),
    Passive.activations_eq_nil (passive_activationDone _ _ _ _)]
  rfl

theorem activations_activateProfile (profileId actor : String) (w : World Call.Answer) (k : ℕ)
    (m : NetworkManager) (hord : w k .deviceOrder = order) :
    activations ((activateProfile profileId actor) w k m).log =
      (m.stored profileId).toList.flatMap fun profile =>
        ((order.arrange m.devices.values).find? (fits profile)).toList.map
          (⟨m.devices, profile, ·⟩) := by
  subst hord
  cases hstored : m.stored profileId with
  | none =>
    rw [activateProfile_of_not_stored hstored]
    rfl
  | some profile =>
    show _ = [profile].flatMap fun p =>
      (chosenDevice w k m p).toList.map (ActivateCall.mk m.devices p)
    rw [List.flatMap_singleton]
    cases hch : chosenDevice w k m profile with
    | none =>
      rw [activateProfile_of_not_chosen hstored hch]
      rfl
    | some device =>
      rw [activateProfile_of_chosen hstored hch]
      exact activations_activateDevice profile profileId actor device.name m.devices device w _ m

theorem mem_activations_activateProfile {profileId actor : String}
    (hord : w k .deviceOrder = order) :
    a ∈ activations ((activateProfile profileId actor) w k m).log ↔
      ∃ profile device, m.stored profileId = some profile ∧
        (order.arrange m.devices.values).find? (fits profile) = some device ∧
        a = ⟨m.devices, profile, device⟩ := by
  rw [activations_activateProfile profileId actor w k m hord]
  simp only [List.mem_flatMap, Option.mem_toList, List.mem_map]
  constructor
  · rintro ⟨profile, hstored, device, hfound, rfl⟩
    exact ⟨profile, device, hstored, hfound, rfl⟩
  · rintro ⟨profile, device, hstored, hfound, rfl⟩
    exact ⟨profile, hstored, device, hfound, rfl⟩

theorem sound_activateProfile_fits (profileId actor : String) :
    Sound w Anything ActivateCall.Fits (activateProfile profileId actor) := by
  intro k m _
  refine ⟨trivial, fun a ha => ?_⟩
  obtain ⟨profile, device, -, hfound, rfl⟩ :=
    (mem_activations_activateProfile rfl).mp (mem_activations.mpr ha)
  exact Order.of_find?_arrange hfound

end NetworkManager

/-! ## The calls of a run -/

namespace Daemon

open NetworkManager

/-- The calls of `activation::activate` in a run, in order. -/
def activateCalls (d : Daemon) (stages : List Input) : List ActivateCall :=
  (Machine.outputs step d stages).flatMap fun o => activations o.log

theorem fits_of_mem_step {d : Daemon} {i : Input} (ha : a ∈ activations (d.step i).2.log) :
    a.Fits := by
  unfold step at ha
  split at ha
  · have hsound : SoundAt i.2 Anything ActivateCall.Fits i.1.program 0 d.manager :=
      lawfulAt_program_ofHost (K := fun _ => True) (L := .activations ActivateCall.Fits)
        (fun _ _ _ _ _ _ => trivial) sound_activateProfile_fits trivial i.1
    exact hsound.2 a (mem_activations.mp ha)
  · cases ha

theorem fits_of_mem_activateCalls {d : Daemon} {stages : List Input}
    (ha : a ∈ activateCalls d stages) : a.Fits := by
  obtain ⟨o, ho, ha⟩ := List.mem_flatMap.mp ha
  obtain ⟨before, i, after, -, rfl⟩ := Machine.exists_split_of_mem_outputs ho
  exact fits_of_mem_step ha

/-! ## Unmanaged devices -/

/-- No device of the registry that is unmanaged would be accepted for the profile. -/
def UnmanagedExcluded (registry : DeviceRegistry) (profile : ConnectionProfile) : Prop :=
  ∀ device ∈ registry.values, device.state = .unmanaged → fits profile device = false

instance (registry : DeviceRegistry) (profile : ConnectionProfile) :
    Decidable (UnmanagedExcluded registry profile) :=
  inferInstanceAs (Decidable (∀ device ∈ registry.values, _))

/-- **Managed devices only, as far as the search keeps to them.** In every run, from whatever state,
if whenever a profile is activated no unmanaged device of the registry would be accepted for it,
then no call is on an unmanaged device. The condition is exact for every single `activate_profile`:
in whichever order the registry is iterated, it stays off the unmanaged devices if and only if the
condition holds. -/
theorem activate_on_managed (d : Daemon) (stages : List Input) :
    ((∀ a ∈ activateCalls d stages, UnmanagedExcluded a.registry a.profile) →
      ∀ a ∈ activateCalls d stages, a.device.state ≠ .unmanaged) ∧
    ∀ (m : NetworkManager) (profileId actor : String) (w : World Call.Answer),
      (∀ order, ∀ a ∈ activations
          ((activateProfile profileId actor).run (withDeviceOrder w order) m).log,
        a.device.state ≠ .unmanaged) ↔
      ∀ profile, m.stored profileId = some profile → UnmanagedExcluded m.devices profile := by
  constructor
  · intro hexcluded a ha hunmanaged
    obtain ⟨hmem, hfits⟩ := fits_of_mem_activateCalls ha
    rw [hexcluded a ha a.device hmem hunmanaged] at hfits
    exact Bool.false_ne_true hfits
  · intro m profileId actor w
    constructor
    · intro h profile hstored device hmem hunmanaged
      by_contra hfits
      have hfound := Order.find?_frontOf hmem ((Bool.not_eq_false _).mp hfits)
      refine h (.frontOf device) ⟨m.devices, profile, device⟩ ?_ hunmanaged
      exact (mem_activations_activateProfile rfl).mpr ⟨profile, device, hstored, hfound, rfl⟩
    · intro h order a ha hunmanaged
      have horder : withDeviceOrder w order 0 .deviceOrder = order := rfl
      obtain ⟨profile, device, hstored, hfound, rfl⟩ :=
        (mem_activations_activateProfile horder).mp ha
      obtain ⟨hmem, hfits⟩ := Order.of_find?_arrange hfound
      rw [h profile hstored device hmem hunmanaged] at hfits
      exact Bool.false_ne_true hfits

/-- The only Ethernet device is listed as unmanaged; activating a profile for it takes it over. -/
theorem unmanaged_activated :
    ((wiredRun ["eth0"] [wired 2 "eth0"] office).initial.map fun d =>
      (activateCalls d (wiredRun ["eth0"] [wired 2 "eth0"] office).stages).map fun a =>
        (a.device.name, a.device.state)) = some [("eth0", .unmanaged)] ∧
    ¬∀ (r : Run) (d : Daemon), r.initial = some d →
      ∀ a ∈ activateCalls d r.stages, a.device.state ≠ .unmanaged := by
  refine and_iff_left_of_imp ?_ |>.mpr (by decide +kernel)
  intro hcalls hmanaged
  obtain ⟨d, hd, hlist⟩ := Option.map_eq_some_iff.mp hcalls
  have hmem := hlist ▸ List.mem_singleton_self ("eth0", DeviceState.unmanaged)
  obtain ⟨a, ha, hpair⟩ := List.mem_map.mp hmem
  exact hmanaged _ d hd a ha (congrArg Prod.snd hpair)

/-- With the device managed, the same requests activate it. -/
theorem managed_activated :
    ((wiredRun ["lo"] [wired 2 "eth0"] office).initial.map fun d =>
      (activateCalls d (wiredRun ["lo"] [wired 2 "eth0"] office).stages).map fun a =>
        (a.device.name, a.device.state)) = some [("eth0", .disconnected)] ∧
    ∀ d, (wiredRun ["lo"] [wired 2 "eth0"] office).initial = some d →
      ∀ a ∈ activateCalls d (wiredRun ["lo"] [wired 2 "eth0"] office).stages,
        a.device.state ≠ .unmanaged := by
  have hexcluded : ((wiredRun ["lo"] [wired 2 "eth0"] office).initial.map fun d =>
      decide (∀ a ∈ activateCalls d (wiredRun ["lo"] [wired 2 "eth0"] office).stages,
        UnmanagedExcluded a.registry a.profile)) = some true := by decide +kernel
  refine ⟨by decide +kernel, fun d hd => (activate_on_managed d _).1 ?_⟩
  rw [hd] at hexcluded
  exact of_decide_eq_true (Option.some.inj hexcluded)

end Daemon

/-! ## Autoconnect -/

namespace NetworkManager

variable (w : World Call.Answer)

def ssidsSeen (m : NetworkManager) (device : NetworkDevice) : List String :=
  if device.deviceType = .wifi ∧ device.carrier then
    ssidsOf (w 1 (.scanResults m.config.wireless.ctrlInterfaceDir device.name))
  else []

/-- The profile that `try_autoconnect` selects for a device, if it gets that far. -/
def autoconnectChoice (m : NetworkManager) (name : String) : Option ConnectionProfile :=
  match m.devices.get name with
  | none => none
  | some device =>
    if isReady device then
      choose device (Autoconnect.recentlyUsedFirst (w 0 .profileTimes) m.connections)
        (ssidsSeen w m device)
    else none

/-- The profile that is selected for a device, by the answers from the `k`-th call on. -/
def selectedAt (k : ℕ) (m : NetworkManager) (device : NetworkDevice) : Option ConnectionProfile :=
  choose device (Autoconnect.recentlyUsedFirst (w k .profileTimes) m.connections)
    (if device.deviceType = .wifi ∧ device.carrier then
      ssidsOf (w (k + 1) (.scanResults m.config.wireless.ctrlInterfaceDir device.name))
    else [])

theorem choose_visibleSsids (k : ℕ) (m : NetworkManager) (device : NetworkDevice) :
    choose device (Autoconnect.recentlyUsedFirst (w k .profileTimes) m.connections)
      (visibleSsids device w (k + 1) m).result = selectedAt w k m device := by
  unfold visibleSsids selectedAt
  split <;> rfl

variable {w}

section TryAutoconnect

variable {name : String} {device : NetworkDevice}

theorem tryAutoconnect_of_not_known (hget : m.devices.get name = none) :
    tryAutoconnect name w k m = ⟨(), m, []⟩ := by
  rw [tryAutoconnect, Proc.get_bind, hget]
  rfl

theorem tryAutoconnect_of_not_ready (hget : m.devices.get name = some device)
    (hready : isReady device = false) : tryAutoconnect name w k m = ⟨(), m, []⟩ := by
  simp only [tryAutoconnect, Proc.get_bind, hget, hready]
  rfl

theorem tryAutoconnect_of_ready (hget : m.devices.get name = some device)
    (hready : isReady device = true) :
    ∃ k' log, activations log = [] ∧ tryAutoconnect name w k m =
      let done := activateChosen (selectedAt w k m device) w k' m
      ⟨done.result, done.state, log ++ done.log⟩ := by
  let visible := visibleSsids device w (k + 1) m
  refine ⟨k + 1 + visible.log.length, .call .profileTimes (w k .profileTimes) :: visible.log,
    Passive.activations_eq_nil (passive_visibleSsids device) (k + 1) m, ?_⟩
  have hasked : visibleSsids device w (k + 1) m = ⟨visible.result, m, visible.log⟩ := by
    have hst : visible.state = m :=
      obeys_visibleSsids (R := .still) (fun _ _ _ => rfl) device (k + 1) m
    show visible = ⟨visible.result, m, visible.log⟩
    conv_rhs => rw [← hst]
  have hcho : choose device (Autoconnect.recentlyUsedFirst (w k .profileTimes) m.connections)
      visible.result = selectedAt w k m device := choose_visibleSsids w k m device
  have hrest := Proc.bind_apply hasked (f := fun visible => activateChosen (choose device
    (Autoconnect.recentlyUsedFirst (w k .profileTimes) m.connections) visible))
  rw [hcho] at hrest
  simp only [tryAutoconnect, Proc.get_bind, hget, hready, if_true]
  exact congrArg (fun ran => Ran.mk ran.result ran.state
    (.call .profileTimes (w k .profileTimes) :: ran.log)) hrest

end TryAutoconnect

theorem mem_activations_activateChosen {chosen : Option ConnectionProfile} :
    a ∈ activations (activateChosen chosen (withDeviceOrder w order) k m).log ↔
      ∃ selected profile device, chosen = some selected ∧ m.stored selected.id = some profile ∧
        (order.arrange m.devices.values).find? (fits profile) = some device ∧
        a = ⟨m.devices, profile, device⟩ := by
  have hord : withDeviceOrder w order k .deviceOrder = order := rfl
  cases chosen with
  | none => simp [activateChosen, activations]
  | some selected =>
    have hrest : activations (activateChosen (some selected) (withDeviceOrder w order) k m).log =
        activations (activateProfile selected.id "system:autoconnect" (withDeviceOrder w order) k
          m).log := by
      unfold activateChosen
      rw [activations_bind]
      exact List.append_nil _
    rw [hrest, mem_activations_activateProfile hord]
    simp only [Option.some.injEq, exists_and_left, exists_eq_left']

theorem mem_activations_tryAutoconnect {name : String} :
    a ∈ activations ((tryAutoconnect name).run (withDeviceOrder w order) m).log ↔
      ∃ selected profile device, autoconnectChoice w m name = some selected ∧
        m.stored selected.id = some profile ∧
        (order.arrange m.devices.values).find? (fits profile) = some device ∧
        a = ⟨m.devices, profile, device⟩ := by
  unfold autoconnectChoice Proc.run
  cases hdev : m.devices.get name with
  | none =>
    rw [tryAutoconnect_of_not_known hdev]
    simp [activations]
  | some device =>
    cases hready : isReady device with
    | false =>
      rw [tryAutoconnect_of_not_ready hdev hready]
      simp [hready, activations]
    | true =>
      obtain ⟨k', log, hlog, hrun⟩ := tryAutoconnect_of_ready (w := withDeviceOrder w order)
        (k := 0) hdev hready
      have hsel : selectedAt (withDeviceOrder w order) 0 m device =
          choose device (Autoconnect.recentlyUsedFirst (w 0 .profileTimes) m.connections)
            (ssidsSeen w m device) := rfl
      rw [hrun, activations_append, hlog, List.nil_append, hsel, mem_activations_activateChosen]
      simp only [hready, if_true]

/-- **Autoconnect stays on its device only if no other device fits.** In every state and for every
device name, `try_autoconnect` activates no other device, in whichever order the registry is
iterated, if and only if no other device of the registry fits the profile that is stored under the
id of the selected one. -/
theorem autoconnect_on_own_device_iff (m : NetworkManager) (w : World Call.Answer) (name : String) :
    (∀ order, ∀ a ∈ activations ((tryAutoconnect name).run (withDeviceOrder w order) m).log,
      a.device.name = name) ↔
    ∀ selected profile, autoconnectChoice w m name = some selected →
      m.stored selected.id = some profile →
      ∀ device ∈ m.devices.values, fits profile device = true → device.name = name := by
  constructor
  · intro h selected profile hchoice hstored device hmem hfits
    refine h (.frontOf device) ⟨m.devices, profile, device⟩ ?_
    exact mem_activations_tryAutoconnect.mpr
      ⟨selected, profile, device, hchoice, hstored, Order.find?_frontOf hmem hfits, rfl⟩
  · intro h order a ha
    obtain ⟨selected, profile, device, hchoice, hstored, hfound, rfl⟩ :=
      mem_activations_tryAutoconnect.mp ha
    obtain ⟨hmem, hfits⟩ := Order.of_find?_arrange hfound
    exact h selected profile hchoice hstored device hmem hfits

def twoPortsRun : Run :=
  wiredRun ["lo"] [wired 2 "eth0", wired 3 "eth1"] [.addConnection (wiredProfile "office" true)]

/-- Autoconnect on the first port: the names of the devices it calls `activation::activate` on, and
of those that are active afterwards. -/
def firstPort (m : NetworkManager) : List String × List String :=
  let r := (tryAutoconnect "eth0").run (fun _ => calm [wired 2 "eth0", wired 3 "eth1"] (.ok ())) m
  ((activations r.log).map (·.device.name), r.state.active.keys)

/-- Autoconnect on the first port brings the second one up. -/
theorem autoconnect_on_other_device :
    (∃ m, Reachable m ∧ firstPort m = (["eth1"], ["eth1"])) ∧
    ¬∀ m, Reachable m → ∀ name w, ∀ a ∈ activations ((tryAutoconnect name).run w m).log,
      a.device.name = name := by
  have hrun : (twoPortsRun.initial.map fun d =>
      firstPort (Machine.finalState step d twoPortsRun.stages).manager) =
        some (["eth1"], ["eth1"]) := by decide +kernel
  obtain ⟨d, hd, hports⟩ := Option.map_eq_some_iff.mp hrun
  have hreach := reachable_finalState hd
  refine ⟨⟨_, hreach, hports⟩, fun h => ?_⟩
  have hmem : "eth1" ∈ (firstPort (Machine.finalState step d twoPortsRun.stages).manager).1 := by
    rw [hports]
    exact List.mem_singleton_self "eth1"
  obtain ⟨a, ha, hname⟩ := List.mem_map.mp hmem
  have hown := h _ hreach "eth0" _ a ha
  rw [hname] at hown
  exact absurd hown (by decide)

end NetworkManager

end MitosNetwork
