import MitosNetwork.Manager.Activations

/-!
# Autoconnect after a failure

A `TickKind::DeviceRefresh` refreshes the registry and tries autoconnect on every device in turn.
`try_autoconnect` goes on with devices that are disconnected or unavailable, a failed activation
leaves the device failed, and a refresh keeps the state of a device that is known. `retried_iff`
says what becomes of a device that a profile is selected for: as long as autoconnect stays on its
own devices, it is tried again if and only if it is not known yet or in one of the two states.
-/

namespace MitosNetwork

namespace NetworkManager

open Daemon List DeviceRegistry

variable {w : World Call.Answer} {k : ℕ} {m m₀ : NetworkManager} {n : String}

variable {device new old : NetworkDevice} {profile selected : ConnectionProfile} {x : String}

/-! ## What the turns of other devices leave of the registry -/

theorem isReady_of_active (h : device.activeConnection ≠ none) :
    isReady device = false := by
  cases hact : device.activeConnection with
  | none => exact absurd hact h
  | some id => simp [isReady, hact]

theorem isReady_of_failed (h : device.state = .failed) :
    isReady device = false := by simp [isReady, h]

theorem isReady_iff_of_free (h : device.activeConnection = none) :
    isReady device = true ↔ device.state = .disconnected ∨ device.state = .unavailable := by
  cases hst : device.state <;> simp [isReady, h, hst]

theorem fits_congr (hname : new.name = old.name) (htype : new.deviceType = old.deviceType)
    (hact : new.activeConnection = old.activeConnection) (profile : ConnectionProfile) :
    fits profile new = fits profile old := by
  rw [fits, fits, hname, htype, hact]

/-- A device that is ready is as it was, and none fits a profile that it did not fit before. -/
def Descends (r₀ r : DeviceRegistry) : Prop :=
  ∀ x device, r.get x = some device → ∃ device₀, r₀.get x = some device₀ ∧
    (isReady device = true → device = device₀) ∧
    ∀ profile, fits profile device = true → fits profile device₀ = true

theorem Descends.refl (r : DeviceRegistry) : Descends r r :=
  fun _ device hget => ⟨device, hget, fun _ => rfl, fun _ hfits => hfits⟩

theorem Descends.replaced {r₀ r r' : DeviceRegistry} {name : String} (h : Descends r₀ r)
    (hr : ∀ x, r'.get x = if x = name then some new else r.get x) (hget : r.get name = some old)
    (hready : isReady new = false)
    (hfits : ∀ profile, fits profile new = true → fits profile old = true) : Descends r₀ r' := by
  intro x device hx
  rw [hr] at hx
  split at hx
  · rename_i hname
    cases hx
    obtain ⟨device₀, hget₀, -, hfits₀⟩ := h name old hget
    refine ⟨device₀, hname ▸ hget₀, fun hnew => ?_, fun profile hp => hfits₀ _ (hfits _ hp)⟩
    exact absurd (hready.symm.trans hnew) Bool.false_ne_true
  · exact h x device hx

/-- What the turns of other devices keep: the configuration, the profiles, and the device itself. -/
def untouched (m₀ : NetworkManager) (n : String) : Property := fun config connections r _ _ =>
  config = m₀.config ∧ connections = m₀.connections ∧ r.get n = m₀.devices.get n ∧
    Descends m₀.devices r

abbrev elsewhere (m₀ : NetworkManager) (n : String) : Conduct :=
  ruleOf (untouched m₀ n) (.activations fun a => a.device.name ≠ n)

theorem lenient_elsewhere : Lenient (elsewhere m₀ n) :=
  lenient_ruleOf fun _ _ _ _ _ _ _ h => h

theorem obeysAt_activateDevice_elsewhere {profileId actor : String}
    (hget : m.devices.get device.name = some device) (hother : device.name ≠ n) :
    ObeysAt w (elsewhere m₀ n)
      (activateDevice profile profileId actor device.name m.devices (some device)) k m := by
  generalize hact : (Activation.activate profile).run w (k + 1) ⟨device, m.sessions⟩ = act
  have hname := Activation.name_of_activate hact
  have hlog : ∀ a, .note a ∈ (.note ⟨m.devices, profile, device⟩ ::
      act.log.map Proc.liftEntry : Log) → a.device.name ≠ n := by
    intro a ha
    rcases mem_cons.mp ha with ha | ha
    · cases ha
      exact hother
    · exact absurd ha Proc.note_notMem_map_liftEntry
  refine obeysAt_activateDevice lenient_elsewhere hact (fun a hok hm => ⟨?_, hlog⟩)
    (allowsAudit_ruleOf _ _ _) fun e herr hm => ⟨?_, hlog⟩
  · obtain ⟨hcfg, hcs, hsame, hdes⟩ := hm
    have hactive : act.state.device.activeConnection ≠ none := by
      rw [(Activation.activate_ok hact hok).2.carries]
      nofun
    refine ⟨hcfg, hcs, ?_, ?_⟩
    · rw [get_insert, if_neg fun h => hother (hname ▸ h.symm), hsame]
    · exact hdes.replaced (get_insert _ _) (hname ▸ hget)
        (isReady_of_active hactive) fun profile hfits => absurd (free_of_fits hfits) hactive
  · obtain ⟨hcfg, hcs, hsame, hdes⟩ := hm
    have hlike := Activation.activate_error hact herr
    have hrep := get_insert_insert act.state.device
      { act.state.device with state := .failed } rfl m.devices
    refine ⟨hcfg, hcs, ?_, ?_⟩
    · rw [hrep, if_neg fun h => hother (hname ▸ h.symm), hsame]
    · exact hdes.replaced hrep (hname ▸ hget) (isReady_of_failed rfl) fun profile hfits =>
        (fits_congr hlike.name.symm hlike.deviceType.symm hlike.carries.symm profile).trans hfits

/-! ## Turns -/

/-- The profile that is selected for a device, as it is found again under its id, fits no other
device. -/
def StaysPut (w : World Call.Answer) (m : NetworkManager) : Prop :=
  ∀ device ∈ m.devices.values, isReady device = true →
    ∀ k selected profile, selectedAt w k m device = some selected →
      m.stored selected.id = some profile →
      ∀ other ∈ m.devices.values, fits profile other = true → other.name = device.name

theorem selectedAt_congr (hcfg : m.config = m₀.config)
    (hcs : m.connections = m₀.connections) (k : ℕ) (device : NetworkDevice) :
    selectedAt w k m device = selectedAt w k m₀ device := by
  rw [selectedAt, selectedAt, hcfg, hcs]

theorem stored_congr (hcs : m.connections = m₀.connections) (id : String) :
    m.stored id = m₀.stored id := by
  rw [stored, stored, hcs]

theorem name_of_fits (hstays : StaysPut w m₀) (hm : (untouched m₀ n).On m)
    {device other : NetworkDevice} (hget : m.devices.get x = some device)
    (hready : isReady device = true) (hsel : selectedAt w k m device = some selected)
    (hstored : m.stored selected.id = some profile) (hother : m.devices.get other.name = some other)
    (hfits : fits profile other = true) : other.name = x := by
  obtain ⟨hcfg, hcs, -, hdes⟩ := hm
  obtain ⟨device₀, hget₀, hsame, -⟩ := hdes x device hget
  obtain rfl := hsame hready
  obtain ⟨other₀, hother₀, -, hfits₀⟩ := hdes other.name other hother
  have hname := name_of_get hget₀
  have hname' := name_of_get hother₀
  rw [selectedAt_congr hcfg hcs] at hsel
  rw [stored_congr hcs] at hstored
  rw [← hname, ← hname']
  exact hstays device (mem_values.mpr (hname ▸ hget₀)) hready k selected profile
    hsel hstored other₀ (mem_values.mpr (hname' ▸ hother₀)) (hfits₀ _ hfits)

theorem obeys_tryAutoconnect_elsewhere (hstays : StaysPut w m₀)
    (hx : x = n → ∀ device, m₀.devices.get n = some device → isReady device = false) :
    Obeys w (elsewhere m₀ n) (tryAutoconnect x) := by
  intro k m hm
  cases hget : m.devices.get x with
  | none =>
    rw [tryAutoconnect_of_not_known hget]
    exact (elsewhere m₀ n).refl m hm
  | some device =>
    cases hready : isReady device with
    | false =>
      rw [tryAutoconnect_of_not_ready hget hready]
      exact (elsewhere m₀ n).refl m hm
    | true =>
      have hne : x ≠ n := by
        rintro rfl
        have hfalse := hx rfl device (hm.2.2.1 ▸ hget)
        exact Bool.false_ne_true (hfalse.symm.trans hready)
      obtain ⟨k', log, hlog, hran⟩ := tryAutoconnect_of_ready (w := w) (k := k) hget hready
      have hdone : ObeysAt w (elsewhere m₀ n) (activateChosen (selectedAt w k m device)) k' m := by
        cases hsel : selectedAt w k m device with
        | none => exact (elsewhere m₀ n).refl m
        | some selected =>
          refine .bind ?_ fun _ => .pure ()
          refine obeysAt_activateProfile lenient_elsewhere fun profile other hstored hch => ?_
          obtain ⟨hother, hfits⟩ := of_chosenDevice hch
          have hname := name_of_fits hstays hm hget hready hsel hstored hother hfits
          exact obeysAt_activateDevice_elsewhere hother (hname ▸ hne)
      obtain ⟨hkept, hnotes⟩ := hdone hm
      rw [hran]
      refine ⟨hkept, fun a ha => (mem_append.mp ha).elim (fun h => ?_) (hnotes a)⟩
      rw [← mem_activations, hlog] at h
      cases h

theorem exists_activation (hstays : StaysPut w m₀) (hm : (untouched m₀ n).On m)
    (hget : m₀.devices.get n = some device)
    (hready : isReady device = true) (hsel : selectedAt w k m₀ device = some selected)
    (hstored : m₀.stored selected.id = some profile) (hfits : fits profile device = true) :
    ∃ a ∈ activations (tryAutoconnect n w k m).log, a.device.name = n := by
  have hkept := hm
  obtain ⟨hcfg, hcs, hsame, -⟩ := hm
  rw [← hsame] at hget
  rw [← selectedAt_congr hcfg hcs] at hsel
  rw [← stored_congr hcs] at hstored
  obtain ⟨k', log, -, hran⟩ := tryAutoconnect_of_ready (w := w) (k := k) hget hready
  have hname := name_of_get hget
  have hmem : device ∈ m.devices.values := mem_values.mpr (hname ▸ hget)
  obtain ⟨other, hfound⟩ : ∃ other, chosenDevice w k' m profile = some other := by
    rw [← Option.isSome_iff_exists, chosenDevice, find?_isSome]
    exact ⟨device, (Order.mem_arrange _).mpr hmem, hfits⟩
  obtain ⟨hother, hfits'⟩ := of_chosenDevice hfound
  have hact : ⟨m.devices, profile, other⟩ ∈
      activations (activateProfile selected.id "system:autoconnect" w k' m).log :=
    (mem_activations_activateProfile rfl).mpr ⟨profile, other, hstored, hfound, rfl⟩
  have hown := name_of_fits hstays hkept hget hready hsel hstored hother hfits'
  refine ⟨⟨m.devices, profile, other⟩, ?_, hown⟩
  rw [hran, hsel, activations_append]
  refine mem_append_right _ ?_
  show _ ∈ activations ((activateProfile selected.id "system:autoconnect" >>= fun _ => pure () :
    M Unit) w k' m).log
  rw [activations_bind]
  exact mem_append_left _ hact

/-! ## The tick -/

def deviceFound (w : World Call.Answer) (m : NetworkManager) (link : Interface) : NetworkDevice :=
  m.devices.takeOver m.config.general.unmanagedDevices
    (Discovery.scanned ((w 1 .listAddresses : Result (List LinkAddress)).toOption.getD [])
      (w 2 .sysfs) link)

theorem passive_refresh : Passive w refresh := fun _ _ =>
  obeysAt_refresh (R := ruleOf (fun _ _ => Anything) (.activations fun _ => False))
    (lenient_ruleOf fun _ _ _ _ _ _ _ _ => trivial) fun _ _ _ => ⟨trivial, fun _ h => (nomatch h)⟩

section Turns

variable (hstays : StaysPut w m₀) (hget : m₀.devices.get n = some device)
  (hselects : ∀ k, ∃ selected profile, selectedAt w k m₀ device = some selected ∧
    m₀.stored selected.id = some profile ∧ fits profile device = true)
include hstays hget hselects

theorem exists_activation_forM (hready : isReady device = true) {names : List String}
    (hn : n ∈ names) (k : ℕ) (hm : (untouched m₀ n).On m) :
    ∃ a ∈ activations ((names.forM tryAutoconnect : M Unit) w k m).log, a.device.name = n := by
  induction names generalizing k m with
  | nil => cases hn
  | cons x names ih =>
    show ∃ a ∈ activations ((tryAutoconnect x >>= fun _ => names.forM tryAutoconnect : M Unit) w k
      m).log, a.device.name = n
    rw [activations_bind]
    by_cases hx : x = n
    · subst hx
      obtain ⟨selected, profile, hsel, hstored, hfits⟩ := hselects k
      obtain ⟨a, ha, hname⟩ := exists_activation hstays hm hget hready hsel hstored hfits
      exact ⟨a, mem_append_left _ ha, hname⟩
    · have hkept := obeys_tryAutoconnect_elsewhere hstays (fun h => absurd h hx) k m hm
      obtain ⟨a, ha, hname⟩ := ih ((mem_cons.mp hn).resolve_left (Ne.symm hx)) _ hkept.1
      exact ⟨a, mem_append_right _ ha, hname⟩

theorem exists_activation_forM_iff (names : List String) (hn : n ∈ names) (k : ℕ) :
    (∃ a ∈ activations ((names.forM tryAutoconnect : M Unit) w k m₀).log, a.device.name = n) ↔
      isReady device = true := by
  have hunt : (untouched m₀ n).On m₀ := ⟨rfl, rfl, rfl, .refl _⟩
  constructor
  · rintro ⟨a, ha, hname⟩
    by_contra hready
    have hnotes := Proc.Obeys.forM (fun x => obeys_tryAutoconnect_elsewhere (n := n) (x := x) hstays
      fun _ dev hdev => ?_) names k m₀ hunt
    · exact hnotes.2 a (mem_activations.mp ha) hname
    · cases hget.symm.trans hdev
      exact Bool.eq_false_iff.mpr hready
  · exact fun hready => exists_activation_forM hstays hget hselects hready hn k hunt

theorem exists_activation_all_iff (k : ℕ) :
    (∃ a ∈ activations (tryAutoconnectAll w k m₀).log, a.device.name = n) ↔
      isReady device = true := by
  have hname := name_of_get hget
  have hmem : device ∈ m₀.devices.values := mem_values.mpr (hname ▸ hget)
  refine exists_activation_forM_iff hstays hget hselects
    (deviceNames (fun _ => true) w k m₀).result (mem_map.mpr ⟨device, ?_, hname⟩) (k + 1)
  exact mem_filter.mpr ⟨(Order.mem_arrange _).mpr hmem, rfl⟩

end Turns

theorem get_rescanned {links : List Interface} {link : Interface}
    (hlk : w 0 .listLinks = Except.ok links) (hns : (links.map (·.name)).Nodup)
    (hlink : link ∈ links) : (rescanned w m).get link.name = some (deviceFound w m link) := by
  have hrescanned : rescanned w m = m.devices.refreshed m.config.general.unmanagedDevices
      (links.map (Discovery.scanned
        ((w 1 .listAddresses : Result (List LinkAddress)).toOption.getD []) (w 2 .sysfs))) := by
    rw [rescanned, hlk]
  rw [hrescanned]
  refine get_refreshed_of_mem _ _ ?_ (mem_map_of_mem hlink)
  rwa [map_map]

theorem isReady_takeOver_iff {r : DeviceRegistry} {unmanaged : List String} {dev : NetworkDevice}
    (hnew : isReady dev = true) (hman : dev.name ∉ unmanaged)
    (hfree : ∀ known, r.get dev.name = some known → known.activeConnection = none) :
    isReady (r.takeOver unmanaged dev) = true ↔ ∀ known, r.get dev.name = some known →
      known.state = .disconnected ∨ known.state = .unavailable := by
  rw [takeOver, if_neg hman]
  cases hget : r.get dev.name with
  | none => exact iff_of_true hnew fun _ h => nomatch h
  | some known =>
    refine (isReady_iff_of_free (hfree known hget)).trans ⟨fun h other hother => ?_, fun h => ?_⟩
    · cases hother
      exact h
    · exact h known rfl

theorem isReady_scanned (addrs : List LinkAddress) (sysfs : String → Sysfs) (link : Interface) :
    isReady (Discovery.scanned addrs sysfs link) = true := by
  refine (isReady_iff_of_free rfl).mpr ?_
  exact (Bool.eq_false_or_eq_true (link.isUp && link.hasCarrier)).imp (fun h => if_pos h)
    fun h => if_neg (Bool.eq_false_iff.mp h)

end NetworkManager

namespace Daemon

open NetworkManager

/-- **A device is tried again** by a `TickKind::DeviceRefresh` if and only if it is not known yet,
disconnected or unavailable: of the links that are to be managed and carry nothing, those that
autoconnect selects a profile for, which needs carrier, as long as the profile fits the device and
autoconnect stays on its own devices. -/
theorem retried_iff (d : Daemon) (hrunning : d.running = true) (w : World Call.Answer)
    (links : List Interface) (hlinks : w 0 .listLinks = Except.ok links)
    (hnames : (links.map (·.name)).Nodup) (link : Interface) (hlink : link ∈ links)
    (hmanaged : link.name ∉ d.manager.config.general.unmanagedDevices)
    (hfree : ∀ known, d.manager.devices.get link.name = some known → known.activeConnection = none)
    (hselects : ∀ k, ∃ selected,
      selectedAt w k d.manager (deviceFound w d.manager link) = some selected)
    (hfits : ∀ k selected,
      selectedAt w k d.manager (deviceFound w d.manager link) = some selected →
      ∃ profile, d.manager.stored selected.id = some profile ∧
        fits profile (deviceFound w d.manager link) = true)
    (hstays : StaysPut w { d.manager with devices := rescanned w d.manager }) :
    (∃ a ∈ activations (d.step (.command (.tick .deviceRefresh), w)).2.log,
      a.device.name = link.name) ↔
    ∀ known, d.manager.devices.get link.name = some known →
      known.state = .disconnected ∨ known.state = .unavailable := by
  have hready : isReady (deviceFound w d.manager link) = true ↔ _ :=
    isReady_takeOver_iff (isReady_scanned _ _ link) hmanaged hfree
  refine Iff.trans ?_ hready
  have hlog : activations (d.step (.command (.tick .deviceRefresh), w)).2.log =
      activations (tryAutoconnectAll w (refresh w 0 d.manager).log.length
        { d.manager with devices := rescanned w d.manager }).log := by
    have hstep : (d.step (.command (.tick .deviceRefresh), w)).2.log =
        ((refresh >>= fun _ => tryAutoconnectAll : M Unit) w 0 d.manager).log ++ [] := by
      rw [step, if_pos hrunning]
      rfl
    rw [hstep, List.append_nil, activations_bind, Passive.activations_eq_nil passive_refresh,
      List.nil_append, state_refresh, Nat.zero_add]
  rw [hlog]
  refine exists_activation_all_iff hstays (get_rescanned hlinks hnames hlink) (fun k => ?_) _
  obtain ⟨selected, hselected⟩ := hselects k
  obtain ⟨profile, hstored, hfit⟩ := hfits k selected hselected
  exact ⟨selected, profile, hselected, hstored, hfit⟩

/-- A port with carrier and a profile for it, then a `TickKind::DeviceRefresh` in each of these
outsides. -/
def portRun (ticks : List (World Call.Answer)) : Run :=
  let r := wiredRun ["lo"] [wired 2 "eth0"] [.addConnection (wiredProfile "office" true)]
  { r with commands := r.commands ++ ticks.map fun w => (.tick .deviceRefresh, w) }

theorem retried_portRun :
    ∃ d, (portRun []).initial = some d ∧
      ∃ a ∈ activations ((Machine.finalState step d (portRun []).stages).step
        (.command (.tick .deviceRefresh), fun _ => calm [wired 2 "eth0"] (.ok ()))).2.log,
        a.device.name = "eth0" := by
  let w : World Call.Answer := fun _ => calm [wired 2 "eth0"] (.ok ())
  have hrun : ((portRun []).initial.map fun d =>
      let d := Machine.finalState step d (portRun []).stages
      let found := deviceFound w d.manager (wired 2 "eth0")
      decide (d.running = true ∧ "eth0" ∉ d.manager.config.general.unmanagedDevices ∧
        (∀ known ∈ d.manager.devices.values,
          known.activeConnection = none ∧ known.state = .disconnected) ∧
        (selectedAt w 0 d.manager found).map (·.id) = some "office" ∧
        (d.manager.stored "office").map (fits · found) = some true ∧
        ∀ dev ∈ (rescanned w d.manager).values, dev.name = "eth0")) = some true := by
    decide +kernel
  obtain ⟨d, hd, hfacts⟩ := Option.map_eq_some_iff.mp hrun
  obtain ⟨hrunning, hmanaged, hknown, hselected, hfits, hnames⟩ := of_decide_eq_true hfacts
  have hvalue : ∀ {x known}, (Machine.finalState step d (portRun []).stages).manager.devices.get x =
      some known → known.activeConnection = none ∧ known.state = .disconnected := by
    intro x known hget
    obtain rfl := DeviceRegistry.name_of_get hget
    exact hknown known (DeviceRegistry.mem_values.mpr hget)
  obtain ⟨selected, hchosen, hid⟩ := Option.map_eq_some_iff.mp hselected
  obtain ⟨profile, hstored, hfit⟩ := Option.map_eq_some_iff.mp hfits
  refine ⟨d, hd, (retried_iff _ hrunning w [wired 2 "eth0"] rfl (List.nodup_singleton _)
    (wired 2 "eth0") (List.mem_singleton_self _) hmanaged (fun _ h => (hvalue h).1)
    (fun _ => ⟨selected, hchosen⟩) ?_ ?_).mpr fun _ h => .inl (hvalue h).2⟩
  · intro k other hother
    obtain rfl : other = selected := Option.some.inj (hother.symm.trans hchosen)
    refine ⟨profile, ?_, hfit⟩
    rw [hid]
    exact hstored
  · intro device hdevice _ _ _ _ _ _ other hother _
    rw [hnames other hother, hnames device hdevice]

/-- After one activation that failed the port is never tried again, although it is managed, has
carrier, carries nothing and the profile is still selected for it. -/
theorem failure_is_final :
    let w : World Call.Answer := fun _ => calm [wired 2 "eth0"] (.ok ())
    let r := portRun [withoutCarrier w, w, w]
    (r.initial.map fun d => (Machine.outputs step d r.stages).map fun out =>
      (activations out.log).map (·.device.name)) = some [[], [], ["eth0"], [], []] ∧
    (r.initial.map fun d =>
      let m := (Machine.finalState step d (r.stages.take 4)).manager
      let found := deviceFound w m (wired 2 "eth0")
      (m.config.general.unmanagedDevices, found.carrier, found.state, found.activeConnection,
        (selectedAt w 0 m found).map (·.id))) =
      some (["lo"], true, .failed, none, some "office") := by
  refine ⟨by decide +kernel, by decide +kernel⟩

end Daemon

end MitosNetwork
