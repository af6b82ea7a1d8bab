import MitosNetwork.Manager.Teardown

/-!
# What clients are told about the overall state

A client that starts from the answer to `Request::GetState` and follows `Event::StateChanged` shows
the overall state as long as every change of it is told. `broadcast_state` ends every hotplug event,
every change of the connectivity and every activation or deactivation that succeeds, but none that
fails and no `TickKind::DeviceRefresh`. `state_followed` says what keeps such a client right.
-/

namespace MitosNetwork

open List

/-! ## Following the events -/

def shown (start : NetworkState) (events : List Event) : NetworkState :=
  events.foldl (fun state event =>
    match event with
    | .stateChanged new => new
    | _ => state) start

theorem shown_append (start : NetworkState) (events more : List Event) :
    shown start (events ++ more) = shown (shown start events) more := foldl_append

theorem mem_of_shown_ne {start : NetworkState} {events : List Event}
    (h : shown start events ≠ start) : .stateChanged (shown start events) ∈ events := by
  induction events using List.reverseRecOn with
  | nil => exact absurd rfl h
  | append_singleton events event ih =>
    rw [shown_append] at h ⊢
    by_cases hchange : ∃ new, event = .stateChanged new
    · obtain ⟨new, rfl⟩ := hchange
      exact mem_append_right _ mem_cons_self
    · have hsame : ∀ state, shown state [event] = state := by
        intro state
        cases event with
        | stateChanged new => exact absurd ⟨new, rfl⟩ hchange
        | _ => rfl
      rw [hsame] at h ⊢
      exact mem_append_left _ (ih h)

namespace EventBus

variable {bus bus' bus'' : EventBus} {P Q : List Event → Prop}

/-- From one bus to the next, who was registered stays or leaves, and what a client that stays is
sent satisfies `P`. -/
structure Sends (bus bus' : EventBus) (P : List Event → Prop) : Prop where
  nextId_le : bus.nextId ≤ bus'.nextId
  sent : ∀ c' ∈ bus'.clients, c'.id < bus.nextId →
    ∃ c ∈ bus.clients, c.id = c'.id ∧ ∃ more, c'.sent = c.sent ++ more ∧ P more

theorem Sends.refl (bus : EventBus) (h : P []) : bus.Sends bus P where
  nextId_le := le_rfl
  sent c hc _ := ⟨c, hc, rfl, [], (append_nil _).symm, h⟩

theorem Sends.trans {R : List Event → Prop} (h : bus.Sends bus' P) (h' : bus'.Sends bus'' Q)
    (hR : ∀ events more, P events → Q more → R (events ++ more)) : bus.Sends bus'' R where
  nextId_le := h.nextId_le.trans h'.nextId_le
  sent c'' hc'' hid := by
    obtain ⟨c', hc', hid', more, hmore, hQ⟩ := h'.sent c'' hc'' (hid.trans_le h.nextId_le)
    obtain ⟨c, hc, hid₀, events, hevs, hP⟩ := h.sent c' hc' (hid' ▸ hid)
    refine ⟨c, hc, hid₀.trans hid', events ++ more, ?_, hR _ _ hP hQ⟩
    rw [hmore, hevs, append_assoc]

theorem Sends.mono (h : bus.Sends bus' P) (hPQ : ∀ events, P events → Q events) :
    bus.Sends bus' Q where
  nextId_le := h.nextId_le
  sent c' hc' hid := by
    obtain ⟨c, hc, hid', more, hmore, hP⟩ := h.sent c' hc' hid
    exact ⟨c, hc, hid', more, hmore, hPQ _ hP⟩

theorem sends_broadcast (live : ℕ → Bool) {event : Event} (h : P [event]) :
    bus.Sends (bus.broadcast live event) P where
  nextId_le := le_rfl
  sent c' hc' _ := by
    obtain ⟨c, hc, rfl⟩ := mem_map.mp hc'
    exact ⟨c, mem_of_mem_filter hc, rfl, [event], rfl, h⟩

theorem sends_register (h : P []) : bus.Sends bus.register P where
  nextId_le := Nat.le_succ _
  sent c' hc' hid := by
    rcases mem_append.mp hc' with hc | hc
    · exact ⟨c', hc, rfl, [], (append_nil _).symm, h⟩
    · cases mem_singleton.mp hc
      exact absurd hid (lt_irrefl _)

theorem sends_unregister (id : ℕ) (h : P []) : bus.Sends (bus.unregister id) P where
  nextId_le := le_rfl
  sent c' hc' _ := ⟨c', mem_of_mem_filter hc', rfl, [], (append_nil _).symm, h⟩

end EventBus

/-! ## The overall state with one device replaced -/

namespace DeviceRegistry

variable {r r' : DeviceRegistry} {name : String} {old new : NetworkDevice}

variable {f : NetworkDevice → Bool}

theorem any_values_iff : r.values.any f = true ↔ ∃ n d, r.get n = some d ∧ f d = true := by
  rw [any_eq_true]
  constructor
  · rintro ⟨d, hd, hf⟩
    exact ⟨d.name, d, mem_values.mp hd, hf⟩
  · rintro ⟨n, d, hget, hf⟩
    exact ⟨d, mem_values.mpr (name_of_get hget ▸ hget), hf⟩

variable (hr : ∀ n, r'.get n = if n = name then some new else r.get n)
  (hget : r.get name = some old)
include hr hget

theorem any_values_replaced (hf : f new = f old) : r'.values.any f = r.values.any f := by
  rw [Bool.eq_iff_iff, any_values_iff, any_values_iff]
  constructor
  · rintro ⟨n, d, hd, hfound⟩
    rw [hr] at hd
    split at hd
    · cases hd
      exact ⟨name, old, hget, hf ▸ hfound⟩
    · exact ⟨n, d, hd, hfound⟩
  · rintro ⟨n, d, hd, hfound⟩
    by_cases hn : n = name
    · subst hn
      cases hget.symm.trans hd
      exact ⟨n, new, by rw [hr, if_pos rfl], hf.trans hfound⟩
    · exact ⟨n, d, by rw [hr, if_neg hn, hd], hfound⟩

theorem overallState_replaced (hold : old.state = .disconnected ∨ old.state = .failed)
    (hnew : new.state = .failed) (c : ConnectivityState) :
    overallState r'.values c = overallState r.values c := by
  have hany : ∀ f : DeviceState → Bool, f .disconnected = f .failed →
      (r'.values.any fun d => f d.state) = r.values.any fun d => f d.state := by
    intro f hf
    refine any_values_replaced hr hget (f := fun d => f d.state) ?_
    rcases hold with hold | hold
    · rw [hold, hnew, hf]
    · rw [hold, hnew]
  unfold overallState
  rw [hany (fun s => s = .connecting || s = .ipConfiguring) rfl,
    hany (fun s => s = .deactivating) rfl, hany (fun s => s = .activated) rfl,
    hany (fun s => s ≠ .unmanaged) rfl, hany (fun s => s ≠ .unavailable && s ≠ .unmanaged) rfl]

end DeviceRegistry

namespace NetworkManager

variable {w : World Call.Answer} {k : ℕ} {m m' m'' : NetworkManager} {α β : Type}

variable {prog : M α}

/-! ## Telling the overall state -/

def stateOf (m : NetworkManager) : NetworkState := overallState m.devices.values m.connectivity

theorem result_getState (identity : PeerIdentity) :
    (handleRequest identity .getState w k m).result = .state (stateOf m) := rfl

/-- Clients are sent whatever it is. -/
def Extends (m m' : NetworkManager) : Prop := m.events.Sends m'.events fun _ => True

def Tracks (m m' : NetworkManager) : Prop :=
  m.events.Sends m'.events fun more => shown (stateOf m) more = stateOf m'

/-- A client shows the overall state, whatever it showed before. -/
def Updates (m m' : NetworkManager) : Prop :=
  m.events.Sends m'.events fun more => ∀ start, shown start more = stateOf m'

theorem tracks_of_eq (hevs : m'.events = m.events) (hst : stateOf m' = stateOf m) :
    Tracks m m' := by
  rw [Tracks, hevs]
  exact .refl _ hst.symm

theorem Tracks.trans (h : Tracks m m') (h' : Tracks m' m'') : Tracks m m'' :=
  EventBus.Sends.trans h h' fun events more hevs hmore => by
    rw [shown_append, hevs, hmore]

theorem Updates.tracks (h : Updates m m') : Tracks m m' := h.mono fun _ hst => hst _

theorem Extends.trans_updates (h : Extends m m') (h' : Updates m' m'') : Updates m m'' :=
  EventBus.Sends.trans h h' fun events more _ hmore start => by
    rw [shown_append, hmore]

/-- Whatever is done to the clients, as a rule of conduct. -/
def extending : Conduct where
  Allows m _ m' := Extends m m'
  refl m := .refl m.events trivial
  trans h h' := h.trans h' fun _ _ _ _ => trivial

theorem extends_of_eq (hevs : m'.events = m.events) : Extends m m' := by
  rw [Extends, hevs]
  exact .refl _ trivial

theorem indifferent_extending : Indifferent extending where
  rest _ hevs := extends_of_eq hevs
  event _ _ live := EventBus.sends_broadcast live trivial
  firewall _ _ _ _ := extends_of_eq rfl
  register _ := EventBus.sends_register trivial
  unregister _ id := EventBus.sends_unregister id trivial

def Announces (w : World Call.Answer) (prog : M α) : Prop :=
  ∀ k m, Updates m (prog w k m).state

theorem announces_broadcastState : Announces w broadcastState := fun k _ =>
  EventBus.sends_broadcast (w k .liveClients) fun _ => rfl

theorem Announces.after {f : α → M β} (hprog : Obeys w extending prog)
    (hf : ∀ a, Announces w (f a)) : Announces w (prog >>= f) := by
  intro k m
  exact (hprog k m).trans_updates (hf _ _ _)

theorem Announces.bind_pure (h : Announces w prog) (b : β) :
    Announces w (prog >>= fun _ => pure b) := h

theorem Announces.updates (h : Announces w prog) (hevs : m'.events = m.events) :
    Updates m (prog w k m').state := (extends_of_eq hevs).trans_updates (h k m')

theorem announces_activated (profileId actor deviceName : String) (a : ActiveConnection) :
    Announces w (activated profileId actor deviceName a) := by
  have hR := indifferent_extending.permissive.toLenient
  exact .after (.modify fun _ => extends_of_eq rfl) fun _ =>
    .after (obeys_touch hR.call profileId) fun _ =>
    .after (obeys_audit (indifferent_extending.allowsAudit _ _ _)) fun _ =>
    .after .get fun _ =>
    .after (obeys_broadcast hR rfl) fun _ => .after (obeys_broadcast hR rfl) fun _ =>
    announces_broadcastState.bind_pure _

theorem announces_deactivated (profileId actor deviceName : String) :
    Announces w (deactivated profileId actor deviceName (.ok ())) :=
  .after (obeys_audit (indifferent_extending.allowsAudit _ _ _)) fun _ =>
    .after (obeys_broadcast indifferent_extending.permissive.toLenient rfl) fun _ =>
    announces_broadcastState.bind_pure _

theorem updates_hotplug (event : HotplugEvent) (m : NetworkManager) :
    Updates m (handleHotplug event w 0 m).state := by
  refine Extends.trans_updates ?_ (announces_broadcastState _ _)
  have hR := indifferent_extending
  exact obeysAt_hotplug hR.permissive (fun id => hR.obeys_activateProfile id _) (hR.allowsFirst _ m)

theorem tracks_connectivityChecked (new : ConnectivityState) (k : ℕ) (m : NetworkManager) :
    Tracks m (connectivityChecked new w k m).state := by
  rw [connectivityChecked, Proc.get_bind]
  split
  · have hannounces : Announces w (do
        Proc.modify fun m : NetworkManager => { m with connectivity := new }
        broadcast (.connectivityChanged new)
        broadcastState) :=
      .after (.modify fun _ => extends_of_eq rfl) fun _ =>
        .after (obeys_broadcast indifferent_extending.permissive.toLenient rfl) fun _ =>
        announces_broadcastState
    exact (hannounces k m).tracks
  · exact tracks_of_eq rfl rfl

/-! ## Activation and deactivation -/

/-- A device in one of these states can fail without a change of the overall state. -/
def IsIdle (device : NetworkDevice) : Prop :=
  device.state = .disconnected ∨ device.state = .failed

/-- The outside lets the profile be activated on the device, whenever that is tried. -/
def Activates (w : World Call.Answer) (profile : ConnectionProfile) (device : NetworkDevice) :
    Prop :=
  ∀ k sessions, ∃ a, ((Activation.activate profile).run w k ⟨device, sessions⟩).result = .ok a

/-- One of these profiles can only fail on a device that fits it if the device is idle. -/
def Reliable (w : World Call.Answer) (profiles : List ConnectionProfile) (r : DeviceRegistry) :
    Prop :=
  ∀ profile ∈ profiles, ∀ n device, r.get n = some device → fits profile device = true →
    IsIdle device ∨ Activates w profile device

theorem Reliable.replaced {profiles : List ConnectionProfile} {r r' : DeviceRegistry}
    {name : String} {new : NetworkDevice} (h : Reliable w profiles r)
    (hr : ∀ n, r'.get n = if n = name then some new else r.get n)
    (hnew : new.state = .failed ∨ new.activeConnection ≠ none) : Reliable w profiles r' := by
  intro profile hprof n device hget hfits
  rw [hr] at hget
  split at hget
  · cases hget
    rcases hnew with hfai | hact
    · exact .inl (.inr hfai)
    · exact absurd (free_of_fits hfits) hact
  · exact h profile hprof n device hget hfits

section Tracking

variable {profiles : List ConnectionProfile} {K : List ConnectionProfile → Prop}

variable {actor profileId : String}

/-- Clients keep up, as a rule of conduct for programs that only activate these profiles. -/
def tracking (w : World Call.Answer) (profiles : List ConnectionProfile)
    (K : List ConnectionProfile → Prop) : Conduct where
  Allows m _ m' := K m.connections ∧ Reliable w profiles m.devices →
    (K m'.connections ∧ Reliable w profiles m'.devices) ∧ Tracks m m'
  refl _ hm := ⟨hm, tracks_of_eq rfl rfl⟩
  trans h h' hm := ⟨(h' (h hm).1).1, (h hm).2.trans (h' (h hm).1).2⟩

theorem allowsAudit_tracking (actor action detail : String) :
    AllowsAudit (tracking w profiles K) actor action detail :=
  fun _ _ hm => ⟨hm, tracks_of_eq rfl rfl⟩

theorem allowsPlain_tracking : AllowsPlain (tracking w profiles K) :=
  fun _ _ _ hm => ⟨hm, tracks_of_eq rfl rfl⟩

theorem lenient_tracking : Lenient (tracking w profiles K) where
  call hc := allowsPlain_tracking (Call.of_isInert hc).1
  event {m event} htrue live hm := by
    refine ⟨hm, EventBus.sends_broadcast live ?_⟩
    cases event with
    | stateChanged state => exact htrue state rfl
    | _ => rfl
  proxy _ _ hm := ⟨hm, tracks_of_eq rfl rfl⟩
  firewall _ _ _ _ hm := ⟨hm, tracks_of_eq rfl rfl⟩
  hostapd _ _ hm := ⟨hm, tracks_of_eq rfl rfl⟩

theorem reliable_activated (profileId actor deviceName : String) (a : ActiveConnection)
    (hm : K m.connections ∧ Reliable w profiles m.devices) :
    K (activated profileId actor deviceName a w k m).state.connections ∧
      Reliable w profiles (activated profileId actor deviceName a w k m).state.devices := by
  let J : Property := fun _ connections r _ _ => K connections ∧ Reliable w profiles r
  refine (obeysAt_activated (R := ruleOf J anyLog) (lenient_ruleOf fun _ _ _ _ _ _ _ h => h)
    (fun h => ⟨h, anyLog.nil⟩) (allowsAudit_ruleOf _ _ _) hm).1

theorem obeysAt_activateDevice_tracking {profile : ConnectionProfile} {device : NetworkDevice}
    (hprof : profile ∈ profiles) (hget : m.devices.get device.name = some device)
    (hfits : fits profile device = true) :
    ObeysAt w (tracking w profiles K)
      (activateDevice profile profileId actor device.name m.devices (some device)) k m := by
  rintro ⟨hK, hrel⟩
  generalize hact : (Activation.activate profile).run w (k + 1) ⟨device, m.sessions⟩ = act
  obtain ⟨k', hran⟩ :=
    activateDevice_apply profile profileId actor device.name m.devices device hact
  rw [hran]
  cases hres : act.result with
  | ok a =>
    have hactive : act.state.device.activeConnection ≠ none := by
      rw [(Activation.activate_ok hact hres).2.carries]
      nofun
    have hrep := hrel.replaced (DeviceRegistry.get_insert m.devices act.state.device)
      (.inr hactive)
    refine ⟨reliable_activated profileId actor device.name a ⟨hK, hrep⟩, Updates.tracks ?_⟩
    exact (announces_activated profileId actor device.name a).updates rfl
  | error e =>
    have hidle : IsIdle device := by
      refine (hrel profile hprof _ device hget hfits).resolve_right fun hactivates => ?_
      obtain ⟨a, ha⟩ := hactivates (k + 1) m.sessions
      rw [hact, hres] at ha
      cases ha
    have hrep := DeviceRegistry.get_insert_insert act.state.device
      { act.state.device with state := .failed } rfl m.devices
    rw [← Activation.name_of_activate hact] at hget
    have hst := DeviceRegistry.overallState_replaced hrep hget hidle rfl m.connectivity
    show (K (activationFailed device.name e w k' _).state.connections ∧
      Reliable w profiles (activationFailed device.name e w k' _).state.devices) ∧
      Tracks m (activationFailed device.name e w k' _).state
    rw [state_activationFailed hact]
    exact ⟨⟨hK, hrel.replaced hrep (.inl rfl)⟩, tracks_of_eq rfl hst⟩

theorem obeysAt_deactivateProfile_tracking
    (hdown : ∀ entry device, entryToTakeDown w k m profileId = some entry →
      m.devices.get entry.1 = some device →
      Activation.tornDown w (k + 1) device m.sessions = .ok ()) :
    ObeysAt w (tracking w [] fun _ => True) (deactivateProfile profileId actor) k m := by
  refine fun _ => ⟨⟨trivial, fun _ h => (nomatch h)⟩, ?_⟩
  cases hent : entryToTakeDown w k m profileId with
  | none =>
    rw [deactivateProfile_apply _ _ _ _ _ hent]
    exact tracks_of_eq rfl rfl
  | some entry =>
    rw [deactivateProfile_apply _ _ _ _ _ hent]
    show Tracks m (deactivateDevice profileId actor entry.1 (m.devices.get entry.1) w (k + 1)
      { m with active := m.active.erase entry.1 }).state
    cases hget : m.devices.get entry.1 with
    | none => exact tracks_of_eq rfl rfl
    | some device =>
      obtain ⟨log, hran⟩ := deactivateDevice_apply (w := w) (k := k + 1)
        (m := { m with active := m.active.erase entry.1 }) profileId actor entry.1 device
      rw [hran]
      apply Updates.tracks
      show Updates m (deactivated profileId actor entry.1
        (Activation.tornDown w (k + 1) device m.sessions) w _ _).state
      rw [hdown entry device hent hget]
      exact (announces_deactivated profileId actor entry.1).updates rfl

/-! ## Stages -/

theorem editable_tracking : Editable (tracking w profiles fun _ => True) where
  toLenient := lenient_tracking
  put _ _ _ hm := ⟨hm, tracks_of_eq rfl rfl⟩
  config _ _ hm := ⟨hm, tracks_of_eq rfl rfl⟩

end Tracking

theorem tracks_handleRequest {identity : PeerIdentity} {req : Request}
    (hrel : Reliable w (profileToActivate m req).toList m.devices)
    (hdown : ∀ profileId,
      (Daemon.Stage.command (.request req identity)).takesDown = some profileId →
      ∀ entry device, entryToTakeDown w 0 m profileId = some entry →
      m.devices.get entry.1 = some device → Activation.tornDown w 1 device m.sessions = .ok ()) :
    Tracks m (handleRequest identity req w 0 m).state := by
  have hR : Editable (tracking w (profileToActivate m req).toList fun _ => True) :=
    editable_tracking
  refine (obeysAt_handleRequest hR (fun profile hprof k m' hstored => ?_)
    (fun _ _ _ => allowsAudit_tracking _ _ _)
    (fun _ _ _ hop => obeys_firewallRequest hR.toLenient (allowsAudit_tracking _ _ _)
      (isOwn_of_firewallOf hop) 0 m)
    (fun _ _ _ uplink _ => obeys_startHotspot hR.toLenient allowsPlain_tracking
      (fun _ => allowsAudit_tracking _ _ _) uplink 0 m) (fun _ _ => allowsPlain_tracking.hostapd)
    (fun id htk => ?_) (fun _ _ _ hm => ⟨hm, tracks_of_eq rfl rfl⟩) ⟨trivial, hrel⟩).2
  · refine obeysAt_activateProfile hR.toLenient fun p device hp hch => ?_
    cases hstored.symm.trans hp
    obtain ⟨hget, hfits⟩ := of_chosenDevice hch
    exact obeysAt_activateDevice_tracking (by simp [hprof]) hget hfits
  · -- a request that takes a profile down activates none
    have hnone : profileToActivate m req = none := by
      cases req <;> first | rfl | cases htk
    rw [hnone]
    exact obeysAt_deactivateProfile_tracking (hdown id htk)

theorem obeys_activateProfile_tracking {profiles : List ConnectionProfile}
    (profileId actor : String) :
    Obeys w (tracking w profiles fun connections => ∀ p ∈ connections, p ∈ profiles)
      (activateProfile profileId actor) :=
  obeys_activateProfile lenient_tracking fun _ _ profile _ hstored hget hfits hm =>
    obeysAt_activateDevice_tracking (K := fun connections => ∀ p ∈ connections, p ∈ profiles)
      (hm.1 profile (mem_of_find?_eq_some hstored)) hget hfits hm

/-- The registry that a stage finds once it has refreshed it, if it does so without telling the
overall state afterwards. -/
def registryFor (w : World Call.Answer) (m : NetworkManager) : Daemon.Stage → DeviceRegistry
  | .command (.tick .deviceRefresh) => rescanned w m
  | _ => m.devices

def candidates (m : NetworkManager) : Daemon.Stage → List ConnectionProfile
  | .autoconnectAll => m.connections
  | .command (.request req _) => (profileToActivate m req).toList
  | .command (.tick .wifiScan) => m.connections
  | .command (.tick .deviceRefresh) => m.connections
  | _ => []

/-- What keeps clients right in one stage: a refresh does not change the overall state by itself, a
profile can only fail on a device that is idle, and what is taken down is torn down. -/
structure KeepsRight (w : World Call.Answer) (m : NetworkManager) (stage : Daemon.Stage) :
    Prop where
  scan : overallState (registryFor w m stage).values m.connectivity = stateOf m
  reliable : Reliable w (candidates m stage) (registryFor w m stage)
  down : ∀ profileId, stage.takesDown = some profileId → ∀ entry device,
    entryToTakeDown w 0 m profileId = some entry → m.devices.get entry.1 = some device →
    Activation.tornDown w 1 device m.sessions = .ok ()

theorem tracks_program {stage : Daemon.Stage} (h : KeepsRight w m stage) :
    Tracks m (stage.program w 0 m).state := by
  have hact : ∀ id, Obeys w (tracking w m.connections fun connections =>
      ∀ p ∈ connections, p ∈ m.connections) (activateProfile id "system:autoconnect") :=
    fun id => obeys_activateProfile_tracking id _
  cases stage with
  | autoconnectAll =>
    exact (obeys_tryAutoconnectAll lenient_tracking hact 0 m ⟨fun _ hp => hp, h.reliable⟩).2
  | command c =>
    cases c with
    | request req identity => exact tracks_handleRequest h.reliable h.down
    | registerEventClient => exact EventBus.sends_register rfl
    | unregisterEventClient id => exact EventBus.sends_unregister id rfl
    | hotplug event => exact (updates_hotplug event m).tracks
    | tick kind =>
      cases kind with
      | connectivity => exact tracks_connectivityChecked _ 1 m
      | wifiScan =>
        exact (obeys_wifiScan lenient_tracking hact 0 m ⟨fun _ hp => hp, h.reliable⟩).2
      | leaseCheck =>
        have hR : AllowsPlain (tracking w [] fun _ => True) := allowsPlain_tracking
        exact (obeys_leaseCheck hR 0 m ⟨trivial, fun _ hp => (nomatch hp)⟩).2
      | deviceRefresh =>
        show Tracks m (tryAutoconnectAll w _ (refresh w 0 m).state).state
        rw [state_refresh]
        have href : Tracks m { m with devices := rescanned w m } := tracks_of_eq rfl h.scan
        exact href.trans (obeys_tryAutoconnectAll lenient_tracking hact _
          { m with devices := rescanned w m } ⟨fun _ hp => hp, h.reliable⟩).2
    | shutdown => exact tracks_of_eq rfl rfl

end NetworkManager

/-! ## Runs -/

namespace Daemon

open NetworkManager

variable {d : Daemon} {stages : List Input}

def KeepsRight (d : Daemon) (i : Input) : Prop :=
  d.running = true → d.manager.events.clients ≠ [] → NetworkManager.KeepsRight i.2 d.manager i.1

theorem tracks_step (d : Daemon) (i : Input) (h : KeepsRight d i) :
    Tracks d.manager (d.step i).1.manager := by
  unfold step
  split
  · rename_i hrun
    by_cases hclients : d.manager.events.clients = []
    · obtain ⟨hnext, hsent⟩ : Extends d.manager (i.1.program i.2 0 d.manager).state :=
        indifferent_extending.obeysAt_program i.1 d.manager
      refine ⟨hnext, fun c' hc' hid => ?_⟩
      obtain ⟨c, hc, -⟩ := hsent c' hc' hid
      rw [hclients] at hc
      cases hc
    · exact tracks_program (h hrun hclients)
  · exact tracks_of_eq rfl rfl

theorem tracks_finalState (h : Machine.AllSteps step KeepsRight d stages) :
    Tracks d.manager (Machine.finalState step d stages).manager := by
  induction stages generalizing d with
  | nil => exact tracks_of_eq rfl rfl
  | cons i stages ih => exact (tracks_step d i h.1).trans (ih h.2)

/-- The manager after the first `n` stages. -/
def managerAt (d : Daemon) (stages : List Input) (n : ℕ) : NetworkManager :=
  (Machine.finalState step d (stages.take n)).manager

theorem tracks_managerAt (h : Machine.AllSteps step KeepsRight d stages) {n n' : ℕ} (hle : n ≤ n') :
    Tracks (managerAt d stages n) (managerAt d stages n') := by
  have hsp : stages.take n' = stages.take n ++ (stages.drop n).take (n' - n) := by
    rw [← take_add, Nat.add_sub_cancel' hle]
  have hsts : Machine.AllSteps step KeepsRight d (stages.take n') := by
    rw [← take_append_drop n' stages] at h
    exact (Machine.allSteps_append.mp h).1
  rw [hsp] at hsts
  rw [managerAt, managerAt, hsp, Machine.finalState_append]
  exact tracks_finalState (Machine.allSteps_append.mp hsts).2

/-- **The event stream tracks the state** in every run whose steps all meet the condition. A client
that was registered at one point of it and still is at a later one has been sent every change of the
overall state between the two, and by following these shows what `Request::GetState` answers. -/
theorem state_followed (d : Daemon) (stages : List Input)
    (h : Machine.AllSteps step KeepsRight d stages) (n n' : ℕ) (hle : n ≤ n') (c' : EventClient)
    (hc' : c' ∈ (managerAt d stages n').events.clients)
    (hid : c'.id < (managerAt d stages n).events.nextId) :
    ∃ c ∈ (managerAt d stages n).events.clients, c.id = c'.id ∧
      ∃ more, c'.sent = c.sent ++ more ∧
        (stateOf (managerAt d stages n') ≠ stateOf (managerAt d stages n) →
          .stateChanged (stateOf (managerAt d stages n')) ∈ more) ∧
        ∀ w k identity, (handleRequest identity .getState w k (managerAt d stages n')).result =
          .state (shown (stateOf (managerAt d stages n)) more) := by
  obtain ⟨c, hc, hsame, more, hmore, hshown⟩ := (tracks_managerAt h hle).sent c' hc' hid
  refine ⟨c, hc, hsame, more, hmore, fun hne => ?_, fun w k identity => ?_⟩
  · rw [← hshown] at hne ⊢
    exact mem_of_shown_ne hne
  · rw [hshown, result_getState]

/-- A client registers, and a profile is activated. -/
def followedRun : Run :=
  { wiredRun ["lo"] [wired 2 "eth0"] office with
    commands := (.registerEventClient, fun _ => calm [wired 2 "eth0"] (.ok ())) ::
      (wiredRun ["lo"] [wired 2 "eth0"] office).commands }

theorem state_followed_followedRun :
    ∃ d, followedRun.initial = some d ∧
      stateOf (managerAt d followedRun.stages 2) = .disconnected ∧
      stateOf (managerAt d followedRun.stages 4) = .connectedLocal ∧
      ∃ c' ∈ (managerAt d followedRun.stages 4).events.clients,
      ∃ c ∈ (managerAt d followedRun.stages 2).events.clients, c.id = c'.id ∧
        ∃ more, c'.sent = c.sent ++ more ∧
          (stateOf (managerAt d followedRun.stages 4) ≠ stateOf (managerAt d followedRun.stages 2) →
            .stateChanged (stateOf (managerAt d followedRun.stages 4)) ∈ more) ∧
          ∀ w k identity,
            (handleRequest identity .getState w k (managerAt d followedRun.stages 4)).result =
              .state (shown (stateOf (managerAt d followedRun.stages 2)) more) := by
  obtain ⟨d, hd, hnone, hbefore, hidle, hafter, c', hc', hid⟩ : ∃ d ∈ followedRun.initial,
      d.manager.events.clients.length = 0 ∧
      stateOf (managerAt d followedRun.stages 2) = .disconnected ∧
      (∀ dev ∈ (managerAt d followedRun.stages 3).devices.values, dev.state = .disconnected) ∧
      stateOf (managerAt d followedRun.stages 4) = .connectedLocal ∧
      ∃ c' ∈ (managerAt d followedRun.stages 4).events.clients,
      c'.id < (managerAt d followedRun.stages 2).events.nextId := by decide +kernel
  refine ⟨d, hd, hbefore, hafter, c', hc',
    state_followed d followedRun.stages ?_ 2 4 (by decide) c' hc' hid⟩
  refine ⟨fun _ h => absurd (length_eq_zero_iff.mp hnone) h,
    fun _ _ => ⟨rfl, fun _ h => (nomatch h), fun _ h => (nomatch h)⟩,
    fun _ _ => ⟨rfl, fun _ h => (nomatch h), fun _ h => (nomatch h)⟩,
    fun _ _ => ⟨rfl, fun profile _ n device hget _ => ?_, fun _ h => (nomatch h)⟩, trivial⟩
  have hname := DeviceRegistry.name_of_get hget
  exact .inl (.inl (hidle device (DeviceRegistry.mem_values.mpr (hname ▸ hget))))

/-- The overall state before and after the last command of a run, and what each client was sent. -/
def lastTold (r : Run) : Option (NetworkState × NetworkState × List (List Event)) :=
  r.initial.map fun d =>
    (stateOf (managerAt d r.stages (r.stages.length - 1)),
      stateOf (managerAt d r.stages r.stages.length),
      (managerAt d r.stages r.stages.length).events.clients.map (·.sent))

def watched (r : Run) (c : Command) (w : World Call.Answer) : Run :=
  { r with commands := r.commands ++ [(.registerEventClient, w), (c, w)] }

/-- A port without a cable. -/
def unplugged : Interface := ⟨2, "eth0", 0x1, 1500, none, none⟩

/-- The client of these runs is told nothing: an activation fails, a deactivation fails, a link is
gone when the registry is refreshed. -/
theorem change_not_told :
    lastTold (watched
      (wiredRun ["lo"] [unplugged] [.addConnection (wiredProfile "office" false)])
      (.request (.activateConnection "office") ⟨0, 0, 1⟩)
      (withoutCarrier fun _ => calm [unplugged] (.ok ()))) =
      some (.unavailable, .disconnected, [[]]) ∧
    lastTold (watched (officeRun []) (.request (.deactivateConnection "office") ⟨0, 0, 1⟩)
      fun _ => calm [wired 2 "eth0"] (.error (.netlink "busy"))) =
      some (.connectedLocal, .disconnecting, [[]]) ∧
    lastTold (watched (officeRun []) (.tick .deviceRefresh) fun _ => calm [] (.ok ())) =
      some (.connectedLocal, .unavailable, [[]]) := by
  refine ⟨by decide +kernel, by decide +kernel, by decide +kernel⟩

end Daemon

end MitosNetwork
