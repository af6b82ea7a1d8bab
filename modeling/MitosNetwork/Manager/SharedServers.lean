import MitosNetwork.Dns.Servers
import MitosNetwork.Manager.ResolvConf

/-!
# Name servers of several connections

Each activation writes the name servers it comes by over those that are listed, list by list, and
deactivation writes none. What resolv.conf lists is compared with what `DnsServerRegistry::merged`
makes of the active connections. `listed_eq_merged_iff` says when the two agree all along a sequence
of successful activations and deactivations: whenever an activation comes by servers, they have to
be one list that what every other active connection came by is an initial part of, and a connection
that came by all that is listed has to stay active.
-/

namespace MitosNetwork

open Resolver Daemon List NetworkManager Machine

variable {name : String}

theorem brought_call {N : Type} {c : Call} (hc : c.isDns = false) (a : c.Answer) :
    brought [(.call c a : Entry Call.Answer N)] = [] := by
  cases c <;> first | rfl | cases hc

namespace NetworkManager

variable {w : World Call.Answer} {k : ℕ} {m m' : NetworkManager} {log : Log}

variable {before : Log} {device : NetworkDevice} {actor profileId : String}

/-- Nothing is activated, and name servers are not touched. -/
def Law.idle : Law where
  Holds log := Daemon.activations log = [] ∧ brought log = [] ∧ writes log = []
  nil := ⟨rfl, rfl, rfl⟩
  append h h' := by
    rw [activations_append, brought_append, writes_append, h.1, h.2.1, h.2.2, h'.1, h'.2.1, h'.2.2]
    exact ⟨rfl, rfl, rfl⟩
  call hc a := ⟨rfl, brought_call hc a, writes_call hc a⟩

theorem contributed_of_idle (h : Law.idle.Holds log) : contributed log = [] := by
  rw [contributed, h.1, h.2.1]
  rfl

theorem contributed_idle_append (h : Law.idle.Holds before) :
    contributed (before ++ log) = contributed log := by
  rw [contributed, brought_append, activations_append, h.1, h.2.1]
  rfl

theorem contributed_append_idle {after : Log} (h : Law.idle.Holds after) :
    contributed (log ++ after) = contributed log := by
  rw [contributed, brought_append, activations_append, h.1, h.2.1, append_nil, append_nil]
  rfl

abbrev holding (devices : DeviceRegistry) (active : Table String ActiveConnection) : Property :=
  fun _ _ r a _ => r = devices ∧ a = active

/-! ## Successful activations -/

/-- A profile is activated on a free device: the device carries a connection then, the active map
has an entry for it, and what is written are the lists that the activation came by, in order. -/
structure ActivatesOn (m m' : NetworkManager) (log : Log) (device : NetworkDevice) : Prop where
  free : m.devices.get device.name = some device ∧ device.activeConnection = none
  devices : ∃ dev : NetworkDevice, dev.name = device.name ∧ dev.activeConnection.isSome ∧
    m'.devices = m.devices.insert dev
  active : ∃ a, m'.active = m.active.insert device.name a
  activations : ∃ a : ActivateCall, a.device = device ∧ Daemon.activations log = [a]
  writes : (Resolver.writes log).map (·.servers) = contributed log

theorem ActivatesOn.idle_append (h : ActivatesOn m m' log device)
    (hbefore : Law.idle.Holds before) : ActivatesOn m m' (before ++ log) device where
  free := h.free
  devices := h.devices
  active := h.active
  activations := by
    rw [activations_append, hbefore.1]
    exact h.activations
  writes := by
    rw [writes_append, contributed_idle_append hbefore, hbefore.2.2]
    exact h.writes

theorem activatesOn_activateDevice {profile : ConnectionProfile}
    (hget : m.devices.get device.name = some device) (hfree : device.activeConnection = none)
    (h : (activateDevice profile profileId actor device.name m.devices (some device) w k m).result =
      .ok) :
    ActivatesOn m
      (activateDevice profile profileId actor device.name m.devices (some device) w k m).state
      (activateDevice profile profileId actor device.name m.devices (some device) w k m).log
      device := by
  have hset := (Activation.settles_activate profile).settled w (k + 1) ⟨device, m.sessions⟩
  generalize hact : (Activation.activate profile).run w (k + 1) ⟨device, m.sessions⟩ = act
    at hset
  obtain ⟨k', hran⟩ :=
    activateDevice_apply profile profileId actor device.name m.devices device hact
  let m₁ : NetworkManager :=
    { m with
      devices := m.devices.insert act.state.device
      sessions := act.state.sessions }
  rw [hran] at h ⊢
  cases hres : act.result with
  | error e =>
    rw [hres] at h
    cases h
  | ok active =>
    obtain ⟨-, hlike⟩ := Activation.activate_ok hact hres
    obtain ⟨hst, hidle⟩ : LawfulAt w (holding m₁.devices (m₁.active.insert device.name active))
        .idle (activated profileId actor device.name active) k' m₁ :=
      lawfulAt_activated (fun _ _ _ _ _ _ _ h => h) ⟨rfl, rfl⟩
    refine ⟨⟨hget, hfree⟩, ⟨act.state.device, hlike.name, ?_, ?_⟩, ⟨active, ?_⟩,
      ⟨⟨m.devices, profile, device⟩, rfl, ?_⟩, ?_⟩
    · rw [hlike.carries]
      rfl
    · exact hst.1
    · exact hst.2
    · show Daemon.activations (_ ++ (activated profileId actor device.name active w k' m₁).log) = _
      rw [activations_append, activations_activation, hidle.1]
      rfl
    · show (writes (_ ++ (activated profileId actor device.name active w k' m₁).log)).map _ =
        contributed (_ ++ (activated profileId actor device.name active w k' m₁).log)
      rw [writes_append, contributed_append_idle hidle, hidle.2.2, append_nil,
        writes_activation, contributed_activation, hset active hres, nil_append]

theorem activatesOn_activateProfile (h : (activateProfile profileId actor w k m).result = .ok) :
    ∃ device, ActivatesOn m (activateProfile profileId actor w k m).state
      (activateProfile profileId actor w k m).log device := by
  cases hstored : m.stored profileId with
  | none =>
    rw [activateProfile_of_not_stored hstored] at h
    cases h
  | some profile =>
    cases hch : chosenDevice w k m profile with
    | none =>
      rw [activateProfile_of_not_chosen hstored hch] at h
      cases h
    | some device =>
      obtain ⟨hget, hfits⟩ := of_chosenDevice hch
      rw [activateProfile_of_chosen hstored hch] at h ⊢
      exact ⟨device, (activatesOn_activateDevice hget (free_of_fits hfits) h).idle_append
        (Law.idle.call rfl _)⟩

/-! ## Successful deactivations -/

/-- The connection of an entry is taken down: the entry is gone, no other device is touched, and
neither are name servers. -/
structure DeactivatesOn (m m' : NetworkManager) (log : Log)
    (entry : Σ _ : String, ActiveConnection) : Prop where
  devices : ∃ dev : NetworkDevice, dev.name = entry.1 ∧ m'.devices = m.devices.insert dev
  active : m'.active = m.active.erase entry.1
  idle : Law.idle.Holds log

def entryToTakeDown (w : World Call.Answer) (k : ℕ) (m : NetworkManager) (profileId : String) :
    Option (Σ _ : String, ActiveConnection) :=
  ((w k .activeOrder : Order (Σ _ : String, ActiveConnection)).arrange m.active.entries).find?
    fun e => e.2.profileId = profileId

theorem deactivateDevice_spec (profileId actor : String) (hname : device.name = name) :
    ∃ dev : NetworkDevice, dev.name = name ∧
      LawfulAt w (holding (m.devices.insert dev) m.active) .idle
        (deactivateDevice profileId actor name (some device)) k m := by
  have hlog : Law.idle.Holds ((Activation.deactivate.run w k
      ⟨device, m.sessions⟩).log.map Proc.liftEntry) :=
    Law.holds_map_liftEntry fun c a h =>
      Call.isDns_of_isLink (Activation.quiet_deactivate w k _ c a h)
  exact ⟨(Activation.deactivate.run w k ⟨device, m.sessions⟩).state.device,
    (Activation.like_of_deactivate rfl).name.trans hname,
    .bind ⟨⟨rfl, rfl⟩, hlog⟩ fun result =>
      lawful_deactivated (fun _ _ _ _ _ _ _ h => h) _ _ _ result⟩

theorem deactivateProfile_apply (profileId actor : String) (w : World Call.Answer) (k : ℕ)
    (m : NetworkManager) {found : Option (Σ _ : String, ActiveConnection)}
    (hfound : entryToTakeDown w k m profileId = found) :
    deactivateProfile profileId actor w k m =
      ⟨(deactivateEntry profileId actor found w (k + 1) m).result,
        (deactivateEntry profileId actor found w (k + 1) m).state,
        [.call .activeOrder (w k .activeOrder)] ++
          (deactivateEntry profileId actor found w (k + 1) m).log⟩ := by
  subst hfound
  rfl

theorem deactivateEntry_some {entry : Σ _ : String, ActiveConnection} :
    deactivateEntry profileId actor (some entry) w k m =
      deactivateDevice profileId actor entry.1 (m.devices.get entry.1) w k
        { m with active := m.active.erase entry.1 } := rfl

theorem deactivatesOn_deactivateProfile
    (h : (deactivateProfile profileId actor w k m).result = .ok) :
    ∃ entry, entryToTakeDown w k m profileId = some entry ∧
      DeactivatesOn m (deactivateProfile profileId actor w k m).state
        (deactivateProfile profileId actor w k m).log entry := by
  cases hfound : entryToTakeDown w k m profileId with
  | none =>
    rw [deactivateProfile_apply _ _ _ _ _ hfound] at h
    cases h
  | some entry =>
    refine ⟨entry, rfl, ?_⟩
    rw [deactivateProfile_apply _ _ _ _ _ hfound, deactivateEntry_some] at h ⊢
    cases hget : m.devices.get entry.1 with
    | none =>
      rw [hget] at h
      cases h
    | some device =>
      obtain ⟨dev, hdev, hst, hidle⟩ := deactivateDevice_spec (w := w) (k := k + 1)
        (m := { m with active := m.active.erase entry.1 }) profileId actor
        (DeviceRegistry.name_of_get hget)
      exact ⟨⟨dev, hdev, hst.1⟩, hst.2, Law.idle.append (Law.idle.call rfl _) hidle⟩

end NetworkManager

/-! ## The history of name servers -/

/-- What came of name servers: what resolv.conf lists, and what the connection on each device came
by. -/
structure DnsHistory where
  listed : List IpAddr
  served : String → List IpAddr

/-- Nothing is listed. -/
def DnsHistory.start : DnsHistory := ⟨[], fun _ => []⟩

def DnsHistory.after (h : DnsHistory) (log : Log) : DnsHistory where
  listed := nameservers Config.defaultResolvConf h.listed log
  served name :=
    if (activations log).any fun a => a.device.name = name then (contributed log).flatten
    else h.served name

variable {h : DnsHistory}

theorem DnsHistory.served_after {log : Log} {a : ActivateCall} (hlog : activations log = [a])
    (name : String) :
    (h.after log).served name =
      if a.device.name = name then (contributed log).flatten else h.served name := by
  simp [DnsHistory.after, hlog]

theorem DnsHistory.after_of_idle {log : Log} (hlog : NetworkManager.Law.idle.Holds log) :
    h.after log = h := by
  obtain ⟨hactivations, -, hws⟩ := hlog
  simp [DnsHistory.after, nameservers, hactivations, hws]

structure Tracked where
  daemon : Daemon
  history : DnsHistory

namespace Tracked

variable {a : ActiveConnection} (s : Tracked)

def step (i : Input) : Tracked × Output :=
  (⟨(s.daemon.step i).1, s.history.after (s.daemon.step i).2.log⟩, (s.daemon.step i).2)

theorem daemon_finalState (stages : List Input) :
    (finalState step s stages).daemon = finalState Daemon.step s.daemon stages := by
  induction stages generalizing s with
  | nil => rfl
  | cons i stages ih => exact ih (s.step i).1

/-- A registry with an entry for each active connection: the servers that it came by, and a priority
that may depend on the profile. -/
def registry (priority : String → Int32) : DnsServerRegistry :=
  ⟨s.daemon.manager.active.mapValues fun name a =>
    ⟨s.history.served name, [], priority a.profileId⟩⟩

theorem served_subset_merged {s : Tracked} {e : Σ _ : String, ActiveConnection}
    (he : e ∈ s.daemon.manager.active.entries) (priority : String → Int32)
    (order : Order (Σ _ : String, DnsContribution)) :
    s.history.served e.1 ⊆ ((s.registry priority).merged order).1 := by
  intro server hsrv
  rw [DnsServerRegistry.mem_merged]
  exact ⟨_, Table.mem_values_mapValues.mpr ⟨e.1, e.2, Table.mem_entries_iff.mp he, rfl⟩, hsrv⟩

/-- resolv.conf lists what `merged` makes of the active connections, for all priorities and in every
order of the map. -/
def ListsMerged : Prop :=
  ∀ priority order, ((s.registry priority).merged order).1 = s.history.listed

/-- What each active connection came by is an initial part of what is listed, and one of them came
by all of it. -/
structure Shares (s : Tracked) : Prop where
  begins : ∀ name a, s.daemon.manager.active.lookup name = some a →
    (s.history.served name).distinct <+: s.history.listed
  held : s.history.listed ≠ [] → ∃ name a, s.daemon.manager.active.lookup name = some a ∧
    (s.history.served name).distinct = s.history.listed

theorem listsMerged_iff {s : Tracked} : s.ListsMerged ↔ s.Shares := by
  have hvals : ∀ {priority e}, e ∈ (s.registry priority).perConnection.values ↔
      ∃ name a, s.daemon.manager.active.lookup name = some a ∧
        ⟨s.history.served name, [], priority a.profileId⟩ = e := Table.mem_values_mapValues
  have hsha : ∀ priority, s.Shares ↔
      (∀ e ∈ (s.registry priority).perConnection.values, e.servers.distinct <+: s.history.listed) ∧
      (s.history.listed ≠ [] → ∃ e ∈ (s.registry priority).perConnection.values,
        e.servers.distinct = s.history.listed) := by
    intro priority
    constructor
    · rintro ⟨hbeg, hheld⟩
      refine ⟨fun e he => ?_, fun hne => ?_⟩
      · obtain ⟨name, a, hlk, rfl⟩ := hvals.mp he
        exact hbeg name a hlk
      · obtain ⟨name, a, hlk, heq⟩ := hheld hne
        exact ⟨_, hvals.mpr ⟨name, a, hlk, rfl⟩, heq⟩
    · rintro ⟨hbeg, hheld⟩
      refine ⟨fun name a hlk => hbeg _ (hvals.mpr ⟨name, a, hlk, rfl⟩), fun hne => ?_⟩
      obtain ⟨e, he, heq⟩ := hheld hne
      obtain ⟨name, a, hlk, rfl⟩ := hvals.mp he
      exact ⟨name, a, hlk, heq⟩
  constructor
  · intro h
    rw [hsha fun _ => 0]
    refine (DnsServerRegistry.forall_merged_eq_iff (priority := 0) fun e he => ?_).mp (h _)
    obtain ⟨name, a, -, rfl⟩ := hvals.mp he
    rfl
  · intro h priority order
    exact DnsServerRegistry.merged_eq ((hsha priority).mp h).1 ((hsha priority).mp h).2

/-! ## One step -/

def isSwitch : Stage → Bool
  | .command (.request (.activateConnection _) _) => true
  | .command (.request (.deactivateConnection _) _) => true
  | _ => false

/-- Whether an answer is `Ok`. -/
def answersOk : Option Response → Bool
  | some .ok => true
  | _ => false

theorem answersOk_iff {r : Option Response} : answersOk r = true ↔ r = some .ok := by
  constructor
  · intro h
    unfold answersOk at h
    split at h
    · rfl
    · cases h
  · rintro rfl
    rfl

instance (r : Option Response) : Decidable (r = some .ok) :=
  decidable_of_iff (answersOk r = true) answersOk_iff

/-- A successful activation or deactivation: a request that is answered with `Ok`, none of whose
writes to resolv.conf failed. -/
def Switches (i : Input) : Prop :=
  isSwitch i.1 = true ∧ (s.daemon.step i).2.response = some .ok ∧
    ∀ write ∈ writes (s.daemon.step i).2.log, write.outcome = .ok ()

instance (s : Tracked) (i : Input) : Decidable (s.Switches i) :=
  inferInstanceAs (Decidable (_ ∧ _ ∧ _))

/-- What a step needs. If an activation comes by servers, these are all in the list that it came by
last, without repetitions, and so are, as an initial part, those of every active connection. If the
connection of an entry is taken down while servers are listed, another connection came by all of
them. -/
def KeepsServers (i : Input) : Prop :=
  (∀ l ∈ (contributed (s.daemon.step i).2.log).getLast?,
    (contributed (s.daemon.step i).2.log).flatten.distinct = l ∧
      ∀ e ∈ s.daemon.manager.active.entries, (s.history.served e.1).distinct <+: l) ∧
  ∀ id ∈ i.1.takesDown, ∀ e ∈ entryToTakeDown i.2 0 s.daemon.manager id,
    s.history.listed ≠ [] → ∃ e' ∈ s.daemon.manager.active.entries,
      e'.1 ≠ e.1 ∧ (s.history.served e'.1).distinct = s.history.listed

instance (s : Tracked) (i : Input) : Decidable (s.KeepsServers i) :=
  inferInstanceAs (Decidable (_ ∧ _))

def Carried : Prop :=
  ∀ name a, s.daemon.manager.active.lookup name = some a →
    ∃ dev, s.daemon.manager.devices.get name = some dev ∧ dev.activeConnection.isSome

theorem step_request {d : Daemon} {w : World Call.Answer} {req : Request} {identity : PeerIdentity}
    {r : Response} (h : (d.step (.command (.request req identity), w)).2.response = some r) :
    (handleRequest identity req w 0 d.manager).result = r ∧
      (d.step (.command (.request req identity), w)).1.manager =
        (handleRequest identity req w 0 d.manager).state ∧
      (d.step (.command (.request req identity), w)).2.log =
        (handleRequest identity req w 0 d.manager).log := by
  unfold Daemon.step at h ⊢
  split at h
  · rename_i hrun
    rw [if_pos hrun]
    exact ⟨Option.some.inj h, rfl, append_nil _⟩
  · cases h

section Activation

variable {s : Tracked} {i : Input} {device : NetworkDevice}
  (hstep : NetworkManager.ActivatesOn s.daemon.manager (s.daemon.step i).1.manager
    (s.daemon.step i).2.log device)
include hstep

theorem served_step_activation (name : String) : (s.step i).1.history.served name =
    if device.name = name then (contributed (s.daemon.step i).2.log).flatten
    else s.history.served name := by
  obtain ⟨call, rfl, hlog⟩ := hstep.activations
  exact DnsHistory.served_after hlog name

theorem lookup_step_activation : ∃ a, ∀ name, (s.step i).1.daemon.manager.active.lookup name =
    if name = device.name then some a else s.daemon.manager.active.lookup name := by
  obtain ⟨a, hact⟩ := hstep.active
  refine ⟨a, fun name => ?_⟩
  rw [← Table.lookup_insert_eq, ← hact]
  rfl

theorem ne_of_lookup (hs : s.Carried) (h : s.daemon.manager.active.lookup name = some a) :
    name ≠ device.name := by
  rintro rfl
  obtain ⟨hget, hfree⟩ := hstep.free
  obtain ⟨dev, hdev, hsome⟩ := hs _ _ h
  cases hget.symm.trans hdev
  rw [hfree] at hsome
  cases hsome

theorem carried_step_activation (hs : s.Carried) : (s.step i).1.Carried := by
  obtain ⟨a, hlk⟩ := lookup_step_activation hstep
  obtain ⟨dev, hname, hcarries, hdevs⟩ := hstep.devices
  intro name b hb
  show ∃ dev, (s.daemon.step i).1.manager.devices.get name = some dev ∧ _
  rw [hlk] at hb
  rw [hdevs, DeviceRegistry.get_insert, hname]
  by_cases hn : name = device.name
  · exact ⟨dev, if_pos hn, hcarries⟩
  · rw [if_neg hn] at hb ⊢
    exact hs name b hb

theorem listed_step_activation
    (hwritten : ∀ write ∈ writes (s.daemon.step i).2.log, write.outcome = .ok ()) :
    (s.step i).1.history.listed =
      (contributed (s.daemon.step i).2.log).getLast?.getD s.history.listed := by
  rw [← hstep.writes]
  exact nameservers_eq fun write hmem =>
    ⟨holds_log_step defaultFile_activation s.daemon i write hmem, hwritten write hmem⟩

theorem old_step_activation (hs : s.Carried) (h : s.daemon.manager.active.lookup name = some a) :
    (s.step i).1.daemon.manager.active.lookup name = some a ∧
      (s.step i).1.history.served name = s.history.served name := by
  obtain ⟨b, hlk⟩ := lookup_step_activation hstep
  have hne := ne_of_lookup hstep hs h
  exact ⟨(hlk name).trans ((if_neg hne).trans h),
    (served_step_activation hstep name).trans (if_neg hne.symm)⟩

theorem new_step_activation : ∃ a, (s.step i).1.daemon.manager.active.lookup device.name = some a ∧
    (s.step i).1.history.served device.name = (contributed (s.daemon.step i).2.log).flatten ∧
    ∀ name b, (s.step i).1.daemon.manager.active.lookup name = some b →
      name = device.name ∨ s.daemon.manager.active.lookup name = some b := by
  obtain ⟨a, hlk⟩ := lookup_step_activation hstep
  refine ⟨a, (hlk _).trans (if_pos rfl),
    (served_step_activation hstep _).trans (if_pos rfl), fun name b hb => ?_⟩
  rw [hlk] at hb
  split at hb
  · exact .inl ‹_›
  · exact .inr hb

variable (hwritten : ∀ write ∈ writes (s.daemon.step i).2.log, write.outcome = .ok ())
include hwritten

theorem shares_step_unserved (hcarries : s.Carried) (hs : s.Shares)
    (hnone : contributed (s.daemon.step i).2.log = []) : (s.step i).1.Shares := by
  obtain ⟨a, -, hsvd, hcas⟩ := new_step_activation hstep
  have hls := listed_step_activation hstep hwritten
  rw [hnone] at hls
  refine ⟨fun name b hb => ?_, fun hne => ?_⟩
  · rcases hcas name b hb with rfl | hb
    · rw [hsvd, hnone]
      exact nil_prefix
    · rw [(old_step_activation hstep hcarries hb).2, hls]
      exact hs.begins name b hb
  · rw [hls] at hne ⊢
    obtain ⟨name, b, hb, heq⟩ := hs.held hne
    obtain ⟨hb, hsvd⟩ := old_step_activation hstep hcarries hb
    exact ⟨name, b, hb, hsvd ▸ heq⟩

theorem shares_step_served (hcarries : s.Carried) {l : List IpAddr}
    (hlast : (contributed (s.daemon.step i).2.log).getLast? = some l) :
    (s.step i).1.Shares ↔ (contributed (s.daemon.step i).2.log).flatten.distinct = l ∧
      ∀ e ∈ s.daemon.manager.active.entries, (s.history.served e.1).distinct <+: l := by
  obtain ⟨a, hnew, hsvd, hcas⟩ := new_step_activation hstep
  have hls := listed_step_activation hstep hwritten
  rw [hlast, Option.getD_some] at hls
  constructor
  · rintro ⟨hbeg, hheld⟩
    rw [hls] at hbeg hheld
    have hnd : l.Nodup := by
      by_cases hnil : l = []
      · exact hnil ▸ nodup_nil
      · obtain ⟨name, b, -, heq⟩ := hheld hnil
        exact heq ▸ nodup_distinct _
    refine ⟨?_, fun e he => ?_⟩
    · -- The last list is among those that were come by, so none of its servers is missing.
      refine eq_of_prefix_of_subset hnd (hsvd ▸ hbeg _ a hnew)
        fun server hsrv => ?_
      rw [mem_distinct]
      exact mem_flatten.mpr ⟨l, mem_of_getLast? hlast, hsrv⟩
    · obtain ⟨he, hsvd⟩ := old_step_activation hstep hcarries (Table.mem_entries_iff.mp he)
      exact hsvd ▸ hbeg e.1 e.2 he
  · rintro ⟨heq, hother⟩
    refine ⟨fun name b hb => ?_, fun _ => ⟨device.name, a, hnew, ?_⟩⟩
    · rw [hls]
      rcases hcas name b hb with rfl | hb
      · exact ⟨[], by rw [hsvd, heq, append_nil]⟩
      · rw [(old_step_activation hstep hcarries hb).2]
        exact hother ⟨name, b⟩ (Table.mem_entries_iff.mpr hb)
    · rw [hsvd, hls, heq]

theorem shares_step_activation (hcarries : s.Carried) (hs : s.Shares)
    (htd : i.1.takesDown = none) : (s.step i).1.Shares ↔ s.KeepsServers i := by
  have hdown : ∀ P : String → Prop, ∀ id ∈ i.1.takesDown, P id := by
    intro P id hid
    rw [htd] at hid
    cases hid
  rw [KeepsServers, and_iff_left (hdown _)]
  cases hlast : (contributed (s.daemon.step i).2.log).getLast? with
  | none =>
    refine iff_of_true ?_ fun l hl => nomatch hl
    exact shares_step_unserved hstep hwritten hcarries hs (getLast?_eq_none_iff.mp hlast)
  | some l =>
    rw [shares_step_served hstep hwritten hcarries hlast]
    refine ⟨fun h l' hl' => ?_, fun h => h l rfl⟩
    exact Option.some.inj hl' ▸ h

end Activation

section Deactivation

variable {s : Tracked} {i : Input} {entry : Σ _ : String, ActiveConnection}
  (hstep : NetworkManager.DeactivatesOn s.daemon.manager (s.daemon.step i).1.manager
    (s.daemon.step i).2.log entry)
include hstep

theorem lookup_step_deactivation (name : String) :
    (s.step i).1.daemon.manager.active.lookup name =
      if name = entry.1 then none else s.daemon.manager.active.lookup name := by
  rw [← Table.lookup_erase_eq, ← hstep.active]
  rfl

theorem lookup_of_lookup_step (h : (s.step i).1.daemon.manager.active.lookup name = some a) :
    name ≠ entry.1 ∧ s.daemon.manager.active.lookup name = some a := by
  rw [lookup_step_deactivation hstep] at h
  split at h
  · cases h
  · exact ⟨‹_›, h⟩

theorem carried_step_deactivation (hs : s.Carried) : (s.step i).1.Carried := by
  obtain ⟨dev, hname, hdevs⟩ := hstep.devices
  intro name a h
  obtain ⟨hne, h⟩ := lookup_of_lookup_step hstep h
  show ∃ dev, (s.daemon.step i).1.manager.devices.get name = some dev ∧ _
  rw [hdevs, DeviceRegistry.get_insert, hname, if_neg hne]
  exact hs name a h

theorem shares_step_deactivation {id : String} (hs : s.Shares)
    (htd : i.1.takesDown = some id)
    (hent : entryToTakeDown i.2 0 s.daemon.manager id = some entry) :
    (s.step i).1.Shares ↔ s.KeepsServers i := by
  have hhis : (s.step i).1.history = s.history := DnsHistory.after_of_idle hstep.idle
  have hnone : contributed (s.daemon.step i).2.log = [] := contributed_of_idle hstep.idle
  constructor
  · intro h
    refine ⟨fun l hl => ?_, fun id' hid e he hne => ?_⟩
    · rw [hnone] at hl
      cases hl
    · obtain rfl : id = id' := Option.some.inj (htd.symm.trans hid)
      obtain rfl : entry = e := Option.some.inj (hent.symm.trans he)
      rw [← hhis] at hne ⊢
      obtain ⟨name, a, ha, heq⟩ := h.held hne
      obtain ⟨hn, ha⟩ := lookup_of_lookup_step hstep ha
      exact ⟨⟨name, a⟩, Table.mem_entries_iff.mpr ha, hn, heq⟩
  · rintro ⟨-, hdown⟩
    refine ⟨fun name a ha => ?_, fun hne => ?_⟩
    · rw [hhis]
      exact hs.begins name a (lookup_of_lookup_step hstep ha).2
    · rw [hhis] at hne ⊢
      obtain ⟨e, he, hn, heq⟩ := hdown id htd entry hent hne
      exact ⟨e.1, e.2, (lookup_step_deactivation hstep e.1).trans
        ((if_neg hn).trans (Table.mem_entries_iff.mp he)), heq⟩

end Deactivation

theorem switch_spec {s : Tracked} {i : Input} (hi : s.Switches i) (hs : s.Carried) :
    (s.step i).1.Carried ∧ (s.Shares → ((s.step i).1.Shares ↔ s.KeepsServers i)) := by
  obtain ⟨hsw, hok, hwritten⟩ := hi
  obtain ⟨stage, w⟩ := i
  cases stage with
  | autoconnectAll => cases hsw
  | command c =>
    cases c with
    | request req identity =>
      obtain ⟨hres, hst, hlog⟩ := step_request hok
      cases req with
      | activateConnection id =>
        obtain ⟨device, hon⟩ := activatesOn_activateProfile hres
        have hstep := hst ▸ hlog ▸ hon
        exact ⟨carried_step_activation hstep hs, fun h =>
          shares_step_activation hstep hwritten hs h rfl⟩
      | deactivateConnection id =>
        obtain ⟨entry, hent, hon⟩ := deactivatesOn_deactivateProfile hres
        have hstep := hst ▸ hlog ▸ hon
        exact ⟨carried_step_deactivation hstep hs, fun h =>
          shares_step_deactivation hstep h rfl hent⟩
      | _ => cases hsw
    | _ => cases hsw

/-! ## Whole runs -/

/-- **Name servers of several connections.** A sequence of successful activations and deactivations
starts from a daemon without active connections and a resolv.conf without name servers. At the start
and after each of them resolv.conf lists what `merged` makes of the active connections, whatever the
priorities and the order of the map, and no server is missing that an active connection came by, if
and only if each of them meets the condition. -/
theorem listed_eq_merged_iff (d : Daemon) (hidle : d.manager.active = ∅) (stages : List Input)
    (hswitches : Machine.AllSteps step Switches ⟨d, .start⟩ stages) :
    (∀ n, (∀ priority order, (((Machine.finalState step ⟨d, .start⟩ (stages.take n)).registry
          priority).merged order).1 =
        (Machine.finalState step ⟨d, .start⟩ (stages.take n)).history.listed) ∧
      ∀ e ∈ (Machine.finalState Daemon.step d (stages.take n)).manager.active.entries,
        (Machine.finalState step ⟨d, .start⟩ (stages.take n)).history.served e.1 ⊆
          (Machine.finalState step ⟨d, .start⟩ (stages.take n)).history.listed) ↔
      Machine.AllSteps step KeepsServers ⟨d, .start⟩ stages := by
  have hnone : ∀ name a, d.manager.active.lookup name ≠ some a := by
    intro name a
    rw [hidle]
    exact nofun
  have hexact := forall_take_iff_allSteps (I := Carried) (P := Shares)
    (fun s i hs hi => (switch_spec hi hs).1) (fun s i hs hi => (switch_spec hi hs).2)
    (fun name a h => absurd h (hnone name a))
    ⟨fun name a h => absurd h (hnone name a), fun h => absurd rfl h⟩ hswitches
  rw [← hexact]
  refine forall_congr' fun n => ?_
  rw [← listsMerged_iff]
  refine ⟨fun h => h.1, fun h => ⟨h, fun e he => ?_⟩⟩
  rw [← daemon_finalState ⟨d, .start⟩] at he
  rw [← h (fun _ => 0) .stored]
  exact served_subset_merged he _ _

def twoLinks : List Interface := [wired 2 "eth0", wired 3 "eth1"]

/-- The daemon of that machine after two profiles were added, each with one name server. -/
def withProfiles (office lab : String) : Option Daemon :=
  let r := wiredRun ["lo"] twoLinks
    [.addConnection (resolvedProfile "office" office), .addConnection (resolvedProfile "lab" lab)]
  r.initial.map fun d => finalState Daemon.step d r.stages

/-- Both profiles are activated, and the second one is deactivated. -/
def labVisit : List Input :=
  [.activateConnection "office", .activateConnection "lab", .deactivateConnection "lab"].map
    fun req => (.command (.request req ⟨0, 0, 1⟩), fun _ => calm twoLinks (.ok ()))

/-- Two connections that share their name server. -/
theorem listed_eq_merged_shared :
    ∃ d, withProfiles "8.8.8.8" "8.8.8.8" = some d ∧
      ∀ n ≤ 3, ∀ priority order,
        (((Machine.finalState step ⟨d, .start⟩ (labVisit.take n)).registry priority).merged
          order).1 =
        (Machine.finalState step ⟨d, .start⟩ (labVisit.take n)).history.listed := by
  have hinit := (Option.some_get
    (show (withProfiles "8.8.8.8" "8.8.8.8").isSome by decide +kernel)).symm
  exact ⟨_, hinit, fun n _ => ((listed_eq_merged_iff _ (AList.ext (by decide +kernel)) labVisit
    (by decide +kernel)).mpr (by decide +kernel) n).1⟩

/-- Two connections with name servers of their own. The second activation removes the server of the
first connection, and the deactivation does not bring it back. -/
theorem listed_ne_merged :
    ((withProfiles "8.8.8.8" "9.9.9.9").map fun d => [1, 2, 3].map fun n =>
      let s := Machine.finalState step ⟨d, .start⟩ (labVisit.take n)
      (s.history.listed, s.daemon.manager.active.entries.map fun e =>
        (e.1, s.history.served e.1))) =
      some
        [([.v4 (.new 8 8 8 8)], [("eth1", [.v4 (.new 8 8 8 8)])]),
         ([.v4 (.new 9 9 9 9)], [("eth0", [.v4 (.new 9 9 9 9)]), ("eth1", [.v4 (.new 8 8 8 8)])]),
         ([.v4 (.new 9 9 9 9)], [("eth1", [.v4 (.new 8 8 8 8)])])] ∧
    ¬∀ (d : Daemon) (stages : List Input), d.manager.config.dns.mode = .auto →
      d.manager.active = ∅ → Machine.AllSteps step Switches ⟨d, .start⟩ stages →
      ∀ n, ∃ priority order,
        (((Machine.finalState step ⟨d, .start⟩ (stages.take n)).registry priority).merged order).1 =
          (Machine.finalState step ⟨d, .start⟩ (stages.take n)).history.listed := by
  refine ⟨by decide +kernel, fun h => ?_⟩
  have hrun : ((withProfiles "8.8.8.8" "9.9.9.9").map fun d =>
      decide (d.manager.config.dns.mode = .auto ∧ d.manager.active.entries = [] ∧
        Machine.AllSteps step Switches ⟨d, .start⟩ labVisit ∧
        let s := finalState step ⟨d, .start⟩ (labVisit.take 3)
        (∃ e ∈ s.daemon.manager.active.entries, .v4 (.new 8 8 8 8) ∈ s.history.served e.1) ∧
          .v4 (.new 8 8 8 8) ∉ s.history.listed)) = some true := by
    decide +kernel
  obtain ⟨d, -, hfacts⟩ := Option.map_eq_some_iff.mp hrun
  obtain ⟨hmode, hidle, hswitches, ⟨e, he, hserved⟩, hmissing⟩ := of_decide_eq_true hfacts
  obtain ⟨priority, order, hmerged⟩ := h d labVisit hmode (AList.ext hidle) hswitches 3
  exact hmissing (hmerged ▸ served_subset_merged he priority order hserved)

end Tracked

end MitosNetwork
