import MitosNetwork.Manager.Teardown

/-!
# Active connections and stored profiles

An entry of the active map is backed if a profile with its id is stored. Activation enters stored
profiles only, and replacing a profile keeps its id, so all that can go wrong is a removal:
`Request::ForgetWifi` takes nothing down, and `Request::DeleteConnection` takes down one entry of
the profile. `active_stored_iff` says which removals leave every entry backed.
-/

namespace MitosNetwork

def Backed (connections : List ConnectionProfile) (active : Table String ActiveConnection) : Prop :=
  ∀ e ∈ active.entries, ∃ p ∈ connections, p.id = e.2.profileId

def SoleEntry (active : Table String ActiveConnection) (profileId : String) : Prop :=
  ∀ e ∈ active.entries, ∀ e' ∈ active.entries,
    e.2.profileId = profileId → e'.2.profileId = profileId → e.1 = e'.1

section Backed

variable {connections : List ConnectionProfile} {active : Table String ActiveConnection}

theorem backed_iff : Backed connections active ↔
    ∀ n id, listed active n = some id → ∃ p ∈ connections, p.id = id := by
  constructor
  · intro h n id hls
    obtain ⟨e, he, -, rfl⟩ := listed_eq_some_iff.mp hls
    exact h e he
  · intro h e he
    exact h e.1 _ (listed_eq_some_iff.mpr ⟨e, he, rfl, rfl⟩)

theorem soleEntry_iff {id : String} : SoleEntry active id ↔
    ∀ n n', listed active n = some id → listed active n' = some id → n = n' := by
  constructor
  · intro h n n' hn hn'
    obtain ⟨e, he, rfl, hid⟩ := listed_eq_some_iff.mp hn
    obtain ⟨e', he', rfl, hid'⟩ := listed_eq_some_iff.mp hn'
    exact h e he e' he' hid hid'
  · intro h e he e' he' hid hid'
    exact h e.1 e'.1 (listed_eq_some_iff.mpr ⟨e, he, rfl, hid⟩)
      (listed_eq_some_iff.mpr ⟨e', he', rfl, hid'⟩)

section

variable (h : Backed connections active)
include h

theorem Backed.insert {a : ActiveConnection}
    (ha : ∃ p ∈ connections, p.id = a.profileId) (name : String) :
    Backed connections (active.insert name a) := by
  rw [backed_iff] at h ⊢
  intro n id hn
  rw [listed_insert] at hn
  split at hn
  · exact Option.some.inj hn ▸ ha
  · exact h n id hn

theorem Backed.erase (name : String) : Backed connections (active.erase name) := by
  rw [backed_iff] at h ⊢
  intro n id hn
  rw [listed_erase] at hn
  split at hn
  · cases hn
  · exact h n id hn

theorem Backed.put (profile : ConnectionProfile) :
    Backed (connections.filter (fun p => p.id ≠ profile.id) ++ [profile]) active := by
  intro e he
  obtain ⟨p, hp, hid⟩ := h e he
  by_cases hsame : p.id = profile.id
  · exact ⟨profile, List.mem_append_right _ List.mem_cons_self, hsame.symm.trans hid⟩
  · exact ⟨p, List.mem_append_left _ (List.mem_filter.mpr ⟨hp, decide_eq_true hsame⟩), hid⟩

theorem Backed.remove_iff (id : String) :
    Backed (connections.filter fun p => p.id ≠ id) active ↔
      ∀ e ∈ active.entries, e.2.profileId ≠ id := by
  refine forall₂_congr fun e he => ⟨?_, fun hne => ?_⟩
  · rintro ⟨p, hp, hid⟩ rfl
    exact of_decide_eq_true (List.mem_filter.mp hp).2 hid
  · obtain ⟨p, hp, hid⟩ := h e he
    exact ⟨p, List.mem_filter.mpr ⟨hp, decide_eq_true (hid ▸ hne)⟩, hid⟩

end

end Backed

namespace NetworkManager

variable {w : World Call.Answer} {k : ℕ} {m : NetworkManager}

/-! ## Everything that removes no profile -/

abbrev backed : Property := fun _ connections _ active _ => Backed connections active

abbrev backedRule : Conduct := ruleOf backed anyLog

theorem permissive_backedRule : Permissive backedRule where
  toLenient := lenient_ruleOf fun _ _ _ _ _ _ _ h => h
  put profile _ _ hm := ⟨hm.put profile, anyLog.nil⟩
  config _ _ hm := ⟨hm, anyLog.nil⟩
  connectivity _ _ hm := ⟨hm, anyLog.nil⟩
  register _ hm := ⟨hm, anyLog.nil⟩
  unregister _ _ hm := ⟨hm, anyLog.nil⟩

theorem obeys_activateProfile_backed (profileId actor : String) :
    Obeys w backedRule (activateProfile profileId actor) := by
  refine obeys_activateProfile permissive_backedRule.toLenient
    fun k m profile device hstored _ _ => ?_
  refine obeysAt_activateDevice permissive_backedRule.toLenient rfl
    (fun a hok hm => ⟨hm.insert ⟨profile, List.mem_of_find?_eq_some hstored, ?_⟩ device.name,
      fun _ _ => trivial⟩)
    (allowsAudit_ruleOf _ _ _) fun _ _ hm => ⟨hm, fun _ _ => trivial⟩
  exact (Activation.activate_ok rfl hok).1.symm

theorem obeys_deactivateProfile_backed (profileId actor : String) :
    Obeys w backedRule (deactivateProfile profileId actor) :=
  fun _ _ => obeysAt_deactivateProfile permissive_backedRule.toLenient fun entry _ _ =>
    obeysAt_deactivateEntry permissive_backedRule.toLenient
      (fun _ hm => ⟨hm.erase entry.1, fun _ _ => trivial⟩)
      (fun _ _ _ _ hm => ⟨hm.erase entry.1, fun _ _ => trivial⟩) (allowsAudit_ruleOf _ _ _)

theorem backed_program (hm : Backed m.connections m.active) {stage : Daemon.Stage}
    (hkp : ∀ req identity, stage = .command (.request req identity) → profileToRemove req = none) :
    Backed (stage.program w 0 m).state.connections (stage.program w 0 m).state.active := by
  have hR := permissive_backedRule
  refine (obeysAt_program_of_plain hR allowsAudit_ruleOf obeys_activateProfile_backed
    ⟨fun _ => ?_, fun name _ hm => ?_⟩
    (fun id actor _ => obeys_deactivateProfile_backed id actor 0 m)
    (fun req identity id hstg hid => ?_) allowsPlain_ruleOf hm).1
  · exact obeysAt_refresh hR.toLenient fun _ _ hm => ⟨hm, anyLog.nil⟩
  · exact ⟨hm.erase name, anyLog.nil⟩
  · cases (hkp req identity hstg).symm.trans hid

/-! ## The two removals -/

theorem state_forgetWifi (actor device ssid : String) :
    (forgetWifi actor device ssid w k m).state =
      { m with connections := m.connections.filter fun p => p.id ≠ "wifi-" ++ ssid } := by
  let deleted : NetworkManager :=
    ((Profiles.delete ("wifi-" ++ ssid) : M (Result Unit)) w (k + 2) m).state
  have hdel : deleted = m := obeys_delete (R := .still) (fun _ _ _ => rfl) _ (k + 2) m
  show { deleted with
    connections := deleted.connections.filter fun p => p.id ≠ "wifi-" ++ ssid } = _
  rw [hdel]

/-- The file of a profile is removed when that is asked for with the `k`-th call. -/
def Removed (w : World Call.Answer) (k : ℕ) (id : String) : Prop :=
  Validation.validateIdentifier id = .ok () ∧ w k (.removeProfile id) = RemoveOutcome.removed

theorem state_deleted (actor id : String) :
    (Removed w k id →
      ((Profiles.delete id >>= connectionDeleted actor id : M Response) w k m).state =
        { m with connections := m.connections.filter fun p => p.id ≠ id }) ∧
    (¬Removed w k id →
      ((Profiles.delete id >>= connectionDeleted actor id : M Response) w k m).state = m) := by
  cases hvalid : Validation.validateIdentifier id with
  | error e =>
    have hdel : (Profiles.delete id : M (Result Unit)) w k m = ⟨.error e, m, []⟩ := by
      rw [Profiles.delete, hvalid]
      rfl
    rw [Proc.bind_apply hdel]
    exact ⟨fun h => (nomatch hvalid.symm.trans h.1), fun _ => rfl⟩
  | ok u =>
    have hdel : (Profiles.delete id : M (Result Unit)) w k m =
        ⟨Profiles.deleted id (w k (.removeProfile id)), m,
          [.call (.removeProfile id) (w k (.removeProfile id))]⟩ := by
      rw [Profiles.delete, hvalid]
      rfl
    rw [Proc.bind_apply hdel]
    refine ⟨fun h => ?_, fun h => ?_⟩
    · rw [h.2]
      rfl
    · cases hout : (w k (.removeProfile id) : RemoveOutcome) with
      | removed => exact absurd ⟨hvalid, hout⟩ h
      | missing => rfl
      | failed message => rfl

theorem connections_deactivateIfActive (actor id : String) :
    (deactivateIfActive actor id w k m).state.connections = m.connections := by
  let J : Property := fun _ connections _ _ _ => connections = m.connections
  refine (obeysAt_deactivateIfActive (R := ruleOf J anyLog) ?_ rfl).1
  exact lawful_deactivateProfile (fun _ _ _ _ _ _ _ h => h) (fun _ _ _ _ _ _ _ h => h) id actor k m

theorem listed_deactivateIfActive (actor id : String) :
    ∃ name, (∀ n, listed m.active n = some id → listed m.active name = some id) ∧
      ∀ n, listed (deactivateIfActive actor id w k m).state.active n =
        if n = name ∧ listed m.active n = some id then none else listed m.active n := by
  rw [deactivateIfActive, Proc.get_bind]
  split
  · rename_i hact
    obtain ⟨entry, hent⟩ := entryToTakeDown_of_any (w := w) (k := k) hact
    have hname := listed_entryToTakeDown hent
    refine ⟨entry.1, fun _ _ => hname, fun n => ?_⟩
    have htk := (takesDown_deactivateProfile actor hent).1
    show listed (deactivateProfile id actor w k m).state.active n = _
    rw [htk.listed]
    by_cases hn : n = entry.1
    · rw [if_pos hn, if_pos ⟨hn, hn ▸ hname⟩]
    · rw [if_neg hn, if_neg fun h => hn h.1]
  · rename_i hact
    have hnone := not_listed_of_not_any hact
    exact ⟨"", fun n hn => absurd hn (hnone n), fun n => (if_neg fun h => hnone n h.2).symm⟩

theorem backed_deleteConnection_iff (hm : Backed m.connections m.active) (actor id : String) :
    Backed (deleteConnection actor id w k m).state.connections
        (deleteConnection actor id w k m).state.active ↔
      (Removed w (k + (deactivateIfActive actor id w k m).log.length) id →
        SoleEntry m.active id) := by
  obtain ⟨name, hname, hls⟩ := listed_deactivateIfActive (w := w) (k := k) (m := m) actor id
  have hcs := connections_deactivateIfActive (w := w) (k := k) (m := m) actor id
  rw [deleteConnection, Proc.state_bind]
  generalize (deactivateIfActive actor id w k m).log.length = calls
  generalize (deactivateIfActive actor id w k m).state = m₁ at hls hcs ⊢
  have hm₁ : Backed m₁.connections m₁.active := by
    rw [hcs, backed_iff]
    intro n p hn
    rw [hls] at hn
    split at hn
    · cases hn
    · exact backed_iff.mp hm n p hn
  obtain ⟨hremoved, hkept⟩ := state_deleted (w := w) (k := k + calls) (m := m₁) actor id
  by_cases h : Removed w (k + calls) id
  · rw [hremoved h, hm₁.remove_iff, forall_prop_of_true h, soleEntry_iff]
    constructor
    · intro hgone n n' hn hn'
      have honly : ∀ n, listed m.active n = some id → n = name := by
        intro n hn
        by_contra hne
        have hsti : listed m₁.active n = some id := by
          rw [hls, if_neg fun h => hne h.1, hn]
        obtain ⟨e, he, -, hid⟩ := listed_eq_some_iff.mp hsti
        exact hgone e he hid
      exact (honly n hn).trans (honly n' hn').symm
    · intro hsole e he hid
      have hsti : listed m₁.active e.1 = some id := listed_eq_some_iff.mpr ⟨e, he, rfl, hid⟩
      rw [hls] at hsti
      split at hsti
      · cases hsti
      · rename_i hne
        exact hne ⟨hsole e.1 name hsti (hname e.1 hsti), hsti⟩
  · rw [hkept h]
    exact iff_of_true hm₁ fun hr => absurd hr h

end NetworkManager

/-! ## Runs -/

namespace Daemon

open NetworkManager

/-- What a step needs for every entry to stay backed: a network that is forgotten is not active, and
a profile that is deleted with its file is active at most once. -/
def KeepsStored (d : Daemon) (i : Input) : Prop :=
  d.running = true →
    match i.1 with
    | .command (.request (.forgetWifi _ ssid) _) =>
      ∀ e ∈ d.manager.active.entries, e.2.profileId ≠ "wifi-" ++ ssid
    | .command (.request (.deleteConnection id) identity) =>
      Removed i.2 (deactivateIfActive (actorOf identity) id i.2 0 d.manager).log.length id →
        SoleEntry d.manager.active id
    | _ => True

theorem backed_step_iff (d : Daemon) (i : Input)
    (hd : Backed d.manager.connections d.manager.active) :
    Backed (d.step i).1.manager.connections (d.step i).1.manager.active ↔ KeepsStored d i := by
  unfold step KeepsStored
  split
  · rename_i hrun
    rw [forall_prop_of_true hrun]
    obtain ⟨stage, w⟩ := i
    show Backed (stage.program w 0 d.manager).state.connections
      (stage.program w 0 d.manager).state.active ↔ _
    split
    · rename_i device ssid identity hstg
      cases hstg
      show Backed (forgetWifi (actorOf identity) device ssid w 0 d.manager).state.connections
        (forgetWifi (actorOf identity) device ssid w 0 d.manager).state.active ↔ _
      rw [state_forgetWifi]
      exact hd.remove_iff _
    · rename_i id identity hstg
      cases hstg
      have hdel := backed_deleteConnection_iff (w := w) (k := 0) hd (actorOf identity) id
      rw [Nat.zero_add] at hdel
      exact hdel
    · rename_i hfgt hdel
      refine iff_of_true (backed_program hd fun req identity hstg => ?_) trivial
      unfold profileToRemove
      split
      · exact absurd hstg (hdel _ _)
      · exact absurd hstg (hfgt _ _ _)
      · rfl
  · rename_i hrun
    exact iff_of_true hd fun h => absurd h hrun

/-- **No active connection outlives its profile** in a run if and only if every step of it meets the
condition. -/
theorem active_stored_iff (r : Run) (d : Daemon) (hinit : r.initial = some d) :
    (∀ n, Backed (Machine.finalState step d (r.stages.take n)).manager.connections
      (Machine.finalState step d (r.stages.take n)).manager.active) ↔
    Machine.AllSteps step KeepsStored d r.stages := by
  refine Machine.forall_take_iff_allSteps (I := fun _ => True) (D := fun _ _ => True)
    (P := fun d => Backed d.manager.connections d.manager.active) (fun _ _ _ _ => trivial)
    (fun d i _ _ hd => backed_step_iff d i hd) trivial ?_
    (Machine.allSteps_iff_forall_split.mpr fun _ _ _ _ => trivial)
  rw [active_initial hinit]
  exact fun _ h => nomatch h

def deletedRun (links : List Interface) : Run :=
  wiredRun ["lo"] links (.addConnection (wiredProfile "office" false) ::
    (links.map fun _ => .activateConnection "office") ++ [.deleteConnection "office"])

theorem active_stored_deletedRun :
    ∃ d, (deletedRun [wired 2 "eth0"]).initial = some d ∧
      ∀ n, Backed (Machine.finalState step d
          ((deletedRun [wired 2 "eth0"]).stages.take n)).manager.connections
        (Machine.finalState step d
          ((deletedRun [wired 2 "eth0"]).stages.take n)).manager.active := by
  obtain ⟨d, hd, hsole⟩ : ∃ d ∈ (deletedRun [wired 2 "eth0"]).initial,
      ∀ e ∈ (Machine.finalState step d
      ((deletedRun [wired 2 "eth0"]).stages.take 3)).manager.active.entries, e.1 = "eth0" := by
    decide +kernel
  refine ⟨d, hd, (active_stored_iff _ d hd).mpr ⟨fun _ => trivial, fun _ => trivial,
    fun _ => trivial, fun _ _ e he e' he' _ _ => ?_, trivial⟩⟩
  exact (hsole e he).trans (hsole e' he').symm

/-- A profile with the id of a network is added and activated, and the network is forgotten. -/
def forgottenRun : Run :=
  wiredRun ["lo"] [wired 2 "eth0"] [.addConnection (wiredProfile "wifi-home" false),
    .activateConnection "wifi-home", .forgetWifi "eth0" "home"]

/-- The ids in the active map and in the list of profiles, at the end of a run. -/
def idsAfter (r : Run) : Option (List String × List String) :=
  (managerAfter r).map fun m => (m.active.values.map (·.profileId), m.connections.map (·.id))

/-- The connection that is forgotten stays up without a profile, and so does the second one of a
profile that is deleted. -/
theorem active_outlives_profile :
    idsAfter forgottenRun = some (["wifi-home"], []) ∧
    idsAfter (deletedRun Tracked.twoLinks) = some (["office"], []) ∧
    ¬∀ m, Reachable m → Backed m.connections m.active := by
  refine ⟨by decide +kernel, by decide +kernel, fun h => ?_⟩
  obtain ⟨m, hm, hempty, e, he, -⟩ : ∃ m ∈ managerAfter forgottenRun,
      m.connections.length = 0 ∧
      ∃ e ∈ m.active.entries, e.2.profileId = "wifi-home" := by decide +kernel
  obtain ⟨p, hp, -⟩ := h m (reachable_managerAfter hm) e he
  rw [List.length_eq_zero_iff.mp hempty] at hp
  cases hp

end Daemon

end MitosNetwork
