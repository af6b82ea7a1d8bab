import MitosNetwork.Common.Observer
import MitosNetwork.Manager.Activations
import MitosNetwork.Persistence.Profiles

/-!
# Profiles in memory and on disk

The manager keeps the profiles twice, in its list of connections and in the files of the profiles
directory, and its handlers change the two one after the other. `files` follows the directory
through the log of a run. Every request about a connection keeps list and directory equal, whether
it succeeds or fails half-way (`tracks_program`), and so does a run (`profiles_agree`).
-/

namespace MitosNetwork

def Call.onProfiles : Call → Bool
  | writeProfile _ | removeProfile _ | touchProfile _ => true
  | _ => false

theorem Call.onProfiles_of_ofActivation {c : Call} (h : c.ofActivation = true) :
    c.onProfiles = false := by
  cases c <;> first | rfl | cases h

def afterEntry (toml : Toml) (dir : Directory) : Entry Call.Answer ActivateCall → Directory
  | .call (.writeProfile p) _ => (Profiles.writeAtomic toml dir p).2
  | .call (.removeProfile id) _ => (Profiles.remove dir id).2
  | .call (.touchProfile id) _ => Profiles.rewrite dir id
  | _ => dir

def isAnswer {β : Type} [DecidableEq β] (expected answer : β) : Bool := expected = answer

theorem eq_of_isAnswer {β : Type} [DecidableEq β] {expected answer : β}
    (h : isAnswer expected answer = true) : expected = answer := of_decide_eq_true h

def answersFor (toml : Toml) (dir : Directory) : Entry Call.Answer ActivateCall → Bool
  | .call (.writeProfile p) answer => isAnswer (Profiles.writeAtomic toml dir p).1 answer
  | .call (.removeProfile id) answer => isAnswer (Profiles.remove dir id).1 answer
  | _ => true

/-- The profiles directory, where file operations succeed unless the file does not exist. -/
def files (toml : Toml) : Observer Call.Answer ActivateCall Directory where
  see := afterEntry toml
  Admits dir e := answersFor toml dir e = true

instance (toml : Toml) (dir : Directory) (e : Entry Call.Answer ActivateCall) :
    Decidable ((files toml).Admits dir e) :=
  inferInstanceAs (Decidable (answersFor toml dir e = true))

theorem files_ignores {toml : Toml} {c : Call} (hc : c.onProfiles = false) (a : c.Answer) :
    (files toml).Ignores (.call c a) := by
  cases c <;> first | exact fun _ => rfl | cases hc

/-! ## The programs of the manager -/

namespace NetworkManager

def OnConnections (R : Directory → List ConnectionProfile → Prop) (dir : Directory)
    (m : NetworkManager) : Prop := R dir m.connections

variable {toml : Toml} {R : Directory → List ConnectionProfile → Prop} {α : Type}

abbrev Leaves (toml : Toml) (R : Directory → List ConnectionProfile → Prop) (prog : M α) : Prop :=
  Proc.Tracks (files toml) (OnConnections R) prog fun _ => OnConnections R

theorem leaves_pure (a : α) : Leaves toml R (pure a : M α) := Proc.Tracks.pure fun _ _ hs => hs

theorem leaves_get : Leaves toml R (Proc.get : M NetworkManager) := Proc.Tracks.get fun _ _ hs => hs

theorem leaves_modify {f : NetworkManager → NetworkManager}
    (hf : ∀ m, (f m).connections = m.connections) : Leaves toml R (Proc.modify f) := by
  refine .modify fun dir m hs => ?_
  show R dir (f m).connections
  rw [hf]
  exact hs

theorem leaves_note (a : ActivateCall) : Leaves toml R (Proc.note a) :=
  .note fun _ _ hs => hs

theorem leaves_call {c : Call} (hc : c.onProfiles = false) : Leaves toml R (call c) := by
  refine .call fun dir m a hs _ => ?_
  rw [files_ignores hc a]
  exact hs

theorem leaves_broadcast (event : Event) : Leaves toml R (broadcast event) :=
  (leaves_call rfl).bind fun _ => leaves_modify fun _ => rfl

theorem leaves_broadcastState : Leaves toml R broadcastState :=
  leaves_get.bind fun _ => leaves_broadcast _

theorem leaves_onDevice (device : NetworkDevice) {prog : TryProg Work α}
    (hprog : prog.Makes fun c => c.ofActivation = true) : Leaves toml R (onDevice device prog) :=
  .zoom hprog (fun _ hc => files_ignores (Call.onProfiles_of_ofActivation hc))
    fun _ _ _ hs => hs

theorem leaves_deviceNames (test : NetworkDevice → Bool) : Leaves toml R (deviceNames test) :=
  leaves_get.bind fun _ => (leaves_call rfl).bind fun _ => leaves_pure _

theorem leaves_visibleSsids (device : NetworkDevice) : Leaves toml R (visibleSsids device) := by
  unfold visibleSsids
  split
  · exact leaves_get.bind fun _ => (leaves_call rfl).bind fun _ => leaves_pure _
  · exact leaves_pure []

theorem leaves_deactivated (profileId actor deviceName : String) (result : Result Unit) :
    Leaves toml R (deactivated profileId actor deviceName result) := by
  cases result with
  | error e => exact leaves_pure _
  | ok u =>
    exact (leaves_call rfl).bind fun _ => (leaves_broadcast _).bind fun _ =>
      leaves_broadcastState.bind fun _ => leaves_pure _

theorem leaves_deactivateProfile (profileId actor : String) :
    Leaves toml R (deactivateProfile profileId actor) := by
  refine leaves_get.bind fun m => (leaves_call rfl).bind fun order => ?_
  cases (Order.arrange order m.active.entries).find? fun e => e.2.profileId = profileId with
  | none => exact leaves_pure _
  | some entry =>
    refine .bind (leaves_modify fun _ => rfl) fun _ => leaves_get.bind fun m => ?_
    cases m.devices.get entry.1 with
    | none => exact leaves_pure _
    | some device =>
      have hcs := Activation.quiet_deactivate.mono fun _ => Call.ofActivation_of_isLink
      exact (leaves_onDevice device hcs).bind fun _ => leaves_deactivated _ _ _ _

/-! ### Activation -/

section Activates

variable (hR : ∀ dir profiles id, R dir profiles → R (Profiles.rewrite dir id) profiles)
include hR

theorem leaves_touch (id : String) : Leaves toml R (Profiles.touch id) := by
  unfold Profiles.touch
  split
  · exact leaves_pure ()
  · exact .call fun dir m _ hs _ => hR dir m.connections id hs

theorem leaves_activationDone (profileId actor deviceName : String)
    (result : Result ActiveConnection) :
    Leaves toml R (activationDone profileId actor deviceName result) := by
  cases result with
  | ok active =>
    refine .bind (leaves_modify fun _ => rfl) fun _ => ?_
    exact (leaves_touch hR _).bind fun _ => (leaves_call rfl).bind fun _ => leaves_get.bind fun _ =>
      (leaves_broadcast _).bind fun _ => (leaves_broadcast _).bind fun _ =>
      leaves_broadcastState.bind fun _ => leaves_pure _
  | error e =>
    refine .bind (leaves_modify fun m => ?_) fun _ => leaves_pure _
    split <;> rfl

theorem leaves_activateProfile (profileId actor : String) :
    Leaves toml R (activateProfile profileId actor) := by
  refine leaves_get.bind fun m => ?_
  cases m.stored profileId with
  | none => exact leaves_pure _
  | some profile =>
    refine .bind (leaves_get.bind fun _ => (leaves_call rfl).bind fun _ =>
      leaves_pure _) fun found => ?_
    cases found with
    | none => exact leaves_pure _
    | some deviceName =>
      refine leaves_get.bind fun m => ?_
      cases m.devices.get deviceName with
      | none => exact leaves_pure _
      | some device =>
        have hcs := (Activation.settles_activate profile).calls
        exact (leaves_note _).bind fun _ => (leaves_onDevice device hcs).bind fun _ =>
          leaves_activationDone hR _ _ _ _

theorem leaves_tryAutoconnectAll : Leaves toml R tryAutoconnectAll := by
  refine (leaves_deviceNames _).bind fun names => .forM (fun name => ?_) names
  refine leaves_get.bind fun m => ?_
  cases m.devices.get name with
  | none => exact leaves_pure ()
  | some device =>
    dsimp only
    split
    · refine (leaves_call rfl).bind fun times => (leaves_visibleSsids _).bind fun visible => ?_
      unfold activateChosen
      split
      · exact leaves_pure ()
      · exact (leaves_activateProfile hR _ _).bind fun _ => leaves_pure ()
    · exact leaves_pure ()

end Activates

/-! ### Handlers -/

abbrev Agreeing (toml : Toml) : Directory → NetworkManager → Prop :=
  OnConnections (Profiles.Keeps toml)

/-- After `save`: the directory holds what the list is about to be, or nothing has changed. -/
def AfterSave (toml : Toml) (profile : ConnectionProfile) :
    Result Unit → Directory → List ConnectionProfile → Prop
  | .ok (), dir, profiles => Profiles.Keeps toml dir (Profiles.put profiles profile)
  | .error _, dir, profiles => Profiles.Keeps toml dir profiles

/-- After `delete`: the same, and if it fails there was nothing to remove. -/
def AfterDelete (toml : Toml) (id : String) :
    Result Unit → Directory → List ConnectionProfile → Prop
  | .ok (), dir, profiles => Profiles.Keeps toml dir (Profiles.without profiles id)
  | .error _, dir, profiles =>
    Profiles.Keeps toml dir profiles ∧ Profiles.without profiles id = profiles

theorem AfterDelete.keeps {id : String} {deleted : Result Unit} {dir : Directory}
    {profiles : List ConnectionProfile} (h : AfterDelete toml id deleted dir profiles) :
    Profiles.Keeps toml dir (Profiles.without profiles id) := by
  cases deleted with
  | ok u => exact h
  | error e => rw [h.2]; exact h.1

theorem tracks_save (profile : ConnectionProfile) :
    Proc.Tracks (files toml) (Agreeing toml) (Profiles.save profile : M (Result Unit))
      fun saved => OnConnections (AfterSave toml profile saved) := by
  unfold Profiles.save
  cases hvalid : Validation.validateIdentifier profile.id with
  | error e => exact .pure fun _ _ hs => hs
  | ok u =>
    refine .call fun dir m saved hs hadm => ?_
    have hsav : (Profiles.writeAtomic toml dir profile).1 = (saved : Result Unit) :=
      eq_of_isAnswer hadm
    show AfterSave toml profile saved (Profiles.writeAtomic toml dir profile).2 m.connections
    rcases hs.writeAtomic hvalid with ⟨e, hwrite⟩ | ⟨dir', hwrite, hput⟩
    · rw [← hsav, hwrite]
      exact hs
    · rw [← hsav, hwrite]
      exact hput

theorem tracks_delete (id : String) :
    Proc.Tracks (files toml) (Agreeing toml) (Profiles.delete id : M (Result Unit))
      fun deleted => OnConnections (AfterDelete toml id deleted) := by
  unfold Profiles.delete
  cases hvalid : Validation.validateIdentifier id with
  | error e =>
    refine .pure fun dir m hs => ⟨hs, hs.without_of_missing (.inr ?_)⟩
    rw [hvalid]
    nofun
  | ok u =>
    refine .bind (.call fun dir m outcome hs hadm => ?_) fun outcome =>
      .pure fun _ _ hs => hs
    have hout : (Profiles.remove dir id).1 = (outcome : RemoveOutcome) := eq_of_isAnswer hadm
    show AfterDelete toml id (Profiles.deleted id outcome) (Profiles.remove dir id).2 m.connections
    rw [← hout, Profiles.remove]
    cases hfile : dir.lookup (Profiles.fileName id) with
    | none => exact ⟨hs, hs.without_of_missing (.inl hfile)⟩
    | some text => exact hs.erase id

theorem leaves_deactivateIfActive (actor id : String) :
    Leaves toml R (deactivateIfActive actor id) := by
  refine leaves_get.bind fun m => ?_
  split
  · exact (leaves_deactivateProfile _ _).bind fun _ => leaves_pure ()
  · exact leaves_pure ()

theorem agreeing_deleteConnection (actor id : String) :
    Leaves toml (Profiles.Keeps toml) (deleteConnection actor id) := by
  refine (leaves_deactivateIfActive actor id).bind fun _ =>
    (tracks_delete id).bind fun deleted => ?_
  cases deleted with
  | error e => exact .pure fun _ _ hs => hs.1
  | ok u =>
    refine (leaves_call rfl).bind fun _ => .bind ?_ fun _ =>
      (leaves_call rfl).bind fun _ => leaves_pure _
    exact .modify fun _ _ hs => hs

theorem agreeing_connectWifi (actor device ssid : String) (security : SecurityType)
    (passphrase : Option String) :
    Leaves toml (Profiles.Keeps toml) (connectWifi actor device ssid security passphrase) := by
  have hpass :
      Leaves toml (Profiles.Keeps toml) (storePassphrase ("wifi-" ++ ssid) passphrase) := by
    cases passphrase with
    | none => exact leaves_pure _
    | some pass => exact leaves_call rfl
  refine hpass.bind fun stored => ?_
  cases stored with
  | error e => exact leaves_pure _
  | ok u =>
    refine (tracks_save _).bind fun saved => ?_
    cases saved with
    | error e => exact .pure fun _ _ hs => hs
    | ok u =>
      refine (leaves_call rfl).bind fun _ => .bind ?_ fun _ =>
        leaves_activateProfile (fun _ _ _ h => h.rewrite _) _ _
      exact .modify fun _ _ hs => hs

/-! ### Starting -/

theorem loaded_of_profilesLoaded {w : World Call.Answer} {k : ℕ} {m : NetworkManager}
    {loaded : Result (List ConnectionProfile)} {u : Unit}
    (hok : (profilesLoaded loaded w k m).result = .ok u) :
    loaded = .ok (profilesLoaded loaded w k m).state.connections := by
  cases loaded with
  | error e => cases hok
  | ok profiles =>
    let Loaded : Property := fun _ connections _ _ _ => connections = profiles
    have href : Lawful w Loaded (.activations fun _ => True) refresh :=
      lawful_refresh (fun _ _ _ _ _ _ _ h => h) fun _ _ _ _ _ _ _ h => h
    exact congrArg _ (lawfulAt_profilesLoaded (fun _ _ _ _ _ _ _ h => h)
      (fun _ _ _ _ _ _ => trivial) (href k { m with connections := profiles } rfl)).1.symm

end NetworkManager

/-! ## Whole runs -/

namespace Daemon

open NetworkManager

/-- The stages about profiles: the autoconnect pass at the start, and the requests that add, remove,
activate and deactivate connections. -/
def Stage.managesProfiles : Stage → Bool
  | .autoconnectAll | .command (.request (.addConnection _) _)
  | .command (.request (.deleteConnection _) _) | .command (.request (.connectWifi _ _ _ _) _)
  | .command (.request (.forgetWifi _ _) _) | .command (.request (.activateConnection _) _)
  | .command (.request (.deactivateConnection _) _) => true
  | _ => false

variable {toml : Toml}

theorem agreeing_request (req : Request) (identity : PeerIdentity)
    (h : (Stage.command (.request req identity)).managesProfiles = true) :
    Leaves toml (Profiles.Keeps toml) (handleRequest identity req) := by
  cases req with
  | addConnection profile =>
    refine (tracks_save profile).bind fun saved => ?_
    cases saved with
    | error e => exact .pure fun _ _ hs => hs
    | ok u =>
      refine (leaves_call rfl).bind fun _ => .bind ?_ fun _ => leaves_pure _
      exact .modify fun _ _ hs => hs
  | deleteConnection id => exact agreeing_deleteConnection _ id
  | connectWifi device ssid security passphrase =>
    exact agreeing_connectWifi _ device ssid security passphrase
  | forgetWifi device ssid =>
    refine (leaves_call rfl).bind fun _ => (leaves_call rfl).bind fun _ =>
      (tracks_delete _).bind fun deleted => .bind ?_ fun _ =>
      (leaves_call rfl).bind fun _ => leaves_pure _
    exact .modify fun _ _ hs => hs.keeps
  | activateConnection id => exact leaves_activateProfile (fun _ _ _ h => h.rewrite _) id _
  | deactivateConnection id => exact leaves_deactivateProfile id _
  | _ => cases h

theorem agreeing_program (stage : Stage) (h : stage.managesProfiles = true) :
    Leaves toml (Profiles.Keeps toml) stage.program := by
  cases stage with
  | autoconnectAll =>
    exact (leaves_tryAutoconnectAll fun _ _ _ h => h.rewrite _).bind fun _ => leaves_pure none
  | command c =>
    cases c with
    | request req identity =>
      exact (agreeing_request req identity h).bind fun _ => leaves_pure _
    | _ => cases h

theorem connections_of_initial {r : Run} {d : Daemon} (h : r.initial = some d) :
    r.newWorld 0 .loadProfiles = Except.ok d.manager.connections := by
  rw [Run.manager_of_initial h]
  unfold Run.initial at h
  split at h
  · rename_i hran
    exact loaded_of_profilesLoaded (congrArg Ran.result hran)
  · cases h

theorem agreeing_finalState {dir : Directory} {d : Daemon} {stages : List Input}
    (hstgs : ∀ i ∈ stages, i.1.managesProfiles = true)
    (hfs : (files toml).Follows dir (logOf d stages))
    (hd : Profiles.Keeps toml dir d.manager.connections) :
    Profiles.Keeps toml ((files toml).after dir (logOf d stages))
      (Machine.finalState step d stages).manager.connections := by
  induction stages generalizing dir d with
  | nil => exact hd
  | cons i stages ih =>
    rw [logOf_cons, Observer.follows_append] at hfs
    rw [logOf_cons, Observer.after_append]
    refine ih (fun j hj => hstgs j (List.mem_cons_of_mem _ hj)) hfs.2 ?_
    have hprog : Leaves toml (Profiles.Keeps toml) i.1.program :=
      agreeing_program i.1 (hstgs i List.mem_cons_self)
    revert hfs
    unfold step
    split
    · exact fun hfs => hprog i.2 0 d.manager dir hd hfs.1
    · exact fun _ => hd

/-- **Profiles in memory and on disk agree.** The manager starts from a directory that `save` wrote
and then handles any requests about connections, with file operations that succeed unless the file
does not exist. After `new`, after the autoconnect pass and after each request its list has one
profile for each id and is, up to order, what `load_all` would return. -/
theorem profiles_agree (toml : Toml) (dir : Directory) (order : Order String) (r : Run) (d : Daemon)
    (hdir : Profiles.AllSaved toml dir)
    (hload : r.newWorld 0 .loadProfiles = Except.ok (Profiles.loadAll toml order dir))
    (hinit : r.initial = some d)
    (hcommands : ∀ c ∈ r.commands, (Stage.command c.1).managesProfiles = true)
    (hfiles : (files toml).Follows dir (logOf d r.stages)) (n : ℕ) :
    ((Machine.finalState step d (r.stages.take n)).manager.connections.map (·.id)).Nodup ∧
      ∀ order', (Machine.finalState step d (r.stages.take n)).manager.connections.Perm
        (Profiles.loadAll toml order' ((files toml).after dir (logOf d (r.stages.take n)))) := by
  have hstages : ∀ i ∈ r.stages, i.1.managesProfiles = true := by
    intro i hi
    rcases List.mem_cons.mp hi with rfl | hi
    · rfl
    · obtain ⟨c, hc, rfl⟩ := List.mem_map.mp hi
      exact hcommands c hc
  rw [← List.take_append_drop n r.stages, logOf_append, Observer.follows_append] at hfiles
  have hstart : Profiles.Keeps toml dir d.manager.connections := by
    rw [← Except.ok.inj (hload.symm.trans (connections_of_initial hinit))]
    exact Profiles.keeps_loadAll hdir order
  have hkeeps := agreeing_finalState (fun i hi => hstages i (List.mem_of_mem_take hi)) hfiles.1
    hstart
  exact ⟨hkeeps.nodup, hkeeps.perm_loadAll⟩

/-- What `toml::to_string_pretty` makes of the profile of `office`. -/
def officeText : String :=
  "\n".intercalate ["id = \"office\"", "name = \"office\"", "device_type = \"Ethernet\"",
    "method = \"link-local\"", "ipv6_method = \"slaac\"", "addresses = []", "dns = []",
    "autoconnect = false", "autoconnect_priority = 0", "metered = false", ""]

def officeToml : Toml where
  encode p := if p = wiredProfile "office" false then .ok officeText else .error "another profile"
  decode text := if text = officeText then some (wiredProfile "office" false) else none
  decode_of_encode := by
    intro p text h
    split at h
    · rename_i hp
      cases h
      rw [hp, if_pos rfl]
    · cases h

/-- A profile is added, activated, taken down and deleted. -/
def officeLife : Run :=
  wiredRun ["lo"] [wired 2 "eth0"] (office ++ [.deactivateConnection "office",
    .deleteConnection "office"])

/-- From an empty directory, the profile is in list and directory while it is there. -/
theorem profiles_agree_office :
    ∃ d, officeLife.initial = some d ∧
      (Machine.finalState step d (officeLife.stages.take 3)).manager.connections =
        [wiredProfile "office" false] ∧
      (Machine.finalState step d officeLife.stages).manager.connections = [] ∧
      ∀ n, ((Machine.finalState step d (officeLife.stages.take n)).manager.connections.map
          (·.id)).Nodup ∧
        ∀ order, (Machine.finalState step d (officeLife.stages.take n)).manager.connections.Perm
          (Profiles.loadAll officeToml order
            ((files officeToml).after ∅ (logOf d (officeLife.stages.take n)))) := by
  have hinit := (Option.some_get (show officeLife.initial.isSome by decide +kernel)).symm
  refine ⟨_, hinit, by decide +kernel, by decide +kernel,
    profiles_agree officeToml ∅ Order.stored officeLife _ ?_ rfl hinit ?_ (by decide +kernel)⟩
  · intro name text h
    cases h
  · intro c hc
    revert c
    decide

end Daemon

/-! ## Profiles of Wi-Fi networks -/

namespace NetworkManager

open Validation

/-- **Wi-Fi profiles.** The id that `Request::ConnectWifi` makes of an SSID that is accepted is an
identifier if and only if the SSID has the characters of one, and different SSIDs have different
files. -/
theorem wifiProfile_valid_iff (device ssid : String) (security : SecurityType)
    (hssid : validateSsid ssid = .ok ()) :
    (validateIdentifier (wifiProfile device ssid security).id = .ok () ↔
      ssid.toList.all isIdentifierChar = true) ∧
    ∀ device' ssid' security', Profiles.fileName (wifiProfile device' ssid' security').id =
      Profiles.fileName (wifiProfile device ssid security).id ↔ ssid' = ssid := by
  have hsize : ssid.utf8ByteSize ≤ 32 := by
    by_contra hlong
    rw [validateSsid, if_pos (.inr (not_le.mp hlong))] at hssid
    cases hssid
  have hid : ("wifi-" ++ ssid).utf8ByteSize = 5 + ssid.utf8ByteSize := String.utf8ByteSize_append
  have hlength : ¬(("wifi-" ++ ssid).isEmpty = true ∨ 64 < ("wifi-" ++ ssid).utf8ByteSize) := by
    rw [String.isEmpty, beq_iff_eq]
    omega
  have hchars : ("wifi-" ++ ssid).toList.all isIdentifierChar =
      ssid.toList.all isIdentifierChar := by
    rw [String.toList_append]
    rfl
  constructor
  · show validateIdentifier ("wifi-" ++ ssid) = _ ↔ _
    rw [validateIdentifier, if_neg hlength, hchars]
    cases ssid.toList.all isIdentifierChar <;> simp
  · intro device' ssid' security'
    show Profiles.fileName ("wifi-" ++ ssid') = Profiles.fileName ("wifi-" ++ ssid) ↔ _
    rw [Profiles.fileName_inj, String.append_right_inj]

theorem wifiProfile_valid_home :
    validateSsid "home" = .ok () ∧
      validateIdentifier (wifiProfile "wlan0" "home" .open).id = .ok () :=
  ⟨rfl, (wifiProfile_valid_iff "wlan0" "home" .open rfl).1.mpr (by decide)⟩

theorem wifiProfile_rejected :
    validateSsid "Home Network" = .ok () ∧ ∀ identity w k m,
      (handleRequest identity (.connectWifi "wlan0" "Home Network" .open none) w k m).result =
        .error ("parse error: identifier 'wifi-Home Network' may only contain letters, digits, " ++
          "'-', '_', '.'") :=
  ⟨rfl, fun _ _ _ _ => rfl⟩

end NetworkManager

end MitosNetwork
