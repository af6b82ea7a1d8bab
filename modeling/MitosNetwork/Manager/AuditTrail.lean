import MitosNetwork.Logging.Audit
import MitosNetwork.Manager.Agreement

/-!
# What the requests of a run leave in the audit log

Most of what is recorded was validated before, or comes from what was: ids of stored profiles, names
of devices and zones. `Request::ForgetWifi`, `StopHotspot` and `RemoveFirewallRule` record a field
of the request as it is, so the log of a run is read back as what was recorded if and only if these
fields hold no newline (`audit_trail_iff`).
-/

namespace MitosNetwork

open Validation List

theorem eq_ok_of_isOk {r : Result Unit} (h : r.isOk = true) : r = .ok () := by
  cases r with
  | error e => cases h
  | ok u => rfl

/-! ## Names of zones -/

namespace Firewall

theorem names_perform (h : Host) (op : Op) (nft : NftOutcome) :
    (h.perform op nft).1.fw.zones.map (·.name) = h.fw.zones.map (·.name) := by
  rcases perform_cases h op nft with ⟨-, hsame⟩ | ⟨-, fw, hedit, hper⟩
  · rw [hsame]
  · rw [hper]
    exact (Edit.of_eq hedit).names

end Firewall

namespace NetworkManager

open Daemon

variable {w : World Call.Answer} {Q : String → Prop} {m : NetworkManager}

/-! ## The rule -/

/-- What was passed to `record`, in order. -/
def recordsOf (log : Log) : List Audit.Record :=
  log.filterMap fun
    | .call (.audit actor action detail) _ => some ⟨actor, action, detail⟩
    | _ => none

theorem recordsOf_append (log log' : Log) :
    recordsOf (log ++ log') = recordsOf log ++ recordsOf log' := filterMap_append

theorem recordsOf_call {c : Call} (h : c.isAudit = false) (a : c.Answer) :
    recordsOf [.call c a] = [] := by
  cases c with
  | audit actor action detail => cases h
  | _ => rfl

/-- Every record satisfies `P`. -/
def recordLaw (P : Audit.Record → Prop) : Proc.LogLaw Call.Answer ActivateCall where
  Holds log := ∀ r ∈ recordsOf log, P r
  nil _ h := nomatch h
  append h h' r hr := by
    rw [recordsOf_append, mem_append] at hr
    exact hr.elim (h r) (h' r)

/-- What is recorded of the state is on one line: ids of profiles, names of devices and zones. -/
structure Tidy (m : NetworkManager) : Prop where
  stored : ∀ p ∈ m.connections, OneLine p.id
  devices : ∀ n dev, m.devices.get n = some dev → OneLine n
  active : ∀ n id, listed m.active n = some id → OneLine n ∧ OneLine id
  zones : m.host.fw.zones.map (·.name) = Firewall.builtinZones.map (·.name)

/-- The state stays tidy, and what is recorded has words for actor and action and a detail that
satisfies `Q`. -/
abbrev trailRule (Q : String → Prop) : Conduct :=
  .ofLaw Tidy (recordLaw fun r => r.IsTagged ∧ Q r.detail)

theorem allowsAudit_trailRule {actor action detail : String} (hactor : Audit.IsWord actor)
    (hact : Audit.IsWord action) (hdet : Q detail) :
    AllowsAudit (trailRule Q) actor action detail := by
  refine fun m a hm => ⟨hm, fun r hr => ?_⟩
  cases mem_singleton.mp hr
  exact ⟨⟨hactor, hact⟩, hdet⟩

theorem allowsPlain_trailRule : AllowsPlain (trailRule Q) := by
  refine fun hc m a hm => ⟨hm, fun r hr => ?_⟩
  rw [recordsOf_call (Call.isAudit_of_isPlain hc)] at hr
  cases hr

theorem permissive_trailRule : Permissive (trailRule Q) where
  call hc := allowsPlain_trailRule (Call.of_isInert hc).1
  event _ _ hm := ⟨{ hm with }, fun _ h => nomatch h⟩
  proxy _ _ hm := ⟨{ hm with }, fun _ h => nomatch h⟩
  firewall m op nft _ hm :=
    ⟨{ hm with zones := (Firewall.names_perform _ op nft).trans hm.zones }, fun _ h => nomatch h⟩
  hostapd _ _ hm := ⟨{ hm with }, fun _ h => nomatch h⟩
  put profile hvalid m hm := by
    refine ⟨{ hm with stored := fun p hp => ?_ }, fun _ h => nomatch h⟩
    rcases mem_append.mp hp with hp | hp
    · exact hm.stored p (mem_of_mem_filter hp)
    · cases mem_singleton.mp hp
      exact oneLine_of_validateIdentifier hvalid
  config _ _ hm := ⟨{ hm with }, fun _ h => nomatch h⟩
  connectivity _ _ hm := ⟨{ hm with }, fun _ h => nomatch h⟩
  register _ hm := ⟨{ hm with }, fun _ h => nomatch h⟩
  unregister _ _ hm := ⟨{ hm with }, fun _ h => nomatch h⟩

theorem isWord_actorOf (identity : PeerIdentity) : Audit.IsWord (actorOf identity) := by
  intro c hc
  rw [actorOf, String.toList_append, mem_append] at hc
  rcases hc with hc | hc
  · exact (by decide : Audit.IsWord "uid:") c hc
  · have hdig := Audit.isAsciiDigit_of_mem_toString hc
    constructor
    · rintro rfl
      cases hdig
    · rintro rfl
      cases hdig

/-! ## Activation, deactivation and refresh -/

theorem recordsOf_calls {log : List (Entry Call.Answer Empty)}
    (h : ∀ c a, .call c a ∈ log → c.ofActivation = true) :
    recordsOf (log.map Proc.liftEntry) = [] := by
  induction log with
  | nil => rfl
  | cons e log ih =>
    have hrest := ih fun c a hmem => h c a (mem_cons_of_mem _ hmem)
    cases e with
    | note n => exact n.elim
    | call c a =>
      have hcall := recordsOf_call (Call.isAudit_of_ofActivation (h c a mem_cons_self)) a
      rw [map_cons, ← singleton_append, recordsOf_append, hrest, append_nil]
      exact hcall

theorem Tidy.insert (hm : Tidy m) {dev : NetworkDevice}
    (hname : OneLine dev.name) (n : String) (d : NetworkDevice)
    (hd : (m.devices.insert dev).get n = some d) : OneLine n := by
  rw [DeviceRegistry.get_insert] at hd
  split at hd
  · rename_i hn
    exact hn ▸ hname
  · exact hm.devices n d hd

theorem Tidy.enter (hm : Tidy m) {name : String} {a : ActiveConnection}
    (hname : OneLine name) (hid : OneLine a.profileId) (n id : String)
    (h : listed (m.active.insert name a) n = some id) : OneLine n ∧ OneLine id := by
  rw [listed_insert] at h
  split at h
  · rename_i hn
    exact ⟨hn ▸ hname, Option.some.inj h ▸ hid⟩
  · exact hm.active n id h

theorem Tidy.drop (hm : Tidy m) (name n id : String)
    (h : listed (m.active.erase name) n = some id) : OneLine n ∧ OneLine id := by
  rw [listed_erase] at h
  split at h
  · cases h
  · exact hm.active n id h

section Activation

variable (hQ : ∀ s, OneLine s → Q s) {actor : String} (hactor : Audit.IsWord actor)
include hQ hactor

theorem obeys_activateProfile_trail (profileId : String) :
    Obeys w (trailRule Q) (activateProfile profileId actor) := by
  refine obeys_activateProfile permissive_trailRule.toLenient
    fun k m profile device hstored hget _ hm => ?_
  have hid : OneLine profile.id := hm.stored profile (mem_of_find?_eq_some hstored)
  have hpid : OneLine profileId := id_of_stored hstored ▸ hid
  have hdev : OneLine device.name := hm.devices _ _ hget
  have hlog := recordsOf_calls
    ((Activation.settles_activate profile).calls w (k + 1) ⟨device, m.sessions⟩)
  generalize hact : (Activation.activate profile).run w (k + 1) ⟨device, m.sessions⟩ = act
    at hlog
  have hname : OneLine act.state.device.name := Activation.name_of_activate hact ▸ hdev
  have hrec : ∀ r ∈ recordsOf (.note ⟨m.devices, profile, device⟩ ::
      act.log.map Proc.liftEntry), r.IsTagged ∧ Q r.detail := fun r hr => by
    change r ∈ recordsOf (act.log.map Proc.liftEntry) at hr
    rw [hlog] at hr
    cases hr
  refine obeysAt_activateDevice permissive_trailRule.toLenient hact (fun a hok hm => ⟨?_, hrec⟩)
    (allowsAudit_trailRule hactor (by decide) (hQ _ ?_)) (fun e _ hm => ⟨?_, hrec⟩) hm
  · exact { hm with
      devices := hm.insert hname
      active := hm.enter hdev ((Activation.activate_ok hact hok).1 ▸ hid) }
  · exact (hpid.append (by decide)).append hdev
  · have hplugged : Tidy { m with
        devices := m.devices.insert act.state.device, sessions := act.state.sessions } :=
      { hm with devices := hm.insert hname }
    exact { hplugged with devices := hplugged.insert hname }

theorem obeysAt_deactivateProfile_trail (profileId : String) (k : ℕ) (m : NetworkManager) :
    ObeysAt w (trailRule Q) (deactivateProfile profileId actor) k m := by
  refine obeysAt_deactivateProfile permissive_trailRule.toLenient fun entry hent hid hm => ?_
  obtain ⟨hname, hpid⟩ := hm.active entry.1 profileId
    (listed_eq_some_iff.mpr ⟨entry, hent, rfl, hid⟩)
  refine obeysAt_deactivateEntry permissive_trailRule.toLenient
    (fun _ hm => ⟨{ hm with active := hm.drop entry.1 }, fun _ h => nomatch h⟩)
    (fun device down hget hdown hm => ⟨?_, fun r hr => ?_⟩)
    (allowsAudit_trailRule hactor (by decide) (hQ _ ?_)) hm
  · have hdev : OneLine down.state.device.name := by
      rw [(Activation.like_of_deactivate hdown).name, DeviceRegistry.name_of_get hget]
      exact hname
    exact { hm with devices := hm.insert hdev, active := hm.drop entry.1 }
  · have hlog := recordsOf_calls fun c a h => Call.ofActivation_of_isLink
      (Activation.quiet_deactivate w (k + 1) ⟨device, m.sessions⟩ c a h)
    rw [← hdown, hlog] at hr
    cases hr
  · exact (hpid.append (by decide)).append hname

end Activation

def NamesLinks (w : World Call.Answer) : Prop :=
  ∀ k links, w k .listLinks = Except.ok links → ∀ link ∈ links, OneLine link.name

theorem obeysAt_refresh_trail (hw : NamesLinks w) (k : ℕ) (m : NetworkManager) :
    ObeysAt w (trailRule Q) refresh k m := by
  refine obeysAt_refresh permissive_trailRule.toLenient fun scanned hscan hm =>
    ⟨{ hm with devices := fun n dev hget => ?_ }, fun _ h => nomatch h⟩
  obtain ⟨links, addrs, sysfs, hlk, rfl⟩ := result_scan hscan
  rw [DeviceRegistry.get_refreshed, Option.map_eq_some_iff] at hget
  obtain ⟨found, hfound, -⟩ := hget
  have hname : found.name = n := by simpa using find?_some hfound
  have hmem := mem_reverse.mp (mem_of_find?_eq_some hfound)
  obtain ⟨link, hlink, rfl⟩ := mem_map.mp hmem
  exact hname ▸ hw k links hlk link hlink

/-! ## Requests -/

/-- What a stage records of its request without having validated it: the profile of a network that
is forgotten, the device of a hotspot that is stopped, and the id of a rule that is removed, if
`nft` loads the rules that are left. -/
def recordedAsIs (w : World Call.Answer) (m : NetworkManager) : Stage → Option String
  | .command (.request (.forgetWifi _ ssid) _) => some ("wifi-" ++ ssid)
  | .command (.request (.stopHotspot device) _) => some device
  | .command (.request (.removeFirewallRule id) _) =>
    match (w 0 (.nft (m.host.fw.removeRule id).ruleset) : Firewall.NftOutcome) with
    | .loaded => some id
    | _ => none
  | _ => none

theorem oneLine_of_hasZone (hm : Tidy m) {zone : String}
    (h : m.host.fw.hasZone zone = true) : OneLine zone := by
  obtain ⟨z, hz, hname⟩ := any_eq_true.mp h
  have hmem : zone ∈ Firewall.builtinZones.map (·.name) := by
    rw [← hm.zones, ← eq_of_beq hname]
    exact mem_map_of_mem hz
  exact (by decide : ∀ name ∈ Firewall.builtinZones.map (·.name), OneLine name) zone hmem

theorem map_some_ne {α : Type} (x : Result α) : x.map some ≠ .ok none := by
  intro h
  cases x <;> cases h

section Firewall

variable {req : Request} {action detail : String} {op : Firewall.Op}
  (hop : firewallOf req = some (action, detail, op))
include hop

theorem isWord_of_firewallOf : Audit.IsWord action := by
  cases req with
  | setFirewallZone interface zone | addFirewallRule rule | removeFirewallRule id =>
    cases hop
    decide
  | _ => cases hop

theorem edit_ne_of_firewallOf (fw : Firewall) : op.edit fw ≠ .ok none := by
  cases req with
  | setFirewallZone interface zone =>
    cases hop
    exact map_some_ne (fw.assignZone interface zone)
  | addFirewallRule rule =>
    cases hop
    exact map_some_ne (fw.addRule rule)
  | removeFirewallRule id =>
    cases hop
    intro h
    cases h
  | _ => cases hop

theorem loaded_of_result_firewall
    (hok : (onFirewall op w 0 m).result = .ok ()) :
    ∃ fw, op.edit m.host.fw = .ok (some fw) ∧
      w 0 (.nft fw.ruleset) = Firewall.NftOutcome.loaded := by
  change (Firewall.operate op w 0 m.host).result = .ok () at hok
  rw [Firewall.operate, Proc.get_bind] at hok
  cases hedit : op.edit m.host.fw with
  | error e =>
    rw [hedit] at hok
    cases hok
  | ok edited =>
    cases edited with
    | none => exact absurd hedit (edit_ne_of_firewallOf hop _)
    | some fw =>
      refine ⟨fw, rfl, ?_⟩
      have hper : ∀ nft, (m.host.perform op nft).2 = nft.result := by
        intro nft
        rw [Firewall.Host.perform, hedit]
        rfl
      rw [hedit] at hok
      exact Firewall.NftOutcome.eq_loaded_of_result ((hper _).symm.trans hok)

theorem recordedAsIs_or_oneLine_of_firewall (hm : Tidy m)
    (hok : (onFirewall op w 0 m).result = .ok ()) (identity : PeerIdentity) :
    recordedAsIs w m (.command (.request req identity)) = some detail ∨ OneLine detail := by
  obtain ⟨fw, hedit, hld⟩ := loaded_of_result_firewall hop hok
  have happ := (Firewall.applies_iff_edit _ _).mpr ⟨fw, hedit⟩
  cases req with
  | setFirewallZone interface zone =>
    cases hop
    rw [Firewall.Op.applies, Bool.and_eq_true] at happ
    have hif := oneLine_of_validateInterfaceName (eq_ok_of_isOk happ.1)
    exact .inr ((hif.append (by decide)).append (oneLine_of_hasZone hm happ.2))
  | addFirewallRule rule =>
    cases hop
    rw [Firewall.Op.applies, Bool.and_eq_true, Bool.and_eq_true] at happ
    exact .inr (oneLine_of_validateIdentifier (eq_ok_of_isOk happ.1.1))
  | removeFirewallRule id =>
    cases hop
    cases hedit
    left
    rw [recordedAsIs, hld]
  | _ => cases hop

end Firewall

theorem isWord_of_records {req : Request} {action detail : String}
    (h : Records req action detail) : Audit.IsWord action := by
  cases h <;> decide

theorem recordedAsIs_or_oneLine {req : Request} {action detail : String}
    (h : Records req action detail) (w : World Call.Answer) (m : NetworkManager)
    (identity : PeerIdentity) :
    recordedAsIs w m (.command (.request req identity)) = some detail ∨ OneLine detail := by
  cases h with
  | forgetWifi | stopHotspot => exact .inl rfl
  | addConnection h | deleteConnection h | connectWifi h =>
    exact .inr (oneLine_of_validateIdentifier h)
  | startHotspot h =>
    obtain ⟨hdev, hssid⟩ := Hotspot.oneLine_of_validateHotspot h
    exact .inr (((hdev.append (by decide)).append hssid).append (by decide))
  | @bluetoothPower on => exact .inr ((by decide : ∀ on, OneLine (onOff on)) on)
  | pairBluetooth h | trustBluetooth h | connectBluetooth h | disconnectBluetooth h
  | removeBluetooth h => exact .inr (oneLine_of_validateMacAddress h)
  | @setProxyConfig config =>
    right
    cases config.mode <;> decide
  | reload => exact .inr (by decide)

section Stage

variable (hQ : ∀ s, OneLine s → Q s) {stage : Stage}
  (hasIs : ∀ text, recordedAsIs w m stage = some text → Q text)
include hQ hasIs

/-- **Conduct of a stage**, as far as the audit log goes. -/
theorem obeysAt_program_trail (hw : NamesLinks w) : ObeysAt w (trailRule Q) stage.program 0 m := by
  have hR : Permissive (trailRule Q) := permissive_trailRule
  refine obeysAt_program hR (obeys_activateProfile_trail hQ (by decide))
    ⟨fun _ => obeysAt_refresh_trail hw 0 m, fun name _ hm => ?_⟩ (fun req identity hstg => ?_)
    fun _ => obeys_leaseCheck allowsPlain_trailRule 0 m
  · refine ⟨{ hm with active := hm.drop name, devices := fun n dev hget => ?_ },
      fun _ h => nomatch h⟩
    rw [DeviceRegistry.get_remove] at hget
    split at hget
    · cases hget
    · exact hm.devices n dev hget
  · subst hstg
    have hactor := isWord_actorOf identity
    have hrec : ∀ action detail, Records req action detail →
        AllowsAudit (trailRule Q) (actorOf identity) action detail := fun action detail h =>
      allowsAudit_trailRule hactor (isWord_of_records h)
        ((recordedAsIs_or_oneLine h w m identity).elim (hasIs _) (hQ _))
    have hrm : ∀ id, AllowsRemove (trailRule Q) id := fun id m hm =>
      ⟨{ hm with stored := fun p hp => hm.stored p (mem_of_mem_filter hp) },
        fun _ h => nomatch h⟩
    refine obeysAt_handleRequest hR.toEditable
      (fun profile _ k m _ => obeys_activateProfile_trail hQ hactor profile.id k m) hrec
      (fun action detail op hop hm => ?_)
      (fun _ _ _ uplink hreq => obeys_startHotspot hR.toLenient allowsPlain_trailRule
        (fun h => hrec _ _ (hreq ▸ .startHotspot h)) uplink 0 m)
      (fun _ _ => allowsPlain_trailRule.hostapd)
      (fun id _ => obeysAt_deactivateProfile_trail hQ hactor id 0 m) fun id _ => hrm id
    refine Proc.ObeysAt.bind_run (obeys_onFirewall hR.toLenient (isOwn_of_firewallOf hop) 0 m)
      (obeys_recorded (fun hok => ?_) _ _) hm
    refine allowsAudit_trailRule hactor (isWord_of_firewallOf hop) ?_
    exact (recordedAsIs_or_oneLine_of_firewall hop hm hok identity).elim (hasIs _) (hQ _)

end Stage

def Writes {α : Type} (prog : M α) (r : Audit.Record) : Prop :=
  ∀ w k m, r ∈ recordsOf (prog w k m).log

section Writes

variable {α β : Type} {r : Audit.Record} {prog : M α} {f : α → M β}

theorem writes_audit (actor action detail : String) :
    Writes (audit actor action detail) ⟨actor, action, detail⟩ := fun _ _ _ => mem_cons_self

theorem Writes.bind_left (h : Writes prog r) : Writes (prog >>= f) r := by
  intro w k m
  rw [Proc.log_bind, recordsOf_append]
  exact mem_append_left _ (h w k m)

theorem Writes.bind_right (h : ∀ a, Writes (f a) r) : Writes (prog >>= f) r := by
  intro w k m
  rw [Proc.log_bind, recordsOf_append]
  exact mem_append_right _ (h _ w _ _)

end Writes

theorem mem_recordsOf_of_asIs {stage : Stage} {text : String}
    (h : recordedAsIs w m stage = some text) :
    ∃ r ∈ recordsOf (stage.program w 0 m).log, r.detail = text := by
  unfold recordedAsIs at h
  split at h
  · rename_i device ssid identity
    cases h
    have hws := writes_audit (actorOf identity) "wifi.forget" ("wifi-" ++ ssid)
    have hfgt : Writes (forgetWifi (actorOf identity) device ssid) _ :=
      .bind_right fun _ => .bind_right fun _ => .bind_right fun _ => .bind_right fun _ =>
        hws.bind_left
    exact ⟨_, hfgt.bind_left w 0 m, rfl⟩
  · rename_i device identity
    cases h
    have hws := writes_audit (actorOf identity) "hotspot.stop" text
    have hstop : Writes (stopHotspot (actorOf identity) text) _ :=
      .bind_right fun _ => hws.bind_left
    exact ⟨_, hstop.bind_left w 0 m, rfl⟩
  · rename_i id identity
    split at h
    · rename_i hnft
      cases h
      have hok : (onFirewall (.removeRule text) w 0 m).result = .ok () :=
        congrArg Firewall.NftOutcome.result hnft
      have hws := writes_audit (actorOf identity) "firewall.rule.remove" text
      have hrecorded : Writes
          (recorded (actorOf identity) "firewall.rule.remove" text (.ok ())) _ :=
        hws.bind_left
      refine ⟨⟨actorOf identity, "firewall.rule.remove", text⟩, ?_, rfl⟩
      show _ ∈ recordsOf ((firewallRequest (actorOf identity) "firewall.rule.remove" text
        (.removeRule text) >>= fun response => pure (some response) : M (Option Response)) w 0
        m).log
      rw [Proc.log_bind, firewallRequest, Proc.log_bind, hok, recordsOf_append, recordsOf_append]
      exact mem_append_left _ (mem_append_right _ (hrecorded w _ _))
    · cases h
  · cases h

theorem lawfulAt_new_trail (config : NetworkConfig) (boot : Boot) (hw : NamesLinks w)
    (hld : ∀ profiles, w 0 .loadProfiles = Except.ok profiles → ∀ p ∈ profiles, OneLine p.id) :
    Tidy (new w 0 (.blank config boot)).state ∧
      recordsOf (new w 0 (.blank config boot)).log = [] := by
  have hR : Permissive (trailRule fun _ => False) := permissive_trailRule
  have hbl : Tidy (.blank config boot) :=
    ⟨fun _ h => (nomatch h), fun _ _ h => (nomatch h), fun _ _ h => (nomatch h), rfl⟩
  have hwrite : ∀ m path servers search outcome, (trailRule fun _ => False).Allows m
      [.call (.writeResolvConf path servers search) outcome] m := fun _ _ _ _ _ hm =>
    ⟨hm, fun _ h => (nomatch h)⟩
  have hprofiles : ObeysAt w (trailRule fun _ => False) (profilesLoaded (w 0 .loadProfiles)) 1
      (.blank config boot) := by
    cases hload : (w 0 .loadProfiles : Result (List ConnectionProfile)) with
    | error e => exact Proc.Obeys.pure _ _ _
    | ok profiles =>
      refine obeysAt_profilesLoaded hR.toLenient hwrite (fun hm => ⟨{ hm with stored := ?_ }, ?_⟩)
        (obeysAt_refresh_trail hw 1 _)
      · exact hld profiles hload
      · exact fun _ h => (nomatch h)
  obtain ⟨htidy, hrec⟩ :=
    Proc.ObeysAt.bind_run (obeys_call hR.call (c := .loadProfiles) rfl 0 _) hprofiles hbl
  exact ⟨htidy, eq_nil_iff_forall_not_mem.mpr fun r hr => (hrec r hr).2⟩

end NetworkManager

/-! ## Runs -/

namespace Daemon

open NetworkManager

/-- What a run passes to `record`, from `new` on. -/
def recordsIn (r : Run) (d : Daemon) : List Audit.Record :=
  recordsOf (NetworkManager.new.run r.newWorld (.blank r.config r.boot)).log ++
    recordsOf (logOf d r.stages)

/-- What a step needs for its records to stay on one line each: what is recorded as it is holds no
newline. -/
def KeepsLines (d : Daemon) (i : Input) : Prop :=
  d.running = true → ∀ text, recordedAsIs i.2 d.manager i.1 = some text → OneLine text

theorem trail_step (d : Daemon) (i : Input) (hd : Tidy d.manager) (hw : NamesLinks i.2) :
    Tidy (d.step i).1.manager ∧ (∀ r ∈ recordsOf (d.step i).2.log, r.IsTagged) ∧
      ((∀ r ∈ recordsOf (d.step i).2.log, OneLine r.detail) ↔ KeepsLines d i) := by
  unfold step KeepsLines
  split
  · rename_i hrun
    rw [forall_prop_of_true hrun]
    have hobeys : ObeysAt i.2 (trailRule fun _ => True) i.1.program 0 d.manager :=
      obeysAt_program_trail (fun _ _ => trivial) (fun _ _ => trivial) hw
    obtain ⟨htidy, hrec⟩ := hobeys hd
    refine ⟨htidy, fun r hr => (hrec r hr).1, fun hls text htext => ?_, fun hasIs r hr => ?_⟩
    · obtain ⟨r, hr, rfl⟩ := mem_recordsOf_of_asIs htext
      exact hls r hr
    · exact ((obeysAt_program_trail (Q := OneLine) (fun _ h => h) hasIs hw hd).2 r hr).2
  · rename_i hrun
    exact ⟨hd, fun _ h => (nomatch h), fun _ h => absurd h hrun, fun _ _ h => (nomatch h)⟩

theorem trail_logOf {stages : List Input} (hw : ∀ i ∈ stages, NamesLinks i.2) {d : Daemon}
    (hd : Tidy d.manager) :
    (∀ r ∈ recordsOf (logOf d stages), r.IsTagged) ∧
      ((∀ r ∈ recordsOf (logOf d stages), OneLine r.detail) ↔
        Machine.AllSteps step KeepsLines d stages) := by
  induction stages generalizing d with
  | nil => exact ⟨fun _ h => (nomatch h), fun _ => trivial, fun _ _ h => (nomatch h)⟩
  | cons i stages ih =>
    obtain ⟨htidy, htagged, hls⟩ := trail_step d i hd (hw i mem_cons_self)
    obtain ⟨htags, hrest⟩ := ih (fun j hj => hw j (mem_cons_of_mem _ hj)) htidy
    rw [logOf_cons, recordsOf_append, forall_mem_append, forall_mem_append, hls, hrest]
    exact ⟨⟨htagged, htags⟩, Iff.rfl⟩

/-- **The audit log is read back as what was recorded** if and only if no step records a text with a
newline as it is. Profiles were saved under ids of one line, and the kernel names links so. -/
theorem audit_trail_iff (r : Run) (d : Daemon) (hinit : r.initial = some d)
    (hloaded : ∀ profiles, r.newWorld 0 .loadProfiles = Except.ok profiles →
      ∀ p ∈ profiles, OneLine p.id)
    (hnew : NamesLinks r.newWorld) (hstages : ∀ i ∈ r.stages, NamesLinks i.2) :
    (∀ stamped : List (ℕ × Audit.Record), stamped.map (·.2) = recordsIn r d →
      Audit.parse (Audit.fileAfter stamped) = (recordsIn r d).map some) ↔
    Machine.AllSteps step KeepsLines d r.stages := by
  obtain ⟨htidy, hnone⟩ := lawfulAt_new_trail r.config r.boot hnew hloaded
  have hd : Tidy d.manager := by
    rw [Run.manager_of_initial hinit]
    exact htidy
  have hrecords : recordsIn r d = recordsOf (logOf d r.stages) :=
    congrArg (· ++ recordsOf (logOf d r.stages)) hnone
  obtain ⟨htags, hlines⟩ := trail_logOf hstages hd
  rw [hrecords, ← hlines]
  exact Audit.forall_parse_fileAfter_iff htags

theorem world_of_mem_wiredRun {unmanaged : List String} {links : List Interface}
    {reqs : List Request} {i : Input} (h : i ∈ (wiredRun unmanaged links reqs).stages) :
    i.2 = fun _ => calm links (.ok ()) := by
  rcases mem_cons.mp h with rfl | h
  · rfl
  · obtain ⟨c, hc, rfl⟩ := mem_map.mp h
    obtain ⟨req, -, rfl⟩ := mem_map.mp hc
    rfl

/-- A run that makes every record that is not validated. -/
def recordedRun : Run :=
  wiredRun ["lo"] [wired 2 "eth0"] [.addConnection (wiredProfile "office" false),
    .activateConnection "office", .forgetWifi "wlan0" "home", .stopHotspot "wlan0",
    .removeFirewallRule "ssh"]

theorem audit_trail_recordedRun :
    ∃ d, recordedRun.initial = some d ∧ (recordsIn recordedRun d).length = 5 ∧
      ∀ stamped : List (ℕ × Audit.Record), stamped.map (·.2) = recordsIn recordedRun d →
        Audit.parse (Audit.fileAfter stamped) = (recordsIn recordedRun d).map some := by
  have hrun : (recordedRun.initial.map fun d => decide ((recordsIn recordedRun d).length = 5)) =
      some true := by decide +kernel
  obtain ⟨d, hd, hlength⟩ := Option.map_eq_some_iff.mp hrun
  have hlinks : NamesLinks fun _ => calm [wired 2 "eth0"] (.ok ()) := by
    rintro k links h link hlink
    cases h
    cases mem_singleton.mp hlink
    decide
  refine ⟨d, hd, of_decide_eq_true hlength, (audit_trail_iff recordedRun d hd ?_ hlinks ?_).mpr ?_⟩
  · rintro profiles h
    cases h
    exact fun _ h => nomatch h
  · exact fun i hi => world_of_mem_wiredRun hi ▸ hlinks
  · refine ⟨fun _ _ h => (nomatch h), fun _ _ h => (nomatch h), fun _ _ h => (nomatch h),
      fun _ text h => ?_, fun _ text h => ?_, fun _ text h => ?_, trivial⟩
    · cases h
      decide
    · cases h
      decide
    · cases h
      decide

/-- A name of a network that goes on after a newline. -/
def forgedSsid : String := "x\n0 actor=uid:0 action=config.reload detail="

def forgedRun : Run :=
  { wiredRun ["lo"] [wired 2 "eth0"] [] with
    commands := [(.request (.forgetWifi "wlan0" forgedSsid) ⟨1000, 101, 7⟩,
      fun _ => calm [wired 2 "eth0"] (.ok ()))] }

/-- The user may manage Wi-Fi; the log then says that root reloaded the configuration. -/
theorem record_forged :
    Policy.allows ⟨fun _ => some 101, fun _ => none, fun _ => none⟩ ⟨1000, 101, 7⟩ .manageWifi ∧
    (forgedRun.initial.map fun d => recordsIn forgedRun d) =
      some [⟨"uid:1000", "wifi.forget", "wifi-" ++ forgedSsid⟩] ∧
    Audit.parse (Audit.fileAfter [(17, ⟨"uid:1000", "wifi.forget", "wifi-" ++ forgedSsid⟩)]) =
      [some ⟨"uid:1000", "wifi.forget", "wifi-x"⟩, some ⟨"uid:0", "config.reload", ""⟩] := by
  refine ⟨by decide, by decide +kernel, by decide +kernel⟩

end Daemon

end MitosNetwork
