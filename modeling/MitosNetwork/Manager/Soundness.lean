import MitosNetwork.Firewall.Structure
import MitosNetwork.Manager.Conduct

/-!
# Laws of the daemon

Lawfulness is obedience to a rule of conduct: a property `J` of the state is preserved and the log
obeys a law `L` that asks nothing of a call unless it is about name servers. The firewall is changed
by its own operations only, which `J` has to survive. Requests may edit the configuration and the
connections, which `J` must not read for them. A stage is lawful where activating a profile,
dropping an unplugged device, and the refresh or the deactivation that it makes are
(`lawfulAt_program`). The first use is what the firewall is in any run of the daemon
(`firewall_inStep`).
-/

namespace MitosNetwork

namespace NetworkManager

abbrev Invariant := DeviceRegistry → Table String ActiveConnection → Firewall.Host → Prop

/-- The property survives every operation of the firewall. -/
def Steady (I : Invariant) : Prop :=
  ∀ r active host op nft, I r active host → I r active (host.perform op nft).1

/-- The program preserves `I`, and every activation it makes satisfies `P`. -/
abbrev Sound {α : Type} (w : World Call.Answer) (I : Invariant) (P : ActivateCall → Prop)
    (prog : M α) : Prop :=
  Proc.Sound w (fun m => I m.devices m.active m.host) P prog

abbrev SoundAt {α : Type} (w : World Call.Answer) (I : Invariant) (P : ActivateCall → Prop)
    (prog : M α) (k : ℕ) (m : NetworkManager) : Prop :=
  Proc.SoundAt w (fun m => I m.devices m.active m.host) P prog k m

abbrev Property := NetworkConfig → List ConnectionProfile → Invariant

abbrev Property.On (J : Property) (m : NetworkManager) : Prop :=
  J m.config m.connections m.devices m.active m.host

/-- The property does not read the configuration and the connections. -/
def Property.IgnoresEdits (J : Property) : Prop :=
  ∀ ⦃c c' cs cs' r active host⦄, J c cs r active host → J c' cs' r active host

/-- The property does not read the registry and the active map. -/
def Property.IgnoresDevices (J : Property) : Prop :=
  ∀ ⦃c cs r r' active active' host⦄, J c cs r active host → J c cs r' active' host

theorem Property.ignoresEdits_const (I : Invariant) :
    Property.IgnoresEdits fun _ _ => I := fun _ _ _ _ _ _ _ h => h

/-- A law of logs that asks nothing of a call that is not about name servers. -/
structure Law extends Proc.LogLaw Call.Answer ActivateCall where
  call : ∀ {c : Call}, c.isDns = false → ∀ a, Holds [.call c a]

/-- The law that every activation satisfies `P`. -/
def Law.activations (P : ActivateCall → Prop) : Law where
  toLogLaw := Proc.LogLaw.notes P
  call _ _ _ hn := nomatch List.mem_singleton.mp hn

/-- The program preserves `J` and obeys the law. -/
abbrev Lawful {α : Type} (w : World Call.Answer) (J : Property) (L : Law) (prog : M α) : Prop :=
  Proc.Lawful w J.On L.toLogLaw prog

abbrev LawfulAt {α : Type} (w : World Call.Answer) (J : Property) (L : Law) (prog : M α) (k : ℕ)
    (m : NetworkManager) : Prop :=
  Proc.LawfulAt w J.On L.toLogLaw prog k m

theorem Lawful.sound {α : Type} {w : World Call.Answer} {I : Invariant} {P : ActivateCall → Prop}
    {prog : M α} (h : Lawful w (fun _ _ => I) (.activations P) prog) : Sound w I P prog := h

variable {w : World Call.Answer} {J : Property} {L : Law} {α : Type}

theorem Law.holds_map_liftEntry {log : List (Entry Call.Answer Empty)}
    (h : ∀ c a, .call c a ∈ log → c.isDns = false) :
    L.Holds (log.map Proc.liftEntry) := by
  induction log with
  | nil => exact L.nil
  | cons e log ih =>
    have hrest := ih fun c a hmem => h c a (List.mem_cons_of_mem _ hmem)
    cases e with
    | note n => exact n.elim
    | call c a => exact L.append (L.call (h c a List.mem_cons_self) a) hrest

/-! ## The rule of a law -/

/-- Preserving `J` and obeying the law, as a rule of conduct. -/
abbrev ruleOf (J : Property) (L : Law) : Conduct := .ofLaw J.On L.toLogLaw

theorem allowsAudit_ruleOf (actor action detail : String) :
    AllowsAudit (ruleOf J L) actor action detail := fun _ _ hm => ⟨hm, L.call rfl _⟩

theorem allowsPlain_ruleOf : AllowsPlain (ruleOf J L) := fun hc _ _ hm =>
  ⟨hm, L.call (Call.isDns_of_isPlain hc) _⟩

section Steady

variable (hJ : ∀ config connections, Steady (J config connections))
include hJ

variable {m : NetworkManager} {k : ℕ}

theorem lenient_ruleOf : Lenient (ruleOf J L) where
  call hc := allowsPlain_ruleOf (Call.of_isInert hc).1
  event _ _ hm := ⟨hm, L.call rfl _⟩
  proxy _ _ hm := ⟨hm, L.nil⟩
  firewall m op nft _ hm := ⟨hJ m.config m.connections m.devices m.active m.host op nft hm, L.nil⟩
  hostapd _ _ hm := ⟨hm, L.nil⟩

theorem lawful_deactivated (profileId actor deviceName : String) (result : Result Unit) :
    Lawful w J L (deactivated profileId actor deviceName result) :=
  obeys_deactivated (lenient_ruleOf hJ) (allowsAudit_ruleOf _ _ _) result

theorem lawfulAt_activated {profileId actor deviceName : String} {a : ActiveConnection}
    (hm : J.On { m with active := m.active.insert deviceName a }) :
    LawfulAt w J L (activated profileId actor deviceName a) k m :=
  .bind ⟨hm, L.nil⟩ fun _ =>
    obeys_afterEntry (R := ruleOf J L) (lenient_ruleOf hJ) (allowsAudit_ruleOf _ _ _)

variable (hwrite : ∀ path servers search outcome,
  L.Holds [.call (.writeResolvConf path servers search) outcome])
include hwrite

theorem lawfulAt_profilesLoaded {profiles : List ConnectionProfile}
    (href : LawfulAt w J L refresh k { m with connections := profiles }) :
    LawfulAt w J L (profilesLoaded (.ok profiles)) k m := by
  refine .bind_run L.nil (href.bind fun refreshed => ?_)
  cases refreshed with
  | error e => exact .pure _
  | ok u =>
    refine .bind ?_ fun _ => .pure _
    exact obeys_settle (R := ruleOf J L) (lenient_ruleOf hJ) fun _ _ _ _ _ hm =>
      ⟨hm, hwrite _ _ _ _⟩

theorem lawfulAt_new (hm : J.On m)
    (href : ∀ profiles, LawfulAt w J L refresh 1 { m with connections := profiles }) :
    LawfulAt w J L new 0 m := by
  refine .bind_run (L.call (c := .loadProfiles) rfl _) ?_
  show LawfulAt w J L (profilesLoaded (w 0 .loadProfiles)) 1 m
  cases (w 0 .loadProfiles : Result (List ConnectionProfile)) with
  | error e => exact ⟨hm, L.nil⟩
  | ok profiles => exact lawfulAt_profilesLoaded hJ hwrite (href profiles)

end Steady

/-! ## The stages -/

section Stages

variable {m : NetworkManager} (hJ : ∀ config connections, Steady (J config connections))
  (hedit : J.IgnoresEdits)
include hJ hedit

theorem permissive_ruleOf : Permissive (ruleOf J L) where
  toLenient := lenient_ruleOf hJ
  put _ _ _ hm := ⟨hedit hm, L.nil⟩
  config _ _ hm := ⟨hedit hm, L.nil⟩
  connectivity _ _ hm := ⟨hm, L.nil⟩
  register _ hm := ⟨hm, L.nil⟩
  unregister _ _ hm := ⟨hm, L.nil⟩

variable (hunplug : ∀ c cs r active host name, J c cs r active host →
    J c cs (r.remove name) (active.erase name) host)
  (hactivate : ∀ id actor, Lawful w J L (activateProfile id actor))
include hunplug hactivate

/-- **Lawfulness of a stage.** If `J` is steady, activating is lawful, dropping an unplugged device
is, and so is, from the state that the stage starts in, the refresh or the deactivation that it
makes, then the stage is lawful. -/
theorem lawfulAt_program (hm : J.On m) (stage : Daemon.Stage)
    (href : stage.refreshes = true → LawfulAt w J L refresh 0 m)
    (htd : ∀ id actor, stage.takesDown = some id →
      LawfulAt w J L (deactivateProfile id actor) 0 m) :
    LawfulAt w J L stage.program 0 m := by
  have hR : Permissive (ruleOf J L) := permissive_ruleOf hJ hedit
  have hfst : AllowsFirst w (ruleOf J L) stage m :=
    ⟨fun h _ => href h, fun name _ hm => ⟨hunplug _ _ _ _ _ name hm, L.nil⟩⟩
  exact obeysAt_program_of_plain hR allowsAudit_ruleOf hactivate hfst
    (fun id actor h _ => htd id actor h) (fun _ _ _ _ _ _ hm => ⟨hedit hm, L.nil⟩)
    allowsPlain_ruleOf hm

end Stages

/-! ## Properties that do not read the registry and the active map -/

section Unregistered

variable (hJ : ∀ config connections, Steady (J config connections)) (hfree : J.IgnoresDevices)
include hfree

theorem lawful_onDevice {prog : TryProg Work α}
    (hlog : ∀ k work, L.Holds ((prog.run w k work).log.map Proc.liftEntry))
    (device : NetworkDevice) : Lawful w J L (onDevice device prog) :=
  fun k m hm => ⟨hfree hm, hlog k ⟨device, m.sessions⟩⟩

theorem lawful_refresh (hJ : ∀ config connections, Steady (J config connections)) :
    Lawful w J L refresh := fun _ _ =>
  obeysAt_refresh (R := ruleOf J L) (lenient_ruleOf hJ) fun _ _ hm => ⟨hfree hm, L.nil⟩

include hJ

theorem lawful_activationDone (profileId actor deviceName : String)
    (result : Result ActiveConnection) :
    Lawful w J L (activationDone profileId actor deviceName result) := by
  cases result with
  | ok active => exact fun _ _ hm => lawfulAt_activated hJ (hfree hm)
  | error e =>
    refine .bind ?_ fun _ => .pure _
    refine .modify fun m hm => ⟨?_, L.nil⟩
    split
    · exact hfree hm
    · exact hm

theorem lawful_deactivateProfile (profileId actor : String) :
    Lawful w J L (deactivateProfile profileId actor) := by
  have hlog : ∀ k work,
      L.Holds ((Activation.deactivate.run w k work).log.map Proc.liftEntry) := fun k work =>
    L.holds_map_liftEntry fun c a h =>
      Call.isDns_of_isLink (Activation.quiet_deactivate w k work c a h)
  refine fun k m => obeysAt_deactivateProfile (R := ruleOf J L) (lenient_ruleOf hJ)
    fun entry _ _ => ?_
  have hent : Lawful w J L (deactivateEntry profileId actor (some entry)) := by
    refine .bind ?_ fun _ => Proc.Obeys.get.bind fun m => ?_
    · exact .modify fun _ hm => ⟨hfree hm, L.nil⟩
    · cases m.devices.get entry.1 with
      | none => exact .pure _
      | some device =>
        exact (lawful_onDevice hfree hlog _).bind fun _ => lawful_deactivated hJ _ _ _ _
  exact hent (k + 1) m

theorem lawful_activateProfile
    (hactivation : ∀ registry profile device k work, L.Holds (.note ⟨registry, profile, device⟩ ::
      ((Activation.activate profile).run w k work).log.map Proc.liftEntry))
    (profileId actor : String) : Lawful w J L (activateProfile profileId actor) := by
  refine obeys_activateProfile (R := ruleOf J L) (lenient_ruleOf hJ)
    fun k m profile device _ _ _ => ?_
  exact obeysAt_activateDevice (R := ruleOf J L) (lenient_ruleOf hJ) rfl
    (fun _ _ hm => ⟨hfree hm, hactivation _ _ _ _ _⟩) (allowsAudit_ruleOf _ _ _)
    fun _ _ hm => ⟨hfree hm, hactivation _ _ _ _ _⟩

end Unregistered

/-! ## The firewall of the daemon -/

def OfHost (J : Firewall.Host → Prop) (_ : DeviceRegistry) (_ : Table String ActiveConnection)
    (host : Firewall.Host) : Prop := J host

theorem Property.ignoresDevices_ofHost (K : Firewall.Host → Prop) :
    Property.IgnoresDevices fun _ _ => OfHost K := fun _ _ _ _ _ _ _ h => h

theorem lawfulAt_program_ofHost {K : Firewall.Host → Prop} {m : NetworkManager}
    (hK : Steady (OfHost K))
    (hactivate : ∀ id actor, Lawful w (fun _ _ => OfHost K) L (activateProfile id actor))
    (hm : K m.host) (stage : Daemon.Stage) :
    LawfulAt w (fun _ _ => OfHost K) L stage.program 0 m :=
  lawfulAt_program (fun _ _ => hK) (Property.ignoresEdits_const _) (fun _ _ _ _ _ _ h => h)
    hactivate hm stage
    (fun _ => lawful_refresh (Property.ignoresDevices_ofHost K) (fun _ _ => hK) 0 m hm)
    fun id actor _ =>
      lawful_deactivateProfile (fun _ _ => hK) (Property.ignoresDevices_ofHost K) id actor 0 m hm

end NetworkManager

namespace Daemon

open NetworkManager

/-- An Ethernet link with carrier. -/
def wired (index : Int32) (name : String) : Interface := ⟨index, name, 0x41, 1500, none, none⟩

/-- A profile for any Ethernet device, without addresses to configure. -/
def wiredProfile (id : String) (autoconnect : Bool) : ConnectionProfile where
  id := id
  name := id
  deviceType := .ethernet
  interfaceName := none
  method := .linkLocal
  ipv6Method := .slaac
  addresses := []
  gateway := none
  dns := []
  autoconnect := autoconnect
  autoconnectPriority := 0
  metered := false
  wifi := none
  vpn := none

/-- Commands of root on a machine with these links, where nothing else happens. -/
def wiredRun (unmanaged : List String) (links : List Interface) (reqs : List Request) : Run where
  config := { Config.defaultConfig with
    general := { Config.defaultConfig.general with unmanagedDevices := unmanaged } }
  boot := ⟨none, none⟩
  newWorld := fun _ => calm links (.ok ())
  startWorld := fun _ => calm links (.ok ())
  commands := reqs.map fun req => (.request req ⟨0, 0, 1⟩, fun _ => calm links (.ok ()))

def office : List Request :=
  [.addConnection (wiredProfile "office" false), .activateConnection "office"]

section Log

variable {L : Law}
  (hactivation : ∀ w registry profile device k work, L.Holds (.note ⟨registry, profile, device⟩ ::
    ((Activation.activate profile).run w k work).log.map Proc.liftEntry))
include hactivation

theorem holds_log_step (d : Daemon) (i : Input) : L.Holds (d.step i).2.log := by
  unfold step
  split
  · exact (lawfulAt_program_ofHost (K := fun _ => True) (fun _ _ _ _ _ _ => trivial)
      (lawful_activateProfile (fun _ _ _ _ _ _ _ _ => trivial) (Property.ignoresDevices_ofHost _)
        (hactivation i.2)) trivial i.1).2
  · exact L.nil

end Log

end Daemon

end MitosNetwork
