import MitosNetwork.Common.Distinct
import MitosNetwork.Common.Machine
import MitosNetwork.Firewall.Nftables
import MitosNetwork.Ip.Address
import MitosNetwork.Security.Validation

/-!
# The firewall

`src/firewall/firewall.rs`: the in-memory state and its operations. Each operation validates, edits
the state and ends in `apply`; `Op.edit` is the part before `apply` and `Host.perform` the whole
operation on the in-memory state together with the kernel's table.
-/

namespace MitosNetwork

open Firewall Validation

@[ext] structure Firewall where
  zones : List Firewall.Zone
  rules : List Firewall.Rule
  masqueradeInterfaces : List String
  forwardPairs : List (String × String)
deriving DecidableEq

namespace Firewall

variable {α : Type} {r : Result α} (fw : Firewall) {fw' : Firewall}

/-- `Firewall::new`. -/
def new : Firewall := ⟨builtinZones, [], [], []⟩

/-- The rule set that `apply` renders. -/
def ruleset : String :=
  render fw.zones fw.rules fw.masqueradeInterfaces fw.forwardPairs

def hasZone (name : String) : Bool := fw.zones.any fun z => z.name == name

def isAssigned (interface : String) : Bool :=
  fw.zones.any fun z => z.interfaces.any (· == interface)

/-! ## The edits -/

def pushInterface (interface zoneName : String) : List Zone → List Zone
  | [] => []
  | z :: zs =>
    if z.name = zoneName then { z with interfaces := z.interfaces ++ [interface] } :: zs
    else z :: pushInterface interface zoneName zs

def dropInterface (interface : String) (z : Zone) : Zone :=
  { z with interfaces := z.interfaces.filter (· ≠ interface) }

/-- `assign_zone` up to its `apply`. -/
def assignZone (interface zoneName : String) : Result Firewall :=
  match validateInterfaceName interface with
  | .error e => .error e
  | .ok () =>
    if fw.hasZone zoneName then
      .ok { fw with
        zones := pushInterface interface zoneName (fw.zones.map (dropInterface interface)) }
    else .error (.firewall ("unknown zone '" ++ zoneName ++ "'"))

/-- The check of a rule's source in `add_rule`. -/
def validateSource : Option String → Result Unit
  | none => .ok ()
  | some src =>
    match Address.parseCidr src with
    | .ok _ => .ok ()
    | .error _ => .error (.firewall ("'" ++ src ++ "' is not a valid source address/CIDR"))

/-- `add_rule` up to its `apply`. -/
def addRule (rule : Rule) : Result Firewall :=
  match validateIdentifier rule.id with
  | .error e => .error e
  | .ok () =>
    if fw.hasZone rule.zone then
      match validateSource rule.source with
      | .error e => .error e
      | .ok () => .ok { fw with rules := fw.rules.filter (·.id ≠ rule.id) ++ [rule] }
    else .error (.firewall ("unknown zone '" ++ rule.zone ++ "'"))

/-- `remove_rule` up to its `apply`. -/
def removeRule (id : String) : Firewall :=
  { fw with rules := fw.rules.filter (·.id ≠ id) }

/-- `enable_sharing` up to its `apply`. -/
def enableSharing (lan wan : String) : Result Firewall :=
  match validateInterfaceName lan with
  | .error e => .error e
  | .ok () =>
    match validateInterfaceName wan with
    | .error e => .error e
    | .ok () =>
      .ok { fw with
        masqueradeInterfaces :=
          if wan ∈ fw.masqueradeInterfaces then fw.masqueradeInterfaces
          else fw.masqueradeInterfaces ++ [wan]
        forwardPairs :=
          if (lan, wan) ∈ fw.forwardPairs then fw.forwardPairs
          else fw.forwardPairs ++ [(lan, wan)] }

/-- `disable_sharing` up to its `apply`. -/
def disableSharing (lan wan : String) : Firewall :=
  let pairs := fw.forwardPairs.filter fun p => ¬(p.1 = lan ∧ p.2 = wan)
  { fw with
    forwardPairs := pairs
    masqueradeInterfaces :=
      if pairs.any (·.2 == wan) then fw.masqueradeInterfaces
      else fw.masqueradeInterfaces.filter (· ≠ wan) }

/-! ## The operations -/

inductive Op where
  | assignZone (interface zone : String)
  | ensureDefaultZone (interface : String)
  | addRule (rule : Rule)
  | removeRule (id : String)
  | enableSharing (lan wan : String)
  | disableSharing (lan wan : String)
deriving DecidableEq

/-- The state that an operation applies; `none` when there is nothing to apply, which is
`ensure_default_zone` on an assigned interface. -/
def Op.edit : Op → Result (Option Firewall)
  | .assignZone interface zone => (fw.assignZone interface zone).map some
  | .ensureDefaultZone interface =>
    if fw.isAssigned interface then .ok none else (fw.assignZone interface defaultZone).map some
  | .addRule rule => (fw.addRule rule).map some
  | .removeRule id => .ok (some (fw.removeRule id))
  | .enableSharing lan wan => (fw.enableSharing lan wan).map some
  | .disableSharing lan wan => .ok (some (fw.disableSharing lan wan))

/-- The in-memory firewall and the kernel's table. -/
structure Host where
  fw : Firewall
  live : Live
deriving DecidableEq

/-- One operation with the outcome of its `nft -f`, should it get that far. -/
def Host.perform (h : Host) (op : Op) (nft : NftOutcome) : Host × Result Unit :=
  match op.edit h.fw with
  | .error e => (h, .error e)
  | .ok none => (h, .ok ())
  | .ok (some fw) =>
    let applied := applyRuleset fw.ruleset nft h.live
    (⟨fw, applied.2⟩, applied.1)

/-- An operation and what `nft -f` would do. -/
abbrev Step := Op × NftOutcome

/-- The host after a sequence of operations on a new firewall. `live` is the table the kernel had
before. -/
def hostAfter (live : Live) (steps : List Step) : Host :=
  Machine.finalState (fun h (s : Step) => h.perform s.1 s.2) ⟨new, live⟩ steps

/-- Whether an operation gets as far as `apply`: its arguments pass validation and there is
something to change. -/
def Op.applies : Op → Bool
  | .assignZone interface zone => (validateInterfaceName interface).isOk && fw.hasZone zone
  | .ensureDefaultZone interface =>
    !fw.isAssigned interface && (validateInterfaceName interface).isOk && fw.hasZone defaultZone
  | .addRule rule =>
    (validateIdentifier rule.id).isOk && fw.hasZone rule.zone && (validateSource rule.source).isOk
  | .removeRule _ => true
  | .enableSharing lan wan => (validateInterfaceName lan).isOk && (validateInterfaceName wan).isOk
  | .disableSharing _ _ => true

/-! ## What an operation can do -/

theorem map_some_eq_ok {a : α} : r.map some = Except.ok (some a) ↔ r = .ok a := by
  cases r with
  | error e | ok b => simp [Except.map]

theorem isOk_iff_exists : r.isOk ↔ ∃ a, r.map some = Except.ok (some a) := by
  cases r with
  | error e | ok a => simp [Except.toBool, Except.map]

theorem isOk_assignZone (interface zone : String) :
    (fw.assignZone interface zone).isOk =
      ((validateInterfaceName interface).isOk && fw.hasZone zone) := by
  unfold assignZone
  cases validateInterfaceName interface with
  | error e => rfl
  | ok u => cases hz : fw.hasZone zone <;> rfl

theorem isOk_addRule (rule : Rule) :
    (fw.addRule rule).isOk = ((validateIdentifier rule.id).isOk && fw.hasZone rule.zone &&
      (validateSource rule.source).isOk) := by
  unfold addRule
  cases validateIdentifier rule.id with
  | error e => rfl
  | ok u =>
    cases hz : fw.hasZone rule.zone with
    | false => rfl
    | true => cases validateSource rule.source <;> rfl

theorem isOk_enableSharing (lan wan : String) :
    (fw.enableSharing lan wan).isOk =
      ((validateInterfaceName lan).isOk && (validateInterfaceName wan).isOk) := by
  unfold enableSharing
  cases validateInterfaceName lan with
  | error e => rfl
  | ok u => cases validateInterfaceName wan <;> rfl

variable {fw}

theorem assignZone_eq_ok {interface zone : String} (h : fw.assignZone interface zone = .ok fw') :
    fw' = { fw with
      zones := pushInterface interface zone (fw.zones.map (dropInterface interface)) } := by
  unfold assignZone at h
  split at h
  · cases h
  · split at h
    · exact (Except.ok.inj h).symm
    · cases h

theorem addRule_eq_ok {rule : Rule} (h : fw.addRule rule = .ok fw') :
    fw.hasZone rule.zone ∧ validateSource rule.source = .ok () ∧
      fw' = { fw with rules := fw.rules.filter (·.id ≠ rule.id) ++ [rule] } := by
  unfold addRule at h
  split at h
  · cases h
  · split at h
    · rename_i hzone
      split at h
      · cases h
      · rename_i hsrc
        exact ⟨hzone, hsrc, (Except.ok.inj h).symm⟩
    · cases h

theorem enableSharing_eq_ok {lan wan : String} (h : fw.enableSharing lan wan = .ok fw') :
    fw' = { fw with
      masqueradeInterfaces := fw.masqueradeInterfaces.appendNew [wan]
      forwardPairs := fw.forwardPairs.appendNew [(lan, wan)] } := by
  unfold enableSharing at h
  split at h
  · cases h
  · split at h
    · cases h
    · rw [← Except.ok.inj h]
      congr

inductive Edit (fw : Firewall) : Op → Firewall → Prop
  | assignZone {op : Op} {interface zone : String}
      (hop : op = .assignZone interface zone ∨ op = .ensureDefaultZone interface) :
      Edit fw op { fw with
        zones := pushInterface interface zone (fw.zones.map (dropInterface interface)) }
  | addRule {rule : Rule} (hzone : fw.hasZone rule.zone)
      (hsource : validateSource rule.source = .ok ()) :
      Edit fw (.addRule rule) { fw with rules := fw.rules.filter (·.id ≠ rule.id) ++ [rule] }
  | removeRule (id : String) : Edit fw (.removeRule id) (fw.removeRule id)
  | enableSharing (lan wan : String) :
      Edit fw (.enableSharing lan wan) { fw with
        masqueradeInterfaces := fw.masqueradeInterfaces.appendNew [wan]
        forwardPairs := fw.forwardPairs.appendNew [(lan, wan)] }
  | disableSharing (lan wan : String) :
      Edit fw (.disableSharing lan wan) (fw.disableSharing lan wan)

theorem Edit.of_eq {op : Op} (h : op.edit fw = .ok (some fw')) : Edit fw op fw' := by
  cases op with
  | assignZone interface zone =>
    obtain rfl := assignZone_eq_ok (map_some_eq_ok.mp h)
    exact .assignZone (.inl rfl)
  | ensureDefaultZone interface =>
    rw [Op.edit] at h
    split at h
    · cases h
    · obtain rfl := assignZone_eq_ok (map_some_eq_ok.mp h)
      exact .assignZone (.inr rfl)
  | addRule rule =>
    obtain ⟨hzone, hsource, rfl⟩ := addRule_eq_ok (map_some_eq_ok.mp h)
    exact .addRule hzone hsource
  | removeRule id =>
    cases h
    exact .removeRule id
  | enableSharing lan wan =>
    obtain rfl := enableSharing_eq_ok (map_some_eq_ok.mp h)
    exact .enableSharing lan wan
  | disableSharing lan wan =>
    cases h
    exact .disableSharing lan wan

theorem names_pushInterface (interface zone : String) (zones : List Zone) :
    (pushInterface interface zone zones).map (·.name) = zones.map (·.name) := by
  induction zones with
  | nil => rfl
  | cons z zones ih =>
    unfold pushInterface
    split
    · rfl
    · rw [List.map_cons, ih, List.map_cons]

theorem Edit.names {op : Op} (h : Edit fw op fw') :
    fw'.zones.map (·.name) = fw.zones.map (·.name) := by
  cases h with
  | assignZone hop =>
    rw [names_pushInterface, List.map_map]
    rfl
  | addRule | removeRule | enableSharing | disableSharing => rfl

theorem applies_iff_edit (fw : Firewall) (op : Op) :
    op.applies fw ↔ ∃ fw', op.edit fw = .ok (some fw') := by
  cases op with
  | assignZone interface zone =>
    rw [Op.applies, ← isOk_assignZone]
    exact isOk_iff_exists
  | ensureDefaultZone interface =>
    rw [Op.applies, Bool.and_assoc, ← isOk_assignZone, Op.edit]
    cases fw.isAssigned interface with
    | true => simp
    | false => exact isOk_iff_exists
  | addRule rule =>
    rw [Op.applies, ← isOk_addRule]
    exact isOk_iff_exists
  | removeRule id | disableSharing lan wan => exact ⟨fun _ => ⟨_, rfl⟩, fun _ => rfl⟩
  | enableSharing lan wan =>
    rw [Op.applies, ← isOk_enableSharing]
    exact isOk_iff_exists

theorem perform_cases (h : Host) (op : Op) (nft : NftOutcome) :
    (op.applies h.fw = false ∧ (h.perform op nft).1 = h) ∨
      (op.applies h.fw = true ∧ ∃ fw, op.edit h.fw = .ok (some fw) ∧
        h.perform op nft = (⟨fw, if nft.loads then some fw.ruleset else none⟩, nft.result)) := by
  cases happ : op.applies h.fw with
  | true =>
    obtain ⟨fw, hfw⟩ := (applies_iff_edit h.fw op).mp happ
    refine .inr ⟨rfl, fw, hfw, ?_⟩
    rw [Host.perform, hfw]
    rfl
  | false =>
    refine .inl ⟨rfl, ?_⟩
    have hnone : ¬∃ fw, op.edit h.fw = .ok (some fw) := by
      rw [← applies_iff_edit, happ]
      decide
    unfold Host.perform
    split
    · rfl
    · rfl
    · rename_i fw hfw
      exact (hnone ⟨fw, hfw⟩).elim

theorem hostAfter_concat (live : Live) (steps : List Step) (s : Step) :
    hostAfter live (steps ++ [s]) = ((hostAfter live steps).perform s.1 s.2).1 := by
  rw [hostAfter, Machine.finalState_append]
  rfl

theorem fw_invariant {P : Firewall → Prop} {G : Op → Prop} (h0 : P new)
    (hedit : ∀ fw op fw', P fw → G op → op.edit fw = .ok (some fw') → P fw') (live : Live)
    {steps : List Step} (hG : ∀ s ∈ steps, G s.1) : P (hostAfter live steps).fw := by
  induction steps using List.reverseRecOn with
  | nil => exact h0
  | append_singleton steps s ih =>
    have hinv := ih fun s' hs' => hG s' (List.mem_append_left [s] hs')
    rw [hostAfter_concat]
    rcases perform_cases (hostAfter live steps) s.1 s.2 with ⟨-, hsame⟩ | ⟨-, fw, hfw, hperf⟩
    · rwa [hsame]
    · rw [hperf]
      exact hedit _ s.1 fw hinv (hG s (by simp)) hfw

end Firewall

end MitosNetwork
