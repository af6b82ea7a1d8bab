import MitosNetwork.Firewall.Structure
import MitosNetwork.Firewall.Zones

/-!
# Zone isolation

Which packets the rendered input chain lets in, for every firewall that the operations can reach.
An interface is in at most one zone, so with names that nft reads as they are written only the lines
of its own zone can decide a packet. A name with a quote, or one that ends in an asterisk, is
accepted by `validate_interface_name` and is read as something else.
-/

namespace MitosNetwork.Firewall

open Nft List

variable {zones : List Zone} {interface : String} {z : Zone} {fw fw' : Firewall}

/-- A name that nft reads back as exactly this interface. -/
def ExactName (n : String) : Prop := PlainName n ∧ n.toList.getLast? ≠ some '*'

instance (n : String) : Decidable (ExactName n) := inferInstanceAs (Decidable (_ ∧ _))

/-- The interface names of an operation are read as they are written. -/
def Op.Exact : Op → Prop
  | .assignZone interface _ | .ensureDefaultZone interface => ExactName interface
  | .enableSharing lan wan => PlainName lan ∧ PlainName wan
  | .addRule _ | .removeRule _ | .disableSharing _ _ => True

instance : (op : Op) → Decidable op.Exact
  | .assignZone interface _
  | .ensureDefaultZone interface => inferInstanceAs (Decidable (ExactName interface))
  | .enableSharing lan wan => inferInstanceAs (Decidable (PlainName lan ∧ PlainName wan))
  | .addRule _ | .removeRule _ | .disableSharing _ _ => inferInstanceAs (Decidable True)

def Zone.Apart (a b : Zone) : Prop := ∀ i ∈ a.interfaces, i ∉ b.interfaces

structure Isolated (fw : Firewall) : Prop where
  apart : fw.zones.Pairwise Zone.Apart
  names : ∀ z ∈ fw.zones, ∀ i ∈ z.interfaces, ExactName i
  rest : PlainRest fw.rules fw.masqueradeInterfaces fw.forwardPairs

/-! ## The edits keep zones apart -/

theorem mem_pushInterface {name : String} (h : z ∈ pushInterface interface name zones) :
    ∃ y ∈ zones, ∀ i ∈ z.interfaces, i ∈ y.interfaces ∨ i = interface := by
  induction zones with
  | nil => cases h
  | cons y ys ih =>
    unfold pushInterface at h
    split at h
    · rcases mem_cons.mp h with rfl | hz
      · refine ⟨y, mem_cons_self, fun i hi => ?_⟩
        exact (mem_append.mp hi).imp_right mem_singleton.mp
      · exact ⟨z, mem_cons_of_mem y hz, fun i hi => .inl hi⟩
    · rcases mem_cons.mp h with rfl | hz
      · exact ⟨z, mem_cons_self, fun i hi => .inl hi⟩
      · obtain ⟨x, hx, hsub⟩ := ih hz
        exact ⟨x, mem_cons_of_mem y hx, hsub⟩

theorem WellFormed.apart (h : WellFormed fw) : fw.zones.Pairwise Zone.Apart :=
  (nodup_flatMap.mp h.interfaces).2.imp fun hdisjoint _ ha hb => hdisjoint ha hb

theorem exactName_of_assigned (h : ∀ z ∈ zones, ∀ i ∈ z.interfaces, ExactName i) {zone : String}
    (hname : ExactName interface) :
    ∀ z ∈ pushInterface interface zone (zones.map (dropInterface interface)), ∀ i ∈ z.interfaces,
      ExactName i := by
  intro z hz i hi
  obtain ⟨y, hy, hsub⟩ := mem_pushInterface hz
  rcases hsub i hi with hiy | rfl
  · obtain ⟨x, hx, rfl⟩ := mem_map.mp hy
    exact h x hx i (mem_filter.mp hiy).1
  · exact hname

theorem cidr_of_validateSource {source : Option String} (h : validateSource source = .ok ()) :
    ∀ src ∈ source, ∃ cidr, Address.parseCidr src = .ok cidr := by
  intro src hsrc
  rw [Option.mem_def.mp hsrc] at h
  unfold validateSource at h
  simp only at h
  split at h
  · exact ⟨_, ‹_›⟩
  · cases h

theorem plainRule_of_validateSource {rule : Rule} (h : validateSource rule.source = .ok ()) :
    PlainRule rule := by
  intro src hsrc
  obtain ⟨cidr, hcidr⟩ := cidr_of_validateSource h src hsrc
  refine ⟨Address.ne_empty_of_parseCidr hcidr, fun c hc => ?_⟩
  exact wordChar_of_class (p := fun c => decide (Address.AddressChar c)) (by decide)
    (decide_eq_true (Address.addressChar_of_parseCidr hcidr c hc))

theorem Isolated.edit {op : Op} (h : Isolated fw) (hop : op.Exact) (hwf : WellFormed fw')
    (hedit : op.edit fw = .ok (some fw')) : Isolated fw' := by
  cases Edit.of_eq hedit with
  | assignZone hasn =>
    refine ⟨hwf.apart, exactName_of_assigned h.names ?_, h.rest⟩
    rcases hasn with rfl | rfl <;> exact hop
  | addRule _ hsrc =>
    refine ⟨h.apart, h.names, ⟨fun r hr => ?_, h.rest.masquerade, h.rest.forward⟩⟩
    rcases mem_append.mp hr with hr | hr
    · exact h.rest.rules r (mem_filter.mp hr).1
    · obtain rfl := mem_singleton.mp hr
      exact plainRule_of_validateSource hsrc
  | removeRule =>
    exact ⟨h.apart, h.names, ⟨fun r hr => h.rest.rules r (mem_filter.mp hr).1,
      h.rest.masquerade, h.rest.forward⟩⟩
  | enableSharing lan wan =>
    refine ⟨h.apart, h.names, ⟨h.rest.rules, fun i hi => ?_, fun p hp => ?_⟩⟩
    · rcases mem_appendNew.mp hi with hi | hi
      · exact h.rest.masquerade i hi
      · rw [mem_singleton.mp hi]
        exact hop.2
    · rcases mem_appendNew.mp hp with hp | hp
      · exact h.rest.forward p hp
      · rw [mem_singleton.mp hp]
        exact hop
  | disableSharing =>
    refine ⟨h.apart, h.names, ⟨h.rest.rules, fun i hi => ?_, fun p hp => ?_⟩⟩
    · unfold disableSharing at hi
      dsimp only at hi
      split at hi
      · exact h.rest.masquerade i hi
      · exact h.rest.masquerade i (mem_filter.mp hi).1
    · exact h.rest.forward p (mem_filter.mp hp).1

theorem isolated_new : Isolated new where
  apart := by simp [new, builtinZones, Zone.Apart]
  names := by decide
  rest := ⟨fun _ hr => (nomatch hr), fun _ hi => (nomatch hi), fun _ hp => (nomatch hp)⟩

theorem isolated_hostAfter (live : Live) {steps : List Step} (h : ∀ s ∈ steps, s.1.Exact) :
    Isolated (hostAfter live steps).fw := by
  refine (fw_invariant (P := fun fw => WellFormed fw ∧ Isolated fw) ⟨wellFormed_new, isolated_new⟩
    (fun fw op fw' hfw hop hedit => ?_) live h).2
  have hwf := hfw.1.edit hedit
  exact ⟨hwf, hfw.2.edit hop hwf hedit⟩

/-! ## Decisions -/

section Decisions

variable {δ : Type} {sem : List Tree → δ → Bool} {pkt : Packet δ}

theorem Isolated.plain (h : Isolated fw) :
    Plain fw.zones fw.rules fw.masqueradeInterfaces fw.forwardPairs :=
  ⟨h.rest, fun z hz i hi => (h.names z hz i hi).1⟩

theorem Isolated.covers_iff (h : Isolated fw) (hz : z ∈ fw.zones) :
    z.covers pkt ↔ pkt.iifname ∈ z.interfaces := by
  unfold Zone.covers
  rw [any_eq_true]
  constructor
  · rintro ⟨n, hn, hmat⟩
    rw [ifMatches_eq (h.names z hz n hn).2] at hmat
    exact of_decide_eq_true hmat ▸ hn
  · intro hi
    refine ⟨_, hi, ?_⟩
    rw [ifMatches_eq (h.names z hz _ hi).2]
    exact decide_eq_true rfl

theorem Isolated.zoneVerdict_eq_none (h : Isolated fw) (hz : z ∈ fw.zones)
    (hi : pkt.iifname ∉ z.interfaces) : zoneVerdict sem pkt fw.rules z = none := by
  unfold zoneVerdict
  rw [if_neg fun hcov => hi ((h.covers_iff hz).mp hcov)]

theorem Isolated.findSome?_zoneVerdict (h : Isolated fw) (hz : z ∈ fw.zones)
    (hi : pkt.iifname ∈ z.interfaces) :
    fw.zones.findSome? (zoneVerdict sem pkt fw.rules) = zoneVerdict sem pkt fw.rules z := by
  have hmem : ∀ y ∈ fw.zones, pkt.iifname ∉ y.interfaces →
      zoneVerdict sem pkt fw.rules y = none := fun y hy => h.zoneVerdict_eq_none hy
  obtain ⟨before, after, hsp⟩ := append_of_mem hz
  have hap := h.apart
  rw [hsp] at hap hmem ⊢
  obtain ⟨-, hzafter, hbefore⟩ := pairwise_append.mp hap
  have hnone₁ : before.findSome? (zoneVerdict sem pkt fw.rules) = none :=
    findSome?_eq_none_iff.mpr fun y hy =>
      hmem y (mem_append_left _ hy) fun hiy => hbefore y hy z mem_cons_self _ hiy hi
  have hnone₂ : after.findSome? (zoneVerdict sem pkt fw.rules) = none :=
    findSome?_eq_none_iff.mpr fun y hy =>
      hmem y (mem_append_right _ (mem_cons_of_mem z hy))
        ((pairwise_cons.mp hzafter).1 y hy _ hi)
  rw [findSome?_append, hnone₁, findSome?_cons, hnone₂]
  cases zoneVerdict sem pkt fw.rules z <;> rfl

/-- **Zone isolation and default deny.** Whatever nft made of the rule sets on the way: with names
that nft reads as they are written, a new packet on an interface of a zone that drops by default
meets the action of the first inbound rule of that zone that matches it, and is dropped if there is
none; a new packet on an interface of no zone is dropped. -/
theorem zone_isolation (sem : List Tree → δ → Bool) (live : Live) (steps : List Step)
    (hexact : ∀ s ∈ steps, s.1.Exact) (pkt : Packet δ) (hlo : pkt.iifname ≠ "lo")
    (hnew : pkt.ctState = "new") :
    (∀ z ∈ (hostAfter live steps).fw.zones, pkt.iifname ∈ z.interfaces → z.defaultPolicy = .drop →
      textVerdict sem pkt "inet" tableName "input" (hostAfter live steps).fw.ruleset =
        some (((firstRule sem pkt (hostAfter live steps).fw.rules z).map
          fun r => r.action.verdict).getD .drop)) ∧
    ((∀ z ∈ (hostAfter live steps).fw.zones, pkt.iifname ∉ z.interfaces) →
      textVerdict sem pkt "inet" tableName "input" (hostAfter live steps).fw.ruleset =
        some .drop) := by
  have h := isolated_hostAfter live hexact
  rw [ruleset, textVerdict_render sem pkt h.plain, chainVerdict_new hnew, if_neg hlo]
  constructor
  · intro z hz hi hdrop
    rw [h.findSome?_zoneVerdict hz hi, zoneVerdict, if_pos ((h.covers_iff hz).mpr hi), hdrop]
    rfl
  · intro hnone
    have hall : (hostAfter live steps).fw.zones.findSome?
        (zoneVerdict sem pkt (hostAfter live steps).fw.rules) = none :=
      findSome?_eq_none_iff.mpr fun z hz => h.zoneVerdict_eq_none hz (hnone z hz)
    rw [hall, Option.getD_none]

end Decisions

/-- An interface in the public zone and a rule for SSH, which nft once refuses to load. -/
def sshSteps (interface : String) : List Step :=
  [(.assignZone interface "public", .loaded),
    (.addRule (.allowInboundPort "ssh" "public" .tcp 22), .rejected "exit status: 1" "")]

/-- A packet that the rule matches gets in on the interface of the zone and on no other. -/
theorem zone_isolation_ssh :
    textVerdict (fun _ _ => true) ⟨"wlan0", "new", ()⟩ "inet" tableName "input"
        (hostAfter none (sshSteps "wlan0")).fw.ruleset = some .accept ∧
      textVerdict (fun _ _ => true) ⟨"eth0", "new", ()⟩ "inet" tableName "input"
        (hostAfter none (sshSteps "wlan0")).fw.ruleset = some .drop := by
  have hrule : firstRule (fun _ _ => true) (⟨"wlan0", "new", ()⟩ : Packet Unit)
      (hostAfter none (sshSteps "wlan0")).fw.rules ⟨"public", .drop, ["wlan0"]⟩ =
        some (.allowInboundPort "ssh" "public" .tcp 22) := by decide +kernel
  constructor
  · have h := (zone_isolation (fun _ _ => true) none (sshSteps "wlan0") (by decide)
      (⟨"wlan0", "new", ()⟩ : Packet Unit) (by decide) rfl).1 ⟨"public", .drop, ["wlan0"]⟩
      (by decide) (by decide) rfl
    rwa [hrule] at h
  · exact (zone_isolation (fun _ _ => true) none (sshSteps "wlan0") (by decide)
      (⟨"eth0", "new", ()⟩ : Packet Unit) (by decide) rfl).2 (by decide)

/-- A name that closes its quotes and the set, and comments out the rest of the line. -/
def breakout : String := "a\"\x7daccept#"

/-- The name is valid, the interface `a` is in no zone and no rule matches, but the packet is
accepted. -/
theorem zone_isolation_breakout :
    (Validation.validateInterfaceName breakout).isOk ∧
      (∀ z ∈ (hostAfter none (sshSteps breakout)).fw.zones, "a" ∉ z.interfaces) ∧
      textVerdict (fun _ _ => false) ⟨"a", "new", ()⟩ "inet" tableName "input"
        (hostAfter none (sshSteps breakout)).fw.ruleset = some .accept := by
  refine ⟨by decide +kernel, by decide +kernel, ?_⟩
  have hrest : PlainRest (hostAfter none (sshSteps breakout)).fw.rules
      (hostAfter none (sshSteps breakout)).fw.masqueradeInterfaces
      (hostAfter none (sshSteps breakout)).fw.forwardPairs := by
    have hrules : (hostAfter none (sshSteps breakout)).fw.rules =
      [.allowInboundPort "ssh" "public" .tcp 22] := by decide +kernel
    refine ⟨?_, by decide +kernel, by decide +kernel⟩
    rw [hrules]
    simp [PlainRule, Rule.allowInboundPort]
  -- the one line of the zones reads as a blanket accept for the interface `a`
  have hline : Lexes (String.join ((inputLines (hostAfter none (sshSteps breakout)).fw.zones
      (hostAfter none (sshSteps breakout)).fw.rules).map InputLine.text))
      (flattenAll ([[word "iifname", .block [str "a"], word "accept"]].flatMap
        fun st => st ++ [sep])) := by decide +kernel
  rw [ruleset, textVerdict_of_lexes _ _ hrest hline (by simp) (by simp [word, str, Tree.isSep]) rfl]
  decide +kernel

end MitosNetwork.Firewall
