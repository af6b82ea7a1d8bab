import MitosNetwork.Firewall.Isolation

/-!
# Interface names between their quotes

What nft reads in the text of `nftables::render`, for every firewall that the operations can reach.
The template comes back, with each name one string token in its place, exactly when no name that is
written holds a quote. `validate_interface_name` does not look for one.
-/

namespace MitosNetwork.Firewall

open Nft List

variable {fw : Firewall} {rules : List Rule} {n : String}

/-- `render` writes a line for the zone, if it has an interface. -/
def Zone.Written (rules : List Rule) (z : Zone) : Prop :=
  z.defaultPolicy = .accept ∨ ∃ r ∈ rules, r.zone = z.name ∧ r.direction = .inbound

instance (rules : List Rule) (z : Zone) : Decidable (z.Written rules) :=
  inferInstanceAs (Decidable (_ ∨ _))

def template (fw : Firewall) : List Tree :=
  rulesetTrees ((inputLines fw.zones fw.rules).map lineTrees)
    (fw.rules.filter fun r => r.direction = .outbound) fw.masqueradeInterfaces fw.forwardPairs

/-! ## The rules of a reachable firewall -/

theorem plainRules_edit {fw' : Firewall} {op : Op} (h : ∀ r ∈ fw.rules, PlainRule r)
    (hedit : op.edit fw = .ok (some fw')) : ∀ r ∈ fw'.rules, PlainRule r := by
  cases Edit.of_eq hedit with
  | assignZone | enableSharing | disableSharing => exact h
  | addRule _ hsrc =>
    intro r hr
    rcases mem_append.mp hr with hr | hr
    · exact h r (mem_filter.mp hr).1
    · obtain rfl := mem_singleton.mp hr
      exact plainRule_of_validateSource hsrc
  | removeRule => exact fun r hr => h r (mem_filter.mp hr).1

theorem plainRules_hostAfter (live : Live) (steps : List Step) :
    ∀ r ∈ (hostAfter live steps).fw.rules, PlainRule r :=
  fw_invariant (P := fun fw => ∀ r ∈ fw.rules, PlainRule r) (G := fun _ => True)
    (fun _ hr => nomatch hr) (fun _ _ _ hfw _ hedit => plainRules_edit hfw hedit) live
    fun _ _ => trivial

/-! ## The names that are written -/

theorem mem_zoneLines_names {z : Zone} :
    (∃ line ∈ zoneLines rules z, n ∈ line.interfaces) ↔ z.Written rules ∧ n ∈ z.interfaces := by
  unfold zoneLines
  split
  · rename_i hemp
    rw [List.isEmpty_iff.mp hemp]
    simp
  · by_cases hacc : z.defaultPolicy = .accept
    · simp [Zone.Written, hacc]
    · -- the name is the same on every line, so it moves out of the choice of a rule
      simp only [Zone.Written, hacc, false_or, if_false, nil_append, mem_map,
        inboundRules, mem_filter, decide_eq_true_eq]
      constructor
      · rintro ⟨line, ⟨r, ⟨hr, hzone⟩, rfl⟩, hn⟩
        exact ⟨⟨r, hr, hzone⟩, hn⟩
      · rintro ⟨⟨r, hr, hzone⟩, hn⟩
        exact ⟨_, ⟨r, ⟨hr, hzone⟩, rfl⟩, hn⟩

theorem names_inputLines_iff {zones : List Zone} {P : String → Prop} :
    (∀ line ∈ inputLines zones rules, ∀ n ∈ line.interfaces, P n) ↔
      ∀ z ∈ zones, z.Written rules → ∀ i ∈ z.interfaces, P i := by
  constructor
  · intro h z hz hwrite i hi
    obtain ⟨line, hline, hmem⟩ := mem_zoneLines_names.mpr ⟨hwrite, hi⟩
    exact h line (mem_flatMap.mpr ⟨z, hz, hline⟩) i hmem
  · intro h line hline n hn
    obtain ⟨z, hz, hzline⟩ := mem_flatMap.mp hline
    obtain ⟨hwrite, hmem⟩ := mem_zoneLines_names.mp ⟨line, hzline, hn⟩
    exact h z hz hwrite n hmem

/-! ## Each name has a token in the template -/

theorem str_mem_setTrees {names : List String} (h : n ∈ names) : str n ∈ setTrees names := by
  induction names with
  | nil => cases h
  | cons m names ih =>
    cases names with
    | nil =>
      obtain rfl := mem_singleton.mp h
      exact mem_cons_self
    | cons m' rest =>
      rcases mem_cons.mp h with rfl | h
      · exact mem_cons_self
      · exact mem_cons_of_mem _ (mem_cons_of_mem _ (ih h))

theorem strToken_mem {ts : List Tree} (h : str n ∈ ts) : .leaf (.str n) ∈ flattenAll ts :=
  mem_flattenAll h mem_cons_self

theorem mem_template_of_chain (body : List Tree)
    (hbody : .block body ∈ tableBody ((inputLines fw.zones fw.rules).map lineTrees)
      (fw.rules.filter fun r => r.direction = .outbound) fw.masqueradeInterfaces fw.forwardPairs)
    {tok : Token} (htok : tok ∈ flattenAll body) : tok ∈ flattenAll (template fw) := by
  refine mem_flattenAll (t := .block _) ?_
    (mem_flatten_block (mem_flattenAll hbody (mem_flatten_block htok)))
  exact mem_append_right _ mem_cons_self

theorem mem_template_of_line {line : InputLine} (hline : line ∈ inputLines fw.zones fw.rules)
    (hn : n ∈ line.interfaces) : .leaf (.str n) ∈ flattenAll (template fw) := by
  refine mem_template_of_chain (inputBody ((inputLines fw.zones fw.rules).map lineTrees)) ?_ ?_
  · simp [tableBody]
  · have hset : .leaf (.str n) ∈ (Tree.block (setTrees line.interfaces)).flatten :=
      mem_flatten_block (strToken_mem (str_mem_setTrees hn))
    refine mem_flattenAll (mem_append_right _ (mem_flatMap.mpr ?_)) hset
    exact ⟨lineTrees line, mem_map_of_mem hline, by simp [lineTrees]⟩

theorem mem_template_of_forward {pair : String × String} (hpair : pair ∈ fw.forwardPairs)
    (hn : n = pair.1 ∨ n = pair.2) : .leaf (.str n) ∈ flattenAll (template fw) := by
  refine mem_template_of_chain (forwardBody fw.forwardPairs) ?_ (strToken_mem ?_)
  · simp [tableBody]
  · refine mem_append_right _ (mem_flatMap.mpr ⟨pair, hpair, ?_⟩)
    rcases hn with rfl | rfl
    · simp [forwardTrees]
    · simp [forwardTrees]

theorem mem_template_of_masquerade {i : String} (hi : i ∈ fw.masqueradeInterfaces) :
    .leaf (.str i) ∈ flattenAll (template fw) := by
  refine mem_template_of_chain (postroutingBody fw.masqueradeInterfaces) ?_ (strToken_mem ?_)
  · have hne : fw.masqueradeInterfaces ≠ [] := ne_nil_of_mem hi
    simp [tableBody, postroutingTrees, hne]
  · refine mem_append_right _ (mem_flatMap.mpr ⟨i, hi, ?_⟩)
    simp [masqueradeTrees]

/-! ## Reading the rule set back -/

/-- **Names between quotes.** In every firewall that the operations reach, whatever became of the
loads on the way, the rendered text reads as the template with each stored name one string token in
its place, exactly when no name that is written holds a quote. -/
theorem lex_ruleset_iff (live : Live) (steps : List Step) :
    lex (hostAfter live steps).fw.ruleset = flattenAll (template (hostAfter live steps).fw) ↔
      (∀ z ∈ (hostAfter live steps).fw.zones, z.Written (hostAfter live steps).fw.rules →
        ∀ i ∈ z.interfaces, '"' ∉ i.toList) ∧
      (∀ i ∈ (hostAfter live steps).fw.masqueradeInterfaces, '"' ∉ i.toList) ∧
      ∀ p ∈ (hostAfter live steps).fw.forwardPairs, '"' ∉ p.1.toList ∧ '"' ∉ p.2.toList := by
  have hrules := plainRules_hostAfter live steps
  generalize (hostAfter live steps).fw = fw at hrules ⊢
  constructor
  · intro hlex
    -- a name is a string token of the template, and no string token of a text holds a quote
    have hfree : QuoteFree (flattenAll (template fw)) := hlex ▸ quoteFree_lex fw.ruleset
    refine ⟨names_inputLines_iff.mp fun line hline n hn => ?_, fun i hi => ?_, fun p hp => ?_⟩
    · exact hfree n (mem_template_of_line hline hn)
    · exact hfree i (mem_template_of_masquerade hi)
    · exact ⟨hfree p.1 (mem_template_of_forward hp (.inl rfl)),
        hfree p.2 (mem_template_of_forward hp (.inr rfl))⟩
  · rintro ⟨hzones, hmasquerade, hforward⟩
    have hlines : ∀ line ∈ inputLines fw.zones fw.rules, line.Plain := by
      intro line hline
      obtain ⟨-, -, hrule⟩ := mem_inputLines hline
      exact ⟨names_inputLines_iff.mpr hzones line hline, fun r hr => hrules r (hrule r hr)⟩
    exact (lexes_render ⟨hrules, hmasquerade, hforward⟩ (lexes_lines hlines)).lex_eq

/-- The interface is moved into the trusted zone, which accepts by default. -/
def trustBreakout : List Step := [(.assignZone breakout "trusted", .loaded)]

/-- A name that passes the check, and after which the text has tokens outside the template. -/
theorem lex_ruleset_breakout :
    (Validation.validateInterfaceName breakout).isOk ∧
      lex (hostAfter none trustBreakout).fw.ruleset ≠
        flattenAll (template (hostAfter none trustBreakout).fw) := by
  refine ⟨by decide +kernel, fun hlex => ?_⟩
  have hline : ⟨[breakout], none⟩ ∈ inputLines (hostAfter none trustBreakout).fw.zones
      (hostAfter none trustBreakout).fw.rules := by decide +kernel
  have hfree := quoteFree_lex (hostAfter none trustBreakout).fw.ruleset
  rw [hlex] at hfree
  exact hfree breakout (mem_template_of_line hline mem_cons_self) (by decide +kernel)

end MitosNetwork.Firewall
