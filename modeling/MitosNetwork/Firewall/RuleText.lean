import MitosNetwork.Firewall.Isolation

/-!
# The text of a rule

`render_rule` writes the source of a rule as it came, so what may stand in it is what `parse_cidr`
accepts: the text of an accepted rule is made of plain words and is one line.
-/

namespace MitosNetwork.Firewall

open Nft List

variable {fw fw' : Firewall} {rule : Rule}

/-! ## The text of a rule -/

/-- The words of a rule, with single blanks between them. -/
def ruleWords (rule : Rule) : List String := exprWords rule ++ [nftAction rule.action]

theorem renderRule_eq (rule : Rule) : renderRule rule = " ".intercalate (ruleWords rule) := by
  have hwords (ws : List String) (last : String) :
      String.join (ws.map (· ++ " ")) ++ last = " ".intercalate (ws ++ [last]) := by
    induction ws with
    | nil => simp
    | cons w ws ih =>
      obtain ⟨v, vs, hvs⟩ := exists_cons_of_ne_nil (concat_ne_nil last ws)
      rw [map_cons, String.join_cons, String.append_assoc, ih, cons_append, hvs,
        String.intercalate_cons_cons]
  rw [renderRule, renderExpr_eq, hwords]
  rfl

theorem wordChar_of_mem_ruleWords (h : PlainRule rule) :
    ∀ w ∈ ruleWords rule, ∀ c ∈ w.toList, wordChar c := by
  intro w hw
  rcases mem_append.mp hw with hw | hw
  · exact (plain_exprWords h w hw).2
  · rw [mem_singleton.mp hw]
    simp only [← all_eq_true]
    cases rule.action <;> decide

/-- The characters that end a word, other than a blank, are not in the text of a rule. -/
theorem notMem_renderRule (h : PlainRule rule) {c : Char} (hc : c ∈ delimiters) (hbl : c ≠ ' ') :
    c ∉ (renderRule rule).toList := by
  intro hmem
  rw [renderRule_eq, String.toList_intercalate] at hmem
  rcases Text.mem_intercalate hmem with hsep | ⟨w, hw, hcw⟩
  · exact hbl (mem_singleton.mp hsep)
  · obtain ⟨v, hv, rfl⟩ := mem_map.mp hw
    have hword := wordChar_of_mem_ruleWords h v hv c hcw
    simp [wordChar, hc] at hword

/-- How many lines end in a text. -/
def newlines (text : String) : ℕ := text.toList.count '\n'

theorem newlines_append (s t : String) : newlines (s ++ t) = newlines s + newlines t := by
  rw [newlines, String.toList_append, count_append]
  rfl

/-- A further rule adds one line to each block of its zone. -/
theorem zoneLines_concat (rules : List Rule) (rule : Rule) (zone : Zone) :
    zoneLines (rules ++ [rule]) zone = zoneLines rules zone ++
      if rule.direction = .inbound ∧ rule.zone = zone.name ∧ zone.interfaces ≠ [] then
        [⟨zone.interfaces, some rule⟩] else [] := by
  unfold zoneLines inboundRules
  by_cases hemp : zone.interfaces = []
  · simp [hemp]
  · by_cases hin : rule.direction = .inbound <;> by_cases hzone : rule.zone = zone.name <;>
      simp [hin, hzone, hemp]

/-- **The text of an accepted rule.** It has no newline, quote, brace, semicolon or hash sign, its
words are the protocol, the port, the source and the verdict, and it adds one line to each block of
its zone or one to the output chain. -/
theorem rule_text_plain (h : fw.addRule rule = .ok fw') :
    (∀ c ∈ ['\n', '"', '{', '}', ';', '#'], c ∉ (renderRule rule).toList) ∧
    (renderRule rule).toList.splitOn ' ' = (ruleWords rule).map String.toList ∧
    (∀ zone, zoneLines fw'.rules zone = zoneLines (fw.rules.filter (·.id ≠ rule.id)) zone ++
      if rule.direction = .inbound ∧ rule.zone = zone.name ∧ zone.interfaces ≠ [] then
        [⟨zone.interfaces, some rule⟩] else []) ∧
    (fw'.rules.filter fun r => r.direction = .outbound) =
      (fw.rules.filter (·.id ≠ rule.id)).filter (fun r => r.direction = .outbound) ++
        (if rule.direction = .outbound then [rule] else []) ∧
    (∀ names, newlines (InputLine.text ⟨names, some rule⟩) = newlines (ifaceSet names) + 1) ∧
    newlines (outputText rule) = 1 := by
  obtain ⟨-, hsource, rfl⟩ := addRule_eq_ok h
  have hplain := plainRule_of_validateSource hsource
  have hnewline : newlines (renderRule rule) = 0 :=
    count_eq_zero.mpr (notMem_renderRule hplain (by decide) (by decide))
  have hopen : newlines "        iifname \x7b " = 0 := by decide +kernel
  have hclose : newlines " \x7d " = 0 := by decide +kernel
  have hindent : newlines "        " = 0 := by decide +kernel
  have hend : newlines "\n" = 1 := by decide +kernel
  refine ⟨fun c hc => ?_, ?_, fun zone => ?_, ?_, fun names => ?_, ?_⟩
  · have hall : ['\n', '"', '{', '}', ';', '#'].all fun c => c ∈ delimiters ∧ c ≠ ' ' := by decide
    obtain ⟨hin, hblank⟩ := of_decide_eq_true (all_eq_true.mp hall c hc)
    exact notMem_renderRule hplain hin hblank
  · rw [renderRule_eq, String.toList_intercalate]
    refine splitOn_intercalate ' ' (fun w hw hblank => ?_) (by simp [ruleWords])
    obtain ⟨v, hv, rfl⟩ := mem_map.mp hw
    exact absurd (wordChar_of_mem_ruleWords hplain v hv ' ' hblank) (by decide)
  · exact zoneLines_concat _ rule zone
  · simp [filter_append, filter_singleton]
  · have htext : InputLine.text ⟨names, some rule⟩ = "        iifname \x7b " ++ ifaceSet names ++
        " \x7d " ++ renderRule rule ++ "\n" := rfl
    rw [htext]
    simp only [newlines_append, hopen, hclose, hend, hnewline, Nat.zero_add, Nat.add_zero]
  · simp only [outputText, newlines_append, hindent, hnewline, hend]

/-- SSH from one network. -/
def lanSsh : Rule :=
  { Rule.allowInboundPort "lan-ssh" "public" .tcp 22 with source := some "10.0.0.0/8" }

theorem rule_text_plain_lanSsh :
    ∃ fw', new.addRule lanSsh = .ok fw' ∧ (renderRule lanSsh).toList.splitOn ' ' =
      ["tcp", "dport", "22", "ip", "saddr", "10.0.0.0/8", "accept"].map String.toList :=
  have h : new.addRule lanSsh = .ok { new with rules := [lanSsh] } := by decide +kernel
  ⟨_, h, (rule_text_plain h).2.1⟩

end MitosNetwork.Firewall
