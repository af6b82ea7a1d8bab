import MitosNetwork.Firewall.Firewall

/-!
# The live table

What the operations of the firewall do to the kernel's table. `apply` deletes the table before it
loads the new text, so a text that nft does not load leaves no table behind.
-/

namespace MitosNetwork.Firewall

variable {steps : List Step} {live : Live}

/-- Some operation of the run has applied its rule set successfully. -/
def Applied (live : Live) (steps : List Step) : Prop :=
  ∃ before op after, steps = before ++ (op, .loaded) :: after ∧
    op.applies (hostAfter live before).fw

/-- After a further operation the live table is there, and it is the one from before or the newly
rendered one. -/
def LiveKept (h : Host) (s : Step) : Prop :=
  ∃ text, (h.perform s.1 s.2).1.live = some text ∧
    (h.live = some text ∨ text = (h.perform s.1 s.2).1.fw.ruleset)

/-- Every operation that applies after the first success has its rule set loaded. -/
def LoadsAfterFirst (live : Live) (steps : List Step) : Prop :=
  ∀ before s after, steps = before ++ s :: after → Applied live before →
    s.1.applies (hostAfter live before).fw → s.2.loads

theorem LoadsAfterFirst.of_append {more : List Step} (h : LoadsAfterFirst live (steps ++ more)) :
    LoadsAfterFirst live steps := by
  rintro before s after rfl
  exact h before s (after ++ more) (by simp)

theorem Applied.of_concat {s : Step} (h : Applied live (steps ++ [s])) :
    Applied live steps ∨ (s.2 = .loaded ∧ s.1.applies (hostAfter live steps).fw) := by
  obtain ⟨before, op, after, heq, happ⟩ := h
  rcases List.eq_nil_or_concat after with rfl | ⟨init, last, rfl⟩
  · obtain ⟨rfl, hs⟩ := List.append_inj' heq rfl
    obtain rfl := List.singleton_inj.mp hs
    exact .inr ⟨rfl, happ⟩
  · rw [List.concat_eq_append, ← List.cons_append, ← List.append_assoc] at heq
    obtain ⟨rfl, -⟩ := List.append_inj' heq rfl
    exact .inl ⟨before, op, init, rfl, happ⟩

theorem live_isSome_of_applied (hld : LoadsAfterFirst live steps) (happ : Applied live steps) :
    (hostAfter live steps).live.isSome := by
  -- the last operation decides: it loaded the table, or it found one and kept or replaced it
  induction steps using List.reverseRecOn with
  | nil =>
    obtain ⟨before, op, after, heq, -⟩ := happ
    cases before <;> cases heq
  | append_singleton steps s ih =>
    rw [hostAfter_concat]
    have hbefore := fun h => ih hld.of_append h
    rcases perform_cases (hostAfter live steps) s.1 s.2 with ⟨hidle, hsame⟩ | ⟨hact, fw, -, hperf⟩
    · rw [hsame]
      refine hbefore (happ.of_concat.resolve_right fun hs => ?_)
      rw [hidle] at hs
      exact Bool.noConfusion hs.2
    · have hload : s.2.loads := by
        rcases happ.of_concat with hprev | ⟨hs, -⟩
        · exact hld steps s [] rfl hprev hact
        · rw [hs]
          rfl
      rw [hperf, if_pos hload, Option.isSome_some]

/-- **The live table persists exactly when nft never fails.** Once an apply has succeeded, every
further operation leaves a live table, the old or the newly rendered one, if and only if every later
operation that reaches `apply` has its rule set loaded. -/
theorem live_kept_iff (live : Live) (steps : List Step) :
    (∀ before s after, steps = before ++ s :: after → Applied live before →
      LiveKept (hostAfter live before) s) ↔
    ∀ before s after, steps = before ++ s :: after → Applied live before →
      s.1.applies (hostAfter live before).fw → s.2.loads := by
  constructor
  · intro hkept before s after heq happ hact
    obtain ⟨text, hlive, -⟩ := hkept before s after heq happ
    rcases perform_cases (hostAfter live before) s.1 s.2 with ⟨hidle, -⟩ | ⟨-, fw, -, hperf⟩
    · rw [hidle] at hact
      exact Bool.noConfusion hact
    · rw [hperf] at hlive
      by_contra hload
      rw [if_neg hload] at hlive
      cases hlive
  · rintro hloads before s after rfl happ
    have hsome := live_isSome_of_applied (LoadsAfterFirst.of_append hloads) happ
    rcases perform_cases (hostAfter live before) s.1 s.2 with ⟨-, hsame⟩ | ⟨hact, fw, -, hperf⟩
    · obtain ⟨text, htext⟩ := Option.isSome_iff_exists.mp hsome
      exact ⟨text, by rw [hsame, htext], .inl htext⟩
    · refine ⟨fw.ruleset, ?_, .inr (by rw [hperf])⟩
      rw [hperf, if_pos (hloads before s after rfl happ hact)]

/-- A rule for ICMP without a port, which renders as `icmp accept`. -/
def pingRule : Rule := ⟨"ping", "public", .inbound, .accept, some .icmp, none, none⟩

/-- nft refuses the text of a later rule and the table is gone. -/
theorem not_liveKept_rejected :
    Applied none [(.assignZone "eth0" "public", .loaded)] ∧
      ¬LiveKept (hostAfter none [(.assignZone "eth0" "public", .loaded)])
        (.addRule pingRule, .rejected "exit status: 1" "syntax error") := by
  constructor
  · exact ⟨[], .assignZone "eth0" "public", [], rfl, by decide⟩
  · rintro ⟨text, hlive, -⟩
    cases hlive

end MitosNetwork.Firewall
