import MitosNetwork.Firewall.InputChain

/-!
# How zones decide

The lines of the input chain grouped by zone: each zone that has a line for the packet decides it,
and the first such zone in the list wins. In an accepting zone the blanket accept is written before
the rules of the zone, so these never decide.
-/

namespace MitosNetwork.Firewall

open Nft List

variable {δ : Type} (sem : List Tree → δ → Bool) (pkt : Packet δ)

variable {rules : List Rule} {z : Zone}

/-- nft finds the packet's interface in the set of the zone. -/
def Zone.covers (z : Zone) : Bool := z.interfaces.any fun n => ifMatches n pkt.iifname

/-- The first inbound rule of a zone, in stored order, whose rendered expression matches the
packet. -/
def firstRule (rules : List Rule) (z : Zone) : Option Rule :=
  (inboundRules rules z).find? (ruleMatches sem pkt)

def Zone.decides (rules : List Rule) (z : Zone) : Bool :=
  z.covers pkt && (z.defaultPolicy = .accept || (firstRule sem pkt rules z).isSome)

def zoneVerdict (rules : List Rule) (z : Zone) : Option Verdict :=
  if z.covers pkt then
    if z.defaultPolicy = .accept then some .accept
    else (firstRule sem pkt rules z).map fun r => r.action.verdict
  else none

variable {sem pkt}

/-! ## The lines of a zone -/

theorem interfaces_of_mem_zoneLines {line : InputLine} (h : line ∈ zoneLines rules z) :
    line.interfaces = z.interfaces := by
  unfold zoneLines at h
  split at h
  · cases h
  · rcases mem_append.mp h with hblk | hrule
    · split at hblk
      · rw [mem_singleton.mp hblk]
      · cases hblk
    · obtain ⟨r, -, rfl⟩ := mem_map.mp hrule
      rfl

theorem findSome?_ruleLines {names : List String}
    (hcov : (names.any fun n => ifMatches n pkt.iifname) = true) (rules : List Rule) :
    (rules.map fun r => (⟨names, some r⟩ : InputLine)).findSome? (InputLine.verdict? sem pkt) =
      (rules.find? (ruleMatches sem pkt)).map fun r => r.action.verdict := by
  induction rules with
  | nil => rfl
  | cons r rules ih =>
    rw [map_cons, findSome?_cons, find?_cons, ih]
    simp only [InputLine.verdict?, hcov, Bool.true_and]
    cases ruleMatches sem pkt r <;> rfl

theorem findSome?_zoneLines (rules : List Rule) (z : Zone) :
    (zoneLines rules z).findSome? (InputLine.verdict? sem pkt) = zoneVerdict sem pkt rules z := by
  unfold zoneVerdict
  by_cases hcov : z.covers pkt
  · have hany : (z.interfaces.any fun n => ifMatches n pkt.iifname) = true := hcov
    have hne : ¬z.interfaces.isEmpty := by
      intro hemp
      rw [List.isEmpty_iff.mp hemp] at hany
      cases hany
    rw [if_pos hcov, zoneLines, if_neg hne, findSome?_append, findSome?_ruleLines hany]
    cases z.defaultPolicy with
    | accept =>
      -- the blanket accept comes first, so the rules are never looked at
      simp [InputLine.verdict?, InputLine.action, Action.verdict, hany]
    | drop => rfl
  · rw [if_neg hcov, findSome?_eq_none_iff]
    intro line hline
    unfold InputLine.verdict?
    rw [interfaces_of_mem_zoneLines hline, if_neg]
    intro hboth
    exact hcov (Bool.and_eq_true_iff.mp hboth).1

theorem findSome?_inputLines (zones : List Zone) (rules : List Rule) :
    (inputLines zones rules).findSome? (InputLine.verdict? sem pkt) =
      zones.findSome? (zoneVerdict sem pkt rules) := by
  induction zones with
  | nil => rfl
  | cons z zones ih =>
    rw [inputLines, flatMap_cons, findSome?_append, findSome?_zoneLines, findSome?_cons, ← ih]
    cases zoneVerdict sem pkt rules z <;> rfl

theorem chainVerdict_new (hnew : pkt.ctState = "new") (zones : List Zone) (rules : List Rule) :
    chainVerdict sem pkt zones rules =
      if pkt.iifname = "lo" then .accept
      else (zones.findSome? (zoneVerdict sem pkt rules)).getD .drop := by
  unfold chainVerdict
  rw [hnew, findSome?_inputLines, if_neg (by decide), if_neg (by decide)]

/-! ## The deciding zone -/

theorem zoneVerdict_eq_none_iff :
    zoneVerdict sem pkt rules z = none ↔ z.decides sem pkt rules = false := by
  unfold zoneVerdict Zone.decides
  cases z.covers pkt with
  | false => simp
  | true => cases z.defaultPolicy <;> simp

theorem findSome?_zoneVerdict (zones : List Zone) (rules : List Rule) :
    zones.findSome? (zoneVerdict sem pkt rules) =
      (zones.find? fun z => z.decides sem pkt rules).bind (zoneVerdict sem pkt rules) := by
  induction zones with
  | nil => rfl
  | cons z zones ih =>
    rw [findSome?_cons, find?_cons]
    cases hdec : z.decides sem pkt rules with
    | false => rw [zoneVerdict_eq_none_iff.mpr hdec, ih]
    | true =>
      cases hverdict : zoneVerdict sem pkt rules z with
      | none => rw [zoneVerdict_eq_none_iff.mp hverdict] at hdec; cases hdec
      | some v => simp [hverdict]

end MitosNetwork.Firewall
