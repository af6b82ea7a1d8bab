import MitosNetwork.Firewall.Firewall

/-!
# The shape of the firewall's state

What every sequence of operations keeps, whatever becomes of its calls of nft: an interface is in
one zone at most, the rules have different ids and zones that exist, and an interface is masqueraded
exactly while a pair forwards to it. Every operation edits the state before it applies it, so an
error of nft leaves the edit in memory.
-/

namespace MitosNetwork.Firewall

open List

variable {zones : List Zone} {interface : String} {fw fw' : Firewall}

/-- The state fits together. An interface that were in two zones, or twice in one, would be twice in
the list of all interfaces. -/
structure WellFormed (fw : Firewall) : Prop where
  interfaces : (fw.zones.flatMap (·.interfaces)).Nodup
  ids : (fw.rules.map (·.id)).Nodup
  zones : ∀ rule ∈ fw.rules, rule.zone ∈ fw.zones.map (·.name)
  pairs : fw.forwardPairs.Nodup
  masquerade : fw.masqueradeInterfaces.Nodup
  wans : ∀ wan, wan ∈ fw.masqueradeInterfaces ↔ ∃ lan, (lan, wan) ∈ fw.forwardPairs

/-! ## Operations -/

theorem flatMap_pushInterface (interface name : String) (zones : List Zone) :
    (pushInterface interface name zones).flatMap (·.interfaces) ~
        interface :: zones.flatMap (·.interfaces) ∨
      (pushInterface interface name zones).flatMap (·.interfaces) =
        zones.flatMap (·.interfaces) := by
  induction zones with
  | nil => exact .inr rfl
  | cons z zs ih =>
    unfold pushInterface
    split
    · simp only [flatMap_cons, append_assoc]
      exact .inl perm_middle
    · simp only [flatMap_cons]
      refine ih.imp (fun h => ?_) fun h => by rw [h]
      exact (h.append_left _).trans perm_middle

theorem nodup_assigned (h : (zones.flatMap (·.interfaces)).Nodup) (interface name : String) :
    ((pushInterface interface name (zones.map (dropInterface interface))).flatMap
      (·.interfaces)).Nodup := by
  have hdrop : (zones.map (dropInterface interface)).flatMap (·.interfaces) =
      (zones.flatMap (·.interfaces)).filter (· ≠ interface) := by
    rw [filter_flatMap, flatMap_map]
    rfl
  have hnd := h.filter (· ≠ interface)
  rw [← hdrop] at hnd
  rcases flatMap_pushInterface interface name (zones.map (dropInterface interface)) with
    hperm | hsame
  · refine hperm.nodup_iff.mpr (nodup_cons.mpr ⟨?_, hnd⟩)
    rw [hdrop]
    simp
  · rwa [hsame]

/-- The uplink stays masqueraded while a pair forwards to it. -/
theorem masquerade_disableSharing (fw : Firewall) (lan wan : String) :
    (fw.disableSharing lan wan).masqueradeInterfaces = fw.masqueradeInterfaces.filter fun i =>
      i = wan → ∃ p ∈ (fw.disableSharing lan wan).forwardPairs, p.2 = wan := by
  unfold disableSharing
  simp only [any_eq_true, beq_iff_eq]
  split
  · rename_i hforwarded
    simp only [hforwarded, implies_true, decide_true, filter_true]
  · rename_i hforwarded
    simp only [hforwarded, imp_false]

theorem wans_disableSharing (h : WellFormed fw) (lan wan i : String) :
    i ∈ (fw.disableSharing lan wan).masqueradeInterfaces ↔
      ∃ l, (l, i) ∈ (fw.disableSharing lan wan).forwardPairs := by
  rw [masquerade_disableSharing, mem_filter, h.wans]
  grind [disableSharing]

theorem WellFormed.edit {op : Op} (h : WellFormed fw) (hedit : op.edit fw = .ok (some fw')) :
    WellFormed fw' := by
  have hzs : ∀ rule ∈ fw.rules, rule.zone ∈ fw'.zones.map (·.name) := fun rule hrule =>
    (Edit.of_eq hedit).names ▸ h.zones rule hrule
  cases Edit.of_eq hedit with
  | assignZone => exact { h with interfaces := nodup_assigned h.interfaces _ _, zones := hzs }
  | @addRule rule hzone _ =>
    refine { h with ids := ?_, zones := fun r hr => ?_ }
    · rw [map_append, nodup_append]
      refine ⟨h.ids.sublist (filter_sublist.map _), nodup_singleton _, fun id hid _ hnew heq => ?_⟩
      obtain ⟨r, hr, rfl⟩ := mem_map.mp hid
      exact of_decide_eq_true (mem_filter.mp hr).2 (heq.trans (mem_singleton.mp hnew))
    · rcases mem_append.mp hr with hr | hr
      · exact hzs r (mem_filter.mp hr).1
      · obtain ⟨z, hz, hname⟩ := any_eq_true.mp hzone
        rw [mem_singleton.mp hr, ← eq_of_beq hname]
        exact mem_map_of_mem hz
  | removeRule =>
    exact { h with
      ids := h.ids.sublist (filter_sublist.map _)
      zones := fun r hr => hzs r (mem_filter.mp hr).1 }
  | enableSharing =>
    refine { h with
      pairs := nodup_appendNew h.pairs
      masquerade := nodup_appendNew h.masquerade
      wans := fun i => ?_ }
    simp [mem_appendNew, h.wans i, exists_or]
  | disableSharing lan wan =>
    refine { h with
      pairs := h.pairs.filter _
      masquerade := ?_
      wans := wans_disableSharing h lan wan }
    rw [masquerade_disableSharing]
    exact h.masquerade.filter _

theorem wellFormed_new : WellFormed new := by
  refine ⟨by decide, by decide, by decide, by decide, by decide, fun wan => ?_⟩
  simp [new]

/-- **The shape of the firewall's state.** It is kept by every sequence of operations, whether they
succeed, fail in validation or fail in nft. -/
theorem wellFormed_hostAfter (live : Live) (steps : List Step) :
    WellFormed (hostAfter live steps).fw := by
  refine fw_invariant (G := fun _ => True) wellFormed_new ?_ live fun _ _ => trivial
  exact fun fw op fw' h _ hedit => h.edit hedit

/-! ## Errors -/

/-- The arguments name what is there already: the interface is listed once in all zones, at the end
of the first one of the name; the rule is the last one, and the only one with its id; there is no
rule with the id; the pair is forwarded and masqueraded; or the pair is not forwarded, and its
uplink is masqueraded only for another one. -/
def Op.Idle (fw : Firewall) : Op → Prop
  | .assignZone interface zone =>
    (fw.zones.flatMap (·.interfaces)).count interface = 1 ∧
      ∃ z ∈ fw.zones.find? (·.name = zone), z.interfaces.getLast? = some interface
  | .ensureDefaultZone _ => False
  | .addRule rule => fw.rules.getLast? = some rule ∧ (fw.rules.map (·.id)).count rule.id = 1
  | .removeRule id => ∀ rule ∈ fw.rules, rule.id ≠ id
  | .enableSharing lan wan => wan ∈ fw.masqueradeInterfaces ∧ (lan, wan) ∈ fw.forwardPairs
  | .disableSharing lan wan => (lan, wan) ∉ fw.forwardPairs ∧
      (wan ∈ fw.masqueradeInterfaces → ∃ lan', (lan', wan) ∈ fw.forwardPairs)

theorem dropInterface_eq_iff {z : Zone} :
    dropInterface interface z = z ↔ z.interfaces.count interface = 0 := by
  rw [dropInterface, Zone.ext_iff, count_eq_zero]
  simp only [true_and, filter_eq_self, decide_eq_true_eq]
  exact ⟨fun h hmem => h _ hmem rfl, fun h x hx heq => h (heq ▸ hx)⟩

theorem map_dropInterface_eq_iff :
    zones.map (dropInterface interface) = zones ↔
      (zones.flatMap (·.interfaces)).count interface = 0 := by
  induction zones with
  | nil => simp
  | cons z zones ih =>
    simp only [map_cons, cons.injEq, dropInterface_eq_iff, ih, flatMap_cons, count_append,
      Nat.add_eq_zero_iff]

theorem assigned_eq_iff {zone : String} (hzone : zones.any (·.name == zone)) :
    pushInterface interface zone (zones.map (dropInterface interface)) = zones ↔
      (zones.flatMap (·.interfaces)).count interface = 1 ∧
        ∃ z ∈ zones.find? (·.name = zone), z.interfaces.getLast? = some interface := by
  induction zones with
  | nil => cases hzone
  | cons z zones ih =>
    rw [map_cons, pushInterface, flatMap_cons, count_append, find?_cons]
    by_cases hname : z.name = zone
    · -- the interface is moved to the end of this zone, and out of all the others
      have hmoved : ({ dropInterface interface z with
          interfaces := (dropInterface interface z).interfaces ++ [interface] } : Zone) = z ↔
            z.interfaces.getLast? = some interface ∧ z.interfaces.count interface = 1 := by
        have hkept : z.interfaces.filter (· ≠ interface) ++ [interface] = z.interfaces ↔ _ :=
          filter_concat_eq_iff (f := id)
        rw [map_id, id] at hkept
        rw [Zone.ext_iff, ← hkept]
        exact ⟨fun h => h.2.2, fun h => ⟨rfl, rfl, h⟩⟩
      rw [if_pos (show (dropInterface interface z).name = zone from hname), cons.injEq, hmoved,
        map_dropInterface_eq_iff, decide_eq_true hname]
      constructor
      · rintro ⟨⟨hlast, hone⟩, hnone⟩
        exact ⟨by omega, z, rfl, hlast⟩
      · rintro ⟨hone, y, hy, hlast⟩
        obtain rfl := Option.some.inj hy
        have hlisted := count_pos_iff.mpr (mem_of_getLast? hlast)
        exact ⟨⟨hlast, by omega⟩, by omega⟩
    · have hrest := ih (by simpa [hname] using hzone)
      rw [if_neg (show (dropInterface interface z).name ≠ zone from hname), cons.injEq,
        dropInterface_eq_iff, decide_eq_false hname]
      refine (and_congr_right' hrest).trans ⟨fun ⟨hnone, hone, hfound⟩ => ⟨by omega, hfound⟩, ?_⟩
      rintro ⟨hone, y, hy, hlast⟩
      have hlisted : 0 < (zones.flatMap (·.interfaces)).count interface := count_pos_iff.mpr
        (mem_flatMap.mpr ⟨y, mem_of_find?_eq_some hy, mem_of_getLast? hlast⟩)
      exact ⟨by omega, by omega, y, hy, hlast⟩

theorem disableSharing_eq_iff {lan wan : String} :
    fw.disableSharing lan wan = fw ↔ Op.Idle fw (.disableSharing lan wan) := by
  have hpairs : (fw.disableSharing lan wan).forwardPairs = fw.forwardPairs ↔
      (lan, wan) ∉ fw.forwardPairs := by
    rw [disableSharing, filter_eq_self]
    grind
  rw [Firewall.ext_iff, hpairs, masquerade_disableSharing, filter_eq_self]
  constructor
  · rintro ⟨-, -, hmasquerade, hout⟩
    refine ⟨hout, fun hwan => ?_⟩
    obtain ⟨⟨lan', uplink⟩, hmem, rfl⟩ := of_decide_eq_true (hmasquerade wan hwan) rfl
    exact ⟨lan', hpairs.mpr hout ▸ hmem⟩
  · rintro ⟨hout, hmasquerade⟩
    refine ⟨rfl, rfl, fun i hi => decide_eq_true ?_, hout⟩
    rintro rfl
    obtain ⟨lan', hmem⟩ := hmasquerade hi
    exact ⟨_, (hpairs.mpr hout).symm ▸ hmem, rfl⟩

/-- An edit changes nothing exactly if its arguments name what is there already. -/
theorem edit_eq_iff {op : Op} (happ : op.applies fw = true) (hedit : op.edit fw = .ok (some fw')) :
    fw' = fw ↔ op.Idle fw := by
  cases op with
  | assignZone interface zone =>
    rw [assignZone_eq_ok (map_some_eq_ok.mp hedit), Firewall.ext_iff]
    simp only [and_true, Op.Idle]
    exact assigned_eq_iff (Bool.and_eq_true_iff.mp happ).2
  | ensureDefaultZone interface =>
    obtain ⟨hrest, hzone⟩ := Bool.and_eq_true_iff.mp happ
    obtain ⟨hnew, -⟩ := Bool.and_eq_true_iff.mp hrest
    rw [Op.edit, if_neg (by simpa using hnew)] at hedit
    rw [assignZone_eq_ok (map_some_eq_ok.mp hedit), Firewall.ext_iff]
    simp only [and_true, Op.Idle, iff_false]
    intro hsame
    obtain ⟨-, z, hz, hlast⟩ := (assigned_eq_iff hzone).mp hsame
    rw [Bool.not_eq_true', isAssigned, any_eq_false] at hnew
    exact hnew z (mem_of_find?_eq_some hz)
      (any_eq_true.mpr ⟨_, mem_of_getLast? hlast, beq_self_eq_true _⟩)
  | addRule rule =>
    rw [(addRule_eq_ok (map_some_eq_ok.mp hedit)).2.2, Firewall.ext_iff]
    simp only [and_true, true_and, Op.Idle]
    exact filter_concat_eq_iff (f := Rule.id)
  | removeRule id =>
    cases hedit
    rw [removeRule, Firewall.ext_iff]
    simp [Op.Idle]
  | enableSharing lan wan =>
    rw [enableSharing_eq_ok (map_some_eq_ok.mp hedit), Firewall.ext_iff]
    simp only [true_and, Op.Idle, appendNew_singleton]
    simp
  | disableSharing lan wan =>
    cases hedit
    exact disableSharing_eq_iff

/-- **An operation that fails.** It leaves the state as it was exactly if its arguments are
rejected, or if they name what is there already. -/
theorem failed_unchanged_iff (h : Host) (op : Op) (nft : NftOutcome)
    (_ : (h.perform op nft).2 ≠ .ok ()) :
    (h.perform op nft).1.fw = h.fw ↔ op.applies h.fw = false ∨ op.Idle h.fw := by
  rcases perform_cases h op nft with ⟨happ, hsame⟩ | ⟨happ, fw, hedit, hran⟩
  · rw [hsame]
    exact iff_of_true rfl (.inl happ)
  · rw [hran, edit_eq_iff happ hedit, happ]
    simp

theorem lines_infix_render (zones : List Zone) (rules : List Rule) (ifaces : List String)
    (pairs : List (String × String)) :
    (String.join ((inputLines zones rules).map InputLine.text)).toList <:+:
      (render zones rules ifaces pairs).toList := by
  unfold render
  simp only [String.toList_append, append_assoc]
  exact ⟨inputHeader.toList, _, append_assoc _ _ _⟩

/-- A rule that nft does not know how to read. -/
def icmpPort : Rule := ⟨"ping", "public", .inbound, .accept, some .icmp, some ⟨7, none⟩, none⟩

/-- Taking back a rule that is not there changes nothing, also if nft fails. -/
theorem failed_unchanged_absent :
    ((Host.mk new none).perform (.removeRule "ping") (.rejected "1" "")).2 ≠ .ok () ∧
      ((Host.mk new none).perform (.removeRule "ping") (.rejected "1" "")).1.fw = new :=
  ⟨by decide, (failed_unchanged_iff ⟨new, none⟩ (.removeRule "ping") (.rejected "1" "")
    (by decide)).mpr (.inr fun _ hrule => nomatch hrule)⟩

/-- A rule that nft rejects stays in memory, and the next operation that is applied renders it
again. -/
theorem failed_changed :
    (hostAfter none [(.assignZone "eth0" "public", .loaded)]).fw.rules = [] ∧
    ((hostAfter none [(.assignZone "eth0" "public", .loaded)]).perform (.addRule icmpPort)
      (.rejected "1" "")).2 ≠ .ok () ∧
    (hostAfter none [(.assignZone "eth0" "public", .loaded),
      (.addRule icmpPort, .rejected "1" "")]).fw.rules = [icmpPort] ∧
    "icmp dport 7 accept".toList <:+: (hostAfter none [(.assignZone "eth0" "public", .loaded),
      (.addRule icmpPort, .rejected "1" ""),
      (.enableSharing "lan0" "wan0", .rejected "1" "")]).fw.ruleset.toList := by
  refine ⟨by decide +kernel, by decide +kernel, by decide +kernel, ?_⟩
  refine IsInfix.trans ?_ (lines_infix_render _ _ _ _)
  decide +kernel

end MitosNetwork.Firewall
