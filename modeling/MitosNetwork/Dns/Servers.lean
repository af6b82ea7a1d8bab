import MitosNetwork.Common.Distinct
import MitosNetwork.Common.Table
import MitosNetwork.Ip.Address

/-!
# The registry of name servers

`src/dns/servers.rs`: what each connection contributed, and the merged list. The manager has a
registry and never uses it; here it says what resolv.conf should list. `forall_merged_eq_iff` says
when the merged list does not depend on the order of the map.
-/

namespace MitosNetwork

open List

structure DnsContribution where
  servers : List IpAddr
  search : List String
  priority : Int32
deriving DecidableEq

structure DnsServerRegistry where
  perConnection : Table String DnsContribution

namespace DnsServerRegistry

def set (reg : DnsServerRegistry) (connectionId : String) (servers : List IpAddr)
    (search : List String) (priority : Int32) : DnsServerRegistry :=
  ⟨reg.perConnection.insert connectionId ⟨servers, search, priority⟩⟩

def clear (reg : DnsServerRegistry) (connectionId : String) : DnsServerRegistry :=
  ⟨reg.perConnection.erase connectionId⟩

/-- The entries by descending priority. The sort is stable, so entries of one priority stay in the
order in which the map is iterated. -/
def sorted (order : Order (Σ _ : String, DnsContribution)) (reg : DnsServerRegistry) :
    List DnsContribution :=
  ((order.arrange reg.perConnection.entries).map (·.2)).mergeSort fun a b =>
    b.priority ≤ a.priority

/-- `merged`: the servers and the search domains. -/
def merged (order : Order (Σ _ : String, DnsContribution)) (reg : DnsServerRegistry) :
    List IpAddr × List String :=
  (reg.sorted order).foldl
    (fun acc e => (acc.1.appendNew e.servers, acc.2.appendNew e.search)) ([], [])

variable {order : Order (Σ _ : String, DnsContribution)} {reg : DnsServerRegistry}
  {servers : List IpAddr}

theorem mem_sorted {e : DnsContribution} :
    e ∈ reg.sorted order ↔ e ∈ reg.perConnection.values := by
  rw [sorted, mem_mergeSort, Table.values, mem_map, mem_map]
  simp only [Order.mem_arrange]

theorem merged_eq_distinct :
    reg.merged order = (((reg.sorted order).flatMap (·.servers)).distinct,
      ((reg.sorted order).flatMap (·.search)).distinct) := by
  have hfold : ∀ (es : List DnsContribution) (acc : List IpAddr × List String),
      es.foldl (fun acc e => (acc.1.appendNew e.servers, acc.2.appendNew e.search)) acc =
        (acc.1.appendNew (es.flatMap (·.servers)), acc.2.appendNew (es.flatMap (·.search))) := by
    intro es
    induction es with
    | nil => exact fun _ => rfl
    | cons e es ih =>
      intro acc
      rw [foldl_cons, ih, flatMap_cons, flatMap_cons, appendNew_append, appendNew_append]
  exact hfold _ _

theorem merged_fst : (reg.merged order).1 = ((reg.sorted order).flatMap (·.servers)).distinct :=
  congrArg Prod.fst merged_eq_distinct

theorem mem_merged {server : IpAddr} :
    server ∈ (reg.merged order).1 ↔ ∃ e ∈ reg.perConnection.values, server ∈ e.servers := by
  rw [merged_fst, mem_distinct, mem_flatMap]
  simp only [mem_sorted]

theorem merged_eq (hbeg : ∀ e ∈ reg.perConnection.values, e.servers.distinct <+: servers)
    (hheld : servers ≠ [] → ∃ e ∈ reg.perConnection.values, e.servers.distinct = servers) :
    (reg.merged order).1 = servers := by
  have hmg : ∀ (es : List DnsContribution) (acc : List IpAddr), acc <+: servers →
      (∀ e ∈ es, e.servers.distinct <+: servers) →
      acc.appendNew (es.flatMap (·.servers)) <+: servers := by
    intro es
    induction es with
    | nil => exact fun acc hacc _ => hacc
    | cons e es ih =>
      intro acc hacc hes
      rw [flatMap_cons, appendNew_append]
      exact ih _ ( appendNew_prefix hacc (hes e mem_cons_self))
        fun e' he' => hes e' (mem_cons_of_mem _ he')
  have hpre : (reg.merged order).1 <+: servers := by
    rw [merged_fst]
    exact hmg _ [] nil_prefix fun e he => hbeg e (mem_sorted.mp he)
  by_cases hnil : servers = []
  · rw [hnil] at hpre ⊢
    exact prefix_nil.mp hpre
  · obtain ⟨e, he, heq⟩ := hheld hnil
    refine eq_of_prefix_of_subset (heq ▸ nodup_distinct _) hpre fun server hsrv => ?_
    rw [← heq, mem_distinct] at hsrv
    exact mem_merged.mpr ⟨e, he, hsrv⟩

theorem distinct_prefix_merged {priority : Int32} {e : Σ _ : String, DnsContribution}
    (hflat : ∀ e ∈ reg.perConnection.values, e.priority = priority)
    (he : e ∈ reg.perConnection.entries) :
    e.2.servers.distinct <+: (reg.merged (.frontOf e)).1 := by
  have hall : ∀ a ∈ ((Order.frontOf e).arrange reg.perConnection.entries).map (·.2),
      a.priority = priority := by
    intro a ha
    obtain ⟨e', he', rfl⟩ := mem_map.mp ha
    exact hflat _ (mem_map_of_mem ((Order.mem_arrange _).mp he'))
  have harrange : (Order.frontOf e).arrange reg.perConnection.entries =
      e :: reg.perConnection.entries.erase e := if_pos he
  have hsor : reg.sorted (.frontOf e) =
      e.2 :: (reg.perConnection.entries.erase e).map (·.2) := by
    rw [← map_cons (f := fun e : Σ _ : String, DnsContribution => e.2), ← harrange]
    refine mergeSort_of_pairwise (pairwise_of_forall_mem_list fun a ha b hb => ?_)
    rw [hall a ha, hall b hb]
    exact decide_eq_true (Int32.le_refl _)
  rw [merged_fst, hsor, flatMap_cons, distinct_append]
  exact prefix_appendNew _ _

theorem forall_merged_eq_iff {priority : Int32}
    (hflat : ∀ e ∈ reg.perConnection.values, e.priority = priority) :
    (∀ order, (reg.merged order).1 = servers) ↔
      (∀ e ∈ reg.perConnection.values, e.servers.distinct <+: servers) ∧
        (servers ≠ [] → ∃ e ∈ reg.perConnection.values, e.servers.distinct = servers) := by
  refine ⟨fun h => ?_, fun h order => merged_eq h.1 h.2⟩
  have hbeg : ∀ e ∈ reg.perConnection.values, e.servers.distinct <+: servers := by
    intro e he
    obtain ⟨entry, hent, rfl⟩ := mem_map.mp he
    rw [← h (.frontOf entry)]
    exact distinct_prefix_merged hflat hent
  refine ⟨hbeg, fun hne => ?_⟩
  -- The connection that contributed the last server contributed everything before it, too.
  obtain ⟨before, last, rfl⟩ := (eq_nil_or_concat' servers).resolve_left hne
  have hlast : last ∈ (reg.merged .stored).1 := by
    rw [h]
    exact mem_concat_self
  obtain ⟨e, he, hmem⟩ := mem_merged.mp hlast
  refine ⟨e, he, (prefix_concat_iff.mp (hbeg e he)).resolve_right fun hbefore => ?_⟩
  have hnd : (before ++ [last]).Nodup := by
    rw [← h .stored, merged_fst]
    exact nodup_distinct _
  exact (nodup_append.mp hnd).2.2 last (hbefore.subset (mem_distinct.mpr hmem)) last
    mem_cons_self rfl

/-! ## Runs -/

/-- A call that changes the registry. -/
inductive Op where
  | set (connectionId : String) (servers : List IpAddr) (search : List String) (priority : Int32)
  | clear (connectionId : String)

def perform (reg : DnsServerRegistry) : Op → DnsServerRegistry
  | .set connectionId servers search priority => reg.set connectionId servers search priority
  | .clear connectionId => reg.clear connectionId

def after (ops : List Op) : DnsServerRegistry := ops.foldl perform ⟨∅⟩

def Op.change (now : String → Option DnsContribution) : Op → String → Option DnsContribution
  | .set connectionId servers search priority =>
    Function.update now connectionId (some ⟨servers, search, priority⟩)
  | .clear connectionId => Function.update now connectionId none

/-- What each connection that is set contributes after some calls. -/
def contributed (ops : List Op) : String → Option DnsContribution :=
  ops.foldl Op.change fun _ => none

/-- The list has no duplicates, it has what the connections contribute, and of two members the one
comes first that has a contribution of a higher priority than all of the other. -/
structure IsMerge {α : Type} (now : String → Option DnsContribution)
    (part : DnsContribution → List α) (l : List α) : Prop where
  nodup : l.Nodup
  mem_iff : ∀ x, x ∈ l ↔ ∃ id c, now id = some c ∧ x ∈ part c
  ordered : ∀ x, ∀ y ∈ l, ∀ id c, now id = some c → x ∈ part c →
    (∀ id' c', now id' = some c' → y ∈ part c' → c'.priority < c.priority) → [x, y] <+ l

theorem lookup_after (ops : List Op) (id : String) :
    (after ops).perConnection.lookup id = contributed ops id := by
  induction ops using List.reverseRecOn with
  | nil => rfl
  | append_singleton ops op ih =>
    rw [after, contributed, foldl_append, foldl_append, ← after, ← contributed]
    cases op <;> simp [perform, set, clear, Op.change, Function.update_apply,
      Table.lookup_insert_eq, Table.lookup_erase_eq, ih]

theorem pairwise_sorted :
    (reg.sorted order).Pairwise fun a b => b.priority ≤ a.priority := by
  refine (pairwise_mergeSort ?_ ?_ _).imp fun h => of_decide_eq_true h
  · exact fun a b c hab hbc => decide_eq_true
      (Int32.le_trans (of_decide_eq_true hbc) (of_decide_eq_true hab))
  · intro a b
    simpa using Int32.le_total b.priority a.priority

theorem isMerge_sorted {α : Type} [DecidableEq α] (ops : List Op)
    (part : DnsContribution → List α) :
    IsMerge (contributed ops) part (((after ops).sorted order).flatMap part).distinct := by
  have hmem (c : DnsContribution) :
      c ∈ (after ops).sorted order ↔ ∃ id, contributed ops id = some c := by
    simp only [mem_sorted, Table.mem_values, lookup_after]
  have hpts (x : α) : x ∈ (((after ops).sorted order).flatMap part).distinct ↔
      ∃ id c, contributed ops id = some c ∧ x ∈ part c := by
    rw [mem_distinct, mem_flatMap, exists_comm]
    simp only [hmem, exists_and_right]
  refine ⟨nodup_distinct _, hpts, fun x y hy id c hc hx hless => ?_⟩
  -- Everything up to the contribution of `x` has at least its priority, so none of it has `y`.
  obtain ⟨before, behind, hsp⟩ := append_of_mem ((hmem c).mpr ⟨id, hc⟩)
  have hsor : ((after ops).sorted order).Pairwise fun a b => b.priority ≤ a.priority :=
    pairwise_sorted
  rw [hsp, pairwise_append] at hsor
  have hfro : y ∉ ((before ++ [c]).flatMap part).distinct := by
    rw [mem_distinct, mem_flatMap]
    rintro ⟨c', hc', hy'⟩
    have hin : c' ∈ (after ops).sorted order := by
      rw [hsp, append_cons]
      exact mem_append_left _ hc'
    obtain ⟨id', hid'⟩ := (hmem c').mp hin
    have hlt := hless id' c' hid' hy'
    rcases mem_append.mp hc' with hbefore | hself
    · exact Int32.not_lt.mpr (hsor.2.2 c' hbefore c mem_cons_self) hlt
    · rw [mem_singleton.mp hself] at hlt
      exact Int32.lt_irrefl hlt
  rw [hsp, append_cons, flatMap_append, distinct_append] at hy ⊢
  obtain ⟨rest, hrest⟩ := prefix_appendNew ((before ++ [c]).flatMap part).distinct
    (behind.flatMap part)
  rw [← hrest] at hy ⊢
  refine (singleton_sublist.mpr ?_).append
    (singleton_sublist.mpr ((mem_append.mp hy).resolve_left hfro))
  exact mem_distinct.mpr (mem_flatMap.mpr ⟨c, mem_append_right _ mem_cons_self, hx⟩)

theorem IsMerge.mem_cleared_iff {α : Type} {now : String → Option DnsContribution}
    {part : DnsContribution → List α} {l l' : List α} {id : String} (h : IsMerge now part l)
    (h' : IsMerge (Function.update now id none) part l') (x : α) :
    x ∈ l' ↔ x ∈ l ∧ ∃ other c, other ≠ id ∧ now other = some c ∧ x ∈ part c := by
  rw [h'.mem_iff, h.mem_iff]
  constructor
  · rintro ⟨other, c, hother, hx⟩
    have hne : other ≠ id := by
      rintro rfl
      rw [Function.update_self] at hother
      cases hother
    rw [Function.update_of_ne hne] at hother
    exact ⟨⟨other, c, hother, hx⟩, other, c, hne, hother, hx⟩
  · rintro ⟨-, other, c, hne, hother, hx⟩
    exact ⟨other, c, (Function.update_of_ne hne _ _).trans hother, hx⟩

/-- **The merged name servers.** After any calls and in any order of the map, the servers and the
search domains are without duplicates, they are the union of what the connections contribute, and
those of higher priority come first; and clearing a connection removes exactly what no other
contributes. -/
theorem merged_isMerge (ops : List Op) (order : Order (Σ _ : String, DnsContribution)) :
    IsMerge (contributed ops) (·.servers) ((after ops).merged order).1 ∧
    IsMerge (contributed ops) (·.search) ((after ops).merged order).2 ∧
    ∀ id order',
      (∀ server, server ∈ ((after (ops ++ [.clear id])).merged order').1 ↔
        server ∈ ((after ops).merged order).1 ∧
          ∃ other c, other ≠ id ∧ contributed ops other = some c ∧ server ∈ c.servers) ∧
      ∀ domain, domain ∈ ((after (ops ++ [.clear id])).merged order').2 ↔
        domain ∈ ((after ops).merged order).2 ∧
          ∃ other c, other ≠ id ∧ contributed ops other = some c ∧ domain ∈ c.search := by
  have hcleared (id : String) :
      contributed (ops ++ [.clear id]) = Function.update (contributed ops) id none := foldl_append
  have hmerge (ops : List Op) (order : Order (Σ _ : String, DnsContribution)) :
      IsMerge (contributed ops) (·.servers) ((after ops).merged order).1 ∧
        IsMerge (contributed ops) (·.search) ((after ops).merged order).2 := by
    rw [merged_eq_distinct]
    exact ⟨isMerge_sorted ops _, isMerge_sorted ops _⟩
  refine ⟨(hmerge ops order).1, (hmerge ops order).2, fun id order' => ?_⟩
  have h := hmerge (ops ++ [.clear id]) order'
  rw [hcleared] at h
  exact ⟨(hmerge ops order).1.mem_cleared_iff h.1, (hmerge ops order).2.mem_cleared_iff h.2⟩

end DnsServerRegistry

end MitosNetwork
