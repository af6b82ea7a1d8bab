import MitosNetwork.Ip.Attributes
import Mathlib.Algebra.Order.BigOperators.Group.List

/-!
# What fits into a chain of attributes

`parse_attrs` on bytes of any kind: a payload that it finds is no longer than a 16-bit length allows
and lies within the bytes together with its header (`length_of_lookup`), and all that it finds, each
with header and padding, takes no more than the bytes, but for the padding of the last
(`weight_parseAttrs_le`). So whoever reads something out of a chain knows how long it was.
-/

namespace MitosNetwork.Netlink

open Wire List

variable {order : ByteOrder}

variable {buf payload : List UInt8} {t : UInt16}

/-- A turn of the loop: it ends, or it takes an attribute from the front. A last attribute whose
padding is missing leaves nothing to go on with. -/
theorem parseAttrsUpTo_cases (order : ByteOrder) (n : ℕ) (buf : List UInt8)
    (out : Table UInt16 (List UInt8)) :
    parseAttrsUpTo order (n + 1) buf out = out ∨
    ∃ t len, 4 ≤ len ∧ len ≤ buf.length ∧ len < 65536 ∧ parseAttrsUpTo order (n + 1) buf out =
      parseAttrsUpTo order n (buf.drop (align len)) (out.insert t (buf.extract 4 len)) := by
  have hlen : order.nat (buf.take 2) < 65536 := by
    have hlt := order.nat_lt (buf.take 2)
    have hpow : 256 ^ (buf.take 2).length ≤ 256 ^ 2 :=
      Nat.pow_le_pow_right (by decide) (length_take_le 2 buf)
    omega
  rw [parseAttrsUpTo]
  split
  · exact .inl rfl
  · split
    · exact .inl rfl
    · refine .inr ⟨UInt16.ofNat (order.nat (buf.extract 2 4)), order.nat (buf.take 2), by omega,
        by omega, hlen, ?_⟩
      split
      · rename_i hlast
        rw [drop_eq_nil_of_le hlast, parseAttrsUpTo_nil]
      · rfl

theorem length_of_lookup_upTo {n : ℕ} {out : Table UInt16 (List UInt8)}
    (h : (parseAttrsUpTo order n buf out).lookup t = some payload) :
    out.lookup t = some payload ∨ payload.length ≤ 65531 ∧ payload.length + 4 ≤ buf.length := by
  induction n generalizing buf out with
  | zero => exact .inl h
  | succ n ih =>
    rcases parseAttrsUpTo_cases order n buf out with hstop | ⟨t', len, hfour, hle, hlt, hnext⟩
    · exact .inl (hstop ▸ h)
    · rw [hnext] at h
      rcases ih h with hinserted | ⟨hfits, hwithin⟩
      · rw [Table.lookup_insert_eq] at hinserted
        split at hinserted
        · have hlen := congrArg List.length (Option.some.inj hinserted)
          rw [length_extract hle] at hlen
          right
          omega
        · exact .inl hinserted
      · rw [length_drop] at hwithin
        exact .inr ⟨hfits, by omega⟩

theorem length_of_lookup (h : (parseAttrs order buf).lookup t = some payload) :
    payload.length ≤ 65531 ∧ payload.length + 4 ≤ buf.length := by
  rcases length_of_lookup_upTo h with hempty | hlen
  · cases hempty
  · exact hlen

/-! ## All that is found -/

def weight (table : Table UInt16 (List UInt8)) : ℕ :=
  (table.entries.map fun e => align (4 + e.2.length)).sum

theorem weight_insert_le (table : Table UInt16 (List UInt8)) (t : UInt16) (payload : List UInt8) :
    weight (table.insert t payload) ≤ weight table + align (4 + payload.length) := by
  have hsub := (kerase_sublist t table.entries).map fun e => align (4 + e.2.length)
  have hsum := hsub.sum_le_sum fun _ _ => Nat.zero_le _
  have hinsert : weight (table.insert t payload) = align (4 + payload.length) +
      ((List.kerase t table.entries).map fun e => align (4 + e.2.length)).sum := sum_cons
  rw [hinsert, weight]
  omega

/-- What is found in `buf` takes no more than its bytes, padded to a whole attribute. -/
theorem weight_parseAttrsUpTo_le (order : ByteOrder) (n : ℕ) (buf : List UInt8)
    (out : Table UInt16 (List UInt8)) :
    weight (parseAttrsUpTo order n buf out) ≤ weight out + align buf.length := by
  induction n generalizing buf out with
  | zero => exact Nat.le_add_right _ _
  | succ n ih =>
    rcases parseAttrsUpTo_cases order n buf out with hstop | ⟨t, len, hfour, hle, -, hnext⟩
    · rw [hstop]
      exact Nat.le_add_right _ _
    · have hinsert := weight_insert_le out t (buf.extract 4 len)
      rw [length_extract hle, Nat.add_sub_cancel' hfour] at hinsert
      have hrest := ih (buf.drop (align len)) (out.insert t (buf.extract 4 len))
      rw [length_drop] at hrest
      rw [hnext]
      unfold align at hinsert hrest ⊢
      omega

theorem weight_parseAttrs_le (order : ByteOrder) (buf : List UInt8) :
    weight (parseAttrs order buf) ≤ buf.length + 3 := by
  have hle := weight_parseAttrsUpTo_le order buf.length buf ∅
  have hempty : weight ∅ = 0 := rfl
  rw [align] at hle
  exact hle.trans (by omega)

theorem sum_le_length (found : List (UInt16 × List UInt8)) (hdistinct : (found.map (·.1)).Nodup)
    (hfound : ∀ e ∈ found, (parseAttrs order buf).lookup e.1 = some e.2) :
    (found.map fun e => align (4 + e.2.length)).sum ≤ buf.length + 3 := by
  have hnodup : (found.map fun e => (⟨e.1, e.2⟩ : Σ _ : UInt16, List UInt8)).Nodup :=
    List.Nodup.of_map (fun e => e.1) (by rwa [map_map])
  have hsubset : (found.map fun e => (⟨e.1, e.2⟩ : Σ _ : UInt16, List UInt8)) ⊆
      (parseAttrs order buf).entries := by
    intro e he
    obtain ⟨⟨t, payload⟩, hmem, rfl⟩ := mem_map.mp he
    exact Table.mem_entries_iff.mpr (hfound _ hmem)
  obtain ⟨l, hperm, hsub⟩ := subperm_of_subset hnodup hsubset
  have hsum := (hsub.map fun e => align (4 + e.2.length)).sum_le_sum fun _ _ => Nat.zero_le _
  rw [(hperm.map _).sum_eq, map_map] at hsum
  exact hsum.trans (weight_parseAttrs_le order buf)

theorem add_four_le_align {size length : ℕ} (hwords : size % 4 = 0) (h : size ≤ length + 3) :
    size + 4 ≤ align (4 + length) := by
  unfold align
  omega

/-! ## Attributes that are too long -/

theorem drop_attrBytes (hwords : payload.length % 4 = 0) (t : UInt16) :
    (attrBytes order t payload).drop 4 = payload := by
  have halign : align (4 + payload.length) = 4 + payload.length := by
    unfold align
    omega
  have htail := (header_attrBytes order t payload []).2.2
  rwa [halign, Nat.sub_self, replicate_zero, append_nil, append_nil, append_nil] at htail

theorem parseAttrsUpTo_overlong (hlong : 65531 < payload.length) (hwords : payload.length % 4 = 0)
    (t : UInt16) (n : ℕ) (out : Table UInt16 (List UInt8)) :
    parseAttrsUpTo order (n + 1) (attrBytes order t payload) out =
      if (4 + payload.length) % 65536 < 4 then out
      else
        parseAttrsUpTo order n (payload.drop ((4 + payload.length) % 65536 - 4))
          (out.insert t (payload.take ((4 + payload.length) % 65536 - 4))) := by
  obtain ⟨m, hm⟩ : ∃ m, m = (4 + payload.length) % 65536 := ⟨_, rfl⟩
  have halign : align (4 + payload.length) = 4 + payload.length := by
    unfold align
    omega
  have halign' : align m = m := by
    unfold align
    omega
  obtain ⟨hlen, htype, -⟩ := header_attrBytes order t payload []
  rw [append_nil] at hlen htype
  have hlength : (attrBytes order t payload).length = 4 + payload.length := by
    rw [length_attrBytes, halign]
  have hdrop : 4 ≤ m → (attrBytes order t payload).drop m = payload.drop (m - 4) := by
    intro hfour
    obtain ⟨j, rfl⟩ := Nat.exists_eq_add_of_le hfour
    rw [← drop_drop, drop_attrBytes hwords, Nat.add_sub_cancel_left]
  have htake : 4 ≤ m → (attrBytes order t payload).extract 4 m = payload.take (m - 4) := by
    intro hfour
    rw [extract_eq_take_drop, drop_attrBytes hwords]
  simp only [parseAttrsUpTo, hlen, htype, hlength, ← hm]
  rw [if_neg (by omega)]
  by_cases hfour : m < 4
  · rw [if_pos (.inl hfour), if_pos hfour]
  · rw [if_neg (by omega), if_neg hfour, halign', if_neg (by omega), hdrop (by omega),
      htake (by omega)]

end MitosNetwork.Netlink
