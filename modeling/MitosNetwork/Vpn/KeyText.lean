import MitosNetwork.Vpn.WireGuard
import Mathlib.Data.List.DropRight
import Mathlib.Data.Nat.Digits.Defs

/-!
# Keys as text

`base64_decode` and `decode_key` of `src/vpn/wireguard.rs` against the standard encoding of RFC
4648. The decoder shifts six bits at a time into a word of 32 bits and takes eight out of it
whenever there are as many; older bits stay above and fall out on the left. `Regrouped` says what
the word, the count and the bytes written so far have to do with the characters read so far: one
number, in base 64 on one side and in bytes and pending bits on the other. At the end of the text
the pending bits are dropped.
-/

namespace MitosNetwork.WireGuard

open Wire List

variable {c : Char} {bytes : List UInt8} (padded : Bool)

/-! ## The alphabet -/

/-- The alphabet of RFC 4648, section 4. -/
def alphabet : List Char :=
  ['A', 'B', 'C', 'D', 'E', 'F', 'G', 'H', 'I', 'J', 'K', 'L', 'M', 'N', 'O', 'P',
   'Q', 'R', 'S', 'T', 'U', 'V', 'W', 'X', 'Y', 'Z', 'a', 'b', 'c', 'd', 'e', 'f',
   'g', 'h', 'i', 'j', 'k', 'l', 'm', 'n', 'o', 'p', 'q', 'r', 's', 't', 'u', 'v',
   'w', 'x', 'y', 'z', '0', '1', '2', '3', '4', '5', '6', '7', '8', '9', '+', '/']

theorem of_all_alphabet {P : Char → Prop} [DecidablePred P] (h : alphabet.all (P ·) = true) :
    ∀ c ∈ alphabet, P c := fun c hc => of_decide_eq_true (all_eq_true.mp h c hc)

theorem base64Value_of_mem : ∀ c ∈ alphabet,
    base64Value c = some (UInt32.ofNat (alphabet.idxOf c)) :=
  of_all_alphabet (by decide +kernel)

theorem toNat_lt_of_base64Value {v : UInt32} (h : base64Value c = some v) : c.toNat < 128 := by
  by_contra hasc
  have hle : ∀ {d : Char}, d.toNat < 128 → ¬c ≤ d :=
    fun hd hcd => hasc (Nat.lt_of_le_of_lt hcd hd)
  have hne : ∀ {d : Char}, d.toNat < 128 → c ≠ d := fun hd hcd => hasc (hcd ▸ hd)
  rw [base64Value, if_neg fun h => hle (by decide) h.2, if_neg fun h => hle (by decide) h.2,
    if_neg fun h => hle (by decide) h.2, if_neg (hne (by decide)), if_neg (hne (by decide))] at h
  exact Option.some_ne_none _ h.symm

theorem mem_of_base64Value {v : UInt32} (h : base64Value c = some v) : c ∈ alphabet := by
  have hplace := Text.of_ascii
    (P := fun c => (base64Value c).all fun v => alphabet[v.toNat]? = some c)
    (by decide +kernel) (toNat_lt_of_base64Value h)
  rw [h] at hplace
  exact mem_of_getElem? (of_decide_eq_true hplace)

theorem base64Value_eq (c : Char) :
    base64Value c =
      if c ∈ alphabet then some (UInt32.ofNat (alphabet.idxOf c)) else none := by
  by_cases hc : c ∈ alphabet
  · rw [if_pos hc, base64Value_of_mem c hc]
  · rw [if_neg hc, Option.eq_none_iff_forall_ne_some]
    exact fun v hv => hc (mem_of_base64Value hv)

theorem idxOf_alphabet_lt (hc : c ∈ alphabet) : alphabet.idxOf c < 64 := idxOf_lt_length_of_mem hc

/-! ## The decoder -/

/-- The number that characters with these values spell. -/
def sextetsNat (vs : List ℕ) : ℕ := Nat.ofDigits 64 vs.reverse

theorem sextetsNat_append (vs ws : List ℕ) :
    sextetsNat (vs ++ ws) = sextetsNat vs * 64 ^ ws.length + sextetsNat ws := by
  rw [sextetsNat, reverse_append, Nat.ofDigits_append, length_reverse]
  unfold sextetsNat
  ring

theorem sextetsNat_concat (vs : List ℕ) (v : ℕ) :
    sextetsNat (vs ++ [v]) = sextetsNat vs * 64 + v := by
  rw [sextetsNat_append]
  simp [sextetsNat]

/-- The bytes of a text: the bits of its characters, without those that do not fill a byte. -/
def regroup (vs : List ℕ) : List UInt8 :=
  beBytes (6 * vs.length / 8) (sextetsNat vs / 2 ^ (6 * vs.length % 8))

/-- The state of the decoder after characters with the values `vs`: the bytes written and the low
`bits` bits of the word spell the same number. -/
structure Regrouped (vs : List ℕ) (buf bits : UInt32) (out : List UInt8) : Prop where
  bits_lt : bits.toNat < 8
  length_eq : 8 * out.length + bits.toNat = 6 * vs.length
  value_eq : beNat out * 2 ^ bits.toNat + buf.toNat % 2 ^ bits.toNat = sextetsNat vs

theorem regrouped_nil : Regrouped [] 0 0 [] := ⟨by decide, rfl, rfl⟩

theorem Regrouped.out_eq {vs : List ℕ} {buf bits : UInt32} {out : List UInt8}
    (h : Regrouped vs buf bits out) : out = regroup vs := by
  have hlen : 6 * vs.length / 8 = out.length := by
    have := h.length_eq
    have := h.bits_lt
    omega
  have hbits : 6 * vs.length % 8 = bits.toNat := by
    have := h.length_eq
    omega
  have hpos : 0 < 2 ^ bits.toNat := Nat.pow_pos (by decide)
  have hval : sextetsNat vs / 2 ^ bits.toNat = beNat out := by
    rw [← h.value_eq, Nat.add_comm, Nat.add_mul_div_right _ _ hpos,
      Nat.div_eq_of_lt (Nat.mod_lt _ hpos), Nat.zero_add]
  rw [regroup, hlen, hbits, hval, beBytes_beNat rfl]

section Turn

variable {vs : List ℕ} {buf bits v : UInt32} {out : List UInt8}

theorem toNat_shiftLeft_or (hv : v.toNat < 64) :
    ((buf <<< 6) ||| v).toNat = buf.toNat % 2 ^ 26 * 64 + v.toNat := by
  have hshift : (buf <<< 6).toNat = (buf.toNat % 2 ^ 26) <<< 6 := by
    rw [UInt32.toNat_shiftLeft, Nat.shiftLeft_eq, Nat.shiftLeft_eq]
    exact Nat.mul_mod_mul_right 64 buf.toNat (2 ^ 26)
  rw [UInt32.toNat_or, hshift, ← Nat.shiftLeft_add_eq_or_of_lt hv, Nat.shiftLeft_eq]

theorem pending_shiftLeft_or (hv : v.toNat < 64) {n : ℕ} (hn : n ≤ 26) :
    ((buf <<< 6) ||| v).toNat % 2 ^ (n + 6) = buf.toNat % 2 ^ n * 64 + v.toNat := by
  have hpow : 2 ^ (n + 6) = 64 * 2 ^ n := by ring
  have hquot : (buf.toNat % 2 ^ 26 * 64 + v.toNat) / 64 = buf.toNat % 2 ^ 26 := by omega
  have hrem : (buf.toNat % 2 ^ 26 * 64 + v.toNat) % 64 = v.toNat := by omega
  rw [toNat_shiftLeft_or hv, hpow, Nat.mod_mul, hquot, hrem,
    Nat.mod_mod_of_dvd _ (Nat.pow_dvd_pow 2 hn)]
  ring

section

variable (h : Regrouped vs buf bits out)
include h

theorem Regrouped.toNat_bits_add : (bits + 6).toNat = bits.toNat + 6 := by
  have hbits := h.bits_lt
  have hsix : (6 : UInt32).toNat = 6 := rfl
  rw [UInt32.toNat_add]
  exact Nat.mod_eq_of_lt (by omega)

theorem Regrouped.sextetsNat_concat (hv : v.toNat < 64) :
    sextetsNat (vs ++ [v.toNat]) = beNat out * 2 ^ (bits.toNat + 6) +
      ((buf <<< 6) ||| v).toNat % 2 ^ (bits.toNat + 6) := by
  have hbits := h.bits_lt
  rw [WireGuard.sextetsNat_concat, ← h.value_eq, pending_shiftLeft_or hv (by omega)]
  ring

theorem Regrouped.keep (hv : v.toNat < 64)
    (hfew : ¬8 ≤ bits + 6) : Regrouped (vs ++ [v.toNat]) ((buf <<< 6) ||| v) (bits + 6) out := by
  rw [UInt32.le_iff_toNat_le, h.toNat_bits_add] at hfew
  refine ⟨?_, ?_, ?_⟩
  · rw [h.toNat_bits_add]
    exact Nat.lt_of_not_le hfew
  · rw [h.toNat_bits_add, length_append, length_singleton]
    have := h.length_eq
    omega
  · rw [h.toNat_bits_add, h.sextetsNat_concat hv]

theorem Regrouped.emit (hv : v.toNat < 64) (hmany : 8 ≤ bits + 6) :
    Regrouped (vs ++ [v.toNat]) ((buf <<< 6) ||| v) (bits + 6 - 8)
      (out ++ [(((buf <<< 6) ||| v) >>> (bits + 6 - 8)).toUInt8]) := by
  have hbits := h.bits_lt
  have hsub : (bits + 6 - 8).toNat = bits.toNat + 6 - 8 := by
    rw [UInt32.toNat_sub_of_le _ _ hmany, h.toNat_bits_add]
    rfl
  rw [UInt32.le_iff_toNat_le, h.toNat_bits_add] at hmany
  obtain ⟨k, hk⟩ : ∃ k, bits.toNat + 6 = k + 8 := Nat.exists_eq_add_of_le' hmany
  rw [hk, Nat.add_sub_cancel] at hsub
  refine ⟨by omega, ?_, ?_⟩
  · rw [length_append, length_append, length_singleton, length_singleton]
    have := h.length_eq
    omega
  · have hbyte : ((((buf <<< 6) ||| v) >>> (bits + 6 - 8)).toUInt8).toNat =
        ((buf <<< 6) ||| v).toNat / 2 ^ k % 256 := by
      have hk32 : k % 32 = k := Nat.mod_eq_of_lt (by omega)
      rw [UInt32.toNat_toUInt8, UInt32.toNat_shiftRight, hsub, hk32, Nat.shiftRight_eq_div_pow]
    have hpow : 2 ^ (k + 8) = 2 ^ k * 256 := by ring
    rw [hsub, h.sextetsNat_concat hv, beNat_append, beNat, beNat, hbyte, hk, hpow, Nat.mod_mul]
    simp only [length_nil, length_singleton]
    ring

end

end Turn

theorem base64Loop_eq {vs : List ℕ} {buf bits : UInt32} {out : List UInt8}
    (h : Regrouped vs buf bits out) (cs : List Char) :
    base64Loop cs buf bits out =
      if cs ⊆ alphabet then some (regroup (vs ++ cs.map alphabet.idxOf)) else none := by
  induction cs generalizing vs buf bits out with
  | nil =>
    rw [base64Loop, if_pos (nil_subset _), map_nil, append_nil, ← h.out_eq]
  | cons c cs ih =>
    rw [base64Loop, base64Value_eq]
    by_cases hc : c ∈ alphabet
    · have hlt := idxOf_alphabet_lt hc
      have hval : (UInt32.ofNat (alphabet.idxOf c)).toNat = alphabet.idxOf c := by
        exact Nat.mod_eq_of_lt (by omega)
      have hv : (UInt32.ofNat (alphabet.idxOf c)).toNat < 64 := hval.trans_lt hlt
      have hrest : vs ++ (c :: cs).map alphabet.idxOf =
          vs ++ [(UInt32.ofNat (alphabet.idxOf c)).toNat] ++ cs.map alphabet.idxOf := by
        rw [hval, map_cons, append_assoc, singleton_append]
      simp only [cons_subset, hc, if_true, true_and, hrest]
      split
      · rename_i hmany
        exact ih (h.emit hv hmany)
      · rename_i hfew
        exact ih (h.keep hv hfew)
    · rw [if_neg hc, if_neg fun hall => hc (hall mem_cons_self)]

/-- The text without the padding at its end. -/
def unpadded (s : String) : List Char := s.toList.rdropWhile (· = '=')

theorem base64Decode_eq (s : String) :
    base64Decode s =
      if unpadded s ⊆ alphabet then some (regroup ((unpadded s).map alphabet.idxOf)) else none :=
  base64Loop_eq regrouped_nil (unpadded s)

/-! ## The encoding -/

/-- The values of the characters that stand for some bytes: three bytes are four characters, and an
incomplete group is filled up with zeros. -/
def sextets : List UInt8 → List ℕ
  | [] => []
  | [a] =>
    let group := a.toNat * 2 ^ 16
    [group / 2 ^ 18, group / 2 ^ 12 % 64]
  | [a, b] =>
    let group := a.toNat * 2 ^ 16 + b.toNat * 2 ^ 8
    [group / 2 ^ 18, group / 2 ^ 12 % 64, group / 2 ^ 6 % 64]
  | a :: b :: c :: bytes =>
    let group := a.toNat * 2 ^ 16 + b.toNat * 2 ^ 8 + c.toNat
    [group / 2 ^ 18, group / 2 ^ 12 % 64, group / 2 ^ 6 % 64, group % 64] ++ sextets bytes

/-- The encoding of RFC 4648, section 4, with padding to full groups or without. -/
def base64Encode (bytes : List UInt8) : String :=
  String.ofList ((sextets bytes).map (alphabet.getD · '=') ++
    if padded then List.replicate ((3 - bytes.length % 3) % 3) '=' else [])

theorem length_sextets (bytes : List UInt8) :
    (sextets bytes).length = (8 * bytes.length + 5) / 6 := by
  induction bytes using sextets.induct with
  | case1 => rfl
  | case2 a | case3 a b => simp [sextets]
  | case4 a b c bytes ih =>
    simp only [sextets, length_append, length_cons, length_nil, ih]
    omega

theorem lt_of_mem_sextets : ∀ v ∈ sextets bytes, v < 64 := by
  induction bytes using sextets.induct with
  | case1 => exact forall_mem_nil _
  | case2 a =>
    have ha := a.toNat_lt
    simp only [sextets, forall_mem_cons]
    exact ⟨by omega, by omega, forall_mem_nil _⟩
  | case3 a b =>
    have ha := a.toNat_lt
    have hb := b.toNat_lt
    simp only [sextets, forall_mem_cons]
    exact ⟨by omega, by omega, by omega, forall_mem_nil _⟩
  | case4 a b c bytes ih =>
    have ha := a.toNat_lt
    have hb := b.toNat_lt
    have hc := c.toNat_lt
    simp only [sextets, forall_mem_append, forall_mem_cons]
    exact ⟨⟨by omega, by omega, by omega, by omega, forall_mem_nil _⟩, ih⟩

theorem sextetsNat_two (x y : ℕ) : sextetsNat [x, y] = x * 64 + y := by
  refine (sextetsNat_concat [x] y).trans ?_
  rw [sextetsNat, reverse_singleton, Nat.ofDigits_singleton]

theorem sextetsNat_three (x y z : ℕ) : sextetsNat [x, y, z] = (x * 64 + y) * 64 + z := by
  rw [← sextetsNat_two x y]
  exact sextetsNat_concat [x, y] z

theorem sextetsNat_group {group : ℕ} (h : group < 2 ^ 24) :
    sextetsNat [group / 2 ^ 18, group / 2 ^ 12 % 64, group / 2 ^ 6 % 64, group % 64] = group := by
  refine (sextetsNat_concat [_, _, _] _).trans ?_
  rw [sextetsNat_three]
  omega

theorem sextetsNat_sextets (bytes : List UInt8) :
    sextetsNat (sextets bytes) =
      beNat bytes * 2 ^ (6 * (sextets bytes).length - 8 * bytes.length) := by
  induction bytes using sextets.induct with
  | case1 => rfl
  | case2 a =>
    rw [length_sextets, sextets, sextetsNat_two, beNat, beNat, length_nil, length_singleton]
    omega
  | case3 a b =>
    rw [length_sextets, sextets, sextetsNat_three, beNat, beNat, beNat, length_nil,
      length_singleton, length_cons, length_singleton]
    omega
  | case4 a b c bytes ih =>
    have hlen := length_sextets bytes
    have hgroup : a.toNat * 2 ^ 16 + b.toNat * 2 ^ 8 + c.toNat < 2 ^ 24 := by
      have ha := a.toNat_lt
      have hb := b.toNat_lt
      have hc := c.toNat_lt
      omega
    rw [sextets, sextetsNat_append, sextetsNat_group hgroup, ih]
    simp only [length_append, length_cons, length_nil]
    obtain ⟨e, he⟩ : ∃ e, 6 * (sextets bytes).length = 8 * bytes.length + e :=
      Nat.exists_eq_add_of_le (by omega)
    have hpow : 64 ^ (sextets bytes).length = 256 ^ bytes.length * 2 ^ e := by
      calc 64 ^ (sextets bytes).length = 2 ^ (6 * (sextets bytes).length) := by rw [Nat.pow_mul]
        _ = 256 ^ bytes.length * 2 ^ e := by rw [he, Nat.pow_add, Nat.pow_mul]
    have hfill : 6 * (sextets bytes).length - 8 * bytes.length = e := by omega
    have hfill' : 6 * (0 + 1 + 1 + 1 + 1 + (sextets bytes).length) -
        8 * (bytes.length + 1 + 1 + 1) = e := by omega
    rw [hpow, hfill, hfill', beNat, beNat, beNat]
    simp only [length_cons]
    ring

theorem regroup_sextets (bytes : List UInt8) : regroup (sextets bytes) = bytes := by
  have hlen := length_sextets bytes
  have hby : 6 * (sextets bytes).length / 8 = bytes.length := by omega
  have hfill : 6 * (sextets bytes).length % 8 =
      6 * (sextets bytes).length - 8 * bytes.length := by omega
  rw [regroup, sextetsNat_sextets, hby, hfill, Nat.mul_div_cancel _ (Nat.pow_pos (by decide)),
    beBytes_beNat rfl]

theorem idxOf_getD_alphabet : ∀ v < 64, alphabet.idxOf (alphabet.getD v '=') = v := by
  decide +kernel

theorem not_padding_of_mem (hc : c ∈ alphabet) : c ≠ '=' := by
  rintro rfl
  exact absurd hc (by decide +kernel)

theorem rdropWhile_padding {cs : List Char} (hcs : ∀ c ∈ cs, c ∈ alphabet) (k : ℕ) :
    (cs ++ List.replicate k '=').rdropWhile (· = '=') = cs := by
  induction k with
  | zero =>
    rw [replicate_zero, append_nil, rdropWhile_eq_self_iff]
    intro hne
    simpa using not_padding_of_mem (hcs _ (getLast_mem hne))
  | succ k ih =>
    rw [replicate_succ', ← append_assoc, rdropWhile_concat_pos _ _ _ (by simp), ih]

theorem chars_subset (bytes : List UInt8) :
    (sextets bytes).map (alphabet.getD · '=') ⊆ alphabet := by
  intro c hc
  obtain ⟨v, hv, rfl⟩ := mem_map.mp hc
  rw [getD_eq_getElem?_getD, getElem?_eq_getElem (lt_of_mem_sextets v hv)]
  exact getElem_mem (lt_of_mem_sextets v hv)

theorem unpadded_base64Encode (bytes : List UInt8) :
    unpadded (base64Encode padded bytes) = (sextets bytes).map (alphabet.getD · '=') := by
  have hchs := fun c => @chars_subset bytes c
  rw [unpadded, base64Encode, String.toList_ofList]
  cases padded with
  | true => exact rdropWhile_padding hchs _
  | false => exact rdropWhile_padding hchs 0

theorem base64Decode_base64Encode (bytes : List UInt8) :
    base64Decode (base64Encode padded bytes) = some bytes := by
  have hvals : ((sextets bytes).map (alphabet.getD · '=')).map alphabet.idxOf =
      sextets bytes := by
    rw [map_map]
    exact (map_congr_left fun v hv => idxOf_getD_alphabet v (lt_of_mem_sextets v hv)).trans
      (map_id' _)
  rw [base64Decode_eq, unpadded_base64Encode, if_pos (chars_subset bytes), hvals, regroup_sextets]

/-! ## Keys -/

theorem length_of_base64Decode {s : String} (h : base64Decode s = some bytes) :
    bytes.length = 6 * (unpadded s).length / 8 := by
  rw [base64Decode_eq] at h
  split at h
  · obtain rfl := Option.some.inj h
    rw [regroup, length_beBytes, length_map]
  · cases h

theorem isSome_base64Decode (s : String) :
    (base64Decode s).isSome ↔ ∀ c ∈ unpadded s, c ∈ alphabet := by
  rw [base64Decode_eq]
  split
  · rename_i h
    exact iff_of_true rfl h
  · rename_i h
    exact iff_of_false Bool.false_ne_true h

theorem decodeKey_of_eq {field b64 : String} {key : Key}
    (h : base64Decode (Text.trim b64) = some key.1) : decodeKey field b64 = .ok key := by
  rw [decodeKey, h]
  exact dif_pos key.2

theorem decodeKey_isOk_iff (field b64 : String) :
    (∃ key, decodeKey field b64 = .ok key) ↔
      (unpadded (Text.trim b64)).length = 43 ∧ ∀ c ∈ unpadded (Text.trim b64), c ∈ alphabet := by
  constructor
  · rintro ⟨key, h⟩
    unfold decodeKey at h
    cases hdec : base64Decode (Text.trim b64) with
    | none =>
      rw [hdec] at h
      cases h
    | some bytes =>
      rw [hdec] at h
      by_cases hkey : bytes.length = 32
      · have hlen := length_of_base64Decode hdec
        exact ⟨by omega, (isSome_base64Decode _).mp (Option.isSome_of_eq_some hdec)⟩
      · simp only [dif_neg hkey] at h
        cases h
  · rintro ⟨hlen, halp⟩
    obtain ⟨bytes, hby⟩ := Option.isSome_iff_exists.mp ((isSome_base64Decode _).mpr halp)
    have hkey : bytes.length = 32 := by rw [length_of_base64Decode hby, hlen]
    exact ⟨⟨bytes, hkey⟩, decodeKey_of_eq hby⟩

theorem trim_base64Encode (bytes : List UInt8) :
    Text.trim (base64Encode padded bytes) = base64Encode padded bytes := by
  have halp : ∀ c ∈ alphabet, Text.isWhitespace c = false := of_all_alphabet (by decide +kernel)
  have hchs : ∀ c ∈ (base64Encode padded bytes).toList, Text.isWhitespace c = false := by
    intro c hc
    rw [base64Encode, String.toList_ofList, mem_append] at hc
    rcases hc with hc | hc
    · exact halp c (chars_subset bytes hc)
    · cases padded with
      | true => rw [(mem_replicate.mp hc).2]; decide
      | false => cases hc
  exact Text.trim_eq_self (fun c hc => hchs c (mem_of_mem_head? hc))
    (fun c hc => hchs c (mem_of_mem_getLast? hc))

/-- Decoding gives back what was encoded, padded or not; it succeeds exactly on texts of the
alphabet, with a byte for every eight bits; so a key is a text of 43 characters, and every key has
one. -/
theorem key_text_spec :
    (∀ (padded : Bool) (bytes : List UInt8),
      base64Decode (base64Encode padded bytes) = some bytes) ∧
    (∀ s : String, ((base64Decode s).isSome ↔ ∀ c ∈ unpadded s, c ∈ alphabet) ∧
      ∀ bytes, base64Decode s = some bytes → bytes.length = 6 * (unpadded s).length / 8) ∧
    (∀ field b64 : String, (∃ key, decodeKey field b64 = .ok key) ↔
      (unpadded (Text.trim b64)).length = 43 ∧ ∀ c ∈ unpadded (Text.trim b64), c ∈ alphabet) ∧
    ∀ (field : String) (padded : Bool) (key : Key),
      decodeKey field (base64Encode padded key.1) = .ok key := by
  refine ⟨base64Decode_base64Encode,
    fun s => ⟨isSome_base64Decode s, fun bytes => length_of_base64Decode⟩, decodeKey_isOk_iff, ?_⟩
  intro field padded key
  refine decodeKey_of_eq ?_
  rw [trim_base64Encode, base64Decode_base64Encode]

/-- A vector of RFC 4648, section 10, and its length. -/
theorem key_text_foobar :
    base64Encode true "foobar".toUTF8.data.toList = "Zm9vYmFy" ∧
      base64Decode "Zm9vYmFy" = some "foobar".toUTF8.data.toList ∧
      "foobar".toUTF8.data.toList.length = 6 * 8 / 8 := by
  have htext : base64Encode true "foobar".toUTF8.data.toList = "Zm9vYmFy" := by decide +kernel
  have hbytes : base64Decode "Zm9vYmFy" = some "foobar".toUTF8.data.toList := by
    rw [← htext]
    exact key_text_spec.1 true _
  have hlength := (key_text_spec.2.1 "Zm9vYmFy").2 _ hbytes
  exact ⟨htext, hbytes, hlength.trans (by decide +kernel)⟩

end MitosNetwork.WireGuard
