import Mathlib.Order.Interval.Finset.Nat
import MitosNetwork.Ip.AddressText
import MitosNetwork.Proxy.PacBuiltins

/-!
# Subnets are blocks of numbers

The functions of `src/ip/ipv4.rs` mask the bits of an address. Read as numbers, the addresses of a
subnet are a block whose size is a power of two, which begins at a multiple of its size.
-/

/-! ## Masks -/

namespace Nat

theorem and_highMask {n w s : ℕ} (hn : n < 2 ^ w) (hs : s ≤ w) :
    n &&& (2 ^ w - 2 ^ s) = n / 2 ^ s * 2 ^ s := by
  have hmask : 2 ^ w - 2 ^ s = (2 ^ (w - s) - 1) <<< s := by
    rw [shiftLeft_eq, Nat.sub_mul, ← Nat.pow_add, Nat.sub_add_cancel hs, Nat.one_mul]
  rw [hmask, ← shiftLeft_eq, ← shiftRight_eq_div_pow]
  refine eq_of_testBit_eq fun i => ?_
  rw [testBit_and, testBit_shiftLeft, testBit_shiftLeft, testBit_shiftRight]
  by_cases hi : s ≤ i
  · rw [Nat.add_sub_cancel' hi]
    by_cases hw : i < w
    · simp [hi, show i - s < w - s by omega]
    · -- a bit beyond the width of the number
      rw [testBit_lt_two_pow (hn.trans_le (Nat.pow_le_pow_right two_pos (not_lt.mp hw)))]
      simp
  · simp [hi]

theorem or_lowMask (n s : ℕ) : n ||| (2 ^ s - 1) = n / 2 ^ s * 2 ^ s + (2 ^ s - 1) := by
  rw [← shiftLeft_eq, shiftLeft_add_eq_or_of_lt (sub_lt (Nat.two_pow_pos s) one_pos),
    ← shiftRight_eq_div_pow]
  refine eq_of_testBit_eq fun i => ?_
  by_cases hi : s ≤ i
  · simp [hi]
  · simp [not_le.mp hi]

end Nat

namespace MitosNetwork.Ipv4

variable {a x : Ipv4Addr} {p : UInt8}

theorem toNat_subnetMask (hp : p ≤ 32) :
    (subnetMask p).bits.toNat = 2 ^ 32 - 2 ^ (32 - p.toNat) := by
  have hmasks : ∀ n < 33, (subnetMask (.ofNat n)).bits.toNat = 2 ^ 32 - 2 ^ (32 - n) := by decide
  have hmask := hmasks p.toNat (Nat.lt_succ_of_le hp)
  rwa [UInt8.ofNat_toNat] at hmask

theorem toNat_networkAddress (hp : p ≤ 32) :
    (networkAddress a p).bits.toNat = a.bits.toNat / 2 ^ (32 - p.toNat) * 2 ^ (32 - p.toNat) := by
  rw [networkAddress, UInt32.toNat_and, toNat_subnetMask hp,
    Nat.and_highMask a.bits.toNat_lt (Nat.sub_le _ _)]

theorem toNat_broadcastAddress (hp : p ≤ 32) :
    (broadcastAddress a p).bits.toNat =
      a.bits.toNat / 2 ^ (32 - p.toNat) * 2 ^ (32 - p.toNat) + (2 ^ (32 - p.toNat) - 1) := by
  have hle : 2 ^ (32 - p.toNat) ≤ 2 ^ 32 := Nat.pow_le_pow_right two_pos (Nat.sub_le _ _)
  have hlow : (~~~(subnetMask p).bits).toNat = 2 ^ (32 - p.toNat) - 1 := by
    rw [UInt32.toNat_not, toNat_subnetMask hp]
    change 2 ^ 32 - 1 - _ = _
    omega
  rw [broadcastAddress, UInt32.toNat_or, hlow, Nat.or_lowMask]

theorem eq_of_toNat_bits {a b : Ipv4Addr} (h : a.bits.toNat = b.bits.toNat) : a = b :=
  congrArg Ipv4Addr.mk (UInt32.toNat_inj.mp h)

theorem sameSubnet_iff_div (hp : p ≤ 32) : sameSubnet x a p ↔
    x.bits.toNat / 2 ^ (32 - p.toNat) = a.bits.toNat / 2 ^ (32 - p.toNat) := by
  rw [sameSubnet, beq_iff_eq]
  constructor
  · intro h
    have hbits := congrArg (·.bits.toNat) h
    simp only [toNat_networkAddress hp] at hbits
    exact Nat.eq_of_mul_eq_mul_right (Nat.two_pow_pos _) hbits
  · intro h
    refine eq_of_toNat_bits ?_
    rw [toNat_networkAddress hp, toNat_networkAddress hp, h]

theorem isInNet_subnetMask : Pac.isInNet x.display a.display (subnetMask p).display =
    sameSubnet x a p := by
  have hp (v4 : Ipv4Addr) : Pac.parseIpv4 v4.display = some v4 := by
    have hread : IpParser.ipv4Addr v4.display.toList = some (v4, []) := by
      simpa using IpParser.ipv4Addr_display v4 (IpParser.stops_nil 10)
    simp [Pac.parseIpv4, Reader.parseWith, hread]
  rw [Pac.isInNet, hp, hp, hp, sameSubnet, networkAddress, networkAddress]
  simp

/-- **Subnets.** The addresses of the subnet of `a` are the numbers from its network address to its
broadcast address, an aligned block of a power of two, and the PAC function agrees. -/
theorem subnet_is_block (a : Ipv4Addr) (p : UInt8) (hp : p ≤ 32) :
    (∀ x, sameSubnet x a p ↔
      (networkAddress a p).bits ≤ x.bits ∧ x.bits ≤ (broadcastAddress a p).bits) ∧
    (Finset.Icc (networkAddress a p).bits.toNat (broadcastAddress a p).bits.toNat).card =
      2 ^ (32 - p.toNat) ∧
    2 ^ (32 - p.toNat) ∣ (networkAddress a p).bits.toNat ∧
    networkAddress (networkAddress a p) p = networkAddress a p ∧
    broadcastAddress (broadcastAddress a p) p = broadcastAddress a p ∧
    ∀ x, Pac.isInNet x.display a.display (subnetMask p).display = sameSubnet x a p := by
  have hpos := Nat.two_pow_pos (32 - p.toNat)
  refine ⟨fun x => ?_, ?_, ?_, ?_, ?_, fun x => isInNet_subnetMask⟩
  · rw [sameSubnet_iff_div hp, UInt32.le_iff_toNat_le, UInt32.le_iff_toNat_le,
      toNat_networkAddress hp, toNat_broadcastAddress hp, Nat.div_eq_iff hpos]
    omega
  · rw [Nat.card_Icc, toNat_networkAddress hp, toNat_broadcastAddress hp]
    omega
  · exact toNat_networkAddress hp ▸ Nat.dvd_mul_left _ _
  · refine eq_of_toNat_bits ?_
    rw [toNat_networkAddress hp, toNat_networkAddress hp, Nat.mul_div_cancel _ hpos]
  · refine eq_of_toNat_bits ?_
    rw [toNat_broadcastAddress hp, toNat_broadcastAddress hp, Nat.mul_comm (a.bits.toNat / _),
      Nat.mul_add_div hpos, Nat.div_eq_of_lt (Nat.sub_lt hpos one_pos), Nat.add_zero, Nat.mul_comm]

theorem subnet_is_block_classC :
    (24 : UInt8) ≤ 32 ∧ networkAddress (.new 192 168 1 42) 24 = .new 192 168 1 0 ∧
      ∀ x, sameSubnet x (.new 192 168 1 42) 24 ↔
        (networkAddress (.new 192 168 1 42) 24).bits ≤ x.bits ∧
          x.bits ≤ (broadcastAddress (.new 192 168 1 42) 24).bits :=
  ⟨by decide, by decide, (subnet_is_block (.new 192 168 1 42) 24 (by decide)).1⟩

end MitosNetwork.Ipv4
