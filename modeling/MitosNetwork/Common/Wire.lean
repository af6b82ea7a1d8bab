import Mathlib.Data.Nat.ModEq
import Mathlib.Tactic.Ring

/-!
# Words on byte strings

Network protocols write fixed-width integers most significant byte first. `beBytes w n` is the
`w`-byte spelling of `n` and `beNat` reads a byte string back; `beNat_beBytes` says that reading
what was written gives the number modulo `256 ^ w`. The interfaces of the kernel use the byte order
of the machine, a `ByteOrder`. A list of words is read in pieces of one length by `chunksExact`.
-/

namespace Wire

open List

variable {bs a : List UInt8} {w i j : ℕ}

/-- The `w` big-endian bytes of `n`, reduced modulo `256 ^ w`. -/
def beBytes : ℕ → ℕ → List UInt8
  | 0, _ => []
  | w + 1, n => UInt8.ofNat (n / 256 ^ w) :: beBytes w n

/-- The number that a big-endian byte string spells. -/
def beNat : List UInt8 → ℕ
  | [] => 0
  | b :: bs => b.toNat * 256 ^ bs.length + beNat bs

@[simp] theorem length_beBytes (w n : ℕ) : (beBytes w n).length = w := by
  induction w with
  | zero => rfl
  | succ w ih => rw [beBytes, length_cons, ih]

theorem beNat_beBytes (w n : ℕ) : beNat (beBytes w n) = n % 256 ^ w := by
  induction w with
  | zero => simp [beBytes, beNat, Nat.mod_one]
  | succ w ih =>
    rw [beBytes, beNat, ih, length_beBytes, Nat.mod_pow_succ]
    have hbyte : (UInt8.ofNat (n / 256 ^ w)).toNat = n / 256 ^ w % 256 := by simp
    rw [hbyte]
    ring

theorem beNat_lt (bs : List UInt8) : beNat bs < 256 ^ bs.length := by
  induction bs with
  | nil => exact Nat.one_pos
  | cons b bs ih =>
    have hb : b.toNat + 1 ≤ 256 := b.toNat_lt
    have hmul := Nat.mul_le_mul_right (256 ^ bs.length) hb
    rw [beNat, length_cons, Nat.add_one_mul] at *
    omega

theorem beNat_append (a b : List UInt8) :
    beNat (a ++ b) = beNat a * 256 ^ b.length + beNat b := by
  induction a with
  | nil => rw [nil_append, beNat, Nat.zero_mul, Nat.zero_add]
  | cons x a ih =>
    rw [cons_append, beNat, beNat, ih, length_append]
    ring

theorem beBytes_mul_add (w m n : ℕ) : beBytes w (m * 256 ^ w + n) = beBytes w n := by
  induction w generalizing m with
  | zero => rfl
  | succ w ih =>
    have hpos : 0 < 256 ^ w := Nat.pow_pos (by decide)
    have hsp : m * 256 ^ (w + 1) + n = (m * 256) * 256 ^ w + n := by ring
    rw [beBytes, hsp, ih, Nat.add_comm, Nat.add_mul_div_right _ _ hpos]
    congr 1
    exact UInt8.toNat_inj.mp (by simp)

theorem beBytes_beNat (h : bs.length = w) : beBytes w (beNat bs) = bs := by
  subst h
  induction bs with
  | nil => rfl
  | cons b bs ih =>
    have hpos : 0 < 256 ^ bs.length := Nat.pow_pos (by decide)
    rw [length_cons, beBytes, beNat, beBytes_mul_add, ih, Nat.add_comm,
      Nat.add_mul_div_right _ _ hpos, Nat.div_eq_of_lt (beNat_lt bs), Nat.zero_add,
      UInt8.ofNat_toNat]

theorem ofNat_beNat_beBytes_four (x : UInt32) :
    UInt32.ofNat (beNat (beBytes 4 x.toNat)) = x := by
  have hx : x.toNat < 256 ^ 4 := x.toNat_lt
  rw [beNat_beBytes, Nat.mod_eq_of_lt hx, UInt32.ofNat_toNat]

theorem ofNat_beNat_beBytes_two (x : UInt16) :
    UInt16.ofNat (beNat (beBytes 2 x.toNat)) = x := by
  have hx : x.toNat < 256 ^ 2 := x.toNat_lt
  rw [beNat_beBytes, Nat.mod_eq_of_lt hx, UInt16.ofNat_toNat]

/-! ## Native words -/

inductive ByteOrder where
  | little
  | big
deriving DecidableEq

namespace ByteOrder

/-- The `w` bytes of `n` in this order (`to_ne_bytes`). -/
def bytes : ByteOrder → ℕ → ℕ → List UInt8
  | little, w, n => (beBytes w n).reverse
  | big, w, n => beBytes w n

/-- The number that a byte string spells in this order (`from_ne_bytes`). -/
def nat : ByteOrder → List UInt8 → ℕ
  | little, bs => beNat bs.reverse
  | big, bs => beNat bs

variable (order : ByteOrder)

@[simp] theorem length_bytes (w n : ℕ) : (order.bytes w n).length = w := by
  cases order <;> simp [bytes]

theorem nat_bytes (w n : ℕ) : order.nat (order.bytes w n) = n % 256 ^ w := by
  cases order <;> simp [bytes, nat, beNat_beBytes]

theorem bytes_nat (h : bs.length = w) : order.bytes w (order.nat bs) = bs := by
  cases order with
  | little =>
    have hrev : bs.reverse.length = w := by rw [length_reverse, h]
    rw [bytes, nat, beBytes_beNat hrev, reverse_reverse]
  | big => exact beBytes_beNat h

theorem nat_lt (bs : List UInt8) : order.nat bs < 256 ^ bs.length := by
  cases order with
  | little =>
    rw [← length_reverse]
    exact beNat_lt bs.reverse
  | big => exact beNat_lt bs

theorem bytes_ofNat_nat_four (h : bs.length = 4) :
    order.bytes 4 (UInt32.ofNat (order.nat bs)).toNat = bs := by
  have hlt := order.nat_lt bs
  rw [h] at hlt
  have hword : (UInt32.ofNat (order.nat bs)).toNat = order.nat bs := UInt32.toNat_ofNat_of_lt hlt
  rw [hword, order.bytes_nat h]

theorem bytes_ofNat_nat_two (h : bs.length = 2) :
    order.bytes 2 (UInt16.ofNat (order.nat bs)).toNat = bs := by
  have hlt := order.nat_lt bs
  rw [h] at hlt
  have hword : (UInt16.ofNat (order.nat bs)).toNat = order.nat bs := UInt16.toNat_ofNat_of_lt hlt
  rw [hword, order.bytes_nat h]

theorem ofNat_nat_bytes_four (x : UInt32) :
    UInt32.ofNat (order.nat (order.bytes 4 x.toNat)) = x := by
  have hx : x.toNat < 256 ^ 4 := x.toNat_lt
  rw [nat_bytes, Nat.mod_eq_of_lt hx, UInt32.ofNat_toNat]

theorem ofNat_nat_bytes_two (x : UInt16) :
    UInt16.ofNat (order.nat (order.bytes 2 x.toNat)) = x := by
  have hx : x.toNat < 256 ^ 2 := x.toNat_lt
  rw [nat_bytes, Nat.mod_eq_of_lt hx, UInt16.ofNat_toNat]

end ByteOrder

theorem beBytes_ofNat_beNat_two (h : bs.length = 2) :
    beBytes 2 (UInt16.ofNat (beNat bs)).toNat = bs :=
  ByteOrder.big.bytes_ofNat_nat_two h

theorem extract_field {b c : List UInt8} (ha : a.length = i) (hb : b.length = j - i) :
    (a ++ (b ++ c)).extract i j = b := by
  rw [extract_eq_take_drop, drop_left' ha, take_left' hb]

theorem extract_append_left (h : j ≤ a.length) (b : List UInt8) :
    (a ++ b).extract i j = a.extract i j := by
  rw [extract_eq_take_drop]
  by_cases hij : i ≤ j
  · rw [drop_append_of_le_length (by omega), take_append_of_le_length (by rw [length_drop]; omega)]
  · simp [Nat.sub_eq_zero_of_le (le_of_not_ge hij)]

theorem extract_append_drop (bs : List UInt8) (h : i ≤ j) :
    bs.extract i j ++ bs.drop j = bs.drop i := by
  rw [← Nat.add_sub_cancel' h, ← drop_drop, Nat.add_sub_cancel' h, take_append_drop]

theorem length_extract (h : j ≤ bs.length) : (bs.extract i j).length = j - i := by
  rw [length_take, length_drop]
  omega

/-! ## Lists of words -/

/-- `chunks_exact`: the complete pieces of `w` bytes, in order. -/
def chunksExact (w : ℕ) (bs : List UInt8) : List (List UInt8) :=
  (List.range (bs.length / w)).map fun i => (bs.drop (i * w)).take w

theorem chunksExact_append {x : List UInt8} (hw : 0 < w) (hx : x.length = w) (bs : List UInt8) :
    chunksExact w (x ++ bs) = x :: chunksExact w bs := by
  have hcnt : (x ++ bs).length / w = bs.length / w + 1 := by
    rw [length_append, hx, Nat.add_div_left _ hw]
  rw [chunksExact, hcnt, range_succ_eq_map, map_cons, map_map]
  congr 1
  · rw [Nat.zero_mul, drop_zero, take_left' hx]
  · refine map_congr_left fun i _ => ?_
    show ((x ++ bs).drop ((i + 1) * w)).take w = _
    rw [Nat.succ_mul, Nat.add_comm, ← drop_drop, drop_left' hx]

theorem chunksExact_flatMap {α : Type*} (hw : 0 < w) {f : α → List UInt8}
    (hf : ∀ a, (f a).length = w) (l : List α) : chunksExact w (l.flatMap f) = l.map f := by
  induction l with
  | nil => simp [chunksExact]
  | cons a l ih => rw [flatMap_cons, chunksExact_append hw (hf a), ih, map_cons]

end Wire
