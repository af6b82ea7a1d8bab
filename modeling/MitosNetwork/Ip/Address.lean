import MitosNetwork.Common.Reader
import MitosNetwork.Common.Wire
import MitosNetwork.Errors.Error

/-!
# IP addresses and CIDR strings

The address types of the standard library with their parser and their `Display`, the subnets of
`src/ip/ipv4.rs` and the CIDR parser of `src/ip/address.rs`. Everything that is written into a rule
set or a profile as an address passes through `parseCidr`; `addressChar_of_parseCidr` says which
characters can get through.
-/

namespace MitosNetwork

/-- An IPv4 address; `bits` is `u32::from(addr)`. -/
structure Ipv4Addr where
  bits : UInt32
deriving DecidableEq, Repr, Inhabited

namespace Ipv4Addr

/-- `Ipv4Addr::from` on a slice of network-order bytes. -/
def ofOctets (bs : List UInt8) : Ipv4Addr := ⟨UInt32.ofNat (Wire.beNat bs)⟩

/-- `Ipv4Addr::new`. -/
def new (a b c d : UInt8) : Ipv4Addr := ofOctets [a, b, c, d]

/-- `Ipv4Addr::octets`, in network order. -/
def octets (a : Ipv4Addr) : List UInt8 := Wire.beBytes 4 a.bits.toNat

/-- `Ipv4Addr::UNSPECIFIED`, `0.0.0.0`. -/
def unspecified : Ipv4Addr := ⟨0⟩

@[simp] theorem length_octets (a : Ipv4Addr) : a.octets.length = 4 := Wire.length_beBytes 4 _

@[simp] theorem ofOctets_octets (a : Ipv4Addr) : ofOctets a.octets = a := by
  rw [ofOctets, octets, Wire.ofNat_beNat_beBytes_four]

end Ipv4Addr

namespace Ipv4

/-- `subnet_mask`. The subtraction and the shift are those of `u32`, so a prefix length beyond 32
gives what a release build computes. -/
def subnetMask (prefixlen : UInt8) : Ipv4Addr :=
  if prefixlen = 0 then ⟨0⟩ else ⟨0xFFFFFFFF <<< (32 - prefixlen.toUInt32)⟩

def broadcastAddress (addr : Ipv4Addr) (prefixlen : UInt8) : Ipv4Addr :=
  ⟨addr.bits ||| ~~~(subnetMask prefixlen).bits⟩

def networkAddress (addr : Ipv4Addr) (prefixlen : UInt8) : Ipv4Addr :=
  ⟨addr.bits &&& (subnetMask prefixlen).bits⟩

def sameSubnet (a b : Ipv4Addr) (prefixlen : UInt8) : Bool :=
  networkAddress a prefixlen == networkAddress b prefixlen

end Ipv4

structure Ipv6Addr where
  segments : Vector UInt16 8
deriving DecidableEq

/-- `Ipv6Addr::from` on sixteen bytes. -/
def Ipv6Addr.ofOctets (bs : List UInt8) : Ipv6Addr :=
  ⟨Vector.ofFn fun i : Fin 8 => UInt16.ofNat (Wire.beNat (bs.extract (2 * i) (2 * i + 2)))⟩

/-- `Ipv6Addr::octets`. -/
def Ipv6Addr.octets (a : Ipv6Addr) : List UInt8 :=
  a.segments.toList.flatMap fun s => Wire.beBytes 2 s.toNat

theorem Ipv6Addr.length_octets (a : Ipv6Addr) : a.octets.length = 16 := by
  rw [octets, List.length_flatMap]
  simp

theorem Ipv6Addr.ofOctets_octets (a : Ipv6Addr) : ofOctets a.octets = a := by
  obtain ⟨segments⟩ := a
  have hlen : segments.toList.length = 8 := by simp
  refine congrArg Ipv6Addr.mk (Vector.toList_inj.mp ?_)
  rw [octets]
  match segments.toList, hlen with
  | [s₀, s₁, s₂, s₃, s₄, s₅, s₆, s₇], _ =>
    -- Each pair of bytes is the two bytes of one segment.
    change [UInt16.ofNat (Wire.beNat (Wire.beBytes 2 s₀.toNat)),
      UInt16.ofNat (Wire.beNat (Wire.beBytes 2 s₁.toNat)),
      UInt16.ofNat (Wire.beNat (Wire.beBytes 2 s₂.toNat)),
      UInt16.ofNat (Wire.beNat (Wire.beBytes 2 s₃.toNat)),
      UInt16.ofNat (Wire.beNat (Wire.beBytes 2 s₄.toNat)),
      UInt16.ofNat (Wire.beNat (Wire.beBytes 2 s₅.toNat)),
      UInt16.ofNat (Wire.beNat (Wire.beBytes 2 s₆.toNat)),
      UInt16.ofNat (Wire.beNat (Wire.beBytes 2 s₇.toNat))] = _
    simp only [Wire.ofNat_beNat_beBytes_two]

inductive IpAddr where
  | v4 (addr : Ipv4Addr)
  | v6 (addr : Ipv6Addr)
deriving DecidableEq

namespace IpAddr

def isIpv4 : IpAddr → Bool
  | v4 _ => true
  | v6 _ => false

end IpAddr

/-! ## Parsing -/

namespace IpParser

/-- `read_ipv4_addr`: four dotted decimal octets without leading zeros. -/
def ipv4Addr : Reader Ipv4Addr := do
  let a ← Reader.number 10 3 256 false
  Reader.givenChar '.'
  let b ← Reader.number 10 3 256 false
  Reader.givenChar '.'
  let c ← Reader.number 10 3 256 false
  Reader.givenChar '.'
  let d ← Reader.number 10 3 256 false
  pure (.new (.ofNat a) (.ofNat b) (.ofNat c) (.ofNat d))

def embedded (v4 : Ipv4Addr) : List UInt16 :=
  [UInt16.ofNat (v4.bits.toNat / 2 ^ 16), UInt16.ofNat v4.bits.toNat]

/-- `read_groups` with `left` slots free and `index` of them read: the groups and whether they end
in an embedded IPv4 address, which needs two slots. The loop stops where no group follows. -/
def groups : ℕ → ℕ → Reader (List UInt16 × Bool)
  | 0, _ => pure ([], false)
  | left + 1, index => fun s =>
    match if 1 ≤ left then Reader.separated ':' index ipv4Addr s else none with
    | some (v4, rest) => some ((embedded v4, true), rest)
    | none =>
      match Reader.separated ':' index (Reader.number 16 4 0x10000 true) s with
      | some (g, rest) =>
        (groups left (index + 1) rest).map fun q => ((UInt16.ofNat g :: q.1.1, q.1.2), q.2)
      | none => some (([], false), s)

/-- The address with these leading and trailing segments and zeros between them. -/
def ofHeadTail (head tail : List UInt16) : Ipv6Addr :=
  let all := head ++ List.replicate (8 - head.length - tail.length) 0 ++ tail
  ⟨Vector.ofFn fun i : Fin 8 => all.getD i 0⟩

/-- `read_ipv6_addr`: eight groups, or fewer around one `::`. -/
def ipv6Addr : Reader Ipv6Addr := do
  let (head, headIpv4) ← groups 8 0
  if head.length = 8 then pure (ofHeadTail head [])
  else if headIpv4 then fun _ => none
  else do
    Reader.givenChar ':'
    Reader.givenChar ':'
    let (tail, _) ← groups (7 - head.length) 0
    pure (ofHeadTail head tail)

/-- `read_ip_addr`. -/
def ipAddr : Reader IpAddr := fun s =>
  match ipv4Addr s with
  | some (a, rest) => some (.v4 a, rest)
  | none => (ipv6Addr s).map fun q => (.v6 q.1, q.2)

end IpParser

/-- `str::parse::<IpAddr>`. -/
def IpAddr.parse (cs : List Char) : Option IpAddr := Reader.parseWith IpParser.ipAddr cs

/-! ## Display -/

/-- A number in lower-case hexadecimal without leading zeros. -/
def hexText (n : ℕ) : String := String.ofList (Nat.toDigits 16 n)

def Ipv4Addr.display (a : Ipv4Addr) : String :=
  ".".intercalate (a.octets.map fun o => toString o.toNat)

/-- The first longest run of zero segments, as its start and length: the loop of `Display` with the
current and the longest run so far. -/
def longestZeros : List UInt16 → ℕ → ℕ × ℕ → ℕ × ℕ → ℕ × ℕ
  | [], _, _, longest => longest
  | seg :: segs, i, current, longest =>
    if seg = 0 then
      let current := if current.2 = 0 then (i, 1) else (current.1, current.2 + 1)
      longestZeros segs (i + 1) current (if longest.2 < current.2 then current else longest)
    else longestZeros segs (i + 1) (0, 0) longest

def Ipv6Addr.display (a : Ipv6Addr) : String :=
  let segs := a.segments.toList
  let joined := fun s : List UInt16 => ":".intercalate (s.map fun g => hexText g.toNat)
  if segs.take 6 = [0, 0, 0, 0, 0, 0xFFFF] then
    let bits := UInt32.ofNat ((segs.getD 6 0).toNat * 2 ^ 16 + (segs.getD 7 0).toNat)
    "::ffff:" ++ Ipv4Addr.display ⟨bits⟩
  else
    let zeros := longestZeros segs 0 (0, 0) (0, 0)
    if 1 < zeros.2 then
      joined (segs.take zeros.1) ++ "::" ++ joined (segs.drop (zeros.1 + zeros.2))
    else joined segs

def IpAddr.display : IpAddr → String
  | v4 a => a.display
  | v6 a => a.display

namespace Address

/-! ## CIDR strings -/

/-- `parse_cidr`. -/
def parseCidr (s : String) : Result (IpAddr × UInt8) :=
  match Text.splitOnce '/' s.toList with
  | none => .error (.parse ("'" ++ s ++ "' is not in CIDR form (addr/prefix)"))
  | some (ipPart, lenPart) =>
    match IpAddr.parse ipPart with
    | none => .error (.parse ("'" ++ String.ofList ipPart ++ "' is not a valid IP address"))
    | some ip =>
      match Text.parseU8 lenPart with
      | none => .error (.parse ("'" ++ String.ofList lenPart ++ "' is not a valid prefix length"))
      | some prefixlen =>
        if (if ip.isIpv4 then 32 else 128) < prefixlen then
          .error (.parse ("prefix length " ++ toString prefixlen.toNat ++ " out of range for " ++
            ip.display))
        else .ok (ip, prefixlen)

/-- The characters that can occur in a CIDR string. -/
def AddressChar (c : Char) : Prop :=
  Text.isDigit 16 c ∨ c = '.' ∨ c = ':' ∨ c = '/' ∨ c = '+'

instance (c : Char) : Decidable (AddressChar c) := inferInstanceAs (Decidable (_ ∨ _))

theorem isWhitespace_of_addressChar {c : Char} (h : AddressChar c) :
    Text.isWhitespace c = false := by
  have hasc : c.toNat < 128 := by
    rcases h with hdig | rfl | rfl | rfl | rfl
    · exact Text.toNat_lt_of_isDigit hdig
    all_goals decide
  have hall : ∀ n : Fin 128, AddressChar (Char.ofNat n) →
      Text.isWhitespace (Char.ofNat n) = false := by decide +kernel
  have hcase := hall ⟨c.toNat, hasc⟩
  rw [Char.ofNat_toNat] at hcase
  exact hcase h

end Address

namespace IpParser

open Address Reader

theorem addressChar_of_isDigit_ten {c : Char} (h : Text.isDigit 10 c) : AddressChar c := by
  refine .inl ?_
  obtain ⟨d, hd⟩ := Option.isSome_iff_exists.mp h
  obtain ⟨hval, hlt⟩ := Option.filter_eq_some_iff.mp hd
  have hlt : d < 10 := of_decide_eq_true hlt
  refine Option.isSome_iff_exists.mpr ⟨d, Option.filter_eq_some_iff.mpr ⟨hval, ?_⟩⟩
  exact decide_eq_true (hlt.trans (by decide))

theorem takes_ipv4Addr : Takes AddressChar ipv4Addr := by
  have hnum : Takes AddressChar (number 10 3 256 false) :=
    Takes.number (fun _ => addressChar_of_isDigit_ten) 3 256 false
  have hdot : Takes AddressChar (Reader.givenChar '.') := Takes.givenChar (.inr (.inl rfl))
  refine hnum.bind fun a => hdot.bind fun _ => hnum.bind fun b => hdot.bind fun _ =>
    hnum.bind fun c => hdot.bind fun _ => hnum.bind fun d => Takes.pure _

theorem takes_groups (left index : ℕ) : Takes AddressChar (groups left index) := by
  have hcol : AddressChar ':' := .inr (.inr (.inl rfl))
  induction left generalizing index with
  | zero => exact Takes.pure _
  | succ left ih =>
    intro s a rest h
    simp only [groups] at h
    split at h
    · rename_i v4 rest' hv4
      cases h
      split at hv4
      · exact Takes.separated hcol takes_ipv4Addr index s v4 rest hv4
      · cases hv4
    · split at h
      · rename_i g mid hg
        obtain ⟨⟨q, rest'⟩, hq, heq⟩ := Option.map_eq_some_iff.mp h
        cases heq
        have hnum : Takes AddressChar (number 16 4 0x10000 true) :=
          Takes.number (fun _ => .inl) 4 0x10000 true
        obtain ⟨t₁, rfl, h₁⟩ := Takes.separated hcol hnum index s g mid hg
        obtain ⟨t₂, rfl, h₂⟩ := ih (index + 1) mid q rest' hq
        refine ⟨t₁ ++ t₂, (List.append_assoc ..).symm, fun c hc => ?_⟩
        exact (List.mem_append.mp hc).elim (h₁ c) (h₂ c)
      · cases h
        exact ⟨[], rfl, by simp⟩

theorem takes_ipv6Addr : Takes AddressChar ipv6Addr := by
  have hcol : Takes AddressChar (givenChar ':') := Takes.givenChar (.inr (.inr (.inl rfl)))
  refine (takes_groups 8 0).bind fun q => ?_
  dsimp only
  split
  · exact Takes.pure _
  · split
    · intro s a rest h
      cases h
    · exact hcol.bind fun _ => hcol.bind fun _ => (takes_groups _ 0).bind fun _ => Takes.pure _

theorem takes_ipAddr : Takes AddressChar ipAddr := by
  intro s a rest h
  unfold ipAddr at h
  split at h
  · rename_i v4 rest' hv4
    cases h
    exact takes_ipv4Addr s v4 rest hv4
  · obtain ⟨⟨q, rest'⟩, hq, heq⟩ := Option.map_eq_some_iff.mp h
    cases heq
    exact takes_ipv6Addr s q rest' hq

end IpParser

namespace Address

theorem parseCidr_eq_ok {s : String} {cidr : IpAddr × UInt8} (h : parseCidr s = .ok cidr) :
    ∃ ipPart lenPart, Text.splitOnce '/' s.toList = some (ipPart, lenPart) ∧
      IpAddr.parse ipPart = some cidr.1 ∧ Text.parseU8 lenPart = some cidr.2 ∧
      cidr.2 ≤ if cidr.1.isIpv4 then 32 else 128 := by
  unfold parseCidr at h
  split at h
  · cases h
  · rename_i ipPart lenPart hsp
    split at h
    · cases h
    · rename_i ip hip
      split at h
      · cases h
      · rename_i len hlen
        by_cases hrg : (if ip.isIpv4 then 32 else 128) < len
        · rw [if_pos hrg] at h
          cases h
        · rw [if_neg hrg] at h
          cases h
          exact ⟨ipPart, lenPart, hsp, hip, hlen, UInt8.not_lt.mp hrg⟩

theorem addressChar_of_parseCidr {s : String} {cidr : IpAddr × UInt8}
    (h : parseCidr s = .ok cidr) : ∀ c ∈ s.toList, AddressChar c := by
  obtain ⟨ipPart, lenPart, hsp, hip, hlen, -⟩ := parseCidr_eq_ok h
  rw [Text.splitOnce_eq_some hsp]
  intro c hc
  rcases List.mem_append.mp hc with hc | hc
  · exact IpParser.takes_ipAddr.of_parseWith hip c hc
  · rcases List.mem_cons.mp hc with rfl | hc
    · exact .inr (.inr (.inr (.inl rfl)))
    · rcases Text.mem_of_parseU8 hlen c hc with rfl | hd
      · exact .inr (.inr (.inr (.inr rfl)))
      · exact IpParser.addressChar_of_isDigit_ten hd

theorem ne_empty_of_parseCidr {s : String} {cidr : IpAddr × UInt8} (h : parseCidr s = .ok cidr) :
    s ≠ "" := by
  rintro rfl
  cases h

example : parseCidr "192.168.1.0/24" = .ok (.v4 (.new 192 168 1 0), 24) := by decide +kernel

example : parseCidr "192.168.1.0/33" =
    .error (.parse "prefix length 33 out of range for 192.168.1.0") := by decide +kernel

example : (IpAddr.parse "2001:db8::192.0.2.1".toList).map IpAddr.display =
    some "2001:db8::c000:201" := by decide +kernel

end Address

end MitosNetwork
