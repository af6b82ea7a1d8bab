import MitosNetwork.Common.Records
import MitosNetwork.Dhcp.Dhcp4

/-!
# The option area of a DHCPv4 packet

The grammar behind the loop of `parse` in `src/dhcp/dhcp4.rs`: padding and options in any order, up
to an END byte, behind which anything may stand. An entry says where it ends, so the area is a
stream of records, and `parse` gives the options of the entries before the END. If the packet is cut
off inside the area, it gives those of the entries that end before the cut: a code without a length,
and an option with less data than its length says, are not entries.
-/

namespace MitosNetwork.Dhcp4

open List

inductive AreaEntry where
  | pad
  | option (o : { o : DhcpOption // WireOption o })

namespace AreaEntry

def bytes : AreaEntry → List UInt8
  | pad => [optPad]
  | option o => optionBytes o.1

def option? : AreaEntry → Option DhcpOption
  | pad => none
  | option o => some o.1

end AreaEntry

def spelled {code : UInt8} (hpad : code ≠ optPad) (hend : code ≠ optEnd) (len : UInt8)
    (data : List UInt8) : { o : DhcpOption // WireOption o } :=
  ⟨(code, data.take len.toNat), hpad, hend, by
    have hlen := len.toNat_lt
    rw [length_take]
    omega⟩

/-- One turn of the option loop: the entry at the front, unless it is the END or incomplete. -/
def readEntry : List UInt8 → Option (AreaEntry × List UInt8)
  | [] => none
  | code :: rest =>
    if hend : code = optEnd then none
    else if hpad : code = optPad then some (.pad, rest)
    else
      match rest with
      | [] => none
      | len :: data =>
        if data.length < len.toNat then none
        else some (.option (spelled hpad hend len data), data.drop len.toNat)

theorem readEntry_cons {code : UInt8} (hpad : code ≠ optPad) (hend : code ≠ optEnd) (len : UInt8)
    (data : List UInt8) :
    readEntry (code :: len :: data) =
      if data.length < len.toNat then none
      else some (.option (spelled hpad hend len data), data.drop len.toNat) := by
  simp only [readEntry, dif_neg hend, dif_neg hpad]

theorem parseOptionsUpTo_eq_readAll (n : ℕ) (bs : List UInt8) :
    parseOptionsUpTo n bs = (Records.readAll readEntry n bs).1.filterMap AreaEntry.option? := by
  induction n generalizing bs with
  | zero => rfl
  | succ n ih =>
    cases bs with
    | nil => rfl
    | cons code rest =>
      by_cases hend : code = optEnd
      · subst hend
        rfl
      by_cases hpad : code = optPad
      · subst hpad
        exact ih rest
      cases rest with
      | nil =>
        rw [Records.readAll_of_none (by simp only [readEntry, dif_neg hend, dif_neg hpad])]
        simp only [parseOptionsUpTo, if_neg hend, if_neg hpad, filterMap_nil]
      | cons len data =>
        have hread := readEntry_cons hpad hend len data
        simp only [parseOptionsUpTo, if_neg hend, if_neg hpad]
        split
        · rename_i hsh
          rw [if_pos hsh] at hread
          rw [Records.readAll_of_none hread, filterMap_nil]
        · rename_i hfull
          rw [if_neg hfull] at hread
          rw [Records.readAll_of_some hread, ih]
          rfl

theorem parseOptions_eq_records (bs : List UInt8) :
    parseOptions bs = (Records.records readEntry bs).1.filterMap AreaEntry.option? :=
  parseOptionsUpTo_eq_readAll bs.length bs

/-! ## Entries -/

theorem readEntry_bytes (e : AreaEntry) (rest : List UInt8) :
    readEntry (e.bytes ++ rest) = some (e, rest) := by
  cases e with
  | pad => rfl
  | option o =>
    obtain ⟨⟨code, data⟩, hwire⟩ := o
    obtain ⟨hpad, hend, hlen⟩ := hwire
    have hbyte : (UInt8.ofNat data.length).toNat = data.length :=
      UInt8.toNat_ofNat_of_lt' (Nat.lt_succ_of_le hlen)
    have hspelled : spelled hpad hend (UInt8.ofNat data.length) (data ++ rest) =
        ⟨(code, data), hpad, hend, hlen⟩ := by
      refine Subtype.ext (Prod.ext rfl ?_)
      show (data ++ rest).take (UInt8.ofNat data.length).toNat = data
      rw [hbyte, take_left]
    show readEntry (code :: UInt8.ofNat data.length :: (data ++ rest)) = _
    rw [readEntry_cons hpad hend, hspelled, hbyte, drop_left, if_neg]
    rw [length_append]
    omega

theorem readEntry_take_bytes (e : AreaEntry) {k : ℕ} (hk : k < e.bytes.length) :
    readEntry (e.bytes.take k) = none := by
  cases e with
  | pad =>
    obtain rfl : k = 0 := Nat.lt_one_iff.mp hk
    rfl
  | option o =>
    obtain ⟨⟨code, data⟩, hpad, hend, hlen⟩ := o
    have hbyte : (UInt8.ofNat data.length).toNat = data.length :=
      UInt8.toNat_ofNat_of_lt' (Nat.lt_succ_of_le hlen)
    have hdata : k < data.length + 2 := hk
    show readEntry ((code :: UInt8.ofNat data.length :: data).take k) = none
    -- The cut is before the code, behind it, or behind the length.
    cases k with
    | zero => rfl
    | succ k =>
      cases k with
      | zero =>
        simp only [take_succ_cons, take_zero, readEntry, dif_neg hend, dif_neg hpad]
      | succ k =>
        rw [take_succ_cons, take_succ_cons, readEntry_cons hpad hend, if_pos]
        rw [length_take]
        omega

theorem shrinks_readEntry : Records.Shrinks readEntry := by
  intro bs rest e h
  cases bs with
  | nil => cases h
  | cons code tail =>
    by_cases hend : code = optEnd
    · subst hend
      cases h
    by_cases hpad : code = optPad
    · subst hpad
      cases h
      exact Nat.lt_succ_self _
    cases tail with
    | nil =>
      simp only [readEntry, dif_neg hend, dif_neg hpad] at h
      cases h
    | cons len data =>
      rw [readEntry_cons hpad hend] at h
      split at h
      · cases h
      · cases h
        simp only [length_drop, length_cons]
        omega

/-! ## Packets -/

theorem options_parse {head : List UInt8} (hlength : head.length = 240)
    (hcoo : head.extract 236 240 = magicCookie) (area : List UInt8) :
    (parse (head ++ area)).map Packet.options = some (parseOptions area) := by
  have hcookie' : (head ++ area).extract 236 240 = magicCookie := by
    rw [Wire.extract_append_left hlength.ge, hcoo]
  have harea : (head ++ area).drop 240 = area := drop_left' hlength
  rw [parse, if_neg, Option.map_some, harea]
  rw [hcookie', length_append, hlength]
  simp

/-- **The option area.** A packet with any padding and any options, an END and anything behind it
gives exactly its options, in order. If the packet is cut off in the option area, it gives exactly
those that end before the cut. -/
theorem parse_option_area {head : List UInt8} (hlength : head.length = 240)
    (hcookie : head.extract 236 240 = magicCookie) (entries : List AreaEntry)
    (trailing : List UInt8) :
    (parse (head ++ (entries.flatMap AreaEntry.bytes ++ optEnd :: trailing))).map Packet.options =
      some (entries.filterMap AreaEntry.option?) ∧
    ∀ k, (parse (head ++ (entries.flatMap AreaEntry.bytes ++ optEnd :: trailing).take k)).map
        Packet.options =
      some ((Records.endingBy AreaEntry.bytes k entries).filterMap AreaEntry.option?) := by
  have hcut : ∀ k,
      (parse (head ++ (entries.flatMap AreaEntry.bytes ++ optEnd :: trailing).take k)).map
        Packet.options =
      some ((Records.endingBy AreaEntry.bytes k entries).filterMap AreaEntry.option?) := by
    intro k
    rw [options_parse hlength hcookie, parseOptions_eq_records,
      Records.records_take shrinks_readEntry (fun e _ => readEntry_bytes e)
        (fun e _ k hk => readEntry_take_bytes e hk)]
    intro j
    cases j with
    | zero => rfl
    | succ j => exact rfl
  refine ⟨?_, hcut⟩
  have hall := hcut (entries.flatMap AreaEntry.bytes ++ optEnd :: trailing).length
  rwa [take_length, Records.endingBy_eq_self (by simp)] at hall

/-- The packet whose header the following area stands behind. -/
def released : Packet := releasePacket 7 (.replicate 6 2) (.new 10 42 0 2) (.new 10 42 0 1)

/-- Padding, an empty option, padding again and an option whose data is cut off. -/
theorem parse_option_area_padded :
    (header released).length = 240 ∧ (header released).extract 236 240 = magicCookie ∧
    (parse (header released ++ [0, 12, 0, 0, 53, 1])).map Packet.options =
      some [(optHostname, [])] := by
  have hlength := length_header released
  have hcookie : (header released).extract 236 240 = magicCookie := rfl
  exact ⟨hlength, hcookie, (parse_option_area hlength hcookie
    [.pad, .option ⟨(optHostname, []), by decide⟩, .pad, .option ⟨(optMsgType, [5]), by decide⟩]
    [9]).2 6⟩

end MitosNetwork.Dhcp4
