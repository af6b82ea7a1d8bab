import MitosNetwork.Ip.Address

/-!
# Addresses are read back from their text

`IpAddr.parse` undoes `IpAddr.display`, for every address. The text of an IPv6 address is written in
three ways: with an embedded IPv4 address, around the longest run of zeros, or in full. The reader
tries an IPv4 address before every group, and takes none where no dot follows.
-/

namespace MitosNetwork

open Reader List

variable {v4 : Ipv4Addr} {segs : List UInt16} {run : ℕ × ℕ} {rest : List Char}

namespace IpParser

/-! ## IPv4 -/

theorem toList_hexText (n : ℕ) : (hexText n).toList = Nat.toDigits 16 n := String.toList_ofList

theorem number_octet (o : UInt8) (h : Stops 10 rest) :
    Reader.number 10 3 256 false ((toString o.toNat).toList ++ rest) = some (o.toNat, rest) := by
  have hlt : o.toNat < 256 := o.toNat_lt
  rw [Nat.toString_eq_ofList_toDigits, String.toList_ofList]
  exact number_toDigits (by decide) (by decide)
    ((Nat.length_toDigits_le_iff (by decide) (by decide)).mpr (by omega)) hlt false h

theorem stops_dot (rest : List Char) : Stops 10 ('.' :: rest) := by
  rintro _ ⟨⟩
  decide

theorem ipv4Addr_display (a : Ipv4Addr) (h : Stops 10 rest) :
    ipv4Addr (a.display.toList ++ rest) = some (a, rest) := by
  obtain ⟨o₁, o₂, o₃, o₄, hoct⟩ : ∃ o₁ o₂ o₃ o₄, a.octets = [o₁, o₂, o₃, o₄] := by
    have hlen := a.length_octets
    match a.octets, hlen with
    | [o₁, o₂, o₃, o₄], _ => exact ⟨o₁, o₂, o₃, o₄, rfl⟩
  have htext : a.display.toList ++ rest =
      (toString o₁.toNat).toList ++ '.' :: ((toString o₂.toNat).toList ++
        '.' :: ((toString o₃.toNat).toList ++ '.' :: ((toString o₄.toNat).toList ++ rest))) := by
    simp [Ipv4Addr.display, hoct]
  have haddr : Ipv4Addr.new (.ofNat o₁.toNat) (.ofNat o₂.toNat) (.ofNat o₃.toNat)
      (.ofNat o₄.toNat) = a := by
    simp only [UInt8.ofNat_toNat]
    rw [Ipv4Addr.new, ← hoct, Ipv4Addr.ofOctets_octets]
  rw [htext, ← haddr]
  unfold ipv4Addr
  simp only [bind, StateT.bind, number_octet _ (stops_dot _), number_octet _ h, givenChar_cons,
    Option.bind_some]
  rfl

theorem ipv4Addr_of_notMem {s : List Char} (h : '.' ∉ s) : ipv4Addr s = none := by
  rw [Option.eq_none_iff_forall_ne_some]
  rintro ⟨a, rest⟩ hread
  obtain ⟨⟨n, mid⟩, hnum, hrest⟩ := Option.bind_eq_some_iff.mp hread
  obtain ⟨⟨u, mid'⟩, hdot, -⟩ := Option.bind_eq_some_iff.mp hrest
  obtain ⟨taken, rfl, -⟩ := Takes.number (p := fun _ => True) (fun _ _ => trivial) 3 256 false s n
    mid hnum
  cases mid with
  | nil => cases hdot
  | cons c mid =>
    simp only [givenChar] at hdot
    split at hdot
    · rename_i hc
      exact h (hc ▸ mem_append_right taken mem_cons_self)
    · cases hdot

theorem ipv4Addr_of_stops {s : List Char} (h : Stops 10 s) : ipv4Addr s = none := by
  show (Reader.number 10 3 256 false s).bind _ = none
  rw [number_of_stops h, Option.bind_none]

/-! ## Groups -/

section Groups

variable {left index : ℕ} {s : List Char}

theorem groups_succ_ipv4 (hleft : 1 ≤ left)
    (h : Reader.separated ':' index ipv4Addr s = some (v4, rest)) :
    groups (left + 1) index s = some ((embedded v4, true), rest) := by
  simp only [groups, if_pos hleft, h]

theorem groups_succ_group (hv4 : Reader.separated ':' index ipv4Addr s = none) {g : ℕ}
    (h : Reader.separated ':' index (Reader.number 16 4 0x10000 true) s = some (g, rest)) :
    groups (left + 1) index s =
      (groups left (index + 1) rest).map fun q => ((UInt16.ofNat g :: q.1.1, q.1.2), q.2) := by
  simp only [groups, hv4, ite_self, h]

theorem groups_succ_end (hv4 : Reader.separated ':' index ipv4Addr s = none)
    (h : Reader.separated ':' index (Reader.number 16 4 0x10000 true) s = none) :
    groups (left + 1) index s = some (([], false), s) := by
  simp only [groups, hv4, ite_self, h]

end Groups

def furtherText (segs : List UInt16) : List Char :=
  segs.flatMap fun g => ':' :: Nat.toDigits 16 g.toNat

/-- The groups end here: at the end of the text or at a double colon. -/
def GroupsEnd (rest : List Char) : Prop := rest = [] ∨ ∃ more, rest = ':' :: ':' :: more

theorem stops_colon (radix : ℕ) (rest : List Char) : Stops radix (':' :: rest) := by
  intro c hc
  obtain rfl := Option.some.inj hc
  have hcol : Text.toDigit radix ':' = none := by simp [Text.toDigit]
  rw [Text.isDigit, hcol, Option.isSome_none]

theorem stops_nil (radix : ℕ) : Stops radix [] := fun _ hc => nomatch hc

theorem GroupsEnd.stops (h : GroupsEnd rest) : Stops 16 rest := by
  rcases h with rfl | ⟨more, rfl⟩
  · exact stops_nil 16
  · exact stops_colon 16 _

theorem stops_furtherText (segs : List UInt16) (h : GroupsEnd rest) :
    Stops 16 (furtherText segs ++ rest) := by
  cases segs with
  | nil => exact h.stops
  | cons g segs => exact stops_colon 16 _

theorem number_segment (g : UInt16) (h : Stops 16 rest) :
    Reader.number 16 4 0x10000 true (Nat.toDigits 16 g.toNat ++ rest) = some (g.toNat, rest) := by
  have hlt : g.toNat < 65536 := g.toNat_lt
  exact number_toDigits (by decide) (by decide)
    ((Nat.length_toDigits_le_iff (by decide) (by decide)).mpr (by omega)) hlt true h

theorem separated_ipv4Addr_of_notMem {s : List Char} (h : '.' ∉ s) (index : ℕ) :
    Reader.separated ':' index ipv4Addr s = none := by
  cases index with
  | zero => exact ipv4Addr_of_notMem h
  | succ index =>
    by_cases hcol : s.head? = some ':'
    · obtain ⟨rest, rfl⟩ := head?_eq_some_iff.mp hcol
      exact ipv4Addr_of_notMem fun hmem => h (mem_cons_of_mem ':' hmem)
    · exact separated_succ_of_head?_ne hcol index ipv4Addr

theorem dot_notMem_toDigits (n : ℕ) : '.' ∉ Nat.toDigits 16 n := by
  intro h
  have hdig := Text.isDigit_of_mem_toDigits (by decide) (by decide) n '.' h
  exact absurd hdig (by decide)

theorem dot_notMem_furtherText (segs : List UInt16) : '.' ∉ furtherText segs := by
  intro h
  obtain ⟨g, -, hg⟩ := mem_flatMap.mp h
  rcases mem_cons.mp hg with hc | hg
  · exact absurd hc (by decide)
  · exact dot_notMem_toDigits g.toNat hg

theorem groups_of_groupsEnd (h : GroupsEnd rest) (hdot : '.' ∉ rest)
    (left index : ℕ) : groups left index rest = some (([], false), rest) := by
  cases left with
  | zero => rfl
  | succ left =>
    have hnum : Reader.separated ':' index (Reader.number 16 4 0x10000 true) rest = none := by
      cases index with
      | zero => exact number_of_stops h.stops _ _ _
      | succ index =>
        rcases h with rfl | ⟨more, rfl⟩
        · exact separated_succ_of_head?_ne (by simp) index _
        · rw [separated_succ_cons]
          exact number_of_stops (stops_colon 16 more) _ _ _
    exact groups_succ_end (separated_ipv4Addr_of_notMem hdot index) hnum

theorem groups_furtherText (hend : GroupsEnd rest) (hdot : '.' ∉ rest) {left : ℕ}
    (hleft : segs.length ≤ left) (index : ℕ) :
    groups left (index + 1) (furtherText segs ++ rest) = some ((segs, false), rest) := by
  induction segs generalizing left index with
  | nil => exact groups_of_groupsEnd hend hdot left (index + 1)
  | cons g segs ih =>
    obtain ⟨left, rfl⟩ : ∃ n, left = n + 1 := ⟨left - 1, by simp at hleft; omega⟩
    have htext : furtherText (g :: segs) ++ rest =
        ':' :: (Nat.toDigits 16 g.toNat ++ (furtherText segs ++ rest)) := by
      simp [furtherText]
    have hnodot : '.' ∉ furtherText (g :: segs) ++ rest := by
      rw [mem_append, not_or]
      exact ⟨dot_notMem_furtherText _, hdot⟩
    have hnum : Reader.separated ':' (index + 1) (Reader.number 16 4 0x10000 true)
        (furtherText (g :: segs) ++ rest) = some (g.toNat, furtherText segs ++ rest) := by
      rw [htext]
      exact number_segment g (stops_furtherText segs hend)
    rw [groups_succ_group (separated_ipv4Addr_of_notMem hnodot _) hnum,
      ih (by simpa using hleft) (index + 1), Option.map_some, UInt16.ofNat_toNat]

def joined (segs : List UInt16) : List Char :=
  (":".intercalate (segs.map fun g => hexText g.toNat)).toList

theorem joined_cons (g : UInt16) (segs : List UInt16) :
    joined (g :: segs) = Nat.toDigits 16 g.toNat ++ furtherText segs := by
  induction segs generalizing g with
  | nil => simp [joined, furtherText, toList_hexText]
  | cons g' segs ih =>
    have hstep : joined (g :: g' :: segs) =
        Nat.toDigits 16 g.toNat ++ ':' :: joined (g' :: segs) := by
      simp [joined, toList_hexText]
    rw [hstep, ih]
    simp [furtherText]

theorem dot_notMem_joined (segs : List UInt16) : '.' ∉ joined segs := by
  cases segs with
  | nil => simp [joined]
  | cons g segs =>
    rw [joined_cons, mem_append, not_or]
    exact ⟨dot_notMem_toDigits g.toNat, dot_notMem_furtherText segs⟩

theorem groups_joined (hend : GroupsEnd rest) (hdot : '.' ∉ rest) {left : ℕ}
    (hleft : segs.length ≤ left) :
    groups left 0 (joined segs ++ rest) = some ((segs, false), rest) := by
  cases segs with
  | nil => exact groups_of_groupsEnd hend hdot left 0
  | cons g segs =>
    obtain ⟨left, rfl⟩ : ∃ n, left = n + 1 := ⟨left - 1, by simp at hleft; omega⟩
    have hnodot : '.' ∉ joined (g :: segs) ++ rest := by
      rw [mem_append, not_or]
      exact ⟨dot_notMem_joined _, hdot⟩
    have hnum : Reader.separated ':' 0 (Reader.number 16 4 0x10000 true)
        (joined (g :: segs) ++ rest) = some (g.toNat, furtherText segs ++ rest) := by
      rw [joined_cons, append_assoc]
      exact number_segment g (stops_furtherText segs hend)
    rw [groups_succ_group (separated_ipv4Addr_of_notMem hnodot _) hnum,
      groups_furtherText hend hdot (by simpa using hleft) 0, Option.map_some, UInt16.ofNat_toNat]

end IpParser

/-! ## The longest run of zeros -/

def ZeroRun (segs : List UInt16) (run : ℕ × ℕ) : Prop :=
  run.1 + run.2 ≤ segs.length ∧ ∀ j, run.1 ≤ j → j < run.1 + run.2 → segs[j]? = some 0

theorem zeroRun_empty (segs : List UInt16) : ZeroRun segs (0, 0) :=
  ⟨Nat.zero_le _, fun j _ hj => by omega⟩

theorem zeroRun_longestZeros {all : List UInt16} {i : ℕ} {current longest : ℕ × ℕ}
    (hsegs : segs = all.drop i) (hi : i ≤ all.length) (hcurrent : ZeroRun all current)
    (hends : current.2 ≠ 0 → current.1 + current.2 = i) (hlon : ZeroRun all longest) :
    ZeroRun all (longestZeros segs i current longest) := by
  induction segs generalizing i current longest with
  | nil => exact hlon
  | cons seg segs ih =>
    have hlt : i < all.length := by
      have hlen := congrArg List.length hsegs
      simp at hlen
      omega
    have hget : all[i]? = some seg := by
      rw [← head?_drop, ← hsegs, head?_cons]
    have htail : segs = all.drop (i + 1) := by
      rw [← tail_drop, ← hsegs, tail_cons]
    rw [longestZeros]
    by_cases hzero : seg = 0
    · rw [if_pos hzero]
      -- the run grows by the segment at `i`
      obtain ⟨run, hdef⟩ : ∃ run : ℕ × ℕ,
          run = if current.2 = 0 then (i, 1) else (current.1, current.2 + 1) := ⟨_, rfl⟩
      have hrun : ZeroRun all run ∧ run.1 + run.2 = i + 1 := by
        rw [hdef]
        split
        · refine ⟨⟨hlt, fun j hj hj' => ?_⟩, rfl⟩
          obtain rfl : j = i := by dsimp only at hj hj'; omega
          rw [hget, hzero]
        · refine ⟨⟨by dsimp only; omega, fun j hj hj' => ?_⟩, by dsimp only; omega⟩
          by_cases hji : j = i
          · rw [hji, hget, hzero]
          · exact hcurrent.2 j hj (by omega)
      rw [← hdef]
      refine ih htail hlt hrun.1 (fun _ => hrun.2) ?_
      by_cases hlonger : longest.2 < run.2
      · rw [if_pos hlonger]
        exact hrun.1
      · rw [if_neg hlonger]
        exact hlon
    · rw [if_neg hzero]
      exact ih htail hlt (zeroRun_empty all) (fun h => absurd rfl h) hlon

theorem ZeroRun.eq_append (h : ZeroRun segs run) :
    segs = segs.take run.1 ++ List.replicate run.2 0 ++ segs.drop (run.1 + run.2) := by
  have hmid : (segs.drop run.1).take run.2 = List.replicate run.2 0 := by
    refine ext_getElem? fun j => ?_
    by_cases hj : j < run.2
    · rw [getElem?_take_of_lt hj, getElem?_drop, getElem?_replicate_of_lt hj,
        h.2 _ (by omega) (by omega)]
    · rw [getElem?_eq_none (by simp; omega), getElem?_eq_none (by simp; omega)]
  rw [← hmid, append_assoc, ← drop_drop, take_append_drop, take_append_drop]

namespace IpParser

variable {a : Ipv6Addr} {head tail : List UInt16}

/-! ## IPv6 -/

theorem ofHeadTail_eq (zeros : ℕ) (h : a.segments.toList = head ++ List.replicate zeros 0 ++ tail) :
    ofHeadTail head tail = a := by
  have hlen := congrArg List.length h
  simp only [Vector.length_toList, length_append, length_replicate] at hlen
  have hzeros : 8 - head.length - tail.length = zeros := by omega
  rw [ofHeadTail, hzeros, ← h]
  refine congrArg Ipv6Addr.mk (Vector.ext fun i hi => ?_)
  simp

theorem ipv6Addr_of_groups {s rest : List Char} {v4 : Bool}
    (h : groups 8 0 s = some ((segs, v4), rest)) (hlen : segs.length = 8) :
    ipv6Addr s = some (ofHeadTail segs [], rest) := by
  rw [ipv6Addr, bind_apply, h, Option.bind_some]
  dsimp only
  rw [if_pos hlen]
  rfl

theorem ipv6Addr_of_double_colon {s more rest : List Char} {v4 : Bool}
    (h : groups 8 0 s = some ((head, false), ':' :: ':' :: more)) (hlen : head.length ≠ 8)
    (htail : groups (7 - head.length) 0 more = some ((tail, v4), rest)) :
    ipv6Addr s = some (ofHeadTail head tail, rest) := by
  rw [ipv6Addr, bind_apply, h, Option.bind_some]
  dsimp only
  rw [if_neg hlen, if_neg Bool.false_ne_true, bind_apply, givenChar_cons, Option.bind_some,
    bind_apply, givenChar_cons, Option.bind_some, bind_apply, htail]
  rfl

theorem ipv6Addr_joined (a : Ipv6Addr) : ipv6Addr (joined a.segments.toList) = some (a, []) := by
  have hgrs : groups 8 0 (joined a.segments.toList ++ []) =
      some ((a.segments.toList, false), []) := groups_joined (.inl rfl) (by simp) (by simp)
  rw [append_nil] at hgrs
  have haddr : ofHeadTail a.segments.toList [] = a := ofHeadTail_eq 0 (by simp)
  rw [ipv6Addr_of_groups hgrs (by simp), haddr]

theorem ipv6Addr_compressed (hrun : ZeroRun a.segments.toList run) (hlong : 1 < run.2) :
    ipv6Addr (joined (a.segments.toList.take run.1) ++
      ':' :: ':' :: joined (a.segments.toList.drop (run.1 + run.2))) = some (a, []) := by
  have hsegs := hrun.eq_append
  have hbd : run.1 + run.2 ≤ 8 := by simpa using hrun.1
  have hhead : (a.segments.toList.take run.1).length = run.1 := by simp; omega
  have htail : (a.segments.toList.drop (run.1 + run.2)).length = 8 - (run.1 + run.2) := by simp
  have haddr := ofHeadTail_eq run.2 hsegs
  generalize a.segments.toList.take run.1 = head at haddr hhead ⊢
  generalize a.segments.toList.drop (run.1 + run.2) = tail at haddr htail ⊢
  have hgrs : groups 8 0 (joined head ++ ':' :: ':' :: joined tail) =
      some ((head, false), ':' :: ':' :: joined tail) :=
    groups_joined (.inr ⟨_, rfl⟩) (by simpa using dot_notMem_joined tail) (by omega)
  have hgroups' : groups (7 - head.length) 0 (joined tail ++ []) = some ((tail, false), []) :=
    groups_joined (.inl rfl) (by simp) (by omega)
  rw [append_nil] at hgroups'
  rw [ipv6Addr_of_double_colon hgrs (by omega) hgroups', haddr]

theorem embedded_ofNat (hi lo : UInt16) :
    embedded ⟨UInt32.ofNat (hi.toNat * 2 ^ 16 + lo.toNat)⟩ = [hi, lo] := by
  have hhi : hi.toNat < 65536 := hi.toNat_lt
  have hlo : lo.toNat < 65536 := lo.toNat_lt
  have hbits : (UInt32.ofNat (hi.toNat * 2 ^ 16 + lo.toNat)).toNat =
      hi.toNat * 2 ^ 16 + lo.toNat := by
    exact Nat.mod_eq_of_lt (by omega)
  have hdiv : (hi.toNat * 2 ^ 16 + lo.toNat) / 2 ^ 16 = hi.toNat := by omega
  have hmod : UInt16.ofNat (hi.toNat * 2 ^ 16 + lo.toNat) = lo := by
    rw [← UInt16.toNat_inj, UInt16.toNat_ofNat']
    omega
  rw [embedded, hbits, hdiv, hmod, UInt16.ofNat_toNat]

theorem ipv6Addr_mapped (h : a.segments.toList = [0, 0, 0, 0, 0, 0xFFFF] ++ embedded v4) :
    ipv6Addr ("::ffff:".toList ++ v4.display.toList) = some (a, []) := by
  have hdisplay : ipv4Addr v4.display.toList = some (v4, []) := by
    simpa using ipv4Addr_display v4 (stops_nil 10)
  have htext : "::ffff:".toList ++ v4.display.toList =
      ':' :: ':' :: (['f', 'f', 'f', 'f'] ++ ':' :: v4.display.toList) := rfl
  rw [htext]
  generalize v4.display.toList = text at hdisplay ⊢
  have hstops : Stops 10 (['f', 'f', 'f', 'f'] ++ ':' :: text) := by
    rintro _ ⟨⟩
    decide
  have hnum := number_segment 0xFFFF (stops_colon 16 text)
  -- no group stands before the double colon, and two behind it with the embedded address last
  have hhead : groups 8 0 (':' :: ':' :: (['f', 'f', 'f', 'f'] ++ ':' :: text)) =
      some (([], false), ':' :: ':' :: (['f', 'f', 'f', 'f'] ++ ':' :: text)) := by
    apply groups_succ_end
    · exact ipv4Addr_of_stops (stops_colon 10 _)
    · rw [separated_zero]
      exact number_of_stops (stops_colon 16 _) 4 0x10000 true
  have hlast : groups 6 1 (':' :: text) = some ((embedded v4, true), []) := by
    refine groups_succ_ipv4 (by decide) ?_
    rw [separated_succ_cons, hdisplay]
  have htail : groups 7 0 (['f', 'f', 'f', 'f'] ++ ':' :: text) =
      some ((0xFFFF :: embedded v4, true), []) := by
    have hv4 : Reader.separated ':' 0 ipv4Addr (['f', 'f', 'f', 'f'] ++ ':' :: text) = none :=
      ipv4Addr_of_stops hstops
    rw [groups_succ_group hv4 hnum, hlast, Option.map_some, UInt16.ofNat_toNat]
  have haddr : ofHeadTail [] (0xFFFF :: embedded v4) = a := ofHeadTail_eq 5 h
  rw [ipv6Addr_of_double_colon hhead (by decide) htail, haddr]

end IpParser

open IpParser

theorem ipv6Addr_display (a : Ipv6Addr) : ipv6Addr a.display.toList = some (a, []) := by
  unfold Ipv6Addr.display
  by_cases hmap : a.segments.toList.take 6 = [0, 0, 0, 0, 0, 0xFFFF]
  · simp only [hmap, if_true, String.toList_append]
    refine ipv6Addr_mapped ?_
    rw [embedded_ofNat, ← hmap]
    have hlast : a.segments.toList.drop 6 =
        [a.segments.toList.getD 6 0, a.segments.toList.getD 7 0] := by
      have hlen : a.segments.toList.length = 8 := by simp
      match a.segments.toList, hlen with
      | [_, _, _, _, _, _, _, _], _ => rfl
    rw [← hlast, take_append_drop]
  · simp only [hmap, if_false]
    have hrun : ZeroRun a.segments.toList (longestZeros a.segments.toList 0 (0, 0) (0, 0)) :=
      zeroRun_longestZeros rfl (Nat.zero_le _) (zeroRun_empty _) (fun h => absurd rfl h)
        (zeroRun_empty _)
    split
    · rename_i hlong
      have htext := ipv6Addr_compressed hrun hlong
      simpa [joined] using htext
    · exact ipv6Addr_joined a

theorem ipv4Addr_display_v6 (a : Ipv6Addr) : ipv4Addr a.display.toList = none := by
  unfold Ipv6Addr.display
  by_cases hmap : a.segments.toList.take 6 = [0, 0, 0, 0, 0, 0xFFFF]
  · simp only [hmap, if_true, String.toList_append]
    exact ipv4Addr_of_stops (stops_colon 10 _)
  · simp only [hmap, if_false]
    refine ipv4Addr_of_notMem ?_
    split
    · simp only [String.toList_append, mem_append, not_or]
      exact ⟨⟨dot_notMem_joined _, by decide⟩, dot_notMem_joined _⟩
    · exact dot_notMem_joined _

theorem IpAddr.parse_display (ip : IpAddr) : IpAddr.parse ip.display.toList = some ip := by
  unfold IpAddr.parse Reader.parseWith ipAddr
  cases ip with
  | v4 a =>
    have hread : ipv4Addr a.display.toList = some (a, []) := by
      simpa using ipv4Addr_display a (stops_nil 10)
    simp [IpAddr.display, hread]
  | v6 a => simp [IpAddr.display, ipv4Addr_display_v6, ipv6Addr_display]

end MitosNetwork
