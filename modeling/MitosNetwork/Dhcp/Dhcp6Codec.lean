import MitosNetwork.Common.Records
import MitosNetwork.Dhcp.Dhcp6

/-!
# DHCPv6 messages on the wire

The options of `src/dhcp/dhcp6.rs` are a stream of records: `push_option` writes one and every turn
of `parse_options` reads one. `readOption_eq_some_iff` says that the turn reads exactly what can be
written, and from it the codec is sound on every buffer (`options_roundtrip`). The messages of the
client are lists of options with an option inside of an option; `client_messages` says what a server
reads out of them.
-/

namespace MitosNetwork.Dhcp6

open List Wire

open Dhcp4 (Mac macBytes)

/-! ## The option codec -/

/-- What `push_option` appends for an option. -/
def wireBytes (o : DhcpOption) : List UInt8 := optionBytes o.1 o.2

def Fits (o : DhcpOption) : Prop := o.2.length ≤ 65535

instance (o : DhcpOption) : Decidable (Fits o) := inferInstanceAs (Decidable (_ ≤ _))

/-- One turn of the loop of `parse_options`. -/
def readOption (buf : List UInt8) : Option (DhcpOption × List UInt8) :=
  let len := beNat (buf.extract 2 4)
  if buf.length < 4 then none
  else if buf.length < 4 + len then none
  else
    some ((UInt16.ofNat (beNat (buf.take 2)), buf.extract 4 (4 + len)), buf.drop (4 + len))

/-- A buffer in which the loop stops: too short for a header, or for what its header declares. -/
def Stops (buf : List UInt8) : Prop :=
  buf.length < 4 ∨ buf.length < 4 + beNat (buf.extract 2 4)

theorem parseOptionsUpTo_eq (n : ℕ) (buf : List UInt8) :
    parseOptionsUpTo n buf = (Records.readAll readOption n buf).1 := by
  induction n generalizing buf with
  | zero => rfl
  | succ n ih =>
    simp only [parseOptionsUpTo, Records.readAll, readOption, ih]
    split
    · rfl
    · split <;> rfl

theorem readOption_eq_none_iff {buf : List UInt8} : readOption buf = none ↔ Stops buf := by
  simp only [readOption, Stops]
  split
  · simp [*]
  · split <;> simp [*]

theorem length_wireBytes (o : DhcpOption) : (wireBytes o).length = 4 + o.2.length := by
  simp only [wireBytes, optionBytes, length_append, length_beBytes]

theorem readOption_wireBytes {o : DhcpOption} (h : Fits o) (rest : List UInt8) :
    readOption (wireBytes o ++ rest) = some (o, rest) := by
  have hbuf : wireBytes o ++ rest =
      beBytes 2 o.1.toNat ++ (beBytes 2 o.2.length ++ (o.2 ++ rest)) := by
    simp only [wireBytes, optionBytes, append_assoc]
  have hlength : (wireBytes o ++ rest).length = 4 + o.2.length + rest.length := by
    rw [length_append, length_wireBytes]
  have hcode : UInt16.ofNat (beNat ((wireBytes o ++ rest).take 2)) = o.1 := by
    rw [hbuf, take_left' (length_beBytes 2 _), ofNat_beNat_beBytes_two]
  have hlen : beNat ((wireBytes o ++ rest).extract 2 4) = o.2.length := by
    rw [hbuf, extract_field (length_beBytes 2 _) (length_beBytes 2 _), beNat_beBytes]
    exact Nat.mod_eq_of_lt (Nat.lt_succ_of_le h)
  have hdata : (wireBytes o ++ rest).extract 4 (4 + o.2.length) = o.2 := by
    rw [hbuf, ← append_assoc]
    exact extract_field (by simp) (by simp)
  have hrest : (wireBytes o ++ rest).drop (4 + o.2.length) = rest := drop_left' (length_wireBytes o)
  simp only [readOption, hlen, hcode, hdata, hrest, hlength]
  rw [if_neg (by omega), if_neg (by omega)]

theorem readOption_eq_some_iff {buf rest : List UInt8} {o : DhcpOption} :
    readOption buf = some (o, rest) ↔ Fits o ∧ buf = wireBytes o ++ rest := by
  constructor
  · intro h
    simp only [readOption] at h
    split at h
    · cases h
    split at h
    · cases h
    have hcode : (buf.take 2).length = 2 := by
      rw [length_take]
      omega
    have hlen : (buf.extract 2 4).length = 2 := length_extract (by omega)
    have hdata : (buf.extract 4 (4 + beNat (buf.extract 2 4))).length =
        beNat (buf.extract 2 4) := by
      rw [length_extract (by omega), Nat.add_sub_cancel_left]
    obtain ⟨rfl, rfl⟩ := Prod.mk.inj (Option.some.inj h)
    refine ⟨?_, ?_⟩
    · have hlt := beNat_lt (buf.extract 2 4)
      rw [hlen] at hlt
      exact hdata.trans_le (Nat.le_of_lt_succ hlt)
    · rw [wireBytes, optionBytes, beBytes_ofNat_beNat_two hcode, hdata,
        beBytes_beNat hlen, append_assoc, extract_append_drop buf (Nat.le_add_right 4 _),
        append_assoc, extract_append_drop buf (by decide), take_append_drop]
  · rintro ⟨h, rfl⟩
    exact readOption_wireBytes h rest

theorem shrinks_readOption : Records.Shrinks readOption := by
  intro buf rest o h
  obtain ⟨-, rfl⟩ := readOption_eq_some_iff.mp h
  rw [length_append, length_wireBytes]
  omega

theorem parseOptions_eq_records (buf : List UInt8) :
    parseOptions buf = (Records.records readOption buf).1 :=
  parseOptionsUpTo_eq buf.length buf

theorem parseOptions_flatMap {opts : List DhcpOption} (h : ∀ o ∈ opts, Fits o) (rest : List UInt8) :
    parseOptions (opts.flatMap wireBytes ++ rest) = opts ++ parseOptions rest := by
  rw [parseOptions_eq_records, parseOptions_eq_records,
    Records.records_flatMap shrinks_readOption fun o ho => readOption_wireBytes (h o ho)]

theorem parseOptions_wireBytes {opts : List DhcpOption} (h : ∀ o ∈ opts, Fits o) :
    parseOptions (opts.flatMap wireBytes) = opts := by
  have hp := parseOptions_flatMap h []
  rwa [append_nil, show parseOptions [] = [] from rfl, append_nil] at hp

/-- **The option codec.** Options that the length field can count come back as they were written,
and of any buffer the parsed options, written again, are the part before the first option that is
not complete. -/
theorem options_roundtrip :
    (∀ opts : List DhcpOption, (∀ o ∈ opts, o.2.length ≤ 65535) →
      parseOptions (opts.flatMap fun o => optionBytes o.1 o.2) = opts) ∧
    ∀ buf : List UInt8, ∃ rest,
      buf = ((parseOptions buf).flatMap fun o => optionBytes o.1 o.2) ++ rest ∧
      (rest.length < 4 ∨ rest.length < 4 + Wire.beNat (rest.extract 2 4)) := by
  refine ⟨fun opts h => parseOptions_wireBytes h, fun buf => ?_⟩
  refine ⟨(Records.records readOption buf).2, ?_, ?_⟩
  · rw [parseOptions_eq_records]
    exact Records.eq_flatMap_readAll (fun h => (readOption_eq_some_iff.mp h).2) _ buf
  · exact readOption_eq_none_iff.mp (Records.read_readAll shrinks_readOption (Nat.le_refl _))

theorem options_roundtrip_two :
    (∀ o ∈ [(optServerid, [1, 2]), (optRapidCommit, [])], o.2.length ≤ 65535) ∧
    parseOptions [0, 2, 0, 2, 1, 2, 0, 14, 0, 0] = [(optServerid, [1, 2]), (optRapidCommit, [])] :=
  ⟨by decide, options_roundtrip.1 [(optServerid, [1, 2]), (optRapidCommit, [])] (by decide)⟩

/-! ## Identity associations -/

/-- The fixed part of an IA_NA of the client, which leaves T1 and T2 to the server. -/
def iaNaHeader (iaid : UInt32) : List UInt8 :=
  beBytes 4 iaid.toNat ++ (beBytes 4 0 ++ beBytes 4 0)

theorem u32At_field {a b : List UInt8} {i : ℕ} (ha : a.length = i) (x : UInt32) :
    u32At (a ++ (beBytes 4 x.toNat ++ b)) i = x := by
  rw [u32At, extract_field ha (by simp), ofNat_beNat_beBytes_four]

theorem parseIaNa_iaNaHeader {subs : List DhcpOption} (h : ∀ o ∈ subs, Fits o) (iaid : UInt32) :
    parseIaNa (iaNaHeader iaid ++ subs.flatMap wireBytes) =
      some (subs.foldl IaNa.withSuboption ⟨iaid, 0, 0, none, 0, 0, none⟩) := by
  have hlen : (iaNaHeader iaid).length = 12 := by simp [iaNaHeader]
  have hdata : iaNaHeader iaid ++ subs.flatMap wireBytes = beBytes 4 iaid.toNat ++
      (beBytes 4 0 ++ (beBytes 4 0 ++ subs.flatMap wireBytes)) := by
    simp only [iaNaHeader, append_assoc]
  have hiaid : u32At (iaNaHeader iaid ++ subs.flatMap wireBytes) 0 = iaid := by
    rw [hdata, ← nil_append (beBytes 4 iaid.toNat ++ _)]
    exact u32At_field rfl iaid
  have ht1 : u32At (iaNaHeader iaid ++ subs.flatMap wireBytes) 4 = 0 := by
    rw [hdata]
    exact u32At_field (by simp) 0
  have ht2 : u32At (iaNaHeader iaid ++ subs.flatMap wireBytes) 8 = 0 := by
    rw [hdata, ← append_assoc]
    exact u32At_field (by simp) 0
  have hsubs : (iaNaHeader iaid ++ subs.flatMap wireBytes).drop 12 = subs.flatMap wireBytes :=
    drop_left' hlen
  rw [parseIaNa, if_neg (by rw [length_append, hlen]; omega), hiaid, ht1, ht2, hsubs,
    parseOptions_wireBytes h]

/-- An address with its lifetimes, as the client asks for it. -/
def iaAddrOption (addr : Ipv6Addr) (preferred valid : UInt32) : DhcpOption :=
  (optIaAddr, addr.octets ++ (beBytes 4 preferred.toNat ++ beBytes 4 valid.toNat))

theorem length_iaAddrOption (addr : Ipv6Addr) (preferred valid : UInt32) :
    (iaAddrOption addr preferred valid).2.length = 24 := by
  simp [iaAddrOption, Ipv6Addr.length_octets]

theorem withSuboption_iaAddrOption (ia : IaNa) (addr : Ipv6Addr) (preferred valid : UInt32) :
    ia.withSuboption (iaAddrOption addr preferred valid) =
      { ia with
        address := some addr
        preferredLifetime := preferred
        validLifetime := valid } := by
  have haddr := Ipv6Addr.length_octets addr
  have hoct : (iaAddrOption addr preferred valid).2.take 16 = addr.octets := take_left' haddr
  have hpreferred : u32At (iaAddrOption addr preferred valid).2 16 = preferred :=
    u32At_field haddr preferred
  have hvalid : u32At (iaAddrOption addr preferred valid).2 20 = valid := by
    have hfld := u32At_field (a := addr.octets ++ beBytes 4 preferred.toNat) (b := [])
      (i := 20) (by simp [haddr]) valid
    rwa [append_assoc] at hfld
  have hread : (iaAddrOption addr preferred valid).1 = optIaAddr ∧
      24 ≤ (iaAddrOption addr preferred valid).2.length :=
    ⟨rfl, (length_iaAddrOption addr preferred valid).ge⟩
  rw [IaNa.withSuboption, if_pos hread, hoct, hpreferred, hvalid, Ipv6Addr.ofOctets_octets]

/-! ## The client's messages -/

/-- What a Solicit asks for: an address by rapid commit, DNS servers and search domains. -/
def solicitOptions (mac : Mac) (iaid : UInt32) (elapsed : UInt16) : List DhcpOption :=
  [(optClientid, duidLl mac),
    (optElapsedTime, beBytes 2 elapsed.toNat),
    (optRapidCommit, []),
    (optOro, oro),
    (optIaNa, iaNaHeader iaid)]

/-- What a Request, Renew, Rebind or Release asks for, of one server or of any. -/
def requestOptions (mac : Mac) (serverId : Option (List UInt8)) (iaid : UInt32) (addr : Ipv6Addr)
    (preferred valid : UInt32) (elapsed : UInt16) : List DhcpOption :=
  [(optClientid, duidLl mac)] ++ (serverId.map fun id => (optServerid, id)).toList ++
    [(optElapsedTime, beBytes 2 elapsed.toNat),
      (optOro, oro),
      (optIaNa, iaNaHeader iaid ++ wireBytes (iaAddrOption addr preferred valid))]

theorem matching_message {options : List DhcpOption} (h : ∀ o ∈ options, Fits o) (msgType : UInt8)
    (xid : Xid) :
    matching xid (msgType :: xidBytes xid ++ options.flatMap wireBytes) =
      .ok (msgType, options) := by
  have hxid : (msgType :: xidBytes xid ++ options.flatMap wireBytes).extract 1 4 = xidBytes xid :=
    rfl
  have hdrop : (msgType :: xidBytes xid ++ options.flatMap wireBytes).drop 4 =
      options.flatMap wireBytes := rfl
  rw [matching, hxid, if_neg (not_not.mpr rfl), hdrop, parseOptions_wireBytes h]
  rfl

theorem fits_solicitOptions (mac : Mac) (iaid : UInt32) (elapsed : UInt16) :
    ∀ o ∈ solicitOptions mac iaid elapsed, Fits o := by
  simp [solicitOptions, Fits, duidLl, macBytes, oro, iaNaHeader]

theorem fits_requestOptions {serverId : Option (List UInt8)}
    (h : ∀ id ∈ serverId, id.length ≤ 65535) (mac : Mac) (iaid : UInt32) (addr : Ipv6Addr)
    (preferred valid : UInt32) (elapsed : UInt16) :
    ∀ o ∈ requestOptions mac serverId iaid addr preferred valid elapsed, Fits o := by
  have hsrv : ∀ o ∈ (serverId.map fun id => (optServerid, id)).toList, Fits o := by
    intro o ho
    obtain ⟨id, hid, rfl⟩ := Option.map_eq_some_iff.mp (Option.mem_toList.mp ho)
    exact h id hid
  intro o ho
  simp only [requestOptions, mem_append] at ho
  rcases ho with (ho | ho) | ho
  · obtain rfl := mem_singleton.mp ho
    simp [Fits, duidLl, macBytes]
  · exact hsrv o ho
  · simp only [mem_cons, not_mem_nil, or_false] at ho
    rcases ho with rfl | rfl | rfl
    · simp [Fits]
    · simp [Fits, oro]
    · simp [Fits, iaNaHeader, length_wireBytes, length_iaAddrOption]

theorem buildSolicit_eq (xid : Xid) (mac : Mac) (iaid : UInt32) (elapsed : UInt16) :
    buildSolicit xid mac iaid elapsed =
      msgSolicit :: xidBytes xid ++ (solicitOptions mac iaid elapsed).flatMap wireBytes := by
  simp [buildSolicit, solicitOptions, wireBytes, iaNaHeader]

theorem buildIaRequest_eq (msgType : UInt8) (xid : Xid) (mac : Mac) (serverId : Option (List UInt8))
    (iaid : UInt32) (addr : Ipv6Addr) (preferred valid : UInt32) (elapsed : UInt16) :
    buildIaRequest msgType xid mac serverId iaid addr preferred valid elapsed =
      msgType :: xidBytes xid ++
        (requestOptions mac serverId iaid addr preferred valid elapsed).flatMap wireBytes := by
  cases serverId <;> simp [buildIaRequest, requestOptions, wireBytes, iaNaHeader, iaAddrOption]

/-- **The client's messages say what was meant.** -/
theorem client_messages (xid : Xid) (mac : Mac) (iaid : UInt32) (elapsed : UInt16) :
    (matching xid (buildSolicit xid mac iaid elapsed) =
        .ok (msgSolicit, solicitOptions mac iaid elapsed) ∧
      findOption optServerid (solicitOptions mac iaid elapsed) = none ∧
      (findOption optIaNa (solicitOptions mac iaid elapsed)).bind parseIaNa =
        some ⟨iaid, 0, 0, none, 0, 0, none⟩) ∧
    ∀ (msgType : UInt8) (serverId : Option (List UInt8)) (addr : Ipv6Addr)
      (preferred valid : UInt32), (∀ id ∈ serverId, id.length ≤ 65535) →
      matching xid (buildIaRequest msgType xid mac serverId iaid addr preferred valid elapsed) =
        .ok (msgType, requestOptions mac serverId iaid addr preferred valid elapsed) ∧
      findOption optServerid (requestOptions mac serverId iaid addr preferred valid elapsed) =
        serverId ∧
      (findOption optIaNa (requestOptions mac serverId iaid addr preferred valid elapsed)).bind
        parseIaNa = some ⟨iaid, 0, 0, some addr, preferred, valid, none⟩ := by
  refine ⟨⟨?_, rfl, ?_⟩, ?_⟩
  · rw [buildSolicit_eq, matching_message (fits_solicitOptions mac iaid elapsed)]
  · show parseIaNa (iaNaHeader iaid) = _
    have hia := parseIaNa_iaNaHeader (forall_mem_nil Fits) iaid
    rwa [flatMap_nil] at hia
  · intro msgType serverId addr preferred valid hserver
    refine ⟨?_, ?_, ?_⟩
    · rw [buildIaRequest_eq, matching_message (fits_requestOptions hserver mac iaid addr _ _ _)]
    · cases serverId <;> rfl
    · have hfind : findOption optIaNa
          (requestOptions mac serverId iaid addr preferred valid elapsed) =
            some (iaNaHeader iaid ++ wireBytes (iaAddrOption addr preferred valid)) := by
        cases serverId <;> rfl
      have hfits : ∀ o ∈ [iaAddrOption addr preferred valid], Fits o := by
        rw [forall_mem_singleton, Fits, length_iaAddrOption]
        decide
      have hia := parseIaNa_iaNaHeader hfits iaid
      rw [flatMap_singleton] at hia
      rw [hfind, Option.bind_some, hia, foldl_cons, foldl_nil, withSuboption_iaAddrOption]

/-- A Renew of the lease of the server `[1]`. -/
theorem client_messages_renew :
    (∀ id ∈ some ([1] : List UInt8), id.length ≤ 65535) ∧
    matching #v[2, 2, 2] (buildIaRequest msgRenew #v[2, 2, 2] link.mac (some [1]) 3 (example6 1)
      300 600 0) = .ok (msgRenew, requestOptions link.mac (some [1]) 3 (example6 1) 300 600 0) ∧
    (findOption optIaNa (requestOptions link.mac (some [1]) 3 (example6 1) 300 600 0)).bind
      parseIaNa = some ⟨3, 0, 0, some (example6 1), 300, 600, none⟩ := by
  have hserver : ∀ id ∈ some ([1] : List UInt8), id.length ≤ 65535 := by decide
  obtain ⟨hoptions, -, hia⟩ := (client_messages #v[2, 2, 2] link.mac 3 0).2 msgRenew (some [1])
    (example6 1) 300 600 hserver
  exact ⟨hserver, hoptions, hia⟩

end MitosNetwork.Dhcp6
