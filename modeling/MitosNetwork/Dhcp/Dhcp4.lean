import MitosNetwork.Ip.Address
import Mathlib.Tactic.IntervalCases

/-!
# DHCPv4 packets

The packet type of `src/dhcp/dhcp4.rs` with its `serialize` and `parse`. The fixed BOOTP header is
240 bytes, the magic cookie included; the options follow as code, one length byte and data, closed
by `OPT_END`. The read position of `parse` is modelled by the bytes that are still unread.
-/

namespace MitosNetwork.Dhcp4

variable {bs : List UInt8} {n i : ℕ} {hostname : Option String}

def magicCookie : List UInt8 := [99, 130, 83, 99]

def opBootrequest : UInt8 := 1
def opBootreply : UInt8 := 2
def htypeEther : UInt8 := 1

def optSubnetMask : UInt8 := 1
def optRouter : UInt8 := 3
def optDns : UInt8 := 6
def optHostname : UInt8 := 12
def optDomainName : UInt8 := 15
def optRequestedIp : UInt8 := 50
def optLeaseTime : UInt8 := 51
def optMsgType : UInt8 := 53
def optServerId : UInt8 := 54
def optParamRequestList : UInt8 := 55
def optClientId : UInt8 := 61
def optEnd : UInt8 := 255
def optPad : UInt8 := 0

def msgDiscover : UInt8 := 1
def msgOffer : UInt8 := 2
def msgRequest : UInt8 := 3
def msgAck : UInt8 := 5
def msgNak : UInt8 := 6
def msgRelease : UInt8 := 7

/-- A hardware address, `[u8; 6]`. -/
abbrev Mac := Vector UInt8 6

abbrev DhcpOption := UInt8 × List UInt8

/-- The parts of a DHCP packet this daemon reads or writes. -/
structure Packet where
  op : UInt8
  xid : UInt32
  secs : UInt16
  flags : UInt16
  ciaddr : Ipv4Addr
  yiaddr : Ipv4Addr
  siaddr : Ipv4Addr
  chaddr : Mac
  options : List DhcpOption
deriving DecidableEq

variable (pkt : Packet)

/-- `Packet::get_option`: the data of the first option with this code. -/
def Packet.getOption (code : UInt8) : Option (List UInt8) :=
  (pkt.options.find? fun o => o.1 == code).map (·.2)

/-- `Packet::message_type`: the first byte of the message-type option. -/
def Packet.messageType : Option UInt8 :=
  (pkt.getOption optMsgType).bind List.head?

/-! ## Serialization -/

/-- The six address bytes as `chaddr[..6].copy_from_slice` writes them. -/
def macBytes (m : Mac) : List UInt8 := [m[0], m[1], m[2], m[3], m[4], m[5]]

/-- The fixed part of `serialize`: everything up to and including the magic cookie. -/
def header : List UInt8 :=
  List.flatten [
    [pkt.op, htypeEther, 6, 0],
    Wire.beBytes 4 pkt.xid.toNat,
    Wire.beBytes 2 pkt.secs.toNat,
    Wire.beBytes 2 pkt.flags.toNat,
    pkt.ciaddr.octets,
    pkt.yiaddr.octets,
    pkt.siaddr.octets,
    [0, 0, 0, 0],  -- giaddr: no relay agent
    macBytes pkt.chaddr ++ List.replicate 10 0,
    List.replicate 64 0,  -- sname
    List.replicate 128 0,  -- file
    magicCookie]

/-- One option on the wire. The length byte is `data.len() as u8`, so it wraps at 256. -/
def optionBytes (o : DhcpOption) : List UInt8 := o.1 :: UInt8.ofNat o.2.length :: o.2

/-- The option area: the options in order, then `OPT_END`. -/
def optionArea (opts : List DhcpOption) : List UInt8 := opts.flatMap optionBytes ++ [optEnd]

/-- `serialize`. -/
def serialize : List UInt8 := header pkt ++ optionArea pkt.options

/-! ## The client's messages -/

variable (xid : UInt32) (mac : Mac)

/-- `base_request`; flag `0x8000` asks for a broadcast reply. -/
def baseRequest (secs : UInt16) : Packet where
  op := opBootrequest
  xid := xid
  secs := secs
  flags := 0x8000
  ciaddr := Ipv4Addr.unspecified
  yiaddr := Ipv4Addr.unspecified
  siaddr := Ipv4Addr.unspecified
  chaddr := mac
  options := []

def defaultParamRequestList : List UInt8 := [optSubnetMask, optRouter, optDns, optDomainName]

def clientId : List UInt8 := htypeEther :: macBytes mac

/-- The hostname option that ends a DISCOVER or REQUEST, when there is a hostname. -/
def hostnameOption (hostname : Option String) : List DhcpOption :=
  (hostname.map fun h => (optHostname, h.toUTF8.data.toList)).toList

/-- The packet of `build_discover`. -/
def discoverPacket (hostname : Option String) : Packet :=
  { baseRequest xid mac 0 with
    options := [(optMsgType, [msgDiscover]), (optClientId, clientId mac),
      (optParamRequestList, defaultParamRequestList)] ++ hostnameOption hostname }

def buildDiscover (hostname : Option String) : List UInt8 :=
  serialize (discoverPacket xid mac hostname)

/-- The packet of `build_request`. -/
def requestPacket (requestedIp serverId : Ipv4Addr) (hostname : Option String) : Packet :=
  { baseRequest xid mac 0 with
    options := [(optMsgType, [msgRequest]), (optClientId, clientId mac),
      (optRequestedIp, requestedIp.octets), (optServerId, serverId.octets),
      (optParamRequestList, defaultParamRequestList)] ++ hostnameOption hostname }

def buildRequest (requestedIp serverId : Ipv4Addr) (hostname : Option String) : List UInt8 :=
  serialize (requestPacket xid mac requestedIp serverId hostname)

/-- The packet of `build_release`. -/
def releasePacket (clientIp serverId : Ipv4Addr) : Packet :=
  { baseRequest xid mac 0 with
    ciaddr := clientIp
    options := [(optMsgType, [msgRelease]), (optClientId, clientId mac),
      (optServerId, serverId.octets)] }

/-! ## Parsing -/

/-- The option loop of `parse` on the unread bytes. Every turn consumes at least one byte, so a
bound of the number of unread bytes is never reached. -/
def parseOptionsUpTo : ℕ → List UInt8 → List DhcpOption
  | 0, _ => []
  | _ + 1, [] => []
  | n + 1, code :: rest =>
    if code = optEnd then []
    else if code = optPad then parseOptionsUpTo n rest
    else
      match rest with
      | [] => []
      | len :: data =>
        if data.length < len.toNat then []
        else (code, data.take len.toNat) :: parseOptionsUpTo n (data.drop len.toNat)

def parseOptions (bs : List UInt8) : List DhcpOption := parseOptionsUpTo bs.length bs

/-- `chaddr.copy_from_slice(&buf[i..i + 6])`. -/
def macAt (buf : List UInt8) (i : ℕ) : Mac := Vector.ofFn fun k : Fin 6 => buf.getD (i + k) 0

/-- `parse`: `none` when the buffer is shorter than the header or the cookie is missing. -/
def parse (buf : List UInt8) : Option Packet :=
  if buf.length < 240 ∨ buf.extract 236 240 ≠ magicCookie then none
  else some {
    op := buf.getD 0 0
    xid := UInt32.ofNat (Wire.beNat (buf.extract 4 8))
    secs := UInt16.ofNat (Wire.beNat (buf.extract 8 10))
    flags := UInt16.ofNat (Wire.beNat (buf.extract 10 12))
    ciaddr := Ipv4Addr.ofOctets (buf.extract 12 16)
    yiaddr := Ipv4Addr.ofOctets (buf.extract 16 20)
    siaddr := Ipv4Addr.ofOctets (buf.extract 20 24)
    chaddr := macAt buf 28
    options := parseOptions (buf.drop 240) }

open List

/-! ## The option area -/

/-- What an option must satisfy to be spelled on the wire: neither sentinel code, and data that
the one-byte length can count. -/
def WireOption (o : DhcpOption) : Prop :=
  o.1 ≠ optPad ∧ o.1 ≠ optEnd ∧ o.2.length ≤ 255

instance (o : DhcpOption) : Decidable (WireOption o) :=
  inferInstanceAs (Decidable (_ ∧ _ ∧ _))

theorem parseOptionsUpTo_eq {m : ℕ} (hn : bs.length ≤ n) (hm : bs.length ≤ m) :
    parseOptionsUpTo n bs = parseOptionsUpTo m bs := by
  induction n generalizing bs m with
  | zero =>
    obtain rfl := length_eq_zero_iff.mp (Nat.le_zero.mp hn)
    cases m <;> rfl
  | succ n ih =>
    cases bs with
    | nil => cases m <;> rfl
    | cons code rest =>
      simp only [length_cons] at hn hm
      obtain ⟨m, rfl⟩ : ∃ k, m = k + 1 := ⟨m - 1, by omega⟩
      cases rest with
      | nil =>
        simp only [parseOptionsUpTo]
        have hnil : parseOptionsUpTo n [] = parseOptionsUpTo m [] := ih (by simp) (by simp)
        rw [hnil]
      | cons len data =>
        simp only [length_cons] at hn hm
        simp only [parseOptionsUpTo]
        have hskip : parseOptionsUpTo n (len :: data) = parseOptionsUpTo m (len :: data) :=
          ih (by simp; omega) (by simp; omega)
        have hnext : parseOptionsUpTo n (data.drop len.toNat) =
            parseOptionsUpTo m (data.drop len.toNat) := ih (by simp; omega) (by simp; omega)
        rw [hskip, hnext]

@[simp] theorem parseOptions_end (rest : List UInt8) : parseOptions (optEnd :: rest) = [] := by
  simp [parseOptions, parseOptionsUpTo]

theorem parseOptions_cons {code len : UInt8} (data : List UInt8) (hend : code ≠ optEnd)
    (hpad : code ≠ optPad) :
    parseOptions (code :: len :: data) =
      if data.length < len.toNat then []
      else (code, data.take len.toNat) :: parseOptions (data.drop len.toNat) := by
  simp only [parseOptions, length_cons, parseOptionsUpTo, if_neg hend, if_neg hpad]
  rw [parseOptionsUpTo_eq (m := (data.drop len.toNat).length) (by simp; omega) le_rfl]

variable {o : DhcpOption}

theorem parseOptions_optionBytes (ho : WireOption o) (rest : List UInt8) :
    parseOptions (optionBytes o ++ rest) = o :: parseOptions rest := by
  obtain ⟨hpad, hend, hlen⟩ := ho
  have hbyte : (UInt8.ofNat o.2.length).toNat = o.2.length := by
    rw [UInt8.toNat_ofNat', Nat.mod_eq_of_lt (by omega)]
  rw [optionBytes, cons_append, cons_append, parseOptions_cons _ hend hpad, hbyte,
    if_neg (by simp), take_left, drop_left]

variable {opts : List DhcpOption}

theorem parseOptions_flatMap (h : ∀ o ∈ opts, WireOption o) (rest : List UInt8) :
    parseOptions (opts.flatMap optionBytes ++ rest) = opts ++ parseOptions rest := by
  induction opts with
  | nil => rfl
  | cons o opts ih =>
    rw [flatMap_cons, append_assoc, parseOptions_optionBytes (h o mem_cons_self),
      ih fun o' ho' => h o' (mem_cons_of_mem o ho'), cons_append]

theorem parseOptions_optionArea (h : ∀ o ∈ opts, WireOption o) :
    parseOptions (optionArea opts) = opts := by
  rw [optionArea, parseOptions_flatMap h, parseOptions_end, append_nil]

theorem wireOption_of_mem_parseOptionsUpTo (ho : o ∈ parseOptionsUpTo n bs) : WireOption o := by
  induction n generalizing bs with
  | zero => cases ho
  | succ n ih =>
    cases bs with
    | nil => cases ho
    | cons code rest =>
      simp only [parseOptionsUpTo] at ho
      split at ho
      · cases ho
      · rename_i hend
        split at ho
        · exact ih ho
        · rename_i hpad
          cases rest with
          | nil => cases ho
          | cons len data =>
            simp only at ho
            split at ho
            · cases ho
            · rcases mem_cons.mp ho with rfl | ho
              · -- the data was cut to a length that one byte can count
                refine ⟨hpad, hend, ?_⟩
                have hbyte : len.toNat < 256 := len.toNat_lt
                simp only [length_take]
                omega
              · exact ih ho

/-! ## The header -/

@[simp] theorem length_header : (header pkt).length = 240 := by
  simp only [header, macBytes, magicCookie, flatten_cons, flatten_nil, length_append, length_cons,
    length_nil, length_replicate, Wire.length_beBytes, Ipv4Addr.length_octets]

variable (area : List UInt8)

theorem extract_header_append {j : ℕ} (hj : j ≤ 240) :
    (header pkt ++ area).extract i j = (header pkt).extract i j :=
  Wire.extract_append_left (by rwa [length_header]) area

theorem getD_header_append (hi : i < 240) :
    (header pkt ++ area).getD i 0 = (header pkt).getD i 0 := by
  have hlen : i < (header pkt).length := by rwa [length_header]
  rw [getD_eq_getElem?_getD, getD_eq_getElem?_getD, getElem?_append_left hlen]

theorem macAt_header_append : macAt (header pkt ++ area) 28 = pkt.chaddr := by
  ext i hi
  interval_cases i <;> rfl

theorem parse_header_append :
    parse (header pkt ++ area) = some { pkt with options := parseOptions area } := by
  have hcoo : (header pkt ++ area).extract 236 240 = magicCookie := by
    rfl
  have harea : (header pkt ++ area).drop 240 = area := drop_left' (length_header pkt)
  rw [parse, if_neg (by simp [hcoo])]
  simp (disch := decide) only [extract_header_append, getD_header_append, macAt_header_append,
    harea]
  have hxid : (header pkt).extract 4 8 = Wire.beBytes 4 pkt.xid.toNat := rfl
  have hsecs : (header pkt).extract 8 10 = Wire.beBytes 2 pkt.secs.toNat := rfl
  have hflags : (header pkt).extract 10 12 = Wire.beBytes 2 pkt.flags.toNat := rfl
  have hci : (header pkt).extract 12 16 = pkt.ciaddr.octets := rfl
  have hyi : (header pkt).extract 16 20 = pkt.yiaddr.octets := rfl
  have hsi : (header pkt).extract 20 24 = pkt.siaddr.octets := rfl
  rw [hxid, hsecs, hflags, hci, hyi, hsi, Wire.ofNat_beNat_beBytes_four,
    Wire.ofNat_beNat_beBytes_two, Wire.ofNat_beNat_beBytes_two, Ipv4Addr.ofOctets_octets,
    Ipv4Addr.ofOctets_octets, Ipv4Addr.ofOctets_octets]
  rfl

theorem parse_serialize_eq :
    parse (serialize pkt) = some { pkt with options := parseOptions (optionArea pkt.options) } :=
  parse_header_append pkt _

variable {pkt : Packet}

theorem parse_take_serialize {first rest : List DhcpOption} (hopts : pkt.options = first ++ rest)
    (hwire : ∀ o ∈ first, WireOption o) (hn : 240 + (first.flatMap optionBytes).length ≤ n) :
    ∃ opts, parse ((serialize pkt).take n) = some { pkt with options := first ++ opts } := by
  have hcut : (serialize pkt).take n = header pkt ++ (first.flatMap optionBytes ++
      (rest.flatMap optionBytes ++ [optEnd]).take
        (n - 240 - (first.flatMap optionBytes).length)) := by
    rw [serialize, optionArea, hopts, flatMap_append, append_assoc, take_append,
      take_of_length_le (by rw [length_header]; omega), length_header, take_append,
      take_of_length_le (by omega)]
  rw [hcut, parse_header_append, parseOptions_flatMap hwire]
  exact ⟨_, rfl⟩

theorem wireOption_of_parse {buf : List UInt8} (h : parse buf = some pkt) :
    ∀ o ∈ pkt.options, WireOption o := by
  unfold parse at h
  split at h
  · cases h
  · cases h
    intro o ho
    exact wireOption_of_mem_parseOptionsUpTo ho

theorem parse_serialize (h : ∀ o ∈ pkt.options, WireOption o) :
    parse (serialize pkt) = some pkt := by
  rw [parse_serialize_eq, parseOptions_optionArea h]

/-! ## The client's messages survive the wire -/

theorem wireOption_clientId : WireOption (optClientId, clientId mac) := by
  have hpad : optClientId ≠ optPad := by decide
  have hend : optClientId ≠ optEnd := by decide
  exact ⟨hpad, hend, by simp [clientId, macBytes]⟩

/-- **DHCPv4 codec round trip.** Packets with spellable options survive serialization, and whatever
`parse` accepts is such a packet. -/
theorem codec_roundtrip :
    (∀ pkt : Packet, (∀ o ∈ pkt.options, WireOption o) → parse (serialize pkt) = some pkt) ∧
      ∀ (buf : List UInt8) (pkt : Packet), parse buf = some pkt →
        (∀ o ∈ pkt.options, WireOption o) ∧ parse (serialize pkt) = some pkt := by
  refine ⟨fun pkt h => parse_serialize h, fun buf pkt h => ?_⟩
  have hwire := wireOption_of_parse h
  exact ⟨hwire, parse_serialize hwire⟩

/-- A REQUEST of a client with a hostname, there and back. -/
theorem codec_roundtrip_request :
    (∀ o ∈ (requestPacket 7 #v[2, 0, 0, 0, 0, 1] (.new 10 42 0 2) (.new 10 42 0 1)
      (some "laptop")).options, WireOption o) ∧
    parse (buildRequest 7 #v[2, 0, 0, 0, 0, 1] (.new 10 42 0 2) (.new 10 42 0 1) (some "laptop")) =
      some (requestPacket 7 #v[2, 0, 0, 0, 0, 1] (.new 10 42 0 2) (.new 10 42 0 1)
        (some "laptop")) :=
  ⟨by decide, codec_roundtrip.1 _ (by decide)⟩

end MitosNetwork.Dhcp4
