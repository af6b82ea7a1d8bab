import MitosNetwork.Ip.AttributeSizes
import MitosNetwork.Ip.Route
import Mathlib.Data.List.Sort

/-!
# WireGuard configuration

`set_crypto_params` of `src/vpn/wireguard.rs`: the keys, the endpoint and the allowed addresses of a
peer, written as attributes four levels deep, and a reader that takes the message apart level by
level with `parse_attrs`. All levels but the last are as long as everything in them, and the length
of an attribute has 16 bits. So the configuration arrives exactly if the peer is short enough
(`payload_read_iff`); a longer one is cut off without an error.
-/

namespace MitosNetwork.WireGuard

open Wire Netlink List

variable {payload b : List UInt8} {entries : List (IpAddr × UInt8)} {i n : ℕ}

/-! ## Configuration -/

/-- `WireGuardConfig`, without the address, which `set_crypto_params` does not read. -/
structure Config where
  interface : String
  peerPublicKey : String
  peerEndpoint : String
  peerAllowedIps : String
  listenPort : Option UInt16
  persistentKeepaliveSecs : UInt16

/-- `std::net::SocketAddr`. The flow and the scope of an IPv6 address are not read. -/
inductive SocketAddr where
  | v4 (ip : Ipv4Addr) (port : UInt16)
  | v6 (ip : Ipv6Addr) (port : UInt16)
deriving DecidableEq

/-- A key of `WG_KEY_LEN` bytes. -/
abbrev Key := { bytes : List UInt8 // bytes.length = 32 }

/-- `split_list`. -/
def splitList (s : String) : List String :=
  ((s.toList.splitOn ',').map fun cs => Text.trim (String.ofList cs)).filter fun s => !s.isEmpty

/-- `val` of `base64_decode`. -/
def base64Value (c : Char) : Option UInt32 :=
  if 'A' ≤ c ∧ c ≤ 'Z' then some (c.val - 65)
  else if 'a' ≤ c ∧ c ≤ 'z' then some (c.val - 97 + 26)
  else if '0' ≤ c ∧ c ≤ '9' then some (c.val - 48 + 52)
  else if c = '+' then some 62
  else if c = '/' then some 63
  else none

/-- The loop of `base64_decode`. -/
def base64Loop : List Char → UInt32 → UInt32 → List UInt8 → Option (List UInt8)
  | [], _, _, out => some out
  | c :: cs, buf, bits, out =>
    match base64Value c with
    | none => none
    | some v =>
      let buf := (buf <<< 6) ||| v
      let bits := bits + 6
      if 8 ≤ bits then base64Loop cs buf (bits - 8) (out ++ [(buf >>> (bits - 8)).toUInt8])
      else base64Loop cs buf bits out

/-- `base64_decode`. -/
def base64Decode (input : String) : Option (List UInt8) :=
  base64Loop (input.toList.reverse.dropWhile (· = '=')).reverse 0 0 []

/-- `decode_key`. -/
def decodeKey (field b64 : String) : Result Key :=
  match base64Decode (Text.trim b64) with
  | none => .error (.vpn (field ++ " is not valid base64"))
  | some bytes =>
    if h : bytes.length = 32 then .ok ⟨bytes, h⟩
    else .error (.vpn (field ++ " must decode to 32 bytes"))

variable (lookup : String → Except String (List SocketAddr))

/-- `resolve_endpoint`; `lookup` is `to_socket_addrs`. -/
def resolveEndpoint (endpoint : String) : Result SocketAddr :=
  match lookup endpoint with
  | .error e => .error (.vpn ("cannot resolve peer endpoint '" ++ endpoint ++ "': " ++ e))
  | .ok [] => .error (.vpn ("peer endpoint '" ++ endpoint ++ "' resolved to nothing"))
  | .ok (addr :: _) => .ok addr

def parseAllowedIp (cidr : String) : Result (IpAddr × UInt8) :=
  match Address.parseCidr cidr with
  | .error _ => .error (.vpn ("invalid allowed-ips entry '" ++ cidr ++ "'"))
  | .ok entry => .ok entry

/-- What `set_crypto_params` reads out of a configuration. -/
structure Parts where
  privateKey : Key
  publicKey : Key
  endpoint : SocketAddr
  allowedIps : List (IpAddr × UInt8)
deriving DecidableEq

def readParts (cfg : Config) (privateKeyB64 : String) : Result Parts := do
  let privateKey ← decodeKey "private key" privateKeyB64
  let publicKey ← decodeKey "peer public key" cfg.peerPublicKey
  let endpoint ← resolveEndpoint lookup cfg.peerEndpoint
  let allowedIps ← (splitList cfg.peerAllowedIps).mapM parseAllowedIp
  return { privateKey, publicKey, endpoint, allowedIps }

/-! ## The message -/

variable (order : ByteOrder)

def wgDeviceIfname : UInt16 := 2
def wgDevicePrivateKey : UInt16 := 3
def wgDeviceFlags : UInt16 := 5
def wgDeviceListenPort : UInt16 := 6
def wgDevicePeers : UInt16 := 8
def wgPeerPublicKey : UInt16 := 1
def wgPeerFlags : UInt16 := 3
def wgPeerEndpoint : UInt16 := 4
def wgPeerKeepalive : UInt16 := 5
def wgPeerAllowedIps : UInt16 := 9
def wgAllowedIpFamily : UInt16 := 1
def wgAllowedIpIpaddr : UInt16 := 2
def wgAllowedIpCidrMask : UInt16 := 3

/-- `encode_sockaddr`. -/
def encodeSockaddr : SocketAddr → List UInt8
  | .v4 ip port =>
    order.bytes 2 afInet.toNat ++ beBytes 2 port.toNat ++ ip.octets ++ List.replicate 8 0
  | .v6 ip port =>
    order.bytes 2 afInet6.toNat ++ beBytes 2 port.toNat ++ order.bytes 4 0 ++ ip.octets ++
      order.bytes 4 0

variable (entry : IpAddr × UInt8)

def allowedIpAttrs : List Attr :=
  [.u16 wgAllowedIpFamily (Family.of entry.1).raw.toUInt16,
    .bytes wgAllowedIpIpaddr (addrBytes entry.1), .u8 wgAllowedIpCidrMask entry.2]

/-- The loop over the allowed addresses, from the index `i` on: the type is `i as u16`. -/
def allowedIpsFrom : ℕ → List (IpAddr × UInt8) → List Attr
  | _, [] => []
  | i, entry :: entries =>
    .nested (UInt16.ofNat i) (allowedIpAttrs entry) :: allowedIpsFrom (i + 1) entries

def peerAttrs (cfg : Config) (parts : Parts) : List Attr :=
  [.bytes wgPeerPublicKey parts.publicKey.1, .u32 wgPeerFlags 2,
    .bytes wgPeerEndpoint (encodeSockaddr order parts.endpoint),
    .u16 wgPeerKeepalive cfg.persistentKeepaliveSecs,
    .nested wgPeerAllowedIps (allowedIpsFrom 0 parts.allowedIps)]

def frontAttrs (cfg : Config) (parts : Parts) : List Attr :=
  [.nulStr wgDeviceIfname cfg.interface, .bytes wgDevicePrivateKey parts.privateKey.1] ++
    cfg.listenPort.toList.map (.u16 wgDeviceListenPort) ++ [.u32 wgDeviceFlags 1]

def deviceAttrs (cfg : Config) (parts : Parts) : List Attr :=
  frontAttrs cfg parts ++ [.nested wgDevicePeers [.nested 0 (peerAttrs order cfg parts)]]

/-- `build_genlmsghdr`. -/
def buildGenlmsghdr (cmd version : UInt8) : List UInt8 := [cmd, version, 0, 0]

/-- The payload of `WG_CMD_SET_DEVICE`. -/
def devicePayload (cfg : Config) (parts : Parts) : List UInt8 :=
  buildGenlmsghdr 1 1 ++ chainBytes order (deviceAttrs order cfg parts)

/-- `set_crypto_params`, with the outcome of resolving the netlink family and of a request to it. -/
def setCryptoParams (lookup : String → Except String (List SocketAddr)) (family : Result UInt16)
    (request : UInt16 → List UInt8 → Result Unit) (cfg : Config) (privateKeyB64 : String) :
    Result Unit := do
  let parts ← readParts lookup cfg privateKeyB64
  match family with
  | .error e =>
    throw (.vpn ("WireGuard kernel module not available: " ++ e.display ++
      " (try `modprobe wireguard`)"))
  | .ok family =>
    match request family (devicePayload order cfg parts) with
    | .error e => throw (.vpn ("WG_CMD_SET_DEVICE failed: " ++ e.display))
    | .ok _ => return ()

/-! ## Reading the message -/

/-- What a reader of the message finds in it. -/
structure Sent where
  ifname : List UInt8
  privateKey : List UInt8
  listenPort : Option UInt16
  publicKey : List UInt8
  endpoint : List UInt8
  keepalive : UInt16
  allowedIps : List (UInt16 × List UInt8 × UInt8)
deriving DecidableEq

def word16 (b : List UInt8) : Option UInt16 :=
  if b.length = 2 then some (UInt16.ofNat (order.nat b)) else none

def byte (b : List UInt8) : Option UInt8 := if b.length = 1 then b.head? else none

def readAllowedIp (payload : List UInt8) : Option (UInt16 × List UInt8 × UInt8) := do
  let attrs := parseAttrs order payload
  let family ← (attrs.lookup wgAllowedIpFamily).bind (word16 order)
  let addr ← attrs.lookup wgAllowedIpIpaddr
  let cidr ← (attrs.lookup wgAllowedIpCidrMask).bind byte
  return (family, addr, cidr)

def byType (attrs : Table UInt16 (List UInt8)) : List (List UInt8) :=
  (attrs.entries.insertionSort fun a b => a.1 ≤ b.1).map (·.2)

def readAllowedIps (payload : List UInt8) : Option (List (UInt16 × List UInt8 × UInt8)) :=
  (byType (parseAttrs order payload)).mapM (readAllowedIp order)

/-- An attribute that may be missing. -/
def readPort : Option (List UInt8) → Option (Option UInt16)
  | none => some none
  | some b => (word16 order b).map some

def readPayload (payload : List UInt8) : Option Sent := do
  let attrs := parseAttrs order (payload.drop 4)
  let ifname ← attrs.lookup wgDeviceIfname
  let privateKey ← attrs.lookup wgDevicePrivateKey
  let listenPort ← readPort order (attrs.lookup wgDeviceListenPort)
  let peers ← attrs.lookup wgDevicePeers
  let peer ← (parseAttrs order peers).lookup 0
  let publicKey ← (parseAttrs order peer).lookup wgPeerPublicKey
  let endpoint ← (parseAttrs order peer).lookup wgPeerEndpoint
  let keepalive ← ((parseAttrs order peer).lookup wgPeerKeepalive).bind (word16 order)
  let allowedIps ←
    ((parseAttrs order peer).lookup wgPeerAllowedIps).bind (readAllowedIps order)
  return { ifname, privateKey, listenPort, publicKey, endpoint, keepalive, allowedIps }

variable {order}

theorem readAllowedIp_eq_some_iff {family : UInt16} {addr : List UInt8} {cidr : UInt8} :
    readAllowedIp order payload = some (family, addr, cidr) ↔
      (∃ b, (parseAttrs order payload).lookup wgAllowedIpFamily = some b ∧
        word16 order b = some family) ∧
      (parseAttrs order payload).lookup wgAllowedIpIpaddr = some addr ∧
      ∃ b, (parseAttrs order payload).lookup wgAllowedIpCidrMask = some b ∧ byte b = some cidr := by
  simp only [readAllowedIp, Option.bind_eq_bind, Option.bind_eq_some_iff, Option.pure_def,
    Option.some.injEq, Prod.mk.injEq]
  constructor
  · rintro ⟨f, hfam, a, haddr, c, hcidr, rfl, rfl, rfl⟩
    exact ⟨hfam, haddr, hcidr⟩
  · rintro ⟨hfam, haddr, hcidr⟩
    exact ⟨family, hfam, addr, haddr, cidr, hcidr, rfl, rfl, rfl⟩

theorem readPayload_eq_some_iff {x : Sent} :
    readPayload order payload = some x ↔
      ∃ peers peer,
        (parseAttrs order (payload.drop 4)).lookup wgDeviceIfname = some x.ifname ∧
        (parseAttrs order (payload.drop 4)).lookup wgDevicePrivateKey = some x.privateKey ∧
        readPort order ((parseAttrs order (payload.drop 4)).lookup wgDeviceListenPort) =
          some x.listenPort ∧
        (parseAttrs order (payload.drop 4)).lookup wgDevicePeers = some peers ∧
        (parseAttrs order peers).lookup 0 = some peer ∧
        (parseAttrs order peer).lookup wgPeerPublicKey = some x.publicKey ∧
        (parseAttrs order peer).lookup wgPeerEndpoint = some x.endpoint ∧
        (∃ b, (parseAttrs order peer).lookup wgPeerKeepalive = some b ∧
          word16 order b = some x.keepalive) ∧
        ∃ b, (parseAttrs order peer).lookup wgPeerAllowedIps = some b ∧
          readAllowedIps order b = some x.allowedIps := by
  simp only [readPayload, Option.bind_eq_bind, Option.bind_eq_some_iff, Option.pure_def,
    Option.some.injEq]
  constructor
  · rintro ⟨ifname, hif, key, hkey, port, hport, peers, hprs, peer, hpeer, pub, hpub,
      endpoint, hep, keepalive, hka, allowed, hall, rfl⟩
    exact ⟨peers, peer, hif, hkey, hport, hprs, hpeer, hpub, hep, hka, hall⟩
  · rintro ⟨peers, peer, hif, hkey, hport, hprs, hpeer, hpub, hep, hka, hall⟩
    exact ⟨_, hif, _, hkey, _, hport, peers, hprs, peer, hpeer, _, hpub, _, hep, _,
      hka, _, hall, rfl⟩

/-- What a reader should find. -/
def sent (order : ByteOrder) (cfg : Config) (parts : Parts) : Sent where
  ifname := cfg.interface.toUTF8.data.toList ++ [0]
  privateKey := parts.privateKey.1
  listenPort := cfg.listenPort
  publicKey := parts.publicKey.1
  endpoint := encodeSockaddr order parts.endpoint
  keepalive := cfg.persistentKeepaliveSecs
  allowedIps := parts.allowedIps.map fun entry =>
    ((Family.of entry.1).raw.toUInt16, addrBytes entry.1, entry.2)

/-! ## Sizes -/

/-- The bytes that an allowed address takes among the others. -/
def entrySize : ℕ := if entry.1.isIpv4 then 28 else 40

def endpointSize : SocketAddr → ℕ
  | .v4 _ _ => 20
  | .v6 _ _ => 32

def peersSize (parts : Parts) : ℕ :=
  60 + endpointSize parts.endpoint + (parts.allowedIps.map entrySize).sum

variable {cfg : Config} {parts : Parts}

abbrev peersBytes (order : ByteOrder) (cfg : Config) (parts : Parts) : List UInt8 :=
  chainBytes order [.nested 0 (peerAttrs order cfg parts)]

/-- What a reader should find for an allowed address. -/
abbrev sentIp : UInt16 × List UInt8 × UInt8 :=
  ((Family.of entry.1).raw.toUInt16, addrBytes entry.1, entry.2)

theorem align_addrBytes : align (4 + (addrBytes entry.1).length) + 20 = entrySize entry := by
  obtain ⟨ip, prefixlen⟩ := entry
  cases ip with
  | v4 a | v6 a =>
    rw [addrBytes, a.length_octets]
    rfl

theorem align_encodeSockaddr (order : ByteOrder) (addr : SocketAddr) :
    align (4 + (encodeSockaddr order addr).length) = endpointSize addr := by
  cases addr with
  | v4 ip port => simp [encodeSockaddr, align, endpointSize]
  | v6 ip port => simp [encodeSockaddr, align, endpointSize, ip.length_octets]

theorem length_allowedIpAttrs (order : ByteOrder) (entry : IpAddr × UInt8) :
    align (4 + (chainBytes order (allowedIpAttrs entry)).length) = entrySize entry := by
  have haddr := align_addrBytes entry
  rw [length_chainBytes]
  simp only [allowedIpAttrs, map_cons, map_nil, sum_cons, sum_nil, Attr.payload,
    ByteOrder.length_bytes, length_singleton]
  unfold align at *
  omega

theorem length_allowedIpsFrom (order : ByteOrder) (i : ℕ) (entries : List (IpAddr × UInt8)) :
    (chainBytes order (allowedIpsFrom i entries)).length = (entries.map entrySize).sum := by
  rw [length_chainBytes]
  induction entries generalizing i with
  | nil => rfl
  | cons entry entries ih =>
    rw [allowedIpsFrom, map_cons, sum_cons, ih, map_cons, sum_cons,
      Attr.payload, length_allowedIpAttrs]

section

variable (order cfg parts)

theorem length_peerAttrs :
    (chainBytes order (peerAttrs order cfg parts)).length + 4 = peersSize parts := by
  have hents : (chainBytes order (allowedIpsFrom 0 parts.allowedIps)).length = _ :=
    length_allowedIpsFrom order 0 parts.allowedIps
  have hwords : (chainBytes order (allowedIpsFrom 0 parts.allowedIps)).length % 4 = 0 :=
    length_chainBytes_mod_four _
  rw [length_chainBytes]
  simp only [peerAttrs, map_cons, map_nil, sum_cons, sum_nil, Attr.payload,
    ByteOrder.length_bytes, parts.publicKey.2, align_encodeSockaddr, hents]
  unfold align peersSize
  omega

theorem length_peers : (peersBytes order cfg parts).length = peersSize parts := by
  have hpeer := length_peerAttrs order cfg parts
  have hwords : (chainBytes order (peerAttrs order cfg parts)).length % 4 = 0 :=
    length_chainBytes_mod_four _
  rw [length_chainBytes, map_singleton, sum_singleton, Attr.payload]
  unfold align
  omega

end

/-! ## A message that fits -/

def Fits (cfg : Config) (parts : Parts) : Prop :=
  cfg.interface.utf8ByteSize ≤ 65530 ∧ peersSize parts ≤ 65531

theorem word16_bytes (order : ByteOrder) (v : UInt16) :
    word16 order (order.bytes 2 v.toNat) = some v := by
  rw [word16, if_pos (ByteOrder.length_bytes order 2 _), ByteOrder.ofNat_nat_bytes_two]

theorem readAllowedIp_attrs :
    readAllowedIp order (chainBytes order (allowedIpAttrs entry)) = some (sentIp entry) := by
  have hsizes : ∀ a ∈ allowedIpAttrs entry, (a.payload order).length ≤ 65531 := by
    have haddr := length_addrBytes_le entry.1
    simp only [allowedIpAttrs, forall_mem_cons, Attr.payload, ByteOrder.length_bytes]
    exact ⟨by decide, by omega, by simp, by simp⟩
  have hlk := lookup_parseAttrs_chain hsizes
  rw [readAllowedIp_eq_some_iff, hlk, hlk, hlk]
  exact ⟨⟨_, rfl, word16_bytes order _⟩, rfl, ⟨_, rfl, rfl⟩⟩

theorem rtaType_allowedIpsFrom (i : ℕ) (entries : List (IpAddr × UInt8)) :
    (allowedIpsFrom i entries).map Attr.rtaType = (range' i entries.length).map UInt16.ofNat := by
  induction entries generalizing i with
  | nil => rfl
  | cons entry entries ih =>
    rw [allowedIpsFrom, map_cons, ih]
    rfl

theorem sorted_allowedIpsFrom (h : i + entries.length ≤ 65536) :
    ((allowedIpsFrom i entries).map Attr.rtaType).Pairwise (· < ·) := by
  rw [rtaType_allowedIpsFrom, pairwise_map]
  refine Pairwise.imp_of_mem (fun _ hb hlt => ?_) (pairwise_lt_range' 1)
  have hbound := (mem_range'_1.mp hb).2
  rw [UInt16.lt_iff_toNat_lt, UInt16.toNat_ofNat', UInt16.toNat_ofNat']
  omega

theorem byType_chain {attrs : List Attr} (hsor : (attrs.map Attr.rtaType).Pairwise (· < ·))
    (hfit : ∀ a ∈ attrs, (a.payload order).length ≤ 65531) :
    byType (parseAttrs order (chainBytes order attrs)) = attrs.map (Attr.payload order) := by
  have hdis : (attrs.map Attr.rtaType).Nodup := hsor.imp fun h => UInt16.ne_of_lt h
  have hperm := perm_entries_parseAttrs hdis hfit
  have hents : (parseAttrs order (chainBytes order attrs)).entries.insertionSort
      (fun a b => a.1 ≤ b.1) = attrs.map fun a => ⟨a.rtaType, a.payload order⟩ := by
    refine List.Perm.eq_of_pairwise ?_ (pairwise_insertionSort _ _) ?_
      ((perm_insertionSort _ _).trans hperm)
    · intro a b ha hb hab hba
      obtain ⟨x, hx, rfl⟩ := mem_map.mp (hperm.subset ((mem_insertionSort _).mp ha))
      obtain ⟨y, hy, rfl⟩ := mem_map.mp hb
      rw [inj_on_of_nodup_map hdis hx hy (UInt16.le_antisymm hab hba)]
    · rw [pairwise_map] at hsor ⊢
      exact hsor.imp fun h => UInt16.le_of_lt h
  rw [byType, hents, map_map]
  rfl

theorem length_payload_allowedIpsFrom :
    ∀ a ∈ allowedIpsFrom i entries, (a.payload order).length ≤ 65531 := by
  induction entries generalizing i with
  | nil => exact fun _ ha => nomatch ha
  | cons entry entries ih =>
    rw [allowedIpsFrom, forall_mem_cons]
    refine ⟨?_, ih⟩
    have hsize := length_allowedIpAttrs order entry
    have hle := le_align (4 + (chainBytes order (allowedIpAttrs entry)).length)
    have hbd : entrySize entry ≤ 40 := by
      unfold entrySize
      split <;> omega
    rw [Attr.payload]
    omega

theorem readAllowedIps_attrs (h : entries.length ≤ 65536) :
    readAllowedIps order (chainBytes order (allowedIpsFrom 0 entries)) =
      some (entries.map sentIp) := by
  rw [readAllowedIps, byType_chain (sorted_allowedIpsFrom (by omega)) length_payload_allowedIpsFrom]
  generalize 0 = i
  induction entries generalizing i with
  | nil => rfl
  | cons entry entries ih =>
    rw [length_cons] at h
    rw [allowedIpsFrom, map_cons, mapM_cons, Attr.payload, readAllowedIp_attrs, ih (by omega)]
    rfl

theorem length_le_sum_entrySize (entries : List (IpAddr × UInt8)) :
    28 * entries.length ≤ (entries.map entrySize).sum := by
  induction entries with
  | nil => exact Nat.le_refl 0
  | cons entry entries ih =>
    have hsize : 28 ≤ entrySize entry := by
      unfold entrySize
      split <;> omega
    rw [length_cons, map_cons, sum_cons]
    omega

theorem length_ifname (cfg : Config) :
    (cfg.interface.toUTF8.data.toList ++ [0]).length = cfg.interface.utf8ByteSize + 1 := by
  rw [length_append]
  rfl

theorem length_payload_frontAttrs (h : cfg.interface.utf8ByteSize ≤ 65530) :
    ∀ a ∈ frontAttrs cfg parts, (a.payload order).length ≤ 65531 := by
  have hname := length_ifname cfg
  have hkey := parts.privateKey.2
  intro a ha
  simp only [frontAttrs, cons_append, nil_append, mem_cons, mem_append,
    mem_map, not_mem_nil, or_false] at ha
  rcases ha with rfl | rfl | ⟨port, -, rfl⟩ | rfl
  · rw [Attr.nulStr, Attr.payload]
    omega
  · rw [Attr.payload]
    omega
  · simp [Attr.payload]
  · simp [Attr.payload]

theorem lastOf_deviceAttrs (order : ByteOrder) (cfg : Config) (parts : Parts) :
    lastOf wgDeviceIfname (deviceAttrs order cfg parts) =
        some (.nulStr wgDeviceIfname cfg.interface) ∧
      lastOf wgDevicePrivateKey (deviceAttrs order cfg parts) =
        some (.bytes wgDevicePrivateKey parts.privateKey.1) ∧
      lastOf wgDeviceListenPort (deviceAttrs order cfg parts) =
        cfg.listenPort.map (.u16 wgDeviceListenPort) ∧
      lastOf wgDevicePeers (deviceAttrs order cfg parts) =
        some (.nested wgDevicePeers [.nested 0 (peerAttrs order cfg parts)]) := by
  obtain ⟨interface, publicKey, endpoint, allowedIps, listenPort, keepalive⟩ := cfg
  cases listenPort with
  | none | some port => exact ⟨rfl, rfl, rfl, rfl⟩

theorem readPayload_of_fits (order : ByteOrder) (h : Fits cfg parts) :
    readPayload order (devicePayload order cfg parts) = some (sent order cfg parts) := by
  obtain ⟨hname, hprs⟩ := h
  have hdrop : (devicePayload order cfg parts).drop 4 =
      chainBytes order (deviceAttrs order cfg parts) := rfl
  have hdev : ∀ a ∈ deviceAttrs order cfg parts, (a.payload order).length ≤ 65531 := by
    rw [deviceAttrs, forall_mem_append]
    refine ⟨length_payload_frontAttrs hname, ?_⟩
    rw [forall_mem_singleton, Attr.payload, length_peers]
    exact hprs
  have hpeer : ∀ a ∈ [Attr.nested 0 (peerAttrs order cfg parts)],
      (a.payload order).length ≤ 65531 := by
    have hlen := length_peerAttrs order cfg parts
    rw [forall_mem_singleton, Attr.payload]
    omega
  have hpeerAttrs : ∀ a ∈ peerAttrs order cfg parts, (a.payload order).length ≤ 65531 := by
    have hlen := length_peerAttrs order cfg parts
    rw [length_chainBytes] at hlen
    intro a ha
    have hle := le_sum_of_mem (mem_map_of_mem
      (f := fun a => align (4 + (Attr.payload order a).length)) ha)
    have hal := le_align (4 + (a.payload order).length)
    omega
  have hents : parts.allowedIps.length ≤ 65536 := by
    have hle := length_le_sum_entrySize parts.allowedIps
    unfold peersSize at hprs
    omega
  have hlk := lookup_parseAttrs_chain hdev
  have hplk := lookup_parseAttrs_chain hpeerAttrs
  obtain ⟨hif, hkey, hport, hlast⟩ := lastOf_deviceAttrs order cfg parts
  rw [readPayload_eq_some_iff, hdrop, hlk, hlk, hlk, hlk, hif, hkey, hport, hlast]
  refine ⟨_, chainBytes order (peerAttrs order cfg parts), rfl, rfl, ?_, rfl,
    lookup_parseAttrs_chain hpeer 0, (hplk _).trans rfl, (hplk _).trans rfl,
    ⟨_, (hplk _).trans rfl, word16_bytes order _⟩,
    ⟨_, (hplk _).trans rfl, readAllowedIps_attrs hents⟩⟩
  rw [sent]
  cases cfg.listenPort with
  | none => rfl
  | some port => exact congrArg (Option.map some) (word16_bytes order port)

/-! ## A message that does not -/

theorem length_of_word16 {v : UInt16} (h : word16 order b = some v) : b.length = 2 := by
  by_contra hne
  rw [word16, if_neg hne] at h
  cases h

theorem length_of_byte {v : UInt8} (h : byte b = some v) : b.length = 1 := by
  by_contra hne
  rw [byte, if_neg hne] at h
  cases h

theorem entrySize_le_of_read {entry : IpAddr × UInt8}
    (h : readAllowedIp order payload = some (sentIp entry)) :
    entrySize entry ≤ align (4 + payload.length) := by
  obtain ⟨⟨family, hfam, hword⟩, haddr, cidr, hcidr, hbyte⟩ := readAllowedIp_eq_some_iff.mp h
  have hsum := sum_le_length [(wgAllowedIpFamily, family), (wgAllowedIpIpaddr, addrBytes entry.1),
    (wgAllowedIpCidrMask, cidr)]
    (show [wgAllowedIpFamily, wgAllowedIpIpaddr, wgAllowedIpCidrMask].Nodup by decide)
    (forall_mem_cons.mpr ⟨hfam, forall_mem_cons.mpr ⟨haddr, forall_mem_singleton.mpr hcidr⟩⟩)
  simp only [map_cons, map_nil, sum_cons, sum_nil, length_of_word16 hword,
    length_of_byte hbyte] at hsum
  have hsize := align_addrBytes entry
  unfold align at *
  omega

theorem sum_entrySize_le_of_mapM {payloads : List (List UInt8)}
    (h : payloads.mapM (readAllowedIp order) = some (entries.map sentIp)) :
    (entries.map entrySize).sum ≤ (payloads.map fun p => align (4 + p.length)).sum := by
  induction payloads generalizing entries with
  | nil =>
    cases entries with
    | nil => exact Nat.le_refl 0
    | cons entry entries => cases h
  | cons payload payloads ih =>
    rw [mapM_cons] at h
    simp only [Option.bind_eq_bind, Option.bind_eq_some_iff, Option.pure_def,
      Option.some.injEq] at h
    obtain ⟨x, hx, xs, hxs, heq⟩ := h
    cases entries with
    | nil => cases heq
    | cons entry entries =>
      obtain ⟨rfl, rfl⟩ := heq
      have hhead := entrySize_le_of_read hx
      have htail := ih hxs
      simp only [map_cons, sum_cons]
      omega

theorem sum_entrySize_le_of_read (h : readAllowedIps order payload = some (entries.map sentIp)) :
    (entries.map entrySize).sum ≤ payload.length + 3 := by
  refine (sum_entrySize_le_of_mapM h).trans ?_
  have hsor := (perm_insertionSort (fun a b => a.1 ≤ b.1)
    (parseAttrs order payload).entries).map fun e => align (4 + e.2.length)
  have hweight : ((byType (parseAttrs order payload)).map fun p => align (4 + p.length)).sum =
      weight (parseAttrs order payload) := by
    rw [byType, map_map, weight, ← hsor.sum_eq]
    rfl
  rw [hweight]
  exact weight_parseAttrs_le order payload

theorem sum_entrySize_mod_four (entries : List (IpAddr × UInt8)) :
    (entries.map entrySize).sum % 4 = 0 := by
  rw [← length_allowedIpsFrom .little 0 entries]
  exact length_chainBytes_mod_four _

theorem peersSize_le_of_read (h : readPayload order payload = some (sent order cfg parts)) :
    ∃ peers, (parseAttrs order (payload.drop 4)).lookup wgDevicePeers = some peers ∧
      peersSize parts ≤ peers.length + 11 := by
  obtain ⟨peers, peer, -, -, -, hprs, hpeer, hpub, hep, ⟨keepalive, hka, hword⟩,
    allowed, hall, hread⟩ := readPayload_eq_some_iff.mp h
  refine ⟨peers, hprs, ?_⟩
  have hents : (parts.allowedIps.map entrySize).sum ≤ allowed.length + 3 :=
    sum_entrySize_le_of_read hread
  have hallowedSize := add_four_le_align (sum_entrySize_mod_four parts.allowedIps) hents
  have hsum := sum_le_length [(wgPeerPublicKey, parts.publicKey.1),
    (wgPeerEndpoint, encodeSockaddr order parts.endpoint), (wgPeerKeepalive, keepalive),
    (wgPeerAllowedIps, allowed)]
    (show [wgPeerPublicKey, wgPeerEndpoint, wgPeerKeepalive, wgPeerAllowedIps].Nodup by decide)
    (forall_mem_cons.mpr ⟨hpub, forall_mem_cons.mpr ⟨hep,
      forall_mem_cons.mpr ⟨hka, forall_mem_singleton.mpr hall⟩⟩⟩)
  simp only [map_cons, map_nil, sum_cons, sum_nil, length_of_word16 hword,
    parts.publicKey.2, align_encodeSockaddr] at hsum
  have hpeerSize : 36 + (endpointSize parts.endpoint + (8 +
      ((parts.allowedIps.map entrySize).sum + 4))) ≤ peer.length + 3 := by
    unfold align at *
    omega
  have hwords := sum_entrySize_mod_four parts.allowedIps
  have hendpointWords : endpointSize parts.endpoint % 4 = 0 := by
    rw [← align_encodeSockaddr order parts.endpoint]
    exact align_mod_four _
  have hpad := add_four_le_align (by omega) hpeerSize
  have hone := sum_le_length [((0 : UInt16), peer)] (by simp) (forall_mem_singleton.mpr hpeer)
  simp only [map_cons, map_nil, sum_cons, sum_nil] at hone
  unfold peersSize
  omega

section

variable (order cfg parts)

theorem peersBytes_eq :
    peersBytes order cfg parts = attrBytes order 0 (chainBytes order (peerAttrs order cfg parts)) :=
  (chainBytes_eq _).trans (append_nil _)

theorem exists_drop_peers :
    ∃ rest, (peersBytes order cfg parts).drop 4 =
        attrBytes order wgPeerPublicKey parts.publicKey.1 ++ rest ∧
      rest.length + 40 = peersSize parts := by
  have hsize := length_peerAttrs order cfg parts
  have hwords : (chainBytes order (peerAttrs order cfg parts)).length % 4 = 0 :=
    length_chainBytes_mod_four _
  obtain ⟨rest, hrest⟩ : ∃ rest, chainBytes order (peerAttrs order cfg parts) =
      attrBytes order wgPeerPublicKey parts.publicKey.1 ++ rest :=
    ⟨_, (chainBytes_eq _).trans flatMap_cons⟩
  have hal : align (4 + 32) = 36 := rfl
  refine ⟨rest, ?_, ?_⟩
  · rw [peersBytes_eq, drop_attrBytes (by omega), hrest]
  · rw [hrest, length_append, length_attrBytes, parts.publicKey.2] at hsize
    omega

end

theorem length_of_overlong {out : Table UInt16 (List UInt8)} {found : List UInt8}
    (hlong : 65531 < peersSize parts) (hout : out.lookup wgDevicePeers = none)
    (hfound : (parseAttrsUpTo order (n + 1) (attrBytes order wgDevicePeers
      (peersBytes order cfg parts)) out).lookup wgDevicePeers = some found) :
    found.length + 11 < peersSize parts := by
  have hsize := length_peers order cfg parts
  have hwords : (peersBytes order cfg parts).length % 4 = 0 := length_chainBytes_mod_four _
  have hpeerSize := length_peerAttrs order cfg parts
  rw [parseAttrsUpTo_overlong (by omega) hwords, hsize] at hfound
  by_cases hnone : (4 + peersSize parts) % 65536 < 4
  · rw [if_pos hnone, hout] at hfound
    cases hfound
  rw [if_neg hnone] at hfound
  obtain ⟨m, hm⟩ : ∃ m, m = (4 + peersSize parts) % 65536 - 4 := ⟨_, rfl⟩
  rw [← hm] at hfound
  -- The attribute itself.
  have hself : (out.insert wgDevicePeers ((peersBytes order cfg parts).take m)).lookup
      wgDevicePeers = some found → found.length + 11 < peersSize parts := by
    intro hlk
    have hle := congrArg List.length (Option.some.inj hlk)
    rw [length_take] at hle
    omega
  by_cases hdeep : 8 ≤ m
  · rcases length_of_lookup_upTo hfound with hold | ⟨-, hwi⟩
    · exact hself hold
    · rw [length_drop] at hwi
      omega
  cases n with
  | zero => exact hself hfound
  | succ n =>
    by_cases hzero : m = 0
    · -- The header of the peer comes next; its length has become zero.
      rw [hzero, drop_zero, peersBytes_eq,
        parseAttrsUpTo_overlong (by omega) (by omega), if_pos (by omega)] at hfound
      rw [take_zero] at hfound
      rw [← Option.some.inj hfound, length_nil]
      omega
    · -- The public key comes next.
      obtain rfl : m = 4 := by omega
      obtain ⟨rest, hdrop, hlen⟩ := exists_drop_peers order cfg parts
      have hkey : parts.publicKey.1.length ≤ 65531 := by
        rw [parts.publicKey.2]
        decide
      rw [hdrop, parseAttrsUpTo_attrBytes hkey] at hfound
      rcases length_of_lookup_upTo hfound with hold | ⟨-, hwi⟩
      · exact hself hold
      · omega

theorem fits_of_readPayload
    (h : readPayload order (devicePayload order cfg parts) = some (sent order cfg parts)) :
    Fits cfg parts := by
  have hdrop : (devicePayload order cfg parts).drop 4 =
      chainBytes order (deviceAttrs order cfg parts) := rfl
  obtain ⟨_, _, hif, -⟩ := readPayload_eq_some_iff.mp h
  have hname : cfg.interface.utf8ByteSize ≤ 65530 := by
    have hle := (length_of_lookup hif).1
    rw [sent, length_ifname] at hle
    omega
  refine ⟨hname, ?_⟩
  by_contra hlong
  obtain ⟨peers, hprs, hsize⟩ := peersSize_le_of_read h
  -- The attributes before the peers are taken off, and none of them has their type.
  obtain ⟨n, hfuel⟩ := Nat.exists_eq_add_of_le
    (length_le_length_chainBytes order (deviceAttrs order cfg parts))
  rw [hdrop, parseAttrs, hfuel, chainBytes_eq, deviceAttrs, flatMap_append, flatMap_cons,
    flatMap_nil, append_nil, length_append, length_singleton, Nat.add_assoc,
    parseAttrsUpTo_chain (length_payload_frontAttrs hname), Nat.add_comm 1 n] at hprs
  have hfro : lastOf wgDevicePeers (frontAttrs cfg parts) = none := by
    obtain ⟨interface, publicKey, endpoint, allowedIps, listenPort, keepalive⟩ := cfg
    cases listenPort with
    | none | some port => rfl
  have hnone : ((frontAttrs cfg parts).foldl (fun out a => out.insert a.rtaType (a.payload order))
      (∅ : Table UInt16 (List UInt8))).lookup wgDevicePeers = none := by
    rw [lookup_foldl_insert, hfro]
    rfl
  have hsh := length_of_overlong (not_le.mp hlong) hnone hprs
  omega

/-- **WireGuard configuration.** Whenever `set_crypto_params` gets to send a message, reading it
level by level gives the name, the keys, the port, the interval, the endpoint and exactly the
allowed addresses in order, if and only if the name has at most 65530 bytes and the peers, with 28
bytes for each IPv4 and 40 for each IPv6 address, have at most 65531. -/
theorem payload_read_iff (order : ByteOrder) (lookup : String → Except String (List SocketAddr))
    (cfg : Config) (privateKeyB64 : String) (payload : List UInt8)
    (h : (readParts lookup cfg privateKeyB64).map (devicePayload order cfg) = .ok payload) :
    ∃ parts, readParts lookup cfg privateKeyB64 = .ok parts ∧
      (readPayload order payload = some (sent order cfg parts) ↔
        cfg.interface.utf8ByteSize ≤ 65530 ∧
          60 + endpointSize parts.endpoint + (parts.allowedIps.map entrySize).sum ≤ 65531) := by
  cases hparts : readParts lookup cfg privateKeyB64 with
  | error e =>
    rw [hparts] at h
    cases h
  | ok parts =>
    rw [hparts] at h
    cases h
    exact ⟨parts, rfl, fits_of_readPayload, readPayload_of_fits order⟩

def zeroKey : String := "AAAAAAAAAAAAAAAAAAAAAAAAAAAAAAAAAAAAAAAAAAA="

/-- A tunnel to a peer that may send from these addresses. -/
def tunnel (allowedIps : String) : Config where
  interface := "wg0"
  peerPublicKey := zeroKey
  peerEndpoint := "192.0.2.1:51820"
  peerAllowedIps := allowedIps
  listenPort := none
  persistentKeepaliveSecs := 25

def tunnelParts (allowedIps : List (IpAddr × UInt8)) : Parts where
  privateKey := ⟨List.replicate 32 0, rfl⟩
  publicKey := ⟨List.replicate 32 0, rfl⟩
  endpoint := .v4 (.new 192 0 2 1) 51820
  allowedIps := allowedIps

def resolved : String → Except String (List SocketAddr) :=
  fun _ => .ok [.v4 (.new 192 0 2 1) 51820]

/-- A configuration with two allowed networks arrives. -/
theorem payload_read_everywhere :
    readPayload .little (devicePayload .little (tunnel "0.0.0.0/0, ::/0")
      (tunnelParts [(.v4 (.new 0 0 0 0), 0), (.v6 ⟨Vector.replicate 8 0⟩, 0)])) =
      some (sent .little (tunnel "0.0.0.0/0, ::/0")
        (tunnelParts [(.v4 (.new 0 0 0 0), 0), (.v6 ⟨Vector.replicate 8 0⟩, 0)])) := by
  have hparts : readParts resolved (tunnel "0.0.0.0/0, ::/0") zeroKey =
      .ok (tunnelParts [(.v4 (.new 0 0 0 0), 0), (.v6 ⟨Vector.replicate 8 0⟩, 0)]) := by
    decide +kernel
  obtain ⟨parts, hread, hiff⟩ := payload_read_iff .little resolved (tunnel "0.0.0.0/0, ::/0")
    zeroKey _ (congrArg (Except.map _) hparts)
  cases hparts.symm.trans hread
  exact hiff.mpr (by decide +kernel)

def classA : String := "10.0.0.0/8"

def repeated (n : ℕ) : String := String.ofList (List.replicate n (classA.toList ++ [','])).flatten

theorem splitList_repeated (n : ℕ) : splitList (repeated n) = List.replicate n classA := by
  rw [splitList, repeated, String.toList_ofList]
  induction n with
  | zero => decide +kernel
  | succ n ih =>
    exact congrArg _ ih

theorem readParts_repeated (n : ℕ) :
    readParts resolved (tunnel (repeated n)) zeroKey =
      .ok (tunnelParts (List.replicate n (.v4 (.new 10 0 0 0), 8))) := by
  have hents : (List.replicate n classA).mapM parseAllowedIp =
      .ok (List.replicate n (.v4 (.new 10 0 0 0), 8)) := by
    induction n with
    | zero => rfl
    | succ n ih =>
      rw [replicate_succ, mapM_cons, ih]
      rfl
  have hprivate : decodeKey "private key" zeroKey = .ok ⟨List.replicate 32 0, rfl⟩ := by
    decide +kernel
  have hpub : decodeKey "peer public key" zeroKey = .ok ⟨List.replicate 32 0, rfl⟩ := by
    decide +kernel
  rw [readParts, hprivate, tunnel, hpub, splitList_repeated, hents]
  rfl

/-- With 2338 allowed networks the message is sent, but they do not arrive. -/
theorem payload_read_truncated :
    readParts resolved (tunnel (repeated 2338)) zeroKey =
        .ok (tunnelParts (List.replicate 2338 (.v4 (.new 10 0 0 0), 8))) ∧
      readPayload .little (devicePayload .little (tunnel (repeated 2338))
        (tunnelParts (List.replicate 2338 (.v4 (.new 10 0 0 0), 8)))) ≠
          some (sent .little (tunnel (repeated 2338))
            (tunnelParts (List.replicate 2338 (.v4 (.new 10 0 0 0), 8)))) := by
  have hsize (n : ℕ) :
      peersSize (tunnelParts (List.replicate n (.v4 (.new 10 0 0 0), 8))) = 80 + n * 28 := by
    rw [peersSize, tunnelParts, map_replicate, sum_replicate]
    rfl
  refine ⟨readParts_repeated 2338, fun hread => ?_⟩
  have hfits := (fits_of_readPayload hread).2
  rw [hsize] at hfits
  omega

end MitosNetwork.WireGuard
