import MitosNetwork.Common.Utf8
import MitosNetwork.Dhcp.Lease
import MitosNetwork.Sharing.DhcpServer

/-!
# The DHCPv4 client

`acquire` of `src/dhcp/client.rs` as a state machine. A turn of either of its loops sends a packet
(`poll`) and then waits for one datagram (`receive`); what the clock, the socket and the network do
is input. `leaseFromAck` reads a lease out of the ACK.
-/

namespace MitosNetwork.DhcpClient

open Dhcp4

/-! ## Reading a lease -/

/-- `u32::count_ones`. -/
def countOnes (x : UInt32) : ℕ := (List.range 32).countP x.toNat.testBit

def addressOf (bytes : List UInt8) : Option Ipv4Addr :=
  if bytes.length = 4 then some (.ofOctets bytes) else none

variable (ack : Packet)

/-- `OPT_SUBNET_MASK` as a prefix length: the number of set bits, 24 without a mask. -/
def prefixlenOf : UInt8 :=
  match (ack.getOption optSubnetMask).bind addressOf with
  | some mask => UInt8.ofNat (countOnes mask.bits)
  | none => 24

def gatewayOf : Option Ipv4Addr :=
  (ack.getOption optRouter).bind fun bytes => addressOf (bytes.take 4)

def dnsServersOf : List Ipv4Addr :=
  match ack.getOption optDns with
  | some bytes => (Wire.chunksExact 4 bytes).filterMap addressOf
  | none => []

def leaseTimeOf : UInt32 :=
  match ack.getOption optLeaseTime with
  | some bytes => if bytes.length = 4 then UInt32.ofNat (Wire.beNat bytes) else 3600
  | none => 3600

/-- `lease_from_ack` at the time `now`. -/
def leaseFromAck (serverId : Ipv4Addr) (now : UInt64) : Result Lease :=
  .ok {
    address := ack.yiaddr
    prefixlen := prefixlenOf ack
    gateway := gatewayOf ack
    dnsServers := dnsServersOf ack
    domain := (ack.getOption optDomainName).map Utf8.lossy
    serverId := serverId
    leaseTimeSecs := leaseTimeOf ack
    obtainedAtUnix := now }

/-- The server identifier that `acquire` takes from an OFFER. -/
def serverIdOf (offer : Packet) : Option Ipv4Addr := (offer.getOption optServerId).bind addressOf

@[simp] theorem addressOf_octets (a : Ipv4Addr) : addressOf a.octets = some a := by
  rw [addressOf, if_pos a.length_octets, Ipv4Addr.ofOctets_octets]

theorem countOnes_subnetMask {p : UInt8} (hp : p ≤ 32) :
    UInt8.ofNat (countOnes (Ipv4.subnetMask p).bits) = p := by
  have hall : ∀ n : Fin 33, UInt8.ofNat (countOnes (Ipv4.subnetMask (UInt8.ofNat n)).bits) =
      UInt8.ofNat n := by decide +kernel
  have hlt : p.toNat < 33 := Nat.lt_succ_of_le hp
  have hself : UInt8.ofNat p.toNat = p := UInt8.ofNat_toNat
  have hcase := hall ⟨p.toNat, hlt⟩
  rwa [hself] at hcase

theorem filterMap_addressOf_octets (servers : List Ipv4Addr) :
    (Wire.chunksExact 4 (servers.flatMap Ipv4Addr.octets)).filterMap addressOf = servers := by
  rw [Wire.chunksExact_flatMap (by decide) Ipv4Addr.length_octets, List.filterMap_map]
  have hread : addressOf ∘ Ipv4Addr.octets = some := by
    funext a
    exact addressOf_octets a
  rw [hread, List.filterMap_some]

/-! ## The exchange -/

/-- What `acquire` knows before its loops. -/
structure Client where
  ifname : String
  mac : Mac
  hostname : Option String
  xid : UInt32

/-- Where `acquire` stands: in the loop that asks for an OFFER, in the one that asks for the ACK, or
returned. -/
inductive Phase where
  | discovering
  | requesting (offer : Packet) (serverId : Ipv4Addr)
  | finished (result : Result Lease)
deriving DecidableEq

def nakError (serverId : Ipv4Addr) : NetworkError :=
  .dhcp ("server " ++ serverId.display ++ " sent DHCPNAK")

/-- The packet that the turn of a loop sends. -/
def outgoing (c : Client) : Phase → List UInt8
  | .discovering => buildDiscover c.xid c.mac c.hostname
  | .requesting offer serverId => buildRequest c.xid c.mac offer.yiaddr serverId c.hostname
  | .finished _ => []

/-- The packet that a loop waits for. -/
def awaited : Phase → String
  | .discovering => "DHCPOFFER"
  | .requesting _ _ => "DHCPACK"
  | .finished _ => ""

/-- The start of a turn: the deadline is checked and the packet is sent. The second component is
what was sent. -/
def poll (c : Client) (expired : Bool) (sent : Except String Unit) :
    Phase → Phase × Option (List UInt8)
  | .finished result => (.finished result, none)
  | phase =>
    if expired then
      (.finished (.error (.timeout ("no " ++ awaited phase ++ " on " ++ c.ifname))), none)
    else
      match sent with
      | .error message => (.finished (.error (.io message)), none)
      | .ok () => (phase, some (outgoing c phase))

def offered (offer : Packet) : Phase :=
  match serverIdOf offer with
  | some serverId => .requesting offer serverId
  | none => .finished (.error (.dhcp "OFFER missing server identifier"))

def handlePacket (c : Client) (now : UInt64) (pkt : Packet) : Phase → Phase
  | .discovering =>
    if pkt.xid = c.xid ∧ pkt.messageType = some msgOffer then offered pkt else .discovering
  | .requesting offer serverId =>
    if pkt.xid ≠ c.xid then .requesting offer serverId
    else if pkt.messageType = some msgAck then .finished (leaseFromAck pkt serverId now)
    else if pkt.messageType = some msgNak then .finished (.error (nakError serverId))
    else .requesting offer serverId
  | .finished result => .finished result

/-- The end of a turn: the outcome of `recv_from` with its buffer of 1500 bytes. -/
def receive (c : Client) (now : UInt64) (received : DhcpServer.Received) (phase : Phase) : Phase :=
  match phase, received with
  | .finished result, _ => .finished result
  | phase, .wouldBlock => phase
  | _, .failed message => .finished (.error (.io message))
  | phase, .datagram bytes =>
    match parse (bytes.take 1500) with
    | some pkt => handlePacket c now pkt phase
    | none => phase

/-! ## What a turn can lead to -/

theorem poll_cases (c : Client) (expired : Bool) (sent : Except String Unit) (phase : Phase) :
    poll c expired sent phase = (phase, none) ∨
    (∃ e, poll c expired sent phase = (.finished (.error e), none) ∧ ∀ id, e ≠ nakError id) ∨
    poll c expired sent phase = (phase, some (outgoing c phase)) ∧ ∀ r, phase ≠ .finished r := by
  cases phase with
  | finished result => exact .inl rfl
  | discovering | requesting offer serverId =>
    cases expired with
    | true => exact .inr (.inl ⟨_, rfl, fun _ h => nomatch h⟩)
    | false =>
      cases sent with
      | error message => exact .inr (.inl ⟨_, rfl, fun _ h => nomatch h⟩)
      | ok u => exact .inr (.inr ⟨rfl, fun _ h => nomatch h⟩)

theorem handlePacket_eq_requesting {c : Client} {now : UInt64} {pkt offer : Packet} {phase : Phase}
    {serverId : Ipv4Addr} (h : handlePacket c now pkt phase = .requesting offer serverId) :
    phase = .requesting offer serverId ∨
      pkt = offer ∧ pkt.messageType = some msgOffer ∧ serverIdOf pkt = some serverId := by
  cases phase with
  | discovering =>
    simp only [handlePacket] at h
    split at h
    · rename_i hof
      unfold offered at h
      split at h
      · rename_i id hid
        cases h
        exact .inr ⟨rfl, hof.2, hid⟩
      · cases h
    · cases h
  | requesting offer' serverId' =>
    simp only [handlePacket] at h
    split at h
    · exact .inl h
    · split at h
      · cases h
      · split at h
        · cases h
        · exact .inl h
  | finished result => cases h

theorem messageType_of_handlePacket_eq_nak {c : Client} {now : UInt64} {pkt offer : Packet}
    {serverId id : Ipv4Addr}
    (h : handlePacket c now pkt (.requesting offer serverId) = .finished (.error (nakError id))) :
    pkt.messageType = some msgNak := by
  simp only [handlePacket] at h
  split at h
  · cases h
  · split at h
    · cases h
    · split at h
      · assumption
      · cases h

end MitosNetwork.DhcpClient
