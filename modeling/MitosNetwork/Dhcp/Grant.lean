import MitosNetwork.Dhcp.Client

/-!
# What a client reads from a server

The replies of `src/sharing/dhcp_server.rs` in the hands of `src/dhcp/client.rs`, one packet at a
time. A lease that is read from an ACK has the settings of the server, as long as its prefix length
is one and its name servers fit into an option.
-/

namespace MitosNetwork.DhcpGrant

open Dhcp4 DhcpClient DhcpServer

def grantOptions (cfg : DhcpServerConfig) (kind : UInt8) : List DhcpOption :=
  [(optMsgType, [kind]), (optServerId, cfg.serverIp.octets),
    (optSubnetMask, (Ipv4.subnetMask cfg.prefixlen).octets), (optRouter, cfg.serverIp.octets),
    (optLeaseTime, Wire.beBytes 4 cfg.leaseTimeSecs.toNat)] ++
    if cfg.dnsServers.isEmpty then [] else [(optDns, cfg.dnsServers.flatMap Ipv4Addr.octets)]

section Reply

variable {cfg : DhcpServerConfig}

theorem wireOption_of_length {code : UInt8} (hcode : code ≠ optPad ∧ code ≠ optEnd)
    {data : List UInt8} (hlen : data.length ≤ 255) : WireOption (code, data) :=
  ⟨hcode.1, hcode.2, hlen⟩

theorem length_flatMap_octets (servers : List Ipv4Addr) :
    (servers.flatMap Ipv4Addr.octets).length = 4 * servers.length := by
  rw [List.length_flatMap, List.map_congr_left fun a _ => a.length_octets, List.map_const',
    List.sum_replicate_nat, Nat.mul_comm]

theorem wireOption_of_mem_grantOptions (hdns : cfg.dnsServers.length ≤ 63) {kind : UInt8} :
    ∀ o ∈ grantOptions cfg kind, WireOption o := by
  intro o ho
  rcases List.mem_append.mp ho with hfixed | hsrvs
  · simp only [List.mem_cons, List.not_mem_nil, or_false] at hfixed
    rcases hfixed with rfl | rfl | rfl | rfl | rfl <;>
      exact wireOption_of_length (by decide) (by simp)
  · split at hsrvs
    · cases hsrvs
    · obtain rfl := List.mem_singleton.mp hsrvs
      refine wireOption_of_length (by decide) ?_
      rw [length_flatMap_octets]
      omega

theorem parse_buildReply_grant (hdns : cfg.dnsServers.length ≤ 63) (request : Packet)
    (a : Ipv4Addr) (kind : UInt8) (hkind : kind ≠ msgNak) :
    ∃ reply, parse (buildReply request a cfg kind) = some reply ∧ reply.yiaddr = a ∧
      reply.options = grantOptions cfg kind := by
  refine ⟨_, parse_serialize_eq _, if_neg hkind, ?_⟩
  simp only [if_neg hkind]
  exact parseOptions_optionArea (wireOption_of_mem_grantOptions hdns)

theorem dnsServersOf_grant {ack : Packet} {kind : UInt8}
    (hopts : ack.options = grantOptions cfg kind) : dnsServersOf ack = cfg.dnsServers := by
  by_cases hnone : cfg.dnsServers = []
  · have hopt : ack.getOption optDns = none := by
      rw [Packet.getOption, hopts, grantOptions, hnone]
      rfl
    simp only [dnsServersOf, hopt, hnone]
  · have hopt : ack.getOption optDns = some (cfg.dnsServers.flatMap Ipv4Addr.octets) := by
      rw [Packet.getOption, hopts, grantOptions, if_neg (fun h => hnone (List.isEmpty_iff.mp h))]
      rfl
    simp only [dnsServersOf, hopt]
    exact filterMap_addressOf_octets _

/-- **A lease is what the server was configured with.** For a server with a prefix length up to 32
and up to 63 name servers, the lease that a client reads from an ACK, with the server identifier of
an OFFER of the same server, has the granted address and the settings of the server. -/
theorem lease_of_ack (cfg : DhcpServerConfig) (hplen : cfg.prefixlen ≤ 32)
    (hdns : cfg.dnsServers.length ≤ 63) (discover request : Packet) (proposed a : Ipv4Addr)
    (now : UInt64) :
    ∃ offer ack serverId lease,
      parse (buildReply discover proposed cfg msgOffer) = some offer ∧
      serverIdOf offer = some serverId ∧
      parse (buildReply request a cfg msgAck) = some ack ∧
      leaseFromAck ack serverId now = .ok lease ∧
      lease.address = a ∧ lease.prefixlen = cfg.prefixlen ∧
      lease.gateway = some cfg.serverIp ∧ lease.dnsServers = cfg.dnsServers ∧
      lease.leaseTimeSecs = cfg.leaseTimeSecs ∧ lease.serverId = cfg.serverIp := by
  obtain ⟨offer, hoffer, -, hofferOptions⟩ :=
    parse_buildReply_grant hdns discover proposed msgOffer (by decide)
  obtain ⟨ack, hack, hyiaddr, hackOptions⟩ :=
    parse_buildReply_grant hdns request a msgAck (by decide)
  have hserver : offer.getOption optServerId = some cfg.serverIp.octets := by
    rw [Packet.getOption, hofferOptions]
    rfl
  have hmask : ack.getOption optSubnetMask = some (Ipv4.subnetMask cfg.prefixlen).octets := by
    rw [Packet.getOption, hackOptions]
    rfl
  have hrouter : ack.getOption optRouter = some cfg.serverIp.octets := by
    rw [Packet.getOption, hackOptions]
    rfl
  have htime : ack.getOption optLeaseTime = some (Wire.beBytes 4 cfg.leaseTimeSecs.toNat) := by
    rw [Packet.getOption, hackOptions]
    rfl
  refine ⟨offer, ack, cfg.serverIp, _, hoffer, ?_, hack, rfl, hyiaddr, ?_, ?_, ?_, ?_, rfl⟩
  · rw [serverIdOf, hserver, Option.bind_some, addressOf_octets]
  · simp only [prefixlenOf, hmask, Option.bind_some, addressOf_octets]
    exact countOnes_subnetMask hplen
  · rw [gatewayOf, hrouter, Option.bind_some, List.take_of_length_le (by simp), addressOf_octets]
  · exact dnsServersOf_grant hackOptions
  · simp only [leaseTimeOf, htime]
    rw [if_pos (by simp), Wire.ofNat_beNat_beBytes_four]

/-- A server at the limits of both bounds: a host mask and 63 name servers. -/
def edge : DhcpServerConfig where
  interface := "wlan0"
  serverIp := .new 10 42 0 1
  poolStart := .new 10 42 0 2
  poolEnd := .new 10 42 0 254
  prefixlen := 32
  leaseTimeSecs := 3600
  dnsServers := List.replicate 63 (.new 9 9 9 9)

theorem lease_of_ack_edge :
    edge.prefixlen ≤ 32 ∧ edge.dnsServers.length ≤ 63 ∧
    ∃ offer ack serverId lease,
      parse (buildReply (discoverPacket 1 #v[2, 0, 0, 0, 0, 1] none) (.new 10 42 0 2) edge
        msgOffer) = some offer ∧
      serverIdOf offer = some serverId ∧
      parse (buildReply (requestPacket 1 #v[2, 0, 0, 0, 0, 1] (.new 10 42 0 2) (.new 10 42 0 1)
        none) (.new 10 42 0 2) edge msgAck) = some ack ∧
      leaseFromAck ack serverId 0 = .ok lease ∧
      lease.address = .new 10 42 0 2 ∧ lease.prefixlen = 32 ∧
      lease.gateway = some edge.serverIp ∧ lease.dnsServers = edge.dnsServers ∧
      lease.leaseTimeSecs = 3600 ∧ lease.serverId = edge.serverIp :=
  ⟨by decide, by decide, lease_of_ack edge (by decide) (by decide) _ _ _ _ _⟩

end Reply

/-! ## Packets that are cut off

The receive buffers cut a packet off at 1500 bytes, so options at its end may be missing; the ones
that decide come first. -/

theorem parse_take_buildDiscover (xid : UInt32) (mac : Mac) (hostname : Option String) :
    ∃ pkt, parse ((buildDiscover xid mac hostname).take 1500) = some pkt ∧ pkt.chaddr = mac ∧
      pkt.messageType = some msgDiscover := by
  have hwire : ∀ o ∈ [(optMsgType, [msgDiscover])], WireOption o := by decide
  have hopts : (discoverPacket xid mac hostname).options =
      [(optMsgType, [msgDiscover])] ++ (discoverPacket xid mac hostname).options.tail := rfl
  obtain ⟨opts, hp⟩ := parse_take_serialize (n := 1500) hopts hwire (by decide)
  exact ⟨_, hp, rfl, rfl⟩

theorem parse_take_buildRequest (xid : UInt32) (mac : Mac) (a serverId : Ipv4Addr)
    (hostname : Option String) :
    ∃ pkt, parse ((buildRequest xid mac a serverId hostname).take 1500) = some pkt ∧
      pkt.chaddr = mac ∧ pkt.messageType = some msgRequest ∧ requestedAddress pkt = a ∧
      serverIdOf pkt = some serverId := by
  have hwire : ∀ o ∈ [(optMsgType, [msgRequest]), (optClientId, clientId mac),
      (optRequestedIp, a.octets), (optServerId, serverId.octets),
      (optParamRequestList, defaultParamRequestList)], WireOption o := by
    intro o ho
    simp only [List.mem_cons, List.not_mem_nil, or_false] at ho
    rcases ho with rfl | rfl | rfl | rfl | rfl
    · decide
    · exact wireOption_clientId mac
    · exact wireOption_of_length (by decide) (by simp)
    · exact wireOption_of_length (by decide) (by simp)
    · decide
  have hopts : (requestPacket xid mac a serverId hostname).options =
      [(optMsgType, [msgRequest]), (optClientId, clientId mac), (optRequestedIp, a.octets),
        (optServerId, serverId.octets), (optParamRequestList, defaultParamRequestList)] ++
      (requestPacket xid mac a serverId hostname).options.drop 5 := rfl
  obtain ⟨opts, hp⟩ := parse_take_serialize (n := 1500) hopts hwire
    (by simp [optionBytes, clientId, macBytes, defaultParamRequestList])
  refine ⟨_, hp, rfl, rfl, ?_, ?_⟩
  · show (if a.octets.length = 4 then Ipv4Addr.ofOctets a.octets
      else Ipv4Addr.unspecified) = a
    rw [if_pos a.length_octets, Ipv4Addr.ofOctets_octets]
  · exact addressOf_octets serverId

theorem parse_take_buildReply (request : Packet) (a : Ipv4Addr) (cfg : DhcpServerConfig)
    (kind : UInt8) (hkind : kind ≠ msgNak) :
    ∃ pkt, parse ((buildReply request a cfg kind).take 1500) = some pkt ∧ pkt.yiaddr = a ∧
      pkt.messageType = some kind ∧ serverIdOf pkt = some cfg.serverIp := by
  have hwire : ∀ o ∈ [(optMsgType, [kind]), (optServerId, cfg.serverIp.octets)], WireOption o := by
    intro o ho
    simp only [List.mem_cons, List.not_mem_nil, or_false] at ho
    rcases ho with rfl | rfl <;> exact wireOption_of_length (by decide) (by simp)
  obtain ⟨reply, rest, hrep, hyi, hopts⟩ : ∃ reply rest,
      buildReply request a cfg kind = serialize reply ∧
      reply.yiaddr = (if kind = msgNak then Ipv4Addr.unspecified else a) ∧
      reply.options = [(optMsgType, [kind]), (optServerId, cfg.serverIp.octets)] ++ rest :=
    ⟨_, _, rfl, rfl, rfl⟩
  obtain ⟨opts, hp⟩ := parse_take_serialize (n := 1500) hopts hwire (by simp [optionBytes])
  rw [hrep]
  refine ⟨_, hp, ?_, rfl, addressOf_octets cfg.serverIp⟩
  exact hyi.trans (if_neg hkind)

end MitosNetwork.DhcpGrant
