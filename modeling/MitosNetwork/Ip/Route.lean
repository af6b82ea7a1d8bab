import MitosNetwork.Ip.Address
import MitosNetwork.Ip.Attributes

/-!
# Routes

`src/ip/route.rs` with `build_rtmsg` and `parse_route` of `src/ip/netlink.rs`: the messages that add
and delete routes, and the routes that `list` makes of a dump. `list` does not read the protocol of
a route, and says `Kernel` for all of them; so a route comes back exactly if it was the kernel's,
and only then does deleting the listed route name the one that was installed.
-/

namespace MitosNetwork

open Wire Netlink Option

inductive RouteProtocol where
  | static
  | dhcp
  | kernel
deriving DecidableEq

inductive Family where
  | v4
  | v6
deriving DecidableEq

/-- `ip::route::Route`. Without a destination it is the default route. -/
structure Route where
  destination : Option (IpAddr × UInt8)
  gateway : Option IpAddr
  oifIndex : Int32
  metric : Option UInt32
  protocol : RouteProtocol
deriving DecidableEq

def rtaDst : UInt16 := 1
def rtaOif : UInt16 := 4
def rtaGateway : UInt16 := 5
def rtaPriority : UInt16 := 6
def rtTableMain : UInt8 := 254
def rtScopeUniverse : UInt8 := 0
def rtScopeLink : UInt8 := 253
def rtnUnicast : UInt8 := 1
def frActToTbl : UInt8 := 1
def afInet : UInt8 := 2
def afInet6 : UInt8 := 10

/-- `RouteProtocol::raw`. -/
def RouteProtocol.raw : RouteProtocol → UInt8
  | .static => 4
  | .dhcp => 16
  | .kernel => 2

/-- `Family::raw`. -/
def Family.raw : Family → UInt8
  | .v4 => afInet
  | .v6 => afInet6

/-- `Family::of`. -/
def Family.of : IpAddr → Family
  | .v4 _ => .v4
  | .v6 _ => .v6

/-- `addr_bytes`. -/
def addrBytes : IpAddr → List UInt8
  | .v4 a => a.octets
  | .v6 a => a.octets

/-- `family_of`. -/
def familyOf (route : Route) : Family :=
  match route.destination with
  | some (dst, _) => .of dst
  | none =>
    match route.gateway with
    | some gw => .of gw
    | none => .v4

/-! ## Messages -/

structure RouteMsg where
  family : UInt8
  dstLen : UInt8
  table : UInt8
  protocol : UInt8
  scope : UInt8
  dst : Option (List UInt8)
  gateway : Option (List UInt8)
  oif : UInt32
  priority : Option UInt32
deriving DecidableEq

/-- `build_rtmsg`. -/
def buildRtmsg (family dstLen table protocol scope rtype : UInt8) : List UInt8 :=
  [family, dstLen, 0, 0, table, protocol, scope, rtype, 0, 0, 0, 0]

/-- The attributes of a message, in the order they are written. -/
def RouteMsg.attrs (m : RouteMsg) : List Attr :=
  m.dst.toList.map (.bytes rtaDst) ++ m.gateway.toList.map (.bytes rtaGateway) ++
    [.u32 rtaOif m.oif] ++ m.priority.toList.map (.u32 rtaPriority)

variable (order : ByteOrder)

/-- The payload of a message. -/
def RouteMsg.bytes (m : RouteMsg) : List UInt8 :=
  buildRtmsg m.family m.dstLen m.table m.protocol m.scope rtnUnicast ++ chainBytes order m.attrs

/-- The message of `build`, for `add` and `del`. -/
def Route.msg (route : Route) : RouteMsg where
  family := (familyOf route).raw
  dstLen := (route.destination.map (·.2)).getD 0
  table := rtTableMain
  protocol := route.protocol.raw
  scope := if route.gateway.isSome then rtScopeUniverse else rtScopeLink
  dst := route.destination.map fun d => addrBytes d.1
  gateway := route.gateway.map addrBytes
  oif := route.oifIndex.toUInt32
  priority := route.metric

/-- The message of `add_to_table`, which writes no metric. -/
def Route.tableMsg (route : Route) (table : UInt8) : RouteMsg where
  family := (familyOf route).raw
  dstLen := (route.destination.map (·.2)).getD 0
  table := table
  protocol := route.protocol.raw
  scope := rtScopeUniverse
  dst := route.destination.map fun d => addrBytes d.1
  gateway := route.gateway.map addrBytes
  oif := route.oifIndex.toUInt32
  priority := none

/-- What the payload of a FIB rule message says. -/
structure RuleMsg where
  family : UInt8
  srcLen : UInt8
  table : UInt8
  action : UInt8
  src : List UInt8
  priority : UInt32
deriving DecidableEq

/-- The message of `add_source_rule` and `del_source_rule`. -/
def sourceRule (src : IpAddr) (prefixlen table : UInt8) (priority : UInt32) : RuleMsg where
  family := (Family.of src).raw
  srcLen := prefixlen
  table := table
  action := frActToTbl
  src := addrBytes src
  priority := priority

/-! ## Listing -/

structure RouteInfo where
  family : UInt8
  dstLen : UInt8
  table : UInt8
  dst : Option (List UInt8)
  gateway : Option (List UInt8)
  oif : Option Int32
  priority : Option UInt32
deriving DecidableEq

def word32 (b : List UInt8) : Option UInt32 :=
  if 4 ≤ b.length then some (UInt32.ofNat (order.nat (b.take 4))) else none

/-- `parse_route`. -/
def parseRoute (body : List UInt8) : Option RouteInfo :=
  let attrs := parseAttrs order (body.drop 12)
  if body.length < 12 then none
  else
    some
      { family := body.getD 0 0
        dstLen := body.getD 1 0
        table := body.getD 4 0
        dst := attrs.lookup rtaDst
        gateway := attrs.lookup rtaGateway
        oif := ((attrs.lookup rtaOif).bind (word32 order)).map UInt32.toInt32
        priority := (attrs.lookup rtaPriority).bind (word32 order) }

/-- `bytes_to_ip`. -/
def bytesToIp (family : UInt8) (b : List UInt8) : Option IpAddr :=
  if family = afInet ∧ b.length = 4 then some (.v4 (.ofOctets b))
  else if family = afInet6 ∧ b.length = 16 then some (.v6 (.ofOctets b))
  else none

/-- The route that `list` makes of a reply, if it is one of the main table. -/
def RouteInfo.route (r : RouteInfo) : Option Route :=
  if r.table ≠ rtTableMain then none
  else
    some
      { destination := (r.dst.bind (bytesToIp r.family)).map fun ip => (ip, r.dstLen)
        gateway := r.gateway.bind (bytesToIp r.family)
        oifIndex := r.oif.getD 0
        metric := r.priority
        protocol := .kernel }

/-! ## Reading a message back -/

theorem bytesToIp_addrBytes (ip : IpAddr) :
    bytesToIp (Family.of ip).raw (addrBytes ip) = some ip := by
  cases ip with
  | v4 a =>
    exact congrArg (some ∘ IpAddr.v4) a.ofOctets_octets
  | v6 a =>
    have hnot : ¬((Family.of (.v6 a)).raw = afInet ∧ (addrBytes (.v6 a)).length = 4) :=
      fun h => absurd h.1 (show afInet6 ≠ afInet by decide)
    rw [bytesToIp, if_neg hnot, if_pos ⟨rfl, a.length_octets⟩]
    exact congrArg (some ∘ IpAddr.v6) a.ofOctets_octets

theorem length_addrBytes_le (ip : IpAddr) : (addrBytes ip).length ≤ 16 := by
  cases ip with
  | v4 a => exact (Ipv4Addr.length_octets a).trans_le (by decide)
  | v6 a => exact (Ipv6Addr.length_octets a).le

theorem word32_bytes (v : UInt32) : word32 order (order.bytes 4 v.toNat) = some v := by
  have hlen := ByteOrder.length_bytes order 4 v.toNat
  rw [word32, if_pos hlen.ge, List.take_of_length_le hlen.le, ByteOrder.ofNat_nat_bytes_four]

/-- The addresses of a message fit into an attribute. -/
def RouteMsg.Fits (m : RouteMsg) : Prop :=
  (∀ b ∈ m.dst, b.length ≤ 65531) ∧ ∀ b ∈ m.gateway, b.length ≤ 65531

theorem RouteMsg.length_payload {m : RouteMsg} (h : m.Fits) (order : ByteOrder) :
    ∀ a ∈ m.attrs, (a.payload order).length ≤ 65531 := by
  intro a ha
  simp only [attrs, List.mem_append, List.mem_map, mem_toList, List.mem_singleton] at ha
  rcases ha with ((⟨b, hb, rfl⟩ | ⟨b, hb, rfl⟩) | rfl) | ⟨v, -, rfl⟩
  · exact h.1 b hb
  · exact h.2 b hb
  · simp [Attr.payload]
  · simp [Attr.payload]

theorem parseRoute_bytes {m : RouteMsg} (h : m.Fits) (order : ByteOrder) :
    parseRoute order (m.bytes order) =
      some ⟨m.family, m.dstLen, m.table, m.dst, m.gateway, some m.oif.toInt32, m.priority⟩ := by
  have hlk := lookup_parseAttrs_chain (m.length_payload h order)
  have hdrop : (m.bytes order).drop 12 = chainBytes order m.attrs := rfl
  obtain ⟨family, dstLen, table, protocol, scope, dst, gateway, oif, priority⟩ := m
  -- No two attributes of a message have the same type, whichever of them are there.
  have hdst : (lastOf rtaDst (RouteMsg.attrs ⟨family, dstLen, table, protocol, scope, dst, gateway,
      oif, priority⟩)).map (Attr.payload order) = dst := by
    cases dst <;> cases gateway <;> cases priority <;> rfl
  have hgw : (lastOf rtaGateway (RouteMsg.attrs ⟨family, dstLen, table, protocol, scope, dst,
      gateway, oif, priority⟩)).map (Attr.payload order) = gateway := by
    cases dst <;> cases gateway <;> cases priority <;> rfl
  have hoif : (lastOf rtaOif (RouteMsg.attrs ⟨family, dstLen, table, protocol, scope, dst, gateway,
      oif, priority⟩)).map (Attr.payload order) = some (order.bytes 4 oif.toNat) := by
    cases dst <;> cases gateway <;> cases priority <;> rfl
  have hpriority : (lastOf rtaPriority (RouteMsg.attrs ⟨family, dstLen, table, protocol, scope, dst,
      gateway, oif, priority⟩)).map (Attr.payload order) =
        priority.map fun v => order.bytes 4 v.toNat := by
    cases dst <;> cases gateway <;> cases priority <;> rfl
  unfold parseRoute
  dsimp only
  rw [hdrop, hlk, hlk, hlk, hlk, hdst, hgw, hoif, hpriority, bind_some, word32_bytes]
  have hmetric : (priority.map fun v => order.bytes 4 v.toNat).bind (word32 order) = priority := by
    cases priority with
    | none => rfl
    | some v => exact word32_bytes order v
  rw [hmetric]
  rfl

/-! ## Routes -/

def Route.OneFamily (route : Route) : Prop :=
  ∀ d ∈ route.destination, ∀ gw ∈ route.gateway, Family.of d.1 = Family.of gw

instance (route : Route) : Decidable route.OneFamily :=
  inferInstanceAs (Decidable (∀ d ∈ route.destination, ∀ gw ∈ route.gateway, _))

theorem Route.fits_msg (route : Route) : route.msg.Fits := by
  have hle : ∀ ip, (addrBytes ip).length ≤ 65531 :=
    fun ip => (length_addrBytes_le ip).trans (by decide)
  refine ⟨fun b hb => ?_, fun b hb => ?_⟩
  · obtain ⟨d, -, rfl⟩ := map_eq_some_iff.mp hb
    exact hle d.1
  · obtain ⟨gw, -, rfl⟩ := map_eq_some_iff.mp hb
    exact hle gw

theorem route_msg {route : Route} (h : route.OneFamily) (order : ByteOrder) :
    (parseRoute order (route.msg.bytes order)).bind RouteInfo.route =
      some { route with protocol := .kernel } := by
  have htab : ¬route.msg.table ≠ rtTableMain := fun h => h rfl
  rw [parseRoute_bytes route.fits_msg, bind_some, RouteInfo.route, if_neg htab]
  obtain ⟨destination, gateway, oifIndex, metric, protocol⟩ := route
  have hoif : oifIndex.toUInt32.toInt32 = oifIndex := by simp
  have hdestination : ((destination.map fun d => addrBytes d.1).bind
      (bytesToIp (familyOf ⟨destination, gateway, oifIndex, metric, protocol⟩).raw)).map
        (fun ip => (ip, (destination.map (·.2)).getD 0)) = destination := by
    cases destination with
    | none => rfl
    | some d =>
      simp only [map_some, bind_some, familyOf, bytesToIp_addrBytes, getD_some]
  have hgw : (gateway.map addrBytes).bind
      (bytesToIp (familyOf ⟨destination, gateway, oifIndex, metric, protocol⟩).raw) = gateway := by
    cases gateway with
    | none => rfl
    | some gw =>
      have hfam : familyOf ⟨destination, some gw, oifIndex, metric, protocol⟩ = .of gw := by
        cases destination with
        | none => rfl
        | some d => exact h d rfl gw rfl
      rw [map_some, bind_some, hfam, bytesToIp_addrBytes]
  simp only [Route.msg, hdestination, hgw, hoif, getD_some]

/-- **Routes read back.** A route with addresses of one family comes back from the message it was
added with, and the message that deletes what came back is the one that added it, exactly when it
has the protocol of the kernel. -/
theorem route_readBack_iff (order : ByteOrder) (route : Route) (h : route.OneFamily) :
    ((parseRoute order (route.msg.bytes order)).bind RouteInfo.route = some route ∧
      ∀ existing, (parseRoute order (route.msg.bytes order)).bind RouteInfo.route = some existing →
        existing.msg = route.msg) ↔ route.protocol = .kernel := by
  rw [route_msg h]
  constructor
  · rintro ⟨hroute, -⟩
    exact (congrArg Route.protocol (Option.some.inj hroute)).symm
  · intro hkernel
    have hself : { route with protocol := .kernel } = route := by rw [← hkernel]
    rw [hself]
    refine ⟨rfl, fun existing hexisting => ?_⟩
    rw [Option.some.inj hexisting]

def Route.connected : Route :=
  ⟨some (.v4 (.new 192 168 1 0), 24), none, 2, none, .kernel⟩

theorem route_readBack_connected :
    (parseRoute .little (Route.connected.msg.bytes .little)).bind RouteInfo.route =
      some .connected :=
  ((route_readBack_iff .little .connected (by decide)).mpr rfl).1

def Route.leased : Route := ⟨none, some (.v4 (.new 192 168 1 1)), 2, some 100, .dhcp⟩

/-- It comes back as the kernel's, and is deleted under another protocol than it was added with. -/
theorem route_readBack_leased :
    (parseRoute .little (Route.leased.msg.bytes .little)).bind RouteInfo.route =
        some { Route.leased with protocol := .kernel } ∧
      (({ Route.leased with protocol := .kernel } : Route).msg.protocol,
        Route.leased.msg.protocol) = (2, 16) := by
  decide +kernel

end MitosNetwork
