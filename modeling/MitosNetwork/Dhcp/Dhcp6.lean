import MitosNetwork.Common.Utf8
import MitosNetwork.Dhcp.Lease
import MitosNetwork.Sharing.DhcpServer

/-!
# The DHCPv6 client

`src/dhcp/dhcp6.rs`: the option codec, the messages of the client and its exchanges. The socket is
the list of outcomes that its receives have in turn, with buffers of 1500 bytes; the clock, the
transaction ids and the outcome of each send are parameters of an exchange.

Each phase of an exchange receives once, and whatever it reads decides: `statefulLease_eq_ok_iff`
says that a lease comes from the first two datagrams of the socket or not at all.
-/

namespace MitosNetwork

namespace Dhcp6

open Dhcp4 (Mac macBytes)
open DhcpServer (Received)

def msgSolicit : UInt8 := 1
def msgAdvertise : UInt8 := 2
def msgRequest : UInt8 := 3
def msgRenew : UInt8 := 5
def msgRebind : UInt8 := 6
def msgReply : UInt8 := 7

def optClientid : UInt16 := 1
def optServerid : UInt16 := 2
def optIaNa : UInt16 := 3
def optIaAddr : UInt16 := 5
def optOro : UInt16 := 6
def optElapsedTime : UInt16 := 8
def optStatusCode : UInt16 := 13
def optRapidCommit : UInt16 := 14
def optDnsServers : UInt16 := 23
def optDomainList : UInt16 := 24

/-! ## Options -/

abbrev DhcpOption := UInt16 × List UInt8

/-- `duid_ll`. -/
def duidLl (mac : Mac) : List UInt8 := [0x00, 0x03, 0x00, 0x01] ++ macBytes mac

/-- The bytes of `push_option`; the length is `data.len() as u16`. -/
def optionBytes (code : UInt16) (data : List UInt8) : List UInt8 :=
  Wire.beBytes 2 code.toNat ++ Wire.beBytes 2 data.length ++ data

/-- The loop of `parse_options` on the unread bytes. Every turn takes at least four of them. -/
def parseOptionsUpTo : ℕ → List UInt8 → List DhcpOption
  | 0, _ => []
  | n + 1, buf =>
    let len := Wire.beNat (buf.extract 2 4)
    if buf.length < 4 then []
    else if buf.length < 4 + len then []
    else
      (UInt16.ofNat (Wire.beNat (buf.take 2)), buf.extract 4 (4 + len)) ::
        parseOptionsUpTo n (buf.drop (4 + len))

/-- `parse_options`. -/
def parseOptions (buf : List UInt8) : List DhcpOption := parseOptionsUpTo buf.length buf

def findOption (code : UInt16) (options : List DhcpOption) : Option (List UInt8) :=
  (options.find? fun o => o.1 == code).map (·.2)

/-- The labels of one name, up to its terminating zero, and the bytes from there on. A label that
runs over the end stops the name behind its length byte. -/
def labelsUpTo : ℕ → List UInt8 → List String × List UInt8
  | 0, data => ([], data)
  | _ + 1, [] => ([], [])
  | n + 1, len :: rest =>
    if len = 0 then ([], len :: rest)
    else if rest.length < len.toNat then ([], rest)
    else
      let more := labelsUpTo n (rest.drop len.toNat)
      (Utf8.lossy (rest.take len.toNat) :: more.1, more.2)

/-- The names of a domain list. The byte behind a name is skipped, whatever it is. -/
def domainsUpTo : ℕ → List UInt8 → List String
  | 0, _ => []
  | _ + 1, [] => []
  | n + 1, data =>
    let name := labelsUpTo data.length data
    (if name.1.isEmpty then [] else [".".intercalate name.1]) ++ domainsUpTo n (name.2.drop 1)

def domainsOf (data : List UInt8) : List String := domainsUpTo data.length data

/-- `parse_dns_and_domain`. -/
def parseDnsAndDomain (options : List DhcpOption) : List Ipv6Addr × List String :=
  (options.flatMap fun o =>
      if o.1 = optDnsServers then (Wire.chunksExact 16 o.2).map Ipv6Addr.ofOctets else [],
    options.flatMap fun o => if o.1 = optDomainList then domainsOf o.2 else [])

/-- `IaNa`: the fixed part of the option and what its suboptions said. -/
structure IaNa where
  iaid : UInt32
  t1 : UInt32
  t2 : UInt32
  address : Option Ipv6Addr
  preferredLifetime : UInt32
  validLifetime : UInt32
  status : Option (UInt16 × String)
deriving DecidableEq

/-- The four bytes at an offset, as `u32::from_be_bytes` reads them. -/
def u32At (data : List UInt8) (i : ℕ) : UInt32 :=
  UInt32.ofNat (Wire.beNat (data.extract i (i + 4)))

/-- One suboption of an IA_NA; a later one of a kind replaces an earlier one. -/
def IaNa.withSuboption (ia : IaNa) (o : DhcpOption) : IaNa :=
  if o.1 = optIaAddr ∧ 24 ≤ o.2.length then
    { ia with
      address := some (.ofOctets (o.2.take 16))
      preferredLifetime := u32At o.2 16
      validLifetime := u32At o.2 20 }
  else if o.1 = optStatusCode ∧ 2 ≤ o.2.length then
    { ia with
      status := some (UInt16.ofNat (Wire.beNat (o.2.take 2)), Utf8.lossy (o.2.drop 2)) }
  else ia

/-- `parse_ia_na`. -/
def parseIaNa (data : List UInt8) : Option IaNa :=
  if data.length < 12 then none
  else
    some ((parseOptions (data.drop 12)).foldl IaNa.withSuboption
      ⟨u32At data 0, u32At data 4, u32At data 8, none, 0, 0, none⟩)

/-! ## Messages -/

/-- A transaction id, `[u8; 3]`. -/
abbrev Xid := Vector UInt8 3

def xidBytes (xid : Xid) : List UInt8 := [xid[0], xid[1], xid[2]]

def oro : List UInt8 :=
  Wire.beBytes 2 optDnsServers.toNat ++ Wire.beBytes 2 optDomainList.toNat

/-- `build_solicit`: the server decides T1 and T2. -/
def buildSolicit (xid : Xid) (mac : Mac) (iaid : UInt32) (elapsed : UInt16) : List UInt8 :=
  msgSolicit :: xidBytes xid ++ optionBytes optClientid (duidLl mac) ++
    optionBytes optElapsedTime (Wire.beBytes 2 elapsed.toNat) ++ optionBytes optRapidCommit [] ++
    optionBytes optOro oro ++
    optionBytes optIaNa (Wire.beBytes 4 iaid.toNat ++ Wire.beBytes 4 0 ++ Wire.beBytes 4 0)

/-- `build_ia_request`: a Request, Renew, Rebind or Release. -/
def buildIaRequest (msgType : UInt8) (xid : Xid) (mac : Mac) (serverId : Option (List UInt8))
    (iaid : UInt32) (addr : Ipv6Addr) (preferred valid : UInt32) (elapsed : UInt16) : List UInt8 :=
  let iaAddr := addr.octets ++ Wire.beBytes 4 preferred.toNat ++ Wire.beBytes 4 valid.toNat
  let iaNa := Wire.beBytes 4 iaid.toNat ++ Wire.beBytes 4 0 ++ Wire.beBytes 4 0 ++
    optionBytes optIaAddr iaAddr
  msgType :: xidBytes xid ++ optionBytes optClientid (duidLl mac) ++
    (serverId.map (optionBytes optServerid)).getD [] ++
    optionBytes optElapsedTime (Wire.beBytes 2 elapsed.toNat) ++ optionBytes optOro oro ++
    optionBytes optIaNa iaNa

/-! ## Exchanges -/

def timedOut : NetworkError := .io "Resource temporarily unavailable (os error 11)"

/-- The next receive: the bytes that fit into the buffer, and what is left. -/
def recvFrom : List Received → Result (List UInt8 × List Received)
  | [] => .error timedOut
  | .wouldBlock :: _ => .error timedOut
  | .failed message :: _ => .error (.io message)
  | .datagram bytes :: rest => .ok (bytes.take 1500, rest)

/-- The checks of `recv_matching` on what was received: the message type and the options. -/
def matching (want : Xid) (bytes : List UInt8) : Result (UInt8 × List DhcpOption) :=
  if bytes.length < 4 then .error (.dhcp "DHCPv6 response too short")
  else if bytes.extract 1 4 ≠ xidBytes want then
    .error (.dhcp "DHCPv6 response transaction id mismatch")
  else .ok (bytes.getD 0 0, parseOptions (bytes.drop 4))

/-- `require_success`. -/
def requireSuccess (ia : IaNa) : Result Unit :=
  match ia.status with
  | some (code, msg) =>
    if code ≠ 0 then
      .error (.dhcp ("DHCPv6 server declined (status " ++ toString code.toNat ++ "): " ++ msg))
    else .ok ()
  | none => .ok ()

def required {α : Type} (message : String) : Option α → Result α
  | some a => .ok a
  | none => .error (.dhcp message)

/-- `lease_from_reply` at the time `now`. -/
def leaseFromReply (now : UInt64) (ia : IaNa) (serverId : List UInt8) (dnsServers : List Ipv6Addr)
    (domainSearch : List String) : Result Lease6 := do
  requireSuccess ia
  let address ← required "DHCPv6 REPLY carried no address" ia.address
  return {
    address := address
    prefixlen := 128
    iaid := ia.iaid
    serverId := serverId
    dnsServers := dnsServers
    domainSearch := domainSearch
    preferredLifetimeSecs := ia.preferredLifetime
    validLifetimeSecs := ia.validLifetime
    t1Secs := ia.t1
    t2Secs := ia.t2
    obtainedAtUnix := now }

def leaseOfOptions (now : UInt64) (ia : IaNa) (serverId : List UInt8) (options : List DhcpOption) :
    Result Lease6 :=
  let info := parseDnsAndDomain options
  leaseFromReply now ia serverId info.1 info.2

def iaNaOf (message : String) (options : List DhcpOption) : Result IaNa :=
  required message ((findOption optIaNa options).bind parseIaNa)

def unexpectedType (msgType : UInt8) (sent : String) : NetworkError :=
  .dhcp ("unexpected DHCPv6 message type " ++ toString msgType.toNat ++ " in response to " ++ sent)

/-- What a Solicit brings: a lease by rapid commit, or an offer of one server. -/
inductive Answer where
  | committed (lease : Lease6)
  | advertised (serverId : List UInt8) (ia : IaNa) (address : Ipv6Addr)
deriving DecidableEq

def answerToSolicit (now : UInt64) (response : UInt8 × List DhcpOption) : Result Answer := do
  let serverId ←
    required "DHCPv6 response carried no Server ID" (findOption optServerid response.2)
  let ia ← iaNaOf "DHCPv6 response carried no IA_NA" response.2
  if response.1 = msgReply then
    let lease ← leaseOfOptions now ia serverId response.2
    return .committed lease
  else if response.1 ≠ msgAdvertise then throw (unexpectedType response.1 "Solicit")
  else
    requireSuccess ia
    let address ← required "DHCPv6 ADVERTISE carried no address" ia.address
    return .advertised serverId ia address

/-- The response to a Request, Renew or Rebind: a Reply without a Server ID counts as one of the
server that was asked. -/
def answerToRequest (sent : String) (now : UInt64) (serverId : List UInt8)
    (response : UInt8 × List DhcpOption) : Result Lease6 := do
  if response.1 ≠ msgReply then throw (unexpectedType response.1 sent)
  else
    let ia ← iaNaOf "DHCPv6 REPLY carried no IA_NA" response.2
    leaseOfOptions now ia ((findOption optServerid response.2).getD serverId) response.2

/-- What an exchange runs with: the interface, whose index is the IAID, the socket, the transaction
ids and the clock. -/
structure Exchange where
  iface : Result UInt32
  bound : Result Unit
  send : List UInt8 → Result Unit
  mac : Mac
  solicitXid : Xid
  requestXid : Xid
  solicitElapsed : UInt16
  requestElapsed : UInt16
  now : UInt64

variable (x : Exchange)

/-- The first phase of `request_stateful_lease` on the datagram it reads. -/
def Exchange.solicited (bytes : List UInt8) : Result Answer := do
  let response ← matching x.solicitXid bytes
  answerToSolicit x.now response

/-- The second phase on the datagram it reads. -/
def Exchange.requested (serverId bytes : List UInt8) : Result Lease6 := do
  let response ← matching x.requestXid bytes
  answerToRequest "Request" x.now serverId response

/-- The rest of `request_stateful_lease` after the first phase. -/
def Exchange.proceed (iaid : UInt32) (queue : List Received) :
    Answer → Result Lease6
  | .committed lease => return lease
  | .advertised serverId ia address => do
    x.send (buildIaRequest msgRequest x.requestXid x.mac (some serverId) iaid address
      ia.preferredLifetime ia.validLifetime x.requestElapsed)
    let (bytes, _) ← recvFrom queue
    x.requested serverId bytes

/-- `request_stateful_lease`. -/
def requestStatefulLease (queue : List Received) : Result Lease6 := do
  let iaid ← x.iface
  x.bound
  x.send (buildSolicit x.solicitXid x.mac iaid x.solicitElapsed)
  let (bytes, queue) ← recvFrom queue
  let answer ← x.solicited bytes
  x.proceed iaid queue answer

/-- `renew_or_rebind`. -/
def renewOrRebind (msgType : UInt8) (x : Exchange) (lease : Lease6) (includeServerId : Bool)
    (queue : List Received) : Result Lease6 := do
  let _ ← x.iface
  x.bound
  x.send (buildIaRequest msgType x.requestXid x.mac
    (if includeServerId then some lease.serverId else none) lease.iaid lease.address
    lease.preferredLifetimeSecs lease.validLifetimeSecs x.requestElapsed)
  let (bytes, _) ← recvFrom queue
  let response ← matching x.requestXid bytes
  answerToRequest "Renew/Rebind" x.now lease.serverId response

/-- `renew`. -/
def renew (lease : Lease6) (queue : List Received) : Result Lease6 :=
  renewOrRebind msgRenew x lease true queue

/-- `rebind`. -/
def rebind (lease : Lease6) (queue : List Received) : Result Lease6 :=
  renewOrRebind msgRebind x lease false queue

/-! ## One datagram per phase -/

/-- The interface is there, the socket is bound and every message can be sent. -/
structure Exchange.Open (x : Exchange) : Prop where
  iface : ∃ iaid, x.iface = .ok iaid
  bound : x.bound = .ok ()
  send : ∀ bytes, x.send bytes = .ok ()

section Stateful

variable {x}

theorem requestStatefulLease_eq (hx : x.Open) {iaid : UInt32} (hiface : x.iface = .ok iaid)
    (queue : List Received) :
    requestStatefulLease x queue =
      recvFrom queue >>= fun received => x.solicited received.1 >>= x.proceed iaid received.2 := by
  unfold requestStatefulLease
  rw [hiface, hx.bound]
  simp only [hx.send]
  rfl

theorem proceed_advertised (hx : x.Open) (iaid : UInt32) (rest : List Received)
    (serverId : List UInt8) (ia : IaNa) (address : Ipv6Addr) :
    x.proceed iaid rest (.advertised serverId ia address) =
      recvFrom rest >>= fun received => x.requested serverId received.1 := by
  simp only [Exchange.proceed, hx.send]
  rfl

theorem recvFrom_eq_ok_iff {queue rest : List Received} {bytes : List UInt8} :
    recvFrom queue = .ok (bytes, rest) ↔
      ∃ datagram, queue = .datagram datagram :: rest ∧ datagram.take 1500 = bytes := by
  cases queue with
  | nil => simp [recvFrom]
  | cons received tail => cases received <;> simp [recvFrom, and_comm]

theorem matching_of_requested {serverId bytes : List UInt8} {lease : Lease6}
    (h : x.requested serverId bytes = .ok lease) :
    ∃ options, matching x.requestXid bytes = .ok (msgReply, options) := by
  obtain ⟨response, hmat, h⟩ := of_bind_eq_ok h
  unfold answerToRequest at h
  split at h
  · cases h
  · rename_i htype
    exact ⟨response.2, by rw [hmat, ← not_not.mp htype]⟩

/-- **One datagram per phase.** On a working socket the exchange returns a lease exactly if the
first datagram is a Reply to the Solicit with that lease, or the first is an Advertise and the
second a Reply to the Request that brings the lease. A datagram of anybody else before the
Advertise, or between the Advertise and the Reply, ends the exchange with an error. -/
theorem statefulLease_eq_ok_iff (x : Exchange) (hx : x.Open) (queue : List Received)
    (lease : Lease6) :
    requestStatefulLease x queue = .ok lease ↔
      ∃ first rest, queue = .datagram first :: rest ∧
        (x.solicited (first.take 1500) = .ok (.committed lease) ∨
          ∃ serverId ia address second rest',
            x.solicited (first.take 1500) = .ok (.advertised serverId ia address) ∧
            rest = .datagram second :: rest' ∧
            (∃ options, matching x.requestXid (second.take 1500) = .ok (msgReply, options)) ∧
            x.requested serverId (second.take 1500) = .ok lease) := by
  obtain ⟨iaid, hiface⟩ := hx.iface
  rw [requestStatefulLease_eq hx hiface]
  constructor
  · intro h
    obtain ⟨received, hrecv, hphases⟩ := of_bind_eq_ok h
    obtain ⟨first, hqueue, hbytes⟩ := recvFrom_eq_ok_iff.mp hrecv
    obtain ⟨answer, hanswer, hproceed⟩ := of_bind_eq_ok hphases
    refine ⟨first, received.2, hqueue, ?_⟩
    rw [hbytes]
    cases answer with
    | committed lease' =>
      obtain rfl := Except.ok.inj hproceed
      exact .inl hanswer
    | advertised serverId ia address =>
      rw [proceed_advertised hx] at hproceed
      obtain ⟨received', hrecv', hlease⟩ := of_bind_eq_ok hproceed
      obtain ⟨second, hrest, hbytes'⟩ := recvFrom_eq_ok_iff.mp hrecv'
      rw [← hbytes'] at hlease
      exact .inr ⟨serverId, ia, address, second, received'.2, hanswer, hrest,
        matching_of_requested hlease, hlease⟩
  · rintro ⟨first, rest, rfl, hfirst | ⟨serverId, ia, address, second, rest', hfirst, rfl, -, h⟩⟩
    · show (x.solicited (first.take 1500) >>= _) = _
      rw [hfirst]
      rfl
    · show (x.solicited (first.take 1500) >>= _) = _
      rw [hfirst]
      exact (proceed_advertised hx iaid _ serverId ia address).trans h

end Stateful

/-! ### A link with two servers -/

def link : Exchange where
  iface := .ok 3
  bound := .ok ()
  send := fun _ => .ok ()
  mac := #v[2, 0, 0, 0, 0, 6]
  solicitXid := #v[1, 1, 1]
  requestXid := #v[2, 2, 2]
  solicitElapsed := 0
  requestElapsed := 0
  now := 0

theorem open_link : link.Open := ⟨⟨3, rfl⟩, rfl, fun _ => rfl⟩

/-- A message of a server with the identifier `[id]` that carries an IA_NA with one address. -/
def serverMessage (msgType : UInt8) (xid : Xid) (id : UInt8) (addr : Ipv6Addr) : List UInt8 :=
  msgType :: xidBytes xid ++ optionBytes optServerid [id] ++
    optionBytes optIaNa (Wire.beBytes 4 3 ++ Wire.beBytes 4 100 ++ Wire.beBytes 4 160 ++
      optionBytes optIaAddr (addr.octets ++ Wire.beBytes 4 300 ++ Wire.beBytes 4 600))

/-- `2001:db8::n`. -/
def example6 (n : UInt16) : Ipv6Addr := ⟨#v[0x2001, 0xdb8, 0, 0, 0, 0, 0, n]⟩

def firstLease : Lease6 where
  address := example6 1
  prefixlen := 128
  iaid := 3
  serverId := [1]
  dnsServers := []
  domainSearch := []
  preferredLifetimeSecs := 300
  validLifetimeSecs := 600
  t1Secs := 100
  t2Secs := 160
  obtainedAtUnix := 0

theorem statefulLease_alone :
    link.Open ∧ requestStatefulLease link
      [.datagram (serverMessage msgAdvertise link.solicitXid 1 (example6 1)),
        .datagram (serverMessage msgReply link.requestXid 1 (example6 1))] = .ok firstLease := by
  refine ⟨open_link, (statefulLease_eq_ok_iff link open_link _ firstLease).mpr ?_⟩
  refine ⟨_, _, rfl, .inr ⟨[1], ⟨3, 100, 160, some (example6 1), 300, 600, none⟩, example6 1, _, _,
    ?_, rfl, ⟨_, rfl⟩, ?_⟩⟩
  · decide +kernel
  · decide +kernel

/-- The Advertise of a second server is queued before the Reply of the first one, which is valid:
the exchange ends with an error. -/
theorem statefulLease_crowded :
    link.solicited (serverMessage msgAdvertise link.solicitXid 1 (example6 1)) =
      .ok (.advertised [1] ⟨3, 100, 160, some (example6 1), 300, 600, none⟩ (example6 1)) ∧
    link.requested [1] (serverMessage msgReply link.requestXid 1 (example6 1)) = .ok firstLease ∧
    requestStatefulLease link
      [.datagram (serverMessage msgAdvertise link.solicitXid 1 (example6 1)),
        .datagram (serverMessage msgAdvertise link.solicitXid 2 (example6 2)),
        .datagram (serverMessage msgReply link.requestXid 1 (example6 1))] =
      .error (.dhcp "DHCPv6 response transaction id mismatch") := by
  decide +kernel

end Dhcp6

end MitosNetwork
