import MitosNetwork.Dhcp.Dhcp6

/-!
# Whose DHCPv6 lease it is

A Reply of `src/dhcp/dhcp6.rs` is matched by its transaction id and its type. The lease takes the
IAID of the first IA_NA option in it, and the Client ID option is not looked at; `own_ia_iff` says
for each of the three exchanges when the lease is one for the client's own IA.
-/

namespace MitosNetwork.Dhcp6

open DhcpServer (Received)

variable {ia : IaNa} {options : List DhcpOption} {serverId : List UInt8} {now : UInt64}
  {sent : String} {response : UInt8 × List DhcpOption}

def iaidOf (options : List DhcpOption) : Option UInt32 :=
  ((findOption optIaNa options).bind parseIaNa).map IaNa.iaid

def clientIdOf (options : List DhcpOption) : Option (List UInt8) := findOption optClientid options

/-- The options of a response, if it is a Reply of the transaction. -/
def replyIn (xid : Xid) (datagram : List UInt8) : Option (List DhcpOption) :=
  match matching xid (datagram.take 1500) with
  | .ok (msgType, options) => if msgType = msgReply then some options else none
  | .error _ => none

def Exchange.reply (x : Exchange) : List Received → Option (List DhcpOption)
  | .datagram bytes :: _ => replyIn x.requestXid bytes
  | _ => none

/-- The Reply that `request_stateful_lease` reads: to the Solicit, or else to the Request. -/
def Exchange.statefulReply (x : Exchange) : List Received → Option (List DhcpOption)
  | .datagram first :: rest => (replyIn x.solicitXid first).or (x.reply rest)
  | _ => none

/-- The lease is for this IA, and the Reply it came in is for the client with this address. -/
def IsOwn (mac : Dhcp4.Mac) (iaid : UInt32) (options : List DhcpOption) (lease : Lease6) : Prop :=
  lease.iaid = iaid ∧ clientIdOf options = some (duidLl mac)

/-! ## Where the IAID of a lease comes from -/

theorem iaid_of_leaseOfOptions {lease : Lease6}
    (h : leaseOfOptions now ia serverId options = .ok lease) : lease.iaid = ia.iaid := by
  obtain ⟨-, -, h⟩ := of_bind_eq_ok h
  obtain ⟨address, -, h⟩ := of_bind_eq_ok h
  exact (congrArg Lease6.iaid (Except.ok.inj h)).symm

theorem iaidOf_of_iaNaOf {message : String} (h : iaNaOf message options = .ok ia) :
    iaidOf options = some ia.iaid := by
  unfold iaNaOf at h
  unfold iaidOf
  cases hia : (findOption optIaNa options).bind parseIaNa with
  | none =>
    rw [hia] at h
    cases h
  | some ia' =>
    rw [hia] at h
    cases h
    rfl

theorem iaidOf_of_answerToRequest {lease : Lease6}
    (h : answerToRequest sent now serverId response = .ok lease) :
    response.1 = msgReply ∧ iaidOf response.2 = some lease.iaid := by
  unfold answerToRequest at h
  split at h
  · cases h
  · rename_i htype
    obtain ⟨ia, hia, hle⟩ := of_bind_eq_ok h
    refine ⟨not_not.mp htype, ?_⟩
    rw [iaid_of_leaseOfOptions hle]
    exact iaidOf_of_iaNaOf hia

theorem of_answerToSolicit {answer : Answer} (h : answerToSolicit now response = .ok answer) :
    (∃ lease, answer = .committed lease ∧ response.1 = msgReply ∧
        iaidOf response.2 = some lease.iaid) ∨
      (∃ serverId ia address, answer = .advertised serverId ia address) ∧
        response.1 ≠ msgReply := by
  obtain ⟨serverId, -, h⟩ := of_bind_eq_ok h
  obtain ⟨ia, hia, h⟩ := of_bind_eq_ok h
  split at h
  · rename_i htype
    obtain ⟨lease, hle, h⟩ := of_bind_eq_ok h
    refine .inl ⟨lease, (Except.ok.inj h).symm, htype, ?_⟩
    rw [iaid_of_leaseOfOptions hle]
    exact iaidOf_of_iaNaOf hia
  · rename_i htype
    split at h
    · cases h
    · obtain ⟨-, -, h⟩ := of_bind_eq_ok h
      obtain ⟨address, -, h⟩ := of_bind_eq_ok h
      exact .inr ⟨⟨serverId, ia, address, (Except.ok.inj h).symm⟩, htype⟩

theorem replyIn_of_matching {xid : Xid} {datagram : List UInt8}
    (h : matching xid (datagram.take 1500) = .ok response) :
    replyIn xid datagram = if response.1 = msgReply then some response.2 else none := by
  unfold replyIn
  rw [h]

section

variable {x : Exchange} {queue : List Received} {lease : Lease6}

theorem reply_of_answer {received : List UInt8 × List Received}
    (hrecv : recvFrom queue = .ok received)
    (h : (matching x.requestXid received.1 >>= answerToRequest sent x.now serverId) = .ok lease) :
    ∃ options, x.reply queue = some options ∧ iaidOf options = some lease.iaid := by
  obtain ⟨datagram, rfl, hby⟩ := recvFrom_eq_ok_iff.mp hrecv
  obtain ⟨response, hmat, hans⟩ := of_bind_eq_ok h
  obtain ⟨htype, hiaid⟩ := iaidOf_of_answerToRequest hans
  refine ⟨response.2, ?_, hiaid⟩
  rw [← hby] at hmat
  rw [Exchange.reply, replyIn_of_matching hmat, if_pos htype]

theorem iaidOf_statefulReply (h : requestStatefulLease x queue = .ok lease) :
    ∃ options, x.statefulReply queue = some options ∧ iaidOf options = some lease.iaid := by
  obtain ⟨iaid, -, h⟩ := of_bind_eq_ok h
  obtain ⟨-, -, h⟩ := of_bind_eq_ok h
  obtain ⟨-, -, h⟩ := of_bind_eq_ok h
  obtain ⟨⟨bytes, rest⟩, hrecv, h⟩ := of_bind_eq_ok h
  obtain ⟨answer, hsolicited, hpro⟩ := of_bind_eq_ok h
  obtain ⟨first, rfl, rfl⟩ := recvFrom_eq_ok_iff.mp hrecv
  obtain ⟨response, hmat, hans⟩ := of_bind_eq_ok hsolicited
  rw [Exchange.statefulReply, replyIn_of_matching hmat]
  rcases of_answerToSolicit hans with
    ⟨lease', rfl, htype, hiaid⟩ | ⟨⟨serverId, ia, address, rfl⟩, htype⟩
  · obtain rfl := Except.ok.inj hpro
    rw [if_pos htype]
    exact ⟨response.2, rfl, hiaid⟩
  · obtain ⟨-, -, hpro⟩ := of_bind_eq_ok hpro
    obtain ⟨received, hrecv', hrequested⟩ := of_bind_eq_ok hpro
    rw [if_neg htype]
    exact reply_of_answer hrecv' hrequested

theorem iaidOf_reply {msgType : UInt8} {old : Lease6} {includeServerId : Bool}
    (h : renewOrRebind msgType x old includeServerId queue = .ok lease) :
    ∃ options, x.reply queue = some options ∧ iaidOf options = some lease.iaid := by
  obtain ⟨-, -, h⟩ := of_bind_eq_ok h
  obtain ⟨-, -, h⟩ := of_bind_eq_ok h
  obtain ⟨-, -, h⟩ := of_bind_eq_ok h
  obtain ⟨received, hrecv, hans⟩ := of_bind_eq_ok h
  exact reply_of_answer hrecv hans

theorem isOwn_iff {mac : Dhcp4.Mac} {iaid : UInt32} (h : iaidOf options = some lease.iaid) :
    IsOwn mac iaid options lease ↔
      iaidOf options = some iaid ∧ clientIdOf options = some (duidLl mac) := by
  rw [IsOwn, h, Option.some_inj]

end

/-- **Whose lease it is.** A lease of a stateful exchange is one for the interface's own IA and out
of a Reply to this client exactly if the first IA_NA of that Reply has the interface's IAID and its
Client ID is the client's DUID; likewise for a Renew and a Rebind with the IAID of the old lease. -/
theorem own_ia_iff (x : Exchange) (queue : List Received) (lease : Lease6) :
    (∀ iaid, x.iface = .ok iaid → requestStatefulLease x queue = .ok lease →
      ∃ options, x.statefulReply queue = some options ∧
        (IsOwn x.mac iaid options lease ↔
          iaidOf options = some iaid ∧ clientIdOf options = some (duidLl x.mac))) ∧
    (∀ old, renew x old queue = .ok lease →
      ∃ options, x.reply queue = some options ∧
        (IsOwn x.mac old.iaid options lease ↔
          iaidOf options = some old.iaid ∧ clientIdOf options = some (duidLl x.mac))) ∧
    (∀ old, rebind x old queue = .ok lease →
      ∃ options, x.reply queue = some options ∧
        (IsOwn x.mac old.iaid options lease ↔
          iaidOf options = some old.iaid ∧ clientIdOf options = some (duidLl x.mac))) := by
  refine ⟨fun iaid _ h => ?_, fun old h => ?_, fun old h => ?_⟩
  · obtain ⟨options, hreply, hiaid⟩ := iaidOf_statefulReply h
    exact ⟨options, hreply, isOwn_iff hiaid⟩
  · obtain ⟨options, hreply, hiaid⟩ := iaidOf_reply h
    exact ⟨options, hreply, isOwn_iff hiaid⟩
  · obtain ⟨options, hreply, hiaid⟩ := iaidOf_reply h
    exact ⟨options, hreply, isOwn_iff hiaid⟩

/-! ## A Reply to somebody else -/

/-- A Reply for the IA `iaid` of the client with this address. -/
def replyTo (mac : Dhcp4.Mac) (iaid : UInt32) (xid : Xid) : List UInt8 :=
  msgReply :: xidBytes xid ++ optionBytes optClientid (duidLl mac) ++ optionBytes optServerid [1] ++
    optionBytes optIaNa (Wire.beBytes 4 iaid.toNat ++ Wire.beBytes 4 100 ++ Wire.beBytes 4 160 ++
      optionBytes optIaAddr ((example6 1).octets ++ Wire.beBytes 4 300 ++ Wire.beBytes 4 600))

theorem own_ia_iff_link :
    requestStatefulLease link [.datagram (replyTo link.mac 3 link.solicitXid)] = .ok firstLease ∧
    renew link firstLease [.datagram (replyTo link.mac 3 link.requestXid)] = .ok firstLease ∧
    rebind link firstLease [.datagram (replyTo link.mac 3 link.requestXid)] = .ok firstLease ∧
    (∃ options, link.statefulReply [.datagram (replyTo link.mac 3 link.solicitXid)] = some options ∧
      IsOwn link.mac 3 options firstLease) ∧
    ∃ options, link.reply [.datagram (replyTo link.mac 3 link.requestXid)] = some options ∧
      IsOwn link.mac firstLease.iaid options firstLease := by
  have hstateful : requestStatefulLease link [.datagram (replyTo link.mac 3 link.solicitXid)] =
      .ok firstLease := by decide +kernel
  have hrenew : renew link firstLease [.datagram (replyTo link.mac 3 link.requestXid)] =
      .ok firstLease := by decide +kernel
  have hrebind : rebind link firstLease [.datagram (replyTo link.mac 3 link.requestXid)] =
      .ok firstLease := by decide +kernel
  refine ⟨hstateful, hrenew, hrebind, ?_, ?_⟩
  · obtain ⟨options, hreply, hown⟩ := (own_ia_iff link _ firstLease).1 3 rfl hstateful
    refine ⟨options, hreply, hown.mpr ?_⟩
    have hoptions : (link.statefulReply [.datagram (replyTo link.mac 3 link.solicitXid)]).map
        (fun o => (iaidOf o, clientIdOf o)) = some (some 3, some (duidLl link.mac)) := by
      decide +kernel
    rw [hreply] at hoptions
    exact Prod.mk.inj (Option.some.inj hoptions)
  · obtain ⟨options, hreply, hown⟩ := (own_ia_iff link _ firstLease).2.1 firstLease hrenew
    refine ⟨options, hreply, hown.mpr ?_⟩
    have hoptions : (link.reply [.datagram (replyTo link.mac 3 link.requestXid)]).map
        (fun o => (iaidOf o, clientIdOf o)) = some (some 3, some (duidLl link.mac)) := by
      decide +kernel
    rw [hreply] at hoptions
    exact Prod.mk.inj (Option.some.inj hoptions)

/-- Each of the exchanges takes a Reply for the IA 9 of another client. -/
theorem not_isOwn_of_strangeReply :
    link.iface = .ok 3 ∧ firstLease.iaid = 3 ∧
    requestStatefulLease link
        [.datagram (replyTo #v[2, 0, 0, 0, 0, 7] 9 link.solicitXid)] =
      .ok { firstLease with iaid := 9 } ∧
    renew link firstLease [.datagram (replyTo #v[2, 0, 0, 0, 0, 7] 9 link.requestXid)] =
      .ok { firstLease with iaid := 9 } ∧
    rebind link firstLease [.datagram (replyTo #v[2, 0, 0, 0, 0, 7] 9 link.requestXid)] =
      .ok { firstLease with iaid := 9 } ∧
    (link.statefulReply
        [.datagram (replyTo #v[2, 0, 0, 0, 0, 7] 9 link.solicitXid)]).map clientIdOf =
      some (some (duidLl #v[2, 0, 0, 0, 0, 7])) ∧
    ∀ options, ¬IsOwn link.mac 3 options { firstLease with iaid := 9 } := by
  refine ⟨rfl, rfl, by decide +kernel, by decide +kernel, by decide +kernel, by decide +kernel, ?_⟩
  rintro options ⟨hiaid, -⟩
  revert hiaid
  decide

end MitosNetwork.Dhcp6
