import MitosNetwork.Dhcp.Segment
import Mathlib.Data.List.Induction
import Mathlib.Data.List.ReduceOption

/-!
# Whole runs of the DHCPv4 client

`acquire` of `src/dhcp/client.rs` over any sequence of turns of its two loops. A lease is put
together from two packets: the first OFFER for the client's transaction (`Offers`) and the first ACK
or NAK for it after that (`Decides`); `exists_exchange` splits what was read at these two.

Only the transaction id and the message type of a packet are looked at.
`lease_from_named_server_iff` says when the lease still is the one that the server it names has
offered and confirmed, and `acquire_ignores_junk` that no other packet makes a difference.
-/

namespace MitosNetwork.DhcpClient

open Dhcp4 DhcpServer Machine List

variable {p ack : Packet} {phase : Phase} {lease : Lease} {packets : List Packet}

/-! ## Runs -/

/-- What a turn of a loop meets: whether the deadline has passed, the outcomes of `send_to` and
`recv_from`, and the time of day. -/
structure Turn where
  expired : Bool
  sent : Except String Unit
  received : Received
  now : UInt64

def packetOf : Received → Option Packet
  | .datagram bytes => parse (bytes.take 1500)
  | _ => none

variable (c : Client)

def turn (phase : Phase) (t : Turn) : Phase × Option Packet :=
  match (poll c t.expired t.sent phase).1 with
  | .finished result => (.finished result, none)
  | phase => (receive c t.now t.received phase, packetOf t.received)

/-- Where `acquire` stands after the turns. -/
def acquire (turns : List Turn) : Phase := finalState (turn c) .discovering turns

/-- The packets that `acquire` has read in the turns. -/
def delivered (turns : List Turn) : List Packet :=
  (outputs (turn c) .discovering turns).reduceOption

def Offers (p : Packet) : Prop := p.xid = c.xid ∧ p.messageType = some msgOffer

def Decides (p : Packet) : Prop :=
  p.xid = c.xid ∧ (p.messageType = some msgAck ∨ p.messageType = some msgNak)

instance (c : Client) (p : Packet) : Decidable (Offers c p) :=
  inferInstanceAs (Decidable (_ ∧ _))

instance (c : Client) (p : Packet) : Decidable (Decides c p) :=
  inferInstanceAs (Decidable (_ ∧ _))

def Awaits : Phase → Packet → Prop
  | .discovering => Offers c
  | .requesting _ _ => Decides c
  | .finished _ => fun _ => False

/-! ## One turn -/

variable {t : Turn} {turns : List Turn}

section

variable {c : Client}

theorem handlePacket_of_not_awaits (now : UInt64) (phase : Phase) (h : ¬Awaits c phase p) :
    handlePacket c now p phase = phase := by
  cases phase with
  | discovering => exact if_neg h
  | requesting offer serverId =>
    simp only [handlePacket]
    by_cases hxid : p.xid = c.xid
    · have hack : p.messageType ≠ some msgAck := fun hack => h ⟨hxid, .inl hack⟩
      have hnak : p.messageType ≠ some msgNak := fun hnak => h ⟨hxid, .inr hnak⟩
      rw [if_neg (not_not_intro hxid), if_neg hack, if_neg hnak]
    · rw [if_pos hxid]
  | finished result => rfl

theorem handlePacket_of_offers (now : UInt64) (h : Offers c p) :
    handlePacket c now p .discovering = offered p :=
  if_pos h

theorem handlePacket_of_decides (now : UInt64) (h : Decides c p) (offer : Packet)
    (serverId : Ipv4Addr) :
    p.messageType = some msgAck ∧ handlePacket c now p (.requesting offer serverId) =
        .finished (leaseFromAck p serverId now) ∨
      p.messageType = some msgNak ∧ handlePacket c now p (.requesting offer serverId) =
        .finished (.error (nakError serverId)) := by
  simp only [handlePacket]
  rw [if_neg (not_not_intro h.1)]
  rcases h.2 with hack | hnak
  · exact .inl ⟨hack, if_pos hack⟩
  · refine .inr ⟨hnak, ?_⟩
    rw [if_neg (by rw [hnak]; decide), if_pos hnak]

/-- A turn fails, reads nothing, or hands one packet to its loop. -/
theorem turn_cases (c : Client) (phase : Phase) (t : Turn) :
    (∃ e o, turn c phase t = (.finished (.error e), o)) ∨ turn c phase t = (phase, none) ∨
      ∃ p, turn c phase t = (handlePacket c t.now p phase, some p) := by
  obtain ⟨expired, sent, received, now⟩ := t
  cases phase with
  | finished result => exact .inr (.inl rfl)
  | discovering | requesting offer serverId =>
    cases expired with
    | true => exact .inl ⟨_, _, rfl⟩
    | false =>
      cases sent with
      | error message => exact .inl ⟨_, _, rfl⟩
      | ok =>
        cases received with
        | failed message => exact .inl ⟨_, _, rfl⟩
        | wouldBlock => exact .inr (.inl rfl)
        | datagram bytes =>
          cases hp : parse (bytes.take 1500) with
          | none => exact .inr (.inl (by simp [turn, poll, receive, packetOf, hp]))
          | some p => exact .inr (.inr ⟨p, by simp [turn, poll, receive, packetOf, hp]⟩)

/-! ## The two packets a lease is made of -/

theorem finished_run (c : Client) (result : Result Lease) (turns : List Turn) :
    finalState (turn c) (.finished result) turns = .finished result ∧
      (outputs (turn c) (.finished result) turns).reduceOption = [] := by
  induction turns with
  | nil => exact ⟨rfl, rfl⟩
  | cons t turns ih => exact ih

theorem exists_awaited (h : finalState (turn c) phase turns = .finished (.ok lease))
    (hopen : ∀ result, phase ≠ .finished result) :
    ∃ first p now rest, (outputs (turn c) phase turns).reduceOption =
        first ++ p :: (outputs (turn c) (handlePacket c now p phase) rest).reduceOption ∧
      (∀ q ∈ first, ¬Awaits c phase q) ∧ Awaits c phase p ∧
      finalState (turn c) (handlePacket c now p phase) rest = .finished (.ok lease) := by
  induction turns with
  | nil => exact absurd h (hopen _)
  | cons t turns ih =>
    rw [finalState_cons] at h
    rw [outputs]
    rcases turn_cases c phase t with ⟨e, o, ht⟩ | ht | ⟨p, ht⟩
    · rw [ht, (finished_run c _ turns).1] at h
      cases h
    · rw [ht] at h ⊢
      exact ih h
    · rw [ht] at h ⊢
      rw [reduceOption_cons_of_some]
      by_cases hp : Awaits c phase p
      · exact ⟨[], p, t.now, turns, rfl, forall_mem_nil _, hp, h⟩
      · rw [handlePacket_of_not_awaits t.now phase hp] at h ⊢
        obtain ⟨first, p', now, rest, hout, hfirst, hrest⟩ := ih h
        exact ⟨p :: first, p', now, rest, by rw [hout, cons_append],
          forall_mem_cons.mpr ⟨hp, hfirst⟩, hrest⟩

theorem exists_ack {offer : Packet} {serverId : Ipv4Addr}
    (h : finalState (turn c) (.requesting offer serverId) turns = .finished (.ok lease)) :
    ∃ between ack now, (outputs (turn c) (.requesting offer serverId) turns).reduceOption =
        between ++ [ack] ∧ (∀ p ∈ between, ¬Decides c p) ∧ ack.xid = c.xid ∧
      ack.messageType = some msgAck ∧ leaseFromAck ack serverId now = .ok lease := by
  obtain ⟨between, ack, now, rest, hout, hbetween, hdecides, hfinal⟩ := exists_awaited h nofun
  rcases handlePacket_of_decides now hdecides offer serverId with ⟨hack, hnext⟩ | ⟨-, hnext⟩
  · rw [hnext, (finished_run c _ rest).1] at hfinal
    rw [hnext, (finished_run c _ rest).2] at hout
    exact ⟨between, ack, now, hout, hbetween, hdecides.1, hack, Phase.finished.inj hfinal⟩
  · rw [hnext, (finished_run c _ rest).1] at hfinal
    cases hfinal

theorem exists_exchange (h : acquire c turns = .finished (.ok lease)) :
    ∃ first offer between ack now, delivered c turns = first ++ offer :: (between ++ [ack]) ∧
      (∀ p ∈ first, ¬Offers c p) ∧ Offers c offer ∧ serverIdOf offer = some lease.serverId ∧
      (∀ p ∈ between, ¬Decides c p) ∧ ack.xid = c.xid ∧ ack.messageType = some msgAck ∧
      leaseFromAck ack lease.serverId now = .ok lease := by
  obtain ⟨first, offer, now, rest, hread, hfirst, hoffer, hfinal⟩ := exists_awaited h nofun
  rw [handlePacket_of_offers now hoffer, offered] at hread hfinal
  cases hserver : serverIdOf offer with
  | none =>
    rw [hserver] at hfinal
    rw [(finished_run c _ rest).1] at hfinal
    cases hfinal
  | some serverId =>
    rw [hserver] at hread hfinal
    obtain ⟨between, ack, now, hout, hbetween, hxid, hack, hlease⟩ := exists_ack hfinal
    have hid : serverId = lease.serverId := congrArg Lease.serverId (Except.ok.inj hlease)
    subst hid
    exact ⟨first, offer, between, ack, now, by rw [delivered, hread, hout], hfirst, hoffer, hserver,
      hbetween, hxid, hack, hlease⟩

end

/-! ## The server that a lease names -/

def Confirms (server : Option Ipv4Addr) (address : Ipv4Addr) (ack : Packet) : Prop :=
  ack.op = opBootreply ∧ ack.messageType = some msgAck ∧ ack.xid = c.xid ∧ ack.chaddr = c.mac ∧
    ack.yiaddr = address ∧ serverIdOf ack = server

def IsOfferOf (server : Option Ipv4Addr) (address : Ipv4Addr) (offer : Packet) : Prop :=
  offer.messageType = some msgOffer ∧ serverIdOf offer = server ∧ offer.yiaddr = address

/-- The server has confirmed the address in one of the packets, and offered it in one before that.
-/
def FromServer (packets : List Packet) (server : Option Ipv4Addr) (address : Ipv4Addr) : Prop :=
  ∃ before ack after, packets = before ++ ack :: after ∧ Confirms c server address ack ∧
    ∃ offer ∈ before, IsOfferOf server address offer

def FromNamedServer (packets : List Packet) (lease : Lease) : Prop :=
  FromServer c packets (some lease.serverId) lease.address

variable {server : Option Ipv4Addr} {address : Ipv4Addr}

theorem fromServer_append_singleton {c : Client} :
    FromServer c (packets ++ [ack]) server address ↔
      (Confirms c server address ack ∧ ∃ offer ∈ packets, IsOfferOf server address offer) ∨
        FromServer c packets server address := by
  constructor
  · rintro ⟨before, ack', after, hsplit, hack, hoffer⟩
    rcases eq_nil_or_concat after with rfl | ⟨after, last, rfl⟩
    · obtain ⟨rfl, hlast⟩ := append_inj' hsplit rfl
      cases hlast
      exact .inl ⟨hack, hoffer⟩
    · rw [concat_eq_append, ← cons_append, ← append_assoc] at hsplit
      obtain ⟨hpackets, -⟩ := append_inj' hsplit rfl
      exact .inr ⟨before, ack', after, hpackets, hack, hoffer⟩
  · rintro (⟨hack, hoffer⟩ | ⟨before, ack', after, rfl, hack, hoffer⟩)
    · exact ⟨packets, ack, [], rfl, hack, hoffer⟩
    · exact ⟨before, ack', after ++ [ack], by rw [append_assoc, cons_append], hack, hoffer⟩

theorem fromServer_append {c : Client} {rest : List Packet}
    (hrest : ∀ p ∈ rest, ¬Confirms c server address p) :
    FromServer c (packets ++ rest) server address ↔ FromServer c packets server address := by
  induction rest using List.reverseRecOn with
  | nil => rw [append_nil]
  | append_singleton rest p ih =>
    obtain ⟨hrest, hp⟩ := forall_mem_append.mp hrest
    rw [← append_assoc, fromServer_append_singleton, ih hrest]
    exact or_iff_right fun h => hp p (mem_singleton_self p) h.1

theorem Confirms.decides {c : Client} (h : Confirms c server address ack) : Decides c ack :=
  ⟨h.2.2.1, .inl h.2.1⟩

theorem Offers.not_decides {c : Client} (h : Offers c p) : ¬Decides c p := by
  rintro ⟨-, htype⟩
  rw [h.2] at htype
  revert htype
  decide

/-- **The server that a lease names.** Take the OFFER and the ACK that a lease is made of. Its
server has offered and confirmed it exactly if the ACK is a reply for the client's hardware address
and names the server of the OFFER, and that server has offered the ACK's address before it; or if
all this was read before the OFFER, when nothing but an OFFER counted. -/
theorem lease_from_named_server_iff (c : Client) (turns : List Turn) (lease : Lease)
    (h : acquire c turns = .finished (.ok lease)) :
    ∃ first offer between ack, delivered c turns = first ++ offer :: (between ++ [ack]) ∧
      (∀ p ∈ first, ¬Offers c p) ∧ Offers c offer ∧ (∀ p ∈ between, ¬Decides c p) ∧
      Decides c ack ∧
      (FromNamedServer c (delivered c turns) lease ↔
        (ack.op = opBootreply ∧ ack.chaddr = c.mac ∧ serverIdOf ack = serverIdOf offer ∧
          ∃ o ∈ first ++ offer :: between, o.messageType = some msgOffer ∧
            serverIdOf o = serverIdOf offer ∧ o.yiaddr = ack.yiaddr) ∨
        FromServer c first (serverIdOf offer) ack.yiaddr) := by
  obtain ⟨first, offer, between, ack, now, hread, hfirst, hoffer, hserver, hbetween, hxid, hack,
    hlease⟩ := exists_exchange h
  have haddress : lease.address = ack.yiaddr := (congrArg Lease.address (Except.ok.inj hlease)).symm
  refine ⟨first, offer, between, ack, hread, hfirst, hoffer, hbetween, ⟨hxid, .inl hack⟩, ?_⟩
  have hearlier : FromServer c (first ++ offer :: between) (serverIdOf offer) ack.yiaddr ↔
      FromServer c first (serverIdOf offer) ack.yiaddr :=
    fromServer_append (forall_mem_cons.mpr
      ⟨fun h => hoffer.not_decides h.decides, fun p hp h => hbetween p hp h.decides⟩)
  rw [FromNamedServer, haddress, ← hserver, hread, ← cons_append, ← append_assoc,
    fromServer_append_singleton, hearlier]
  refine or_congr_left ?_
  simp only [Confirms, IsOfferOf, hack, hxid, true_and]
  tauto

open Segment DhcpGrant

/-- A turn before the deadline that receives the packet. -/
def reads (p : Packet) : Turn := ⟨false, .ok (), .datagram (serialize p), 0⟩

/-- The ACK of the server that made the OFFER `firstOffer`. -/
def firstAck : Packet :=
  { firstOffer with options := grantOptions { edge with poolEnd := .new 10 42 0 9 } msgAck }

/-- The ACK of another server, for an address of its own. -/
def strangeAck : Packet :=
  { firstOffer with
    yiaddr := .new 10 43 0 2
    siaddr := .new 10 43 0 1
    options := grantOptions { edge with serverIp := .new 10 43 0 1 } msgAck }

theorem lease_from_named_server_iff_firstAck :
    ∃ lease, acquire laptop [reads firstOffer, reads firstAck] = .finished (.ok lease) ∧
      ∃ first offer between ack, delivered laptop [reads firstOffer, reads firstAck] =
          first ++ offer :: (between ++ [ack]) ∧
        (∀ p ∈ first, ¬Offers laptop p) ∧ Offers laptop offer ∧
        (∀ p ∈ between, ¬Decides laptop p) ∧ Decides laptop ack ∧
        (FromNamedServer laptop (delivered laptop [reads firstOffer, reads firstAck]) lease ↔
          (ack.op = opBootreply ∧ ack.chaddr = laptop.mac ∧ serverIdOf ack = serverIdOf offer ∧
            ∃ o ∈ first ++ offer :: between, o.messageType = some msgOffer ∧
              serverIdOf o = serverIdOf offer ∧ o.yiaddr = ack.yiaddr) ∨
          FromServer laptop first (serverIdOf offer) ack.yiaddr) := by
  have hrun : acquire laptop [reads firstOffer, reads firstAck] =
      .finished (leaseFromAck firstAck (.new 10 42 0 1) 0) := by decide +kernel
  exact ⟨_, hrun, lease_from_named_server_iff laptop _ _ hrun⟩

/-- The client takes the OFFER of one server and the ACK of another: the lease names the first and
has the address of the second. -/
theorem not_fromNamedServer_strangeAck :
    ∃ lease, acquire laptop [reads firstOffer, reads strangeAck] = .finished (.ok lease) ∧
      lease.serverId = .new 10 42 0 1 ∧ lease.address = .new 10 43 0 2 ∧
      ¬FromNamedServer laptop (delivered laptop [reads firstOffer, reads strangeAck]) lease := by
  have hrun : acquire laptop [reads firstOffer, reads strangeAck] =
      .finished (leaseFromAck strangeAck (.new 10 42 0 1) 0) := by decide +kernel
  have hdelivered : delivered laptop [reads firstOffer, reads strangeAck] =
      [firstOffer, strangeAck] := by decide +kernel
  have hoffer : firstOffer.messageType ≠ some msgAck := by decide
  have hserver : serverIdOf strangeAck ≠ some (.new 10 42 0 1) := by decide
  refine ⟨_, hrun, rfl, rfl, ?_⟩
  rintro ⟨before, ack, after, hsplit, hack, -⟩
  have hmem : ack ∈ [firstOffer, strangeAck] := by
    rw [← hdelivered, hsplit]
    exact mem_append_right _ mem_cons_self
  rcases mem_pair.mp hmem with rfl | rfl
  · exact hoffer hack.2.1
  · exact hserver hack.2.2.2.2.2

/-! ## Packets that make no difference -/

/-- What a turn has learned, apart from the time at which a lease was obtained. -/
def Phase.untimed : Phase → Phase
  | .finished (.ok lease) => .finished (.ok { lease with obtainedAtUnix := 0 })
  | phase => phase

/-- The turn is before the deadline, and its `send_to` goes well. -/
def Turn.OnTime (t : Turn) : Prop := t.expired = false ∧ t.sent = .ok ()

/-- A datagram that does not parse, has another transaction id or a message type that the loop does
not wait for. -/
def Junk (phase : Phase) (t : Turn) : Prop :=
  t.OnTime ∧ ∃ bytes, t.received = .datagram bytes ∧
    ∀ p, parse (bytes.take 1500) = some p → ¬Awaits c phase p

/-- The second run is the first with junk inserted, at other times. -/
inductive WithJunk (c : Client) : Phase → List Turn → List Turn → Prop
  | nil (phase : Phase) : WithJunk c phase [] []
  | keep {phase : Phase} {t : Turn} {turns turns' : List Turn} (now : UInt64)
      (rest : WithJunk c (turn c phase t).1 turns turns') :
      WithJunk c phase (t :: turns) ({ t with now } :: turns')
  | insert {phase : Phase} {t : Turn} {turns turns' : List Turn} (junk : Junk c phase t)
      (rest : WithJunk c phase turns turns') : WithJunk c phase turns (t :: turns')

section

variable {c : Client}

theorem turn_fst_of_onTime (h : t.OnTime) (hread : ∀ m, t.received ≠ .failed m)
    (phase : Phase) :
    (turn c phase t).1 =
      (packetOf t.received).elim phase fun p => handlePacket c t.now p phase := by
  obtain ⟨expired, sent, received, now⟩ := t
  obtain ⟨rfl, rfl⟩ := h
  cases received with
  | failed m => exact absurd rfl (hread m)
  | wouldBlock => cases phase <;> rfl
  | datagram bytes =>
    cases hp : parse (bytes.take 1500) <;> cases phase <;>
      simp [turn, poll, receive, packetOf, handlePacket, hp]

theorem turn_fst_of_junk (h : Junk c phase t) : (turn c phase t).1 = phase := by
  obtain ⟨htime, bytes, hbytes, hjunk⟩ := h
  rw [turn_fst_of_onTime htime (by rw [hbytes]; exact nofun), hbytes, packetOf]
  cases hp : parse (bytes.take 1500) with
  | none => rfl
  | some p => exact handlePacket_of_not_awaits t.now phase (hjunk p hp)

/-! The clock is read for the lease only. -/

theorem untimed_handlePacket (now now' : UInt64) (p : Packet) (phase : Phase) :
    (handlePacket c now p phase).untimed = (handlePacket c now' p phase).untimed := by
  cases phase with
  | discovering => rfl
  | requesting offer serverId =>
    simp only [handlePacket]
    split_ifs <;> rfl
  | finished result => rfl

theorem untimed_receive (now now' : UInt64) (received : Received) (phase : Phase) :
    (receive c now received phase).untimed = (receive c now' received phase).untimed := by
  cases received with
  | wouldBlock | failed message => cases phase <;> rfl
  | datagram bytes =>
    cases hp : parse (bytes.take 1500) with
    | none => cases phase <;> simp [receive, hp]
    | some p => cases phase <;> simp [receive, hp, untimed_handlePacket now now']

theorem untimed_turn (t : Turn) (now : UInt64) (phase : Phase) :
    (turn c phase t).1.untimed = (turn c phase.untimed { t with now }).1.untimed := by
  trans (turn c phase { t with now }).1.untimed
  · unfold turn
    dsimp only
    split
    · rfl
    · exact untimed_receive ..
  · cases phase with
    | finished result => cases result <;> rfl
    | discovering | requesting offer serverId => rfl

theorem WithJunk.untimed_eq {turns' : List Turn} (h : WithJunk c phase turns turns') :
    ∀ phase', phase'.untimed = phase.untimed →
      (finalState (turn c) phase' turns').untimed = (finalState (turn c) phase turns).untimed := by
  induction h with
  | nil phase => exact fun phase' hphase => hphase
  | @keep phase t turns turns' now rest ih =>
    intro phase' hphase
    refine ih _ ?_
    rw [untimed_turn { t with now } t.now, hphase, ← untimed_turn t]
  | @insert phase t turns turns' junk rest ih =>
    intro phase' hphase
    refine ih _ ?_
    rw [untimed_turn t t.now, hphase, ← untimed_turn t, turn_fst_of_junk junk]

/-! ## What the result is determined by -/

/-- The result of the first OFFER among the packets and the first ACK or NAK after it. -/
def outcome (c : Client) (packets : List Packet) : Phase :=
  match packets.dropWhile fun p => ¬Offers c p with
  | [] => .discovering
  | offer :: rest =>
    match rest.find? fun p => Decides c p with
    | none => offered offer
    | some p => handlePacket c 0 p (offered offer)

def packetsOf (turns : List Turn) : List Packet := turns.filterMap fun t => packetOf t.received

/-- A turn before the deadline that receives a datagram or times out. -/
def Turn.Plain (t : Turn) : Prop := t.OnTime ∧ ∀ message, t.received ≠ .failed message

theorem packetsOf_cons (t : Turn) (turns : List Turn) :
    packetsOf (t :: turns) = (packetOf t.received).toList ++ packetsOf turns := by
  unfold packetsOf
  rw [filterMap_cons]
  cases packetOf t.received <;> rfl

theorem finalState_of_decides (now : UInt64) (h : Decides c p) (offer : Packet)
    (serverId : Ipv4Addr) (turns : List Turn) :
    finalState (turn c) (handlePacket c now p (.requesting offer serverId)) turns =
      handlePacket c now p (.requesting offer serverId) := by
  rcases handlePacket_of_decides now h offer serverId with ⟨-, hp⟩ | ⟨-, hp⟩ <;>
    rw [hp, (finished_run c _ turns).1]

theorem untimed_handlePacket_zero (p offer : Packet) (serverId : Ipv4Addr) :
    (handlePacket c 0 p (.requesting offer serverId)).untimed =
      handlePacket c 0 p (.requesting offer serverId) := by
  simp only [handlePacket]
  split_ifs <;> rfl

theorem untimed_after_offer (hplain : ∀ t ∈ turns, t.Plain) (offer : Packet) (serverId : Ipv4Addr) :
    (finalState (turn c) (.requesting offer serverId) turns).untimed =
      match (packetsOf turns).find? fun p => Decides c p with
      | none => .requesting offer serverId
      | some p => handlePacket c 0 p (.requesting offer serverId) := by
  induction turns with
  | nil => rfl
  | cons t turns ih =>
    obtain ⟨ht, hturns⟩ := forall_mem_cons.mp hplain
    rw [finalState_cons, turn_fst_of_onTime ht.1 ht.2, packetsOf_cons]
    cases packetOf t.received with
    | none => exact ih hturns
    | some p =>
      rw [Option.elim_some, Option.toList_some, singleton_append, find?_cons]
      by_cases hp : Decides c p
      · rw [decide_eq_true hp, finalState_of_decides t.now hp, untimed_handlePacket t.now 0,
          untimed_handlePacket_zero]
      · rw [decide_eq_false hp, handlePacket_of_not_awaits t.now (.requesting offer serverId) hp]
        exact ih hturns

theorem untimed_offered (hplain : ∀ t ∈ turns, t.Plain) (offer : Packet) :
    (finalState (turn c) (offered offer) turns).untimed =
      match (packetsOf turns).find? fun p => Decides c p with
      | none => offered offer
      | some p => handlePacket c 0 p (offered offer) := by
  unfold offered
  cases serverIdOf offer with
  | some serverId => exact untimed_after_offer hplain offer serverId
  | none =>
    show (finalState (turn c) (.finished _) turns).untimed = _
    rw [(finished_run c _ turns).1]
    cases (packetsOf turns).find? fun p => Decides c p <;> rfl

theorem untimed_acquire (hplain : ∀ t ∈ turns, t.Plain) :
    (acquire c turns).untimed = outcome c (packetsOf turns) := by
  unfold acquire
  induction turns with
  | nil => rfl
  | cons t turns ih =>
    obtain ⟨ht, hturns⟩ := forall_mem_cons.mp hplain
    rw [finalState_cons, turn_fst_of_onTime ht.1 ht.2, packetsOf_cons]
    cases packetOf t.received with
    | none => exact ih hturns
    | some p =>
      rw [Option.elim_some, Option.toList_some, singleton_append, outcome, dropWhile_cons]
      by_cases hp : Offers c p
      · rw [if_neg (by simpa using hp), handlePacket_of_offers t.now hp]
        exact untimed_offered hturns p
      · rw [if_pos (by simpa using hp), handlePacket_of_not_awaits t.now .discovering hp]
        exact ih hturns

end

/-- **Junk makes no difference.** Datagrams that do not parse, that have another transaction id or a
message type the loop does not wait for can be inserted anywhere in a run of `acquire` without a
change of its result, apart from the time noted in the lease; before the deadline the result is that
of the first OFFER and of the first ACK or NAK after it. -/
theorem acquire_ignores_junk (c : Client) :
    (∀ turns turns', WithJunk c .discovering turns turns' →
      (acquire c turns').untimed = (acquire c turns).untimed) ∧
    ∀ turns : List Turn, (∀ t ∈ turns, t.Plain) →
      (acquire c turns).untimed = outcome c (packetsOf turns) :=
  ⟨fun _ _ h => h.untimed_eq .discovering rfl, fun _ hplain => untimed_acquire hplain⟩

/-- A turn before the deadline that receives the bytes. -/
def readsBytes (bytes : List UInt8) : Turn := ⟨false, .ok (), .datagram bytes, 5⟩

/-- Before the OFFER comes an ACK for the transaction, after it three bytes and the OFFER again. -/
theorem acquire_ignores_junk_laptop :
    (acquire laptop [reads firstAck, reads firstOffer, readsBytes [1, 2, 3], reads firstOffer,
        reads firstAck]).untimed = (acquire laptop [reads firstOffer, reads firstAck]).untimed ∧
      (acquire laptop [reads firstOffer, reads firstAck]).untimed =
        outcome laptop (packetsOf [reads firstOffer, reads firstAck]) := by
  have hoffer : parse ((serialize firstOffer).take 1500) = some firstOffer := by decide +kernel
  have hack : parse ((serialize firstAck).take 1500) = some firstAck := by decide +kernel
  have hrequesting : (turn laptop .discovering (reads firstOffer)).1 =
      .requesting firstOffer (.new 10 42 0 1) := by decide +kernel
  have honTime : ∀ p, (reads p).OnTime := fun _ => ⟨rfl, rfl⟩
  refine ⟨(acquire_ignores_junk laptop).1 _ _ ?_, (acquire_ignores_junk laptop).2 _ ?_⟩
  · refine .insert ⟨honTime _, _, rfl, ?_⟩ (.keep 0 ?_)
    · rw [hack]
      rintro _ ⟨⟩ ⟨-, htype⟩
      revert htype
      decide
    · rw [hrequesting]
      refine .insert ⟨⟨rfl, rfl⟩, _, rfl, ?_⟩ (.insert ⟨honTime _, _, rfl, ?_⟩ (.keep 0 (.nil _)))
      · rintro p ⟨⟩
      · rw [hoffer]
        rintro _ ⟨⟩ ⟨-, htype⟩
        revert htype
        decide
  · simp [Turn.Plain, Turn.OnTime, reads]

end MitosNetwork.DhcpClient
