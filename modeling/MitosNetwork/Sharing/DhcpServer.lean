import MitosNetwork.Common.Machine
import MitosNetwork.Common.Table
import MitosNetwork.Dhcp.Dhcp4

/-!
# The DHCP server of a shared connection

`src/sharing/dhcp_server.rs`: the lease table with its rotating cursor, the receive loop and the
replies. One turn of the loop is `serve`; a run of the server is `Machine.finalState serve` over the
outcomes of `recv_from`. Arithmetic on addresses is that of `u32`.

`LeaseTable.Inv` is what every turn preserves: distinct clients hold distinct addresses of the pool
and the cursor stays between the first address and one past the last. From any such cursor the probe
visits every address of the pool once (`exists_add_mod_eq`), so an allocation fails only when the
pool is exhausted.
-/

namespace MitosNetwork.DhcpServer

open Dhcp4

structure DhcpServerConfig where
  interface : String
  serverIp : Ipv4Addr
  poolStart : Ipv4Addr
  poolEnd : Ipv4Addr
  prefixlen : UInt8
  leaseTimeSecs : UInt32
  dnsServers : List Ipv4Addr

/-- Which client holds which address, and where the next search starts. -/
structure LeaseTable where
  byMac : Table Mac Ipv4Addr
  nextCandidate : UInt32

/-! ## Allocation -/

/-- The address the cursor points at, wrapped into the pool. -/
def candidateAt (start stop next : UInt32) : UInt32 := start + (next - start) % (stop - start + 1)

/-- `n` turns of the search loop from the cursor `next`: the free address found, if any, and the
cursor after the search. -/
def probe (start stop : UInt32) (taken : List UInt32) : ℕ → UInt32 → Option UInt32 × UInt32
  | 0, next => (none, next)
  | n + 1, next =>
    let candidate := candidateAt start stop next
    if candidate ∈ taken then probe start stop taken n (candidate + 1)
    else (some candidate, candidate + 1)

/-- `LeaseTable::allocate`. -/
def LeaseTable.allocate (t : LeaseTable) (mac : Mac) (cfg : DhcpServerConfig) :
    Option Ipv4Addr × LeaseTable :=
  match t.byMac.lookup mac with
  | some existing => (some existing, t)
  | none =>
    let start := cfg.poolStart.bits
    let stop := cfg.poolEnd.bits
    if stop < start then (none, t)
    else
      let taken := t.byMac.values.map (·.bits)
      match probe start stop taken ((stop - start).toNat + 1) t.nextCandidate with
      | (some candidate, next) => (some ⟨candidate⟩, ⟨t.byMac.insert mac ⟨candidate⟩, next⟩)
      | (none, next) => (none, { t with nextCandidate := next })

/-! ## Replies -/

/-- `build_reply`. -/
def buildReply (request : Packet) (yiaddr : Ipv4Addr) (cfg : DhcpServerConfig) (msgType : UInt8) :
    List UInt8 :=
  serialize {
    op := opBootreply
    xid := request.xid
    secs := 0
    flags := request.flags
    ciaddr := Ipv4Addr.unspecified
    yiaddr := if msgType = msgNak then Ipv4Addr.unspecified else yiaddr
    siaddr := cfg.serverIp
    chaddr := request.chaddr
    options :=
      [(optMsgType, [msgType]), (optServerId, cfg.serverIp.octets)] ++
      (if msgType = msgNak then []
        else
          [(optSubnetMask, (Ipv4.subnetMask cfg.prefixlen).octets),
            (optRouter, cfg.serverIp.octets),
            (optLeaseTime, Wire.beBytes 4 cfg.leaseTimeSecs.toNat)] ++
          if cfg.dnsServers.isEmpty then []
          else [(optDns, cfg.dnsServers.flatMap Ipv4Addr.octets)]) }

/-- The address a REQUEST asks for: the requested-address option when it is four bytes long, else
`ciaddr`. -/
def requestedAddress (pkt : Packet) : Ipv4Addr :=
  match pkt.getOption optRequestedIp with
  | some bytes => if bytes.length = 4 then Ipv4Addr.ofOctets bytes else pkt.ciaddr
  | none => pkt.ciaddr

/-- What `recv_from` hands to the loop. -/
inductive Received where
  | datagram (bytes : List UInt8)
  | wouldBlock
  | failed (message : String)

variable (cfg : DhcpServerConfig)

/-- One turn of the loop of `run` while the stop flag is down: the table after it and the reply
sent, if any. The receive buffer holds 1500 bytes; the kernel cuts a longer datagram off. -/
def serve (leases : LeaseTable) :
    Received → LeaseTable × Option (List UInt8)
  | .wouldBlock => (leases, none)
  | .failed _ => (leases, none)
  | .datagram bytes =>
    match parse (bytes.take 1500) with
    | none => (leases, none)
    | some pkt =>
      match pkt.messageType with
      | none => (leases, none)
      | some kind =>
        if kind = msgDiscover then
          let allocation := leases.allocate pkt.chaddr cfg
          (allocation.2, allocation.1.map fun addr => buildReply pkt addr cfg msgOffer)
        else if kind = msgRequest then
          let requested := requestedAddress pkt
          if leases.byMac.lookup pkt.chaddr = some requested then
            (leases, some (buildReply pkt requested cfg msgAck))
          else (leases, some (buildReply pkt requested cfg msgNak))
        else (leases, none)

/-- The table `run` starts with. -/
def initial : LeaseTable := ⟨∅, cfg.poolStart.bits⟩

def leasesAfter (received : List Received) : LeaseTable :=
  Machine.finalState (serve cfg) (initial cfg) received

/-- The replies sent over a sequence of receive outcomes. -/
def repliesOf (received : List Received) : List (List UInt8) :=
  (Machine.outputs (serve cfg) (initial cfg) received).filterMap id

/-! ## The probe visits the whole pool -/

theorem exists_add_mod_eq {m r : ℕ} (o : ℕ) (hr : r < m) : ∃ k < m, (o + k) % m = r := by
  have hp : o % m < m := Nat.mod_lt o (by omega)
  by_cases hle : o % m ≤ r
  · refine ⟨r - o % m, by omega, ?_⟩
    rw [← Nat.mod_add_mod, Nat.add_sub_cancel' hle, Nat.mod_eq_of_lt hr]
  · refine ⟨r + m - o % m, by omega, ?_⟩
    rw [← Nat.mod_add_mod, Nat.add_sub_cancel' (by omega), Nat.add_mod_right, Nat.mod_eq_of_lt hr]

section Pool

variable {start stop next : UInt32}

/-- The cursor range the loop keeps to: from the first address to one past the last. -/
def CursorIn (start stop next : UInt32) : Prop :=
  start.toNat ≤ next.toNat ∧ next.toNat ≤ stop.toNat + 1

variable (hpool : start ≤ stop) (hend : stop < 0xFFFFFFFF)

include hpool hend

theorem toNat_candidateAt (hcur : CursorIn start stop next) :
    (candidateAt start stop next).toNat =
      start.toNat + (next.toNat - start.toNat) % (stop.toNat - start.toNat + 1) := by
  have hle : start.toNat ≤ stop.toNat := hpool
  have hlt : stop.toNat < 4294967295 := hend
  have hsize : (stop - start + 1).toNat = stop.toNat - start.toNat + 1 := by
    rw [UInt32.toNat_add, UInt32.toNat_sub_of_le _ _ hpool, UInt32.toNat_one]
    omega
  have hoff : (next - start).toNat = next.toNat - start.toNat := UInt32.toNat_sub_of_le _ _ hcur.1
  have hmod : (next.toNat - start.toNat) % (stop.toNat - start.toNat + 1) <
      stop.toNat - start.toNat + 1 := Nat.mod_lt _ (by omega)
  rw [candidateAt, UInt32.toNat_add, UInt32.toNat_mod, hsize, hoff, Nat.mod_eq_of_lt]
  omega

theorem candidateAt_mem_pool (hcur : CursorIn start stop next) :
    start ≤ candidateAt start stop next ∧ candidateAt start stop next ≤ stop ∧
      (candidateAt start stop next + 1).toNat = (candidateAt start stop next).toNat + 1 ∧
      CursorIn start stop (candidateAt start stop next + 1) := by
  have hle : start.toNat ≤ stop.toNat := hpool
  have hlt : stop.toNat < 4294967295 := hend
  have hcand := toNat_candidateAt hpool hend hcur
  have hmod : (next.toNat - start.toNat) % (stop.toNat - start.toNat + 1) <
      stop.toNat - start.toNat + 1 := Nat.mod_lt _ (by omega)
  have hsucc : (candidateAt start stop next + 1).toNat =
      (candidateAt start stop next).toNat + 1 := by
    rw [UInt32.toNat_add, UInt32.toNat_one]
    omega
  refine ⟨?_, ?_, hsucc, ?_, ?_⟩
  · show start.toNat ≤ (candidateAt start stop next).toNat
    omega
  · show (candidateAt start stop next).toNat ≤ stop.toNat
    omega
  · omega
  · omega

theorem probe_spec (taken : List UInt32) (n : ℕ) (hcur : CursorIn start stop next) :
    CursorIn start stop (probe start stop taken n next).2 ∧
      (∀ c, (probe start stop taken n next).1 = some c → start ≤ c ∧ c ≤ stop ∧ c ∉ taken) ∧
      ((probe start stop taken n next).1 = none → ∀ k < n, ∃ c ∈ taken, c.toNat =
        start.toNat + (next.toNat - start.toNat + k) % (stop.toNat - start.toNat + 1)) := by
  induction n generalizing next with
  | zero => exact ⟨hcur, fun _ h => (nomatch h), fun _ k hk => absurd hk (Nat.not_lt_zero k)⟩
  | succ n ih =>
    obtain ⟨hlow, hhigh, hsucc, hnext⟩ := candidateAt_mem_pool hpool hend hcur
    have hcand := toNat_candidateAt hpool hend hcur
    simp only [probe]
    split
    · rename_i htk
      obtain ⟨hcur', hfound, hnone⟩ := ih hnext
      refine ⟨hcur', hfound, fun h k hk => ?_⟩
      cases k with
      | zero => exact ⟨_, htk, hcand⟩
      | succ k =>
        -- the later candidates are those of the remaining turns, one position further on
        obtain ⟨c, hc, hceq⟩ := hnone h k (by omega)
        refine ⟨c, hc, ?_⟩
        have hoff : (candidateAt start stop next + 1).toNat - start.toNat =
            (next.toNat - start.toNat) % (stop.toNat - start.toNat + 1) + 1 := by omega
        rw [hceq, hoff, Nat.add_assoc, Nat.mod_add_mod, Nat.add_comm 1 k]
    · rename_i hfree
      refine ⟨hnext, fun c hc => ?_, fun h => (nomatch h)⟩
      obtain rfl := Option.some.inj hc
      exact ⟨hlow, hhigh, hfree⟩

theorem mem_taken_of_probe_eq_none {taken : List UInt32} (hcur : CursorIn start stop next)
    (hnone : (probe start stop taken ((stop - start).toNat + 1) next).1 = none)
    {a : UInt32} (hlow : start ≤ a) (hhigh : a ≤ stop) : a ∈ taken := by
  have hlow' : start.toNat ≤ a.toNat := hlow
  have hhigh' : a.toNat ≤ stop.toNat := hhigh
  obtain ⟨k, hk, hmod⟩ := exists_add_mod_eq (m := stop.toNat - start.toNat + 1)
    (next.toNat - start.toNat) (r := a.toNat - start.toNat) (by omega)
  rw [UInt32.toNat_sub_of_le _ _ hpool] at hnone
  obtain ⟨c, hc, hceq⟩ := (probe_spec hpool hend taken _ hcur).2.2 hnone k hk
  rw [hmod, Nat.add_sub_cancel' hlow'] at hceq
  rwa [← UInt32.toNat_inj.mp hceq]

end Pool

/-! ## The invariant of the lease table -/

/-- Distinct clients hold distinct addresses, all of them in the pool, and the cursor is valid. -/
structure LeaseTable.Inv (cfg : DhcpServerConfig) (t : LeaseTable) : Prop where
  injective : ∀ m₁ m₂ a, t.byMac.lookup m₁ = some a → t.byMac.lookup m₂ = some a → m₁ = m₂
  inPool : ∀ m a, t.byMac.lookup m = some a →
    cfg.poolStart.bits ≤ a.bits ∧ a.bits ≤ cfg.poolEnd.bits
  cursor : CursorIn cfg.poolStart.bits cfg.poolEnd.bits t.nextCandidate

/-- Every assignment of `t` is still there in `t'`. -/
def LeaseTable.Extends (t t' : LeaseTable) : Prop :=
  ∀ m a, t.byMac.lookup m = some a → t'.byMac.lookup m = some a

theorem LeaseTable.Extends.refl (t : LeaseTable) : t.Extends t := fun _ _ h => h

section Server

variable {cfg}

variable {t : LeaseTable} {mac : Mac} {pkt : Packet}

theorem mem_taken {c : UInt32} :
    c ∈ t.byMac.values.map (·.bits) ↔ ∃ m, t.byMac.lookup m = some ⟨c⟩ := by
  rw [List.mem_map]
  constructor
  · rintro ⟨a, ha, rfl⟩
    exact Table.mem_values.mp ha
  · rintro ⟨m, hm⟩
    exact ⟨⟨c⟩, Table.mem_values.mpr ⟨m, hm⟩, rfl⟩

theorem initial_inv (hpool : cfg.poolStart.bits ≤ cfg.poolEnd.bits) : (initial cfg).Inv cfg where
  injective m₁ m₂ a h₁ := by simp [initial] at h₁
  inPool m a h := by simp [initial] at h
  cursor := ⟨le_rfl, Nat.le_succ_of_le hpool⟩

theorem LeaseTable.Inv.insert {c next : UInt32} (h : t.Inv cfg)
    (hfre : c ∉ t.byMac.values.map (·.bits))
    (hpool : cfg.poolStart.bits ≤ c ∧ c ≤ cfg.poolEnd.bits)
    (hcur : CursorIn cfg.poolStart.bits cfg.poolEnd.bits next) :
    LeaseTable.Inv cfg ⟨t.byMac.insert mac ⟨c⟩, next⟩ := by
  have hunused : ∀ m, t.byMac.lookup m ≠ some ⟨c⟩ := fun m hm => hfre (mem_taken.mpr ⟨m, hm⟩)
  refine ⟨?_, ?_, hcur⟩
  · intro m₁ m₂ a h₁ h₂
    simp only [Table.lookup_insert_eq] at h₁ h₂
    split at h₁ <;> split at h₂
    · rename_i e₁ e₂
      rw [e₁, e₂]
    · obtain rfl := Option.some.inj h₁
      exact absurd h₂ (hunused m₂)
    · obtain rfl := Option.some.inj h₂
      exact absurd h₁ (hunused m₁)
    · exact h.injective m₁ m₂ a h₁ h₂
  · intro m a hm
    simp only [Table.lookup_insert_eq] at hm
    split at hm
    · obtain rfl := Option.some.inj hm
      exact hpool
    · exact h.inPool m a hm

theorem extends_allocate (t : LeaseTable) (mac : Mac) (cfg : DhcpServerConfig) :
    t.Extends (t.allocate mac cfg).2 := by
  unfold LeaseTable.allocate
  cases hmac : t.byMac.lookup mac with
  | some existing => exact .refl t
  | none =>
    dsimp only
    split
    · exact .refl t
    · split
      · intro m a hm
        have hne : m ≠ mac := by
          rintro rfl
          rw [hmac] at hm
          cases hm
        rw [Table.lookup_insert_eq, if_neg hne, hm]
      · exact .refl _

theorem lookup_allocate {a : Ipv4Addr} (h : (t.allocate mac cfg).1 = some a) :
    (t.allocate mac cfg).2.byMac.lookup mac = some a := by
  unfold LeaseTable.allocate at h ⊢
  cases hmac : t.byMac.lookup mac with
  | some existing =>
    rw [hmac] at h
    exact h ▸ hmac
  | none =>
    simp only [hmac] at h ⊢
    split at h
    · cases h
    · rename_i hpool
      rw [if_neg hpool]
      split at h
      · obtain rfl := Option.some.inj h
        exact AList.lookup_insert _
      · cases h

/-! ## Replies carry the table entry -/

theorem parse_buildReply (request : Packet) (addr : Ipv4Addr) (cfg : DhcpServerConfig)
    (msgType : UInt8) :
    ∃ reply, parse (buildReply request addr cfg msgType) = some reply ∧
      reply.messageType = some msgType ∧ reply.chaddr = request.chaddr ∧
      reply.yiaddr = if msgType = msgNak then Ipv4Addr.unspecified else addr := by
  refine ⟨_, parse_serialize_eq _, ?_, rfl, rfl⟩
  -- the message type is the first option written, so it is the first one parsed
  rfl

/-- An OFFER or an ACK: a packet that hands out or confirms an address. -/
def Grants (pkt : Packet) : Prop :=
  pkt.messageType = some msgOffer ∨ pkt.messageType = some msgAck

/-- A reply a client can read: a NAK, or an OFFER or ACK whose address is the entry of the client it
is sent to. -/
def Truthful (t : LeaseTable) (reply : List UInt8) : Prop :=
  ∃ pkt, parse reply = some pkt ∧ (pkt.messageType = some msgNak ∨
    Grants pkt ∧ t.byMac.lookup pkt.chaddr = some pkt.yiaddr)

theorem truthful_buildReply {request : Packet} {addr : Ipv4Addr} {msgType : UInt8}
    (hkind : msgType = msgOffer ∨ msgType = msgAck)
    (haddr : t.byMac.lookup request.chaddr = some addr) :
    Truthful t (buildReply request addr cfg msgType) := by
  obtain ⟨reply, hp, htype, hmac, hyi⟩ := parse_buildReply request addr cfg msgType
  have hne : msgType ≠ msgNak := by rcases hkind with rfl | rfl <;> decide
  rw [if_neg hne] at hyi
  refine ⟨reply, hp, .inr ⟨?_, by rw [hmac, hyi, haddr]⟩⟩
  rcases hkind with rfl | rfl
  · exact .inl htype
  · exact .inr htype

/-! ## Turns of the loop -/

section Turn

variable (hpool : cfg.poolStart.bits ≤ cfg.poolEnd.bits) (hend : cfg.poolEnd.bits < 0xFFFFFFFF)

include hpool hend

theorem allocate_spec (h : t.Inv cfg) (mac : Mac) :
    (t.allocate mac cfg).2.Inv cfg ∧ t.Extends (t.allocate mac cfg).2 ∧
      (∀ a, (t.allocate mac cfg).1 = some a → (t.allocate mac cfg).2.byMac.lookup mac = some a) ∧
      ((t.allocate mac cfg).1 = none →
        ∀ a : Ipv4Addr, cfg.poolStart.bits ≤ a.bits → a.bits ≤ cfg.poolEnd.bits →
          ∃ m, t.byMac.lookup m = some a) := by
  refine and_left_comm.mp ⟨extends_allocate t mac cfg,
    and_left_comm.mp ⟨fun _ => lookup_allocate, ?_⟩⟩
  unfold LeaseTable.allocate
  cases t.byMac.lookup mac with
  | some existing => exact ⟨h, fun hn => (nomatch hn)⟩
  | none =>
    have hnlt : ¬cfg.poolEnd.bits < cfg.poolStart.bits := UInt32.not_lt.mpr hpool
    simp only [if_neg hnlt]
    obtain ⟨hcur, hfound, -⟩ := probe_spec hpool hend (t.byMac.values.map (·.bits))
      ((cfg.poolEnd.bits - cfg.poolStart.bits).toNat + 1) h.cursor
    split
    · rename_i candidate next hprb
      rw [hprb] at hcur hfound
      obtain ⟨hlow, hhigh, hfree⟩ := hfound candidate rfl
      exact ⟨h.insert hfree ⟨hlow, hhigh⟩ hcur, fun hn => (nomatch hn)⟩
    · rename_i next hprb
      rw [hprb] at hcur
      refine ⟨⟨h.injective, h.inPool, hcur⟩, fun _ a hlow hhigh => ?_⟩
      have hnone := mem_taken_of_probe_eq_none hpool hend h.cursor (by rw [hprb]) hlow hhigh
      exact mem_taken.mp hnone

theorem serve_spec (h : t.Inv cfg) (event : Received) :
    (serve cfg t event).1.Inv cfg ∧ t.Extends (serve cfg t event).1 ∧
      ∀ reply, (serve cfg t event).2 = some reply → Truthful (serve cfg t event).1 reply := by
  have hidle : t.Inv cfg ∧ t.Extends t ∧ ∀ reply, none = some reply → Truthful t reply :=
    ⟨h, .refl t, fun _ hr => (nomatch hr)⟩
  cases event with
  | wouldBlock | failed message => exact hidle
  | datagram bytes =>
    simp only [serve]
    cases parse (bytes.take 1500) with
    | none => exact hidle
    | some pkt =>
      cases hkind : pkt.messageType with
      | none => simpa only [hkind] using hidle
      | some kind =>
        simp only [hkind]
        split
        · obtain ⟨hinv, hext, hent, -⟩ := allocate_spec hpool hend h pkt.chaddr
          refine ⟨hinv, hext, fun reply hrep => ?_⟩
          obtain ⟨addr, haddr, rfl⟩ := Option.map_eq_some_iff.mp hrep
          exact truthful_buildReply (.inl rfl) (hent addr haddr)
        · split
          · split
            · rename_i hle
              refine ⟨h, .refl t, fun reply hrep => ?_⟩
              obtain rfl := Option.some.inj hrep
              exact truthful_buildReply (.inr rfl) hle
            · refine ⟨h, .refl t, fun reply hrep => ?_⟩
              obtain rfl := Option.some.inj hrep
              obtain ⟨nak, hp, htype, -⟩ := parse_buildReply pkt (requestedAddress pkt) cfg msgNak
              exact ⟨nak, hp, .inl htype⟩
          · exact hidle

theorem pool_exhausted_of_silent (h : t.Inv cfg) {bytes : List UInt8}
    (hp : parse (bytes.take 1500) = some pkt) (hkind : pkt.messageType = some msgDiscover)
    (hsil : (serve cfg t (.datagram bytes)).2 = none) (a : Ipv4Addr)
    (hlow : cfg.poolStart.bits ≤ a.bits) (hhigh : a.bits ≤ cfg.poolEnd.bits) :
    ∃ m, t.byMac.lookup m = some a := by
  simp only [serve, hp, hkind, if_true, Option.map_eq_none_iff] at hsil
  exact (allocate_spec hpool hend h pkt.chaddr).2.2.2 hsil a hlow hhigh

/-! ## Whole runs -/

theorem leasesAfter_inv (received : List Received) : (leasesAfter cfg received).Inv cfg :=
  Machine.finalState_invariant (initial_inv hpool)
    (fun _ event h => (serve_spec hpool hend h event).1) received

theorem leasesAfter_extends (received later : List Received) :
    (leasesAfter cfg received).Extends (leasesAfter cfg (received ++ later)) := by
  have hrun := leasesAfter_inv hpool hend received
  rw [leasesAfter, leasesAfter, Machine.finalState_append]
  refine (Machine.finalState_invariant
    (P := fun t => t.Inv cfg ∧ (leasesAfter cfg received).Extends t)
    ⟨hrun, .refl _⟩ (fun t event ht => ?_) later).2
  obtain ⟨hinv, hext, -⟩ := serve_spec hpool hend ht.1 event
  exact ⟨hinv, fun m a hm => hext m a (ht.2 m a hm)⟩

theorem lookup_of_mem_repliesOf {received : List Received} {reply : List UInt8}
    (hrep : reply ∈ repliesOf cfg received) (hp : parse reply = some pkt)
    (hgr : Grants pkt) :
    (leasesAfter cfg received).byMac.lookup pkt.chaddr = some pkt.yiaddr := by
  obtain ⟨out, hout, rfl⟩ := List.mem_filterMap.mp hrep
  obtain ⟨before, event, after, rfl, hstep⟩ := Machine.exists_split_of_mem_outputs hout
  have hinv : (Machine.finalState (serve cfg) (initial cfg) before).Inv cfg :=
    leasesAfter_inv hpool hend before
  obtain ⟨pkt', hparse', hcase⟩ := (serve_spec hpool hend hinv event).2.2 _ hstep
  obtain rfl := Option.some.inj (hp.symm.trans hparse')
  have hent := hcase.resolve_left fun hnak => by
    rcases hgr with hg | hg <;> rw [hnak] at hg <;> revert hg <;> decide
  have hafter := leasesAfter_extends hpool hend (before ++ [event]) after pkt.chaddr pkt.yiaddr
  rw [leasesAfter, Machine.finalState_append, List.append_assoc] at hafter
  exact hafter hent.2

end Turn

/-- **DHCP server safety.** After any sequence of receive outcomes: distinct clients hold distinct
addresses of the pool, later packets change no assignment, the next reply is readable and, unless it
is a NAK, carries its client's entry, no two clients of the run were granted one address, and a new
client's DISCOVER is left unanswered only when the table holds every address of the pool. -/
theorem server_safety (cfg : DhcpServerConfig) (hpool : cfg.poolStart.bits ≤ cfg.poolEnd.bits)
    (hend : cfg.poolEnd.bits < 0xFFFFFFFF) (received : List Received) :
    (∀ m₁ m₂ a, (leasesAfter cfg received).byMac.lookup m₁ = some a →
      (leasesAfter cfg received).byMac.lookup m₂ = some a → m₁ = m₂) ∧
    (∀ m a, (leasesAfter cfg received).byMac.lookup m = some a →
      cfg.poolStart.bits ≤ a.bits ∧ a.bits ≤ cfg.poolEnd.bits) ∧
    (∀ later m a, (leasesAfter cfg received).byMac.lookup m = some a →
      (leasesAfter cfg (received ++ later)).byMac.lookup m = some a) ∧
    (∀ event reply, (serve cfg (leasesAfter cfg received) event).2 = some reply →
      Truthful (leasesAfter cfg (received ++ [event])) reply) ∧
    (∀ r₁ ∈ repliesOf cfg received, ∀ r₂ ∈ repliesOf cfg received, ∀ p₁ p₂,
      parse r₁ = some p₁ → parse r₂ = some p₂ → Grants p₁ → Grants p₂ →
        p₁.yiaddr = p₂.yiaddr → p₁.chaddr = p₂.chaddr) ∧
    (∀ bytes pkt, parse (bytes.take 1500) = some pkt → pkt.messageType = some msgDiscover →
      (leasesAfter cfg received).byMac.lookup pkt.chaddr = none →
      (serve cfg (leasesAfter cfg received) (.datagram bytes)).2 = none →
        ∀ a : Ipv4Addr, cfg.poolStart.bits ≤ a.bits → a.bits ≤ cfg.poolEnd.bits →
          ∃ m, (leasesAfter cfg received).byMac.lookup m = some a) := by
  have hinv := leasesAfter_inv hpool hend received
  refine ⟨hinv.injective, hinv.inPool, fun later => leasesAfter_extends hpool hend received later,
    ?_, ?_, ?_⟩
  · intro event reply hreply
    have htrue := (serve_spec hpool hend hinv event).2.2 reply hreply
    rwa [leasesAfter, Machine.finalState_append]
  · intro r₁ h₁ r₂ h₂ p₁ p₂ hp₁ hp₂ hg₁ hg₂ heq
    have e₁ := lookup_of_mem_repliesOf hpool hend h₁ hp₁ hg₁
    have e₂ := lookup_of_mem_repliesOf hpool hend h₂ hp₂ hg₂
    exact hinv.injective _ _ _ e₁ (heq ▸ e₂)
  · intro bytes pkt hparse hkind _ hsilent a
    exact pool_exhausted_of_silent hpool hend hinv hparse hkind hsilent a

/-- A pool of one address, held by the first client that asked. -/
def smallPool : DhcpServerConfig where
  interface := "wlan0"
  serverIp := .new 10 42 0 1
  poolStart := .new 10 42 0 2
  poolEnd := .new 10 42 0 2
  prefixlen := 24
  leaseTimeSecs := 3600
  dnsServers := []

/-- The second client of a one-address pool is left unanswered, and the address is indeed taken. -/
theorem server_safety_smallPool :
    smallPool.poolStart.bits ≤ smallPool.poolEnd.bits ∧ smallPool.poolEnd.bits < 0xFFFFFFFF ∧
    (serve smallPool
      (leasesAfter smallPool [.datagram (buildDiscover 1 #v[2, 0, 0, 0, 0, 1] none)])
      (.datagram (buildDiscover 2 #v[2, 0, 0, 0, 0, 2] none))).2 = none ∧
    ∃ m, (leasesAfter smallPool
      [.datagram (buildDiscover 1 #v[2, 0, 0, 0, 0, 1] none)]).byMac.lookup m =
        some (.new 10 42 0 2) := by
  have hsilent : (serve smallPool
      (leasesAfter smallPool [.datagram (buildDiscover 1 #v[2, 0, 0, 0, 0, 1] none)])
      (.datagram (buildDiscover 2 #v[2, 0, 0, 0, 0, 2] none))).2 = none := by decide +kernel
  refine ⟨by decide, by decide, hsilent, ?_⟩
  exact (server_safety smallPool (by decide) (by decide) _).2.2.2.2.2 _
    (discoverPacket 2 #v[2, 0, 0, 0, 0, 2] none) (by decide +kernel) (by decide) (by decide +kernel)
    hsilent _ (by decide) (by decide)

end Server

end MitosNetwork.DhcpServer
