import MitosNetwork.Dhcp.Client
import MitosNetwork.Dhcp.Dhcp6

/-!
# The times of a lease

A DHCPv4 lease has one lifetime and all its times are fractions of it. A DHCPv6 lease takes T1 and
T2 from the server and falls back on fractions of the valid lifetime for each of them on its own, so
its times are in order only if the server made them so.
-/

namespace MitosNetwork

/-- The times of a lease follow each other. -/
def InOrder (obtained renewal rebind expires : ℕ) : Prop :=
  obtained ≤ renewal ∧ renewal ≤ rebind ∧ rebind ≤ expires

def Lease.TimesInOrder (lease : Lease) : Prop :=
  InOrder lease.obtainedAt lease.renewalTime lease.rebindTime lease.expiresAt

def Lease6.TimesInOrder (lease : Lease6) : Prop :=
  InOrder lease.obtainedAt lease.renewalTime lease.rebindTime lease.expiresAt

/-- What the server has to send. Without T2 only T1 can be too late; with T2 it has to be within the
valid lifetime and not before T1, or before half of that lifetime if there is no T1. -/
def Dhcp6.IaNa.TimersInOrder (ia : IaNa) : Prop :=
  if ia.t2 = 0 then ia.t1.toNat ≤ ia.validLifetime.toNat * 7 / 8
  else
    ia.t2 ≤ ia.validLifetime ∧
      if ia.t1 = 0 then ia.validLifetime.toNat / 2 ≤ ia.t2.toNat else ia.t1 ≤ ia.t2

theorem Lease.timesInOrder (lease : Lease) : lease.TimesInOrder := by
  refine ⟨Nat.le_add_right _ _, Nat.add_le_add_left ?_ _, Nat.add_le_add_left ?_ _⟩ <;> omega

theorem Dhcp6.timers_of_leaseFromReply {now : UInt64} {ia : IaNa} {serverId : List UInt8}
    {dns : List Ipv6Addr} {search : List String} {lease : Lease6}
    (h : leaseFromReply now ia serverId dns search = .ok lease) :
    lease.t1Secs = ia.t1 ∧ lease.t2Secs = ia.t2 ∧ lease.validLifetimeSecs = ia.validLifetime := by
  obtain ⟨_, _, h⟩ := of_bind_eq_ok h
  obtain ⟨_, _, h⟩ := of_bind_eq_ok h
  cases h
  exact ⟨rfl, rfl, rfl⟩

theorem Lease6.timesInOrder_iff {lease : Lease6} {ia : Dhcp6.IaNa} (h1 : lease.t1Secs = ia.t1)
    (h2 : lease.t2Secs = ia.t2) (hvalid : lease.validLifetimeSecs = ia.validLifetime) :
    lease.TimesInOrder ↔ ia.TimersInOrder := by
  have hpos (t : UInt32) : 0 < t ↔ ¬t = 0 := by
    rw [UInt32.lt_iff_toNat_lt, ← UInt32.toNat_inj, UInt32.toNat_zero, Nat.pos_iff_ne_zero]
  simp only [TimesInOrder, InOrder, obtainedAt, renewalTime, rebindTime, expiresAt,
    Dhcp6.IaNa.TimersInOrder, h1, h2, hvalid, hpos, UInt32.le_iff_toNat_le]
  by_cases ht1 : ia.t1 = 0 <;> by_cases ht2 : ia.t2 = 0 <;> simp [ht1, ht2] <;> omega

/-- **The times of a lease.** They are in order for every lease of an ACK, and for a lease of a
Reply exactly if the server's timers are. -/
theorem times_inOrder_iff (now : UInt64) (ack : Dhcp4.Packet) (server : Ipv4Addr) (ia : Dhcp6.IaNa)
    (serverId : List UInt8) (dns : List Ipv6Addr) (search : List String) :
    (∀ lease, DhcpClient.leaseFromAck ack server now = .ok lease → lease.TimesInOrder) ∧
    ∀ lease, Dhcp6.leaseFromReply now ia serverId dns search = .ok lease →
      (lease.TimesInOrder ↔ ia.TimersInOrder) := by
  refine ⟨fun lease _ => lease.timesInOrder, fun lease h => ?_⟩
  obtain ⟨h1, h2, hvalid⟩ := Dhcp6.timers_of_leaseFromReply h
  exact Lease6.timesInOrder_iff h1 h2 hvalid

def hourOf (t1 t2 : UInt32) : Dhcp6.IaNa :=
  ⟨1, t1, t2, some (.ofOctets (.replicate 16 0)), 3600, 3600, none⟩

/-- T1 after 1800 seconds and T2 after 2880. -/
theorem times_inOrder_hour :
    (∃ lease, DhcpClient.leaseFromAck (Dhcp4.baseRequest 7 (.replicate 6 2) 0) (.new 10 42 0 1) 0 =
        .ok lease ∧ lease.TimesInOrder) ∧
    ∃ lease,
      Dhcp6.leaseFromReply 0 (hourOf 1800 2880) [] [] [] = .ok lease ∧ lease.TimesInOrder := by
  obtain ⟨hack, hreply⟩ := times_inOrder_iff 0 (Dhcp4.baseRequest 7 (.replicate 6 2) 0)
    (.new 10 42 0 1) (hourOf 1800 2880) [] [] []
  exact ⟨⟨_, rfl, hack _ rfl⟩, _, rfl, (hreply _ rfl).mpr ⟨by decide, by decide⟩⟩

/-- The bytes of such an IA_NA with T2 after ten minutes and no T1. -/
def earlyRebind : List UInt8 :=
  [0, 0, 0, 1, 0, 0, 0, 0, 0, 0, 2, 88, 0, 5, 0, 24] ++ .replicate 16 0 ++
    [0, 0, 14, 16, 0, 0, 14, 16]

/-- The client would renew the lease twenty minutes after it is to rebind it. -/
theorem times_outOfOrder :
    ∃ ia lease, Dhcp6.parseIaNa earlyRebind = some ia ∧
      Dhcp6.leaseFromReply 0 ia [] [] [] = .ok lease ∧
      lease.rebindTime = 600 ∧ lease.renewalTime = 1800 ∧ ¬lease.TimesInOrder := by
  refine ⟨hourOf 0 600, _, by decide +kernel, rfl, rfl, rfl, ?_⟩
  exact fun h => absurd h.2.1 (by decide)

end MitosNetwork
