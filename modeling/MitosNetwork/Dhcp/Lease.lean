import MitosNetwork.Ip.Address

/-!
# Leases

`src/dhcp/lease.rs` and the lease types of `src/dhcp/dhcp6.rs`. Times are seconds since the epoch.
-/

namespace MitosNetwork

structure Lease where
  address : Ipv4Addr
  prefixlen : UInt8
  gateway : Option Ipv4Addr
  dnsServers : List Ipv4Addr
  domain : Option String
  serverId : Ipv4Addr
  leaseTimeSecs : UInt32
  obtainedAtUnix : UInt64
deriving DecidableEq

def Lease.obtainedAt (lease : Lease) : ℕ := lease.obtainedAtUnix.toNat

/-- `renewal_time`: half of the lease has passed. -/
def Lease.renewalTime (lease : Lease) : ℕ :=
  lease.obtainedAtUnix.toNat + lease.leaseTimeSecs.toNat / 2

/-- `rebind_time`: seven eighths of the lease have passed. -/
def Lease.rebindTime (lease : Lease) : ℕ := lease.obtainedAt + lease.leaseTimeSecs.toNat * 7 / 8

def Lease.expiresAt (lease : Lease) : ℕ := lease.obtainedAt + lease.leaseTimeSecs.toNat

structure Lease6 where
  address : Ipv6Addr
  prefixlen : UInt8
  iaid : UInt32
  serverId : List UInt8
  dnsServers : List Ipv6Addr
  domainSearch : List String
  preferredLifetimeSecs : UInt32
  validLifetimeSecs : UInt32
  t1Secs : UInt32
  t2Secs : UInt32
  obtainedAtUnix : UInt64
deriving DecidableEq

def Lease6.obtainedAt (lease : Lease6) : ℕ := lease.obtainedAtUnix.toNat

/-- `renewal_time`: what the server suggests, or half of the valid lifetime. -/
def Lease6.renewalTime (lease : Lease6) : ℕ :=
  lease.obtainedAtUnix.toNat +
    if 0 < lease.t1Secs then lease.t1Secs.toNat else lease.validLifetimeSecs.toNat / 2

/-- `rebind_time`: what the server suggests, or seven eighths of the valid lifetime. -/
def Lease6.rebindTime (lease : Lease6) : ℕ :=
  lease.obtainedAt +
    if 0 < lease.t2Secs then lease.t2Secs.toNat else lease.validLifetimeSecs.toNat * 7 / 8

def Lease6.expiresAt (lease : Lease6) : ℕ := lease.obtainedAt + lease.validLifetimeSecs.toNat

structure StatelessInfo where
  dnsServers : List Ipv6Addr
  domainSearch : List String
deriving DecidableEq

end MitosNetwork
