import MitosNetwork.Common.Follow
import MitosNetwork.Connection.Activation
import MitosNetwork.Sharing.Hotspot

/-!
# Leases and addresses

The part of the outside that a lease is about: the lease files of `src/persistence/state.rs` and the
addresses that the daemon configures on links. `Links.effect` says what calls do to it. An
activation, a deactivation or a hotspot works on one link and on the files of one interface; an
activation that succeeds leaves a lease that it obtained in its file and its address on the link.
-/

namespace MitosNetwork

variable {c : Call} {w : World Call.Answer} {k : ℕ}

inductive LeaseFile where
  | v4 (lease : Lease)
  | v6 (lease : Lease6)
deriving DecidableEq

/-- The addresses of the links, by index, and the files of the lease directory. -/
structure Links where
  addresses : Int32 → List (IpAddr × UInt8)
  files : String → Option LeaseFile

namespace Links

variable {n' path : String} {j : Int32}

/-- `lease_path`. -/
def leasePath (ifname : String) : String := ifname ++ ".json"

/-- `lease6_path`. -/
def lease6Path (ifname : String) : String := ifname ++ ".v6.json"

theorem leasePath_inj {n : String} : leasePath n = leasePath n' ↔ n = n' :=
  String.append_left_inj ".json"

theorem lease6Path_inj {n : String} : lease6Path n = lease6Path n' ↔ n = n' :=
  String.append_left_inj ".v6.json"

theorem leasePath_eq_lease6Path {n : String} : leasePath n = lease6Path n' ↔ n = n' ++ ".v6" := by
  have hpath : lease6Path n' = n' ++ ".v6" ++ ".json" := by
    rw [String.append_assoc]
    rfl
  rw [hpath]
  exact String.append_left_inj ".json"

theorem leasePath_ne_lease6Path (n : String) : leasePath n ≠ lease6Path n := fun h =>
  absurd ((String.append_right_inj n).mp h) (by decide)

/-- The lease that `load_lease` finds. -/
def lease (s : Links) (ifname : String) : Option Lease :=
  match s.files (leasePath ifname) with
  | some (.v4 lease) => some lease
  | _ => none

/-- The lease that `load_lease6` finds. -/
def lease6 (s : Links) (ifname : String) : Option Lease6 :=
  match s.files (lease6Path ifname) with
  | some (.v6 lease) => some lease
  | _ => none

def setAddresses (s : Links) (index : Int32) (addresses : List (IpAddr × UInt8)) : Links :=
  { s with addresses := fun j => if j = index then addresses else s.addresses j }

def addAddress (s : Links) (index : Int32) (address : IpAddr × UInt8) : Links :=
  s.setAddresses index
    (if address ∈ s.addresses index then s.addresses index else s.addresses index ++ [address])

def setFile (s : Links) (path : String) (file : Option LeaseFile) : Links :=
  { s with files := fun p => if p = path then file else s.files p }

/-- What a call and its answer do. A flush that fails may have removed some of the addresses: those
that are `left` stay. Nothing else fails halfway, and a lease is released by removing its file. -/
def effect (left : ℕ → IpAddr × UInt8 → Bool) : Effect Call.Answer Links := fun k s c a =>
  match c, a with
  | .flush index, .ok _ => s.setAddresses index []
  | .flush index, .error _ => s.setAddresses index ((s.addresses index).filter (left k))
  | .addAddress index ip prefixlen, .ok _ => s.addAddress index (ip, prefixlen)
  | .writeLease ifname lease, .ok _ => s.setFile (leasePath ifname) (some (.v4 lease))
  | .writeLease6 ifname lease, .ok _ => s.setFile (lease6Path ifname) (some (.v6 lease))
  | .dhcpRelease ifname, .ok _ => s.setFile (leasePath ifname) none
  | .dhcp6Release ifname, .ok _ => s.setFile (lease6Path ifname) none
  | _, _ => s

variable {left : ℕ → IpAddr × UInt8 → Bool} {s s' s'' : Links} {index : Int32} {n : String}

theorem effect_of_isOffLink (hc : c.isOffLink = true) (k : ℕ) (a : c.Answer) :
    effect left k s c a = s := by
  cases c <;> first | rfl | cases hc

theorem addresses_setAddresses (addresses : List (IpAddr × UInt8)) :
    (s.setAddresses index addresses).addresses index = addresses := if_pos rfl

theorem files_setFile (path : String) (file : Option LeaseFile) :
    (s.setFile path file).files path = file := if_pos rfl

theorem lease_of_files {lease : Lease} (h : s.files (leasePath n) = some (.v4 lease)) :
    s.lease n = some lease := by
  rw [Links.lease, h]

theorem lease6_of_files {lease : Lease6} (h : s.files (lease6Path n) = some (.v6 lease)) :
    s.lease6 n = some lease := by
  rw [Links.lease6, h]

theorem lease_of_files_eq (h : s'.files (leasePath n) = s.files (leasePath n)) :
    s'.lease n = s.lease n := by
  rw [Links.lease, h, Links.lease]

theorem lease6_of_files_eq (h : s'.files (lease6Path n) = s.files (lease6Path n)) :
    s'.lease6 n = s.lease6 n := by
  rw [Links.lease6, h, Links.lease6]

/-! ## One link and one interface -/

/-- Nothing changed but the addresses of the link and the files of the interface. -/
structure SameBut (index : Int32) (n : String) (s s' : Links) : Prop where
  addresses : ∀ j, j ≠ index → s'.addresses j = s.addresses j
  files : ∀ path, path ≠ leasePath n → path ≠ lease6Path n → s'.files path = s.files path

namespace SameBut

theorem refl (index : Int32) (n : String) (s : Links) : SameBut index n s s :=
  ⟨fun _ _ => rfl, fun _ _ _ => rfl⟩

theorem trans (h : SameBut index n s s') (h' : SameBut index n s' s'') : SameBut index n s s'' where
  addresses j hj := (h'.addresses j hj).trans (h.addresses j hj)
  files path hpath hpath6 := (h'.files path hpath hpath6).trans (h.files path hpath hpath6)

theorem setAddresses (addresses : List (IpAddr × UInt8)) :
    SameBut index n s (s.setAddresses index addresses) :=
  ⟨fun _ hj => if_neg hj, fun _ _ _ => rfl⟩

theorem setFile (hpath : path = leasePath n ∨ path = lease6Path n) (file : Option LeaseFile) :
    SameBut index n s (s.setFile path file) := by
  refine ⟨fun _ _ => rfl, fun p hp hp6 => if_neg ?_⟩
  rintro rfl
  exact hpath.elim hp hp6

end SameBut

/-- The call changes no link but this one, and no lease but of this interface. -/
structure Touches (index : Int32) (n : String) (c : Call) : Prop where
  link : ∀ j, c.link = some j → j = index
  leaseOf : ∀ n', c.leaseOf = some n' → n' = n

theorem touches_of_isOffLink (hc : c.isOffLink = true) : Touches index n c := by
  obtain ⟨hlink, hle⟩ := Call.of_isOffLink hc
  exact ⟨fun j hj => (nomatch hlink.symm.trans hj), fun n' hn => (nomatch hle.symm.trans hn)⟩

theorem addresses_effect (hc : c.link ≠ some j) (k : ℕ) (a : c.Answer) :
    (effect left k s c a).addresses j = s.addresses j := by
  cases c with
  | flush i =>
    have hne : j ≠ i := fun h => hc (h ▸ rfl)
    cases a with
    | ok u | error e => exact if_neg hne
  | addAddress i ip prefixlen =>
    have hne : j ≠ i := fun h => hc (h ▸ rfl)
    cases a with
    | ok u => exact if_neg hne
    | error e => rfl
  | writeLease ifname lease | writeLease6 ifname lease | dhcpRelease ifname | dhcp6Release ifname =>
    cases a <;> rfl
  | _ => rfl

theorem files_effect (hc : ∀ n, c.leaseOf = some n → path ≠ leasePath n ∧ path ≠ lease6Path n)
    (k : ℕ) (a : c.Answer) : (effect left k s c a).files path = s.files path := by
  cases c with
  | flush i | addAddress i ip prefixlen => cases a <;> rfl
  | writeLease ifname lease | dhcpRelease ifname =>
    cases a with
    | ok u => exact if_neg (hc ifname rfl).1
    | error e => rfl
  | writeLease6 ifname lease | dhcp6Release ifname =>
    cases a with
    | ok u => exact if_neg (hc ifname rfl).2
    | error e => rfl
  | _ => rfl

theorem sameBut_effect (hc : Touches index n c) (k : ℕ) (a : c.Answer) :
    SameBut index n s (effect left k s c a) where
  addresses j hj := addresses_effect (fun hlink => hj (hc.link j hlink)) k a
  files path hpath hpath6 := by
    refine files_effect (fun n' hn => ?_) k a
    rw [hc.leaseOf n' hn]
    exact ⟨hpath, hpath6⟩

section Follow

variable {N : Type} {log : List (Entry Call.Answer N)}

theorem sameBut_follow (h : ∀ c a, .call c a ∈ log → Touches index n c) (k : ℕ) :
    SameBut index n s (Proc.follow (effect left) k s log) :=
  Proc.follow_invariant (P := SameBut index n s)
    (fun c a hmem k _ hs => hs.trans (sameBut_effect (h c a hmem) k a)) (.refl index n s)

theorem addresses_follow (h : ∀ c a, .call c a ∈ log → c.link ≠ some j) (k : ℕ) :
    (Proc.follow (effect left) k s log).addresses j = s.addresses j :=
  Proc.follow_invariant (P := fun t : Links => t.addresses j = s.addresses j)
    (fun c a hmem k _ ht => (addresses_effect (h c a hmem) k a).trans ht) rfl

theorem files_follow (h : ∀ c a, .call c a ∈ log →
    ∀ n, c.leaseOf = some n → path ≠ leasePath n ∧ path ≠ lease6Path n) (k : ℕ) :
    (Proc.follow (effect left) k s log).files path = s.files path :=
  Proc.follow_invariant (P := fun t : Links => t.files path = s.files path)
    (fun c a hmem k _ ht => (files_effect (h c a hmem) k a).trans ht) rfl

end Follow

end Links

/-! ## Activation -/

def Links.v4 (s : Links) (index : Int32) : List (IpAddr × UInt8) :=
  (s.addresses index).filter (·.1.isIpv4)

namespace Activation

open Links

variable {profile : ConnectionProfile} {sessions : Table String VpnKind}

/-- An activation that is under way: the world that it runs in, the device that it is for, and the
outside as it was when the activation started. -/
structure Setting where
  world : World Call.Answer
  left : ℕ → IpAddr × UInt8 → Bool
  target : NetworkDevice
  before : Links

namespace Setting

variable {t : Links}

abbrev name (x : Setting) : String := x.target.name

abbrev index (x : Setting) : Int32 := x.target.index.toInt32

variable {x : Setting} {α β : Type} {J J' J'' : Links → Prop}

/-- Nothing was touched but the link and the files of the device. -/
def Within (x : Setting) (t : Links) : Prop := SameBut x.index x.name x.before t

/-- The device is the one that is activated. -/
def Holds (x : Setting) (work : Work) : Prop := work.Like x.target

/-- A step of the activation: it leads from `J` to `J'`, and whatever becomes of it, nothing else is
touched. -/
def Step (x : Setting) (J : Links → Prop) (m : TryProg Work α) (J' : Links → Prop) : Prop :=
  Try.Triple x.world (effect x.left) (fun work t => x.Holds work ∧ J t) m
    (fun _ work t => x.Holds work ∧ J' t) fun _ t => x.Within t

namespace Step

variable {m : TryProg Work α}

theorem pure (h : ∀ t, J t → J' t) (y : α) : x.Step J (pure y) J' :=
  Try.Triple.pure fun _ t ht => ⟨ht.1, h t ht.2⟩

theorem bind {g : α → TryProg Work β} (hm : x.Step J m J') (hg : ∀ y, x.Step J' (g y) J'') :
    x.Step J (m >>= g) J'' := Try.Triple.bind hm hg

theorem forM {g : β → TryProg Work Unit} (hg : ∀ y, x.Step J (g y) J) (l : List β) :
    x.Step J (l.forM g) J := by
  induction l with
  | nil => exact pure (fun _ h => h) ()
  | cons y l ih => exact bind (hg y) fun _ => ih

theorem device_bind {g : NetworkDevice → TryProg Work α}
    (h : ∀ dev, dev.name = x.name → x.Step J (g dev) J') : x.Step J (device >>= g) J' := by
  have hdev : Try.Triple x.world (effect x.left) (fun work t => x.Holds work ∧ J t) device
      (fun dev work t => dev.name = x.name ∧ x.Holds work ∧ J t) fun _ t => x.Within t :=
    fun _ _ _ _ ht => ⟨ht.1.name, ht⟩
  exact hdev.bind fun dev => .of_and (h dev)

theorem call (outcome : c.Answer → Result Unit) {m : Prog Work (Result Unit)}
    (hm : ∀ k work, m x.world k work = ⟨outcome (x.world k c), work, [.call c (x.world k c)]⟩)
    (hok : ∀ k t answer, J t → outcome answer = .ok () → J' (effect x.left k t c answer))
    (herr : ∀ k t answer e, J t → outcome answer = .error e →
      x.Within (effect x.left k t c answer)) : x.Step J (attempt m) J' := by
  rintro k j work t ⟨his, ht⟩
  have hrun : (attempt m).run x.world k work =
      ⟨outcome (x.world k c), work, [.call c (x.world k c)]⟩ := hm k work
  rw [hrun]
  show Try.Post _ _ (outcome (x.world k c)) work (effect x.left j t c (x.world k c))
  cases hans : outcome (x.world k c) with
  | ok u => exact ⟨his, hok j t _ ht hans⟩
  | error e => exact herr j t _ e ht hans

section Within

variable (hJ : ∀ t, J t → x.Within t)
include hJ

theorem offLink (hm : OffLink m) : x.Step J m J := by
  refine Try.Triple.mono (fun _ _ h => h) (fun _ _ _ h => h) (fun _ t h => hJ t h.2)
    (.of_invariant (hm.keeps x.world x.target) hm.makes fun c hc k t answer ht => ?_)
  rwa [effect_of_isOffLink hc]

theorem flush (h : ∀ t, J t → J' (t.setAddresses x.index [])) :
    x.Step J (attempt (MitosNetwork.call (.flush x.index))) J' := by
  refine call (c := .flush x.index) (fun answer => answer) (fun _ _ => rfl) ?_ ?_
  · rintro k t _ ht rfl
    exact h t ht
  · rintro k t _ e ht rfl
    exact (hJ t ht).trans (.setAddresses _)

theorem addAddress {ip : IpAddr} {prefixlen : UInt8}
    (h : ∀ t, J t → J' (t.addAddress x.index (ip, prefixlen))) :
    x.Step J (attempt (MitosNetwork.call (.addAddress x.index ip prefixlen))) J' := by
  refine call (c := .addAddress x.index ip prefixlen) (fun answer => answer) (fun _ _ => rfl) ?_ ?_
  · rintro k t _ ht rfl
    exact h t ht
  · rintro k t _ e ht rfl
    exact hJ t ht

theorem writeLease {lease : Lease}
    (h : ∀ t, J t → J' (t.setFile (leasePath x.name) (some (.v4 lease)))) :
    x.Step J (attempt (MitosNetwork.call (.writeLease x.name lease))) J' := by
  refine call (c := .writeLease x.name lease) (fun answer => answer) (fun _ _ => rfl) ?_ ?_
  · rintro k t _ ht rfl
    exact h t ht
  · rintro k t _ e ht rfl
    exact hJ t ht

theorem writeLease6 {lease : Lease6}
    (h : ∀ t, J t → J' (t.setFile (lease6Path x.name) (some (.v6 lease)))) :
    x.Step J (attempt (MitosNetwork.call (.writeLease6 x.name lease))) J' := by
  refine call (c := .writeLease6 x.name lease) (fun answer => answer) (fun _ _ => rfl) ?_ ?_
  · rintro k t _ ht rfl
    exact h t ht
  · rintro k t _ e ht rfl
    exact hJ t ht

end Within

end Step

/-! ### IPv4 -/

structure OnlyAddresses (x : Setting) (t : Links) : Prop where
  within : x.Within t
  files : t.files = x.before.files

theorem OnlyAddresses.setAddresses (h : x.OnlyAddresses t) (addresses : List (IpAddr × UInt8)) :
    x.OnlyAddresses (t.setAddresses x.index addresses) :=
  ⟨h.within.trans (.setAddresses _), h.files⟩

theorem step_applyStatic (profile : ConnectionProfile) :
    x.Step x.OnlyAddresses (applyStatic profile x.index) x.OnlyAddresses := by
  have hwi : ∀ t, x.OnlyAddresses t → x.Within t := fun _ h => h.within
  have hadd : ∀ addr, x.Step x.OnlyAddresses (addStaticAddress x.index addr) x.OnlyAddresses :=
    fun addr => .bind (.offLink hwi (.attempt (.pure _) (.pure _))) fun _ =>
      .addAddress hwi fun _ ht => ht.setAddresses _
  exact .bind (.forM hadd _) fun _ => .offLink hwi (setsUp_applyGateway _ _).offLink

def Flushed (x : Setting) (t : Links) : Prop := t = x.before.setAddresses x.index []

theorem Flushed.onlyAddresses (h : x.Flushed t) : x.OnlyAddresses t := by
  rw [h]
  exact ⟨.setAddresses _, rfl⟩

def Addressed (x : Setting) (lease : Lease) (t : Links) : Prop :=
  x.OnlyAddresses t ∧ t.v4 x.index = [(.v4 lease.address, lease.prefixlen)]

theorem Flushed.addressed (h : x.Flushed t) (lease : Lease) :
    x.Addressed lease (t.addAddress x.index (.v4 lease.address, lease.prefixlen)) := by
  refine ⟨h.onlyAddresses.setAddresses _, ?_⟩
  rw [h, Links.v4, Links.addAddress, addresses_setAddresses, addresses_setAddresses]
  rfl

/-- An IPv4 lease that the method of the profile obtained is in its file and is the only IPv4
address of the link. -/
structure Leased (x : Setting) (profile : ConnectionProfile) (t : Links) : Prop where
  within : x.Within t
  auto : profile.method = .auto → ∃ lease, t.files (leasePath x.name) = some (.v4 lease) ∧
    t.v4 x.index = [(.v4 lease.address, lease.prefixlen)]
  notAuto : profile.method ≠ .auto → t.files (leasePath x.name) = x.before.files (leasePath x.name)

/-- What the method of the profile leaves. -/
structure Applied (x : Setting) (profile : ConnectionProfile) (t : Links) : Prop
    extends x.Leased profile t where
  files6 : t.files (lease6Path x.name) = x.before.files (lease6Path x.name)

theorem Addressed.applied {lease : Lease} (h : x.Addressed lease t)
    (hauto : profile.method = .auto) :
    x.Applied profile (t.setFile (leasePath x.name) (some (.v4 lease))) where
  within := h.1.within.trans (.setFile (.inl rfl) _)
  auto _ := ⟨lease, files_setFile _ _, h.2⟩
  notAuto hne := absurd hauto hne
  files6 := by
    rw [← h.1.files]
    exact if_neg (leasePath_ne_lease6Path x.name).symm

theorem OnlyAddresses.applied (h : x.OnlyAddresses t) (hne : profile.method ≠ .auto) :
    x.Applied profile t where
  within := h.within
  auto hauto := absurd hauto hne
  notAuto _ := congrFun h.files _
  files6 := congrFun h.files _

theorem step_applyDhcp (hauto : profile.method = .auto) :
    x.Step x.Flushed (applyDhcp x.index) (x.Applied profile) := by
  have hflushed : ∀ t, x.Flushed t → x.Within t := fun _ h => h.onlyAddresses.within
  refine .device_bind fun dev hname => ?_
  rw [hname]
  refine .bind (.offLink hflushed (.attempt (.call _) (makes_call rfl))) fun lease => ?_
  have hadr : ∀ t, x.Addressed lease t → x.Within t := fun _ h => h.1.within
  refine .bind (.addAddress hflushed fun _ ht => Flushed.addressed ht lease) fun _ => ?_
  refine .bind (.offLink hadr (setsUp_applyLeaseGateway _ _).offLink) fun _ => ?_
  refine .bind (.offLink hadr (offLink_applyLeaseDns _ _)) fun _ => ?_
  refine .bind (.offLink hadr (.modifyDevice fun _ => ⟨rfl, rfl, rfl, rfl⟩)) fun _ => ?_
  exact .writeLease hadr fun _ ht => Addressed.applied ht hauto

theorem step_applyMethod (profile : ConnectionProfile) :
    x.Step x.Flushed (applyMethod profile x.index) (x.Applied profile) := by
  unfold applyMethod
  split
  · rename_i hmeth
    have hne : profile.method ≠ .auto := by
      rw [hmeth]
      nofun
    exact Try.Triple.mono (fun _ _ h => ⟨h.1, Flushed.onlyAddresses h.2⟩)
      (fun _ _ _ h => ⟨h.1, OnlyAddresses.applied h.2 hne⟩) (fun _ _ h => h)
      (step_applyStatic profile)
  · exact step_applyDhcp ‹_›
  · rename_i hmeth
    exact .pure (fun _ h => (Flushed.onlyAddresses h).applied (by rw [hmeth]; nofun)) ()
  · rename_i hmeth
    exact .pure (fun _ h => (Flushed.onlyAddresses h).applied (by rw [hmeth]; nofun)) ()

/-! ### IPv6 -/

/-- What both methods leave: an IPv6 lease that was obtained is in its file and on the link too. -/
structure Configured (x : Setting) (profile : ConnectionProfile) (t : Links) : Prop
    extends x.Leased profile t where
  dhcp6 : profile.ipv6Method = .dhcp6 → ∃ lease, t.files (lease6Path x.name) = some (.v6 lease) ∧
    (.v6 lease.address, lease.prefixlen) ∈ t.addresses x.index
  notDhcp6 : profile.ipv6Method ≠ .dhcp6 →
    t.files (lease6Path x.name) = x.before.files (lease6Path x.name)

theorem Applied.configured (h : x.Applied profile t) (hne : profile.ipv6Method ≠ .dhcp6) :
    x.Configured profile t :=
  { h with dhcp6 := fun hdhcp6 => absurd hdhcp6 hne, notDhcp6 := fun _ => h.files6 }

theorem v4_addAddress_v6 (t : Links) (index : Int32) (ip : Ipv6Addr) (prefixlen : UInt8) :
    (t.addAddress index (.v6 ip, prefixlen)).v4 index = t.v4 index := by
  rw [Links.v4, Links.addAddress, addresses_setAddresses]
  split
  · rfl
  · rw [List.filter_append]
    exact List.append_nil _

theorem mem_addAddress (t : Links) (index : Int32) (address : IpAddr × UInt8) :
    address ∈ (t.addAddress index address).addresses index := by
  rw [Links.addAddress, addresses_setAddresses]
  split
  · assumption
  · exact List.mem_append_right _ List.mem_cons_self

def Addressed6 (x : Setting) (profile : ConnectionProfile) (lease : Lease6) (t : Links) : Prop :=
  x.Applied profile t ∧ (.v6 lease.address, lease.prefixlen) ∈ t.addresses x.index

theorem Applied.addressed6 (h : x.Applied profile t) (lease : Lease6) :
    x.Addressed6 profile lease (t.addAddress x.index (.v6 lease.address, lease.prefixlen)) := by
  refine ⟨⟨⟨h.within.trans (.setAddresses _), fun hauto => ?_, h.notAuto⟩, h.files6⟩,
    mem_addAddress _ _ _⟩
  rw [v4_addAddress_v6]
  exact h.auto hauto

theorem Addressed6.configured {lease : Lease6} (h : x.Addressed6 profile lease t)
    (hdhcp6 : profile.ipv6Method = .dhcp6) :
    x.Configured profile (t.setFile (lease6Path x.name) (some (.v6 lease))) := by
  have hfile : (t.setFile (lease6Path x.name) (some (.v6 lease))).files (leasePath x.name) =
      t.files (leasePath x.name) := if_neg (leasePath_ne_lease6Path x.name)
  refine ⟨⟨h.1.within.trans (.setFile (.inr rfl) _), fun hauto => ?_, fun hne => ?_⟩,
    fun _ => ⟨lease, files_setFile _ _, h.2⟩, fun hne => absurd hdhcp6 hne⟩
  · rw [hfile]
    exact h.1.auto hauto
  · rw [hfile]
    exact h.1.notAuto hne

theorem step_applyDhcp6 (hdhcp6 : profile.ipv6Method = .dhcp6) :
    x.Step (x.Applied profile) (applyDhcp6 x.index) (x.Configured profile) := by
  have happ : ∀ t, x.Applied profile t → x.Within t := fun _ h => h.within
  refine .device_bind fun dev hname => ?_
  rw [hname]
  refine .bind (.offLink happ (.attempt (.call _) (makes_call rfl))) fun mac => ?_
  refine .bind (.offLink happ (.attempt (.call _) (makes_call rfl))) fun lease => ?_
  have hadr : ∀ t, x.Addressed6 profile lease t → x.Within t := fun _ h => h.1.within
  refine .bind (.addAddress happ fun _ ht => Applied.addressed6 ht lease) fun _ => ?_
  refine .bind (.offLink hadr (offLink_applyLeaseDns _ _)) fun _ => ?_
  refine .bind (.offLink hadr (.modifyDevice fun _ => ⟨rfl, rfl, rfl, rfl⟩)) fun _ => ?_
  exact .writeLease6 hadr fun _ ht => Addressed6.configured ht hdhcp6

theorem step_applyIpv6Method (profile : ConnectionProfile) :
    x.Step (x.Applied profile) (applyIpv6Method profile x.index) (x.Configured profile) := by
  have happ : ∀ t, x.Applied profile t → x.Within t := fun _ h => h.within
  unfold applyIpv6Method
  split
  · rename_i hmeth
    exact .pure (fun _ h => Applied.configured h (by rw [hmeth]; nofun)) ()
  · rename_i hmeth
    refine .bind (.offLink happ (.lift offLink_stateless.keeps offLink_stateless.makes))
      fun _ => ?_
    exact .pure (fun _ h => Applied.configured h (by rw [hmeth]; nofun)) ()
  · exact step_applyDhcp6 ‹_›

/-! ### The whole activation -/

/-- Nothing was touched yet. -/
def Untouched (x : Setting) (t : Links) : Prop := t = x.before

theorem Untouched.within (h : x.Untouched t) : x.Within t := by
  rw [h]
  exact .refl _ _ _

theorem step_configureIp (profile : ConnectionProfile) :
    x.Step x.Untouched (configureIp profile x.index) (x.Configured profile) := by
  have hfl : x.Step x.Untouched (attempt (call (.flush x.index))) x.Flushed := by
    refine .flush (fun _ => Untouched.within) fun t ht => ?_
    rw [ht]
    rfl
  refine .bind (.offLink (fun _ => Untouched.within) (.setState _)) fun _ => ?_
  refine .bind hfl fun _ => ?_
  refine .bind (step_applyMethod profile) fun _ => .bind (step_applyIpv6Method profile) fun _ => ?_
  exact .offLink (fun _ h => h.within) (offLink_applyProfileDns profile)

/-- What a successful activation leaves. A VPN has no address and no lease of its own here. -/
def Activated (x : Setting) (profile : ConnectionProfile) (t : Links) : Prop :=
  if profile.deviceType = .vpn then x.Untouched t else x.Configured profile t

theorem Activated.within (h : x.Activated profile t) : x.Within t := by
  unfold Activated at h
  split at h
  · exact Untouched.within h
  · exact h.within

theorem step_connect (profile : ConnectionProfile) {dev : NetworkDevice}
    (hdev : dev.index.toInt32 = x.index) :
    x.Step x.Untouched (connect profile dev) (x.Activated profile) := by
  have hcfd : profile.deviceType ≠ .vpn → ∀ t, x.Configured profile t →
      x.Activated profile t := by
    intro hne t ht
    rwa [Activated, if_neg hne]
  unfold connect
  rw [hdev]
  split
  · rename_i htype
    refine .bind (.offLink (fun _ => Untouched.within) (setsUp_connectWifi _).offLink) fun _ => ?_
    refine .bind (step_configureIp profile) fun _ => ?_
    exact .pure (hcfd (by rw [htype]; nofun)) _
  · rename_i htype
    refine Try.Triple.mono (fun _ _ h => h) (fun _ _ t h => ⟨h.1, ?_⟩) (fun _ _ h => h)
      (Step.offLink (fun _ => Untouched.within) (setsUp_connectVpn _).offLink)
    rw [Activated, if_pos htype]
    exact h.2
  · rename_i hwifi hvpn
    refine .bind (.offLink (fun _ => Untouched.within) (setsUp_connectLink _).offLink) fun _ => ?_
    refine .bind (step_configureIp profile) fun _ => ?_
    exact .pure (hcfd hvpn) _

end Setting

/-- **What an activation does outside.** It works on the link and the files of its device, and if it
succeeds it leaves the leases that it obtained in their files and on the link. -/
theorem links_of_activate (left : ℕ → IpAddr × UInt8 → Bool) {device : NetworkDevice}
    {act : Ran Call.Answer Empty Work (Result ActiveConnection)}
    (hact : (activate profile).run w k ⟨device, sessions⟩ = act) (j : ℕ) (t : Links) :
    let x : Setting := ⟨w, left, device, t⟩
    x.Within (Proc.follow (effect left) j t act.log) ∧
      ∀ a, act.result = .ok a → x.Activated profile (Proc.follow (effect left) j t act.log) := by
  intro x
  let dev : NetworkDevice := { device with state := .connecting }
  have hcon : x.Step x.Untouched (connect profile dev) (x.Activated profile) :=
    Setting.step_connect profile rfl
  have hactivate : Try.Triple w (effect left) (fun work t => x.Holds work ∧ x.Untouched t)
      (connect profile dev >>= fun deviceName => do
        modifyDevice ({ · with state := .activated, activeConnection := some profile.id })
        return ({ profileId := profile.id, deviceName, state := .activated } : ActiveConnection))
      (fun _ _ t => x.Activated profile t) fun _ t => x.Within t :=
    Try.Triple.bind hcon fun _ => Try.Triple.bind (.modify fun _ _ h => h.2) fun _ =>
      .pure fun _ _ h => h
  have hst : x.Holds ⟨dev, sessions⟩ ∧ x.Untouched t := ⟨⟨rfl, rfl, rfl, rfl⟩, rfl⟩
  have hok : ∀ a, act.result = .ok a →
      x.Activated profile (Proc.follow (effect left) j t act.log) := by
    subst hact
    exact fun a ha => hactivate.of_ok (k := k) ha j hst
  refine ⟨?_, hok⟩
  cases hres : act.result with
  | ok a => exact (hok a hres).within
  | error e =>
    subst hact
    exact hactivate.of_error (k := k) hres j hst

/-! ## Deactivation -/

theorem touches_teardown (dev : NetworkDevice) :
    Try.Makes (Touches dev.index.toInt32 dev.name) (teardown dev) :=
  (minds_teardown (fun _ h => touches_of_isOffLink (isOffLink_of_isSetup h))
    ⟨nofun, fun _ h => (Option.some.inj h).symm⟩ ⟨nofun, fun _ h => (Option.some.inj h).symm⟩
    ⟨fun _ h => (Option.some.inj h).symm, nofun⟩).makes

theorem links_of_deactivate (left : ℕ → IpAddr × UInt8 → Bool) {device : NetworkDevice}
    {down : Ran Call.Answer Empty Work (Result Unit)}
    (hdown : deactivate.run w k ⟨device, sessions⟩ = down) (j : ℕ) (t : Links) :
    SameBut device.index.toInt32 device.name t (Proc.follow (effect left) j t down.log) := by
  let dev : NetworkDevice := { device with state := .deactivating }
  have hmk : Try.Makes (Touches device.index.toInt32 device.name) (teardown dev >>= fun _ =>
      modifyDevice ({ · with state := .disconnected, activeConnection := none
                             ipv4Addresses := [], ipv6Addresses := [] })) :=
    .bind (touches_teardown dev) fun _ => .lift (.modify _)
  subst hdown
  exact sameBut_follow (hmk w k ⟨dev, sessions⟩) j

end Activation

/-! ## Hotspots -/

namespace Hotspot

open Links

def OnLink (index : Int32) (c : Call) : Prop :=
  (∀ i, c.link = some i → i = index) ∧ c.leaseOf = none

theorem onLink_of_isOffLink {index : Int32} (h : c.isOffLink = true) : OnLink index c := by
  obtain ⟨hlink, hle⟩ := Call.of_isOffLink h
  exact ⟨fun i hi => (nomatch hlink.symm.trans hi), hle⟩

def linkNamed (w : World Call.Answer) (k : ℕ) (name : String) : Option Interface :=
  match (w k .listLinks : Result (List Interface)) with
  | .ok links => links.find? fun i => i.name = name
  | .error _ => none

theorem run_getByName (w : World Call.Answer) (k : ℕ) (name : String) (radio : Radio) :
    ∃ result, (getByName name).run w k radio =
        ⟨result, radio, [.call .listLinks (w k .listLinks)]⟩ ∧
      ∀ link, result = .ok link → linkNamed w k name = some link := by
  have hcall : (attempt (call .listLinks) : TryProg Radio (List Interface)).run w k radio =
      ⟨w k .listLinks, radio, [.call .listLinks (w k .listLinks)]⟩ := rfl
  unfold getByName linkNamed
  cases hlk : (w k .listLinks : Result (List Interface)) with
  | error e =>
    rw [hlk] at hcall
    exact ⟨_, Try.run_bind_of_error hcall, fun _ h => (nomatch h)⟩
  | ok links =>
    rw [hlk] at hcall
    rw [Try.run_bind_of_ok hcall]
    cases hfound : links.find? fun i => i.name = name with
    | none => exact ⟨_, rfl, fun _ h => (nomatch h)⟩
    | some link => exact ⟨_, rfl, fun _ h => hfound.trans (congrArg some (Except.ok.inj h))⟩

theorem onLink_start {interface ssid : String} {passphrase uplink : Option String} {radio : Radio}
    {a : c.Answer} (h : .call c a ∈ ((start interface ssid passphrase uplink).run w k radio).log) :
    (∀ i, c.link = some i → ∃ link, linkNamed w k interface = some link ∧ link.index = i) ∧
      c.leaseOf = none := by
  obtain ⟨result, hname, hfound⟩ := run_getByName w k interface radio
  have hlist : ∀ {c : Call} {a : c.Answer},
      .call c a ∈ [(.call .listLinks (w k .listLinks) : Entry Call.Answer Empty)] →
      (∀ i, c.link = some i → ∃ link, linkNamed w k interface = some link ∧ link.index = i) ∧
        c.leaseOf = none := by
    intro c a hmem
    cases List.mem_singleton.mp hmem
    exact ⟨nofun, rfl⟩
  cases result with
  | error e =>
    rw [start, Try.run_bind_of_error hname] at h
    exact hlist h
  | ok link =>
    rw [start, Try.run_bind_of_ok hname] at h
    rcases List.mem_append.mp h with h | h
    · exact hlist h
    · have hon : OnLink link.index c :=
        makes_configure (fun _ _ h => onLink_of_isOffLink (Call.of_hostapdOf h).2)
          (fun _ h => onLink_of_isOffLink (Call.of_isInert h).2)
          ⟨fun _ hi => (Option.some.inj hi).symm, rfl⟩ ⟨fun _ hi => (Option.some.inj hi).symm, rfl⟩
          uplink w _ _ c a h
      exact ⟨fun i hi => ⟨link, hfound link rfl, (hon.1 i hi).symm⟩, hon.2⟩

end Hotspot

end MitosNetwork
