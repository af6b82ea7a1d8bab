import MitosNetwork.Manager.Agreement
import MitosNetwork.Manager.LeasedLinks

/-!
# The lease check

The tick that checks the leases renews the IPv4 leases that are due. What the server answers is
stored, but it is not configured, and IPv6 leases are not looked at. `along_saved_checkLog_iff` says
what follows for one interface, `allConsistent_checkLog_iff` for a whole check, and
`leases_consistent_iff` for the runs of a node, which is a daemon with the links and the lease files
that it works on.
-/

namespace MitosNetwork

open Links NetworkManager List Proc

variable {family : Family}

/-! ## Renewals -/

/-- The family and the interface of the lease that a call renews. No call renews an IPv6 lease:
`dhcp6::renew` is called from nowhere. -/
def Call.renewal : Call → Option (Family × String)
  | .dhcpRenew ifname _ => some (.v4, ifname)
  | _ => none

def renewalOf : Entry Call.Answer ActivateCall → Option (Family × String)
  | .call c _ => c.renewal
  | .note _ => none

def Attempted (log : Daemon.Log) (family : Family) (n : String) : Prop :=
  ∃ e ∈ log, renewalOf e = some (family, n)

theorem attempted_append {log log' : Daemon.Log} {n : String} :
    Attempted (log ++ log') family n ↔ Attempted log family n ∨ Attempted log' family n := by
  unfold Attempted
  simp only [mem_append, or_and_right, exists_or]

theorem not_attempted_v6 (log : Daemon.Log) (n : String) : ¬Attempted log .v6 n := by
  rintro ⟨e, -, hren⟩
  cases e with
  | call c a => cases c <;> cases hren
  | note call => cases hren

namespace NetworkManager

variable {lease : Lease} {k j : ℕ} {path : String}

/-! ## One entry of the check -/

inductive CheckLog (n : String) : Daemon.Log → Prop
  | unreadable (e : NetworkError) : CheckLog n [.call (.readLease n) (Except.error e)]
  | missing : CheckLog n [.call (.readLease n) (Except.ok none)]
  | early {lease : Lease} {now : ℕ} (h : now < lease.renewalTime) :
      CheckLog n [.call (.readLease n) (Except.ok (some lease)), .call .now now]
  | refused {lease : Lease} {now : ℕ} (h : lease.renewalTime ≤ now) (e : NetworkError) :
      CheckLog n [.call (.readLease n) (Except.ok (some lease)), .call .now now,
        .call (.dhcpRenew n lease) (Except.error e)]
  | unsaved {lease : Lease} {now : ℕ} (h : lease.renewalTime ≤ now) (new : Lease)
      (e : NetworkError) :
      CheckLog n [.call (.readLease n) (Except.ok (some lease)), .call .now now,
        .call (.dhcpRenew n lease) (Except.ok new), .call (.writeLease n new) (Except.error e)]
  | saved {lease : Lease} {now : ℕ} (h : lease.renewalTime ≤ now) (new : Lease) :
      CheckLog n [.call (.readLease n) (Except.ok (some lease)), .call .now now,
        .call (.dhcpRenew n lease) (Except.ok new), .call (.writeLease n new) (Except.ok ())]

variable {w : World Call.Answer} {left : ℕ → IpAddr × UInt8 → Bool} {time : ℕ}
  {entry : Σ _ : String, ActiveConnection} {m : NetworkManager} {n : String} {log : Daemon.Log}
  {s : Links}

theorem log_checkLease_of_not_activated (h : entry.2.state ≠ .activated) (k : ℕ) :
    (checkLease entry w k m).log = [] := by
  rw [checkLease, if_neg h]
  rfl

theorem log_renewIfDue {now : ℕ} (hnow : w k .now = now) :
    (renewIfDue n (.ok (some lease)) w k m).log = .call .now now ::
      if lease.renewalTime ≤ now then
        .call (.dhcpRenew n lease) (w (k + 1) (.dhcpRenew n lease)) ::
          (saveRenewed n (w (k + 1) (.dhcpRenew n lease)) w (k + 2) m).log
      else [] := by
  subst hnow
  show _ :: Ran.log ((if lease.renewalTime ≤ _ then _ else _ : M Unit) w (k + 1) m) = _
  split <;> rfl

theorem checkLog_checkLease (h : entry.2.state = .activated) (k : ℕ) :
    CheckLog entry.1 (checkLease entry w k m).log := by
  rw [checkLease, if_pos h]
  show CheckLog entry.1 (.call (.readLease entry.1) (w k (.readLease entry.1)) ::
    (renewIfDue entry.1 (w k (.readLease entry.1)) w (k + 1) m).log)
  cases (w k (.readLease entry.1) : Result (Option Lease)) with
  | error e => exact .unreadable e
  | ok found =>
    cases found with
    | none => exact .missing
    | some lease =>
      obtain ⟨now, hnow⟩ : ∃ now : ℕ, w (k + 1) .now = now := ⟨_, rfl⟩
      rw [log_renewIfDue hnow]
      by_cases hdue : lease.renewalTime ≤ now
      · rw [if_pos hdue]
        cases (w (k + 1 + 1) (.dhcpRenew entry.1 lease) : Result Lease) with
        | error e => exact .refused hdue e
        | ok new =>
          show CheckLog entry.1 [_, _, _, .call (.writeLease entry.1 new) (w _ _)]
          cases (w (k + 1 + 2) (.writeLease entry.1 new) : Result Unit) with
          | error e => exact .unsaved hdue new e
          | ok u => exact .saved hdue new
      · rw [if_neg hdue]
        exact .early (Nat.lt_of_not_le hdue)

theorem allowsPlain_still : AllowsPlain .still := fun _ _ _ => rfl

theorem readOnly_checkLease (entry : Σ _ : String, ActiveConnection) :
    (checkLease entry).ReadOnly := fun _ => obeys_checkLease allowsPlain_still entry

structure SameButFiles (P : String → Prop) (s s' : Links) : Prop where
  addresses : s'.addresses = s.addresses
  files : ∀ path, ¬P path → s'.files path = s.files path

namespace CheckLog

theorem sameButFiles (h : CheckLog n log) (k : ℕ) (s : Links) :
    SameButFiles (· = leasePath n) s (follow (effect left) k s log) := by
  cases h with
  | unreadable e | missing | early h | refused h e | unsaved h new e => exact ⟨rfl, fun _ _ => rfl⟩
  | saved h new => exact ⟨rfl, fun _ hpath => if_neg hpath⟩

theorem eq_of_attempted (h : CheckLog n log) {n' : String} (hatt : Attempted log family n') :
    n' = n := by
  obtain ⟨e, hmem, hren⟩ := hatt
  have hlog : ∀ e ∈ log, ∀ lease, renewalOf e = some lease → lease.2 = n := by
    cases h <;> simp [renewalOf, Call.renewal]
  exact hlog e hmem _ hren

end CheckLog

/-! ## What a check has to find -/

/-- A lease that is stored has the address of the one before it, and one that could not be read was
not due. -/
def isUnchanged (time : ℕ) (s : Links) (c : Call) (a : c.Answer) : Bool :=
  match c, a with
  | .writeLease ifname new, .ok _ => (s.lease ifname).any fun old => new.address = old.address
  | .readLease ifname, .error _ => (s.lease ifname).all fun lease => time < lease.renewalTime
  | _, _ => true

def Saved (time : ℕ) (s : Links) : Entry Call.Answer ActivateCall → Prop
  | .call c a => isUnchanged time s c a
  | .note _ => True

instance (time : ℕ) (s : Links) : DecidablePred (Saved time s)
  | .call c a => inferInstanceAs (Decidable (isUnchanged time s c a = true))
  | .note _ => inferInstanceAs (Decidable True)

/-- The IPv4 lease of the interface is not due, or its renewal was attempted, and it is the IPv4
address of the link. -/
@[mk_iff]
structure Renewed (time : ℕ) (log : Daemon.Log) (s : Links) (index : Int32) (n : String) :
    Prop where
  due : ∀ lease, s.lease n = some lease → time < lease.renewalTime ∨ Attempted log .v4 n
  v4 : ∀ lease, s.lease n = some lease → ∃ len, s.v4 index = [(.v4 lease.address, len)]

theorem renewed_congr {log log' : Daemon.Log} {s s' : Links} {index : Int32}
    (hatt : Attempted log' .v4 n ↔ Attempted log .v4 n) (hle : s'.lease n = s.lease n)
    (hadrs : s'.addresses = s.addresses) :
    Renewed time log' s' index n ↔ Renewed time log s index n := by
  have hv4 : s'.v4 index = s.v4 index := by rw [Links.v4, Links.v4, hadrs]
  rw [renewed_iff, renewed_iff, hle, hatt, hv4]

section Check

variable {index : Int32}
  (hv4 : ∀ lease, s.lease n = some lease → ∃ len, s.v4 index = [(.v4 lease.address, len)])
include hv4

theorem renewed_of_read (hread : some lease = s.lease n)
    (hdue : time < lease.renewalTime ∨ Attempted log .v4 n) : Renewed time log s index n where
  due lease' hlease' := by
    rw [← hread] at hlease'
    cases hlease'
    exact hdue
  v4 := hv4

/-- **One entry of the check.** If the outside is sane, the lease is consistent afterwards exactly
if what was stored has the address of the lease before it, and the lease could be read if it was
due.
-/
theorem along_saved_checkLog_iff (h : CheckLog n log)
    (hsane : Proc.Along (effect left) (Sane time) k s log) :
    Proc.Along (effect left) (Saved time) k s log ↔
      Renewed time log (follow (effect left) k s log) index n := by
  cases h with
  | unreadable e =>
    have hnone : ¬Attempted [.call (.readLease n) (Except.error e)] .v4 n := by
      simp [Attempted, renewalOf, Call.renewal]
    have hsav : isUnchanged time s (.readLease n) (Except.error e) = true ↔
        ∀ lease, s.lease n = some lease → time < lease.renewalTime := by
      show (s.lease n).all (fun lease => time < lease.renewalTime) = true ↔ _
      cases s.lease n <;> simp
    constructor
    · exact fun h => ⟨fun lease hle => .inl (hsav.mp h.1 lease hle), hv4⟩
    · exact fun hren => ⟨hsav.mpr fun lease hle =>
        (hren.due lease hle).resolve_right hnone, trivial⟩
  | missing =>
    have hread : none = s.lease n := of_decide_eq_true hsane.1
    refine iff_of_true ⟨rfl, trivial⟩ ⟨fun lease hle => ?_, hv4⟩
    exact nomatch hread.trans hle
  | early h =>
    obtain ⟨hread, htime, -⟩ := hsane
    exact iff_of_true ⟨rfl, rfl, trivial⟩ (renewed_of_read hv4 (of_decide_eq_true hread)
      (.inl (Nat.lt_of_le_of_lt (Nat.le_of_ble_eq_true htime) h)))
  | refused | unsaved =>
    refine iff_of_true (by repeat' constructor)
      (renewed_of_read hv4 (of_decide_eq_true hsane.1) (.inr ?_))
    simp [Attempted, renewalOf, Call.renewal]
  | @saved lease now h new =>
    have hread : some lease = s.lease n := of_decide_eq_true hsane.1
    have hsav : isUnchanged time s (.writeLease n new) (Except.ok ()) = true ↔
        new.address = lease.address := by
      show (s.lease n).any (fun old => new.address = old.address) = true ↔ _
      rw [← hread]
      exact decide_eq_true_iff
    obtain ⟨len, hon⟩ := hv4 lease hread.symm
    have hnew : (s.setFile (leasePath n) (some (.v4 new))).lease n = some new :=
      lease_of_files (files_setFile _ _)
    constructor
    · rintro ⟨-, -, -, hwrite, -⟩
      refine ⟨fun _ _ => .inr ?_, fun lease' hlease' => ⟨len, ?_⟩⟩
      · simp [Attempted, renewalOf, Call.renewal]
      · obtain rfl : new = lease' := Option.some.inj (hnew.symm.trans hlease')
        rw [hsav.mp hwrite]
        exact hon
    · intro hren
      obtain ⟨len', hon'⟩ := hren.v4 new hnew
      have hadr : [(IpAddr.v4 new.address, len')] = [(IpAddr.v4 lease.address, len)] :=
        hon'.symm.trans hon
      refine ⟨rfl, rfl, rfl, hsav.mpr ?_, trivial⟩
      injection hadr with hpair
      exact IpAddr.v4.inj (Prod.mk.inj hpair).1

end Check

theorem sameButFiles_checkLease (k j : ℕ) (s : Links) :
    SameButFiles (fun path => entry.2.state = .activated ∧ path = leasePath entry.1) s
      (follow (effect left) j s (checkLease entry w k m).log) := by
  by_cases hst : entry.2.state = .activated
  · have hsame : SameButFiles _ s (follow (effect left) j s (checkLease entry w k m).log) :=
      (checkLog_checkLease hst k).sameButFiles j s
    exact ⟨hsame.addresses, fun path hpath => hsame.files path fun heq => hpath ⟨hst, heq⟩⟩
  · rw [log_checkLease_of_not_activated hst]
    exact ⟨rfl, fun _ _ => rfl⟩

theorem eq_of_attempted_checkLease (h : Attempted (checkLease entry w k m).log family n) :
    n = entry.1 := by
  by_cases hst : entry.2.state = .activated
  · exact (checkLog_checkLease hst k).eq_of_attempted h
  · rw [log_checkLease_of_not_activated hst] at h
    obtain ⟨e, he, -⟩ := h
    cases he

theorem along_saved_checkLease_iff {index : Int32} (hv4 : ∀ lease, s.lease entry.1 = some lease →
      ∃ len, s.v4 index = [(.v4 lease.address, len)])
    (hsane : Proc.Along (effect left) (Sane time) j s (checkLease entry w k m).log) :
    Proc.Along (effect left) (Saved time) j s (checkLease entry w k m).log ↔
      (entry.2.state = .activated → Renewed time (checkLease entry w k m).log
        (follow (effect left) j s (checkLease entry w k m).log) index entry.1) := by
  by_cases hst : entry.2.state = .activated
  · rw [along_saved_checkLog_iff hv4 (checkLog_checkLease hst k) hsane]
    exact ⟨fun h _ => h, fun h => h hst⟩
  · rw [log_checkLease_of_not_activated hst]
    exact iff_of_true trivial fun h => absurd h hst

/-! ## All of them -/

variable {entries : List (Σ _ : String, ActiveConnection)}

theorem log_checks_cons :
    ((entry :: entries).forM checkLease w k m).log =
      (checkLease entry w k m).log ++
        (entries.forM checkLease w (k + (checkLease entry w k m).log.length) m).log := by
  have hlog := log_bind (checkLease entry) (fun _ => entries.forM checkLease) w k m
  rw [readOnly_checkLease] at hlog
  exact hlog

theorem sameButFiles_checks (k j : ℕ) (s : Links) :
    SameButFiles (fun path => ∃ entry ∈ entries, entry.2.state = .activated ∧
      path = leasePath entry.1) s
      (follow (effect left) j s (entries.forM checkLease w k m).log) := by
  induction entries generalizing k j s with
  | nil => exact ⟨rfl, fun _ _ => rfl⟩
  | cons entry entries ih =>
    rw [log_checks_cons, follow_append]
    have hhead : SameButFiles _ s (follow (effect left) j s (checkLease entry w k m).log) :=
      sameButFiles_checkLease k j s
    refine ⟨(ih _ _ _).addresses.trans hhead.addresses, fun path hpath => ?_⟩
    rw [exists_mem_cons_iff, not_or] at hpath
    exact ((ih _ _ _).files path hpath.2).trans (hhead.files path hpath.1)

theorem exists_entry_of_attempted (h : Attempted (entries.forM checkLease w k m).log family n) :
    ∃ entry ∈ entries, entry.1 = n := by
  induction entries generalizing k with
  | nil =>
    obtain ⟨e, he, -⟩ := h
    cases he
  | cons entry entries ih =>
    rw [log_checks_cons, attempted_append] at h
    rcases h with h | h
    · exact ⟨entry, mem_cons_self, (eq_of_attempted_checkLease h).symm⟩
    · obtain ⟨entry', hmem, hname⟩ := ih h
      exact ⟨entry', mem_cons_of_mem _ hmem, hname⟩

/-- **The check of the leases**, for entries of different names. -/
theorem along_saved_checks_iff {link : String → Int32}
    (hns : entries.Pairwise fun e e' => e.1 ≠ e'.1) {s : Links}
    (hv4 : ∀ entry ∈ entries, ∀ lease, s.lease entry.1 = some lease →
      ∃ len, s.v4 (link entry.1) = [(.v4 lease.address, len)])
    (hsane : Proc.Along (effect left) (Sane time) j s (entries.forM checkLease w k m).log) :
    Proc.Along (effect left) (Saved time) j s (entries.forM checkLease w k m).log ↔
      ∀ entry ∈ entries, entry.2.state = .activated →
        Renewed time (entries.forM checkLease w k m).log
          (follow (effect left) j s (entries.forM checkLease w k m).log) (link entry.1)
          entry.1 := by
  induction entries generalizing k j s with
  | nil => exact iff_of_true trivial fun _ h => nomatch h
  | cons entry entries ih =>
    obtain ⟨hne, hrest⟩ := pairwise_cons.mp hns
    obtain ⟨hhead, htail⟩ := forall_mem_cons.mp hv4
    rw [log_checks_cons] at hsane ⊢
    rw [along_append] at hsane
    rw [along_append, follow_append, forall_mem_cons, along_saved_checkLease_iff hhead hsane.1]
    -- The head leaves the other leases alone, and the rest leaves the lease of the head alone.
    have hkept : ∀ e ∈ entries, (follow (effect left) j s (checkLease entry w k m).log).lease
        e.1 = s.lease e.1 := fun e he =>
      lease_of_files_eq ((sameButFiles_checkLease k j s).files _ fun ⟨_, heq⟩ =>
        hne e he (leasePath_inj.mp heq).symm)
    rw [ih hrest (fun e he lease hle => ?_) hsane.2]
    · refine and_congr (imp_congr_right fun _ => (renewed_congr ?_ ?_ ?_).symm)
        (forall₂_congr fun e he => imp_congr_right fun _ => (renewed_congr ?_ rfl rfl).symm)
      · rw [attempted_append]
        refine or_iff_left fun h => ?_
        obtain ⟨e, he, hname⟩ := exists_entry_of_attempted h
        exact hne e he hname.symm
      · refine lease_of_files_eq ((sameButFiles_checks _ _ _).files _ fun ⟨e, he, _, heq⟩ => ?_)
        exact hne e he (leasePath_inj.mp heq)
      · exact (sameButFiles_checks _ _ _).addresses
      · rw [attempted_append]
        exact or_iff_right fun h => hne e he (eq_of_attempted_checkLease h).symm
    · rw [hkept e he] at hle
      rw [Links.v4, (sameButFiles_checkLease k j s).addresses]
      exact htail e he lease hle

/-! ## After a check -/

/-- For the stored lease of either family, the renewal time is in the future or a renewal was
attempted, and the address is configured on the link. -/
structure Consistent (time : ℕ) (log : Daemon.Log) (s : Links) (index : Int32) (n : String) :
    Prop where
  due : ∀ lease, s.lease n = some lease → time < lease.renewalTime ∨ Attempted log .v4 n
  due6 : ∀ lease, s.lease6 n = some lease → time < lease.renewalTime ∨ Attempted log .v6 n
  carries : s.Carries index n

def AllConsistent (time : ℕ) (log : Daemon.Log) (m : NetworkManager) (s : Links) : Prop :=
  ∀ n a dev, m.active.lookup n = some a → a.state = .activated → m.devices.get n = some dev →
    Consistent time log s dev.index.toInt32 n

/-- What a check has to find: each lease that it stores has the address of the one before it, none
that it could not read was due, and no IPv6 lease is. -/
structure RenewsInPlace (left : ℕ → IpAddr × UInt8 → Bool) (time : ℕ) (log : Daemon.Log)
    (m : NetworkManager) (s : Links) : Prop where
  saved : Proc.Along (effect left) (Saved time) 0 s log
  notDue6 : ∀ n a, m.active.lookup n = some a → a.state = .activated →
    ∀ lease, s.lease6 n = some lease → time < lease.renewalTime

def checkLog (w : World Call.Answer) (m : NetworkManager) : Daemon.Log :=
  let order : Order (Σ _ : String, ActiveConnection) := w 0 .activeOrder
  .call .activeOrder order :: ((order.arrange m.active.entries).forM checkLease w 1 m).log

theorem run_leaseCheck :
    (Daemon.Stage.program (.command (.tick .leaseCheck))).run w m = ⟨none, m, checkLog w m⟩ := by
  let order : Order (Σ _ : String, ActiveConnection) := w 0 .activeOrder
  have hst : ((order.arrange m.active.entries).forM checkLease w 1 m).state = m :=
    Proc.Obeys.forM (obeys_checkLease allowsPlain_still) _ 1 m
  show Ran.mk none ((order.arrange m.active.entries).forM checkLease w 1 m).state
    (checkLog w m ++ []) = _
  rw [hst, append_nil]

theorem addresses_checkLog :
    (follow (effect left) 0 s (checkLog w m)).addresses = s.addresses :=
  (sameButFiles_checks 1 1 s).addresses

theorem attempted_checkLog (n : String) :
    let order : Order (Σ _ : String, ActiveConnection) := w 0 .activeOrder
    Attempted (checkLog w m) .v4 n ↔
      Attempted ((order.arrange m.active.entries).forM checkLease w 1 m).log .v4 n := by
  intro order
  show Attempted ([.call .activeOrder order] ++ _) .v4 n ↔ _
  rw [attempted_append]
  refine or_iff_right ?_
  simp [Attempted, renewalOf, Call.renewal]

section LeaseCheck

variable (hs : m.Leased s)
include hs

theorem files6_checkLog {a : ActiveConnection} (ha : m.active.lookup n = some a) :
    (follow (effect left) 0 s (checkLog w m)).files (lease6Path n) = s.files (lease6Path n) := by
  refine (sameButFiles_checks 1 1 s).files _ fun ⟨entry, hent, _, heq⟩ => ?_
  have hentry' := Table.mem_entries_iff.mp ((Order.mem_arrange _).mp hent)
  obtain ⟨dev, hdev, -⟩ := hs.carries n a ha
  obtain ⟨dev', hdev', -⟩ := hs.carries entry.1 entry.2 hentry'
  have hname : entry.1 = n ++ ".v6" := leasePath_eq_lease6Path.mp heq.symm
  have hne : entry.1 ≠ n := fun hn => leasePath_ne_lease6Path n (hn ▸ heq.symm)
  exact (hs.apart entry.1 n dev' dev hdev' hdev hne).2 hname

/-- **What a check leaves.** If the outside is sane, then after a check of leases that are on their
links all of them are consistent exactly if they were renewed in place and no IPv6 lease was due. -/
theorem allConsistent_checkLog_iff
    (hsane : Proc.Along (effect left) (Sane time) 0 s (checkLog w m)) :
    AllConsistent time (checkLog w m) m (follow (effect left) 0 s (checkLog w m)) ↔
      RenewsInPlace left time (checkLog w m) m s := by
  let order : Order (Σ _ : String, ActiveConnection) := w 0 .activeOrder
  let link : String → Int32 := fun n => ((m.devices.get n).map (·.index.toInt32)).getD 0
  have hlink : ∀ n dev, m.devices.get n = some dev → link n = dev.index.toInt32 := by
    intro n dev hdev
    show ((m.devices.get n).map (·.index.toInt32)).getD 0 = _
    rw [hdev]
    rfl
  have hents : ∀ entry, entry ∈ order.arrange m.active.entries ↔
      m.active.lookup entry.1 = some entry.2 := fun entry =>
    (Order.mem_arrange _).trans Table.mem_entries_iff
  have hns : (order.arrange m.active.entries).Pairwise fun e e' => e.1 ≠ e'.1 :=
    ((order.perm m.active.entries).pairwise_iff fun h => h.symm).mpr
      (nodupKeys_iff_pairwise.mp m.active.nodupKeys)
  have hv4 : ∀ entry ∈ order.arrange m.active.entries, ∀ lease, s.lease entry.1 = some lease →
      ∃ len, s.v4 (link entry.1) = [(.v4 lease.address, len)] := by
    intro entry hent lease hle
    obtain ⟨dev, hdev, -, hcarries⟩ := hs.carries entry.1 entry.2 ((hents entry).mp hent)
    rw [hlink _ dev hdev]
    exact hcarries.v4 lease hle
  have hsav : Proc.Along (effect left) (Saved time) 0 s (checkLog w m) ↔
      ∀ entry ∈ order.arrange m.active.entries, entry.2.state = .activated →
        Renewed time (checkLog w m) (follow (effect left) 0 s (checkLog w m)) (link entry.1)
          entry.1 := by
    refine (and_iff_right rfl).trans ((along_saved_checks_iff hns hv4 hsane.2).trans ?_)
    exact forall₂_congr fun entry _ => imp_congr_right fun _ =>
      (renewed_congr (attempted_checkLog entry.1) rfl rfl).symm
  have hlease6 : ∀ n a, m.active.lookup n = some a →
      (follow (effect left) 0 s (checkLog w m)).lease6 n = s.lease6 n := fun n a ha =>
    lease6_of_files_eq (files6_checkLog hs ha)
  constructor
  · refine fun h => ⟨hsav.mpr fun entry hent hst => ?_, fun n a ha hst lease hle => ?_⟩
    · have ha := (hents entry).mp hent
      obtain ⟨dev, hdev, -⟩ := hs.carries entry.1 entry.2 ha
      have hcon := h entry.1 entry.2 dev ha hst hdev
      rw [hlink _ dev hdev]
      exact ⟨hcon.due, hcon.carries.v4⟩
    · obtain ⟨dev, hdev, -⟩ := hs.carries n a ha
      rw [← hlease6 n a ha] at hle
      exact ((h n a dev ha hst hdev).due6 lease hle).resolve_right (not_attempted_v6 _ _)
  · intro h n a dev ha hst hdev
    have hren := hsav.mp h.saved ⟨n, a⟩ ((hents _).mpr ha) hst
    rw [hlink n dev hdev] at hren
    refine ⟨hren.due, fun lease hle => .inl ?_, hren.v4, fun lease hle => ?_⟩
    · rw [hlease6 n a ha] at hle
      exact h.notDue6 n a ha hst lease hle
    · rw [hlease6 n a ha] at hle
      obtain ⟨dev', hdev', -, hcarries⟩ := hs.carries n a ha
      obtain rfl : dev = dev' := Option.some.inj (hdev.symm.trans hdev')
      rw [addresses_checkLog]
      exact hcarries.v6 lease hle

theorem leased_checkLog
    (h : AllConsistent time (checkLog w m) m (follow (effect left) 0 s (checkLog w m))) :
    m.Leased (follow (effect left) 0 s (checkLog w m)) := by
  refine ⟨hs.apart, fun n a ha => ?_⟩
  obtain ⟨dev, hdev, hcon, hcarries⟩ := hs.carries n a ha
  refine ⟨dev, hdev, hcon, ?_⟩
  by_cases hst : a.state = .activated
  · exact (h n a dev ha hst hdev).carries
  · refine hcarries.congr (congrFun addresses_checkLog _) ?_ (files6_checkLog hs ha)
    -- An entry that is not activated is passed over.
    refine (sameButFiles_checks 1 1 s).files _ fun ⟨entry, hent, hact, heq⟩ => ?_
    have hentry' := Table.mem_entries_iff.mp ((Order.mem_arrange _).mp hent)
    rw [← leasePath_inj.mp heq, ha] at hentry'
    cases hentry'
    exact hst hact

end LeaseCheck

end NetworkManager

/-! ## Whole runs -/

/-- A daemon, with the links and the lease files that it works on. -/
structure Node where
  daemon : Daemon
  links : Links

namespace Node

variable {x : Node} {d : Daemon} {renewed : Lease} {time : ℕ}

/-- A stage of the daemon and the world it is taken in, with what a flush leaves that fails there,
and the time at which it starts. -/
structure Input where
  stage : Daemon.Stage
  world : World Call.Answer
  left : ℕ → IpAddr × UInt8 → Bool
  time : ℕ

def step (x : Node) (i : Input) : Node × Daemon.Log :=
  let stepped := x.daemon.step (i.stage, i.world)
  (⟨stepped.1, follow (effect i.left) 0 x.links stepped.2.log⟩, stepped.2.log)

def Checks (x : Node) (i : Input) : Prop :=
  x.daemon.running = true ∧ i.stage = .command (.tick .leaseCheck)

def ConsistentAfter (x : Node) (i : Input) : Prop :=
  Checks x i → AllConsistent i.time (x.step i).2 (x.step i).1.daemon.manager (x.step i).1.links

def InPlace (x : Node) (i : Input) : Prop :=
  Checks x i → RenewsInPlace i.left i.time (x.step i).2 x.daemon.manager x.links

/-- Nothing but its own device is disturbed by a stage, and the outside is sane. -/
structure Undisturbed (x : Node) (i : Input) : Prop where
  apart : LinksApart x.daemon.manager.devices
  leaves : LeavesLinks i.world x.daemon.manager i.stage
  sane : Proc.Along (effect i.left) (Sane i.time) 0 x.links (x.step i).2

variable {i : Input}

theorem step_of_not_running (h : x.daemon.running ≠ true) : x.step i = (x, []) := by
  rw [step, Daemon.step, if_neg h]
  rfl

theorem step_of_running (h : x.daemon.running = true) :
    x.step i =
      let ran := i.stage.program.run i.world x.daemon.manager
      (⟨⟨ran.state, i.stage.goesOn⟩, follow (effect i.left) 0 x.links ran.log⟩, ran.log) := by
  rw [step, Daemon.step, if_pos h]

theorem step_of_checks (h : Checks x i) :
    x.step i = (⟨⟨x.daemon.manager, true⟩,
      follow (effect i.left) 0 x.links (checkLog i.world x.daemon.manager)⟩,
      checkLog i.world x.daemon.manager) := by
  rw [step_of_running h.1, h.2, run_leaseCheck]
  rfl

theorem leased_step (hx : x.daemon.manager.Leased x.links) (hi : Undisturbed x i)
    (hafter : ConsistentAfter x i) : (x.step i).1.daemon.manager.Leased (x.step i).1.links := by
  by_cases hrun : x.daemon.running = true
  · by_cases hstg : i.stage = .command (.tick .leaseCheck)
    · have hcon := hafter ⟨hrun, hstg⟩
      rw [step_of_checks ⟨hrun, hstg⟩] at hcon ⊢
      exact leased_checkLog hx hcon
    · have hsane := hi.sane
      rw [step_of_running hrun] at hsane ⊢
      exact obeysAt_program_leasing hi.leaves hstg 0 x.links hsane hx
  · rw [step_of_not_running hrun]
    exact hx

/-- **Leases and interfaces.** In every run of the daemon whose stages are undisturbed, the leases
are consistent after every check if and only if every check finds no IPv6 lease that is due and
stores no lease but with the address that the interface has. -/
theorem leases_consistent_iff (r : Daemon.Run) (d : Daemon) (hinit : r.initial = some d)
    (links : Links) (inputs : List Input)
    (hundisturbed : Machine.AllSteps step Undisturbed ⟨d, links⟩ inputs) :
    Machine.AllSteps step ConsistentAfter ⟨d, links⟩ inputs ↔
      Machine.AllSteps step InPlace ⟨d, links⟩ inputs := by
  have hiff : ∀ (x : Node) (i : Input),
      (LinksApart x.daemon.manager.devices → x.daemon.manager.Leased x.links) →
      Undisturbed x i → (ConsistentAfter x i ↔ InPlace x i) := by
    intro x i hx hi
    refine imp_congr_right fun hchecks => ?_
    have hsane := hi.sane
    rw [step_of_checks hchecks] at hsane ⊢
    exact allConsistent_checkLog_iff (hx hi.apart) hsane
  refine Machine.allSteps_iff_of_invariant (I := fun x : Node =>
    LinksApart x.daemon.manager.devices → x.daemon.manager.Leased x.links)
    (fun x i hx hi hG _ => ?_) hiff (fun hapart => ⟨hapart, fun n a ha => ?_⟩) hundisturbed
  · exact leased_step (hx hi.apart) hi ((hiff x i hx hi).mpr hG)
  · rw [Daemon.active_initial hinit] at ha
    cases ha

/-! ### One device -/

/-- A machine with one Ethernet link where DHCP servers answer. -/
def served (acquired renewed : Lease) (acquired6 : Lease6) (stored : Option Lease) (now : ℕ) :
    World Call.Answer := fun _ c =>
  match c with
  | .now => now
  | .dhcpAcquire _ _ => Except.ok acquired
  | .dhcpRenew _ _ => Except.ok renewed
  | .readLease _ => Except.ok stored
  | .getMac _ => Except.ok (Vector.replicate 6 2)
  | .dhcp6StatefulLease _ _ => Except.ok acquired6
  | c => calm [Daemon.wired 2 "eth0"] (.ok ()) c

def hourLease (host : UInt8) (obtained : UInt64) : Lease :=
  ⟨.new 10 0 0 host, 24, none, [], none, .new 10 0 0 1, 3600, obtained⟩

/-- An IPv6 lease that is to be renewed after two hours. -/
def hoursLease6 : Lease6 :=
  ⟨.ofOctets (0xfd :: List.replicate 14 0 ++ [5]), 128, 1, [], [], [], 14400, 14400, 7200, 10800, 0⟩

def officeStart : Daemon.Run := Daemon.wiredRun ["lo"] [Daemon.wired 2 "eth0"] []

/-- A profile that obtains leases of both families is added and activated, and the leases are
checked at some time, when the server answers a renewal with this lease. -/
def officeInputs (renewed : Lease) (time : ℕ) : List Input :=
  let profile : ConnectionProfile :=
    { Daemon.wiredProfile "office" false with method := .auto, ipv6Method := .dhcp6 }
  let input (command : Command) (stored : Option Lease) (time : ℕ) : Input :=
    { stage := .command command
      world := served (hourLease 5 0) renewed hoursLease6 stored time
      left := fun _ _ => false
      time := time }
  [input (.request (.addConnection profile) ⟨0, 0, 1⟩) none 0,
    input (.request (.activateConnection "office") ⟨0, 0, 1⟩) none 0,
    input (.tick .leaseCheck) (some (hourLease 5 0)) time]

/-- No addresses and no leases. -/
def bare : Links := ⟨fun _ => [], fun _ => none⟩

def officeBefore (d : Daemon) (renewed : Lease) (time : ℕ) : Node :=
  Machine.finalState step ⟨d, bare⟩ ((officeInputs renewed time).take 2)

def officeAfter (d : Daemon) (renewed : Lease) (time : ℕ) : Node :=
  Machine.finalState step ⟨d, bare⟩ (officeInputs renewed time)

def AnswersRenewals (inputs : List Input) : Prop :=
  ∀ i ∈ inputs, ∀ k ifname lease, ∃ new, i.world k (.dhcpRenew ifname lease) = Except.ok new

theorem answersRenewals_officeInputs (renewed : Lease) (time : ℕ) :
    AnswersRenewals (officeInputs renewed time) := by
  intro i hi k ifname lease
  refine ⟨renewed, ?_⟩
  simp only [officeInputs, mem_cons, not_mem_nil, or_false] at hi
  rcases hi with rfl | rfl | rfl <;> rfl

def Ordinary (x : Node) (i : Input) : Prop :=
  x.daemon.manager.devices.values.map (·.name) = ["eth0"] ∧
    Proc.Along (effect i.left) (Sane i.time) 0 x.links (x.step i).2

instance (x : Node) (i : Input) : Decidable (Ordinary x i) :=
  inferInstanceAs (Decidable (_ ∧ _))

theorem Ordinary.undisturbed (h : Ordinary x i)
    (hleaves : LeavesLinks i.world x.daemon.manager i.stage) : Undisturbed x i where
  apart n n' dev dev' hdev hdev' hne := by
    have hname : ∀ n dev, x.daemon.manager.devices.get n = some dev → n = "eth0" := by
      intro n dev hdev
      obtain rfl := DeviceRegistry.name_of_get hdev
      exact mem_singleton.mp
        (h.1 ▸ mem_map_of_mem (DeviceRegistry.mem_values.mpr hdev))
    exact absurd ((hname n dev hdev).trans (hname n' dev' hdev').symm) hne
  leaves := hleaves
  sane := h.2

theorem undisturbed_officeInputs
    (h : Machine.AllSteps step Ordinary ⟨d, bare⟩ (officeInputs renewed time)) :
    Machine.AllSteps step Undisturbed ⟨d, bare⟩ (officeInputs renewed time) :=
  ⟨h.1.undisturbed ⟨nofun, nofun⟩, h.2.1.undisturbed ⟨nofun, nofun⟩,
    h.2.2.1.undisturbed ⟨nofun, nofun⟩, trivial⟩

/-- The device is up on link 2 when the leases are checked. -/
def OfficeUp (d : Daemon) (renewed : Lease) (time : ℕ) : Prop :=
  (officeBefore d renewed time).daemon.running = true ∧
    ((officeAfter d renewed time).daemon.manager.active.lookup "eth0").map (·.state) =
      some .activated ∧
    ((officeAfter d renewed time).daemon.manager.devices.get "eth0").map (·.index) = some 2

instance (d : Daemon) (renewed : Lease) (time : ℕ) : Decidable (OfficeUp d renewed time) :=
  inferInstanceAs (Decidable (_ ∧ _ ∧ _))

theorem consistent_officeAfter (hup : OfficeUp d renewed time)
    (h : Machine.AllSteps step ConsistentAfter ⟨d, bare⟩ (officeInputs renewed time)) :
    ∃ log, Consistent time log (officeAfter d renewed time).links 2 "eth0" := by
  obtain ⟨hrun, hact, hdevice⟩ := hup
  obtain ⟨a, ha, hst⟩ := Option.map_eq_some_iff.mp hact
  obtain ⟨dev, hdev, hidx⟩ := Option.map_eq_some_iff.mp hdevice
  have hcon := h.2.2.1 ⟨hrun, rfl⟩ "eth0" a dev ha hst hdev
  rw [hidx] at hcon
  exact ⟨_, hcon⟩

/-- The server that renews the IPv4 lease gives another address, which only the file gets; and an
IPv6 lease falls due, and nothing renews it. -/
theorem leases_drift :
    ∃ d, officeStart.initial = some d ∧
      (AnswersRenewals (officeInputs (hourLease 9 2000) 2000) ∧
        Machine.AllSteps step Undisturbed ⟨d, bare⟩ (officeInputs (hourLease 9 2000) 2000) ∧
        (officeAfter d (hourLease 9 2000) 2000).links.lease "eth0" = some (hourLease 9 2000) ∧
        (officeAfter d (hourLease 9 2000) 2000).links.v4 2 = [(.v4 (.new 10 0 0 5), 24)] ∧
        ¬Machine.AllSteps step ConsistentAfter ⟨d, bare⟩ (officeInputs (hourLease 9 2000) 2000)) ∧
      (AnswersRenewals (officeInputs (hourLease 5 8000) 8000) ∧
        Machine.AllSteps step Undisturbed ⟨d, bare⟩ (officeInputs (hourLease 5 8000) 8000) ∧
        (officeAfter d (hourLease 5 8000) 8000).links.lease6 "eth0" = some hoursLease6 ∧
        hoursLease6.renewalTime ≤ 8000 ∧
        ¬Machine.AllSteps step ConsistentAfter ⟨d, bare⟩
          (officeInputs (hourLease 5 8000) 8000)) := by
  have hinit := (Option.some_get (show officeStart.initial.isSome by decide +kernel)).symm
  have hlink : (officeAfter (officeStart.initial.get (by decide +kernel)) (hourLease 9 2000)
      2000).links.v4 2 = [(.v4 (.new 10 0 0 5), 24)] := by decide +kernel
  refine ⟨_, hinit, ⟨answersRenewals_officeInputs _ _, undisturbed_officeInputs (by decide +kernel),
    by decide +kernel, hlink, fun h => ?_⟩, answersRenewals_officeInputs _ _,
    undisturbed_officeInputs (by decide +kernel), by decide +kernel, by decide, fun h => ?_⟩
  · obtain ⟨log, hconsistent⟩ := consistent_officeAfter (by decide +kernel) h
    obtain ⟨len, hother⟩ := hconsistent.carries.v4 (hourLease 9 2000) (by decide +kernel)
    injection hother with hpair
    exact absurd (IpAddr.v4.inj (Prod.mk.inj hpair).1) (by decide)
  · obtain ⟨log, hconsistent⟩ := consistent_officeAfter (by decide +kernel) h
    rcases hconsistent.due6 hoursLease6 (by decide +kernel) with hlate | hattempted
    · exact absurd hlate (by decide)
    · exact not_attempted_v6 _ _ hattempted

/-- The server that renews the lease gives the same address again, and the IPv6 lease is not due
yet. -/
theorem leases_consistent_iff_sameAddress :
    ∃ d, officeStart.initial = some d ∧
      Machine.AllSteps step Undisturbed ⟨d, bare⟩ (officeInputs (hourLease 5 2000) 2000) ∧
      (officeAfter d (hourLease 5 2000) 2000).links.lease "eth0" = some (hourLease 5 2000) ∧
      Machine.AllSteps step ConsistentAfter ⟨d, bare⟩ (officeInputs (hourLease 5 2000) 2000) := by
  have hinit := (Option.some_get (show officeStart.initial.isSome by decide +kernel)).symm
  have hactive : (officeBefore (officeStart.initial.get (by decide +kernel)) (hourLease 5 2000)
      2000).daemon.manager.active.entries.map (·.1) = ["eth0"] := by decide +kernel
  have hlease6 : (officeBefore (officeStart.initial.get (by decide +kernel)) (hourLease 5 2000)
      2000).links.lease6 "eth0" = some hoursLease6 := by decide +kernel
  have hundisturbed := @undisturbed_officeInputs (officeStart.initial.get (by decide +kernel))
    (hourLease 5 2000) 2000 (by decide +kernel)
  refine ⟨_, hinit, hundisturbed, by decide +kernel,
    (leases_consistent_iff officeStart _ hinit bare _ hundisturbed).mpr ?_⟩
  refine ⟨fun h => (nomatch h.2), fun h => (nomatch h.2),
    fun _ => ⟨by decide +kernel, fun n a ha _ lease hfound => ?_⟩, trivial⟩
  obtain rfl : n = "eth0" := by
    rw [← mem_singleton, ← hactive]
    exact mem_map_of_mem (Table.mem_entries_iff.mpr ha)
  obtain rfl : hoursLease6 = lease := Option.some.inj (hlease6.symm.trans hfound)
  decide

end Node

end MitosNetwork
