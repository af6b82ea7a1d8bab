import MitosNetwork.Connection.NameServers
import MitosNetwork.Dhcp.Client
import MitosNetwork.Dhcp.Dhcp6
import MitosNetwork.Dns.ReadBack

/-!
# The domains of a lease in resolv.conf

What a DHCP server sends as domain names goes into resolv.conf unchecked: the bytes of the DHCPv4
option as they are, the labels of the DHCPv6 option with dots between them. The file then reads back
as the servers and domains of the lease exactly when the server sent no whitespace in them, and no
empty DHCPv4 option.
-/

namespace MitosNetwork

open List

variable {now : UInt64}

def PlainBytes (bytes : List UInt8) : Prop :=
  ∀ c ∈ (Utf8.lossy bytes).toList, Text.isWhitespace c = false

instance (bytes : List UInt8) : Decidable (PlainBytes bytes) :=
  List.decidableBAll (fun c => Text.isWhitespace c = false) (Utf8.lossy bytes).toList

theorem isWord_lossy_iff (bytes : List UInt8) :
    Text.IsWord (Utf8.lossy bytes).toList ↔ bytes ≠ [] ∧ PlainBytes bytes := by
  refine and_congr_left' (not_congr ?_)
  rw [String.toList_eq_nil_iff]
  exact ⟨fun h => by_contra fun hne => Utf8.lossy_ne_empty hne h, fun h => h ▸ rfl⟩

namespace Dhcp6

variable {data bytes : List UInt8} {n : ℕ} {lease : Lease6}

/-! ## The labels of a domain list -/

/-- The labels of a domain list as the bytes they are, whichever name they belong to. -/
def labelSlicesUpTo : ℕ → List UInt8 → List (List UInt8)
  | 0, _ => []
  | _ + 1, [] => []
  | n + 1, len :: rest =>
    if len = 0 then labelSlicesUpTo n rest
    else if rest.length < len.toNat then labelSlicesUpTo n (rest.drop 1)
    else rest.take len.toNat :: labelSlicesUpTo n (rest.drop len.toNat)

def labelSlices (data : List UInt8) : List (List UInt8) := labelSlicesUpTo data.length data

theorem labelSlicesUpTo_eq (h : data.length ≤ n) : labelSlicesUpTo n data = labelSlices data := by
  suffices hall : ∀ (n m : ℕ) (data : List UInt8), data.length ≤ n → data.length ≤ m →
      labelSlicesUpTo n data = labelSlicesUpTo m data from hall n _ data h le_rfl
  intro n
  induction n with
  | zero =>
    intro m data hn _
    rw [length_eq_zero_iff.mp (Nat.le_zero.mp hn)]
    cases m <;> rfl
  | succ n ih =>
    intro m data hn hm
    cases data with
    | nil => cases m <;> rfl
    | cons len rest =>
      rw [length_cons] at hn hm
      obtain ⟨m, rfl⟩ : ∃ l, m = l + 1 := ⟨m - 1, by omega⟩
      have hdrop : ∀ i, (rest.drop i).length ≤ rest.length := by simp
      have hrest := ih m rest (by omega) (by omega)
      have hskip := ih m (rest.drop 1) ((hdrop 1).trans (by omega)) ((hdrop 1).trans (by omega))
      have hlab := ih m (rest.drop len.toNat) ((hdrop _).trans (by omega))
        ((hdrop _).trans (by omega))
      rw [labelSlicesUpTo, labelSlicesUpTo, hrest, hskip, hlab]

theorem labelSlices_cons (len : UInt8) (rest : List UInt8) :
    labelSlices (len :: rest) =
      if len = 0 then labelSlices rest
      else if rest.length < len.toNat then labelSlices (rest.drop 1)
      else rest.take len.toNat :: labelSlices (rest.drop len.toNat) := by
  have hdrop : ∀ i, (rest.drop i).length ≤ rest.length := by simp
  rw [labelSlices, length_cons, labelSlicesUpTo, labelSlicesUpTo_eq le_rfl,
    labelSlicesUpTo_eq (hdrop 1), labelSlicesUpTo_eq (hdrop _)]

theorem labelsUpTo_spec (h : data.length ≤ n) :
    ∃ raw, (labelsUpTo n data).1 = raw.map Utf8.lossy ∧ (∀ label ∈ raw, label ≠ []) ∧
      labelSlices data = raw ++ labelSlices ((labelsUpTo n data).2.drop 1) ∧
      (labelsUpTo n data).2.length ≤ data.length := by
  induction n generalizing data with
  | zero =>
    rw [length_eq_zero_iff.mp (Nat.le_zero.mp h)]
    exact ⟨[], rfl, by simp, rfl, le_rfl⟩
  | succ n ih =>
    cases data with
    | nil => exact ⟨[], rfl, by simp, rfl, le_rfl⟩
    | cons len rest =>
      rw [length_cons] at h
      rw [labelsUpTo, labelSlices_cons]
      by_cases hzero : len = 0
      · rw [if_pos hzero, if_pos hzero]
        exact ⟨[], rfl, by simp, rfl, le_rfl⟩
      rw [if_neg hzero, if_neg hzero]
      by_cases hover : rest.length < len.toNat
      · rw [if_pos hover, if_pos hover]
        exact ⟨[], rfl, by simp, rfl, by simp⟩
      rw [if_neg hover, if_neg hover]
      have hdrop : (rest.drop len.toNat).length ≤ rest.length := by simp
      obtain ⟨raw, hlab, hne, hslices, hlength⟩ := ih (hdrop.trans (by omega))
      have hpos : len.toNat ≠ 0 := fun h => hzero (UInt8.toNat_inj.mp h)
      have hlabel : rest.take len.toNat ≠ [] := by
        intro hnil
        have hlen := congrArg List.length hnil
        rw [length_take, length_nil] at hlen
        omega
      refine ⟨rest.take len.toNat :: raw, ?_, ?_, ?_, ?_⟩
      · rw [map_cons, ← hlab]
      · exact forall_mem_cons.mpr ⟨hlabel, hne⟩
      · rw [hslices, cons_append]
      · exact hlength.trans (hdrop.trans (Nat.le_succ _))

theorem isWord_name_iff {raw : List (List UInt8)} (hne : raw ≠ []) (h : ∀ label ∈ raw, label ≠ []) :
    Text.IsWord (".".intercalate (raw.map Utf8.lossy)).toList ↔
      ∀ label ∈ raw, PlainBytes label := by
  have hdot : ".".toList = ['.'] := by decide
  rw [String.toList_intercalate, hdot, map_map]
  have hmem : ∀ label ∈ raw, ∀ c ∈ (Utf8.lossy label).toList,
      c ∈ ['.'].intercalate (raw.map (String.toList ∘ Utf8.lossy)) := fun label hlab c hc =>
    Text.mem_intercalate_of_mem (mem_map_of_mem hlab) hc
  constructor
  · intro hword label hlab c hc
    exact hword.2 c (hmem label hlab c hc)
  · intro hplain
    refine ⟨fun hnil => ?_, fun c hc => ?_⟩
    · obtain ⟨label, hlab⟩ := exists_mem_of_ne_nil raw hne
      have htext := ((isWord_lossy_iff label).mpr ⟨h label hlab, hplain label hlab⟩).1
      obtain ⟨c, hc⟩ := exists_mem_of_ne_nil _ htext
      have hin := hmem label hlab c hc
      rw [hnil] at hin
      cases hin
    · rcases Text.mem_intercalate hc with hsep | ⟨w, hw, hcw⟩
      · obtain rfl := mem_singleton.mp hsep
        decide
      · obtain ⟨label, hlab, rfl⟩ := mem_map.mp hw
        exact hplain label hlab c hcw

theorem isWord_domains_iff (data : List UInt8) :
    (∀ d ∈ domainsOf data, Text.IsWord d.toList) ↔
      ∀ label ∈ labelSlices data, PlainBytes label := by
  suffices hall : ∀ (n : ℕ) (data : List UInt8), data.length ≤ n →
      ((∀ d ∈ domainsUpTo n data, Text.IsWord d.toList) ↔
        ∀ label ∈ labelSlices data, PlainBytes label) from hall _ data le_rfl
  intro n
  induction n with
  | zero =>
    intro data h
    rw [length_eq_zero_iff.mp (Nat.le_zero.mp h)]
    simp [domainsUpTo, labelSlices, labelSlicesUpTo]
  | succ n ih =>
    intro data h
    cases data with
    | nil => simp [domainsUpTo, labelSlices, labelSlicesUpTo]
    | cons len rest =>
      -- The induction goes from one name to the next; a name takes at least one byte.
      obtain ⟨raw, hlab, hne, hslices, hlen⟩ := labelsUpTo_spec (le_refl (len :: rest).length)
      have hsh : ((labelsUpTo (len :: rest).length (len :: rest)).2.drop 1).length ≤ n := by
        rw [length_drop]
        omega
      have hstep : domainsUpTo (n + 1) (len :: rest) =
          (if (labelsUpTo (len :: rest).length (len :: rest)).1.isEmpty then []
            else [".".intercalate (labelsUpTo (len :: rest).length (len :: rest)).1]) ++
          domainsUpTo n ((labelsUpTo (len :: rest).length (len :: rest)).2.drop 1) := rfl
      rw [hstep, hslices, forall_mem_append, forall_mem_append, ih _ hsh, hlab]
      refine and_congr_left' ?_
      by_cases hraw : raw = []
      · simp [hraw]
      · have hemp : ¬(raw.map Utf8.lossy).isEmpty := by simpa using hraw
        rw [if_neg hemp, forall_mem_singleton, isWord_name_iff hraw hne]

def PlainOptions (options : List DhcpOption) : Prop :=
  ∀ o ∈ options, o.1 = optDomainList → ∀ label ∈ labelSlices o.2, PlainBytes label

theorem isWord_parseDnsAndDomain_iff (options : List DhcpOption) :
    (∀ d ∈ (parseDnsAndDomain options).2, Text.IsWord d.toList) ↔ PlainOptions options := by
  simp only [parseDnsAndDomain, forall_mem_flatMap]
  refine forall₂_congr fun o _ => ?_
  by_cases hcode : o.1 = optDomainList
  · simp only [hcode, if_true, forall_const]
    exact isWord_domains_iff o.2
  · simp [hcode]

/-! ## The reply that a lease comes from -/

theorem of_leaseOfOptions {ia : IaNa} {serverId : List UInt8} {options : List DhcpOption}
    (h : leaseOfOptions now ia serverId options = .ok lease) :
    lease.dnsServers = (parseDnsAndDomain options).1 ∧
      lease.domainSearch = (parseDnsAndDomain options).2 := by
  obtain ⟨-, -, h⟩ := of_bind_eq_ok h
  obtain ⟨address, -, h⟩ := of_bind_eq_ok h
  cases h
  exact ⟨rfl, rfl⟩

end Dhcp6

namespace DhcpClient

open Dhcp4

/-- The domain name of an ACK, if it has one, is not empty and holds no whitespace. -/
def PlainAck (ack : Packet) : Prop :=
  ∀ bytes ∈ ack.getOption optDomainName, bytes ≠ [] ∧ PlainBytes bytes

instance (ack : Packet) : Decidable (PlainAck ack) :=
  inferInstanceAs (Decidable (∀ bytes ∈ ack.getOption optDomainName, _))

theorem isWord_domain_iff {ack : Packet} {serverId : Ipv4Addr} {lease : Lease}
    (h : leaseFromAck ack serverId now = .ok lease) :
    (∀ d ∈ lease.domain.toList, Text.IsWord d.toList) ↔ PlainAck ack := by
  cases h
  cases hopt : ack.getOption optDomainName with
  | none => simp [PlainAck, hopt]
  | some bytes => simp [PlainAck, hopt, isWord_lossy_iff]

end DhcpClient

/-! ## What activation writes -/

namespace Activation

open Resolver

variable {α β : Type}

variable {s : Work} {w : World Call.Answer} {write : Write} {k : ℕ} {index : Int32}

/-- Everything that the program writes to resolv.conf is this. -/
def WritesOnly (servers : List IpAddr) (search : List String) (m : TryProg Work α) : Prop :=
  ∀ w k s, ∀ write ∈ writes (m.run w k s).log, write.servers = servers ∧ write.search = search

namespace WritesOnly

variable {servers : List IpAddr} {search : List String} {m : TryProg Work α}
  {f : α → TryProg Work β}

theorem of_quiet (hm : Quiet m) : WritesOnly servers search m := by
  intro w k s write hwrite
  rw [(writes_and_brought_of_isLink (hm w k s)).1] at hwrite
  cases hwrite

theorem bind (hm : WritesOnly servers search m) (hf : ∀ a, WritesOnly servers search (f a)) :
    WritesOnly servers search (m >>= f) := by
  intro w k s write hwrite
  rcases Try.run_bind_cases m f w k s with ⟨e, -, -, hlog⟩ | ⟨a, k', s', -, -, hlog⟩
  · rw [hlog] at hwrite
    exact hm w k s write hwrite
  · rw [hlog, writes_append] at hwrite
    rcases mem_append.mp hwrite with hwrite | hwrite
    · exact hm w k s write hwrite
    · exact hf a w k' s' write hwrite

theorem applyLeaseDns (servers : List IpAddr) (search : List String) :
    WritesOnly servers search (applyLeaseDns servers search) := by
  unfold Activation.applyLeaseDns
  split
  · exact of_quiet (.pure ())
  · intro w k s write hwrite
    obtain rfl := mem_singleton.mp hwrite
    exact ⟨rfl, rfl⟩

end WritesOnly

theorem mem_writes_ask (c : Call) {ask : Prog Work (Result α)} {f : α → TryProg Work β}
    {r : Result α} (hask : ask w k s = ⟨r, s, [.call c (w k c)]⟩)
    (hc : ∀ path servers search, c ≠ .writeResolvConf path servers search)
    (hwrite : write ∈ writes ((attempt ask >>= f).run w k s).log) :
    ∃ a, r = .ok a ∧ write ∈ writes ((f a).run w (k + 1) s).log := by
  rw [ExceptT.run_bind, Proc.log_bind] at hwrite
  change write ∈ writes ((ask w k s).log ++ _) at hwrite
  have hrun : (attempt ask).run w k s = ⟨r, s, [.call c (w k c)]⟩ := hask
  rw [writes_append, hask, writes_singleton hc, hrun] at hwrite
  cases r with
  | error e => cases hwrite
  | ok a => exact ⟨a, rfl, hwrite⟩

theorem mem_writes_applyDhcp (h : write ∈ writes ((applyDhcp index).run w k s).log) :
    ∃ lease, w k (.dhcpAcquire s.device.name index) = .ok lease ∧
      write.servers = lease.dnsServers.map .v4 ∧ write.search = lease.domain.toList := by
  rw [applyDhcp, run_device_bind] at h
  obtain ⟨lease, hle, h⟩ := mem_writes_ask (.dhcpAcquire s.device.name index) rfl nofun h
  refine ⟨lease, hle, ?_⟩
  refine (?_ : WritesOnly _ _ _) w (k + 1) s write h
  refine .bind (.of_quiet (quiet_attempt (makes_call rfl))) fun _ => ?_
  refine .bind (.of_quiet (setsUp_applyLeaseGateway index lease.gateway).quiet) fun _ => ?_
  refine .bind (.applyLeaseDns _ _) fun _ => .of_quiet ?_
  exact (quiet_modifyDevice _).bind fun _ => quiet_attempt (makes_call rfl)

theorem mem_writes_applyDhcp6 (h : write ∈ writes ((applyDhcp6 index).run w k s).log) :
    ∃ mac lease, w k (.getMac s.device.name) = .ok mac ∧
      w (k + 1) (.dhcp6StatefulLease s.device.name mac) = .ok lease ∧
      write.servers = lease.dnsServers.map .v6 ∧ write.search = lease.domainSearch := by
  rw [applyDhcp6, run_device_bind] at h
  obtain ⟨mac, hmac, h⟩ := mem_writes_ask (.getMac s.device.name) rfl nofun h
  obtain ⟨lease, hle, h⟩ := mem_writes_ask (.dhcp6StatefulLease s.device.name mac) rfl nofun h
  refine ⟨mac, lease, hmac, hle, ?_⟩
  refine (?_ : WritesOnly _ _ _) w (k + 1 + 1) s write h
  refine .bind (.of_quiet (quiet_attempt (makes_call rfl))) fun _ => ?_
  refine .bind (.applyLeaseDns _ _) fun _ => .of_quiet ?_
  exact (quiet_modifyDevice _).bind fun _ => quiet_attempt (makes_call rfl)

theorem mem_writes_stateless (h : write ∈ writes (applyDhcp6Stateless.run w k s).log) :
    ∃ mac info, w k (.getMac s.device.name) = .ok mac ∧
      w (k + 1) (.dhcp6StatelessInfo s.device.name mac) = .ok info ∧
      write.servers = info.dnsServers.map .v6 ∧ write.search = info.domainSearch := by
  have hlog : (applyDhcp6Stateless.run w k s).log = (stateless.run w k s).log := by
    rw [applyDhcp6Stateless, ExceptT.run_bind, Proc.log_bind, Try.run_lift]
    exact append_nil _
  rw [hlog, stateless, run_device_bind] at h
  obtain ⟨mac, hmac, h⟩ := mem_writes_ask (.getMac s.device.name) rfl
    (fun _ _ _ heq => by cases heq) h
  obtain ⟨info, hinfo, h⟩ := mem_writes_ask (.dhcp6StatelessInfo s.device.name mac) rfl
    (fun _ _ _ heq => by cases heq) h
  exact ⟨mac, info, hmac, hinfo, WritesOnly.applyLeaseDns _ _ w (k + 1 + 1) s write h⟩

open Diagnostics (readCurrent)

/-- **The resolver lines of a lease.** What activation writes for a DHCPv4 lease, a DHCPv6 lease or
a stateless DHCPv6 reply reads back as the servers and domains of the lease exactly when the domain
names that the server sent hold no whitespace, and the one of an ACK is not empty. -/
theorem lease_readBack_iff (w : World Call.Answer) (k : ℕ) (s : Work) (index : Int32) :
    (∀ ack serverId now lease, DhcpClient.leaseFromAck ack serverId now = .ok lease →
      w k (.dhcpAcquire s.device.name index) = .ok lease →
      ∀ write ∈ writes ((applyDhcp index).run w k s).log,
        (readCurrent (render write.servers write.search) =
          ⟨lease.dnsServers.map .v4, lease.domain.toList⟩ ↔ DhcpClient.PlainAck ack)) ∧
    (∀ (reply : List UInt8) now ia serverId mac lease,
      Dhcp6.leaseOfOptions now ia serverId (Dhcp6.parseOptions (reply.drop 4)) = .ok lease →
      w k (.getMac s.device.name) = .ok mac →
      w (k + 1) (.dhcp6StatefulLease s.device.name mac) = .ok lease →
      ∀ write ∈ writes ((applyDhcp6 index).run w k s).log,
        (readCurrent (render write.servers write.search) =
          ⟨lease.dnsServers.map .v6, lease.domainSearch⟩ ↔
            Dhcp6.PlainOptions (Dhcp6.parseOptions (reply.drop 4)))) ∧
    ∀ (reply : List UInt8) (mac : Dhcp4.Mac) (info : StatelessInfo),
      (info.dnsServers, info.domainSearch) =
        Dhcp6.parseDnsAndDomain (Dhcp6.parseOptions (reply.drop 4)) →
      w k (.getMac s.device.name) = .ok mac →
      w (k + 1) (.dhcp6StatelessInfo s.device.name mac) = .ok info →
      ∀ write ∈ writes (applyDhcp6Stateless.run w k s).log,
        (readCurrent (render write.servers write.search) =
          ⟨info.dnsServers.map .v6, info.domainSearch⟩ ↔
            Dhcp6.PlainOptions (Dhcp6.parseOptions (reply.drop 4))) := by
  refine ⟨?_, ?_, ?_⟩
  · intro ack serverId now lease hlease hw write hwrite
    obtain ⟨lease', hw', hservers, hsearch⟩ := mem_writes_applyDhcp hwrite
    obtain rfl := Except.ok.inj (hw.symm.trans hw')
    rw [hservers, hsearch, readCurrent_render_iff, DhcpClient.isWord_domain_iff hlease]
  · intro reply now ia serverId mac lease hlease hmac hw write hwrite
    obtain ⟨mac', lease', hmac', hw', hservers, hsearch⟩ := mem_writes_applyDhcp6 hwrite
    obtain rfl := Except.ok.inj (hmac.symm.trans hmac')
    obtain rfl := Except.ok.inj (hw.symm.trans hw')
    rw [hservers, hsearch, readCurrent_render_iff, (Dhcp6.of_leaseOfOptions hlease).2,
      Dhcp6.isWord_parseDnsAndDomain_iff]
  · intro reply mac info hinfo hmac hw write hwrite
    obtain ⟨mac', info', hmac', hw', hservers, hsearch⟩ := mem_writes_stateless hwrite
    obtain rfl := Except.ok.inj (hmac.symm.trans hmac')
    obtain rfl := Except.ok.inj (hw.symm.trans hw')
    have hdomains : info.domainSearch = (Dhcp6.parseDnsAndDomain
        (Dhcp6.parseOptions (reply.drop 4))).2 := congrArg Prod.snd hinfo
    rw [hservers, hsearch, readCurrent_render_iff, hdomains, Dhcp6.isWord_parseDnsAndDomain_iff]

variable (domain : List UInt8)

/-- An ACK with the name server 192.168.1.1 and this domain name. -/
def ackWithDomain : Dhcp4.Packet where
  op := 2
  xid := 1
  secs := 0
  flags := 0
  ciaddr := .unspecified
  yiaddr := .new 192 168 1 50
  siaddr := .unspecified
  chaddr := #v[2, 0, 0, 0, 0, 4]
  options := [(Dhcp4.optDns, [192, 168, 1, 1]), (Dhcp4.optDomainName, domain)]

def leaseWithDomain : Lease where
  address := .new 192 168 1 50
  prefixlen := 24
  gateway := none
  dnsServers := [.new 192 168 1 1]
  domain := some (Utf8.lossy domain)
  serverId := .new 192 168 1 1
  leaseTimeSecs := 3600
  obtainedAtUnix := 0

/-- A machine on which every lease that is asked for is this one. -/
def leasing (lease : Lease) : World Call.Answer := fun _ c =>
  match c with
  | .dhcpAcquire _ _ => Except.ok lease
  | c => calm [] (.ok ()) c

def ethernet : Work where
  device := ⟨"eth0", 2, .ethernet, .ipConfiguring, none, 1500, [], [], true, none, none⟩
  sessions := ∅

theorem leaseFromAck_withDomain :
    DhcpClient.leaseFromAck (ackWithDomain domain) (.new 192 168 1 1) 0 =
      .ok (leaseWithDomain domain) :=
  rfl

theorem writes_withDomain :
    writes ((applyDhcp 2).run (leasing (leaseWithDomain domain)) 0 ethernet).log =
      [⟨Config.defaultResolvConf, [.v4 (.new 192 168 1 1)], [Utf8.lossy domain], .ok ()⟩] := rfl

/-- The domain `lan` comes back. -/
theorem lease_readBack_lan :
    readCurrent (render [.v4 (.new 192 168 1 1)] [Utf8.lossy [108, 97, 110]]) =
      ⟨[.v4 (.new 192 168 1 1)], [Utf8.lossy [108, 97, 110]]⟩ :=
  ((lease_readBack_iff (leasing (leaseWithDomain [108, 97, 110])) 0 ethernet 2).1
    (ackWithDomain [108, 97, 110]) (.new 192 168 1 1) 0 (leaseWithDomain [108, 97, 110])
    (leaseFromAck_withDomain _) rfl ⟨Config.defaultResolvConf, _, _, .ok ()⟩
    (writes_withDomain [108, 97, 110] ▸ mem_singleton_self _)).mpr (by decide +kernel)

/-- The domain name `a`, a newline and `nameserver 6.6.6.6`. -/
def injected : List UInt8 :=
  [97, 10, 110, 97, 109, 101, 115, 101, 114, 118, 101, 114, 32, 54, 46, 54, 46, 54, 46, 54]

/-- The file that is written has a name server that the lease has not. -/
theorem lease_readBack_injected :
    (∃ write ∈ writes ((applyDhcp 2).run (leasing (leaseWithDomain injected)) 0 ethernet).log,
      (readCurrent (render write.servers write.search)).nameservers =
        [.v4 (.new 6 6 6 6), .v4 (.new 192 168 1 1)]) ∧
      DhcpClient.leaseFromAck (ackWithDomain injected) (.new 192 168 1 1) 0 =
        .ok (leaseWithDomain injected) := by
  have hdomain : Utf8.lossy injected =
      "a" ++ "\nnameserver " ++ (IpAddr.v4 (.new 6 6 6 6)).display := by
    decide +kernel
  refine ⟨⟨_, writes_withDomain injected ▸ mem_singleton_self _, ?_⟩,
    leaseFromAck_withDomain injected⟩
  have hword : ∀ d ∈ ["a"], Text.IsWord d.toList := by
    simp [Text.IsWord, Text.isWhitespace]
  rw [hdomain, render_injected, (readCurrent_render_iff _ _).mpr hword]

end Activation

end MitosNetwork
