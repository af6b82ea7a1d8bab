import MitosNetwork.Connection.Activation
import MitosNetwork.Dns.Resolver

/-!
# Name servers in activation

Activation comes by name servers in up to three ways, a DHCPv4 lease, a DHCPv6 reply and the list in
the profile, and hands each list to `apply_static` on its own. `settles_activate` says so for every
outside: what a successful activation writes to resolv.conf is what it was brought, list by list,
and an activation that is brought nothing writes nothing. Deactivation has no part in name servers
at all (`quiet_deactivate`).
-/

namespace MitosNetwork

open Resolver List

variable {c : Call}

/-- The calls of activation and deactivation that name servers play no part in. -/
def Call.isLink : Call → Bool
  | bringUp _ | waitForCarrier _ | flush _ | addAddress _ _ _ | applyDefaultRoute _ _ _ _
  | dhcpRelease _ | dhcp6Release _ | getMac _ | writeLease _ _ | writeLease6 _ _ | secretGet _ _
  | wifiConnect _ _ _ _ _ | wifiDisconnect _ | vpnConnect _ _ _ | vpnDisconnect _ _ => true
  | _ => false

def Call.ofActivation : Call → Bool
  | dhcpAcquire _ _ | dhcp6StatefulLease _ _ | dhcp6StatelessInfo _ _ => true
  | writeResolvConf path _ _ => path = Config.defaultResolvConf
  | c => c.isLink

theorem Call.ofActivation_of_isLink (h : c.isLink = true) : c.ofActivation = true := by
  cases c with
  | writeResolvConf path servers search => cases h
  | _ => first | rfl | exact h

theorem Call.isAudit_of_ofActivation (h : c.ofActivation = true) : c.isAudit = false := by
  cases c <;> first | rfl | cases h

theorem Call.isDns_of_isLink (h : c.isLink = true) : c.isDns = false := by
  cases c <;> first | rfl | cases h

theorem path_of_mem_writes {N : Type} {log : List (Entry Call.Answer N)} {write : Write}
    (h : ∀ c a, .call c a ∈ log → c.ofActivation = true) (hwrite : write ∈ writes log) :
    write.path = Config.defaultResolvConf := by
  obtain ⟨e, he, hwrite⟩ := mem_flatMap.mp hwrite
  cases e with
  | note n => cases hwrite
  | call c a =>
    cases c with
    | writeResolvConf path servers search =>
      rw [mem_singleton.mp hwrite]
      exact of_decide_eq_true (h _ _ he)
    | _ => cases hwrite

/-! ## What is brought -/

def offered {β : Type} (servers : β → List IpAddr) : Result β → List (List IpAddr)
  | .ok b => if (servers b).isEmpty then [] else [servers b]
  | .error _ => []

variable {N α β : Type}

def broughtBy : Entry Call.Answer N → List (List IpAddr)
  | .call (.dhcpAcquire _ _) a => offered (fun lease : Lease => lease.dnsServers.map .v4) a
  | .call (.dhcp6StatefulLease _ _) a => offered (fun lease : Lease6 => lease.dnsServers.map .v6) a
  | .call (.dhcp6StatelessInfo _ _) a =>
    offered (fun info : StatelessInfo => info.dnsServers.map .v6) a
  | _ => []

def brought (log : List (Entry Call.Answer N)) : List (List IpAddr) := log.flatMap broughtBy

def ConnectionProfile.ownServers (profile : ConnectionProfile) : List (List IpAddr) :=
  if profile.deviceType = .vpn ∨ profile.dns.isEmpty then []
  else [profile.dns.filterMap fun s => IpAddr.parse s.toList]

@[simp] theorem brought_append (log log' : List (Entry Call.Answer N)) :
    brought (log ++ log') = brought log ++ brought log' := flatMap_append

theorem brought_map_liftEntry (log : List (Entry Call.Answer Empty)) :
    brought (log.map Proc.liftEntry : List (Entry Call.Answer N)) = brought log := by
  have hlift : ∀ e : Entry Call.Answer Empty,
      broughtBy (Proc.liftEntry e : Entry Call.Answer N) = broughtBy e := by
    intro e
    cases e with
    | note n => exact n.elim
    | call c a => cases c <;> rfl
  rw [brought, flatMap_map]
  exact congrArg (List.flatMap · log) (funext hlift)

namespace Activation

variable {profile : ConnectionProfile}

/-! ## Programs without name servers -/

abbrev Quiet (m : TryProg Work α) : Prop := Try.Makes (fun c => c.isLink = true) m

theorem writes_and_brought_of_isLink {log : List (Entry Call.Answer Empty)}
    (h : ∀ c a, .call c a ∈ log → c.isLink = true) : writes log = [] ∧ brought log = [] := by
  have hent : ∀ e ∈ log, writesOf e = [] ∧ broughtBy e = [] := by
    intro e he
    cases e with
    | note n => exact n.elim
    | call c a =>
      have hc := h c a he
      cases c <;> first | exact ⟨rfl, rfl⟩ | cases hc
  exact ⟨flatMap_eq_nil_iff.mpr fun e he => (hent e he).1,
    flatMap_eq_nil_iff.mpr fun e he => (hent e he).2⟩

theorem quiet_attempt {m : Prog Work (Result α)} (hm : m.Makes fun c => c.isLink = true) :
    Quiet (attempt m) := .ofProc hm

theorem isLink_of_isSetup (h : isSetup c = true) : c.isLink = true := by
  cases c <;> first | rfl | cases h

theorem SetsUp.quiet {m : TryProg Work α} (h : SetsUp m) : Quiet m :=
  (h.mono fun _ => isLink_of_isSetup).makes

theorem quiet_modifyDevice (f : NetworkDevice → NetworkDevice) : Quiet (modifyDevice f) :=
  .lift (.modify _)

theorem quiet_device : Quiet device := Minds.device.makes

theorem quiet_deactivate : Quiet deactivate :=
  (quiet_modifyDevice _).bind fun _ => quiet_device.bind fun _ => .bind
    (minds_teardown (fun _ => isLink_of_isSetup) rfl rfl rfl).makes fun _ => quiet_modifyDevice _

/-! ## What becomes of name servers -/

/-- The program writes the lists that are owed, then each list that it is brought, and its own last.
It writes all of them if it succeeds; if nothing is owed, brought or its own, it writes nothing. -/
structure Settles (owed own : List (List IpAddr)) (m : TryProg Work α) : Prop where
  calls : Try.Makes (fun c => c.ofActivation = true) m
  silent : owed = [] → own = [] → ∀ w k s, brought (m.run w k s).log = [] →
    writes (m.run w k s).log = []
  settled : ∀ w k s a, (m.run w k s).result = .ok a →
    (writes (m.run w k s).log).map (·.servers) = owed ++ brought (m.run w k s).log ++ own

namespace Settles

variable {owed own : List (List IpAddr)} {m : TryProg Work α} {f : α → TryProg Work β}

theorem of_quiet (hm : Quiet m) : Settles [] [] m := by
  have hlog : ∀ w k s, writes (m.run w k s).log = [] ∧ brought (m.run w k s).log = [] :=
    fun w k s => writes_and_brought_of_isLink (hm w k s)
  refine ⟨.mono hm fun _ => Call.ofActivation_of_isLink, fun _ _ w k s _ => ?_,
    fun w k s a _ => ?_⟩
  · exact (hlog w k s).1
  · rw [(hlog w k s).1, (hlog w k s).2]
    rfl

theorem seq {left : α → List (List IpAddr)}
    (hcs : Try.Makes (fun c => c.ofActivation = true) m)
    (hsil : owed = [] → ∀ w k s, brought (m.run w k s).log = [] → writes (m.run w k s).log = [])
    (hm : ∀ w k s a, (m.run w k s).result = .ok a →
      (writes (m.run w k s).log).map (·.servers) ++ left a = owed ++ brought (m.run w k s).log)
    (hf : ∀ a, Settles (left a) own (f a)) : Settles owed own (m >>= f) := by
  refine ⟨hcs.bind fun a => (hf a).calls, fun howed hown w k s hbro => ?_,
    fun w k s b hok => ?_⟩
  · rcases Try.run_bind_cases m f w k s with ⟨e, -, -, hlog⟩ | ⟨a, k', s', ha, -, hlog⟩
    · rw [hlog] at hbro ⊢
      exact hsil howed w k s hbro
    · rw [hlog, brought_append, append_eq_nil_iff] at hbro
      have hws := hsil howed w k s hbro.1
      have hleft := hm w k s a ha
      rw [hws, howed, hbro.1] at hleft
      rw [hlog, writes_append, hws]
      exact (hf a).silent hleft hown w k' s' hbro.2
  · rcases Try.run_bind_cases m f w k s with ⟨e, -, hres, -⟩ | ⟨a, k', s', ha, hres, hlog⟩
    · rw [hres] at hok
      cases hok
    · rw [hlog, writes_append, brought_append, map_append,
        (hf a).settled w k' s' b (hres ▸ hok), ← append_assoc owed, ← hm w k s a ha]
      simp only [append_assoc]

theorem bind (hm : Settles owed [] m) (hf : ∀ a, Settles [] own (f a)) :
    Settles owed own (m >>= f) := by
  refine seq hm.calls (fun howed => hm.silent howed rfl) (fun w k s a ha => ?_) hf
  rw [hm.settled w k s a ha, append_nil, append_nil]

theorem quiet_bind (hm : Quiet m) (hf : ∀ a, Settles owed own (f a)) :
    Settles owed own (m >>= f) := by
  have hlog : ∀ w k s, writes (m.run w k s).log = [] ∧ brought (m.run w k s).log = [] :=
    fun w k s => writes_and_brought_of_isLink (hm w k s)
  refine seq (of_quiet hm).calls (fun _ w k s _ => (hlog w k s).1) (fun w k s a _ => ?_) hf
  rw [(hlog w k s).1, (hlog w k s).2, append_nil]
  rfl

theorem bind_quiet (hm : Settles owed own m) (hf : ∀ a, Quiet (f a)) :
    Settles owed own (m >>= f) := by
  have hlog : ∀ a w k s, writes ((f a).run w k s).log = [] ∧ brought ((f a).run w k s).log = [] :=
    fun a w k s => writes_and_brought_of_isLink (hf a w k s)
  refine ⟨hm.calls.bind fun a => (of_quiet (hf a)).calls, fun howed hown w k s hbro => ?_,
    fun w k s b hok => ?_⟩
  · rcases Try.run_bind_cases m f w k s with ⟨e, -, -, hrun⟩ | ⟨a, k', s', -, -, hrun⟩
    · rw [hrun] at hbro ⊢
      exact hm.silent howed hown w k s hbro
    · rw [hrun, brought_append, (hlog a w k' s').2, append_nil] at hbro
      rw [hrun, writes_append, (hlog a w k' s').1, append_nil]
      exact hm.silent howed hown w k s hbro
  · rcases Try.run_bind_cases m f w k s with ⟨e, -, hres, -⟩ | ⟨a, k', s', ha, -, hrun⟩
    · rw [hres] at hok
      cases hok
    · rw [hrun, writes_append, brought_append, (hlog a w k' s').1, (hlog a w k' s').2,
        append_nil, append_nil]
      exact hm.settled w k s a ha

theorem bring {servers : α → List IpAddr} {ask : Prog Work (Result α)}
    (hask : ∀ w k s, ∃ r, ask w k s = ⟨r, s, [.call c (w k c)]⟩ ∧
      broughtBy (.call c (w k c) : Entry Call.Answer Empty) = offered servers r)
    (hc : c.ofActivation = true ∧ ∀ path servers search, c ≠ .writeResolvConf path servers search)
    (hf : ∀ a, Settles (offered servers (.ok a)) own (f a)) :
    Settles [] own (attempt ask >>= f) := by
  have hws : ∀ w k s, writes ((attempt ask).run w k s).log = [] := by
    intro w k s
    obtain ⟨r, hran, -⟩ := hask w k s
    show writes (ask w k s).log = []
    rw [hran]
    exact writes_singleton hc.2 _
  refine seq (fun w k s c' a h => ?_) (fun _ w k s _ => hws w k s) (fun w k s a ha => ?_) hf
  · obtain ⟨r, hran, -⟩ := hask w k s
    change .call c' a ∈ (ask w k s).log at h
    rw [hran] at h
    cases mem_singleton.mp h
    exact hc.1
  · obtain ⟨r, hran, hr⟩ := hask w k s
    change (ask w k s).result = _ at ha
    rw [hran] at ha
    rw [hws]
    show offered servers (.ok a) = brought (ask w k s).log
    rw [hran, ← ha, ← hr]
    exact (flatMap_singleton _ _).symm

end Settles

/-! ## The programs of activation -/

theorem settles_applyDns (servers : List IpAddr) (search : List String) :
    Settles [servers] [] (applyDns servers search) :=
  ⟨.ofProc (makes_call (by simp [Call.ofActivation])), nofun, fun _ _ _ _ _ => rfl⟩

theorem writes_applyLeaseDns (servers : List IpAddr) (search : List String) (w : World Call.Answer)
    (k : ℕ) (s : Work) :
    (writes ((applyLeaseDns servers search).run w k s).log).map (·.servers) =
        (if servers.isEmpty then [] else [servers]) ∧
      brought ((applyLeaseDns servers search).run w k s).log = [] := by
  unfold applyLeaseDns
  split <;> exact ⟨rfl, rfl⟩

theorem settles_applyLeaseDns (servers : List IpAddr) (search : List String) :
    Settles (if servers.isEmpty then [] else [servers]) [] (applyLeaseDns servers search) := by
  unfold applyLeaseDns
  split
  · exact .of_quiet (.pure ())
  · exact settles_applyDns servers search

theorem settles_applyDhcp (index : Int32) : Settles [] [] (applyDhcp index) := by
  refine .quiet_bind quiet_device fun dev => ?_
  refine .bring (c := .dhcpAcquire dev.name index) (fun w k s => ⟨_, rfl, rfl⟩) ⟨rfl, nofun⟩
    fun lease => ?_
  refine .quiet_bind (quiet_attempt (makes_call rfl)) fun _ => ?_
  refine .quiet_bind (setsUp_applyLeaseGateway _ _).quiet fun _ => ?_
  refine .bind (settles_applyLeaseDns _ _) fun _ => .of_quiet ?_
  exact (quiet_modifyDevice _).bind fun _ => quiet_attempt (makes_call rfl)

theorem settles_stateless : Settles [] [] stateless := by
  refine .quiet_bind quiet_device fun dev => ?_
  refine .quiet_bind (quiet_attempt (makes_call rfl)) fun mac => ?_
  exact .bring (c := .dhcp6StatelessInfo dev.name mac) (fun w k s => ⟨_, rfl, rfl⟩) ⟨rfl, nofun⟩
    fun info => settles_applyLeaseDns _ _

theorem run_device_bind (f : NetworkDevice → TryProg Work β) (w : World Call.Answer) (k : ℕ)
    (s : Work) : (device >>= f).run w k s = (f s.device).run w k s := rfl

theorem writes_stateless (w : World Call.Answer) (k : ℕ) (s : Work) :
    (writes (stateless.run w k s).log).map (·.servers) = brought (stateless.run w k s).log := by
  rw [stateless, run_device_bind]
  rcases Try.run_bind_cases (attempt (call (.getMac s.device.name)) : TryProg Work Dhcp4.Mac) _ w
    k s with ⟨e, -, -, hlog⟩ | ⟨mac, k₂, s₂, -, -, hlog⟩
  · rw [hlog]
    rfl
  rw [hlog, writes_append, brought_append, map_append]
  refine congrArg ([] ++ ·) ?_
  let getInfo : TryProg Work StatelessInfo := attempt (call (.dhcp6StatelessInfo s.device.name mac))
  have hinfo : brought (getInfo.run w k₂ s₂).log =
      offered (fun info : StatelessInfo => info.dnsServers.map .v6)
        (getInfo.run w k₂ s₂).result := flatMap_singleton _ _
  rcases Try.run_bind_cases getInfo _ w k₂ s₂ with ⟨e, he, -, hlog⟩ | ⟨info, k₃, s₃, hok, -, hlog⟩
  · rw [hlog, hinfo, he]
    rfl
  · have hws := writes_applyLeaseDns (info.dnsServers.map .v6) info.domainSearch w k₃ s₃
    rw [hlog, writes_append, brought_append, map_append, hinfo, hok, hws.1, hws.2, append_nil]
    rfl

theorem settles_applyMethod (profile : ConnectionProfile) (index : Int32) :
    Settles [] [] (applyMethod profile index) := by
  unfold applyMethod
  split
  · exact .of_quiet (minds_applyStatic (fun _ => isLink_of_isSetup) (fun _ _ => rfl) profile).makes
  · exact settles_applyDhcp _
  · exact .of_quiet (.pure ())
  · exact .of_quiet (.pure ())

theorem settles_applyIpv6Method (profile : ConnectionProfile) (index : Int32) :
    Settles [] [] (applyIpv6Method profile index) := by
  unfold applyIpv6Method
  split
  · exact .of_quiet (.pure ())
  · refine .bind ⟨.lift settles_stateless.calls, fun _ _ w k s h => ?_, fun w k s _ _ => ?_⟩
      fun _ => .of_quiet (.pure ())
    · rw [Try.run_lift] at h ⊢
      exact settles_stateless.silent rfl rfl w k s h
    · rw [Try.run_lift, append_nil]
      exact writes_stateless w k s
  · refine .quiet_bind quiet_device fun dev => ?_
    refine .quiet_bind (quiet_attempt (makes_call rfl)) fun mac => ?_
    refine .bring (c := .dhcp6StatefulLease dev.name mac) (fun w k s => ⟨_, rfl, rfl⟩) ⟨rfl, nofun⟩
      fun lease => ?_
    refine .quiet_bind (quiet_attempt (makes_call rfl)) fun _ => ?_
    refine .bind (settles_applyLeaseDns _ _) fun _ => .of_quiet ?_
    exact (quiet_modifyDevice _).bind fun _ => quiet_attempt (makes_call rfl)

theorem settles_applyProfileDns (hvpn : profile.deviceType ≠ .vpn) :
    Settles [] profile.ownServers (applyProfileDns profile) := by
  unfold applyProfileDns ConnectionProfile.ownServers
  by_cases hemp : profile.dns.isEmpty
  · rw [if_pos hemp, if_pos (.inr hemp)]
    exact .of_quiet (.pure ())
  · rw [if_neg hemp, if_neg (not_or_intro hvpn hemp)]
    exact ⟨(settles_applyDns _ _).calls, nofun, fun _ _ _ _ _ => rfl⟩

theorem settles_configureIp (hvpn : profile.deviceType ≠ .vpn) (index : Int32) :
    Settles [] profile.ownServers (configureIp profile index) := by
  refine .quiet_bind (quiet_modifyDevice _) fun _ => ?_
  refine .quiet_bind (quiet_attempt (makes_call rfl)) fun _ => ?_
  exact .bind (settles_applyMethod _ _) fun _ => .bind (settles_applyIpv6Method _ _) fun _ =>
    settles_applyProfileDns hvpn

theorem settles_connect (profile : ConnectionProfile) (dev : NetworkDevice) :
    Settles [] profile.ownServers (connect profile dev) := by
  unfold connect
  split
  · rename_i htype
    have hvpn : profile.deviceType ≠ .vpn := by simp [htype]
    exact .quiet_bind (setsUp_connectWifi _).quiet fun _ =>
      .bind_quiet (settles_configureIp hvpn _) fun _ => .pure _
  · rename_i htype
    rw [ConnectionProfile.ownServers, if_pos (.inl htype)]
    exact .of_quiet (setsUp_connectVpn _).quiet
  · rename_i hvpn
    exact .quiet_bind (setsUp_connectLink _).quiet fun _ =>
      .bind_quiet (settles_configureIp hvpn _) fun _ => .pure _

/-- **What activation writes.** It writes the lists that it is brought and then the profile's own,
each on its own; all of them if it succeeds, and nothing if there are none. -/
theorem settles_activate (profile : ConnectionProfile) :
    Settles [] profile.ownServers (activate profile) := by
  refine .bind_quiet ?_ fun name => (quiet_modifyDevice _).bind fun _ => .pure _
  exact .quiet_bind (quiet_modifyDevice _) fun _ => .quiet_bind quiet_device fun dev =>
    settles_connect profile dev

end Activation

end MitosNetwork
