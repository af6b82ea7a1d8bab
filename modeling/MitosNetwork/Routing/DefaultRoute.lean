import MitosNetwork.Connection.Activation
import MitosNetwork.Routing.Fib

/-!
# Default routes

`src/routing/default_route.rs` and `src/routing/metrics.rs`, and the default routes that
`apply_static` and `apply_dhcp` of `src/connection/activation.rs` install. Deleting what an
interface has does not touch the others; adding the new route may, because the kernel keeps one
default route for each metric. Activation asks for the metric 100 whatever the device is, so the
second of two uplinks takes the place of the first (`defaultRoutes_iff`).
-/

namespace MitosNetwork

open Fib

variable {gateway : IpAddr} {protocol : RouteProtocol}

namespace Metrics

/-- `base_metric`. -/
def baseMetric : DeviceType → UInt32
  | .vpn => 50
  | .ethernet => 100
  | .bridge | .bond => 150
  | .wifi => 600
  | .bluetooth => 700
  | .vlan | .tunnel => 400
  | .virtual | .loopback | .unknown => 900

/-- `effective_metric`. -/
def effectiveMetric (deviceType : DeviceType) (autoconnectPriority : ℤ) : UInt32 :=
  let adjusted := ((baseMetric deviceType).toNat : ℤ) - max (-40) (min 40 autoconnectPriority)
  UInt32.ofNat (max 1 (min 65535 adjusted)).toNat

theorem toNat_effectiveMetric (deviceType : DeviceType) (p : ℤ) :
    ((effectiveMetric deviceType p).toNat : ℤ) =
      (baseMetric deviceType).toNat - max (-40) (min 40 p) := by
  have hbase : 50 ≤ (baseMetric deviceType).toNat ∧ (baseMetric deviceType).toNat ≤ 900 := by
    cases deviceType <;> decide
  rw [effectiveMetric, UInt32.toNat_ofNat']
  omega

/-- **Tiers of metrics.** The metrics of two device types stay apart, whatever the priorities, if
and only if the base metrics differ by more than both adjustments. -/
theorem tiers_apart_iff (a b : DeviceType) :
    (∀ p q : Int32, effectiveMetric a p.toInt < effectiveMetric b q.toInt) ↔
      (baseMetric a).toNat + 80 < (baseMetric b).toNat := by
  simp only [UInt32.lt_iff_toNat_lt]
  constructor
  · intro h
    have hworst := h (-40) 40
    have ha := toNat_effectiveMetric a (-40 : Int32).toInt
    have hb := toNat_effectiveMetric b (40 : Int32).toInt
    have hlow : (-40 : Int32).toInt = -40 := rfl
    have hhigh : (40 : Int32).toInt = 40 := rfl
    omega
  · intro h p q
    have ha := toNat_effectiveMetric a p.toInt
    have hb := toNat_effectiveMetric b q.toInt
    omega

/-- A tunnel with a low priority comes after a wired link with a high one. -/
theorem tiers_cross :
    baseMetric .vpn < baseMetric .ethernet ∧
      effectiveMetric .ethernet (40 : Int32).toInt < effectiveMetric .vpn (-40 : Int32).toInt := by
  decide

end Metrics

namespace DefaultRoute

variable {metric : UInt32} (index : Int32) (gateway : IpAddr)

/-- The route of `set_default`. -/
def route (metric : UInt32) (protocol : RouteProtocol) : Route :=
  ⟨none, some gateway, index, some metric, protocol⟩

/-- One round of the loop of `apply`: whether the deletion succeeds is not looked at. -/
def dropStale (existing : Route) : Fib.Prog Unit :=
  if existing.destination.isNone ∧ existing.oifIndex = index then do
    let _ ← Try.lift (request (.del existing.msg))
    return ()
  else pure ()

/-- The loop of `apply`. -/
def dropAllStale : Fib.Prog Unit := do
  let routes ← Try.ofProc (request (.list (.of gateway)))
  routes.forM (dropStale index)

/-- `apply`. -/
def apply (metric : UInt32) (protocol : RouteProtocol) : Fib.Prog Unit := do
  dropAllStale index gateway
  Try.ofProc (request (.add (route index gateway metric protocol).msg))

/-! ## Other interfaces -/

def foreign (s : Fib.State) (key : Key) : Option Hop :=
  (s.routes key).filter fun hop => hop.oif ≠ index.toUInt32

def IsDefault (key : Key) : Prop := key.table = rtTableMain ∧ key.destination = none

/-- A request that lists, or deletes a route of this interface. -/
def Drops (index : Int32) : Op → Prop
  | .list _ => True
  | .del m => m.oif = index.toUInt32
  | _ => False

theorem drops_msg {index : Int32} {existing : Route}
    (h : existing.destination.isNone ∧ existing.oifIndex = index) :
    Drops index (.del existing.msg) := congrArg Int32.toUInt32 h.2

theorem makes_dropStale (existing : Route) :
    Try.Makes (Drops index) (dropStale index existing) := by
  unfold dropStale
  split
  · rename_i h
    exact (Try.Makes.lift (Proc.Makes.call (drops_msg h))).bind fun _ => Try.Makes.pure ()
  · exact .pure ()

theorem makes_dropAllStale : Try.Makes (Drops index) (dropAllStale index gateway) :=
  (Try.Makes.ofProc (Proc.Makes.call trivial)).bind fun routes =>
    .forM (makes_dropStale index) routes

variable {kernel : Kernel} {index} {s : Fib.State}

theorem foreign_step {c : Op} (hc : Drops index c) (answer : c.Answer) :
    foreign index (kernel.step s (.call c answer)) = foreign index s := by
  cases c with
  | list family => rfl
  | add m | addRule m | delRule m => exact hc.elim
  | del m =>
    rw [Kernel.step]
    split
    · funext key
      rw [foreign, foreign, Kernel.delete]
      cases hfind : kernel.find s.routes m with
      | none => rfl
      | some found =>
        by_cases hkey : key = found
        · -- The route is one of this interface: it did not count before and is not there after.
          obtain ⟨hop, hhop, hmat⟩ := kernel.matches_of_find hfind
          have hoif : hop.oif = index.toUInt32 := hmat.oif.trans hc
          simp [hkey, hhop, hoif, Option.filter_some]
        · simp [hkey]
    · rfl

theorem foreign_after {log : Fib.Log} (h : ∀ c a, .call c a ∈ log → Drops index c) :
    foreign index (kernel.after log s) = foreign index s := by
  refine kernel.after_induction (P := fun s' => foreign index s' = foreign index s) rfl ?_
  intro e he s' hs'
  cases e with
  | call c a => exact (foreign_step (h c a he) a).trans hs'
  | note n => exact n.elim

/-- Where the kernel keeps the default route via a gateway. -/
def defaultKey (metric : UInt32) : Key :=
  ⟨rtTableMain, (Family.of gateway).raw, none, metric⟩

theorem key_route (index : Int32) (gateway : IpAddr) :
    kernel.key (route index gateway metric protocol).msg = defaultKey gateway metric := rfl

/-- Another interface has the default route that an application of this metric takes. -/
def Taken (index : Int32) (gateway : IpAddr) (metric : UInt32) (s : Fib.State) : Prop :=
  ∃ hop, s.routes (defaultKey gateway metric) = some hop ∧ hop.oif ≠ index.toUInt32

theorem taken_iff :
    Taken index gateway metric s ↔ foreign index s (defaultKey gateway metric) ≠ none := by
  rw [Taken, foreign]
  cases s.routes (defaultKey gateway metric) with
  | none => simp
  | some hop => simp [Option.filter_some]

theorem foreign_add_iff :
    (∀ key, IsDefault key →
      foreign index (kernel.step s (.call (.add (route index gateway metric protocol).msg)
        (.ok ()))) key = foreign index s key) ↔ ¬Taken index gateway metric s := by
  have hstep : ∀ key,
      foreign index (kernel.step s (.call (.add (route index gateway metric protocol).msg)
        (.ok ()))) key = if key = defaultKey gateway metric then none else foreign index s key := by
    intro key
    rw [foreign, kernel.step_add_ok, key_route]
    dsimp only
    by_cases hkey : key = defaultKey gateway metric
    · rw [if_pos hkey, hkey, Function.update_self, Option.filter_some]
      simp [hop, route, Route.msg]
    · rw [if_neg hkey, Function.update_of_ne hkey]
      rfl
  rw [taken_iff, not_not]
  constructor
  · intro h
    rw [← h _ ⟨rfl, rfl⟩, hstep, if_pos rfl]
  · intro h key _
    rw [hstep]
    split
    · rename_i hkey
      rw [hkey, h]
    · rfl

theorem foreign_apply_iff (w : World Op.Answer) (index : Int32) (gateway : IpAddr) :
    (∀ key, IsDefault key →
      foreign index (kernel.after ((apply index gateway metric protocol).run w 0 ()).log s) key =
        foreign index s key) ↔
      ¬(((apply index gateway metric protocol).run w 0 ()).result = .ok () ∧
        Taken index gateway metric s) := by
  have hdrop : foreign index (kernel.after ((dropAllStale index gateway).run w 0 ()).log s) =
      foreign index s :=
    foreign_after fun c a => makes_dropAllStale index gateway w 0 () c a
  rw [apply]
  rcases Try.run_bind_cases (dropAllStale index gateway)
    (fun _ => Try.ofProc (request (.add (route index gateway metric protocol).msg))) w 0 ()
    with ⟨e, -, hres, hlog⟩ | ⟨_, k, _, -, hres, hlog⟩
  · -- The routes could not be listed.
    rw [hres, hlog, hdrop]
    simp
  · change _ = w k (.add (route index gateway metric protocol).msg) at hres
    change _ = _ ++ [Entry.call _ (w k (.add (route index gateway metric protocol).msg))] at hlog
    have htk : Taken index gateway metric
        (kernel.after ((dropAllStale index gateway).run w 0 ()).log s) ↔
          Taken index gateway metric s := by
      rw [taken_iff, taken_iff, hdrop]
    rw [hres, hlog, kernel.after_append, kernel.after_cons, kernel.after_nil, ← htk, ← hdrop]
    cases hadded : w k (.add (route index gateway metric protocol).msg) with
    | error e =>
      rw [kernel.step_add_error]
      simp
    | ok _ =>
      rw [foreign_add_iff]
      simp

end DefaultRoute

/-! ## Activation -/

namespace Activation

open DefaultRoute

/-- What a call of activation does to the routes. Each default route is applied with answers of the
kernel of its own. -/
def routeStep (kernel : Kernel) (answers : World Op.Answer) (s : Fib.State) :
    Entry Call.Answer Empty → Fib.State
  | .call (.applyDefaultRoute index gateway metric protocol) _ =>
    kernel.after ((DefaultRoute.apply index gateway metric protocol).run answers 0 ()).log s
  | _ => s

/-- What the calls of a log that starts at the place `k` do to the routes. -/
def routesAfter (kernel : Kernel) (answers : ℕ → World Op.Answer) :
    ℕ → List (Entry Call.Answer Empty) → Fib.State → Fib.State
  | _, [], s => s
  | k, e :: log, s => routesAfter kernel answers (k + 1) log (routeStep kernel (answers k) s e)

/-- The outside answers a default route with what became of its application. -/
def Explains (answers : ℕ → World Op.Answer) (w : World Call.Answer) : Prop :=
  ∀ k index gateway metric protocol, w k (.applyDefaultRoute index gateway metric protocol) =
    ((DefaultRoute.apply index gateway metric protocol).run (answers k) 0 ()).result

/-- The addresses of a static profile are all added, from the place `k` on. -/
def AddressesAdded (w : World Call.Answer) (index : Int32) : ℕ → List String → Prop
  | _, [] => True
  | k, addr :: addresses =>
    (∃ cidr, Address.parseCidr addr = .ok cidr ∧ w k (.addAddress index cidr.1 cidr.2) = .ok ()) ∧
      AddressesAdded w index (k + 1) addresses

/-- The default route that a profile asks for, from the place `k` on, and the place where it does:
that of a static profile once its addresses are there, that of a lease once its address is. -/
inductive Asks (w : World Call.Answer) (profile : ConnectionProfile) (ifname : String)
    (index : Int32) (k : ℕ) : ℕ → IpAddr → RouteProtocol → Prop where
  | static {text : String} {gateway : IpAddr} (hmethod : profile.method = .manual)
      (hadded : AddressesAdded w index k profile.addresses) (htext : profile.gateway = some text)
      (hparse : IpAddr.parse text.toList = some gateway) :
      Asks w profile ifname index k (k + profile.addresses.length) gateway .static
  | dhcp {lease : Lease} {gateway : Ipv4Addr} (hmethod : profile.method = .auto)
      (hlease : w k (.dhcpAcquire ifname index) = .ok lease)
      (hadded : w (k + 1) (.addAddress index (.v4 lease.address) lease.prefixlen) = .ok ())
      (hgateway : lease.gateway = some gateway) :
      Asks w profile ifname index k (k + 2) (.v4 gateway) .dhcp

theorem Asks.unique {w : World Call.Answer} {profile : ConnectionProfile} {ifname : String}
    {index : Int32} {k j j' : ℕ} {gateway' : IpAddr} {protocol' : RouteProtocol}
    (h : Asks w profile ifname index k j gateway protocol)
    (h' : Asks w profile ifname index k j' gateway' protocol') :
    j = j' ∧ gateway = gateway' ∧ protocol = protocol' := by
  cases h with
  | static hmethod _ htext hparse =>
    cases h' with
    | static _ _ htext' hparse' =>
      cases htext.symm.trans htext'
      cases hparse.symm.trans hparse'
      exact ⟨rfl, rfl, rfl⟩
    | dhcp hmethod' => cases hmethod.symm.trans hmethod'
  | dhcp hmethod hlease _ hgateway =>
    cases h' with
    | static hmethod' => cases hmethod.symm.trans hmethod'
    | dhcp _ hlease' _ hgateway' =>
      cases hlease.symm.trans hlease'
      cases hgateway.symm.trans hgateway'
      exact ⟨rfl, rfl, rfl⟩

def Unrouted : Call → Prop
  | .applyDefaultRoute _ _ _ _ => False
  | _ => True

section Routes

variable {kernel : Kernel} {answers : ℕ → World Op.Answer} {w : World Call.Answer} {k : ℕ}
  {log log' : List (Entry Call.Answer Empty)} {s : Fib.State} {work work' : Work} {α β : Type}

variable {m : TryProg Work α} {f : α → TryProg Work β} {e : NetworkError} {addr : String}

theorem routesAfter_append :
    routesAfter kernel answers k (log ++ log') s =
      routesAfter kernel answers (k + log.length) log' (routesAfter kernel answers k log s) := by
  induction log generalizing k s with
  | nil => rfl
  | cons e log ih =>
    rw [List.cons_append, routesAfter, ih, Nat.add_right_comm]
    rfl

theorem routesAfter_of_unrouted (h : ∀ c a, .call c a ∈ log → Unrouted c) :
    routesAfter kernel answers k log s = s := by
  induction log generalizing k with
  | nil => rfl
  | cons e log ih =>
    have hstep : routeStep kernel (answers k) s e = s := by
      cases e with
      | note n => exact n.elim
      | call c a =>
        have hc := h c a (List.mem_cons_self ..)
        cases c with
        | applyDefaultRoute index gateway metric protocol => exact hc.elim
        | _ => rfl
    rw [routesAfter, hstep]
    exact ih fun c a hmem => h c a (List.mem_cons_of_mem e hmem)

theorem routesAfter_bind_unrouted (hf : ∀ a, Try.Makes Unrouted (f a)) :
    routesAfter kernel answers k ((m >>= f).run w k work).log s =
      routesAfter kernel answers k (m.run w k work).log s := by
  rcases Try.run_bind_cases m f w k work with ⟨e, -, -, hlog⟩ | ⟨a, k', work', -, -, hlog⟩
  · rw [hlog]
  · rw [hlog, routesAfter_append]
    exact routesAfter_of_unrouted (hf a w k' work')

theorem routesAfter_bind_of_ok {a : α} (hm : Try.Makes Unrouted m)
    (h : m.run w k work = ⟨.ok a, work', log⟩) :
    routesAfter kernel answers k ((m >>= f).run w k work).log s =
      routesAfter kernel answers (k + log.length) ((f a).run w (k + log.length) work').log s := by
  have hunr : ∀ c a, .call c a ∈ log → Unrouted c := by
    have hall := hm w k work
    rwa [h] at hall
  rw [Try.run_bind_of_ok h]
  rw [routesAfter_append, routesAfter_of_unrouted hunr]

theorem routesAfter_bind_of_error (hm : Try.Makes Unrouted m)
    (h : (m.run w k work).result = .error e) :
    routesAfter kernel answers k ((m >>= f).run w k work).log s = s := by
  rw [Try.run_bind_of_result h]
  exact routesAfter_of_unrouted (hm w k work)

/-! ### Static profiles -/

variable {index : Int32}

theorem unrouted_addStaticAddress (addr : String) :
    Try.Makes Unrouted (addStaticAddress index addr) :=
  (Try.Makes.ofProc (Proc.Makes.pure _)).bind fun _ => Try.Makes.ofProc (makes_call trivial)

theorem run_addStaticAddress_of_ok {cidr : IpAddr × UInt8} (h : Address.parseCidr addr = .ok cidr) :
    (addStaticAddress index addr).run w k work = ⟨w k (.addAddress index cidr.1 cidr.2), work,
      [.call (.addAddress index cidr.1 cidr.2) (w k (.addAddress index cidr.1 cidr.2))]⟩ := by
  have hparse : (attempt (pure (Address.parseCidr addr)) : TryProg Work _).run w k work =
      ⟨.ok cidr, work, []⟩ := by
    rw [h]
    rfl
  rw [addStaticAddress, Try.run_bind_of_ok hparse]
  rfl

theorem result_addStaticAddress_of_error (h : Address.parseCidr addr = .error e) :
    ((addStaticAddress index addr).run w k work).result = .error e := by
  have hparse : (attempt (pure (Address.parseCidr addr)) : TryProg Work _).run w k work =
      ⟨.error e, work, []⟩ := by
    rw [h]
    rfl
  rw [addStaticAddress, Try.run_bind_of_error hparse]

theorem run_addresses (w : World Call.Answer) (index : Int32) (k : ℕ) (work : Work)
    (addresses : List String) :
    (AddressesAdded w index k addresses ∧ ∃ log,
      (addresses.forM (addStaticAddress index)).run w k work = ⟨.ok (), work, log⟩ ∧
        log.length = addresses.length) ∨
    (¬AddressesAdded w index k addresses ∧ ∃ e,
      ((addresses.forM (addStaticAddress index)).run w k work).result = .error e) := by
  induction addresses generalizing k with
  | nil => exact .inl ⟨trivial, [], rfl, rfl⟩
  | cons addr addresses ih =>
    have hfai : ∀ e, ((addStaticAddress index addr).run w k work).result = .error e →
        (((addr :: addresses).forM (addStaticAddress index)).run w k work).result = .error e :=
      fun e he => congrArg Ran.result (Try.run_bind_of_result he)
    cases hparse : Address.parseCidr addr with
    | error e =>
      refine .inr ⟨?_, e, hfai e (result_addStaticAddress_of_error hparse)⟩
      rintro ⟨⟨cidr, hcidr, -⟩, -⟩
      cases hparse.symm.trans hcidr
    | ok cidr =>
      have hrun : (addStaticAddress index addr).run w k work = _ :=
        run_addStaticAddress_of_ok hparse
      cases hans : w k (.addAddress index cidr.1 cidr.2) with
      | error e =>
        refine .inr ⟨?_, e, hfai e ?_⟩
        · rintro ⟨⟨cidr', hcidr', hadded⟩, -⟩
          cases hparse.symm.trans hcidr'
          cases hans.symm.trans hadded
        · rw [hrun]
          exact hans
      | ok _ =>
        rw [hans] at hrun
        have hcons : ((addr :: addresses).forM (addStaticAddress index)).run w k work =
            ⟨((addresses.forM (addStaticAddress index)).run w (k + 1) work).result,
              ((addresses.forM (addStaticAddress index)).run w (k + 1) work).state,
              [.call (.addAddress index cidr.1 cidr.2) (.ok ())] ++
                ((addresses.forM (addStaticAddress index)).run w (k + 1) work).log⟩ :=
          Try.run_bind_of_ok hrun
        rcases ih (k + 1) with ⟨hadded, log, hrest, hlen⟩ | ⟨hnot, e, hrest⟩
        · rw [hrest] at hcons
          refine .inl ⟨⟨⟨cidr, hparse, hans⟩, hadded⟩, _, hcons, ?_⟩
          rw [List.length_append, hlen]
          exact Nat.add_comm 1 _
        · refine .inr ⟨fun h => hnot h.2, e, ?_⟩
          rw [hcons]
          exact hrest

/-- What is known of the routes after a part of an activation: the one default route that was asked
for is applied, or none was asked for and nothing changed. -/
def RoutesSettled (kernel : Kernel) (answers : ℕ → World Op.Answer) (index : Int32)
    (asks : ℕ → IpAddr → RouteProtocol → Prop) (s s' : Fib.State) : Prop :=
  (∃ j gateway protocol, asks j gateway protocol ∧
    s' = kernel.after
      ((DefaultRoute.apply index gateway 100 protocol).run (answers j) 0 ()).log s) ∨
  ((∀ j gateway protocol, ¬asks j gateway protocol) ∧ s' = s)

theorem RoutesSettled.of_eq {asks : ℕ → IpAddr → RouteProtocol → Prop} {s' s'' : Fib.State}
    (h : s'' = s') (hs : RoutesSettled kernel answers index asks s s') :
    RoutesSettled kernel answers index asks s s'' := h ▸ hs

variable {profile : ConnectionProfile}

theorem settled_applyStatic (hmethod : profile.method = .manual) (ifname : String) :
    RoutesSettled kernel answers index (Asks w profile ifname index k) s
      (routesAfter kernel answers k ((applyStatic profile index).run w k work).log s) := by
  have hunr : Try.Makes Unrouted (profile.addresses.forM (addStaticAddress index)) :=
    .forM unrouted_addStaticAddress _
  -- Nothing is asked for unless the addresses are added and the gateway is an address.
  have hno : (∀ text gateway, AddressesAdded w index k profile.addresses →
      profile.gateway = some text → IpAddr.parse text.toList ≠ some gateway) →
      ∀ j gateway protocol, ¬Asks w profile ifname index k j gateway protocol := by
    intro hnone j gateway protocol hasks
    cases hasks with
    | static _ hadded htext hparse => exact hnone _ _ hadded htext hparse
    | dhcp hauto => cases hmethod.symm.trans hauto
  rcases run_addresses w index k work profile.addresses
    with ⟨hadded, log, hrun, hlen⟩ | ⟨hnot, e, hfai⟩
  · rw [applyStatic, routesAfter_bind_of_ok hunr hrun, hlen]
    cases hgateway : profile.gateway with
    | none =>
      refine .inr ⟨hno fun text gateway _ htext => ?_, rfl⟩
      cases hgateway.symm.trans htext
    | some text =>
      rw [applyGateway]
      cases hparse : IpAddr.parse text.toList with
      | none =>
        refine .inr ⟨hno fun text' gateway _ htext hsome => ?_, rfl⟩
        cases hgateway.symm.trans htext
        cases hparse.symm.trans hsome
      | some gateway =>
        exact .inl ⟨_, gateway, .static, .static hmethod hadded hgateway hparse, rfl⟩
  · rw [applyStatic, routesAfter_bind_of_error hunr hfai]
    exact .inr ⟨hno fun text gateway hadded => absurd hadded hnot, rfl⟩

/-! ### Leases -/

theorem unrouted_applyLeaseDns (servers : List IpAddr) (search : List String) :
    Try.Makes Unrouted (applyLeaseDns servers search) := by
  unfold applyLeaseDns
  split
  · exact .pure ()
  · exact .ofProc (makes_call trivial)

theorem unrouted_keepLease {f : NetworkDevice → NetworkDevice} (ifname : String) (lease : Lease) :
    Try.Makes Unrouted (do
      applyLeaseDns (lease.dnsServers.map .v4) lease.domain.toList
      modifyDevice f
      attempt (call (.writeLease ifname lease))) :=
  (unrouted_applyLeaseDns _ _).bind fun _ => (Try.Makes.lift (Proc.Makes.modify _)).bind fun _ =>
    .ofProc (makes_call trivial)

theorem unrouted_device : Try.Makes Unrouted device :=
  (Try.Makes.lift Proc.Makes.get).bind fun _ => Try.Makes.pure _

theorem settled_applyDhcp (hmethod : profile.method = .auto) :
    RoutesSettled kernel answers index (Asks w profile work.device.name index k) s
      (routesAfter kernel answers k ((applyDhcp index).run w k work).log s) := by
  have hno : (∀ lease gateway, w k (.dhcpAcquire work.device.name index) = .ok lease →
      w (k + 1) (.addAddress index (.v4 lease.address) lease.prefixlen) = .ok () →
        lease.gateway ≠ some gateway) →
      ∀ j gateway protocol, ¬Asks w profile work.device.name index k j gateway protocol := by
    intro hnone j gateway protocol hasks
    cases hasks with
    | static hman => cases hmethod.symm.trans hman
    | dhcp _ hlease hadded hgateway => exact hnone _ _ hlease hadded hgateway
  have hdev : (device : TryProg Work NetworkDevice).run w k work =
      ⟨.ok work.device, work, []⟩ := rfl
  rw [applyDhcp, routesAfter_bind_of_ok unrouted_device hdev]
  -- Each call can end the activation before a route is asked for.
  cases hlease : w k (.dhcpAcquire work.device.name index) with
  | error e =>
    refine .inr ⟨hno fun lease gateway hok => ?_,
      routesAfter_bind_of_error (.ofProc (makes_call trivial)) hlease⟩
    cases hlease.symm.trans hok
  | ok lease =>
    have hacquired : (attempt (call (.dhcpAcquire work.device.name index)) :
        TryProg Work Lease).run w k work =
          ⟨.ok lease, work, [.call (.dhcpAcquire work.device.name index) (.ok lease)]⟩ := by
      rw [← hlease]
      rfl
    refine .of_eq (routesAfter_bind_of_ok (.ofProc (makes_call trivial)) hacquired) ?_
    cases hadded : w (k + 1) (.addAddress index (.v4 lease.address) lease.prefixlen) with
    | error e =>
      refine .inr ⟨hno fun lease' gateway hok hadd => ?_,
        routesAfter_bind_of_error (.ofProc (makes_call trivial)) hadded⟩
      cases hlease.symm.trans hok
      cases hadded.symm.trans hadd
    | ok _ =>
      have hadr : (attempt (call (.addAddress index (.v4 lease.address) lease.prefixlen)) :
          TryProg Work Unit).run w (k + 1) work =
            ⟨.ok (), work,
              [.call (.addAddress index (.v4 lease.address) lease.prefixlen) (.ok ())]⟩ := by
        rw [← hadded]
        rfl
      refine .of_eq (routesAfter_bind_of_ok (.ofProc (makes_call trivial)) hadr) ?_
      refine .of_eq
        (routesAfter_bind_unrouted fun _ => unrouted_keepLease work.device.name lease) ?_
      cases hgateway : lease.gateway with
      | none =>
        refine .inr ⟨hno fun lease' gateway hok _ hsome => ?_, rfl⟩
        cases hlease.symm.trans hok
        cases hgateway.symm.trans hsome
      | some gateway =>
        exact .inl ⟨_, .v4 gateway, .dhcp, .dhcp hmethod hlease hadded hgateway, rfl⟩

theorem settled_applyMethod (kernel : Kernel) (answers : ℕ → World Op.Answer)
    (w : World Call.Answer) (profile : ConnectionProfile) (work : Work) (index : Int32) (k : ℕ)
    (s : Fib.State) :
    RoutesSettled kernel answers index (Asks w profile work.device.name index k) s
      (routesAfter kernel answers k ((applyMethod profile index).run w k work).log s) := by
  have hnone : profile.method ≠ .manual → profile.method ≠ .auto →
      ∀ j gateway protocol, ¬Asks w profile work.device.name index k j gateway protocol := by
    intro hman hauto j gateway protocol hasks
    cases hasks with
    | static hmethod => exact hman hmethod
    | dhcp hmethod => exact hauto hmethod
  rw [applyMethod]
  cases hmethod : profile.method with
  | manual => exact settled_applyStatic hmethod work.device.name
  | auto => exact settled_applyDhcp hmethod
  | linkLocal | disabled =>
    refine .inr ⟨hnone ?_ ?_, rfl⟩ <;> simp [hmethod]

def Routed (index : Int32) : Call → Prop
  | .applyDefaultRoute i _ metric _ => i = index ∧ metric = 100
  | _ => True

theorem routed_of_unrouted {c : Call} (h : Unrouted c) : Routed index c := by
  cases c with
  | applyDefaultRoute i gateway metric protocol => exact h.elim
  | _ => trivial

theorem routed_applyStatic : Try.Makes (Routed index) (applyStatic profile index) := by
  refine (Try.Makes.forM (fun addr => ?_) _).bind fun _ => ?_
  · exact (unrouted_addStaticAddress addr).mono fun _ => routed_of_unrouted
  · unfold applyGateway
    split
    · exact Try.Makes.pure ()
    · split
      · exact .throw _
      · exact .ofProc (makes_call ⟨rfl, rfl⟩)

theorem routed_applyDhcp : Try.Makes (Routed index) (applyDhcp index) := by
  have hdev : Try.Makes (Routed index) device := unrouted_device.mono fun _ => routed_of_unrouted
  refine hdev.bind fun dev => (Try.Makes.ofProc (makes_call trivial)).bind fun lease =>
    (Try.Makes.ofProc (makes_call trivial)).bind fun _ => Try.Makes.bind ?_ fun _ =>
      (unrouted_keepLease dev.name lease).mono fun _ => routed_of_unrouted
  unfold applyLeaseGateway
  split
  · exact Try.Makes.pure ()
  · exact Try.Makes.ofProc (makes_call ⟨rfl, rfl⟩)

theorem routed_applyMethod : Try.Makes (Routed index) (applyMethod profile index) := by
  unfold applyMethod
  split
  · exact routed_applyStatic
  · exact routed_applyDhcp
  · exact .pure ()
  · exact .pure ()

end Routes

/-- **Default routes of activation.** The default routes of the other interfaces are the same before
and after an activation exactly if it does not succeed in applying a default route whose place, that
of its family with the metric 100, another interface has. The metrics of two activations are ordered
as `routing::metrics` prescribes exactly if it prescribes the same metric for both. -/
theorem defaultRoutes_iff (kernel : Kernel) (answers : ℕ → World Op.Answer) (w : World Call.Answer)
    (hanswers : Explains answers w) (profile : ConnectionProfile) (work : Work) (index : Int32)
    (k : ℕ) (s : Fib.State) :
    ((∀ key, IsDefault key →
        foreign index
          (routesAfter kernel answers k ((applyMethod profile index).run w k work).log s) key =
            foreign index s key) ↔
      ¬∃ j gateway protocol, Asks w profile work.device.name index k j gateway protocol ∧
        w j (.applyDefaultRoute index gateway 100 protocol) = .ok () ∧ Taken index gateway 100 s) ∧
    ∀ (w' : World Call.Answer) (profile' : ConnectionProfile) (work' : Work) (index' : Int32)
      (k' : ℕ) (gateway gateway' : IpAddr) (metric metric' : UInt32)
      (protocol protocol' : RouteProtocol) (a a' : Result Unit),
      .call (.applyDefaultRoute index gateway metric protocol) a ∈
        ((applyMethod profile index).run w k work).log →
      .call (.applyDefaultRoute index' gateway' metric' protocol') a' ∈
        ((applyMethod profile' index').run w' k' work').log →
      (((metric < metric' ↔
          Metrics.effectiveMetric profile.deviceType profile.autoconnectPriority <
            Metrics.effectiveMetric profile'.deviceType profile'.autoconnectPriority) ∧
        (metric' < metric ↔
          Metrics.effectiveMetric profile'.deviceType profile'.autoconnectPriority <
            Metrics.effectiveMetric profile.deviceType profile.autoconnectPriority)) ↔
        Metrics.effectiveMetric profile.deviceType profile.autoconnectPriority =
          Metrics.effectiveMetric profile'.deviceType profile'.autoconnectPriority) := by
  constructor
  · rcases settled_applyMethod kernel answers w profile work index k s
      with ⟨j, gateway, protocol, hasks, hroutes⟩ | ⟨hnone, hroutes⟩
    · rw [hroutes, foreign_apply_iff, ← hanswers j index gateway 100 protocol]
      refine not_congr ⟨fun h => ⟨j, gateway, protocol, hasks, h⟩, ?_⟩
      rintro ⟨j', gateway', protocol', hasks', h⟩
      obtain ⟨rfl, rfl, rfl⟩ := hasks.unique hasks'
      exact h
    · rw [hroutes]
      refine iff_of_true (fun _ _ => rfl) ?_
      rintro ⟨j, gateway, protocol, hasks, -⟩
      exact hnone j gateway protocol hasks
  · intro w' profile' work' index' k' gateway gateway' metric metric' protocol protocol' a a' hmem
      hmem'
    obtain ⟨-, rfl⟩ := routed_applyMethod w k work _ _ hmem
    obtain ⟨-, rfl⟩ := routed_applyMethod w' k' work' _ _ hmem'
    generalize Metrics.effectiveMetric profile.deviceType profile.autoconnectPriority = m
    generalize Metrics.effectiveMetric profile'.deviceType profile'.autoconnectPriority = m'
    constructor
    · rintro ⟨hlt, hgt⟩
      have hle : ¬m < m' := fun h => UInt32.lt_irrefl _ (hlt.mpr h)
      have hge : ¬m' < m := fun h => UInt32.lt_irrefl _ (hgt.mpr h)
      exact UInt32.le_antisymm (UInt32.not_lt.mp hge) (UInt32.not_lt.mp hle)
    · rintro rfl
      simp

/-- A Wi-Fi network with an address and a gateway of its own. -/
def cafeProfile : ConnectionProfile :=
  { ConnectionProfile.newWifi "cafe" "cafe" .open with
    method := .manual
    addresses := ["10.0.0.2/24"]
    gateway := some "10.0.0.1" }

def cafeWork : Work :=
  ⟨⟨"wlan0", 3, .wifi, .disconnected, none, 1500, [], [], false, none, none⟩, ∅⟩

/-- The default route of a wired interface, from a lease. -/
def wiredRoutes (metric : UInt32) : Fib.State where
  routes key :=
    if key = defaultKey (.v4 (.new 192 168 1 1)) metric then
      some ⟨some [192, 168, 1, 1], 2, RouteProtocol.dhcp.raw, rtScopeUniverse⟩
    else none
  rules := []

/-- From a wired interface whose default route has another metric, the Wi-Fi network takes no route
away. -/
theorem defaultRoutes_alone :
    Explains (fun _ _ => accepting []) (fun _ => calm [] (.ok ())) ∧
      foreign 3 (routesAfter .byKey (fun _ _ => accepting []) 0
        ((applyMethod cafeProfile 3).run (fun _ => calm [] (.ok ())) 0 cafeWork).log
          (wiredRoutes 50)) (defaultKey (.v4 (.new 10 0 0 1)) 50) =
        some ⟨some [192, 168, 1, 1], 2, 16, 0⟩ := by
  have hexplains : Explains (fun _ _ => accepting []) (fun _ => calm [] (.ok ())) :=
    fun _ _ _ _ _ => rfl
  have hkept := (defaultRoutes_iff .byKey _ _ hexplains cafeProfile cafeWork 3 0
    (wiredRoutes 50)).1.mpr ?_ (defaultKey (.v4 (.new 10 0 0 1)) 50) ⟨rfl, rfl⟩
  · exact ⟨hexplains, hkept.trans (by decide)⟩
  · rintro ⟨j, gateway, protocol, -, -, hop, hhop, -⟩
    have hkey : defaultKey gateway 100 ≠ defaultKey (.v4 (.new 192 168 1 1)) 50 :=
      fun h => absurd (congrArg Key.metric h) (show (100 : UInt32) ≠ 50 by decide)
    cases (if_neg hkey).symm.trans hhop

/-- Beside a wired connection it does: both ask for the metric 100, where 100 and 600 are
prescribed. -/
theorem defaultRoutes_clobbered :
    foreign 3 (wiredRoutes 100) (defaultKey (.v4 (.new 10 0 0 1)) 100) =
        some ⟨some [192, 168, 1, 1], 2, 16, 0⟩ ∧
      foreign 3 (routesAfter .byKey (fun _ _ => accepting []) 0
        ((applyMethod cafeProfile 3).run (fun _ => calm [] (.ok ())) 0 cafeWork).log
          (wiredRoutes 100)) (defaultKey (.v4 (.new 10 0 0 1)) 100) = none ∧
      Metrics.effectiveMetric .ethernet 0 = 100 ∧
      Metrics.effectiveMetric cafeProfile.deviceType cafeProfile.autoconnectPriority = 600 := by
  decide +kernel

end Activation

end MitosNetwork
