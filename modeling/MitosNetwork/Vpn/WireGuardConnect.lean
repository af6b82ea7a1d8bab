import MitosNetwork.Common.Steps
import MitosNetwork.Security.Validation
import MitosNetwork.Vpn.WireGuard

/-!
# Connecting WireGuard

`connect` of `src/vpn/wireguard.rs`: the link is created and gets its address before the keys, the
endpoint and the allowed addresses are looked at, and nothing is taken back when a later step fails.
-/

namespace MitosNetwork.WireGuard

open Steps

/-- The links of the kernel by name, and the addresses and routes on them. -/
structure Kernel where
  links : List String
  addresses : List (String × IpAddr × UInt8)
  routes : List (String × IpAddr × UInt8)
deriving DecidableEq

/-- What is given to `connect`, and the outcomes of everything it asks for. -/
structure Outcomes where
  parsed : Except String (Config × String)
  secret : Result (Option String)
  listed : Result Unit
  created : Result Unit
  listedAgain : Result Unit
  added : Result Unit
  order : Wire.ByteOrder
  endpoints : String → Except String (List SocketAddr)
  family : Result UInt16
  request : UInt16 → List UInt8 → Result Unit
  up : Result Unit
  routed : IpAddr × UInt8 → Result Unit

/-- `interface::get_by_name`, if the links can be listed. -/
def getByName (listed : Result Unit) (kernel : Kernel) (name : String) : Result Unit := do
  listed
  if name ∈ kernel.links then return () else throw (.notFound ("interface '" ++ name ++ "'"))

/-- `interface::create_virtual`: with `NLM_F_EXCL` there must be no link of the name. -/
def createVirtual (created : Result Unit) (kernel : Kernel) (name : String) : Result Unit :=
  if name ∈ kernel.links then .error (.netlink "File exists") else created

/-- The routes of the allowed addresses; errors are ignored. -/
def addRoutes (o : Outcomes) (cfg : Config) (kernel : Kernel) : Kernel :=
  (splitList cfg.peerAllowedIps).foldl (fun kernel cidr =>
    match Address.parseCidr cidr with
    | .error _ => kernel
    | .ok dst =>
      match o.routed dst with
      | .error _ => kernel
      | .ok () => { kernel with routes := kernel.routes.insert (cfg.interface, dst) }) kernel

/-- The start of `connect`: the configuration with its address, and the private key. -/
def ready (profileId : String) (o : Outcomes) : Result (Config × String × String) := do
  let (cfg, address) ← o.parsed.mapError fun e => .vpn ("invalid WireGuard config: " ++ e)
  Validation.validateInterfaceName cfg.interface
  match ← o.secret with
  | some key => return (cfg, address, key)
  | none => throw (.vpn ("no private key stored for '" ++ profileId ++ "'"))

/-- `connect` once there is a link. -/
def configure (o : Outcomes) (cfg : Config) (address key : String) :
    Steps NetworkError Kernel String := do
  let kernel ← get
  attempt (getByName o.listedAgain kernel cfg.interface)
  let addr ← attempt (Address.parseCidr address)
  attempt o.added
  modify fun kernel => { kernel with addresses := kernel.addresses.insert (cfg.interface, addr) }
  attempt (setCryptoParams o.order o.endpoints o.family o.request cfg key)
  attempt o.up
  modify (addRoutes o cfg)
  return cfg.interface

/-- `connect`. -/
def connect (profileId : String) (o : Outcomes) : Steps NetworkError Kernel String := do
  let (cfg, address, key) ← attempt (ready profileId o)
  let kernel ← get
  if !(getByName o.listed kernel cfg.interface).isOk then
    attempt (createVirtual o.created kernel cfg.interface)
    modify fun kernel => { kernel with links := cfg.interface :: kernel.links }
  configure o cfg address key

/-- The keys, the endpoint and the allowed addresses are accepted, and the link comes up. -/
def Outcomes.Starts (o : Outcomes) (cfg : Config) (key : String) : Prop :=
  (setCryptoParams o.order o.endpoints o.family o.request cfg key).isOk ∧ o.up.isOk

def Outcomes.Addresses (o : Outcomes) (address : String) (addr : IpAddr × UInt8) : Prop :=
  o.listedAgain.isOk ∧ Address.parseCidr address = .ok addr ∧ o.added.isOk

/-- The call fails and leaves a link that it created, or an address on one that was there. -/
def Outcomes.Strands (o : Outcomes) (profileId : String) (kernel : Kernel) : Prop :=
  ∃ cfg address key, ready profileId o = .ok (cfg, address, key) ∧
    (cfg.interface ∉ kernel.links ∧ o.created.isOk ∧
        ¬((∃ addr, o.Addresses address addr) ∧ o.Starts cfg key) ∨
      cfg.interface ∈ kernel.links ∧ o.listed.isOk ∧
        (∃ addr, o.Addresses address addr ∧ (cfg.interface, addr) ∉ kernel.addresses) ∧
        ¬o.Starts cfg key)

variable {o : Outcomes} {cfg : Config} {address key : String} {kernel : Kernel}
  {listed : Result Unit} {name : String}

theorem getByName_of_mem (h : name ∈ kernel.links) :
    getByName listed kernel name = listed := by
  cases listed with
  | error e => rfl
  | ok u => exact if_pos h

theorem getByName_of_not_mem (h : name ∉ kernel.links) :
    (getByName listed kernel name).isOk = false := by
  cases listed with
  | error e => rfl
  | ok u =>
    have herr : getByName (.ok u) kernel name = throw _ := if_neg h
    rw [herr]
    rfl

/-- A run from a link that is there fails as it is, or with its address. -/
theorem leaves_configure {P : Kernel → Prop} (h : cfg.interface ∈ kernel.links) :
    Leaves P ((configure o cfg address key).run kernel) ↔
      ((¬∃ addr, o.Addresses address addr) → P kernel) ∧
      ∀ addr, o.Addresses address addr → ¬o.Starts cfg key →
        P { kernel with addresses := kernel.addresses.insert (cfg.interface, addr) } := by
  have hrun (f : Kernel → Steps NetworkError Kernel String) :
      (get >>= f).run kernel = (f kernel).run kernel := rfl
  rw [configure, hrun, getByName_of_mem h]
  unfold Outcomes.Addresses Outcomes.Starts
  rcases o.listedAgain with e | _
  · simp [Except.isOk, Except.toBool]
  rcases Address.parseCidr address with e | addr
  · simp [Except.isOk, Except.toBool]
  rcases o.added with e | _
  · simp [Except.isOk, Except.toBool]
  rcases setCryptoParams o.order o.endpoints o.family o.request cfg key with e | _
  · simp [Except.isOk, Except.toBool]
  rcases o.up with e | _
  · simp [Except.isOk, Except.toBool]
  · refine iff_of_true leaves_ok ?_
    simp [Except.isOk, Except.toBool]

/-- **All or nothing.** A call of `connect` that fails leaves the links, addresses and routes as
they were, if and only if it does not fail after it has created the link or, if that was there,
after it has added an address to it. -/
theorem connect_unchanged_iff (profileId : String) (o : Outcomes) (kernel : Kernel) :
    Leaves (· = kernel) ((connect profileId o).run kernel) ↔ ¬o.Strands profileId kernel := by
  unfold connect Outcomes.Strands
  rcases ready profileId o with e | ⟨cfg, address, key⟩
  · simp
  have hrun (f : Kernel → Steps NetworkError Kernel String) :
      (get >>= f).run kernel = (f kernel).run kernel := rfl
  rw [run_attempt_ok]
  simp only [hrun]
  by_cases hlink : cfg.interface ∈ kernel.links
  · have hinsert (addr : IpAddr × UInt8) :
        { kernel with addresses := kernel.addresses.insert (cfg.interface, addr) } = kernel ↔
          (cfg.interface, addr) ∈ kernel.addresses := by
      obtain ⟨links, addresses, routes⟩ := kernel
      by_cases hmem : (cfg.interface, addr) ∈ addresses <;> simp [hmem]
    rw [getByName_of_mem hlink]
    rcases o.listed with e | _
    · simp [Except.isOk, Except.toBool, createVirtual, hlink]
    · by_cases hstarts : o.Starts cfg key <;>
        simp [Except.isOk, Except.toBool, hlink, leaves_configure, hinsert, hstarts]
  · have hne (addresses : List (String × IpAddr × UInt8)) :
        { kernel with links := cfg.interface :: kernel.links, addresses } ≠ kernel := by
      intro heq
      exact hlink (heq ▸ List.mem_cons_self)
    have hnew : Leaves (· = kernel) ((configure o cfg address key).run
        { kernel with links := cfg.interface :: kernel.links }) ↔
        (∃ addr, o.Addresses address addr) ∧ o.Starts cfg key := by
      have hmem : cfg.interface ∈ cfg.interface :: kernel.links := List.mem_cons_self
      rw [leaves_configure hmem]
      constructor
      · rintro ⟨hnone, hsome⟩
        obtain ⟨addr, haddr⟩ := not_not.mp fun h => hne _ (hnone h)
        exact ⟨⟨addr, haddr⟩, not_not.mp fun h => hne _ (hsome addr haddr h)⟩
      · rintro ⟨haddr, hstarts⟩
        exact ⟨fun h => absurd haddr h, fun _ _ h => absurd hstarts h⟩
    rw [getByName_of_not_mem hlink]
    rcases o.created with e | _
    · simp [Except.isOk, Except.toBool, createVirtual, hlink]
    · simpa [Except.isOk, Except.toBool, createVirtual, hlink] using hnew

/-- Everything succeeds, but the address has no such prefix length. -/
def badAddress : Outcomes where
  parsed := .ok (⟨"wg0", "", "", "", none, 25⟩, "10.0.0.2/33")
  secret := .ok (some "")
  listed := .ok ()
  created := .ok ()
  listedAgain := .ok ()
  added := .ok ()
  order := .little
  endpoints _ := .ok []
  family := .ok 0
  request _ _ := .ok ()
  up := .ok ()
  routed _ := .ok ()

/-- The call fails, and the link stays. -/
theorem connect_strands_link :
    ((connect "work" badAddress).run ⟨["lo"], [], []⟩).1.isOk = false ∧
      ((connect "work" badAddress).run ⟨["lo"], [], []⟩).2 = ⟨["wg0", "lo"], [], []⟩ := by
  decide +kernel

end MitosNetwork.WireGuard
