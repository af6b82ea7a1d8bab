import MitosNetwork.Manager.Outside

/-!
# Hotspots

`src/sharing/hotspot.rs`, `src/sharing/nat.rs` and `src/wifi/hotspot.rs`, and the firewall
operations as programs that run nft. Each step of starting a hotspot may fail, and what was done
before it stays.
-/

namespace MitosNetwork

variable (op : Firewall.Op)

/-- A firewall operation: nft runs only when there is a rule set to apply. -/
def Firewall.operate : Prog Firewall.Host (Result Unit) := do
  let host ← Proc.get
  match op.edit host.fw with
  | .error e => return .error e
  | .ok none => return .ok ()
  | .ok (some fw) => do
    let nft ← call (.nft fw.ruleset)
    Proc.modify fun host => (host.perform op nft).1
    return (host.perform op nft).2

theorem Firewall.state_operate (w : World Call.Answer) (k : ℕ) (host : Firewall.Host) :
    ∃ nft, (operate op w k host).state = (host.perform op nft).1 := by
  rw [operate, Proc.get_bind]
  cases hedit : op.edit host.fw with
  | error e =>
    refine ⟨.loaded, ?_⟩
    rw [Host.perform, hedit]
    rfl
  | ok edited =>
    cases edited with
    | none =>
      refine ⟨.loaded, ?_⟩
      rw [Host.perform, hedit]
      rfl
    | some fw => exact ⟨w k (.nft fw.ruleset), rfl⟩

theorem Firewall.inert_operate : Inert (operate op) := by
  refine Proc.Makes.get.bind fun host => ?_
  split
  · exact .pure _
  · exact .pure _
  · exact Proc.Makes.bind (makes_call rfl) fun _ => (Proc.Makes.modify _).bind fun _ =>
      .pure _

/-- The operations that the manager performs. `disable_sharing` is called only at the end of a
session, by `sharing::hotspot::stop` and `internet_sharing::stop`, and nothing calls these. -/
def Firewall.Op.isOwn : Firewall.Op → Bool
  | .disableSharing _ _ => false
  | _ => true

structure Radio where
  host : Firewall.Host
  hostapd : List String

namespace Hotspot

open Validation

def operate : TryProg Radio Unit :=
  attempt (Proc.zoom Radio.host (fun host r => { r with host }) (Firewall.operate op))

/-! ## The radio -/

variable (interface ssid : String)

/-- `render_config` with the channel and mode that `sharing::hotspot` sets. -/
def renderConfig (passphrase : Option String) : String :=
  "interface=" ++ interface ++ "\n" ++
  "driver=nl80211\n" ++
  "ssid=" ++ ssid ++ "\n" ++
  "hw_mode=g\n" ++
  "channel=6\n" ++
  "ieee80211n=1\n" ++
  "wmm_enabled=1\n" ++
  match passphrase with
  | some pass =>
    "wpa=2\n" ++ "wpa_passphrase=" ++ pass ++ "\n" ++ "wpa_key_mgmt=WPA-PSK\n" ++
      "rsn_pairwise=CCMP\n"
  | none => "# open network: no wpa_passphrase configured\n"

def killHostapd (ifname : String) : Prog Radio Unit := do
  let radio ← Proc.get
  if ifname ∈ radio.hostapd then do
    Proc.modify fun r => { r with hostapd := r.hostapd.filter (· ≠ ifname) }
    let _ ← call (.killHostapd ifname)
    return ()
  else return ()

/-- `wifi::hotspot::stop`. -/
def stopHostapd (ifname : String) : Prog Radio Unit := do
  killHostapd ifname
  call (.removeHostapdConfig ifname)

/-- The checks of `wifi::hotspot::start`. -/
def validateHotspot (passphrase : Option String) : Result Unit := do
  validateInterfaceName interface
  validateSsid ssid
  match passphrase with
  | some pass => validateWpaPassphrase pass
  | none => return ()

theorem of_validateHotspot {device ssid : String} {passphrase : Option String}
    (h : validateHotspot device ssid passphrase = .ok ()) :
    validateInterfaceName device = .ok () ∧ validateSsid ssid = .ok () := by
  obtain ⟨_, hdev, h⟩ := of_bind_eq_ok h
  obtain ⟨_, hssid, -⟩ := of_bind_eq_ok h
  exact ⟨hdev, hssid⟩

theorem oneLine_of_validateHotspot {device ssid : String} {passphrase : Option String}
    (h : validateHotspot device ssid passphrase = .ok ()) : OneLine device ∧ OneLine ssid :=
  (of_validateHotspot h).imp oneLine_of_validateInterfaceName oneLine_of_validateSsid

def spawned (interface : String) : Except String Unit → TryProg Radio Unit
  | .error e => throw (.wifi ("failed to spawn hostapd: " ++ e))
  | .ok () => Try.lift (Proc.modify fun r =>
      { r with hostapd := interface :: r.hostapd.filter (· ≠ interface) })

/-- `wifi::hotspot::start`. -/
def startHostapd (passphrase : Option String) : TryProg Radio Unit := do
  attempt (pure (validateHotspot interface ssid passphrase))
  Try.lift (stopHostapd interface)
  attempt (call (.writeHostapdConfig interface (renderConfig interface ssid passphrase)))
  let child ← Try.lift (call (.spawnHostapd interface))
  spawned interface child

/-! ## The whole hotspot -/

def apServerIp : Ipv4Addr := .new 192 168 4 1

def dhcpConfig (interface : String) : DhcpServer.DhcpServerConfig where
  interface := interface
  serverIp := apServerIp
  poolStart := .new 192 168 4 10
  poolEnd := .new 192 168 4 200
  prefixlen := 24
  leaseTimeSecs := 3600
  dnsServers := [apServerIp]

/-- `interface::get_by_name`. -/
def getByName (name : String) : TryProg Radio Interface := do
  let ifaces ← attempt (call .listLinks)
  match ifaces.find? fun i => i.name = name with
  | some iface => return iface
  | none => throw (.notFound ("interface '" ++ name ++ "'"))

/-- `nat::enable` for the uplink, if there is one. -/
def enableNat (interface : String) (uplink : Option String) : TryProg Radio Unit :=
  match uplink with
  | none => pure ()
  | some wan => do
    attempt (call (.setIpv4Forwarding true))
    operate (.enableSharing interface wan)

/-- `sharing::hotspot::start`; the session it returns is not kept by the manager. -/
def start (passphrase uplink : Option String) : TryProg Radio Unit := do
  let iface ← getByName interface
  attempt (call (.flush iface.index))
  attempt (call (.addAddress iface.index (.v4 apServerIp) 24))
  attempt (call (.bringUp iface.index))
  startHostapd interface ssid passphrase
  attempt (call (.startDhcpServer (dhcpConfig interface)))
  operate (.assignZone interface "home")
  enableNat interface uplink

/-! ## What a hotspot asks for -/

theorem inert_operate : Inert (operate op).run :=
  Try.Makes.ofProc ((Firewall.inert_operate op).zoom Radio.host fun host r => { r with host })

section Makes

variable {Q : Call → Prop} {interface}

theorem makes_stopHostapd (h : ∀ c : Call, c.hostapdOf = some interface → Q c) :
    Proc.Makes Q (stopHostapd interface) := by
  refine .bind (Proc.Makes.get.bind fun radio => ?_) fun _ => makes_call (h _ rfl)
  split
  · exact (Proc.Makes.modify _).bind fun _ => Proc.Makes.bind (makes_call (h _ rfl)) fun _ =>
      .pure ()
  · exact .pure ()

variable {ssid} {passphrase : Option String}
  (h : validateHotspot interface ssid passphrase = .ok () →
    ∀ c : Call, c.hostapdOf = some interface → Q c)
include h

theorem makes_startHostapd : Try.Makes Q (startHostapd interface ssid passphrase) := by
  unfold startHostapd
  cases hvalid : validateHotspot interface ssid passphrase with
  | error e => exact Try.Makes.throw e
  | ok u =>
    have hhostapd := h hvalid
    refine .bind (.ofProc (.pure _)) fun _ => ?_
    refine .bind (.lift (makes_stopHostapd hhostapd)) fun _ => ?_
    refine .bind (.ofProc (makes_call (hhostapd _ rfl))) fun _ => ?_
    refine .bind (.lift (makes_call (hhostapd _ rfl))) fun child => ?_
    cases child with
    | error e => exact .throw _
    | ok u => exact .lift (.modify _)

theorem makes_configure (hin : ∀ c : Call, c.isInert = true → Q c) {index : Int32}
    (hfl : Q (.flush index)) (hadd : Q (.addAddress index (.v4 apServerIp) 24))
    (uplink : Option String) : Try.Makes Q (do
      attempt (call (.flush index))
      attempt (call (.addAddress index (.v4 apServerIp) 24))
      attempt (call (.bringUp index))
      startHostapd interface ssid passphrase
      attempt (call (.startDhcpServer (dhcpConfig interface)))
      operate (.assignZone interface "home")
      enableNat interface uplink : TryProg Radio Unit) := by
  have hnat : Try.Makes Q (enableNat interface uplink) := by
    cases uplink with
    | none => exact .pure ()
    | some wan =>
      exact .bind (.ofProc (makes_call (hin _ rfl))) fun _ => .mono (inert_operate _) hin
  refine .bind (.ofProc (makes_call hfl)) fun _ => ?_
  refine .bind (.ofProc (makes_call hadd)) fun _ => ?_
  refine .bind (.ofProc (makes_call (hin _ rfl))) fun _ => ?_
  refine .bind (makes_startHostapd h) fun _ => ?_
  refine .bind (.ofProc (makes_call (hin _ rfl))) fun _ => ?_
  exact .bind (.mono (inert_operate _) hin) fun _ => hnat

theorem makes_start (hin : ∀ c : Call, c.isInert = true → Q c)
    (hlink : ∀ c : Call, c.link.isSome → Q c) (uplink : Option String) :
    Try.Makes Q (start interface ssid passphrase uplink) := by
  refine .bind (.bind (.ofProc (makes_call (hin _ rfl))) fun links => ?_) fun iface =>
    makes_configure h hin (hlink _ rfl) (hlink _ rfl) uplink
  split
  · exact .pure _
  · exact .throw _

end Makes

theorem valid_of_result_start {interface ssid : String} {passphrase uplink : Option String}
    {w : World Call.Answer} {k : ℕ} {radio : Radio}
    (h : ((start interface ssid passphrase uplink).run w k radio).result = .ok ()) :
    validateHotspot interface ssid passphrase = .ok () := by
  obtain ⟨_, _, _, -, h⟩ := Try.result_bind_eq_ok h
  obtain ⟨_, _, _, -, h⟩ := Try.result_bind_eq_ok h
  obtain ⟨_, _, _, -, h⟩ := Try.result_bind_eq_ok h
  obtain ⟨_, _, _, -, h⟩ := Try.result_bind_eq_ok h
  obtain ⟨_, _, _, hradio, -⟩ := Try.result_bind_eq_ok h
  obtain ⟨_, _, _, hvalid, -⟩ := Try.result_bind_eq_ok hradio
  exact hvalid

/-! ## What a hotspot does to the firewall -/

section Keeps

variable {w : World Call.Answer} {I : Radio → Prop}
  (hhostapd : ∀ r hostapd, I r → I { r with hostapd := hostapd })
  (hhost : ∀ r (op : Firewall.Op) nft, op.isOwn = true → I r →
    I { r with host := (r.host.perform op nft).1 })

section

include hhostapd

theorem keeps_stopHostapd (ifname : String) : Proc.Keeps w I (stopHostapd ifname) := by
  refine .bind (Proc.Keeps.get.bind fun radio => ?_) fun _ => keeps_call _
  split
  · refine .bind ?_ fun _ => (keeps_call _).bind fun _ => .pure ()
    exact .modify fun r hr => hhostapd r _ hr
  · exact .pure ()

theorem keeps_startHostapd (interface ssid : String) (passphrase : Option String) :
    Try.Keeps w I (startHostapd interface ssid passphrase) := by
  refine (keeps_attempt (.pure _)).bind fun _ =>
    (Try.Keeps.lift (keeps_stopHostapd hhostapd _)).bind fun _ =>
    (keeps_attempt (keeps_call _)).bind fun _ =>
    (Try.Keeps.lift (keeps_call _)).bind fun child => ?_
  cases child with
  | error e => exact Try.Keeps.throw _
  | ok u => exact Try.Keeps.lift (Proc.Ensures.modify fun r hr => hhostapd r _ hr)

end

include hhost

theorem keeps_operate {op : Firewall.Op} (hop : op.isOwn = true) :
    Try.Keeps w I (operate op) := by
  intro k r hr
  obtain ⟨nft, hst⟩ := Firewall.state_operate op w k r.host
  show I { r with host := (Firewall.operate op w k r.host).state }
  rw [hst]
  exact hhost r op nft hop hr

include hhostapd

theorem keeps_start (interface ssid : String) (passphrase uplink : Option String) :
    Try.Keeps w I (start interface ssid passphrase uplink) := by
  have hname : Try.Keeps w I (getByName interface) := by
    refine (keeps_attempt (keeps_call _)).bind fun links => ?_
    split
    · exact .pure _
    · exact .throw _
  have hnat : Try.Keeps w I (enableNat interface uplink) := by
    cases uplink with
    | none => exact .pure ()
    | some wan => exact (keeps_attempt (keeps_call _)).bind fun _ => keeps_operate hhost rfl
  exact hname.bind fun _ => (keeps_attempt (keeps_call _)).bind fun _ =>
    (keeps_attempt (keeps_call _)).bind fun _ => (keeps_attempt (keeps_call _)).bind fun _ =>
    (keeps_startHostapd hhostapd _ _ _).bind fun _ => (keeps_attempt (keeps_call _)).bind fun _ =>
    (keeps_operate hhost rfl).bind fun _ => hnat

end Keeps

end Hotspot

end MitosNetwork
