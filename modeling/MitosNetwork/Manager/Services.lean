import MitosNetwork.Manager.Outside

/-!
# Services behind the requests

The parts of `src/proxy/proxy.rs`, `src/bluetooth/bluetooth.rs`, `src/persistence/profiles.rs`,
`src/dns/resolver.rs` and `src/monitoring/diagnostics.rs` that act on files, on the kernel and on
other programs.
-/

namespace MitosNetwork

/-! ## The proxy -/

namespace Proxy

def setPacCache (cache : Option String) : TryProg ProxyState Unit :=
  Try.lift (Proc.modify fun st => { st with pacCache := cache })

/-- The outcome of removing the script; a script that is not there is fine. -/
def cleared : RemoveOutcome → Result Unit
  | .removed => .ok ()
  | .missing => .ok ()
  | .failed message => .error (.io message)

/-- `clear`. -/
def clear : TryProg ProxyState Unit := do
  let outcome ← Try.lift (call .removeProxyScript)
  attempt (pure (cleared outcome))

variable (url : String)

def checked : Result String → Result Unit
  | .ok _ => .ok ()
  | .error e => .error (.config ("PAC script at " ++ url ++ " is invalid: " ++ e.display))

def applyAuto (pacUrl : Option String) : TryProg ProxyState Unit :=
  match pacUrl with
  | none => do
    setPacCache none
    throw (.config "proxy mode is Auto but no pac_url is configured")
  | some url => do
    let script ← attempt (call (.fetchPac url))
    let answer ← Try.lift (call (.evaluatePac script "http://example.com/" "example.com"))
    attempt (pure (checked url answer))
    setPacCache (some script)

variable (cfg : ProxyConfig)

/-- `apply_inner`. -/
def applyInner : TryProg ProxyState Unit :=
  match cfg.mode with
  | .none => do
    setPacCache none
    clear
  | .manual => do
    setPacCache none
    attempt (call (.writeProxyScript (script cfg)))
  | .auto => do
    clear
    applyAuto cfg.pacUrl

/-- The file that survives a restart, written when applying succeeded; failing to write it does not
matter. -/
def persist : Result Unit → Prog ProxyState Unit
  | .error _ => return ()
  | .ok () => do
    let saved : Result Unit ← call (.writeProxyConfig cfg)
    Proc.modify fun st => if saved.isOk then { st with stored := some cfg } else st

/-- `apply`. -/
def apply : Prog ProxyState (Result Unit) := do
  Proc.modify fun st => { st with active := some cfg }
  let result ← (applyInner cfg).run
  persist cfg result
  return result

/-- The answer of the cached script; without one, and where it fails, connect directly. -/
def evaluateCached : Option String → Prog ProxyState String
  | none => return "DIRECT"
  | some script => do
    let host := String.ofList ((extractHost url.toList).getD [])
    let answer : Result String ← call (.evaluatePac script url host)
    return answer.toOption.getD "DIRECT"

/-- `resolve_for_url`. -/
def resolveForUrl : Prog ProxyState String := do
  let st ← Proc.get
  let cfg := st.active.getD .default
  match cfg.mode with
  | .none => return "DIRECT"
  | .manual => return manualDirective cfg url.toList
  | .auto => evaluateCached url st.pacCache

theorem inert_clear : Inert clear.run :=
  Try.Makes.bind (Try.Makes.lift (makes_call rfl)) fun _ => Try.Makes.ofProc (Proc.Makes.pure _)

theorem inert_applyAuto (pacUrl : Option String) : Inert (applyAuto pacUrl).run := by
  have hca : ∀ cache, Inert (setPacCache cache).run := fun _ =>
    Try.Makes.lift (Proc.Makes.modify _)
  unfold applyAuto
  split
  · exact Try.Makes.bind (hca none) fun _ => Try.Makes.throw _
  · refine Try.Makes.bind (Try.Makes.ofProc (makes_call rfl)) fun script => ?_
    refine .bind (.lift (makes_call rfl)) fun answer => ?_
    exact .bind (.ofProc (.pure _)) fun _ => hca _

theorem inert_apply : Inert (apply cfg) := by
  have hca : Inert (setPacCache none).run := Try.Makes.lift (Proc.Makes.modify _)
  have hinn : Inert (applyInner cfg).run := by
    unfold applyInner
    split
    · exact .bind hca fun _ => inert_clear
    · exact Try.Makes.bind hca fun _ => Try.Makes.ofProc (makes_call rfl)
    · exact Try.Makes.bind inert_clear fun _ => inert_applyAuto _
  refine (Proc.Makes.modify _).bind fun _ => hinn.bind fun result => Proc.Makes.bind ?_ fun _ =>
    Proc.Makes.pure _
  cases result with
  | error e => exact Proc.Makes.pure ()
  | ok u => exact Proc.Makes.bind (makes_call rfl) fun _ => Proc.Makes.modify _

theorem inert_resolveForUrl : Inert (resolveForUrl url) := by
  refine Proc.Makes.get.bind fun st => ?_
  dsimp only
  split
  · exact .pure _
  · exact .pure _
  · unfold evaluateCached
    split
    · exact .pure _
    · exact .bind (makes_call rfl) fun _ => .pure _

theorem readOnly_resolveForUrl : (resolveForUrl url).ReadOnly := by
  refine fun w => Proc.Obeys.get (R := .still) |>.bind fun st => ?_
  dsimp only
  split
  · exact .pure _
  · exact .pure _
  · unfold evaluateCached
    split
    · exact .pure _
    · exact (Proc.Obeys.call fun _ _ => rfl).bind fun _ => .pure _

end Proxy

/-! ## Bluetooth -/

namespace Bluetooth

/-- Run `bluetoothctl` for its effect. -/
def control {N σ : Type} (args : List String) : Proc Call.Answer N σ (Result Unit) := do
  let output : Result String ← call (.bluetoothctl args)
  return output.map fun _ => ()

/-- `pair`, `trust`, `connect`, `disconnect` and `remove`: a verb for an address that is checked. -/
def onDevice {N σ : Type} (verb mac : String) : Proc Call.Answer N σ (Result Unit) :=
  match Validation.validateMacAddress mac with
  | .error e => return .error e
  | .ok () => control [verb, mac]

/-- The address and name of a line of `bluetoothctl devices`. -/
def parseLine (line : List Char) : Option (List Char × List Char) :=
  match Text.splitOnce ' ' line with
  | some (tag, rest) =>
    if tag = "Device".toList then
      match Text.splitOnce ' ' rest with
      | some (mac, name) => some (mac, name)
      | none => some (rest, rest)
    else none
  | none => none

/-- The follow-up call for each device; one that fails counts as an empty answer. -/
def infos {N σ : Type} : List (List Char × List Char) → Proc Call.Answer N σ (List BluetoothDevice)
  | [] => return []
  | (mac, name) :: rest => do
    let answer : Result String ← call (.bluetoothctl ["info", String.ofList mac])
    let info := (answer.toOption).getD ""
    let devices ← infos rest
    return {
      mac := String.ofList mac
      name := String.ofList name
      paired := Text.contains "Paired: yes".toList info.toList
      connected := Text.contains "Connected: yes".toList info.toList } :: devices

/-- `list_devices`. -/
def listDevices {N σ : Type} : Proc Call.Answer N σ (Result (List BluetoothDevice)) := do
  let raw : Result String ← call (.bluetoothctl ["devices"])
  match raw with
  | .error e => return .error e
  | .ok raw => do
    let devices ← infos ((Text.lines raw).filterMap parseLine)
    return .ok devices

end Bluetooth

/-! ## Diagnostics -/

/-- `diagnostics::collect`, which has no state of its own. -/
def Diagnostics.collect (devices : List NetworkDevice) (connectivity : ConnectivityState) :
    TryProg Unit DiagnosticReport := do
  let routesV4 ← attempt (call (.listRoutes .v4))
  let routesV6 ← attempt (call (.listRoutes .v6))
  let resolvConf ← Try.lift (call .readResolvConf)
  let neighbors ← attempt (call .listNeighbors)
  return report devices connectivity routesV4 routesV6 resolvConf neighbors

theorem Diagnostics.inert_collect (devices : List NetworkDevice)
    (connectivity : ConnectivityState) : Inert (collect devices connectivity).run := by
  refine Try.Makes.bind (Try.Makes.ofProc (makes_call rfl)) fun _ => ?_
  refine .bind (.ofProc (makes_call rfl)) fun _ => ?_
  refine .bind (.lift (makes_call rfl)) fun _ => ?_
  exact .bind (.ofProc (makes_call rfl)) fun _ => .pure _

/-! ## Profiles on disk -/

namespace Profiles

variable {N σ : Type}

/-- `save`. -/
def save (profile : ConnectionProfile) : Proc Call.Answer N σ (Result Unit) :=
  match Validation.validateIdentifier profile.id with
  | .error e => return .error e
  | .ok () => call (.writeProfile profile)

/-- The outcome of `remove_file` in `delete`. -/
def deleted (id : String) : RemoveOutcome → Result Unit
  | .removed => .ok ()
  | .missing => .error (.notFound ("connection profile '" ++ id ++ "'"))
  | .failed message => .error (.io message)

/-- `delete`. -/
def delete (id : String) : Proc Call.Answer N σ (Result Unit) :=
  match Validation.validateIdentifier id with
  | .error e => return .error e
  | .ok () => do
    let outcome ← call (.removeProfile id)
    return deleted id outcome

/-- `touch`, whose result is ignored. -/
def touch (id : String) : Proc Call.Answer N σ Unit :=
  match Validation.validateIdentifier id with
  | .error _ => return ()
  | .ok () => call (.touchProfile id)

end Profiles

/-! ## Name servers at startup -/

/-- `dns::resolver::apply_from_config`, whose result is ignored. -/
def applyDnsFromConfig {N σ : Type} (cfg : DnsConfig) : Proc Call.Answer N σ Unit :=
  match cfg.mode with
  | .none => return ()
  | .manual => do
    let _ ← call (.writeResolvConf cfg.resolvConfPath
      (cfg.servers.filterMap fun s => IpAddr.parse s.toList) cfg.searchDomains)
    return ()
  | .auto => return ()

end MitosNetwork
