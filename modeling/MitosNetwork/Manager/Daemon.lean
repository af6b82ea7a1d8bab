import MitosNetwork.Manager.Requests

/-!
# The daemon

`NetworkManager::new` and `NetworkManager::run` of `src/manager/manager.rs`. The daemon is a
machine: the input of a step is a stage of the run, the autoconnect pass at the start or one
command, with the world it is taken in; the output is the answer to a request and the log of the
step.
-/

namespace MitosNetwork

inductive Command where
  | request (req : Request) (identity : PeerIdentity)
  | registerEventClient
  | unregisterEventClient (id : ℕ)
  | hotplug (event : HotplugEvent)
  | tick (kind : TickKind)
  | shutdown

/-- What a new process finds: the kernel's firewall table and the stored proxy configuration. -/
structure Boot where
  live : Firewall.Live
  storedProxy : Option ProxyConfig

namespace NetworkManager

/-! ## Starting -/

/-- The state that `new` fills in. -/
def blank (config : NetworkConfig) (boot : Boot) : NetworkManager where
  config := config
  devices := .new
  connections := []
  active := ∅
  host := ⟨Firewall.new, boot.live⟩
  connectivity := .unknown
  events := .new
  proxy := ⟨none, none, boot.storedProxy⟩
  sessions := ∅
  hostapd := []

/-- The proxy configuration of the last run is applied again, if it can be read. -/
def restoreProxy : Result Unit → M Unit
  | .error _ => return ()
  | .ok () => do
    let m ← Proc.get
    match m.proxy.stored with
    | none => return ()
    | some cfg => do
      let _ ← onProxy (Proxy.apply cfg)
      return ()

/-- The best-effort part of `new`: zones for the devices, name servers and the proxy. -/
def settle : M Unit := do
  let names ← deviceNames fun _ => true
  names.forM fun name => do
    let _ ← onFirewall (.ensureDefaultZone name)
    return ()
  let m ← Proc.get
  applyDnsFromConfig m.config.dns
  let readable ← call .readProxyConfig
  restoreProxy readable

/-- `new` after the profiles were loaded. -/
def profilesLoaded : Result (List ConnectionProfile) → M (Result Unit)
  | .error e => return .error e
  | .ok profiles => do
    Proc.modify fun m => { m with connections := profiles }
    let refreshed ← refresh
    match refreshed with
    | .error e => return .error e
    | .ok () => do
      settle
      return .ok ()

/-- `NetworkManager::new` on the blank state. -/
def new : M (Result Unit) := do
  let profiles ← call .loadProfiles
  profilesLoaded profiles

/-! ## Running -/

/-- One command of the loop in `run`, with the answer to a request. -/
def handle : Command → M (Option Response)
  | .request req identity => do
    let response ← handleRequest identity req
    return some response
  | .registerEventClient => do
    Proc.modify fun m => { m with events := m.events.register }
    return none
  | .unregisterEventClient id => do
    Proc.modify fun m => { m with events := m.events.unregister id }
    return none
  | .hotplug event => do
    handleHotplug event
    return none
  | .tick kind => do
    handleTick kind
    return none
  | .shutdown => return none

end NetworkManager

/-- The manager thread: its state, and whether the loop is still running. -/
structure Daemon where
  manager : NetworkManager
  running : Bool

namespace Daemon

/-- A stage of `run`: the autoconnect pass before the loop, or a command. -/
inductive Stage where
  | autoconnectAll
  | command (c : Command)

def Stage.goesOn : Stage → Bool
  | .command .shutdown => false
  | _ => true

def Stage.program : Stage → M (Option Response)
  | .autoconnectAll => do
    NetworkManager.tryAutoconnectAll
    return none
  | .command c => NetworkManager.handle c

/-- Whether a stage refreshes the registry, which it then does first. -/
def Stage.refreshes : Stage → Bool
  | .command (.hotplug (.linkRemoved _)) => false
  | .command (.hotplug _) | .command (.tick .deviceRefresh) => true
  | _ => false

def Stage.takesDown : Stage → Option String
  | .command (.request (.deactivateConnection id) _)
  | .command (.request (.deleteConnection id) _) => some id
  | _ => none

abbrev Input := Stage × World Call.Answer

abbrev Log := List (Entry Call.Answer ActivateCall)

/-- The answer to a request, and the log of the step. -/
structure Output where
  response : Option Response
  log : Log

/-- One step: a daemon that was shut down takes no more commands. -/
def step (d : Daemon) (i : Input) : Daemon × Output :=
  if d.running then
    let r := i.1.program.run i.2 d.manager
    (⟨r.state, i.1.goesOn⟩, ⟨r.result, r.log⟩)
  else (d, ⟨none, []⟩)

/-- A run of the daemon: how it started, and the commands it received, each with its world. -/
structure Run where
  config : NetworkConfig
  boot : Boot
  newWorld : World Call.Answer
  startWorld : World Call.Answer
  commands : List (Command × World Call.Answer)

namespace Run

/-- The daemon right after `new`, if that succeeded. -/
def initial (r : Run) : Option Daemon :=
  match NetworkManager.new.run r.newWorld (.blank r.config r.boot) with
  | ⟨.ok _, manager, _⟩ => some ⟨manager, true⟩
  | ⟨.error _, _, _⟩ => none

theorem manager_of_initial {r : Run} {d : Daemon} (h : r.initial = some d) :
    d.manager = (NetworkManager.new.run r.newWorld (.blank r.config r.boot)).state := by
  unfold initial at h
  split at h
  · rename_i hran
    rw [hran, ← Option.some.inj h]
  · cases h

def stages (r : Run) : List Input :=
  (.autoconnectAll, r.startWorld) :: r.commands.map fun c => (.command c.1, c.2)

end Run

/-- The states that the manager passes through in some run, after `new` and after every stage. -/
def Reachable (m : NetworkManager) : Prop :=
  ∃ (r : Run) (d : Daemon) (n : ℕ),
    r.initial = some d ∧ (Machine.finalState step d (r.stages.take n)).manager = m

theorem reachable_finalState {r : Run} {d : Daemon} (h : r.initial = some d) :
    Reachable (Machine.finalState step d r.stages).manager :=
  ⟨r, d, r.stages.length, h, by rw [List.take_length]⟩

def logOf (d : Daemon) (stages : List Input) : Log :=
  (Machine.outputs step d stages).flatMap (·.log)

theorem logOf_cons (d : Daemon) (i : Input) (stages : List Input) :
    logOf d (i :: stages) = (d.step i).2.log ++ logOf (d.step i).1 stages := rfl

theorem logOf_append (d : Daemon) (stages stages' : List Input) :
    logOf d (stages ++ stages') =
      logOf d stages ++ logOf (Machine.finalState step d stages) stages' := by
  induction stages generalizing d with
  | nil => rfl
  | cons i stages ih =>
    rw [List.cons_append, logOf_cons, logOf_cons, ih, List.append_assoc]
    rfl

/-- The calls of `activation::activate` in a log. -/
def activations (log : Log) : List ActivateCall :=
  log.filterMap fun
    | .note a => some a
    | .call _ _ => none

theorem mem_activations {log : Log} {a : ActivateCall} : a ∈ activations log ↔ .note a ∈ log := by
  unfold activations
  rw [List.mem_filterMap]
  constructor
  · rintro ⟨e, he, hea⟩
    cases e with
    | call c answer => cases hea
    | note b =>
      cases hea
      exact he
  · exact fun h => ⟨_, h, rfl⟩

end Daemon

end MitosNetwork
