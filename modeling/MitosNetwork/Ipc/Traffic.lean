import MitosNetwork.Common.Trace
import MitosNetwork.Ipc.SessionProgress

/-!
# All connections and the manager

The manager's loop (`NetworkManager::run`, `src/manager/manager.rs`), the event bus
(`src/manager/events.rs`) and any number of connections (`src/ipc/server.rs`), with every
interleaving of their threads. The manager takes one command after another off its channel; while it
handles one it can broadcast, and what it responds is left open, so that what follows holds for
every manager.

A run is a list of actions, one for each step of a thread; `Moves` says once what a step can be.
What is seen of a run is projected to one connection by `seenBy` and to one client of the bus by
`subscription`.
-/

namespace MitosNetwork.Traffic

open Session Protocol

/-! ## The system -/

/-- The commands in the manager's channel. The sender a command carries for its reply is given by
the connection it belongs to. -/
inductive Command where
  | request (conn : ℕ) (req : Request) (identity : PeerIdentity)
  | registerEventClient (conn : ℕ)
  | unregisterEventClient (id : ℕ)
  | hotplug (event : HotplugEvent)
  | tick (kind : TickKind)
  | shutdown

/-- The connections, the manager's channel, the command the manager is at, its event bus, and
whether its loop has not been left. -/
structure State where
  conns : List Conn
  queue : List Command
  busy : Option Command
  bus : EventBus
  running : Bool

def State.init : State := ⟨[], [], none, .new, true⟩

/-- What is seen of the system. `handled` is the manager's response to a command. -/
inductive Observation where
  | conn (c : ℕ) (seen : Seen)
  | handled (c : ℕ) (req : Request) (response : Response)
  | registered (id : ℕ)
  | unregistered (id : ℕ)
  | broadcast (event : Event)

def command (c : ℕ) (peer : PeerIdentity) : Send → Command
  | .request req => .request c req peer
  | .unregister id => .unregisterEventClient id

variable (s : State)

def State.apply (c : ℕ) (eff : Effect) : State × List Observation :=
  ({ s with
      conns := s.conns.set c eff.conn
      queue := s.queue ++ eff.sends.map (command c eff.conn.peer) },
    eff.seen.map (.conn c))

/-- A connection is accepted, and its thread sends its registration. -/
def State.accept (peer : PeerIdentity) : Option (State × List Observation) :=
  if s.running then
    some ({ s with
      conns := s.conns ++ [Conn.accept peer]
      queue := s.queue ++ [.registerEventClient s.conns.length] }, [])
  else none

def State.connStep (json : Json ServerMessage) (s : State) (c : ℕ) (action : Session.Action) :
    Option (State × List Observation) :=
  match s.conns[c]? with
  | none => none
  | some conn => (conn.step json s.running action).map (s.apply c)

/-- Another thread of the daemon sends a command. -/
def State.post (cmd : Command) : Option (State × List Observation) :=
  if s.running then some ({ s with queue := s.queue ++ [cmd] }, []) else none

/-- What the manager does with a command it takes. A request and the daemon's own commands are
handled while others go on; `Shutdown` leaves the loop and drops the channel. -/
def State.handle : Command → State × List Observation
  | .registerEventClient c =>
    ({ s with conns := s.conns.modify c (Conn.registered s.bus.nextId), bus := s.bus.register },
      [.registered s.bus.nextId])
  | .unregisterEventClient id => ({ s with bus := s.bus.unregister id }, [.unregistered id])
  | .shutdown => ({ s with queue := [], running := false }, [])
  | cmd => ({ s with busy := some cmd }, [])

/-- The manager takes the next command off its channel. -/
def State.take : Option (State × List Observation) :=
  match s.running, s.busy, s.queue with
  | true, none, cmd :: rest => some ({ s with queue := rest }.handle cmd)
  | _, _, _ => none

def State.subscribed (conn : Conn) : Bool :=
  conn.clientId.any fun id => decide (id ∈ s.bus.clients.map EventClient.id)

/-- The manager broadcasts an event. The receiver of a registered connection is there until the
connection is unregistered, since its event thread meets no error. -/
def State.broadcast (event : Event) : Option (State × List Observation) :=
  match s.busy with
  | none => none
  | some _ =>
    some ({ s with
      conns := s.conns.map fun conn => if s.subscribed conn then conn.push event else conn
      bus := s.bus.broadcast (fun _ => true) event }, [.broadcast event])

/-- The manager is done with a request and sends its response. -/
def State.reply (response : Response) : Option (State × List Observation) :=
  match s.busy with
  | some (.request c req _) =>
    match s.conns[c]? with
    | none => none
    | some conn =>
      let after := { s with busy := none }.apply c (conn.reply response)
      some (after.1, .handled c req response :: after.2)
  | _ => none

/-- The manager is done with a command of the daemon's own. -/
def State.done : Option (State × List Observation) :=
  match s.busy with
  | some (.hotplug _) => some ({ s with busy := none }, [])
  | some (.tick _) => some ({ s with busy := none }, [])
  | _ => none

inductive Action where
  | accept (peer : PeerIdentity)
  | conn (c : ℕ) (action : Session.Action)
  | hotplug (event : HotplugEvent)
  | tick (kind : TickKind)
  | shutdown
  | take
  | broadcast (event : Event)
  | reply (response : Response)
  | done

def step (json : Json ServerMessage) (s : State) : Action → Option (State × List Observation)
  | .accept peer => s.accept peer
  | .conn c action => s.connStep json c action
  | .hotplug event => s.post (.hotplug event)
  | .tick kind => s.post (.tick kind)
  | .shutdown => s.post .shutdown
  | .take => s.take
  | .broadcast event => s.broadcast event
  | .reply response => s.reply response
  | .done => s.done

/-! ## What is seen -/

@[simp] def Observation.seenBy (c : ℕ) : Observation → Option Seen
  | .conn c' seen => if c' = c then some seen else none
  | _ => none

def seenBy (c : ℕ) (trace : List Observation) : List Seen := trace.filterMap (Observation.seenBy c)

@[simp] def Observation.handledFor (c : ℕ) : Observation → Option (Request × Response)
  | .handled c' req response => if c' = c then some (req, response) else none
  | _ => none

/-- The manager's responses to the requests of one connection, in the order it gave them. -/
def handledFor (c : ℕ) (trace : List Observation) : List (Request × Response) :=
  trace.filterMap (Observation.handledFor c)

/-- Whether a client is registered, and the events that were broadcast while it was. -/
structure Subscription where
  isOpen : Bool
  events : List Event

def Subscription.see (id : ℕ) (sub : Subscription) : Observation → Subscription
  | .registered id' => if id' = id then { sub with isOpen := true } else sub
  | .unregistered id' => if id' = id then { sub with isOpen := false } else sub
  | .broadcast event => if sub.isOpen then { sub with events := sub.events ++ [event] } else sub
  | _ => sub

def subscription (id : ℕ) (trace : List Observation) : Subscription :=
  trace.foldl (Subscription.see id) ⟨false, []⟩

/-- The events that were broadcast between the registration and the unregistration of a client. -/
def between (id : ℕ) (trace : List Observation) : List Event := (subscription id trace).events

/-- The same for a connection that may not have been registered yet. -/
def sentTo : Option ℕ → List Observation → List Event
  | none, _ => []
  | some id, trace => between id trace

/-! ## What a step can be -/

def Command.lasting : Command → Bool
  | .request .. | .hotplug _ | .tick _ => true
  | .registerEventClient _ | .unregisterEventClient _ | .shutdown => false

def Command.own : Command → Bool
  | .hotplug _ | .tick _ | .shutdown => true
  | .request .. | .registerEventClient _ | .unregisterEventClient _ => false

/-- The steps that only carry on with what is there. The others begin something: a connection, a
call, a command of the daemon's own, a broadcast. -/
def Action.internal : Action → Bool
  | .conn _ action => action.internal
  | .take | .reply _ | .done => true
  | .accept _ | .hotplug _ | .tick _ | .shutdown | .broadcast _ => false

/-- Everything a step of the system can be, with what it needs. -/
inductive Moves (json : Json ServerMessage) (s : State) : Action → State → List Observation → Prop
    where
  | accept {peer : PeerIdentity} (hrunning : s.running = true) :
      Moves json s (.accept peer)
        { s with
          conns := s.conns ++ [Conn.accept peer]
          queue := s.queue ++ [.registerEventClient s.conns.length] } []
  | conn {c : ℕ} {conn : Conn} {action : Session.Action} {eff : Effect}
      (hconn : s.conns[c]? = some conn) (hstep : conn.step json s.running action = some eff) :
      Moves json s (.conn c action) (s.apply c eff).1 (s.apply c eff).2
  | post {action : Action} {cmd : Command} (hrunning : s.running = true) (hown : cmd.own = true)
      (haction : action.internal = false) :
      Moves json s action { s with queue := s.queue ++ [cmd] } []
  | register {c : ℕ} {rest : List Command} (hrunning : s.running = true) (hbusy : s.busy = none)
      (hqueue : s.queue = .registerEventClient c :: rest) :
      Moves json s .take
        { s with
          conns := s.conns.modify c (Conn.registered s.bus.nextId)
          queue := rest
          bus := s.bus.register } [.registered s.bus.nextId]
  | unregister {id : ℕ} {rest : List Command} (hrunning : s.running = true) (hbusy : s.busy = none)
      (hqueue : s.queue = .unregisterEventClient id :: rest) :
      Moves json s .take { s with queue := rest, bus := s.bus.unregister id } [.unregistered id]
  | stop {rest : List Command} (hrunning : s.running = true) (hbusy : s.busy = none)
      (hqueue : s.queue = .shutdown :: rest) :
      Moves json s .take { s with queue := [], running := false } []
  | start {cmd : Command} {rest : List Command} (hrunning : s.running = true)
      (hbusy : s.busy = none) (hqueue : s.queue = cmd :: rest) (hlasting : cmd.lasting = true) :
      Moves json s .take { s with queue := rest, busy := some cmd } []
  | broadcast {event : Event} {cmd : Command} (hbusy : s.busy = some cmd) :
      Moves json s (.broadcast event)
        { s with
          conns := s.conns.map fun conn => if s.subscribed conn then conn.push event else conn
          bus := s.bus.broadcast (fun _ => true) event } [.broadcast event]
  | reply {c : ℕ} {req : Request} {identity : PeerIdentity} {conn : Conn} {response : Response}
      (hbusy : s.busy = some (.request c req identity)) (hconn : s.conns[c]? = some conn) :
      Moves json s (.reply response)
        ({ s with busy := none }.apply c (conn.reply response)).1
        (.handled c req response :: ({ s with busy := none }.apply c (conn.reply response)).2)
  | done {cmd : Command} (hbusy : s.busy = some cmd) (hown : cmd.own = true) :
      Moves json s .done { s with busy := none } []

variable {json : Json ServerMessage} {s t : State} {action : Action} {trace seen : List Observation}

theorem moves_of_take (h : s.take = some (t, seen)) : Moves json s .take t seen := by
  unfold State.take at h
  split at h
  · rename_i cmd rest hrunning hbusy hqueue
    have hmv := Option.some.inj h
    cases cmd with
    | request | hotplug | tick =>
      cases hmv
      exact .start hrunning hbusy hqueue rfl
    | registerEventClient =>
      cases hmv
      exact .register hrunning hbusy hqueue
    | unregisterEventClient =>
      cases hmv
      exact .unregister hrunning hbusy hqueue
    | shutdown =>
      cases hmv
      exact .stop hrunning hbusy hqueue
  · cases h

theorem moves_of_post {cmd : Command} (hown : cmd.own = true) (haction : action.internal = false)
    (h : s.post cmd = some (t, seen)) : Moves json s action t seen := by
  unfold State.post at h
  split at h <;> cases h
  exact .post ‹_› hown haction

/-- **A step of the system is one of its moves.** -/
theorem moves_of_step (h : step json s action = some (t, seen)) : Moves json s action t seen := by
  cases action with
  | accept peer =>
    rw [step, State.accept] at h
    split at h <;> cases h
    exact .accept ‹_›
  | conn c action =>
    rw [step, State.connStep] at h
    split at h
    · cases h
    · obtain ⟨eff, hstep, heff⟩ := Option.map_eq_some_iff.mp h
      cases heff
      exact .conn ‹_› hstep
  | hotplug event | tick kind | shutdown => exact moves_of_post rfl rfl h
  | take => exact moves_of_take h
  | broadcast event =>
    rw [step, State.broadcast] at h
    split at h <;> cases h
    exact .broadcast ‹_›
  | reply response =>
    rw [step, State.reply] at h
    split at h
    · split at h <;> cases h
      exact .reply ‹_› ‹_›
    · cases h
  | done =>
    rw [step, State.done] at h
    split at h <;> cases h
    · exact .done ‹_› rfl
    · exact .done ‹_› rfl

end MitosNetwork.Traffic
