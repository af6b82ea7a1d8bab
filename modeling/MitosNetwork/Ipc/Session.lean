import MitosNetwork.Ipc.Protocol
import MitosNetwork.Ipc.Server

/-!
# One connection

A connection as its three threads see it: the client that calls `Client::request` and
`Client::next_event` (`src/ipc/client.rs`), the thread that runs `handle_connection` and
`request_loop`, and the thread that forwards events (`src/ipc/server.rs`). The two threads of the
server share the socket: each takes the lock, writes a frame in any number of portions, and gives
the lock back. Between the threads are the two directions of the socket and the channel of the
events.

What a thread does between two points where others can notice is one step. Messages above the limit
and errors of the socket are outside of this: a thread that would meet one has no step. `Moves` says
once what a step can be.
-/

namespace MitosNetwork.Session

open Protocol Policy Ipc

/-! ## The threads -/

/-- A client is between two calls, in `Client::request` with its request written, in
`Client::next_event`, or has closed the connection. -/
inductive Client where
  | idle
  | requesting
  | polling
  | closed
deriving DecidableEq

/-- Where the thread of `handle_connection` is. `waiting` is for the manager's response to a
request, with the user database the request was checked with; `responding` is from the moment the
response is there until the lock is taken; `failed` is after the manager was found gone, with the
request that was read and never answered, if there was one. -/
inductive Handler where
  | registering
  | reading
  | waiting (db : UserDb) (req : Request)
  | responding (response : Response)
  | writing
  | closed
  | failed (unanswered : List Request)

inductive Forwarder where
  | unborn
  | receiving
  | holding (event : Event)
  | writing

inductive Thread where
  | request
  | event

/-- The lock is taken: by which thread, for which message, and what of its frame is not written. -/
structure Writing where
  thread : Thread
  message : ServerMessage
  rest : List UInt8

/-- A connection. `requests` and `wire` are the two directions of the socket, `clientId` is the
reply to the registration, `channel` holds the events that were sent and not received. -/
structure Conn where
  peer : PeerIdentity
  client : Client
  requests : List Request
  wire : List UInt8
  handler : Handler
  clientId : Option ℕ
  channel : List Event
  forwarder : Forwarder
  lock : Option Writing

/-- A connection that was just accepted; its thread waits for the registration. -/
def Conn.accept (peer : PeerIdentity) : Conn :=
  ⟨peer, .idle, [], [], .registering, none, [], .unborn, none⟩

/-- Who answers a request: the manager, the policy, or nobody when the manager is gone. -/
inductive Answer where
  | manager (response : Response)
  | refused (e : NetworkError)
  | noReply

def Answer.response : Answer → Response
  | .manager response => response
  | .refused e => .error e.display
  | .noReply => .error "manager did not reply"

/-- What is seen of a connection. A request is answered after it was checked with a user
database. -/
inductive Seen where
  | called (req : Request)
  | answered (req : Request) (db : UserDb) (answer : Answer)
  | returned (response : Response)
  | wrote (message : ServerMessage)

/-- What a connection's thread sends to the manager. -/
inductive Send where
  | request (req : Request)
  | unregister (id : ℕ)

/-- A step of a connection: the connection after it, what is sent to the manager, what is seen. -/
structure Effect where
  conn : Conn
  sends : List Send
  seen : List Seen

/-! ## The client -/

/-- `Client::request` writes its request. -/
def Conn.call (req : Request) (conn : Conn) : Option Effect :=
  match conn.client with
  | .idle =>
    some ⟨{ conn with client := .requesting, requests := conn.requests ++ [req] }, [],
      [.called req]⟩
  | _ => none

/-- `Client::next_event` is called. -/
def Conn.poll (conn : Conn) : Option Effect :=
  match conn.client with
  | .idle => some ⟨{ conn with client := .polling }, [], []⟩
  | _ => none

def Conn.close (conn : Conn) : Option Effect :=
  match conn.client with
  | .idle => some ⟨{ conn with client := .closed }, [], []⟩
  | _ => none

/-- The loops of `Client::request` and `Client::next_event`: what the next message does. -/
def Client.read : Client → ServerMessage → Option (Client × List Seen)
  | .requesting, .response response => some (.idle, [.returned response])
  | .requesting, .event _ => some (.requesting, [])
  | .polling, .event _ => some (.idle, [])
  | .polling, .response _ => some (.polling, [])
  | .idle, _ => none
  | .closed, _ => none

theorem Client.seen_of_read {client client' : Client} {message : ServerMessage} {seen : List Seen}
    (h : client.read message = some (client', seen)) :
    seen = [] ∨ ∃ response, seen = [.returned response] := by
  cases client <;> cases message <;> cases h
  case requesting.response.refl => exact .inr ⟨_, rfl⟩
  all_goals exact .inl rfl

/-- A client in a call reads a message as soon as all of it is there. -/
def Conn.receive (json : Json ServerMessage) (conn : Conn) : Option Effect :=
  match (readMessage json conn.wire).result with
  | .error _ => none
  | .ok message =>
    match conn.client.read message with
    | none => none
    | some (client, seen) =>
      some ⟨{ conn with client := client, wire := (readMessage json conn.wire).rest }, [], seen⟩

/-! ## The thread of the requests -/

/-- The registration is replied to: the event thread is started and the request loop entered. -/
def Conn.start (conn : Conn) : Option Effect :=
  match conn.handler, conn.clientId with
  | .registering, some _ =>
    some ⟨{ conn with handler := .reading, forwarder := .receiving }, [], []⟩
  | _, _ => none

/-- `request_loop` reads a request. One that passes the policy goes to the manager if the manager is
still `running`. -/
def Conn.serve (db : UserDb) (running : Bool) (conn : Conn) : Option Effect :=
  match conn.handler, conn.requests with
  | .reading, req :: rest =>
    match check db conn.peer (requiredCapability req) with
    | .ok () =>
      -- `send` fails once the manager has dropped its receiver.
      if running then
        some ⟨{ conn with handler := .waiting db req, requests := rest }, [.request req], []⟩
      else some ⟨{ conn with handler := .failed [req], requests := rest }, [], []⟩
    | .error e =>
      some ⟨{ conn with handler := .responding (.error e.display), requests := rest }, [],
        [.answered req db (.refused e)]⟩
  | _, _ => none

/-- The manager is gone and with it the sender this thread waits for. -/
def Conn.giveUp (running : Bool) (conn : Conn) : Option Effect :=
  if running then none
  else
    match conn.handler, conn.clientId with
    | .waiting db req, _ =>
      some ⟨{ conn with handler := .responding (.error "manager did not reply") }, [],
        [.answered req db .noReply]⟩
    | .registering, none => some ⟨{ conn with handler := .failed [] }, [], []⟩
    | _, _ => none

/-- The client has closed the connection and all it wrote is read: the request loop ends. -/
def Conn.hangUp (running : Bool) (conn : Conn) : Option Effect :=
  match conn.handler, conn.client, conn.requests, conn.clientId with
  | .reading, .closed, [], some id =>
    some ⟨{ conn with handler := .closed }, if running then [.unregister id] else [], []⟩
  | _, _, _, _ => none

/-! ## The thread of the events, and the lock -/

/-- The event thread takes the next event off its channel. -/
def Conn.forward (conn : Conn) : Option Effect :=
  match conn.forwarder, conn.channel with
  | .receiving, event :: rest =>
    some ⟨{ conn with forwarder := .holding event, channel := rest }, [], []⟩
  | _, _ => none

/-- `write_message` up to its first byte. -/
def Writing.start (json : Json ServerMessage) (thread : Thread) (message : ServerMessage) :
    Option Writing :=
  match json.toVec message with
  | .error _ => none
  | .ok body =>
    if body.length ≤ maxMessageLen then some ⟨thread, message, frame body⟩ else none

def Conn.lockResponse (json : Json ServerMessage) (conn : Conn) : Option Effect :=
  match conn.lock, conn.handler with
  | none, .responding response =>
    (Writing.start json .request (.response response)).map fun w =>
      ⟨{ conn with handler := .writing, lock := some w }, [], []⟩
  | _, _ => none

def Conn.lockEvent (json : Json ServerMessage) (conn : Conn) : Option Effect :=
  match conn.lock, conn.forwarder with
  | none, .holding event =>
    (Writing.start json .event (.event event)).map fun w =>
      ⟨{ conn with forwarder := .writing, lock := some w }, [], []⟩
  | _, _ => none

/-- The thread that has the lock writes the next bytes of its frame. -/
def Conn.write (n : ℕ) (conn : Conn) : Option Effect :=
  match conn.lock with
  | none => none
  | some w =>
    if 0 < n ∧ n ≤ w.rest.length then
      some ⟨{ conn with
          wire := conn.wire ++ w.rest.take n
          lock := some { w with rest := w.rest.drop n } }, [],
        if n = w.rest.length then [.wrote w.message] else []⟩
    else none

/-- The frame is written and the lock is given back. -/
def Conn.unlock (conn : Conn) : Option Effect :=
  match conn.lock with
  | some ⟨.request, _, []⟩ => some ⟨{ conn with handler := .reading, lock := none }, [], []⟩
  | some ⟨.event, _, []⟩ => some ⟨{ conn with forwarder := .receiving, lock := none }, [], []⟩
  | _ => none

/-! ## Steps -/

/-- What the threads of a connection can do. A request is read with the user database as it is at
that moment. -/
inductive Action where
  | call (req : Request)
  | poll
  | close
  | receive
  | start
  | serve (db : UserDb)
  | giveUp
  | hangUp
  | forward
  | lockResponse
  | lockEvent
  | write (n : ℕ)
  | unlock

def Conn.step (json : Json ServerMessage) (running : Bool) (conn : Conn) : Action → Option Effect
  | .call req => conn.call req
  | .poll => conn.poll
  | .close => conn.close
  | .receive => conn.receive json
  | .start => conn.start
  | .serve db => conn.serve db running
  | .giveUp => conn.giveUp running
  | .hangUp => conn.hangUp running
  | .forward => conn.forward
  | .lockResponse => conn.lockResponse json
  | .lockEvent => conn.lockEvent json
  | .write n => conn.write n
  | .unlock => conn.unlock

def Conn.registered (id : ℕ) (conn : Conn) : Conn := { conn with clientId := some id }

/-- The manager sends its response to whoever waits for it. -/
def Conn.reply (response : Response) (conn : Conn) : Effect :=
  match conn.handler with
  | .waiting db req =>
    ⟨{ conn with handler := .responding response }, [], [.answered req db (.manager response)]⟩
  | _ => ⟨conn, [], []⟩

def Conn.push (event : Event) (conn : Conn) : Conn :=
  { conn with channel := conn.channel ++ [event] }

/-! ## What a step can be -/

/-- Everything a step of a connection can be, with what it needs. -/
inductive Moves (json : Json ServerMessage) (running : Bool) (conn : Conn) :
    Action → Effect → Prop where
  | call {req : Request} (hclient : conn.client = .idle) :
      Moves json running conn (.call req)
        ⟨{ conn with client := .requesting, requests := conn.requests ++ [req] }, [], [.called req]⟩
  | poll (hclient : conn.client = .idle) :
      Moves json running conn .poll ⟨{ conn with client := .polling }, [], []⟩
  | close (hclient : conn.client = .idle) :
      Moves json running conn .close ⟨{ conn with client := .closed }, [], []⟩
  | receive {message : ServerMessage} {client : Client} {seen : List Seen}
      (hread : (readMessage json conn.wire).result = .ok message)
      (hclient : conn.client.read message = some (client, seen)) :
      Moves json running conn .receive
        ⟨{ conn with client := client, wire := (readMessage json conn.wire).rest }, [], seen⟩
  | start {id : ℕ} (hhandler : conn.handler = .registering) (hid : conn.clientId = some id) :
      Moves json running conn .start
        ⟨{ conn with handler := .reading, forwarder := .receiving }, [], []⟩
  | permit {db : UserDb} {req : Request} {rest : List Request} (hhandler : conn.handler = .reading)
      (hrequests : conn.requests = req :: rest)
      (hcheck : check db conn.peer (requiredCapability req) = .ok ()) (hrunning : running = true) :
      Moves json running conn (.serve db)
        ⟨{ conn with handler := .waiting db req, requests := rest }, [.request req], []⟩
  | orphan {db : UserDb} {req : Request} {rest : List Request} (hhandler : conn.handler = .reading)
      (hrequests : conn.requests = req :: rest)
      (hcheck : check db conn.peer (requiredCapability req) = .ok ()) (hrunning : running = false) :
      Moves json running conn (.serve db)
        ⟨{ conn with handler := .failed [req], requests := rest }, [], []⟩
  | refuse {db : UserDb} {req : Request} {rest : List Request} {e : NetworkError}
      (hhandler : conn.handler = .reading) (hrequests : conn.requests = req :: rest)
      (hcheck : check db conn.peer (requiredCapability req) = .error e) :
      Moves json running conn (.serve db)
        ⟨{ conn with handler := .responding (.error e.display), requests := rest }, [],
          [.answered req db (.refused e)]⟩
  | noReply {db : UserDb} {req : Request} (hhandler : conn.handler = .waiting db req)
      (hrunning : running = false) :
      Moves json running conn .giveUp
        ⟨{ conn with handler := .responding (.error "manager did not reply") }, [],
          [.answered req db .noReply]⟩
  | noRegistration (hhandler : conn.handler = .registering) (hrunning : running = false) :
      Moves json running conn .giveUp ⟨{ conn with handler := .failed [] }, [], []⟩
  | hangUp {id : ℕ} (hhandler : conn.handler = .reading) (hclient : conn.client = .closed) :
      Moves json running conn .hangUp
        ⟨{ conn with handler := .closed }, if running then [.unregister id] else [], []⟩
  | forward {event : Event} {rest : List Event} (hforwarder : conn.forwarder = .receiving)
      (hchannel : conn.channel = event :: rest) :
      Moves json running conn .forward
        ⟨{ conn with forwarder := .holding event, channel := rest }, [], []⟩
  | lockResponse {response : Response} {w : Writing} (hlock : conn.lock = none)
      (hhandler : conn.handler = .responding response)
      (hstart : Writing.start json .request (.response response) = some w) :
      Moves json running conn .lockResponse
        ⟨{ conn with handler := .writing, lock := some w }, [], []⟩
  | lockEvent {event : Event} {w : Writing} (hlock : conn.lock = none)
      (hforwarder : conn.forwarder = .holding event)
      (hstart : Writing.start json .event (.event event) = some w) :
      Moves json running conn .lockEvent
        ⟨{ conn with forwarder := .writing, lock := some w }, [], []⟩
  | write {thread : Thread} {message : ServerMessage} {rest : List UInt8} {n : ℕ}
      (hlock : conn.lock = some ⟨thread, message, rest⟩) (hpos : 0 < n) (hn : n < rest.length) :
      Moves json running conn (.write n)
        ⟨{ conn with
            wire := conn.wire ++ rest.take n
            lock := some ⟨thread, message, rest.drop n⟩ }, [], []⟩
  | finish {thread : Thread} {message : ServerMessage} {rest : List UInt8}
      (hlock : conn.lock = some ⟨thread, message, rest⟩) (hrest : rest ≠ []) :
      Moves json running conn (.write rest.length)
        ⟨{ conn with wire := conn.wire ++ rest, lock := some ⟨thread, message, []⟩ }, [],
          [.wrote message]⟩
  | unlockResponse {message : ServerMessage} (hlock : conn.lock = some ⟨.request, message, []⟩) :
      Moves json running conn .unlock ⟨{ conn with handler := .reading, lock := none }, [], []⟩
  | unlockEvent {message : ServerMessage} (hlock : conn.lock = some ⟨.event, message, []⟩) :
      Moves json running conn .unlock
        ⟨{ conn with forwarder := .receiving, lock := none }, [], []⟩

variable {json : Json ServerMessage} {running : Bool} {conn : Conn} {eff : Effect}

theorem moves_of_receive (h : conn.receive json = some eff) :
    Moves json running conn .receive eff := by
  unfold Conn.receive at h
  split at h
  · cases h
  · rename_i message hread
    split at h
    · cases h
    · rename_i client seen hclient
      cases h
      exact .receive hread hclient

theorem moves_of_serve {db : UserDb} (h : conn.serve db running = some eff) :
    Moves json running conn (.serve db) eff := by
  unfold Conn.serve at h
  split at h
  · rename_i req rest hhandler hrequests
    split at h
    · rename_i hcheck
      split at h <;> cases h
      · exact .permit hhandler hrequests hcheck ‹_›
      · exact .orphan hhandler hrequests hcheck (Bool.not_eq_true _ ▸ ‹_›)
    · rename_i hcheck
      cases h
      exact .refuse hhandler hrequests hcheck
  · cases h

theorem moves_of_giveUp (h : conn.giveUp running = some eff) :
    Moves json running conn .giveUp eff := by
  unfold Conn.giveUp at h
  split at h
  · cases h
  · rename_i hrunning
    rw [Bool.not_eq_true] at hrunning
    split at h <;> cases h
    · exact .noReply ‹_› hrunning
    · exact .noRegistration ‹_› hrunning

theorem moves_of_write {n : ℕ} (h : conn.write n = some eff) :
    Moves json running conn (.write n) eff := by
  unfold Conn.write at h
  split at h
  · cases h
  · rename_i w hlock
    obtain ⟨thread, message, rest⟩ := w
    split at h
    · rename_i hn
      cases h
      dsimp only at hn ⊢
      -- A portion ends the frame or leaves some of it.
      by_cases hall : n = rest.length
      · subst hall
        rw [if_pos rfl, List.take_length, List.drop_length]
        exact .finish hlock (List.ne_nil_of_length_pos hn.1)
      · rw [if_neg hall]
        exact .write hlock hn.1 (by omega)
    · cases h

/-- **A step of a connection is one of its moves.** -/
theorem moves_of_step {action : Action} (h : conn.step json running action = some eff) :
    Moves json running conn action eff := by
  cases action with
  | receive => exact moves_of_receive h
  | serve db => exact moves_of_serve h
  | giveUp => exact moves_of_giveUp h
  | write n => exact moves_of_write h
  | call req | poll | close | start | hangUp | forward =>
    simp only [Conn.step, Conn.call, Conn.poll, Conn.close, Conn.start, Conn.hangUp,
      Conn.forward] at h
    split at h <;> cases h
    constructor <;> assumption
  | lockResponse =>
    rw [Conn.step, Conn.lockResponse] at h
    split at h
    · obtain ⟨w, hstart, rfl⟩ := Option.map_eq_some_iff.mp h
      exact .lockResponse ‹_› ‹_› hstart
    · cases h
  | lockEvent =>
    rw [Conn.step, Conn.lockEvent] at h
    split at h
    · obtain ⟨w, hstart, rfl⟩ := Option.map_eq_some_iff.mp h
      exact .lockEvent ‹_› ‹_› hstart
    · cases h
  | unlock =>
    rw [Conn.step, Conn.unlock] at h
    split at h <;> cases h
    · exact .unlockResponse ‹_›
    · exact .unlockEvent ‹_›

end MitosNetwork.Session
