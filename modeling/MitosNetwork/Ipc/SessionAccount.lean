import MitosNetwork.Ipc.Session

/-!
# The account of a connection

Where everything is that was called, answered, sent or written. `Matched` is for the calls: each is
answered, pending or unread, each answer is returned or on its way, and there is one of these while
the client is in a call. `Carries` is for the socket: it holds the frames of the messages the client
has to read and what is written of the one in progress, whichever thread has the lock.
`Conn.Accounts` puts the two together with the events; every step of a connection keeps it.
-/

namespace MitosNetwork.Session

open Protocol Policy Ipc List Conn

variable {req : Request} {response : Response} {n : ℕ}

/-! ## What is where -/

@[simp] def Seen.call : Seen → Option Request
  | .called req => some req
  | _ => none

@[simp] def Seen.answer : Seen → Option (Request × UserDb × Answer)
  | .answered req db answer => some (req, db, answer)
  | _ => none

@[simp] def Seen.return : Seen → Option Response
  | .returned response => some response
  | _ => none

@[simp] def Seen.write : Seen → Option ServerMessage
  | .wrote message => some message
  | _ => none

abbrev calls (seen : List Seen) : List Request := seen.filterMap Seen.call

abbrev answers (seen : List Seen) : List (Request × UserDb × Answer) := seen.filterMap Seen.answer

abbrev returns (seen : List Seen) : List Response := seen.filterMap Seen.return

abbrev writes (seen : List Seen) : List ServerMessage := seen.filterMap Seen.write

@[simp] def responsePart : ServerMessage → Option Response
  | .response response => some response
  | .event _ => none

@[simp] def eventPart : ServerMessage → Option Event
  | .response _ => none
  | .event event => some event

abbrev responses (messages : List ServerMessage) : List Response := messages.filterMap responsePart

abbrev events (messages : List ServerMessage) : List Event := messages.filterMap eventPart

/-- The request that the handler has read and not answered. -/
def Handler.pending : Handler → List Request
  | .waiting _ req => [req]
  | .failed unanswered => unanswered
  | _ => []

/-- The response that the handler is about to write. -/
def Handler.held : Handler → List Response
  | .responding response => [response]
  | _ => []

def Forwarder.held : Forwarder → List Event
  | .holding event => [event]
  | _ => []

/-- The message of a frame that is not wholly on the socket. -/
def unfinished : Option Writing → List ServerMessage
  | none => []
  | some w => if w.rest = [] then [] else [w.message]

@[simp] theorem unfinished_none : unfinished none = [] := rfl

@[simp] theorem unfinished_complete (thread : Thread) (message : ServerMessage) :
    unfinished (some ⟨thread, message, []⟩) = [] := rfl

theorem unfinished_of_rest {rest : List UInt8} (h : rest ≠ []) (thread : Thread)
    (message : ServerMessage) : unfinished (some ⟨thread, message, rest⟩) = [message] := if_neg h

/-- The requests of a connection that are not answered, the oldest first. -/
def Conn.unanswered (conn : Conn) : List Request := conn.handler.pending ++ conn.requests

/-- The responses on their way to a client that has these messages to read. -/
def Conn.inFlight (conn : Conn) (unread : List ServerMessage) : List Response :=
  responses (unread ++ unfinished conn.lock) ++ conn.handler.held

/-- The events that were sent to a connection and are not written. -/
def Conn.unwritten (conn : Conn) : List Event :=
  events (unfinished conn.lock) ++ conn.forwarder.held ++ conn.channel

variable {json : Json ServerMessage} {running : Bool} {conn : Conn} {action : Action} {eff : Effect}
  {seen more : List Seen} {sent : List Event} {unread : List ServerMessage}

theorem answers_append : answers (seen ++ more) = answers seen ++ answers more := filterMap_append

/-! ## Calls, answers and returns -/

/-- The requests that were called are those that are answered and then the unanswered ones; the
answers are those that were returned and then the ones in flight. In all there is one request in the
works while the client is in a call, and none otherwise. -/
structure Matched (seen : List Seen) (unanswered : List Request) (inFlight : List Response)
    (client : Client) : Prop where
  calls_eq : calls seen = (answers seen).map (·.1) ++ unanswered
  answers_eq : (answers seen).map (·.2.2.response) = returns seen ++ inFlight
  single : unanswered.length + inFlight.length = if client = .requesting then 1 else 0

variable {unanswered : List Request} {inFlight : List Response} {client client' : Client}

/-- A call adds one request, and the client is in it. -/
theorem Matched.call (h : Matched seen unanswered inFlight .idle) (req : Request) :
    Matched (seen ++ [.called req]) (unanswered ++ [req]) inFlight .requesting where
  calls_eq := by simp [h.calls_eq, filterMap_cons]
  answers_eq := by simp [h.answers_eq, filterMap_cons]
  single := by
    have hsingle := h.single
    rw [if_neg (by decide)] at hsingle
    rw [if_pos rfl, length_append, length_singleton]
    omega

/-- An answer moves the oldest request to the responses in flight. -/
theorem Matched.answer (h : Matched seen (req :: unanswered) inFlight client) (db : UserDb)
    (answer : Answer) :
    Matched (seen ++ [.answered req db answer]) unanswered (inFlight ++ [answer.response])
      client where
  calls_eq := by simp [h.calls_eq, filterMap_cons]
  answers_eq := by simp [h.answers_eq, filterMap_cons]
  single := by
    rw [← h.single, length_append, length_singleton, length_cons]
    omega

/-- The call returns with the first response in flight. -/
theorem Matched.returned (h : Matched seen unanswered (response :: inFlight) .requesting) :
    Matched (seen ++ [.returned response]) unanswered inFlight .idle where
  calls_eq := by simp [h.calls_eq, filterMap_cons]
  answers_eq := by simp [h.answers_eq, filterMap_cons]
  single := by
    have hsingle := h.single
    rw [if_pos rfl, length_cons] at hsingle
    rw [if_neg (by decide)]
    omega

theorem Matched.write (h : Matched seen unanswered inFlight client) (message : ServerMessage) :
    Matched (seen ++ [.wrote message]) unanswered inFlight client where
  calls_eq := by simp [h.calls_eq, filterMap_cons]
  answers_eq := by simp [h.answers_eq, filterMap_cons]
  single := h.single

/-! ## The socket -/

/-- What is on the socket of the frame that is being written. -/
inductive Portion (json : Json ServerMessage) : Option Writing → List UInt8 → Prop where
  | free : Portion json none []
  | complete {thread : Thread} {message : ServerMessage} :
      Portion json (some ⟨thread, message, []⟩) []
  | begun {thread : Thread} {message : ServerMessage} {rest portion body : List UInt8}
      (hbody : Framed json message body) (hrest : rest ≠ [])
      (hframe : portion ++ rest = frame body) :
      Portion json (some ⟨thread, message, rest⟩) portion

/-- The bytes on the socket are the frames of the messages the client has not read, and what is
written of the frame in progress. -/
def Carries (json : Json ServerMessage) (wire : List UInt8) (lock : Option Writing)
    (unread : List ServerMessage) : Prop :=
  ∃ bodies portion, List.Forall₂ (Framed json) unread bodies ∧
    wire = bodies.flatMap frame ++ portion ∧ Portion json lock portion

variable {wire rest : List UInt8} {lock : Option Writing} {w : Writing} {thread : Thread}
  {message : ServerMessage}

theorem Carries.nil : Carries json [] none [] := ⟨[], [], .nil, rfl, .free⟩

theorem Writing.start_eq_some (h : Writing.start json thread message = some w) :
    ∃ body, Framed json message body ∧ w = ⟨thread, message, frame body⟩ := by
  unfold Writing.start at h
  split at h
  · cases h
  · rename_i body hbody
    split at h
    · rename_i hlen
      cases h
      exact ⟨body, ⟨hbody, hlen⟩, rfl⟩
    · cases h

theorem frame_ne_nil (body : List UInt8) : frame body ≠ [] := by
  intro hnil
  have hlen := length_frame body
  rw [hnil, length_nil] at hlen
  omega

/-- A thread that takes the lock has written nothing yet. -/
theorem Carries.start (h : Carries json wire none unread)
    (hstart : Writing.start json thread message = some w) : Carries json wire (some w) unread := by
  obtain ⟨bodies, portion, hbodies, hwire, hportion⟩ := h
  obtain ⟨body, hbody, rfl⟩ := Writing.start_eq_some hstart
  cases hportion
  exact ⟨bodies, [], hbodies, hwire, .begun hbody (frame_ne_nil body) rfl⟩

/-- A short write leaves the rest of the frame to be written. -/
theorem Carries.write_some (h : Carries json wire (some ⟨thread, message, rest⟩) unread)
    (hn : n < rest.length) :
    Carries json (wire ++ rest.take n) (some ⟨thread, message, rest.drop n⟩) unread := by
  obtain ⟨bodies, portion, hbodies, rfl, hportion⟩ := h
  cases hportion with
  | complete => cases hn
  | begun hbody _ hframe =>
    refine ⟨bodies, portion ++ rest.take n, hbodies, append_assoc .., .begun hbody ?_ ?_⟩
    · exact ne_nil_of_length_pos (by rw [length_drop]; omega)
    · rw [append_assoc, take_append_drop, hframe]

/-- With its last byte the message is one the client has to read. -/
theorem Carries.write_all (h : Carries json wire (some ⟨thread, message, rest⟩) unread)
    (hrest : rest ≠ []) :
    Carries json (wire ++ rest) (some ⟨thread, message, []⟩) (unread ++ [message]) := by
  obtain ⟨bodies, portion, hbodies, rfl, hportion⟩ := h
  cases hportion with
  | complete => exact absurd rfl hrest
  | @begun _ _ _ _ body hbody _ hframe =>
    refine ⟨bodies ++ [body], [], rel_append hbodies (.cons hbody .nil), ?_, .complete⟩
    rw [append_assoc, hframe, flatMap_append, flatMap_singleton, append_nil]

theorem Carries.unlock (h : Carries json wire (some ⟨thread, message, []⟩) unread) :
    Carries json wire none unread := by
  obtain ⟨bodies, portion, hbodies, hwire, hportion⟩ := h
  cases hportion with
  | complete => exact ⟨bodies, [], hbodies, hwire, .free⟩
  | begun _ hrest _ => exact absurd rfl hrest

/-- The client reads the oldest message, and exactly its frame. -/
theorem Carries.readMessage_cons (hjson : json.RoundTrips)
    (h : Carries json wire lock (message :: unread)) :
    (readMessage json wire).result = .ok message ∧
      Carries json (readMessage json wire).rest lock unread := by
  obtain ⟨bodies, portion, hbodies, rfl, hportion⟩ := h
  obtain ⟨body, bodies, hbody, hothers, rfl⟩ := forall₂_cons_left_iff.mp hbodies
  rw [flatMap_cons, append_assoc, readMessage_frame json hjson hbody]
  exact ⟨rfl, bodies, portion, hothers, rfl, hportion⟩

theorem readMessage_nil : ∃ e, (readMessage json []).result = .error e := by
  exact ⟨_, rfl⟩

/-- From a frame that is not complete it reads nothing. -/
theorem Carries.readMessage_nil (h : Carries json wire lock []) :
    ∃ e, (readMessage json wire).result = .error e := by
  obtain ⟨bodies, portion, hbodies, rfl, hportion⟩ := h
  cases hbodies
  rw [flatMap_nil, nil_append]
  cases hportion with
  | free | complete => exact Session.readMessage_nil
  | @begun _ _ rest _ body hbody hrest hframe =>
    refine readMessage_of_cut json hbody.2 ⟨rest, hframe⟩ ?_
    have hlen := length_pos_of_ne_nil hrest
    rw [← hframe, length_append]
    omega

theorem Carries.readMessage_ok (hjson : json.RoundTrips) (h : Carries json wire lock unread)
    (hread : (readMessage json wire).result = .ok message) :
    ∃ others, unread = message :: others ∧
      Carries json (readMessage json wire).rest lock others := by
  cases unread with
  | nil =>
    obtain ⟨e, he⟩ := h.readMessage_nil
    rw [he] at hread
    cases hread
  | cons first others =>
    obtain ⟨hfirst, hrest⟩ := h.readMessage_cons hjson
    rw [hfirst] at hread
    cases hread
    exact ⟨others, rfl, hrest⟩

/-! ## The account of a connection -/

/-- The request loop has not been entered, or never will be. -/
def Handler.Outside (handler : Handler) : Prop := handler = .registering ∨ handler = .failed []

/-- How the threads stand to each other: the lock is with the thread that is writing, the event
thread is started with the request loop, and the loop ends after the client has closed the
connection. -/
structure Phases (client : Client) (handler : Handler) (forwarder : Forwarder)
    (lock : Option Writing) : Prop where
  request : handler = .writing ↔ lock.map Writing.thread = some .request
  event : forwarder = .writing ↔ lock.map Writing.thread = some .event
  unborn : forwarder = .unborn ↔ handler.Outside
  closed : handler = .closed → client = .closed

theorem unfinished_start (hstart : Writing.start json thread message = some w) :
    w.thread = thread ∧ unfinished (some w) = [message] := by
  obtain ⟨body, -, rfl⟩ := Writing.start_eq_some hstart
  exact ⟨rfl, unfinished_of_rest (frame_ne_nil body) thread message⟩

/-- The threads stay in step with each other. -/
theorem Phases.step (h : Phases conn.client conn.handler conn.forwarder conn.lock)
    (hmove : Moves json running conn action eff) :
    Phases eff.conn.client eff.conn.handler eff.conn.forwarder eff.conn.lock := by
  obtain ⟨hrequest, hevent, hunborn, hclosed⟩ := h
  cases hmove with
  | call hclient | poll hclient | close hclient =>
    exact ⟨hrequest, hevent, hunborn, by simp_all⟩
  | receive _ hclient =>
    -- A client that has closed the connection reads nothing.
    refine ⟨hrequest, hevent, hunborn, fun hhandler => ?_⟩
    rw [hclosed hhandler] at hclient
    cases hclient
  | start hhandler | permit hhandler | orphan hhandler | refuse hhandler | noReply hhandler
  | noRegistration hhandler | hangUp hhandler | forward hhandler =>
    constructor <;> simp_all [Handler.Outside]
  | lockResponse hlock hhandler hstart | lockEvent hlock hforwarder hstart =>
    have hthread := (unfinished_start hstart).1
    constructor <;> simp_all [Handler.Outside]
  | write hlock | finish hlock | unlockResponse hlock | unlockEvent hlock =>
    constructor <;> simp_all [Handler.Outside]

/-- Where everything is, given what was seen, the events that were sent to the connection and the
messages its client has to read. -/
structure Conn.Accounts (json : Json ServerMessage) (conn : Conn) (seen : List Seen)
    (sent : List Event) (unread : List ServerMessage) : Prop where
  matched : Matched seen conn.unanswered (conn.inFlight unread) conn.client
  events_eq : sent = events (writes seen) ++ conn.unwritten
  carries : Carries json conn.wire conn.lock unread
  phases : Phases conn.client conn.handler conn.forwarder conn.lock

theorem Conn.accounts_accept (peer : PeerIdentity) : (accept peer).Accounts json [] [] [] where
  matched := ⟨rfl, rfl, rfl⟩
  events_eq := rfl
  carries := .nil
  phases := by constructor <;> simp [accept, Handler.Outside]

theorem writes_append_of_silent (hmore : writes more = []) :
    writes (seen ++ more) = writes seen := by
  rw [writes, filterMap_append]
  exact (congrArg (writes seen ++ ·) hmore).trans (append_nil _)

namespace Conn.Accounts

variable {event : Event}

/-- A client in no other call than `Client::request` has no response to read. -/
theorem requesting_of_response (h : conn.Accounts json seen sent (.response response :: unread)) :
    conn.client = .requesting := by
  by_contra hclient
  have hsingle := h.matched.single
  rw [if_neg hclient] at hsingle
  simp [inFlight] at hsingle

/-- A response ends the call, whoever holds the lock. -/
theorem returned (h : conn.Accounts json seen sent (.response response :: unread))
    (hcarries : Carries json wire conn.lock unread)
    (hphases : Phases .idle conn.handler conn.forwarder conn.lock) :
    ({ conn with client := .idle, wire := wire } : Conn).Accounts json
      (seen ++ [.returned response]) sent unread := by
  have hmatched := h.matched
  rw [h.requesting_of_response] at hmatched
  refine ⟨hmatched.returned, ?_, hcarries, hphases⟩
  rw [writes_append_of_silent rfl]
  exact h.events_eq

section Step

variable (h : conn.Accounts json seen sent unread)
include h

/-- A step that is not seen and moves nothing between what is called, answered and returned. -/
theorem quiet {conn' : Conn} (hunanswered : conn'.unanswered = conn.unanswered)
    (hinFlight : conn'.inFlight unread = conn.inFlight unread)
    (hclient : conn'.client = .requesting ↔ conn.client = .requesting)
    (hunwritten : conn'.unwritten = conn.unwritten)
    (hcarries : Carries json conn'.wire conn'.lock unread)
    (hphases : Phases conn'.client conn'.handler conn'.forwarder conn'.lock) :
    ∃ others, conn'.Accounts json (seen ++ []) sent others := by
  refine ⟨unread, ?_, ?_, hcarries, hphases⟩ <;> rw [append_nil]
  · rw [hunanswered, hinFlight]
    exact ⟨h.matched.calls_eq, h.matched.answers_eq, by simp only [hclient, h.matched.single]⟩
  · rw [hunwritten]
    exact h.events_eq

/-- The client calls: the request is the last one on the socket. -/
theorem call (hclient : conn.client = .idle) (req : Request)
    (hphases : Phases .requesting conn.handler conn.forwarder conn.lock) :
    ({ conn with client := .requesting, requests := conn.requests ++ [req] } : Conn).Accounts json
      (seen ++ [.called req]) sent unread := by
  have hmatched := h.matched
  rw [hclient] at hmatched
  refine ⟨?_, ?_, h.carries, hphases⟩
  · have hcall := hmatched.call req
    rwa [unanswered, append_assoc] at hcall
  · rw [writes_append_of_silent rfl]
    exact h.events_eq

/-- The client drops an event it reads in `Client::request`, and returns from the call otherwise. -/
theorem receive (hjson : json.RoundTrips)
    (hread : (readMessage json conn.wire).result = .ok message)
    (hclient : conn.client.read message = some (client, more))
    (hphases : Phases client conn.handler conn.forwarder conn.lock) :
    ∃ others,
      ({ conn with
          client := client
          wire := (readMessage json conn.wire).rest } : Conn).Accounts json (seen ++ more) sent
        others := by
  obtain ⟨others, rfl, hcarries⟩ := h.carries.readMessage_ok hjson hread
  cases message with
  | response response =>
    rw [h.requesting_of_response] at hclient
    cases hclient
    exact ⟨others, h.returned hcarries hphases⟩
  | event event =>
    have hskip : ({ conn with wire := (readMessage json conn.wire).rest } : Conn).Accounts json
        seen sent others := ⟨h.matched, h.events_eq, hcarries, h.phases⟩
    cases hnow : conn.client <;> rw [hnow] at hclient <;> cases hclient <;>
      exact hskip.quiet rfl rfl (by simp [hnow]) rfl hcarries hphases

/-- The handler answers the oldest request, which it may have read just now or before. -/
theorem answer {before : Handler} {rest : List Request} (db : UserDb) (given : Answer)
    (hhandler : conn.handler = before)
    (hrequests : before.pending ++ conn.requests = req :: rest) (hheld : before.held = [])
    (hphases : Phases conn.client (.responding given.response) conn.forwarder conn.lock) :
    ({ conn with handler := .responding given.response, requests := rest } : Conn).Accounts json
      (seen ++ [.answered req db given]) sent unread := by
  have hmatched := h.matched
  rw [unanswered, hhandler, hrequests] at hmatched
  have hanswer := hmatched.answer db given
  refine ⟨?_, ?_, h.carries, hphases⟩
  · rwa [inFlight, hhandler, hheld, append_nil] at hanswer
  · rw [writes_append_of_silent rfl]
    exact h.events_eq

/-- The last bytes of a frame make it a message to read. -/
theorem finish (hlock : conn.lock = some ⟨thread, message, rest⟩) (hrest : rest ≠ [])
    (hphases : Phases conn.client conn.handler conn.forwarder (some ⟨thread, message, []⟩)) :
    ({ conn with
        wire := conn.wire ++ rest
        lock := some ⟨thread, message, []⟩ } : Conn).Accounts json (seen ++ [.wrote message]) sent
      (unread ++ [message]) := by
  have hmatched := h.matched.write message
  refine ⟨?_, ?_, (hlock ▸ h.carries).write_all hrest, hphases⟩
  · rw [inFlight, hlock, unfinished_of_rest hrest,
      ← append_nil (unread ++ [message])] at hmatched
    exact hmatched
  · rw [h.events_eq, unwritten, hlock, unfinished_of_rest hrest]
    simp [unwritten]

/-- **Every step of a connection keeps its account.** -/
theorem step (hjson : json.RoundTrips) (hstep : conn.step json running action = some eff) :
    ∃ others, eff.conn.Accounts json (seen ++ eff.seen) sent others := by
  have hphases := h.phases.step (moves_of_step hstep)
  cases moves_of_step hstep with
  | call hclient => exact ⟨unread, h.call hclient _ hphases⟩
  | poll hclient | close hclient =>
    exact h.quiet rfl rfl (by simp [hclient]) rfl h.carries hphases
  | receive hread hclient => exact h.receive hjson hread hclient hphases
  | @refuse db _ _ e hhandler hrequests =>
    exact ⟨unread, h.answer db (.refused e) hhandler hrequests rfl hphases⟩
  | @noReply db _ hhandler => exact ⟨unread, h.answer db .noReply hhandler rfl rfl hphases⟩
  | start hhandler =>
    have hforwarder := h.phases.unborn.mpr (.inl hhandler)
    exact h.quiet (by simp [unanswered, hhandler, Handler.pending])
      (by simp [inFlight, hhandler, Handler.held]) .rfl
      (by simp [unwritten, hforwarder, Forwarder.held]) h.carries hphases
  | permit hhandler hrequests | orphan hhandler hrequests =>
    exact h.quiet (by simp [unanswered, hhandler, hrequests, Handler.pending])
      (by simp [inFlight, hhandler, Handler.held]) .rfl rfl h.carries hphases
  | noRegistration hhandler | hangUp hhandler =>
    exact h.quiet (by simp [unanswered, hhandler, Handler.pending])
      (by simp [inFlight, hhandler, Handler.held]) .rfl rfl h.carries hphases
  | forward hforwarder hchannel =>
    exact h.quiet rfl rfl .rfl (by simp [unwritten, hforwarder, hchannel, Forwarder.held])
      h.carries hphases
  | lockResponse hlock hhandler hstart =>
    have hunfinished := (unfinished_start hstart).2
    exact h.quiet (by simp [unanswered, hhandler, Handler.pending])
      (by simp [inFlight, hhandler, hlock, hunfinished, Handler.held]) .rfl
      (by simp [unwritten, hlock, hunfinished]) ((hlock ▸ h.carries).start hstart) hphases
  | lockEvent hlock hforwarder hstart =>
    have hunfinished := (unfinished_start hstart).2
    exact h.quiet rfl (by simp [inFlight, hlock, hunfinished]) .rfl
      (by simp [unwritten, hforwarder, hlock, hunfinished, Forwarder.held])
      ((hlock ▸ h.carries).start hstart) hphases
  | @write _ _ rest n hlock _ hn =>
    have hrest : rest ≠ [] := ne_nil_of_length_pos (Nat.zero_lt_of_lt hn)
    have hdrop : rest.drop n ≠ [] := ne_nil_of_length_pos (by rw [length_drop]; omega)
    exact h.quiet rfl
      (by simp [inFlight, hlock, unfinished_of_rest hrest, unfinished_of_rest hdrop]) .rfl
      (by simp [unwritten, hlock, unfinished_of_rest hrest, unfinished_of_rest hdrop])
      ((hlock ▸ h.carries).write_some hn) hphases
  | finish hlock hrest => exact ⟨_, h.finish hlock hrest hphases⟩
  | unlockResponse hlock =>
    have hhandler := h.phases.request.mpr (by rw [hlock]; rfl)
    exact h.quiet (by simp [unanswered, hhandler, Handler.pending])
      (by simp [inFlight, hhandler, hlock, Handler.held]) .rfl (by simp [unwritten, hlock])
      (hlock ▸ h.carries).unlock hphases
  | unlockEvent hlock =>
    have hforwarder := h.phases.event.mpr (by rw [hlock]; rfl)
    exact h.quiet rfl (by simp [inFlight, hlock]) .rfl
      (by simp [unwritten, hforwarder, hlock, Forwarder.held]) (hlock ▸ h.carries).unlock hphases

/-! ### The manager -/

theorem registered (id : ℕ) :
    (conn.registered id).Accounts json seen sent unread :=
  ⟨h.matched, h.events_eq, h.carries, h.phases⟩

/-- The manager answers a handler that waits for it. -/
theorem reply (response : Response) :
    (conn.reply response).conn.Accounts json (seen ++ (conn.reply response).seen) sent unread := by
  unfold Conn.reply
  split
  · rename_i db req hhandler
    refine h.answer db (.manager response) hhandler rfl rfl ?_
    obtain ⟨hrequest, hevent, hunborn, -⟩ := h.phases
    constructor <;> simp_all [Handler.Outside]
  · rw [append_nil]
    exact h

/-- An event that is sent goes to the end of the channel. -/
theorem push (event : Event) :
    (conn.push event).Accounts json seen (sent ++ [event]) unread := by
  refine ⟨h.matched, ?_, h.carries, h.phases⟩
  rw [h.events_eq, Conn.unwritten, Conn.unwritten, Conn.push, append_assoc, append_assoc]

end Step

end Conn.Accounts

end MitosNetwork.Session
