import MitosNetwork.Ipc.SessionAccount

/-!
# A connection comes to an end

What a connection waits for, and that it stops only then. `Conn.goes_of_step` says what a connection
awaits from the manager after a step. `Conn.work_step` bounds the steps that only carry on with what
is there, and `Conn.Accounts.complete` says that a connection with no such step left has returned
every call and written every event.
-/

namespace MitosNetwork.Session

open Protocol Policy Ipc List Conn

variable {json : Json ServerMessage} {running : Bool} {conn : Conn} {action : Action} {eff : Effect}
  {seen : List Seen} {sent : List Event} {unread : List ServerMessage}

/-! ## Waiting for the manager -/

inductive Awaited where
  | registration
  | response (req : Request)

/-- What a connection's thread waits for from the manager. -/
def Conn.awaited (conn : Conn) : List Awaited :=
  match conn.handler, conn.clientId with
  | .registering, none => [.registration]
  | .waiting _ req, _ => [.response req]
  | _, _ => []

/-- What is to come for something that is sent. -/
def Send.awaited : Send → Option Awaited
  | .request req => some (.response req)
  | .unregister _ => none

/-- The thread has not given up on the manager. -/
def Handler.Hopeful (handler : Handler) : Prop := ∀ unanswered, handler ≠ .failed unanswered

/-- What a step of a connection does to what it awaits and to its answers while the manager is
there. -/
structure Conn.Goes (conn : Conn) (eff : Effect) : Prop where
  awaited : eff.conn.awaited = conn.awaited ++ eff.sends.filterMap Send.awaited
  hopeful : conn.handler.Hopeful → eff.conn.handler.Hopeful
  replied : ∀ req db, .answered req db .noReply ∉ eff.seen

theorem Conn.Goes.of_handler {conn' : Conn} {more : List Seen}
    (hid : conn'.clientId = conn.clientId) (hhandler : conn'.handler = conn.handler)
    (hseen : ∀ req db, .answered req db .noReply ∉ more) : conn.Goes ⟨conn', [], more⟩ where
  awaited := by
    rw [Conn.awaited, Conn.awaited, hid, hhandler, filterMap_nil, append_nil]
  hopeful := by
    rw [hhandler]
    exact id
  replied := hseen

theorem Conn.goes_of_step (hphases : Phases conn.client conn.handler conn.forwarder conn.lock)
    (hstep : conn.step json true action = some eff) : conn.Goes eff := by
  cases moves_of_step hstep with
  | call | poll | close | forward | lockEvent | write | finish | unlockEvent =>
    exact .of_handler rfl rfl (by simp)
  | receive _ hclient =>
    refine .of_handler rfl rfl ?_
    obtain rfl | ⟨response, rfl⟩ := Client.seen_of_read hclient <;> simp
  | start hhandler hid =>
    exact ⟨by simp [awaited, hhandler, hid], by simp [Handler.Hopeful], by simp⟩
  | permit hhandler | hangUp hhandler =>
    exact ⟨by simp [awaited, hhandler, Send.awaited], by simp [Handler.Hopeful], by simp⟩
  | refuse hhandler | lockResponse _ hhandler =>
    exact ⟨by simp [awaited, hhandler], by simp [Handler.Hopeful], by simp⟩
  | orphan _ _ _ hrun | noReply _ hrun | noRegistration _ hrun => cases hrun
  | unlockResponse hlock =>
    have hhandler := hphases.request.mpr (by rw [hlock]; rfl)
    exact ⟨by simp [awaited, hhandler], by simp [Handler.Hopeful], by simp⟩

theorem Conn.clientId_step (hstep : conn.step json running action = some eff) :
    eff.conn.clientId = conn.clientId := by
  cases moves_of_step hstep <;> rfl

/-- The answer is the policy's if and only if the policy refuses, and then it is its error. -/
def Answer.Follows (answer : Answer) : Result Unit → Prop
  | .ok () => ∀ e, answer ≠ .refused e
  | .error e => answer = .refused e

/-- Every answer follows the check of its request, and the request that waits for the manager is
permitted. -/
structure Conn.Lawful (conn : Conn) (seen : List Seen) : Prop where
  answered : ∀ req db answer, .answered req db answer ∈ seen →
    answer.Follows (check db conn.peer (requiredCapability req))
  waiting : ∀ db req, conn.handler = .waiting db req →
    check db conn.peer (requiredCapability req) = .ok ()

/-- What keeps the answers lawful: nobody begins to wait for the manager, or gives an answer,
against the check. -/
theorem Conn.Lawful.next {conn' : Conn} {more : List Seen} (h : conn.Lawful seen)
    (hpeer : conn'.peer = conn.peer)
    (hmore : ∀ req db answer, .answered req db answer ∈ more →
      answer.Follows (check db conn.peer (requiredCapability req)))
    (hwaiting : ∀ db req, conn'.handler = .waiting db req →
      conn.handler = .waiting db req ∨ check db conn.peer (requiredCapability req) = .ok ()) :
    conn'.Lawful (seen ++ more) := by
  refine ⟨fun req db answer hmem => ?_, fun db req hhandler => ?_⟩ <;> rw [hpeer]
  · exact (mem_append.mp hmem).elim (h.answered req db answer) (hmore req db answer)
  · exact (hwaiting db req hhandler).elim (h.waiting db req) id

theorem Conn.Lawful.step (h : conn.Lawful seen)
    (hstep : conn.step json running action = some eff) : eff.conn.Lawful (seen ++ eff.seen) := by
  cases moves_of_step hstep with
  | refuse _ _ hcheck => exact h.next rfl (by simp +contextual [hcheck, Answer.Follows]) (by simp)
  | noReply hhandler =>
    have hcheck := h.waiting _ _ hhandler
    exact h.next rfl (by simp +contextual [hcheck, Answer.Follows]) (by simp)
  | permit _ _ hcheck => exact h.next rfl (by simp) (by simp [hcheck])
  | receive _ hclient =>
    refine h.next rfl ?_ fun _ _ hhandler => .inl hhandler
    obtain rfl | ⟨response, rfl⟩ := Client.seen_of_read hclient <;> simp
  | call | poll | close | forward | lockEvent | write | finish | unlockEvent =>
    exact h.next rfl (by simp) fun _ _ hhandler => .inl hhandler
  | _ => exact h.next rfl (by simp) (by simp)

def managed : Request × UserDb × Answer → Option (Request × Response)
  | (req, _, .manager response) => some (req, response)
  | (_, _, .refused _) => none
  | (_, _, .noReply) => none

theorem Conn.managed_step (hstep : conn.step json running action = some eff) :
    (answers eff.seen).filterMap managed = [] := by
  cases moves_of_step hstep with
  | receive _ hclient => obtain rfl | ⟨response, rfl⟩ := Client.seen_of_read hclient <;> rfl
  | _ => rfl

/-! ## The work that is left -/

/-- The steps that only carry on with what is there. The others begin something: a call of the
client, the end of the connection. -/
def Action.internal : Action → Bool
  | .call _ | .poll | .close | .hangUp => false
  | .receive | .start | .serve _ | .giveUp | .forward => true
  | .lockResponse | .lockEvent | .write _ | .unlock => true

/-- More than the steps for a message that waits for the lock. -/
def messageWork : ℕ := 2 * (4 + maxMessageLen) + 2

def Handler.work : Handler → ℕ
  | .registering => 1
  | .waiting .. => messageWork + 1
  | .responding _ => messageWork
  | .reading | .writing | .closed | .failed _ => 0

def Forwarder.work : Forwarder → ℕ
  | .holding _ => messageWork
  | .unborn | .receiving | .writing => 0

def lockWork : Option Writing → ℕ
  | none => 0
  | some w => 1 + 2 * w.rest.length

def Conn.work (conn : Conn) : ℕ :=
  conn.requests.length * (messageWork + 4) + conn.handler.work +
    conn.channel.length * (messageWork + 1) + conn.forwarder.work + lockWork conn.lock +
    conn.wire.length

variable {thread : Thread} {message : ServerMessage} {w : Writing}

theorem Writing.lockWork_start (hstart : Writing.start json thread message = some w) :
    lockWork (some w) < messageWork := by
  obtain ⟨body, hbody, rfl⟩ := Writing.start_eq_some hstart
  have hlen := hbody.2
  rw [lockWork, messageWork, length_frame]
  omega

theorem Conn.work_step (hinternal : action.internal = true)
    (hstep : conn.step json running action = some eff) :
    eff.conn.work + 2 * eff.sends.length < conn.work := by
  cases moves_of_step hstep with
  | call | poll | close | hangUp => cases hinternal
  | receive hread =>
    have hlen := length_rest_readMessage_lt json hread
    simp only [work, length_nil]
    omega
  | start hhandler | noReply hhandler | noRegistration hhandler =>
    simp only [work, hhandler, Handler.work, Forwarder.work, length_nil]
    omega
  | permit hhandler hrequests | orphan hhandler hrequests | refuse hhandler hrequests =>
    simp only [work, hhandler, hrequests, Handler.work, length_cons, length_nil, Nat.succ_mul]
    omega
  | forward hforwarder hchannel =>
    simp only [work, hforwarder, hchannel, Forwarder.work, length_cons, length_nil, Nat.succ_mul]
    omega
  -- A message that waits for the lock weighs more than all that is left once it has it.
  | lockResponse hlock hhandler hstart =>
    have hwork := Writing.lockWork_start hstart
    simp only [work, hhandler, hlock, Handler.work, length_nil]
    omega
  | lockEvent hlock hforwarder hstart =>
    have hwork := Writing.lockWork_start hstart
    simp only [work, hforwarder, hlock, Forwarder.work, length_nil]
    omega
  | write hlock hpos hn =>
    simp only [work, hlock, lockWork, length_nil, length_append, length_take, length_drop]
    omega
  | finish hlock hrest =>
    have hlen := length_pos_of_ne_nil hrest
    simp only [work, hlock, lockWork, length_nil, length_append]
    omega
  | unlockResponse hlock =>
    simp only [work, hlock, lockWork, Handler.work, length_nil]
    omega
  | unlockEvent hlock =>
    simp only [work, hlock, lockWork, Forwarder.work, length_nil]
    omega

/-! ## Nothing left -/

def Fits (json : Json ServerMessage) (message : ServerMessage) : Prop :=
  ∃ body, Framed json message body

theorem Writing.exists_start (h : Fits json message) (thread : Thread) :
    ∃ w, Writing.start json thread message = some w := by
  obtain ⟨body, hbody, hlen⟩ := h
  refine ⟨⟨thread, message, frame body⟩, ?_⟩
  rw [Writing.start, hbody]
  exact if_pos hlen

theorem Conn.serve_ne_none {db : UserDb} {req : Request} {rest : List Request}
    (hhandler : conn.handler = .reading) (hrequests : conn.requests = req :: rest) :
    conn.serve db running ≠ none := by
  unfold serve
  rw [hhandler, hrequests]
  dsimp only
  split
  · split <;> simp
  · simp

def Conn.Stuck (json : Json ServerMessage) (running : Bool) (conn : Conn) : Prop :=
  ∀ action, action.internal = true → conn.step json running action = none

namespace Conn.Stuck

section

variable (h : conn.Stuck json running)
include h

theorem lock_eq_none : conn.lock = none := by
  cases hlock : conn.lock with
  | none => rfl
  | some w =>
    obtain ⟨thread, message, rest⟩ := w
    cases rest with
    | nil =>
      have hunlock := h .unlock rfl
      cases thread <;> simp [step, unlock, hlock] at hunlock
    | cons byte rest =>
      have hwrite := h (.write 1) rfl
      simp [step, write, hlock] at hwrite

theorem held_eq_nil
    (hfits : ∀ response ∈ conn.handler.held, Fits json (.response response)) :
    conn.handler.held = [] := by
  cases hhandler : conn.handler with
  | responding response =>
    rw [hhandler] at hfits
    obtain ⟨w, hstart⟩ := Writing.exists_start (hfits response mem_cons_self) .request
    have hlock := h .lockResponse rfl
    simp [step, lockResponse, h.lock_eq_none, hhandler, hstart] at hlock
  | _ => rfl

theorem forwarder_ne_holding {event : Event}
    (hfits : Fits json (.event event)) : conn.forwarder ≠ .holding event := by
  intro hforwarder
  obtain ⟨w, hstart⟩ := Writing.exists_start hfits .event
  have hlock := h .lockEvent rfl
  simp [step, lockEvent, h.lock_eq_none, hforwarder, hstart] at hlock

theorem channel_eq_nil (hforwarder : conn.forwarder = .receiving) : conn.channel = [] := by
  cases hchannel : conn.channel with
  | nil => rfl
  | cons event rest =>
    have hforward := h .forward rfl
    simp [step, forward, hforwarder, hchannel] at hforward

theorem requests_eq_nil (hhandler : conn.handler = .reading) : conn.requests = [] := by
  cases hrequests : conn.requests with
  | nil => rfl
  | cons req rest =>
    have hserve := h (.serve ⟨fun _ => none, fun _ => none, fun _ => none⟩) rfl
    exact absurd hserve (serve_ne_none hhandler hrequests)

theorem awaited_eq_nil (hrunning : running = false) : conn.awaited = [] := by
  have hgiveUp := h .giveUp rfl
  rw [step, giveUp, hrunning] at hgiveUp
  unfold awaited
  split
  · simp_all
  · simp_all
  · rfl

theorem handler_ne_registering (hawaited : conn.awaited = []) : conn.handler ≠ .registering := by
  intro hhandler
  cases hid : conn.clientId with
  | none => simp [awaited, hhandler, hid] at hawaited
  | some id =>
    have hstart := h .start rfl
    simp [step, start, hhandler, hid] at hstart

end

theorem unread_eq_nil (hjson : json.RoundTrips) (h : conn.Stuck json running)
    (hcarries : Carries json conn.wire conn.lock unread) (hclient : conn.client = .requesting) :
    unread = [] := by
  cases unread with
  | nil => rfl
  | cons message others =>
    have hread := (hcarries.readMessage_cons hjson).1
    have hreceive := h .receive rfl
    cases message <;> simp [step, receive, hread, hclient, Client.read] at hreceive

end Conn.Stuck

/-- **A connection that cannot go on has nothing to do.** If no internal step is possible and
nothing is awaited from the manager, all that was called is answered and returned and all events are
written. -/
theorem Conn.Accounts.complete (hjson : json.RoundTrips) (h : conn.Accounts json seen sent unread)
    (hresponses : ∀ a ∈ answers seen, Fits json (.response a.2.2.response))
    (hevents : ∀ event ∈ sent, Fits json (.event event)) (hstuck : conn.Stuck json running)
    (hawaited : conn.awaited = []) (hhopeful : conn.handler.Hopeful) :
    conn.unanswered = [] ∧ conn.inFlight unread = [] ∧ conn.unwritten = [] := by
  have hlock := hstuck.lock_eq_none
  have hregistered := hstuck.handler_ne_registering hawaited
  have hforwarder : conn.forwarder = .receiving := by
    cases hforwarder : conn.forwarder with
    | receiving => rfl
    | unborn =>
      exact (h.phases.unborn.mp hforwarder).elim (absurd · hregistered) (absurd · (hhopeful []))
    | writing => simpa [hlock] using h.phases.event.mp hforwarder
    | holding event =>
      have hsent : event ∈ sent := by
        rw [h.events_eq, unwritten, hforwarder]
        simp [Forwarder.held]
      exact absurd hforwarder (hstuck.forwarder_ne_holding (hevents event hsent))
  have hheld : conn.handler.held = [] := by
    refine hstuck.held_eq_nil fun response hresponse => ?_
    have hanswers : response ∈ (answers seen).map (·.2.2.response) := by
      rw [h.matched.answers_eq, inFlight]
      simp [hresponse]
    obtain ⟨a, ha, rfl⟩ := mem_map.mp hanswers
    exact hresponses a ha
  -- A client in a call has something to read, or its request is there to be served.
  have hclient : conn.client ≠ .requesting := by
    intro hclient
    have hreading : conn.handler = .reading := by
      cases hhandler : conn.handler with
      | reading => rfl
      | registering => exact absurd hhandler hregistered
      | waiting => simp [awaited, hhandler] at hawaited
      | responding response => simp [hhandler, Handler.held] at hheld
      | writing => simpa [hlock] using h.phases.request.mp hhandler
      | closed => simpa [hclient] using h.phases.closed hhandler
      | failed unanswered => exact absurd hhandler (hhopeful unanswered)
    have hsingle := h.matched.single
    rw [if_pos hclient, unanswered, inFlight, hreading, hlock,
      hstuck.requests_eq_nil hreading, hstuck.unread_eq_nil hjson h.carries hclient] at hsingle
    cases hsingle
  have hsingle := h.matched.single
  rw [if_neg hclient] at hsingle
  refine ⟨eq_nil_of_length_eq_zero (by omega), eq_nil_of_length_eq_zero (by omega), ?_⟩
  simp [unwritten, hlock, hforwarder, hstuck.channel_eq_nil hforwarder, Forwarder.held]

end MitosNetwork.Session
