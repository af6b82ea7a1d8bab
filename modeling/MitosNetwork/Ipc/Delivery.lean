import MitosNetwork.Ipc.TrafficInvariant

/-!
# What the calls return

`responses_matched` says that the calls of a connection return the answers to their own requests, in
order, and that the events written to a connection are those that were broadcast while it was
registered: at any moment but for the ones that are still to be written. The steps that only carry
on with what is there come to an end, and then nothing is left.
-/

namespace MitosNetwork.Traffic

open Session Protocol Policy Ipc List

variable {json : Json ServerMessage} {s t : State} {action : Action} {trace seen : List Observation}

/-! ## Coming to an end -/

/-- A bound for the internal steps of the system. -/
def State.work (s : State) : ℕ :=
  (s.conns.map Conn.work).sum + 2 * s.queue.length + s.busy.toList.length

theorem sum_map_set {conns : List Conn} {c : ℕ} {conn : Conn} (h : conns[c]? = some conn)
    (conn' : Conn) (f : Conn → ℕ) :
    ((conns.set c conn').map f).sum + f conn = (conns.map f).sum + f conn' := by
  induction conns generalizing c with
  | nil => cases h
  | cons first conns ih =>
    cases c with
    | zero =>
      cases h
      simp only [set_cons_zero, map_cons, sum_cons]
      omega
    | succ c =>
      have hrest := ih h
      simp only [set_cons_succ, map_cons, sum_cons]
      omega

theorem map_work_modify (conns : List Conn) (c id : ℕ) :
    (conns.modify c (Conn.registered id)).map Conn.work = conns.map Conn.work := by
  refine ext_getElem? fun c' => ?_
  rw [getElem?_map, getElem?_map, getElem?_modify]
  cases conns[c']? with
  | none => rfl
  | some conn => by_cases hc : c = c' <;> simp [hc, Conn.registered, Conn.work]

theorem work_reply (conn : Conn) (response : Response) :
    (conn.reply response).conn.work ≤ conn.work ∧ (conn.reply response).sends = [] := by
  unfold Conn.reply
  split
  · rename_i db req hhandler
    simp [Conn.work, hhandler, Handler.work]
  · exact ⟨le_rfl, rfl⟩

theorem work_step (hinternal : action.internal = true)
    (hstep : step json s action = some (t, seen)) : t.work < s.work := by
  cases moves_of_step hstep with
  | accept | broadcast => cases hinternal
  | post _ _ haction => rw [haction] at hinternal; cases hinternal
  | @conn c conn _ eff hconn hmove =>
    have hwork := Conn.work_step hinternal hmove
    have hsum := sum_map_set hconn eff.conn Conn.work
    simp only [State.work, State.apply, length_append, length_map]
    omega
  | register _ _ hqueue =>
    simp only [State.work, map_work_modify, hqueue, length_cons]
    omega
  | unregister _ _ hqueue =>
    simp only [State.work, hqueue, length_cons]
    omega
  | stop _ _ hqueue =>
    simp only [State.work, hqueue, length_cons, length_nil]
    omega
  | start _ hbusy hqueue =>
    simp only [State.work, hqueue, hbusy, length_cons, Option.toList_some, length_nil]
    omega
  -- The connection has no more to do than before; the manager has one command less.
  | @reply c _ _ conn response hbusy hconn =>
    obtain ⟨hwork, hsends⟩ := work_reply conn response
    have hsum := sum_map_set hconn (conn.reply response).conn Conn.work
    simp only [State.work, State.apply, hbusy, hsends, map_nil, append_nil,
      Option.toList_none, Option.toList_some, length_cons, length_nil]
    omega
  | done hbusy =>
    simp only [State.work, hbusy, length_cons, Option.toList_none, Option.toList_some, length_nil]
    omega

/-- The responses and the events of a run can be written. -/
def Observation.Fits (json : Json ServerMessage) : Observation → Prop
  | .conn _ (.answered _ _ answer) => Session.Fits json (.response answer.response)
  | .broadcast event => Session.Fits json (.event event)
  | _ => True

theorem mem_trace_of_mem_seenBy {c : ℕ} {x : Seen} (h : x ∈ seenBy c trace) :
    .conn c x ∈ trace := by
  obtain ⟨o, ho, hx⟩ := mem_filterMap.mp h
  cases o with
  | conn c' x' =>
    rw [Observation.seenBy] at hx
    split at hx
    · rename_i hc
      cases hx
      exact hc ▸ ho
    · cases hx
  | _ => cases hx

theorem mem_seen_of_mem_answers {more : List Seen} {req : Request} {db : UserDb} {answer : Answer}
    (h : (req, db, answer) ∈ answers more) : .answered req db answer ∈ more := by
  obtain ⟨x, hx, hanswer⟩ := mem_filterMap.mp h
  cases x with
  | answered =>
    cases hanswer
    exact hx
  | _ => cases hanswer

theorem mem_trace_of_mem_between {id : ℕ} {event : Event} (h : event ∈ between id trace) :
    .broadcast event ∈ trace := by
  induction trace using List.reverseRecOn with
  | nil => cases h
  | append_singleton trace o ih =>
    rw [between, subscription_append] at h
    simp only [foldl_cons, foldl_nil] at h
    cases o with
    | broadcast e =>
      rw [Subscription.see] at h
      split at h
      · rcases mem_append.mp h with hold | hnew
        · exact mem_append_left _ (ih hold)
        · cases mem_singleton.mp hnew
          exact mem_append_right _ mem_cons_self
      · exact mem_append_left _ (ih h)
    | registered id' | unregistered id' =>
      rw [Subscription.see] at h
      split at h <;> exact mem_append_left _ (ih h)
    | conn | handled => exact mem_append_left _ (ih h)

def State.Stuck (json : Json ServerMessage) (s : State) : Prop :=
  ∀ action, action.internal = true → step json s action = none

theorem Inv.outstanding_eq_nil (h : Inv json s trace) (hrun : s.running = true)
    (hstuck : s.Stuck json) : s.outstanding = [] := by
  have hbusy : s.busy = none := by
    cases hbusy : s.busy with
    | none => rfl
    | some cmd =>
      have hlasting := (h.busy hbusy).2
      have hreply := hstuck (.reply .ok) rfl
      have hdone := hstuck .done rfl
      cases cmd with
      | request c req identity =>
        -- Whoever is at this request has to be there.
        cases hconn : s.conns[c]? with
        | some conn => simp [Traffic.step, State.reply, hbusy, hconn] at hreply
        | none =>
          have hawaited := (h.serves hrun).awaited c
          simp [State.awaited, State.outstanding, hbusy, hconn] at hawaited
      | hotplug | tick => simp [Traffic.step, State.done, hbusy] at hdone
      | registerEventClient | unregisterEventClient | shutdown => cases hlasting
  cases hqueue : s.queue with
  | nil => rw [State.outstanding, hbusy, hqueue]; rfl
  | cons cmd rest =>
    have htake := hstuck .take rfl
    simp [Traffic.step, State.take, hrun, hbusy, hqueue] at htake

theorem State.Stuck.conn {c : ℕ} {conn : Conn} (h : s.Stuck json)
    (hconn : s.conns[c]? = some conn) : conn.Stuck json s.running := by
  intro action haction
  have hnone := h (.conn c action) haction
  simpa [Traffic.step, State.connStep, hconn] using hnone

/-- Where no step is left nobody waits for the manager: it has done everything, or it is gone. -/
theorem Inv.awaited_eq_nil {c : ℕ} {conn : Conn} (h : Inv json s trace) (hstuck : s.Stuck json)
    (hconn : s.conns[c]? = some conn) : conn.awaited = [] := by
  cases hrunning : s.running with
  | true =>
    have hall := (h.serves hrunning).awaited c
    rw [State.awaited, h.outstanding_eq_nil hrunning hstuck, hconn] at hall
    exact hall.symm
  | false => exact (hstuck.conn hconn).awaited_eq_nil hrunning

theorem Inv.complete {c : ℕ} {conn : Conn} (hjson : json.RoundTrips) (h : Inv json s trace)
    (hfits : ∀ o ∈ trace, o.Fits json) (hstuck : s.Stuck json) (hconn : s.conns[c]? = some conn)
    (hhopeful : conn.handler.Hopeful) :
    (returns (seenBy c trace)).length = (calls (seenBy c trace)).length ∧ conn.unwritten = [] := by
  obtain ⟨unread, haccounts⟩ := h.accounts hconn
  have hresponse : ∀ a ∈ answers (seenBy c trace), Fits json (.response a.2.2.response) := by
    rintro ⟨req, db, answer⟩ hanswer
    exact hfits _ (mem_trace_of_mem_seenBy (mem_seen_of_mem_answers hanswer))
  have hevents : ∀ event ∈ sentTo conn.clientId trace, Fits json (.event event) := by
    intro event hevent
    cases hid : conn.clientId with
    | none => rw [hid] at hevent; cases hevent
    | some id =>
      rw [hid] at hevent
      exact hfits _ (mem_trace_of_mem_between hevent)
  obtain ⟨hunanswered, hinFlight, hunwritten⟩ := haccounts.complete hjson hresponse hevents
    (hstuck.conn hconn) (h.awaited_eq_nil hstuck hconn) hhopeful
  refine ⟨?_, hunwritten⟩
  have hcalls := congrArg List.length haccounts.matched.calls_eq
  have hanswers := congrArg List.length haccounts.matched.answers_eq
  rw [hunanswered, append_nil, length_map] at hcalls
  rw [hinFlight, append_nil, length_map] at hanswers
  rw [hcalls, hanswers]

theorem Inv.returned {c k : ℕ} {response : Response} (h : Inv json s trace)
    (hreturn : (returns (seenBy c trace))[k]? = some response) :
    ∃ req db answer, (calls (seenBy c trace))[k]? = some req ∧
      (answers (seenBy c trace))[k]? = some (req, db, answer) ∧ answer.response = response := by
  have hlen : k < (returns (seenBy c trace)).length := (List.getElem?_eq_some_iff.mp hreturn).1
  have hconn : c < s.conns.length := by
    by_contra hc
    rw [h.unseen c (not_lt.mp hc)] at hlen
    cases hlen
  obtain ⟨unread, haccounts⟩ := h.accounts (getElem?_eq_getElem hconn)
  -- The answers begin with what was returned, the calls with what was answered.
  have hanswers : ((answers (seenBy c trace)).map (·.2.2.response))[k]? = some response := by
    rw [haccounts.matched.answers_eq, getElem?_append_left hlen, hreturn]
  rw [getElem?_map, Option.map_eq_some_iff] at hanswers
  obtain ⟨⟨req, db, answer⟩, hget, hresponse⟩ := hanswers
  refine ⟨req, db, answer, ?_, hget, hresponse⟩
  have hk : k < ((answers (seenBy c trace)).map (·.1)).length := by
    rw [length_map]
    exact (List.getElem?_eq_some_iff.mp hget).1
  rw [haccounts.matched.calls_eq, getElem?_append_left hk, getElem?_map, hget]
  rfl

/-- What the manager is at or has in its channel was permitted when it was checked. -/
theorem Inv.permitted {c : ℕ} {req : Request} {identity : PeerIdentity} (h : Inv json s trace)
    (hrunning : s.running = true) (hmem : .request c req identity ∈ s.outstanding) :
    ∃ conn db, s.conns[c]? = some conn ∧ conn.handler = .waiting db req ∧
      check db conn.peer (requiredCapability req) = .ok () := by
  have hawaited : .response req ∈ s.awaited c := mem_filterMap.mpr ⟨_, hmem, by simp⟩
  rw [(h.serves hrunning).awaited c] at hawaited
  cases hconn : s.conns[c]? with
  | none =>
    rw [hconn] at hawaited
    cases hawaited
  | some conn =>
    rw [hconn] at hawaited
    change _ ∈ conn.awaited at hawaited
    unfold Conn.awaited at hawaited
    split at hawaited
    · cases mem_singleton.mp hawaited
    · cases mem_singleton.mp hawaited
      exact ⟨conn, _, rfl, ‹_›, (h.lawful hconn).waiting _ _ ‹_›⟩
    · cases hawaited

/-- **Responses are matched to requests, and no event is lost.** Of every run, with any number of
connections and any interleaving: the `k`-th call of a connection returns the answer to its `k`-th
request. That is the policy's error if and only if the policy refused the request with the user
database it was checked with, and the manager has only requests before it that were permitted. The
manager's part of the answers is what the manager responded to this connection's requests, in order;
the other answers to permitted requests are errors once the manager is gone. The events written to a
connection are those that were broadcast between its registration and its unregistration, in order,
but for the ones still to be written, and no two connections have one registration. Internal steps
come to an end, and when none is left every call has returned and every event is written, unless the
connection's thread has found the manager gone, which it does not while the manager runs. -/
theorem responses_matched (actions : List Action) (hjson : json.RoundTrips)
    (hrun : Trace.exec (step json) State.init actions = some (s, trace))
    (hfits : ∀ o ∈ trace, o.Fits json) :
    (∀ (c k : ℕ) (response : Response), (returns (seenBy c trace))[k]? = some response →
      ∃ (req : Request) (db : UserDb) (answer : Answer), (calls (seenBy c trace))[k]? = some req ∧
        (answers (seenBy c trace))[k]? = some (req, db, answer) ∧ answer.response = response) ∧
    (∀ (c : ℕ) (conn : Conn) (req : Request) (db : UserDb) (answer : Answer),
      s.conns[c]? = some conn → (req, db, answer) ∈ answers (seenBy c trace) →
        answer.Follows (check db conn.peer (requiredCapability req))) ∧
    (∀ c, (answers (seenBy c trace)).filterMap managed = handledFor c trace) ∧
    (∀ (c : ℕ) (req : Request) (identity : PeerIdentity), s.running = true →
      .request c req identity ∈ s.outstanding → ∃ conn db, s.conns[c]? = some conn ∧
        conn.handler = .waiting db req ∧ check db conn.peer (requiredCapability req) = .ok ()) ∧
    (∀ c req db, (req, db, .noReply) ∈ answers (seenBy c trace) → s.running = false) ∧
    (∀ (c : ℕ) (conn : Conn), s.conns[c]? = some conn →
      events (writes (seenBy c trace)) ++ conn.unwritten = sentTo conn.clientId trace) ∧
    (∀ (c c' id : ℕ) (conn conn' : Conn), s.conns[c]? = some conn → s.conns[c']? = some conn' →
      conn.clientId = some id → conn'.clientId = some id → c = c') ∧
    (∀ more t later, (∀ action ∈ more, action.internal = true) →
      Trace.exec (step json) s more = some (t, later) → more.length ≤ s.work) ∧
    (∀ (c : ℕ) (conn : Conn), s.conns[c]? = some conn →
      (s.running = true → ∀ unanswered, conn.handler ≠ .failed unanswered) ∧
      (s.Stuck json → (∀ unanswered, conn.handler ≠ .failed unanswered) →
        (returns (seenBy c trace)).length = (calls (seenBy c trace)).length ∧
          conn.unwritten = [])) := by
  have h := inv_of_exec hjson hrun
  refine ⟨?_, ?_, fun c => (h.handled c).symm, ?_, ?_, ?_, ?_, ?_, ?_⟩
  · intro c k response hreturn
    exact h.returned hreturn
  · intro c conn req db answer hconn hanswer
    exact (h.lawful hconn).answered req db answer (mem_seen_of_mem_answers hanswer)
  · intro c req identity hrunning hmem
    exact h.permitted hrunning hmem
  · -- Nobody gives up on a manager that is there.
    intro c req db hanswer
    by_contra hrunning
    exact (h.serves (Bool.of_not_eq_false hrunning)).replied c req db
      (mem_seen_of_mem_answers hanswer)
  · intro c conn hconn
    obtain ⟨unread, haccounts⟩ := h.accounts hconn
    exact haccounts.events_eq.symm
  · intro c c' id conn conn' hconn hconn' hid hid'
    exact h.distinct hconn hconn' hid hid'
  · intro more t later hmore hlater
    exact Trace.length_le_of_exec (fun hinternal hstep => work_step hinternal hstep) hmore hlater
  · intro c conn hconn
    refine ⟨fun hrunning => (h.serves hrunning).hopeful hconn, fun hstuck hhopeful => ?_⟩
    exact h.complete hjson hfits hstuck hconn hhopeful

/-! ## Two runs -/

/-- A peer that may only look, and a host without groups. -/
def guest : PeerIdentity := ⟨1000, 1000, 1⟩

def noGroups : UserDb := ⟨fun _ => none, fun _ => none, fun _ => none⟩

/-- What the policy says to a guest who wants the daemon to reload. -/
def refusal : NetworkError := .permissionDenied "uid 1000 lacks Admin"

def okBytes : List UInt8 := jsonBytes "\x7b\"Response\":\"Ok\"\x7d"

def refusalBytes : List UInt8 :=
  jsonBytes "\x7b\"Response\":\x7b\"Error\":\"permission denied: uid 1000 lacks Admin\"\x7d\x7d"

def removedBytes : List UInt8 :=
  jsonBytes "\x7b\"Event\":\x7b\"DeviceRemoved\":\"eth0\"\x7d\x7d"

/-- The JSON of three messages. -/
def threeMessages : Json ServerMessage where
  toVec
    | .response .ok => .ok okBytes
    | .response (.error e) =>
      if e = refusal.display then .ok refusalBytes else .error "another text"
    | .event (.deviceRemoved name) =>
      if name = "eth0" then .ok removedBytes else .error "another device"
    | _ => .error "another message"
  fromSlice bytes :=
    if bytes = okBytes then .ok (.response .ok)
    else if bytes = refusalBytes then .ok (.response (.error refusal.display))
    else if bytes = removedBytes then .ok (.event (.deviceRemoved "eth0"))
    else .error "another text"

theorem roundTrips_threeMessages : threeMessages.RoundTrips := by
  have hrefusal : refusalBytes ≠ okBytes := by decide +kernel
  have hremoved : removedBytes ≠ okBytes ∧ removedBytes ≠ refusalBytes := by decide +kernel
  intro message bytes hbytes
  unfold threeMessages at hbytes
  dsimp only at hbytes
  split at hbytes
  · cases hbytes
    simp [threeMessages]
  · split at hbytes <;> cases hbytes
    simp_all [threeMessages]
  · split at hbytes <;> cases hbytes
    simp_all [threeMessages]
  · cases hbytes

/-- A device goes away while the manager is at the guest's request. The event thread gets the lock
first, and its frame is written in two portions. -/
def answeredRun : List Action :=
  [.accept guest, .take, .conn 0 .start, .conn 0 (.call .listDevices), .conn 0 (.serve noGroups),
    .take, .broadcast (.deviceRemoved "eth0"), .reply .ok, .conn 0 .forward, .conn 0 .lockEvent,
    .conn 0 (.write 9), .conn 0 (.write 29), .conn 0 .unlock, .conn 0 .lockResponse,
    .conn 0 (.write 21), .conn 0 .unlock, .conn 0 .receive, .conn 0 .receive]

def answeredTrace : List Observation :=
  [.registered 0, .conn 0 (.called .listDevices), .broadcast (.deviceRemoved "eth0"),
    .handled 0 .listDevices .ok, .conn 0 (.answered .listDevices noGroups (.manager .ok)),
    .conn 0 (.wrote (.event (.deviceRemoved "eth0"))), .conn 0 (.wrote (.response .ok)),
    .conn 0 (.returned .ok)]

def refusedRun : List Action :=
  [.accept guest, .take, .conn 0 .start, .conn 0 (.call .reload), .conn 0 (.serve noGroups),
    .conn 0 .lockResponse, .conn 0 (.write 68), .conn 0 .unlock, .conn 0 .receive]

def refusedTrace : List Observation :=
  [.registered 0, .conn 0 (.called .reload),
    .conn 0 (.answered .reload noGroups (.refused refusal)),
    .conn 0 (.wrote (.response (.error refusal.display))),
    .conn 0 (.returned (.error refusal.display))]

theorem responses_matched_answered :
    ∃ s conn, Trace.exec (step threeMessages) State.init answeredRun =
      some (s, answeredTrace) ∧ s.conns[0]? = some conn ∧
      (∃ req db answer, (calls (seenBy 0 answeredTrace))[0]? = some req ∧
        (answers (seenBy 0 answeredTrace))[0]? = some (req, db, answer) ∧ answer.response = .ok) ∧
      events (writes (seenBy 0 answeredTrace)) ++ conn.unwritten = [.deviceRemoved "eth0"] := by
  have hfits : ∀ o ∈ answeredTrace, o.Fits threeMessages := by
    simp only [answeredTrace, forall_mem_cons]
    exact ⟨trivial, trivial, ⟨removedBytes, rfl, by decide +kernel⟩, trivial,
      ⟨okBytes, rfl, by decide +kernel⟩, trivial, trivial, trivial, forall_mem_nil _⟩
  obtain ⟨hreturn, -, -, -, -, hevents, -⟩ :=
    responses_matched answeredRun roundTrips_threeMessages rfl hfits
  exact ⟨_, _, rfl, rfl, hreturn 0 0 .ok rfl, hevents 0 _ rfl⟩

/-- A refused call returns what the manager never said. -/
theorem responses_matched_refused :
    threeMessages.RoundTrips ∧ (∀ o ∈ refusedTrace, o.Fits threeMessages) ∧
      ∃ s, Trace.exec (step threeMessages) State.init refusedRun = some (s, refusedTrace) ∧
        s.running = true ∧
        calls (seenBy 0 refusedTrace) = [.reload] ∧
        returns (seenBy 0 refusedTrace) = [.error "permission denied: uid 1000 lacks Admin"] ∧
        handledFor 0 refusedTrace = [] := by
  refine ⟨roundTrips_threeMessages, ?_, _, rfl, rfl, rfl, rfl, rfl⟩
  simp only [refusedTrace, forall_mem_cons]
  exact ⟨trivial, trivial, ⟨refusalBytes, rfl, by decide +kernel⟩, trivial, trivial,
    forall_mem_nil _⟩

end MitosNetwork.Traffic
