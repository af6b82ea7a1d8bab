import MitosNetwork.Ipc.Traffic

/-!
# The invariant of the system

What holds after every run, whatever the interleaving: every connection's account is right
(`Conn.Accounts`), with the events of its subscription as the ones that were sent to it; the bus is
what was seen of it (`Tracks`); and what a connection waits for is to come exactly once (`Serves`).
-/

namespace MitosNetwork.Traffic

open Session Protocol List State Subscription

variable {json : Json ServerMessage} {s t : State} {action : Action} {trace seen : List Observation}

/-! ## The event bus -/

theorem seenBy_append (c : ℕ) : seenBy c (trace ++ seen) = seenBy c trace ++ seenBy c seen :=
  filterMap_append

theorem handledFor_append (c : ℕ) :
    handledFor c (trace ++ seen) = handledFor c trace ++ handledFor c seen :=
  filterMap_append

/-- What one connection has seen is seen by no other. -/
theorem seenBy_map_conn (c c' : ℕ) (more : List Seen) :
    seenBy c' (more.map (.conn c)) = if c = c' then more else [] := by
  induction more with
  | nil => simp [seenBy]
  | cons x more ih =>
    rw [seenBy] at ih
    rw [seenBy, map_cons, filterMap_cons, ih]
    by_cases h : c = c' <;> simp [h]

theorem handledFor_map_conn (c c' : ℕ) (more : List Seen) :
    handledFor c' (more.map (.conn c)) = [] := by
  simp [handledFor, filterMap_map]

theorem subscription_append (id : ℕ) :
    subscription id (trace ++ seen) = seen.foldl (see id) (subscription id trace) :=
  foldl_append

theorem subscription_concat (id : ℕ) (o : Observation) :
    subscription id (trace ++ [o]) = (subscription id trace).see id o :=
  subscription_append id

/-- A subscription does not change with what the connections see. -/
theorem subscription_append_conn (id c : ℕ) (more : List Seen) :
    subscription id (trace ++ more.map (.conn c)) = subscription id trace := by
  rw [subscription_append]
  induction more with
  | nil => rfl
  | cons x more ih => exact ih

/-- The bus is what the trace says: a client is in it exactly if it is registered, and a number that
was not given out yet was never seen. -/
structure Tracks (bus : EventBus) (trace : List Observation) : Prop where
  isOpen : ∀ id, (subscription id trace).isOpen = true ↔ id ∈ bus.clients.map EventClient.id
  unused : ∀ id, bus.nextId ≤ id → subscription id trace = ⟨false, []⟩

variable {bus : EventBus}

theorem Tracks.new : Tracks .new [] := ⟨by simp [subscription, EventBus.new], fun _ _ => rfl⟩

theorem Tracks.of_subscription {trace' : List Observation} (h : Tracks bus trace)
    (hsub : ∀ id, subscription id trace' = subscription id trace) : Tracks bus trace' :=
  ⟨fun id => by rw [hsub, h.isOpen], fun id hid => by rw [hsub, h.unused id hid]⟩

/-- The new number is open from then on, with no events yet. -/
theorem Tracks.register (h : Tracks bus trace) :
    Tracks bus.register (trace ++ [.registered bus.nextId]) := by
  constructor
  · intro id
    simp only [subscription_concat, see, EventBus.register]
    split
    · rename_i hid
      simp [hid]
    · rename_i hid
      rw [h.isOpen id]
      simp [Ne.symm hid]
  · intro id hid
    have hne : bus.nextId ≠ id := by
      rintro rfl
      exact Nat.not_succ_le_self _ hid
    rw [subscription_concat, see, if_neg hne]
    exact h.unused id (Nat.le_of_succ_le hid)

/-- A client that leaves is closed in both. -/
theorem Tracks.unregister (h : Tracks bus trace) (gone : ℕ) :
    Tracks (bus.unregister gone) (trace ++ [.unregistered gone]) := by
  constructor
  · intro id
    simp only [subscription_concat, see, EventBus.unregister]
    split
    · rename_i hid
      simp [hid]
    · rename_i hid
      rw [h.isOpen id]
      simp only [mem_map, mem_filter, decide_eq_true_eq]
      constructor
      · rintro ⟨client, hclient, rfl⟩
        exact ⟨client, ⟨hclient, Ne.symm hid⟩, rfl⟩
      · rintro ⟨client, ⟨hclient, -⟩, hid⟩
        exact ⟨client, hclient, hid⟩
  · intro id hid
    rw [subscription_concat, see, h.unused id hid, ite_self]

theorem ids_broadcast (bus : EventBus) (event : Event) :
    (bus.broadcast (fun _ => true) event).clients.map EventClient.id =
      bus.clients.map EventClient.id := by
  simp [EventBus.broadcast]

/-- A broadcast goes to the open ones, and closes none. -/
theorem Tracks.broadcast (h : Tracks bus trace) (event : Event) :
    Tracks (bus.broadcast (fun _ => true) event) (trace ++ [.broadcast event]) := by
  constructor
  · intro id
    rw [subscription_concat, ids_broadcast, ← h.isOpen id, see]
    split <;> rfl
  · intro id hid
    rw [subscription_concat, see, h.unused id hid]
    exact if_neg Bool.false_ne_true

theorem sentTo_congr {trace' : List Observation} {id : Option ℕ}
    (h : ∀ n, id = some n → (subscription n trace').events = (subscription n trace).events) :
    sentTo id trace' = sentTo id trace := by
  cases id with
  | none => rfl
  | some n => exact h n rfl

/-- A registration clears the events of its own number only. -/
theorem sentTo_registered_of_ne {new : ℕ} {id : Option ℕ} (h : id ≠ some new) :
    sentTo id (trace ++ [.registered new]) = sentTo id trace := by
  refine sentTo_congr fun n hn => ?_
  have hne : new ≠ n := fun heq => h (heq ▸ hn)
  rw [subscription_concat, see, if_neg hne]

theorem Tracks.sentTo_registered (h : Tracks bus trace) :
    sentTo (some bus.nextId) (trace ++ [.registered bus.nextId]) = [] := by
  rw [sentTo, between, subscription_concat, see, if_pos rfl, h.unused _ le_rfl]

theorem sentTo_unregistered (gone : ℕ) (id : Option ℕ) :
    sentTo id (trace ++ [.unregistered gone]) = sentTo id trace := by
  refine sentTo_congr fun n _ => ?_
  rw [subscription_concat, see]
  split <;> rfl

/-! ## What connections wait for -/

@[simp] def Command.awaitedBy (c : ℕ) : Command → Option Awaited
  | .request c' req _ => if c' = c then some (.response req) else none
  | .registerEventClient c' => if c' = c then some .registration else none
  | _ => none

/-- The command the manager is at and those in its channel. -/
def State.outstanding (s : State) : List Command := s.busy.toList ++ s.queue

/-- What is to come for a connection. -/
def State.awaited (s : State) (c : ℕ) : List Awaited :=
  s.outstanding.filterMap (Command.awaitedBy c)

/-- What a connection sends is awaited by that connection alone. -/
theorem filterMap_awaitedBy_command (c c' : ℕ) (peer : PeerIdentity) (sends : List Send) :
    (sends.map (command c peer)).filterMap (Command.awaitedBy c') =
      if c = c' then sends.filterMap Send.awaited else [] := by
  induction sends with
  | nil => simp
  | cons send sends ih =>
    rw [map_cons, filterMap_cons, filterMap_cons, ih]
    cases send <;> by_cases h : c = c' <;> simp [h, command, Send.awaited]

/-- While the manager is there: what a connection waits for is to come, exactly once, and nobody has
given up. -/
structure Serves (s : State) (trace : List Observation) : Prop where
  awaited : ∀ c, s.awaited c = (s.conns[c]?.map Conn.awaited).getD []
  hopeful : ∀ {c : ℕ} {conn : Conn}, s.conns[c]? = some conn → conn.handler.Hopeful
  replied : ∀ c req db, .answered req db .noReply ∉ seenBy c trace

/-- The invariant of the system. -/
structure Inv (json : Json ServerMessage) (s : State) (trace : List Observation) : Prop where
  accounts : ∀ {c : ℕ} {conn : Conn}, s.conns[c]? = some conn →
    ∃ unread, conn.Accounts json (seenBy c trace) (sentTo conn.clientId trace) unread
  unseen : ∀ c, s.conns.length ≤ c → seenBy c trace = []
  tracks : Tracks s.bus trace
  ids : ∀ {c id : ℕ} {conn : Conn}, s.conns[c]? = some conn → conn.clientId = some id →
    id < s.bus.nextId
  distinct : ∀ {c c' id : ℕ} {conn conn' : Conn}, s.conns[c]? = some conn →
    s.conns[c']? = some conn' → conn.clientId = some id → conn'.clientId = some id → c = c'
  serves : s.running = true → Serves s trace
  busy : ∀ {cmd : Command}, s.busy = some cmd → s.running = true ∧ cmd.lasting = true
  handled : ∀ c, handledFor c trace = (answers (seenBy c trace)).filterMap managed
  lawful : ∀ {c : ℕ} {conn : Conn}, s.conns[c]? = some conn → conn.Lawful (seenBy c trace)

theorem inv_init : Inv json .init [] where
  accounts := by simp [init]
  unseen := fun _ _ => rfl
  tracks := .new
  ids := by simp [init]
  distinct := by simp [init]
  serves := fun _ => ⟨fun _ => rfl, by simp [init], by simp [seenBy]⟩
  busy := fun h => by cases h
  handled := fun _ => rfl
  lawful := by simp [init]

/-- A connection of the new state is the one that was placed, or an old one. -/
theorem eq_or_getElem?_of_getElem? {conns conns' : List Conn} {c c' : ℕ} {conn conn' : Conn}
    (hget : ∀ c' : ℕ, conns'[c']? = if c = c' then some conn else conns[c']?)
    (h : conns'[c']? = some conn') : c = c' ∧ conn' = conn ∨ c ≠ c' ∧ conns[c']? = some conn' := by
  rw [hget] at h
  split at h
  · exact .inl ⟨‹_›, (Option.some.inj h).symm⟩
  · exact .inr ⟨‹_›, h⟩

theorem getElem?_set_of_some {conns : List Conn} {c : ℕ} {conn : Conn}
    (h : conns[c]? = some conn) (conn' : Conn) (c' : ℕ) :
    (conns.set c conn')[c']? = if c = c' then some conn' else conns[c']? := by
  have hlen : c < conns.length := (List.getElem?_eq_some_iff.mp h).1
  rw [getElem?_set, if_pos hlen]

/-! ## One connection is new or goes on -/

section Place

variable {s' : State} {trace' : List Observation} {c : ℕ} {conn : Conn}
  (hget : ∀ c' : ℕ, s'.conns[c']? = if c = c' then some conn else s.conns[c']?)
  (hseen : ∀ c', c ≠ c' → seenBy c' trace' = seenBy c' trace)
include hget hseen

/-- It is enough to look at the connection that was placed. -/
theorem Serves.place (h : Serves s trace)
    (hawaited : ∀ c', s'.awaited c' = if c = c' then conn.awaited else s.awaited c')
    (hhopeful : conn.handler.Hopeful)
    (hreplied : ∀ req db, .answered req db .noReply ∉ seenBy c trace') : Serves s' trace' := by
  refine ⟨fun c' => ?_, fun hconn' => ?_, fun c' req db => ?_⟩
  · rw [hawaited, hget]
    split
    · rfl
    · exact h.awaited c'
  · rcases eq_or_getElem?_of_getElem? hget hconn' with ⟨-, rfl⟩ | ⟨-, hold⟩
    · exact hhopeful
    · exact h.hopeful hold
  · by_cases hc : c = c'
    · exact hc ▸ hreplied req db
    · rw [hseen c' hc]
      exact h.replied c' req db

/-- The invariant, when one connection is replaced or added and the others see nothing. -/
theorem Inv.place (h : Inv json s trace)
    (hsent : ∀ {c' conn'}, s.conns[c']? = some conn' → c ≠ c' →
      sentTo conn'.clientId trace' = sentTo conn'.clientId trace)
    (haccounts : ∃ unread,
      conn.Accounts json (seenBy c trace') (sentTo conn.clientId trace') unread)
    (hlawful : conn.Lawful (seenBy c trace')) (htracks : Tracks s'.bus trace')
    (hnext : s.bus.nextId ≤ s'.bus.nextId)
    (hid : ∀ id, conn.clientId = some id → id < s'.bus.nextId ∧
      ∀ {c' conn'}, s.conns[c']? = some conn' → conn'.clientId = some id → c = c')
    (hserves : s'.running = true → Serves s' trace')
    (hbusy : ∀ {cmd}, s'.busy = some cmd → s'.running = true ∧ cmd.lasting = true)
    (hhandled : ∀ c', handledFor c' trace' = (answers (seenBy c' trace')).filterMap managed) :
    Inv json s' trace' := by
  refine ⟨fun {c' conn'} hconn' => ?_, fun c' hc' => ?_, htracks, fun hconn' hclient => ?_,
    fun {c' c'' id _ _} hconn' hconn'' hclient hclient' => ?_, hserves, hbusy, hhandled,
    fun {c' conn'} hconn' => ?_⟩
  · rcases eq_or_getElem?_of_getElem? hget hconn' with ⟨rfl, rfl⟩ | ⟨hc, hold⟩
    · exact haccounts
    · rw [hseen c' hc, hsent hold hc]
      exact h.accounts hold
  · have hnone := getElem?_eq_none hc'
    rw [hget] at hnone
    split at hnone
    · cases hnone
    · rw [hseen c' ‹_›, h.unseen c' (List.getElem?_eq_none_iff.mp hnone)]
  · rcases eq_or_getElem?_of_getElem? hget hconn' with ⟨-, rfl⟩ | ⟨-, hold⟩
    · exact (hid _ hclient).1
    · exact (h.ids hold hclient).trans_le hnext
  · rcases eq_or_getElem?_of_getElem? hget hconn' with ⟨rfl, rfl⟩ | ⟨-, hold⟩
    · rcases eq_or_getElem?_of_getElem? hget hconn'' with ⟨hc, -⟩ | ⟨-, hold'⟩
      · exact hc
      · exact (hid id hclient).2 hold' hclient'
    · rcases eq_or_getElem?_of_getElem? hget hconn'' with ⟨rfl, rfl⟩ | ⟨-, hold'⟩
      · exact ((hid id hclient').2 hold hclient).symm
      · exact h.distinct hold hold' hclient hclient'
  · rcases eq_or_getElem?_of_getElem? hget hconn' with ⟨rfl, rfl⟩ | ⟨hc, hold⟩
    · exact hlawful
    · rw [hseen c' hc]
      exact h.lawful hold

end Place

namespace Inv

variable {eff : Effect} {s' : State} {identity : PeerIdentity} {req : Request} {rest : List Command}

variable {c : ℕ}

theorem awaitedBy_of_own {cmd : Command} (h : cmd.own = true) (c : ℕ) : cmd.awaitedBy c = none := by
  cases cmd <;> first | rfl | cases h

variable (h : Inv json s trace)
include h

/-- A new connection awaits its registration, which is the last command of the queue. -/
theorem accept (hrun : s.running = true) (peer : PeerIdentity) :
    Inv json
      { s with
        conns := s.conns ++ [Conn.accept peer]
        queue := s.queue ++ [.registerEventClient s.conns.length] } (trace ++ []) := by
  rw [append_nil]
  have hserves := h.serves hrun
  have hunseen := h.unseen _ le_rfl
  -- The new connection is the last one.
  have hget : ∀ c : ℕ, (s.conns ++ [Conn.accept peer])[c]? =
      if s.conns.length = c then some (Conn.accept peer) else s.conns[c]? := by
    intro c
    rcases lt_trichotomy c s.conns.length with hc | rfl | hc
    · rw [getElem?_append_left hc, if_neg hc.ne']
    · rw [getElem?_concat_length, if_pos rfl]
    · rw [getElem?_eq_none (by rw [length_append]; exact hc), if_neg hc.ne, getElem?_eq_none hc.le]
  refine h.place hget (fun _ _ => rfl) (fun _ _ => rfl) ?_ ?_ h.tracks le_rfl (fun _ hid => ?_)
    (fun _ => hserves.place hget (fun _ _ => rfl) (fun c => ?_) ?_ (hserves.replied _)) h.busy
    h.handled
  · rw [hunseen]
    exact ⟨[], Conn.accounts_accept peer⟩
  · rw [hunseen]
    exact ⟨by simp, by simp [Conn.accept]⟩
  · cases hid
  · have hold := hserves.awaited c
    rw [awaited, outstanding] at hold ⊢
    rw [← append_assoc, filterMap_append]
    split
    · rename_i hc
      rw [hold]
      simp [hc, Conn.awaited, Conn.accept]
    · rename_i hc
      simp [hc, awaited, outstanding]
  · simp [Conn.accept, Handler.Hopeful]

/-- The invariant, when a connection takes a step and the bus stays as it is. -/
theorem set {trace' : List Observation} {conn : Conn} (hconn : s.conns[c]? = some conn)
    (hconns : s'.conns = s.conns.set c eff.conn) (hbus : s'.bus = s.bus)
    (hid : eff.conn.clientId = conn.clientId)
    (hlawful : eff.conn.Lawful (seenBy c trace ++ eff.seen)) (haccounts : ∃ unread,
      eff.conn.Accounts json (seenBy c trace ++ eff.seen) (sentTo conn.clientId trace) unread)
    (hseen : ∀ c', seenBy c' trace' = seenBy c' trace ++ if c = c' then eff.seen else [])
    (hsub : ∀ id, subscription id trace' = subscription id trace)
    (hrunning : s'.running = true → s.running = true) (hserves : s'.running = true →
      (∀ c', s'.awaited c' = if c = c' then eff.conn.awaited else s.awaited c') ∧
      eff.conn.handler.Hopeful ∧ ∀ req db, .answered req db .noReply ∉ eff.seen)
    (hbusy : ∀ {cmd}, s'.busy = some cmd → s'.running = true ∧ cmd.lasting = true)
    (hhandled : ∀ c', handledFor c' trace' = (answers (seenBy c' trace')).filterMap managed) :
    Inv json s' trace' := by
  have hget : ∀ c' : ℕ, s'.conns[c']? = if c = c' then some eff.conn else s.conns[c']? :=
    hconns ▸ getElem?_set_of_some hconn eff.conn
  have hown : seenBy c trace' = seenBy c trace ++ eff.seen := by rw [hseen, if_pos rfl]
  have hothers : ∀ c', c ≠ c' → seenBy c' trace' = seenBy c' trace := fun c' hc => by
    rw [hseen, if_neg hc, append_nil]
  have hsent : ∀ id, sentTo id trace' = sentTo id trace := fun _ =>
    sentTo_congr fun id _ => congrArg _ (hsub id)
  refine h.place hget hothers (fun _ _ => hsent _) ?_ ?_
    (hbus ▸ h.tracks.of_subscription hsub) (by rw [hbus]) (fun id hclient => ?_) (fun hrun => ?_)
    hbusy hhandled
  · rw [hown, hid, hsent]
    exact haccounts
  · rw [hown]
    exact hlawful
  · rw [hid] at hclient
    rw [hbus]
    exact ⟨h.ids hconn hclient, fun hold hold' => h.distinct hconn hold hclient hold'⟩
  · obtain ⟨hawaited, hhopeful, hreplied⟩ := hserves hrun
    refine (h.serves (hrunning hrun)).place hget hothers hawaited hhopeful fun req db hmem => ?_
    rw [hown, mem_append] at hmem
    exact hmem.elim ((h.serves (hrunning hrun)).replied c req db) (hreplied req db)

/-- A step of a connection. -/
theorem conn {conn : Conn} {action : Session.Action} (hjson : json.RoundTrips)
    (hconn : s.conns[c]? = some conn) (hstep : conn.step json s.running action = some eff) :
    Inv json (s.apply c eff).1 (trace ++ (s.apply c eff).2) := by
  obtain ⟨unread, haccounts⟩ := h.accounts hconn
  have hseen : ∀ c', seenBy c' (trace ++ eff.seen.map (.conn c)) =
      seenBy c' trace ++ if c = c' then eff.seen else [] := by
    intro c'
    rw [seenBy_append, seenBy_map_conn]
  refine h.set hconn rfl rfl (Conn.clientId_step hstep) ((h.lawful hconn).step hstep)
    (haccounts.step hjson hstep) hseen (fun id => subscription_append_conn id c eff.seen) id ?_
    h.busy ?_
  · intro hrun
    have hserves := h.serves hrun
    change s.running = true at hrun
    rw [hrun] at hstep
    have hgoes := Conn.goes_of_step haccounts.phases hstep
    refine ⟨fun c' => ?_, hgoes.hopeful (hserves.hopeful hconn), hgoes.replied⟩
    -- What the step sends goes to the end of the queue, and is awaited from then on.
    have hcmd := filterMap_awaitedBy_command c c' eff.conn.peer eff.sends
    have hsplit : (s.apply c eff).1.awaited c' =
        s.awaited c' ++ if c = c' then eff.sends.filterMap Send.awaited else [] := by
      rw [← hcmd, awaited, awaited, outstanding, outstanding, ← filterMap_append, append_assoc]
      rfl
    rw [hsplit]
    split
    · rename_i hc
      subst hc
      rw [hgoes.awaited, hserves.awaited, hconn]
      rfl
    · rw [append_nil]
  · intro c'
    change handledFor c' (trace ++ eff.seen.map (.conn c)) =
      (answers (seenBy c' (trace ++ eff.seen.map (.conn c)))).filterMap managed
    rw [handledFor_append, handledFor_map_conn, append_nil, hseen, h.handled]
    split
    · rw [answers_append, filterMap_append, Conn.managed_step hstep, append_nil]
    · rw [append_nil]

/-- The connection whose request the manager is at waits for that response and nothing else. -/
theorem awaited_of_busy {conn : Conn}
    (hbusy : s.busy = some (.request c req identity)) (hconn : s.conns[c]? = some conn) :
    (∃ db, conn.handler = .waiting db req) ∧ s.queue.filterMap (Command.awaitedBy c) = [] := by
  have hawaited := (h.serves (h.busy hbusy).1).awaited c
  rw [awaited, outstanding, hbusy, hconn] at hawaited
  simp only [Option.toList_some, cons_append, nil_append, filterMap_cons,
    Command.awaitedBy, if_pos, Option.map_some] at hawaited
  unfold Conn.awaited at hawaited
  split at hawaited
  · cases hawaited
  · obtain ⟨hreq, hqueue⟩ := List.cons.inj hawaited
    cases hreq
    exact ⟨⟨_, ‹_›⟩, hqueue⟩
  · cases hawaited

/-- The manager's response. It reaches a connection that waits for it. -/
theorem reply {conn : Conn} (hbusy : s.busy = some (.request c req identity))
    (hconn : s.conns[c]? = some conn) (response : Response) :
    Inv json ({ s with busy := none }.apply c (conn.reply response)).1
      (trace ++
        .handled c req response :: ({ s with busy := none }.apply c (conn.reply response)).2) := by
  obtain ⟨unread, haccounts⟩ := h.accounts hconn
  obtain ⟨⟨db, hhandler⟩, hqueue⟩ := h.awaited_of_busy hbusy hconn
  have hcheck := (h.lawful hconn).waiting db req hhandler
  have hreplied := haccounts.reply response
  have heff : conn.reply response =
      ⟨{ conn with handler := .responding response }, [],
        [.answered req db (.manager response)]⟩ := by
    rw [Conn.reply, hhandler]
  rw [heff] at hreplied ⊢
  set eff : Effect :=
    ⟨{ conn with handler := .responding response }, [], [.answered req db (.manager response)]⟩
  have hlawful : eff.conn.Lawful (seenBy c trace ++ eff.seen) :=
    (h.lawful hconn).next rfl (by simp +contextual [eff, hcheck, Answer.Follows]) (by simp [eff])
  have hseen : ∀ c', seenBy c' (trace ++ .handled c req response :: eff.seen.map (.conn c)) =
      seenBy c' trace ++ if c = c' then eff.seen else [] := by
    intro c'
    rw [seenBy_append, ← seenBy_map_conn]
    rfl
  have hsub : ∀ id, subscription id (trace ++ .handled c req response :: eff.seen.map (.conn c)) =
      subscription id trace := by
    intro id
    rw [subscription_append]
    rfl
  refine h.set hconn rfl rfl rfl hlawful ⟨unread, hreplied⟩ hseen hsub id
    (fun _ => ⟨fun c' => ?_, by simp [eff, Handler.Hopeful], by simp [eff]⟩)
    (fun hcmd => by cases hcmd) ?_
  · -- The response was all that was to come for this connection.
    have hafter : ({ s with busy := none }.apply c eff).1.awaited c' =
        s.queue.filterMap (Command.awaitedBy c') := by
      simp [awaited, outstanding, apply, eff]
    rw [hafter]
    split
    · rename_i hc
      rw [← hc, hqueue]
      rfl
    · rename_i hc
      simp [awaited, outstanding, hbusy, hc]
  · intro c'
    change handledFor c' (trace ++ .handled c req response :: eff.seen.map (.conn c)) =
      (answers (seenBy c' (trace ++ .handled c req response :: eff.seen.map (.conn c)))).filterMap
        managed
    rw [handledFor_append, h.handled, hseen]
    by_cases hc : c = c' <;> simp [handledFor, eff, hc, managed, filterMap_cons]

/-- The invariant, when only the queue and the manager's command change. -/
theorem setQueue (hconns : s'.conns = s.conns) (hbus : s'.bus = s.bus)
    (hrunning : s'.running = true → s.running = true)
    (hawaited : s'.running = true → ∀ c, s'.awaited c = s.awaited c)
    (hbusy : ∀ {cmd}, s'.busy = some cmd → s'.running = true ∧ cmd.lasting = true) :
    Inv json s' (trace ++ []) := by
  obtain ⟨conns, queue, busy, bus, running⟩ := s'
  cases hconns
  cases hbus
  rw [append_nil]
  refine { h with serves := fun hrun => ?_, busy := hbusy }
  have hserves := h.serves (hrunning hrun)
  exact { hserves with awaited := fun c => (hawaited hrun c).trans (hserves.awaited c) }

/-- A registration at the head of the queue is of a connection that still waits for it. -/
theorem registering_of_queue (hrun : s.running = true) (hbusy : s.busy = none)
    (hqueue : s.queue = .registerEventClient c :: rest) :
    ∃ conn, s.conns[c]? = some conn ∧ conn.handler = .registering ∧ conn.clientId = none ∧
      rest.filterMap (Command.awaitedBy c) = [] := by
  have hawaited := (h.serves hrun).awaited c
  rw [awaited, outstanding, hbusy, hqueue] at hawaited
  simp only [Option.toList_none, nil_append, filterMap_cons, Command.awaitedBy, if_pos] at hawaited
  cases hconn : s.conns[c]? with
  | none =>
    rw [hconn] at hawaited
    cases hawaited
  | some conn =>
    rw [hconn] at hawaited
    change _ = conn.awaited at hawaited
    unfold Conn.awaited at hawaited
    split at hawaited
    · exact ⟨conn, rfl, ‹_›, ‹_›, (List.cons.inj hawaited).2⟩
    · cases (List.cons.inj hawaited).1
    · cases hawaited

/-- The manager registers a connection. -/
theorem register (hrun : s.running = true) (hbusy : s.busy = none)
    (hqueue : s.queue = .registerEventClient c :: rest) :
    Inv json
      { s with
        conns := s.conns.modify c (Conn.registered s.bus.nextId)
        queue := rest
        bus := s.bus.register } (trace ++ [.registered s.bus.nextId]) := by
  have hserves := h.serves hrun
  obtain ⟨conn, hconn, hhandler, hid, hrest⟩ := h.registering_of_queue hrun hbusy hqueue
  have hseen : ∀ c', seenBy c' (trace ++ [.registered s.bus.nextId]) = seenBy c' trace := by
    intro c'
    rw [seenBy_append]
    exact append_nil _
  have hget : ∀ c' : ℕ, (s.conns.modify c (Conn.registered s.bus.nextId))[c']? =
      if c = c' then some (conn.registered s.bus.nextId) else s.conns[c']? := by
    intro c'
    by_cases hc : c = c'
    · subst hc
      simp [hconn]
    · simp [hc]
  refine h.place hget (fun c' _ => hseen c') (fun hold _ => ?_) ?_ ?_ h.tracks.register
    (Nat.le_succ _) (fun id hclient => ?_) (fun _ => hserves.place hget (fun c' _ => hseen c')
      (fun c' => ?_) ?_ fun req db => ?_) h.busy fun c' => ?_
  · -- The other connections have another number.
    exact sentTo_registered_of_ne fun hnew => (h.ids hold hnew).ne rfl
  · obtain ⟨unread, haccounts⟩ := h.accounts hconn
    rw [hid] at haccounts
    rw [hseen]
    exact ⟨unread, h.tracks.sentTo_registered ▸ haccounts.registered s.bus.nextId⟩
  · rw [hseen]
    exact ⟨(h.lawful hconn).answered, (h.lawful hconn).waiting⟩
  · cases hclient
    exact ⟨Nat.lt_succ_self _, fun hold hold' => absurd (h.ids hold hold') (Nat.lt_irrefl _)⟩
  · rw [awaited, outstanding, hbusy]
    split
    · rename_i hc
      rw [← hc]
      simp [hrest, Conn.awaited, Conn.registered, hhandler]
    · rename_i hc
      simp [hc, awaited, outstanding, hbusy, hqueue]
  · change conn.handler.Hopeful
    exact hserves.hopeful hconn
  · rw [hseen]
    exact hserves.replied c req db
  · rw [hseen, handledFor_append, ← h.handled]
    exact append_nil _

/-- The invariant, when the bus changes and what a connection has received, but not where it is. -/
theorem setBus {o : Observation} {update : Conn → Conn}
    (hconns : s'.conns = s.conns.map update) (hnext : s'.bus.nextId = s.bus.nextId)
    (hbusy : s'.busy = s.busy) (hrunning : s'.running = s.running)
    (hawaited : ∀ c, s'.awaited c = s.awaited c)
    (hhandler : ∀ conn, (update conn).handler = conn.handler)
    (hid : ∀ conn, (update conn).clientId = conn.clientId)
    (hpeer : ∀ conn, (update conn).peer = conn.peer) (hseen : ∀ c, o.seenBy c = none)
    (hhandled : ∀ c, o.handledFor c = none) (htracks : Tracks s'.bus (trace ++ [o]))
    (haccounts : ∀ {c : ℕ} {conn : Conn} {unread : List ServerMessage},
      conn.Accounts json (seenBy c trace) (sentTo conn.clientId trace) unread →
      (update conn).Accounts json (seenBy c trace) (sentTo conn.clientId (trace ++ [o])) unread) :
    Inv json s' (trace ++ [o]) := by
  have hseenBy : ∀ c, seenBy c (trace ++ [o]) = seenBy c trace := by
    intro c
    have hnone : seenBy c [o] = [] := filterMap_cons_none (hseen c)
    rw [seenBy_append, hnone, append_nil]
  have hget : ∀ {c : ℕ} {conn' : Conn}, s'.conns[c]? = some conn' →
      ∃ conn, s.conns[c]? = some conn ∧ update conn = conn' := by
    intro c conn' hconn'
    rwa [hconns, getElem?_map, Option.map_eq_some_iff] at hconn'
  refine ⟨?_, ?_, htracks, ?_, ?_, ?_, ?_, ?_, ?_⟩
  · intro c conn' hconn'
    obtain ⟨conn, hconn, rfl⟩ := hget hconn'
    obtain ⟨unread, hold⟩ := h.accounts hconn
    rw [hseenBy, hid]
    exact ⟨unread, haccounts hold⟩
  · intro c hc
    rw [hconns, length_map] at hc
    rw [hseenBy, h.unseen c hc]
  · intro c id conn' hconn' hclient
    obtain ⟨conn, hconn, rfl⟩ := hget hconn'
    rw [hnext]
    exact h.ids hconn (hid conn ▸ hclient)
  · intro c c' id conn' conn'' hconn' hconn'' hclient' hclient''
    obtain ⟨conn, hconn, rfl⟩ := hget hconn'
    obtain ⟨other, hothers, rfl⟩ := hget hconn''
    exact h.distinct hconn hothers (hid conn ▸ hclient') (hid other ▸ hclient'')
  · intro hrun
    have hserves := h.serves (hrunning ▸ hrun)
    refine ⟨?_, ?_, ?_⟩
    · intro c
      have hsame : Conn.awaited ∘ update = Conn.awaited := by
        funext conn
        rw [Function.comp_apply, Conn.awaited, Conn.awaited, hhandler, hid]
      rw [hawaited, hserves.awaited, hconns, getElem?_map, Option.map_map, hsame]
    · intro c conn' hconn'
      obtain ⟨conn, hconn, rfl⟩ := hget hconn'
      rw [hhandler]
      exact hserves.hopeful hconn
    · intro c req db
      rw [hseenBy]
      exact hserves.replied c req db
  · intro cmd hcmd
    rw [hrunning]
    exact h.busy (hbusy ▸ hcmd)
  · intro c
    have hnone : handledFor c [o] = [] := filterMap_cons_none (hhandled c)
    rw [hseenBy, ← h.handled, handledFor_append, hnone, append_nil]
  · intro c conn' hconn'
    obtain ⟨conn, hconn, rfl⟩ := hget hconn'
    rw [hseenBy, ← append_nil (seenBy c trace)]
    exact (h.lawful hconn).next (hpeer conn) (by simp) (by simp +contextual [hhandler])

/-- The manager removes a client. -/
theorem unregister {id : ℕ} (hqueue : s.queue = .unregisterEventClient id :: rest) :
    Inv json { s with queue := rest, bus := s.bus.unregister id }
      (trace ++ [.unregistered id]) := by
  refine h.setBus (map_id _).symm rfl rfl rfl ?_ (fun _ => rfl) (fun _ => rfl) (fun _ => rfl)
    (fun _ => rfl) (fun _ => rfl) (h.tracks.unregister id) ?_
  · intro c
    simp [awaited, outstanding, hqueue, filterMap_cons]
  · intro c conn unread haccounts
    rw [sentTo_unregistered]
    exact haccounts

/-- An event goes to the channels of all that are registered. -/
theorem broadcast (event : Event) :
    Inv json
      { s with
        conns := s.conns.map fun conn => if s.subscribed conn then conn.push event else conn
        bus := s.bus.broadcast (fun _ => true) event } (trace ++ [.broadcast event]) := by
  refine h.setBus rfl rfl rfl rfl (fun _ => rfl) ?_ ?_ ?_ (fun _ => rfl) (fun _ => rfl)
    (h.tracks.broadcast event) ?_
  · intro conn
    split <;> rfl
  · intro conn
    split <;> rfl
  · intro conn
    split <;> rfl
  · intro c conn unread haccounts
    cases hid : conn.clientId with
    | none =>
      have hsub : s.subscribed conn = false := by rw [subscribed, hid]; rfl
      rw [hsub]
      rw [hid] at haccounts
      exact haccounts
    | some id =>
      -- The bus and the trace agree on who is registered.
      have hsub : s.subscribed conn = (subscription id trace).isOpen := by
        rw [subscribed, hid, Bool.eq_iff_iff, h.tracks.isOpen]
        exact decide_eq_true_iff
      rw [sentTo, between, subscription_concat, hsub, see]
      rw [hid] at haccounts
      split
      · exact haccounts.push event
      · exact haccounts

/-- **Every step of the system keeps the invariant.** -/
theorem step (hjson : json.RoundTrips)
    (hstep : step json s action = some (t, seen)) : Inv json t (trace ++ seen) := by
  cases moves_of_step hstep with
  | accept hrun => exact h.accept hrun _
  | conn hconn hmove => exact h.conn hjson hconn hmove
  | post _ hown =>
    refine h.setQueue rfl rfl id (fun _ c => ?_) h.busy
    rw [awaited, awaited, outstanding, ← append_assoc, filterMap_append,
      filterMap_cons_none (awaitedBy_of_own hown c)]
    exact append_nil _
  | register hrun hbusy hqueue => exact h.register hrun hbusy hqueue
  | unregister _ _ hqueue => exact h.unregister hqueue
  | stop _ hbusy =>
    refine h.setQueue rfl rfl (fun h => by cases h) (fun h => by cases h) fun hcmd => ?_
    cases hbusy.symm.trans hcmd
  | start hrun hbusy hqueue hlasting =>
    refine h.setQueue rfl rfl id (fun _ c => ?_) fun hcmd => ?_
    · simp [awaited, outstanding, hbusy, hqueue]
    · cases hcmd
      exact ⟨hrun, hlasting⟩
  | broadcast => exact h.broadcast _
  | reply hbusy hconn => exact h.reply hbusy hconn _
  | done hbusy hown =>
    refine h.setQueue rfl rfl id (fun _ c => ?_) fun hcmd => by cases hcmd
    rw [awaited, awaited, outstanding, outstanding, hbusy]
    exact (filterMap_cons_none (awaitedBy_of_own hown c)).symm

end Inv

/-- The invariant holds after every run. -/
theorem inv_of_exec {actions : List Action} (hjson : json.RoundTrips)
    (hrun : Trace.exec (step json) init actions = some (s, trace)) : Inv json s trace :=
  Trace.exec_invariant (fun h hstep => Inv.step h hjson hstep) inv_init hrun

end MitosNetwork.Traffic
