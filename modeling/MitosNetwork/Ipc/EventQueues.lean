import MitosNetwork.Ipc.Delivery

/-!
# The queues of the events

`EventBus::register` (`src/manager/events.rs`) makes an unbounded channel for each client, and
`broadcast` puts every event into it, while `docs/security.md` says that the channel is bounded and
that events are dropped for a client that does not read. `pending_bounded_iff` says how many events
can be broadcast to a client before its channel can hold more than a bound.
-/

namespace MitosNetwork.Traffic

open Session Protocol List

variable {json : Json ServerMessage} {s t : State} {action : Action}
  {trace later seen : List Observation} {c : ℕ} {conn conn' : Conn}

/-! ## What is pending, and what was sent -/

/-- The events that were sent to a client are pending, or the event thread has taken them: they are
written, being written, or waiting for the lock. -/
theorem Inv.length_sentTo (h : Inv json s trace) (hconn : s.conns[c]? = some conn) :
    (sentTo conn.clientId trace).length = (events (writes (seenBy c trace))).length +
      ((events (unfinished conn.lock)).length + conn.forwarder.held.length) +
        conn.channel.length := by
  obtain ⟨unread, haccounts⟩ := h.accounts hconn
  rw [haccounts.events_eq, Conn.unwritten, length_append, length_append, length_append,
    ← Nat.add_assoc]

theorem Conn.channel_step {running : Bool} {action : Session.Action} {eff : Effect}
    (hstep : conn.step json running action = some eff) :
    eff.conn.channel.length ≤ conn.channel.length := by
  cases Session.moves_of_step hstep with
  | forward _ hchannel =>
    rw [hchannel]
    exact Nat.le_succ _
  | _ => exact le_rfl

/-- A step of the system is one of this connection, or what its event thread has taken stays as it
is. -/
theorem conn_of_moves (h : Moves json s action t seen) (hconn : s.conns[c]? = some conn) :
    ∃ conn', t.conns[c]? = some conn' ∧
      (conn'.lock = conn.lock ∧ conn'.forwarder = conn.forwarder ∧ writes (seenBy c seen) = [] ∨
        ∃ a eff, conn.step json s.running a = some eff ∧ conn' = eff.conn ∧
          seen = eff.seen.map (.conn c)) := by
  cases h with
  | accept =>
    have hlt : c < s.conns.length := (List.getElem?_eq_some_iff.mp hconn).1
    exact ⟨conn, (getElem?_append_left hlt).trans hconn, .inl ⟨rfl, rfl, rfl⟩⟩
  | @conn c' other action eff hother hstep =>
    by_cases hc : c' = c
    · subst hc
      obtain rfl : conn = other := Option.some.inj (hconn.symm.trans hother)
      refine ⟨eff.conn, ?_, .inr ⟨action, eff, hstep, rfl, rfl⟩⟩
      exact (getElem?_set_of_some hconn eff.conn c').trans (if_pos rfl)
    · refine ⟨conn, ?_, .inl ⟨rfl, rfl, ?_⟩⟩
      · exact (getElem?_set_of_some hother eff.conn c).trans ((if_neg hc).trans hconn)
      · rw [State.apply, seenBy_map_conn, if_neg hc]
        rfl
  | @register c' rest =>
    by_cases hc : c' = c
    · subst hc
      refine ⟨conn.registered s.bus.nextId, ?_, .inl ⟨rfl, rfl, rfl⟩⟩
      rw [getElem?_modify_eq, hconn]
      rfl
    · exact ⟨conn, (getElem?_modify_ne _ _ hc).trans hconn, .inl ⟨rfl, rfl, rfl⟩⟩
  | @broadcast event =>
    refine ⟨if s.subscribed conn then conn.push event else conn, ?_, .inl ?_⟩
    · rw [getElem?_map, hconn]
      rfl
    · split <;> exact ⟨rfl, rfl, rfl⟩
  | @reply c' req identity other response hbusy hother =>
    -- The reply is seen, but it changes neither the lock nor the event thread.
    have hreply : (other.reply response).conn.lock = other.lock ∧
        (other.reply response).conn.forwarder = other.forwarder ∧
        writes (other.reply response).seen = [] := by
      unfold Conn.reply
      split <;> exact ⟨rfl, rfl, rfl⟩
    have hseen : seenBy c (.handled c' req response :: (other.reply response).seen.map (.conn c')) =
        if c' = c then (other.reply response).seen else [] := seenBy_map_conn c' c _
    by_cases hc : c' = c
    · subst hc
      obtain rfl : conn = other := Option.some.inj (hconn.symm.trans hother)
      refine ⟨(conn.reply response).conn, ?_, .inl ⟨hreply.1, hreply.2.1, ?_⟩⟩
      · exact (getElem?_set_of_some hconn _ c').trans (if_pos rfl)
      · exact (congrArg writes (hseen.trans (if_pos rfl))).trans hreply.2.2
    · refine ⟨conn, ?_, .inl ⟨rfl, rfl, congrArg writes (hseen.trans (if_neg hc))⟩⟩
      exact (getElem?_set_of_some hother _ c).trans ((if_neg hc).trans hconn)
  | _ => exact ⟨conn, hconn, .inl ⟨rfl, rfl, rfl⟩⟩

/-- **A step makes no more events pending than it sends.** -/
theorem Inv.pending_step (hjson : json.RoundTrips) (h : Inv json s trace)
    (hstep : Traffic.step json s action = some (t, seen)) (hconn : s.conns[c]? = some conn) :
    ∃ conn', t.conns[c]? = some conn' ∧
      conn'.channel.length + (sentTo conn.clientId trace).length ≤
        conn.channel.length + (sentTo conn'.clientId (trace ++ seen)).length := by
  obtain ⟨conn', hconn', hcase⟩ := conn_of_moves (moves_of_step hstep) hconn
  refine ⟨conn', hconn', ?_⟩
  rcases hcase with ⟨hlock, hforwarder, hwrites⟩ | ⟨a, eff, ha, rfl, rfl⟩
  · have hsent := h.length_sentTo hconn
    have hsent' := (h.step hjson hstep).length_sentTo hconn'
    rw [hlock, hforwarder, seenBy_append, writes_append_of_silent hwrites] at hsent'
    omega
  · have hchannel := Conn.channel_step ha
    have hsent : sentTo eff.conn.clientId (trace ++ eff.seen.map (.conn c)) =
        sentTo conn.clientId trace := by
      rw [Conn.clientId_step ha]
      exact sentTo_congr fun id _ => congrArg _ (subscription_append_conn id c eff.seen)
    rw [hsent]
    omega

/-- **A run makes no more events pending than it sends.** -/
theorem Inv.pending_exec {after : List Action} (hjson : json.RoundTrips) (h : Inv json s trace)
    (hrun : Trace.exec (Traffic.step json) s after = some (t, later))
    (hconn : s.conns[c]? = some conn) (hconn' : t.conns[c]? = some conn') :
    conn'.channel.length + (sentTo conn.clientId trace).length ≤
      conn.channel.length + (sentTo conn'.clientId (trace ++ later)).length := by
  induction after generalizing s trace conn later with
  | nil =>
    cases hrun
    obtain rfl : conn = conn' := Option.some.inj (hconn.symm.trans hconn')
    rw [append_nil]
  | cons action after ih =>
    obtain ⟨mid, seen, rest, hstep, hrest, rfl⟩ := Trace.exec_cons hrun
    obtain ⟨next, hnext, hfirst⟩ := h.pending_step hjson hstep hconn
    have hothers := ih (h.step hjson hstep) hrest hnext
    rw [append_assoc] at hothers
    omega

/-! ## A client that does not read -/

theorem exec_broadcasts {cmd : Command} (hbusy : s.busy = some cmd) (hs : s.conns[c]? = some conn)
    (hsubscribed : s.subscribed conn = true) (event : Event) (n : ℕ) :
    ∃ t, Trace.exec (step json) s (List.replicate n (.broadcast event)) =
        some (t, List.replicate n (.broadcast event)) ∧
      let conn' := { conn with channel := conn.channel ++ List.replicate n event }
      t.conns[c]? = some conn' ∧ t.subscribed conn' = true := by
  induction n generalizing s conn with
  | zero => exact ⟨s, rfl, by simpa using hs, hsubscribed⟩
  | succ n ih =>
    let s' : State :=
      { s with
        conns := s.conns.map fun conn => if s.subscribed conn then conn.push event else conn
        bus := s.bus.broadcast (fun _ => true) event }
    have hstep : step json s (.broadcast event) = some (s', [.broadcast event]) := by
      rw [step, State.broadcast]
      split
      · rename_i hidle
        cases hbusy.symm.trans hidle
      · rfl
    have hs' : s'.conns[c]? = some (conn.push event) := by
      rw [getElem?_map, hs, Option.map_some, if_pos hsubscribed]
    have hsubscribed' : s'.subscribed (conn.push event) = true := by
      rw [State.subscribed, ids_broadcast]
      exact hsubscribed
    obtain ⟨t, hrun, hconn', hsub⟩ := ih (s := s') hbusy hs' hsubscribed'
    rw [Conn.push, append_assoc] at hconn'
    refine ⟨t, ?_, hconn', hsub⟩
    rw [replicate_succ, Trace.exec, hstep]
    dsimp only
    rw [hrun]
    rfl

theorem seenBy_broadcasts (event : Event) (n : ℕ) :
    seenBy c (List.replicate n (.broadcast event)) = [] := by
  rw [seenBy, filterMap_replicate_of_none rfl]

/-- **What is pending for a client that has stopped reading.** From a moment at which the manager is
at a command, the channel of a registered client stays within a bound in every continuation with at
most `n` events for the client if and only if what is pending at that moment and `n` are together
within the bound. -/
theorem pending_bounded_iff {before : List Action} {cmd : Command} (hjson : json.RoundTrips)
    (hbefore : Trace.exec (step json) State.init before = some (s, trace))
    (hconn : s.conns[c]? = some conn) (hsubscribed : s.subscribed conn = true)
    (hbusy : s.busy = some cmd) (n bound : ℕ) :
    (∀ after t later conn', (∀ action ∈ after, action ≠ .conn c .receive) →
      Trace.exec (step json) s after = some (t, later) → t.conns[c]? = some conn' →
      (sentTo conn'.clientId (trace ++ later)).length ≤ (sentTo conn.clientId trace).length + n →
        conn'.channel.length ≤ bound) ↔
      conn.channel.length + n ≤ bound := by
  have h : Inv json s trace := inv_of_exec hjson hbefore
  constructor
  · -- The manager broadcasts `n` events at once, before the event thread takes any.
    intro hbound
    obtain ⟨t, hrun, hconn', -⟩ := exec_broadcasts hbusy hconn hsubscribed (.deviceRemoved "") n
    have hinv' := Trace.exec_invariant (fun h hstep => Inv.step h hjson hstep) h hrun
    have hsent := h.length_sentTo hconn
    have hsent' := hinv'.length_sentTo hconn'
    rw [seenBy_append, seenBy_broadcasts, append_nil] at hsent'
    have hpending := hbound _ t _ _ ?_ hrun hconn' ?_
    · rwa [length_append, length_replicate] at hpending
    · intro action haction
      rw [eq_of_mem_replicate haction]
      exact nofun
    · dsimp only at hsent' ⊢
      rw [length_append, length_replicate] at hsent'
      omega
  · intro hle after t later conn' _ hrun hconn' hsent
    have hpending := h.pending_exec hjson hrun hconn hconn'
    omega

/-- A guest connects and is registered, and the manager begins with a command of its own. -/
def guestConnects : List Action :=
  [.accept guest, .take, .conn 0 .start, .tick .deviceRefresh, .take]

def guestConn : Conn :=
  { Conn.accept guest with handler := .reading, clientId := some 0, forwarder := .receiving }

def guestState : State :=
  ⟨[guestConn], [], some (.tick .deviceRefresh), EventBus.new.register, true⟩

theorem exec_guestConnects :
    Trace.exec (step threeMessages) State.init guestConnects =
      some (guestState, [.registered 0]) := rfl

/-- With a single event for it, the guest has at most one pending. -/
theorem pending_bounded_iff_guest :
    guestConn.channel = [] ∧ ∀ after t later conn', (∀ action ∈ after, action ≠ .conn 0 .receive) →
      Trace.exec (step threeMessages) guestState after = some (t, later) →
      t.conns[0]? = some conn' →
      (sentTo conn'.clientId ([.registered 0] ++ later)).length ≤ 1 → conn'.channel.length ≤ 1 :=
  have hguest : guestState.conns[0]? = some guestConn := rfl
  ⟨rfl, (pending_bounded_iff roundTrips_threeMessages exec_guestConnects hguest (by decide) rfl 1
    1).mpr (by decide)⟩

/-- **No bound holds.** -/
theorem no_bound_on_pending : ¬∃ bound, ∀ actions s trace conn,
    Trace.exec (step threeMessages) State.init actions = some (s, trace) → s.conns[0]? = some conn →
      s.subscribed conn = true → (∀ action ∈ actions, action ≠ .conn 0 .receive) →
        conn.channel.length ≤ bound := by
  rintro ⟨bound, hbound⟩
  have hguest : guestState.conns[0]? = some guestConn := rfl
  obtain ⟨t, hrun, hconn, hsubscribed⟩ :=
    exec_broadcasts rfl hguest (by decide) (.deviceRemoved "eth0") (bound + 1)
  have hpending := hbound _ t _ _ (Trace.exec_append exec_guestConnects hrun) hconn hsubscribed ?_
  · rw [length_append, length_replicate] at hpending
    omega
  · intro action haction
    rcases mem_append.mp haction with haction | haction
    · simp only [guestConnects, mem_cons, not_mem_nil, or_false] at haction
      rcases haction with rfl | rfl | rfl | rfl | rfl <;> nofun
    · rw [eq_of_mem_replicate haction]
      nofun

end MitosNetwork.Traffic
