import Mathlib.Data.List.Count
import Mathlib.Order.Nat
import MitosNetwork.Common.Machine

/-!
# The connection cap

The accept loop of `serve` and `ConnectionSlot` in `src/ipc/server.rs`: one acceptor and its handler
threads, which share the counter `active_connections`. Each action is one access to the counter or
one step of a thread between two accesses, and a run is any interleaving of them; an action whose
thread is somewhere else changes nothing.

A handler is live from its spawn until its `ConnectionSlot` is dropped, the last thing its closure
does. `Inv` says who owns the slots that are counted, and `inv_step` is the one step argument.
-/

namespace MitosNetwork.Ipc.Slots

/-- `MAX_CONNECTIONS`. -/
def maxConnections : UInt64 := 128

inductive Acceptor where
  /-- In `listener.incoming()`. -/
  | incoming
  /-- The claim did not land under the cap, and the slot is still counted. -/
  | capReached
  /-- The claim landed under the cap, and the handler is not spawned yet. -/
  | spawning
  /-- `spawn` returned an error, and the slot is still counted. -/
  | spawnFailed
  deriving DecidableEq

inductive Handler where
  /-- Spawned, and its closure has not run yet. -/
  | spawned
  /-- In `handle_connection`, with the `ConnectionSlot` on its stack. -/
  | serving
  /-- `handle_connection` has returned or panicked, and the `ConnectionSlot` is to be dropped. -/
  | leaving (panicked : Bool)
  | ended
  deriving DecidableEq

def Handler.isLive : Handler → Bool
  | .ended => false
  | _ => true

structure State where
  /-- `active_connections`: an `AtomicUsize`, so it wraps. -/
  counter : UInt64
  acceptor : Acceptor
  handlers : List Handler

namespace State

def initial : State := ⟨0, .incoming, []⟩

def live (s : State) : ℕ := s.handlers.countP Handler.isLive

def held (s : State) : ℕ :=
  match s.acceptor with
  | .incoming => 0
  | _ => 1

end State

inductive Action where
  /-- `accept` failed. -/
  | acceptFailed
  /-- A connection was accepted: its slot is claimed and the claim is compared with the cap. -/
  | accepted
  /-- The acceptor gives back the slot of a refused connection or of a failed spawn. -/
  | release
  | spawn
  | spawnFails
  /-- The closure of a handler begins. -/
  | begin (handler : ℕ)
  /-- `handle_connection` returns, or panics. -/
  | finish (handler : ℕ) (panicked : Bool)
  /-- The `ConnectionSlot` of a handler is dropped. -/
  | drop (handler : ℕ)
  deriving DecidableEq

/-- What an action did to the counter, with the value it found there. -/
inductive Access where
  | none
  | fetchAdd (prior : UInt64)
  | fetchSub (prior : UInt64)
  deriving DecidableEq

namespace State

variable (s : State)

/-- The slot of an accepted connection is claimed first, and the claim then compared with the cap.
-/
def accepted : State × Access :=
  match s.acceptor with
  | .incoming =>
    ({ s with
        counter := s.counter + 1
        acceptor := if s.counter ≥ maxConnections then .capReached else .spawning },
      .fetchAdd s.counter)
  | _ => (s, .none)

def giveBack : State × Access :=
  ({ s with counter := s.counter - 1, acceptor := .incoming }, .fetchSub s.counter)

def release : State × Access :=
  match s.acceptor with
  | .capReached => s.giveBack
  | .spawnFailed => s.giveBack
  | _ => (s, .none)

/-- `Builder::spawn` went well: the closure owns the connection from here on. -/
def spawn : State × Access :=
  match s.acceptor with
  | .spawning => ({ s with acceptor := .incoming, handlers := s.handlers ++ [.spawned] }, .none)
  | _ => (s, .none)

def spawnFails : State × Access :=
  match s.acceptor with
  | .spawning => ({ s with acceptor := .spawnFailed }, .none)
  | _ => (s, .none)

/-- A handler goes on to `next` if it is at `now`. -/
def move (i : ℕ) (now next : Handler) : State × Access :=
  if s.handlers[i]? = some now then ({ s with handlers := s.handlers.set i next }, .none)
  else (s, .none)

/-- `ConnectionSlot::drop`, at the end of a handler that returned as well as of one that panicked.
-/
def drop (i : ℕ) : State × Access :=
  match s.handlers[i]? with
  | some (.leaving _) =>
    ({ s with counter := s.counter - 1, handlers := s.handlers.set i .ended }, .fetchSub s.counter)
  | _ => (s, .none)

end State

def step (s : State) : Action → State × Access
  | .acceptFailed => (s, .none)
  | .accepted => s.accepted
  | .release => s.release
  | .spawn => s.spawn
  | .spawnFails => s.spawnFails
  | .begin i => s.move i .spawned .serving
  | .finish i panicked => s.move i .serving (.leaving panicked)
  | .drop i => s.drop i

open Machine State

/-! ## Who owns the counted slots -/

theorem countP_set {handlers : List Handler} {i : ℕ} {now : Handler} (next : Handler)
    (hi : handlers[i]? = some now) (hnow : now.isLive) :
    (handlers.set i next).countP Handler.isLive + 1 =
      handlers.countP Handler.isLive + if next.isLive then 1 else 0 := by
  obtain ⟨hlt, rfl⟩ := List.getElem?_eq_some_iff.mp hi
  have hpos : 0 < handlers.countP Handler.isLive :=
    List.countP_pos_iff.mpr ⟨_, List.getElem_mem hlt, hnow⟩
  rw [List.countP_set hlt, if_pos hnow]
  omega

/-- Every counted slot has one owner, and the acceptor only goes on to spawn while there is room.
-/
structure Inv (s : State) : Prop where
  counter_eq : s.counter.toNat = s.live + s.held
  live_le : s.live ≤ maxConnections.toNat
  room : s.acceptor = .spawning → s.live < maxConnections.toNat

theorem Inv.initial : Inv initial := ⟨rfl, Nat.zero_le _, nofun⟩

section

variable {s : State}

theorem held_le_one (s : State) : s.held ≤ 1 := by
  unfold State.held
  split <;> omega

theorem Inv.toNat_add (h : Inv s) : (s.counter + 1).toNat = s.counter.toNat + 1 := by
  have hcnt := h.counter_eq
  have hlive : s.live ≤ 128 := h.live_le
  have hheld := held_le_one s
  rw [UInt64.toNat_add, UInt64.toNat_one]
  omega

theorem toNat_sub {n : UInt64} (h : 0 < n.toNat) : (n - 1).toNat + 1 = n.toNat := by
  have hone : (1 : UInt64) ≤ n := UInt64.le_iff_toNat_le.mpr h
  rw [UInt64.toNat_sub_of_le _ _ hone, UInt64.toNat_one]
  omega

section

variable (h : Inv s)
include h

theorem Inv.counter_eq_live (hidle : s.acceptor = .incoming) : s.counter.toNat = s.live := by
  rw [h.counter_eq, State.held, hidle, Nat.add_zero]

theorem Inv.capReached_iff (hidle : s.acceptor = .incoming) :
    s.counter ≥ maxConnections ↔ s.live = maxConnections.toNat := by
  have hle := h.live_le
  rw [ge_iff_le, UInt64.le_iff_toNat_le, h.counter_eq_live hidle]
  omega

theorem Inv.accepted : Inv s.accepted.1 := by
  unfold State.accepted
  split
  next hidle =>
    have hcnt : (s.counter + 1).toNat = s.live + 1 := by
      rw [h.toNat_add, h.counter_eq_live hidle]
    have hcap := h.capReached_iff hidle
    have hle := h.live_le
    by_cases hfull : s.counter ≥ maxConnections
    · rw [if_pos hfull]
      exact ⟨hcnt, hle, nofun⟩
    · rw [if_neg hfull]
      exact ⟨hcnt, hle, fun _ => lt_of_le_of_ne hle fun heq => hfull (hcap.mpr heq)⟩
  next => exact h

theorem Inv.giveBack (hheld : s.held = 1) : Inv s.giveBack.1 := by
  have hcnt := h.counter_eq
  have hsub := toNat_sub (n := s.counter) (by omega)
  refine ⟨?_, h.live_le, nofun⟩
  show (s.counter - 1).toNat = s.live + 0
  omega

theorem Inv.release : Inv s.release.1 := by
  unfold State.release
  split
  next hat => exact h.giveBack (by rw [State.held, hat])
  next hat => exact h.giveBack (by rw [State.held, hat])
  next => exact h

theorem Inv.spawn : Inv s.spawn.1 := by
  unfold State.spawn
  split
  next hat =>
    -- the slot passes from the acceptor to the new handler
    have hlive : (s.handlers ++ [Handler.spawned]).countP Handler.isLive = s.live + 1 := by
      rw [List.countP_append]
      rfl
    have hcnt : s.counter.toNat = s.live + 1 := by
      rw [h.counter_eq, State.held, hat]
    refine ⟨?_, ?_, nofun⟩
    · exact hcnt.trans hlive.symm
    · exact hlive.le.trans (h.room hat)
  next => exact h

theorem Inv.spawnFails : Inv s.spawnFails.1 := by
  unfold State.spawnFails
  split
  next hat =>
    have hcnt : s.counter.toNat = s.live + 1 := by
      rw [h.counter_eq, State.held, hat]
    exact ⟨hcnt, h.live_le, nofun⟩
  next => exact h

theorem Inv.move (i : ℕ) {now next : Handler} (hnow : now.isLive)
    (hnext : next.isLive) : Inv (s.move i now next).1 := by
  unfold State.move
  split
  next hi =>
    have hcnt := countP_set next hi hnow
    rw [if_pos hnext] at hcnt
    have hlive : (s.handlers.set i next).countP Handler.isLive = s.live := Nat.succ.inj hcnt
    exact ⟨h.counter_eq.trans (congrArg (· + s.held) hlive.symm), hlive.le.trans h.live_le,
      fun hat => hlive.le.trans_lt (h.room hat)⟩
  next => exact h

theorem Inv.drop (i : ℕ) : Inv (s.drop i).1 := by
  unfold State.drop
  split
  next panicked hi =>
    have hlive : (s.handlers.set i .ended).countP Handler.isLive + 1 = s.live :=
      countP_set .ended hi rfl
    have hcnt := h.counter_eq
    have hsub := toNat_sub (n := s.counter) (by omega)
    have hle := h.live_le
    refine ⟨?_, ?_, fun hat => ?_⟩
    · show (s.counter - 1).toNat = (s.handlers.set i .ended).countP Handler.isLive + s.held
      omega
    · show (s.handlers.set i .ended).countP Handler.isLive ≤ _
      omega
    · show (s.handlers.set i .ended).countP Handler.isLive < _
      omega
  next => exact h

theorem inv_step (action : Action) : Inv (step s action).1 := by
  cases action with
  | acceptFailed => exact h
  | accepted => exact h.accepted
  | release => exact h.release
  | spawn => exact h.spawn
  | spawnFails => exact h.spawnFails
  | begin i | finish i panicked => exact h.move i rfl rfl
  | drop i => exact h.drop i

end

end

theorem inv_finalState (actions : List Action) : Inv (finalState step initial actions) :=
  finalState_invariant Inv.initial (fun _ action h => inv_step h action) actions

/-! ## The cap -/

def Refuses (s : State) (action : Action) : Prop :=
  s.acceptor ≠ .capReached ∧ (step s action).1.acceptor = .capReached

theorem acceptor_move (s : State) (i : ℕ) (now next : Handler) :
    (s.move i now next).1.acceptor = s.acceptor := by
  unfold State.move
  split <;> rfl

theorem acceptor_drop (s : State) (i : ℕ) : (s.drop i).1.acceptor = s.acceptor := by
  unfold State.drop
  split <;> rfl

theorem refuses_iff_accepted (s : State) (action : Action) :
    Refuses s action ↔
      action = .accepted ∧ s.acceptor = .incoming ∧ s.counter ≥ maxConnections := by
  unfold Refuses
  cases action with
  | acceptFailed => simp [step]
  | accepted =>
    cases hat : s.acceptor <;> simp [step, State.accepted, hat]
  | release =>
    cases hat : s.acceptor <;> simp [step, State.release, State.giveBack, hat]
  | spawn =>
    cases hat : s.acceptor <;> simp [step, State.spawn, hat]
  | spawnFails =>
    cases hat : s.acceptor <;> simp [step, State.spawnFails, hat]
  | begin i | finish i panicked => simp [step, acceptor_move]
  | drop i => simp [step, acceptor_drop]

theorem Inv.fetchSub_pos {s : State} (h : Inv s) {action : Action} {prior : UInt64}
    (hsub : (step s action).2 = .fetchSub prior) : 0 < prior.toNat := by
  have hcnt := h.counter_eq
  cases action with
  | acceptFailed => cases hsub
  | accepted => cases hat : s.acceptor <;> simp [step, State.accepted, hat] at hsub
  | release =>
    cases hat : s.acceptor <;> simp [step, State.release, State.giveBack, hat] at hsub
    all_goals
      have hheld : s.held = 1 := by rw [State.held, hat]
      rw [← hsub]
      omega
  | spawn => cases hat : s.acceptor <;> simp [step, State.spawn, hat] at hsub
  | spawnFails => cases hat : s.acceptor <;> simp [step, State.spawnFails, hat] at hsub
  | begin i | finish i panicked =>
    simp only [step, State.move] at hsub
    split at hsub <;> cases hsub
  | drop i =>
    simp only [step, State.drop] at hsub
    split at hsub
    next _ hi =>
      have hlive : (s.handlers.set i .ended).countP Handler.isLive + 1 = s.live :=
        countP_set .ended hi rfl
      injection hsub with hprior
      rw [← hprior]
      omega
    next => cases hsub

/-- In every state of every interleaving at most 128 handlers are live, the counter is the number of
live handlers and of slots the acceptor holds, no release finds it at zero, and a connection is
refused exactly if 128 handlers are live at its claim. -/
theorem connection_cap_exact (actions : List Action) (action : Action) :
    let s := finalState step initial actions
    s.live ≤ 128 ∧ s.counter.toNat = s.live + s.held ∧
      (∀ prior, (step s action).2 = .fetchSub prior → 0 < prior.toNat) ∧
      (Refuses s action ↔ action = .accepted ∧ s.acceptor = .incoming ∧ s.live = 128) := by
  intro s
  have h : Inv s := inv_finalState actions
  refine ⟨h.live_le, h.counter_eq, fun prior hsub => h.fetchSub_pos hsub, ?_⟩
  rw [refuses_iff_accepted]
  refine and_congr_right fun _ => and_congr_right fun hidle => ?_
  exact h.capReached_iff hidle

-- a handler that panics and a spawn that fails leave no slot behind
example :
    (finalState step initial [.accepted, .spawn, .begin 0, .accepted, .spawnFails, .finish 0 true,
      .release, .drop 0]).counter = 0 := by
  decide

end MitosNetwork.Ipc.Slots
