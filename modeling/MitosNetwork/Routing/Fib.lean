import MitosNetwork.Common.Proc
import MitosNetwork.Ip.Route
import Mathlib.Logic.Function.Basic

/-!
# The kernel's routing tables

What `src/ip/route.rs` asks of the kernel, one `Op` for each function, and what a request that
is accepted does to the routes and rules. A route is found under its table, family, destination and
metric; adding one replaces what was there. Which route a deletion finds is up to the kernel: a
`Kernel` may choose any that matches the message.
-/

namespace MitosNetwork.Fib

/-- What the kernel keeps a route under. -/
structure Key where
  table : UInt8
  family : UInt8
  destination : Option (List UInt8 × UInt8)
  metric : UInt32
deriving DecidableEq

structure Hop where
  gateway : Option (List UInt8)
  oif : UInt32
  protocol : UInt8
  scope : UInt8
deriving DecidableEq

/-- The routes of all tables, and the rules in the order they are tried. -/
structure State where
  routes : Key → Option Hop
  rules : List RuleMsg

def destination (m : RouteMsg) : Option (List UInt8 × UInt8) := m.dst.map fun dst => (dst, m.dstLen)

def hop (m : RouteMsg) : Hop := ⟨m.gateway, m.oif, m.protocol, m.scope⟩

/-- A route that a message describes: it agrees with everything the message says. -/
structure Matches (m : RouteMsg) (key : Key) (hop : Hop) : Prop where
  table : key.table = m.table
  family : key.family = m.family
  destination : key.destination = Fib.destination m
  metric : ∀ p ∈ m.priority, key.metric = p
  gateway : ∀ gw ∈ m.gateway, hop.gateway = some gw
  oif : hop.oif = m.oif
  protocol : hop.protocol = m.protocol

/-- What is left to the kernel: the metric of a route that is added without one, by family, and the
route that a deletion finds, which is one that the message describes. -/
structure Kernel where
  absentMetric : UInt8 → UInt32
  find : (Key → Option Hop) → RouteMsg → Option Key
  matches_of_find : ∀ {routes m key}, find routes m = some key →
    ∃ hop, routes key = some hop ∧ Matches m key hop

/-! ## Requests -/

inductive Op where
  | list (family : Family)
  | add (m : RouteMsg)
  | del (m : RouteMsg)
  | addRule (m : RuleMsg)
  | delRule (m : RuleMsg)

def Op.Answer : Op → Type
  | list _ => Result (List Route)
  | add _ | del _ | addRule _ | delRule _ => Result Unit

abbrev Prog (α : Type) := Try Op.Answer Empty NetworkError Unit α

def request (op : Op) : Proc Op.Answer Empty Unit op.Answer := Proc.call op

def accepting (routes : List Route) : (op : Op) → op.Answer
  | .list _ => Except.ok routes
  | .add _ | .del _ | .addRule _ | .delRule _ => Except.ok ()

abbrev Log := List (Entry Op.Answer Empty)

/-- Rules are tried by priority; a new one comes after those of its own. -/
def insertRule (m : RuleMsg) (rules : List RuleMsg) : List RuleMsg :=
  rules.takeWhile (·.priority ≤ m.priority) ++ m :: rules.dropWhile (·.priority ≤ m.priority)

namespace Kernel

variable (kernel : Kernel)

def key (m : RouteMsg) : Key :=
  ⟨m.table, m.family, destination m, m.priority.getD (kernel.absentMetric m.family)⟩

def delete (routes : Key → Option Hop) (m : RouteMsg) : Key → Option Hop :=
  match kernel.find routes m with
  | none => routes
  | some key => Function.update routes key none

/-- What a request does. One that is refused does nothing. -/
def step (s : State) : Entry Op.Answer Empty → State
  | .call (.list _) _ => s
  | .call (.add m) answer =>
    if answer.isOk then
      { s with routes := Function.update s.routes (kernel.key m) (some (hop m)) }
    else s
  | .call (.del m) answer =>
    if answer.isOk then { s with routes := kernel.delete s.routes m } else s
  | .call (.addRule m) answer =>
    if answer.isOk then { s with rules := insertRule m s.rules } else s
  | .call (.delRule m) answer => if answer.isOk then { s with rules := s.rules.erase m } else s

theorem step_add_ok (s : State) (m : RouteMsg) :
    kernel.step s (.call (.add m) (.ok ())) =
      { s with routes := Function.update s.routes (kernel.key m) (some (hop m)) } := rfl

theorem step_add_error (s : State) (m : RouteMsg) (e : NetworkError) :
    kernel.step s (.call (.add m) (.error e)) = s := rfl

def after (log : Log) (s : State) : State := log.foldl kernel.step s

@[simp] theorem after_nil (s : State) : kernel.after [] s = s := rfl

theorem after_cons (e : Entry Op.Answer Empty) (log : Log) (s : State) :
    kernel.after (e :: log) s = kernel.after log (kernel.step s e) := rfl

theorem after_append (log log' : Log) (s : State) :
    kernel.after (log ++ log') s = kernel.after log' (kernel.after log s) := List.foldl_append

theorem after_induction {P : State → Prop} {log : Log} {s : State} (hs : P s)
    (hstep : ∀ e ∈ log, ∀ s, P s → P (kernel.step s e)) : P (kernel.after log s) := by
  induction log generalizing s with
  | nil => exact hs
  | cons e log ih =>
    rw [List.forall_mem_cons] at hstep
    exact ih (hstep.1 s hs) hstep.2

theorem delete_apply_of_not_matches {routes : Key → Option Hop} {m : RouteMsg} {key : Key}
    (h : ∀ hop, routes key = some hop → ¬Matches m key hop) :
    kernel.delete routes m key = routes key := by
  unfold delete
  cases hfind : kernel.find routes m with
  | none => rfl
  | some found =>
    obtain ⟨hop, hhop, hmatches⟩ := kernel.matches_of_find hfind
    have hne : key ≠ found := by
      rintro rfl
      exact h hop hhop hmatches
    exact Function.update_of_ne hne none routes

/-- A kernel that looks for a route under the key it would be added under. -/
def byKey : Kernel where
  absentMetric := fun _ => 0
  find routes m :=
    let key : Key := ⟨m.table, m.family, destination m, m.priority.getD 0⟩
    match routes key with
    | none => none
    | some hop =>
      if hop.oif = m.oif ∧ hop.protocol = m.protocol ∧ (m.gateway = none ∨ hop.gateway = m.gateway)
      then some key
      else none
  matches_of_find := by
    intro routes m key h
    dsimp only at h
    split at h
    · cases h
    · rename_i hop hhop
      split at h
      · rename_i hmatches
        obtain ⟨hoif, hprotocol, hgateway⟩ := hmatches
        cases h
        refine ⟨hop, hhop, ⟨rfl, rfl, rfl, fun p hp => ?_, fun gw hgw => ?_, hoif, hprotocol⟩⟩
        · exact congrArg (Option.getD · 0) hp
        · rcases hgateway with hnone | hsame
          · rw [hnone] at hgw
            cases hgw
          · exact hsame.trans hgw
      · cases h

end Kernel

end MitosNetwork.Fib
