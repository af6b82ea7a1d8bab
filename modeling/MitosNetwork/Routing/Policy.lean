import MitosNetwork.Routing.Fib

/-!
# Policy routing

`src/routing/policy.rs`. `install` fills a table of its own and adds the rule that leads there;
`remove` deletes the rule and then the routes, but through `route::del`, which looks in the main
table. So removal undoes installation only if there were no routes to install (`restored_iff`).
-/

namespace MitosNetwork.Policy

open Fib

def sourceLen (src : IpAddr) : UInt8 := if src.isIpv4 then 32 else 128

/-- The rule of `install` and `remove`. -/
def rule (src : IpAddr) (table : UInt8) (priority : UInt32) : RuleMsg :=
  sourceRule src (sourceLen src) table priority

/-- `route::add_to_table`. -/
def addToTable (table : UInt8) (route : Route) : Fib.Prog Unit :=
  Try.ofProc (request (.add (route.tableMsg table)))

/-- `install`. -/
def install (src : IpAddr) (table : UInt8) (priority : UInt32) (routes : List Route) :
    Fib.Prog Unit := do
  routes.forM (addToTable table)
  Try.ofProc (request (.addRule (rule src table priority)))

/-- One route of `remove`: whether the deletion succeeds is not looked at. -/
def dropRoute (route : Route) : Fib.Prog Unit := do
  let _ ← Try.lift (request (.del route.msg))
  return ()

/-- `remove`. -/
def remove (src : IpAddr) (table : UInt8) (priority : UInt32) (routes : List Route) :
    Fib.Prog Unit := do
  let _ ← Try.lift (request (.delRule (rule src table priority)))
  routes.forM dropRoute

/-- The kernel accepts routes and rules, and deletes rules. -/
structure Accepts (w : World Op.Answer) : Prop where
  add : ∀ k m, w k (.add m) = .ok ()
  addRule : ∀ k m, w k (.addRule m) = .ok ()
  delRule : ∀ k m, w k (.delRule m) = .ok ()

variable {kernel : Kernel} {w : World Op.Answer} {src : IpAddr} {table : UInt8} {priority : UInt32}
  {s : Fib.State}

/-! ## Installing -/

theorem run_addToTable (hw : Accepts w) (k : ℕ) (route : Route) :
    (addToTable table route).run w k () =
      ⟨.ok (), (), [.call (.add (route.tableMsg table)) (.ok ())]⟩ := by
  rw [← hw.add k (route.tableMsg table)]
  rfl

theorem run_forM_addToTable (hw : Accepts w) (k : ℕ) (routes : List Route) :
    (routes.forM (addToTable table)).run w k () =
      ⟨.ok (), (), routes.map fun route => .call (.add (route.tableMsg table)) (.ok ())⟩ := by
  induction routes generalizing k with
  | nil => rfl
  | cons route routes ih =>
    have hrun : ((route :: routes).forM (addToTable table)).run w k () = _ :=
      Try.run_bind_of_ok (run_addToTable hw k route)
    rw [ih] at hrun
    exact hrun

theorem log_addRule (hw : Accepts w) (k : ℕ) (m : RuleMsg) :
    ((Try.ofProc (request (.addRule m)) : Fib.Prog Unit).run w k ()).log =
      [.call (.addRule m) (.ok ())] := by
  rw [← hw.addRule k m]
  rfl

theorem log_install (hw : Accepts w) (routes : List Route) :
    ((install src table priority routes).run w 0 ()).log =
      (routes.map fun route => .call (.add (route.tableMsg table)) (.ok ())) ++
        [.call (.addRule (rule src table priority)) (.ok ())] := by
  have hrun : (install src table priority routes).run w 0 () = _ :=
    Try.run_bind_of_ok (run_forM_addToTable hw 0 routes)
  rw [hrun]
  rw [log_addRule hw]

theorem isSome_after_adds (kernel : Kernel) (s : Fib.State) {key : Key} (routes : List Route)
    (h : (s.routes key).isSome ∨ ∃ route ∈ routes, kernel.key (route.tableMsg table) = key) :
    ((kernel.after (routes.map fun route => .call (.add (route.tableMsg table)) (.ok ())) s).routes
      key).isSome := by
  induction routes generalizing s with
  | nil =>
    rcases h with h | ⟨route, hmem, -⟩
    · exact h
    · cases hmem
  | cons route routes ih =>
    rw [List.map_cons, kernel.after_cons, kernel.step_add_ok]
    refine ih _ ?_
    by_cases hkey : kernel.key (route.tableMsg table) = key
    · left
      simp [hkey]
    · rcases h with h | ⟨route', hmem, hroute'⟩
      · left
        exact (congrArg Option.isSome (Function.update_of_ne (Ne.symm hkey) _ _)).trans h
      · rcases List.mem_cons.mp hmem with rfl | hmem
        · exact absurd hroute' hkey
        · exact .inr ⟨route', hmem, hroute'⟩

theorem isSome_after_install (hw : Accepts w) (kernel : Kernel) (s : Fib.State) (src : IpAddr)
    (table : UInt8) (priority : UInt32) {routes : List Route} {route : Route} (h : route ∈ routes) :
    ((kernel.after ((install src table priority routes).run w 0 ()).log s).routes
      (kernel.key (route.tableMsg table))).isSome := by
  rw [log_install hw, kernel.after_append]
  exact isSome_after_adds kernel s routes (.inr ⟨route, h, rfl⟩)

/-! ## Removing -/

def DropsMain : Op → Prop
  | .del m => m.table = rtTableMain
  | _ => False

theorem makes_dropRoute (route : Route) : Try.Makes DropsMain (dropRoute route) := by
  have hmain : DropsMain (.del route.msg) := rfl
  exact (Try.Makes.lift (Proc.Makes.call hmain)).bind fun _ => Try.Makes.pure ()

theorem after_of_dropsMain (kernel : Kernel) (s : Fib.State) {log : Fib.Log}
    (h : ∀ c a, .call c a ∈ log → DropsMain c) :
    (∀ key : Key, key.table ≠ rtTableMain → (kernel.after log s).routes key = s.routes key) ∧
      (kernel.after log s).rules = s.rules := by
  refine kernel.after_induction (P := fun s' =>
    (∀ key : Key, key.table ≠ rtTableMain → s'.routes key = s.routes key) ∧ s'.rules = s.rules)
    ⟨fun _ _ => rfl, rfl⟩ ?_
  intro e he s' hs'
  cases e with
  | note n => exact n.elim
  | call c a =>
    have hc := h c a he
    cases c with
    | del m =>
      rw [Kernel.step]
      split
      · refine ⟨fun key hkey => ?_, hs'.2⟩
        rw [← hs'.1 key hkey]
        refine kernel.delete_apply_of_not_matches fun hop _ hmat => ?_
        exact hkey (hmat.table.trans hc)
      · exact hs'
    | _ => exact hc.elim

theorem log_remove (hw : Accepts w) (src : IpAddr) (table : UInt8) (priority : UInt32)
    (routes : List Route) :
    ∃ log : Fib.Log, ((remove src table priority routes).run w 0 ()).log =
        .call (.delRule (rule src table priority)) (.ok ()) :: log ∧
      (∀ c a, .call c a ∈ log → DropsMain c) ∧ (routes = [] → log = []) := by
  have hrule : (Try.lift (request (.delRule (rule src table priority))) :
      Fib.Prog (Op.delRule (rule src table priority)).Answer).run w 0 () =
        ⟨.ok (w 0 (.delRule (rule src table priority))), (),
          [.call (.delRule (rule src table priority))
            (w 0 (.delRule (rule src table priority)))]⟩ :=
    Try.run_lift _ w 0 ()
  have hrun : (remove src table priority routes).run w 0 () = _ := Try.run_bind_of_ok hrule
  rw [hrun, hw.delRule]
  refine ⟨_, rfl, Try.Makes.forM makes_dropRoute routes w _ (), ?_⟩
  rintro rfl
  rfl

theorem erase_insertRule {m : RuleMsg} {rules : List RuleMsg} (h : m ∉ rules) :
    (insertRule m rules).erase m = rules := by
  have hbefore : m ∉ rules.takeWhile (·.priority ≤ m.priority) :=
    fun hmem => h (List.takeWhile_subset _ hmem)
  rw [insertRule, List.erase_append_right _ hbefore, List.erase_cons_head,
    List.takeWhile_append_dropWhile]

/-- **Removal after installation.** Into a table other than main that has none of the routes, and
with a rule that is not there, installing and then removing restores all routes and rules, without
ever touching the main table, exactly if there are no routes. -/
theorem restored_iff (kernel : Kernel) (w w' : World Op.Answer) (hw : Accepts w) (hw' : Accepts w')
    (s : Fib.State) (src : IpAddr) (table : UInt8) (priority : UInt32) (routes : List Route)
    (htable : table ≠ rtTableMain)
    (hroutes : ∀ route ∈ routes, s.routes (kernel.key (route.tableMsg table)) = none)
    (hrule : rule src table priority ∉ s.rules) :
    (kernel.after ((remove src table priority routes).run w' 0 ()).log
        (kernel.after ((install src table priority routes).run w 0 ()).log s) = s ∧
      ∀ key : Key, key.table = rtTableMain →
        (kernel.after ((install src table priority routes).run w 0 ()).log s).routes key =
            s.routes key ∧
          (kernel.after ((remove src table priority routes).run w' 0 ()).log
            (kernel.after ((install src table priority routes).run w 0 ()).log s)).routes key =
              s.routes key) ↔ routes = [] := by
  obtain ⟨log, hlog, hdrops, hnil⟩ := log_remove hw' src table priority routes
  rw [hlog, kernel.after_cons]
  constructor
  · rintro ⟨hrestored, -⟩
    by_contra hne
    obtain ⟨route, hmem⟩ := List.exists_mem_of_ne_nil routes hne
    -- A route that was installed is still there, as only the main table was looked at.
    have hthere := isSome_after_install hw kernel s src table priority hmem
    have hkept := (after_of_dropsMain kernel (kernel.step
      (kernel.after ((install src table priority routes).run w 0 ()).log s)
        (.call (.delRule (rule src table priority)) (.ok ()))) hdrops).1
          (kernel.key (route.tableMsg table)) htable
    rw [hrestored, hroutes route hmem] at hkept
    have hgone : (kernel.after ((install src table priority routes).run w 0 ()).log s).routes
        (kernel.key (route.tableMsg table)) = none := hkept.symm
    rw [hgone] at hthere
    cases hthere
  · rintro rfl
    have hrestored : kernel.step (kernel.after ((install src table priority []).run w 0 ()).log s)
        (.call (.delRule (rule src table priority)) (.ok ())) = s := by
      rw [log_install hw]
      exact congrArg (Fib.State.mk s.routes) (erase_insertRule hrule)
    rw [hnil rfl, hrestored, log_install hw]
    exact ⟨rfl, fun _ _ => ⟨rfl, rfl⟩⟩

def tunnelled : Route := ⟨some (.v4 (.new 10 0 0 0), 8), none, 7, none, .static⟩

/-- A kernel with the rule of another tunnel and a route in the main table. -/
def otherTunnel : Fib.State where
  routes key := if key = Kernel.byKey.key tunnelled.msg then some (hop tunnelled.msg) else none
  rules := [rule (.v4 (.new 10 9 0 2)) 101 1000]

/-- A tunnel that has no routes of its own. -/
theorem restored_without_routes :
    Kernel.byKey.after
        ((remove (.v4 (.new 10 8 0 2)) 100 1000 []).run (fun _ => accepting []) 0 ()).log
        (Kernel.byKey.after ((install (.v4 (.new 10 8 0 2)) 100 1000 []).run
          (fun _ => accepting []) 0 ()).log otherTunnel) = otherTunnel :=
  ((restored_iff .byKey _ _ ⟨fun _ _ => rfl, fun _ _ => rfl, fun _ _ => rfl⟩
    ⟨fun _ _ => rfl, fun _ _ => rfl, fun _ _ => rfl⟩ otherTunnel (.v4 (.new 10 8 0 2)) 100
      1000 [] (by decide) (fun _ h => absurd h (List.not_mem_nil)) (by decide)).mpr rfl).1

/-- The route of a tunnel stays behind in its table, and one of the main table that looks like it is
deleted in its place. -/
theorem restored_not_tunnelled :
    let key := Kernel.byKey.key (tunnelled.tableMsg 100)
    let mainKey := Kernel.byKey.key tunnelled.msg
    let s : Fib.State := ⟨fun k => if k = mainKey then some (hop tunnelled.msg) else none, []⟩
    let s' := Kernel.byKey.after ((remove (.v4 (.new 10 8 0 2)) 100 1000 [tunnelled]).run
      (fun _ => accepting []) 0 ()).log (Kernel.byKey.after
        ((install (.v4 (.new 10 8 0 2)) 100 1000 [tunnelled]).run
          (fun _ => accepting []) 0 ()).log s)
    (s.routes key, s.routes mainKey) = (none, some (hop tunnelled.msg)) ∧
      (s'.routes key, s'.routes mainKey) = (some (hop (tunnelled.tableMsg 100)), none) := by
  decide +kernel

end MitosNetwork.Policy
