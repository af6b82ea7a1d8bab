import MitosNetwork.Common.Fuel
import MitosNetwork.Proxy.PacGlobals

/-!
# Termination of the PAC interpreter

The four functions of `Interp` in `src/proxy/pac.rs` with the recursion of the source: each takes
the depth of calls, and only a call of a script function raises it. Nothing in these definitions
makes the recursion end, so they recurse on fuel; the limit `MAX_CALL_DEPTH` is a field.

`callsEnd` is by induction on the levels that are left below the limit, and within a level by
induction on the syntax. It identifies the functions with those of `Pac`, which are total, at the
same limit; at a higher limit the total functions keep every result that is not an error.
-/

namespace MitosNetwork.Pac

open Fuelled Pac

variable {ν : Type} [Double ν]

/-- `Interp`, with what its helpers ask the system for and with the limit as a field. -/
structure Interp (ν : Type) where
  sys : System
  functions : Table String (FunctionDecl ν)
  maxCallDepth : ℕ

-- In a mutual induction the linter does not see that the other half uses the hypothesis.
set_option linter.unusedSectionVars false

namespace Interp

mutual

/-- `Interp::call`. -/
def call (i : Interp ν) : ℕ → String → List (Value ν) → ℕ → Fuelled NetworkError (Value ν)
  | 0, _, _, _ => outOfFuel
  | fuel + 1, name, args, depth =>
    if depth > i.maxCallDepth then ended (.error (.other "PAC script recursion too deep"))
    else do
      match ← ended (callBuiltin i.sys name args) with
      | some v => pure v
      | none =>
        match i.functions.lookup name with
        | none =>
          ended (.error (.other ("PAC script calls undefined function '" ++ name ++ "'")))
        | some func =>
          let (_, signal) ← i.execBlock fuel func.body (bindParams func.params args) (depth + 1)
          match signal with
          | .ret v => pure v
          | .none => pure .null

/-- `Interp::exec_block`. -/
def execBlock (i : Interp ν) :
    ℕ → List (Stmt ν) → Scope ν → ℕ → Fuelled NetworkError (Scope ν × Signal ν)
  | 0, _, _, _ => outOfFuel
  | _ + 1, [], scope, _ => pure (scope, .none)
  | fuel + 1, stmt :: stmts, scope, depth => do
    let (scope, signal) ← i.execStmt fuel stmt scope depth
    match signal with
    | .none => i.execBlock fuel stmts scope depth
    | .ret v => pure (scope, .ret v)

/-- `Interp::exec_stmt`. -/
def execStmt (i : Interp ν) :
    ℕ → Stmt ν → Scope ν → ℕ → Fuelled NetworkError (Scope ν × Signal ν)
  | 0, _, _, _ => outOfFuel
  | fuel + 1, .varDecl name init, scope, depth => do
    let v ← i.evalOr fuel init scope depth
    pure (scope.insert name v, .none)
  | fuel + 1, .assign name value, scope, depth => do
    let v ← i.eval fuel value scope depth
    pure (scope.insert name v, .none)
  | fuel + 1, .exprStmt e, scope, depth => do
    let _ ← i.eval fuel e scope depth
    pure (scope, .none)
  | fuel + 1, .ifElse cond thenBranch elseBranch, scope, depth => do
    let c ← i.eval fuel cond scope depth
    if c.truthy then i.execBlock fuel thenBranch scope depth
    else i.execBlock fuel elseBranch scope depth
  | fuel + 1, .ret value, scope, depth => do
    let v ← i.evalOr fuel value scope depth
    pure (scope, .ret v)

def evalOr (i : Interp ν) :
    ℕ → Option (Expr ν) → Scope ν → ℕ → Fuelled NetworkError (Value ν)
  | 0, _, _, _ => outOfFuel
  | fuel + 1, some e, scope, depth => i.eval fuel e scope depth
  | _ + 1, none, _, _ => pure .null

/-- `Interp::eval`. -/
def eval (i : Interp ν) : ℕ → Expr ν → Scope ν → ℕ → Fuelled NetworkError (Value ν)
  | 0, _, _, _ => outOfFuel
  | _ + 1, .str s, _, _ => pure (.str s)
  | _ + 1, .num n, _, _ => pure (.num n)
  | _ + 1, .bool b, _, _ => pure (.bool b)
  | _ + 1, .ident name, scope, _ => pure ((scope.lookup name).getD .null)
  | fuel + 1, .call name args, scope, depth => do
    let args ← i.evalArgs fuel args scope depth
    i.call fuel name args depth
  | fuel + 1, .add l r, scope, depth => do
    let l ← i.eval fuel l scope depth
    let r ← i.eval fuel r scope depth
    pure (addValues l r)
  | fuel + 1, .eq l r, scope, depth => do
    let l ← i.eval fuel l scope depth
    let r ← i.eval fuel r scope depth
    pure (.bool (valuesEq l r))
  | fuel + 1, .notEq l r, scope, depth => do
    let l ← i.eval fuel l scope depth
    let r ← i.eval fuel r scope depth
    pure (.bool (!valuesEq l r))
  | fuel + 1, .and l r, scope, depth => do
    let l ← i.eval fuel l scope depth
    if l.truthy then i.eval fuel r scope depth else pure l
  | fuel + 1, .or l r, scope, depth => do
    let l ← i.eval fuel l scope depth
    if l.truthy then pure l else i.eval fuel r scope depth
  | fuel + 1, .lt l r, scope, depth => do
    let l ← i.eval fuel l scope depth
    let r ← i.eval fuel r scope depth
    pure (.bool (Double.lt l.asNum r.asNum))
  | fuel + 1, .gt l r, scope, depth => do
    let l ← i.eval fuel l scope depth
    let r ← i.eval fuel r scope depth
    pure (.bool (Double.lt r.asNum l.asNum))
  | fuel + 1, .le l r, scope, depth => do
    let l ← i.eval fuel l scope depth
    let r ← i.eval fuel r scope depth
    pure (.bool (Double.le l.asNum r.asNum))
  | fuel + 1, .ge l r, scope, depth => do
    let l ← i.eval fuel l scope depth
    let r ← i.eval fuel r scope depth
    pure (.bool (Double.le r.asNum l.asNum))
  | fuel + 1, .not e, scope, depth => do
    let v ← i.eval fuel e scope depth
    pure (.bool (!v.truthy))

/-- The loop over the arguments of a call. -/
def evalArgs (i : Interp ν) :
    ℕ → List (Expr ν) → Scope ν → ℕ → Fuelled NetworkError (List (Value ν))
  | 0, _, _, _ => outOfFuel
  | _ + 1, [], _, _ => pure []
  | fuel + 1, e :: es, scope, depth => do
    let v ← i.eval fuel e scope depth
    let vs ← i.evalArgs fuel es scope depth
    pure (v :: vs)

end

/-- The loop of `evaluate` over the top-level statements. -/
def execGlobals (i : Interp ν) :
    ℕ → List (Stmt ν) → Scope ν → Fuelled NetworkError (Scope ν)
  | _, [], scope => pure scope
  | fuel, stmt :: stmts, scope => do
    let (scope, _) ← i.execStmt fuel stmt scope 0
    i.execGlobals fuel stmts scope

/-! ## The functions end -/

section

variable {exact : Prop} {i : Interp ν} {depth : ℕ} {caller : Caller ν}

def CallsEnd (exact : Prop) (i : Interp ν) (depth : ℕ) (caller : Caller ν) : Prop :=
  ∀ name args, Computes exact unboundNull (fun n => i.call n name args depth) (caller name args)

variable (hcall : CallsEnd exact i depth caller)

include hcall

mutual

theorem computes_eval (scope : Scope ν) (e : Expr ν) :
    Computes exact unboundNull (fun n => i.eval n e scope depth) (Pac.eval caller scope e) := by
  refine .of_succ ?_
  cases e with
  | str s | num n | bool b =>
    simp only [eval, Pac.eval]
    exact computes_pure _
  | ident name =>
    simp only [eval, Pac.eval]
    cases scope.lookup name with
    | some v => exact computes_pure v
    | none => exact .inl (ends_ended _)
  | call name args =>
    simp only [eval, Pac.eval]
    exact .bind (computes_evalArgs scope args) (hcall name)
  | add l r | eq l r | notEq l r | lt l r | gt l r | le l r | ge l r =>
    simp only [eval, Pac.eval]
    exact .map₂ (computes_eval scope l) (computes_eval scope r)
  | and l r =>
    simp only [eval, Pac.eval]
    exact .bind (computes_eval scope l) fun a => .ite (computes_eval scope r) (computes_pure a)
  | or l r =>
    simp only [eval, Pac.eval]
    exact .bind (computes_eval scope l) fun a => .ite (computes_pure a) (computes_eval scope r)
  | not e =>
    simp only [eval, Pac.eval]
    exact .bind (computes_eval scope e) fun v => computes_pure _

theorem computes_evalArgs (scope : Scope ν) (es : List (Expr ν)) :
    Computes exact unboundNull (fun n => i.evalArgs n es scope depth)
      (Pac.evalArgs caller scope es) := by
  refine .of_succ ?_
  cases es with
  | nil =>
    simp only [evalArgs, evalArgs]
    exact computes_pure _
  | cons e es =>
    simp only [evalArgs, evalArgs]
    exact .map₂ (computes_eval scope e) (computes_evalArgs scope es)

end

theorem computes_evalOr (scope : Scope ν) (e : Option (Expr ν)) :
    Computes exact unboundNull (fun n => i.evalOr n e scope depth) (Pac.evalOr caller scope e) := by
  refine .of_succ ?_
  cases e with
  | none =>
    simp only [evalOr, evalOr]
    exact computes_pure _
  | some e =>
    simp only [evalOr, evalOr]
    exact computes_eval hcall scope e

mutual

theorem computes_execStmt (scope : Scope ν) (stmt : Stmt ν) :
    Computes exact unboundNull (fun n => i.execStmt n stmt scope depth)
      (Pac.execStmt caller scope stmt) := by
  refine .of_succ ?_
  cases stmt with
  | varDecl _ value | ret value =>
    simp only [execStmt, execStmt]
    exact .bind (computes_evalOr hcall scope value) fun v => computes_pure _
  | assign _ e | exprStmt e =>
    simp only [execStmt, execStmt]
    exact .bind (computes_eval hcall scope e) fun v => computes_pure _
  | ifElse cond thenBranch elseBranch =>
    simp only [execStmt, execStmt]
    exact .bind (computes_eval hcall scope cond) fun c =>
      .ite (computes_execBlock scope thenBranch) (computes_execBlock scope elseBranch)

theorem computes_execBlock (scope : Scope ν) (stmts : List (Stmt ν)) :
    Computes exact unboundNull (fun n => i.execBlock n stmts scope depth)
      (Pac.execBlock caller scope stmts) := by
  refine .of_succ ?_
  cases stmts with
  | nil =>
    simp only [execBlock, execBlock]
    exact computes_pure _
  | cons stmt stmts =>
    simp only [execBlock, execBlock]
    refine .bind (computes_execStmt scope stmt) fun r => ?_
    obtain ⟨scope', signal⟩ := r
    cases signal with
    | none => exact computes_execBlock scope' stmts
    | ret v => exact computes_pure _

end

end

/-- The limit of the total functions is the same, or a higher one if the two need not agree
exactly. -/
theorem callsEnd (exact : Prop) (i : Interp ν) (n : ℕ) : ∀ depth, i.maxCallDepth + 1 - depth ≤ n →
    (exact → i.maxCallDepth + 1 - depth = n) →
      CallsEnd exact i depth (callAt i.sys i.functions n) := by
  induction n with
  | zero =>
    intro depth hdepth _ name args
    refine .of_succ ?_
    simp only [call, callAt, if_pos (show depth > i.maxCallDepth by omega)]
    exact computes_ended _
  | succ n ih =>
    intro depth hdepth hexact name args
    refine .of_succ ?_
    by_cases hdeep : depth > i.maxCallDepth
    · simp only [call, if_pos hdeep]
      exact .inr ⟨fun h => absurd (hexact h) (by omega), _, ends_ended _⟩
    · simp only [call, callAt, if_neg hdeep]
      refine .bind (computes_ended (callBuiltin i.sys name args)) fun builtin => ?_
      cases builtin with
      | some v => exact computes_pure v
      | none =>
        cases i.functions.lookup name with
        | none => exact computes_ended _
        | some func =>
          have hbody := ih (depth + 1) (by omega) fun h => by have := hexact h; omega
          refine .bind (computes_execBlock hbody _ func.body) fun r => ?_
          obtain ⟨scope, signal⟩ := r
          cases signal with
          | ret v => exact computes_pure v
          | none => exact computes_pure _

theorem computes_execGlobals {exact : Prop} {i : Interp ν} {caller : Caller ν}
    (hcall : CallsEnd exact i 0 caller) (stmts : List (Stmt ν)) : ∀ scope,
    Computes exact unboundNull (fun n => i.execGlobals n stmts scope)
      (Pac.execGlobals caller scope stmts) := by
  induction stmts with
  | nil =>
    intro scope
    exact computes_pure _
  | cons stmt stmts ih =>
    intro scope
    exact .bind (computes_execStmt hcall scope stmt) fun r => ih r.1

end Interp

/-- `evaluate` after parsing, with a limit on the depth of calls. -/
def evaluate (sys : System) (limit fuel : ℕ) (p : Program ν) (url host : String) :
    Fuelled NetworkError String :=
  let i : Interp ν := ⟨sys, p.functions, limit⟩
  if (p.functions.lookup "FindProxyForURL").isNone then
    ended (.error (.other "PAC script has no FindProxyForURL function"))
  else do
    let _ ← i.execGlobals fuel p.globals ∅
    let result ← i.call fuel "FindProxyForURL" [.str url, .str host] 0
    pure result.directive

def evaluationBy (caller : Caller ν) (p : Program ν) (url host : String) : Run ν String :=
  if (p.functions.lookup "FindProxyForURL").isNone then
    Query.fail (.other "PAC script has no FindProxyForURL function")
  else do
    let _ ← execGlobals caller ∅ p.globals
    let result ← caller "FindProxyForURL" [.str url, .str host]
    pure result.directive

/-- `evaluate`, total by its definition. -/
def evaluation (sys : System) (limit : ℕ) (p : Program ν) (url host : String) : Run ν String :=
  evaluationBy (callAt sys p.functions (limit + 1)) p url host

theorem computes_evaluate (exact : Prop) (sys : System) {limit limit' : ℕ} (hlimit : limit ≤ limit')
    (hexact : exact → limit = limit') (p : Program ν) (url host : String) :
    Computes exact unboundNull (fun n => evaluate sys limit n p url host)
      (evaluation sys limit' p url host) := by
  unfold evaluate evaluation evaluationBy
  cases (p.functions.lookup "FindProxyForURL").isNone with
  | true => exact computes_ended _
  | false =>
    have hcall := Interp.callsEnd exact ⟨sys, p.functions, limit⟩ (limit' + 1) 0
      (Nat.succ_le_succ hlimit) fun h => congrArg Nat.succ (hexact h)
    exact .bind (Interp.computes_execGlobals hcall p.globals ∅) fun _ =>
      .bind (hcall "FindProxyForURL" _) fun v => computes_pure v.directive

theorem ends_evaluate (sys : System) (limit : ℕ) (p : Program ν) (url host : String) :
    Ends (fun n => evaluate sys limit n p url host)
      ((evaluation sys limit p url host).result unboundNull) :=
  (computes_evaluate True sys le_rfl (fun _ => rfl) p url host).resolve_right fun h => h.1 trivial

/-- **Two models of the interpreter.** With enough fuel it ends as `evaluateProgram` says. -/
theorem ends_evaluate_maxCallDepth (sys : System) (p : Program ν) (url host : String) :
    Ends (fun n => evaluate sys maxCallDepth n p url host) (evaluateProgram sys p url host) := by
  have h := ends_evaluate sys maxCallDepth p url host
  have heq : (evaluation sys maxCallDepth p url host).result unboundNull =
      evaluateProgram sys p url host := by
    unfold evaluation evaluationBy evaluateProgram
    cases (p.functions.lookup "FindProxyForURL").isNone with
    | true => rfl
    | false =>
      simp only [Bool.false_eq_true, if_false, Query.result_bind]
      rfl
  rwa [heq] at h

/-- **Termination of PAC scripts.** Every function of the interpreter ends on every program, at
every depth and for every limit, and so does the evaluation of a script; a result of the evaluation
is kept by every higher limit. -/
theorem interp_total_and_mono (sys : System) (p : Program ν) :
    (∀ limit depth, let i : Interp ν := ⟨sys, p.functions, limit⟩
      (∀ name args, ∃ r, Ends (fun n => i.call n name args depth) r) ∧
      (∀ stmts scope, ∃ r, Ends (fun n => i.execBlock n stmts scope depth) r) ∧
      (∀ stmt scope, ∃ r, Ends (fun n => i.execStmt n stmt scope depth) r) ∧
      ∀ e scope, ∃ r, Ends (fun n => i.eval n e scope depth) r) ∧
    ∀ url host,
      (∀ limit, ∃ r, Ends (fun n => evaluate sys limit n p url host) r) ∧
      ∀ limit limit' v, limit ≤ limit' → Ends (fun n => evaluate sys limit n p url host) (.ok v) →
        Ends (fun n => evaluate sys limit' n p url host) (.ok v) := by
  refine ⟨fun limit depth => ?_, fun url host => ⟨fun limit => ?_, fun limit limit' v h hv => ?_⟩⟩
  · have hcall := Interp.callsEnd True ⟨sys, p.functions, limit⟩ _ depth le_rfl fun _ => rfl
    exact ⟨fun name args => (hcall name args).ends,
      fun stmts scope => (Interp.computes_execBlock hcall scope stmts).ends,
      fun stmt scope => (Interp.computes_execStmt hcall scope stmt).ends,
      fun e scope => (Interp.computes_eval hcall scope e).ends⟩
  · exact ⟨_, ends_evaluate sys limit p url host⟩
  · rcases computes_evaluate False sys h False.elim p url host with hsame | ⟨-, e, herror⟩
    · rw [← hsame.unique hv]
      exact ends_evaluate sys limit' p url host
    · cases herror.unique hv

/-- The script calls a function of its own that calls a helper, so it needs two levels. -/
theorem interp_total_and_mono_internal :
    Ends (fun n => evaluate offline 2 n backupScript "x" "db.corp.example.com") (.ok "DIRECT") ∧
      Ends (fun n => evaluate offline 64 n backupScript "x" "db.corp.example.com")
        (.ok "DIRECT") := by
  have hresult : (evaluation offline 2 backupScript "x" "db.corp.example.com").result unboundNull =
      .ok "DIRECT" := by decide +kernel
  have hends := ends_evaluate offline 2 backupScript "x" "db.corp.example.com"
  rw [hresult] at hends
  exact ⟨hends, ((interp_total_and_mono offline backupScript).2 _ _).2 2 64 _ (by decide) hends⟩

-- one level less is too few
example : (evaluation offline 1 backupScript "x" "db.corp.example.com").result unboundNull =
    .error (.other "PAC script recursion too deep") := by
  decide +kernel

end MitosNetwork.Pac
