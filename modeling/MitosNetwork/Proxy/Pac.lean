import MitosNetwork.Common.Query
import MitosNetwork.Common.Table
import MitosNetwork.Proxy.PacBuiltins

/-!
# The PAC interpreter

Syntax trees and the interpreter of `src/proxy/pac.rs`. A call runs the body of the function in a
scope that holds its parameters only. Reading a name that is not in the scope is a question to the
environment of a `Query`; the code answers it with `Null` (`unboundNull`).

The mutual recursion of `call`, `exec_block`, `exec_stmt` and `eval` ends because the depth of calls
is bounded: `callAt n` is a call with `n` further levels to go.
-/

namespace MitosNetwork.Pac

variable {ν : Type}

inductive Expr (ν : Type) where
  | str (s : String)
  | num (n : ν)
  | bool (b : Bool)
  | ident (name : String)
  | call (name : String) (args : List (Expr ν))
  | add (l r : Expr ν)
  | eq (l r : Expr ν)
  | notEq (l r : Expr ν)
  | and (l r : Expr ν)
  | or (l r : Expr ν)
  | lt (l r : Expr ν)
  | gt (l r : Expr ν)
  | le (l r : Expr ν)
  | ge (l r : Expr ν)
  | not (e : Expr ν)

inductive Stmt (ν : Type) where
  | varDecl (name : String) (init : Option (Expr ν))
  | assign (name : String) (value : Expr ν)
  | exprStmt (e : Expr ν)
  | ifElse (cond : Expr ν) (thenBranch elseBranch : List (Stmt ν))
  | ret (value : Option (Expr ν))

structure FunctionDecl (ν : Type) where
  params : List String
  body : List (Stmt ν)

/-- A parsed script: its functions and its other top-level statements. -/
structure Program (ν : Type) where
  functions : Table String (FunctionDecl ν)
  globals : List (Stmt ν)

/-- `MAX_CALL_DEPTH`. -/
def maxCallDepth : ℕ := 64

/-- The variables of one function call, or of the top level. -/
abbrev Scope (ν : Type) := Table String (Value ν)

/-- A run that may read names outside its scope. -/
abbrev Run (ν α : Type) := Query String (Value ν) NetworkError α

/-- How a block or a statement ended. -/
inductive Signal (ν : Type) where
  | none
  | ret (v : Value ν)

section Interpreter

variable [Double ν]

abbrev Caller (ν : Type) := String → List (Value ν) → Run ν (Value ν)

/-- The sum of two numbers, or the concatenation of any other two values. -/
def addValues : Value ν → Value ν → Value ν
  | .num a, .num b => .num (Double.add a b)
  | l, r => .str (l.asString ++ r.asString)

mutual

/-- `Interp::eval`. Both operands of a comparison are evaluated, left before right. -/
def eval (call : Caller ν) (scope : Scope ν) : Expr ν → Run ν (Value ν)
  | .str s => pure (.str s)
  | .num n => pure (.num n)
  | .bool b => pure (.bool b)
  | .ident name =>
    match scope.lookup name with
    | some v => pure v
    | none => Query.ask name
  | .call name args => do
    let args ← evalArgs call scope args
    call name args
  | .add l r => do
    let l ← eval call scope l
    let r ← eval call scope r
    pure (addValues l r)
  | .eq l r => do
    let l ← eval call scope l
    let r ← eval call scope r
    pure (.bool (valuesEq l r))
  | .notEq l r => do
    let l ← eval call scope l
    let r ← eval call scope r
    pure (.bool (!valuesEq l r))
  | .and l r => do
    let l ← eval call scope l
    if l.truthy then eval call scope r else pure l
  | .or l r => do
    let l ← eval call scope l
    if l.truthy then pure l else eval call scope r
  | .lt l r => do
    let l ← eval call scope l
    let r ← eval call scope r
    pure (.bool (Double.lt l.asNum r.asNum))
  | .gt l r => do
    let l ← eval call scope l
    let r ← eval call scope r
    pure (.bool (Double.lt r.asNum l.asNum))
  | .le l r => do
    let l ← eval call scope l
    let r ← eval call scope r
    pure (.bool (Double.le l.asNum r.asNum))
  | .ge l r => do
    let l ← eval call scope l
    let r ← eval call scope r
    pure (.bool (Double.le r.asNum l.asNum))
  | .not e => do
    let v ← eval call scope e
    pure (.bool (!v.truthy))

def evalArgs (call : Caller ν) (scope : Scope ν) : List (Expr ν) → Run ν (List (Value ν))
  | [] => pure []
  | e :: es => do
    let v ← eval call scope e
    let vs ← evalArgs call scope es
    pure (v :: vs)

end

/-- A missing initialiser or return value is `Null`. -/
def evalOr (call : Caller ν) (scope : Scope ν) : Option (Expr ν) → Run ν (Value ν)
  | some e => eval call scope e
  | none => pure .null

mutual

/-- `Interp::exec_stmt`: the scope after the statement and how it ended. -/
def execStmt (call : Caller ν) (scope : Scope ν) : Stmt ν → Run ν (Scope ν × Signal ν)
  | .varDecl name init => do
    let v ← evalOr call scope init
    pure (scope.insert name v, .none)
  | .assign name value => do
    let v ← eval call scope value
    pure (scope.insert name v, .none)
  | .exprStmt e => do
    let _ ← eval call scope e
    pure (scope, .none)
  | .ifElse cond thenBranch elseBranch => do
    let c ← eval call scope cond
    if c.truthy then execBlock call scope thenBranch else execBlock call scope elseBranch
  | .ret value => do
    let v ← evalOr call scope value
    pure (scope, .ret v)

/-- `Interp::exec_block`: up to the first `return`. -/
def execBlock (call : Caller ν) (scope : Scope ν) : List (Stmt ν) → Run ν (Scope ν × Signal ν)
  | [] => pure (scope, .none)
  | stmt :: stmts => do
    let (scope, signal) ← execStmt call scope stmt
    match signal with
    | .none => execBlock call scope stmts
    | .ret v => pure (scope, .ret v)

end

/-- The scope a call starts with: the parameters with their arguments, as far as both go. -/
def bindParams (params : List String) (args : List (Value ν)) : Scope ν :=
  (params.zip args).foldl (fun scope p => scope.insert p.1 p.2) ∅

/-- `Interp::call` with `n` levels to go; the depth of the source is `maxCallDepth + 1 - n`. -/
def callAt (sys : System) (functions : Table String (FunctionDecl ν)) : ℕ → Caller ν
  | 0, _, _ => Query.fail (.other "PAC script recursion too deep")
  | n + 1, name, args => do
    match ← Query.ofExcept (callBuiltin sys name args) with
    | some v => pure v
    | none =>
      match functions.lookup name with
      | none => Query.fail (.other ("PAC script calls undefined function '" ++ name ++ "'"))
      | some func =>
        let (_, signal) ← execBlock (callAt sys functions n) (bindParams func.params args) func.body
        match signal with
        | .ret v => pure v
        | .none => pure .null

def callTop (sys : System) (functions : Table String (FunctionDecl ν)) : Caller ν :=
  callAt sys functions (maxCallDepth + 1)

/-- The loop of `evaluate` over the top-level statements. A `return` there is ignored. -/
def execGlobals (call : Caller ν) : Scope ν → List (Stmt ν) → Run ν (Scope ν)
  | scope, [] => pure scope
  | scope, stmt :: stmts => do
    let (scope, _) ← execStmt call scope stmt
    execGlobals call scope stmts

def findProxy (sys : System) (p : Program ν) (url host : String) : Run ν (Value ν) :=
  callTop sys p.functions "FindProxyForURL" [.str url, .str host]

/-- `scope.get(name).unwrap_or(Null)`: what the code reads for a name outside the scope. -/
def unboundNull : String → Value ν := fun _ => .null

def globalsOf (sys : System) (p : Program ν) : Result (Scope ν) :=
  (execGlobals (callTop sys p.functions) ∅ p.globals).result unboundNull

def Value.directive : Value ν → String
  | .str s => s
  | .null => "DIRECT"
  | v => v.asString

/-- `evaluate` after parsing. The global scope is computed and then dropped: the call that follows
does not see it. -/
def evaluateProgram (sys : System) (p : Program ν) (url host : String) : Result String := do
  if (p.functions.lookup "FindProxyForURL").isNone then
    throw (.other "PAC script has no FindProxyForURL function")
  let _ ← globalsOf sys p
  let result ← (findProxy sys p url host).result unboundNull
  return result.directive

end Interpreter

end MitosNetwork.Pac
