import MitosNetwork.Proxy.PacParser

/-!
# Printing PAC scripts

A printer from syntax trees to tokens, with a semicolon after each simple statement, braces around
each branch, and parentheses only where the precedence of the operators asks for them: `||`, `&&`,
equality, relational, `+`, unary, from the weakest to the strongest, all of them to the left.
-/

namespace MitosNetwork.Pac

variable {ν : Type}

variable {e : Expr ν} {k : ℕ} {t : Tok ν}

/-! ## The printer -/

/-- The precedence of the outermost operator, from `||` up to literals, names and calls. -/
def Expr.level : Expr ν → ℕ
  | .or _ _ => 0
  | .and _ _ => 1
  | .eq _ _ | .notEq _ _ => 2
  | .lt _ _ | .gt _ _ | .le _ _ | .ge _ _ => 3
  | .add _ _ => 4
  | .not _ => 5
  | .str _ | .num _ | .bool _ | .ident _ | .call _ _ => 6

/-- Parentheses around the tokens of an operand that binds weaker than its place asks for. -/
def parenthesize (k : ℕ) (e : Expr ν) (ts : List (Tok ν)) : List (Tok ν) :=
  if e.level < k then .lParen :: (ts ++ [.rParen]) else ts

mutual

def Expr.print : Expr ν → List (Tok ν)
  | .str s => [.str s]
  | .num n => [.num n]
  | .bool b => [.ident (if b then "true" else "false")]
  | .ident name => [.ident name]
  | .call name args =>
    .ident name :: .lParen :: ([.comma].intercalate (printArgs args) ++ [.rParen])
  | .or l r => parenthesize 0 l l.print ++ .orOr :: parenthesize 1 r r.print
  | .and l r => parenthesize 1 l l.print ++ .andAnd :: parenthesize 2 r r.print
  | .eq l r => parenthesize 2 l l.print ++ .eqEq :: parenthesize 3 r r.print
  | .notEq l r => parenthesize 2 l l.print ++ .notEq :: parenthesize 3 r r.print
  | .lt l r => parenthesize 3 l l.print ++ .lt :: parenthesize 4 r r.print
  | .gt l r => parenthesize 3 l l.print ++ .gt :: parenthesize 4 r r.print
  | .le l r => parenthesize 3 l l.print ++ .le :: parenthesize 4 r r.print
  | .ge l r => parenthesize 3 l l.print ++ .ge :: parenthesize 4 r r.print
  | .add l r => parenthesize 4 l l.print ++ .plus :: parenthesize 5 r r.print
  | .not e => .not :: parenthesize 5 e e.print

def printArgs : List (Expr ν) → List (List (Tok ν))
  | [] => []
  | e :: es => e.print :: printArgs es

end

/-- An expression where an operator of level `k` asks for one. -/
def Expr.printAt (k : ℕ) (e : Expr ν) : List (Tok ν) := parenthesize k e e.print

mutual

def Stmt.print : Stmt ν → List (Tok ν)
  | .varDecl name none => [.ident "var", .ident name, .semi]
  | .varDecl name (some e) => .ident "var" :: .ident name :: .assign :: (e.print ++ [.semi])
  | .assign name e => .ident name :: .assign :: (e.print ++ [.semi])
  | .exprStmt e => e.print ++ [.semi]
  | .ifElse cond thenBranch elseBranch =>
    .ident "if" :: .lParen :: (cond.print ++ .rParen :: .lBrace :: (printStmts thenBranch ++
      .rBrace :: (if elseBranch.isEmpty then []
        else .ident "else" :: .lBrace :: (printStmts elseBranch ++ [.rBrace]))))
  | .ret none => [.ident "return", .semi]
  | .ret (some e) => .ident "return" :: (e.print ++ [.semi])

def printStmts : List (Stmt ν) → List (Tok ν)
  | [] => []
  | s :: ss => s.print ++ printStmts ss

end

inductive Item (ν : Type) where
  | function (name : String) (decl : FunctionDecl ν)
  | global (s : Stmt ν)

def Item.print : Item ν → List (Tok ν)
  | .function name decl =>
    .ident "function" :: .ident name :: .lParen ::
      ([.comma].intercalate (decl.params.map fun x => [.ident x]) ++
        .rParen :: .lBrace :: (printStmts decl.body ++ [.rBrace]))
  | .global s => s.print

def Item.function? : Item ν → Option (Σ _ : String, FunctionDecl ν)
  | .function name decl => some ⟨name, decl⟩
  | .global _ => none

def Item.global? : Item ν → Option (Stmt ν)
  | .function _ _ => none
  | .global s => some s

/-- An order of the items of a program on the page: the functions in any order, between, before or
after the other statements, which keep theirs. -/
structure Layout (prog : Program ν) (items : List (Item ν)) : Prop where
  functions : (items.filterMap Item.function?).Perm prog.functions.entries
  globals : items.filterMap Item.global? = prog.globals

/-! ## Printable programs -/

/-- The words of the language, which are no identifiers. -/
def reservedWords : List String := ["var", "return", "if", "else", "function", "true", "false"]

mutual

def Expr.identifiers : Expr ν → List String
  | .str _ | .num _ | .bool _ => []
  | .ident name => [name]
  | .call name args => name :: argIdentifiers args
  | .or l r | .and l r | .eq l r | .notEq l r | .lt l r | .gt l r | .le l r | .ge l r
  | .add l r => l.identifiers ++ r.identifiers
  | .not e => e.identifiers

def argIdentifiers : List (Expr ν) → List String
  | [] => []
  | e :: es => e.identifiers ++ argIdentifiers es

end

def Expr.isCall : Expr ν → Bool
  | .call _ _ => true
  | _ => false

mutual

def Stmt.identifiers : Stmt ν → List String
  | .varDecl name init => name :: (init.map Expr.identifiers).getD []
  | .assign name e => name :: e.identifiers
  | .exprStmt e => e.identifiers
  | .ifElse cond thenBranch elseBranch =>
    cond.identifiers ++ stmtIdentifiers thenBranch ++ stmtIdentifiers elseBranch
  | .ret value => (value.map Expr.identifiers).getD []

def stmtIdentifiers : List (Stmt ν) → List String
  | [] => []
  | s :: ss => s.identifiers ++ stmtIdentifiers ss

end

mutual

def Stmt.exprStmts : Stmt ν → List (Expr ν)
  | .exprStmt e => [e]
  | .ifElse _ thenBranch elseBranch => exprStmtsOf thenBranch ++ exprStmtsOf elseBranch
  | .varDecl _ _ | .assign _ _ | .ret _ => []

def exprStmtsOf : List (Stmt ν) → List (Expr ν)
  | [] => []
  | s :: ss => s.exprStmts ++ exprStmtsOf ss

end

def Program.identifiers (prog : Program ν) : List String :=
  prog.functions.entries.flatMap (fun f => f.1 :: (f.2.params ++ stmtIdentifiers f.2.body)) ++
    stmtIdentifiers prog.globals

def Program.exprStmts (prog : Program ν) : List (Expr ν) :=
  prog.functions.entries.flatMap (fun f => exprStmtsOf f.2.body) ++ exprStmtsOf prog.globals

/-! ## Printed lists and first tokens -/

theorem printArgs_eq_map (args : List (Expr ν)) : printArgs args = args.map Expr.print := by
  induction args with
  | nil => rfl
  | cons e es ih => rw [printArgs, ih, List.map_cons]

theorem printStmts_eq_flatMap (ss : List (Stmt ν)) : printStmts ss = ss.flatMap Stmt.print := by
  induction ss with
  | nil => rfl
  | cons s ss ih => rw [printStmts, ih, List.flatMap_cons]

theorem argIdentifiers_eq_flatMap (args : List (Expr ν)) :
    argIdentifiers args = args.flatMap Expr.identifiers := by
  induction args with
  | nil => rfl
  | cons e es ih => rw [argIdentifiers, ih, List.flatMap_cons]

theorem stmtIdentifiers_eq_flatMap (ss : List (Stmt ν)) :
    stmtIdentifiers ss = ss.flatMap Stmt.identifiers := by
  induction ss with
  | nil => rfl
  | cons s ss ih => rw [stmtIdentifiers, ih, List.flatMap_cons]

theorem exprStmtsOf_eq_flatMap (ss : List (Stmt ν)) :
    exprStmtsOf ss = ss.flatMap Stmt.exprStmts := by
  induction ss with
  | nil => rfl
  | cons s ss ih => rw [exprStmtsOf, ih, List.flatMap_cons]

/-- The tokens an expression starts with. -/
inductive Tok.Opens : Tok ν → Prop
  | ident (name : String) : Opens (.ident name)
  | str (s : String) : Opens (.str s)
  | num (n : ν) : Opens (.num n)
  | lParen : Opens .lParen
  | not : Opens .not

theorem opens_append {ts us : List (Tok ν)} (h : ∃ t vs, ts = t :: vs ∧ t.Opens) :
    ∃ t vs, ts ++ us = t :: vs ∧ t.Opens := by
  obtain ⟨t, vs, rfl, ht⟩ := h
  exact ⟨t, vs ++ us, rfl, ht⟩

theorem opens_parenthesize {ts : List (Tok ν)} (h : ∃ t vs, ts = t :: vs ∧ t.Opens) :
    ∃ t vs, parenthesize k e ts = t :: vs ∧ t.Opens := by
  unfold parenthesize
  split
  · exact ⟨_, _, rfl, .lParen⟩
  · exact h

theorem Expr.opens_print : ∀ e : Expr ν, ∃ t vs, e.print = t :: vs ∧ t.Opens
  | .str s => ⟨_, _, rfl, .str s⟩
  | .num n => ⟨_, _, rfl, .num n⟩
  | .bool _ | .ident _ | .call _ _ => ⟨_, _, rfl, .ident _⟩
  | .or l _ | .and l _ | .eq l _ | .notEq l _ | .lt l _ | .gt l _ | .le l _ | .ge l _
  | .add l _ => opens_append (opens_parenthesize l.opens_print)
  | .not _ => ⟨_, _, rfl, .not⟩

/-! ## Levels -/

/-- The operators of level `k`. -/
def operatorAt : ℕ → Tok ν → Option (Expr ν → Expr ν → Expr ν)
  | 0 => orOp
  | 1 => andOp
  | 2 => equalityOp
  | 3 => relationalOp
  | 4 => additiveOp
  | _ => fun _ => none

def Tok.level? : Tok ν → Option ℕ
  | .orOr => some 0
  | .andAnd => some 1
  | .eqEq | .notEq => some 2
  | .lt | .gt | .le | .ge => some 3
  | .plus => some 4
  | _ => none

theorem isSome_operatorAt : (operatorAt k t).isSome = true ↔ t.level? = some k := by
  rcases k with _ | _ | _ | _ | _ | k <;> cases t <;>
    simp [operatorAt, orOp, andOp, equalityOp, relationalOp, additiveOp, Tok.level?]

/-- The tokens that may follow an expression of level `k`. -/
def Stops (k : ℕ) (t : Tok ν) : Prop := t ≠ .lParen ∧ ∀ j, k ≤ j → operatorAt j t = none

theorem stops_of_operatorAt {f : Expr ν → Expr ν → Expr ν} (h : operatorAt k t = some f) :
    Stops (k + 1) t := by
  have hlev : t.level? = some k := isSome_operatorAt.mp (Option.isSome_of_mem h)
  refine ⟨?_, fun j hj => ?_⟩
  · rintro rfl
    cases hlev
  · by_contra hne
    have hj' := isSome_operatorAt.mp (Option.ne_none_iff_isSome.mp hne)
    rw [hlev, Option.some.injEq] at hj'
    omega

theorem stops_of_level?_eq_none (h : t.level? = none) (hne : t ≠ .lParen) : Stops k t := by
  refine ⟨hne, fun j _ => ?_⟩
  by_contra hsome
  rw [isSome_operatorAt.mp (Option.ne_none_iff_isSome.mp hsome)] at h
  cases h

theorem Expr.exists_operator (hk : k < 5) (h : e.level = k) :
    ∃ (t : Tok ν) (f : Expr ν → Expr ν → Expr ν) (l r : Expr ν), operatorAt k t = some f ∧
      e = f l r ∧ e.print = l.printAt k ++ t :: r.printAt (k + 1) ∧
      e.identifiers = l.identifiers ++ r.identifiers := by
  subst h
  cases e with
  | or l r => exact ⟨.orOr, .or, l, r, rfl, rfl, rfl, rfl⟩
  | and l r => exact ⟨.andAnd, .and, l, r, rfl, rfl, rfl, rfl⟩
  | eq l r => exact ⟨.eqEq, .eq, l, r, rfl, rfl, rfl, rfl⟩
  | notEq l r => exact ⟨.notEq, .notEq, l, r, rfl, rfl, rfl, rfl⟩
  | lt l r => exact ⟨.lt, .lt, l, r, rfl, rfl, rfl, rfl⟩
  | gt l r => exact ⟨.gt, .gt, l, r, rfl, rfl, rfl, rfl⟩
  | le l r => exact ⟨.le, .le, l, r, rfl, rfl, rfl, rfl⟩
  | ge l r => exact ⟨.ge, .ge, l, r, rfl, rfl, rfl, rfl⟩
  | add l r => exact ⟨.plus, .add, l, r, rfl, rfl, rfl, rfl⟩
  | not _ | str _ | num _ | bool _ | ident _ | call _ _ => simp [Expr.level] at hk

end MitosNetwork.Pac
