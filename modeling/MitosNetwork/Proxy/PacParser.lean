import MitosNetwork.Common.TokenParser
import MitosNetwork.Proxy.Pac

/-!
# The PAC parser

The recursive descent parser of `src/proxy/pac.rs`, from tokens to syntax trees. The levels of
binary operators are one definition with the operators of the level; `parse_expr` and `parse_stmt`
call themselves through `recursive`.
-/

namespace MitosNetwork.Pac

variable {ν : Type}

/-! ## Tokens -/

inductive Tok (ν : Type) where
  | ident (name : String)
  | str (s : String)
  | num (n : ν)
  | lParen
  | rParen
  | lBrace
  | rBrace
  | semi
  | comma
  | assign
  | eqEq
  | notEq
  | not
  | andAnd
  | orOr
  | plus
  | lt
  | gt
  | le
  | ge
  | eof

/-- `{:?}` of the payloads of a token. -/
class DebugText (ν : Type) where
  str : String → String
  num : ν → String

namespace Tok

/-- The derived `{:?}`. -/
def debug [DebugText ν] : Tok ν → String
  | ident name => "Ident(" ++ DebugText.str ν name ++ ")"
  | str s => "Str(" ++ DebugText.str ν s ++ ")"
  | num n => "Num(" ++ DebugText.num n ++ ")"
  | lParen => "LParen"
  | rParen => "RParen"
  | lBrace => "LBrace"
  | rBrace => "RBrace"
  | semi => "Semi"
  | comma => "Comma"
  | assign => "Assign"
  | eqEq => "EqEq"
  | notEq => "NotEq"
  | not => "Not"
  | andAnd => "AndAnd"
  | orOr => "OrOr"
  | plus => "Plus"
  | lt => "Lt"
  | gt => "Gt"
  | le => "Le"
  | ge => "Ge"
  | eof => "Eof"

/-- The derived `PartialEq`: numbers are compared as the hardware does. -/
def eq [Double ν] : Tok ν → Tok ν → Bool
  | ident a, ident b => a == b
  | str a, str b => a == b
  | num a, num b => Double.eq a b
  | a, b => a.ctorIdx == b.ctorIdx

instance [Double ν] : BEq (Tok ν) := ⟨eq⟩

end Tok

/-! ## The parser -/

abbrev PacParser (ν α : Type) := TokenParser (Tok ν) NetworkError α

open TokenParser

section Parser

variable [Double ν] [DebugText ν]

/-- `Parser::expect`. -/
def expect (want : Tok ν) : PacParser ν Unit := do
  let found ← peek
  if found == want then
    let _ ← advance
    pure ()
  else fail (.parse ("expected " ++ want.debug ++ ", found " ++ found.debug ++ " in PAC script"))

/-- `Parser::expect_ident`. -/
def expectIdent : PacParser ν String := do
  match ← advance with
  | .ident s => pure s
  | other => fail (.parse ("expected identifier, found " ++ other.debug ++ " in PAC script"))

/-- `Parser::skip_semi`. -/
def skipSemi : PacParser ν Unit := do
  if (← peek) == .semi then
    let _ ← advance
    pure ()
  else pure ()

/-- Items with commas between them up to the closing parenthesis, which stays. -/
def commaList {α : Type} (item : PacParser ν α) : PacParser ν (List α) := do
  if (← peek) == .rParen then pure [] else separated (· == .comma) item

/-! ### Expressions

`expr` is `parse_expr`, which `parse_primary` calls for a parenthesis and for the arguments of a
call. -/

variable (expr : PacParser ν (Expr ν))

/-- `Parser::parse_primary`. -/
def parsePrimary : PacParser ν (Expr ν) := do
  match ← advance with
  | .str s => pure (.str s)
  | .num n => pure (.num n)
  | .lParen =>
    let e ← expr
    expect .rParen
    pure e
  | .ident name =>
    if name = "true" then pure (.bool true)
    else if name = "false" then pure (.bool false)
    else if (← peek) == .lParen then
      let _ ← advance
      let args ← commaList expr
      expect .rParen
      pure (.call name args)
    else pure (.ident name)
  | other => fail (.parse ("unexpected token " ++ other.debug ++ " in PAC expression"))

/-- `Parser::parse_unary`. -/
def parseUnary : PacParser ν (Expr ν) :=
  recursive fun unary => do
    if (← peek) == .not then
      let _ ← advance
      let e ← unary
      pure (.not e)
    else parsePrimary expr

/-- The operators of each level. -/
def additiveOp : Tok ν → Option (Expr ν → Expr ν → Expr ν)
  | .plus => some .add
  | _ => none

def relationalOp : Tok ν → Option (Expr ν → Expr ν → Expr ν)
  | .lt => some .lt
  | .gt => some .gt
  | .le => some .le
  | .ge => some .ge
  | _ => none

def equalityOp : Tok ν → Option (Expr ν → Expr ν → Expr ν)
  | .eqEq => some .eq
  | .notEq => some .notEq
  | _ => none

def andOp : Tok ν → Option (Expr ν → Expr ν → Expr ν)
  | .andAnd => some .and
  | _ => none

def orOp : Tok ν → Option (Expr ν → Expr ν → Expr ν)
  | .orOr => some .or
  | _ => none

/-- `Parser::parse_additive`. -/
def parseAdditive : PacParser ν (Expr ν) :=
  chainLeft additiveOp (parseUnary expr)

/-- `Parser::parse_relational`. -/
def parseRelational : PacParser ν (Expr ν) :=
  chainLeft relationalOp (parseAdditive expr)

/-- `Parser::parse_equality`. -/
def parseEquality : PacParser ν (Expr ν) :=
  chainLeft equalityOp (parseRelational expr)

/-- `Parser::parse_and`. -/
def parseAnd : PacParser ν (Expr ν) :=
  chainLeft andOp (parseEquality expr)

/-- `Parser::parse_or`. -/
def parseOr : PacParser ν (Expr ν) :=
  chainLeft orOp (parseAnd expr)

/-- `Parser::parse_expr`. -/
def parseExpr : PacParser ν (Expr ν) := recursive parseOr

/-! ### Statements

`stmt` is `parse_stmt`, which the blocks of an `if` call. -/

variable (stmt : PacParser ν (Stmt ν))

/-- One turn of the loop of `parse_block`. -/
def blockTurn (stmts : List (Stmt ν)) : PacParser ν (List (Stmt ν) ⊕ List (Stmt ν)) := do
  let next ← peek
  if next == .rBrace then pure (.inr stmts)
  else if next == .eof then
    fail (.parse "unexpected end of PAC script (unclosed block)")
  else
    let s ← stmt
    pure (.inl (stmts ++ [s]))

/-- `Parser::parse_block`. -/
def parseBlock : PacParser ν (List (Stmt ν)) := do
  expect .lBrace
  let stmts ← loop (blockTurn stmt) []
  expect .rBrace
  pure stmts

/-- What follows the first block of an `if`: `else if`, `else` with a block, or nothing. -/
def parseElse : PacParser ν (List (Stmt ν)) := do
  match ← peek with
  | .ident kw =>
    if kw = "else" then
      let _ ← advance
      match ← peek with
      | .ident kw =>
        if kw = "if" then
          let s ← stmt
          pure [s]
        else parseBlock stmt
      | _ => parseBlock stmt
    else pure []
  | _ => pure []

/-- The initialiser of a `var`, after `=`. -/
def parseInit : PacParser ν (Option (Expr ν)) := do
  if (← peek) == .assign then
    let _ ← advance
    let e ← parseExpr
    pure (some e)
  else pure none

def parseVar : PacParser ν (Stmt ν) := do
  let _ ← advance
  let name ← expectIdent
  let init ← parseInit
  skipSemi
  pure (.varDecl name init)

/-- The value of a `return`, unless a semicolon or the end of the block follows. -/
def parseValue : PacParser ν (Option (Expr ν)) := do
  let next ← peek
  if next == .semi || next == .rBrace then pure none
  else
    let e ← parseExpr
    pure (some e)

def parseReturn : PacParser ν (Stmt ν) := do
  let _ ← advance
  let value ← parseValue
  skipSemi
  pure (.ret value)

def parseIf : PacParser ν (Stmt ν) := do
  let _ ← advance
  expect .lParen
  let cond ← parseExpr
  expect .rParen
  let thenBranch ← parseBlock stmt
  let elseBranch ← parseElse stmt
  pure (.ifElse cond thenBranch elseBranch)

/-- An assignment, if the token after the name is `=`, else an expression. -/
def parseAssignOrExpr (name : String) : PacParser ν (Stmt ν) := do
  match ← peekSecond with
  | some .assign =>
    let _ ← advance
    let _ ← advance
    let value ← parseExpr
    skipSemi
    pure (.assign name value)
  | _ =>
    let e ← parseExpr
    skipSemi
    pure (.exprStmt e)

/-- One level of `Parser::parse_stmt`. -/
def parseStmtWith : PacParser ν (Stmt ν) := do
  match ← peek with
  | .ident name =>
    if name = "var" then parseVar
    else if name = "return" then parseReturn
    else if name = "if" then parseIf stmt
    else parseAssignOrExpr name
  | other => fail (.parse ("unexpected token " ++ other.debug ++ " in PAC script"))

/-- `Parser::parse_stmt`. -/
def parseStmt : PacParser ν (Stmt ν) := recursive parseStmtWith

/-! ### Programs -/

/-- A function declaration: its name, parameters and body. -/
def parseFunction : PacParser ν (String × FunctionDecl ν) := do
  let _ ← advance
  let name ← expectIdent
  expect .lParen
  let params ← commaList expectIdent
  expect .rParen
  let body ← parseBlock parseStmt
  pure (name, ⟨params, body⟩)

/-- One turn of the loop of `parse_program`. -/
def programTurn (prog : Program ν) : PacParser ν (Program ν ⊕ Program ν) := do
  let next ← peek
  if next == .eof then pure (.inr prog)
  else if next == .ident "function" then
    let f ← parseFunction
    pure (.inl { prog with functions := prog.functions.insert f.1 f.2 })
  else
    let s ← parseStmt
    pure (.inl { prog with globals := prog.globals ++ [s] })

/-- `Parser::parse_program`. -/
def parseProgram : PacParser ν (Program ν) := loop programTurn ⟨∅, []⟩

/-- The second half of `parse`: the program of a list of tokens. -/
def parseTokens (toks : List (Tok ν)) : Except (Failure NetworkError) (Program ν) :=
  (parseProgram ⟨toks, 0⟩).map (·.1)

end Parser

end MitosNetwork.Pac
