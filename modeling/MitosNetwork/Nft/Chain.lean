import MitosNetwork.Nft.Text

/-!
# Chains and first-match evaluation

The statements of a rule set, the rules of its chains and the verdict of a chain on a packet. A rule
applies when all its matches hold; the first rule that applies decides, and the chain's policy if
none does. Interface matches and conntrack states are interpreted here; every other match expression
is left to a parameter `sem`.
-/

namespace Nft

open List

variable {α β : Type} {xs : List α} {g : α → β}

/-! ## Statements and chains -/

def Tree.isSep : Tree → Bool
  | .leaf .sep => true
  | _ => false

def Tree.isWord (w : String) : Tree → Bool
  | .leaf (.word w') => w' = w
  | _ => false

/-- The statements of a block: what stands between separators, empty ones left out. -/
def statements (ts : List Tree) : List (List Tree) :=
  (ts.splitOnP Tree.isSep).filter fun st => !st.isEmpty

@[simp] theorem statements_nil : statements [] = [] := by simp [statements]

theorem statements_append_sep {st : List Tree} (hne : st ≠ []) (hst : ∀ t ∈ st, t.isSep = false)
    (rest : List Tree) : statements (st ++ .leaf .sep :: rest) = st :: statements rest := by
  rw [statements, splitOnP_append_cons_of_forall_mem hst _ rfl,
    filter_cons_of_pos (by simpa using hne), statements]

theorem statements_append (a b : List Tree) :
    statements (a ++ .leaf .sep :: b) = statements a ++ statements b := by
  rw [statements, splitOnP_append_cons a b rfl, filter_append, statements, statements]

theorem statements_flatMap {f : α → List Tree} (hne : ∀ x ∈ xs, f x ≠ [])
    (hsep : ∀ x ∈ xs, ∀ t ∈ f x, t.isSep = false) :
    statements (xs.flatMap fun x => f x ++ [.leaf .sep]) = xs.map f := by
  induction xs with
  | nil => exact statements_nil
  | cons x xs ih =>
    rw [flatMap_cons, append_assoc, singleton_append,
      statements_append_sep (hne x mem_cons_self) (hsep x mem_cons_self),
      ih (fun y hy => hne y (mem_cons_of_mem x hy)) fun y hy => hsep y (mem_cons_of_mem x hy),
      map_cons]

theorem mapM_eq_some {f : α → Option β} (h : ∀ x ∈ xs, f x = some (g x)) :
    xs.mapM f = some (xs.map g) := by
  induction xs with
  | nil => rfl
  | cons x xs ih =>
    rw [mapM_cons, h x mem_cons_self, ih fun y hy => h y (mem_cons_of_mem x hy)]
    rfl

/-- The body of a statement that opens the given table. -/
def readTable (family table : String) : List Tree → Option (List Tree)
  | [.leaf (.word kw), .leaf (.word f), .leaf (.word t), .block body] =>
    if kw = "table" ∧ f = family ∧ t = table then some body else none
  | _ => none

structure Chain where
  name : String
  body : List Tree

def readChain : List Tree → Option Chain
  | [.leaf (.word kw), .leaf (.word name), .block body] =>
    if kw = "chain" then some ⟨name, body⟩ else none
  | _ => none

/-- The chains that a text defines in a table; `none` when the text is not a rule set for that table
alone. -/
def readChains (family table text : String) : Option (List Chain) := do
  let trees ← read (lex text)
  let bodies ← (statements trees).mapM (readTable family table)
  (bodies.flatMap statements).mapM readChain

/-- The statements of a chain. nft adds the blocks of one name up. -/
def chainStatements (name : String) (chains : List Chain) : List (List Tree) :=
  (chains.filter fun c => c.name = name).flatMap fun c => statements c.body

/-! ## Rules -/

inductive Verdict where
  | accept
  | drop
  | reject
deriving DecidableEq

inductive Match where
  | iifname (names : List String)
  | ctState (states : List String)
  | expr (items : List Tree)

inductive Stmt where
  | hook
  | policy (v : Verdict)
  | rule (conds : List Match) (v : Verdict)

def readNames : List Tree → Option (List String)
  | [.leaf (.str n)] => some [n]
  | .leaf (.str n) :: .leaf .comma :: rest => (readNames rest).map (n :: ·)
  | _ => none

def readStates : List Tree → Option (List String)
  | [.leaf (.word w)] => some [w]
  | .leaf (.word w) :: .leaf .comma :: rest => (readStates rest).map (w :: ·)
  | _ => none

def readIfname : Tree → Option (List String)
  | .leaf (.str n) => some [n]
  | .block items => readNames items
  | _ => none

/-- The matches of a rule: interface matches first, then a conntrack match or an expression. -/
def readMatches : List Tree → Option (List Match)
  | [] => some []
  | .leaf (.word kw) :: t :: rest =>
    if kw = "iifname" then
      (readIfname t).bind fun names => (readMatches rest).map (.iifname names :: ·)
    else if kw = "ct" ∧ t.isWord "state" then (readStates rest).map fun states => [.ctState states]
    else some [.expr (.leaf (.word kw) :: t :: rest)]
  | items => some [.expr items]

def readVerdict : Tree → Option Verdict
  | .leaf (.word w) =>
    if w = "accept" then some .accept
    else if w = "drop" then some .drop
    else if w = "reject" then some .reject
    else none
  | _ => none

def readStmt (st : List Tree) : Option Stmt :=
  match st.head?, st.getLast? with
  | some first, some last =>
    if first.isWord "type" then some .hook
    else if first.isWord "policy" then (readVerdict last).map .policy
    else (readVerdict last).bind fun v => (readMatches st.dropLast).map fun ms => .rule ms v
  | _, _ => none

/-! ## Evaluation -/

/-- A packet as a chain sees it: the interface it came in on, its conntrack state and the rest. -/
structure Packet (δ : Type) where
  iifname : String
  ctState : String
  data : δ

/-- How nft compares an interface name: a trailing asterisk is a wildcard unless it is escaped. -/
def ifMatches (pattern name : String) : Bool :=
  let p := pattern.toList
  if p.getLast? = some '*' then
    if p.dropLast.getLast? = some '\\' then name.toList = p.dropLast.dropLast ++ ['*']
    else p.dropLast.isPrefixOf name.toList
  else pattern = name

section Evaluation

variable {δ : Type} (sem : List Tree → δ → Bool) (pkt : Packet δ)

def Match.holds : Match → Bool
  | .iifname names => names.any fun n => ifMatches n pkt.iifname
  | .ctState states => states.contains pkt.ctState
  | .expr items => sem items pkt.data

def Stmt.verdict? : Stmt → Option Verdict
  | .rule ms v => if ms.all (Match.holds sem pkt) then some v else none
  | _ => none

def Stmt.policy? : Stmt → Option Verdict
  | .policy v => some v
  | _ => none

def verdict (stmts : List Stmt) : Verdict :=
  (stmts.findSome? (Stmt.verdict? sem pkt)).getD ((stmts.findSome? Stmt.policy?).getD .accept)

/-- The verdict of a chain of a text; `none` when nft could not read it. -/
def textVerdict (family table chain text : String) : Option Verdict := do
  let chains ← readChains family table text
  let stmts ← (chainStatements chain chains).mapM readStmt
  pure (verdict sem pkt stmts)

end Evaluation

theorem findSome?_map_eq {γ : Type} {f : β → Option γ} {k : α → Option γ}
    (h : ∀ x ∈ xs, f (g x) = k x) : (xs.map g).findSome? f = xs.findSome? k := by
  induction xs with
  | nil => rfl
  | cons x xs ih =>
    rw [map_cons, findSome?_cons, findSome?_cons, h x mem_cons_self,
      ih fun y hy => h y (mem_cons_of_mem x hy)]

theorem ifMatches_eq {pattern : String} (h : pattern.toList.getLast? ≠ some '*') (name : String) :
    ifMatches pattern name = decide (pattern = name) := by
  simp [ifMatches, h]

end Nft
