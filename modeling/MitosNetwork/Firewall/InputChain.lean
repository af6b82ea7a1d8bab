import MitosNetwork.Firewall.Reading

/-!
# The verdict of the input chain

The verdict of the lines that `render` writes into the input chain (`chainVerdict`), and that nft
reaches the same verdict from the text (`textVerdict_render`). What the expression of a rule means
is a parameter; it is applied to the tokens of the rendered expression.
-/

namespace MitosNetwork.Firewall

open Nft List InputLine

variable {line : InputLine} {stmts : List (List Tree)} {pairs : List (String × String)}
  {rules : List Rule} {ifaces : List String} {zones : List Zone}

/-! ## The verdict of the lines -/

def Action.verdict : Action → Verdict
  | accept => .accept
  | drop => .drop
  | reject => .reject

def exprItems (rule : Rule) : List Tree := (read (lex (renderExpr rule))).getD []

section Verdict

variable {δ : Type} (sem : List Tree → δ → Bool) (pkt : Packet δ)

/-- Whether the rendered expression of a rule matches a packet. The empty expression matches all. -/
def ruleMatches (rule : Rule) : Bool :=
  (exprItems rule).isEmpty || sem (exprItems rule) pkt.data

def InputLine.action (line : InputLine) : Action :=
  match line.rule with
  | some r => r.action
  | none => .accept

def InputLine.verdict? (line : InputLine) : Option Verdict :=
  if (line.interfaces.any fun n => ifMatches n pkt.iifname) &&
      (match line.rule with
        | some r => ruleMatches sem pkt r
        | none => true)
  then some line.action.verdict else none

/-- The verdict of the input chain: replies are accepted, invalid packets dropped, the loopback
interface accepted; then the lines of the zones decide and the policy is to drop. -/
def chainVerdict (zones : List Zone) (rules : List Rule) : Verdict :=
  if pkt.ctState = "established" ∨ pkt.ctState = "related" then .accept
  else if pkt.ctState = "invalid" then .drop
  else if pkt.iifname = "lo" then .accept
  else ((inputLines zones rules).findSome? (verdict? sem pkt)).getD .drop

end Verdict

/-! ## Reading the lines back -/

theorem exprItems_eq {rule : Rule} (h : PlainRule rule) : exprItems rule = exprTrees rule := by
  rw [exprItems, (lexes_renderExpr h).lex_eq, read_flattenAll, Option.getD_some]

theorem readNames_setTrees {names : List String} (hne : names ≠ []) :
    readNames (setTrees names) = some names := by
  induction names with
  | nil => exact absurd rfl hne
  | cons n names ih =>
    cases names with
    | nil => rfl
    | cons m rest =>
      have ih := ih (cons_ne_nil m rest)
      simp only [setTrees, str, readNames, ih, Option.map_some]

def lineConds (line : InputLine) : List Tree :=
  word "iifname" :: .block (setTrees line.interfaces) ::
    (match line.rule with
      | some r => exprTrees r
      | none => [])

theorem lineTrees_eq (line : InputLine) :
    lineTrees line = lineConds line ++ [word (nftAction line.action)] := by
  obtain ⟨names, rule⟩ := line
  cases rule <;> rfl

def exprMatch (items : List Tree) : List Match := if items.isEmpty then [] else [.expr items]

theorem readMatches_exprTrees (rule : Rule) :
    readMatches (exprTrees rule) = some (exprMatch (exprTrees rule)) := by
  unfold exprTrees protocolTrees sourceTrees
  cases hproto : rule.protocol with
  | none => cases rule.source <;> simp [readMatches, exprMatch, word]
  | some proto =>
    cases proto <;> cases rule.port <;> cases rule.source <;>
      simp [readMatches, exprMatch, word, Protocol.nftName]

theorem readVerdict_nftAction (action : Action) :
    readVerdict (word (nftAction action)) = some action.verdict := by
  cases action <;> rfl

def lineStmt (line : InputLine) : Stmt :=
  .rule (.iifname line.interfaces ::
    (match line.rule with
      | some r => exprMatch (exprTrees r)
      | none => [])) line.action.verdict

theorem readMatches_lineConds (hne : line.interfaces ≠ []) :
    readMatches (lineConds line) = some (.iifname line.interfaces ::
      (match line.rule with
        | some r => exprMatch (exprTrees r)
        | none => [])) := by
  obtain ⟨names, rule⟩ := line
  have hns : readIfname (.block (setTrees names)) = some names := readNames_setTrees hne
  cases rule with
  | none => simp [lineConds, word, readMatches, hns]
  | some r => simp [lineConds, word, readMatches, hns, readMatches_exprTrees]

theorem readStmt_lineTrees (hne : line.interfaces ≠ []) :
    readStmt (lineTrees line) = some (lineStmt line) := by
  have hhead : (lineTrees line).head? = some (word "iifname") := rfl
  have hlast : (lineTrees line).getLast? = some (word (nftAction line.action)) := by
    rw [lineTrees_eq, getLast?_concat]
  have hinit : (lineTrees line).dropLast = lineConds line := by
    rw [lineTrees_eq, dropLast_concat]
  unfold readStmt
  rw [hhead, hlast, hinit, readMatches_lineConds hne]
  simp [readVerdict_nftAction, lineStmt]
  rfl

theorem verdict?_lineStmt {δ : Type} (sem : List Tree → δ → Bool) (pkt : Packet δ)
    (h : line.Plain) : (lineStmt line).verdict? sem pkt = line.verdict? sem pkt := by
  obtain ⟨names, rule⟩ := line
  cases rule with
  | none => simp [lineStmt, Stmt.verdict?, verdict?, Match.holds]
  | some r =>
    have hit := exprItems_eq (h.rule r rfl)
    by_cases hemp : (exprTrees r).isEmpty
    · simp [lineStmt, Stmt.verdict?, verdict?, Match.holds, ruleMatches, exprMatch, hit, hemp]
    · simp [lineStmt, Stmt.verdict?, verdict?, Match.holds, ruleMatches, exprMatch, hit, hemp]

/-! ## Reading the chains back -/

theorem isSep_exprTrees (rule : Rule) : ∀ t ∈ exprTrees rule, t.isSep = false := by
  unfold exprTrees protocolTrees sourceTrees
  cases rule.protocol <;> cases rule.port <;> cases rule.source <;> simp [word, Tree.isSep]

theorem isSep_lineTrees (line : InputLine) : ∀ t ∈ lineTrees line, t.isSep = false := by
  obtain ⟨names, rule⟩ := line
  intro t ht
  rw [lineTrees_eq] at ht
  rcases mem_append.mp ht with hcond | hact
  · rcases mem_cons.mp hcond with rfl | hcond
    · rfl
    · rcases mem_cons.mp hcond with rfl | hexpr
      · rfl
      · cases rule with
        | none => cases hexpr
        | some r => exact isSep_exprTrees r t hexpr
  · obtain rfl := mem_singleton.mp hact
    rfl

def preambleStmts : List Stmt :=
  [.hook, .policy .drop, .rule [.ctState ["established", "related"]] .accept,
    .rule [.ctState ["invalid"]] .drop, .rule [.iifname ["lo"]] .accept]

theorem statements_inputBody (hne : ∀ st ∈ stmts, st ≠ [])
    (hsep : ∀ st ∈ stmts, ∀ t ∈ st, t.isSep = false) :
    statements (inputBody stmts) = statements inputPreamble ++ stmts := by
  have hsp : inputBody stmts = inputPreamble.dropLast ++
      .leaf .sep :: stmts.flatMap fun st => st ++ [.leaf .sep] := rfl
  have hpre : statements inputPreamble = statements inputPreamble.dropLast := rfl
  rw [hsp, statements_append, hpre, statements_flatMap hne hsep, map_id']

theorem readStmts_inputBody {read : List Stmt} (hne : ∀ st ∈ stmts, st ≠ [])
    (hsep : ∀ st ∈ stmts, ∀ t ∈ st, t.isSep = false) (hread : stmts.mapM readStmt = some read) :
    (statements (inputBody stmts)).mapM readStmt = some (preambleStmts ++ read) := by
  have hpre : (statements inputPreamble).mapM readStmt = some preambleStmts := rfl
  rw [statements_inputBody hne hsep, mapM_append, hpre, hread]
  rfl

def postroutingChain (ifaces : List String) : List Chain :=
  if ifaces.isEmpty then [] else [⟨"postrouting", postroutingBody ifaces⟩]

theorem readChains_tableBody (outbound : List Rule) :
    (statements (tableBody stmts outbound ifaces pairs)).mapM readChain =
      some (⟨"input", inputBody stmts⟩ :: ⟨"forward", forwardBody pairs⟩ ::
        ⟨"output", outputBody outbound⟩ :: postroutingChain ifaces) := by
  unfold tableBody postroutingTrees postroutingChain
  cases ifaces.isEmpty <;> rfl

theorem chainStatements_input (body forward output : List Tree) (ifaces : List String) :
    chainStatements "input" (⟨"input", body⟩ :: ⟨"forward", forward⟩ :: ⟨"output", output⟩ ::
      postroutingChain ifaces) = statements body := by
  unfold chainStatements postroutingChain
  cases ifaces.isEmpty <;> simp

theorem findSome?_preambleStmts {δ : Type} (sem : List Tree → δ → Bool) (pkt : Packet δ) :
    preambleStmts.findSome? (Stmt.verdict? sem pkt) =
      if pkt.ctState = "established" ∨ pkt.ctState = "related" then some .accept
      else if pkt.ctState = "invalid" then some .drop
      else if pkt.iifname = "lo" then some .accept
      else none := by
  have hlo : ifMatches "lo" pkt.iifname = decide (pkt.iifname = "lo") := by
    exact decide_eq_decide.mpr eq_comm
  simp only [preambleStmts, findSome?_cons, findSome?_nil, Stmt.verdict?, all_cons,
    all_nil, Bool.and_true, Match.holds, contains_cons, contains_nil, Bool.or_false,
    Bool.or_eq_true, beq_iff_eq, any_cons, any_nil, hlo, decide_eq_true_eq]
  split_ifs <;> rfl

theorem readChains_render (h : PlainRest rules ifaces pairs)
    (hls : Lexes (String.join ((inputLines zones rules).map text))
      (flattenAll (stmts.flatMap fun st => st ++ [sep]))) :
    readChains "inet" tableName (render zones rules ifaces pairs) =
      some (⟨"input", inputBody stmts⟩ :: ⟨"forward", forwardBody pairs⟩ ::
        ⟨"output", outputBody (rules.filter fun r => r.direction = .outbound)⟩ ::
        postroutingChain ifaces) := by
  have htab : ∀ body, (statements (tableHead ++ .block body :: newline)).mapM
      (readTable "inet" tableName) = some [body] := fun _ => rfl
  unfold readChains
  rw [(lexes_render h hls).lex_eq, read_flattenAll, Option.bind_eq_bind, Option.bind_some,
    rulesetTrees, htab, Option.bind_eq_bind, Option.bind_some, flatMap_singleton,
    readChains_tableBody]

theorem textVerdict_of_lexes {δ : Type} (sem : List Tree → δ → Bool) (pkt : Packet δ)
    (h : PlainRest rules ifaces pairs) {read : List Stmt}
    (hls : Lexes (String.join ((inputLines zones rules).map text))
      (flattenAll (stmts.flatMap fun st => st ++ [sep]))) (hne : ∀ st ∈ stmts, st ≠ [])
    (hsep : ∀ st ∈ stmts, ∀ t ∈ st, t.isSep = false) (hread : stmts.mapM readStmt = some read) :
    textVerdict sem pkt "inet" tableName "input" (render zones rules ifaces pairs) =
      some (verdict sem pkt (preambleStmts ++ read)) := by
  unfold textVerdict
  rw [readChains_render h hls, Option.bind_eq_bind, Option.bind_some, chainStatements_input,
    readStmts_inputBody hne hsep hread]
  rfl

/-- **nft decides as the lines do.** -/
theorem textVerdict_render {δ : Type} (sem : List Tree → δ → Bool) (pkt : Packet δ)
    (h : Plain zones rules ifaces pairs) :
    textVerdict sem pkt "inet" tableName "input" (render zones rules ifaces pairs) =
      some (chainVerdict sem pkt zones rules) := by
  have hread : ((inputLines zones rules).map lineTrees).mapM readStmt =
      some ((inputLines zones rules).map lineStmt) := by
    rw [mapM_map]
    exact mapM_eq_some fun l hl => readStmt_lineTrees (mem_inputLines hl).1
  have hne : ∀ st ∈ (inputLines zones rules).map lineTrees, st ≠ [] := by
    intro st hst
    obtain ⟨l, -, rfl⟩ := mem_map.mp hst
    exact cons_ne_nil _ _
  have hsep : ∀ st ∈ (inputLines zones rules).map lineTrees, ∀ t ∈ st, t.isSep = false := by
    intro st hst
    obtain ⟨l, -, rfl⟩ := mem_map.mp hst
    exact isSep_lineTrees l
  have hls : ((inputLines zones rules).map lineStmt).findSome? (Stmt.verdict? sem pkt) =
      (inputLines zones rules).findSome? (verdict? sem pkt) :=
    findSome?_map_eq fun l hl => verdict?_lineStmt sem pkt (h.line hl)
  rw [textVerdict_of_lexes sem pkt h.toPlainRest (lexes_lines fun _ => h.line) hne hsep hread,
    verdict, findSome?_append, hls, findSome?_preambleStmts]
  unfold chainVerdict
  split_ifs <;> rfl

end MitosNetwork.Firewall
