import MitosNetwork.Common.TokenLocality
import MitosNetwork.Proxy.PacRoundTrip
import MitosNetwork.Proxy.PacTokenizer

/-!
# Locality of the PAC parser

Every function of the parser of `src/proxy/pac.rs` is local on the tokens of a script, whose last
token is `Eof`: it stays in range, its loops and its recursion end, and what it takes does not
depend on the tokens after the next one. A closing brace may stand in for the end of the script.
-/

namespace MitosNetwork.Pac

open TokenParser

variable {ν : Type}

/-- `Eof` ends a script, and a closing brace may stand in for it. -/
def scriptEnd : Follow (Tok ν) where
  isEnd t := t = .eof
  Alt t t' := t' = t ∨ t = .eof ∧ t' = .rBrace
  refl _ := .inl rfl

section

variable {α β : Type} {n N : ℕ} {pre : List (Tok ν) → Prop} {M : α → Prop}

variable {f g : Tok ν → PacParser ν α} {t want : Tok ν} {c : Cursor (Tok ν)}

abbrev PacLocal (n N : ℕ) (M : α → Prop) (p q : PacParser ν α) : Prop :=
  Local scriptEnd Every n N M p q

theorem local_peek (hsame : ∀ t, Local scriptEnd (Next t) n N M (f t) (g t))
    (hend : Local scriptEnd (Next .eof) n N M (f .eof) (g .rBrace)) :
    Local scriptEnd pre n N M (peek >>= f) (peek >>= g) := by
  refine .peek fun t t' halt => ?_
  rcases halt with rfl | ⟨rfl, rfl⟩
  · exact hsame t'
  · exact hend

theorem local_advance_of (ht : t ≠ .eof) (hpre : ∀ us, pre us → Next t us)
    (hf : Local scriptEnd (fun us => pre (t :: us)) (n - 1) (N - 1) (fun _ => False) (f t) (g t)) :
    Local scriptEnd pre n N M (advance >>= f) (advance >>= g) := by
  refine .advance (fun u us hu hend => ?_) fun u ⟨us, hu⟩ _ => ?_
  · obtain rfl := Option.some.inj (hpre _ hu)
    exact absurd hend ht
  · obtain rfl := Option.some.inj (hpre _ hu)
    exact hf

theorem local_advance (ht : t ≠ .eof) (hf : PacLocal (n - 1) (N - 1) (fun _ => False) (f t) (g t)) :
    Local scriptEnd (Next t) n N M (advance >>= f) (advance >>= g) :=
  local_advance_of ht (fun _ h => h) hf.restrict

theorem ident_ne_eof (name : String) : (.ident name : Tok ν) ≠ .eof := nofun

theorem local_chainLeft {op : Tok ν → Option (Expr ν → Expr ν → Expr ν)}
    {operand operand' : PacParser ν (Expr ν)} (heof : op .eof = none) (hbrace : op .rBrace = none)
    (h : PacLocal n N Every operand operand') :
    PacLocal n N Every (chainLeft op operand) (chainLeft op operand') := by
  refine .chainLeft (fun t f hop hend => ?_) (fun t t' halt => ?_) h
  · rw [show t = .eof from hend, heof] at hop
    cases hop
  · rcases halt with rfl | ⟨rfl, rfl⟩
    · rfl
    · rw [heof, hbrace]

theorem ne_eof_of_beq [Double ν] (hwant : ((.eof : Tok ν) == want) = false)
    (h : (t == want) = true) : t ≠ .eof := by
  rintro rfl
  rw [hwant] at h
  cases h

section

variable [Double ν]

theorem local_skipSemi : PacLocal n N (fun _ => False) (skipSemi : PacParser ν Unit) skipSemi := by
  refine local_peek (fun t => ?_) (.pure _ id)
  by_cases h : (t == .semi) = true
  · simp only [if_pos h]
    exact local_advance (ne_eof_of_beq rfl h) (.pure _ id)
  · simp only [if_neg h]
    exact .pure _ id

theorem local_commaList {item item' : PacParser ν α} (h : PacLocal n N Every item item') :
    PacLocal n N (fun _ => False) (commaList item) (commaList item') := by
  have hlist : PacLocal n N (fun _ => False) (separated (· == .comma) item)
      (separated (· == .comma) item') := by
    refine (Local.separated (fun t ht => ne_eof_of_beq rfl ht) (fun t t' halt => ?_) h).weaken
    rcases halt with rfl | ⟨rfl, rfl⟩ <;> rfl
  refine local_peek (fun t => ?_) ?_
  · by_cases hcl : (t == .rParen) = true
    · simp only [if_pos hcl]
      exact .pure _ id
    · simp only [if_neg hcl]
      exact hlist.restrict
  · exact hlist.restrict

end

variable [DebugText ν]

theorem local_expectIdent :
    PacLocal n N Every (expectIdent : PacParser ν String) expectIdent := by
  refine .advance (fun t _ _ hend => ?_) fun t _ _ => ?_
  · rw [show t = .eof from hend]
    exact ⟨_, rfl⟩
  · cases t with
    | ident s => exact .pure _ id
    | _ => exact .fail _ _

variable [Double ν]

theorem local_expect (hwant : ((.eof : Tok ν) == want) = false) :
    PacLocal n N Every (expect want) (expect want) := by
  refine local_peek (fun t => ?_) ?_
  · by_cases h : (t == want) = true
    · simp only [if_pos h]
      exact local_advance (ne_eof_of_beq hwant h) (.pure _ id)
    · simp only [if_neg h]
      exact .fail _ _
  · simp only [hwant]
    exact .fail _ _

/-! ## Expressions -/

section

variable {expr expr' : PacParser ν (Expr ν)} (h : PacLocal (n - 1) (N - 1) Every expr expr')
include h

theorem local_parsePrimary : PacLocal n N Every (parsePrimary expr) (parsePrimary expr') := by
  refine .advance (fun t _ _ hend => ?_) fun t _ _ => ?_
  · rw [show t = .eof from hend]
    exact ⟨_, rfl⟩
  · cases t with
    | str s | num n => exact .pure _ id
    | lParen => exact h.bind_strict fun e => (local_expect rfl).bind_strict fun _ => .pure _ id
    | ident name =>
      dsimp only
      split
      · exact .pure _ id
      split
      · exact .pure _ id
      refine local_peek (fun t => ?_) (.pure _ id)
      by_cases hcall : (t == .lParen) = true
      · simp only [if_pos hcall]
        have hargs := local_commaList (h.shrink (Nat.sub_le (n - 1) 1) (Nat.sub_le (N - 1) 1))
        exact local_advance (ne_eof_of_beq rfl hcall) (hargs.bind fun args =>
          (local_expect rfl).bind_strict fun _ => .pure _ id)
      · simp only [if_neg hcall]
        exact .pure _ id
    | _ => exact .fail _ _

theorem local_parseUnary : PacLocal n N Every (parseUnary expr) (parseUnary expr') := by
  refine .recursive fun i j unary unary' hi hj hunary => ?_
  have hpri : PacLocal i j Every (parsePrimary expr) (parsePrimary expr') :=
    local_parsePrimary (h.shrink (by omega) (by omega))
  refine local_peek (fun t => ?_) ?_
  · by_cases hnot : (t == .not) = true
    · simp only [if_pos hnot]
      exact local_advance (ne_eof_of_beq rfl hnot) (hunary.bind_strict fun e => .pure _ id)
    · simp only [if_neg hnot]
      exact hpri.restrict
  · exact hpri.restrict

theorem local_parseAdditive : PacLocal n N Every (parseAdditive expr) (parseAdditive expr') :=
  local_chainLeft rfl rfl (local_parseUnary h)

theorem local_parseRelational : PacLocal n N Every (parseRelational expr) (parseRelational expr') :=
  local_chainLeft rfl rfl (local_parseAdditive h)

theorem local_parseEquality : PacLocal n N Every (parseEquality expr) (parseEquality expr') :=
  local_chainLeft rfl rfl (local_parseRelational h)

theorem local_parseAnd : PacLocal n N Every (parseAnd expr) (parseAnd expr') :=
  local_chainLeft rfl rfl (local_parseEquality h)

theorem local_parseOr : PacLocal n N Every (parseOr expr) (parseOr expr') :=
  local_chainLeft rfl rfl (local_parseAnd h)

end

theorem local_parseExpr :
    PacLocal n N Every (parseExpr : PacParser ν (Expr ν)) parseExpr :=
  .recursive fun _ _ _ _ _ _ hexpr => local_parseOr hexpr

/-! ## Statements -/

section

variable {stmt stmt' : PacParser ν (Stmt ν)}

omit [DebugText ν] in
theorem local_blockTurn (h : PacLocal n N Every stmt stmt') (stmts : List (Stmt ν)) :
    PacLocal n N (Local.OfTurn fun _ => False) (blockTurn stmt stmts) (blockTurn stmt' stmts) := by
  refine local_peek (fun t => ?_) (.fail _ _)
  by_cases hcl : (t == .rBrace) = true
  · simp only [if_pos hcl]
    exact .pure _ id
  · simp only [if_neg hcl]
    by_cases heof : (t == .eof) = true
    · simp only [if_pos heof]
      exact .fail _ _
    · simp only [if_neg heof]
      exact h.restrict.bind_strict fun s => .pure _ id

variable (h : PacLocal (n - 1) (N - 1) Every stmt stmt')
include h

theorem local_parseBlock : PacLocal n N Every (parseBlock stmt) (parseBlock stmt') :=
  (local_expect rfl).bind_strict fun _ => (Local.loop (local_blockTurn h) []).bind fun _ =>
    (local_expect rfl).bind_strict fun _ => .pure _ id

theorem local_parseElse :
    PacLocal n N (fun _ => False) (parseElse stmt) (parseElse stmt') := by
  refine local_peek (fun t => ?_) (.pure _ id)
  cases t with
  | ident kw =>
    dsimp only
    split
    · refine local_advance (ident_ne_eof kw) ?_
      have hblk :=
        (local_parseBlock (h.shrink (Nat.sub_le (n - 1) 1) (Nat.sub_le (N - 1) 1))).weaken
      refine local_peek (fun u => ?_) hblk.restrict
      cases u with
      | ident kw =>
        dsimp only
        split
        · exact h.restrict.bind_strict fun s => .pure _ id
        · exact hblk.restrict
      | _ => exact hblk.restrict
    · exact .pure _ id
  | _ => exact .pure _ id

theorem local_parseIf :
    Local scriptEnd (Next (.ident "if")) n N Every (parseIf stmt) (parseIf stmt') := by
  have hstmt := h.shrink (Nat.sub_le (n - 1) 1) (Nat.sub_le (N - 1) 1)
  exact local_advance (ident_ne_eof _) <| (local_expect rfl).bind fun _ =>
    local_parseExpr.bind fun cond => (local_expect rfl).bind fun _ =>
      (local_parseBlock hstmt).bind fun thenBranch => (local_parseElse hstmt).bind fun elseBranch =>
        .pure _ id

end

theorem local_parseVar :
    Local scriptEnd (Next (.ident "var")) n N Every (parseVar : PacParser ν (Stmt ν))
      parseVar := by
  have hinit : ∀ n N, PacLocal n N (fun _ => False) (parseInit : PacParser ν _) parseInit := by
    intro n N
    refine local_peek (fun t => ?_) (.pure _ id)
    by_cases hasn : (t == .assign) = true
    · simp only [if_pos hasn]
      exact local_advance (ne_eof_of_beq rfl hasn)
        (local_parseExpr.bind_strict fun e => .pure _ id)
    · simp only [if_neg hasn]
      exact .pure _ id
  exact local_advance (ident_ne_eof _) <| local_expectIdent.bind fun name =>
    (hinit _ _).bind fun init => local_skipSemi.bind fun _ => .pure _ id

theorem local_parseValue :
    PacLocal n N (fun _ => False) (parseValue : PacParser ν (Option (Expr ν))) parseValue := by
  have hexpr : PacLocal n N Every
      (parseExpr >>= fun e => pure (some e) : PacParser ν (Option (Expr ν)))
      (parseExpr >>= fun e => pure (some e)) :=
    local_parseExpr.bind_strict fun e => .pure _ id
  refine local_peek (fun t => ?_) ?_
  · by_cases hend : (t == .semi || t == .rBrace) = true
    · simp only [if_pos hend]
      exact .pure _ id
    · simp only [if_neg hend]
      exact hexpr.weaken.restrict
  · exact hexpr.at_end rfl _

theorem local_parseReturn :
    Local scriptEnd (Next (.ident "return")) n N Every
      (parseReturn : PacParser ν (Stmt ν)) parseReturn :=
  local_advance (ident_ne_eof _) <| local_parseValue.bind fun _ => local_skipSemi.bind fun _ =>
    .pure _ id

theorem local_parseAssignOrExpr (name : String) :
    Local scriptEnd (Next (.ident name)) n N Every
      (parseAssignOrExpr name : PacParser ν (Stmt ν)) (parseAssignOrExpr name) := by
  have hexpr : PacLocal n N Every
      (parseExpr >>= fun e => skipSemi >>= fun _ => pure (.exprStmt e) : PacParser ν (Stmt ν))
      (parseExpr >>= fun e => skipSemi >>= fun _ => pure (.exprStmt e)) :=
    local_parseExpr.bind_strict fun e => local_skipSemi.bind fun _ => .pure _ id
  refine .peekSecond (fun t us ht hend => ?_) fun u u' halt => ?_
  · obtain rfl := Option.some.inj ht
    exact ident_ne_eof name hend
  rcases halt with rfl | ⟨rfl, rfl⟩
  · cases u' with
    | assign =>
      -- the token after the name was seen too, so both are taken
      refine local_advance_of (ident_ne_eof name) (fun us h => h.1) ?_
      refine local_advance_of (t := .assign) nofun (fun us h => ?_) ?_
      · exact List.head?_eq_getElem?.trans h.2
      · exact (local_parseExpr.bind fun value => local_skipSemi.bind fun _ => .pure _ id).restrict
    | _ => exact hexpr.restrict
  · exact hexpr.restrict

theorem local_parseStmtWith {stmt stmt' : PacParser ν (Stmt ν)}
    (h : PacLocal (n - 1) (N - 1) Every stmt stmt') :
    PacLocal n N Every (parseStmtWith stmt) (parseStmtWith stmt') := by
  refine local_peek (fun t => ?_) (.fail _ _)
  cases t with
  | ident name =>
    dsimp only
    split
    · rename_i hvar
      exact hvar ▸ local_parseVar
    split
    · rename_i hret
      exact hret ▸ local_parseReturn
    split
    · rename_i hif
      exact hif ▸ local_parseIf h
    · exact local_parseAssignOrExpr name
  | _ => exact .fail _ _

theorem local_parseStmt :
    PacLocal n N Every (parseStmt : PacParser ν (Stmt ν)) parseStmt :=
  .recursive fun _ _ _ _ _ _ hstmt => local_parseStmtWith hstmt

/-! ## Programs -/

theorem local_parseFunction (ht : (t == .ident "function") = true) :
    Local scriptEnd (Next t) n N Every (parseFunction : PacParser ν _) parseFunction :=
  local_advance (ne_eof_of_beq rfl ht) <| local_expectIdent.bind fun _ =>
    (local_expect rfl).bind fun _ => (local_commaList local_expectIdent).bind fun _ =>
      (local_expect rfl).bind fun _ => (local_parseBlock local_parseStmt).bind fun _ => .pure _ id

/-- Nothing may stand in for the end of the script: there the program is complete. -/
def programEnd : Follow (Tok ν) where
  isEnd t := t = .eof
  Alt := Eq
  refl _ := rfl

theorem local_programTurn (prog : Program ν) :
    Local programEnd Every n N (Local.OfTurn fun _ => False) (programTurn prog)
      (programTurn prog) := by
  refine .peek fun t t' halt => ?_
  obtain rfl : t = t' := halt
  by_cases heof : (t == .eof) = true
  · simp only [if_pos heof]
    exact .pure _ id
  · simp only [if_neg heof]
    by_cases hfun : (t == .ident "function") = true
    · simp only [if_pos hfun]
      exact ((local_parseFunction hfun).of_alt_eq rfl).bind_strict fun f => .pure _ id
    · simp only [if_neg hfun]
      exact (local_parseStmt.of_alt_eq rfl).restrict.bind_strict fun s => .pure _ id

theorem local_parseProgram :
    Local programEnd Every n N (fun _ => False) (parseProgram : PacParser ν (Program ν))
      parseProgram :=
  .loop local_programTurn _

/-! ## Every script -/

inductive ParserFn (ν : Type) : Type → Type where
  | peek : ParserFn ν (Tok ν)
  | advance : ParserFn ν (Tok ν)
  | expect (want : Tok ν) : ParserFn ν Unit
  | expectIdent : ParserFn ν String
  | skipSemi : ParserFn ν Unit
  | parseProgram : ParserFn ν (Program ν)
  | parseBlock : ParserFn ν (List (Stmt ν))
  | parseStmt : ParserFn ν (Stmt ν)
  | parseExpr : ParserFn ν (Expr ν)
  | parseOr : ParserFn ν (Expr ν)
  | parseAnd : ParserFn ν (Expr ν)
  | parseEquality : ParserFn ν (Expr ν)
  | parseRelational : ParserFn ν (Expr ν)
  | parseAdditive : ParserFn ν (Expr ν)
  | parseUnary : ParserFn ν (Expr ν)
  | parsePrimary : ParserFn ν (Expr ν)

def ParserFn.run {α : Type} : ParserFn ν α → PacParser ν α
  | .peek => TokenParser.peek
  | .advance => TokenParser.advance
  | .expect want => Pac.expect want
  | .expectIdent => Pac.expectIdent
  | .skipSemi => Pac.skipSemi
  | .parseProgram => Pac.parseProgram
  | .parseBlock => Pac.parseBlock Pac.parseStmt
  | .parseStmt => Pac.parseStmt
  | .parseExpr => Pac.parseExpr
  | .parseOr => Pac.parseOr Pac.parseExpr
  | .parseAnd => Pac.parseAnd Pac.parseExpr
  | .parseEquality => Pac.parseEquality Pac.parseExpr
  | .parseRelational => Pac.parseRelational Pac.parseExpr
  | .parseAdditive => Pac.parseAdditive Pac.parseExpr
  | .parseUnary => Pac.parseUnary Pac.parseExpr
  | .parsePrimary => Pac.parsePrimary Pac.parseExpr

theorem ParserFn.safe {α : Type} (f : ParserFn ν α) (hc : c.pos < c.toks.length)
    (hcl : scriptEnd.Closed c.rest) : Safe f.run c := by
  cases f with
  | peek => exact .peek hc
  | advance => exact .advance hc
  | expect want =>
    refine (Safe.peek hc).bind fun found c' hc' => ?_
    by_cases h : (found == want) = true
    · simp only [if_pos h]
      exact (Safe.advance hc').bind fun _ c'' hc'' => .ok rfl rfl (Nat.le_refl _) hc''
    · simp only [if_neg h]
      exact .fail _
  | expectIdent => exact local_expectIdent.safe (N := 0) hcl
  | skipSemi => exact local_skipSemi.safe (N := 0) hcl
  | parseProgram =>
    have hprog : programEnd.Closed c.rest := hcl
    exact local_parseProgram.safe (N := 0) hprog
  | parseBlock => exact (local_parseBlock local_parseStmt).safe (N := 0) hcl
  | parseStmt => exact local_parseStmt.safe (N := 0) hcl
  | parseExpr => exact local_parseExpr.safe (N := 0) hcl
  | parseOr => exact (local_parseOr local_parseExpr).safe (N := 0) hcl
  | parseAnd => exact (local_parseAnd local_parseExpr).safe (N := 0) hcl
  | parseEquality => exact (local_parseEquality local_parseExpr).safe (N := 0) hcl
  | parseRelational => exact (local_parseRelational local_parseExpr).safe (N := 0) hcl
  | parseAdditive => exact (local_parseAdditive local_parseExpr).safe (N := 0) hcl
  | parseUnary => exact (local_parseUnary local_parseExpr).safe (N := 0) hcl
  | parsePrimary => exact (local_parsePrimary local_parseExpr).safe (N := 0) hcl

omit [DebugText ν] in
theorem closed_of_tokenize {classes : CharClasses} {src : String} {toks : List (Tok ν)}
    (h : tokenize classes src = .ok toks) : scriptEnd.Closed toks := by
  obtain ⟨init, rfl, hinit⟩ := exists_tokens_of_tokenizeFrom h
  exact ⟨init, .eof, rfl, rfl, hinit⟩

/-- **The parser on every script.** A function of the parser that is called at a position in the
range of the tokens, and so every function that it calls, reads tokens of the script only and comes
back with a result at such a position or with an error. From the first position `parse` returns a
program or an error. -/
theorem parser_ends_in_range (classes : CharClasses) (src : String) (toks : List (Tok ν))
    (h : tokenize classes src = .ok toks) :
    (∀ {α : Type} (f : ParserFn ν α) (pos : ℕ), pos < toks.length → Safe f.run ⟨toks, pos⟩) ∧
      0 < toks.length ∧
      ((∃ prog : Program ν, parse classes src = .ok prog) ∨
        ∃ e, (parse classes src : Except _ (Program ν)) = .error (.error e)) := by
  have hclosed := closed_of_tokenize h
  have hsafe : ∀ {α : Type} (f : ParserFn ν α) (pos : ℕ), pos < toks.length →
      Safe f.run ⟨toks, pos⟩ := fun f pos hpos => f.safe hpos (hclosed.rest hpos)
  have hpos : 0 < toks.length := List.length_pos_of_ne_nil hclosed.ne_nil
  refine ⟨hsafe, hpos, ?_⟩
  have hprogram : EndsInRange ⟨toks, 0⟩ (parseProgram (ν := ν) ⟨toks, 0⟩) :=
    hsafe .parseProgram 0 hpos
  have hparse : parse classes src = (parseProgram (ν := ν) ⟨toks, 0⟩).map (·.1) := by
    simp only [parse, h, parseTokens]
  rw [hparse]
  cases hrun : parseProgram (ν := ν) ⟨toks, 0⟩ with
  | error f =>
    rw [hrun] at hprogram
    obtain ⟨e, rfl⟩ := hprogram
    exact .inr ⟨e, rfl⟩
  | ok r => exact .inl ⟨r.1, rfl⟩

end

def openBlock : String := "function f(x) \x7b // no end\n if (x == 1"

theorem parser_ends_in_range_openBlock :
    tokenize asciiClasses openBlock = .ok ([.ident "function", .ident "f", .lParen, .ident "x",
      .rParen, .lBrace, .ident "if", .lParen, .ident "x", .eqEq, .num (some 1), .eof] :
        List (Tok IntDouble)) ∧
      ((∃ prog : Program IntDouble, parse asciiClasses openBlock = .ok prog) ∨
        ∃ e, (parse asciiClasses openBlock : Except _ (Program IntDouble)) = .error (.error e)) :=
  have htokens : tokenize asciiClasses openBlock = .ok ([.ident "function", .ident "f", .lParen,
      .ident "x", .rParen, .lBrace, .ident "if", .lParen, .ident "x", .eqEq, .num (some 1), .eof] :
        List (Tok IntDouble)) := by
    decide +kernel
  ⟨htokens, (parser_ends_in_range asciiClasses openBlock _ htokens).2.2⟩

end MitosNetwork.Pac
