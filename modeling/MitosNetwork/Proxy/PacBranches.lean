import MitosNetwork.Proxy.PacLocality

/-!
# Branches without braces

The module comment of `src/proxy/pac.rs` lists `if`/`else` among the statements of the language, but
`parse_stmt` takes a block after the condition and after an `else` that no `if` follows. Conditions
and statements are any tokens that the parser accepts, in one script; that it then takes them in
every script is the locality of the parser.
-/

namespace MitosNetwork.Pac

open TokenParser

variable {ν : Type}

/-- A statement as a block of its own. -/
def brace (stmt : List (Tok ν)) : List (Tok ν) := .lBrace :: (stmt ++ [.rBrace])

/-- An `if` with a branch and what follows it. -/
def ifTokens (cond branch other : List (Tok ν)) : List (Tok ν) :=
  .ident "if" :: .lParen :: (cond ++ .rParen :: (branch ++ other))

/-- The three forms of a branch that is a single statement. -/
inductive Fragment (ν : Type) where
  /-- `if (cond) stmt` -/
  | ifThen (cond stmt : List (Tok ν))
  /-- `if (cond) stmt else other` -/
  | ifThenElse (cond stmt other : List (Tok ν))
  /-- `if (cond) block else stmt` -/
  | elseOf (cond block stmt : List (Tok ν))

namespace Fragment

def unbraced : Fragment ν → List (Tok ν)
  | ifThen cond stmt => ifTokens cond stmt []
  | ifThenElse cond stmt other => ifTokens cond stmt (.ident "else" :: other)
  | elseOf cond block stmt => ifTokens cond block (.ident "else" :: stmt)

def braced : Fragment ν → List (Tok ν)
  | ifThen cond stmt => ifTokens cond (brace stmt) []
  | ifThenElse cond stmt other => ifTokens cond (brace stmt) (.ident "else" :: brace other)
  | elseOf cond block stmt => ifTokens cond block (.ident "else" :: brace stmt)

/-- The branch follows an `else` and is an `if` itself. -/
def IsElseIf : Fragment ν → Prop
  | elseOf _ _ stmt => stmt.head? = some (.ident "if")
  | _ => False

end Fragment

section

variable {α : Type} [Double ν] [DebugText ν]

/-- Between the tokens `before` and `after`, the parser takes `ts` and returns `a`. -/
def ParsesAt (p : PacParser ν α) (before ts after : List (Tok ν)) (a : α) : Prop :=
  p ⟨before ++ (ts ++ after), before.length⟩ =
    .ok (a, ⟨before ++ (ts ++ after), before.length + ts.length⟩)

/-- In some script the parser takes `ts`, before the token `next`, and returns `a`. -/
def Accepts (p : PacParser ν α) (ts : List (Tok ν)) (next : Tok ν) (a : α) : Prop :=
  ∃ before more, scriptEnd.Closed (before ++ (ts ++ next :: more)) ∧
    ParsesAt p before ts (next :: more) a

/-- The parser accepts the parts of the fragment: the condition before its parenthesis, a block
before the `else`, and the statements before `next`. -/
def Fragment.Accepted (next : Tok ν) : Fragment ν → Prop
  | .ifThen cond stmt =>
    (∃ e, Accepts parseExpr cond .rParen e) ∧ ∃ s, Accepts parseStmt stmt next s
  | .ifThenElse cond stmt other => (∃ e, Accepts parseExpr cond .rParen e) ∧
    (∃ s, Accepts parseStmt stmt next s) ∧ ∃ s, Accepts parseStmt other next s
  | .elseOf cond block stmt => (∃ e, Accepts parseExpr cond .rParen e) ∧
    (∃ ss, Accepts (parseBlock parseStmt) block (.ident "else") ss) ∧
      ∃ s, Accepts parseStmt stmt next s

/-! ## What is accepted is read everywhere -/

section

variable {ts : List (Tok ν)} {next : Tok ν} {a : α}

omit [Double ν] [DebugText ν] in
theorem parsesAt_of_reads {p : PacParser ν α} {P : Tok ν → Prop} (h : Reads p ts a P)
    (before : List (Tok ν)) (hnext : P next) (more : List (Tok ν)) :
    ParsesAt p before ts (next :: more) a :=
  h _ next more List.drop_left hnext

omit [Double ν] [DebugText ν] in
theorem not_parsesAt_of_rejects {p : PacParser ν α} {P : Tok ν → Prop} {e : NetworkError}
    (h : Rejects p ts e P) (before : List (Tok ν)) (hnext : P next) (more : List (Tok ν)) :
    ¬ParsesAt p before ts (next :: more) a := by
  intro hrun
  have hfail := h ⟨before ++ (ts ++ next :: more), before.length⟩ next more List.drop_left hnext
  rw [ParsesAt, hfail] at hrun
  cases hrun

omit [Double ν] [DebugText ν] in
theorem Accepts.reads {p q : PacParser ν α} {M : α → Prop} (h : Accepts p ts next a)
    (hloc : PacLocal 0 (ts.length + 1) M p q) :
    Reads q ts a (scriptEnd.Alt next) ∧ (M a → ts ≠ []) := by
  obtain ⟨before, more, hcl, hrun⟩ := h
  have hrest : Cursor.rest ⟨before ++ (ts ++ next :: more), before.length⟩ = ts ++ next :: more :=
    List.drop_left
  refine hloc.reads ?_ hrest hrun (Nat.lt_succ_self _)
  refine hcl.rest ?_
  simp only [List.length_append, List.length_cons]
  omega

end

section

variable {stmt : List (Tok ν)} {next : Tok ν} {s : Stmt ν}

theorem Accepts.reads_nest (h : Accepts parseStmt stmt next s) {m : ℕ} (hm : stmt.length < m) :
    Reads (nest parseStmtWith m) stmt s (scriptEnd.Alt next) :=
  (h.reads (M := fun _ => True)
    (.recursive_nest (fun _ _ _ _ _ _ hstmt => local_parseStmtWith hstmt) hm)).1

theorem Accepts.reads_parseBlock {block : List (Tok ν)} {ss : List (Stmt ν)}
    (h : Accepts (parseBlock parseStmt) block next ss) {m : ℕ} (hm : block.length ≤ m) :
    Reads (parseBlock (nest parseStmtWith m)) block ss (scriptEnd.Alt next) :=
  (h.reads (local_parseBlock
    (.recursive_nest (fun _ _ _ _ _ _ hstmt => local_parseStmtWith hstmt) hm))).1

theorem rejects_parseStmt {t : Tok ν} (ht : ∀ name, t ≠ .ident name) {us : List (Tok ν)}
    {P : Tok ν → Prop} : Rejects parseStmt (t :: us)
      (.parse ("unexpected token " ++ t.debug ++ " in PAC script")) P := by
  refine .of_nest fun m _ => .peek_cons fun _ _ _ _ _ => ?_
  cases t with
  | ident name => exact absurd rfl (ht name)
  | _ => rfl

theorem Accepts.exists_ident (h : Accepts parseStmt stmt next s) :
    ∃ name us, stmt = .ident name :: us := by
  obtain ⟨t, us, rfl⟩ := List.exists_cons_of_ne_nil ((h.reads local_parseStmt).2 trivial)
  by_contra hident
  have ht : ∀ name, t ≠ .ident name := fun name ht => hident ⟨name, us, by rw [ht]⟩
  obtain ⟨before, more, -, hrun⟩ := h
  exact not_parsesAt_of_rejects (P := fun _ => True) (rejects_parseStmt ht) before trivial more hrun

end

/-! ## Branches -/

section

variable {cond block other stmt us : List (Tok ν)} {p : PacParser ν (Stmt ν)} {e : Expr ν}
  {s : Stmt ν} {ss : List (Stmt ν)} {P Q : Tok ν → Prop}

def noBlock (ν : Type) [DebugText ν] (word : String) : NetworkError :=
  .parse ("expected " ++ Tok.debug (.lBrace : Tok ν) ++ ", found " ++
    Tok.debug (.ident word : Tok ν) ++ " in PAC script")

theorem rejects_parseBlock (word : String) :
    Rejects (parseBlock p) (.ident word :: us) (noBlock ν word) P := by
  refine .bind_left (.peek_cons ?_) _
  intro _ _ _ _ _
  rfl

theorem rejects_expect_cons {t : Tok ν} {f : Unit → PacParser ν α} {err : NetworkError}
    (h : (t == t) = true) (hf : Rejects (f ()) us err P) :
    Rejects (expect t >>= f) (t :: us) err P :=
  .bind (P := fun _ => True) (reads_expect h) hf fun _ _ => trivial

theorem reads_brace (hstmt : Reads p stmt s Q) (hst : ∃ name us, stmt = .ident name :: us)
    (hcl : Q .rBrace) : Reads (parseBlock p) (brace stmt) [s] P := by
  have hblock : Reads (parseBlock p) (.lBrace :: ([()].flatMap (fun _ => stmt) ++ [.rBrace]))
      ([()].map fun _ => s) P :=
    reads_blockOf (fun _ _ => hstmt) (fun _ _ => hst) nofun hcl
  rwa [List.flatMap_singleton] at hblock

variable (hcond : Reads parseExpr cond e (scriptEnd.Alt .rParen))
include hcond

theorem reads_if (hblock : Reads (parseBlock p) block ss Q) {ss' : List (Stmt ν)}
    (hother : Reads (parseElse p) other ss' P) (hnext : ∀ t, P t → Q (other.headD t)) :
    Reads (parseStmtWith p) (ifTokens cond block other) (.ifElse e ss ss') P :=
  .peek_cons (.advance_cons (reads_expect_cons rfl (.bind hcond
    (reads_expect_cons rfl (.bind hblock hother.map hnext)) fun _ _ => .inl rfl)))

theorem rejects_if (word : String) :
    Rejects (parseStmtWith p) (ifTokens cond (.ident word :: us) other) (noBlock ν word) P :=
  .peek_cons (.advance_cons (rejects_expect_cons rfl (.bind hcond (rejects_expect_cons rfl
    (.bind_left (rejects_parseBlock word) _)) fun _ _ => .inl rfl)))

theorem rejects_else (hblock : Reads (parseBlock p) block ss (scriptEnd.Alt (.ident "else")))
    {word : String} (hword : word ≠ "if") :
    Rejects (parseStmtWith p) (ifTokens cond block (.ident "else" :: .ident word :: us))
      (noBlock ν word) P := by
  have helse : Rejects (parseElse p) (.ident "else" :: .ident word :: us) (noBlock ν word) P := by
    refine .peek_cons (.advance_cons (.peek_cons ?_))
    dsimp only
    rw [if_neg hword]
    exact rejects_parseBlock word
  exact .peek_cons (.advance_cons (rejects_expect_cons rfl (.bind hcond (rejects_expect_cons rfl
    (.bind hblock (.bind_left helse _) fun _ _ => .inl rfl)) fun _ _ => .inl rfl)))

end

theorem not_parsesAt_if {cond stmt other before more : List (Tok ν)} {next : Tok ν} {e : Expr ν}
    {s s' : Stmt ν} (hcond : Accepts parseExpr cond .rParen e)
    (hstmt : Accepts parseStmt stmt next s) :
    ¬ParsesAt parseStmt before (ifTokens cond stmt other) (next :: more) s' := by
  obtain ⟨word, us, rfl⟩ := hstmt.exists_ident
  have hrej : Rejects parseStmt (ifTokens cond (.ident word :: us) other) (noBlock ν word)
      fun _ => True :=
    .of_nest fun m _ => rejects_if (hcond.reads local_parseExpr).1 word
  exact not_parsesAt_of_rejects hrej before trivial more

section

variable {cond block stmt : List (Tok ν)} {next : Tok ν} {e : Expr ν} {ss : List (Stmt ν)}
  {s : Stmt ν}

omit [Double ν] [DebugText ν] in
theorem length_lt_ifTokens (cond block stmt : List (Tok ν)) :
    block.length ≤ (ifTokens cond block (.ident "else" :: stmt)).length ∧
      stmt.length < (ifTokens cond block (.ident "else" :: stmt)).length := by
  simp only [ifTokens, List.length_cons, List.length_append]
  omega

variable (hcond : Accepts parseExpr cond .rParen e)
  (hblock : Accepts (parseBlock parseStmt) block (.ident "else") ss)
  (hstmt : Accepts parseStmt stmt next s)
include hcond hblock hstmt

theorem reads_elseIf (hif : stmt.head? = some (.ident "if")) :
    Reads parseStmt (ifTokens cond block (.ident "else" :: stmt)) (.ifElse e ss [s])
      (scriptEnd.Alt next) := by
  refine .of_nest fun m hm => ?_
  obtain ⟨hlblock, hlstmt⟩ := length_lt_ifTokens cond block stmt
  have hread := hstmt.reads_nest (Nat.lt_of_lt_of_le hlstmt hm)
  obtain ⟨us, rfl⟩ : ∃ us, stmt = .ident "if" :: us := List.head?_eq_some_iff.mp hif
  exact reads_if (hcond.reads local_parseExpr).1 (hblock.reads_parseBlock (hlblock.trans hm))
    (.peek_cons (.advance_cons (.peek_cons hread.map))) fun _ _ => .inl rfl

theorem reads_elseBrace (hcl : scriptEnd.Alt next .rBrace) :
    Reads parseStmt (ifTokens cond block (.ident "else" :: brace stmt)) (.ifElse e ss [s])
      (scriptEnd.Alt next) := by
  refine .of_nest fun m hm => ?_
  obtain ⟨hlblock, hlbrace⟩ := length_lt_ifTokens cond block (brace stmt)
  have hlstmt : stmt.length < (brace stmt).length := by
    simp only [brace, List.length_cons, List.length_append]
    omega
  have hread := hstmt.reads_nest (m := m) (by omega)
  exact reads_if (hcond.reads local_parseExpr).1 (hblock.reads_parseBlock (hlblock.trans hm))
    (.peek_cons (.advance_cons (.peek_cons
      (reads_brace hread hstmt.exists_ident hcl)))) fun _ _ => .inl rfl

end

/-- **Branches without braces.** A branch that is a single statement is parsed as the block of that
statement exactly when it is an `if` after an `else`. -/
theorem unbraced_same_iff (frag : Fragment ν) (next : Tok ν) (hnext : next = .eof ∨ next = .rBrace)
    (haccepted : frag.Accepted next) (before more : List (Tok ν)) :
    (∃ s, ParsesAt parseStmt before frag.unbraced (next :: more) s ∧
      ParsesAt parseStmt before frag.braced (next :: more) s) ↔ frag.IsElseIf := by
  have hclose : scriptEnd.Alt next .rBrace := by
    rcases hnext with rfl | rfl
    · exact .inr ⟨rfl, rfl⟩
    · exact .inl rfl
  cases frag with
  | ifThen cond stmt =>
    obtain ⟨⟨e, hcond⟩, s, hstmt⟩ := haccepted
    exact ⟨fun ⟨_, hun, _⟩ => not_parsesAt_if hcond hstmt hun, False.elim⟩
  | ifThenElse cond stmt other =>
    obtain ⟨⟨e, hcond⟩, ⟨s, hstmt⟩, -⟩ := haccepted
    exact ⟨fun ⟨_, hun, _⟩ => not_parsesAt_if hcond hstmt hun, False.elim⟩
  | elseOf cond block stmt =>
    obtain ⟨⟨e, hcond⟩, ⟨ss, hblock⟩, s, hstmt⟩ := haccepted
    refine ⟨fun ⟨s', hun, _⟩ => ?_, fun hif => ?_⟩
    · obtain ⟨word, us, rfl⟩ := hstmt.exists_ident
      by_contra hif
      have hword : word ≠ "if" := fun h => hif (by rw [h]; rfl)
      have hreject : Rejects parseStmt
          (ifTokens cond block (.ident "else" :: .ident word :: us)) (noBlock ν word)
          fun _ => True := .of_nest fun m hm =>
        rejects_else (hcond.reads local_parseExpr).1 (hblock.reads_parseBlock
          ((length_lt_ifTokens cond block _).1.trans hm)) hword
      exact not_parsesAt_of_rejects hreject before trivial more hun
    · exact ⟨.ifElse e ss [s],
        parsesAt_of_reads (reads_elseIf hcond hblock hstmt hif) before (.inl rfl) more,
        parsesAt_of_reads (reads_elseBrace hcond hblock hstmt hclose) before (.inl rfl) more⟩

end

/-! ## Two scripts -/

theorem accepts_condition : Accepts parseExpr [.ident "a"] (.rParen : Tok IntDouble) (.ident "a") :=
  ⟨[], [.eof], ⟨[.ident "a", .rParen], .eof, rfl, rfl, by simp [scriptEnd]⟩, rfl⟩

/-- `if (a) {} else if (b) {}` -/
def elseIf : Fragment IntDouble :=
  .elseOf [.ident "a"] [.lBrace, .rBrace]
    [.ident "if", .lParen, .ident "b", .rParen, .lBrace, .rBrace]

theorem accepted_elseIf : elseIf.Accepted .eof := by
  refine ⟨⟨_, accepts_condition⟩, ⟨[], [], [.eof], ?_, rfl⟩, .ifElse (.ident "b") [] [], [], [], ?_,
    rfl⟩
  · exact ⟨[.lBrace, .rBrace, .ident "else"], .eof, rfl, rfl, by simp [scriptEnd]⟩
  · exact ⟨[.ident "if", .lParen, .ident "b", .rParen, .lBrace, .rBrace], .eof, rfl, rfl,
      by simp [scriptEnd]⟩

theorem unbraced_same_elseIf :
    ∃ s, ParsesAt parseStmt [] elseIf.unbraced [.eof] s ∧
      ParsesAt parseStmt [] elseIf.braced [.eof] s :=
  (unbraced_same_iff elseIf .eof (.inl rfl) accepted_elseIf [] []).mpr rfl

/-- `if (a) return;` -/
def guardReturn : Fragment IntDouble := .ifThen [.ident "a"] [.ident "return", .semi]

theorem unbraced_return_rejected :
    guardReturn.Accepted .eof ∧
      tokenize asciiClasses "if (a) return;" = .ok (guardReturn.unbraced ++ [.eof]) ∧
      parseStmt ⟨guardReturn.unbraced ++ [.eof], 0⟩ =
        .error (.error (.parse "expected LBrace, found Ident(\"return\") in PAC script")) ∧
      tokenize asciiClasses "if (a) \x7b return; \x7d" = .ok (guardReturn.braced ++ [.eof]) ∧
      ParsesAt parseStmt [] guardReturn.braced [.eof] (.ifElse (.ident "a") [.ret none] []) := by
  refine ⟨⟨⟨_, accepts_condition⟩, .ret none, [], [], ?_, rfl⟩, by decide +kernel, rfl,
    by decide +kernel, rfl⟩
  exact ⟨[.ident "return", .semi], .eof, rfl, rfl, by simp [scriptEnd]⟩

end MitosNetwork.Pac
