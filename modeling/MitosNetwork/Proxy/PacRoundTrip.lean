import MitosNetwork.Proxy.PacGlobals
import MitosNetwork.Proxy.PacPrint

/-!
# Reading printed PAC scripts back

The parser of `src/proxy/pac.rs` reads every printed program back (`parseTokens_print`). Each parser
of the grammar has a lemma that says which tokens it takes and what may follow them.
-/

namespace MitosNetwork.Pac

open TokenParser List

variable {ν : Type}

variable {k m : ℕ} {t : Tok ν} {α : Type}

/-! ## Reading expressions back -/

def Expr.Plain (e : Expr ν) : Prop := ∀ x ∈ e.identifiers, x ∉ reservedWords

/-- What an operand of level `k` may be printed as, up to a number of tokens. -/
def Operand (m k : ℕ) (ts : List (Tok ν)) (e : Expr ν) : Prop :=
  ts = e.printAt k ∧ e.Plain ∧ ts.length ≤ m

theorem chain_printAt (hk : k < 5) (e : Expr ν) (hplain : e.Plain) (hm : (e.printAt k).length ≤ m) :
    Chain (operatorAt k) (Operand m (k + 1)) (e.printAt k) e := by
  -- by the number of tokens: the left operand of an operator is a chain of the same level
  induction hn : (e.printAt k).length using Nat.strong_induction_on generalizing e with
  | _ n ih =>
    by_cases hlev : e.level = k
    · obtain ⟨t, f, l, r, hop, rfl, hpr, hids⟩ := e.exists_operator hk hlev
      have hbare : (f l r).printAt k = l.printAt k ++ t :: r.printAt (k + 1) := by
        rw [Expr.printAt, parenthesize, if_neg (by omega), hpr]
      have hlen : (l.printAt k).length + (r.printAt (k + 1)).length + 1 = n := by
        rw [← hn, hbare, length_append, length_cons]
        omega
      rw [hbare]
      refine .infixed (ih _ ?_ l ?_ ?_ rfl) hop ⟨rfl, ?_, ?_⟩
      · omega
      · exact fun x hx => hplain x (hids ▸ mem_append_left _ hx)
      · omega
      · exact fun x hx => hplain x (hids ▸ mem_append_right _ hx)
      · omega
    · have hsame : e.printAt k = e.printAt (k + 1) := by
        exact if_congr (by omega) rfl rfl
      exact .operand ⟨hsame, hplain, hm⟩

section

variable [Double ν] {P : Tok ν → Prop}

theorem reads_skipSemi : Reads (skipSemi : PacParser ν Unit) [.semi] () P :=
  .peek_cons (.advance_cons (.pure ()))

theorem beq_lParen : (t == .lParen) = true ↔ t = .lParen := by
  cases t <;> simp [BEq.beq, Tok.eq, Tok.ctorIdx]

theorem Tok.Opens.beq_rParen (h : t.Opens) : (t == .rParen) = false := by
  cases h <;> rfl

theorem Expr.printAt_six (e : Expr ν) : ∃ t ts, e.printAt 6 = t :: ts ∧ (t == .not) = false := by
  unfold Expr.printAt parenthesize
  split
  · exact ⟨_, _, rfl, rfl⟩
  · rename_i hlev
    cases e with
    | str _ | num _ | bool _ | ident _ | call _ _ => exact ⟨_, _, rfl, rfl⟩
    | or _ _ | and _ _ | eq _ _ | notEq _ _ | lt _ _ | gt _ _ | le _ _ | ge _ _ | add _ _ | not _ =>
      simp [Expr.level] at hlev

theorem reads_commaList {item : PacParser ν α} {print : α → List (Tok ν)} {as : List α}
    (hitem : ∀ a ∈ as, Reads item (print a) a (Stops 0))
    (hst : ∀ a ∈ as, ∃ t ts, print a = t :: ts ∧ t.Opens) :
    Reads (commaList item) ([.comma].intercalate (as.map print)) as (· = .rParen) := by
  have hlist : as ≠ [] → Reads (separated (· == .comma) item)
      ([.comma].intercalate (as.map print)) as (· = .rParen) := by
    intro hne
    refine .separated rfl hne hitem (stops_of_level?_eq_none rfl nofun) ?_
    rintro t rfl
    exact ⟨stops_of_level?_eq_none rfl nofun, rfl⟩
  cases as with
  | nil => exact .peek_eq (.pure [])
  | cons a as =>
    obtain ⟨t, ts, hpr, hopens⟩ := hst a mem_cons_self
    obtain ⟨us, htok⟩ : ∃ us, [.comma].intercalate ((a :: as).map print) = t :: us := by
      cases as with
      | nil => exact ⟨ts, by simp [hpr]⟩
      | cons b as =>
        refine ⟨ts ++ .comma :: [.comma].intercalate ((b :: as).map print), ?_⟩
        simp [hpr]
    have hread := hlist (cons_ne_nil a as)
    rw [htok] at hread ⊢
    refine .peek_cons ?_
    rw [hopens.beq_rParen]
    exact hread

end

theorem ne_of_not_mem_reservedWords {x w : String} (hx : x ∉ reservedWords)
    (hw : w ∈ reservedWords) : x ≠ w :=
  fun h => hx (h ▸ hw)

section

variable [Double ν] [DebugText ν] {P : Tok ν → Prop}

variable {us ts : List (Tok ν)} {a : α} {expr : PacParser ν (Expr ν)} {e cond : Expr ν} {s : Stmt ν}
  {elseBranch thenBranch ss : List (Stmt ν)} {stmt : PacParser ν (Stmt ν)} {name : String}
  {items : List (Item ν)}

theorem reads_expect (h : (t == t) = true) : Reads (expect t) [t] () P := by
  refine .peek_cons ?_
  rw [if_pos h]
  exact .advance_cons (.pure ())

theorem reads_expect_cons {f : Unit → PacParser ν α} (h : (t == t) = true)
    (hf : Reads (f ()) us a P) : Reads (expect t >>= f) (t :: us) a P :=
  .bind (P := fun _ => True) (reads_expect h) hf fun _ _ => trivial

section

variable (hexpr : ∀ e : Expr ν, e.Plain → e.print.length < m → Reads expr e.print e (Stops 0))
include hexpr

theorem reads_primary (e : Expr ν) (hplain : e.Plain) (hm : (e.printAt 6).length ≤ m) :
    Reads (parsePrimary expr) (e.printAt 6) e (Stops 5) := by
  by_cases hlev : e.level < 6
  · have hparen : e.printAt 6 = .lParen :: (e.print ++ [.rParen]) := if_pos hlev
    rw [hparen] at hm ⊢
    refine .advance_cons (.bind (hexpr e hplain ?_) (reads_expect rfl).map ?_)
    · simp only [length_cons, length_append] at hm
      omega
    · exact fun _ _ => stops_of_level?_eq_none rfl nofun
  · have hbare : e.printAt 6 = e.print := if_neg hlev
    rw [hbare] at hm ⊢
    cases e with
    | str s | num n => exact .advance_cons (.pure _)
    | bool b => cases b <;> exact .advance_cons (.pure _)
    | ident name =>
      have hname := hplain name (by simp [Expr.identifiers])
      refine .advance_cons ?_
      dsimp only
      rw [if_neg (ne_of_not_mem_reservedWords hname (by decide)),
        if_neg (ne_of_not_mem_reservedWords hname (by decide))]
      refine .peek_nil fun t ht => ?_
      rw [if_neg (fun h => ht.1 (beq_lParen.mp h))]
      exact .pure _
    | call name args =>
      have hname := hplain name (by simp [Expr.identifiers])
      have hargs : Reads (commaList expr) ([.comma].intercalate (args.map Expr.print)) args
          (· = .rParen) := by
        refine reads_commaList (fun a ha => hexpr a ?_ ?_) fun a _ => a.opens_print
        · intro x hx
          refine hplain x (mem_cons_of_mem _ ?_)
          rw [argIdentifiers_eq_flatMap]
          exact mem_flatMap.mpr ⟨a, ha, hx⟩
        · have hlen := length_le_length_intercalate Tok.comma
            (mem_map_of_mem (f := Expr.print) ha)
          rw [Expr.print, printArgs_eq_map] at hm
          simp only [length_cons, length_append] at hm
          omega
      refine .advance_cons ?_
      dsimp only
      rw [if_neg (ne_of_not_mem_reservedWords hname (by decide)),
        if_neg (ne_of_not_mem_reservedWords hname (by decide)), printArgs_eq_map]
      exact .peek_cons (.advance_cons
        (.bind hargs (reads_expect rfl).map fun _ _ => rfl))
    | or _ _ | and _ _ | eq _ _ | notEq _ _ | lt _ _ | gt _ _ | le _ _ | ge _ _ | add _ _ | not _ =>
      simp [Expr.level] at hlev

theorem reads_unary (h : Operand m 5 ts e) : Reads (parseUnary expr) ts e (Stops 5) := by
  refine .recursive (L := Operand m 5) (fun unary ts e he hsh => ?_) h
  obtain ⟨rfl, hplain, hm⟩ := he
  by_cases hnot : ∃ e', e = .not e'
  · obtain ⟨e', rfl⟩ := hnot
    refine .peek_cons (.advance_cons (hsh _ e' ?_ ⟨rfl, hplain, ?_⟩).map)
    · exact Nat.lt_succ_self _
    · exact Nat.le_of_succ_le hm
  · have hsame : e.printAt 5 = e.printAt 6 := by
      have hlev : e.level ≠ 5 := by
        intro h
        cases e <;> simp_all [Expr.level]
      exact if_congr (by omega) rfl rfl
    obtain ⟨t, us, hpr, ht⟩ := e.printAt_six
    have hpri := reads_primary hexpr e hplain (hsame ▸ hm)
    rw [hsame]
    rw [hpr] at hpri ⊢
    refine .peek_cons ?_
    rw [ht]
    exact hpri

/-- The parser of level `k`. -/
def parserAt (expr : PacParser ν (Expr ν)) : ℕ → PacParser ν (Expr ν)
  | 0 => parseOr expr
  | 1 => parseAnd expr
  | 2 => parseEquality expr
  | 3 => parseRelational expr
  | 4 => parseAdditive expr
  | _ => parseUnary expr

omit hexpr in
theorem parserAt_eq_chainLeft (expr : PacParser ν (Expr ν)) (hk : k < 5) :
    parserAt expr k = chainLeft (operatorAt k) (parserAt expr (k + 1)) := by
  rcases k with _ | _ | _ | _ | _ | k
  iterate 5 rfl
  omega

theorem reads_parserAt (j : ℕ) (hj : j ≤ 5) (h : Operand m (5 - j) ts e) :
    Reads (parserAt expr (5 - j)) ts e (Stops (5 - j)) := by
  induction j generalizing ts e with
  | zero => exact reads_unary hexpr h
  | succ j ih =>
    obtain ⟨k, hk⟩ : ∃ k, 5 - j = k + 1 := ⟨4 - j, by omega⟩
    have hsucc : 5 - (j + 1) = k := by omega
    rw [hsucc] at h ⊢
    rw [hk] at ih
    obtain ⟨rfl, hplain, hm⟩ := h
    rw [parserAt_eq_chainLeft expr (by omega)]
    refine .chainLeft (fun us b => ih (by omega)) (fun t f => stops_of_operatorAt) ?_
      (chain_printAt (by omega) e hplain hm)
    exact fun t ht => ⟨⟨ht.1, fun i hi => ht.2 i (by omega)⟩, ht.2 k le_rfl⟩

end

theorem reads_parseExpr (hplain : e.Plain) : Reads parseExpr e.print e (Stops 0) := by
  refine .recursive (L := fun ts e => ts = e.print ∧ e.Plain) (fun expr ts e he hsh => ?_)
    ⟨rfl, hplain⟩
  obtain ⟨rfl, hplain⟩ := he
  have hbare : e.print = e.printAt 0 := by
    rw [Expr.printAt, parenthesize, if_neg (Nat.not_lt_zero _)]
  exact reads_parserAt (fun a ha hlen => hsh _ a hlen ⟨rfl, ha⟩) 5 le_rfl
    ⟨hbare, hplain, le_rfl⟩

/-! ## Reading statements back -/

/-- No identifier is a word of the language, and every expression statement is a call. -/
structure Stmt.Plain (s : Stmt ν) : Prop where
  identifiers : ∀ x ∈ s.identifiers, x ∉ reservedWords
  exprStmts : ∀ e ∈ s.exprStmts, e.isCall = true

/-- The tokens that may follow a statement. -/
def NotElse (t : Tok ν) : Prop := t ≠ .ident "else"

omit [Double ν] in
theorem reads_expectIdent (x : String) :
    Reads (expectIdent : PacParser ν String) [.ident x] x P :=
  .advance_cons (.pure x)

omit [Double ν] in
theorem reads_expectIdent_cons {x : String} {f : String → PacParser ν α} (hf : Reads (f x) us a P) :
    Reads (expectIdent >>= f) (.ident x :: us) a P :=
  .bind (P := fun _ => True) (reads_expectIdent x) hf fun _ _ => trivial

theorem reads_exprSemi (hplain : e.Plain) (f : Expr ν → α) :
    Reads (do
      let e ← parseExpr
      skipSemi
      pure (f e)) (e.print ++ [.semi]) (f e) P :=
  .bind (reads_parseExpr hplain) reads_skipSemi.map
    fun _ _ => stops_of_level?_eq_none rfl nofun

omit [Double ν] [DebugText ν] in
theorem Stmt.Plain.starts (h : s.Plain) :
    ∃ x ts, s.print = .ident x :: ts ∧ x ≠ "else" ∧ x ≠ "function" := by
  cases s with
  | varDecl name init => cases init <;> exact ⟨"var", _, rfl, by decide, by decide⟩
  | assign name e =>
    have hname := h.identifiers name mem_cons_self
    exact ⟨name, _, rfl, ne_of_not_mem_reservedWords hname (by decide),
      ne_of_not_mem_reservedWords hname (by decide)⟩
  | exprStmt e =>
    have hcall := h.exprStmts e mem_cons_self
    cases e with
    | call name args =>
      have hname := h.identifiers name mem_cons_self
      exact ⟨name, _, rfl, ne_of_not_mem_reservedWords hname (by decide),
        ne_of_not_mem_reservedWords hname (by decide)⟩
    | _ => cases hcall
  | ifElse cond thenBranch elseBranch => exact ⟨"if", _, rfl, by decide, by decide⟩
  | ret value => cases value <;> exact ⟨"return", _, rfl, by decide, by decide⟩

omit [Double ν] [DebugText ν] in
theorem Stmt.Plain.of_mem_branch (h : (Stmt.ifElse cond thenBranch elseBranch).Plain)
    (hs : s ∈ thenBranch ∨ s ∈ elseBranch) : s.Plain := by
  rw [← mem_append] at hs
  refine ⟨fun x hx => h.identifiers x ?_, fun e he => h.exprStmts e ?_⟩
  · rw [Stmt.identifiers, stmtIdentifiers_eq_flatMap, stmtIdentifiers_eq_flatMap, append_assoc,
      ← flatMap_append]
    exact mem_append_right _ (mem_flatMap.mpr ⟨s, hs, hx⟩)
  · rw [Stmt.exprStmts, exprStmtsOf_eq_flatMap, exprStmtsOf_eq_flatMap, ← flatMap_append]
    exact mem_flatMap.mpr ⟨s, hs, he⟩

omit [Double ν] [DebugText ν] in
theorem length_print_le_of_mem (h : s ∈ ss) : s.print.length ≤ (printStmts ss).length := by
  rw [printStmts_eq_flatMap]
  exact (sublist_flatten_of_mem (mem_map_of_mem h)).length_le

theorem reads_blockOf {ι : Type} {items : List ι} {print : ι → List (Tok ν)} {item : ι → Stmt ν}
    {Q : Tok ν → Prop} (hstmt : ∀ i ∈ items, Reads stmt (print i) (item i) Q)
    (hst : ∀ i ∈ items, ∃ name us, print i = .ident name :: us)
    (hnext : ∀ i ∈ items.tail, ∀ t ∈ (print i).head?, Q t) (hcl : Q .rBrace) :
    Reads (parseBlock stmt) (.lBrace :: (items.flatMap print ++ [.rBrace])) (items.map item) P := by
  have hturn : ∀ done, ∀ i ∈ items,
      Reads (blockTurn stmt done) (print i) (.inl (done ++ [item i])) Q := by
    intro done i hi
    have hread := (hstmt i hi).map (f := fun s => (Sum.inl (done ++ [s]) :
      List (Stmt ν) ⊕ List (Stmt ν)))
    obtain ⟨x, ts, hpr⟩ := hst i hi
    rw [hpr] at hread ⊢
    exact Reads.peek_cons hread
  have hend : ∀ done, Reads (blockTurn stmt done) [] (.inr done) (· = .rBrace) := fun done =>
    .peek_eq (.pure _)
  have hloop := Reads.loop (s := []) hturn (fun i hi => ?_) hnext (hend _) ?_
  · rw [append_nil, foldl_concat_eq_append] at hloop
    exact reads_expect_cons rfl (.bind hloop (reads_expect rfl).map fun _ _ => rfl)
  · obtain ⟨x, ts, hpr⟩ := hst i hi
    rw [hpr]
    exact cons_ne_nil _ ts
  · rintro t rfl
    exact hcl

theorem reads_parseBlock (hstmt : ∀ s ∈ ss, Reads stmt s.print s NotElse)
    (hplain : ∀ s ∈ ss, s.Plain) :
    Reads (parseBlock stmt) (.lBrace :: (printStmts ss ++ [.rBrace])) ss P := by
  have hblk : Reads (parseBlock stmt) (.lBrace :: (ss.flatMap Stmt.print ++ [.rBrace]))
      (ss.map id) P := by
    refine reads_blockOf hstmt (fun s hs => ?_) (fun s hs t ht => ?_) nofun
    · obtain ⟨x, ts, hpr, -⟩ := (hplain s hs).starts
      exact ⟨x, ts, hpr⟩
    · obtain ⟨x, ts, hpr, hx, -⟩ := (hplain s (mem_of_mem_tail hs)).starts
      rw [hpr] at ht
      obtain rfl := Option.some.inj ht
      exact fun h => hx (Tok.ident.inj h)
  rwa [map_id, ← printStmts_eq_flatMap] at hblk

theorem reads_parseElse
    (hblk : Reads (parseBlock stmt) (.lBrace :: (printStmts ss ++ [.rBrace])) ss NotElse) :
    Reads (parseElse stmt) (if ss.isEmpty then []
      else .ident "else" :: .lBrace :: (printStmts ss ++ [.rBrace])) ss NotElse := by
  cases ss with
  | nil =>
    refine .peek_nil fun t ht => ?_
    cases t with
    | ident kw =>
      dsimp only
      rw [if_neg (fun h => ht (congrArg Tok.ident h))]
      exact .pure []
    | _ => exact .pure []
  | cons s ss => exact .peek_cons (.advance_cons (.peek_cons hblk))

theorem reads_parseVar (name : String) {init : Option (Expr ν)}
    (hplain : ∀ e, init = some e → e.Plain) :
    Reads parseVar (Stmt.varDecl name init).print (.varDecl name init) P := by
  cases init with
  | none =>
    have hinit : Reads (parseInit : PacParser ν _) [] none (· = .semi) := .peek_eq (.pure none)
    exact .advance_cons (reads_expectIdent_cons
      (.bind hinit reads_skipSemi.map fun _ _ => rfl))
  | some e =>
    have hinit : Reads parseInit (.assign :: e.print) (some e) (Stops 0) :=
      .peek_cons (.advance_cons (reads_parseExpr (hplain e rfl)).map)
    exact .advance_cons (reads_expectIdent_cons
      (.bind hinit reads_skipSemi.map fun _ _ => stops_of_level?_eq_none rfl nofun))

theorem reads_parseReturn {value : Option (Expr ν)} (hplain : ∀ e, value = some e → e.Plain) :
    Reads parseReturn (Stmt.ret value).print (.ret value) P := by
  cases value with
  | none =>
    have hval : Reads (parseValue : PacParser ν _) [] none (· = .semi) := .peek_eq (.pure none)
    exact .advance_cons (.bind hval reads_skipSemi.map fun _ _ => rfl)
  | some e =>
    have hval : Reads parseValue e.print (some e) (Stops 0) := by
      have hread := (reads_parseExpr (hplain e rfl)).map (f := some)
      obtain ⟨t, ts, hpr, hopens⟩ := e.opens_print
      rw [hpr] at hread ⊢
      refine .peek_cons ?_
      cases hopens <;> exact hread
    exact .advance_cons (.bind hval reads_skipSemi.map
      fun _ _ => stops_of_level?_eq_none rfl nofun)

theorem reads_parseIf (hcond : cond.Plain)
    (hthen : Reads (parseBlock stmt) (.lBrace :: (printStmts thenBranch ++ [.rBrace])) thenBranch
      fun _ => True)
    (helse : Reads (parseBlock stmt) (.lBrace :: (printStmts elseBranch ++ [.rBrace])) elseBranch
      NotElse) :
    Reads (parseIf stmt) (Stmt.ifElse cond thenBranch elseBranch).print
      (.ifElse cond thenBranch elseBranch) NotElse := by
  have hpr : (Stmt.ifElse cond thenBranch elseBranch).print =
      .ident "if" :: .lParen :: (cond.print ++ .rParen ::
        ((.lBrace :: (printStmts thenBranch ++ [.rBrace])) ++ if elseBranch.isEmpty then []
          else .ident "else" :: .lBrace :: (printStmts elseBranch ++ [.rBrace]))) := by
    simp [Stmt.print]
  rw [hpr]
  refine .advance_cons (reads_expect_cons rfl (.bind (reads_parseExpr hcond)
    (reads_expect_cons rfl ?_) fun _ _ => stops_of_level?_eq_none rfl nofun))
  exact .bind hthen (reads_parseElse helse).map fun _ _ => trivial

omit [Double ν] [DebugText ν] in
theorem length_print_lt_ifElse (hs : s ∈ thenBranch ∨ s ∈ elseBranch) :
    s.print.length < (Stmt.ifElse cond thenBranch elseBranch).print.length := by
  simp only [Stmt.print, length_cons, length_append]
  rcases hs with hs | hs
  · have := length_print_le_of_mem hs
    omega
  · have := length_print_le_of_mem hs
    rw [if_neg (by simpa using ne_nil_of_mem hs)]
    simp only [length_cons, length_append]
    omega

theorem reads_parseStmtWith_ident (hname : name ∉ reservedWords)
    (h : Reads (parseAssignOrExpr name) (.ident name :: ts) s P) :
    Reads (parseStmtWith stmt) (.ident name :: ts) s P := by
  refine .peek_cons ?_
  dsimp only
  rw [if_neg (ne_of_not_mem_reservedWords hname (by decide)),
    if_neg (ne_of_not_mem_reservedWords hname (by decide)),
    if_neg (ne_of_not_mem_reservedWords hname (by decide))]
  exact h

theorem reads_parseStmt (hplain : s.Plain) : Reads parseStmt s.print s NotElse := by
  refine .recursive (L := fun ts s => ts = s.print ∧ s.Plain) (fun stmt ts s hs hsh => ?_)
    ⟨rfl, hplain⟩
  obtain ⟨rfl, hplain⟩ := hs
  cases s with
  | varDecl name init =>
    have hread : Reads parseVar (Stmt.varDecl name init).print (.varDecl name init) NotElse :=
      reads_parseVar name fun e he x hx =>
        hplain.identifiers x (by simp [Stmt.identifiers, he, hx])
    cases init <;> exact .peek_cons hread
  | assign name e =>
    have hval : e.Plain := fun x hx => hplain.identifiers x (mem_cons_of_mem _ hx)
    exact reads_parseStmtWith_ident (hplain.identifiers name mem_cons_self)
      (.peekSecond_cons (.advance_cons (.advance_cons
        (reads_exprSemi hval (Stmt.assign name)))))
  | exprStmt e =>
    have hcall := hplain.exprStmts e mem_cons_self
    cases e with
    | call name args =>
      exact reads_parseStmtWith_ident (hplain.identifiers name mem_cons_self)
        (.peekSecond_cons (reads_exprSemi hplain.identifiers Stmt.exprStmt))
    | _ => cases hcall
  | ifElse cond thenBranch elseBranch =>
    have hcond : cond.Plain := fun x hx => hplain.identifiers x
      (mem_append_left _ (mem_append_left _ hx))
    have hbr : ∀ s, s ∈ thenBranch ∨ s ∈ elseBranch →
        s.Plain ∧ Reads stmt s.print s NotElse := by
      intro s hs
      have hs' : s.Plain := hplain.of_mem_branch hs
      exact ⟨hs', hsh _ s (length_print_lt_ifElse hs) ⟨rfl, hs'⟩⟩
    refine .peek_cons (reads_parseIf hcond (reads_parseBlock ?_ ?_) (reads_parseBlock ?_ ?_))
    · exact fun s hs => (hbr s (.inl hs)).2
    · exact fun s hs => (hbr s (.inl hs)).1
    · exact fun s hs => (hbr s (.inr hs)).2
    · exact fun s hs => (hbr s (.inr hs)).1
  | ret value =>
    have hread : Reads parseReturn (Stmt.ret value).print (.ret value) NotElse :=
      reads_parseReturn fun e he x hx => hplain.identifiers x (by simp [Stmt.identifiers, he, hx])
    cases value <;> exact .peek_cons hread

/-! ## Reading programs back -/

def Item.addTo (prog : Program ν) : Item ν → Program ν
  | .function name decl => { prog with functions := prog.functions.insert name decl }
  | .global s => { prog with globals := prog.globals ++ [s] }

/-- The statements of an item are plain. The parser takes any words as the names of a function and
of its parameters. -/
def Item.Plain : Item ν → Prop
  | .function _ decl => ∀ s ∈ decl.body, s.Plain
  | .global s => s.Plain

theorem reads_parseFunction {decl : FunctionDecl ν} (hbody : ∀ s ∈ decl.body, s.Plain) :
    Reads parseFunction (Item.function name decl).print (name, decl) P := by
  have hparams : Reads (commaList expectIdent) ([.comma].intercalate
      (decl.params.map fun x => [Tok.ident x])) decl.params (· = (.rParen : Tok ν)) :=
    reads_commaList (fun x _ => reads_expectIdent x) fun x _ => ⟨_, _, rfl, .ident x⟩
  refine .advance_cons (reads_expectIdent_cons (reads_expect_cons rfl
    (.bind hparams (reads_expect_cons rfl ?_) fun _ _ => rfl)))
  exact (reads_parseBlock (fun s hs => reads_parseStmt (hbody s hs)) hbody).map

theorem reads_programTurn {item : Item ν} (h : item.Plain) (prog : Program ν) :
    Reads (programTurn prog) item.print (.inl (item.addTo prog)) NotElse := by
  cases item with
  | function name decl => exact .peek_cons (reads_parseFunction h).map
  | global s =>
    have hread := (reads_parseStmt h).map (f := fun s => (Sum.inl (Item.addTo prog (.global s)) :
      Program ν ⊕ Program ν))
    obtain ⟨x, ts, hpr, -, hx⟩ := Stmt.Plain.starts h
    rw [Item.print]
    rw [hpr] at hread ⊢
    have hword : ((.ident x : Tok ν) == .ident "function") = false :=
      (beq_eq_false_iff_ne.mpr hx : (x == "function") = false)
    refine .peek_cons ?_
    rw [hword]
    exact hread

theorem reads_parseProgram (h : ∀ item ∈ items, item.Plain) :
    Reads parseProgram (items.flatMap Item.print) (items.foldl Item.addTo ⟨∅, []⟩) (· = .eof) := by
  have hend : ∀ prog : Program ν, Reads (programTurn prog) [] (.inr prog) (· = .eof) :=
    fun prog => Reads.peek_eq (Reads.pure _)
  have hst : ∀ item ∈ items, ∃ x ts, item.print = .ident x :: ts ∧
      NotElse (.ident x : Tok ν) := by
    intro item hitem
    cases item with
    | function name decl => exact ⟨_, _, rfl, by simp [NotElse]⟩
    | global s =>
      obtain ⟨x, ts, hpr, hx, -⟩ := Stmt.Plain.starts (h _ hitem)
      exact ⟨x, ts, hpr, fun heq => hx (Tok.ident.inj heq)⟩
  have hloop := Reads.loop (s := (⟨∅, []⟩ : Program ν))
    (fun prog item hitem => reads_programTurn (h item hitem) prog) (fun item hitem => ?_)
    (fun item hitem t ht => ?_) (hend _) ?_
  · rw [append_nil] at hloop
    exact hloop
  · obtain ⟨x, ts, hpr, -⟩ := hst item hitem
    rw [hpr]
    exact cons_ne_nil _ ts
  · obtain ⟨x, ts, hpr, hx⟩ := hst item (mem_of_mem_tail hitem)
    rw [hpr] at ht
    obtain rfl := Option.some.inj ht
    exact hx
  · rintro t rfl heq
    cases heq

omit [Double ν] [DebugText ν] in
theorem globals_foldl_addTo (items : List (Item ν)) (prog : Program ν) :
    (items.foldl Item.addTo prog).globals = prog.globals ++ items.filterMap Item.global? := by
  induction items generalizing prog with
  | nil => simp
  | cons item items ih =>
    rw [foldl_cons, ih]
    cases item with
    | function name decl => rfl
    | global s => exact append_assoc prog.globals [s] _

omit [Double ν] [DebugText ν] in
theorem lookup_foldl_addTo (hnd : ((items.filterMap Item.function?).map Sigma.fst).Nodup)
    (prog : Program ν) (name : String) (decl : FunctionDecl ν) :
    (items.foldl Item.addTo prog).functions.lookup name = some decl ↔
      ⟨name, decl⟩ ∈ items.filterMap Item.function? ∨
        name ∉ (items.filterMap Item.function?).map Sigma.fst ∧
          prog.functions.lookup name = some decl := by
  induction items generalizing prog with
  | nil => simp
  | cons item items ih =>
    cases item with
    | global s =>
      exact ih hnd _
    | function f d =>
      have hcons : (Item.function f d :: items).filterMap Item.function? =
          ⟨f, d⟩ :: items.filterMap Item.function? := rfl
      rw [hcons, map_cons, nodup_cons] at hnd
      rw [hcons, foldl_cons, ih hnd.2, Item.addTo]
      by_cases hf : name = f
      · subst hf
        have hmem : (⟨name, decl⟩ : Σ _ : String, FunctionDecl ν) ∉
            items.filterMap Item.function? :=
          fun h => hnd.1 (mem_map.mpr ⟨_, h, rfl⟩)
        simp [hmem, hnd.1, eq_comm]
      · simp [hf]

omit [Double ν] [DebugText ν] in
theorem Layout.plain {prog : Program ν} (hlay : Layout prog items)
    (hwords : ∀ x ∈ prog.identifiers, x ∉ reservedWords)
    (hcs : ∀ e ∈ prog.exprStmts, e.isCall = true) : ∀ item ∈ items, item.Plain := by
  intro item hitem
  cases item with
  | function name decl =>
    have hent : (⟨name, decl⟩ : Σ _ : String, FunctionDecl ν) ∈ prog.functions.entries :=
      hlay.functions.mem_iff.mp (mem_filterMap.mpr ⟨_, hitem, rfl⟩)
    refine fun s hs => ⟨fun x hx => hwords x ?_, fun e he => hcs e ?_⟩
    · refine mem_append_left _ (mem_flatMap.mpr ⟨_, hent, mem_cons_of_mem _ ?_⟩)
      rw [stmtIdentifiers_eq_flatMap]
      exact mem_append_right _ (mem_flatMap.mpr ⟨s, hs, hx⟩)
    · refine mem_append_left _ (mem_flatMap.mpr ⟨_, hent, ?_⟩)
      rw [exprStmtsOf_eq_flatMap]
      exact mem_flatMap.mpr ⟨s, hs, he⟩
  | global s =>
    have hglobal : s ∈ prog.globals := by
      rw [← hlay.globals]
      exact mem_filterMap.mpr ⟨_, hitem, rfl⟩
    refine ⟨fun x hx => hwords x ?_, fun e he => hcs e ?_⟩
    · rw [Program.identifiers, stmtIdentifiers_eq_flatMap prog.globals]
      exact mem_append_right _ (mem_flatMap.mpr ⟨s, hglobal, hx⟩)
    · rw [Program.exprStmts, exprStmtsOf_eq_flatMap prog.globals]
      exact mem_append_right _ (mem_flatMap.mpr ⟨s, hglobal, he⟩)

/-- **The parser reads printed programs back.** A program none of whose identifiers is a word of the
language, and whose expression statements are calls, is printed with its items in any order; the
parser ends with the same functions and the same statements. -/
theorem parseTokens_print (prog : Program ν) (items : List (Item ν)) (hlayout : Layout prog items)
    (hwords : ∀ x ∈ prog.identifiers, x ∉ reservedWords)
    (hcalls : ∀ e ∈ prog.exprStmts, e.isCall = true) :
    ∃ prog', parseTokens (items.flatMap Item.print ++ [.eof]) = .ok prog' ∧
      (∀ name, prog'.functions.lookup name = prog.functions.lookup name) ∧
      prog'.globals = prog.globals := by
  have hnodup : ((items.filterMap Item.function?).map Sigma.fst).Nodup :=
    (hlayout.functions.map Sigma.fst).nodup_iff.mpr prog.functions.nodupKeys
  have hread := reads_parseProgram (hlayout.plain hwords hcalls)
    ⟨items.flatMap Item.print ++ [.eof], 0⟩ .eof [] rfl rfl
  refine ⟨_, by rw [parseTokens, hread]; rfl, fun name => Option.ext fun decl => ?_, ?_⟩
  · rw [lookup_foldl_addTo hnodup, hlayout.functions.mem_iff, Table.mem_entries_iff]
    simp
  · rw [globals_foldl_addTo, hlayout.globals]
    rfl

end

instance : DebugText IntDouble where
  str s := "\"" ++ s ++ "\""
  num := Double.display

/-- `(plain || local) && !(host == "a" + "b")`, with a call on the left. -/
def directCondition : Expr IntDouble :=
  .and (.or (.call "isPlainHostName" [.ident "host"]) (.ident "local"))
    (.not (.eq (.ident "host") (.add (.str "a") (.str "b"))))

/-- A function between two global statements. -/
def directItems : List (Item IntDouble) :=
  [.global (.varDecl "local" (some (.lt (.num (some 1)) (.num (some 2))))),
    .function "FindProxyForURL" ⟨["url", "host"],
      [.ifElse directCondition [.ret (some (.str "DIRECT"))]
        [.exprStmt (.call "alert" []), .ret none]]⟩,
    .global (.assign "local" (.bool false))]

def directScript : Program IntDouble := directItems.foldl Item.addTo ⟨∅, []⟩

theorem parseTokens_print_direct :
    ∃ prog', parseTokens (directItems.flatMap Item.print ++ [.eof]) = .ok prog' ∧
      (∀ name, prog'.functions.lookup name = directScript.functions.lookup name) ∧
      prog'.globals = directScript.globals :=
  parseTokens_print directScript directItems ⟨.refl _, rfl⟩ (by decide) (by decide)

end MitosNetwork.Pac
