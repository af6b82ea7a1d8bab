import MitosNetwork.Proxy.PacGlobals
import MitosNetwork.Proxy.PacTokenizer

/-!
# The layout of PAC scripts

Tokens written down with blanks and comments between them are read back by `tokenize`, whatever the
blanks and comments are (`tokenize_render`). A turn of the tokenizer looks at most one character
past its token, and the character after a token is a blank or the slash of a comment, which no token
goes on with.
-/

namespace MitosNetwork.Pac

open List Text

variable {c : Char} {cs rest : List Char}

/-! ## Characters -/

/-- What the classes of Unicode have in common with those of ASCII: the same characters of ASCII,
and no blank is a letter or a numeral. -/
structure CharClasses.Lawful (classes : CharClasses) : Prop where
  isAlphabetic_ascii : ∀ c, c.toNat < 128 → classes.isAlphabetic c = isAsciiAlphabetic c
  isNumeric_ascii : ∀ c, c.toNat < 128 → classes.isNumeric c = isAsciiDigit c
  isAlphanumeric_whitespace : ∀ c, isWhitespace c = true → classes.isAlphanumeric c = false

theorem toNat_lt_of_isAlphanumeric (h : asciiClasses.isAlphanumeric c = true) : c.toNat < 128 := by
  have hle : ∀ {d : Char}, d.toNat < 128 → c ≤ d → c.toNat < 128 :=
    fun hd hcd => Nat.lt_of_le_of_lt hcd hd
  simp only [CharClasses.isAlphanumeric, asciiClasses, isAsciiAlphabetic, isAsciiDigit,
    Bool.or_eq_true, Bool.and_eq_true, decide_eq_true_eq] at h
  rcases h with (h | h) | h
  · exact hle (by decide) h.2
  · exact hle (by decide) h.2
  · exact hle (by decide) h.2

theorem lawful_asciiClasses : asciiClasses.Lawful where
  isAlphabetic_ascii _ _ := rfl
  isNumeric_ascii _ _ := rfl
  isAlphanumeric_whitespace c hc := by
    rw [← Bool.not_eq_true]
    intro hletter
    have hfalse := of_ascii
      (P := fun c => isWhitespace c = true → asciiClasses.isAlphanumeric c = false)
      (by decide +kernel) (toNat_lt_of_isAlphanumeric hletter)
    exact absurd (hletter.symm.trans (hfalse hc)) (by decide)

section Classes

variable {classes : CharClasses}

theorem CharClasses.Lawful.isIdentStart_ascii (h : classes.Lawful) (hc : c.toNat < 128) :
    isIdentStart classes c = isIdentStart asciiClasses c := by
  rw [isIdentStart, h.isAlphabetic_ascii c hc]
  rfl

theorem CharClasses.Lawful.isIdentChar_ascii (h : classes.Lawful) (hc : c.toNat < 128) :
    isIdentChar classes c = isIdentChar asciiClasses c := by
  rw [isIdentChar, CharClasses.isAlphanumeric, h.isAlphabetic_ascii c hc, h.isNumeric_ascii c hc]
  rfl

theorem CharClasses.Lawful.isIdentChar_whitespace (h : classes.Lawful)
    (hc : isWhitespace c = true) : isIdentChar classes c = false := by
  have hne : ∀ {d : Char}, isWhitespace d = false → c ≠ d := by
    rintro d hd rfl
    exact absurd (hc.symm.trans hd) (by decide)
  rw [isIdentChar, h.isAlphanumeric_whitespace c hc, beq_false_of_ne (hne (by decide)),
    beq_false_of_ne (hne (by decide))]
  rfl

end Classes

/-! ## Blanks and comments -/

/-- A piece of what may stand between two tokens. -/
inductive Gap where
  | blank (c : Char) (h : isWhitespace c = true)
  /-- A comment from two slashes to the end of the line. -/
  | line (body : List Char) (h : '\n' ∉ body)
  /-- A comment between a slash with a star and a star with a slash. -/
  | block (body : List Char) (h : ¬['*', '/'] <:+: body)

def Gap.text : Gap → List Char
  | blank c _ => [c]
  | line body _ => '/' :: '/' :: body ++ ['\n']
  | block body _ => '/' :: '*' :: body ++ ['*', '/']

theorem skipComment_append {body : List Char} (h : ¬['*', '/'] <:+: body) (rest : List Char) :
    skipComment (body ++ '*' :: '/' :: rest) = rest := by
  induction body with
  | nil => rfl
  | cons c body ih =>
    have hbody : ¬['*', '/'] <:+: body := fun hin => h (hin.trans (suffix_cons c body).isInfix)
    rw [cons_append, skipComment, ih hbody]
    -- Only a star with a slash ends the comment, and the two would be in the body.
    rintro rest' rfl hstar
    cases body with
    | nil => cases hstar
    | cons d body =>
      obtain ⟨rfl, -⟩ := List.cons.inj hstar
      exact h ⟨[], body, rfl⟩

section Tokenize

variable {ν : Type} [Double ν] {classes : CharClasses}

theorem tokenizeFrom_of_scan {tok : Option (Tok ν)} (h : scan classes c cs = .ok (tok, rest)) :
    tokenizeFrom classes (c :: cs) = (tokenizeFrom classes rest).map (tok.toList ++ ·) := by
  rw [tokenizeFrom.eq_def]
  dsimp only
  split
  · rename_i hscan
    cases h.symm.trans hscan
  · rename_i hscan
    cases h.symm.trans hscan
    rfl

theorem tokenizeFrom_of_scan_none (h : scan classes c cs = .ok ((none : Option (Tok ν)), rest)) :
    (tokenizeFrom classes (c :: cs) : Except NetworkError (List (Tok ν))) =
      tokenizeFrom classes rest := by
  rw [tokenizeFrom_of_scan h]
  cases (tokenizeFrom classes rest : Except NetworkError (List (Tok ν))) <;> rfl

theorem scan_whitespace (hc : isWhitespace c = true) (cs : List Char) :
    scan classes c cs = .ok ((none : Option (Tok ν)), cs) := by
  rw [scan, if_pos hc]

theorem tokenizeFrom_gap (gap : Gap) (rest : List Char) :
    (tokenizeFrom classes (gap.text ++ rest) : Except NetworkError (List (Tok ν))) =
      tokenizeFrom classes rest := by
  cases gap with
  | blank c h => exact tokenizeFrom_of_scan_none (scan_whitespace h rest)
  | line body h =>
    -- The comment goes up to the newline, which is a blank of its own.
    have hbody : ∀ c ∈ '/' :: '/' :: body, (c != '\n') = true := by
      intro c hc
      simp only [mem_cons] at hc
      rcases hc with rfl | rfl | hc
      · rfl
      · rfl
      · exact bne_iff_ne.mpr fun heq => h (heq ▸ hc)
    have hscan : scan classes '/' ('/' :: body ++ ['\n'] ++ rest) =
        .ok ((none : Option (Tok ν)), '\n' :: rest) := by
      rw [scan, if_neg (by decide), if_pos ⟨rfl, rfl⟩]
      have hdrop : ('/' :: ('/' :: body ++ ['\n'] ++ rest)).dropWhile (· != '\n') =
          '\n' :: rest := by
        have hsp : '/' :: ('/' :: body ++ ['\n'] ++ rest) =
            '/' :: '/' :: body ++ '\n' :: rest := by simp
        rw [hsp, dropWhile_append_of_pos hbody]
        rfl
      rw [hdrop]
    exact (tokenizeFrom_of_scan_none hscan).trans
      (tokenizeFrom_of_scan_none (scan_whitespace rfl rest))
  | block body h =>
    have hscan : scan classes '/' ('*' :: body ++ ['*', '/'] ++ rest) =
        .ok ((none : Option (Tok ν)), rest) := by
      rw [scan, if_neg (by decide)]
      have hskip := skipComment_append h rest
      simpa using hskip
    exact tokenizeFrom_of_scan_none hscan

theorem tokenizeFrom_gaps (gaps : List Gap) (rest : List Char) :
    (tokenizeFrom classes (gaps.flatMap Gap.text ++ rest) : Except NetworkError (List (Tok ν))) =
      tokenizeFrom classes rest := by
  induction gaps with
  | nil => rfl
  | cons gap gaps ih => rw [flatMap_cons, append_assoc, tokenizeFrom_gap, ih]

end Tokenize

/-! ## Tokens -/

inductive Quote where
  | double
  | single
deriving DecidableEq

def Quote.char : Quote → Char
  | double => '"'
  | single => '\x27'

def Quote.escape (q : Quote) (c : Char) : List Char :=
  if c = q.char ∨ c = '\\' then ['\\', c] else [c]

variable {ν : Type}

/-- A token as it is written in a script; `Num` and `Eof` are not. -/
def spell (q : Quote) : Tok ν → List Char
  | .ident name => name.toList
  | .str s => q.char :: s.toList.flatMap q.escape ++ [q.char]
  | .num _ => []
  | .lParen => ['(']
  | .rParen => [')']
  | .lBrace => ['\x7b']
  | .rBrace => ['\x7d']
  | .semi => [';']
  | .comma => [',']
  | .assign => ['=']
  | .eqEq => ['=', '=']
  | .notEq => ['!', '=']
  | .not => ['!']
  | .andAnd => ['&', '&']
  | .orOr => ['|', '|']
  | .plus => ['+']
  | .lt => ['<']
  | .gt => ['>']
  | .le => ['<', '=']
  | .ge => ['>', '=']
  | .eof => []

/-- The tokens with a spelling. The name of an identifier begins with a letter, `_` or `$`, and goes
on with these and numerals. -/
def Writable (classes : CharClasses) : Tok ν → Prop
  | .ident name => ∃ c cs, name.toList = c :: cs ∧ isIdentStart classes c = true ∧
      ∀ d ∈ cs, isIdentChar classes d = true
  | .num _ => False
  | .eof => False
  | _ => True

/-- What may stand right after a token. -/
def Separated (rest : List Char) : Prop :=
  ∀ c ∈ rest.head?, Text.isWhitespace c = true ∨ c = '/'

theorem Separated.head_ne (h : Separated rest) (hbl : Text.isWhitespace c = false)
    (hsl : c ≠ '/') : rest.head? ≠ some c := by
  intro hc
  rcases h c hc with hwh | hwh
  · exact absurd (hwh.symm.trans hbl) (by decide)
  · exact hsl hwh

theorem separated_nil : Separated [] := fun c hc => (Option.some_ne_none c hc.symm).elim

theorem separated_gap (gap : Gap) (rest : List Char) : Separated (gap.text ++ rest) := by
  intro c hc
  cases gap with
  | blank d h =>
    obtain rfl := Option.some.inj hc
    exact .inl h
  | line body h | block body h =>
    obtain rfl := Option.some.inj hc
    exact .inr rfl

theorem scanString_escape (q : Quote) (s rest : List Char) :
    scanString q.char (s.flatMap q.escape ++ q.char :: rest) = some (s, rest) := by
  induction s with
  | nil =>
    cases rest with
    | nil | cons c rest => exact if_pos rfl
  | cons c s ih =>
    rw [flatMap_cons, append_assoc, Quote.escape]
    by_cases hc : c = q.char ∨ c = '\\'
    · have hquote : ¬ '\\' = q.char := by cases q <;> decide
      have hunescape : unescape c = c := by
        rcases hc with rfl | rfl
        · cases q <;> rfl
        · rfl
      rw [if_pos hc, cons_append, singleton_append, scanString, if_neg hquote,
        if_pos rfl, ih, Option.map_some, hunescape]
    · obtain ⟨hquote, hsl⟩ := not_or.mp hc
      rw [if_neg hc, singleton_append]
      obtain ⟨d, tail, htail⟩ : ∃ d tail, s.flatMap q.escape ++ q.char :: rest = d :: tail :=
        exists_cons_of_ne_nil (by simp)
      rw [htail, scanString, if_neg hquote, if_neg hsl, ← htail, ih, Option.map_some]

theorem isIdentStart_of_punctuation {classes : CharClasses} (hcls : classes.Lawful)
    {next : Option Char} {p : Tok ν × ℕ} (h : punctuation c next = some p) :
    isIdentStart classes c = false := by
  unfold punctuation at h
  split at h
  all_goals first
    | exact (hcls.isIdentStart_ascii (by decide)).trans (by decide)
    | cases h

/-- A token of a script, the quotes that are around it if it is a string, and what is between it and
the next token. -/
structure Placed (ν : Type) where
  tok : Tok ν
  quote : Quote
  after : List Gap
  after_ne_nil : after ≠ []

/-- A script of these tokens. Nothing is written after the last one. -/
def render : List (Placed ν) → List Char
  | [] => []
  | [x] => spell x.quote x.tok
  | x :: y :: rest => spell x.quote x.tok ++ x.after.flatMap Gap.text ++ render (y :: rest)

theorem separated_after (x : Placed ν) (rest : List Char) :
    Separated (x.after.flatMap Gap.text ++ rest) := by
  obtain ⟨gap, gaps, hgaps⟩ := exists_cons_of_ne_nil x.after_ne_nil
  rw [hgaps, flatMap_cons, append_assoc]
  exact separated_gap gap _

/-! ## The turns -/

section Scan

variable [Double ν] {classes : CharClasses}

variable {tok : Tok ν}

theorem scan_of_punctuation {n : ℕ} (hbl : Text.isWhitespace c = false) (hsl : c ≠ '/')
    (h : punctuation c cs.head? = some (tok, n)) :
    scan classes c cs = .ok (some tok, (c :: cs).drop n) := by
  rw [scan, if_neg (Bool.not_eq_true _ ▸ hbl), if_neg fun hc => hsl hc.1,
    if_neg fun hc => hsl hc.1, h]

theorem scan_one (hbl : Text.isWhitespace c = false) (hsl : c ≠ '/')
    (h : punctuation c rest.head? = some (tok, 1)) : scan classes c rest = .ok (some tok, rest) :=
  scan_of_punctuation hbl hsl h

theorem scan_two {d : Char} (hbl : Text.isWhitespace c = false) (hsl : c ≠ '/')
    (h : punctuation c (some d) = some (tok, 2)) :
    scan classes c (d :: rest) = .ok (some tok, rest) := by
  have hhead : punctuation c (d :: rest).head? = some (tok, 2) := h
  exact scan_of_punctuation hbl hsl hhead

theorem scan_string (q : Quote) (s rest : List Char) :
    scan classes q.char (s.flatMap q.escape ++ q.char :: rest) =
      .ok (some (.str (String.ofList s) : Tok ν), rest) := by
  have hpun : ∀ next, (punctuation q.char next : Option (Tok ν × ℕ)) = none := by
    intro next
    cases q <;> rfl
  have hquote : q.char = '"' ∨ q.char = '\x27' := by
    cases q
    · exact .inl rfl
    · exact .inr rfl
  have hsl : q.char ≠ '/' := by cases q <;> decide
  have hbl : ¬isWhitespace q.char = true := by cases q <;> decide
  rw [scan, if_neg hbl, if_neg fun hc => hsl hc.1, if_neg fun hc => hsl hc.1, hpun,
    if_pos hquote, scanString_escape]

theorem scan_ident (hcls : classes.Lawful) (hst : isIdentStart classes c = true)
    (hcs : ∀ d ∈ cs, isIdentChar classes d = true) (hrest : Separated rest) :
    scan classes c (cs ++ rest) = .ok (some (.ident (String.ofList (c :: cs)) : Tok ν), rest) := by
  have hne : ∀ {d : Char}, d.toNat < 128 → isIdentStart asciiClasses d = false → c ≠ d := by
    rintro d hd hfalse rfl
    rw [hcls.isIdentStart_ascii hd, hfalse] at hst
    cases hst
  have hbl : ¬isWhitespace c = true := by
    intro hwh
    have hchar := isIdentChar_of_isIdentStart hst
    rw [hcls.isIdentChar_whitespace hwh] at hchar
    cases hchar
  have hsl : c ≠ '/' := hne (by decide) (by decide)
  have hpun : (punctuation c (cs ++ rest).head? : Option (Tok ν × ℕ)) = none := by
    rw [Option.eq_none_iff_forall_ne_some]
    intro p hp
    rw [isIdentStart_of_punctuation hcls hp] at hst
    cases hst
  have hdig : ¬isAsciiDigit c = true := by
    intro hdig
    have hasc : c.toNat < 128 := toNat_lt_of_isAlphanumeric (Bool.or_eq_true_iff.mpr (.inr hdig))
    have hfalse := of_ascii
      (P := fun c => isAsciiDigit c = true → isIdentStart asciiClasses c = false)
      (by decide +kernel) hasc
    exact hne hasc (hfalse hdig) rfl
  have hname : ∀ d ∈ c :: cs, isIdentChar classes d = true :=
    forall_mem_cons.mpr ⟨isIdentChar_of_isIdentStart hst, hcs⟩
  have hstop : ∀ d ∈ rest.head?, isIdentChar classes d = false := by
    intro d hd
    rcases hrest d hd with hwh | rfl
    · exact hcls.isIdentChar_whitespace hwh
    · exact (hcls.isIdentChar_ascii (by decide)).trans (by decide)
  rw [scan, if_neg hbl, if_neg fun hc => hsl hc.1, if_neg fun hc => hsl hc.1, hpun]
  rw [if_neg (not_or.mpr ⟨hne (by decide) (by decide), hne (by decide) (by decide)⟩), if_neg hdig,
    if_pos hst, ← cons_append, takeWhile_append_of_pos hname, dropWhile_append_of_pos hname,
    takeWhile_of_head hstop, dropWhile_of_head hstop, append_nil]

theorem exists_scan_spell (hcls : classes.Lawful) (q : Quote) (htok : Writable classes tok)
    (hrest : Separated rest) :
    ∃ c cs, spell q tok ++ rest = c :: cs ∧ scan classes c cs = .ok (some tok, rest) := by
  have hne : rest.head? ≠ some '=' := hrest.head_ne (by decide) (by decide)
  cases tok with
  | ident name =>
    obtain ⟨c, cs, hname, hst, hcs⟩ := htok
    refine ⟨c, cs ++ rest, by rw [spell, hname, cons_append], ?_⟩
    rw [scan_ident hcls hst hcs hrest, ← hname, String.ofList_toList]
  | str s =>
    refine ⟨q.char, s.toList.flatMap q.escape ++ q.char :: rest, by simp [spell], ?_⟩
    rw [scan_string, String.ofList_toList]
  | num n | eof => exact htok.elim
  | eqEq | notEq | andAnd | orOr | le | ge =>
    exact ⟨_, _, rfl, scan_two (by decide) (by decide) rfl⟩
  | assign | not | lt | gt =>
    -- these go on with an equals sign, and none follows
    refine ⟨_, rest, rfl, scan_one (by decide) (by decide) ?_⟩
    rw [punctuation]
    exact hne
  | _ => exact ⟨_, rest, rfl, scan_one (by decide) (by decide) rfl⟩

theorem tokenizeFrom_spell (hcls : classes.Lawful) (q : Quote) (htok : Writable classes tok)
    (hrest : Separated rest) :
    tokenizeFrom classes (spell q tok ++ rest) = (tokenizeFrom classes rest).map (tok :: ·) := by
  obtain ⟨c, cs, hspell, hscan⟩ := exists_scan_spell hcls q htok hrest
  rw [hspell, tokenizeFrom_of_scan hscan]
  rfl

theorem tokenizeFrom_nil : (tokenizeFrom classes [] : Except NetworkError (List (Tok ν))) =
    .ok [.eof] := by
  rw [tokenizeFrom.eq_def]

theorem tokenizeFrom_render (hcls : classes.Lawful) {xs : List (Placed ν)}
    (hxs : ∀ x ∈ xs, Writable classes x.tok) :
    tokenizeFrom classes (render xs) = .ok (xs.map Placed.tok ++ [.eof]) := by
  induction xs using render.induct with
  | case1 => exact tokenizeFrom_nil
  | case2 x =>
    have htok := tokenizeFrom_spell hcls x.quote (hxs x mem_cons_self) separated_nil
    rw [append_nil, tokenizeFrom_nil] at htok
    exact htok
  | case3 x y rest ih =>
    obtain ⟨hx, hrest⟩ := forall_mem_cons.mp hxs
    rw [render, append_assoc, tokenizeFrom_spell hcls x.quote hx (separated_after x _),
      tokenizeFrom_gaps, ih hrest]
    rfl

/-- Tokens are read back from a script of them, whatever blanks and comments are between them and
whichever quotes are around the strings. -/
theorem tokenize_render (hclasses : classes.Lawful) (xs : List (Placed ν))
    (hxs : ∀ x ∈ xs, Writable classes x.tok) :
    tokenize classes (String.ofList (render xs)) = .ok (xs.map Placed.tok ++ [.eof]) := by
  rw [tokenize, String.toList_ofList]
  exact tokenizeFrom_render hclasses hxs

end Scan

/-- A comparison with a comment of either kind in it and a quote in the string. -/
def commented : List (Placed IntDouble) :=
  [⟨.ident "$h", .double, [.block "x**".toList (by decide)], cons_ne_nil _ _⟩,
    ⟨.eqEq, .double, [.line "=".toList (by decide), .blank ' ' rfl], cons_ne_nil _ _⟩,
    ⟨.str "a'\"", .single, [.blank ' ' rfl], cons_ne_nil _ _⟩]

theorem tokenize_render_commented :
    String.ofList (render commented) = "$h/*x***/==//=\n 'a\\'\"'" ∧
      tokenize asciiClasses "$h/*x***/==//=\n 'a\\'\"'" =
        .ok [(.ident "$h" : Tok IntDouble), .eqEq, .str "a'\"", .eof] := by
  have htext : String.ofList (render commented) = "$h/*x***/==//=\n 'a\\'\"'" := by
    decide +kernel
  refine ⟨htext, ?_⟩
  refine tokenize_render lawful_asciiClasses commented ?_
  intro x hx
  simp only [commented, mem_cons, not_mem_nil, or_false] at hx
  rcases hx with rfl | rfl | rfl
  · exact ⟨'$', ['h'], rfl, rfl, forall_mem_singleton.mpr rfl⟩
  · trivial
  · trivial

end MitosNetwork.Pac
