import MitosNetwork.Proxy.PacParser

/-!
# The PAC tokenizer

The first half of `parse` of `src/proxy/pac.rs`, from the characters of a script to its tokens. The
source keeps an index into the characters; the model keeps those that are left. Which characters
outside of ASCII are letters or numerals is a parameter.
-/

namespace MitosNetwork.Pac

variable {ν : Type}

variable {cs rest : List Char} {c : Char}

/-- The Unicode classes behind `char::is_alphabetic` and `char::is_numeric`. -/
structure CharClasses where
  isAlphabetic : Char → Bool
  isNumeric : Char → Bool

def CharClasses.isAlphanumeric (classes : CharClasses) (c : Char) : Bool :=
  classes.isAlphabetic c || classes.isNumeric c

def asciiClasses : CharClasses := ⟨Text.isAsciiAlphabetic, Text.isAsciiDigit⟩

deriving instance DecidableEq for Tok

def isIdentStart (classes : CharClasses) (c : Char) : Bool :=
  classes.isAlphabetic c || c == '_' || c == '$'

def isIdentChar (classes : CharClasses) (c : Char) : Bool :=
  classes.isAlphanumeric c || c == '_' || c == '$'

def isNumberChar (c : Char) : Bool := Text.isAsciiDigit c || c == '.'

/-- What is left after a comment that was opened by a slash and a star. One that is not closed goes
on to the end of the script. -/
def skipComment : List Char → List Char
  | '*' :: '/' :: rest => rest
  | _ :: rest => skipComment rest
  | [] => []

/-- The character that a backslash and `c` stand for in a string. -/
def unescape (c : Char) : Char :=
  match c with
  | 'n' => '\n'
  | 't' => '\t'
  | other => other

/-- The characters of a string up to its closing quote, and what is left after the quote. A
backslash before the last character of the script stands for itself. -/
def scanString (quote : Char) : List Char → Option (List Char × List Char)
  | [] => none
  | [c] => if c = quote then some ([], []) else none
  | c :: next :: rest =>
    if c = quote then some ([], next :: rest)
    else if c = '\\' then (scanString quote rest).map fun r => (unescape next :: r.1, r.2)
    else (scanString quote (next :: rest)).map fun r => (c :: r.1, r.2)

/-- The tokens of one and of two characters, with the number of them. -/
def punctuation (c : Char) (next : Option Char) : Option (Tok ν × ℕ) :=
  match c, next with
  | '(', _ => some (.lParen, 1)
  | ')', _ => some (.rParen, 1)
  | '\x7b', _ => some (.lBrace, 1)
  | '\x7d', _ => some (.rBrace, 1)
  | ';', _ => some (.semi, 1)
  | ',', _ => some (.comma, 1)
  | '+', _ => some (.plus, 1)
  | '!', some '=' => some (.notEq, 2)
  | '!', _ => some (.not, 1)
  | '=', some '=' => some (.eqEq, 2)
  | '=', _ => some (.assign, 1)
  | '&', some '&' => some (.andAnd, 2)
  | '|', some '|' => some (.orOr, 2)
  | '<', some '=' => some (.le, 2)
  | '<', _ => some (.lt, 1)
  | '>', some '=' => some (.ge, 2)
  | '>', _ => some (.gt, 1)
  | _, _ => none

/-- One turn of the loop of `tokenize` at the character `c`: the token, if it is not a blank or a
comment, and the characters that are left. -/
def scan [Double ν] (classes : CharClasses) (c : Char) (rest : List Char) :
    Except NetworkError (Option (Tok ν) × List Char) :=
  if Text.isWhitespace c then .ok (none, rest)
  else if c = '/' ∧ rest.head? = some '/' then .ok (none, (c :: rest).dropWhile (· != '\n'))
  else if c = '/' ∧ rest.head? = some '*' then .ok (none, skipComment rest.tail)
  else match punctuation c rest.head? with
    | some (tok, n) => .ok (some tok, (c :: rest).drop n)
    | none =>
      if c = '"' ∨ c = '\x27' then
        match scanString c rest with
        | some (s, rest) => .ok (some (.str (String.ofList s)), rest)
        | none => .error (.parse "unterminated string in PAC script")
      else if Text.isAsciiDigit c then
        let text := String.ofList ((c :: rest).takeWhile isNumberChar)
        match Double.parse text with
        | some n => .ok (some (.num n), (c :: rest).dropWhile isNumberChar)
        | none => .error (.parse ("bad number literal '" ++ text ++ "'"))
      else if isIdentStart classes c then
        .ok (some (.ident (String.ofList ((c :: rest).takeWhile (isIdentChar classes)))),
          (c :: rest).dropWhile (isIdentChar classes))
      else .error (.parse ("unexpected character '" ++ c.toString ++ "' in PAC script"))

/-! ## What a turn does -/

theorem length_skipComment_le (cs : List Char) : (skipComment cs).length ≤ cs.length := by
  fun_induction skipComment cs with
  | case1 rest => exact Nat.le_add_right _ 2
  | case2 c rest _ ih => exact Nat.le_succ_of_le ih
  | case3 => exact Nat.le_refl _

theorem length_scanString_le {quote : Char} {s : List Char}
    (h : scanString quote cs = some (s, rest)) : rest.length ≤ cs.length := by
  fun_induction scanString quote cs generalizing s with
  | case1 => cases h
  | case2 => cases h; exact Nat.zero_le _
  | case3 => cases h
  | case4 next after => cases h; exact Nat.le_succ _
  | case5 next after _ ih =>
    obtain ⟨⟨s', rest'⟩, hafter, heq⟩ := Option.map_eq_some_iff.mp h
    obtain ⟨-, rfl⟩ := Prod.mk.inj heq
    exact Nat.le_succ_of_le (Nat.le_succ_of_le (ih hafter))
  | case6 c next after _ _ ih =>
    obtain ⟨⟨s', rest'⟩, hafter, heq⟩ := Option.map_eq_some_iff.mp h
    obtain ⟨-, rfl⟩ := Prod.mk.inj heq
    exact Nat.le_succ_of_le (ih hafter)

theorem length_dropWhile_cons_le {p : Char → Bool} (cs : List Char) (hc : p c = true) :
    ((c :: cs).dropWhile p).length ≤ cs.length := by
  rw [List.dropWhile_cons_of_pos hc]
  exact (List.dropWhile_suffix p).length_le

variable {classes : CharClasses}

theorem isIdentChar_of_isIdentStart (h : isIdentStart classes c = true) :
    isIdentChar classes c = true := by
  simp only [isIdentStart, isIdentChar, CharClasses.isAlphanumeric, Bool.or_eq_true] at h ⊢
  rcases h with (h | h) | h
  · exact .inl (.inl (.inl h))
  · exact .inl (.inr h)
  · exact .inr h

theorem punctuation_spec {next : Option Char} {tok : Tok ν} {n : ℕ}
    (h : punctuation c next = some (tok, n)) : 0 < n ∧ tok ≠ .eof := by
  unfold punctuation at h
  split at h <;> cases h <;> exact ⟨Nat.succ_pos _, nofun⟩

theorem scan_spec [Double ν] {tok : Option (Tok ν)} (h : scan classes c cs = .ok (tok, rest)) :
    rest.length ≤ cs.length ∧ ∀ t ∈ tok, t ≠ .eof := by
  have hnone : ∀ t ∈ (none : Option (Tok ν)), t ≠ .eof := nofun
  have hsome : ∀ {t : Tok ν}, t ≠ .eof → ∀ u ∈ some t, u ≠ .eof := by
    intro t ht u hu
    obtain rfl := Option.some.inj hu
    exact ht
  unfold scan at h
  split at h
  · cases h
    exact ⟨Nat.le_refl _, hnone⟩
  split at h
  · rename_i hc
    cases h
    exact ⟨length_dropWhile_cons_le cs (by rw [hc.1]; rfl), hnone⟩
  split at h
  · cases h
    exact ⟨(length_skipComment_le _).trans (List.length_tail ▸ Nat.sub_le _ 1), hnone⟩
  split at h
  · rename_i tok' n hpun
    cases h
    obtain ⟨hn, hne⟩ := punctuation_spec hpun
    obtain ⟨n, rfl⟩ := Nat.exists_eq_succ_of_ne_zero hn.ne'
    exact ⟨(List.drop_suffix n cs).length_le, hsome hne⟩
  split at h
  · split at h
    · rename_i hstring
      cases h
      exact ⟨length_scanString_le hstring, hsome nofun⟩
    · cases h
  split at h
  · rename_i hdig
    dsimp only at h
    split at h
    · cases h
      exact ⟨length_dropWhile_cons_le cs (by rw [isNumberChar, hdig]; rfl), hsome nofun⟩
    · cases h
  split at h
  · rename_i hst
    cases h
    exact ⟨length_dropWhile_cons_le cs (isIdentChar_of_isIdentStart hst), hsome nofun⟩
  · cases h

section

variable [Double ν]

def tokenizeFrom (classes : CharClasses) : List Char → Except NetworkError (List (Tok ν))
  | [] => .ok [.eof]
  | c :: cs =>
    match h : scan classes c cs with
    | .error e => .error e
    | .ok (tok, rest) => (tokenizeFrom classes rest).map (tok.toList ++ ·)
termination_by cs => cs.length
decreasing_by exact Nat.lt_succ_of_le (scan_spec h).1

def tokenize (classes : CharClasses) (src : String) : Except NetworkError (List (Tok ν)) :=
  tokenizeFrom classes src.toList

/-- `parse`. -/
def parse [DebugText ν] (classes : CharClasses) (src : String) :
    Except (TokenParser.Failure NetworkError) (Program ν) :=
  match tokenize classes src with
  | .error e => .error (.error e)
  | .ok toks => parseTokens toks

theorem exists_tokens_of_tokenizeFrom {toks : List (Tok ν)}
    (h : tokenizeFrom classes cs = .ok toks) :
    ∃ init, toks = init ++ [.eof] ∧ ∀ t ∈ init, t ≠ .eof := by
  fun_induction tokenizeFrom (ν := ν) classes cs generalizing toks with
  | case1 =>
    cases h
    exact ⟨[], rfl, nofun⟩
  | case2 => cases h
  | case3 c cs tok rest hscan ih =>
    cases hrest : (tokenizeFrom classes rest : Except NetworkError (List (Tok ν))) with
    | error e =>
      rw [hrest] at h
      cases h
    | ok toks' =>
      rw [hrest] at h
      cases h
      obtain ⟨init, rfl, hinit⟩ := ih hrest
      refine ⟨tok.toList ++ init, (List.append_assoc _ _ _).symm, fun t ht => ?_⟩
      rcases List.mem_append.mp ht with ht | ht
      · exact (scan_spec hscan).2 t (Option.mem_toList.mp ht)
      · exact hinit t ht

end

end MitosNetwork.Pac
