import Mathlib.Data.List.Basic

/-!
# Reading nftables rule sets: tokens and blocks

A reader for the text that `nft -f` takes, as far as the structure of a rule set goes: quoted
strings, words, comments, separators and braces. Words are maximal runs of other characters, which
is coarser than nft's own scanner but loses nothing, since what a word means is left to whoever
interprets a statement.

`Lexes s toks` says that a piece of text reads as a whole number of tokens wherever it stands, so a
text put together from such pieces reads as the concatenation of their tokens (`.append`,
`.flatMap`). `read_flatten` is the same for braces.
-/

namespace Nft

open List

variable {c : Char} {s : String} {α : Type}

/-- A token without structure of its own. -/
inductive Leaf where
  | word (text : String)
  | str (text : String)
  | comma
  | sep
deriving DecidableEq

inductive Token where
  | leaf (l : Leaf)
  | lbrace
  | rbrace
  | unterminated
deriving DecidableEq

/-! ## The scanner -/

/-- What the scanner is in the middle of; the characters read so far are kept in reverse. -/
inductive Mode where
  | blank
  | word (read : List Char)
  | quoted (read : List Char)
  | comment
deriving DecidableEq

/-- The scanner between tokens: the tokens completed by a character and the mode after it. -/
def blankStep (c : Char) : List Token × Mode :=
  if c = '"' then ([], .quoted [])
  else if c = '#' then ([], .comment)
  else if c = '{' then ([.lbrace], .blank)
  else if c = '}' then ([.rbrace], .blank)
  else if c = ',' then ([.leaf .comma], .blank)
  else if c = ';' ∨ c = '\n' then ([.leaf .sep], .blank)
  else if c = ' ' ∨ c = '\t' ∨ c = '\r' then ([], .blank)
  else ([], .word [c])

def delimiters : List Char := ['"', '#', '{', '}', ',', ';', '\n', ' ', '\t', '\r']

def wordChar (c : Char) : Bool := !delimiters.contains c

theorem wordChar_of_class {p : Char → Bool} (hp : (delimiters.all fun d => !p d) = true)
    (hc : p c = true) : wordChar c := by
  rw [wordChar, Bool.not_eq_true', contains_eq_mem, decide_eq_false_iff_not]
  intro hd
  have hnot := all_eq_true.mp hp c hd
  rw [hc] at hnot
  cases hnot

def wordToken (read : List Char) : Token := .leaf (.word (String.ofList read.reverse))

def strToken (read : List Char) : Token := .leaf (.str (String.ofList read.reverse))

def scanStep : Mode → Char → List Token × Mode
  | .blank, c => blankStep c
  | .word w, c =>
    if wordChar c then ([], .word (c :: w)) else (wordToken w :: (blankStep c).1, (blankStep c).2)
  | .quoted q, c =>
    -- nft has no escape inside a quoted string: the next quote ends it
    if c = '"' then ([strToken q], .blank) else ([], .quoted (c :: q))
  | .comment, c => if c = '\n' then ([.leaf .sep], .blank) else ([], .comment)

def scan : Mode → List Char → List Token × Mode
  | m, [] => ([], m)
  | m, c :: cs =>
    let rest := scan (scanStep m c).2 cs
    ((scanStep m c).1 ++ rest.1, rest.2)

/-- What the end of the text adds. -/
def flush : Mode → List Token
  | .word w => [wordToken w]
  | .quoted _ => [.unterminated]
  | .blank => []
  | .comment => []

def lex (s : String) : List Token :=
  let scanned := scan .blank s.toList
  scanned.1 ++ flush scanned.2

theorem scan_append (m : Mode) (a b : List Char) :
    scan m (a ++ b) = ((scan m a).1 ++ (scan (scan m a).2 b).1, (scan (scan m a).2 b).2) := by
  induction a generalizing m with
  | nil => rfl
  | cons c cs ih => rw [cons_append, scan, ih, scan, append_assoc]

/-- Wherever `s` stands between tokens, it reads as `toks` and leaves nothing open. -/
def Lexes (s : String) (toks : List Token) : Prop := scan .blank s.toList = (toks, .blank)

instance (s : String) (toks : List Token) : Decidable (Lexes s toks) :=
  inferInstanceAs (Decidable (_ = _))

variable {toks : List Token}

theorem Lexes.lex_eq (h : Lexes s toks) : lex s = toks := by
  rw [lex, h]
  exact append_nil toks

theorem Lexes.of_toList {cs : List Char} (hs : s.toList = cs)
    (h : scan .blank cs = (toks, .blank)) : Lexes s toks := by
  rwa [Lexes, hs]

theorem toList_append_of_eq {t : String} {cs ds : List Char} (hs : s.toList = cs)
    (ht : t.toList = ds) : (s ++ t).toList = cs ++ ds := by
  rw [String.toList_append, hs, ht]

variable {a b : List Token}

theorem Lexes.append {t : String} (hs : Lexes s a) (ht : Lexes t b) : Lexes (s ++ t) (a ++ b) := by
  rw [Lexes, String.toList_append, scan_append, hs, ht]

theorem Lexes.flatMap {text : α → String} {toks : α → List Token} {xs : List α}
    (h : ∀ x ∈ xs, Lexes (text x) (toks x)) :
    Lexes (String.join (xs.map text)) (xs.flatMap toks) := by
  induction xs with
  | nil => rfl
  | cons x xs ih =>
    rw [map_cons, String.join_cons]
    exact (h x mem_cons_self).append (ih fun y hy => h y (mem_cons_of_mem x hy))

theorem scan_word {w : List Char} (hw : ∀ c ∈ w, wordChar c) (read : List Char) :
    scan (.word read) w = ([], .word (w.reverse ++ read)) := by
  induction w generalizing read with
  | nil => rfl
  | cons c w ih =>
    rw [scan, scanStep, if_pos (hw c mem_cons_self), ih fun c' hc' => hw c' (mem_cons_of_mem c hc')]
    simp

theorem scan_quoted {q : List Char} (hq : '"' ∉ q) (read : List Char) :
    scan (.quoted read) q = ([], .quoted (q.reverse ++ read)) := by
  induction q generalizing read with
  | nil => rfl
  | cons c q ih =>
    obtain ⟨hc, hq⟩ := not_or.mp (mem_cons.not.mp hq)
    rw [scan, scanStep, if_neg (Ne.symm hc), ih hq]
    simp

theorem blankStep_of_wordChar (hc : wordChar c) : blankStep c = ([], .word [c]) := by
  simp only [wordChar, delimiters, Bool.not_eq_true', contains_eq_mem, mem_cons,
    decide_eq_false_iff_not, not_or] at hc
  simp [blankStep, hc]

theorem Lexes.word {w : String} (hne : w ≠ "") (hw : ∀ c ∈ w.toList, wordChar c) :
    Lexes (w ++ " ") [.leaf (.word w)] := by
  obtain ⟨c, cs, hcs⟩ : ∃ c cs, w.toList = c :: cs :=
    exists_cons_of_ne_nil fun h => hne (String.toList_eq_nil_iff.mp h)
  have hread : String.ofList (cs.reverse ++ [c]).reverse = w := by
    rw [reverse_append, reverse_reverse, reverse_singleton, singleton_append,
      ← hcs, String.ofList_toList]
  rw [hcs] at hw
  have hscan : scan .blank w.toList = ([], .word (cs.reverse ++ [c])) := by
    rw [hcs, scan, scanStep, blankStep_of_wordChar (hw c mem_cons_self),
      scan_word fun c' hc' => hw c' (mem_cons_of_mem c hc')]
    rfl
  rw [Lexes, String.toList_append, scan_append, hscan, ← hread]
  rfl

theorem Lexes.str (hs : '"' ∉ s.toList) : Lexes ("\"" ++ s ++ "\"") [.leaf (.str s)] := by
  have hscan : scan .blank ("\"" ++ s).toList = ([], .quoted s.toList.reverse) := by
    rw [String.toList_append]
    show (([] : List Token) ++ (scan (.quoted []) s.toList).1, (scan (.quoted []) s.toList).2) = _
    rw [scan_quoted hs, append_nil, append_nil]
  rw [Lexes, String.toList_append, scan_append, hscan]
  show ([strToken s.toList.reverse], Mode.blank) = _
  rw [strToken, reverse_reverse, String.ofList_toList]

/-! ## String tokens hold no quote -/

/-- What has been read of a quoted string holds no quote. -/
def Mode.QuoteFree : Mode → Prop
  | .quoted q => '"' ∉ q
  | .blank => True
  | .word _ => True
  | .comment => True

def QuoteFree (toks : List Token) : Prop := ∀ s, .leaf (.str s) ∈ toks → '"' ∉ s.toList

theorem QuoteFree.append (ha : QuoteFree a) (hb : QuoteFree b) : QuoteFree (a ++ b) := by
  intro s hs
  rcases mem_append.mp hs with hs | hs
  · exact ha s hs
  · exact hb s hs

theorem quoteFree_blankStep (c : Char) :
    QuoteFree (blankStep c).1 ∧ (blankStep c).2.QuoteFree := by
  unfold blankStep
  repeat' split
  all_goals simp [QuoteFree, Mode.QuoteFree]

theorem quoteFree_scanStep {m : Mode} (h : m.QuoteFree) (c : Char) :
    QuoteFree (scanStep m c).1 ∧ (scanStep m c).2.QuoteFree := by
  cases m with
  | blank => exact quoteFree_blankStep c
  | word w =>
    rw [scanStep]
    split
    · simp [QuoteFree, Mode.QuoteFree]
    · have hword : QuoteFree [wordToken w] := by simp [QuoteFree, wordToken]
      exact ⟨hword.append (quoteFree_blankStep c).1, (quoteFree_blankStep c).2⟩
  | quoted q =>
    rw [scanStep]
    split
    · -- the string ends here, with what was read before the quote
      have hq : '"' ∉ q := h
      simp [QuoteFree, Mode.QuoteFree, strToken, hq]
    · rename_i hc
      have hq : '"' ∉ c :: q := by
        rw [mem_cons, not_or]
        exact ⟨Ne.symm hc, h⟩
      exact ⟨by simp [QuoteFree], hq⟩
  | comment =>
    rw [scanStep]
    split
    · simp [QuoteFree, Mode.QuoteFree]
    · simp [QuoteFree, Mode.QuoteFree]

theorem quoteFree_scan {m : Mode} (h : m.QuoteFree) (cs : List Char) :
    QuoteFree (scan m cs).1 := by
  induction cs generalizing m with
  | nil => simp [scan, QuoteFree]
  | cons c cs ih =>
    obtain ⟨htoks, hmode⟩ := quoteFree_scanStep h c
    exact htoks.append (ih hmode)

theorem quoteFree_lex (s : String) : QuoteFree (lex s) := by
  have hfl : ∀ m, QuoteFree (flush m) := by
    intro m
    cases m <;> simp [QuoteFree, flush, wordToken]
  exact (quoteFree_scan (m := .blank) trivial s.toList).append (hfl _)

/-! ## Braces -/

/-- A token tree: a leaf, or what stands between two braces. -/
inductive Tree where
  | leaf (l : Leaf)
  | block (items : List Tree)

mutual

def Tree.flatten : Tree → List Token
  | .leaf l => [.leaf l]
  | .block items => .lbrace :: (flattenAll items ++ [.rbrace])

def flattenAll : List Tree → List Token
  | [] => []
  | t :: ts => t.flatten ++ flattenAll ts

end

/-- Match up the braces. `frames` are the items before each open brace and `items` those since the
last one, all in reverse. -/
def readFrom : List (List Tree) → List Tree → List Token → Option (List Tree)
  | [], items, [] => some items.reverse
  | _ :: _, _, [] => none
  | frames, items, .leaf l :: ts => readFrom frames (.leaf l :: items) ts
  | frames, items, .lbrace :: ts => readFrom (items :: frames) [] ts
  | [], _, .rbrace :: _ => none
  | frame :: frames, items, .rbrace :: ts => readFrom frames (.block items.reverse :: frame) ts
  | _, _, .unterminated :: _ => none

/-- The trees of a token list; `none` for unmatched braces or an unterminated string. -/
def read (toks : List Token) : Option (List Tree) := readFrom [] [] toks

mutual

theorem readFrom_flatten : ∀ (t : Tree) (frames : List (List Tree)) (items : List Tree)
    (rest : List Token),
    readFrom frames items (t.flatten ++ rest) = readFrom frames (t :: items) rest
  | .leaf l, frames, items, rest => by
    rw [Tree.flatten, singleton_append, readFrom]
  | .block ts, frames, items, rest => by
    rw [Tree.flatten, cons_append, append_assoc, readFrom, readFrom_flattenAll ts,
      singleton_append, readFrom, append_nil, reverse_reverse]

theorem readFrom_flattenAll : ∀ (ts : List Tree) (frames : List (List Tree)) (items : List Tree)
    (rest : List Token),
    readFrom frames items (flattenAll ts ++ rest) = readFrom frames (ts.reverse ++ items) rest
  | [], frames, items, rest => rfl
  | t :: ts, frames, items, rest => by
    rw [flattenAll, append_assoc, readFrom_flatten t, readFrom_flattenAll ts,
      reverse_cons, append_assoc, singleton_append]

end

theorem read_flattenAll (ts : List Tree) : read (flattenAll ts) = some ts := by
  have h := readFrom_flattenAll ts [] [] []
  rwa [append_nil, append_nil, readFrom, reverse_reverse] at h

theorem flattenAll_append (a b : List Tree) :
    flattenAll (a ++ b) = flattenAll a ++ flattenAll b := by
  induction a with
  | nil => rfl
  | cons t ts ih => rw [cons_append, flattenAll, flattenAll, ih, append_assoc]

theorem mem_flattenAll {t : Tree} {ts : List Tree} (ht : t ∈ ts) {tok : Token}
    (htok : tok ∈ t.flatten) : tok ∈ flattenAll ts := by
  obtain ⟨before, after, rfl⟩ := append_of_mem ht
  rw [flattenAll_append]
  exact mem_append_right _ (mem_append_left _ htok)

theorem mem_flatten_block {items : List Tree} {tok : Token} (h : tok ∈ flattenAll items) :
    tok ∈ (Tree.block items).flatten := by
  exact mem_cons_of_mem _ (mem_append_left _ h)

theorem flattenAll_block (items ts : List Tree) :
    flattenAll (.block items :: ts) =
      .lbrace :: (flattenAll items ++ .rbrace :: flattenAll ts) := by
  rw [flattenAll, Tree.flatten, cons_append, append_assoc, singleton_append]

theorem flattenAll_flatMap (f : α → List Tree) (xs : List α) :
    flattenAll (xs.flatMap f) = xs.flatMap fun x => flattenAll (f x) := by
  induction xs with
  | nil => rfl
  | cons x xs ih => rw [flatMap_cons, flattenAll_append, ih, flatMap_cons]

end Nft
