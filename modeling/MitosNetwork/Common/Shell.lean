import Mathlib.Data.List.Basic
import Mathlib.Data.List.TakeDrop
import Mathlib.Data.List.TakeWhile
import MitosNetwork.Common.Text

/-!
# Assignments in a shell script

Reading a script that consists of comments and lines `export NAME="value"`, under the rules of the
POSIX shell for text between double quotes: a backslash quotes a dollar sign, a backquote, a double
quote, a backslash or a newline and is literal before anything else, a double quote ends the text,
and a dollar sign or a backquote starts an expansion. Whatever is not such a line, or has an
expansion in it, is not read. `exports_lines_iff` is the criterion for text that was put between
double quotes as it is: it is read back if and only if every value is inert.
-/

namespace Shell

open List Option

/-- The characters that a backslash quotes between double quotes. -/
def isSpecial (c : Char) : Bool :=
  c == '$' || c == '\x60' || c == '"' || c == '\\' || c == '\n'

/-- Text between double quotes up to the closing one, and what follows. The flag says whether a
backslash was just read. -/
def quoted : Bool → List Char → Option (List Char × List Char)
  | _, [] => none
  | false, c :: rest =>
    if c = '"' then some ([], rest)
    else if c = '$' ∨ c = '\x60' then none
    else if c = '\\' then quoted true rest
    else (quoted false rest).map fun p => (c :: p.1, p.2)
  | true, c :: rest =>
    if c = '\n' then quoted false rest
    else if isSpecial c then (quoted false rest).map fun p => (c :: p.1, p.2)
    else (quoted false rest).map fun p => ('\\' :: c :: p.1, p.2)

def isNameChar (c : Char) : Bool := Text.isAsciiAlphanumeric c || c == '_'

def isName (name : List Char) : Bool :=
  name.all isNameChar && name.head?.any fun c => !Text.isAsciiDigit c

/-- The value of an assignment, which has to be the end of its line. -/
def valueOf (name : List Char) : Option (List Char × List Char) →
    Option ((List Char × List Char) × List Char)
  | some (value, '\n' :: rest) => some ((name, value), rest)
  | _ => none

/-- The start of a line that sets a variable. -/
def keyword : List Char := ['e', 'x', 'p', 'o', 'r', 't', ' ']

/-- A line `export NAME="value"`, and what follows. -/
def export? (text : List Char) : Option ((List Char × List Char) × List Char) :=
  match Text.stripPrefix? keyword text with
  | none => none
  | some text =>
    match text.span isNameChar with
    | (name, '=' :: '"' :: text) => if isName name then valueOf name (quoted false text) else none
    | _ => none

/-- The assignments of a script of at most this many lines. -/
def exports : ℕ → List Char → Option (List (List Char × List Char))
  | _, [] => some []
  | 0, _ :: _ => none
  | n + 1, c :: text =>
    if c = '#' then exports n ((text.dropWhile (· ≠ '\n')).drop 1)
    else (export? (c :: text)).bind fun p => (exports n p.2).map (p.1 :: ·)

/-- The assignments of a script. -/
def read (text : List Char) : Option (List (List Char × List Char)) := exports text.length text

/-! ## Inert text -/

/-- Between double quotes the text stands for itself. -/
def isInert : Bool → List Char → Bool
  | escaped, [] => !escaped
  | false, c :: text => !(c == '"' || c == '$' || c == '\x60') && isInert (c == '\\') text
  | true, c :: text => !isSpecial c && isInert false text

def pending (escaped : Bool) (text : List Char) : List Char :=
  if escaped then '\\' :: text else text

/-- What reading a character and the text after it can come to, by what was read before. -/
inductive Reads (c : Char) (rest value after : List Char) : Bool → Prop
  | closing (hc : c = '"') (hvalue : value = []) : Reads c rest value after false
  | backslash (hc : c = '\\') (hrest : quoted true rest = some (value, after)) :
      Reads c rest value after false
  | plain (y : List Char) (hplain : c ≠ '"' ∧ c ≠ '$' ∧ c ≠ '\x60' ∧ c ≠ '\\')
      (hvalue : value = c :: y) (hrest : quoted false rest = some (y, after)) :
      Reads c rest value after false
  | newline (hc : c = '\n') (hrest : quoted false rest = some (value, after)) :
      Reads c rest value after true
  | special (y : List Char) (hvalue : value = c :: y)
      (hrest : quoted false rest = some (y, after)) : Reads c rest value after true
  | literal (y : List Char) (hinert : isSpecial c = false) (hvalue : value = '\\' :: c :: y)
      (hrest : quoted false rest = some (y, after)) : Reads c rest value after true

section

variable {c : Char} {escaped : Bool} {text rest value after : List Char}

variable {name comment : List Char} {as : List (List Char × List Char)}

theorem reads_of_quoted (h : quoted escaped (c :: rest) = some (value, after)) :
    Reads c rest value after escaped := by
  cases escaped with
  | false =>
    unfold quoted at h
    split_ifs at h with hquote hexp hback
    · cases h
      exact .closing hquote rfl
    · exact .backslash hback h
    · obtain ⟨p, hp, heq⟩ := map_eq_some_iff.mp h
      cases heq
      rw [not_or] at hexp
      exact .plain p.1 ⟨hquote, hexp.1, hexp.2, hback⟩ rfl hp
  | true =>
    unfold quoted at h
    split_ifs at h with hnl hspe
    · exact .newline hnl h
    · obtain ⟨p, hp, heq⟩ := map_eq_some_iff.mp h
      cases heq
      exact .special p.1 rfl hp
    · obtain ⟨p, hp, heq⟩ := map_eq_some_iff.mp h
      cases heq
      exact .literal p.1 (Bool.eq_false_iff.mpr hspe) rfl hp

theorem quoted_of_isInert (h : isInert escaped text = true) :
    quoted escaped (text ++ '"' :: rest) = some (pending escaped text, rest) := by
  induction text generalizing escaped with
  | nil =>
    cases escaped with
    | false => rfl
    | true => cases h
  | cons c text ih =>
    cases escaped with
    | false =>
      simp only [isInert, Bool.and_eq_true, Bool.not_eq_true', Bool.or_eq_false_iff,
        beq_eq_false_iff_ne] at h
      obtain ⟨⟨⟨hquote, hdol⟩, hback⟩, hrest⟩ := h
      rw [cons_append, quoted, if_neg hquote, if_neg (by simp [hdol, hback])]
      by_cases hc : c = '\\'
      · subst hc
        exact ih hrest
      · rw [if_neg hc, ih (by rwa [beq_false_of_ne hc] at hrest)]
        rfl
    | true =>
      obtain ⟨hspe, hrest⟩ := Bool.and_eq_true_iff.mp h
      rw [Bool.not_eq_true'] at hspe
      have hnl : c ≠ '\n' := by
        rintro rfl
        cases hspe
      rw [cons_append, quoted, if_neg hnl, if_neg (by simp [hspe]), ih hrest]
      rfl

/-! ## Reading past the closing quote

A backslash at the end of the text quotes the quote that should close it, and what follows is read
up to the next one. Whether that can yield the same value again depends on how what follows
begins. -/

/-- What is read from here to the next quote does not end in a backslash. -/
def Closed (rest : List Char) : Prop :=
  ∀ value after, quoted false rest = some (value, after) → value.getLast? ≠ some '\\'

def EndsPlain (value : List Char) : Prop := ∃ d, value.getLast? = some d ∧ d ≠ '\\'

theorem EndsPlain.cons (h : EndsPlain value) (c : Char) : EndsPlain (c :: value) := by
  obtain ⟨d, hlast, hd⟩ := h
  refine ⟨d, ?_, hd⟩
  rw [getLast?_cons, hlast, getD_some]

theorem Closed.endsPlain (hcl : Closed rest) (h : quoted false rest = some (value, after)) :
    EndsPlain ('"' :: value) := by
  cases hlast : value.getLast? with
  | none => exact ⟨'"', by rw [getLast?_cons, hlast, getD_none], by decide⟩
  | some d =>
    refine EndsPlain.cons ⟨d, hlast, ?_⟩ '"'
    rintro rfl
    exact hcl value after h hlast

theorem getLast?_pending_cons (c : Char) (h : text.getLast? = some '\\') :
    (pending escaped (c :: text)).getLast? = some '\\' := by
  cases escaped <;> simp [pending, getLast?_cons, h]

theorem length_or_overrun (hcl : Closed rest)
    (h : quoted escaped (text ++ '"' :: rest) = some (value, after)) :
    value.length ≤ (pending escaped text).length ∨
      (pending escaped text).getLast? = some '\\' ∧ EndsPlain value := by
  induction text generalizing escaped value with
  | nil =>
    cases reads_of_quoted h with
    | closing hc hvalue => exact .inl (by rw [hvalue]; exact Nat.zero_le _)
    | special y hvalue hrest =>
      rw [hvalue]
      exact .inr ⟨rfl, hcl.endsPlain hrest⟩
    | backslash hc | newline hc => exact absurd hc (by decide)
    | plain _ hplain => exact absurd rfl hplain.1
    | literal _ hinert => exact absurd hinert (by decide)
  | cons c text ih =>
    cases reads_of_quoted h with
    | closing hc hvalue => exact .inl (by rw [hvalue]; exact Nat.zero_le _)
    | backslash hc hrest =>
      subst hc
      exact ih hrest
    | newline hc hrest =>
      refine (ih hrest).imp (fun hlen => ?_) fun ⟨hlast, hends⟩ => ⟨?_, hends⟩
      · exact hlen.trans (Nat.le_add_right text.length 2)
      · exact getLast?_pending_cons c hlast
    | plain y _ hvalue hrest =>
      subst hvalue
      refine (ih hrest).imp (fun hlen => ?_) fun ⟨hlast, hends⟩ => ⟨?_, hends.cons c⟩
      · exact Nat.succ_le_succ hlen
      · exact getLast?_pending_cons c hlast
    | special y hvalue hrest =>
      subst hvalue
      refine (ih hrest).imp (fun hlen => ?_) fun ⟨hlast, hends⟩ => ⟨?_, hends.cons c⟩
      · exact Nat.succ_le_succ (hlen.trans (Nat.le_succ _))
      · exact getLast?_pending_cons c hlast
    | literal y _ hvalue hrest =>
      subst hvalue
      refine (ih hrest).imp (fun hlen => ?_) fun ⟨hlast, hends⟩ =>
        ⟨?_, (hends.cons c).cons '\\'⟩
      · exact Nat.succ_le_succ (Nat.succ_le_succ hlen)
      · exact getLast?_pending_cons c hlast

theorem quoted_ne_append (hcl : Closed rest) {front : List Char} (hfro : front ≠ []) :
    quoted false (text ++ '"' :: rest) ≠ some (front ++ text, after) := by
  intro h
  rcases length_or_overrun hcl h with hlen | ⟨hlast, d, hd, hne⟩
  · have hpositive := length_pos_iff.mpr hfro
    rw [length_append] at hlen
    change front.length + text.length ≤ text.length at hlen
    omega
  · change text.getLast? = some '\\' at hlast
    rw [getLast?_append, hlast] at hd
    exact hne (Option.some.inj hd).symm

theorem isInert_of_quoted (hcl : Closed rest)
    (h : quoted escaped (text ++ '"' :: rest) = some (pending escaped text, after)) :
    isInert escaped text = true := by
  induction text generalizing escaped with
  | nil =>
    cases escaped with
    | false => rfl
    | true =>
      cases reads_of_quoted h with
      | newline hc => exact absurd hc (by decide)
      | special y hvalue => exact absurd (List.cons.inj hvalue).1 (by decide)
      | literal _ hinert => exact absurd hinert (by decide)
  | cons c text ih =>
    cases reads_of_quoted h with
    | closing _ hvalue => cases hvalue
    | backslash hc hrest =>
      subst hc
      exact ih hrest
    | plain y hplain hvalue hrest =>
      cases hvalue
      obtain ⟨hquote, hdol, hbq, hback⟩ := hplain
      rw [isInert, beq_false_of_ne hquote, beq_false_of_ne hdol, beq_false_of_ne hbq,
        beq_false_of_ne hback, ih hrest]
      rfl
    | newline _ hrest =>
      exact absurd hrest (quoted_ne_append hcl (cons_ne_nil '\\' [c]))
    | special y hvalue hrest =>
      cases hvalue
      exact absurd hrest (quoted_ne_append hcl (cons_ne_nil '\\' []))
    | literal y hinert hvalue hrest =>
      cases hvalue
      rw [isInert, hinert, ih hrest]
      rfl

/-! ## Scripts -/

/-- A line with the value put between double quotes as it is. -/
def line (a : List Char × List Char) : List Char :=
  keyword ++ (a.1 ++ ('=' :: '"' :: (a.2 ++ ['"', '\n'])))

theorem closed_of_isInert (h : isInert false text = true) (hlast : text.getLast? ≠ some '\\') :
    Closed (text ++ '"' :: rest) := by
  intro value after hread
  rw [quoted_of_isInert h] at hread
  cases hread
  exact hlast

theorem isInert_append (h : isInert escaped text = true) :
    isInert escaped (text ++ rest) = isInert false rest := by
  induction text generalizing escaped with
  | nil =>
    cases escaped with
    | false => rfl
    | true => cases h
  | cons c text ih =>
    cases escaped with
    | false | true =>
      obtain ⟨hc, htext⟩ := Bool.and_eq_true_iff.mp h
      rw [cons_append, isInert, hc, ih htext, Bool.true_and]

theorem isInert_singleton (h : isNameChar c = true) : isInert false [c] = true := by
  have hne : ∀ d, isNameChar d = false → c ≠ d := by
    rintro d hd rfl
    exact Bool.false_ne_true (hd.symm.trans h)
  have hquote := hne '"' (by decide)
  have hdol := hne '$' (by decide)
  have hbq := hne '\x60' (by decide)
  have hback := hne '\\' (by decide)
  simp [isInert, hquote, hdol, hbq, hback]

theorem isInert_of_isNameChar (h : name.all isNameChar = true) : isInert false name = true := by
  induction name with
  | nil => rfl
  | cons c name ih =>
    obtain ⟨hc, hname⟩ := Bool.and_eq_true_iff.mp h
    exact (isInert_append (isInert_singleton hc)).trans (ih hname)

theorem closed_lines (h : ∀ a ∈ as, isName a.1 = true) : Closed ('\n' :: as.flatMap line) := by
  cases as with
  | nil =>
    intro value after h
    cases h
  | cons a as =>
    have hname := (Bool.and_eq_true_iff.mp (h a mem_cons_self)).1
    -- the next quote opens the value of the next line
    have hsp : '\n' :: (a :: as).flatMap line =
        ('\n' :: keyword ++ (a.1 ++ ['='])) ++ '"' :: (a.2 ++ '"' :: '\n' :: as.flatMap line) := by
      simp only [line, flatMap_cons, append_assoc, cons_append, nil_append]
    rw [hsp]
    apply closed_of_isInert
    · rw [isInert_append (by decide), isInert_append (isInert_of_isNameChar hname)]
      rfl
    · rw [← append_assoc, getLast?_concat]
      decide

theorem export?_line (hname : isName name = true) (text : List Char) :
    export? (keyword ++ (name ++ '=' :: '"' :: text)) = valueOf name (quoted false text) := by
  have hspan : (name ++ '=' :: '"' :: text).span isNameChar = (name, '=' :: '"' :: text) := by
    have hall := all_eq_true.mp (Bool.and_eq_true_iff.mp hname).1
    rw [span_eq_takeWhile_dropWhile, takeWhile_append_of_pos hall, dropWhile_append_of_pos hall]
    simp [show isNameChar '=' = false from by decide]
  have hstrip : Text.stripPrefix? keyword (keyword ++ (name ++ '=' :: '"' :: text)) =
      some (name ++ '=' :: '"' :: text) := by
    simp [Text.stripPrefix?]
  simp only [export?, hstrip, hspan]
  rw [if_pos hname]

theorem quoted_of_valueOf {read : Option (List Char × List Char)}
    {p : (List Char × List Char) × List Char} (h : valueOf name read = some p) :
    ∃ after, read = some (p.1.2, after) := by
  unfold valueOf at h
  split at h
  · cases h
    exact ⟨_, rfl⟩
  · cases h

theorem exports_lines_iff (hns : ∀ a ∈ as, isName a.1 = true) {n : ℕ} (hn : as.length ≤ n) :
    exports n (as.flatMap line) = some as ↔ ∀ a ∈ as, isInert false a.2 = true := by
  induction as generalizing n with
  | nil =>
    cases n <;> simp [exports]
  | cons a as ih =>
    obtain ⟨m, rfl⟩ : ∃ m, n = m + 1 := ⟨n - 1, by rw [length_cons] at hn; omega⟩
    have hm : as.length ≤ m := Nat.le_of_succ_le_succ hn
    have hrest := ih (fun b hb => hns b (mem_cons_of_mem a hb)) hm
    have hread : exports (m + 1) ((a :: as).flatMap line) =
        (valueOf a.1 (quoted false (a.2 ++ '"' :: '\n' :: as.flatMap line))).bind fun p =>
          (exports m p.2).map (p.1 :: ·) := by
      rw [← export?_line (hns a mem_cons_self)]
      simp only [line, flatMap_cons, append_assoc, cons_append]
      rfl
    rw [hread, forall_mem_cons]
    constructor
    · intro h
      obtain ⟨p, hp, hq⟩ := bind_eq_some_iff.mp h
      obtain ⟨bs, hbs, heq⟩ := map_eq_some_iff.mp hq
      obtain ⟨hhead, rfl⟩ := List.cons.inj heq
      have ha : isInert false a.2 = true := by
        obtain ⟨after, hquoted⟩ := quoted_of_valueOf hp
        rw [hhead] at hquoted
        exact isInert_of_quoted (closed_lines fun b hb => hns b (mem_cons_of_mem a hb))
          hquoted
      rw [quoted_of_isInert ha] at hp
      cases hp
      exact ⟨ha, hrest.mp hbs⟩
    · rintro ⟨ha, has⟩
      rw [quoted_of_isInert ha]
      exact congrArg (Option.map (a :: ·)) (hrest.mpr has)

theorem length_le_length_lines (as : List (List Char × List Char)) :
    as.length ≤ (as.flatMap line).length := by
  induction as with
  | nil => exact Nat.le_refl 0
  | cons a as ih =>
    rw [flatMap_cons, length_append, length_cons, Nat.add_comm]
    exact Nat.add_le_add (Nat.succ_le_of_lt (length_pos_of_mem mem_cons_self)) ih

theorem exports_comment (h : '\n' ∉ comment) (n : ℕ) :
    exports (n + 1) ('#' :: (comment ++ '\n' :: text)) = exports n text := by
  have hall : ∀ c ∈ comment, decide (c ≠ '\n') = true := fun c hc =>
    decide_eq_true fun heq => h (heq ▸ hc)
  have hdrop : ((comment ++ '\n' :: text).dropWhile (· ≠ '\n')).drop 1 = text := by
    rw [dropWhile_append_of_pos hall]
    rfl
  rw [exports, if_pos rfl, hdrop]

theorem read_comment_lines_iff (hcom : '\n' ∉ comment) (hns : ∀ a ∈ as, isName a.1 = true) :
    read ('#' :: (comment ++ '\n' :: as.flatMap line)) = some as ↔
      ∀ a ∈ as, isInert false a.2 = true := by
  rw [read, length_cons, exports_comment hcom]
  apply exports_lines_iff hns
  rw [length_append, length_cons]
  have := length_le_length_lines as
  omega

end

end Shell
