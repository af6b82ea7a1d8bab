import Mathlib.Algebra.Ring.Nat
import Mathlib.Data.List.Basic
import Mathlib.Data.List.TakeWhile
import MitosNetwork.Common.Lines

/-!
# Text as the standard library of the source language sees it

Character classes, trimming and splitting of strings over their lists of characters, and decimal
parsing of bytes. Lengths that the source measures in bytes are `String.utf8ByteSize`.
-/

namespace Text

open List

variable {c : Char} {p : Char → Bool} {cs before w sep : List Char} {s : String}
  {ws : List (List Char)}

/-- `char::is_whitespace`: the Unicode property `White_Space`. -/
def isWhitespace (c : Char) : Bool :=
  let n := c.toNat
  (9 ≤ n && n ≤ 13) || n == 0x20 || n == 0x85 || n == 0xA0 || n == 0x1680 ||
    (0x2000 ≤ n && n ≤ 0x200A) || n == 0x2028 || n == 0x2029 || n == 0x202F || n == 0x205F ||
    n == 0x3000

def isAsciiDigit (c : Char) : Bool := '0' ≤ c && c ≤ '9'

def isAsciiAlphabetic (c : Char) : Bool := ('a' ≤ c && c ≤ 'z') || ('A' ≤ c && c ≤ 'Z')

def isAsciiAlphanumeric (c : Char) : Bool := isAsciiAlphabetic c || isAsciiDigit c

/-- `char::to_digit` for a radix up to 16. -/
def toDigit (radix : ℕ) (c : Char) : Option ℕ :=
  let value :=
    if '0' ≤ c && c ≤ '9' then some (c.toNat - '0'.toNat)
    else if 'a' ≤ c && c ≤ 'f' then some (c.toNat - 'a'.toNat + 10)
    else if 'A' ≤ c && c ≤ 'F' then some (c.toNat - 'A'.toNat + 10)
    else none
  value.filter (· < radix)

/-- `char::is_digit`; `is_ascii_hexdigit` is the case of radix 16. -/
def isDigit (radix : ℕ) (c : Char) : Bool := (toDigit radix c).isSome

theorem of_ascii {P : Char → Prop} (h : ∀ n : Fin 128, P (Char.ofNat n)) (hc : c.toNat < 128) :
    P c := by
  have hchar := h ⟨c.toNat, hc⟩
  rwa [Char.ofNat_toNat] at hchar

/-- `str::trim`. -/
def trim (s : String) : String :=
  String.ofList (((s.toList.dropWhile isWhitespace).reverse.dropWhile isWhitespace).reverse)

theorem toNat_lt_of_isDigit {radix : ℕ} (h : isDigit radix c = true) : c.toNat < 128 := by
  have hle : ∀ {d : Char}, c ≤ d → c.toNat ≤ d.toNat := fun hcd => hcd
  obtain ⟨d, hd⟩ := Option.isSome_iff_exists.mp h
  obtain ⟨hval, -⟩ := Option.filter_eq_some_iff.mp hd
  split at hval
  · rename_i hrg
    exact (hle (of_decide_eq_true (Bool.and_eq_true_iff.mp hrg).2)).trans_lt (by decide)
  · split at hval
    · rename_i hrg
      exact (hle (of_decide_eq_true (Bool.and_eq_true_iff.mp hrg).2)).trans_lt (by decide)
    · split at hval
      · rename_i hrg
        exact (hle (of_decide_eq_true (Bool.and_eq_true_iff.mp hrg).2)).trans_lt (by decide)
      · cases hval

theorem takeWhile_of_head (h : ∀ c ∈ cs.head?, p c = false) : cs.takeWhile p = [] := by
  cases cs with
  | nil => rfl
  | cons c cs => exact takeWhile_cons_of_neg (by simp [h c rfl])

theorem dropWhile_of_head (h : ∀ c ∈ cs.head?, p c = false) : cs.dropWhile p = cs := by
  cases cs with
  | nil => rfl
  | cons c cs => exact dropWhile_cons_of_neg (by simp [h c rfl])

theorem trim_eq_self (hhead : ∀ c ∈ s.toList.head?, isWhitespace c = false)
    (hlast : ∀ c ∈ s.toList.getLast?, isWhitespace c = false) : trim s = s := by
  rw [trim, dropWhile_of_head hhead, dropWhile_of_head (by rwa [head?_reverse]),
    reverse_reverse, String.ofList_toList]

/-- `str::split_once` on a character: the text before and after its first occurrence. -/
def splitOnce (sep : Char) : List Char → Option (List Char × List Char)
  | [] => none
  | c :: cs => if c = sep then some ([], cs) else (splitOnce sep cs).map fun p => (c :: p.1, p.2)

theorem splitOnce_eq_some {sep : Char} {after : List Char}
    (h : splitOnce sep cs = some (before, after)) : cs = before ++ sep :: after := by
  induction cs generalizing before with
  | nil => cases h
  | cons c cs ih =>
    simp only [splitOnce] at h
    split at h
    · rename_i hc
      cases h
      rw [hc, nil_append]
    · obtain ⟨p, hp, heq⟩ := Option.map_eq_some_iff.mp h
      cases heq
      rw [ih hp, cons_append]

theorem splitOnce_append {sep : Char} (h : sep ∉ before) (after : List Char) :
    splitOnce sep (before ++ sep :: after) = some (before, after) := by
  induction before with
  | nil => exact if_pos rfl
  | cons c before ih =>
    have hc : c ≠ sep := fun heq => h (heq ▸ mem_cons_self)
    rw [cons_append, splitOnce, if_neg hc, ih fun hmem => h (mem_cons_of_mem c hmem),
      Option.map_some]

def dropCarriageReturn (line : List Char) : List Char :=
  if line.getLast? = some '\r' then line.dropLast else line

/-- `str::lines`: the text between newlines; a newline at the very end starts no further line, and
a last line without one keeps its carriage return. -/
def lines (s : String) : List (List Char) :=
  let pieces := s.toList.splitOn '\n'
  pieces.dropLast.map dropCarriageReturn ++ pieces.getLast?.toList.filter (· ≠ [])

theorem lines_eq_of_file {ls : List (List Char)} (hs : s.toList = Lines.file '\n' ls)
    (h : ∀ l ∈ ls, '\n' ∉ l ∧ l.getLast? ≠ some '\r') : lines s = ls := by
  have hsp : s.toList.splitOn '\n' = ls ++ [[]] := by
    rw [hs, Lines.splitOn_file, ← Lines.split_file,
      Lines.split_file_of_notMem fun l hl => (h l hl).1]
  have hdrop : ∀ l ∈ ls, dropCarriageReturn l = l := fun l hl => if_neg (h l hl).2
  rw [lines, hsp, getLast?_concat, dropLast_concat, map_congr_left hdrop, map_id']
  exact append_nil ls

/-- `str::strip_prefix`. -/
def stripPrefix? (start cs : List Char) : Option (List Char) :=
  if start.isPrefixOf cs then some (cs.drop start.length) else none

theorem stripPrefix?_append (start cs : List Char) :
    stripPrefix? start (start ++ cs) = some cs := by
  rw [stripPrefix?, if_pos ( isPrefixOf_iff_prefix.mpr (prefix_append start cs)), drop_left]

/-- `str::split_whitespace`. -/
def splitWhitespace (cs : List Char) : List (List Char) :=
  (cs.splitOnP isWhitespace).filter fun w => !w.isEmpty

def IsWord (w : List Char) : Prop := w ≠ [] ∧ ∀ c ∈ w, isWhitespace c = false

instance (w : List Char) : Decidable (IsWord w) := inferInstanceAs (Decidable (_ ∧ _))

theorem isWord_of_mem_splitWhitespace (h : w ∈ splitWhitespace cs) : IsWord w := by
  obtain ⟨hpc, hne⟩ := mem_filter.mp h
  exact ⟨by simpa using hne, Lines.eq_false_of_mem_splitOnP hpc⟩

theorem splitWhitespace_intercalate (h : ∀ w ∈ ws, IsWord w) :
    splitWhitespace ([' '].intercalate ws) = ws := by
  have hword : ∀ {w : List Char}, IsWord w → splitWhitespace w = [w] := by
    rintro w ⟨hne, hplain⟩
    rw [splitWhitespace, splitOnP_eq_singleton hplain]
    simp [hne]
  induction ws with
  | nil => rfl
  | cons w ws ih =>
    obtain ⟨hw, hws⟩ := forall_mem_cons.mp h
    cases ws with
    | nil => simpa using hword hw
    | cons w' ws =>
      have hsp : ∀ rest, splitWhitespace (w ++ ' ' :: rest) =
          splitWhitespace w ++ splitWhitespace rest := by
        intro rest
        rw [splitWhitespace, splitOnP_append_cons w rest (by decide), filter_append]
        rfl
      rw [intercalate_cons_cons, append_assoc, singleton_append, hsp, hword hw,
        ih hws, singleton_append]

theorem getLast_suffix_intercalate {ss : List String} (hne : ss ≠ []) :
    (ss.getLast hne).toList <:+ sep.intercalate (ss.map String.toList) := by
  induction ss with
  | nil => exact absurd rfl hne
  | cons s ss ih =>
    cases ss with
    | nil => simp
    | cons s' ss =>
      rw [map_cons, map_cons, intercalate_cons_cons]
      exact (ih (cons_ne_nil s' ss)).trans (suffix_append _ _)

theorem mem_intercalate_of_mem (hw : w ∈ ws) (hc : c ∈ w) : c ∈ sep.intercalate ws := by
  induction ws with
  | nil => cases hw
  | cons v ws ih =>
    cases ws with
    | nil =>
      obtain rfl := mem_singleton.mp hw
      simpa using hc
    | cons v' ws =>
      rw [intercalate_cons_cons]
      rcases mem_cons.mp hw with rfl | hw
      · exact mem_append_left _ (mem_append_left _ hc)
      · exact mem_append_right _ (ih hw)

theorem mem_intercalate (h : c ∈ sep.intercalate ws) : c ∈ sep ∨ ∃ w ∈ ws, c ∈ w := by
  induction ws with
  | nil => cases h
  | cons w ws ih =>
    cases ws with
    | nil => exact .inr ⟨w, mem_cons_self, by simpa using h⟩
    | cons w' ws =>
      rw [intercalate_cons_cons, mem_append, mem_append] at h
      rcases h with (h | h) | h
      · exact .inr ⟨w, mem_cons_self, h⟩
      · exact .inl h
      · rcases ih h with hsep | ⟨v, hv, hc⟩
        · exact .inl hsep
        · exact .inr ⟨v, mem_cons_of_mem w hv, hc⟩

/-- `to_ascii_lowercase`. -/
def toAsciiLowercase (cs : List Char) : List Char := cs.map Char.toLower

/-- The value of a list of digits, most significant first; `none` at the first non-digit. -/
def digitsValue (radix : ℕ) : List Char → ℕ → Option ℕ
  | [], acc => some acc
  | c :: cs, acc => (toDigit radix c).bind fun d => digitsValue radix cs (acc * radix + d)

theorem isDigit_of_digitsValue {radix acc n : ℕ} (h : digitsValue radix cs acc = some n) :
    ∀ c ∈ cs, isDigit radix c := by
  induction cs generalizing acc with
  | nil => simp
  | cons c cs ih =>
    obtain ⟨d, hd, hrest⟩ := Option.bind_eq_some_iff.mp h
    intro c' hc'
    rcases mem_cons.mp hc' with rfl | hc'
    · rw [isDigit, hd, Option.isSome_some]
    · exact ih hrest c' hc'

theorem digitsValue_append (radix acc : ℕ) (a b : List Char) :
    digitsValue radix (a ++ b) acc = (digitsValue radix a acc).bind (digitsValue radix b) := by
  induction a generalizing acc with
  | nil => rfl
  | cons c a ih =>
    rw [cons_append, digitsValue, digitsValue]
    cases toDigit radix c with
    | none => rfl
    | some d => exact ih _

/-! ## Digits of a number -/

theorem toDigit_digitChar {radix d : ℕ} (hradix : radix ≤ 16) (hd : d < radix) :
    toDigit radix d.digitChar = some d := by
  have hall : ∀ e : Fin 16, toDigit 16 (Nat.digitChar e) = some e.val := by decide
  have h16 := hall ⟨d, hd.trans_le hradix⟩
  obtain ⟨hval, -⟩ := Option.filter_eq_some_iff.mp h16
  exact Option.filter_eq_some_iff.mpr ⟨hval, decide_eq_true hd⟩

theorem isDigit_digitChar {radix d : ℕ} (hradix : radix ≤ 16) (hd : d < radix) :
    isDigit radix d.digitChar = true := by
  rw [isDigit, toDigit_digitChar hradix hd, Option.isSome_some]

section Digits

variable {radix : ℕ} (hone : 1 < radix) (hradix : radix ≤ 16)

include hone hradix

theorem isDigit_of_mem_toDigits (n : ℕ) : ∀ c ∈ Nat.toDigits radix n, isDigit radix c = true := by
  induction n using Nat.strongRecOn with
  | ind n ih =>
    by_cases hn : n < radix
    · rw [Nat.toDigits_of_lt_base hn, forall_mem_singleton]
      exact isDigit_digitChar hradix hn
    · have hpos : 0 < n := by omega
      rw [Nat.toDigits_of_base_le hone (by omega), forall_mem_append, forall_mem_singleton]
      exact ⟨ih (n / radix) (Nat.div_lt_self hpos hone),
        isDigit_digitChar hradix (Nat.mod_lt n (by omega))⟩

theorem digitsValue_toDigits (n : ℕ) : digitsValue radix (Nat.toDigits radix n) 0 = some n := by
  induction n using Nat.strongRecOn with
  | ind n ih =>
    by_cases hn : n < radix
    · rw [Nat.toDigits_of_lt_base hn, digitsValue, toDigit_digitChar hradix hn, Option.bind_some,
        digitsValue, Nat.zero_mul, Nat.zero_add]
    · have hpos : 0 < n := by omega
      rw [Nat.toDigits_of_base_le hone (by omega), digitsValue_append,
        ih (n / radix) (Nat.div_lt_self hpos hone), Option.bind_some, digitsValue,
        toDigit_digitChar hradix (Nat.mod_lt n (by omega)), Option.bind_some, digitsValue,
        Nat.div_add_mod' n radix]

theorem head?_toDigits_ne_zero {n : ℕ} (hn : n ≠ 0) :
    (Nat.toDigits radix n).head? ≠ some '0' := by
  induction n using Nat.strongRecOn with
  | ind n ih =>
    by_cases hlt : n < radix
    · have hall : ∀ e : Fin 16, Nat.digitChar e = '0' → e.val = 0 := by decide
      rw [Nat.toDigits_of_lt_base hlt]
      exact fun h => hn (hall ⟨n, hlt.trans_le hradix⟩ (Option.some.inj h))
    · have hpos : 0 < n := by omega
      have hdiv : n / radix ≠ 0 := (Nat.div_pos (by omega) (by omega)).ne'
      rw [Nat.toDigits_of_base_le hone (by omega), head?_append_of_ne_nil _ Nat.toDigits_ne_nil]
      exact ih (n / radix) (Nat.div_lt_self hpos hone) hdiv

end Digits

/-- The digits of an unsigned number: an optional plus sign is skipped. -/
def skipPlus : List Char → List Char
  | [] => []
  | c :: cs => if c = '+' then cs else c :: cs

theorem mem_skipPlus (h : c ∈ cs) : c = '+' ∨ c ∈ skipPlus cs := by
  cases cs with
  | nil => cases h
  | cons a as =>
    by_cases ha : a = '+'
    · rcases mem_cons.mp h with rfl | h
      · exact .inl ha
      · exact .inr (by rwa [skipPlus, if_pos ha])
    · exact .inr (by rwa [skipPlus, if_neg ha])

/-- `str::parse::<u8>`: one or more decimal digits, optionally after a plus sign, of value at most
255. -/
def parseU8 (cs : List Char) : Option UInt8 :=
  if (skipPlus cs).isEmpty then none
  else
    (digitsValue 10 (skipPlus cs) 0).bind fun n => if n ≤ 255 then some (UInt8.ofNat n) else none

/-- `str::parse::<u32>`. -/
def parseU32 (cs : List Char) : Option UInt32 :=
  if (skipPlus cs).isEmpty then none
  else
    (digitsValue 10 (skipPlus cs) 0).bind fun n =>
      if n ≤ 4294967295 then some (UInt32.ofNat n) else none

/-- `usize::from_str_radix` on a machine of 64 bits. -/
def parseUsize (radix : ℕ) (cs : List Char) : Option ℕ :=
  if (skipPlus cs).isEmpty then none
  else (digitsValue radix (skipPlus cs) 0).bind fun n => if n < 2 ^ 64 then some n else none

/-- `str::parse::<i32>`, as an integer in range. -/
def parseI32 (cs : List Char) : Option ℤ :=
  match cs with
  | '-' :: ds =>
    if ds.isEmpty then none
    else (digitsValue 10 ds 0).bind fun n => if n ≤ 2147483648 then some (-n : ℤ) else none
  | _ =>
    if (skipPlus cs).isEmpty then none
    else
      (digitsValue 10 (skipPlus cs) 0).bind fun n => if n ≤ 2147483647 then some (n : ℤ) else none

theorem mem_of_parseU8 {n : UInt8} (h : parseU8 cs = some n) :
    ∀ c ∈ cs, c = '+' ∨ isDigit 10 c := by
  intro c hc
  unfold parseU8 at h
  split at h
  · cases h
  · obtain ⟨v, hv, -⟩ := Option.bind_eq_some_iff.mp h
    exact (mem_skipPlus hc).imp_right (isDigit_of_digitsValue hv c)

/-- `str::contains`. -/
def contains (needle : List Char) : List Char → Bool
  | [] => needle.isEmpty
  | c :: cs => needle.isPrefixOf (c :: cs) || contains needle cs

end Text
