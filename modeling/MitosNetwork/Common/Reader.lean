import MitosNetwork.Common.Text

/-!
# Readers over characters

A reader takes some leading characters of a text and returns what it read with the rest, or fails.
`Takes p r` says that whatever `r` takes consists of characters in the class `p`; it is closed under
the ways readers are put together, so a claim about the language of a composite reader is a claim
about its atoms.
-/

/-- A reader of values of type `α`. -/
abbrev Reader (α : Type) := StateT (List Char) Option α

namespace Reader

variable {α β : Type} {p : Char → Prop}

variable {sep : Char} {s : List Char} {radix : ℕ} {r : Reader α}

/-- `Parser::read_given_char`. -/
def givenChar (c : Char) : Reader Unit := fun s =>
  match s with
  | [] => none
  | c' :: rest => if c' = c then some ((), rest) else none

/-- `Parser::read_number` with a digit limit: the maximal run of digits, which must be non-empty, at
most `maxDigits` long, without a leading zero unless `allowZeroPrefix`, and below `bound`. -/
def number (radix maxDigits bound : ℕ) (allowZeroPrefix : Bool) : Reader ℕ := fun s =>
  let digits := s.takeWhile (Text.isDigit radix)
  if digits.isEmpty || maxDigits < digits.length then none
  else if !allowZeroPrefix && digits.head? == some '0' && 1 < digits.length then none
  else
    (Text.digitsValue radix digits 0).bind fun n =>
      if n < bound then some (n, s.dropWhile (Text.isDigit radix)) else none

/-- `Parser::read_separator`: every item but the first follows a separator. -/
def separated (sep : Char) (index : ℕ) (r : Reader α) : Reader α :=
  if 0 < index then do
    givenChar sep
    r
  else r

/-- `Parser::parse_with`: the reader has to take the whole text. -/
def parseWith (r : Reader α) (cs : List Char) : Option α :=
  (r cs).bind fun q => if q.2.isEmpty then some q.1 else none

/-! ## Reading what was written -/

theorem givenChar_cons (c : Char) (rest : List Char) : givenChar c (c :: rest) = some ((), rest) :=
  if_pos rfl

theorem bind_apply (r : Reader α) (f : α → Reader β) (s : List Char) :
    (r >>= f) s = (r s).bind fun q => f q.1 q.2 := rfl

theorem separated_zero (sep : Char) (r : Reader α) : separated sep 0 r = r := rfl

theorem separated_succ_cons (sep : Char) (index : ℕ) (r : Reader α) (rest : List Char) :
    separated sep (index + 1) r (sep :: rest) = r rest := by
  rw [separated, if_pos (Nat.succ_pos index), bind_apply, givenChar_cons, Option.bind_some]

theorem separated_succ_of_head?_ne (h : s.head? ≠ some sep) (index : ℕ) (r : Reader α) :
    separated sep (index + 1) r s = none := by
  rw [separated, if_pos (Nat.succ_pos index), bind_apply]
  cases s with
  | nil => rfl
  | cons c s =>
    have hc : c ≠ sep := fun heq => h (congrArg some heq)
    rw [givenChar, if_neg hc, Option.bind_none]

def Stops (radix : ℕ) (rest : List Char) : Prop :=
  ∀ c ∈ rest.head?, Text.isDigit radix c = false

theorem number_of_stops (h : Stops radix s) (maxDigits bound : ℕ) (zero : Bool) :
    number radix maxDigits bound zero s = none := by
  simp [number, Text.takeWhile_of_head h]

theorem number_toDigits {maxDigits bound n : ℕ} (hone : 1 < radix) (hrad : radix ≤ 16)
    (hlen : (Nat.toDigits radix n).length ≤ maxDigits) (hbd : n < bound) (zero : Bool)
    {rest : List Char} (hstops : Stops radix rest) :
    number radix maxDigits bound zero (Nat.toDigits radix n ++ rest) = some (n, rest) := by
  have hdig := Text.isDigit_of_mem_toDigits hone hrad n
  have htake : (Nat.toDigits radix n ++ rest).takeWhile (Text.isDigit radix) =
      Nat.toDigits radix n := by
    rw [List.takeWhile_append_of_pos hdig, Text.takeWhile_of_head hstops, List.append_nil]
  have hdrop : (Nat.toDigits radix n ++ rest).dropWhile (Text.isDigit radix) = rest := by
    rw [List.dropWhile_append_of_pos hdig, Text.dropWhile_of_head hstops]
  -- a number of two digits or more is not zero, so its first digit is none
  have hlead : ¬((Nat.toDigits radix n).head? = some '0' ∧ 1 < (Nat.toDigits radix n).length) := by
    rintro ⟨hhead, hlong⟩
    by_cases hn : n = 0
    · rw [hn] at hlong
      exact absurd hlong (by simp)
    · exact Text.head?_toDigits_ne_zero hone hrad hn hhead
  have hne : (Nat.toDigits radix n).isEmpty = false := by simp [Nat.toDigits_ne_nil]
  have hzero : ¬(!zero && (Nat.toDigits radix n).head? == some '0' &&
      decide (1 < (Nat.toDigits radix n).length)) = true := by
    simp only [Bool.and_eq_true, beq_iff_eq, decide_eq_true_eq, and_assoc]
    exact fun h => hlead h.2
  simp only [number, htake, hdrop]
  rw [if_neg (by simp [hne, hlen]), if_neg hzero, Text.digitsValue_toDigits hone hrad,
    Option.bind_some, if_pos hbd]

/-! ## The characters that are taken -/

/-- What `r` takes consists of characters in `p`. -/
def Takes (p : Char → Prop) (r : Reader α) : Prop :=
  ∀ s a rest, r s = some (a, rest) → ∃ taken, s = taken ++ rest ∧ ∀ c ∈ taken, p c

theorem Takes.pure (a : α) : Takes p (Pure.pure a : Reader α) := by
  intro s b rest h
  cases h
  exact ⟨[], rfl, by simp⟩

theorem Takes.bind {f : α → Reader β} (hr : Takes p r) (hf : ∀ a, Takes p (f a)) :
    Takes p (r >>= f) := by
  intro s b rest h
  obtain ⟨⟨a, mid⟩, hra, hfb⟩ := Option.bind_eq_some_iff.mp h
  obtain ⟨t₁, rfl, h₁⟩ := hr s a mid hra
  obtain ⟨t₂, rfl, h₂⟩ := hf a mid b rest hfb
  refine ⟨t₁ ++ t₂, (List.append_assoc t₁ t₂ rest).symm, fun c hc => ?_⟩
  exact (List.mem_append.mp hc).elim (h₁ c) (h₂ c)

theorem Takes.givenChar {c : Char} (hc : p c) : Takes p (givenChar c) := by
  intro s a rest h
  cases s with
  | nil => cases h
  | cons c' cs =>
    simp only [Reader.givenChar] at h
    split at h
    · rename_i heq
      cases h
      exact ⟨[c'], rfl, by simpa [heq] using hc⟩
    · cases h

theorem Takes.number (hp : ∀ c, Text.isDigit radix c → p c) (maxDigits bound : ℕ) (zero : Bool) :
    Takes p (number radix maxDigits bound zero) := by
  intro s a rest h
  simp only [Reader.number] at h
  split at h
  · cases h
  · split at h
    · cases h
    · obtain ⟨n, -, hn⟩ := Option.bind_eq_some_iff.mp h
      split at hn
      · cases hn
        exact ⟨_, List.takeWhile_append_dropWhile.symm,
          fun c hc => hp c (List.mem_takeWhile_imp hc)⟩
      · cases hn

theorem Takes.separated (hsep : p sep) (hr : Takes p r) (index : ℕ) :
    Takes p (separated sep index r) := by
  unfold Reader.separated
  split
  · exact (Takes.givenChar hsep).bind fun _ => hr
  · exact hr

theorem Takes.of_parseWith (hr : Takes p r) {cs : List Char} {a : α} (h : parseWith r cs = some a) :
    ∀ c ∈ cs, p c := by
  obtain ⟨⟨b, rest⟩, hread, hend⟩ := Option.bind_eq_some_iff.mp h
  split at hend
  · rename_i hemp
    obtain ⟨taken, rfl, htk⟩ := hr cs b rest hread
    obtain rfl : rest = [] := List.isEmpty_iff.mp hemp
    rwa [List.append_nil]
  · cases hend

end Reader
