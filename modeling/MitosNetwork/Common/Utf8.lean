import Mathlib.Data.List.Basic

/-!
# Lossy decoding of UTF-8

`lossy` turns any byte string into text. A well-formed sequence gives its character; an ill-formed
one is replaced by one U+FFFD up to the byte where it went wrong, and decoding goes on there.
-/

namespace Utf8

/-- The length of a sequence with this lead byte; 0 for a byte that leads none. -/
def width (lead : UInt8) : ℕ :=
  if lead < 0x80 then 1
  else if 0xC2 ≤ lead ∧ lead ≤ 0xDF then 2
  else if 0xE0 ≤ lead ∧ lead ≤ 0xEF then 3
  else if 0xF0 ≤ lead ∧ lead ≤ 0xF4 then 4
  else 0

def isContinuation (b : UInt8) : Bool := 0x80 ≤ b && b ≤ 0xBF

/-- Whether a byte may follow the lead byte. Four lead bytes narrow the range, which keeps out
overlong forms, surrogates and what lies beyond U+10FFFF. -/
def mayFollow (lead b : UInt8) : Bool :=
  isContinuation b &&
    if lead = 0xE0 then 0xA0 ≤ b
    else if lead = 0xED then b ≤ 0x9F
    else if lead = 0xF0 then 0x90 ≤ b
    else if lead = 0xF4 then b ≤ 0x8F
    else true

/-- How many of the bytes after the lead byte belong to its sequence. -/
def tailLength (lead : UInt8) : List UInt8 → ℕ
  | [] => 0
  | b :: bs =>
    if 2 ≤ width lead ∧ mayFollow lead b then
      1 + ((bs.take (width lead - 2)).takeWhile isContinuation).length
    else 0

/-- The bits of the lead byte that belong to the character. -/
def leadBits (lead : UInt8) : ℕ :=
  match width lead with
  | 2 => lead.toNat % 32
  | 3 => lead.toNat % 16
  | 4 => lead.toNat % 8
  | _ => lead.toNat

def decode (lead : UInt8) (tail : List UInt8) : Char :=
  Char.ofNat (tail.foldl (fun n b => n * 64 + b.toNat % 64) (leadBits lead))

/-- Decoding with a bound on the number of sequences. -/
def lossyUpTo : ℕ → List UInt8 → List Char
  | 0, _ => []
  | _ + 1, [] => []
  | n + 1, lead :: rest =>
    let t := tailLength lead rest
    (if t + 1 = width lead then decode lead (rest.take t) else Char.ofNat 0xFFFD) ::
      lossyUpTo n (rest.drop t)

/-- `String::from_utf8_lossy`. Every sequence takes at least one byte. -/
def lossy (bs : List UInt8) : String := String.ofList (lossyUpTo bs.length bs)

theorem lossy_ne_empty {bs : List UInt8} (h : bs ≠ []) : lossy bs ≠ "" := by
  obtain ⟨lead, rest, rfl⟩ := List.exists_cons_of_ne_nil h
  intro hemp
  have hlist := congrArg String.toList hemp
  rw [lossy, String.toList_ofList, List.length_cons] at hlist
  cases hlist

example : lossy [0x61, 0xC3, 0xA9, 0xE2, 0x82, 0xAC, 0xFF, 0xE2, 0x82, 0x62] = "aé€��b" := by
  decide

end Utf8
