import MitosNetwork.Proxy.PacBuiltins

/-!
# Shell patterns of PAC scripts

`sh_exp_match` of `src/proxy/pac.rs` calls itself, at a `*` with the shorter pattern and then with
the shorter text. `matchesUpTo` is that recursion, and `matchesUpTo_eq` says that it ends and finds
what `globMatch` finds. What a pattern means is said by cutting the text into pieces, one for each
byte of the pattern (`Decomposes`).
-/

namespace MitosNetwork.Pac

variable {p : UInt8} {s : List UInt8}

/-! ## The recursion of the source -/

/-- The inner function of `sh_exp_match`, to a depth of `n` calls; `none` is a call that goes
deeper. -/
def matchesUpTo : ℕ → List UInt8 → List UInt8 → Option Bool
  | 0, _, _ => none
  | _ + 1, s, [] => some s.isEmpty
  | n + 1, s, p :: ps =>
    if p = 42 then do
      -- The right side of `||` is not called when the left one is true.
      if ← matchesUpTo n s ps then return true
      match s with
      | [] => return false
      | _ :: s => matchesUpTo n s (p :: ps)
    else
      match s with
      | [] => some false
      | b :: s =>
        if p = 63 then matchesUpTo n s ps
        else if b = p then matchesUpTo n s ps
        else some false

theorem matchesUpTo_star_nil (n : ℕ) (ps : List UInt8) :
    matchesUpTo (n + 1) [] (42 :: ps) =
      (matchesUpTo n [] ps).bind fun found => if found then some true else some false := rfl

theorem matchesUpTo_star_cons (n : ℕ) (b : UInt8) (s ps : List UInt8) :
    matchesUpTo (n + 1) (b :: s) (42 :: ps) = (matchesUpTo n (b :: s) ps).bind fun found =>
      if found then some true else matchesUpTo n s (42 :: ps) := rfl

theorem globMatch_star (ps s : List UInt8) :
    globMatch (42 :: ps) s = starMatch (globMatch ps) s := by
  cases s <;> rfl

theorem globMatch_nil_of_ne (hp : p ≠ 42) (ps : List UInt8) : globMatch (p :: ps) [] = false := by
  rw [globMatch, if_neg hp]

theorem globMatch_cons_of_ne (hp : p ≠ 42) (ps : List UInt8) (b : UInt8) (s : List UInt8) :
    globMatch (p :: ps) (b :: s) = ((p = 63 || p = b) && globMatch ps s) := by
  rw [globMatch, if_neg hp]

theorem matchesUpTo_eq {n : ℕ} {p : List UInt8} (h : s.length + p.length < n) :
    matchesUpTo n s p = some (globMatch p s) := by
  induction n generalizing s p with
  | zero => omega
  | succ n ih =>
    cases p with
    | nil => rw [matchesUpTo, globMatch]
    | cons p ps =>
      rw [List.length_cons] at h
      by_cases hstar : p = 42
      · subst hstar
        have hnone : matchesUpTo n s ps = some (globMatch ps s) := ih (by omega)
        cases s with
        | nil =>
          rw [matchesUpTo_star_nil, hnone, globMatch_star, starMatch]
          cases globMatch ps [] <;> rfl
        | cons b s =>
          rw [List.length_cons] at h
          have hone : matchesUpTo n s (42 :: ps) = some (globMatch (42 :: ps) s) :=
            ih (by rw [List.length_cons]; omega)
          rw [matchesUpTo_star_cons, hnone, hone, globMatch_star, globMatch_star, starMatch]
          cases globMatch ps (b :: s) <;> rfl
      · cases s with
        | nil => rw [globMatch_nil_of_ne hstar, matchesUpTo, if_neg hstar]
        | cons b s =>
          rw [List.length_cons] at h
          have hrest : matchesUpTo n s ps = some (globMatch ps s) := ih (by omega)
          rw [globMatch_cons_of_ne hstar, matchesUpTo, if_neg hstar]
          by_cases hany : p = 63
          · simp [hany, hrest]
          · by_cases hbyte : b = p
            · simp [hbyte, hrest]
            · simp [hany, hbyte, Ne.symm hbyte]

/-! ## The meaning of a pattern -/

/-- What a byte of a pattern stands for. -/
def PieceMatches (p : UInt8) (piece : List UInt8) : Prop :=
  p = 42 ∨ (p = 63 ∧ piece.length = 1) ∨ (p ≠ 42 ∧ p ≠ 63 ∧ piece = [p])

/-- The text can be cut into pieces along the pattern. -/
def Decomposes (p s : List UInt8) : Prop :=
  ∃ pieces, List.Forall₂ PieceMatches p pieces ∧ pieces.flatten = s

theorem decomposes_nil : Decomposes [] s ↔ s = [] := by
  constructor
  · rintro ⟨pieces, hpcs, rfl⟩
    cases hpcs
    rfl
  · rintro rfl
    exact ⟨[], .nil, rfl⟩

theorem decomposes_cons {ps : List UInt8} :
    Decomposes (p :: ps) s ↔ ∃ piece rest, piece ++ rest = s ∧ PieceMatches p piece ∧
      Decomposes ps rest := by
  constructor
  · rintro ⟨pieces, hpcs, rfl⟩
    cases hpcs with
    | cons hpc hrest => exact ⟨_, _, rfl, hpc, _, hrest, rfl⟩
  · rintro ⟨piece, rest, rfl, hpc, pieces, hpcs, rfl⟩
    exact ⟨piece :: pieces, .cons hpc hpcs, rfl⟩

theorem pieceMatches_of_ne (hp : p ≠ 42) {piece : List UInt8} :
    PieceMatches p piece ↔ ∃ b, piece = [b] ∧ (p = 63 ∨ p = b) := by
  constructor
  · rintro (h | ⟨h, hlen⟩ | ⟨-, -, rfl⟩)
    · exact absurd h hp
    · obtain ⟨b, rfl⟩ := List.length_eq_one_iff.mp hlen
      exact ⟨b, rfl, .inl h⟩
    · exact ⟨p, rfl, .inr rfl⟩
  · rintro ⟨b, rfl, rfl | rfl⟩
    · exact .inr (.inl ⟨rfl, rfl⟩)
    · by_cases hany : p = 63
      · exact .inr (.inl ⟨hany, rfl⟩)
      · exact .inr (.inr ⟨hp, hany, rfl⟩)

theorem starMatch_iff {rest : List UInt8 → Bool} :
    starMatch rest s = true ↔ ∃ piece t, piece ++ t = s ∧ rest t = true := by
  induction s with
  | nil =>
    simp [starMatch]
  | cons b s ih =>
    rw [starMatch, Bool.or_eq_true, ih]
    constructor
    · rintro (h | ⟨piece, t, rfl, h⟩)
      · exact ⟨[], b :: s, rfl, h⟩
      · exact ⟨b :: piece, t, rfl, h⟩
    · rintro ⟨piece, t, hs, h⟩
      cases piece with
      | nil =>
        exact .inl (hs ▸ h)
      | cons c piece =>
        rw [List.cons_append, List.cons.injEq] at hs
        exact .inr ⟨piece, t, hs.2, h⟩

theorem globMatch_iff {p : List UInt8} : globMatch p s = true ↔ Decomposes p s := by
  induction p generalizing s with
  | nil => rw [decomposes_nil, globMatch, List.isEmpty_iff]
  | cons p ps ih =>
    rw [decomposes_cons]
    by_cases hstar : p = 42
    · subst hstar
      simp only [globMatch_star, starMatch_iff, ih, PieceMatches, true_or, true_and]
    · simp only [pieceMatches_of_ne hstar]
      cases s with
      | nil =>
        rw [globMatch_nil_of_ne hstar]
        simp
      | cons b s =>
        rw [globMatch_cons_of_ne hstar, Bool.and_eq_true, ih]
        constructor
        · rintro ⟨hbyte, hrest⟩
          exact ⟨[b], s, rfl, ⟨b, rfl, by simpa using hbyte⟩, hrest⟩
        · rintro ⟨piece, rest, hs, ⟨c, rfl, hbyte⟩, hrest⟩
          obtain ⟨rfl, rfl⟩ : c = b ∧ rest = s := by simpa using hs
          exact ⟨by simpa using hbyte, hrest⟩

/-- The recursion ends on every text and pattern, and it is true exactly if the text can be cut
along the pattern; `sh_exp_match` is this on the bytes of its arguments. -/
theorem sh_exp_match_spec :
    (∀ s p : List UInt8, ∃ found : Bool,
      (∀ n, s.length + p.length < n → matchesUpTo n s p = some found) ∧
        (found = true ↔ Decomposes p s)) ∧
      ∀ s pattern : String,
        (∀ n, s.toUTF8.size + pattern.toUTF8.size < n →
          matchesUpTo n s.toUTF8.data.toList pattern.toUTF8.data.toList =
            some (shExpMatch s pattern)) ∧
        (shExpMatch s pattern = true ↔
          Decomposes pattern.toUTF8.data.toList s.toUTF8.data.toList) := by
  refine ⟨fun s p => ⟨globMatch p s, fun n hn => matchesUpTo_eq hn, globMatch_iff⟩,
    fun s pattern => ⟨fun n hn => matchesUpTo_eq ?_, globMatch_iff⟩⟩
  simpa using hn

/-- A pattern with both wildcards, on a text where the star has to give bytes back. -/
theorem sh_exp_match_backtracks :
    ∃ found, matchesUpTo 9 [97, 98, 97, 98] [42, 97, 63] = some found ∧ found = true := by
  obtain ⟨found, hends, hfound⟩ := sh_exp_match_spec.1 [97, 98, 97, 98] [42, 97, 63]
  refine ⟨found, hends 9 (by decide), hfound.mpr ?_⟩
  refine ⟨[[97, 98], [97], [98]], ?_, rfl⟩
  refine .cons (.inl rfl) (.cons (.inr (.inr ⟨by decide, by decide, rfl⟩)) (.cons ?_ .nil))
  exact .inr (.inl ⟨rfl, rfl⟩)

end MitosNetwork.Pac
