import MitosNetwork.Common.TokenParser

/-!
# Locality of token parsers

A text is a list of tokens whose last token, and no other, is an end token. On a text, a parser that
is `Local` neither leaves the range of the tokens nor runs out of turns, and whatever it takes it
takes for good: it would take the same tokens with the same result wherever they are followed by the
same token, or by one that may stand in for it. So a run on one text says what the parser `Reads`
anywhere.

A parser is compared with a copy of itself, because the calls of a recursive parser in two texts may
be nested differently; two bounds say how long the text may be and how many tokens the copy can
read. There is one rule for each way of putting parsers together.
-/

namespace TokenParser

open List TokenParser

variable {τ ε α β σ : Type}

variable {us ts : List τ} {t u next : τ} {c' : Cursor τ} {a : α} {N' : ℕ}
  {f : α → TokenParser τ ε β}

abbrev Every {α : Type} : α → Prop := fun _ => True

/-- The end tokens, and which token may stand in for another one after what a parser takes. -/
structure Follow (τ : Type) where
  isEnd : τ → Prop
  Alt : τ → τ → Prop
  refl : ∀ t, Alt t t

def Follow.Closed (F : Follow τ) (ts : List τ) : Prop :=
  ∃ init e, ts = init ++ [e] ∧ F.isEnd e ∧ ∀ t ∈ init, ¬F.isEnd t

/-- A run that ends as a parser should: with a result or with an error of its own. -/
def Proper (r : Except (Failure ε) α) : Prop := r ≠ .error .outOfRange ∧ r ≠ .error .outOfFuel

section

variable {F : Follow τ}

theorem Follow.Closed.eq_nil (h : F.Closed (t :: us)) (ht : F.isEnd t) : us = [] := by
  obtain ⟨init, e, hsp, -, hinit⟩ := h
  cases init with
  | nil => exact (List.cons.inj hsp).2
  | cons u init =>
    obtain ⟨rfl, -⟩ := List.cons.inj hsp
    exact absurd ht (hinit _ mem_cons_self)

theorem Follow.Closed.isEnd_of_singleton (h : F.Closed [t]) : F.isEnd t := by
  obtain ⟨init, e, hsp, he, -⟩ := h
  cases init with
  | nil =>
    obtain ⟨rfl, -⟩ := List.cons.inj hsp
    exact he
  | cons u init => simp at hsp

theorem Follow.Closed.of_append (h : F.Closed (ts ++ t :: us)) : F.Closed (t :: us) := by
  obtain ⟨init, e, hsp, he, hinit⟩ := h
  induction ts generalizing init with
  | nil => exact ⟨init, e, hsp, he, hinit⟩
  | cons u ts ih =>
    cases init with
    | nil => simp at hsp
    | cons v init =>
      exact ih init (List.cons.inj hsp).2 fun w hw => hinit w (mem_cons_of_mem _ hw)

theorem Follow.Closed.of_cons (h : F.Closed (t :: u :: us)) : F.Closed (u :: us) :=
  Follow.Closed.of_append (show F.Closed ([t] ++ u :: us) from h)

theorem Follow.Closed.ne_nil (h : F.Closed ts) : ts ≠ [] := by
  obtain ⟨init, e, rfl, -, -⟩ := h
  exact append_ne_nil_of_right_ne_nil init (cons_ne_nil e [])

theorem Follow.Closed.rest (h : F.Closed ts) {pos : ℕ} (hpos : pos < ts.length) :
    F.Closed (Cursor.rest ⟨ts, pos⟩) := by
  rw [← take_append_drop pos ts, drop_eq_getElem_cons hpos] at h
  show F.Closed (ts.drop pos)
  rw [drop_eq_getElem_cons hpos]
  exact h.of_append

end

/-- What a run from `c` to `c'` has taken: `ts`, before the token `next`. The copy `q` of the parser
reads it, if it is not too long. -/
def Took (F : Follow τ) (N : ℕ) (q : TokenParser τ ε α) (c : Cursor τ) (a : α) (c' : Cursor τ)
    (ts : List τ) (next : τ) (rest : List τ) : Prop :=
  c.rest = ts ++ next :: rest ∧ c' = c.skip ts.length ∧ (ts.length < N → Reads q ts a (F.Alt next))

/-- The first token. -/
def Next (t : τ) (ts : List τ) : Prop := ts.head? = some t

/-- The parser `p` is local, with `q` as its copy. It is called on a text that meets `pre` and has
at most `n` tokens, `q` reads less than `N` tokens, and the results in `M` are made of at least one
token. -/
structure Local (F : Follow τ) (pre : List τ → Prop) (n N : ℕ) (M : α → Prop)
    (p q : TokenParser τ ε α) : Prop where
  took : ∀ c t us, c.rest = t :: us → F.Closed (t :: us) → pre (t :: us) → ∀ a c',
    p c = .ok (a, c') → ∃ ts next rest, Took F N q c a c' ts next rest ∧ (M a → ts ≠ [])
  proper : ∀ c t us, c.rest = t :: us → F.Closed (t :: us) → pre (t :: us) →
    (t :: us).length ≤ n → Proper (p c)

theorem Proper.ok {x : α} : Proper (.ok x : Except (Failure ε) α) := ⟨nofun, nofun⟩

theorem Proper.error {e : ε} : Proper (.error (.error e) : Except (Failure ε) α) := ⟨nofun, nofun⟩

theorem Proper.of_error {f : Failure ε} (h : Proper (.error f : Except (Failure ε) α)) :
    Proper (.error f : Except (Failure ε) β) :=
  ⟨fun hf => h.1 (by cases hf; rfl), fun hf => h.2 (by cases hf; rfl)⟩

section

variable {F : Follow τ} {N : ℕ} {q q' : TokenParser τ ε α} {c : Cursor τ} {rest : List τ}
  (h : Took F N q c a c' ts next rest)
include h

theorem Took.unique {ts' : List τ} {next' : τ} {rest' : List τ}
    (h' : Took F N' q' c a c' ts' next' rest') : ts = ts' ∧ next = next' := by
  obtain ⟨hc, hskip, -⟩ := h
  obtain ⟨hc', hskip', -⟩ := h'
  have hlen : ts.length = ts'.length := by
    have hpos := congrArg Cursor.pos (hskip.symm.trans hskip')
    simpa [Cursor.skip] using hpos
  obtain ⟨hts, hrest⟩ := append_inj (hc.symm.trans hc') hlen
  exact ⟨hts, (List.cons.inj hrest).1⟩

theorem Took.rest_eq : c'.rest = next :: rest := by
  rw [h.2.1]
  exact Cursor.rest_skip h.1

theorem Took.closed (hcl : F.Closed c.rest) : F.Closed (next :: rest) := by
  rw [h.1] at hcl
  exact hcl.of_append

end

/-- A run from `c` ended with a result, at a position in the range of the tokens, or with an error
of the parser's own. -/
def EndsInRange (c : Cursor τ) : Except (Failure ε) (α × Cursor τ) → Prop
  | .ok (_, c') => c'.toks = c.toks ∧ c.pos ≤ c'.pos ∧ c'.pos < c.toks.length
  | .error f => ∃ e, f = .error e

def Safe (p : TokenParser τ ε α) (c : Cursor τ) : Prop := EndsInRange c (p c)

namespace Safe

variable {c : Cursor τ}

variable {p : TokenParser τ ε α}

theorem ok (hp : p c = .ok (a, c')) (htoks : c'.toks = c.toks) (hle : c.pos ≤ c'.pos)
    (hlt : c'.pos < c.toks.length) : Safe p c := by
  unfold Safe
  rw [hp]
  exact ⟨htoks, hle, hlt⟩

theorem fail (e : ε) : Safe (fail e : TokenParser τ ε α) c := ⟨e, rfl⟩

theorem peek (hc : c.pos < c.toks.length) : Safe (peek : TokenParser τ ε τ) c :=
  ok (peek_eq_ok (drop_eq_getElem_cons hc)) rfl (Nat.le_refl _) hc

theorem advance (hc : c.pos < c.toks.length) :
    Safe (TokenParser.advance : TokenParser τ ε τ) c := by
  have hadv : (TokenParser.advance : TokenParser τ ε τ) c = _ :=
    advance_apply (drop_eq_getElem_cons hc)
  by_cases hlast : c.pos + 1 < c.toks.length
  · rw [if_pos hlast] at hadv
    exact ok hadv rfl (Nat.le_succ _) hlast
  · rw [if_neg hlast] at hadv
    exact ok hadv rfl (Nat.le_refl _) hc

theorem bind (hp : Safe p c) (hf : ∀ a c', c'.pos < c'.toks.length → Safe (f a) c') :
    Safe (p >>= f) c := by
  unfold Safe at hp ⊢
  cases hpc : p c with
  | error e =>
    rw [hpc] at hp
    rw [bind_apply_error hpc]
    exact hp
  | ok r =>
    obtain ⟨a, c'⟩ := r
    rw [hpc] at hp
    obtain ⟨htoks, hle, hlt⟩ := hp
    have hnext : EndsInRange c' (f a c') := hf a c' (htoks ▸ hlt)
    rw [bind_apply hpc]
    cases hfc : f a c' with
    | error e =>
      rw [hfc] at hnext
      exact hnext
    | ok r =>
      rw [hfc] at hnext
      exact ⟨hnext.1.trans htoks, Nat.le_trans hle hnext.2.1, htoks ▸ hnext.2.2⟩

end Safe

namespace Local

variable {F : Follow τ} {pre : List τ → Prop} {n N : ℕ} {M : α → Prop} {p q : TokenParser τ ε α}

variable {n' : ℕ} {g : α → TokenParser τ ε β} {M' : β → Prop}
  {body body' : TokenParser τ ε α → TokenParser τ ε α}

variable {c : Cursor τ}

theorem safe (h : Local F Every c.rest.length N M p q) (hcl : F.Closed c.rest) :
    Safe p c := by
  obtain ⟨t, us, hc⟩ := exists_cons_of_ne_nil hcl.ne_nil
  rw [hc] at hcl
  unfold Safe
  cases hp : p c with
  | error f =>
    have hpro := h.proper c t us hc hcl trivial (Nat.le_of_eq (congrArg List.length hc).symm)
    rw [hp] at hpro
    cases f with
    | error e => exact ⟨e, rfl⟩
    | outOfRange => exact absurd rfl hpro.1
    | outOfFuel => exact absurd rfl hpro.2
  | ok r =>
    obtain ⟨a, c'⟩ := r
    obtain ⟨ts, next, rest, ⟨hsp, rfl, -⟩, -⟩ := h.took c t us hc hcl trivial a c' hp
    have hlen := congrArg List.length hsp
    rw [Cursor.rest, length_drop, length_append, length_cons] at hlen
    refine ⟨rfl, Nat.le_add_right _ _, ?_⟩
    show c.pos + ts.length < c.toks.length
    omega

theorem reads {more : List τ} (h : Local F Every n N M p q) (hcl : F.Closed c.rest)
    (hc : c.rest = ts ++ next :: more) (hrun : p c = .ok (a, c.skip ts.length))
    (hlen : ts.length < N) : Reads q ts a (F.Alt next) ∧ (M a → ts ≠ []) := by
  obtain ⟨t, us, hcons⟩ := exists_cons_of_ne_nil hcl.ne_nil
  obtain ⟨ts', next', rest, htook, hne⟩ := h.took c t us hcons (hcons ▸ hcl) trivial a _ hrun
  have hsame : Took F 0 q c a (c.skip ts.length) ts next more :=
    ⟨hc, rfl, fun h => absurd h (Nat.not_lt_zero _)⟩
  obtain ⟨rfl, rfl⟩ := htook.unique hsame
  exact ⟨htook.2.2 hlen, hne⟩

theorem mono (h : Local F pre n N M p q) {pre' : List τ → Prop} {M' : α → Prop}
    (hpre : ∀ ts, pre' ts → pre ts) (hn : n' ≤ n) (hN : N' ≤ N) (hM : ∀ a, M' a → M a) :
    Local F pre' n' N' M' p q := by
  refine ⟨fun c t us hc hcl ht a c' hp => ?_, fun c t us hc hcl ht hlen => ?_⟩
  · obtain ⟨ts, next, rest, ⟨hsp, hskip, hrd⟩, hne⟩ :=
      h.took c t us hc hcl (hpre _ ht) a c' hp
    exact ⟨ts, next, rest, ⟨hsp, hskip, fun hlt => hrd (Nat.lt_of_lt_of_le hlt hN)⟩,
      fun ha => hne (hM a ha)⟩
  · exact h.proper c t us hc hcl (hpre _ ht) (Nat.le_trans hlen hn)

theorem restrict (h : Local F Every n N M p q) : Local F pre n N M p q :=
  h.mono (fun _ _ => trivial) (Nat.le_refl n) (Nat.le_refl N) fun _ h => h

theorem shrink (h : Local F pre n N M p q) (hn : n' ≤ n) (hN : N' ≤ N) : Local F pre n' N' M p q :=
  h.mono (fun _ h => h) hn hN fun _ h => h

theorem weaken (h : Local F pre n N M p q) : Local F pre n N (fun _ => False) p q :=
  h.mono (fun _ h => h) (Nat.le_refl n) (Nat.le_refl N) fun _ h => h.elim

theorem of_alt_eq (h : Local F pre n N M p q) {isEnd : τ → Prop} (hend : F.isEnd = isEnd) :
    Local ⟨isEnd, Eq, fun _ => rfl⟩ pre n N M p q := by
  subst hend
  refine ⟨fun c t us hc hcl ht a c' hp => ?_, h.proper⟩
  obtain ⟨ts, next, rest, ⟨hsp, hskip, hrd⟩, hne⟩ := h.took c t us hc hcl ht a c' hp
  refine ⟨ts, next, rest, ⟨hsp, hskip, fun hlt => ?_⟩, hne⟩
  rintro d _ more hd rfl
  exact hrd hlt d next more hd (F.refl next)

theorem of_zero (h : Local F pre n 0 M p q) (q' : TokenParser τ ε α) : Local F pre n 0 M p q' := by
  refine ⟨fun c t us hc hcl ht a c' hp => ?_, h.proper⟩
  obtain ⟨ts, next, rest, ⟨hsp, hskip, -⟩, hne⟩ := h.took c t us hc hcl ht a c' hp
  exact ⟨ts, next, rest, ⟨hsp, hskip, fun hlt => absurd hlt (Nat.not_lt_zero _)⟩, hne⟩

theorem pure (a : α) (hM : ¬M a) :
    Local F pre n N M (Pure.pure a : TokenParser τ ε α) (Pure.pure a) := by
  refine ⟨fun c t us hc _ _ b c' hp => ?_, fun c _ _ _ _ _ _ => Proper.ok⟩
  cases hp
  exact ⟨[], t, us, ⟨hc, rfl, fun _ => .pure a⟩, fun ha => absurd ha hM⟩

theorem fail (e : ε) (q : TokenParser τ ε α) : Local F pre n N M (fail e) q :=
  ⟨fun _ _ _ _ _ _ _ _ hp => (nomatch hp), fun _ _ _ _ _ _ _ => Proper.error⟩

theorem at_end (h : Local F Every n N Every p q) {e : τ} (he : F.isEnd e)
    (q' : TokenParser τ ε α) : Local F (Next e) n N M p q' := by
  refine ⟨fun c t us hc hcl ht a c' hp => ?_,
    fun c t us hc hcl _ => h.proper c t us hc hcl trivial⟩
  obtain ⟨ts, next, rest, ⟨hsp, -, -⟩, hne⟩ := h.took c t us hc hcl trivial a c' hp
  obtain rfl := Option.some.inj ht
  obtain rfl := hcl.eq_nil he
  rw [hc] at hsp
  cases ts with
  | nil => exact absurd rfl (hne trivial)
  | cons u ts => simp at hsp

theorem bind_of (hp : Local F pre n N M p q)
    (hf : ∀ a, Local F Every n N (fun b => ¬M a ∧ M' b) (f a) (g a) ∨
      M a ∧ Local F Every (n - 1) (N - 1) (fun b => ¬M a ∧ M' b) (f a) (g a)) :
    Local F pre n N M' (p >>= f) (q >>= g) := by
  -- the two cases of `hf` differ in the bounds only
  have hafter : ∀ a, ∃ n' N', Local F Every n' N' (fun b => ¬M a ∧ M' b) (f a) (g a) ∧
      ∀ ts : List τ, (M a → ts ≠ []) → ∀ len, (ts.length + len ≤ n → len ≤ n') ∧
        (ts.length + len < N → len < N') := by
    intro a
    rcases hf a with h | ⟨ha, h⟩
    · exact ⟨n, N, h, fun ts _ len => ⟨by omega, by omega⟩⟩
    · refine ⟨n - 1, N - 1, h, fun ts hne len => ?_⟩
      have hpos : 0 < ts.length := length_pos_of_ne_nil (hne ha)
      exact ⟨by omega, by omega⟩
  refine ⟨fun c t us hc hcl ht b c'' hrun => ?_, fun c t us hc hcl ht hlen => ?_⟩
  · cases hpc : p c with
    | error e =>
      rw [bind_apply_error hpc] at hrun
      cases hrun
    | ok r =>
      obtain ⟨a, c'⟩ := r
      rw [bind_apply hpc] at hrun
      obtain ⟨ts, next, rest, htook, hne⟩ := hp.took c t us hc hcl ht a c' hpc
      obtain ⟨n', N', hloc, hbds⟩ := hafter a
      obtain ⟨ts', next', rest', htook', hne'⟩ := hloc.took c' next rest htook.rest_eq
        (htook.closed (hc ▸ hcl)) trivial b c'' hrun
      have hsplit' : next :: rest = ts' ++ next' :: rest' := htook.rest_eq.symm.trans htook'.1
      refine ⟨ts ++ ts', next', rest', ⟨?_, ?_, fun hlt => ?_⟩, fun hb => ?_⟩
      · rw [htook.1, hsplit', append_assoc]
      · rw [htook'.2.1, htook.2.1, Cursor.skip_skip, length_append]
      · rw [length_append] at hlt
        have hlt' : ts'.length < N' := (hbds ts hne ts'.length).2 hlt
        refine .bind (htook.2.2 (by omega)) (htook'.2.2 hlt') fun u hu => ?_
        cases ts' with
        | nil =>
          obtain ⟨rfl, -⟩ := List.cons.inj hsplit'
          exact hu
        | cons v ts' =>
          obtain ⟨rfl, -⟩ := List.cons.inj hsplit'
          exact F.refl next
      · by_cases ha : M a
        · exact append_ne_nil_of_left_ne_nil (hne ha) ts'
        · exact append_ne_nil_of_right_ne_nil ts (hne' ⟨ha, hb⟩)
  · have hpro := hp.proper c t us hc hcl ht hlen
    cases hpc : p c with
    | error e =>
      rw [hpc] at hpro
      rw [bind_apply_error hpc]
      exact hpro.of_error
    | ok r =>
      obtain ⟨a, c'⟩ := r
      rw [bind_apply hpc]
      obtain ⟨ts, next, rest, htook, hne⟩ := hp.took c t us hc hcl ht a c' hpc
      obtain ⟨n', N', hloc, hbds⟩ := hafter a
      have hlength := congrArg List.length (hc.symm.trans htook.1)
      rw [length_append] at hlength
      exact hloc.proper c' next rest htook.rest_eq (htook.closed (hc ▸ hcl)) trivial
        ((hbds ts hne _).1 (hlength ▸ hlen))

theorem bind (hp : Local F pre n N M p q) (hf : ∀ a, Local F Every n N M' (f a) (g a)) :
    Local F pre n N M' (p >>= f) (q >>= g) :=
  hp.bind_of fun a =>
    .inl ((hf a).mono (fun _ h => h) (Nat.le_refl n) (Nat.le_refl N) fun _ h => h.2)

theorem bind_strict (hp : Local F pre n N Every p q)
    (hf : ∀ a, Local F Every (n - 1) (N - 1) (fun _ => False) (f a) (g a)) :
    Local F pre n N M' (p >>= f) (q >>= g) :=
  hp.bind_of fun a => .inr ⟨trivial,
    (hf a).mono (fun _ h => h) (Nat.le_refl _) (Nat.le_refl _) fun _ h => absurd trivial h.1⟩

theorem peek {f g : τ → TokenParser τ ε β} {M : β → Prop}
    (hf : ∀ t t', F.Alt t t' → Local F (Next t) n N M (f t) (g t')) :
    Local F pre n N M (peek >>= f) (peek >>= g) := by
  refine ⟨fun c t us hc hcl _ b c' hrun => ?_, fun c t us hc hcl _ hlen => ?_⟩
  · rw [bind_apply (peek_eq_ok hc)] at hrun
    obtain ⟨ts, next, rest, htook, hne⟩ := (hf t t (F.refl t)).took c t us hc hcl rfl b c' hrun
    refine ⟨ts, next, rest, ⟨htook.1, htook.2.1, fun hlt => ?_⟩, hne⟩
    have hsp : t :: us = ts ++ next :: rest := hc.symm.trans htook.1
    cases ts with
    | cons u ts =>
      obtain ⟨rfl, -⟩ := List.cons.inj hsp
      exact .peek_cons (htook.2.2 hlt)
    | nil =>
      obtain ⟨rfl, -⟩ := List.cons.inj hsp
      refine .peek_nil fun t' ht' => ?_
      obtain ⟨ts', next', rest', htook', -⟩ := (hf t t' ht').took c t us hc hcl rfl b c' hrun
      obtain ⟨rfl, rfl⟩ := htook.unique htook'
      exact htook'.2.2 hlt
  · rw [bind_apply (peek_eq_ok hc)]
    exact (hf t t (F.refl t)).proper c t us hc hcl rfl hlen

theorem rest_skip_one (h : c.rest = t :: us) : (c.skip 1).rest = us :=
  Cursor.rest_skip (show c.rest = [t] ++ us from h)

theorem advance_eq_ok (h : c.rest = t :: u :: us) :
    (advance : TokenParser τ ε τ) c = .ok (t, c.skip 1) :=
  Reads.advance (P := fun _ => True) t c u us h trivial

theorem advance_eq_ok_of_singleton (h : c.rest = [t]) :
    (advance : TokenParser τ ε τ) c = .ok (t, c) := by
  have hlen : ¬c.pos + 1 < c.toks.length := by
    have hlength := congrArg List.length h
    rw [Cursor.rest, length_drop, length_singleton] at hlength
    omega
  rw [advance_apply h, if_neg hlen]

theorem advance {f g : τ → TokenParser τ ε β} {M : β → Prop}
    (hend : ∀ t us, pre (t :: us) → F.isEnd t → ∃ e, f t = TokenParser.fail e)
    (hf : ∀ t, (∃ us, pre (t :: us)) → ¬F.isEnd t →
      Local F (fun us => pre (t :: us)) (n - 1) (N - 1) (fun _ => False) (f t) (g t)) :
    Local F pre n N M (advance >>= f) (advance >>= g) := by
  refine ⟨fun c t us hc hcl ht b c' hrun => ?_, fun c t us hc hcl ht hlen => ?_⟩
  · cases us with
    | nil =>
      obtain ⟨e, he⟩ := hend t [] ht hcl.isEnd_of_singleton
      rw [bind_apply (advance_eq_ok_of_singleton hc), he] at hrun
      cases hrun
    | cons u us =>
      have hnot : ¬F.isEnd t := fun h => nomatch hcl.eq_nil h
      rw [bind_apply (advance_eq_ok hc)] at hrun
      obtain ⟨ts, next, rest, htook, -⟩ :=
        (hf t ⟨_, ht⟩ hnot).took (c.skip 1) u us (rest_skip_one hc) hcl.of_cons ht b c' hrun
      refine ⟨t :: ts, next, rest, ⟨?_, ?_, fun hlt => ?_⟩, fun _ => cons_ne_nil t ts⟩
      · rw [hc, cons_append, ← htook.1, rest_skip_one hc]
      · rw [htook.2.1, Cursor.skip_skip, length_cons, Nat.add_comm]
      · rw [length_cons] at hlt
        exact .advance_cons (htook.2.2 (by omega))
  · cases us with
    | nil =>
      obtain ⟨e, he⟩ := hend t [] ht hcl.isEnd_of_singleton
      rw [bind_apply (advance_eq_ok_of_singleton hc), he]
      exact Proper.error
    | cons u us =>
      have hnot : ¬F.isEnd t := fun h => nomatch hcl.eq_nil h
      rw [bind_apply (advance_eq_ok hc)]
      refine (hf t ⟨_, ht⟩ hnot).proper (c.skip 1) u us (rest_skip_one hc) hcl.of_cons ht ?_
      rw [length_cons] at hlen
      omega

theorem peekSecond {f g : Option τ → TokenParser τ ε β} {M : β → Prop}
    (hpre : ∀ t us, pre (t :: us) → ¬F.isEnd t)
    (hf : ∀ u u', F.Alt u u' → Local F (fun ts => pre ts ∧ ts[1]? = some u) n N Every
      (f (some u)) (g (some u'))) :
    Local F pre n N M (peekSecond >>= f) (peekSecond >>= g) := by
  refine ⟨fun c t us hc hcl ht b c' hrun => ?_, fun c t us hc hcl ht hlen => ?_⟩
  · cases us with
    | nil => exact absurd hcl.isEnd_of_singleton (hpre _ _ ht)
    | cons u us =>
      rw [bind_apply (peekSecond_eq_ok hc)] at hrun
      obtain ⟨ts, next, rest, htook, hne⟩ :=
        (hf u u (F.refl u)).took c t (u :: us) hc hcl ⟨ht, rfl⟩ b c' hrun
      refine ⟨ts, next, rest, ⟨htook.1, htook.2.1, fun hlt => ?_⟩, fun _ => hne trivial⟩
      have hsp : t :: u :: us = ts ++ next :: rest := hc.symm.trans htook.1
      match ts, hne trivial with
      | [v], _ =>
        obtain ⟨rfl, htail⟩ := List.cons.inj hsp
        obtain ⟨rfl, -⟩ := List.cons.inj htail
        refine .peekSecond_singleton fun u' hu' => ?_
        obtain ⟨ts', next', rest', htook', -⟩ :=
          (hf u u' hu').took c t (u :: us) hc hcl ⟨ht, rfl⟩ b c' hrun
        obtain ⟨rfl, rfl⟩ := htook.unique htook'
        exact htook'.2.2 hlt
      | v :: w :: ts, _ =>
        obtain ⟨rfl, htail⟩ := List.cons.inj hsp
        obtain ⟨rfl, -⟩ := List.cons.inj htail
        exact .peekSecond_cons (htook.2.2 hlt)
  · cases us with
    | nil => exact absurd hcl.isEnd_of_singleton (hpre _ _ ht)
    | cons u us =>
      rw [bind_apply (peekSecond_eq_ok hc)]
      exact (hf u u (F.refl u)).proper c t (u :: us) hc hcl ⟨ht, rfl⟩ hlen

/-- The result of a turn of a loop: it goes on, or ends with a result in `M`. -/
def OfTurn (M : β → Prop) : σ ⊕ β → Prop
  | .inl _ => True
  | .inr b => M b

theorem of_fuel {p q : ℕ → TokenParser τ ε α}
    (h : ∀ m k i j, i ≤ n → i ≤ m → j ≤ N → j ≤ k → Local F Every i j M (p m) (q k)) :
    Local F Every n N M (fun c => p c.rest.length c) (fun c => q c.rest.length c) := by
  refine ⟨fun c t us hc hcl _ a c' hrun => ?_, fun c t us hc hcl _ hlen => ?_⟩
  · have hzero := h c.rest.length 0 0 0 (Nat.zero_le _) (Nat.zero_le _) (Nat.zero_le _)
      (Nat.le_refl 0)
    obtain ⟨ts, next, rest, htook, hne⟩ := hzero.took c t us hc hcl trivial a c' hrun
    refine ⟨ts, next, rest, ⟨htook.1, htook.2.1, fun hlt d u more hd hu => ?_⟩, hne⟩
    have hfuel : ts.length + 1 ≤ d.rest.length := by
      rw [hd, length_append, length_cons]
      omega
    have hcopy := h c.rest.length d.rest.length 0 (ts.length + 1) (Nat.zero_le _) (Nat.zero_le _)
      hlt hfuel
    obtain ⟨ts', next', rest', htook', -⟩ := hcopy.took c t us hc hcl trivial a c' hrun
    obtain ⟨rfl, rfl⟩ := htook.unique htook'
    exact htook'.2.2 (Nat.lt_succ_self _) d u more hd hu
  · have hbd : c.rest.length ≤ n := by rwa [hc]
    have hloc := h c.rest.length 0 c.rest.length 0 hbd (Nat.le_refl _) (Nat.zero_le _)
      (Nat.le_refl 0)
    exact hloc.proper c t us hc hcl trivial (Nat.le_of_eq (congrArg List.length hc).symm)

theorem outOfFuel (hn : n = 0) : Local F pre n N M (fun _ => .error .outOfFuel) q :=
  ⟨fun _ _ _ _ _ _ _ _ h => (nomatch h),
    fun _ _ _ _ _ _ h => absurd (hn ▸ h) (Nat.not_succ_le_zero _)⟩

section

variable {body body' : σ → TokenParser τ ε (σ ⊕ β)} {M : β → Prop}
  (hbody : ∀ s, Local F Every n N (OfTurn M) (body s) (body' s))
include hbody

theorem loopUpTo (m : ℕ) :
    ∀ s k i j, i ≤ n → i ≤ m → j ≤ N → j ≤ k → Local F Every i j M
      (loopUpTo body m s) (loopUpTo body' k s) := by
  induction m with
  | zero => exact fun s k i j _ hi _ _ => outOfFuel (Nat.le_zero.mp hi)
  | succ m ih =>
    intro s k i j hin him hjN hjk
    have hturn : ∀ k, j ≤ k + 1 → Local F Every i j M
        (TokenParser.loopUpTo body (m + 1) s) (TokenParser.loopUpTo body' (k + 1) s) := by
      intro k hjk
      refine ((hbody s).shrink hin hjN).bind_of fun r => ?_
      cases r with
      | inl s' =>
        refine .inr ⟨trivial, (ih s' k (i - 1) (j - 1) ?_ ?_ ?_ ?_).mono (fun _ h => h)
          (Nat.le_refl _) (Nat.le_refl _) fun _ h => h.2⟩ <;> omega
      | inr b => exact .inl (.pure b fun h => h.1 h.2)
    cases k with
    | zero =>
      obtain rfl := Nat.le_zero.mp hjk
      exact (hturn 0 (Nat.zero_le _)).of_zero _
    | succ k => exact hturn k hjk

/-- **Loops.** Every turn that goes on takes a token. -/
theorem loop (s : σ) :
    Local F Every n N M (loop body s) (loop body' s) :=
  of_fuel fun m k i j => loopUpTo hbody m s k i j

end

section

variable (hbody : ∀ i j p q, i ≤ n → j ≤ N → Local F Every (i - 1) (j - 1) M p q →
  Local F Every i j M (body p) (body' q))
include hbody

theorem nest (m : ℕ) :
    ∀ k i j, i ≤ n → i ≤ m → j ≤ N → j ≤ k → Local F Every i j M (nest body m) (nest body' k) := by
  induction m with
  | zero => exact fun k i j _ hi _ _ => outOfFuel (Nat.le_zero.mp hi)
  | succ m ih =>
    intro k i j hin him hjN hjk
    have hcall : ∀ k, j ≤ k + 1 → Local F Every i j M
        (TokenParser.nest body (m + 1)) (TokenParser.nest body' (k + 1)) := by
      intro k hjk
      refine hbody i j _ _ hin hjN (ih k (i - 1) (j - 1) ?_ ?_ ?_ ?_) <;> omega
    cases k with
    | zero =>
      obtain rfl := Nat.le_zero.mp hjk
      exact (hcall 0 (Nat.zero_le _)).of_zero _
    | succ k => exact hcall k hjk

/-- **Recursion.** The parser takes a token before it calls itself. -/
theorem recursive :
    Local F Every n N M (recursive body) (recursive body') :=
  of_fuel fun m => nest hbody m

theorem recursive_nest {k : ℕ} (hk : N ≤ k) :
    Local F Every n N M (TokenParser.recursive body) (TokenParser.nest body' k) := by
  refine ⟨fun c => ?_, fun c t us hc hcl _ hlen => ?_⟩
  · exact (nest hbody c.rest.length k 0 N (Nat.zero_le _) (Nat.zero_le _) (Nat.le_refl N) hk).took c
  · have hbd : c.rest.length ≤ n := by rwa [hc]
    exact (nest hbody c.rest.length k c.rest.length N hbd (Nat.le_refl _) (Nat.le_refl N)
      hk).proper c t us hc hcl trivial (Nat.le_of_eq (congrArg List.length hc).symm)

end

theorem chainLeft {op : τ → Option (α → α → α)} {operand operand' : TokenParser τ ε α}
    (hend : ∀ t f, op t = some f → ¬F.isEnd t) (halt : ∀ t t', F.Alt t t' → op t' = op t)
    (h : Local F Every n N Every operand operand') :
    Local F Every n N Every (chainLeft op operand)
      (chainLeft op operand') := by
  have hturn : ∀ left, Local F Every (n - 1) (N - 1) (OfTurn fun _ => False)
      (chainTurn op operand left) (chainTurn op operand' left) := by
    intro left
    refine .peek fun t t' ht => ?_
    rw [halt t t' ht]
    cases hop : op t with
    | none => exact .pure _ id
    | some f =>
      refine .advance (fun u us hu hend' => absurd hend' ?_) fun _ _ _ => ?_
      · obtain rfl := Option.some.inj hu
        exact hend u f hop
      · exact .bind (h.shrink (by omega) (by omega)).restrict fun right => .pure _ id
  exact h.bind_strict fun first => loop hturn first

theorem separated {isSep : τ → Bool} {item item' : TokenParser τ ε α}
    (hend : ∀ t, isSep t = true → ¬F.isEnd t) (halt : ∀ t t', F.Alt t t' → isSep t' = isSep t)
    (h : Local F Every n N Every item item') :
    Local F Every n N Every (separated isSep item)
      (separated isSep item') := by
  refine loop (fun items => ?_) []
  refine h.bind_strict fun a => ?_
  refine .peek fun t t' ht => ?_
  rw [halt t t' ht]
  cases hsep : isSep t with
  | false => exact .pure _ id
  | true =>
    refine .advance (fun u us hu hend' => absurd hend' ?_) fun _ _ _ => ?_
    · obtain rfl := Option.some.inj hu
      exact hend u hsep
    · exact .pure _ id

end Local

end TokenParser
