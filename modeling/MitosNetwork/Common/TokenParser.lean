import Mathlib.Data.List.Basic
import Mathlib.Data.Nat.Notation

/-!
# Parsers over a list of tokens

A hand-written parser keeps the tokens and the position of the next one. It reads a token beyond the
end only by mistake (`outOfRange`), and its loops and recursive calls go on as long as there are
tokens (`outOfFuel` says that one took more turns than there were tokens left).

`Reads p ts a P` is the rule language: wherever the next tokens are `ts` and then one in `P`, the
parser `p` takes exactly `ts` and returns `a`. There is one rule for each way of putting parsers
together, so a round trip is proved along the grammar and no proof counts turns.
-/

/-- The tokens of a text and the position of the next one. -/
structure Cursor (τ : Type) where
  toks : List τ
  pos : ℕ

namespace Cursor

variable {τ : Type}

variable {c : Cursor τ}

/-- The tokens that are still to be read. -/
def rest (c : Cursor τ) : List τ := c.toks.drop c.pos

def skip (c : Cursor τ) (n : ℕ) : Cursor τ := { c with pos := c.pos + n }

@[simp] theorem skip_skip (c : Cursor τ) (m n : ℕ) : (c.skip m).skip n = c.skip (m + n) := by
  simp [skip, Nat.add_assoc]

theorem rest_skip {ts us : List τ} (h : c.rest = ts ++ us) : (c.skip ts.length).rest = us := by
  have hdrop : (c.skip ts.length).rest = c.rest.drop ts.length := by
    simp [rest, skip, List.drop_drop]
  rw [hdrop, h, List.drop_left]

theorem getElem?_pos_add {ts : List τ} (h : c.rest = ts) (n : ℕ) : c.toks[c.pos + n]? = ts[n]? := by
  rw [← h, rest, List.getElem?_drop]

end Cursor

inductive TokenParser.Failure (ε : Type) where
  | error (e : ε)
  | outOfRange
  | outOfFuel
deriving DecidableEq

/-- A parser of values of type `α` over tokens of type `τ`. -/
abbrev TokenParser (τ ε α : Type) := StateT (Cursor τ) (Except (TokenParser.Failure ε)) α

namespace TokenParser

open List

variable {τ ε α β ι σ : Type}

variable {f : τ → TokenParser τ ε β} {body : TokenParser τ ε α → TokenParser τ ε α}
  {Operand : List τ → α → Prop} {op : τ → Option (α → α → α)}

/-! ## Operations -/

def fail (e : ε) : TokenParser τ ε α := fun _ => .error (.error e)

def peek : TokenParser τ ε τ := fun c =>
  match c.toks[c.pos]? with
  | some t => .ok (t, c)
  | none => .error .outOfRange

def peekSecond : TokenParser τ ε (Option τ) := fun c => .ok (c.toks[c.pos + 1]?, c)

/-- Takes the next token. The last token stays where it is. -/
def advance : TokenParser τ ε τ := do
  let t ← peek
  modify fun c => if c.pos + 1 < c.toks.length then c.skip 1 else c
  pure t

/-- At most `n` turns of a loop. A turn ends with the state of the next turn or with the result. -/
def loopUpTo (body : σ → TokenParser τ ε (σ ⊕ β)) : ℕ → σ → TokenParser τ ε β
  | 0, _ => fun _ => .error .outOfFuel
  | n + 1, s => do
    match ← body s with
    | .inl s => loopUpTo body n s
    | .inr b => pure b

/-- A loop each turn of which takes a token, but for the last. -/
def loop (body : σ → TokenParser τ ε (σ ⊕ β)) (s : σ) : TokenParser τ ε β := fun c =>
  loopUpTo body c.rest.length s c

/-- At most `n` nested calls. -/
def nest (body : TokenParser τ ε α → TokenParser τ ε α) : ℕ → TokenParser τ ε α
  | 0 => fun _ => .error .outOfFuel
  | n + 1 => body (nest body n)

/-- A function that takes a token before it calls itself. -/
def recursive (body : TokenParser τ ε α → TokenParser τ ε α) : TokenParser τ ε α := fun c =>
  nest body c.rest.length c

/-- One turn of `chainLeft`. -/
def chainTurn (op : τ → Option (α → α → α)) (operand : TokenParser τ ε α) (left : α) :
    TokenParser τ ε (α ⊕ α) := do
  match op (← peek) with
  | some f =>
    let _ ← advance
    let right ← operand
    pure (.inl (f left right))
  | none => pure (.inr left)

/-- Operands joined by the binary operators of one level, associated to the left. -/
def chainLeft (op : τ → Option (α → α → α)) (operand : TokenParser τ ε α) :
    TokenParser τ ε α := do
  let first ← operand
  loop (chainTurn op operand) first

/-- One turn of `separated`. -/
def separatedTurn (isSep : τ → Bool) (item : TokenParser τ ε α) (items : List α) :
    TokenParser τ ε (List α ⊕ List α) := do
  let a ← item
  if isSep (← peek) then
    let _ ← advance
    pure (.inl (items ++ [a]))
  else pure (.inr (items ++ [a]))

/-- One or more items with a separator between neighbours. -/
def separated (isSep : τ → Bool) (item : TokenParser τ ε α) : TokenParser τ ε (List α) :=
  loop (separatedTurn isSep item) []

/-! ## What a parser reads -/

section

variable {c c' : Cursor τ} {t u : τ} {rest : List τ} {p : TokenParser τ ε α}

theorem bind_apply {a : α} (h : p c = .ok (a, c')) (f : α → TokenParser τ ε β) :
    (p >>= f) c = f a c' := by
  show Except.bind (p c) (fun q => f q.1 q.2) = _
  rw [h]
  rfl

theorem bind_apply_error {e : Failure ε} (h : p c = .error e) (f : α → TokenParser τ ε β) :
    (p >>= f) c = .error e := by
  show Except.bind (p c) (fun q => f q.1 q.2) = _
  rw [h]
  rfl

theorem peek_eq_ok (h : c.rest = t :: rest) : (peek : TokenParser τ ε τ) c = .ok (t, c) := by
  rw [peek, ← Nat.add_zero c.pos, Cursor.getElem?_pos_add h]
  rfl

theorem peekSecond_eq_ok (h : c.rest = t :: u :: rest) :
    (peekSecond : TokenParser τ ε (Option τ)) c = .ok (some u, c) := by
  rw [peekSecond, Cursor.getElem?_pos_add h]
  rfl

theorem advance_apply (h : c.rest = t :: rest) :
    (advance : TokenParser τ ε τ) c =
      .ok (t, if c.pos + 1 < c.toks.length then c.skip 1 else c) := by
  rw [advance, bind_apply (peek_eq_ok h)]
  rfl

end

theorem exists_recursive_eq (body : TokenParser τ ε α → TokenParser τ ε α) {c : Cursor τ}
    {ts rest : List τ} {t : τ} (hc : c.rest = ts ++ t :: rest) :
    ∃ m, ts.length ≤ m ∧ recursive body c = body (nest body m) c := by
  refine ⟨ts.length + rest.length, Nat.le_add_right _ _, ?_⟩
  rw [recursive, hc, length_append, length_cons]
  rfl

/-- Before `ts` and a token in `P`, the parser takes `ts` and returns `a`. -/
def Reads (p : TokenParser τ ε α) (ts : List τ) (a : α) (P : τ → Prop) : Prop :=
  ∀ (c : Cursor τ) (t : τ) (rest : List τ), c.rest = ts ++ t :: rest → P t →
    p c = .ok (a, c.skip ts.length)

namespace Reads

variable {p : TokenParser τ ε α} {ts us : List τ} {a : α} {b : β} {t : τ} {P Q : τ → Prop}

theorem pure (a : α) : Reads (Pure.pure a : TokenParser τ ε α) [] a P := fun _ _ _ _ _ => rfl

theorem apply_append (hp : Reads p ts a P) {c : Cursor τ} {rest : List τ}
    (hc : c.rest = ts ++ (us ++ t :: rest)) (ht : P (us.headD t)) :
    p c = .ok (a, c.skip ts.length) := by
  cases us with
  | nil => exact hp c t rest hc ht
  | cons u us => exact hp c u (us ++ t :: rest) hc ht

theorem bind {f : α → TokenParser τ ε β} (hp : Reads p ts a P) (hf : Reads (f a) us b Q)
    (hnext : ∀ t, Q t → P (us.headD t)) : Reads (p >>= f) (ts ++ us) b Q := by
  intro c t rest hc ht
  rw [append_assoc] at hc
  rw [bind_apply (hp.apply_append hc (hnext t ht)), length_append, ← Cursor.skip_skip]
  exact hf (c.skip ts.length) t rest (Cursor.rest_skip hc) ht

theorem map {f : α → β} (hp : Reads p ts a P) :
    Reads (p >>= fun a => Pure.pure (f a)) ts (f a) P := by
  rw [← append_nil ts]
  exact bind hp (pure (f a)) fun _ ht => ht

theorem peek_cons (hf : Reads (f t) (t :: us) b Q) : Reads (peek >>= f) (t :: us) b Q := by
  intro c t' rest hc ht
  rw [bind_apply (peek_eq_ok hc)]
  exact hf c t' rest hc ht

theorem peek_nil (hf : ∀ t, Q t → Reads (f t) [] b Q) : Reads (peek >>= f) [] b Q := by
  intro c t rest hc ht
  rw [bind_apply (peek_eq_ok hc)]
  exact hf t ht c t rest hc ht

theorem peek_eq (hf : Reads (f t) [] b (· = t)) : Reads (peek >>= f) [] b (· = t) :=
  peek_nil fun u hu => by rwa [hu]

theorem peekSecond_cons {t' : τ} {f : Option τ → TokenParser τ ε β}
    (hf : Reads (f (some t')) (t :: t' :: us) b Q) :
    Reads (peekSecond >>= f) (t :: t' :: us) b Q := by
  intro c next rest hc hnext
  rw [bind_apply (peekSecond_eq_ok hc)]
  exact hf c next rest hc hnext

theorem peekSecond_singleton {f : Option τ → TokenParser τ ε β}
    (hf : ∀ t', Q t' → Reads (f (some t')) [t] b Q) : Reads (peekSecond >>= f) [t] b Q := by
  intro c next rest hc hnext
  rw [bind_apply (peekSecond_eq_ok hc)]
  exact hf next hnext c next rest hc hnext

theorem advance (t : τ) : Reads (advance : TokenParser τ ε τ) [t] t P := by
  intro c t' rest hc _
  have hlt : c.pos + 1 < c.toks.length := by
    have hlen := congrArg List.length hc
    simp only [Cursor.rest, length_drop, length_append, length_cons] at hlen
    omega
  rw [advance_apply hc, if_pos hlt]
  rfl

theorem advance_cons (hf : Reads (f t) us b Q) : Reads (TokenParser.advance >>= f) (t :: us) b Q :=
  bind (P := fun _ => True) (advance t) hf fun _ _ => trivial

/-- **Loops.** Each turn takes the tokens of one item, and the last turn takes `last`. -/
theorem loop {body : σ → TokenParser τ ε (σ ⊕ β)} {push : σ → ι → σ} {print : ι → List τ}
    {items : List ι} {s : σ} {last : List τ}
    (hitem : ∀ s, ∀ i ∈ items, Reads (body s) (print i) (.inl (push s i)) P)
    (hne : ∀ i ∈ items, print i ≠ []) (hst : ∀ i ∈ items.tail, ∀ t ∈ (print i).head?, P t)
    (hlast : Reads (body (items.foldl push s)) last (.inr b) Q)
    (hnext : ∀ t, Q t → P (last.headD t)) :
    Reads (loop body s) (items.flatMap print ++ last) b Q := by
  have htu : ∀ n, (items.flatMap print ++ last).length < n →
      Reads (loopUpTo body n s) (items.flatMap print ++ last) b Q := by
    induction items generalizing s with
    | nil =>
      intro n hn
      obtain ⟨n, rfl⟩ := Nat.exists_eq_succ_of_ne_zero (Nat.ne_of_gt (Nat.zero_lt_of_lt hn))
      rw [flatMap_nil, nil_append, ← append_nil last]
      exact bind hlast (pure b) fun t ht => ht
    | cons i items ih =>
      intro n hn
      obtain ⟨n, rfl⟩ := Nat.exists_eq_succ_of_ne_zero (Nat.ne_of_gt (Nat.zero_lt_of_lt hn))
      have hpos : 0 < (print i).length := length_pos_of_ne_nil (hne i mem_cons_self)
      have hrest := ih (fun s j hj => hitem s j (mem_cons_of_mem _ hj))
        (fun j hj => hne j (mem_cons_of_mem _ hj))
        (fun j hj => hst j (mem_of_mem_tail hj)) hlast n (by
          rw [flatMap_cons, append_assoc, length_append] at hn
          omega)
      rw [flatMap_cons, append_assoc]
      refine bind (hitem s i mem_cons_self) hrest fun t ht => ?_
      cases items with
      | nil => exact hnext t ht
      | cons j items =>
        obtain ⟨v, vs, hj⟩ := exists_cons_of_ne_nil
          (hne j (mem_cons_of_mem _ mem_cons_self))
        rw [flatMap_cons, hj]
        exact hst j mem_cons_self v (by rw [hj]; rfl)
  -- the loop may take as many turns as there are tokens, and the token after the last is left
  intro c t rest hc ht
  refine htu c.rest.length ?_ c t rest hc ht
  simp only [hc, length_append, length_cons]
  omega

/-- **Recursion.** A body that reads the items of a language by calls on shorter ones reads all. -/
theorem recursive {L : List τ → α → Prop} (hbody : ∀ p ts a, L ts a →
      (∀ us b, us.length < ts.length → L us b → Reads p us b P) → Reads (body p) ts a P)
    (h : L ts a) : Reads (recursive body) ts a P := by
  have hnest : ∀ n ts a, L ts a → ts.length < n → Reads (nest body n) ts a P := by
    intro n
    induction n with
    | zero => exact fun _ _ _ hn => absurd hn (Nat.not_lt_zero _)
    | succ n ih =>
      intro ts a hL hn
      exact hbody _ ts a hL fun us b hus hb => ih us b hb (by omega)
  intro c t rest hc ht
  refine hnest c.rest.length ts a h ?_ c t rest hc ht
  rw [hc, length_append, length_cons]
  omega

theorem of_nest (h : ∀ m, ts.length ≤ m → Reads (body (nest body m)) ts a P) :
    Reads (TokenParser.recursive body) ts a P := by
  intro c t rest hc ht
  obtain ⟨m, hm, hrun⟩ := exists_recursive_eq body hc
  rw [hrun]
  exact h m hm c t rest hc ht

end Reads

/-- Before `ts` and a token in `P`, the parser fails with `e`. -/
def Rejects (p : TokenParser τ ε α) (ts : List τ) (e : ε) (P : τ → Prop) : Prop :=
  ∀ (c : Cursor τ) (t : τ) (rest : List τ), c.rest = ts ++ t :: rest → P t → p c = .error (.error e)

namespace Rejects

variable {p : TokenParser τ ε α} {ts us : List τ} {a : α} {e : ε} {t : τ} {P Q : τ → Prop}

theorem bind_left (hp : Rejects p ts e P) (f : α → TokenParser τ ε β) :
    Rejects (p >>= f) ts e P :=
  fun c t rest hc ht => bind_apply_error (hp c t rest hc ht) f

theorem bind {f : α → TokenParser τ ε β} (hp : Reads p ts a P) (hf : Rejects (f a) us e Q)
    (hnext : ∀ t, Q t → P (us.headD t)) : Rejects (p >>= f) (ts ++ us) e Q := by
  intro c t rest hc ht
  rw [append_assoc] at hc
  rw [bind_apply (hp.apply_append hc (hnext t ht))]
  exact hf (c.skip ts.length) t rest (Cursor.rest_skip hc) ht

theorem peek_cons (hf : Rejects (f t) (t :: us) e Q) : Rejects (peek >>= f) (t :: us) e Q := by
  intro c t' rest hc ht
  rw [bind_apply (peek_eq_ok hc)]
  exact hf c t' rest hc ht

theorem advance_cons (hf : Rejects (f t) us e Q) :
    Rejects (TokenParser.advance >>= f) (t :: us) e Q :=
  bind (P := fun _ => True) (.advance t) hf fun _ _ => trivial

theorem of_nest (h : ∀ m, ts.length ≤ m → Rejects (body (nest body m)) ts e P) :
    Rejects (recursive body) ts e P := by
  intro c t rest hc ht
  obtain ⟨m, hm, hrun⟩ := exists_recursive_eq body hc
  rw [hrun]
  exact h m hm c t rest hc ht

end Rejects

/-! ## Chains and lists -/

/-- The texts of a chain: an operand, or a chain, an operator and an operand. -/
inductive Chain (op : τ → Option (α → α → α)) (Operand : List τ → α → Prop) :
    List τ → α → Prop
  | operand {ts : List τ} {a : α} (h : Operand ts a) : Chain op Operand ts a
  | infixed {ts us : List τ} {l r : α} {t : τ} {f : α → α → α} (hl : Chain op Operand ts l)
      (ht : op t = some f) (hr : Operand us r) : Chain op Operand (ts ++ t :: us) (f l r)

structure Link (τ α : Type) where
  operator : τ
  apply : α → α → α
  tokens : List τ
  right : α

theorem Chain.exists_links {ts : List τ} {a : α} (h : Chain op Operand ts a) :
    ∃ (first : List τ) (a₀ : α) (links : List (Link τ α)), Operand first a₀ ∧
      (∀ k ∈ links, op k.operator = some k.apply ∧ Operand k.tokens k.right) ∧
      ts = first ++ links.flatMap (fun k => k.operator :: k.tokens) ∧
      a = links.foldl (fun l k => k.apply l k.right) a₀ := by
  induction h with
  | operand h => exact ⟨_, _, [], h, by simp, by simp, rfl⟩
  | @infixed ts us l r t f _ ht hr ih =>
    obtain ⟨first, a₀, links, hfst, hlk, rfl, rfl⟩ := ih
    refine ⟨first, a₀, links ++ [⟨t, f, us, r⟩], hfst, ?_, by simp, by simp⟩
    intro k hk
    rcases mem_append.mp hk with hk | hk
    · exact hlk k hk
    · obtain rfl := mem_singleton.mp hk
      exact ⟨ht, hr⟩

theorem intercalate_concat (sep : τ) (f : α → List τ) (init : List α) (last : α) :
    [sep].intercalate ((init ++ [last]).map f) =
      init.flatMap (fun a => f a ++ [sep]) ++ f last := by
  induction init with
  | nil => simp
  | cons a init ih =>
    cases init with
    | nil => simp
    | cons b init => simp_all

theorem length_le_length_intercalate (sep : τ) {ts : List τ} {tss : List (List τ)}
    (h : ts ∈ tss) : ts.length ≤ ([sep].intercalate tss).length := by
  induction tss with
  | nil => cases h
  | cons us tss ih =>
    cases tss with
    | nil => simp_all
    | cons vs tss =>
      rw [intercalate_cons_cons, length_append, length_append]
      rcases mem_cons.mp h with rfl | h
      · omega
      · have := ih h
        omega

theorem foldl_concat_eq_append (f : ι → α) (items : List ι) (init : List α) :
    items.foldl (fun s i => s ++ [f i]) init = init ++ items.map f := by
  induction items generalizing init with
  | nil => simp
  | cons a items ih => simp [ih]

namespace Reads

variable {ts : List τ} {a : α} {P Q : τ → Prop}

theorem chainLeft {operand : TokenParser τ ε α}
    (hoperand : ∀ us b, Operand us b → Reads operand us b P) (hop : ∀ t f, op t = some f → P t)
    (hQ : ∀ t, Q t → P t ∧ op t = none) (h : Chain op Operand ts a) :
    Reads (chainLeft op operand) ts a Q := by
  obtain ⟨first, a₀, links, hfst, hlk, rfl, rfl⟩ := h.exists_links
  have hlink : ∀ left, ∀ k ∈ links, Reads (chainTurn op operand left) (k.operator :: k.tokens)
      (.inl (k.apply left k.right)) P := by
    intro left k hk
    obtain ⟨hk, hright⟩ := hlk k hk
    refine peek_cons ?_
    rw [hk]
    exact advance_cons (hoperand _ _ hright).map
  have hend : ∀ left, Reads (chainTurn op operand left) [] (.inr left) Q := by
    intro left
    refine peek_nil fun t ht => ?_
    rw [(hQ t ht).2]
    exact pure _
  have hst : ∀ k ∈ links.tail, ∀ t ∈ (k.operator :: k.tokens).head?, P t := by
    intro k hk t ht
    obtain rfl := Option.some.inj ht
    exact hop _ _ (hlk k (mem_of_mem_tail hk)).1
  have hloop := loop (s := a₀) hlink (fun k _ => cons_ne_nil _ _) hst (hend _)
    fun t ht => (hQ t ht).1
  rw [append_nil] at hloop
  refine bind (hoperand _ _ hfst) hloop fun t ht => ?_
  cases links with
  | nil => exact (hQ t ht).1
  | cons k links => exact hop _ _ (hlk k mem_cons_self).1

theorem separated {isSep : τ → Bool} {sep : τ} {item : TokenParser τ ε α} {print : α → List τ}
    {as : List α} (hsep : isSep sep = true) (hne : as ≠ [])
    (hitem : ∀ a ∈ as, Reads item (print a) a P)
    (hPsep : P sep) (hQ : ∀ t, Q t → P t ∧ isSep t = false) :
    Reads (separated isSep item) ([sep].intercalate (as.map print)) as Q := by
  obtain ⟨init, last, rfl⟩ := (eq_nil_or_concat' as).resolve_left hne
  have hturn : ∀ items, ∀ a ∈ init, Reads (separatedTurn isSep item items) (print a ++ [sep])
      (.inl (items ++ [a])) fun _ => True := by
    intro items a ha
    refine bind (hitem a (mem_append_left _ ha)) (peek_cons ?_) fun _ _ => hPsep
    rw [if_pos hsep]
    exact advance_cons (pure _)
  have hend : ∀ items, Reads (separatedTurn isSep item items) (print last)
      (.inr (items ++ [last])) Q := by
    intro items
    rw [← append_nil (print last)]
    refine bind (hitem last (by simp)) (peek_nil fun t ht => ?_) fun t ht => (hQ t ht).1
    rw [if_neg (by simp [(hQ t ht).2])]
    exact pure _
  have hloop := loop (s := []) hturn (fun a ha => ?_) (fun _ _ _ _ => trivial) (hend _)
    fun _ _ => trivial
  · rw [foldl_concat_eq_append fun a => a, map_id'] at hloop
    rw [intercalate_concat]
    exact hloop
  · exact append_ne_nil_of_right_ne_nil _ (cons_ne_nil sep [])

end Reads

end TokenParser
