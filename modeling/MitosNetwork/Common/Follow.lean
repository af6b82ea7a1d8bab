import MitosNetwork.Common.Proc

/-!
# What calls do outside

The outside that answers the calls of a program has a state of its own, which they change. An
`Effect` says what a call and its answer do to it, and `follow` what a whole log does; `Along` asks
something of each entry in the state that it finds. `Try.Triple` is a triple over both states for a
program that may fail, with a postcondition for either outcome. The place at which the log is
followed is not that at which the program was run: what is proved of a program holds wherever its
log ends up.
-/

/-- What a call and its answer do to the state of the outside, by place in the log. -/
abbrev Effect {C : Type} (A : C → Type) (τ : Type) := ℕ → τ → (c : C) → A c → τ

namespace Proc

variable {C : Type} {A : C → Type} {N σ τ α : Type} {f : Effect A τ} {t : τ} {k : ℕ}

/-- What a log does to the state of the outside. -/
def follow (f : Effect A τ) : ℕ → τ → List (Entry A N) → τ
  | _, t, [] => t
  | k, t, .call c a :: log => follow f (k + 1) (f k t c a) log
  | k, t, .note _ :: log => follow f (k + 1) t log

theorem follow_append (log log' : List (Entry A N)) :
    follow f k t (log ++ log') = follow f (k + log.length) (follow f k t log) log' := by
  induction log generalizing k t with
  | nil => rfl
  | cons e log ih =>
    have hlen : k + (log.length + 1) = k + 1 + log.length := by omega
    cases e with
    | call c a | note n =>
      rw [List.cons_append, follow, ih, List.length_cons, hlen]
      rfl

theorem follow_map_liftEntry (log : List (Entry A Empty)) :
    follow f k t (log.map (liftEntry (N := N))) = follow f k t log := by
  induction log generalizing k t with
  | nil => rfl
  | cons e log ih =>
    cases e with
    | note n => exact n.elim
    | call c a => exact ih

theorem follow_invariant {P : τ → Prop} {log : List (Entry A N)}
    (h : ∀ c a, .call c a ∈ log → ∀ k t, P t → P (f k t c a)) (ht : P t) :
    P (follow f k t log) := by
  induction log generalizing k t with
  | nil => exact ht
  | cons e log ih =>
    have hrest : ∀ c a, .call c a ∈ log → ∀ k t, P t → P (f k t c a) := fun c a hmem =>
      h c a (List.mem_cons_of_mem _ hmem)
    cases e with
    | call c a => exact ih hrest (h c a List.mem_cons_self k t ht)
    | note n => exact ih hrest ht

/-- Every entry of a log meets `P` in the state of the outside in which it is made. -/
def Along (f : Effect A τ) (P : τ → Entry A N → Prop) : ℕ → τ → List (Entry A N) → Prop
  | _, _, [] => True
  | k, t, .call c a :: log => P t (.call c a) ∧ Along f P (k + 1) (f k t c a) log
  | k, t, .note n :: log => P t (.note n) ∧ Along f P (k + 1) t log

instance Along.decidable (f : Effect A τ) (P : τ → Entry A N → Prop) [∀ t e, Decidable (P t e)] :
    (k : ℕ) → (t : τ) → (log : List (Entry A N)) → Decidable (Along f P k t log)
  | _, _, [] => inferInstanceAs (Decidable True)
  | k, t, .call c a :: log =>
    have := Along.decidable f P (k + 1) (f k t c a) log
    inferInstanceAs (Decidable (P t (.call c a) ∧ Along f P (k + 1) (f k t c a) log))
  | k, t, .note n :: log =>
    have := Along.decidable f P (k + 1) t log
    inferInstanceAs (Decidable (P t (.note n) ∧ Along f P (k + 1) t log))

theorem along_append {P : τ → Entry A N → Prop} (log log' : List (Entry A N)) :
    Along f P k t (log ++ log') ↔
      Along f P k t log ∧ Along f P (k + log.length) (follow f k t log) log' := by
  induction log generalizing k t with
  | nil => exact iff_of_eq (true_and _).symm
  | cons e log ih =>
    have hlen : k + (log.length + 1) = k + 1 + log.length := by omega
    cases e with
    | call c a | note n =>
      rw [List.cons_append, Along, ih, Along, follow, List.length_cons, hlen, and_assoc]

end Proc

namespace Try

variable {C : Type} {A : C → Type} {N σ τ α β ε : Type} {w : World A} {f : Effect A τ}

def Post (Q : α → σ → τ → Prop) (E : σ → τ → Prop) : Except ε α → σ → τ → Prop
  | .ok a => Q a
  | .error _ => E

/-- From states that satisfy `P`, the program ends in `Q` if it succeeds and in `E` if it fails. -/
def Triple (w : World A) (f : Effect A τ) (P : σ → τ → Prop) (m : Try A N ε σ α)
    (Q : α → σ → τ → Prop) (E : σ → τ → Prop) : Prop :=
  ∀ k j s t, P s t →
    Post Q E (m.run w k s).result (m.run w k s).state (Proc.follow f j t (m.run w k s).log)

namespace Triple

variable {P P' : σ → τ → Prop} {Q Q' : α → σ → τ → Prop} {E E' : σ → τ → Prop}
  {m : Try A N ε σ α}

theorem of_ok (h : Triple w f P m Q E) {k : ℕ} {s : σ} {a : α}
    (hok : (m.run w k s).result = .ok a) (j : ℕ) {t : τ} (ht : P s t) :
    Q a (m.run w k s).state (Proc.follow f j t (m.run w k s).log) := by
  have hpost := h k j s t ht
  rwa [hok] at hpost

theorem of_error (h : Triple w f P m Q E) {k : ℕ} {s : σ} {e : ε}
    (herr : (m.run w k s).result = .error e) (j : ℕ) {t : τ} (ht : P s t) :
    E (m.run w k s).state (Proc.follow f j t (m.run w k s).log) := by
  have hpost := h k j s t ht
  rwa [herr] at hpost

theorem pure {a : α} (h : ∀ s t, P s t → Q a s t) :
    Triple w f P (pure a : Try A N ε σ α) Q E := fun _ _ s t => h s t

theorem modify {g : σ → σ} {Q : Unit → σ → τ → Prop} (h : ∀ s t, P s t → Q () (g s) t) :
    Triple w f P (lift (Proc.modify g) : Try A N ε σ Unit) Q E := fun _ _ s t => h s t

theorem of_and {p : Prop} (h : p → Triple w f P m Q E) : Triple w f (fun s t => p ∧ P s t) m Q E :=
  fun k j s t ht => h ht.1 k j s t ht.2

theorem mono (hP : ∀ s t, P' s t → P s t) (hQ : ∀ a s t, Q a s t → Q' a s t)
    (hE : ∀ s t, E s t → E' s t) (hm : Triple w f P m Q E) : Triple w f P' m Q' E' := by
  intro k j s t ht
  have hpost := hm k j s t (hP s t ht)
  cases hres : (m.run w k s).result with
  | ok a =>
    rw [hres] at hpost
    exact hQ a _ _ hpost
  | error e =>
    rw [hres] at hpost
    exact hE _ _ hpost

theorem bind {g : α → Try A N ε σ β} {R : β → σ → τ → Prop} (hm : Triple w f P m Q E)
    (hg : ∀ a, Triple w f (Q a) (g a) R E) : Triple w f P (m >>= g) R E := by
  intro k j s t ht
  have hpost := hm k j s t ht
  rw [ExceptT.run_bind, Proc.result_bind, Proc.state_bind, Proc.log_bind, Proc.follow_append]
  cases hres : (m.run w k s).result with
  | ok a =>
    rw [hres] at hpost
    exact hg a _ _ _ _ hpost
  | error e =>
    rw [hres] at hpost
    exact hpost

theorem of_invariant {I : σ → Prop} {J : τ → Prop} {R : C → Prop} (hm : Keeps w I m)
    (hmk : Makes R m) (hJ : ∀ c, R c → ∀ k t a, J t → J (f k t c a)) :
    Triple w f (fun s t => I s ∧ J t) m (fun _ s t => I s ∧ J t) fun s t => I s ∧ J t := by
  intro k j s t ht
  have hst := hm k s ht.1
  have hout : J (Proc.follow f j t (m.run w k s).log) :=
    Proc.follow_invariant (fun c a hmem i u => hJ c (hmk w k s c a hmem) i u a) ht.2
  cases (m.run w k s).result with
  | ok a | error e => exact ⟨hst, hout⟩

end Triple

end Try
