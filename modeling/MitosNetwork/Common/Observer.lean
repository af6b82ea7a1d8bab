import MitosNetwork.Common.Proc

/-!
# Following a log

An `Observer` follows a log with a state of its own, such as the files that the calls of a program
change. It also says which entries are possible where it stands: what is read from a file depends on
what was written before. `Proc.Tracks` is a pre- and postcondition over the state of the observer
and that of the program, for every world whose answers are possible.
-/

/-- Somebody who follows a log. -/
structure Observer {C : Type} (A : C → Type) (N γ : Type) where
  /-- The state after an entry. -/
  see : γ → Entry A N → γ
  /-- The entry is possible in this state. -/
  Admits : γ → Entry A N → Prop

namespace Observer

variable {C : Type} {A : C → Type} {N γ : Type} (O : Observer A N γ)

def after (g : γ) (log : List (Entry A N)) : γ := log.foldl O.see g

/-- Every entry of the log is possible where it stands. -/
def Follows : γ → List (Entry A N) → Prop
  | _, [] => True
  | g, e :: log => O.Admits g e ∧ Follows (O.see g e) log

instance Follows.decidable [∀ g e, Decidable (O.Admits g e)] :
    (g : γ) → (log : List (Entry A N)) → Decidable (O.Follows g log)
  | _, [] => inferInstanceAs (Decidable True)
  | g, e :: log =>
    have := Follows.decidable (O.see g e) log
    inferInstanceAs (Decidable (O.Admits g e ∧ O.Follows (O.see g e) log))

def Ignores (e : Entry A N) : Prop := ∀ g, O.see g e = g

theorem after_append (g : γ) (log log' : List (Entry A N)) :
    O.after g (log ++ log') = O.after (O.after g log) log' := List.foldl_append

theorem follows_append {g : γ} {log log' : List (Entry A N)} :
    O.Follows g (log ++ log') ↔ O.Follows g log ∧ O.Follows (O.after g log) log' := by
  induction log generalizing g with
  | nil => exact ⟨fun h => ⟨trivial, h⟩, fun h => h.2⟩
  | cons e log ih =>
    show O.Admits g e ∧ O.Follows (O.see g e) (log ++ log') ↔ _
    rw [ih, ← and_assoc]
    rfl

variable {O}

theorem after_of_ignores {log : List (Entry A N)} (h : ∀ e ∈ log, O.Ignores e) (g : γ) :
    O.after g log = g := by
  induction log with
  | nil => rfl
  | cons e log ih =>
    show O.after (O.see g e) log = g
    rw [h e List.mem_cons_self g]
    exact ih fun e' he' => h e' (List.mem_cons_of_mem _ he')

end Observer

namespace Proc

variable {C : Type} {A : C → Type} {N γ σ τ α β : Type} {O : Observer A N γ}

/-- From a state of the observer and of the program that satisfy `P`, if every entry that the
program logs is possible, it ends with a result and states that satisfy `Q`. -/
def Tracks (O : Observer A N γ) (P : γ → σ → Prop) (m : Proc A N σ α) (Q : α → γ → σ → Prop) :
    Prop :=
  ∀ w k s g, P g s → O.Follows g (m w k s).log →
    Q (m w k s).result (O.after g (m w k s).log) (m w k s).state

namespace Tracks

variable {P : γ → σ → Prop} {Q : α → γ → σ → Prop}

theorem pure {a : α} (h : ∀ g s, P g s → Q a g s) : Tracks O P (pure a : Proc A N σ α) Q :=
  fun _ _ s g hs _ => h g s hs

theorem get {Q : σ → γ → σ → Prop} (h : ∀ g s, P g s → Q s g s) :
    Tracks O P (get : Proc A N σ σ) Q := fun _ _ s g hs _ => h g s hs

theorem modify {f : σ → σ} {Q : Unit → γ → σ → Prop} (h : ∀ g s, P g s → Q () g (f s)) :
    Tracks O P (modify f : Proc A N σ Unit) Q := fun _ _ s g hs _ => h g s hs

theorem call {c : C} {Q : A c → γ → σ → Prop}
    (h : ∀ g s a, P g s → O.Admits g (.call c a) → Q a (O.see g (.call c a)) s) :
    Tracks O P (call c : Proc A N σ (A c)) Q :=
  fun w k s g hs hfol => h g s (w k c) hs hfol.1

theorem note {n : N} {Q : Unit → γ → σ → Prop} (h : ∀ g s, P g s → Q () (O.see g (.note n)) s) :
    Tracks O P (note n : Proc A N σ Unit) Q := fun _ _ s g hs _ => h g s hs

theorem bind {m : Proc A N σ α} {f : α → Proc A N σ β} {R : β → γ → σ → Prop}
    (hm : Tracks O P m Q) (hf : ∀ a, Tracks O (Q a) (f a) R) : Tracks O P (m >>= f) R := by
  intro w k s g hs hfol
  rw [log_bind, Observer.follows_append] at hfol
  rw [log_bind, Observer.after_append]
  exact hf _ w _ _ _ (hm w k s g hs hfol.1) hfol.2

theorem forM {f : α → Proc A N σ Unit} (hf : ∀ a, Tracks O P (f a) fun _ => P) (l : List α) :
    Tracks O P (l.forM f) fun _ => P := by
  induction l with
  | nil => exact pure fun _ _ hs => hs
  | cons a l ih => exact bind (hf a) fun _ => ih

theorem zoom {R : C → Prop} {m : Proc A Empty τ α} (hm : m.Makes R)
    (hignores : ∀ c, R c → ∀ a, O.Ignores (.call c a)) {view : σ → τ} {update : τ → σ → σ}
    (hfr : ∀ t s g, P g s → P g (update t s)) :
    Tracks O P (zoom view update m : Proc A N σ α) fun _ => P := by
  intro w k s g hs _
  rw [Observer.after_of_ignores]
  · exact hfr _ s g hs
  · intro e he
    cases e with
    | call c a => exact hignores c (hm.zoom view update w k s c a he) a
    | note n => exact (note_notMem_log_zoom he).elim

end Tracks

end Proc
