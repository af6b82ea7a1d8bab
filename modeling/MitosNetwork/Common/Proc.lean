import Mathlib.Data.List.Basic

/-!
# Programs that call outside

A `Proc` is a sequential program with a state. It makes calls to an outside it does not control, the
type of an answer depending on the call, and it may leave notes. Everything it does beyond its state
is in its log. The outside is a `World`: an answer to every call at every place of the log, so a
result about every `World` is one about every behaviour of the outside.

The second half is the rules by which programs are verified: `ReadOnly` for programs that only look,
`Ensures` for pre- and postconditions in one world with `Keeps` for invariants, `Lawful` for
invariants together with a law that the log obeys, such as `Sound` for the notes that are left,
`Obeys` for what a program may do to the state and leave in the log together, and `Makes` for the
calls that are made at all. A program over a part of the state is run on the whole
by `zoom`; what it cannot see it cannot change.
-/

variable {k : ℕ}

inductive Entry {C : Type} (A : C → Type) (N : Type) where
  | call (c : C) (answer : A c)
  | note (n : N)

/-- The answers of the outside, by place in the log. -/
def World {C : Type} (A : C → Type) := ℕ → (c : C) → A c

/-- What a program leaves behind. -/
structure Ran {C : Type} (A : C → Type) (N σ α : Type) where
  result : α
  state : σ
  log : List (Entry A N)

/-- A program over the state `σ` with calls answered in `A`, notes in `N` and results in `α`. It is
told how much was logged before it. -/
def Proc {C : Type} (A : C → Type) (N σ α : Type) := World A → ℕ → σ → Ran A N σ α

namespace Proc

variable {C : Type} {A : C → Type} {N M σ τ α β ε : Type}

variable {m : Proc A N σ α} {a : α} {f : α → Proc A N σ β} {s : σ} {n : N} {view : σ → τ}
  {update : τ → σ → σ} {c : C}

/-! ## The operations -/

protected def pure (a : α) : Proc A N σ α := fun _ _ s => ⟨a, s, []⟩

protected def bind (m : Proc A N σ α) (f : α → Proc A N σ β) : Proc A N σ β := fun w k s =>
  match m w k s with
  | ⟨a, s, log⟩ =>
    match f a w (k + log.length) s with
    | ⟨b, s, log'⟩ => ⟨b, s, log ++ log'⟩

instance : Monad (Proc A N σ) where
  pure := Proc.pure
  bind := Proc.bind

def call (c : C) : Proc A N σ (A c) := fun w k s => ⟨w k c, s, [.call c (w k c)]⟩

def note (n : N) : Proc A N σ Unit := fun _ _ s => ⟨(), s, [.note n]⟩

def get : Proc A N σ σ := fun _ _ s => ⟨s, s, []⟩

def modify (f : σ → σ) : Proc A N σ Unit := fun _ _ s => ⟨(), f s, []⟩

def liftEntry : Entry A Empty → Entry A N
  | .call c a => .call c a

/-- Run a program on a part of the state. -/
def zoom (view : σ → τ) (update : τ → σ → σ) (m : Proc A Empty τ α) : Proc A N σ α := fun w k s =>
  match m w k (view s) with
  | ⟨a, t, log⟩ => ⟨a, update t s, log.map liftEntry⟩

def run (m : Proc A N σ α) (w : World A) (s : σ) : Ran A N σ α := m w 0 s

/-! ## What a sequence does -/

@[simp] theorem state_bind (m : Proc A N σ α) (f : α → Proc A N σ β) (w : World A) (k : ℕ) (s : σ) :
    ((m >>= f) w k s).state =
      (f (m w k s).result w (k + (m w k s).log.length) (m w k s).state).state := rfl

@[simp] theorem result_bind (m : Proc A N σ α) (f : α → Proc A N σ β) (w : World A) (k : ℕ)
    (s : σ) :
    ((m >>= f) w k s).result =
      (f (m w k s).result w (k + (m w k s).log.length) (m w k s).state).result := rfl

@[simp] theorem log_bind (m : Proc A N σ α) (f : α → Proc A N σ β) (w : World A) (k : ℕ) (s : σ) :
    ((m >>= f) w k s).log =
      (m w k s).log ++ (f (m w k s).result w (k + (m w k s).log.length) (m w k s).state).log := rfl

@[simp] theorem pure_apply (a : α) (w : World A) (k : ℕ) (s : σ) :
    (pure a : Proc A N σ α) w k s = ⟨a, s, []⟩ := rfl

theorem bind_apply {w : World A} {s' : σ} {log : List (Entry A N)} (h : m w k s = ⟨a, s', log⟩) :
    (m >>= f) w k s = ⟨(f a w (k + log.length) s').result, (f a w (k + log.length) s').state,
      log ++ (f a w (k + log.length) s').log⟩ := by
  have hbind : (m >>= f) w k s = ⟨((m >>= f) w k s).result, ((m >>= f) w k s).state,
    ((m >>= f) w k s).log⟩ := rfl
  rw [hbind, result_bind, state_bind, log_bind, h]

theorem get_bind (f : σ → Proc A N σ β) (w : World A) (k : ℕ) (s : σ) :
    (get >>= f) w k s = f s w k s := rfl

theorem modify_bind (g : σ → σ) (f : Unit → Proc A N σ β) (w : World A) (k : ℕ) (s : σ) :
    (modify g >>= f) w k s = f () w k (g s) := rfl

theorem note_notMem_map_liftEntry {log : List (Entry A Empty)} :
    .note n ∉ log.map (liftEntry : Entry A Empty → Entry A N) := by
  intro hn
  obtain ⟨e, -, he⟩ := List.mem_map.mp hn
  cases e with
  | call c a => cases he
  | note n' => exact n'.elim

theorem note_notMem_log_zoom {m : Proc A Empty τ α} {w : World A} :
    .note n ∉ ((zoom view update m : Proc A N σ α) w k s).log := note_notMem_map_liftEntry

/-! ## Programs that do not change the state -/

/-- The program leaves the state as it is, whatever it is answered. -/
def ReadOnly (m : Proc A N σ α) : Prop := ∀ w k s, (m w k s).state = s

namespace ReadOnly

theorem pure (a : α) : ReadOnly (pure a : Proc A N σ α) := fun _ _ _ => rfl

theorem call (c : C) : ReadOnly (call c : Proc A N σ (A c)) := fun _ _ _ => rfl

end ReadOnly

/-! ## Pre- and postconditions -/

variable (w : World A)

/-- From a state that satisfies `P`, in the world `w`, the program ends with a result and a state
that satisfy `Q`. -/
def Ensures (P : σ → Prop) (m : Proc A N σ α) (Q : α → σ → Prop) : Prop :=
  ∀ k s, P s → Q (m w k s).result (m w k s).state

/-- The program preserves `I` in the world `w`. -/
abbrev Keeps (I : σ → Prop) (m : Proc A N σ α) : Prop := Ensures w I m fun _ => I

namespace Ensures

variable {w : World A} {P : σ → Prop} {Q : α → σ → Prop}

theorem pure (h : ∀ s, P s → Q a s) : Ensures w P (pure a : Proc A N σ α) Q :=
  fun _ s hs => h s hs

theorem modify {f : σ → σ} {Q : Unit → σ → Prop} (h : ∀ s, P s → Q () (f s)) :
    Ensures w P (modify f : Proc A N σ Unit) Q := fun _ s hs => h s hs

theorem bind {R : β → σ → Prop} (hm : Ensures w P m Q) (hf : ∀ a, Ensures w (Q a) (f a) R) :
    Ensures w P (m >>= f) R :=
  fun k s hs => hf _ _ _ (hm k s hs)

end Ensures

namespace Keeps

variable {w : World A} {I : σ → Prop}

theorem pure (a : α) : Keeps w I (pure a : Proc A N σ α) := fun _ _ hs => hs

theorem call (c : C) : Keeps w I (call c : Proc A N σ (A c)) := fun _ _ hs => hs

theorem get : Keeps w I (get : Proc A N σ σ) := fun _ _ hs => hs

theorem bind (hm : Keeps w I m) (hf : ∀ a, Keeps w I (f a)) :
    Keeps w I (m >>= f) := Ensures.bind hm hf

end Keeps

/-! ## Invariants and laws of logs -/

structure LogLaw {C : Type} (A : C → Type) (N : Type) where
  Holds : List (Entry A N) → Prop
  nil : Holds []
  append : ∀ {log log'}, Holds log → Holds log' → Holds (log ++ log')

/-- This run of the program ends in a state that satisfies `I` and obeys the law. -/
def LawfulAt (I : σ → Prop) (L : LogLaw A N) (m : Proc A N σ α) (k : ℕ) (s : σ) : Prop :=
  I (m w k s).state ∧ L.Holds (m w k s).log

theorem LawfulAt.bind_run {w : World A} {I : σ → Prop} {L : LogLaw A N}
    (hlog : L.Holds (m w k s).log)
    (hrest : LawfulAt w I L (f (m w k s).result) (k + (m w k s).log.length) (m w k s).state) :
    LawfulAt w I L (m >>= f) k s := by
  refine ⟨hrest.1, ?_⟩
  exact L.append hlog hrest.2

/-! ## Rules of conduct -/

/-- What a program may do to the state and leave in the log: a relation that allows doing nothing,
and doing one thing after another. -/
structure Conduct {C : Type} (A : C → Type) (N σ : Type) where
  Allows : σ → List (Entry A N) → σ → Prop
  refl : ∀ s, Allows s [] s
  trans : ∀ {s s' s'' log log'}, Allows s log s' → Allows s' log' s'' → Allows s (log ++ log') s''

/-- An invariant and a law of logs as a rule of conduct: whoever starts in the invariant keeps
both. -/
def Conduct.ofLaw (I : σ → Prop) (L : LogLaw A N) : Conduct A N σ where
  Allows s log s' := I s → I s' ∧ L.Holds log
  refl _ hs := ⟨hs, L.nil⟩
  trans h h' hs := ⟨(h' (h hs).1).1, L.append (h hs).2 (h' (h hs).1).2⟩

/-- The rule that the state stays as it is. Programs that obey it are read-only. -/
def Conduct.still : Conduct A N σ where
  Allows s _ s' := s' = s
  refl _ := rfl
  trans h h' := h'.trans h

/-- This run of the program keeps to the rules. -/
def ObeysAt (R : Conduct A N σ) (m : Proc A N σ α) (k : ℕ) (s : σ) : Prop :=
  R.Allows s (m w k s).log (m w k s).state

/-- Every run of the program in the world `w` does. -/
def Obeys (R : Conduct A N σ) (m : Proc A N σ α) : Prop := ∀ k s, ObeysAt w R m k s

section Obeys

variable {w : World A} {R : Conduct A N σ}

theorem ObeysAt.bind_run (hm : ObeysAt w R m k s)
    (hrest : ObeysAt w R (f (m w k s).result) (k + (m w k s).log.length) (m w k s).state) :
    ObeysAt w R (m >>= f) k s := by
  exact R.trans hm hrest

theorem ObeysAt.bind (hm : ObeysAt w R m k s) (hf : ∀ a, Obeys w R (f a)) :
    ObeysAt w R (m >>= f) k s :=
  hm.bind_run (hf _ _ _)

namespace Obeys

theorem pure (a : α) : Obeys w R (pure a : Proc A N σ α) := fun _ s => R.refl s

theorem get : Obeys w R (get : Proc A N σ σ) := fun _ s => R.refl s

theorem call (hc : ∀ s a, R.Allows s [.call c a] s) :
    Obeys w R (call c : Proc A N σ (A c)) := fun _ s => hc s _

theorem modify {f : σ → σ} (hf : ∀ s, R.Allows s [] (f s)) :
    Obeys w R (modify f : Proc A N σ Unit) := fun _ s => hf s

theorem bind (hm : Obeys w R m) (hf : ∀ a, Obeys w R (f a)) :
    Obeys w R (m >>= f) := fun k s => (hm k s).bind hf

theorem pure_bind (hf : Obeys w R (f a)) : Obeys w R (Pure.pure a >>= f) := hf

theorem bind_of_result {P : α → Prop} (hm : Obeys w R m) (hres : ∀ k s, P (m w k s).result)
    (hf : ∀ a, P a → Obeys w R (f a)) :
    Obeys w R (m >>= f) := fun k s => (hm k s).bind_run (hf _ (hres k s) _ _)

theorem forM {f : α → Proc A N σ Unit} (hf : ∀ a, Obeys w R (f a)) (l : List α) :
    Obeys w R (l.forM f) := by
  induction l with
  | nil => exact pure ()
  | cons a l ih => exact bind (hf a) fun _ => ih

end Obeys

end Obeys

/-- In the world `w` the program preserves `I`, and from a state that satisfies `I` it obeys the
law. -/
abbrev Lawful (I : σ → Prop) (L : LogLaw A N) (m : Proc A N σ α) : Prop :=
  Obeys w (.ofLaw I L) m

theorem LawfulAt.bind {w : World A} {I : σ → Prop} {L : LogLaw A N} (hm : LawfulAt w I L m k s)
    (hf : ∀ a, Lawful w I L (f a)) : LawfulAt w I L (m >>= f) k s :=
  bind_run hm.2 (hf _ _ _ hm.1)

/-! ## Invariants and notes -/

/-- This run of the program ends in a state that satisfies `I` and leaves only notes that satisfy
`P`. -/
def SoundAt (I : σ → Prop) (P : N → Prop) (m : Proc A N σ α) (k : ℕ) (s : σ) : Prop :=
  I (m w k s).state ∧ ∀ n, .note n ∈ (m w k s).log → P n

/-- In the world `w` the program preserves `I`, and from a state that satisfies `I` it leaves only
notes that satisfy `P`. -/
def Sound (I : σ → Prop) (P : N → Prop) (m : Proc A N σ α) : Prop :=
  ∀ k s, I s → SoundAt w I P m k s

/-- The law that every note satisfies `P`. Soundness is lawfulness for it. -/
def LogLaw.notes (P : N → Prop) : LogLaw A N where
  Holds log := ∀ n, .note n ∈ log → P n
  nil _ hn := nomatch hn
  append hlog hlog' n hn := (List.mem_append.mp hn).elim (hlog n) (hlog' n)

/-! ## The calls of a program -/

/-- The program makes only calls that satisfy `R`. -/
def Makes (R : C → Prop) (m : Proc A N σ α) : Prop :=
  ∀ w k s c a, .call c a ∈ (m w k s).log → R c

namespace Makes

variable {R : C → Prop}

theorem pure (a : α) : Makes R (pure a : Proc A N σ α) := fun _ _ _ _ _ h => nomatch h

theorem get : Makes R (get : Proc A N σ σ) := fun _ _ _ _ _ h => nomatch h

theorem modify (f : σ → σ) : Makes R (modify f : Proc A N σ Unit) := fun _ _ _ _ _ h => nomatch h

theorem call (hc : R c) : Makes R (call c : Proc A N σ (A c)) := by
  intro w k s c' a h
  cases List.mem_singleton.mp h
  exact hc

theorem bind (hm : Makes R m) (hf : ∀ a, Makes R (f a)) : Makes R (m >>= f) := by
  intro w k s c a h
  exact (List.mem_append.mp h).elim (hm w k s c a) (hf _ _ _ _ c a)

theorem zoom {m : Proc A Empty τ α} (hm : Makes R m) (view : σ → τ) (update : τ → σ → σ) :
    Makes R (zoom view update m : Proc A N σ α) := by
  intro w k s c a h
  obtain ⟨e, he, heq⟩ := List.mem_map.mp h
  cases e with
  | call c' a' =>
    cases heq
    exact hm w k (view s) c a he
  | note n => exact n.elim

theorem mono {R' : C → Prop} (hm : Makes R m) (h : ∀ c, R c → R' c) :
    Makes R' m := fun w k s c a hc => h c (hm w k s c a hc)

end Makes

end Proc

/-! ## Fallible programs -/

/-- A program that may fail. What it did to the state before it failed stays done. -/
abbrev Try {C : Type} (A : C → Type) (N ε σ : Type) := ExceptT ε (Proc A N σ)

namespace Try

variable {C : Type} {A : C → Type} {N σ α β ε : Type}

variable {w : World A} {log : List (Entry A N)} {m : Try A N ε σ α} {f : α → Try A N ε σ β}

/-- A program whose result says whether it failed. -/
def ofProc (m : Proc A N σ (Except ε α)) : Try A N ε σ α := ExceptT.mk m

/-- A program that cannot fail. -/
def lift (m : Proc A N σ α) : Try A N ε σ α := ExceptT.lift m

theorem run_lift (m : Proc A N σ α) (w : World A) (k : ℕ) (s : σ) :
    (lift m : Try A N ε σ α).run w k s =
      ⟨.ok (m w k s).result, (m w k s).state, (m w k s).log⟩ := by
  show (⟨_, _, (m w k s).log ++ []⟩ : Ran A N σ (Except ε α)) = _
  rw [List.append_nil]

theorem run_bind_of_ok {s s' : σ} {a : α} (h : m.run w k s = ⟨.ok a, s', log⟩) :
    (m >>= f).run w k s = ⟨((f a).run w (k + log.length) s').result,
      ((f a).run w (k + log.length) s').state, log ++ ((f a).run w (k + log.length) s').log⟩ := by
  rw [ExceptT.run_bind, Proc.bind_apply h]

theorem run_bind_of_error {s s' : σ} {e : ε} (h : m.run w k s = ⟨.error e, s', log⟩) :
    (m >>= f).run w k s = ⟨.error e, s', log⟩ := by
  rw [ExceptT.run_bind, Proc.bind_apply h]
  exact congrArg (Ran.mk _ _) (List.append_nil log)

theorem run_bind_of_result {s : σ} {e : ε} (h : (m.run w k s).result = .error e) :
    (m >>= f).run w k s = ⟨.error e, (m.run w k s).state, (m.run w k s).log⟩ :=
  run_bind_of_error (h ▸ rfl)

theorem result_bind_of_ok {s : σ} {a : α} (h : (m.run w k s).result = .ok a) :
    ((m >>= f).run w k s).result =
      ((f a).run w (k + (m.run w k s).log.length) (m.run w k s).state).result := by
  rw [ExceptT.run_bind, Proc.result_bind, h]

/-- The program preserves `I`, also when it fails. -/
abbrev Keeps (w : World A) (I : σ → Prop) (m : Try A N ε σ α) : Prop := Proc.Keeps w I m.run

namespace Keeps

variable {I : σ → Prop}

theorem pure (a : α) : Keeps w I (pure a : Try A N ε σ α) := fun _ _ hs => hs

theorem throw (e : ε) : Keeps w I (throw e : Try A N ε σ α) := fun _ _ hs => hs

theorem ofProc {m : Proc A N σ (Except ε α)} (hm : Proc.Keeps w I m) : Keeps w I (ofProc m) := hm

theorem lift {m : Proc A N σ α} (hm : Proc.Keeps w I m) : Keeps w I (lift m : Try A N ε σ α) :=
  fun k s hs => hm k s hs

theorem ensures_bind {R : Except ε β → σ → Prop} (hm : Keeps w I m)
    (hf : ∀ a, Proc.Ensures w I (f a).run R) (he : ∀ e s, I s → R (.error e) s) :
    Proc.Ensures w I (m >>= f).run R := by
  rw [ExceptT.run_bind]
  refine .bind hm fun r => ?_
  cases r with
  | ok a => exact hf a
  | error e => exact .pure (he e)

theorem bind (hm : Keeps w I m) (hf : ∀ a, Keeps w I (f a)) : Keeps w I (m >>= f) :=
  ensures_bind hm hf fun _ _ hs => hs

theorem forM {f : α → Try A N ε σ Unit} (hf : ∀ a, Keeps w I (f a)) (l : List α) :
    Keeps w I (l.forM f) := by
  induction l with
  | nil => exact pure ()
  | cons a l ih => exact bind (hf a) fun _ => ih

end Keeps

/-- The program makes only calls that satisfy `R`. -/
abbrev Makes (R : C → Prop) (m : Try A N ε σ α) : Prop := Proc.Makes R m.run

namespace Makes

variable {R : C → Prop}

theorem pure (a : α) : Makes R (pure a : Try A N ε σ α) := Proc.Makes.pure _

theorem throw (e : ε) : Makes R (throw e : Try A N ε σ α) := Proc.Makes.pure _

theorem ofProc {m : Proc A N σ (Except ε α)} (hm : Proc.Makes R m) : Makes R (ofProc m) := hm

theorem lift {m : Proc A N σ α} (hm : Proc.Makes R m) : Makes R (lift m : Try A N ε σ α) :=
  .bind hm fun _ => .pure _

theorem bind (hm : Makes R m) (hf : ∀ a, Makes R (f a)) : Makes R (m >>= f) := by
  rw [Makes, ExceptT.run_bind]
  refine .bind hm fun r => ?_
  cases r with
  | ok a => exact hf a
  | error e => exact .pure _

theorem forM {f : α → Try A N ε σ Unit} (hf : ∀ a, Makes R (f a)) (l : List α) :
    Makes R (l.forM f) := by
  induction l with
  | nil => exact pure ()
  | cons a l ih => exact bind (hf a) fun _ => ih

end Makes

theorem result_bind_eq_ok {s : σ} {b : β} (h : ((m >>= f).run w k s).result = .ok b) :
    ∃ a k' s', (m.run w k s).result = .ok a ∧ ((f a).run w k' s').result = .ok b := by
  rw [ExceptT.run_bind, Proc.result_bind] at h
  cases hm : (m.run w k s).result with
  | error e =>
    rw [hm] at h
    cases h
  | ok a =>
    rw [hm] at h
    exact ⟨a, _, _, rfl, h⟩

/-- What a program that succeeds leaves behind, in the state and in the log. -/
def Leaves (w : World A) (P : σ → List (Entry A N) → Prop) (m : Try A N ε σ α) : Prop :=
  ∀ k s a, (m.run w k s).result = .ok a → P (m.run w k s).state (m.run w k s).log

namespace Leaves

variable {P : σ → List (Entry A N) → Prop}

theorem ofProc {m : Proc A N σ (Except ε α)}
    (h : ∀ k s a, (m w k s).result = .ok a → P (m w k s).state (m w k s).log) :
    Leaves w P (ofProc m) := h

theorem bind (hf : ∀ a, Leaves w P (f a)) (hP : ∀ s log log', P s log' → P s (log ++ log')) :
    Leaves w P (m >>= f) := by
  intro k s b h
  rw [ExceptT.run_bind, Proc.result_bind] at h
  rw [ExceptT.run_bind, Proc.state_bind, Proc.log_bind]
  cases hm : (m.run w k s).result with
  | error e =>
    rw [hm] at h
    cases h
  | ok a =>
    rw [hm] at h
    exact hP _ _ _ (hf a _ _ b h)

theorem bind_left {P : List (Entry A N) → Prop} (hm : Leaves w (fun _ => P) m)
    (hP : ∀ log log', P log → P (log ++ log')) : Leaves w (fun _ => P) (m >>= f) := by
  intro k s b h
  obtain ⟨a, _, _, ha, -⟩ := result_bind_eq_ok h
  exact hP _ _ (hm k s a ha)

end Leaves

theorem run_bind_cases (m : Try A N ε σ α) (f : α → Try A N ε σ β) (w : World A) (k : ℕ) (s : σ) :
    (∃ e, (m.run w k s).result = .error e ∧ ((m >>= f).run w k s).result = .error e ∧
      ((m >>= f).run w k s).log = (m.run w k s).log) ∨
    ∃ a k' s', (m.run w k s).result = .ok a ∧
      ((m >>= f).run w k s).result = ((f a).run w k' s').result ∧
      ((m >>= f).run w k s).log = (m.run w k s).log ++ ((f a).run w k' s').log := by
  rw [ExceptT.run_bind, Proc.result_bind, Proc.log_bind]
  cases (m.run w k s).result with
  | error e => exact .inl ⟨e, rfl, rfl, List.append_nil _⟩
  | ok a => exact .inr ⟨a, _, _, rfl, rfl, rfl⟩

end Try
