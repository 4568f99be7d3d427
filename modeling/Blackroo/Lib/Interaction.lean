import Mathlib.Order.Basic

/-!
# Programs that ask

A program that depends on its surroundings is a tree: it is done, or it asks a question
and goes on with the answer.  What the questions mean is up to a handler, a state machine
that answers them.  The same program can so be run against a recorded disc, a drive or a
sequence of register values, and a program that asks one kind of question becomes, by
substitution (`translate`), a program that asks another.

`AtMost` bounds what a program costs, whatever it is answered, when every question has a
price.  Where the surroundings are free in what they answer, they are a relation, and `Yields` says
what a program can come to; `Sat` is what holds behind all of its runs in terms of what held before.
What they have answered in a run is a list, and `answering` is the run with that list for an input.

## Computations that leave a trace

A `Traced` computation asks nothing.  It has a value and the list of the events it caused, in order.
What holds of every event (`All`) is checked piece by piece: a sequence satisfies it exactly when
its first part does and the rest does, run on the value of the first part.
-/

namespace Interaction

/-- A program with questions `Q`, answers `A q`, and result `α`. -/
inductive Tree (Q : Type) (A : Q → Type) (α : Type) where
  | done (a : α)
  | ask (q : Q) (next : A q → Tree Q A α)

variable {Q Q' : Type} {A : Q → Type} {A' : Q' → Type} {α β σ : Type}

namespace Tree

/-- One program after another. -/
def bind : Tree Q A α → (α → Tree Q A β) → Tree Q A β
  | .done a, f => f a
  | .ask q next, f => .ask q fun r => (next r).bind f

instance : Monad (Tree Q A) where
  pure := .done
  bind := .bind

/-- Asking one question. -/
def query (q : Q) : Tree Q A (A q) := .ask q .done

/-- Run `step` until it returns a value, at most `n` times. -/
def poll (step : Tree Q A (Option α)) : Nat → Tree Q A (Option α)
  | 0 => pure none
  | n + 1 => do
      match ← step with
      | some a => pure (some a)
      | none => poll step n

/-- Every question is put by a program of another kind, which passes a state on. -/
def translate (f : (q : Q) → σ → Tree Q' A' (A q × σ)) : Tree Q A α → σ → Tree Q' A' (α × σ)
  | .done a, s => .done (a, s)
  | .ask q next, s => (f q s).bind fun r => translate f (next r.1) r.2

end Tree

/-! ## Runs -/

/-- A state machine that answers questions. -/
abbrev Handler (Q : Type) (A : Q → Type) (σ : Type) : Type := (q : Q) → σ → A q × σ

/-- The run of a program. -/
def run (h : Handler Q A σ) : Tree Q A α → σ → α × σ
  | .done a, s => (a, s)
  | .ask q next, s => run h (next (h q s).1) (h q s).2

section Run

variable (h : Handler Q A σ)

@[simp] theorem run_pure (a : α) (s : σ) : run h (pure a) s = (a, s) := rfl

/-- A sequence of two programs runs one, then the other. -/
@[simp] theorem run_bind (p : Tree Q A α) (f : α → Tree Q A β) (s : σ) :
    run h (p >>= f) s = run h (f (run h p s).1) (run h p s).2 := by
  induction p generalizing s with
  | done a => rfl
  | ask q next ih => exact ih (h q s).1 (h q s).2

end Run

/-! ## Surroundings that choose -/

/-- What a program can come to, where `step q s r s'` says that the question `q` in the state `s`
may be answered by `r`, with the state `s'` behind it. -/
inductive Yields (step : (q : Q) → σ → A q → σ → Prop) : Tree Q A α → σ → α → σ → Prop
  | done (a : α) (s : σ) : Yields step (.done a) s a s
  | ask {q : Q} {next : A q → Tree Q A α} {s s₁ s₂ : σ} {r : A q} {a : α} (h : step q s r s₁)
      (hnext : Yields step (next r) s₁ a s₂) : Yields step (.ask q next) s a s₂

namespace Yields

variable {step : (q : Q) → σ → A q → σ → Prop}

@[simp] theorem pure_iff {a b : α} {s s' : σ} :
    Yields step (pure a) s b s' ↔ b = a ∧ s' = s := by
  constructor
  · intro h
    cases h
    exact ⟨rfl, rfl⟩
  · rintro ⟨rfl, rfl⟩
    exact .done b s'

theorem ask_iff {q : Q} {next : A q → Tree Q A α} {s s' : σ} {a : α} :
    Yields step (.ask q next) s a s' ↔ ∃ r s₁, step q s r s₁ ∧ Yields step (next r) s₁ a s' := by
  constructor
  · intro h
    cases h with
    | ask h hnext => exact ⟨_, _, h, hnext⟩
  · rintro ⟨r, s₁, h, hnext⟩
    exact .ask h hnext

/-- A sequence of two programs ends as the second one does behind the first. -/
@[simp] theorem bind_iff {p : Tree Q A α} {f : α → Tree Q A β} {s s' : σ} {b : β} :
    Yields step (p >>= f) s b s' ↔ ∃ a s₁, Yields step p s a s₁ ∧ Yields step (f a) s₁ b s' := by
  induction p generalizing s with
  | done a =>
    constructor
    · intro h
      exact ⟨a, s, .done a s, h⟩
    · rintro ⟨_, _, hp, hf⟩
      cases hp
      exact hf
  | ask q next ih =>
    constructor
    · intro h
      obtain ⟨r, s₁, hstep, hnext⟩ := ask_iff.mp h
      obtain ⟨a, s₂, hp, hf⟩ := (ih r).mp hnext
      exact ⟨a, s₂, .ask hstep hp, hf⟩
    · rintro ⟨a, s₂, hp, hf⟩
      obtain ⟨r, s₁, hstep, hnext⟩ := ask_iff.mp hp
      exact .ask hstep ((ih r).mpr ⟨a, s₂, hnext, hf⟩)

@[simp] theorem map_iff {p : Tree Q A α} {f : α → β} {s s' : σ} {b : β} :
    Yields step (f <$> p) s b s' ↔ ∃ a, Yields step p s a s' ∧ b = f a := by
  have hbind : f <$> p = p >>= fun a => pure (f a) := rfl
  rw [hbind, bind_iff]
  constructor
  · rintro ⟨a, s₁, hp, hf⟩
    obtain ⟨rfl, rfl⟩ := pure_iff.mp hf
    exact ⟨a, hp, rfl⟩
  · rintro ⟨a, hp, rfl⟩
    exact ⟨a, s', hp, pure_iff.mpr ⟨rfl, rfl⟩⟩

@[simp] theorem query_iff {q : Q} {r : A q} {s s' : σ} :
    Yields step (.query q) s r s' ↔ step q s r s' := by
  constructor
  · intro h
    obtain ⟨r', s₁, hstep, hdone⟩ := ask_iff.mp h
    cases hdone
    exact hstep
  · intro h
    exact .ask h (.done r s')

/-- A handler whose answers are allowed makes one of the runs. -/
theorem of_run {h : Handler Q A σ} (hstep : ∀ q s, step q s (h q s).1 (h q s).2) (p : Tree Q A α)
    (s : σ) : Yields step p s (run h p s).1 (run h p s).2 := by
  induction p generalizing s with
  | done a => exact .done a s
  | ask q next ih => exact .ask (hstep q s) (ih (h q s).1 (h q s).2)

end Yields

/-! ## Pre- and postconditions -/

/-- From a state with `P` the program gets only to results and states with `R`, whatever the
surroundings choose. -/
def Sat (step : (q : Q) → σ → A q → σ → Prop) (P : σ → Prop) (p : Tree Q A α)
    (R : α → σ → Prop) : Prop :=
  ∀ s a s', P s → Yields step p s a s' → R a s'

namespace Sat

variable {step : (q : Q) → σ → A q → σ → Prop} {P P' : σ → Prop} {R R' : α → σ → Prop}
  {S : β → σ → Prop}

theorem ret {a : α} (hR : ∀ s, P s → R a s) : Sat step P (pure a) R := by
  intro s b s' hs h
  obtain ⟨rfl, rfl⟩ := Yields.pure_iff.mp h
  exact hR s' hs

theorem query {q : Q} {R : A q → σ → Prop} (h : ∀ s r s', P s → step q s r s' → R r s') :
    Sat step P (.query q) R :=
  fun s r s' hs hq => h s r s' hs (Yields.query_iff.mp hq)

theorem bind {p : Tree Q A α} {f : α → Tree Q A β} (hp : Sat step P p R)
    (hf : ∀ a, Sat step (R a) (f a) S) : Sat step P (p >>= f) S := by
  intro s b s' hs h
  obtain ⟨a, t, ha, hb⟩ := Yields.bind_iff.mp h
  exact hf a t b s' (hp s a t hs ha) hb

theorem weaken {p : Tree Q A α} (hp : Sat step P p R) (hR : ∀ a s, R a s → R' a s) :
    Sat step P p R' :=
  fun s a s' hs h => hR a s' (hp s a s' hs h)

theorem strengthen {p : Tree Q A α} (hp : Sat step P p R) (hP : ∀ s, P' s → P s) :
    Sat step P' p R :=
  fun s a s' hs h => hp s a s' (hP s hs) h

/-- A poll, with an invariant for the turns that bring nothing. -/
theorem poll {turn : Tree Q A (Option α)} {R : Option α → σ → Prop}
    (hturn : Sat step P turn fun r s => match r with | none => P s | some a => R (some a) s)
    (hnone : ∀ s, P s → R none s) (n : Nat) : Sat step P (turn.poll n) R := by
  induction n with
  | zero => exact ret hnone
  | succ n ih =>
    refine bind hturn fun r => ?_
    cases r with
    | none => exact ih
    | some a => exact ret fun s hs => hs

end Sat

/-- The run of a program whose surroundings know what they do, and may refuse to go on. -/
def tryRun (h : (q : Q) → σ → Option (A q × σ)) : Tree Q A α → σ → Option (α × σ)
  | .done a, s => some (a, s)
  | .ask q next, s => (h q s).bind fun r => tryRun h (next r.1) r.2

/-- It is one of the runs of surroundings that may do that, as far as `f` shows their state. -/
theorem Yields.of_tryRun {τ : Type} {f : τ → σ} {step : (q : Q) → σ → A q → σ → Prop}
    {h : (q : Q) → τ → Option (A q × τ)}
    (hstep : ∀ q t r t', h q t = some (r, t') → step q (f t) r (f t')) {p : Tree Q A α} {t t' : τ}
    {a : α} (hrun : tryRun h p t = some (a, t')) : Yields step p (f t) a (f t') := by
  induction p generalizing t with
  | done b =>
    obtain ⟨rfl, rfl⟩ := Prod.mk.inj (Option.some.inj hrun)
    exact .done b _
  | ask q next ih =>
    obtain ⟨⟨r, u⟩, hq, hnext⟩ := Option.bind_eq_some_iff.mp hrun
    exact .ask (hstep q t r u hq) (ih r hnext)

/-! ## What was answered -/

/-- Surroundings whose answers are written down beforehand: the state has the answers that are still
to come, and the next one is given if `step` allows it. -/
def answering (step : (q : Q) → σ → A q → σ → Prop) (q : Q) (s : σ × List ((q : Q) × A q)) (r : A q)
    (s' : σ × List ((q : Q) × A q)) : Prop :=
  step q s.1 r s'.1 ∧ s.2 = ⟨q, r⟩ :: s'.2

/-- Without the list it is a run like any other. -/
theorem Yields.of_answering {step : (q : Q) → σ → A q → σ → Prop} {p : Tree Q A α}
    {s s' : σ × List ((q : Q) × A q)} {a : α} (h : Yields (answering step) p s a s') :
    Yields step p s.1 a s'.1 := by
  induction h with
  | done a s => exact .done a s.1
  | ask hstep _ ih => exact .ask hstep.1 ih

/-- For every run there is such a list. -/
theorem Yields.exists_answers {step : (q : Q) → σ → A q → σ → Prop} {p : Tree Q A α} {s s' : σ}
    {a : α} (h : Yields step p s a s') :
    ∃ answers, Yields (answering step) p (s, answers) a (s', []) := by
  induction h with
  | done a s => exact ⟨[], .done a (s, [])⟩
  | @ask q next s s₁ s₂ r a hstep _ ih =>
    obtain ⟨answers, hnext⟩ := ih
    exact ⟨⟨q, r⟩ :: answers, .ask ⟨hstep, rfl⟩ hnext⟩

/-- The answers of a handler. -/
def answers (h : Handler Q A σ) : Tree Q A α → σ → List ((q : Q) × A q)
  | .done _, _ => []
  | .ask q next, s => ⟨q, (h q s).1⟩ :: answers h (next (h q s).1) (h q s).2

theorem Yields.of_run_answers {step : (q : Q) → σ → A q → σ → Prop} {h : Handler Q A σ}
    (hstep : ∀ q s, step q s (h q s).1 (h q s).2) (p : Tree Q A α) (s : σ) :
    Yields (answering step) p (s, answers h p s) (run h p s).1 ((run h p s).2, []) := by
  induction p generalizing s with
  | done a => exact .done a _
  | ask q next ih => exact .ask ⟨hstep q s, rfl⟩ (ih (h q s).1 (h q s).2)

/-! ## Costs -/

/-- The program costs at most `n`, if the question `q` costs `w q`. -/
def AtMost (w : Q → Nat) : Tree Q A α → Nat → Prop
  | .done _, _ => True
  | .ask q next, n => w q ≤ n ∧ ∀ r, AtMost w (next r) (n - w q)

namespace AtMost

variable {w : Q → Nat} {m n : Nat}

theorem ret (a : α) (n : Nat) : AtMost w (pure a : Tree Q A α) n := trivial

theorem query (q : Q) : AtMost w (.query q : Tree Q A (A q)) (w q) :=
  ⟨Nat.le_refl _, fun _ => trivial⟩

theorem mono {p : Tree Q A α} (h : AtMost w p m) (hmn : m ≤ n) : AtMost w p n := by
  induction p generalizing m n with
  | done a => trivial
  | ask q next ih =>
    obtain ⟨hq, hnext⟩ := h
    exact ⟨Nat.le_trans hq hmn, fun r => ih r (hnext r) (by omega)⟩

/-- The cost of a sequence is the sum of the costs. -/
theorem bind {p : Tree Q A α} {f : α → Tree Q A β} (hp : AtMost w p m)
    (hf : ∀ a, AtMost w (f a) n) : AtMost w (p >>= f) (m + n) := by
  induction p generalizing m with
  | done a => exact (hf a).mono (Nat.le_add_left n m)
  | ask q next ih =>
    obtain ⟨hq, hnext⟩ := hp
    refine ⟨by omega, fun r => ?_⟩
    exact (ih r (hnext r)).mono (by omega)

theorem poll {step : Tree Q A (Option α)} (h : AtMost w step m) (n : Nat) :
    AtMost w (step.poll n) (n * m) := by
  induction n with
  | zero => exact ret none _
  | succ n ih =>
    rw [show (n + 1) * m = m + n * m by rw [Nat.succ_mul, Nat.add_comm]]
    refine h.bind fun r => ?_
    cases r with
    | none => exact ih
    | some a => exact ret _ _

/-- A program is as expensive as its questions are when they are put by programs. -/
theorem translate {w' : Q' → Nat} {f : (q : Q) → σ → Tree Q' A' (A q × σ)}
    (hf : ∀ q s, AtMost w' (f q s) (w q)) {p : Tree Q A α} (hp : AtMost w p n) (s : σ) :
    AtMost w' (p.translate f s) n := by
  induction p generalizing n s with
  | done a => trivial
  | ask q next ih =>
    obtain ⟨hq, hnext⟩ := hp
    rw [← Nat.add_sub_of_le hq]
    exact (hf q s).bind fun r => ih r.1 (hnext r.1) r.2

end AtMost

end Interaction

/-! ## Traces -/

/-- A value, and the events on the way to it. -/
structure Traced (ε α : Type) where
  val : α
  log : List ε

namespace Traced

variable {ε α β : Type}

instance : Monad (Traced ε) where
  pure a := ⟨a, []⟩
  bind x f := ⟨(f x.val).val, x.log ++ (f x.val).log⟩

/-- One event. -/
def touch (e : ε) : Traced ε Unit := ⟨(), [e]⟩

@[simp] theorem val_pure (a : α) : (pure a : Traced ε α).val = a := rfl

@[simp] theorem val_bind (x : Traced ε α) (f : α → Traced ε β) :
    (x >>= f).val = (f x.val).val := rfl

/-- Every event satisfies `P`. -/
def All (P : ε → Prop) (x : Traced ε α) : Prop := ∀ e ∈ x.log, P e

variable {P : ε → Prop}

@[simp] theorem all_pure (a : α) : All P (pure a : Traced ε α) := by
  intro e he
  cases he

@[simp] theorem all_touch (e : ε) : All P (touch e) ↔ P e := List.forall_mem_singleton

@[simp] theorem all_bind (x : Traced ε α) (f : α → Traced ε β) :
    All P (x >>= f) ↔ All P x ∧ All P (f x.val) := List.forall_mem_append

end Traced
