import Mathlib.Order.OrderIsoNat
import Mathlib.Order.WellFounded

/-!
# Runs of a system that can crash

A system is a step function `step : σ → ε → Option σ`, where `ε` is what can happen to
it and `none` is a crash.  A finite run is a list of events (`run`), an infinite one a
sequence of states and events (`Behavior`).

`run_inv` is the rule for safety: what every step keeps, without crashing, every run
keeps without crashing.  `run_inv_of_along` is the same for what is only kept by steps that meet a
condition, and `Along.of_inv` is the rule for what is true of each step of a run.
Where steps do fail, and it is known under which condition, the steps are in `Except` and
`judged_run` is the rule; `inv_of_foldlM` is the one for what the steps keep if they do not
fail, and `ClearRun.of_inv` the one to find such a condition met.  `eventually_of_rank` is the rule
for liveness: give the states a rank in a well-founded order that no step increases, and show that
the rank cannot stay the same for ever.
-/

namespace Blackroo
namespace Runs

variable {σ ε : Type*}

/-- The state after these events, unless the system crashes. -/
def run (step : σ → ε → Option σ) : σ → List ε → Option σ
  | s, [] => some s
  | s, e :: events => (step s e).bind fun s' => run step s' events

/-- **The rule for invariants.** -/
theorem run_inv {step : σ → ε → Option σ} {I : σ → Prop}
    (hstep : ∀ s e, I s → ∃ s', step s e = some s' ∧ I s') {s : σ} (hs : I s) (events : List ε) :
    ∃ s', run step s events = some s' ∧ I s' := by
  induction events generalizing s with
  | nil => exact ⟨s, rfl, hs⟩
  | cons e events ih =>
    obtain ⟨t, ht, hinv⟩ := hstep s e hs
    obtain ⟨s', hs', hinv'⟩ := ih hinv
    refine ⟨s', ?_, hinv'⟩
    show (step s e).bind _ = _
    rw [ht]
    exact hs'

/-- The condition is met at every step of a run. -/
def Along (step : σ → ε → Option σ) (P : σ → ε → Prop) : σ → List ε → Prop
  | _, [] => True
  | s, e :: events => P s e ∧ ∀ s', step s e = some s' → Along step P s' events

/-- The rule for invariants, where the steps keep them under a condition. -/
theorem run_inv_of_along {step : σ → ε → Option σ} {I : σ → Prop} {P : σ → ε → Prop}
    (hstep : ∀ s e, I s → P s e → ∃ s', step s e = some s' ∧ I s') {s : σ} (hs : I s)
    {events : List ε} (h : Along step P s events) : ∃ s', run step s events = some s' ∧ I s' := by
  induction events generalizing s with
  | nil => exact ⟨s, rfl, hs⟩
  | cons e events ih =>
    obtain ⟨t, ht, hinv⟩ := hstep s e hs h.1
    obtain ⟨s', hs', hinv'⟩ := ih hinv (h.2 t ht)
    refine ⟨s', ?_, hinv'⟩
    show (step s e).bind _ = _
    rw [ht]
    exact hs'

/-- **The rule for conditions.**  With an invariant that the steps keep as long as one condition is
met, that condition gives another one along every run. -/
theorem Along.of_inv {step : σ → ε → Option σ} {I : σ → Prop} {P Q : σ → ε → Prop}
    (hstep : ∀ s e s', I s → Q s e → step s e = some s' → I s') (hPQ : ∀ s e, I s → Q s e → P s e)
    {s : σ} (hs : I s) {events : List ε} (h : Along step Q s events) :
    Along step P s events := by
  induction events generalizing s with
  | nil => trivial
  | cons e events ih =>
    exact ⟨hPQ s e hs h.1, fun s' hs' => ih (hstep s e s' hs h.1 hs') (h.2 s' hs')⟩

section Faults

variable {φ : Type*} {I : σ → Prop} {F : φ → Prop}

/-- Exactly under the condition `clear` there is a result, in a good state; else there is one of
the expected faults. -/
inductive Judged (I : σ → Prop) (F : φ → Prop) (clear : Prop) : Except φ σ → Prop
  | ok {s : σ} (hclear : clear) (hs : I s) : Judged I F clear (.ok s)
  | error {f : φ} (hclear : ¬ clear) (hf : F f) : Judged I F clear (.error f)

theorem Judged.congr {p q : Prop} (hpq : p ↔ q) {x : Except φ σ} (h : Judged I F p x) :
    Judged I F q x := by
  rwa [← hpq]

theorem Judged.mono {J : σ → Prop} {p : Prop} {x : Except φ σ} (h : Judged I F p x)
    (hJ : ∀ s, I s → J s) : Judged J F p x := by
  cases h with
  | ok hp hs => exact .ok hp (hJ _ hs)
  | error hp hf => exact .error hp hf

theorem Judged.of_exists {p : Prop} {x : Except φ σ} (hp : p) (h : ∃ s, x = .ok s ∧ I s) :
    Judged I F p x := by
  obtain ⟨s, rfl, hs⟩ := h
  exact .ok hp hs

theorem Judged.exists_ok_iff {p : Prop} {x : Except φ σ} (h : Judged I F p x) :
    (∃ s, x = .ok s) ↔ p := by
  cases h with
  | ok hp _ => exact ⟨fun _ => hp, fun _ => ⟨_, rfl⟩⟩
  | error hp _ => exact ⟨fun ⟨_, hs⟩ => (nomatch hs), fun hclear => absurd hclear hp⟩

/-- Every event is clear in the state it meets. -/
def ClearRun (step : σ → ε → Except φ σ) (clear : σ → ε → Prop) : σ → List ε → Prop
  | _, [] => True
  | s, e :: events => clear s e ∧ ∀ s', step s e = .ok s' → ClearRun step clear s' events

/-- **The rule for faults.**  What is true of every step is true of every run. -/
theorem judged_run {step : σ → ε → Except φ σ} {clear : σ → ε → Prop}
    (hstep : ∀ s e, I s → Judged I F (clear s e) (step s e)) {s : σ} (hs : I s) (events : List ε) :
    Judged I F (ClearRun step clear s events) (events.foldlM step s) := by
  induction events generalizing s with
  | nil => exact .ok trivial hs
  | cons e events ih =>
    rw [List.foldlM_cons]
    have hfirst := hstep s e hs
    cases hx : step s e with
    | ok s' =>
      rw [hx] at hfirst
      cases hfirst with
      | ok hclear hs' =>
        refine (ih hs').congr ⟨fun h => ⟨hclear, fun t ht => ?_⟩, fun h => h.2 s' hx⟩
        obtain rfl := Except.ok.inj (hx.symm.trans ht)
        exact h
    | error f =>
      rw [hx] at hfirst
      cases hfirst with
      | error hclear hf => exact .error (fun h => hclear h.1) hf

/-- The rule for invariants, for runs that can fail. -/
theorem inv_of_foldlM {step : σ → ε → Except φ σ} {events : List ε}
    (hstep : ∀ e ∈ events, ∀ s s', I s → step s e = .ok s' → I s') {s s' : σ} (hs : I s)
    (h : events.foldlM step s = .ok s') : I s' := by
  induction events generalizing s with
  | nil => exact Except.ok.inj h ▸ hs
  | cons e events ih =>
    rw [List.foldlM_cons] at h
    cases ht : step s e with
    | error f =>
      rw [ht] at h
      cases h
    | ok t =>
      rw [ht] at h
      exact ih (fun e' he' => hstep e' (List.mem_cons_of_mem e he'))
        (hstep e List.mem_cons_self s t hs ht) h

/-- The rule for conditions, for runs that can fail. -/
theorem ClearRun.of_inv {step : σ → ε → Except φ σ} {P Q : σ → ε → Prop}
    (hstep : ∀ s e s', I s → Q s e → step s e = .ok s' → I s') (hPQ : ∀ s e, I s → Q s e → P s e)
    {s : σ} (hs : I s) {events : List ε} (h : ClearRun step Q s events) :
    ClearRun step P s events := by
  induction events generalizing s with
  | nil => trivial
  | cons e events ih =>
    exact ⟨hPQ s e hs h.1, fun s' hs' => ih (hstep s e s' hs h.1 hs') (h.2 s' hs')⟩

end Faults

/-- An infinite run. -/
structure Behavior (step : σ → ε → Option σ) (init : σ) where
  state : Nat → σ
  event : Nat → ε
  start : state 0 = init
  next : ∀ i, step (state i) (event i) = some (state (i + 1))

variable {step : σ → ε → Option σ} {init : σ}

theorem Behavior.inv (b : Behavior step init) {I : σ → Prop}
    (hstep : ∀ s e, I s → ∃ s', step s e = some s' ∧ I s') (hinit : I init) (i : Nat) :
    I (b.state i) := by
  induction i with
  | zero =>
    rw [b.start]
    exact hinit
  | succ i ih =>
    obtain ⟨s', hs', hinv⟩ := hstep _ (b.event i) ih
    obtain rfl := Option.some.inj ((b.next i).symm.trans hs')
    exact hinv

/-- The states a sequence of events leads through. -/
def follow (step : σ → ε → Option σ) (events : Nat → ε) (init : σ) : Nat → σ
  | 0 => init
  | i + 1 => (step (follow step events init i) (events i)).getD (follow step events init i)

/-- A system that never crashes can be run for ever, with any events. -/
def Behavior.ofEvents {I : σ → Prop} (hstep : ∀ s e, I s → ∃ s', step s e = some s' ∧ I s')
    (hinit : I init) (events : Nat → ε) : Behavior step init where
  state := follow step events init
  event := events
  start := rfl
  next := by
    have hinv (i : Nat) : I (follow step events init i) := by
      induction i with
      | zero => exact hinit
      | succ i ih =>
        obtain ⟨s', hs', hinv⟩ := hstep _ (events i) ih
        rw [follow, hs']
        exact hinv
    intro i
    obtain ⟨s', hs', -⟩ := hstep _ (events i) (hinv i)
    rw [follow, hs']
    rfl

/-- **The rule for liveness.**  A rank that no step increases and that never stays the same
for ever leads to the goal. -/
theorem eventually_of_rank {α : Type*} [PartialOrder α] [WellFoundedLT α] (rank : Nat → α)
    {goal : Nat → Prop} {n : Nat} (hle : ∀ i ≥ n, goal i ∨ goal (i + 1) ∨ rank (i + 1) ≤ rank i)
    (hstall : ∀ i ≥ n, (∀ j ≥ i, ¬ goal j ∧ rank j = rank i) → False) :
    ∃ i ≥ n, goal i := by
  by_contra hnone
  push Not at hnone
  have hanti : Antitone fun k => rank (n + k) := by
    refine antitone_nat_of_succ_le fun k => ?_
    have hk : n + k ≥ n := Nat.le_add_right n k
    rcases hle (n + k) hk with h | h | h
    · exact absurd h (hnone _ hk)
    · exact absurd h (hnone _ (by omega))
    · exact h
  obtain ⟨_, ⟨m, rfl⟩, hmin⟩ := wellFounded_lt.has_min (Set.range fun k => rank (n + k))
    ⟨_, 0, rfl⟩
  refine hstall (n + m) (Nat.le_add_right n m) fun j hj => ⟨hnone j (by omega), ?_⟩
  obtain ⟨k, rfl⟩ := Nat.exists_eq_add_of_le (show n ≤ j by omega)
  exact (hanti (show m ≤ k by omega)).eq_of_not_lt (hmin _ ⟨k, rfl⟩)

end Runs
end Blackroo
