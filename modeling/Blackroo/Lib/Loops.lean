import Blackroo.Lib.Interaction

/-!
# Programs with a loop

Trees of questions are finite, so a program that is one terminates.  A program with an
unbounded loop is a tree with one more question, which stands for the loop: `turn` is one
turn of it and returns whether there is another.  `Ends` is the big-step meaning of such a
program, with the number of turns made in all.

Whether a program comes to an end (`Halts`) can be said piece by piece: only the loops matter.  What
it costs then is bounded by what it costs outside the loops and the number of turns (`Ends.cost`).
`Comes` is the meaning where the surroundings choose what they answer, with `Meets` for what holds
behind every run.
-/

namespace Interaction

variable {Q : Type} {A : Q → Type} {α β σ : Type}

/-- The answers to the questions of a program with a loop. -/
abbrev LoopAnswer (A : Q → Type) : Option Q → Type
  | none => Unit
  | some q => A q

/-- Programs with a loop. -/
abbrev Looping (Q : Type) (A : Q → Type) (α : Type) : Type := Tree (Option Q) (LoopAnswer A) α

/-- A program without a loop. -/
def lift : Tree Q A α → Looping Q A α
  | .done a => .done a
  | .ask q next => .ask (some q) fun r => lift (next r)

/-- The loop. -/
def loop : Looping Q A Unit := .query none

/-- A turn of the loop is paid for separately. -/
def loopCost (w : Q → Nat) : Option Q → Nat
  | none => 0
  | some q => w q

theorem AtMost.lift {w : Q → Nat} {p : Tree Q A α} {n : Nat} (h : AtMost w p n) :
    AtMost (loopCost w) (lift p) n := by
  induction p generalizing n with
  | done a => trivial
  | ask q next ih => exact ⟨h.1, fun r => ih r (h.2 r)⟩

theorem AtMost.loop {w : Q → Nat} : AtMost (loopCost w) (loop : Looping Q A Unit) 0 :=
  AtMost.query none

section Meaning

variable (h : Handler Q A σ) (turn : Tree Q A Bool)

/-- The loop ends, in this number of turns. -/
inductive LoopEnds : σ → Nat → σ → Prop
  | stop {s : σ} (hs : (run h turn s).1 = false) : LoopEnds s 1 (run h turn s).2
  | again {s s' : σ} {k : Nat} (hs : (run h turn s).1 = true)
      (hr : LoopEnds (run h turn s).2 k s') : LoopEnds s (k + 1) s'

/-- The program returns `a`, after `k` turns of the loop in all. -/
inductive Ends : Looping Q A α → σ → Nat → α → σ → Prop
  | done (a : α) (s : σ) : Ends (.done a) s 0 a s
  | ask {q : Q} {next : A q → Looping Q A α} {s s' : σ} {k : Nat} {a : α}
      (hn : Ends (next (h q s).1) (h q s).2 k a s') : Ends (.ask (some q) next) s k a s'
  | loop {next : Unit → Looping Q A α} {s t s' : σ} {j k : Nat} {a : α}
      (hl : LoopEnds h turn s j t) (hn : Ends (next ()) t k a s') :
      Ends (.ask none next) s (j + k) a s'

/-- The program comes to an end. -/
def Halts (p : Looping Q A α) (s : σ) : Prop := ∃ k a s', Ends h turn p s k a s'

variable {h turn}

theorem LoopEnds.unique {s s' s'' : σ} {k k' : Nat} (hl : LoopEnds h turn s k s')
    (hl' : LoopEnds h turn s k' s'') : s' = s'' := by
  induction hl generalizing k' s'' with
  | stop hs =>
    cases hl' with
    | stop => rfl
    | again hs' =>
      rw [hs] at hs'
      cases hs'
  | again hs _ ih =>
    cases hl' with
    | stop hs' =>
      rw [hs] at hs'
      cases hs'
    | again _ hr => exact ih hr

theorem Ends.unique {p : Looping Q A α} {s s' s'' : σ} {k k' : Nat} {a a' : α}
    (he : Ends h turn p s k a s') (he' : Ends h turn p s k' a' s'') : a = a' ∧ s' = s'' := by
  induction he generalizing k' with
  | done =>
    cases he' with
    | done => exact ⟨rfl, rfl⟩
  | ask _ ih =>
    cases he' with
    | ask hn' => exact ih hn'
  | loop hl _ ih =>
    cases he' with
    | loop hl' hn' =>
      obtain rfl := hl.unique hl'
      exact ih hn'

/-- A sequence of two programs ends as the second one does behind the first. -/
theorem halts_bind {p : Looping Q A α} {f : α → Looping Q A β} {s : σ} :
    Halts h turn (p >>= f) s ↔ ∃ k a s', Ends h turn p s k a s' ∧ Halts h turn (f a) s' := by
  induction p generalizing s with
  | done a =>
    constructor
    · exact fun hf => ⟨0, a, s, .done a s, hf⟩
    · rintro ⟨k, _, _, hp, hf⟩
      cases hp with
      | done => exact hf
  | ask q next ih =>
    cases q with
    | some q =>
      constructor
      · rintro ⟨k, b, s', he⟩
        have he' : Ends h turn (.ask (some q) fun r => next r >>= f) s k b s' := he
        cases he' with
        | ask hn =>
          obtain ⟨j, a, t, hp, hf⟩ := (ih _).mp ⟨k, b, s', hn⟩
          exact ⟨j, a, t, .ask hp, hf⟩
      · rintro ⟨k, a, t, hp, hf⟩
        cases hp with
        | ask hn =>
          obtain ⟨j, b, s', he⟩ := (ih _).mpr ⟨k, a, t, hn, hf⟩
          exact ⟨j, b, s', Ends.ask he⟩
    | none =>
      constructor
      · rintro ⟨k, b, s', he⟩
        have he' : Ends h turn (.ask none fun r => next r >>= f) s k b s' := he
        cases he' with
        | loop hl hn =>
          obtain ⟨j, a, t, hp, hf⟩ := (ih ()).mp ⟨_, b, s', hn⟩
          exact ⟨_, a, t, .loop hl hp, hf⟩
      · rintro ⟨k, a, t, hp, hf⟩
        cases hp with
        | loop hl hn =>
          obtain ⟨j, b, s', he⟩ := (ih ()).mpr ⟨_, a, t, hn, hf⟩
          exact ⟨_, b, s', Ends.loop hl he⟩

theorem ends_lift (p : Tree Q A α) (s : σ) :
    Ends h turn (lift p) s 0 (run h p s).1 (run h p s).2 := by
  induction p generalizing s with
  | done a => exact .done a s
  | ask q next ih => exact .ask (ih _ _)

theorem halts_lift (p : Tree Q A α) (s : σ) : Halts h turn (lift p) s := ⟨0, _, _, ends_lift p s⟩

theorem halts_lift_bind {p : Tree Q A α} {f : α → Looping Q A β} {s : σ} :
    Halts h turn (lift p >>= f) s ↔ Halts h turn (f (run h p s).1) (run h p s).2 := by
  rw [halts_bind]
  constructor
  · rintro ⟨k, a, s', hp, hf⟩
    obtain ⟨rfl, rfl⟩ := (ends_lift p s).unique hp
    exact hf
  · exact fun hf => ⟨0, _, _, ends_lift p s, hf⟩

/-- What comes behind and has no loop does not matter. -/
theorem halts_bind_lift {p : Looping Q A α} {g : α → Tree Q A β} {s : σ} :
    Halts h turn (p >>= fun a => lift (g a)) s ↔ Halts h turn p s := by
  rw [halts_bind]
  constructor
  · rintro ⟨k, a, s', hp, -⟩
    exact ⟨k, a, s', hp⟩
  · rintro ⟨k, a, s', hp⟩
    exact ⟨k, a, s', hp, halts_lift _ _⟩

theorem halts_loop_bind {f : Unit → Looping Q A β} {s : σ} :
    Halts h turn (loop >>= f) s ↔ ∃ k t, LoopEnds h turn s k t ∧ Halts h turn (f ()) t := by
  constructor
  · rintro ⟨k, b, s', he⟩
    have he' : Ends h turn (.ask none fun _ => f ()) s k b s' := he
    cases he' with
    | loop hl hn => exact ⟨_, _, hl, _, b, s', hn⟩
  · rintro ⟨k, t, hl, _, b, s', hn⟩
    exact ⟨_, b, s', Ends.loop hl hn⟩

/-! ## Costs -/

variable {w : Q → Nat} {c : σ → Nat}

theorem run_cost (hc : ∀ q s, c (h q s).2 ≤ c s + w q) {p : Tree Q A α} {n : Nat}
    (hp : AtMost w p n) (s : σ) : c (run h p s).2 ≤ c s + n := by
  induction p generalizing n s with
  | done a => exact Nat.le_add_right _ _
  | ask q next ih =>
    have h₁ := hp.1
    have h₂ := ih (h q s).1 (hp.2 _) (h q s).2
    have h₃ := hc q s
    rw [run]
    omega

theorem LoopEnds.cost (hc : ∀ q s, c (h q s).2 ≤ c s + w q) {t : Nat} (ht : AtMost w turn t)
    {s s' : σ} {k : Nat} (hl : LoopEnds h turn s k s') : c s' ≤ c s + t * k := by
  induction hl with
  | stop =>
    rw [Nat.mul_one]
    exact run_cost hc ht _
  | @again s s' k _ _ ih =>
    have h₁ := run_cost hc ht s
    rw [Nat.mul_succ]
    omega

/-- **The cost of a run**: what the program costs outside the loop, and the turns. -/
theorem Ends.cost (hc : ∀ q s, c (h q s).2 ≤ c s + w q) {t : Nat} (ht : AtMost w turn t)
    {p : Looping Q A α} {n : Nat} (hp : AtMost (loopCost w) p n) {s s' : σ} {k : Nat} {a : α}
    (he : Ends h turn p s k a s') : c s' ≤ c s + n + t * k := by
  induction he generalizing n with
  | done => exact Nat.le_add_right_of_le (Nat.le_add_right _ _)
  | @ask q next s s' k a _ ih =>
    obtain ⟨hq, hnext⟩ := hp
    have h₁ := ih (hnext _)
    have h₂ := hc q s
    rw [loopCost] at hq h₁
    omega
  | loop hl _ ih =>
    obtain ⟨hq, hnext⟩ := hp
    have h₁ := ih (hnext _)
    have h₂ := hl.cost hc ht
    rw [loopCost] at h₁
    rw [Nat.mul_add]
    omega

end Meaning

/-! ## Surroundings that choose -/

section Choice

variable (step : (q : Q) → σ → A q → σ → Prop) (turn : Tree Q A Bool)

/-- What the loop can come to. -/
inductive Turns : σ → σ → Prop
  | stop {s s' : σ} (h : Yields step turn s false s') : Turns s s'
  | again {s t s' : σ} (h : Yields step turn s true t) (hr : Turns t s') : Turns s s'

/-- What a program with the loop can come to. -/
inductive Comes : Looping Q A α → σ → α → σ → Prop
  | done (a : α) (s : σ) : Comes (.done a) s a s
  | ask {q : Q} {next : A q → Looping Q A α} {s t s' : σ} {r : A q} {a : α} (h : step q s r t)
      (hn : Comes (next r) t a s') : Comes (.ask (some q) next) s a s'
  | loop {next : Unit → Looping Q A α} {s t s' : σ} {a : α} (hl : Turns step turn s t)
      (hn : Comes (next ()) t a s') : Comes (.ask none next) s a s'

variable {step turn}

theorem Comes.of_bind {p : Looping Q A α} {f : α → Looping Q A β} {s s' : σ} {b : β}
    (h : Comes step turn (p >>= f) s b s') :
    ∃ a t, Comes step turn p s a t ∧ Comes step turn (f a) t b s' := by
  induction p generalizing s with
  | done a => exact ⟨a, s, .done a s, h⟩
  | ask q next ih =>
    cases q with
    | some q =>
      have h' : Comes step turn (.ask (some q) fun r => next r >>= f) s b s' := h
      cases h' with
      | ask hq hn =>
        obtain ⟨a, t, ha, hb⟩ := ih _ hn
        exact ⟨a, t, .ask hq ha, hb⟩
    | none =>
      have h' : Comes step turn (.ask none fun r => next r >>= f) s b s' := h
      cases h' with
      | loop hl hn =>
        obtain ⟨a, t, ha, hb⟩ := ih () hn
        exact ⟨a, t, .loop hl ha, hb⟩

theorem Comes.of_lift {p : Tree Q A α} {s s' : σ} {a : α} (h : Comes step turn (lift p) s a s') :
    Yields step p s a s' := by
  induction p generalizing s with
  | done b =>
    cases h with
    | done => exact .done _ _
  | ask q next ih =>
    cases h with
    | ask hq hn => exact .ask hq (ih _ hn)

variable (step turn) in
/-- `Sat` for programs with the loop. -/
def Meets (P : σ → Prop) (p : Looping Q A α) (R : α → σ → Prop) : Prop :=
  ∀ s a s', P s → Comes step turn p s a s' → R a s'

namespace Meets

variable {P : σ → Prop} {R : α → σ → Prop} {S : β → σ → Prop}

theorem lift {p : Tree Q A α} (hp : Sat step P p R) : Meets step turn P (lift p) R :=
  fun s a s' hs h => hp s a s' hs h.of_lift

theorem bind {p : Looping Q A α} {f : α → Looping Q A β} (hp : Meets step turn P p R)
    (hf : ∀ a, Meets step turn (R a) (f a) S) : Meets step turn P (p >>= f) S := by
  intro s b s' hs h
  obtain ⟨a, t, ha, hb⟩ := h.of_bind
  exact hf a t b s' (hp s a t hs ha) hb

/-- The loop keeps what a turn keeps. -/
theorem loop (hturn : Sat step P turn fun _ => P) : Meets step turn P loop fun _ => P := by
  intro s a s' hs h
  have hloop : ∀ {s t : σ}, Turns step turn s t → P s → P t := by
    intro s t hl
    induction hl with
    | stop h => exact fun hs => hturn _ _ _ hs h
    | again h _ ih => exact fun hs => ih (hturn _ _ _ hs h)
  have h' : Comes step turn (.ask none fun _ => .done ()) s a s' := h
  cases h' with
  | loop hl hn =>
    cases hn with
    | done => exact hloop hl hs

end Meets

/-- The loop, with at most `n` turns. -/
def tryTurns (h : (q : Q) → σ → Option (A q × σ)) (turn : Tree Q A Bool) : Nat → σ → Option σ
  | 0, _ => none
  | n + 1, s => (tryRun h turn s).bind fun r => if r.1 then tryTurns h turn n r.2 else some r.2

/-- The run of a program with at most `n` turns in each of its loops. -/
def tryComes (h : (q : Q) → σ → Option (A q × σ)) (turn : Tree Q A Bool) (n : Nat) :
    Looping Q A α → σ → Option (α × σ)
  | .done a, s => some (a, s)
  | .ask (some q) next, s => (h q s).bind fun r => tryComes h turn n (next r.1) r.2
  | .ask none next, s => (tryTurns h turn n s).bind fun t => tryComes h turn n (next ()) t

section Try

variable {τ : Type} {f : τ → σ} {h : (q : Q) → τ → Option (A q × τ)}
  (hstep : ∀ q t r t', h q t = some (r, t') → step q (f t) r (f t'))

include hstep

theorem Turns.of_tryTurns {n : Nat} {t t' : τ} (hrun : tryTurns h turn n t = some t') :
    Turns step turn (f t) (f t') := by
  induction n generalizing t with
  | zero => cases hrun
  | succ n ih =>
    obtain ⟨⟨again, u⟩, hturn, hrest⟩ := Option.bind_eq_some_iff.mp hrun
    have hyields := Yields.of_tryRun hstep hturn
    cases again with
    | false =>
      obtain rfl := Option.some.inj hrest
      exact .stop hyields
    | true => exact .again hyields (ih hrest)

theorem Comes.of_tryComes {n : Nat} {p : Looping Q A α} {t t' : τ} {a : α}
    (hrun : tryComes h turn n p t = some (a, t')) : Comes step turn p (f t) a (f t') := by
  induction p generalizing t with
  | done b =>
    obtain ⟨rfl, rfl⟩ := Prod.mk.inj (Option.some.inj hrun)
    exact .done b _
  | ask q next ih =>
    cases q with
    | some q =>
      obtain ⟨⟨r, u⟩, hq, hnext⟩ := Option.bind_eq_some_iff.mp hrun
      exact .ask (hstep q t r u hq) (ih r hnext)
    | none =>
      obtain ⟨u, hl, hnext⟩ := Option.bind_eq_some_iff.mp hrun
      exact .loop (Turns.of_tryTurns hstep hl) (ih () hnext)

end Try

end Choice

end Interaction
