import Mathlib.Data.List.Basic

/-!
# Programs that talk over a line

A program that talks over a serial line sends items and asks for items; what it does in
between is its own business.  `Proc` is the tree of such a program.  A read asks for some
number of items and gets a list, which may be shorter; the empty list is a read that
timed out.  Reads carry a mark, so that a description of the line can treat one kind of
read differently from another.

Two uses of a program are described here.  `feed` runs it on a recorded input, and `Ensures` is what
holds of its reads and its result whatever the input is.  `Step` connects two programs by a pair of
lossless ordered channels, and `Completes` says that every run of the pair, in any interleaving and
with any division of the stream into reads that the line allows, ends with both programs done.
`Ends` says that every run comes to a stop where something holds, be it that a program still waits
there for items that nobody sends.

Interleavings are dealt with once and for all.  What a program is ready to send may be
taken as sent (`Ends.send_left`, `Ends.send_right`), and a read whose result
nothing can change any more may be taken as made (`Ends.read_left`,
`Ends.read_right`), so a protocol is proved by following one convenient order.  A read
that the line may cut short is looked at while the other side waits
(`Ends.pieces_left`).
-/

namespace Process

/-- A program with items `β` on the line, marks `τ` on its reads, and result `α`. -/
inductive Proc (τ β α : Type) where
  | done (a : α)
  | send (b : β) (next : Proc τ β α)
  | recv (tag : τ) (n : Nat) (next : List β → Proc τ β α)

variable {τ σ β α γ δ : Type}

/-- One program after another. -/
def Proc.bind : Proc τ β α → (α → Proc τ β γ) → Proc τ β γ
  | .done a, f => f a
  | .send b next, f => .send b (next.bind f)
  | .recv tag n next, f => .recv tag n fun bs => (next bs).bind f

instance : Monad (Proc τ β) where
  pure := .done
  bind := .bind

theorem Proc.bind_assoc (p : Proc τ β α) (f : α → Proc τ β γ) (g : γ → Proc τ β δ) :
    p >>= f >>= g = p >>= fun a => f a >>= g := by
  induction p with
  | done a => rfl
  | send b next ih => exact congrArg (Proc.send b) ih
  | recv tag n next ih => exact congrArg (Proc.recv tag n) (funext ih)

theorem Proc.bind_done (p : Proc τ β α) : (p >>= .done) = p := by
  induction p with
  | done a => rfl
  | send b next ih => exact congrArg (Proc.send b) ih
  | recv tag n next ih => exact congrArg (Proc.recv tag n) (funext ih)

/-- Sending several items. -/
def sendAll : List β → Proc τ β Unit
  | [] => .done ()
  | b :: bs => .send b (sendAll bs)

theorem sendAll_append (bs cs : List β) :
    (sendAll (bs ++ cs) : Proc τ β Unit) = sendAll bs >>= fun _ => sendAll cs := by
  induction bs with
  | nil => rfl
  | cons b bs ih => exact congrArg (Proc.send b) ih

/-- The program on a line that puts `v` in place of item `i` of what it sends. -/
def Proc.alter (v : β) : Nat → Proc τ β α → Proc τ β α
  | _, .done a => .done a
  | 0, .send _ next => .send v next
  | i + 1, .send b next => .send b (next.alter v i)
  | i, .recv tag n next => .recv tag n fun bs => (next bs).alter v i

@[simp] theorem alter_done (v : β) (i : Nat) (a : α) :
    (.done a : Proc τ β α).alter v i = .done a := by
  cases i <;> rfl

theorem alter_recv (v : β) (i : Nat) (tag : τ) (n : Nat) (next : List β → Proc τ β α) :
    (Proc.recv tag n next).alter v i = .recv tag n fun bs => (next bs).alter v i := by
  cases i <;> rfl

theorem alter_sendAll_of_lt (v : β) {i : Nat} {bs : List β} (f : Unit → Proc τ β α)
    (hi : i < bs.length) : (sendAll bs >>= f).alter v i = sendAll (bs.set i v) >>= f := by
  induction bs generalizing i with
  | nil => exact absurd hi (Nat.not_lt_zero i)
  | cons b bs ih =>
    cases i with
    | zero => rfl
    | succ i => exact congrArg (Proc.send b) (ih (Nat.lt_of_succ_lt_succ hi))

theorem alter_sendAll_of_le (v : β) {i : Nat} {bs : List β} (f : Unit → Proc τ β α)
    (hi : bs.length ≤ i) :
    (sendAll bs >>= f).alter v i = sendAll bs >>= fun u => (f u).alter v (i - bs.length) := by
  induction bs generalizing i with
  | nil => rfl
  | cons b bs ih =>
    cases i with
    | zero => exact absurd hi (Nat.not_succ_le_zero _)
    | succ i =>
      rw [List.length_cons, Nat.add_sub_add_right]
      exact congrArg (Proc.send b) (ih (Nat.le_of_succ_le_succ hi))

/-! ## One program -/

/-- The program runs on a record of what its reads returned.  `none` means that it has not
finished at the end of the record. -/
def Proc.feed : Proc τ β α → List (List β) → Option (α × List (List β))
  | .done a, input => some (a, input)
  | .send _ next, input => next.feed input
  | .recv _ _ _, [] => none
  | .recv _ _ next, bs :: input => (next bs).feed input

/-- Whatever its reads return, `Q` holds of what they returned and of the result of the program. -/
def Proc.Ensures (Q : List (List β) → α → Prop) : Proc τ β α → Prop
  | .done a => Q [] a
  | .send _ next => next.Ensures Q
  | .recv _ _ next => ∀ bs, (next bs).Ensures fun reads => Q (bs :: reads)

theorem Proc.Ensures.mono {p : Proc τ β α} {Q Q' : List (List β) → α → Prop} (h : p.Ensures Q)
    (hQ : ∀ reads a, Q reads a → Q' reads a) : p.Ensures Q' := by
  induction p generalizing Q Q' with
  | done a => exact hQ [] a h
  | send b next ih => exact ih h hQ
  | recv tag n next ih => exact fun bs => ih bs (h bs) fun reads a hq => hQ (bs :: reads) a hq

theorem Proc.Ensures.bind {p : Proc τ β α} {f : α → Proc τ β γ} {Q : List (List β) → α → Prop}
    {Q' : List (List β) → γ → Prop} (h : p.Ensures Q)
    (hf : ∀ reads a, Q reads a → (f a).Ensures fun reads' => Q' (reads ++ reads')) :
    (p >>= f).Ensures Q' := by
  induction p generalizing Q Q' with
  | done a => exact hf [] a h
  | send b next ih => exact ih h hf
  | recv tag n next ih => exact fun bs => ih bs (h bs) fun reads a hq => hf (bs :: reads) a hq

theorem Proc.ensures_true (p : Proc τ β α) : p.Ensures fun _ _ => True := by
  induction p with
  | done a => trivial
  | send b next ih => exact ih
  | recv tag n next ih => exact fun bs => ih bs

/-- A first part whose result does not matter. -/
theorem Proc.Ensures.seq {p : Proc τ β α} {f : α → Proc τ β γ} {Q : List (List β) → γ → Prop}
    (hf : ∀ reads a, (f a).Ensures fun reads' => Q (reads ++ reads')) : (p >>= f).Ensures Q :=
  p.ensures_true.bind fun reads a _ => hf reads a

theorem Proc.ensures_sendAll (bs : List β) :
    (sendAll bs : Proc τ β Unit).Ensures fun reads _ => reads = [] := by
  induction bs with
  | nil => rfl
  | cons b bs ih => exact ih

/-- What is sent does not matter. -/
theorem Proc.Ensures.sendAll {bs : List β} {f : Unit → Proc τ β α} {Q : List (List β) → α → Prop}
    (h : (f ()).Ensures Q) : (Process.sendAll bs >>= f).Ensures Q := by
  refine (ensures_sendAll bs).bind fun reads _ hreads => ?_
  rw [hreads]
  exact h

theorem Proc.Ensures.cond {c : Prop} [Decidable c] {p q : Proc τ β α}
    {Q : List (List β) → α → Prop} (hp : c → p.Ensures Q) (hq : ¬ c → q.Ensures Q) :
    (if c then p else q).Ensures Q := by
  split
  · next h => exact hp h
  · next h => exact hq h

/-- A run on a record has read the front of it. -/
theorem Proc.Ensures.of_feed {p : Proc τ β α} {Q : List (List β) → α → Prop} (h : p.Ensures Q)
    {input rest : List (List β)} {a : α} (hfeed : p.feed input = some (a, rest)) :
    ∃ reads, input = reads ++ rest ∧ Q reads a := by
  induction p generalizing input Q with
  | done a' =>
    obtain ⟨rfl, rfl⟩ := Prod.mk.inj (Option.some.inj hfeed)
    exact ⟨[], rfl, h⟩
  | send b next ih => exact ih h hfeed
  | recv tag n next ih =>
    cases input with
    | nil => exact absurd hfeed (by simp [Proc.feed])
    | cons bs input =>
      obtain ⟨reads, rfl, hq⟩ := ih bs (h bs) hfeed
      exact ⟨bs :: reads, rfl, hq⟩

/-- The result of the program if nothing comes any more: every read times out. -/
def Proc.idle : Proc τ β α → α
  | .done a => a
  | .send _ next => next.idle
  | .recv _ _ next => (next []).idle

theorem Proc.idle_bind (p : Proc τ β α) (f : α → Proc τ β γ) :
    (p >>= f).idle = (f p.idle).idle := by
  induction p with
  | done a => rfl
  | send b next ih => exact ih
  | recv tag n next ih => exact ih []

/-! ## Two programs on a line -/

/-- Two programs, and what is on its way between them. -/
structure Pair (τ σ β α γ : Type) where
  left : Proc τ β α
  right : Proc σ β γ
  toRight : List β
  toLeft : List β

/-- What a read of `n` items may return when `avail` is there: all `n`, or, if the line may
cut such reads short, any non-empty part of at most `n`. -/
def Piece (short : Prop) (n : Nat) (avail piece : List β) : Prop :=
  piece <+: avail ∧ (piece.length = n ∨ short ∧ piece ≠ [] ∧ piece.length ≤ n)

section Pair

variable (short : τ → Prop) (short' : σ → Prop)

/-- One step of one of the two programs. -/
inductive Step : Pair τ σ β α γ → Pair τ σ β α γ → Prop
  | sendLeft {b : β} {next : Proc τ β α} {r : Proc σ β γ} {tr tl : List β} :
      Step ⟨.send b next, r, tr, tl⟩ ⟨next, r, tr ++ [b], tl⟩
  | sendRight {l : Proc τ β α} {b : β} {next : Proc σ β γ} {tr tl : List β} :
      Step ⟨l, .send b next, tr, tl⟩ ⟨l, next, tr, tl ++ [b]⟩
  | recvLeft {tag : τ} {n : Nat} {next : List β → Proc τ β α} {r : Proc σ β γ} {tr tl bs : List β}
      (h : Piece (short tag) n tl bs) :
      Step ⟨.recv tag n next, r, tr, tl⟩ ⟨next bs, r, tr, tl.drop bs.length⟩
  | recvRight {l : Proc τ β α} {tag : σ} {n : Nat} {next : List β → Proc σ β γ} {tr tl bs : List β}
      (h : Piece (short' tag) n tr bs) :
      Step ⟨l, .recv tag n next, tr, tl⟩ ⟨l, next bs, tr.drop bs.length, tl⟩

/-- **Every run completes**: none goes on for ever, none gets stuck, and at the end both
programs are done with results, and what is left on the line, as `Q` says. -/
inductive Completes (Q : α → γ → List β → List β → Prop) : Pair τ σ β α γ → Prop
  | done {a : α} {c : γ} {tr tl : List β} (h : Q a c tr tl) : Completes Q ⟨.done a, .done c, tr, tl⟩
  | step {p : Pair τ σ β α γ} (hstep : ∃ p', Step short short' p p')
      (hall : ∀ p', Step short short' p p' → Completes Q p') : Completes Q p

/-- Neither program can go on. -/
def Stopped (p : Pair τ σ β α γ) : Prop := ∀ p', ¬ Step short short' p p'

/-- **Every run ends**: none goes on for ever, and where a run stops, `F` holds. -/
inductive Ends (F : Pair τ σ β α γ → Prop) : Pair τ σ β α γ → Prop
  | stop {p : Pair τ σ β α γ} (hstop : Stopped short short' p) (h : F p) : Ends F p
  | step {p : Pair τ σ β α γ} (hstep : ∃ p', Step short short' p p')
      (hall : ∀ p', Step short short' p p' → Ends F p') : Ends F p

/-- Both programs are done. -/
inductive Finished (Q : α → γ → List β → List β → Prop) : Pair τ σ β α γ → Prop
  | intro {a : α} {c : γ} {tr tl : List β} (h : Q a c tr tl) : Finished Q ⟨.done a, .done c, tr, tl⟩

variable {short short'} {Q : α → γ → List β → List β → Prop} {F : Pair τ σ β α γ → Prop}

theorem Completes.mono {Q' : α → γ → List β → List β → Prop} {p : Pair τ σ β α γ}
    (h : Completes short short' Q p) (himp : ∀ a c tr tl, Q a c tr tl → Q' a c tr tl) :
    Completes short short' Q' p := by
  induction h with
  | done h => exact .done (himp _ _ _ _ h)
  | step hstep hall ih => exact .step hstep ih

theorem stopped_done {a : α} {c : γ} {tr tl : List β} :
    Stopped short short' (⟨.done a, .done c, tr, tl⟩ : Pair τ σ β α γ) := by
  rintro p' ⟨⟩

theorem Ends.done {a : α} {c : γ} {tr tl : List β} (h : F ⟨.done a, .done c, tr, tl⟩) :
    Ends short short' F ⟨.done a, .done c, tr, tl⟩ :=
  .stop stopped_done h

theorem Ends.mono {F' : Pair τ σ β α γ → Prop} {p : Pair τ σ β α γ} (h : Ends short short' F p)
    (himp : ∀ p, F p → F' p) : Ends short short' F' p := by
  induction h with
  | stop hstop h => exact .stop hstop (himp _ h)
  | step hstep hall ih => exact .step hstep ih

/-- Completing is ending with both programs done. -/
theorem Ends.completes {p : Pair τ σ β α γ} (h : Ends short short' (Finished Q) p) :
    Completes short short' Q p := by
  induction h with
  | stop hstop h =>
    cases h with
    | intro h => exact .done h
  | step hstep hall ih => exact .step hstep ih

theorem Completes.ends {p : Pair τ σ β α γ} (h : Completes short short' Q p) :
    Ends short short' (Finished Q) p := by
  induction h with
  | done h => exact .done ⟨h⟩
  | step hstep hall ih => exact .step hstep ih

/-- Two descriptions of the ends of all runs meet. -/
theorem Ends.both {F' : Pair τ σ β α γ → Prop} {p : Pair τ σ β α γ} (h : Ends short short' F p)
    (h' : Ends short short' F' p) : ∃ p', F p' ∧ F' p' := by
  induction h with
  | @stop p hstop hF =>
    cases h' with
    | stop hstop' hF' => exact ⟨p, hF, hF'⟩
    | step hstep hall =>
      obtain ⟨p', hp'⟩ := hstep
      exact absurd hp' (hstop p')
  | step hstep hall ih =>
    obtain ⟨p', hp'⟩ := hstep
    cases h' with
    | stop hstop' hF' => exact absurd hp' (hstop' p')
    | step hstep' hall' => exact ih p' hp' (hall' p' hp')

theorem Piece.append {s : Prop} {n : Nat} {avail piece : List β} (h : Piece s n avail piece)
    (bs : List β) : Piece s n (avail ++ bs) piece :=
  ⟨h.1.trans (List.prefix_append _ _), h.2⟩

theorem Piece.drop_append {s : Prop} {n : Nat} {avail piece : List β} (h : Piece s n avail piece)
    (bs : List β) : (avail ++ bs).drop piece.length = avail.drop piece.length ++ bs :=
  List.drop_append_of_le_length h.1.length_le

/-- What the left program is ready to send may be taken as sent: the right program cannot
tell, and can still do what it could do before. -/
theorem Ends.send_left {b : β} {next : Proc τ β α} {r : Proc σ β γ} {tr tl : List β}
    (h : Ends short short' F ⟨next, r, tr ++ [b], tl⟩) :
    Ends short short' F ⟨.send b next, r, tr, tl⟩ := by
  generalize hp : (⟨next, r, tr ++ [b], tl⟩ : Pair τ σ β α γ) = p at h
  induction h generalizing r tr tl with
  | @stop p hstop h =>
    subst hp
    refine .step ⟨_, .sendLeft⟩ ?_
    intro p' hp'
    cases hp' with
    | sendLeft => exact .stop hstop h
    | sendRight => exact absurd .sendRight (hstop _)
    | recvRight hpiece => exact absurd (.recvRight (hpiece.append [b])) (hstop _)
  | @step p hstep hall ih =>
    subst hp
    refine .step ⟨_, .sendLeft⟩ ?_
    intro p' hp'
    cases hp' with
    | sendLeft => exact .step hstep hall
    | sendRight => exact ih _ .sendRight rfl
    | recvRight hpiece =>
      refine ih _ (.recvRight (hpiece.append [b])) ?_
      rw [hpiece.drop_append]

/-- What the right program is ready to send may be taken as sent. -/
theorem Ends.send_right {l : Proc τ β α} {b : β} {next : Proc σ β γ} {tr tl : List β}
    (h : Ends short short' F ⟨l, next, tr, tl ++ [b]⟩) :
    Ends short short' F ⟨l, .send b next, tr, tl⟩ := by
  generalize hp : (⟨l, next, tr, tl ++ [b]⟩ : Pair τ σ β α γ) = p at h
  induction h generalizing l tr tl with
  | @stop p hstop h =>
    subst hp
    refine .step ⟨_, .sendRight⟩ ?_
    intro p' hp'
    cases hp' with
    | sendRight => exact .stop hstop h
    | sendLeft => exact absurd .sendLeft (hstop _)
    | recvLeft hpiece => exact absurd (.recvLeft (hpiece.append [b])) (hstop _)
  | @step p hstep hall ih =>
    subst hp
    refine .step ⟨_, .sendRight⟩ ?_
    intro p' hp'
    cases hp' with
    | sendRight => exact .step hstep hall
    | sendLeft => exact ih _ .sendLeft rfl
    | recvLeft hpiece =>
      refine ih _ (.recvLeft (hpiece.append [b])) ?_
      rw [hpiece.drop_append]

/-- The result of a read that what comes later cannot change. -/
def Determined (s : Prop) (n : Nat) (avail piece : List β) : Prop :=
  Piece s n avail piece ∧ ∀ more other, Piece s n (avail ++ more) other → other = piece

theorem Determined.append {s : Prop} {n : Nat} {avail piece : List β}
    (h : Determined s n avail piece) (bs : List β) : Determined s n (avail ++ bs) piece := by
  refine ⟨h.1.append bs, fun more other hother => ?_⟩
  rw [List.append_assoc] at hother
  exact h.2 _ _ hother

/-- A read of one item. -/
theorem determined_one (s : Prop) (b : β) (rest : List β) : Determined s 1 (b :: rest) [b] := by
  refine ⟨⟨List.prefix_append [b] rest, .inl rfl⟩, ?_⟩
  rintro more other ⟨hpre, hlen⟩
  have hone : other.length = 1 := by
    rcases hlen with hlen | ⟨-, hne, hle⟩
    · exact hlen
    · have := List.length_pos_iff.mpr hne
      omega
  obtain ⟨c, rfl⟩ := List.length_eq_one_iff.mp hone
  obtain ⟨rest', heq⟩ := hpre
  obtain ⟨rfl, -⟩ := List.cons_eq_cons.mp heq
  rfl

/-- A read that is not cut short, of items that are all there. -/
theorem determined_whole {s : Prop} (hs : ¬ s) {piece : List β} (rest : List β) :
    Determined s piece.length (piece ++ rest) piece := by
  refine ⟨⟨List.prefix_append piece rest, .inl rfl⟩, ?_⟩
  rintro more other ⟨hpre, hlen | ⟨hs', -⟩⟩
  · rw [List.append_assoc] at hpre
    exact (List.prefix_of_prefix_length_le hpre (List.prefix_append _ _)
      (Nat.le_of_eq hlen)).eq_of_length hlen
  · exact absurd hs' hs

/-- A read of the left program whose result is determined may be taken as made. -/
theorem Ends.read_left {tag : τ} {n : Nat} {next : List β → Proc τ β α} {r : Proc σ β γ}
    {tr tl bs : List β} (hbs : Determined (short tag) n tl bs)
    (h : Ends short short' F ⟨next bs, r, tr, tl.drop bs.length⟩) :
    Ends short short' F ⟨.recv tag n next, r, tr, tl⟩ := by
  generalize hp : (⟨next bs, r, tr, tl.drop bs.length⟩ : Pair τ σ β α γ) = p at h
  induction h generalizing r tr tl with
  | @stop p hstop h =>
    subst hp
    refine .step ⟨_, .recvLeft hbs.1⟩ ?_
    intro p' hp'
    cases hp' with
    | recvLeft hpiece =>
      obtain rfl := hbs.2 [] _ (hpiece.append [])
      exact .stop hstop h
    | sendRight => exact absurd .sendRight (hstop _)
    | recvRight hpiece => exact absurd (.recvRight hpiece) (hstop _)
  | @step p hstep hall ih =>
    subst hp
    refine .step ⟨_, .recvLeft hbs.1⟩ ?_
    intro p' hp'
    cases hp' with
    | recvLeft hpiece =>
      obtain rfl := hbs.2 [] _ (hpiece.append [])
      exact .step hstep hall
    | sendRight =>
      refine ih _ .sendRight (hbs.append _) ?_
      rw [hbs.1.drop_append]
    | recvRight hpiece => exact ih _ (.recvRight hpiece) hbs rfl

/-- A read of the right program whose result is determined may be taken as made. -/
theorem Ends.read_right {l : Proc τ β α} {tag : σ} {n : Nat} {next : List β → Proc σ β γ}
    {tr tl bs : List β} (hbs : Determined (short' tag) n tr bs)
    (h : Ends short short' F ⟨l, next bs, tr.drop bs.length, tl⟩) :
    Ends short short' F ⟨l, .recv tag n next, tr, tl⟩ := by
  generalize hp : (⟨l, next bs, tr.drop bs.length, tl⟩ : Pair τ σ β α γ) = p at h
  induction h generalizing l tr tl with
  | @stop p hstop h =>
    subst hp
    refine .step ⟨_, .recvRight hbs.1⟩ ?_
    intro p' hp'
    cases hp' with
    | recvRight hpiece =>
      obtain rfl := hbs.2 [] _ (hpiece.append [])
      exact .stop hstop h
    | sendLeft => exact absurd .sendLeft (hstop _)
    | recvLeft hpiece => exact absurd (.recvLeft hpiece) (hstop _)
  | @step p hstep hall ih =>
    subst hp
    refine .step ⟨_, .recvRight hbs.1⟩ ?_
    intro p' hp'
    cases hp' with
    | recvRight hpiece =>
      obtain rfl := hbs.2 [] _ (hpiece.append [])
      exact .step hstep hall
    | sendLeft =>
      refine ih _ .sendLeft (hbs.append _) ?_
      rw [hbs.1.drop_append]
    | recvLeft hpiece => exact ih _ (.recvLeft hpiece) hbs rfl

theorem Piece.not_nil {s : Prop} {n : Nat} {piece : List β} (hn : 0 < n)
    (h : Piece s n [] piece) : False := by
  obtain ⟨hpre, hlen | ⟨-, hne, -⟩⟩ := h
  · rw [List.prefix_nil.mp hpre, List.length_nil] at hlen
    omega
  · exact hne (List.prefix_nil.mp hpre)

/-- A read of the left program, cut short in any way, while the right one waits for an
answer. -/
theorem Ends.pieces_left {tag : τ} {n : Nat} {next : List β → Proc τ β α} {tag' : σ} {m : Nat}
    {next' : List β → Proc σ β γ} {tl : List β} (hm : 0 < m)
    (hsome : ∃ bs, Piece (short tag) n tl bs)
    (h : ∀ bs, Piece (short tag) n tl bs →
      Ends short short' F ⟨next bs, .recv tag' m next', [], tl.drop bs.length⟩) :
    Ends short short' F ⟨.recv tag n next, .recv tag' m next', [], tl⟩ := by
  obtain ⟨bs, hbs⟩ := hsome
  refine .step ⟨_, .recvLeft hbs⟩ ?_
  intro p' hp'
  cases hp' with
  | recvLeft hpiece => exact h _ hpiece
  | recvRight hpiece => exact (hpiece.not_nil hm).elim

/-- A read of the left program, cut short in any way, after the right one is done. -/
theorem Ends.pieces_left_done {tag : τ} {n : Nat} {next : List β → Proc τ β α} {c : γ}
    {tr tl : List β} (hsome : ∃ bs, Piece (short tag) n tl bs)
    (h : ∀ bs, Piece (short tag) n tl bs →
      Ends short short' F ⟨next bs, .done c, tr, tl.drop bs.length⟩) :
    Ends short short' F ⟨.recv tag n next, .done c, tr, tl⟩ := by
  obtain ⟨bs, hbs⟩ := hsome
  refine .step ⟨_, .recvLeft hbs⟩ ?_
  intro p' hp'
  cases hp' with
  | recvLeft hpiece => exact h _ hpiece

/-- One program is done while the other waits. -/
theorem stopped_waiting {a : α} {tag : σ} {n : Nat} {next : List β → Proc σ β γ} {tl : List β}
    (hn : 0 < n) :
    Stopped short short' (⟨.done a, .recv tag n next, [], tl⟩ : Pair τ σ β α γ) := by
  intro p' hp'
  cases hp' with
  | recvRight hpiece => exact hpiece.not_nil hn

/-- The left program waits for the right one, which is done. -/
theorem stopped_waiting_left {c : γ} {tag : τ} {n : Nat} {next : List β → Proc τ β α} {tr : List β}
    (hn : 0 < n) :
    Stopped short short' (⟨.recv tag n next, .done c, tr, []⟩ : Pair τ σ β α γ) := by
  intro p' hp'
  cases hp' with
  | recvLeft hpiece => exact hpiece.not_nil hn

/-- Both programs wait. -/
theorem stopped_both_waiting {tag : τ} {m : Nat} {next : List β → Proc τ β α} {tag' : σ} {n : Nat}
    {next' : List β → Proc σ β γ} (hm : 0 < m) (hn : 0 < n) :
    Stopped short short' (⟨.recv tag m next, .recv tag' n next', [], []⟩ : Pair τ σ β α γ) := by
  intro p' hp'
  cases hp' with
  | recvLeft hpiece => exact hpiece.not_nil hm
  | recvRight hpiece => exact hpiece.not_nil hn

/-- What the two programs can do next is part of a run that completes. -/
theorem Completes.of_step {p p' : Pair τ σ β α γ} (h : Completes short short' Q p)
    (hp : Step short short' p p') : Completes short short' Q p' := by
  cases h with
  | done h => cases hp
  | step hstep hall => exact hall _ hp

/-- A run does not complete if one program is done while the other waits. -/
theorem not_completes_of_waiting {a : α} {tag : σ} {n : Nat} {next : List β → Proc σ β γ}
    {tl : List β} (hn : 0 < n) : ¬ Completes short short' Q
      ⟨.done a, .recv tag n next, [], tl⟩ := by
  intro h
  cases h with
  | step hstep hall =>
    obtain ⟨p', hp'⟩ := hstep
    exact stopped_waiting hn p' hp'

/-- Several items sent by the left program. -/
theorem Ends.sendAll_left {bs : List β} {f : Unit → Proc τ β α} {r : Proc σ β γ}
    {tr tl : List β} (h : Ends short short' F ⟨f (), r, tr ++ bs, tl⟩) :
    Ends short short' F ⟨sendAll bs >>= f, r, tr, tl⟩ := by
  induction bs generalizing tr with
  | nil =>
    rw [List.append_nil] at h
    exact h
  | cons b bs ih =>
    refine .send_left (ih ?_)
    rw [List.append_assoc]
    exact h

/-- Several items sent by the right program. -/
theorem Ends.sendAll_right {l : Proc τ β α} {bs : List β} {f : Unit → Proc σ β γ}
    {tr tl : List β} (h : Ends short short' F ⟨l, f (), tr, tl ++ bs⟩) :
    Ends short short' F ⟨l, sendAll bs >>= f, tr, tl⟩ := by
  induction bs generalizing tl with
  | nil =>
    rw [List.append_nil] at h
    exact h
  | cons b bs ih =>
    refine .send_right (ih ?_)
    rw [List.append_assoc]
    exact h

end Pair

end Process
