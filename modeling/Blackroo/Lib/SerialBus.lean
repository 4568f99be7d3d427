import Mathlib.Data.List.Range

/-!
# A synchronous serial bus

On such a bus the master sends an item and the peer answers it in the same exchange,
or stays silent.  The peer is a machine of its own; the bus keeps its state, the last
answer, and what the master has sent so far.

A *polled* master is a program that waits for each answer before it goes on.  It may
give up at any point, which leaves the bus as it is.  `Bus.sends` is the bus after a
fixed sequence of items, and the rules below let a program that sends such a sequence
be run without ever looking at the peer.

## Scripted dialogues

A master that follows a `Dialogue.Script` knows what it sends at each position and which replies it
accepts, given the replies so far; `Dialogue.Follows` is the property of a transcript that no
position deviates.  A transcript grows at its end, so `Follows` does too.
-/

namespace SerialBus

variable {σ β α γ : Type}

/-! ## The bus -/

/-- What is at the other end: the answer to an item, `none` for no answer in time, and
the next state. -/
abbrev Peer (σ β : Type) : Type := σ → β → Option β × σ

structure Bus (σ β : Type) where
  peer : σ
  /-- the last answer -/
  data : Option β
  sent : List β

/-- One exchange. -/
def Bus.send (dev : Peer σ β) (bus : Bus σ β) (tx : β) : Bus σ β :=
  ⟨(dev bus.peer tx).2, (dev bus.peer tx).1, bus.sent ++ [tx]⟩

/-- The bus after the first `n` items of a sequence. -/
def Bus.sends (dev : Peer σ β) (bus : Bus σ β) (send : Nat → β) : Nat → Bus σ β
  | 0 => bus
  | n + 1 => (bus.sends dev send n).send dev (send n)

/-- The answer to item `i` of a sequence. -/
def Bus.reply (dev : Peer σ β) (bus : Bus σ β) (send : Nat → β) (i : Nat) : Option β :=
  (bus.sends dev send (i + 1)).data

theorem Bus.sent_sends (dev : Peer σ β) (bus : Bus σ β) (send : Nat → β) (n : Nat) :
    (bus.sends dev send n).sent = bus.sent ++ (List.range n).map send := by
  induction n with
  | zero => simp [sends]
  | succ n ih =>
    show (bus.sends dev send n).sent ++ [send n] = _
    rw [ih, List.range_succ, List.map_append, List.append_assoc]
    rfl

/-- A peer that answers from a list, whatever it is sent. -/
def replay (answers : Nat → β) : Peer Nat β := fun n _ => (some (answers n), n + 1)

theorem peer_sends_replay (answers : Nat → β) (bus : Bus Nat β) (send : Nat → β) (n : Nat) :
    (bus.sends (replay answers) send n).peer = bus.peer + n := by
  induction n with
  | zero => rfl
  | succ n ih =>
    show (bus.sends (replay answers) send n).peer + 1 = _
    rw [ih]
    omega

theorem reply_replay (answers : Nat → β) (bus : Bus Nat β) (send : Nat → β) (i : Nat) :
    bus.reply (replay answers) send i = some (answers (bus.peer + i)) := by
  show some (answers (bus.sends (replay answers) send i).peer) = _
  rw [peer_sends_replay]

/-! ## Polled programs -/

/-- A program that exchanges items and may give up. -/
structure Polled (σ β α : Type) where
  run : Bus σ β → Option α × Bus σ β

instance : Monad (Polled σ β) where
  pure a := ⟨fun bus => (some a, bus)⟩
  bind x f := ⟨fun bus =>
    match x.run bus with
    | (some a, bus) => (f a).run bus
    | (none, bus) => (none, bus)⟩

/-- Send one item and wait for the answer. -/
def xfer (dev : Peer σ β) (tx : β) : Polled σ β (Option β) :=
  ⟨fun bus => (some (bus.send dev tx).data, bus.send dev tx)⟩

/-- Give up unless a condition holds. -/
def ensure (p : Bool) : Polled σ β Unit :=
  ⟨fun bus => (if p then some () else none, bus)⟩

theorem pure_eq_some_iff (a : α) (bus : Bus σ β) (r : α) (bus' : Bus σ β) :
    (pure a : Polled σ β α).run bus = (some r, bus') ↔ r = a ∧ bus' = bus := by
  show ((some a, bus) : Option α × Bus σ β) = _ ↔ _
  rw [Prod.mk.injEq, Option.some.injEq, eq_comm, @eq_comm _ bus]

theorem bind_eq_some_iff (x : Polled σ β α) (f : α → Polled σ β γ) (bus : Bus σ β) (r : γ)
    (bus' : Bus σ β) :
    (x >>= f).run bus = (some r, bus') ↔
      ∃ a bus₁, x.run bus = (some a, bus₁) ∧ (f a).run bus₁ = (some r, bus') := by
  show (match x.run bus with
    | (some a, bus) => (f a).run bus
    | (none, bus) => (none, bus)) = _ ↔ _
  cases x.run bus with
  | mk o bus₁ => cases o <;> simp

theorem ensure_eq_some_iff (p : Bool) (bus : Bus σ β) (r : Unit) (bus' : Bus σ β) :
    (ensure p).run bus = (some r, bus') ↔ p = true ∧ bus' = bus := by
  cases p
  · simp [ensure]
  · simp [ensure, eq_comm]

/-- Giving up, or going on from the same bus. -/
theorem ensure_bind_iff (p : Bool) (f : Unit → Polled σ β γ) (bus : Bus σ β) (r : γ)
    (bus' : Bus σ β) :
    (ensure p >>= f).run bus = (some r, bus') ↔ p = true ∧ (f ()).run bus = (some r, bus') := by
  rw [bind_eq_some_iff]
  constructor
  · rintro ⟨a, bus₁, h, hf⟩
    rw [ensure_eq_some_iff] at h
    obtain ⟨hp, rfl⟩ := h
    exact ⟨hp, hf⟩
  · rintro ⟨hp, hf⟩
    exact ⟨(), bus, (ensure_eq_some_iff _ _ _ _).mpr ⟨hp, rfl⟩, hf⟩

/-- An exchange of a program that keeps to a sequence. -/
theorem xfer_bind_sends (dev : Peer σ β) (bus : Bus σ β) (send : Nat → β) (n : Nat) {tx : β}
    (htx : tx = send n) (f : Option β → Polled σ β γ) :
    (xfer dev tx >>= f).run (bus.sends dev send n) =
      (f (bus.reply dev send n)).run (bus.sends dev send (n + 1)) := by
  rw [htx]
  rfl

end SerialBus

namespace Dialogue

variable {β : Type}

/-- What went over the bus in one exchange: the item read, and the item sent. -/
structure Exchange (β : Type) where
  rx : β
  tx : β
  deriving DecidableEq, Repr

/-- The items read in a transcript. -/
def received (w : List (Exchange β)) : List β := w.map Exchange.rx

/-- The master's side of a dialogue. -/
structure Script (β : Type) where
  /-- the item sent at a position -/
  send : Nat → β
  /-- whether a reply is accepted, after the replies so far -/
  accept : List β → β → Bool

/-- A transcript in which every exchange is as the script wants it. -/
inductive Follows (s : Script β) : List (Exchange β) → Prop
  | nil : Follows s []
  | snoc {w : List (Exchange β)} {x : Exchange β} (h : Follows s w)
      (hsend : x.tx = s.send w.length) (haccept : s.accept (received w) x.rx = true) :
      Follows s (w ++ [x])

@[simp] theorem received_append (w u : List (Exchange β)) :
    received (w ++ u) = received w ++ received u := List.map_append

@[simp] theorem length_received (w : List (Exchange β)) : (received w).length = w.length :=
  List.length_map _

end Dialogue
