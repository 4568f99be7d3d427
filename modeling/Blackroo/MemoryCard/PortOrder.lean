import Blackroo.MemoryCard.JoinedMapping

/-!
# Which port a card sits in

Every card of a joined set records its position in the set, and the documentation
reads that number as the card's place in the joined device.  The sweeps use it to
judge the card, but `do_bu_request` never looks at it: the slot loop walks the slots
in the order of the ports.  So the same cards, moved to other ports, can make a
different device.

`portIndependent_iff` says for every set of cards, every two ways to plug it in and
every two histories of earlier sweeps when all logical blocks still go to the same
place on the same card.  `Reach` is the whole arithmetic of it: where in a card a
logical block lands, given the recorded size the loop has walked past.

Two assignments of the same cards are in one of three situations: one card alone, two cards in their
old slots, or two cards that changed places.  In the last one a block can only stay where it is if
one of the cards takes no block at all (`Vacant`).  The earlier sweeps matter because the record of
a slot that is empty now is still walked past.
-/

namespace Blackroo
namespace MemoryCard

variable {κ : Type}

/-! ## A set of cards and where it is plugged in -/

/-- Cards the driver can join: marked, with distinct numbers in range and distinct
serials. -/
structure CardSet (κ : Type) where
  record : κ → FirstBlock
  marked : ∀ k, (record k).id = buId
  number_lt : ∀ k, (record k).number.toNat < buMinors
  number_injective : Function.Injective fun k => (record k).number
  serial_injective : Function.Injective fun k => (record k).serial

/-- An assignment of the cards to the slots: every card is in one slot. -/
structure Plugging (κ : Type) where
  card : Slot → Option κ
  once : ∀ k, ∃! j, card j = some k

/-- The blocks recorded on a card. -/
def CardSet.size (set : CardSet κ) (k : κ) : Nat := (set.record k).size.toNat

/-- What a sweep finds in the slots. -/
def CardSet.cards (set : CardSet κ) (p : Plugging κ) : Cards := fun j =>
  (p.card j).map set.record

/-- Data blocks of the cards plugged in, as an integer. -/
def CardSet.data (set : CardSet κ) (p : Plugging κ) : Int :=
  (slots.map fun j => (p.card j).elim 0 fun k => (set.size k : Int) - 8).sum

/-- The driver after a sweep over `cards` that followed sweeps over the contents
`before`, oldest first; the first sweep of all is `bu_init`. -/
def sweepAfter : List Cards → Cards → Joined
  | [], cards => buInit cards
  | boot :: later, cards => (buRevalidate (runSweeps boot later) cards).1

/-- The card, and the block on it, that logical block `b` is sent to. -/
def Joined.cardOf (d : Joined) (p : Plugging κ) (b : UInt32) : Option (κ × UInt16) :=
  (d.locate b).bind fun place => (p.card place.1).map fun k => (k, place.2)

/-- Every block below `bu_total` goes to the same block of the same card. -/
def PortIndependent (d₁ d₂ : Joined) (p₁ p₂ : Plugging κ) : Prop :=
  ∀ b, d₁.below b ∨ d₂.below b →
    ∃ place, d₁.cardOf p₁ b = some place ∧ d₂.cardOf p₂ b = some place

/-! ## The sweep of a set -/

theorem Plugging.ne_of_card (p : Plugging κ) {k k' : κ} (h : p.card 0 = some k)
    (h' : p.card 1 = some k') : k ≠ k' := by
  rintro rfl
  have heq := (p.once k).unique h h'
  exact absurd heq (by decide)

theorem CardSet.identified_cards (set : CardSet κ) (p : Plugging κ) (j : Slot) :
    identified (set.cards p) j = (p.card j).map set.record := by
  unfold identified cards
  cases p.card j with
  | none => rfl
  | some k => simp [set.marked k]

theorem CardSet.claimable_cards (set : CardSet κ) (p : Plugging κ) (j : Slot) :
    claimable (set.cards p) j = (p.card j).map set.record := by
  rw [claimable, set.identified_cards]
  cases p.card j with
  | none => rfl
  | some k =>
    have hrange : numberInRange (set.record k).number = true :=
      decide_eq_true (set.number_lt k)
    simp [hrange]

/-- Either sweep accepts the whole set. -/
theorem CardSet.accepts_cards (set : CardSet κ) (p : Plugging κ) (bySerial : Bool) (j : Slot) :
    accepts bySerial (set.cards p) j = (p.card j).isSome := by
  rw [accepts, set.claimable_cards, set.claimable_cards]
  rcases slot_cases j with rfl | rfl
  · cases p.card 0 <;> rfl
  · cases h₁ : p.card 1 with
    | none => rfl
    | some k' =>
      cases h₀ : p.card 0 with
      | none => rfl
      | some k =>
        have hne : k ≠ k' := p.ne_of_card h₀ h₁
        have hnumber : (set.record k).number ≠ (set.record k').number :=
          fun h => hne (set.number_injective h)
        have hserial : (set.record k).serial ≠ (set.record k').serial :=
          fun h => hne (set.serial_injective h)
        simp [clash, hnumber, hserial]

theorem CardSet.dataBlocks_cards (set : CardSet κ) (p : Plugging κ) (bySerial : Bool) :
    dataBlocks (accepts bySerial (set.cards p)) (set.cards p) = set.data p := by
  unfold dataBlocks data
  congr 1
  refine List.map_congr_left fun j _ => ?_
  rw [set.accepts_cards, cardSize, set.identified_cards]
  cases p.card j <;> rfl

theorem sweepAfter_firstBlock (before : List Cards) (cards : Cards) (j : Slot) :
    (sweepAfter before cards).firstBlock j =
      (identified cards j).getD (recorded before j) := by
  cases before with
  | nil => exact (buInit_swept cards).firstBlock j
  | cons boot later =>
    rw [sweepAfter, (buRevalidate_swept _ cards).firstBlock, runSweeps_firstBlock]

theorem sweepAfter_swept (before : List Cards) (cards : Cards) :
    ∃ earlier, Swept (!before.isEmpty) cards earlier (sweepAfter before cards) := by
  cases before with
  | nil => exact ⟨_, buInit_swept cards⟩
  | cons boot later => exact ⟨_, buRevalidate_swept _ cards⟩

/-- `bu_total` after a sweep over a set. -/
theorem CardSet.total_sweepAfter (set : CardSet κ) (p : Plugging κ) (before : List Cards) :
    (sweepAfter before (set.cards p)).total = toInt32 (set.data p) := by
  obtain ⟨earlier, h⟩ := sweepAfter_swept before (set.cards p)
  rw [h.total, set.dataBlocks_cards]

/-- The sizes the slot loop walks: a plugged card's own, and in an empty slot the
last one recorded there. -/
def CardSet.walked (set : CardSet κ) (p : Plugging κ) (before : List Cards) (j : Slot) : Nat :=
  (p.card j).elim (recorded before j).size.toNat set.size

theorem CardSet.size_sweepAfter (set : CardSet κ) (p : Plugging κ) (before : List Cards)
    (j : Slot) :
    ((sweepAfter before (set.cards p)).firstBlock j).size.toNat = set.walked p before j := by
  rw [sweepAfter_firstBlock, set.identified_cards, CardSet.walked]
  cases p.card j <;> rfl

/-! ## Where a block lands -/

/-- Logical block `b` lands on block `x` of a card of `size` blocks, behind a slot of
recorded size `ahead`.  The slot loop adds the reserved blocks in `__u16`. -/
def Reach (ahead size b x : Nat) : Prop :=
  ahead ≤ (b + 8) % 65536 ∧ x < size ∧
    x = if ahead = 0 then (b + 8) % 65536 else ((b + 8) % 65536 - ahead + 8) % 65536

/-- The last slot of the walk. -/
theorem walk_last_iff (size : Slot → Nat) (y : Nat) (j : Slot) (x : Nat) :
    walk size [1] y = some (j, x) ↔ j = 1 ∧ x = (y + 8) % 65536 ∧ x < size 1 := by
  by_cases hroom : (y + 8) % 65536 < size 1
  · rw [walk, if_pos (by omega), if_pos hroom, Option.some.injEq, Prod.mk.injEq]
    constructor
    · rintro ⟨rfl, rfl⟩
      exact ⟨rfl, rfl, hroom⟩
    · rintro ⟨rfl, rfl, -⟩
      exact ⟨rfl, rfl⟩
  · simp only [walk, hroom, if_false, ite_self, reduceCtorEq, false_iff, not_and]
    rintro - rfl
    exact hroom

theorem walk_eq_some_iff (size : Slot → Nat) (b : Nat) (j : Slot) (x : Nat) :
    walk size [0, 1] (b % 65536) = some (j, x) ↔
      (j = 0 ∧ Reach 0 (size 0) b x) ∨ (j = 1 ∧ Reach (size 0) (size 1) b x) := by
  have hmod : (b % 65536 + 8) % 65536 = (b + 8) % 65536 := by omega
  unfold Reach
  rw [walk, hmod, if_pos rfl]
  by_cases h₀ : size 0 = 0
  · rw [if_neg (by omega), walk_last_iff, hmod, if_pos h₀]
    constructor
    · rintro ⟨hj, hx, hlt⟩
      exact Or.inr ⟨hj, by omega, hlt, hx⟩
    · rintro (⟨-, -, hlt, -⟩ | ⟨hj, -, hlt, hx⟩)
      · omega
      · exact ⟨hj, hx, hlt⟩
  · rw [if_pos (by omega), if_neg h₀]
    by_cases hroom : (b + 8) % 65536 < size 0
    · rw [if_pos hroom, Option.some.injEq, Prod.mk.injEq]
      constructor
      · rintro ⟨rfl, rfl⟩
        exact Or.inl ⟨rfl, Nat.zero_le _, hroom, rfl⟩
      · rintro (⟨rfl, -, -, hx⟩ | ⟨-, hle, -⟩)
        · exact ⟨rfl, hx.symm⟩
        · omega
    · rw [if_neg hroom, walk_last_iff]
      constructor
      · rintro ⟨hj, hx, hlt⟩
        exact Or.inr ⟨hj, by omega, hlt, hx⟩
      · rintro (⟨-, -, hlt, hx⟩ | ⟨hj, -, hlt, hx⟩)
        · omega
        · exact ⟨hj, hx, hlt⟩

/-- The slot loop sends `b` to block `x` of card `k`. -/
def Lands (size : Slot → Nat) (card : Slot → Option κ) (b : Nat) (k : κ) (x : Nat) : Prop :=
  (card 0 = some k ∧ Reach 0 (size 0) b x) ∨ (card 1 = some k ∧ Reach (size 0) (size 1) b x)

theorem cardOf_eq_some_iff (d : Joined) (p : Plugging κ) (b : UInt32) (k : κ) (x : UInt16) :
    d.cardOf p b = some (k, x) ↔
      Lands (fun j => (d.firstBlock j).size.toNat) p.card b.toNat k x.toNat := by
  have hwalk : ∀ j, d.locate b = some (j, x) ↔
      walk (fun j => (d.firstBlock j).size.toNat) [0, 1] (b.toNat % 65536) =
        some (j, x.toNat) := by
    intro j
    rw [← locate_toNat, Option.map_eq_some_iff]
    constructor
    · intro h
      exact ⟨_, h, rfl⟩
    · rintro ⟨⟨j', x'⟩, h, hp⟩
      rw [Prod.mk.injEq, UInt16.toNat_inj] at hp
      rw [h, ← hp.1, ← hp.2]
  have hcard : d.cardOf p b = some (k, x) ↔
      ∃ j, d.locate b = some (j, x) ∧ p.card j = some k := by
    unfold Joined.cardOf
    rw [Option.bind_eq_some_iff]
    constructor
    · rintro ⟨⟨j, x'⟩, h, hk⟩
      rw [Option.map_eq_some_iff] at hk
      obtain ⟨k', hk', hp⟩ := hk
      rw [Prod.mk.injEq] at hp
      obtain ⟨rfl, rfl⟩ := hp
      exact ⟨j, h, hk'⟩
    · rintro ⟨j, h, hk⟩
      exact ⟨(j, x), h, by rw [hk, Option.map_some]⟩
  rw [hcard, Lands]
  constructor
  · rintro ⟨j, h, hk⟩
    rw [hwalk, walk_eq_some_iff] at h
    rcases h with ⟨rfl, h⟩ | ⟨rfl, h⟩
    · exact Or.inl ⟨hk, h⟩
    · exact Or.inr ⟨hk, h⟩
  · rintro (⟨hk, h⟩ | ⟨hk, h⟩)
    · exact ⟨0, (hwalk 0).mpr ((walk_eq_some_iff _ _ _ _).mpr (Or.inl ⟨rfl, h⟩)), hk⟩
    · exact ⟨1, (hwalk 1).mpr ((walk_eq_some_iff _ _ _ _).mpr (Or.inr ⟨rfl, h⟩)), hk⟩

/-- A block of a card is a `__u16`. -/
theorem Lands.lt {size : Slot → Nat} {card : Slot → Option κ} {b x : Nat} {k : κ}
    (h : Lands size card b k x) : x < 65536 := by
  have hreach : ∀ ahead size', Reach ahead size' b x → x < 65536 := by
    rintro ahead size' ⟨-, -, hx⟩
    split at hx <;> omega
  rcases h with ⟨-, h⟩ | ⟨-, h⟩
  · exact hreach _ _ h
  · exact hreach _ _ h

/-- The blocks below `n` land alike under both assignments. -/
def LandsAlike (n : Nat) (size₁ size₂ : Slot → Nat) (card₁ card₂ : Slot → Option κ) : Prop :=
  ∀ b < n, ∃ k x, Lands size₁ card₁ b k x ∧ Lands size₂ card₂ b k x

/-- `PortIndependent` in natural numbers. -/
theorem portIndependent_iff_lands {d₁ d₂ : Joined} (p₁ p₂ : Plugging κ)
    (htotal : d₁.total = d₂.total) :
    PortIndependent d₁ d₂ p₁ p₂ ↔
      LandsAlike (toUlong d₁.total) (fun j => (d₁.firstBlock j).size.toNat)
        (fun j => (d₂.firstBlock j).size.toNat) p₁.card p₂.card := by
  have hlt : toUlong d₁.total < 2 ^ 32 := by
    rw [toUlong]
    omega
  constructor
  · intro h b hb
    have hnat : (UInt32.ofNat b).toNat = b := UInt32.toNat_ofNat_of_lt' (lt_trans hb hlt)
    have hbelow : d₁.below (UInt32.ofNat b) := by
      rw [Joined.below, hnat]
      exact hb
    obtain ⟨⟨k, x⟩, h₁, h₂⟩ := h _ (Or.inl hbelow)
    rw [cardOf_eq_some_iff, hnat] at h₁ h₂
    exact ⟨k, x.toNat, h₁, h₂⟩
  · intro h b hb
    have hb' : b.toNat < toUlong d₁.total := by
      rcases hb with hb | hb
      · exact hb
      · rw [htotal]
        exact hb
    obtain ⟨k, x, h₁, h₂⟩ := h b.toNat hb'
    have hx : (UInt16.ofNat x).toNat = x := UInt16.toNat_ofNat_of_lt' h₁.lt
    refine ⟨(k, UInt16.ofNat x), ?_, ?_⟩ <;> rw [cardOf_eq_some_iff, hx]
    · exact h₁
    · exact h₂

/-! ## The arithmetic of the three situations -/

/-- A lone card of more than eight blocks takes the same blocks behind the recorded
sizes `r₁` and `r₂` of the other slot. -/
def LoneAlike (s r₁ r₂ : Nat) : Prop :=
  ((r₁ = 0 ∨ r₁ = 8 ∧ s ≤ 65536) ∧ (r₂ = 0 ∨ r₂ = 8 ∧ s ≤ 65536)) ∨
    (r₁ = r₂ ∧ 0 < r₁ ∧ r₁ < 8 ∧ s = 65536)

theorem reach_lone_iff {s r₁ r₂ : Nat} (hs : 8 < s) :
    (∀ b < s - 8, ∃ x, Reach r₁ s b x ∧ Reach r₂ s b x) ↔ LoneAlike s r₁ r₂ := by
  unfold Reach LoneAlike
  constructor
  · intro h
    obtain ⟨x, ⟨ha, hx, hxa⟩, ⟨hb, -, hxb⟩⟩ := h 0 (by omega)
    -- past a recorded size of eight blocks, block 65528 wraps to the empty slot
    have hwrap : ∀ r, 0 < r → r = r₁ ∨ r = r₂ → s ≤ 65536 := by
      intro r hr hor
      by_contra hbig
      obtain ⟨y, ⟨hc, -, -⟩, ⟨hd, -, -⟩⟩ := h 65528 (by omega)
      omega
    by_cases h₁ : r₁ = 0
    · rw [if_pos h₁] at hxa
      split at hxb
      · omega
      · have := hwrap r₂ (by omega) (Or.inr rfl)
        omega
    · rw [if_neg h₁] at hxa
      have := hwrap r₁ (by omega) (Or.inl rfl)
      by_cases h₂ : r₂ = 0
      · rw [if_pos h₂] at hxb
        omega
      · rw [if_neg h₂] at hxb
        have heq : r₁ = r₂ := by omega
        by_cases h8 : r₁ = 8
        · omega
        · refine Or.inr ⟨heq, by omega, by omega, ?_⟩
          by_contra hne
          -- a smaller card is overrun by its last blocks
          obtain ⟨y, ⟨-, hy, hya⟩, -⟩ := h (s + r₁ - 16) (by omega)
          rw [if_neg h₁] at hya
          omega
  · intro h b hb
    rcases h with ⟨h₁, h₂⟩ | ⟨rfl, hpos, hlt, rfl⟩
    · refine ⟨(b + 8) % 65536, ⟨?_, ?_, ?_⟩, ?_, ?_, ?_⟩
      · omega
      · omega
      · split <;> omega
      · omega
      · omega
      · split <;> omega
    · refine ⟨(b + 16 - r₁) % 65536, ⟨?_, ?_, ?_⟩, ?_, ?_, ?_⟩
      · omega
      · omega
      · rw [if_neg (by omega)]
        omega
      · omega
      · omega
      · rw [if_neg (by omega)]
        omega

/-- Two cards in the same slots as before: every block lands as soon as the cards
hold their reserved blocks between them. -/
theorem reach_unmoved_iff {s₀ s₁ n : Nat} (h₀ : s₀ < 2 ^ 32) (h₁ : s₁ < 2 ^ 32)
    (hn : (n : Int) = ((s₀ : Int) - 8 + (s₁ - 8)) % 2 ^ 32) :
    (∀ b < n, ∃ x, Reach 0 s₀ b x ∨ Reach s₀ s₁ b x) ↔ n = 0 ∨ 16 ≤ s₀ + s₁ := by
  unfold Reach
  constructor
  · intro h
    by_contra hno
    obtain ⟨x, hx⟩ := h 8 (by omega)
    split_ifs at hx <;> omega
  · intro h b hb
    by_cases hroom : (b + 8) % 65536 < s₀
    · exact ⟨(b + 8) % 65536, Or.inl ⟨by omega, hroom, by simp⟩⟩
    · by_cases hz : s₀ = 0
      · exact ⟨(b + 8) % 65536, Or.inr ⟨by omega, by omega, by rw [if_pos hz]⟩⟩
      · exact ⟨((b + 8) % 65536 - s₀ + 8) % 65536,
          Or.inr ⟨by omega, by omega, by rw [if_neg hz]⟩⟩

/-- A card of `s` blocks that takes no block from a card of `t` blocks behind it. -/
def Vacant (s t : Nat) : Prop := s = 0 ∧ 16 ≤ t ∨ s = 8 ∧ 8 ≤ t ∧ t ≤ 65536

/-- A block of the first card before the swap, and of the second one after it. -/
theorem reach_of_vacant {s t n b : Nat} (ht : t < 2 ^ 32)
    (hn : (n : Int) = ((s : Int) - 8 + (t - 8)) % 2 ^ 32) (h : Vacant s t) (hb : b < n) :
    Reach 0 t b ((b + 8) % 65536) ∧ Reach s t b ((b + 8) % 65536) := by
  unfold Vacant at h
  unfold Reach
  refine ⟨⟨by omega, by omega, by simp⟩, by omega, by omega, ?_⟩
  split <;> omega

/-- If block 0 stays on the card of `t` blocks, the other card is vacant. -/
theorem vacant_of_reach {s t n x : Nat} (ht : t < 2 ^ 32)
    (hn : (n : Int) = ((s : Int) - 8 + (t - 8)) % 2 ^ 32)
    (h : ∀ b < n, ∃ x, (Reach 0 t b x ∧ Reach s t b x) ∨ (Reach t s b x ∧ Reach 0 s b x))
    (h₁ : Reach 0 t 0 x) (h₂ : Reach s t 0 x) : Vacant s t := by
  obtain ⟨-, hx, hxa⟩ := h₁
  obtain ⟨hs, -, hxb⟩ := h₂
  rw [if_pos rfl] at hxa
  have h08 : s = 0 ∨ s = 8 := by
    split at hxb <;> omega
  unfold Vacant
  rcases h08 with rfl | rfl
  · refine Or.inl ⟨rfl, ?_⟩
    by_contra hlt
    obtain ⟨y, ⟨⟨-, hy, hya⟩, -⟩ | ⟨-, -, hy, -⟩⟩ := h 8 (by omega)
    · rw [if_pos rfl] at hya
      omega
    · omega
  · refine Or.inr ⟨rfl, by omega, ?_⟩
    by_contra hgt
    obtain ⟨y, ⟨-, hy, -⟩ | ⟨⟨hy, -⟩, -⟩⟩ := h 65528 (by omega)
    · omega
    · omega

/-- Two cards that changed places. -/
theorem reach_swapped_iff {s₀ s₁ n : Nat} (h₀ : s₀ < 2 ^ 32) (h₁ : s₁ < 2 ^ 32)
    (hn : (n : Int) = ((s₀ : Int) - 8 + (s₁ - 8)) % 2 ^ 32) :
    (∀ b < n, ∃ x, (Reach 0 s₀ b x ∧ Reach s₁ s₀ b x) ∨ (Reach s₀ s₁ b x ∧ Reach 0 s₁ b x)) ↔
      n = 0 ∨ Vacant s₁ s₀ ∨ Vacant s₀ s₁ := by
  have hn' : (n : Int) = ((s₁ : Int) - 8 + (s₀ - 8)) % 2 ^ 32 := by
    rw [hn]
    congr 1
    omega
  constructor
  · intro h
    rcases Nat.eq_zero_or_pos n with hz | hpos
    · exact Or.inl hz
    obtain ⟨x, ⟨ha, hb⟩ | ⟨ha, hb⟩⟩ := h 0 hpos
    · exact Or.inr (Or.inl (vacant_of_reach h₀ hn' h ha hb))
    · refine Or.inr (Or.inr (vacant_of_reach h₁ hn (fun b hb => ?_) hb ha))
      obtain ⟨y, hy | hy⟩ := h b hb
      · exact ⟨y, Or.inr ⟨hy.2, hy.1⟩⟩
      · exact ⟨y, Or.inl ⟨hy.2, hy.1⟩⟩
  · intro h b hb
    rcases h with hz | hv | hv
    · omega
    · exact ⟨_, Or.inl (reach_of_vacant h₀ hn' hv hb)⟩
    · exact ⟨_, Or.inr (reach_of_vacant h₁ hn hv hb).symm⟩

/-! ## The exact condition -/

/-- A card alone in its slot. -/
def Plugging.Alone (p : Plugging κ) (k : κ) : Prop :=
  (p.card 0 = some k ∧ p.card 1 = none) ∨ (p.card 0 = none ∧ p.card 1 = some k)

/-- The recorded size in front of a lone card: none in slot 0, and in slot 1 the last
one recorded for slot 0. -/
def Plugging.ahead (p : Plugging κ) (before : List Cards) : Nat :=
  if (p.card 1).isSome then (recorded before 0).size.toNat else 0

/-- When the ports do not matter: there is no block to map; or there is one card, and
no earlier record stands in front of it differently; or two cards kept their slots;
or one of the two takes no block from the other. -/
inductive MapsAlike (set : CardSet κ) (p₁ p₂ : Plugging κ) (before₁ before₂ : List Cards) :
    Prop
  | nothing (hdata : set.data p₁ % 2 ^ 32 = 0)
  | lone (k : κ) (hp₁ : p₁.Alone k) (hp₂ : p₂.Alone k) (hdata : 8 < set.size k)
      (hahead : LoneAlike (set.size k) (p₁.ahead before₁) (p₂.ahead before₂))
  | unmoved (k k' : κ) (h₀ : p₁.card 0 = some k) (h₁ : p₁.card 1 = some k')
      (hp : p₂.card = p₁.card) (hdata : 16 ≤ set.size k + set.size k')
  | swapped (k k' : κ) (h₀ : p₁.card 0 = some k) (h₁ : p₁.card 1 = some k')
      (h₀' : p₂.card 0 = some k') (h₁' : p₂.card 1 = some k)
      (hvacant : Vacant (set.size k') (set.size k) ∨ Vacant (set.size k) (set.size k'))

/-- Every card is in one of the two slots. -/
theorem Plugging.card_cases (p : Plugging κ) (k : κ) : p.card 0 = some k ∨ p.card 1 = some k := by
  obtain ⟨j, hj, -⟩ := p.once k
  rcases slot_cases j with rfl | rfl
  · exact Or.inl hj
  · exact Or.inr hj

/-- A set without cards is a set without cards in any slots. -/
theorem Plugging.card_eq_none {p : Plugging κ} (hp : ∀ i, p.card i = none) (q : Plugging κ)
    (j : Slot) : q.card j = none := by
  cases hq : q.card j with
  | none => rfl
  | some k =>
    rcases p.card_cases k with h | h
    · exact absurd ((hp 0).symm.trans h) (Option.some_ne_none k).symm
    · exact absurd ((hp 1).symm.trans h) (Option.some_ne_none k).symm

/-- A lone card is the only one of the set. -/
theorem Plugging.Alone.eq {p : Plugging κ} {k : κ} (hp : p.Alone k) (k' : κ) : k' = k := by
  rcases hp with ⟨h₀, h₁⟩ | ⟨h₀, h₁⟩
  · rcases p.card_cases k' with h | h
    · exact Option.some.inj (h.symm.trans h₀)
    · exact absurd (h₁.symm.trans h) (Option.some_ne_none k').symm
  · rcases p.card_cases k' with h | h
    · exact absurd (h₀.symm.trans h) (Option.some_ne_none k').symm
    · exact Option.some.inj (h.symm.trans h₁)

/-- A card that is alone in one plugging is alone in every other one. -/
theorem Plugging.Alone.other {p : Plugging κ} {k : κ} (hp : p.Alone k) (q : Plugging κ) :
    q.Alone k := by
  have hnot {j j' : Slot} (hj : q.card j = some k) (hne : j ≠ j') : q.card j' = none := by
    refine Option.eq_none_iff_forall_ne_some.mpr fun k' hj' => ?_
    rw [hp.eq k'] at hj'
    exact hne ((q.once k).unique hj hj')
  rcases q.card_cases k with h | h
  · exact Or.inl ⟨h, hnot h (by decide)⟩
  · exact Or.inr ⟨hnot h (by decide), h⟩

/-- Two assignments of one set hold as many cards. -/
theorem Plugging.pair_cases (p₁ p₂ : Plugging κ) :
    ((∀ j, p₁.card j = none) ∧ ∀ j, p₂.card j = none) ∨
      (∃ k, p₁.Alone k ∧ p₂.Alone k) ∨
      (∃ k k', p₁.card 0 = some k ∧ p₁.card 1 = some k' ∧ p₂.card = p₁.card) ∨
      (∃ k k', p₁.card 0 = some k ∧ p₁.card 1 = some k' ∧ p₂.card 0 = some k' ∧
        p₂.card 1 = some k) := by
  cases h₀ : p₁.card 0 with
  | none =>
    cases h₁ : p₁.card 1 with
    | none =>
      have hnone : ∀ j, p₁.card j = none := by
        intro j
        rcases slot_cases j with rfl | rfl
        · exact h₀
        · exact h₁
      exact Or.inl ⟨hnone, card_eq_none hnone p₂⟩
    | some k =>
      have hp : p₁.Alone k := Or.inr ⟨h₀, h₁⟩
      exact Or.inr (Or.inl ⟨k, hp, hp.other p₂⟩)
  | some k =>
    cases h₁ : p₁.card 1 with
    | none =>
      have hp : p₁.Alone k := Or.inl ⟨h₀, h₁⟩
      exact Or.inr (Or.inl ⟨k, hp, hp.other p₂⟩)
    | some k' =>
      have hne : k ≠ k' := p₁.ne_of_card h₀ h₁
      rcases p₂.card_cases k with h | h <;> rcases p₂.card_cases k' with h' | h'
      · rw [h, Option.some.injEq] at h'
        exact absurd h' hne
      · refine Or.inr (Or.inr (Or.inl ⟨k, k', rfl, rfl, funext fun j => ?_⟩))
        rcases slot_cases j with rfl | rfl
        · rw [h, h₀]
        · rw [h', h₁]
      · exact Or.inr (Or.inr (Or.inr ⟨k, k', rfl, rfl, h', h⟩))
      · rw [h, Option.some.injEq] at h'
        exact absurd h' hne

theorem CardSet.data_eq (set : CardSet κ) (p : Plugging κ) :
    set.data p = ((p.card 0).elim 0 fun k => (set.size k : Int) - 8) +
      (p.card 1).elim 0 fun k => (set.size k : Int) - 8 := by
  rw [data, slots_eq]
  simp

theorem CardSet.size_lt (set : CardSet κ) (k : κ) : set.size k < 2 ^ 32 :=
  (set.record k).size.toNat_lt

theorem CardSet.data_alone (set : CardSet κ) {p : Plugging κ} {k : κ} (hp : p.Alone k) :
    set.data p = (set.size k : Int) - 8 := by
  rw [set.data_eq]
  rcases hp with ⟨h₀, h₁⟩ | ⟨h₀, h₁⟩ <;> simp [h₀, h₁]

/-- A lone card takes the blocks behind what is ahead of it. -/
theorem CardSet.lands_alone_iff (set : CardSet κ) {p : Plugging κ} {k : κ} (hp : p.Alone k)
    (before : List Cards) (b : Nat) (k' : κ) (x : Nat) :
    Lands (set.walked p before) p.card b k' x ↔
      k' = k ∧ Reach (p.ahead before) (set.size k) b x := by
  unfold Lands Plugging.ahead CardSet.walked
  rcases hp with ⟨h₀, h₁⟩ | ⟨h₀, h₁⟩
  · simp [h₀, h₁, eq_comm]
  · simp [h₀, h₁, eq_comm]

/-- Two cards: the first slot is reached directly, the second one behind it. -/
theorem CardSet.lands_pair_iff (set : CardSet κ) {p : Plugging κ} {k k' : κ}
    (h₀ : p.card 0 = some k) (h₁ : p.card 1 = some k') (before : List Cards) (b : Nat)
    (c : κ) (x : Nat) :
    Lands (set.walked p before) p.card b c x ↔
      (c = k ∧ Reach 0 (set.size k) b x) ∨
        (c = k' ∧ Reach (set.size k) (set.size k') b x) := by
  unfold Lands CardSet.walked
  simp [h₀, h₁, eq_comm]

theorem toUlong_data (x : Int) : (toUlong (toInt32 x) : Int) = x % 2 ^ 32 := by
  rw [toUlong_toInt32, toUlong]
  omega

section Situations

variable {set : CardSet κ} {p₁ p₂ : Plugging κ} {before₁ before₂ : List Cards} {n : Nat}

/-- `LandsAlike` for a lone card. -/
theorem landsAlike_lone_iff {k : κ} (hp₁ : p₁.Alone k) (hp₂ : p₂.Alone k)
    (hn : (n : Int) = set.data p₁ % 2 ^ 32) :
    LandsAlike n (set.walked p₁ before₁) (set.walked p₂ before₂) p₁.card p₂.card ↔
      n = 0 ∨ 8 < set.size k ∧
        LoneAlike (set.size k) (p₁.ahead before₁) (p₂.ahead before₂) := by
  have hlt := set.size_lt k
  rw [set.data_alone hp₁] at hn
  have hland : LandsAlike n (set.walked p₁ before₁) (set.walked p₂ before₂) p₁.card p₂.card ↔
      ∀ b < n, ∃ x, Reach (p₁.ahead before₁) (set.size k) b x ∧
        Reach (p₂.ahead before₂) (set.size k) b x := by
    refine forall_congr' fun b => forall_congr' fun _ => ?_
    constructor
    · rintro ⟨k', x, h₁, h₂⟩
      rw [set.lands_alone_iff hp₁] at h₁
      rw [set.lands_alone_iff hp₂] at h₂
      exact ⟨x, h₁.2, h₂.2⟩
    · rintro ⟨x, h₁, h₂⟩
      exact ⟨k, x, (set.lands_alone_iff hp₁ _ _ _ _).mpr ⟨rfl, h₁⟩,
        (set.lands_alone_iff hp₂ _ _ _ _).mpr ⟨rfl, h₂⟩⟩
  rw [hland]
  by_cases hs : 8 < set.size k
  · have hns : n = set.size k - 8 := by omega
    rw [hns, reach_lone_iff hs]
    constructor
    · intro h
      exact Or.inr ⟨hs, h⟩
    · rintro (h | ⟨-, h⟩)
      · omega
      · exact h
  · constructor
    · intro h
      by_contra hno
      -- the first or the ninth block is past a card of at most eight
      obtain ⟨x, ⟨-, hx, hxa⟩, -⟩ := h 0 (by omega)
      split at hxa <;> omega
    · rintro (h | ⟨h, -⟩)
      · intro b hb
        omega
      · exact absurd h hs

/-- `LandsAlike` for two cards in their old slots. -/
theorem landsAlike_unmoved_iff {k k' : κ} (h₀ : p₁.card 0 = some k) (h₁ : p₁.card 1 = some k')
    (hp : p₂.card = p₁.card) (hn : (n : Int) = set.data p₁ % 2 ^ 32) :
    LandsAlike n (set.walked p₁ before₁) (set.walked p₂ before₂) p₁.card p₂.card ↔
      n = 0 ∨ 16 ≤ set.size k + set.size k' := by
  have h₀' : p₂.card 0 = some k := by rw [hp, h₀]
  have h₁' : p₂.card 1 = some k' := by rw [hp, h₁]
  have hne : k ≠ k' := p₁.ne_of_card h₀ h₁
  rw [set.data_eq, h₀, h₁] at hn
  rw [← reach_unmoved_iff (set.size_lt k) (set.size_lt k') hn]
  refine forall_congr' fun b => forall_congr' fun _ => ?_
  simp only [set.lands_pair_iff h₀ h₁, set.lands_pair_iff h₀' h₁', and_self]
  constructor
  · rintro ⟨c, x, ⟨-, h⟩ | ⟨-, h⟩⟩
    · exact ⟨x, Or.inl h⟩
    · exact ⟨x, Or.inr h⟩
  · rintro ⟨x, h | h⟩
    · exact ⟨k, x, Or.inl ⟨rfl, h⟩⟩
    · exact ⟨k', x, Or.inr ⟨rfl, h⟩⟩

/-- `LandsAlike` for two cards that changed places. -/
theorem landsAlike_swapped_iff {k k' : κ} (h₀ : p₁.card 0 = some k)
    (h₁ : p₁.card 1 = some k') (h₀' : p₂.card 0 = some k') (h₁' : p₂.card 1 = some k)
    (hn : (n : Int) = set.data p₁ % 2 ^ 32) :
    LandsAlike n (set.walked p₁ before₁) (set.walked p₂ before₂) p₁.card p₂.card ↔
      n = 0 ∨ Vacant (set.size k') (set.size k) ∨ Vacant (set.size k) (set.size k') := by
  have hne : k ≠ k' := p₁.ne_of_card h₀ h₁
  rw [set.data_eq, h₀, h₁] at hn
  rw [← reach_swapped_iff (set.size_lt k) (set.size_lt k') hn]
  refine forall_congr' fun b => forall_congr' fun _ => ?_
  simp only [set.lands_pair_iff h₀ h₁, set.lands_pair_iff h₀' h₁']
  constructor
  · rintro ⟨c, x, ⟨rfl, h⟩ | ⟨rfl, h⟩, ⟨hc, h'⟩ | ⟨hc, h'⟩⟩
    · exact absurd hc hne
    · exact ⟨x, Or.inl ⟨h, h'⟩⟩
    · exact ⟨x, Or.inr ⟨h, h'⟩⟩
    · exact absurd hc.symm hne
  · rintro ⟨x, ⟨h, h'⟩ | ⟨h, h'⟩⟩
    · exact ⟨k, x, Or.inl ⟨rfl, h⟩, Or.inr ⟨rfl, h'⟩⟩
    · exact ⟨k', x, Or.inr ⟨rfl, h⟩, Or.inl ⟨rfl, h'⟩⟩

end Situations

theorem Plugging.Alone.not_pair {p : Plugging κ} {k c c' : κ} (h : p.Alone k)
    (h₀ : p.card 0 = some c) (h₁ : p.card 1 = some c') : False := by
  rcases h with ⟨h₀', h₁'⟩ | ⟨h₀', h₁'⟩ <;> simp_all

/-- The joined capacity does not depend on the ports. -/
theorem CardSet.data_comm (set : CardSet κ) (p₁ p₂ : Plugging κ) :
    set.data p₁ = set.data p₂ := by
  rcases p₁.pair_cases p₂ with ⟨h₁, h₂⟩ | ⟨k, h₁, h₂⟩ | ⟨k, k', -, -, hp⟩ |
    ⟨k, k', h₀, h₁, h₀', h₁'⟩
  · rw [set.data_eq, set.data_eq, h₁, h₁, h₂, h₂]
  · rw [set.data_alone h₁, set.data_alone h₂]
  · rw [set.data_eq, set.data_eq, hp]
  · rw [set.data_eq, set.data_eq, h₀, h₁, h₀', h₁']
    simp only [Option.elim_some]
    omega

/-- `LandsAlike`, in each of the situations two assignments can be in. -/
theorem landsAlike_iff (set : CardSet κ) (p₁ p₂ : Plugging κ) (before₁ before₂ : List Cards)
    {n : Nat} (hn : (n : Int) = set.data p₁ % 2 ^ 32) :
    LandsAlike n (set.walked p₁ before₁) (set.walked p₂ before₂) p₁.card p₂.card ↔
      MapsAlike set p₁ p₂ before₁ before₂ := by
  have hzero : n = 0 → MapsAlike set p₁ p₂ before₁ before₂ := by
    rintro rfl
    exact .nothing hn.symm
  rcases p₁.pair_cases p₂ with ⟨h₁, h₂⟩ | ⟨k, hp₁, hp₂⟩ | ⟨k, k', h₀, h₁, hp⟩ |
    ⟨k, k', h₀, h₁, h₀', h₁'⟩
  · rw [set.data_eq, h₁, h₁] at hn
    have hn0 : n = 0 := by simpa using hn
    refine iff_of_true ?_ (hzero hn0)
    rintro b hb
    omega
  · rw [landsAlike_lone_iff hp₁ hp₂ hn]
    constructor
    · rintro (h | ⟨hs, h⟩)
      · exact hzero h
      · exact .lone k hp₁ hp₂ hs h
    · intro h
      cases h with
      | nothing hdata => exact Or.inl (by omega)
      | lone c hc₁ hc₂ hs h =>
        obtain rfl := hp₁.eq c
        exact Or.inr ⟨hs, h⟩
      | unmoved c c' h₀ h₁ => exact absurd h₁ (hp₁.not_pair h₀)
      | swapped c c' h₀ h₁ => exact absurd h₁ (hp₁.not_pair h₀)
  · rw [landsAlike_unmoved_iff h₀ h₁ hp hn]
    constructor
    · rintro (h | h)
      · exact hzero h
      · exact .unmoved k k' h₀ h₁ hp h
    · intro h
      cases h with
      | nothing hdata => exact Or.inl (by omega)
      | lone c hc => exact absurd h₁ (hc.not_pair h₀)
      | unmoved c c' hc₀ hc₁ _ hdata =>
        rw [h₀, Option.some.injEq] at hc₀
        rw [h₁, Option.some.injEq] at hc₁
        subst hc₀ hc₁
        exact Or.inr hdata
      | swapped c c' hc₀ hc₁ hc₀' =>
        rw [hp, hc₀, Option.some.injEq] at hc₀'
        exact absurd hc₀' (p₁.ne_of_card hc₀ hc₁)
  · rw [landsAlike_swapped_iff h₀ h₁ h₀' h₁' hn]
    constructor
    · rintro (h | h)
      · exact hzero h
      · exact .swapped k k' h₀ h₁ h₀' h₁' h
    · intro h
      cases h with
      | nothing hdata => exact Or.inl (by omega)
      | lone c hc => exact absurd h₁ (hc.not_pair h₀)
      | unmoved c c' hc₀ hc₁ hp =>
        rw [hp, h₀, Option.some.injEq] at h₀'
        exact absurd h₀' (p₁.ne_of_card h₀ h₁)
      | swapped c c' hc₀ hc₁ _ _ hvacant =>
        rw [h₀, Option.some.injEq] at hc₀
        rw [h₁, Option.some.injEq] at hc₁
        subst hc₀ hc₁
        exact Or.inr hvacant

/-- **When the ports do not matter.**  For every set of cards, two assignments to the
slots and two histories of earlier sweeps, all logical blocks go to the same place
exactly when `MapsAlike` holds. -/
theorem portIndependent_iff (set : CardSet κ) (p₁ p₂ : Plugging κ)
    (before₁ before₂ : List Cards) :
    PortIndependent (sweepAfter before₁ (set.cards p₁)) (sweepAfter before₂ (set.cards p₂))
      p₁ p₂ ↔ MapsAlike set p₁ p₂ before₁ before₂ := by
  have htotal : (sweepAfter before₁ (set.cards p₁)).total =
      (sweepAfter before₂ (set.cards p₂)).total := by
    rw [set.total_sweepAfter, set.total_sweepAfter, set.data_comm p₁ p₂]
  rw [portIndependent_iff_lands p₁ p₂ htotal]
  simp only [set.size_sweepAfter]
  refine landsAlike_iff set p₁ p₂ before₁ before₂ ?_
  rw [set.total_sweepAfter, toUlong_data]

/-- Cards 0 and 1 of 1024 blocks. -/
def numberedPair : CardSet Bool where
  record k := if k then ⟨buId, 1024, 0x1002, 1⟩ else ⟨buId, 1024, 0x1001, 0⟩
  marked := by decide
  number_lt := by decide
  number_injective := by decide
  serial_injective := by decide

/-- Card 0 in the first port and card 1 in the second. -/
def inOrder : Plugging Bool where
  card j := some (j = 1)
  once := by
    unfold ExistsUnique
    decide

/-- The two cards changed over. -/
def changedOver : Plugging Bool where
  card j := some (j = 0)
  once := by
    unfold ExistsUnique
    decide

/-- **The ports matter.**  After the cards of a pair changed places, logical block 0
is on card 1. -/
theorem not_portIndependent_changedOver :
    ¬ PortIndependent (sweepAfter [] (numberedPair.cards inOrder))
      (sweepAfter [numberedPair.cards inOrder] (numberedPair.cards changedOver))
      inOrder changedOver := by
  intro h
  obtain ⟨place, h₁, h₂⟩ := h 0 (Or.inl (by decide))
  have hfirst : (sweepAfter [] (numberedPair.cards inOrder)).cardOf inOrder 0 =
      some (false, 8) := by decide
  have hsecond : (sweepAfter [numberedPair.cards inOrder]
      (numberedPair.cards changedOver)).cardOf changedOver 0 = some (true, 8) := by decide
  rw [hfirst] at h₁
  rw [hsecond, ← h₁] at h₂
  exact absurd h₂ (by decide)

end MemoryCard
end Blackroo
