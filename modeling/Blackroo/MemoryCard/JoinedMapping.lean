import Blackroo.MemoryCard.Sweep

/-!
# When the joined device addresses its cards

`JoinedMapping` is what the joined device promises after a sweep: a logical block
below `bu_total` goes to an accepted card, past the reserved blocks and inside the
card, no two logical blocks share a card block, and the advertised size does not
exceed `bu_total`.

The slot loop keeps that promise for some contents of the slots and breaks it for
others, because it walks the *recorded* sizes.  `joinedMapping_iff` is the exact
condition on the history of card contents.  The proof first moves the walk from
`__u16` and `__u32` to natural numbers (`walk`), where the wrap-around at `65536`
is an explicit remainder, and then compares it with the sum of the accepted sizes.

The walk does not ask which slots were accepted.  It goes past a rejected card by the size recorded
on it, and past a slot that has become empty by that of the card that was there, so such a record in
front of an accepted card takes blocks away from it (`size_zero_of_served`), unless it stands for no
data blocks.  The other limit is the width of a card block: beyond 65535 it starts again at 0, among
the reserved blocks.
-/

namespace Blackroo
namespace MemoryCard

/-- The promise of the joined device. -/
structure JoinedMapping (d : Joined) : Prop where
  /-- a block below `bu_total` goes to an accepted card, inside its data blocks -/
  mapped : ∀ b, d.below b → ∃ j block, d.locate b = some (j, block) ∧
    d.accepted j = true ∧ 8 ≤ block.toNat ∧ block.toNat < (d.firstBlock j).size.toNat
  /-- two blocks below `bu_total` never share a card block -/
  injective : ∀ b b', d.below b → d.below b' → b ≠ b' → d.locate b ≠ d.locate b'
  /-- the advertised KB, in blocks, stay within `bu_total` -/
  advertised : d.sizes 0 * 8 ≤ d.total

/-! ## The walk in natural numbers -/

/-- `slotLoop` on natural numbers, with the `__u16` wrap-around written out. -/
def walk (size : Slot → Nat) : List Slot → Nat → Option (Slot × Nat)
  | [], _ => none
  | j :: js, block =>
    if 0 < size j then
      if (block + 8) % 65536 < size j then some (j, (block + 8) % 65536)
      else walk size js ((block + 8) % 65536 - size j)
    else walk size js block

theorem slotLoop_toNat (size : Slot → UInt32) (js : List Slot) (block : UInt16) :
    (slotLoop size js block).map (fun p => (p.1, p.2.toNat)) =
      walk (fun j => (size j).toNat) js block.toNat := by
  induction js generalizing block with
  | nil => rfl
  | cons j js ih =>
    have hadd : (block + 8).toNat = (block.toNat + 8) % 65536 := by
      rw [UInt16.toNat_add]
      rfl
    have hpos : size j > 0 ↔ 0 < (size j).toNat := UInt32.lt_iff_toNat_lt
    have hlt : (block + 8).toUInt32 < size j ↔ (block + 8).toNat < (size j).toNat := by
      rw [UInt32.lt_iff_toNat_lt, UInt16.toNat_toUInt32]
    rw [slotLoop, walk]
    by_cases h₀ : 0 < (size j).toNat
    · rw [if_pos (hpos.mpr h₀), if_pos h₀]
      by_cases h₁ : (block + 8).toNat < (size j).toNat
      · simp only [hlt.mpr h₁, if_true, ← hadd, h₁, Option.map_some]
      · simp only [hlt, h₁, if_false, ← hadd, ih]
        congr 1
        have h16 := (block + 8).toNat_lt
        rw [UInt32.toNat_toUInt16, UInt32.toNat_sub_of_le, UInt16.toNat_toUInt32]
        · omega
        · rw [UInt32.le_iff_toNat_le, UInt16.toNat_toUInt32]
          omega
    · rw [if_neg (fun h => h₀ (hpos.mp h)), if_neg h₀, ih]

/-- The walk of a logical block, in natural numbers. -/
theorem locate_toNat (d : Joined) (b : UInt32) :
    (d.locate b).map (fun p => (p.1, p.2.toNat)) =
      walk (fun j => (d.firstBlock j).size.toNat) [0, 1] (b.toNat % 65536) := by
  rw [Joined.locate, slotLoop_toNat, slots_eq, UInt32.toNat_toUInt16]

/-- The walk over the two slots, for a block past which nothing wraps in slot 0. -/
theorem walk_two (size : Slot → Nat) {b : Nat} (hb : b + 8 < 65536) :
    walk size [0, 1] b =
      if 0 < size 0 then
        if b + 8 < size 0 then some (0, b + 8)
        else walk size [1] (b + 8 - size 0)
      else walk size [1] b := by
  rw [walk, Nat.mod_eq_of_lt hb]

theorem walk_one (size : Slot → Nat) {b : Nat} (hb : b + 8 < 65536) (hs : b + 8 < size 1) :
    walk size [1] b = some (1, b + 8) := by
  rw [walk, Nat.mod_eq_of_lt hb, if_pos (by omega), if_pos hs]

/-- Where the card block wraps, the walk never lands among the data blocks. -/
theorem walk_wrap (size : Slot → Nat) (js : List Slot) {j : Slot} {x : Nat}
    (h : walk size js 65528 = some (j, x)) : x = 0 := by
  induction js with
  | nil => simp [walk] at h
  | cons k js ih =>
    rw [walk] at h
    by_cases hk : 0 < size k
    · simp only [hk, if_true, show (65528 + 8) % 65536 = 0 from rfl, Option.some.injEq,
        Prod.mk.injEq] at h
      exact h.2.symm
    · rw [if_neg hk] at h
      exact ih h

/-- A block goes to an accepted card, past the reserved blocks and inside it. -/
def Served (size : Slot → Nat) (acc : Slot → Bool) (b : Nat) : Prop :=
  ∃ j x, walk size [0, 1] (b % 65536) = some (j, x) ∧ acc j = true ∧ 8 ≤ x ∧ x < size j

/-- `JoinedMapping` in natural numbers. -/
theorem joinedMapping_iff_served (d : Joined) :
    JoinedMapping d ↔
      (∀ b < toUlong d.total, Served (fun j => (d.firstBlock j).size.toNat) d.accepted b) ∧
      (∀ b < toUlong d.total, ∀ b' < toUlong d.total, b ≠ b' →
        walk (fun j => (d.firstBlock j).size.toNat) [0, 1] (b % 65536) ≠
          walk (fun j => (d.firstBlock j).size.toNat) [0, 1] (b' % 65536)) ∧
      d.sizes 0 * 8 ≤ d.total := by
  have hlt : toUlong d.total < 2 ^ 32 := by
    rw [toUlong]
    omega
  have hnat : ∀ b < toUlong d.total, (UInt32.ofNat b).toNat = b := fun b hb =>
    UInt32.toNat_ofNat_of_lt' (lt_trans hb hlt)
  constructor
  · intro h
    refine ⟨fun b hb => ?_, fun b hb b' hb' hne heq => ?_, h.advertised⟩
    · have hbelow : d.below (UInt32.ofNat b) := by
        rw [Joined.below, hnat b hb]
        exact hb
      obtain ⟨j, block, hloc, hacc, h8, hsize⟩ := h.mapped _ hbelow
      have hw := locate_toNat d (UInt32.ofNat b)
      rw [hloc, hnat b hb, Option.map_some] at hw
      exact ⟨j, block.toNat, hw.symm, hacc, h8, hsize⟩
    · have hbelow : d.below (UInt32.ofNat b) := by
        rw [Joined.below, hnat b hb]
        exact hb
      have hbelow' : d.below (UInt32.ofNat b') := by
        rw [Joined.below, hnat b' hb']
        exact hb'
      have hne' : UInt32.ofNat b ≠ UInt32.ofNat b' := fun hh =>
        hne (by rw [← hnat b hb, hh, hnat b' hb'])
      refine h.injective _ _ hbelow hbelow' hne' ?_
      have hmap := (locate_toNat d (UInt32.ofNat b)).trans
        ((by rw [hnat b hb, hnat b' hb', heq] : _ = _).trans
          (locate_toNat d (UInt32.ofNat b')).symm)
      refine Option.map_injective ?_ hmap
      rintro ⟨j, x⟩ ⟨j', x'⟩ hp
      simp only [Prod.mk.injEq] at hp
      exact Prod.ext hp.1 (UInt16.toNat_inj.mp hp.2)
  · rintro ⟨hserved, hinj, hadv⟩
    refine ⟨fun b hb => ?_, fun b b' hb hb' hne heq => ?_, hadv⟩
    · obtain ⟨j, x, hw, hacc, h8, hsize⟩ := hserved b.toNat hb
      rw [← locate_toNat d b, Option.map_eq_some_iff] at hw
      obtain ⟨⟨j', block⟩, hloc, hp⟩ := hw
      simp only [Prod.mk.injEq] at hp
      obtain ⟨rfl, rfl⟩ := hp
      exact ⟨j', block, hloc, hacc, h8, hsize⟩
    · refine hinj b.toNat hb b'.toNat hb' (fun hh => hne (UInt32.toNat_inj.mp hh)) ?_
      rw [← locate_toNat d b, ← locate_toNat d b', heq]

/-! ## What breaks the promise -/

section Necessary

variable {size : Slot → Nat} {acc : Slot → Bool}

/-- No block past `65527` is served, since its card block wraps to 0. -/
theorem le_of_served {n : Nat} (h : ∀ b < n, Served size acc b) : n ≤ 65528 := by
  by_contra hn
  obtain ⟨j, x, hw, -, h8, -⟩ := h 65528 (by omega)
  have hx := walk_wrap size [0, 1] hw
  omega

/-- A rejected card in slot 0 is still walked past: unless its recorded size is 0
or 8, some block of slot 1 is lost or goes to the rejected card. -/
theorem size_zero_of_served {n : Nat} (h : ∀ b < n, Served size acc b) (h₀ : acc 0 = false)
    (hn : size 1 = n + 8) (hpos : 0 < n) : size 0 = 0 ∨ size 0 = 8 := by
  have hle := le_of_served h
  have hfirst := h 0 hpos
  have hlast := h (n - 1) (by omega)
  by_contra hsize
  have hs0 : 0 < size 0 := by omega
  -- block 0 shows that the recorded size is below the first data block
  have hs8 : size 0 < 8 := by
    by_contra hge
    obtain ⟨j, x, hw, hacc, -, -⟩ := hfirst
    rw [walk_two size (by omega), if_pos hs0, if_pos (by omega), Option.some.injEq,
      Prod.mk.injEq] at hw
    rw [← hw.1, h₀] at hacc
    exact absurd hacc (by decide)
  -- and then the last block overshoots slot 1
  obtain ⟨j, x, hw, -, h8, -⟩ := hlast
  rw [Nat.mod_eq_of_lt (by omega), walk_two size (by omega), if_pos hs0, if_neg (by omega),
    walk, if_pos (by omega)] at hw
  by_cases hwrap : n - 1 + 8 - size 0 + 8 < 65536
  · rw [Nat.mod_eq_of_lt hwrap, if_neg (by omega), walk] at hw
    exact absurd hw (by simp)
  · rw [if_pos (by omega), Option.some.injEq, Prod.mk.injEq] at hw
    omega

/-- An accepted card of fewer than eight blocks pushes the blocks of slot 1 up, and
past `65536` they wrap. -/
theorem size_one_le_of_served {n : Nat} (h : ∀ b < n, Served size acc b)
    (hn : size 0 + size 1 = n + 16) (hs0 : 0 < size 0) (hs8 : size 0 < 8) :
    size 1 ≤ 65536 := by
  by_contra hgt
  obtain ⟨j, x, hw, -, h8, -⟩ := h (65520 + size 0) (by omega)
  rw [Nat.mod_eq_of_lt (by omega), walk_two size (by omega), if_pos hs0, if_neg (by omega),
    show 65520 + size 0 + 8 - size 0 = 65528 by omega] at hw
  have hx := walk_wrap size [1] hw
  omega

end Necessary

/-! ## What keeps it -/

/-- The recorded sizes and the accepted slots agree about `n` data blocks. -/
inductive SizesAgree (size : Slot → Nat) (acc : Slot → Bool) (n : Nat) : Prop
  /-- only slot 0 counts; the walk never leaves it -/
  | zero (h₀ : acc 0 = true) (hn : size 0 = n + 8)
  /-- only slot 1 counts, and slot 0 takes no block away -/
  | one (h₁ : acc 1 = true) (hn : size 1 = n + 8) (hs : 0 < n → size 0 = 0 ∨ size 0 = 8)
      (h₀ : acc 0 = false)
  /-- both slots count -/
  | both (h₀ : acc 0 = true) (h₁ : acc 1 = true) (hn : size 0 + size 1 = n + 16)
      (hs : 0 < size 0 → size 0 < 8 → size 1 ≤ 65536)
  | empty (hn : n = 0)

/-- The card block the walk reaches in slot 1. -/
def slotOneBlock (size : Slot → Nat) (b : Nat) : Nat :=
  if size 0 = 0 then b + 8 else b + 16 - size 0

section Sufficient

variable {size : Slot → Nat} {acc : Slot → Bool} {n b : Nat}

/-- A block of slot 0 is served there. -/
theorem walk_slot_zero (hb : b + 8 < size 0) (hwrap : b + 8 < 65536) :
    walk size [0, 1] (b % 65536) = some (0, b + 8) := by
  rw [Nat.mod_eq_of_lt (by omega), walk_two size hwrap, if_pos (by omega), if_pos hb]

/-- A block past slot 0 is served in slot 1. -/
theorem walk_slot_one (hb : size 0 ≤ b + 8) (hwrap : b + 8 < 65536)
    (hx : slotOneBlock size b < 65536) (hlt : slotOneBlock size b < size 1) :
    walk size [0, 1] (b % 65536) = some (1, slotOneBlock size b) := by
  rw [Nat.mod_eq_of_lt (by omega), walk_two size hwrap]
  unfold slotOneBlock at hx hlt ⊢
  by_cases hz : size 0 = 0
  · rw [if_pos hz] at hx hlt ⊢
    rw [if_neg (by omega), walk_one size hx hlt]
  · rw [if_neg hz] at hx hlt ⊢
    rw [if_pos (by omega), if_neg (by omega),
      walk_one size (by omega : b + 8 - size 0 + 8 < 65536) (by omega)]
    congr 2
    omega

/-- Where block `b` goes when the sizes agree: slot 0 as long as it is accepted and
has room, slot 1 after that. -/
theorem walk_of_agree (hn : n ≤ 65528) (h : SizesAgree size acc n) (hb : b < n) :
    (acc 0 = true ∧ b + 8 < size 0 ∧ walk size [0, 1] (b % 65536) = some (0, b + 8)) ∨
      (acc 1 = true ∧ size 0 ≤ b + 8 ∧ slotOneBlock size b < size 1 ∧
        walk size [0, 1] (b % 65536) = some (1, slotOneBlock size b)) := by
  have hwrap : b + 8 < 65536 := by omega
  cases h with
  | zero h₀ hs => exact Or.inl ⟨h₀, by omega, walk_slot_zero (by omega) hwrap⟩
  | one h₁ hs hz _ =>
    have hz := hz (by omega)
    have hx : slotOneBlock size b = b + 8 := by
      unfold slotOneBlock
      split <;> omega
    refine Or.inr ⟨h₁, by omega, by omega, ?_⟩
    exact walk_slot_one (by omega) hwrap (by omega) (by omega)
  | both h₀ h₁ hs hsmall =>
    by_cases hroom : b + 8 < size 0
    · exact Or.inl ⟨h₀, hroom, walk_slot_zero hroom hwrap⟩
    · have hx : slotOneBlock size b < size 1 ∧ slotOneBlock size b < 65536 := by
        unfold slotOneBlock
        split
        · omega
        · have := hsmall (by omega)
          omega
      exact Or.inr ⟨h₁, by omega, hx.1, walk_slot_one (by omega) hwrap hx.2 hx.1⟩
  | empty hz => omega

theorem served_of_agree (hn : n ≤ 65528) (h : SizesAgree size acc n) (hb : b < n) :
    Served size acc b := by
  rcases walk_of_agree hn h hb with ⟨h₀, hroom, hw⟩ | ⟨h₁, hpast, hroom, hw⟩
  · exact ⟨0, b + 8, hw, h₀, by omega, hroom⟩
  · refine ⟨1, slotOneBlock size b, hw, h₁, ?_, hroom⟩
    unfold slotOneBlock
    split <;> omega

/-- Two blocks never meet: the walk is increasing within a slot. -/
theorem walk_ne_of_agree {b' : Nat} (hn : n ≤ 65528) (h : SizesAgree size acc n) (hb : b < n)
    (hb' : b' < n) (hne : b ≠ b') :
    walk size [0, 1] (b % 65536) ≠ walk size [0, 1] (b' % 65536) := by
  intro heq
  rcases walk_of_agree hn h hb with ⟨-, -, hw⟩ | ⟨-, hp, -, hw⟩ <;>
    rcases walk_of_agree hn h hb' with ⟨-, -, hw'⟩ | ⟨-, hp', -, hw'⟩ <;>
    rw [hw, hw', Option.some.injEq, Prod.mk.injEq] at heq
  · omega
  · exact absurd heq.1 (by decide)
  · exact absurd heq.1 (by decide)
  · have hx := heq.2
    unfold slotOneBlock at hx
    split at hx <;> omega

end Sufficient

/-! ## The exact condition on the cards -/

/-- The condition on a history of card contents: the accepted cards of the last
sweep hold between 0 and `65528` data blocks; a slot 0 that was not accepted, below
an accepted slot 1 with data blocks, has a recorded size of 0 (or of 8, which shifts
nothing); and an accepted card of one to seven blocks in slot 0 stands before a card
of at most `65536`. -/
def CardsAgree (boot : Cards) (later : List Cards) : Prop :=
  let cards := lastCards boot later
  let acc := accepts (!later.isEmpty) cards
  let stale := (recorded (boot :: later) 0).size.toNat
  (0 ≤ dataBlocks acc cards ∧ dataBlocks acc cards ≤ 65528) ∧
    (acc 0 = false → acc 1 = true → 8 < (cardSize cards 1).toNat → stale = 0 ∨ stale = 8) ∧
    (acc 0 = true → acc 1 = true → 0 < (cardSize cards 0).toNat →
      (cardSize cards 0).toNat < 8 → (cardSize cards 1).toNat ≤ 65536)

/-- An accepted slot holds the card the last sweep read. -/
theorem size_of_accepts {bySerial : Bool} {cards : Cards} {before after : Joined}
    (h : Swept bySerial cards before after) {j : Slot} (hj : accepts bySerial cards j = true) :
    (after.firstBlock j).size = cardSize cards j := by
  have hid : (identified cards j).isSome := by
    unfold accepts claimable at hj
    cases hi : identified cards j with
    | none => simp [hi] at hj
    | some b => rfl
  obtain ⟨b, hb⟩ := Option.isSome_iff_exists.mp hid
  rw [h.firstBlock, cardSize, hb, Option.getD_some, Option.getD_some]

/-- The sums of a sweep, over the recorded sizes. -/
theorem Swept.data {bySerial : Bool} {cards : Cards} {before after : Joined}
    (h : Swept bySerial cards before after) :
    dataBlocks (accepts bySerial cards) cards =
      (if accepts bySerial cards 0 then ((after.firstBlock 0).size.toNat : Int) - 8 else 0) +
        (if accepts bySerial cards 1 then ((after.firstBlock 1).size.toNat : Int) - 8 else 0) ∧
    dataKb (accepts bySerial cards) cards =
      (if accepts bySerial cards 0 then ((after.firstBlock 0).size.toNat / 8 : Int) - 1 else 0) +
        (if accepts bySerial cards 1 then ((after.firstBlock 1).size.toNat / 8 : Int) - 1
          else 0) := by
  have hsize : ∀ j, accepts bySerial cards j = true →
      (after.firstBlock j).size = cardSize cards j := fun j => size_of_accepts h
  rw [dataBlocks_eq, dataKb_eq]
  constructor <;> congr 1 <;> refine if_ctx_congr Iff.rfl (fun hj => ?_) (fun _ => rfl) <;>
    rw [hsize _ hj]

/-- The `unsigned` reading of `bu_total` is the number of data blocks as soon as it
is small and the advertised size does not exceed it. -/
theorem data_of_small {T K : Int} (hT : -16 ≤ T) (hT' : T < 2 ^ 33) (hK : T - 14 ≤ K * 8)
    (hU : toUlong (toInt32 T) ≤ 65528) (hadv : K * 8 ≤ toInt32 T) :
    T = toUlong (toInt32 T) := by
  have h32 : toInt32 T = toUlong (toInt32 T) := by
    rw [toUlong_toInt32, toUlong] at hU ⊢
    rw [toInt32, Int.bmod_def]
    split <;> omega
  rw [h32] at hadv
  rw [toUlong_toInt32, toUlong] at hU hadv ⊢
  omega

/-- The condition in natural numbers: which recorded sizes and accepted slots the
walk serves. -/
theorem served_iff {size : Slot → Nat} {acc : Slot → Bool} {T K : Int}
    (hlt₀ : size 0 < 2 ^ 32) (hlt₁ : size 1 < 2 ^ 32)
    (hT : T = (if acc 0 then (size 0 : Int) - 8 else 0) + (if acc 1 then (size 1 : Int) - 8 else 0))
    (hK : K = (if acc 0 then (size 0 / 8 : Int) - 1 else 0) +
      (if acc 1 then (size 1 / 8 : Int) - 1 else 0)) :
    ((∀ b < toUlong (toInt32 T), Served size acc b) ∧
      (∀ b < toUlong (toInt32 T), ∀ b' < toUlong (toInt32 T), b ≠ b' →
        walk size [0, 1] (b % 65536) ≠ walk size [0, 1] (b' % 65536)) ∧
      K * 8 ≤ toInt32 T) ↔
    (0 ≤ T ∧ T ≤ 65528) ∧
      (acc 0 = false → acc 1 = true → 8 < size 1 → size 0 = 0 ∨ size 0 = 8) ∧
      (acc 0 = true → acc 1 = true → 0 < size 0 → size 0 < 8 → size 1 ≤ 65536) := by
  constructor
  · rintro ⟨hserved, -, hadv⟩
    have hle := le_of_served hserved
    have hTU : T = toUlong (toInt32 T) := by
      refine data_of_small ?_ ?_ ?_ hle hadv <;> cases h₀ : acc 0 <;> cases h₁ : acc 1 <;>
        simp only [h₀, h₁, Bool.false_eq_true, if_true, if_false] at hT hK <;> omega
    refine ⟨by omega, fun h₀ h₁ h8 => ?_, fun h₀ h₁ hs0 hs8 => ?_⟩
    · simp only [h₀, h₁, Bool.false_eq_true, if_true, if_false] at hT
      exact size_zero_of_served hserved h₀ (by omega) (by omega)
    · simp only [h₀, h₁, if_true] at hT
      exact size_one_le_of_served hserved (by omega) hs0 hs8
  · rintro ⟨⟨hpos, hle⟩, hstale, hsmall⟩
    have h32 : toInt32 T = T := toInt32_of_range (by omega) (by omega)
    have hU : (toUlong (toInt32 T) : Int) = T := by
      rw [h32]
      exact toUlong_of_range hpos (by omega)
    have hn : toUlong (toInt32 T) ≤ 65528 := by omega
    have hagree : SizesAgree size acc (toUlong (toInt32 T)) := by
      cases h₀ : acc 0 <;> cases h₁ : acc 1 <;>
        simp only [h₀, h₁, Bool.false_eq_true, if_true, if_false] at hT
      · exact .empty (by omega)
      · exact .one h₁ (by omega) (fun _ => hstale h₀ h₁ (by omega)) h₀
      · exact .zero h₀ (by omega)
      · exact .both h₀ h₁ (by omega) (hsmall h₀ h₁)
    refine ⟨fun b hb => served_of_agree hn hagree hb, fun b hb b' hb' hne =>
      walk_ne_of_agree hn hagree hb hb' hne, ?_⟩
    rw [h32]
    cases h₀ : acc 0 <;> cases h₁ : acc 1 <;>
      simp only [h₀, h₁, Bool.false_eq_true, if_true, if_false] at hT hK <;> omega

/-- **The joined device keeps its promise exactly when the cards agree.**  After any
history of sweeps the mapping of logical blocks is sound if and only if `CardsAgree`
holds of the contents the sweeps found. -/
theorem joinedMapping_iff (boot : Cards) (later : List Cards) :
    JoinedMapping (runSweeps boot later) ↔ CardsAgree boot later := by
  obtain ⟨before, hsw⟩ := runSweeps_swept boot later
  obtain ⟨hdata, hkb⟩ := hsw.data
  have hacc : (runSweeps boot later).accepted =
      accepts (!later.isEmpty) (lastCards boot later) := funext hsw.accepted
  have hcore := @served_iff (fun j => ((runSweeps boot later).firstBlock j).size.toNat) _ _ _
    ((runSweeps boot later).firstBlock 0).size.toNat_lt
    ((runSweeps boot later).firstBlock 1).size.toNat_lt hdata hkb
  rw [joinedMapping_iff_served, hsw.total, hsw.advertised, hacc, hcore]
  unfold CardsAgree
  -- the recorded sizes of the accepted slots are those of the cards just read
  refine and_congr Iff.rfl (and_congr ?_ ?_)
  · refine forall_congr' fun _ => forall_congr' fun h₁ => ?_
    rw [size_of_accepts hsw h₁, runSweeps_firstBlock]
  · refine forall_congr' fun h₀ => forall_congr' fun h₁ => ?_
    rw [size_of_accepts hsw h₀, size_of_accepts hsw h₁]

/-- Cards 0 and 1 of 1024 blocks in their slots at boot. -/
def bootPair : Cards := fun i =>
  some (if i = 0 then ⟨buId, 1024, 0x1001, 0⟩ else ⟨buId, 1024, 0x1002, 1⟩)

/-- The same slots after the card of slot 0 was pulled out. -/
def firstPulled : Cards := fun i => if i = 0 then none else bootPair i

/-- **A pulled card stays in the walk.**  With both cards present at boot and the
first one removed before the next sweep, logical block 0 is sent to the empty
slot. -/
theorem not_joinedMapping_firstPulled : ¬ JoinedMapping (runSweeps bootPair [firstPulled]) := by
  intro h
  obtain ⟨j, block, hloc, hacc, -, -⟩ := h.mapped 0 (by decide)
  have hloc' : (runSweeps bootPair [firstPulled]).locate 0 = some (0, 8) := by decide
  rw [hloc', Option.some.injEq, Prod.mk.injEq] at hloc
  rw [← hloc.1] at hacc
  exact absurd hacc (by decide)

end MemoryCard
end Blackroo
