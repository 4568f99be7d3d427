import Mathlib.Data.Nat.Bitwise
import Mathlib.Data.Set.Lattice
import Mathlib.Order.CompletePartialOrder

/-!
# Dyadic blocks

A block of order `o` is one of the intervals of `2 ^ o` numbers that the numbers fall into when
they are divided by `2 ^ o`; it has the quotient as its number.  Two blocks are disjoint, or one
is inside the other, and the blocks `2 * i` and `2 * i + 1` of one order are the halves of block
`i` of the next.

A family gives for every order the numbers of some blocks.  If it never has both halves of a
block, then it has no choice: a block whose numbers are all in blocks of the family is itself
inside one of them (`exists_of_block_subset`).  So a block is available whenever all its
numbers are, and looking through the blocks of the family finds it.
-/

namespace Dyadic

/-- Block `i` of order `o`. -/
def block (o i : Nat) : Set Nat := {x | x / 2 ^ o = i}

theorem mem_block {o i x : Nat} : x ∈ block o i ↔ x / 2 ^ o = i := Iff.rfl

theorem mem_block_iff {o i x : Nat} : x ∈ block o i ↔ i * 2 ^ o ≤ x ∧ x < i * 2 ^ o + 2 ^ o := by
  rw [mem_block, Nat.div_eq_iff (Nat.two_pow_pos o)]
  have := Nat.two_pow_pos o
  omega

theorem mul_mem_block (o i : Nat) : i * 2 ^ o ∈ block o i :=
  Nat.mul_div_cancel i (Nat.two_pow_pos o)

/-- The two halves of a block. -/
theorem block_succ (o i : Nat) : block (o + 1) i = block o (2 * i) ∪ block o (2 * i + 1) := by
  ext x
  rw [Set.mem_union, mem_block, mem_block, mem_block, Nat.pow_succ, ← Nat.div_div_eq_div_mul]
  omega

theorem block_disjoint {o i j : Nat} (h : i ≠ j) : Disjoint (block o i) (block o j) :=
  Set.disjoint_left.mpr fun _ hi hj => h (hi.symm.trans hj)

/-- The other half of the block that a block is a half of. -/
def buddy (i : Nat) : Nat := i ^^^ 1

theorem buddy_eq (i : Nat) : buddy i = if i % 2 = 0 then i + 1 else i - 1 := by
  rw [buddy]
  have hmod : (i ^^^ 1) % 2 = (i + 1) % 2 := Nat.xor_mod_two_eq
  have hdiv : (i ^^^ 1) / 2 = i / 2 := by
    rw [Nat.xor_div_two]
    exact Nat.xor_zero _
  split <;> omega

theorem block_buddy (o i : Nat) : block (o + 1) (i / 2) = block o i ∪ block o (buddy i) := by
  rw [block_succ, buddy_eq]
  rcases Nat.mod_two_eq_zero_or_one i with h | h
  · rw [if_pos h, show 2 * (i / 2) = i by omega]
  · rw [if_neg (by omega), show 2 * (i / 2) + 1 = i by omega, show 2 * (i / 2) = i - 1 by omega,
      Set.union_comm]

/-- Numbers of blocks, for every order. -/
abbrev Family : Type := Nat → Set Nat

/-- The numbers in the blocks of a family. -/
def covered (F : Family) : Set Nat := {x | ∃ o, x / 2 ^ o ∈ F o}

/-- No number is in two blocks of the family. -/
def Apart (F : Family) : Prop := ∀ x o o', x / 2 ^ o ∈ F o → x / 2 ^ o' ∈ F o' → o = o'

/-- Below order `top` the family never has both halves of a block. -/
def Coalesced (top : Nat) (F : Family) : Prop := ∀ o < top, ∀ i, ¬ (2 * i ∈ F o ∧ 2 * i + 1 ∈ F o)

theorem block_subset_covered {F : Family} {o i : Nat} (h : i ∈ F o) : block o i ⊆ covered F :=
  fun x hx => ⟨o, by rwa [mem_block.mp hx]⟩

/-- **A block that is covered is inside a block of the family.** -/
theorem exists_of_block_subset {top : Nat} {F : Family} (hF : Coalesced top F) {o i : Nat}
    (ho : o ≤ top) (h : block o i ⊆ covered F) : ∃ k, i / 2 ^ k ∈ F (o + k) := by
  induction o generalizing i with
  | zero =>
    obtain ⟨k, hk⟩ := h (show i ∈ block 0 i from Nat.div_one i)
    exact ⟨k, by rwa [Nat.zero_add]⟩
  | succ o ih =>
    rw [block_succ, Set.union_subset_iff] at h
    obtain ⟨k, hk⟩ := ih (by omega) h.1
    obtain ⟨l, hl⟩ := ih (by omega) h.2
    -- A half that is inside a larger block of the family brings the whole block with it.
    cases k with
    | succ k =>
      refine ⟨k, ?_⟩
      rwa [Nat.pow_succ', ← Nat.div_div_eq_div_mul, Nat.mul_div_cancel_left i Nat.two_pos,
        ← Nat.add_assoc, Nat.add_right_comm] at hk
    | zero =>
      cases l with
      | succ l =>
        refine ⟨l, ?_⟩
        rwa [Nat.pow_succ', ← Nat.div_div_eq_div_mul, show (2 * i + 1) / 2 = i by omega,
          ← Nat.add_assoc, Nat.add_right_comm] at hl
      | zero =>
        rw [Nat.pow_zero, Nat.div_one] at hk hl
        exact absurd ⟨hk, hl⟩ (hF o (by omega) i)

/-! ## Taking blocks out and putting them in -/

/-- The family with a block more. -/
def put (F : Family) (o i : Nat) : Family := Function.update F o (F o ∪ {i})

/-- The family with a block less. -/
def take (F : Family) (o i : Nat) : Family := Function.update F o (F o \ {i})

theorem mem_put {F : Family} {o i o' j : Nat} :
    j ∈ put F o i o' ↔ j ∈ F o' ∨ (o' = o ∧ j = i) := by
  rw [put]
  rcases eq_or_ne o' o with rfl | h
  · rw [Function.update_self, Set.mem_union, Set.mem_singleton_iff, and_iff_right rfl]
  · rw [Function.update_of_ne h, or_iff_left fun hj => h hj.1]

theorem mem_take {F : Family} {o i o' j : Nat} :
    j ∈ take F o i o' ↔ j ∈ F o' ∧ ¬ (o' = o ∧ j = i) := by
  rw [take]
  rcases eq_or_ne o' o with rfl | h
  · rw [Function.update_self, Set.mem_sdiff, Set.mem_singleton_iff, and_iff_right (b := j = i) rfl]
  · rw [Function.update_of_ne h, and_iff_left fun hj => h hj.1]

theorem covered_put (F : Family) (o i : Nat) : covered (put F o i) = covered F ∪ block o i := by
  ext x
  constructor
  · rintro ⟨o', h⟩
    rcases mem_put.mp h with hx | ⟨rfl, hx⟩
    · exact .inl ⟨o', hx⟩
    · exact .inr hx
  · rintro (⟨o', h⟩ | h)
    · exact ⟨o', mem_put.mpr (.inl h)⟩
    · exact ⟨o, mem_put.mpr (.inr ⟨rfl, h⟩)⟩

theorem covered_take {F : Family} (hF : Apart F) {o i : Nat} (hi : i ∈ F o) :
    covered (take F o i) = covered F \ block o i := by
  ext x
  constructor
  · rintro ⟨o', h⟩
    obtain ⟨hx, hne⟩ := mem_take.mp h
    refine ⟨⟨o', hx⟩, fun hblock => ?_⟩
    obtain rfl := hF x o' o hx (by rwa [mem_block.mp hblock])
    exact hne ⟨rfl, hblock⟩
  · rintro ⟨⟨o', hx⟩, hout⟩
    refine ⟨o', mem_take.mpr ⟨hx, ?_⟩⟩
    rintro ⟨rfl, h⟩
    exact hout h

theorem Apart.take {F : Family} (hF : Apart F) (o i : Nat) : Apart (take F o i) :=
  fun x o₁ o₂ h₁ h₂ => hF x o₁ o₂ (mem_take.mp h₁).1 (mem_take.mp h₂).1

theorem Apart.put {F : Family} (hF : Apart F) {o i : Nat}
    (h : Disjoint (block o i) (covered F)) : Apart (put F o i) := by
  intro x o₁ o₂ h₁ h₂
  rcases mem_put.mp h₁ with hx₁ | ⟨ho₁, hx₁⟩ <;> rcases mem_put.mp h₂ with hx₂ | ⟨ho₂, hx₂⟩
  · exact hF x o₁ o₂ hx₁ hx₂
  · rw [ho₂] at hx₂
    exact absurd ⟨o₁, hx₁⟩ (Set.disjoint_left.mp h hx₂)
  · rw [ho₁] at hx₁
    exact absurd ⟨o₂, hx₂⟩ (Set.disjoint_left.mp h hx₁)
  · exact ho₁.trans ho₂.symm

theorem Coalesced.take {top : Nat} {F : Family} (hF : Coalesced top F) (o i : Nat) :
    Coalesced top (take F o i) :=
  fun o' ho' j h => hF o' ho' j ⟨(mem_take.mp h.1).1, (mem_take.mp h.2).1⟩

/-- A block may be put in if its buddy is not there. -/
theorem Coalesced.put {top : Nat} {F : Family} (hF : Coalesced top F) {o i : Nat}
    (h : o < top → buddy i ∉ F o) : Coalesced top (put F o i) := by
  rintro o' ho' j ⟨h₁, h₂⟩
  have hb := buddy_eq i
  rcases mem_put.mp h₁ with hj₁ | ⟨ho, hj₁⟩ <;> rcases mem_put.mp h₂ with hj₂ | ⟨ho, hj₂⟩
  · exact hF o' ho' j ⟨hj₁, hj₂⟩
  · rw [if_neg (by omega), ← hj₂, Nat.add_sub_cancel] at hb
    rw [ho] at ho' hj₁
    exact h ho' (by rwa [← hj₂, hb])
  · rw [if_pos (by omega), ← hj₁] at hb
    rw [ho] at ho' hj₂
    exact h ho' (by rwa [← hj₁, hb])
  · omega

end Dyadic
