import Mathlib.Algebra.Group.Nat.Defs

/-!
# Numbers in mixed radices

Hours, minutes and seconds are the digits of a number, each with a radix of its own.  Here the
radices are a list, that of the last digit last.  There is one digit more than there are radices:
the leading one has no bound.

Two facts are what such a notation is used for.  The digits have the value of the number
(`value_digits`), and the numbers are in the order of their digits, compared from the left as words
in a dictionary are (`digits_lt_digits`).
-/

namespace Blackroo
namespace MixedRadix

/-- The digits of a number, the leading one first. -/
def digits : List Nat → Nat → List Nat
  | [], n => [n]
  | b :: radices, n =>
    n / (b :: radices).prod :: digits radices (n % (b :: radices).prod)

/-- The number with these digits. -/
def value : List Nat → List Nat → Nat
  | _, [] => 0
  | [], d :: _ => d
  | b :: radices, d :: rest => d * (b :: radices).prod + value radices rest

theorem value_digits (radices : List Nat) (n : Nat) : value radices (digits radices n) = n := by
  induction radices generalizing n with
  | nil => rfl
  | cons b radices ih =>
    rw [digits, value, ih, Nat.mul_comm]
    exact Nat.div_add_mod n _

/-- **The order of the numbers is that of their digits.** -/
theorem digits_lt_digits (radices : List Nat) {m n : Nat} (h : m < n) :
    digits radices m < digits radices n := by
  induction radices generalizing m n with
  | nil => exact List.cons_lt_cons_iff.mpr (.inl h)
  | cons b radices ih =>
    rw [digits, digits, List.cons_lt_cons_iff]
    have hle : m / (b :: radices).prod ≤ n / (b :: radices).prod :=
      Nat.div_le_div_right (Nat.le_of_lt h)
    rcases Nat.lt_or_eq_of_le hle with hlt | heq
    · exact .inl hlt
    · -- the leading digits agree, so the remainders are in the order of the numbers
      refine .inr ⟨heq, ih ?_⟩
      have hm := Nat.div_add_mod m (b :: radices).prod
      have hn := Nat.div_add_mod n (b :: radices).prod
      rw [heq] at hm
      omega

end MixedRadix
end Blackroo
