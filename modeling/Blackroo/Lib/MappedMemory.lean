import Mathlib.Logic.Function.Basic
import Mathlib.Data.Option.Basic

/-!
# Memory behind an address map

Several addresses may name one cell, and an address may name none that one is free to store to: a
device, a ROM, or memory that belongs to whoever does the storing.  A copy to such an address has
no result.  A copy that has one leaves its bytes where they were put, provided that addresses of
the same cell get the same byte.
-/

namespace MappedMemory

variable {C : Type}

/-- The cell behind an address, unless it must not be stored to. -/
abbrev Target (C : Type) : Type := UInt32 → Option C

abbrev Cells (C : Type) : Type := C → UInt8

def load (t : Target C) (m : Cells C) (a : UInt32) : Option UInt8 := (t a).map m

section Store

variable [DecidableEq C]

def store (t : Target C) (a : UInt32) (x : UInt8) (m : Cells C) : Option (Cells C) :=
  (t a).map fun c => Function.update m c x

/-- Bytes stored one after the other. -/
def copy (t : Target C) : UInt32 → List UInt8 → Cells C → Option (Cells C)
  | _, [], m => some m
  | a, x :: xs, m => (store t a x m).bind (copy t (a + 1) xs)

end Store

/-- The `n` addresses from `a` on may be stored to. -/
def Writable (t : Target C) (a : UInt32) (n : Nat) : Prop :=
  ∀ i < n, (t (a + UInt32.ofNat i)).isSome

/-- Among the `n` addresses from `a` on, those of one cell are to get one byte. -/
def Coherent (t : Target C) (a : UInt32) (f : Nat → UInt8) (n : Nat) : Prop :=
  ∀ i < n, ∀ j < n, t (a + UInt32.ofNat i) = t (a + UInt32.ofNat j) → f i = f j

instance (t : Target C) (a : UInt32) (n : Nat) : Decidable (Writable t a n) :=
  inferInstanceAs (Decidable (∀ i < n, _))

instance [DecidableEq C] (t : Target C) (a : UInt32) (f : Nat → UInt8) (n : Nat) :
    Decidable (Coherent t a f n) :=
  inferInstanceAs (Decidable (∀ i < n, ∀ j < n, _))

/-- The `n` addresses from `a` on hold their bytes. -/
def Holds (t : Target C) (m : Cells C) (a : UInt32) (f : Nat → UInt8) (n : Nat) : Prop :=
  ∀ i < n, load t m (a + UInt32.ofNat i) = some (f i)

variable {t : Target C} {m m' : Cells C} {a : UInt32} {f : Nat → UInt8} {n : Nat}

theorem add_ofNat_succ (a : UInt32) (i : Nat) :
    a + UInt32.ofNat (i + 1) = a + UInt32.ofNat i + 1 := by
  rw [UInt32.ofNat_add, ← UInt32.add_assoc]
  rfl

theorem Holds.writable (h : Holds t m a f n) : Writable t a n := by
  intro i hi
  have hload := h i hi
  rw [load, Option.map_eq_some_iff] at hload
  obtain ⟨c, hc, -⟩ := hload
  rw [hc]
  rfl

/-- Addresses of one cell hold one byte. -/
theorem Holds.coherent (h : Holds t m a f n) : Coherent t a f n := by
  intro i hi j hj heq
  have hload : load t m (a + UInt32.ofNat i) = load t m (a + UInt32.ofNat j) := by
    rw [load, load, heq]
  rw [h i hi, h j hj] at hload
  exact Option.some.inj hload

variable [DecidableEq C]

/-- A store in front of what is held extends it. -/
theorem Holds.store {k : Nat} (h : Holds t m a f k) (hc : Coherent t a f n) (hk : k < n)
    (hstore : store t (a + UInt32.ofNat k) (f k) m = some m') : Holds t m' a f (k + 1) := by
  rw [MappedMemory.store, Option.map_eq_some_iff] at hstore
  obtain ⟨c, hcell, rfl⟩ := hstore
  intro i hi
  rcases Nat.lt_succ_iff_lt_or_eq.mp hi with hlt | rfl
  · have hload := h i hlt
    rw [load, Option.map_eq_some_iff] at hload ⊢
    obtain ⟨c', hcell', hbyte⟩ := hload
    refine ⟨c', hcell', ?_⟩
    by_cases heq : c' = c
    · rw [heq, Function.update_self]
      exact hc k hk i (Nat.lt_trans hlt hk) (by rw [hcell, hcell', heq])
    · rw [Function.update_of_ne heq, hbyte]
  · rw [load, hcell, Option.map_some, Function.update_self]

/-- **A copy leaves its bytes**, next to those that are there already. -/
theorem Holds.copy {k : Nat} {xs : List UInt8} (h : Holds t m a f k) (hc : Coherent t a f n)
    (hn : k + xs.length ≤ n) (hxs : ∀ i < xs.length, xs.getD i 0 = f (k + i))
    (hcopy : copy t (a + UInt32.ofNat k) xs m = some m') : Holds t m' a f (k + xs.length) := by
  induction xs generalizing k m with
  | nil =>
    cases hcopy
    exact h
  | cons x xs ih =>
    rw [List.length_cons] at hn hxs ⊢
    obtain ⟨m₁, hstore, hrest⟩ := Option.bind_eq_some_iff.mp hcopy
    have hx : x = f k := hxs 0 (Nat.succ_pos _)
    have hstep := h.store hc (by omega) (hx ▸ hstore)
    rw [← add_ofNat_succ] at hrest
    have hlast := ih hstep (by omega) (fun i hi => ?_) hrest
    · rwa [Nat.add_right_comm] at hlast
    · rw [Nat.add_assoc, Nat.add_comm 1 i]
      exact hxs (i + 1) (Nat.succ_lt_succ hi)

theorem copy_append (t : Target C) (a : UInt32) (xs ys : List UInt8) (m : Cells C) :
    copy t a (xs ++ ys) m = (copy t a xs m).bind (copy t (a + UInt32.ofNat xs.length) ys) := by
  induction xs generalizing a m with
  | nil =>
    rw [List.nil_append, List.length_nil, show a + UInt32.ofNat 0 = a from UInt32.add_zero a]
    rfl
  | cons x xs ih =>
    have hnext : a + 1 + UInt32.ofNat xs.length = a + UInt32.ofNat (x :: xs).length := by
      rw [List.length_cons, add_ofNat_succ, UInt32.add_assoc, UInt32.add_comm 1, UInt32.add_assoc]
    rw [List.cons_append, copy, copy, Option.bind_assoc]
    simp only [ih, hnext]

/-- **A copy of a whole range leaves its bytes.** -/
theorem holds_of_copy {xs : List UInt8} (hc : Coherent t a f xs.length)
    (hxs : ∀ i < xs.length, xs.getD i 0 = f i) (hcopy : copy t a xs m = some m') :
    Holds t m' a f xs.length := by
  have hnone : Holds t m a f 0 := fun i hi => absurd hi (Nat.not_lt_zero i)
  have hzero : copy t (a + UInt32.ofNat 0) xs m = some m' := by
    rwa [show a + UInt32.ofNat 0 = a from UInt32.add_zero a]
  have h := hnone.copy hc (Nat.le_of_eq (Nat.zero_add _))
    (fun i hi => by rw [Nat.zero_add]; exact hxs i hi)
    hzero
  rwa [Nat.zero_add] at h

/-- **When a copy has a result**: if all its addresses may be stored to. -/
theorem copy_isSome_iff (t : Target C) (a : UInt32) (xs : List UInt8) (m : Cells C) :
    (copy t a xs m).isSome ↔ Writable t a xs.length := by
  induction xs generalizing a m with
  | nil => exact iff_of_true rfl fun i hi => absurd hi (Nat.not_lt_zero i)
  | cons x xs ih =>
    have hfirst : a + UInt32.ofNat 0 = a := UInt32.add_zero a
    have hsucc : ∀ i, a + UInt32.ofNat (i + 1) = a + 1 + UInt32.ofNat i := by
      intro i
      rw [add_ofNat_succ, UInt32.add_assoc, UInt32.add_comm (UInt32.ofNat i), UInt32.add_assoc]
    rw [copy, store]
    cases hcell : t a with
    | none =>
      refine iff_of_false (by simp) fun hw => ?_
      have hzero := hw 0 (Nat.succ_pos _)
      rw [hfirst, hcell] at hzero
      cases hzero
    | some c =>
      rw [Option.map_some, Option.bind_some, ih]
      constructor
      · intro hw i hi
        cases i with
        | zero =>
          rw [hfirst, hcell]
          rfl
        | succ i =>
          rw [hsucc]
          exact hw i (Nat.lt_of_succ_lt_succ hi)
      · intro hw i hi
        rw [← hsucc]
        exact hw (i + 1) (Nat.succ_lt_succ hi)

end MappedMemory
