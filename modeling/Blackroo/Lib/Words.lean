import Blackroo.Lib.ByteMemory

/-!
# Words in a byte memory

A word is read from four bytes and written to them.  `Apart p q` says that the words at `p` and
`q` share no byte; writing one of them then leaves the other alone.

A word whose upper part is one thing and whose lower part another is put together with two masks;
`toNat_splice` is what comes out.
-/

namespace ByteMemory

open LittleEndian

/-- The word at an address. -/
def word (m : Mem) (p : UInt32) : UInt32 := get32 (load m p 4) 0

/-- The memory with a word written. -/
def setWord (m : Mem) (p v : UInt32) : Mem := apply m (wordAt p v)

/-- The byte belongs to the word. -/
def InWord (p a : UInt32) : Prop := (a - p).toNat < 4

instance (p a : UInt32) : Decidable (InWord p a) := inferInstanceAs (Decidable (_ < _))

/-- The words share no byte. -/
def Apart (p q : UInt32) : Prop := 4 ≤ (q - p).toNat ∧ 4 ≤ (p - q).toNat

instance (p q : UInt32) : Decidable (Apart p q) := inferInstanceAs (Decidable (_ ∧ _))

theorem Apart.symm {p q : UInt32} (h : Apart p q) : Apart q p := ⟨h.2, h.1⟩

theorem Apart.not_inWord {p q a : UInt32} (h : Apart p q) (ha : InWord p a) : ¬ InWord q a := by
  intro hq
  obtain ⟨h₁, h₂⟩ := h
  have hlp := p.toNat_lt
  have hlq := q.toNat_lt
  have hla := a.toNat_lt
  rw [InWord, UInt32.toNat_sub] at ha hq
  rw [UInt32.toNat_sub] at h₁ h₂
  omega

theorem inWord_add (p : UInt32) {i : Nat} (hi : i < 4) : InWord p (p + UInt32.ofNat i) := by
  rw [InWord, toNat_add_ofNat_sub p (by omega)]
  exact hi

theorem load_congr {m m' : Mem} {p : UInt32} {n : Nat}
    (h : ∀ i < n, m (p + UInt32.ofNat i) = m' (p + UInt32.ofNat i)) : load m p n = load m' p n := by
  induction n generalizing p with
  | zero => rfl
  | succ n ih =>
    have hfirst : m p = m' p := by
      have h0 := h 0 (Nat.succ_pos n)
      rwa [show p + UInt32.ofNat 0 = p from UInt32.add_zero p] at h0
    have hnext : ∀ i < n, m (p + 1 + UInt32.ofNat i) = m' (p + 1 + UInt32.ofNat i) := by
      intro i hi
      have hi' := h (i + 1) (Nat.succ_lt_succ hi)
      rwa [UInt32.ofNat_add, UInt32.add_comm (UInt32.ofNat i), ← UInt32.add_assoc] at hi'
    rw [load, load, hfirst, ih hnext]

/-- A word is its four bytes. -/
theorem word_congr {m m' : Mem} {p : UInt32} (h : ∀ a, InWord p a → m a = m' a) :
    word m p = word m' p := by
  rw [word, word, load_congr fun i hi => h _ (inWord_add p hi)]

theorem setWord_of_not_inWord (m : Mem) {p a : UInt32} (v : UInt32) (h : ¬ InWord p a) :
    setWord m p v a = m a := by
  have hlen : (bytes32 v).length = 4 := length_bytes32 v
  rw [setWord, wordAt, apply_block m p (by rw [hlen]; decide)]
  refine List.getD_eq_default _ _ ?_
  rw [hlen]
  exact Nat.not_lt.mp h

theorem word_setWord (m : Mem) (p v : UInt32) : word (setWord m p v) p = v := by
  have hlen : (bytes32 v).length = 4 := length_bytes32 v
  have hload := load_apply_block m p (show (bytes32 v).length ≤ 2 ^ 32 by rw [hlen]; decide)
  rw [hlen] at hload
  rw [word, setWord, wordAt, hload, get32_bytes32]

theorem word_setWord_of_apart (m : Mem) {p q : UInt32} (h : Apart p q) (v : UInt32) :
    word (setWord m p v) q = word m q :=
  word_congr fun _ ha => setWord_of_not_inWord m v fun hp => h.not_inWord hp ha

/-- **Replacing the lower part of a word**: the bits from `k` on of one word, the others of
another. -/
theorem toNat_splice {upper lower : UInt32} {k : Nat} (hk : k ≤ 31)
    (hupper : upper.toNat = 2 ^ 32 - 2 ^ k) (hlower : lower.toNat = 2 ^ k - 1) (w x : UInt32) :
    ((w &&& upper) ||| (x &&& lower)).toNat = w.toNat / 2 ^ k * 2 ^ k + x.toNat % 2 ^ k := by
  have hlt : x.toNat % 2 ^ k < 2 ^ k := Nat.mod_lt _ (Nat.two_pow_pos k)
  rw [UInt32.toNat_or, UInt32.and_comm, toNat_and_mask hk hupper, UInt32.toNat_and, hlower,
    Nat.and_two_pow_sub_one_eq_mod, ← Nat.shiftLeft_eq, Nat.shiftLeft_add_eq_or_of_lt hlt]

end ByteMemory
