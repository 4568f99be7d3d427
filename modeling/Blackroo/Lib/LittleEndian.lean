import Mathlib.Algebra.Group.Nat.Defs
import Mathlib.Data.List.Induction

/-!
# Little-endian words

Half-words and words as byte sequences, least significant byte first.  Decoding is
written with shifts and bitwise or, the way such code is written; the lemmas read
it back as positional notation, so that round trips are linear arithmetic.
-/

namespace LittleEndian

/-- The two bytes of a half-word, low byte first. -/
def bytes16 (v : UInt16) : List UInt8 := [v.toUInt8, (v >>> 8).toUInt8]

/-- The four bytes of a word, low byte first. -/
def bytes32 (v : UInt32) : List UInt8 :=
  [v.toUInt8, (v >>> 8).toUInt8, (v >>> 16).toUInt8, (v >>> 24).toUInt8]

/-- The half-word of two bytes, low byte first. -/
def word16 (b₀ b₁ : UInt8) : UInt16 := b₀.toUInt16 ||| (b₁.toUInt16 <<< 8)

/-- The word of four bytes, low byte first. -/
def word32 (b₀ b₁ b₂ b₃ : UInt8) : UInt32 :=
  b₀.toUInt32 ||| (b₁.toUInt32 <<< 8) ||| (b₂.toUInt32 <<< 16) ||| (b₃.toUInt32 <<< 24)

@[simp] theorem length_bytes32 (v : UInt32) : (bytes32 v).length = 4 := rfl

theorem toNat_word16 (b₀ b₁ : UInt8) : (word16 b₀ b₁).toNat = b₀.toNat + 2 ^ 8 * b₁.toNat := by
  have h₀ : b₀.toNat < 2 ^ 8 := b₀.toNat_lt
  have h₁ : b₁.toNat < 2 ^ 8 := b₁.toNat_lt
  rw [word16, UInt16.toNat_or, UInt16.toNat_shiftLeft, UInt8.toNat_toUInt16, UInt8.toNat_toUInt16]
  show b₀.toNat ||| (b₁.toNat <<< 8) % 2 ^ 16 = _
  rw [Nat.shiftLeft_eq, Nat.mod_eq_of_lt (by omega), Nat.mul_comm, Nat.or_comm,
    ← Nat.two_pow_add_eq_or_of_lt h₀, Nat.add_comm]

theorem toNat_word32 (b₀ b₁ b₂ b₃ : UInt8) :
    (word32 b₀ b₁ b₂ b₃).toNat =
      b₀.toNat + 2 ^ 8 * b₁.toNat + 2 ^ 16 * b₂.toNat + 2 ^ 24 * b₃.toNat := by
  have h₀ : b₀.toNat < 2 ^ 8 := b₀.toNat_lt
  have h₁ : b₁.toNat < 2 ^ 8 := b₁.toNat_lt
  have h₂ : b₂.toNat < 2 ^ 8 := b₂.toNat_lt
  have h₃ : b₃.toNat < 2 ^ 8 := b₃.toNat_lt
  rw [word32]
  simp only [UInt32.toNat_or, UInt32.toNat_shiftLeft, UInt8.toNat_toUInt32]
  show ((b₀.toNat ||| (b₁.toNat <<< 8) % 2 ^ 32) ||| (b₂.toNat <<< 16) % 2 ^ 32) |||
    (b₃.toNat <<< 24) % 2 ^ 32 = _
  simp only [Nat.shiftLeft_eq]
  rw [Nat.mod_eq_of_lt (by omega), Nat.mod_eq_of_lt (by omega), Nat.mod_eq_of_lt (by omega),
    Nat.mul_comm b₁.toNat, Nat.mul_comm b₂.toNat, Nat.mul_comm b₃.toNat,
    Nat.or_comm b₀.toNat, ← Nat.two_pow_add_eq_or_of_lt h₀,
    Nat.or_comm _ (2 ^ 16 * _), ← Nat.two_pow_add_eq_or_of_lt (i := 16) (by omega),
    Nat.or_comm _ (2 ^ 24 * _), ← Nat.two_pow_add_eq_or_of_lt (i := 24) (by omega)]
  omega

/-- **Round trip.**  The bytes of a word decode to the word. -/
theorem word32_bytes32 (v : UInt32) :
    word32 v.toUInt8 (v >>> 8).toUInt8 (v >>> 16).toUInt8 (v >>> 24).toUInt8 = v := by
  apply UInt32.toNat_inj.mp
  have hv : v.toNat < 2 ^ 32 := v.toNat_lt
  rw [toNat_word32]
  simp only [UInt32.toNat_toUInt8, UInt32.toNat_shiftRight]
  show v.toNat % 2 ^ 8 + 2 ^ 8 * (v.toNat >>> 8 % 2 ^ 8) + 2 ^ 16 * (v.toNat >>> 16 % 2 ^ 8) +
    2 ^ 24 * (v.toNat >>> 24 % 2 ^ 8) = v.toNat
  simp only [Nat.shiftRight_eq_div_pow]
  omega

/-- The half-word at an offset of a byte string; bytes past its end read as 0. -/
def get16 (bs : List UInt8) (off : Nat) : UInt16 := word16 (bs.getD off 0) (bs.getD (off + 1) 0)

/-- The word at an offset of a byte string; bytes past its end read as 0. -/
def get32 (bs : List UInt8) (off : Nat) : UInt32 :=
  word32 (bs.getD off 0) (bs.getD (off + 1) 0) (bs.getD (off + 2) 0) (bs.getD (off + 3) 0)

theorem get32_bytes32 (v : UInt32) : get32 (bytes32 v) 0 = v := word32_bytes32 v

theorem word16_bytes16 (v : UInt16) : word16 v.toUInt8 (v >>> 8).toUInt8 = v := by
  apply UInt16.toNat_inj.mp
  have hv : v.toNat < 2 ^ 16 := v.toNat_lt
  rw [toNat_word16]
  simp only [UInt16.toNat_toUInt8, UInt16.toNat_shiftRight]
  show v.toNat % 2 ^ 8 + 2 ^ 8 * (v.toNat >>> 8 % 2 ^ 8) = v.toNat
  rw [Nat.shiftRight_eq_div_pow]
  omega

/-! ## Records

A record is built by storing fields into a byte string and read back field by field.  A
field is not disturbed by what is stored beside it. -/

/-- Bytes stored into a byte string from an offset on; what falls past its end is lost. -/
def putBytes : Nat → List UInt8 → List UInt8 → List UInt8
  | _, [], bs => bs
  | off, c :: cs, bs => putBytes (off + 1) cs (bs.set off c)

@[simp] theorem length_putBytes (off : Nat) (cs bs : List UInt8) :
    (putBytes off cs bs).length = bs.length := by
  induction cs generalizing off bs with
  | nil => rfl
  | cons c cs ih => rw [putBytes, ih, List.length_set]

/-- One store after the other is the store of both. -/
theorem putBytes_append (off : Nat) (cs ds bs : List UInt8) :
    putBytes off (cs ++ ds) bs = putBytes (off + cs.length) ds (putBytes off cs bs) := by
  induction cs generalizing off bs with
  | nil => rfl
  | cons c cs ih =>
    rw [List.cons_append, putBytes, ih, List.length_cons, putBytes, Nat.add_right_comm,
      Nat.add_assoc]

theorem getD_putBytes_of_disjoint {off i : Nat} {cs : List UInt8} (bs : List UInt8)
    (h : i < off ∨ off + cs.length ≤ i) : (putBytes off cs bs).getD i 0 = bs.getD i 0 := by
  induction cs generalizing off bs with
  | nil => rfl
  | cons c cs ih =>
    rw [List.length_cons] at h
    rw [putBytes, ih _ (by omega), List.getD_eq_getElem?_getD, List.getElem?_set_ne (by omega),
      List.getD_eq_getElem?_getD]

theorem getD_putBytes {off i : Nat} {cs bs : List UInt8} (hi : i < cs.length)
    (hlen : off + cs.length ≤ bs.length) : (putBytes off cs bs).getD (off + i) 0 = cs.getD i 0 := by
  induction cs generalizing off i bs with
  | nil => exact absurd hi (Nat.not_lt_zero i)
  | cons c cs ih =>
    rw [List.length_cons] at hi hlen
    rw [putBytes]
    cases i with
    | zero =>
      rw [getD_putBytes_of_disjoint _ (by omega), List.getD_eq_getElem?_getD, Nat.add_zero,
        List.getElem?_set_self (by omega)]
      rfl
    | succ i =>
      rw [← Nat.add_assoc, Nat.add_right_comm, ih (by omega) (by rw [List.length_set]; omega)]
      rfl

theorem get16_putBytes_of_disjoint {off o : Nat} (cs bs : List UInt8)
    (h : o + 2 ≤ off ∨ off + cs.length ≤ o) : get16 (putBytes off cs bs) o = get16 bs o := by
  rw [get16, getD_putBytes_of_disjoint _ (by omega), getD_putBytes_of_disjoint _ (by omega), get16]

theorem get32_putBytes_of_disjoint {off o : Nat} (cs bs : List UInt8)
    (h : o + 4 ≤ off ∨ off + cs.length ≤ o) : get32 (putBytes off cs bs) o = get32 bs o := by
  rw [get32, getD_putBytes_of_disjoint _ (by omega), getD_putBytes_of_disjoint _ (by omega),
    getD_putBytes_of_disjoint _ (by omega), getD_putBytes_of_disjoint _ (by omega), get32]

theorem get16_putBytes {off : Nat} {v : UInt16} {bs : List UInt8} (h : off + 2 ≤ bs.length) :
    get16 (putBytes off (bytes16 v) bs) off = v := by
  have hbyte : ∀ i < 2, (putBytes off (bytes16 v) bs).getD (off + i) 0 = (bytes16 v).getD i 0 :=
    fun i hi => getD_putBytes hi h
  have hfirst : (putBytes off (bytes16 v) bs).getD off 0 = (bytes16 v).getD 0 0 :=
    hbyte 0 (by decide)
  rw [get16, hfirst, hbyte 1 (by decide)]
  exact word16_bytes16 v

theorem get32_putBytes {off : Nat} {v : UInt32} {bs : List UInt8} (h : off + 4 ≤ bs.length) :
    get32 (putBytes off (bytes32 v) bs) off = v := by
  have hbyte : ∀ i < 4, (putBytes off (bytes32 v) bs).getD (off + i) 0 = (bytes32 v).getD i 0 :=
    fun i hi => getD_putBytes hi h
  have hfirst : (putBytes off (bytes32 v) bs).getD off 0 = (bytes32 v).getD 0 0 :=
    hbyte 0 (by decide)
  rw [get32, hfirst, hbyte 1 (by decide), hbyte 2 (by decide), hbyte 3 (by decide)]
  exact word32_bytes32 v

/-- A word at the front of a byte string. -/
theorem get32_bytes32_append (v : UInt32) (bs : List UInt8) : get32 (bytes32 v ++ bs) 0 = v :=
  word32_bytes32 v

/-- A word behind a number of bytes. -/
theorem get32_append_right {cs : List UInt8} {off : Nat} (h : cs.length ≤ off) (bs : List UInt8) :
    get32 (cs ++ bs) off = get32 bs (off - cs.length) := by
  have hbyte : ∀ i, (cs ++ bs).getD (off + i) 0 = bs.getD (off - cs.length + i) 0 := fun i => by
    rw [List.getD_eq_getElem?_getD, List.getElem?_append_right (by omega), Nat.sub_add_comm h,
      List.getD_eq_getElem?_getD]
  rw [get32, get32, hbyte 1, hbyte 2, hbyte 3]
  exact congrArg (fun b => word32 b _ _ _) (hbyte 0)

/-! ## Overlays

A byte string into which others have been copied, one over the other. -/

/-- Bytes and the offset they are copied to. -/
structure Patch where
  offset : Nat
  bytes : List UInt8

/-- The offset `j` is among those the bytes are copied to. -/
def Patch.Covers (p : Patch) (j : Nat) : Prop := p.offset ≤ j ∧ j < p.offset + p.bytes.length

instance (p : Patch) (j : Nat) : Decidable (p.Covers j) := inferInstanceAs (Decidable (_ ∧ _))

/-- The copies, in order. -/
def overlay (ps : List Patch) (bs : List UInt8) : List UInt8 :=
  ps.foldl (fun bs p => putBytes p.offset p.bytes bs) bs

/-- The last one of the copies that reach an offset. -/
def lastCover (ps : List Patch) (j : Nat) : Option Patch := ps.reverse.find? fun p => p.Covers j

@[simp] theorem length_overlay (ps : List Patch) (bs : List UInt8) :
    (overlay ps bs).length = bs.length := by
  induction ps generalizing bs with
  | nil => rfl
  | cons p ps ih => exact (ih _).trans (length_putBytes _ _ _)

/-- **The last copy wins.** -/
theorem getD_overlay {ps : List Patch} {bs : List UInt8}
    (h : ∀ p ∈ ps, p.offset + p.bytes.length ≤ bs.length) (j : Nat) :
    (overlay ps bs).getD j 0 =
      match lastCover ps j with
      | none => bs.getD j 0
      | some p => p.bytes.getD (j - p.offset) 0 := by
  induction ps using List.reverseRecOn with
  | nil => rfl
  | append_singleton ps p ih =>
    have hlen : p.offset + p.bytes.length ≤ (overlay ps bs).length := by
      rw [length_overlay]
      exact h p (List.mem_append_right _ List.mem_cons_self)
    have hstep : overlay (ps ++ [p]) bs = putBytes p.offset p.bytes (overlay ps bs) := by
      rw [overlay, List.foldl_append]
      rfl
    have hlast : lastCover (ps ++ [p]) j = if p.Covers j then some p else lastCover ps j := by
      rw [lastCover, List.reverse_append, List.reverse_singleton, List.singleton_append,
        List.find?_cons]
      by_cases hj : p.Covers j <;> simp [hj, lastCover]
    rw [hstep, hlast]
    by_cases hj : p.Covers j
    · rw [if_pos hj]
      obtain ⟨h₁, h₂⟩ := hj
      have hbyte : (putBytes p.offset p.bytes (overlay ps bs)).getD
          (p.offset + (j - p.offset)) 0 = p.bytes.getD (j - p.offset) 0 :=
        getD_putBytes (by omega) hlen
      rwa [Nat.add_sub_of_le h₁] at hbyte
    · rw [if_neg hj, getD_putBytes_of_disjoint]
      · exact ih fun p hp => h p (List.mem_append_left _ hp)
      · rw [Patch.Covers] at hj
        omega

end LittleEndian
