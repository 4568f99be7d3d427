import Mathlib.Algebra.Order.Group.Nat
import Mathlib.Data.List.GetD
import Mathlib.Data.UInt
import Blackroo.Lib.LittleEndian

/-!
# Byte memory and traces of stores

A flat byte memory with 32-bit addresses, and programs that write to it described
by the list of byte stores they make.  Keeping the stores themselves, and not only
the memory they leave, is what makes confinement a statement: `Within lo hi t` says
that every store of the trace `t` falls into `[lo, hi)`.

Address arithmetic wraps at `2 ^ 32`, as it does on the machine.  `within_block`
is the rule for a copy of consecutive bytes: below `2 ^ 32` the copy stays in an
interval exactly when its two ends do, with no side condition about wrapping.
-/

namespace ByteMemory

open LittleEndian

/-- A byte memory. -/
abbrev Mem : Type := UInt32 → UInt8

/-- One byte store. -/
structure Store where
  addr : UInt32
  byte : UInt8
  deriving DecidableEq, Repr

/-- The memory after the stores of a trace, in order. -/
def apply (m : Mem) (t : List Store) : Mem :=
  t.foldl (fun m s => Function.update m s.addr s.byte) m

/-- A copy of consecutive bytes to address `p`. -/
def block (p : UInt32) : List UInt8 → List Store
  | [] => []
  | b :: bs => ⟨p, b⟩ :: block (p + 1) bs

/-- The store of a word, low byte first. -/
def wordAt (p v : UInt32) : List Store := block p (bytes32 v)

/-- `n` consecutive bytes read from address `p`. -/
def load (m : Mem) : UInt32 → Nat → List UInt8
  | _, 0 => []
  | p, n + 1 => m p :: load m (p + 1) n

/-- Every store of the trace falls into `[lo, hi)`. -/
def Within (lo hi : Nat) (t : List Store) : Prop :=
  ∀ s ∈ t, lo ≤ s.addr.toNat ∧ s.addr.toNat < hi

instance (lo hi : Nat) (t : List Store) : Decidable (Within lo hi t) :=
  inferInstanceAs (Decidable (∀ s ∈ t, lo ≤ s.addr.toNat ∧ s.addr.toNat < hi))

/-! ## Traces -/

theorem apply_append (m : Mem) (t u : List Store) : apply m (t ++ u) = apply (apply m t) u := by
  rw [apply, List.foldl_append]
  rfl

@[simp] theorem block_nil (p : UInt32) : block p [] = [] := rfl

theorem block_append (p : UInt32) (bs cs : List UInt8) :
    block p (bs ++ cs) = block p bs ++ block (p + UInt32.ofNat bs.length) cs := by
  induction bs generalizing p with
  | nil =>
    have h : p + UInt32.ofNat ([] : List UInt8).length = p := by simp
    rw [h]
    rfl
  | cons b bs ih =>
    have h : p + 1 + UInt32.ofNat bs.length = p + UInt32.ofNat (b :: bs).length := by
      rw [List.length_cons, UInt32.ofNat_add, UInt32.add_assoc, UInt32.add_comm 1]
      rfl
    rw [List.cons_append, block, block, ih (p + 1), h, List.cons_append]

@[simp] theorem within_nil (lo hi : Nat) : Within lo hi [] := by
  intro s hs
  exact absurd hs (by simp)

theorem within_append {lo hi : Nat} {t u : List Store} :
    Within lo hi (t ++ u) ↔ Within lo hi t ∧ Within lo hi u := by
  unfold Within
  rw [List.forall_mem_append]

theorem within_cons {lo hi : Nat} {s : Store} {t : List Store} :
    Within lo hi (s :: t) ↔ (lo ≤ s.addr.toNat ∧ s.addr.toNat < hi) ∧ Within lo hi t := by
  unfold Within
  rw [List.forall_mem_cons]

theorem within_flatMap {lo hi : Nat} {α : Type} {g : α → List Store} {l : List α} :
    Within lo hi (l.flatMap g) ↔ ∀ a ∈ l, Within lo hi (g a) := by
  induction l with
  | nil => simp
  | cons a l ih => rw [List.flatMap_cons, within_append, ih, List.forall_mem_cons]

/-- A wider interval. -/
theorem Within.mono {lo lo' hi hi' : Nat} {t : List Store} (h : Within lo hi t)
    (hlo : lo' ≤ lo) (hhi : hi ≤ hi') : Within lo' hi' t := by
  intro s hs
  obtain ⟨h₁, h₂⟩ := h s hs
  exact ⟨le_trans hlo h₁, lt_of_lt_of_le h₂ hhi⟩

theorem toNat_succ {p : UInt32} (h : p.toNat < 2 ^ 32 - 1) : (p + 1).toNat = p.toNat + 1 := by
  rw [UInt32.toNat_add]
  show (p.toNat + 1) % 2 ^ 32 = _
  exact Nat.mod_eq_of_lt (by omega)

/-- **A copy stays in an interval exactly when its ends do.** -/
theorem within_block {lo hi : Nat} (hhi : hi < 2 ^ 32) {bs : List UInt8} (p : UInt32)
    (hbs : bs ≠ []) :
    Within lo hi (block p bs) ↔ lo ≤ p.toNat ∧ p.toNat + bs.length ≤ hi := by
  induction bs generalizing p with
  | nil => exact absurd rfl hbs
  | cons b bs ih =>
    have hcons : Within lo hi (block p (b :: bs)) ↔
        (lo ≤ p.toNat ∧ p.toNat < hi) ∧ Within lo hi (block (p + 1) bs) := within_cons
    rw [hcons]
    by_cases hnil : bs = []
    · rw [hnil, block_nil, List.length_singleton]
      constructor
      · rintro ⟨⟨h₁, h₂⟩, -⟩
        exact ⟨h₁, h₂⟩
      · rintro ⟨h₁, h₂⟩
        exact ⟨⟨h₁, h₂⟩, within_nil lo hi⟩
    · rw [ih (p + 1) hnil, List.length_cons]
      constructor
      · rintro ⟨⟨h₁, h₂⟩, -, h₄⟩
        rw [toNat_succ (by omega)] at h₄
        exact ⟨h₁, by omega⟩
      · rintro ⟨h₁, h₂⟩
        rw [toNat_succ (by omega)]
        exact ⟨⟨h₁, by omega⟩, by omega, by omega⟩

/-- A copy between the ends of an interval, of no bytes at all if need be. -/
theorem within_block_of_le {lo hi : Nat} (hhi : hi < 2 ^ 32) {bs : List UInt8} {p : UInt32}
    (hlo : lo ≤ p.toNat) (h : p.toNat + bs.length ≤ hi) : Within lo hi (block p bs) := by
  by_cases hbs : bs = []
  · rw [hbs, block_nil]
    exact within_nil lo hi
  · exact (within_block hhi p hbs).mpr ⟨hlo, h⟩

theorem bytes32_ne_nil (v : UInt32) : bytes32 v ≠ [] := by
  rw [bytes32]
  exact List.cons_ne_nil _ _

/-- The four bytes of a word store. -/
theorem within_wordAt {lo hi : Nat} (hhi : hi < 2 ^ 32) (p v : UInt32) :
    Within lo hi (wordAt p v) ↔ lo ≤ p.toNat ∧ p.toNat + 4 ≤ hi := by
  rw [wordAt, within_block hhi p (bytes32_ne_nil v), length_bytes32]

theorem toNat_sub_ofNat {p : UInt32} {n : Nat} (h : n ≤ p.toNat) :
    (p - UInt32.ofNat n).toNat = p.toNat - n := by
  have hp := p.toNat_lt
  have hn : (UInt32.ofNat n).toNat = n := UInt32.toNat_ofNat_of_lt' (by
    show n < 2 ^ 32
    omega)
  rw [UInt32.toNat_sub, hn]
  omega

theorem toNat_add_ofNat_sub (p : UInt32) {i : Nat} (h : i < 2 ^ 32) :
    (p + UInt32.ofNat i - p).toNat = i := by
  rw [UInt32.add_comm, UInt32.add_sub_cancel, UInt32.toNat_ofNat_of_lt' h]

/-- A mask of all bits from `k` on rounds down to a multiple of `2 ^ k`. -/
theorem toNat_and_mask {m : UInt32} {k : Nat} (hk : k ≤ 31) (hm : m.toNat = 2 ^ 32 - 2 ^ k)
    (p : UInt32) : (m &&& p).toNat = p.toNat / 2 ^ k * 2 ^ k := by
  have hp : p.toNat < 2 ^ 32 := p.toNat_lt
  have hpow : 2 ^ k ≤ 2 ^ 31 := Nat.pow_le_pow_right (by decide) hk
  have hpos : 0 < 2 ^ k := Nat.two_pow_pos k
  have hmask : m.toNat = 2 ^ 32 - (2 ^ k - 1 + 1) := by omega
  have hshift : m.toNat &&& p.toNat = p.toNat >>> k <<< k := by
    apply Nat.eq_of_testBit_eq
    intro i
    rw [Nat.testBit_and, hmask, Nat.testBit_two_pow_sub_succ (by omega),
      Nat.testBit_two_pow_sub_one, Nat.testBit_shiftLeft, Nat.testBit_shiftRight]
    by_cases hki : k ≤ i
    · by_cases h32 : i < 32
      · simp [hki, h32]
      · have h0 : p.toNat < 2 ^ i := lt_of_lt_of_le hp (Nat.pow_le_pow_right (by decide) (by omega))
        simp [hki, h32, Nat.testBit_lt_two_pow h0]
    · simp [hki, show i < k by omega]
  rw [UInt32.toNat_and, hshift, Nat.shiftLeft_eq, Nat.shiftRight_eq_div_pow]

/-- Rounding an address down to a word. -/
theorem toNat_align (p : UInt32) : ((0 - 4) &&& p).toNat = 4 * (p.toNat / 4) := by
  rw [toNat_and_mask (k := 2) (by decide) rfl]
  omega

/-- **Pushing bytes below an address** of the interval keeps to the interval exactly
when there is room for them. -/
theorem within_push {lo hi : Nat} (hhi : hi < 2 ^ 32) {bs : List UInt8} {p : UInt32}
    (hp : p.toNat ≤ hi) (hbs : bs ≠ []) :
    Within lo hi (block (p - UInt32.ofNat bs.length) bs) ↔ lo + bs.length ≤ p.toNat := by
  rw [within_block hhi _ hbs]
  by_cases h : bs.length ≤ p.toNat
  · rw [toNat_sub_ofNat h]
    omega
  · have hsub : (p - UInt32.ofNat bs.length).toNat =
        (2 ^ 32 - bs.length % 2 ^ 32 + p.toNat) % 2 ^ 32 := by
      rw [UInt32.toNat_sub, UInt32.toNat_ofNat']
    omega

/-! ## Memory contents -/

@[simp] theorem length_load (m : Mem) (p : UInt32) (n : Nat) : (load m p n).length = n := by
  induction n generalizing p with
  | zero => rfl
  | succ n ih => rw [load, List.length_cons, ih]

theorem load_add (m : Mem) (p : UInt32) (a b : Nat) :
    load m p (a + b) = load m p a ++ load m (p + UInt32.ofNat a) b := by
  induction a generalizing p with
  | zero =>
    have h : p + UInt32.ofNat 0 = p := UInt32.add_zero p
    rw [Nat.zero_add, h]
    rfl
  | succ a ih =>
    have h : p + 1 + UInt32.ofNat a = p + UInt32.ofNat (a + 1) := by
      rw [UInt32.ofNat_add, UInt32.add_assoc, UInt32.add_comm 1]
      rfl
    rw [Nat.add_right_comm, load, load, ih (p + 1), h, List.cons_append]

/-- **The memory after a copy**: the copied byte inside the copied range, the old
byte outside. -/
theorem apply_block (m : Mem) (p : UInt32) {bs : List UInt8} (hlen : bs.length ≤ 2 ^ 32)
    (a : UInt32) : apply m (block p bs) a = bs.getD (a - p).toNat (m a) := by
  induction bs generalizing p m with
  | nil => rfl
  | cons b bs ih =>
    rw [List.length_cons] at hlen
    have hstep : apply m (block p (b :: bs)) = apply (Function.update m p b) (block (p + 1) bs) :=
      rfl
    rw [hstep, ih _ _ (by omega)]
    have hsub : (a - (p + 1)).toNat = (2 ^ 32 - 1 + (a - p).toNat) % 2 ^ 32 := by
      rw [UInt32.toNat_sub, UInt32.toNat_sub, UInt32.toNat_add]
      have ha : a.toNat < 2 ^ 32 := a.toNat_lt
      have hp : p.toNat < 2 ^ 32 := p.toNat_lt
      show (2 ^ 32 - (p.toNat + 1) % 2 ^ 32 + a.toNat) % 2 ^ 32 = _
      omega
    have hlt : (a - p).toNat < 2 ^ 32 := (a - p).toNat_lt
    by_cases hap : a = p
    · subst hap
      rw [Function.update_self, hsub, UInt32.sub_self]
      show bs.getD (2 ^ 32 - 1) b = b
      exact List.getD_eq_default _ _ (by omega)
    · have hne : (a - p).toNat ≠ 0 := by
        intro h0
        have hz : a - p = 0 := UInt32.toNat_inj.mp h0
        exact hap (by rw [← UInt32.sub_add_cancel a p, hz, UInt32.zero_add])
      obtain ⟨k, hk⟩ := Nat.exists_eq_succ_of_ne_zero hne
      rw [Function.update_of_ne hap, hsub, hk,
        show (2 ^ 32 - 1 + k.succ) % 2 ^ 32 = k by omega]
      rfl

/-- Stores elsewhere do not change a byte. -/
theorem apply_of_within {lo hi : Nat} {t : List Store} (m : Mem) {a : UInt32} (h : Within lo hi t)
    (ha : a.toNat < lo ∨ hi ≤ a.toNat) : apply m t a = m a := by
  induction t generalizing m with
  | nil => rfl
  | cons s t ih =>
    obtain ⟨hs, ht⟩ := within_cons.mp h
    have hne : a ≠ s.addr := by
      rintro rfl
      omega
    exact (ih (Function.update m s.addr s.byte) ht).trans (Function.update_of_ne hne _ _)

/-- The bytes read from an address on, given one by one. -/
theorem load_eq (m : Mem) (p : UInt32) {bs : List UInt8}
    (h : ∀ i < bs.length, m (p + UInt32.ofNat i) = bs.getD i 0) : load m p bs.length = bs := by
  induction bs generalizing p with
  | nil => rfl
  | cons b bs ih =>
    have hfirst : m p = b := by
      have h0 := h 0 (Nat.zero_lt_succ _)
      rwa [show p + UInt32.ofNat 0 = p from UInt32.add_zero p] at h0
    have hnext : ∀ i < bs.length, m (p + 1 + UInt32.ofNat i) = bs.getD i 0 := by
      intro i hi
      have hi' := h (i + 1) (Nat.succ_lt_succ hi)
      rw [UInt32.ofNat_add, UInt32.add_comm (UInt32.ofNat i), ← UInt32.add_assoc] at hi'
      exact hi'
    rw [List.length_cons, load, hfirst, ih (p + 1) hnext]

/-- **Reading back a copy.** -/
theorem load_apply_block (m : Mem) (p : UInt32) {bs : List UInt8} (hlen : bs.length ≤ 2 ^ 32) :
    load (apply m (block p bs)) p bs.length = bs := by
  refine load_eq _ p fun i hi => ?_
  rw [apply_block m p hlen, toNat_add_ofNat_sub p (by omega), List.getD_eq_getElem _ _ hi,
    List.getD_eq_getElem _ _ hi]

/-- Stores elsewhere do not change what is read. -/
theorem load_apply_of_within {lo hi : Nat} {t : List Store} (m : Mem) (h : Within lo hi t)
    {p : UInt32} {n : Nat} (hp : hi ≤ p.toNat) (hn : p.toNat + n ≤ 2 ^ 32) :
    load (apply m t) p n = load m p n := by
  induction n generalizing p with
  | zero => rfl
  | succ n ih =>
    rw [load, load, apply_of_within m h (.inr hp)]
    rcases Nat.eq_zero_or_pos n with rfl | hpos
    · rfl
    · have hsucc := toNat_succ (p := p) (by omega)
      rw [ih (by omega) (by omega)]

/-! ## Words -/

/-- `n` consecutive words read from address `p`. -/
def loadWords (m : Mem) : UInt32 → Nat → List UInt32
  | _, 0 => []
  | p, n + 1 => get32 (load m p 4) 0 :: loadWords m (p + 4) n

theorem length_flatMap_bytes32 (ws : List UInt32) :
    (ws.flatMap bytes32).length = 4 * ws.length := by
  induction ws with
  | nil => rfl
  | cons w ws ih =>
    rw [List.flatMap_cons, List.length_append, length_bytes32, ih, List.length_cons]
    omega

theorem wordAt_eq (p v : UInt32) : wordAt p v = block p ([v].flatMap bytes32) := by
  rw [wordAt, List.flatMap_singleton]

/-- Words are read where their bytes are. -/
theorem loadWords_eq {m : Mem} {p : UInt32} {ws : List UInt32}
    (h : load m p (4 * ws.length) = ws.flatMap bytes32) : loadWords m p ws.length = ws := by
  induction ws generalizing p with
  | nil => rfl
  | cons w ws ih =>
    have hlen : 4 * (w :: ws).length = 4 + 4 * ws.length := by
      rw [List.length_cons]
      omega
    rw [hlen, load_add, List.flatMap_cons] at h
    obtain ⟨hfirst, hrest⟩ := List.append_inj h (by simp)
    rw [List.length_cons, loadWords, hfirst, get32_bytes32]
    exact congrArg (w :: ·) (ih hrest)

end ByteMemory
