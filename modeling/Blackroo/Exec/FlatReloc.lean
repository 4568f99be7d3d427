import Mathlib.Data.List.Induction
import Blackroo.Lib.Words

/-!
# Relocating a flat binary

`do_reloc` of `binfmt_flat.c` patches one word of a program for each entry of its relocation list.
An address in a `lui`/`addiu` pair is in two words, with two entries: the one for the upper half
is only remembered, in static variables, and the one for the lower half patches both.  The sum
that is remembered, `res`, is also what an entry for a jump computes with.

`Relocated` says what is to become of the program.  The proof is an induction over the list from
its end (`Done`), with an exact account of what a pair gets: its own halves are `carry`, which is
the upper half remembered unless a jump came in between.

## Why the condition is about pairs

A jump between two halves leaves the target of the jump in `res`, and the second half then adds its
own part to that.  So `relocated_iff` asks of each pair that `carry` is its own upper half.  Without
a jump in between it is (`relocated_of_no_jump`); with one it is only if the sums happen to be the
same.  `call_splits_pair` is the ordinary case of a call between the two instructions, which a
compiler is free to put there.

The lower half is added with its sign.  The upper half of the pair is therefore not that of the
address but that of the address less the lower half (`toNat_sub_sext16`).
-/

namespace Blackroo
namespace Exec
namespace Flat

open ByteMemory

/-! ## The code -/

/-- The start of the text, of the data, and the end of the data. -/
structure Mm where
  startCode : UInt32
  startData : UInt32
  endData : UInt32

/-- The memory and the static variables of `do_reloc`. -/
structure State where
  mem : Mem
  prevPtr : UInt32
  prev : UInt32
  hiFlag : Bool
  res : UInt32

/-- The types of relocation. -/
inductive Kind where
  | r32
  | hi16
  | lo16
  | r26
  deriving DecidableEq, Repr

/-- `FLAT_RELOC_REL_MASK`. -/
def relMask : UInt32 := 0x30000000

/-- `FLAT_RELOC_IN_MASK`. -/
def inMask : UInt32 := 0xc0000000

/-- The section that the address points into. -/
def relSection (mm : Mm) (r : UInt32) : Option UInt32 :=
  if r &&& relMask = 0x00000000 then some mm.startCode
  else if r &&& relMask = 0x10000000 then some mm.startData
  else if r &&& relMask = 0x20000000 then some mm.endData
  else none

/-- The section of the word to be patched. -/
def inSection (mm : Mm) (r : UInt32) : Option UInt32 :=
  if r &&& inMask = 0x00000000 then some mm.startCode
  else if r &&& inMask = 0x40000000 then some mm.startData
  else if r &&& inMask = 0x80000000 then some mm.endData
  else none

/-- `rel_offset`. -/
def relOffset (r : UInt32) : UInt32 :=
  if r &&& 0x800000 = 0x800000 then 0 - (r &&& 0x7fffff) else r &&& 0x7fffff

def kindOf (r : UInt32) : Option Kind :=
  if r &&& 0xf000000 = 0x0000000 then some .r32
  else if r &&& 0xf000000 = 0x1000000 then some .hi16
  else if r &&& 0xf000000 = 0x2000000 then some .lo16
  else if r &&& 0xf000000 = 0x3000000 then some .r26
  else none

/-- An entry that is understood: with `offset`, `ptr` and its type. -/
structure Entry where
  raw : UInt32
  base : UInt32
  ptr : UInt32
  kind : Kind
  deriving DecidableEq, Repr

def decode (mm : Mm) (r : UInt32) : Option Entry := do
  let offset ← relSection mm r
  let start ← inSection mm r
  let kind ← kindOf r
  return ⟨r, offset, start + relOffset r, kind⟩

/-- `(short) w`. -/
def sext16 (w : UInt32) : UInt32 :=
  if w &&& 0xffff < 0x8000 then w &&& 0xffff else (w &&& 0xffff) - 0x10000

/-- The upper half of an address, as it stands in a `lui`. -/
def hiPart (w : UInt32) : UInt32 := (w &&& 0xffff) <<< 16

/-- The target of a jump. -/
def target (w : UInt32) : UInt32 := (w &&& 0x3ffffff) <<< 2

/-- The patch of the first half of a pair, with the address. -/
def withHi (w res : UInt32) : UInt32 :=
  (w &&& 0xffff0000) ||| ((res - sext16 res) >>> (16 : UInt32) &&& 0xffff)

/-- The patch of the second half. -/
def withLo (w res : UInt32) : UInt32 := (w &&& 0xffff0000) ||| (res &&& 0xffff)

/-- The patch of a jump. -/
def withTarget (w res : UInt32) : UInt32 :=
  (w &&& 0xfc000000) ||| (res >>> (2 : UInt32) &&& 0x3ffffff)

/-- The last `switch` of `do_reloc`. -/
def patch (s : State) (e : Entry) : State :=
  match e.kind with
  | .r32 => { s with mem := setWord s.mem e.ptr (word s.mem e.ptr + e.base) }
  | .hi16 =>
    { s with prev := e.raw, prevPtr := e.ptr, res := hiPart (word s.mem e.ptr), hiFlag := true }
  | .lo16 =>
    if !s.hiFlag ∨ e.raw &&& relMask ≠ s.prev &&& relMask ∨
      e.raw &&& inMask ≠ s.prev &&& inMask then
      s
    else
      let res := s.res + sext16 (word s.mem e.ptr) + e.base
      let mem := setWord s.mem s.prevPtr (withHi (word s.mem s.prevPtr) res)
      let mem := setWord mem e.ptr (withLo (word mem e.ptr) res)
      { s with mem := mem, res := res, hiFlag := false }
  | .r26 =>
    let res := target (word s.mem e.ptr) + e.base
    { s with mem := setWord s.mem e.ptr (withTarget (word s.mem e.ptr) res), res := res }

/-- `do_reloc`. -/
def doReloc (mm : Mm) (s : State) (r : UInt32) : State :=
  match decode mm r with
  | none => s
  | some e => patch s e

/-- The loop of `load_flat_binary`, over the entries that could be read. -/
def relocate (mm : Mm) (rs : List UInt32) (s : State) : State := rs.foldl (doReloc mm) s

/-! ## What is to become of the program -/

/-- The address in a pair. -/
def pairAddress (hi lo : UInt32) : UInt32 := hiPart hi + sext16 lo

/-- The entries `i` and `j` are those of a pair: no other half comes in between. -/
structure Pair (es : List Entry) (i j : Nat) (hi lo : Entry) : Prop where
  lt : i < j
  hi_eq : es[i]? = some hi
  lo_eq : es[j]? = some lo
  hi_kind : hi.kind = .hi16
  lo_kind : lo.kind = .lo16
  between : ∀ k e, i < k → k < j → es[k]? = some e → e.kind ≠ .hi16 ∧ e.kind ≠ .lo16

/-- Two entries for the same sections. -/
def SameSections (e e' : Entry) : Prop :=
  e.raw &&& relMask = e'.raw &&& relMask ∧ e.raw &&& inMask = e'.raw &&& inMask

instance (e e' : Entry) : Decidable (SameSections e e') := inferInstanceAs (Decidable (_ ∧ _))

/-- Every second half has its first half. -/
def LoPaired (es : List Entry) : Prop :=
  ∀ j lo, es[j]? = some lo → lo.kind = .lo16 → ∃ i hi, Pair es i j hi lo ∧ SameSections lo hi

/-- The pair holds this address, and the instructions are the same. -/
structure PairHolds (hi lo hi' lo' address : UInt32) : Prop where
  address : pairAddress hi' lo' = address
  hi_opcode : hi' >>> 16 = hi >>> 16
  lo_opcode : lo' >>> 16 = lo >>> 16

/-- The jump goes to its target moved by `base`, and is the same instruction.  A target is a
multiple of four. -/
structure JumpMoved (w w' base : UInt32) : Prop where
  field : w' &&& 0x3ffffff = (target w + base) >>> (2 : UInt32) &&& 0x3ffffff
  target : base.toNat % 4 = 0 → (target w').toNat = (target w + base).toNat % 2 ^ 28
  opcode : w' >>> 26 = w >>> 26

/-- The byte is in no word that is to be patched: the first half of a pair without a second one
stays as it is. -/
def Untouched (es : List Entry) (a : UInt32) : Prop :=
  ∀ i e, es[i]? = some e → InWord e.ptr a → e.kind = .hi16 ∧ ∀ j lo, ¬ Pair es i j e lo

/-- The program `m` is the program `m₀` relocated. -/
structure Relocated (m₀ m : Mem) (es : List Entry) : Prop where
  words : ∀ e ∈ es, e.kind = .r32 → word m e.ptr = word m₀ e.ptr + e.base
  jumps : ∀ e ∈ es, e.kind = .r26 → JumpMoved (word m₀ e.ptr) (word m e.ptr) e.base
  pairs : ∀ i j hi lo, Pair es i j hi lo →
    PairHolds (word m₀ hi.ptr) (word m₀ lo.ptr) (word m hi.ptr) (word m lo.ptr)
      (pairAddress (word m₀ hi.ptr) (word m₀ lo.ptr) + lo.base)
  others : ∀ a, Untouched es a → m a = m₀ a

/-! ## The patches -/

theorem toNat_and_low (w : UInt32) : (w &&& 0xffff).toNat = w.toNat % 2 ^ 16 := by
  rw [UInt32.toNat_and]
  exact Nat.and_two_pow_sub_one_eq_mod _ 16

theorem toNat_and_field (w : UInt32) : (w &&& 0x3ffffff).toNat = w.toNat % 2 ^ 26 := by
  rw [UInt32.toNat_and]
  exact Nat.and_two_pow_sub_one_eq_mod _ 26

theorem toNat_withHi (w res : UInt32) : (withHi w res).toNat =
    w.toNat / 2 ^ 16 * 2 ^ 16 + (res - sext16 res).toNat / 2 ^ 16 % 2 ^ 16 := by
  rw [withHi, toNat_splice (k := 16) (by decide) (by decide) (by decide), UInt32.toNat_shiftRight]
  rw [Nat.shiftRight_eq_div_pow]
  rfl

theorem toNat_withLo (w res : UInt32) :
    (withLo w res).toNat = w.toNat / 2 ^ 16 * 2 ^ 16 + res.toNat % 2 ^ 16 :=
  toNat_splice (k := 16) (by decide) (by decide) (by decide) w res

theorem toNat_withTarget (w res : UInt32) :
    (withTarget w res).toNat = w.toNat / 2 ^ 26 * 2 ^ 26 + res.toNat / 2 ^ 2 % 2 ^ 26 := by
  rw [withTarget, toNat_splice (k := 26) (by decide) (by decide) (by decide),
    UInt32.toNat_shiftRight]
  rw [Nat.shiftRight_eq_div_pow]
  rfl

/-- The sign of the lower half makes up for a carry. -/
theorem toNat_sub_sext16 (res : UInt32) : (res - sext16 res).toNat % 2 ^ 16 = 0 := by
  have hres := res.toNat_lt
  have hlow := toNat_and_low res
  rw [sext16]
  split
  · rw [UInt32.toNat_sub, hlow]
    omega
  · rw [UInt32.toNat_sub, UInt32.toNat_sub, hlow]
    show (2 ^ 32 - (2 ^ 32 - 0x10000 + res.toNat % 2 ^ 16) % 2 ^ 32 + res.toNat) % 2 ^ 32 % 2 ^
      16 = 0
    omega

theorem pairAddress_with (hi lo res : UInt32) :
    pairAddress (withHi hi res) (withLo lo res) = res := by
  have hlow : withLo lo res &&& 0xffff = res &&& 0xffff := by
    apply UInt32.toNat_inj.mp
    rw [toNat_and_low, toNat_and_low, toNat_withLo]
    omega
  have hsext : sext16 (withLo lo res) = sext16 res := by
    rw [sext16, sext16, hlow]
  have hhi : hiPart (withHi hi res) = res - sext16 res := by
    apply UInt32.toNat_inj.mp
    have hzero := toNat_sub_sext16 res
    have hlt := (res - sext16 res).toNat_lt
    rw [hiPart, UInt32.toNat_shiftLeft, toNat_and_low, toNat_withHi, Nat.shiftLeft_eq]
    show _ * 2 ^ 16 % 2 ^ 32 = _
    omega
  rw [pairAddress, hhi, hsext, UInt32.sub_add_cancel]

theorem pairHolds_with (hi lo res : UInt32) : PairHolds hi lo (withHi hi res) (withLo lo res) res
    where
  address := pairAddress_with hi lo res
  hi_opcode := by
    apply UInt32.toNat_inj.mp
    rw [UInt32.toNat_shiftRight, UInt32.toNat_shiftRight, toNat_withHi]
    show _ >>> 16 = _ >>> 16
    rw [Nat.shiftRight_eq_div_pow, Nat.shiftRight_eq_div_pow]
    omega
  lo_opcode := by
    apply UInt32.toNat_inj.mp
    rw [UInt32.toNat_shiftRight, UInt32.toNat_shiftRight, toNat_withLo]
    show _ >>> 16 = _ >>> 16
    rw [Nat.shiftRight_eq_div_pow, Nat.shiftRight_eq_div_pow]
    omega

theorem jumpMoved_with (w base : UInt32) : JumpMoved w (withTarget w (target w + base)) base where
  field := by
    apply UInt32.toNat_inj.mp
    rw [toNat_and_field, toNat_and_field, toNat_withTarget, UInt32.toNat_shiftRight]
    show _ = (_ >>> 2) % 2 ^ 26
    rw [Nat.shiftRight_eq_div_pow]
    omega
  target := by
    intro hbase
    have htarget : (target w).toNat % 4 = 0 := by
      rw [target, UInt32.toNat_shiftLeft, Nat.shiftLeft_eq]
      show _ * 2 ^ 2 % 2 ^ 32 % 4 = 0
      omega
    have hsum : (target w + base).toNat % 4 = 0 := by
      rw [UInt32.toNat_add]
      omega
    rw [target, UInt32.toNat_shiftLeft, toNat_and_field, toNat_withTarget, Nat.shiftLeft_eq]
    show _ * 2 ^ 2 % 2 ^ 32 = _
    omega
  opcode := by
    apply UInt32.toNat_inj.mp
    rw [UInt32.toNat_shiftRight, UInt32.toNat_shiftRight, toNat_withTarget]
    show _ >>> 26 = _ >>> 26
    rw [Nat.shiftRight_eq_div_pow, Nat.shiftRight_eq_div_pow]
    omega

/-! ## The list -/

/-- What `res` holds behind these entries. -/
def carry (m₀ : Mem) (res : UInt32) (es : List Entry) : UInt32 :=
  es.foldl (fun res e => if e.kind = .r26 then target (word m₀ e.ptr) + e.base else res) res

/-- What the code puts into a pair. -/
def pairResult (m₀ : Mem) (es : List Entry) (i j : Nat) (hi lo : Entry) : UInt32 :=
  carry m₀ (hiPart (word m₀ hi.ptr)) ((es.take j).drop (i + 1)) + sext16 (word m₀ lo.ptr) + lo.base

/-- The entry is the last half of an address in the list: the one for the other half may come. -/
structure Pending (es : List Entry) (i : Nat) (hi : Entry) : Prop where
  hi_eq : es[i]? = some hi
  hi_kind : hi.kind = .hi16
  after : ∀ k e, i < k → es[k]? = some e → e.kind ≠ .hi16 ∧ e.kind ≠ .lo16

/-- The state after these entries. -/
structure Done (m₀ : Mem) (es : List Entry) (s : State) : Prop where
  words : ∀ e ∈ es, e.kind = .r32 → word s.mem e.ptr = word m₀ e.ptr + e.base
  jumps : ∀ e ∈ es, e.kind = .r26 → JumpMoved (word m₀ e.ptr) (word s.mem e.ptr) e.base
  pairs : ∀ i j hi lo, Pair es i j hi lo → PairHolds (word m₀ hi.ptr) (word m₀ lo.ptr)
    (word s.mem hi.ptr) (word s.mem lo.ptr) (pairResult m₀ es i j hi lo)
  others : ∀ a, Untouched es a → s.mem a = m₀ a
  pending : ∀ i hi, Pending es i hi → s.hiFlag = true ∧ s.prev = hi.raw ∧ s.prevPtr = hi.ptr ∧
    s.res = carry m₀ (hiPart (word m₀ hi.ptr)) (es.drop (i + 1))

/-- No two entries patch the same byte. -/
def Distinct (es : List Entry) : Prop := es.Pairwise fun e e' => Apart e.ptr e'.ptr

instance (es : List Entry) : Decidable (Distinct es) := inferInstanceAs (Decidable (es.Pairwise _))

theorem Distinct.apart {es : List Entry} (h : Distinct es) {i j : Nat} {e e' : Entry}
    (hij : i ≠ j) (hi : es[i]? = some e) (hj : es[j]? = some e') : Apart e.ptr e'.ptr := by
  obtain ⟨hlt, rfl⟩ := List.getElem?_eq_some_iff.mp hi
  obtain ⟨hlt', rfl⟩ := List.getElem?_eq_some_iff.mp hj
  rcases Nat.lt_or_gt_of_ne hij with hlt'' | hgt
  · exact List.pairwise_iff_getElem.mp h i j hlt hlt' hlt''
  · exact (List.pairwise_iff_getElem.mp h j i hlt' hlt hgt).symm

section Step

variable {m₀ : Mem} {es : List Entry} {e : Entry} {s : State}

theorem getElem?_concat_of_some {i : Nat} {e' : Entry} (h : es[i]? = some e') :
    (es ++ [e])[i]? = some e' := by
  rw [List.getElem?_append_left (List.getElem?_eq_some_iff.mp h).1, h]

/-- An entry of the longer list is one of the list or the last. -/
theorem getElem?_concat_cases {i : Nat} {e' : Entry} (h : (es ++ [e])[i]? = some e') :
    es[i]? = some e' ∨ i = es.length ∧ e' = e := by
  by_cases hi : i < es.length
  · exact .inl (by rwa [List.getElem?_append_left hi] at h)
  · rw [List.getElem?_append_right (Nat.not_lt.mp hi)] at h
    have hzero : i - es.length = 0 ∧ e = e' := by
      simpa [List.getElem?_singleton] using h
    exact .inr ⟨by omega, hzero.2.symm⟩

theorem Pair.concat {i j : Nat} {hi lo : Entry} (h : Pair es i j hi lo) (e : Entry) :
    Pair (es ++ [e]) i j hi lo where
  lt := h.lt
  hi_eq := getElem?_concat_of_some h.hi_eq
  lo_eq := getElem?_concat_of_some h.lo_eq
  hi_kind := h.hi_kind
  lo_kind := h.lo_kind
  between := by
    intro k e' hik hkj hk
    have hlt := (List.getElem?_eq_some_iff.mp h.lo_eq).1
    rw [List.getElem?_append_left (by omega)] at hk
    exact h.between k e' hik hkj hk

/-- A pair of the longer list is one of the list, or its second half is the last entry. -/
theorem pair_concat_cases {i j : Nat} {hi lo : Entry} (h : Pair (es ++ [e]) i j hi lo) :
    Pair es i j hi lo ∨ j = es.length ∧ lo = e ∧ Pending es i hi := by
  have hlt := h.lt
  rcases getElem?_concat_cases h.lo_eq with hlo | ⟨hj, rfl⟩
  · have hj := (List.getElem?_eq_some_iff.mp hlo).1
    refine .inl ⟨h.lt, ?_, hlo, h.hi_kind, h.lo_kind, fun k e' hik hkj hk =>
      h.between k e' hik hkj (getElem?_concat_of_some hk)⟩
    rw [← h.hi_eq, List.getElem?_append_left (by omega)]
  · refine .inr ⟨hj, rfl, ?_, h.hi_kind, fun k e' hik hk => ?_⟩
    · rw [← h.hi_eq, List.getElem?_append_left (by omega)]
    · have hk' := (List.getElem?_eq_some_iff.mp hk).1
      exact h.between k e' hik (by omega) (getElem?_concat_of_some hk)

theorem Untouched.of_concat {a : UInt32} (h : Untouched (es ++ [e]) a) : Untouched es a := by
  intro i e' hi ha
  obtain ⟨hkind, hpair⟩ := h i e' (getElem?_concat_of_some hi) ha
  exact ⟨hkind, fun j lo hp => hpair j lo (hp.concat e)⟩

theorem pairResult_concat {i j : Nat} {hi lo : Entry} (h : Pair es i j hi lo) (e : Entry) :
    pairResult m₀ (es ++ [e]) i j hi lo = pairResult m₀ es i j hi lo := by
  have hlt := (List.getElem?_eq_some_iff.mp h.lo_eq).1
  rw [pairResult, pairResult, List.take_append_of_le_length (Nat.le_of_lt hlt)]

theorem carry_concat (res : UInt32) (es : List Entry) (e : Entry) :
    carry m₀ res (es ++ [e]) =
      if e.kind = .r26 then target (word m₀ e.ptr) + e.base else carry m₀ res es := by
  rw [carry, List.foldl_append]
  rfl

/-- A word that no entry patches is still the same. -/
theorem Done.word_eq (h : Done m₀ es s) {p : UInt32}
    (hp : ∀ a, InWord p a → Untouched es a) : word s.mem p = word m₀ p :=
  word_congr fun a ha => h.others a (hp a ha)

theorem untouched_of_apart {p : UInt32} (hp : ∀ e' ∈ es, Apart p e'.ptr) (a : UInt32)
    (ha : InWord p a) : Untouched es a := by
  intro i e' hi ha'
  exact absurd ha' ((hp e' (List.mem_of_getElem? hi)).not_inWord ha)

theorem untouched_of_pending (hdist : Distinct es) {i : Nat} {hi : Entry} (hp : Pending es i hi)
    (a : UInt32) (ha : InWord hi.ptr a) : Untouched es a := by
  intro k e' hk ha'
  by_cases hki : i = k
  · subst hki
    obtain rfl := Option.some.inj (hp.hi_eq.symm.trans hk)
    exact ⟨hp.hi_kind, fun j lo hpair => (hp.after j lo hpair.lt hpair.lo_eq).2 hpair.lo_kind⟩
  · exact absurd ha' ((hdist.apart hki hp.hi_eq hk).not_inWord ha)

/-- An entry that is not the second half of a pair. -/
theorem Done.concat (h : Done m₀ es s) {s' : State} (hlo : e.kind ≠ .lo16)
    (hapart : ∀ e' ∈ es, Apart e.ptr e'.ptr)
    (hmem : ∀ a, ¬ InWord e.ptr a → s'.mem a = s.mem a)
    (hr32 : e.kind = .r32 → word s'.mem e.ptr = word m₀ e.ptr + e.base)
    (hr26 : e.kind = .r26 → JumpMoved (word m₀ e.ptr) (word s'.mem e.ptr) e.base)
    (hhi : e.kind = .hi16 → s'.mem = s.mem)
    (hpending : ∀ i hi, Pending (es ++ [e]) i hi → s'.hiFlag = true ∧ s'.prev = hi.raw ∧
      s'.prevPtr = hi.ptr ∧
      s'.res = carry m₀ (hiPart (word m₀ hi.ptr)) ((es ++ [e]).drop (i + 1))) :
    Done m₀ (es ++ [e]) s' := by
  have hkeep {e' : Entry} (he' : e' ∈ es) : word s'.mem e'.ptr = word s.mem e'.ptr :=
    word_congr fun a ha => hmem a fun hin => (hapart e' he').not_inWord hin ha
  refine ⟨?_, ?_, ?_, ?_, hpending⟩
  · intro e' he' hkind
    rcases List.mem_append.mp he' with he' | he'
    · rw [hkeep he', h.words e' he' hkind]
    · obtain rfl := List.mem_singleton.mp he'
      exact hr32 hkind
  · intro e' he' hkind
    rcases List.mem_append.mp he' with he' | he'
    · rw [hkeep he']
      exact h.jumps e' he' hkind
    · obtain rfl := List.mem_singleton.mp he'
      exact hr26 hkind
  · intro i j hi lo hpair
    rcases pair_concat_cases hpair with hpair' | ⟨-, rfl, -⟩
    · rw [hkeep (List.mem_of_getElem? hpair'.hi_eq), hkeep (List.mem_of_getElem? hpair'.lo_eq),
        pairResult_concat hpair']
      exact h.pairs i j hi lo hpair'
    · exact absurd hpair.lo_kind hlo
  · intro a ha
    have hsame : s'.mem a = s.mem a := by
      by_cases hin : InWord e.ptr a
      · have hkind := (ha es.length e (by simp) hin).1
        rw [hhi hkind]
      · exact hmem a hin
    rw [hsame, h.others a ha.of_concat]

/-- What is pending behind an entry that is no half of an address. -/
theorem pending_of_concat {i : Nat} {hi : Entry} (hp : Pending (es ++ [e]) i hi)
    (hhi : e.kind ≠ .hi16) : Pending es i hi ∧ i < es.length := by
  rcases getElem?_concat_cases hp.hi_eq with h | ⟨-, rfl⟩
  · exact ⟨⟨h, hp.hi_kind, fun k e' hik hk => hp.after k e' hik (getElem?_concat_of_some hk)⟩,
      (List.getElem?_eq_some_iff.mp h).1⟩
  · exact absurd hp.hi_kind hhi

/-- There is one first half that waits at most. -/
theorem Pending.unique {i i' : Nat} {hi hi' : Entry} (hp : Pending es i hi)
    (hp' : Pending es i' hi') : i' = i ∧ hi' = hi := by
  have hii : i' = i := by
    rcases Nat.lt_trichotomy i' i with hlt | heq | hgt
    · exact absurd hp.hi_kind (hp'.after i hi hlt hp.hi_eq).1
    · exact heq
    · exact absurd hp'.hi_kind (hp.after i' hi' hgt hp'.hi_eq).1
  subst hii
  exact ⟨rfl, Option.some.inj (hp'.hi_eq.symm.trans hp.hi_eq)⟩

/-- It belongs to no pair yet. -/
theorem Pending.ne_of_pair {i i' j' : Nat} {hi hi' lo' : Entry} (hp : Pending es i hi)
    (hpair : Pair es i' j' hi' lo') : i ≠ i' ∧ i ≠ j' := by
  constructor
  · rintro rfl
    exact (hp.after j' lo' hpair.lt hpair.lo_eq).2 hpair.lo_kind
  · rintro rfl
    obtain rfl := Option.some.inj (hp.hi_eq.symm.trans hpair.lo_eq)
    exact absurd (hp.hi_kind.symm.trans hpair.lo_kind) (by decide)

/-- The next second half makes it a pair. -/
theorem Pending.pair {i : Nat} {hi : Entry} (hp : Pending es i hi) (hkind : e.kind = .lo16) :
    Pair (es ++ [e]) i es.length hi e where
  lt := (List.getElem?_eq_some_iff.mp hp.hi_eq).1
  hi_eq := getElem?_concat_of_some hp.hi_eq
  lo_eq := by simp
  hi_kind := hp.hi_kind
  lo_kind := hkind
  between := by
    intro k e' hik hk hget
    rw [List.getElem?_append_left hk] at hget
    exact hp.after k e' hik hget

theorem drop_concat {i : Nat} (hi : i < es.length) :
    (es ++ [e]).drop (i + 1) = es.drop (i + 1) ++ [e] := by
  rw [List.drop_append_of_le_length (by omega)]

theorem Done.r32 (h : Done m₀ es s) (hkind : e.kind = .r32)
    (hapart : ∀ e' ∈ es, Apart e.ptr e'.ptr) : Done m₀ (es ++ [e]) (patch s e) := by
  have hword := h.word_eq (untouched_of_apart hapart)
  have hpatch : patch s e = { s with mem := setWord s.mem e.ptr (word s.mem e.ptr + e.base) } := by
    rw [patch, hkind]
  rw [hpatch]
  refine h.concat (by simp [hkind]) hapart (fun a ha => setWord_of_not_inWord _ _ ha) (fun _ => ?_)
    (by simp [hkind]) (by simp [hkind]) fun i hi hp => ?_
  · rw [word_setWord, hword]
  · obtain ⟨hp', hlt⟩ := pending_of_concat hp (by simp [hkind])
    rw [drop_concat hlt, carry_concat, if_neg (by simp [hkind])]
    exact h.pending i hi hp'

theorem Done.r26 (h : Done m₀ es s) (hkind : e.kind = .r26)
    (hapart : ∀ e' ∈ es, Apart e.ptr e'.ptr) : Done m₀ (es ++ [e]) (patch s e) := by
  have hword := h.word_eq (untouched_of_apart hapart)
  have hpatch : patch s e = { s with
      mem := setWord s.mem e.ptr (withTarget (word s.mem e.ptr)
        (target (word s.mem e.ptr) + e.base))
      res := target (word s.mem e.ptr) + e.base } := by
    rw [patch, hkind]
  rw [hpatch, hword]
  refine h.concat (by simp [hkind]) hapart (fun a ha => setWord_of_not_inWord _ _ ha)
    (by simp [hkind]) (fun _ => ?_) (by simp [hkind]) fun i hi hp => ?_
  · rw [word_setWord]
    exact jumpMoved_with _ _
  · obtain ⟨hp', hlt⟩ := pending_of_concat hp (by simp [hkind])
    obtain ⟨hflag, hprev, hptr, -⟩ := h.pending i hi hp'
    rw [drop_concat hlt, carry_concat, if_pos hkind]
    exact ⟨hflag, hprev, hptr, rfl⟩

theorem Done.hi16 (h : Done m₀ es s) (hkind : e.kind = .hi16)
    (hapart : ∀ e' ∈ es, Apart e.ptr e'.ptr) : Done m₀ (es ++ [e]) (patch s e) := by
  have hword := h.word_eq (untouched_of_apart hapart)
  have hpatch : patch s e =
      { s with
        prev := e.raw, prevPtr := e.ptr, res := hiPart (word s.mem e.ptr), hiFlag := true } := by
    rw [patch, hkind]
  rw [hpatch]
  refine h.concat (by simp [hkind]) hapart (fun a _ => rfl) (by simp [hkind]) (by simp [hkind])
    (fun _ => rfl) fun i hi hp => ?_
  rcases getElem?_concat_cases hp.hi_eq with hi_eq | ⟨rfl, rfl⟩
  · have hlt := (List.getElem?_eq_some_iff.mp hi_eq).1
    exact absurd hkind (hp.after es.length e hlt (by simp)).1
  · refine ⟨rfl, rfl, rfl, ?_⟩
    rw [List.drop_eq_nil_of_le (by simp)]
    exact congrArg hiPart hword

/-- What the second half of a pair does, with the sum in `res`. -/
theorem Done.patch_lo16 (h : Done m₀ es s) (hkind : e.kind = .lo16) (hdist : Distinct es)
    (hapart : ∀ e' ∈ es, Apart e.ptr e'.ptr) {i : Nat} {hi : Entry} (hp : Pending es i hi)
    (hsame : SameSections e hi) :
    (patch s e).mem = setWord (setWord s.mem hi.ptr
        (withHi (word m₀ hi.ptr) (pairResult m₀ (es ++ [e]) i es.length hi e)))
      e.ptr (withLo (word m₀ e.ptr) (pairResult m₀ (es ++ [e]) i es.length hi e)) := by
  obtain ⟨hflag, hprev, hptr, hres⟩ := h.pending i hi hp
  have hword := h.word_eq (untouched_of_apart hapart)
  have hwordhi := h.word_eq (untouched_of_pending hdist hp)
  have hne : Apart hi.ptr e.ptr := (hapart hi (List.mem_of_getElem? hp.hi_eq)).symm
  have hcond : ¬ (!s.hiFlag ∨ e.raw &&& relMask ≠ s.prev &&& relMask ∨
      e.raw &&& inMask ≠ s.prev &&& inMask) := by
    rw [hflag, hprev]
    simp [hsame.1, hsame.2]
  have hsum : s.res + sext16 (word s.mem e.ptr) + e.base =
      pairResult m₀ (es ++ [e]) i es.length hi e := by
    rw [pairResult, List.take_left, hres, hword]
  rw [patch, hkind]
  dsimp only
  rw [if_neg hcond, hsum, hptr, hwordhi]
  dsimp only
  rw [word_setWord_of_apart _ hne, hword]

/-- The second half of a pair. -/
theorem Done.lo16 (h : Done m₀ es s) (hkind : e.kind = .lo16) (hdist : Distinct es)
    (hapart : ∀ e' ∈ es, Apart e.ptr e'.ptr) {i : Nat} {hi : Entry} (hp : Pending es i hi)
    (hsame : SameSections e hi) : Done m₀ (es ++ [e]) (patch s e) := by
  have hmem := h.patch_lo16 hkind hdist hapart hp hsame
  generalize hresult : pairResult m₀ (es ++ [e]) i es.length hi e = result at hmem
  have hne : Apart hi.ptr e.ptr := (hapart hi (List.mem_of_getElem? hp.hi_eq)).symm
  -- an entry other than the pending one keeps its word
  have hkeep {k : Nat} {e' : Entry} (hk : es[k]? = some e') (hki : i ≠ k) :
      word (patch s e).mem e'.ptr = word s.mem e'.ptr := by
    rw [hmem, word_setWord_of_apart _ (hapart e' (List.mem_of_getElem? hk)),
      word_setWord_of_apart _ (hdist.apart hki hp.hi_eq hk)]
  have hkeep_kind {e' : Entry} (he' : e' ∈ es) (hhi : e'.kind ≠ .hi16) :
      word (patch s e).mem e'.ptr = word s.mem e'.ptr := by
    obtain ⟨k, hk⟩ := List.mem_iff_getElem?.mp he'
    refine hkeep hk ?_
    rintro rfl
    obtain rfl := Option.some.inj (hp.hi_eq.symm.trans hk)
    exact hhi hp.hi_kind
  refine ⟨?_, ?_, ?_, ?_, ?_⟩
  · intro e' he' hkind'
    rcases List.mem_append.mp he' with he' | he'
    · rw [hkeep_kind he' (by simp [hkind']), h.words e' he' hkind']
    · obtain rfl := List.mem_singleton.mp he'
      exact absurd (hkind.symm.trans hkind') (by decide)
  · intro e' he' hkind'
    rcases List.mem_append.mp he' with he' | he'
    · rw [hkeep_kind he' (by simp [hkind'])]
      exact h.jumps e' he' hkind'
    · obtain rfl := List.mem_singleton.mp he'
      exact absurd (hkind.symm.trans hkind') (by decide)
  · intro i' j' hi' lo' hpair
    rcases pair_concat_cases hpair with hpair' | ⟨rfl, rfl, hp'⟩
    · -- both halves of an earlier pair come before the pending one
      obtain ⟨hii, hij⟩ := hp.ne_of_pair hpair'
      rw [hkeep hpair'.hi_eq hii, hkeep hpair'.lo_eq hij, pairResult_concat hpair']
      exact h.pairs i' j' hi' lo' hpair'
    · obtain ⟨rfl, rfl⟩ := hp.unique hp'
      rw [hresult, hmem, word_setWord_of_apart _ hne.symm, word_setWord, word_setWord]
      exact pairHolds_with _ _ _
  · intro a ha
    have hnot : ¬ InWord e.ptr a := fun hin =>
      absurd (hkind.symm.trans (ha es.length e (by simp) hin).1) (by decide)
    have hnothi : ¬ InWord hi.ptr a := fun hin =>
      (ha i hi (getElem?_concat_of_some hp.hi_eq) hin).2 _ _ (hp.pair hkind)
    rw [hmem, setWord_of_not_inWord _ _ hnot, setWord_of_not_inWord _ _ hnothi,
      h.others a ha.of_concat]
  · -- nothing is pending behind a second half
    intro i' hi' hp'
    obtain ⟨-, hlt⟩ := pending_of_concat hp' (by simp [hkind])
    exact absurd hkind (hp'.after es.length e hlt (by simp)).2

/-- Every second half of the list has its first half: one entry more. -/
theorem LoPaired.of_concat (h : LoPaired (es ++ [e])) : LoPaired es := by
  intro j lo hlo hkind
  obtain ⟨i, hi, hpair, hsame⟩ := h j lo (getElem?_concat_of_some hlo) hkind
  rcases pair_concat_cases hpair with hpair' | ⟨hj, -, -⟩
  · exact ⟨i, hi, hpair', hsame⟩
  · exact absurd (List.getElem?_eq_some_iff.mp hlo).1 (by omega)

theorem Done.step (h : Done m₀ es s) (hdist : Distinct (es ++ [e])) (hlo : LoPaired (es ++ [e])) :
    Done m₀ (es ++ [e]) (patch s e) := by
  obtain ⟨hdist', -, hcross⟩ := List.pairwise_append.mp hdist
  have hapart : ∀ e' ∈ es, Apart e.ptr e'.ptr := fun e' he' =>
    (hcross e' he' e (List.mem_singleton_self e)).symm
  cases hkind : e.kind with
  | r32 => exact h.r32 hkind hapart
  | hi16 => exact h.hi16 hkind hapart
  | r26 => exact h.r26 hkind hapart
  | lo16 =>
    obtain ⟨i, hi, hpair, hsame⟩ := hlo es.length e (by simp) hkind
    rcases pair_concat_cases hpair with hpair' | ⟨-, -, hp⟩
    · exact absurd (List.getElem?_eq_some_iff.mp hpair'.lo_eq).1 (Nat.lt_irrefl _)
    · exact h.lo16 hkind hdist' hapart hp hsame

end Step

/-- Before the first entry. -/
theorem Done.nil (s : State) : Done s.mem [] s := by
  refine ⟨by simp, by simp, ?_, fun _ _ => rfl, ?_⟩
  · intro i j hi lo h
    exact absurd h.hi_eq (by simp)
  · intro i hi h
    exact absurd h.hi_eq (by simp)

theorem done_foldl {es : List Entry} (s : State) (hdist : Distinct es) (hlo : LoPaired es) :
    Done s.mem es (es.foldl patch s) := by
  induction es using List.reverseRecOn with
  | nil => exact Done.nil s
  | append_singleton es e ih =>
    rw [List.foldl_append]
    exact (ih (List.pairwise_append.mp hdist).1 hlo.of_concat).step hdist hlo

/-- The entries that are understood are those that do something. -/
theorem relocate_eq (mm : Mm) (rs : List UInt32) (s : State) :
    relocate mm rs s = (rs.filterMap (decode mm)).foldl patch s := by
  induction rs generalizing s with
  | nil => rfl
  | cons r rs ih =>
    have hcons : relocate mm (r :: rs) s = relocate mm rs (doReloc mm s r) := rfl
    rw [hcons, ih, doReloc, List.filterMap_cons]
    cases decode mm r with
    | none => rfl
    | some e => rfl

/-- Jumps in between do not matter if there are none. -/
theorem carry_eq_self (m₀ : Mem) (res : UInt32) {es : List Entry} (h : ∀ e ∈ es, e.kind ≠ .r26) :
    carry m₀ res es = res := by
  induction es using List.reverseRecOn with
  | nil => rfl
  | append_singleton es e ih =>
    rw [carry_concat, if_neg (h e (by simp)), ih fun e' he' => h e' (by simp [he'])]

/-- What is done is a relocation if each pair got its own upper half. -/
theorem Done.relocated {m₀ : Mem} {es : List Entry} {s : State} (h : Done m₀ es s)
    (hcarry : ∀ i j hi lo, Pair es i j hi lo →
      carry m₀ (hiPart (word m₀ hi.ptr)) ((es.take j).drop (i + 1)) = hiPart (word m₀ hi.ptr)) :
    Relocated m₀ s.mem es := by
  refine ⟨h.words, h.jumps, fun i j hi lo hpair => ?_, h.others⟩
  have hholds := h.pairs i j hi lo hpair
  rwa [pairResult, hcarry i j hi lo hpair] at hholds

theorem done_relocate (mm : Mm) (rs : List UInt32) (s : State)
    (hdist : Distinct (rs.filterMap (decode mm))) (hlo : LoPaired (rs.filterMap (decode mm))) :
    Done s.mem (rs.filterMap (decode mm)) (relocate mm rs s) := by
  rw [relocate_eq mm rs s]
  exact done_foldl s hdist hlo

/-- **The program is relocated exactly if each pair gets its own upper half**: it does without a
jump in between, whatever the static variables held at the start. -/
theorem relocated_iff (mm : Mm) (rs : List UInt32) (s : State)
    (hdist : Distinct (rs.filterMap (decode mm))) (hlo : LoPaired (rs.filterMap (decode mm))) :
    Relocated s.mem (relocate mm rs s).mem (rs.filterMap (decode mm)) ↔
      ∀ i j hi lo, Pair (rs.filterMap (decode mm)) i j hi lo →
        carry s.mem (hiPart (word s.mem hi.ptr))
          (((rs.filterMap (decode mm)).take j).drop (i + 1)) = hiPart (word s.mem hi.ptr) := by
  have hdone := done_relocate mm rs s hdist hlo
  refine ⟨fun h i j hi lo hpair => ?_, hdone.relocated⟩
  have hsum : pairResult s.mem _ i j hi lo = _ :=
    (hdone.pairs i j hi lo hpair).address.symm.trans (h.pairs i j hi lo hpair).address
  rw [pairResult, pairAddress] at hsum
  exact (UInt32.add_left_inj _).mp ((UInt32.add_left_inj _).mp hsum)

/-- A program without a jump between two halves is relocated. -/
theorem relocated_of_no_jump (mm : Mm) (rs : List UInt32) (s : State)
    (hdist : Distinct (rs.filterMap (decode mm))) (hlo : LoPaired (rs.filterMap (decode mm)))
    (hjump : ∀ i j hi lo, Pair (rs.filterMap (decode mm)) i j hi lo →
      ∀ e ∈ ((rs.filterMap (decode mm)).take j).drop (i + 1), e.kind ≠ .r26) :
    Relocated s.mem (relocate mm rs s).mem (rs.filterMap (decode mm)) := by
  refine (done_relocate mm rs s hdist hlo).relocated fun i j hi lo hpair => ?_
  exact carry_eq_self _ _ (hjump i j hi lo hpair)

/-! ## An address with a call in between -/

/-- Where the sections of a program are. -/
def callMm : Mm := ⟨0x80100000, 0x80200000, 0x80300000⟩

/-- `lui a0, 0`, `jal 0x40`, `addiu a0, a0, 0x20`. -/
def callProgram : State where
  mem := setWord (setWord (setWord (fun _ => 0) 0x80100000 0x3c040000) 0x80100004 0x0c000010)
    0x80100008 0x24840020
  prevPtr := 0
  prev := 0
  hiFlag := false
  res := 0

/-- The entries of the three instructions, all for addresses in the text. -/
def callRelocs : List UInt32 := [0x01000000, 0x03000004, 0x02000008]

def luiEntry : Entry := ⟨0x01000000, 0x80100000, 0x80100000, .hi16⟩

def jalEntry : Entry := ⟨0x03000004, 0x80100000, 0x80100004, .r26⟩

def addiuEntry : Entry := ⟨0x02000008, 0x80100000, 0x80100008, .lo16⟩

theorem callRelocs_decode : callRelocs.filterMap (decode callMm) =
    [luiEntry, jalEntry, addiuEntry] := by
  decide +kernel

theorem call_pair : Pair [luiEntry, jalEntry, addiuEntry] 0 2 luiEntry addiuEntry where
  lt := by decide
  hi_eq := rfl
  lo_eq := rfl
  hi_kind := rfl
  lo_kind := rfl
  between := by
    intro k e hk hk' he
    obtain rfl : k = 1 := by omega
    obtain rfl := Option.some.inj he
    decide

theorem call_loPaired : LoPaired [luiEntry, jalEntry, addiuEntry] := by
  intro j lo hlo hkind
  match j, hlo with
  | 0, hlo =>
    obtain rfl := Option.some.inj hlo
    exact absurd hkind (by decide)
  | 1, hlo =>
    obtain rfl := Option.some.inj hlo
    exact absurd hkind (by decide)
  | 2, hlo =>
    obtain rfl := Option.some.inj hlo
    exact ⟨0, luiEntry, call_pair, by decide⟩

/-- The target of the call gets into the address. -/
theorem call_splits_pair : Distinct (callRelocs.filterMap (decode callMm)) ∧
    LoPaired (callRelocs.filterMap (decode callMm)) ∧
    ¬ Relocated callProgram.mem (relocate callMm callRelocs callProgram).mem
      (callRelocs.filterMap (decode callMm)) := by
  rw [callRelocs_decode]
  refine ⟨by decide +kernel, call_loPaired, fun h => ?_⟩
  exact absurd (h.pairs 0 2 luiEntry addiuEntry call_pair).address (by decide +kernel)

/-- The entries without the one for the call. -/
def plainRelocs : List UInt32 := [0x01000000, 0x02000008]

theorem plainRelocs_decode : plainRelocs.filterMap (decode callMm) = [luiEntry, addiuEntry] := by
  decide +kernel

theorem plain_pair : Pair [luiEntry, addiuEntry] 0 1 luiEntry addiuEntry where
  lt := by decide
  hi_eq := rfl
  lo_eq := rfl
  hi_kind := rfl
  lo_kind := rfl
  between := by
    intro k e hk hk'
    omega

theorem plain_loPaired : LoPaired [luiEntry, addiuEntry] := by
  intro j lo hlo hkind
  match j, hlo with
  | 0, hlo =>
    obtain rfl := Option.some.inj hlo
    exact absurd hkind (by decide)
  | 1, hlo =>
    obtain rfl := Option.some.inj hlo
    exact ⟨0, luiEntry, plain_pair, by decide⟩

/-- The two halves with nothing in between are relocated. -/
theorem relocated_iff_plain :
    Relocated callProgram.mem (relocate callMm plainRelocs callProgram).mem
      (plainRelocs.filterMap (decode callMm)) := by
  have hiff := relocated_iff callMm plainRelocs callProgram
  rw [plainRelocs_decode] at hiff ⊢
  refine (hiff (by decide +kernel) plain_loPaired).mpr fun i j hi lo hpair => ?_
  have hj : j < 2 := (List.getElem?_eq_some_iff.mp hpair.lo_eq).1
  have hij := hpair.lt
  obtain ⟨rfl, rfl⟩ : i = 0 ∧ j = 1 := by omega
  rfl

end Flat
end Exec
end Blackroo
