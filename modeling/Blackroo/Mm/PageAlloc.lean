import Mathlib.Algebra.BigOperators.Group.Finset.Basic
import Mathlib.Tactic.Ring
import Blackroo.Lib.Dyadic

/-!
# The page allocator

`page_alloc.c`: the buddy system that every page of the kernel comes from.  A zone has a list of
free blocks for every order, and a bitmap with one bit for each pair of buddies.  The bit is
changed whenever one of the two goes on the list or leaves it, so it is set while exactly one of
them is free; the allocator never looks at anything else to find out whether a buddy is free.

A page is its number in `mem_map`.  `memlist_del` is given a page and not a list.  Here it takes
the page off the list that the caller means, and a page that is not there is a fault, as
are a `BUG()` and a bit outside the bitmap.  The locks, the statistics of the memory pressure and
`VALID_PAGE` are left out.

## What a bit knows

The bit of a pair says that exactly one of the two is free, and not which.  It is enough, because
the allocator only asks when it knows about one of them: a block that comes back is not free yet, so
its buddy is free exactly if the bit is set (`Zone.Good.buddy_mem_free_iff`).  `Zone.Good` is the
invariant: the blocks on the lists are disjoint, below the top order no two of them are buddies,
every bit is the parity of its pair, and the count of free pages is right.

Putting a block on its list and taking one off it change the blocks in one place, and the family of
blocks they lead to is described in `Lib.Dyadic`.  `mergeLoop_spec` and `expand_spec` are inductions
over the orders with these two steps.
-/

namespace Blackroo
namespace Mm

open Dyadic

/-! ## Zones -/

/-- `MAX_ORDER`. -/
def maxOrder : Nat := 10

/-- `free_area_t`. -/
structure FreeArea where
  freeList : List Nat
  map : List Bool

/-- What the allocator uses of `zone_t`; the areas from `maxOrder` on do not exist. -/
structure Zone where
  offset : Nat
  size : Nat
  freePages : Nat
  area : Nat → FreeArea

/-- What `__free_pages_ok` looks at in a `struct page`, and what it sets. -/
structure Page where
  reserved : Bool
  buffers : Bool
  mapping : Bool
  swapCache : Bool
  locked : Bool
  decrAfter : Bool
  dirty : Bool
  active : Bool
  inactiveDirty : Bool
  inactiveClean : Bool
  referenced : Bool
  age : Nat
  deriving DecidableEq, Repr

inductive Fault where
  | bug
  | outsideMap
  | notListed
  deriving DecidableEq, Repr

/-- `PAGE_AGE_START`. -/
def pageAgeStart : Nat := 2

/-- The macro `BAD_RANGE`; that `page->zone` is the zone of the page is how `mem_map` is built. -/
def Zone.badRange (z : Zone) (page : Nat) : Bool :=
  decide (page < z.offset) || decide (z.offset + z.size ≤ page)

def Zone.setArea (z : Zone) (order : Nat) (area : FreeArea) : Zone :=
  { z with area := Function.update z.area order area }

def Zone.setList (z : Zone) (order : Nat) (freeList : List Nat) : Zone :=
  z.setArea order ⟨freeList, (z.area order).map⟩

def Zone.setMap (z : Zone) (order : Nat) (map : List Bool) : Zone :=
  z.setArea order ⟨(z.area order).freeList, map⟩

/-- `memlist_add_head`. -/
def Zone.addHead (z : Zone) (order page : Nat) : Zone :=
  z.setList order (page :: (z.area order).freeList)

/-- `memlist_del`. -/
def Zone.del (z : Zone) (order page : Nat) : Except Fault Zone :=
  if page ∈ (z.area order).freeList then
    .ok (z.setList order ((z.area order).freeList.erase page))
  else .error .notListed

/-- `test_and_change_bit` on the map of an area. -/
def Zone.testAndChangeBit (z : Zone) (order index : Nat) : Except Fault (Bool × Zone) :=
  match (z.area order).map[index]? with
  | none => .error .outsideMap
  | some b => .ok (b, z.setMap order ((z.area order).map.set index !b))

/-- The macro `MARK_USED`. -/
def Zone.markUsed (z : Zone) (index order : Nat) : Except Fault Zone := do
  let (_, z) ← z.testAndChangeBit order (index >>> (1 + order))
  return z

/-! ## Freeing -/

/-- One of the checks of `__free_pages_ok` fails. -/
def Page.inUse (p : Page) : Bool :=
  p.buffers || p.mapping || p.swapCache || p.locked || p.decrAfter || p.dirty || p.active ||
    p.inactiveDirty || p.inactiveClean

/-- The loop of `__free_pages_ok` and the `memlist_add_head` behind it.  The mask of the source is
`-2 ^ order`, and the loop ends when the order is `MAX_ORDER - 1`, `turns` from here. -/
def mergeLoop : (turns order pageIdx index : Nat) → Zone → Except Fault Zone
  | 0, order, pageIdx, _, z => .ok (z.addHead order (z.offset + pageIdx))
  | turns + 1, order, pageIdx, index, z => do
      let (bit, z) ← z.testAndChangeBit order index
      -- The buddy page is still allocated.
      if !bit then .ok (z.addHead order (z.offset + pageIdx))
      else if z.badRange (z.offset + (pageIdx ^^^ 2 ^ order)) then .error .bug
      else if z.badRange (z.offset + pageIdx) then .error .bug
      else do
        let z ← z.del order (z.offset + (pageIdx ^^^ 2 ^ order))
        mergeLoop turns (order + 1) (pageIdx / 2 ^ (order + 1) * 2 ^ (order + 1)) (index >>> 1) z

/-- `__free_pages_ok`.  For an order that is too large the first turn of the loop is past the last
area. -/
def freePagesOk (z : Zone) (page : Page) (no order : Nat) : Except Fault (Zone × Page) :=
  if page.reserved then .ok (z, page)
  else if page.inUse then .error .bug
  else if (no - z.offset) % 2 ^ order ≠ 0 then .error .bug
  else if maxOrder ≤ order then .error .bug
  else do
    let pageIdx := no - z.offset
    let z := { z with freePages := z.freePages + 2 ^ order }
    let z ← mergeLoop (maxOrder - 1 - order) order pageIdx (pageIdx >>> (1 + order)) z
    return (z, { page with referenced := false, age := pageAgeStart })

/-! ## Allocating -/

/-- `expand`: the first half of the block goes back on a list, the second is divided further. -/
def expand (low : Nat) : (high page index : Nat) → Zone → Except Fault (Nat × Zone)
  | 0, page, _, z => if z.badRange page then .error .bug else .ok (page, z)
  | high + 1, page, index, z =>
    if z.badRange page then .error .bug
    else if low < high + 1 then do
      let z ← (z.addHead high page).markUsed index high
      expand low high (page + 2 ^ high) (index + 2 ^ high) z
    else .ok (page, z)

/-- `rmqueue`, once a list with a block has been found. -/
def takeFirst (order currOrder page : Nat) (z : Zone) : Except Fault (Option Nat × Zone) :=
  if z.badRange page then .error .bug
  else do
    let index := page - z.offset
    let z ← z.del currOrder page
    let z ← z.markUsed index currOrder
    let (page, z) ← expand order currOrder page index
      { z with freePages := z.freePages - 2 ^ order }
    if z.badRange page then .error .bug else .ok (some page, z)

/-- The loop of `rmqueue`, with `turns` areas left to look into. -/
def rmqueueLoop (order : Nat) : (turns currOrder : Nat) → Zone → Except Fault (Option Nat × Zone)
  | 0, _, z => .ok (none, z)
  | turns + 1, currOrder, z =>
    match (z.area currOrder).freeList with
    | [] => rmqueueLoop order turns (currOrder + 1) z
    | page :: _ => takeFirst order currOrder page z

/-- `rmqueue`; `alloc_pages` has refused the orders from `MAX_ORDER` on. -/
def rmqueue (z : Zone) (order : Nat) : Except Fault (Option Nat × Zone) :=
  rmqueueLoop order (maxOrder - order) order z

/-! ## The zone at boot -/

/-- `size` in the loop of `free_area_init_core`, behind its assignment in turn `i`. -/
def mapSpan (size : Nat) : Nat → Nat
  | 0 => (size + 1) / 2 * 2
  | i + 1 => (mapSpan size i + (2 ^ (i + 2) - 1)) / 2 ^ (i + 2) * 2 ^ (i + 2)

/-- The bytes of the bitmap for order `i`. -/
def bitmapSize (size i : Nat) : Nat := ((mapSpan size i / 2 ^ i + 7) / 8 + 3) / 4 * 4

/-- The zone that `free_area_init_core` makes: no page is free. -/
def freeAreaInit (offset size : Nat) : Zone where
  offset := offset
  size := size
  freePages := 0
  area order := ⟨[], List.replicate (8 * bitmapSize size order) false⟩

/-! ## What the lists and the bitmaps say -/

section Zone

variable {z : Zone}

/-- Block `i` of order `o` is on its list. -/
def Zone.isFree (z : Zone) (o i : Nat) : Bool := decide (z.offset + i * 2 ^ o ∈ (z.area o).freeList)

/-- The free blocks. -/
def Zone.free (z : Zone) : Family := fun o => {i | z.isFree o i = true}

theorem Zone.mem_free {o i : Nat} : i ∈ z.free o ↔ z.offset + i * 2 ^ o ∈ (z.area o).freeList :=
  decide_eq_true_iff

/-- The pages in the free blocks, counted from the start of the zone. -/
def Zone.freeSet (z : Zone) : Set Nat := covered z.free

/-- The free lists and the bitmaps are right, with `n` pages counted as free that are on no list. -/
structure Zone.Good (z : Zone) (n : Nat) : Prop where
  nodup : ∀ o, (z.area o).freeList.Nodup
  listed : ∀ o, ∀ p ∈ (z.area o).freeList,
    o < maxOrder ∧ ∃ i, p = z.offset + i * 2 ^ o ∧ i * 2 ^ o + 2 ^ o ≤ z.size
  apart : Apart z.free
  coalesced : Coalesced (maxOrder - 1) z.free
  bits : ∀ o < maxOrder, ∀ i, i * 2 ^ o < z.size → i / 2 < (z.area o).map.length
  parity : ∀ o < maxOrder - 1, ∀ k < (z.area o).map.length,
    (z.area o).map[k]? = some (z.isFree o (2 * k) != z.isFree o (2 * k + 1))
  count : z.freePages = n + ∑ o ∈ Finset.range maxOrder, (z.area o).freeList.length * 2 ^ o

theorem Zone.Good.of_mem {n o i : Nat} (hz : z.Good n) (h : i ∈ z.free o) :
    o < maxOrder ∧ i * 2 ^ o + 2 ^ o ≤ z.size := by
  obtain ⟨ho, j, hp, hj⟩ := hz.listed o _ (Zone.mem_free.mp h)
  have hij : i * 2 ^ o = j * 2 ^ o := by omega
  exact ⟨ho, hij ▸ hj⟩

theorem Zone.Good.lt_of_mem_freeSet {n x : Nat} (hz : z.Good n) (h : x ∈ z.freeSet) :
    x < z.size := by
  obtain ⟨o, ho⟩ := h
  have hin := (hz.of_mem ho).2
  have hx := (mem_block_iff.mp (show x ∈ block o (x / 2 ^ o) from rfl)).2
  omega

/-! ## One block -/

@[simp] theorem Zone.area_setArea_self (z : Zone) (o : Nat) (a : FreeArea) :
    (z.setArea o a).area o = a :=
  Function.update_self ..

theorem Zone.area_setArea_of_ne {o o' : Nat} (z : Zone) (a : FreeArea) (h : o' ≠ o) :
    (z.setArea o a).area o' = z.area o' :=
  Function.update_of_ne h ..

@[simp] theorem Zone.setArea_setArea (z : Zone) (o : Nat) (a b : FreeArea) :
    (z.setArea o a).setArea o b = z.setArea o b := by
  rw [setArea, setArea, setArea, Function.update_idem]

theorem Zone.isFree_setArea_of_ne {o o' : Nat} (z : Zone) (a : FreeArea) (h : o' ≠ o) (i : Nat) :
    (z.setArea o a).isFree o' i = z.isFree o' i := by
  rw [isFree, isFree, area_setArea_of_ne z a h]
  rfl

/-- The pages on the lists of the other orders are the same. -/
theorem Zone.sum_setArea (z : Zone) {o : Nat} (ho : o < maxOrder) (a : FreeArea) :
    ∑ o' ∈ Finset.range maxOrder, ((z.setArea o a).area o').freeList.length * 2 ^ o' +
        (z.area o).freeList.length * 2 ^ o =
      ∑ o' ∈ Finset.range maxOrder, (z.area o').freeList.length * 2 ^ o' +
        a.freeList.length * 2 ^ o := by
  have hmem : o ∈ Finset.range maxOrder := Finset.mem_range.mpr ho
  rw [← Finset.add_sum_erase _ _ hmem, ← Finset.add_sum_erase _ (fun o' => _ * 2 ^ o') hmem,
    area_setArea_self]
  have hrest : ∑ o' ∈ (Finset.range maxOrder).erase o,
        ((z.setArea o a).area o').freeList.length * 2 ^ o' =
      ∑ o' ∈ (Finset.range maxOrder).erase o, (z.area o').freeList.length * 2 ^ o' := by
    refine Finset.sum_congr rfl fun o' ho' => ?_
    rw [area_setArea_of_ne z a (Finset.ne_of_mem_erase ho')]
  rw [hrest]
  omega

/-- The bit of a pair, for a map in which it has been changed. -/
theorem getElem?_set_not {m : List Bool} {k l : Nat} {b : Bool} (hk : m[k]? = some b) :
    (m.set k !b)[l]? = if k = l then some !b else m[l]? := by
  rw [List.getElem?_set]
  split
  · rw [if_pos (List.getElem?_eq_some_iff.mp hk).1]
  · rfl

/-- What becomes of a pair when one of the two changes. -/
theorem Zone.isFree_pair {z' : Zone} {o i : Nat} (hi : z'.isFree o i = !z.isFree o i)
    (hne : ∀ j, j ≠ i → z'.isFree o j = z.isFree o j) (k : Nat) :
    (z'.isFree o (2 * k) != z'.isFree o (2 * k + 1)) =
      if i / 2 = k then !(z.isFree o (2 * k) != z.isFree o (2 * k + 1))
      else (z.isFree o (2 * k) != z.isFree o (2 * k + 1)) := by
  by_cases hk : i / 2 = k
  · rw [if_pos hk]
    rcases (show i = 2 * k ∨ i = 2 * k + 1 by omega) with rfl | rfl
    all_goals
      rw [hi, hne _ (by omega)]
      cases z.isFree o (2 * k) <;> cases z.isFree o (2 * k + 1) <;> rfl
  · rw [if_neg hk, hne _ (by omega), hne _ (by omega)]

/-- The map that goes with a change of block `i`: below the top order the bit of the pair is
changed. -/
structure Zone.Marks (z : Zone) (o i : Nat) (m : List Bool) : Prop where
  length_eq : m.length = (z.area o).map.length
  set : o < maxOrder - 1 → ∀ b, (z.area o).map[i / 2]? = some b →
    m = (z.area o).map.set (i / 2) !b

theorem Zone.marks_set {o i j : Nat} {b : Bool} (hb : (z.area o).map[i / 2]? = some b)
    (hij : j / 2 = i / 2) : z.Marks o j ((z.area o).map.set (i / 2) !b) := by
  refine ⟨List.length_set .., fun _ b' hb' => ?_⟩
  rw [hij] at hb' ⊢
  rw [Option.some.inj (hb.symm.trans hb')]

/-- The list of one order is replaced, and the free blocks are then `F`, with a change at block
`i` only. -/
structure Zone.Swaps (z : Zone) (o i : Nat) (a : FreeArea) (F : Family) : Prop where
  marks : z.Marks o i a.map
  free : (z.setArea o a).free = F
  self : i ∈ F o ↔ i ∉ z.free o
  other : ∀ j, j ≠ i → (j ∈ F o ↔ j ∈ z.free o)
  apart : Apart F
  coalesced : Coalesced (maxOrder - 1) F

/-- The bits are right after a change. -/
theorem Zone.Swaps.parity {n o i : Nat} {a : FreeArea} {F : Family} (h : z.Swaps o i a F)
    (hz : z.Good n) (ho : o < maxOrder) (hi : i * 2 ^ o < z.size) :
    ∀ o' < maxOrder - 1, ∀ k < ((z.setArea o a).area o').map.length,
      ((z.setArea o a).area o').map[k]? =
        some ((z.setArea o a).isFree o' (2 * k) != (z.setArea o a).isFree o' (2 * k + 1)) := by
  have hmem (j : Nat) : (z.setArea o a).isFree o j = true ↔ j ∈ F o := by
    rw [← h.free]
    rfl
  have hself : (z.setArea o a).isFree o i = !z.isFree o i := by
    rw [Bool.eq_iff_iff, hmem, h.self, Bool.not_eq_true', ← Bool.not_eq_true]
    rfl
  have hother (j : Nat) (hj : j ≠ i) : (z.setArea o a).isFree o j = z.isFree o j :=
    Bool.eq_iff_iff.mpr ((hmem j).trans (h.other j hj))
  intro o' ho' k hk
  rcases eq_or_ne o' o with rfl | hne
  · have hbit := hz.parity o' ho' (i / 2) (hz.bits o' ho i hi)
    rw [area_setArea_self, h.marks.length_eq] at hk
    rw [area_setArea_self, h.marks.set ho' _ hbit, getElem?_set_not hbit,
      Zone.isFree_pair hself hother]
    split
    · rename_i hik
      rw [hik]
    · exact hz.parity o' ho' k hk
  · rw [area_setArea_of_ne z a hne] at hk ⊢
    rw [isFree_setArea_of_ne z a hne, isFree_setArea_of_ne z a hne]
    exact hz.parity o' ho' k hk

theorem Zone.Good.swap {n n' o i : Nat} {a : FreeArea} {F : Family} (hz : z.Good n)
    (h : z.Swaps o i a F) (ho : o < maxOrder) (hi : i * 2 ^ o + 2 ^ o ≤ z.size)
    (hnodup : a.freeList.Nodup)
    (hsub : ∀ p ∈ a.freeList, p = z.offset + i * 2 ^ o ∨ p ∈ (z.area o).freeList)
    (hcount : n + (z.area o).freeList.length * 2 ^ o = n' + a.freeList.length * 2 ^ o) :
    (z.setArea o a).Good n' where
  nodup := (Function.forall_update_iff z.area fun _ a => a.freeList.Nodup).mpr
    ⟨hnodup, fun o' _ => hz.nodup o'⟩
  listed := by
    refine (Function.forall_update_iff z.area fun o' a => ∀ p ∈ a.freeList, o' < maxOrder ∧
      ∃ i, p = z.offset + i * 2 ^ o' ∧ i * 2 ^ o' + 2 ^ o' ≤ z.size).mpr
      ⟨fun p hp => ?_, fun o' _ => hz.listed o'⟩
    rcases hsub p hp with rfl | hp
    · exact ⟨ho, i, rfl, hi⟩
    · exact hz.listed o p hp
  apart := h.free ▸ h.apart
  coalesced := h.free ▸ h.coalesced
  bits := (Function.forall_update_iff z.area fun o' a => o' < maxOrder → ∀ i, i * 2 ^ o' < z.size →
    i / 2 < a.map.length).mpr ⟨h.marks.length_eq ▸ hz.bits o, fun o' _ => hz.bits o'⟩
  parity := h.parity hz ho (by have := Nat.two_pow_pos o; omega)
  count := by
    have hsum := z.sum_setArea ho a
    have hbefore := hz.count
    show z.freePages = n' + _
    omega

/-! ### Putting a block on its list -/

/-- Block `i` of order `o` at the head of its list, with the map `m`. -/
def Zone.withBlock (z : Zone) (o i : Nat) (m : List Bool) : Zone :=
  z.setArea o ⟨(z.offset + i * 2 ^ o) :: (z.area o).freeList, m⟩

theorem Zone.start_inj {o i j : Nat} : z.offset + i * 2 ^ o = z.offset + j * 2 ^ o ↔ i = j :=
  ⟨fun h => Nat.eq_of_mul_eq_mul_right (Nat.two_pow_pos o) (Nat.add_left_cancel h),
    fun h => h ▸ rfl⟩

theorem Zone.free_addHead {o i : Nat} (m : List Bool) :
    (z.withBlock o i m).free = put z.free o i := by
  rw [withBlock]
  funext o'
  ext j
  rw [mem_put, mem_free, mem_free]
  rcases eq_or_ne o' o with rfl | hne
  · rw [area_setArea_self, List.mem_cons, and_iff_right rfl, or_comm]
    exact or_congr_right start_inj
  · rw [area_setArea_of_ne z _ hne, or_iff_left fun h => hne h.1]
    rfl

/-- A block without a free page is not on its list. -/
theorem Zone.notMem_free {o i : Nat} (hout : Disjoint (block o i) z.freeSet) : i ∉ z.free o :=
  fun h => Set.disjoint_left.mp hout (mul_mem_block o i)
    (block_subset_covered h (mul_mem_block o i))

/-- A block in nobody's hands goes on its list. -/
theorem Zone.Good.put {n o i : Nat} {m : List Bool} (hz : z.Good (n + 2 ^ o)) (ho : o < maxOrder)
    (hi : i * 2 ^ o + 2 ^ o ≤ z.size) (hout : Disjoint (block o i) z.freeSet)
    (hbuddy : o < maxOrder - 1 → buddy i ∉ z.free o) (hm : z.Marks o i m) :
    (z.withBlock o i m).Good n ∧ (z.withBlock o i m).freeSet = z.freeSet ∪ block o i := by
  have hnot := Zone.notMem_free hout
  have hfree := Zone.free_addHead (z := z) (o := o) (i := i) m
  refine ⟨hz.swap ⟨hm, hfree, ?_, fun j hj => ?_, hz.apart.put hout, hz.coalesced.put hbuddy⟩ ho hi
    (List.nodup_cons.mpr ⟨fun h => hnot (mem_free.mpr h), hz.nodup o⟩)
    (fun p hp => List.mem_cons.mp hp) ?_, ?_⟩
  · exact iff_of_true (mem_put.mpr (.inr ⟨rfl, rfl⟩)) hnot
  · rw [mem_put, or_iff_left fun h => hj h.2]
  · rw [List.length_cons, Nat.add_one_mul]
    omega
  · rw [freeSet, hfree, covered_put]
    rfl

/-! ### Taking a block off its list -/

/-- Block `i` of order `o` off its list, with the map `m`. -/
def Zone.withoutBlock (z : Zone) (o i : Nat) (m : List Bool) : Zone :=
  z.setArea o ⟨(z.area o).freeList.erase (z.offset + i * 2 ^ o), m⟩

theorem Zone.free_erase {n o i : Nat} (hz : z.Good n) (m : List Bool) :
    (z.withoutBlock o i m).free = take z.free o i := by
  rw [withoutBlock]
  funext o'
  ext j
  rw [mem_take, mem_free, mem_free]
  rcases eq_or_ne o' o with rfl | hne
  · rw [area_setArea_self, (hz.nodup o').mem_erase_iff, and_iff_right (b := j = i) rfl, and_comm]
    exact and_congr_right fun _ => not_congr start_inj
  · rw [area_setArea_of_ne z _ hne, and_iff_left fun h => hne h.1]
    rfl

/-- A free block leaves its list. -/
theorem Zone.Good.take {n o i : Nat} {m : List Bool} (hz : z.Good n) (hi : i ∈ z.free o)
    (hm : z.Marks o i m) :
    (z.withoutBlock o i m).Good (n + 2 ^ o) ∧
      (z.withoutBlock o i m).freeSet = z.freeSet \ block o i := by
  obtain ⟨ho, hin⟩ := hz.of_mem hi
  have hfree := Zone.free_erase (o := o) (i := i) hz m
  refine ⟨hz.swap ⟨hm, hfree, ?_, fun j hj => ?_, hz.apart.take o i, hz.coalesced.take o i⟩ ho hin
    ((hz.nodup o).erase _) (fun p hp => .inr (List.mem_of_mem_erase hp)) ?_, ?_⟩
  · exact iff_of_false (fun h => (mem_take.mp h).2 ⟨rfl, rfl⟩) (not_not.mpr hi)
  · rw [mem_take, and_iff_left fun h => hj h.2]
  · rw [← List.length_erase_add_one (mem_free.mp hi), Nat.add_one_mul]
    dsimp only
    omega
  · rw [freeSet, hfree, covered_take hz.apart hi]
    rfl

/-! ## The operations of the source on one block -/

theorem Zone.Good.testAndChangeBit {n o i : Nat} (hz : z.Good n) (ho : o < maxOrder)
    (hi : i * 2 ^ o < z.size) :
    ∃ b, (z.area o).map[i / 2]? = some b ∧
      z.testAndChangeBit o (i / 2) = .ok (b, z.setMap o ((z.area o).map.set (i / 2) !b)) := by
  obtain ⟨b, hb⟩ : ∃ b, (z.area o).map[i / 2]? = some b :=
    ⟨_, List.getElem?_eq_getElem (hz.bits o ho i hi)⟩
  refine ⟨b, hb, ?_⟩
  rw [Zone.testAndChangeBit, hb]

/-- The bit of a pair tells whether the buddy of a block is free, if the block is not. -/
theorem Zone.Good.buddy_mem_free_iff {n o i : Nat} {b : Bool} (hz : z.Good n)
    (ho : o < maxOrder - 1) (hb : (z.area o).map[i / 2]? = some b) (hi : i ∉ z.free o) :
    buddy i ∈ z.free o ↔ b = true := by
  have hpar := hz.parity o ho (i / 2) (List.getElem?_eq_some_iff.mp hb).1
  obtain rfl := Option.some.inj (hb.symm.trans hpar)
  have hnot : z.isFree o i = false := Bool.eq_false_iff.mpr hi
  show z.isFree o (buddy i) = true ↔ _
  rw [buddy_eq]
  rcases Nat.mod_two_eq_zero_or_one i with h | h
  · rw [if_pos h, show 2 * (i / 2) = i by omega, hnot, Bool.false_bne]
  · rw [if_neg (by omega), show 2 * (i / 2) + 1 = i by omega, show 2 * (i / 2) = i - 1 by omega,
      hnot, Bool.bne_false]

theorem Zone.addHead_setMap (z : Zone) (o i : Nat) (m : List Bool) :
    (z.setMap o m).addHead o (z.offset + i * 2 ^ o) = z.withBlock o i m := by
  simp [addHead, setList, setMap, withBlock]

theorem Zone.del_setMap {o i : Nat} (h : i ∈ z.free o) (m : List Bool) :
    (z.setMap o m).del o (z.offset + i * 2 ^ o) = .ok (z.withoutBlock o i m) := by
  simp [del, setList, setMap, withoutBlock, mem_free.mp h]

theorem Zone.badRange_eq_false {o i : Nat} (hi : i * 2 ^ o + 2 ^ o ≤ z.size) :
    z.badRange (z.offset + i * 2 ^ o) = false := by
  have := Nat.two_pow_pos o
  rw [badRange, decide_eq_false (by omega), decide_eq_false (by omega)]
  rfl

/-- The zone is where it was. -/
def Zone.SameBounds (z' z : Zone) : Prop := z'.offset = z.offset ∧ z'.size = z.size

theorem mul_two_pow_xor (i o : Nat) : (i * 2 ^ o) ^^^ 2 ^ o = buddy i * 2 ^ o := by
  have h : (i ^^^ 1) <<< o = i <<< o ^^^ 1 <<< o := Nat.shiftLeft_xor_distrib
  rw [Nat.shiftLeft_eq, Nat.shiftLeft_eq, Nat.shiftLeft_eq, Nat.one_mul] at h
  exact h.symm

theorem buddy_div_two (i : Nat) : buddy i / 2 = i / 2 := by
  have := buddy_eq i
  split at this <;> omega

theorem mul_two_pow_shiftRight (i o : Nat) : (i * 2 ^ o) >>> (1 + o) = i / 2 := by
  rw [Nat.shiftRight_eq_div_pow, Nat.add_comm, Nat.pow_succ, Nat.mul_comm i,
    Nat.mul_div_mul_left _ _ (Nat.two_pow_pos o)]

/-- **Merging.**  A block that is in nobody's hands is put back, with its buddies. -/
theorem mergeLoop_spec (turns : Nat) {n o i : Nat} (hz : z.Good (n + 2 ^ o))
    (ho : o + turns = maxOrder - 1)
    (hi : i * 2 ^ o + 2 ^ o ≤ z.size) (hout : Disjoint (block o i) z.freeSet) :
    ∃ z', mergeLoop turns o (i * 2 ^ o) (i / 2) z = .ok z' ∧ z'.Good n ∧
      z'.freeSet = z.freeSet ∪ block o i ∧ z'.SameBounds z := by
  induction turns generalizing z o i with
  | zero =>
    -- At the top order the map is neither read nor kept.
    obtain ⟨hgood, hset⟩ := hz.put (m := (z.area o).map) (by rw [maxOrder] at *; omega) hi hout
      (by omega) ⟨rfl, by omega⟩
    exact ⟨_, rfl, hgood, hset, rfl, rfl⟩
  | succ turns ih =>
    have hlt : o < maxOrder := by omega
    have hpos : 0 < 2 ^ o := Nat.two_pow_pos o
    have hnot := Zone.notMem_free hout
    obtain ⟨b, hb, hbit⟩ := hz.testAndChangeBit hlt (show i * 2 ^ o < z.size by omega)
    have hbuddy := hz.buddy_mem_free_iff (by omega) hb hnot
    rw [mergeLoop, hbit]
    cases b with
    | false =>
      obtain ⟨hgood, hset⟩ := hz.put hlt hi hout (fun _ h => Bool.false_ne_true (hbuddy.mp h))
        (Zone.marks_set hb rfl)
      refine ⟨_, ?_, hgood, hset, rfl, rfl⟩
      show Except.ok ((z.setMap o _).addHead o (z.offset + i * 2 ^ o)) = _
      rw [Zone.addHead_setMap]
    | true =>
      have hfree := hbuddy.mpr rfl
      obtain ⟨-, hin⟩ := hz.of_mem hfree
      obtain ⟨hgood, hset⟩ := hz.take hfree (Zone.marks_set hb (buddy_div_two i))
      have hsub : block o (buddy i) ⊆ z.freeSet := block_subset_covered hfree
      have hhalf : i / 2 * 2 ^ (o + 1) + 2 ^ (o + 1) ≤ z.size := by
        -- the last page of the larger block is in one of the halves
        have hpos := Nat.two_pow_pos (o + 1)
        have hlast : i / 2 * 2 ^ (o + 1) + 2 ^ (o + 1) - 1 ∈ block (o + 1) (i / 2) :=
          mem_block_iff.mpr ⟨by omega, by omega⟩
        rw [block_buddy] at hlast
        rcases hlast with h | h
        all_goals
          have := (mem_block_iff.mp h).2
          omega
      obtain ⟨z', hrun, hgood', hset', hbounds⟩ := ih (z := z.withoutBlock o (buddy i) _)
        (o := o + 1) (i := i / 2) (by rwa [Nat.pow_succ, Nat.mul_two, ← Nat.add_assoc])
        (by omega) hhalf (by
          rw [block_buddy, hset]
          exact Set.disjoint_union_left.mpr
            ⟨hout.mono_right Set.sdiff_subset, Set.disjoint_sdiff_right⟩)
      refine ⟨z', ?_, hgood', ?_, hbounds⟩
      · have hbad₁ : (z.setMap o ((z.area o).map.set (i / 2) !true)).badRange
            (z.offset + buddy i * 2 ^ o) = false := Zone.badRange_eq_false (z := z) hin
        have hbad₂ : (z.setMap o ((z.area o).map.set (i / 2) !true)).badRange
            (z.offset + i * 2 ^ o) = false := Zone.badRange_eq_false (z := z) hi
        have hidx : i * 2 ^ o / 2 ^ (o + 1) = i / 2 := by
          rw [Nat.pow_succ, Nat.mul_comm i, Nat.mul_div_mul_left _ _ hpos]
        show (if (z.setMap o _).badRange (z.offset + (i * 2 ^ o ^^^ 2 ^ o)) = true then _
          else if (z.setMap o _).badRange (z.offset + i * 2 ^ o) = true then _ else
          (z.setMap o _).del o (z.offset + (i * 2 ^ o ^^^ 2 ^ o)) >>= _) = _
        rw [mul_two_pow_xor, Zone.del_setMap hfree, hbad₁, hbad₂, hidx]
        exact hrun
      · rw [hset', hset, block_buddy, Set.union_comm (block o i), ← Set.union_assoc,
          Set.sdiff_union_of_subset hsub]

/-! ## Specifications -/

/-- Only the count of free pages is different. -/
theorem Zone.Good.recount {n n' f : Nat} (hz : z.Good n) (h : f + n = z.freePages + n') :
    Zone.Good { z with freePages := f } n' :=
  { nodup := hz.nodup
    listed := hz.listed
    apart := hz.apart
    coalesced := hz.coalesced
    bits := hz.bits
    parity := hz.parity
    count := by
      have := hz.count
      show f = n' + ∑ o ∈ Finset.range maxOrder, (z.area o).freeList.length * 2 ^ o
      omega }

/-- `__free_pages_ok` for a page that is neither reserved nor in use. -/
theorem freePagesOk_spec {page : Page} {o i : Nat} (hz : z.Good 0)
    (hreserved : page.reserved = false)
    (huse : page.inUse = false) (ho : o < maxOrder) (hi : i * 2 ^ o + 2 ^ o ≤ z.size)
    (hout : Disjoint (block o i) z.freeSet) :
    ∃ z', freePagesOk z page (z.offset + i * 2 ^ o) o =
        .ok (z', { page with referenced := false, age := pageAgeStart }) ∧
      z'.Good 0 ∧ z'.freeSet = z.freeSet ∪ block o i ∧ z'.SameBounds z := by
  obtain ⟨z', hrun, hgood, hset, hbounds⟩ :=
    mergeLoop_spec (maxOrder - 1 - o) (z := { z with freePages := z.freePages + 2 ^ o }) (n := 0)
      (o := o) (i := i) (hz.recount (by omega)) (by omega) hi hout
  refine ⟨z', ?_, hgood, hset, hbounds⟩
  have hidx : z.offset + i * 2 ^ o - z.offset = i * 2 ^ o := Nat.add_sub_cancel_left ..
  rw [freePagesOk, hreserved, huse, hidx, if_neg Bool.false_ne_true, if_neg Bool.false_ne_true,
    if_neg (not_not.mpr (Nat.mul_mod_left i (2 ^ o))), if_neg (by omega)]
  dsimp only
  rw [mul_two_pow_shiftRight, hrun]
  rfl

theorem Zone.markUsed_addHead {o i : Nat} {b : Bool} (hb : (z.area o).map[i / 2]? = some b) :
    (z.addHead o (z.offset + i * 2 ^ o)).markUsed (i * 2 ^ o) o =
      .ok (z.withBlock o i ((z.area o).map.set (i / 2) !b)) := by
  simp only [markUsed, testAndChangeBit, mul_two_pow_shiftRight, addHead, setList, setMap,
    area_setArea_self, setArea_setArea, hb]
  rfl

theorem Zone.del_markUsed {o i : Nat} {b : Bool} (h : i ∈ z.free o)
    (hb : (z.area o).map[i / 2]? = some b) :
    (z.del o (z.offset + i * 2 ^ o) >>= fun z => z.markUsed (i * 2 ^ o) o) =
      .ok (z.withoutBlock o i ((z.area o).map.set (i / 2) !b)) := by
  rw [del, if_pos (mem_free.mp h)]
  show Zone.markUsed _ _ _ = _
  simp only [markUsed, testAndChangeBit, mul_two_pow_shiftRight, setList, setMap, area_setArea_self,
    setArea_setArea, hb]
  rfl

/-- `expand`: what is not handed out of the block is free again. -/
theorem expand_spec {low high i : Nat} (hlow : low ≤ high) (hhigh : high < maxOrder)
    (hz : z.Good (2 ^ high - 2 ^ low)) (hi : i * 2 ^ high + 2 ^ high ≤ z.size)
    (hout : Disjoint (block high i) z.freeSet) :
    ∃ j z', expand low high (z.offset + i * 2 ^ high) (i * 2 ^ high) z =
        .ok (z.offset + j * 2 ^ low, z') ∧
      block low j ⊆ block high i ∧ j * 2 ^ low + 2 ^ low ≤ z.size ∧ z'.Good 0 ∧
      z'.freeSet = z.freeSet ∪ (block high i \ block low j) ∧ z'.SameBounds z := by
  induction high generalizing z i with
  | zero =>
    obtain rfl : low = 0 := by omega
    refine ⟨i, z, ?_, subset_rfl, hi, hz, ?_, rfl, rfl⟩
    · rw [expand, Zone.badRange_eq_false hi]
      rfl
    · rw [Set.sdiff_self, Set.union_empty]
  | succ high ih =>
    have hbad : z.badRange (z.offset + i * 2 ^ (high + 1)) = false := Zone.badRange_eq_false hi
    rw [expand, hbad, if_neg Bool.false_ne_true]
    by_cases hlt : low < high + 1
    · rw [if_pos hlt]
      have hpos := Nat.two_pow_pos high
      have hpow : 2 ^ low ≤ 2 ^ high := Nat.pow_le_pow_right Nat.two_pos (by omega)
      have hdouble : 2 ^ (high + 1) = 2 ^ high + 2 ^ high := Nat.two_pow_succ _
      have hfirst : i * 2 ^ (high + 1) = 2 * i * 2 ^ high := by ring
      have hsecond : 2 * i * 2 ^ high + 2 ^ high = (2 * i + 1) * 2 ^ high := by ring
      have hhalves := block_succ high i
      rw [hhalves, Set.disjoint_union_left] at hout
      rw [hfirst] at hi ⊢
      obtain ⟨b, hb, -⟩ := hz.testAndChangeBit (show high < maxOrder by omega)
        (show 2 * i * 2 ^ high < z.size by omega)
      have hbuddy : buddy (2 * i) ∉ z.free high := by
        rw [buddy_eq, if_pos (by omega)]
        exact Zone.notMem_free hout.2
      have hcount : 2 ^ (high + 1) - 2 ^ low = 2 ^ high - 2 ^ low + 2 ^ high := by omega
      rw [hcount] at hz
      obtain ⟨hgood, hset⟩ := hz.put (by omega)
        (show 2 * i * 2 ^ high + 2 ^ high ≤ z.size by omega) hout.1 (fun _ => hbuddy)
        (Zone.marks_set hb rfl)
      rw [Zone.markUsed_addHead hb]
      obtain ⟨j, z', hrun, hsub, hin, hgood', hset', hbounds⟩ := ih (i := 2 * i + 1) (by omega)
        (by omega) hgood (show (2 * i + 1) * 2 ^ high + 2 ^ high ≤ z.size by omega) (by
          rw [hset]
          exact Set.disjoint_union_right.mpr ⟨hout.2, block_disjoint (by omega)⟩)
      refine ⟨j, z', ?_, hsub.trans (by rw [hhalves]; exact Set.subset_union_right), hin, hgood',
        ?_, hbounds⟩
      · show expand low high (z.offset + 2 * i * 2 ^ high + 2 ^ high) (2 * i * 2 ^ high + 2 ^ high)
          _ = _
        rw [Nat.add_assoc, hsecond]
        exact hrun
      · have hapart : Disjoint (block high (2 * i)) (block low j) :=
          (block_disjoint (by omega)).mono_right hsub
        rw [hset', hset, hhalves, Set.union_sdiff_distrib, hapart.sdiff_eq_left, Set.union_assoc]
    · obtain rfl : low = high + 1 := by omega
      rw [if_neg hlt]
      refine ⟨i, z, rfl, subset_rfl, hi, by rwa [Nat.sub_self] at hz, ?_, rfl, rfl⟩
      rw [Set.sdiff_self, Set.union_empty]

/-- What `rmqueue` does to a zone: it hands out a free block, if there is one. -/
inductive Rmqueues (z : Zone) (order : Nat) : Option Nat × Zone → Prop
  | taken {j : Nat} {z' : Zone} (hj : j * 2 ^ order + 2 ^ order ≤ z.size)
      (hfree : block order j ⊆ z.freeSet) (hgood : z'.Good 0)
      (hset : z'.freeSet = z.freeSet \ block order j) (hbounds : z'.SameBounds z) :
      Rmqueues z order (some (z.offset + j * 2 ^ order), z')
  | refused (hnone : ∀ j, ¬ block order j ⊆ z.freeSet) : Rmqueues z order (none, z)

theorem takeFirst_spec {order curr i : Nat} (hz : z.Good 0) (hle : order ≤ curr)
    (hfree : i ∈ z.free curr) :
    ∃ out, takeFirst order curr (z.offset + i * 2 ^ curr) z = .ok out ∧ Rmqueues z order out := by
  obtain ⟨hcurr, hi⟩ := hz.of_mem hfree
  have hpos := Nat.two_pow_pos curr
  have hpow : 2 ^ order ≤ 2 ^ curr := Nat.pow_le_pow_right Nat.two_pos hle
  have hsub : block curr i ⊆ z.freeSet := block_subset_covered hfree
  obtain ⟨b, hb, -⟩ := hz.testAndChangeBit hcurr (show i * 2 ^ curr < z.size by omega)
  obtain ⟨hgood, hset⟩ := hz.take hfree (Zone.marks_set hb rfl)
  have hmark := Zone.del_markUsed hfree hb
  generalize hz₁ : z.withoutBlock curr i ((z.area curr).map.set (i / 2) !b) = z₁ at hgood hset hmark
  have hoffset : z₁.offset = z.offset := by rw [← hz₁]; rfl
  have hsize : z₁.size = z.size := by rw [← hz₁]; rfl
  have hcount := hgood.count
  obtain ⟨j, z', hrun, hsubj, hj, hgood', hset', hbounds⟩ :=
    expand_spec (z := { z₁ with freePages := z₁.freePages - 2 ^ order }) (i := i) hle
      hcurr (hgood.recount (by omega)) (show _ ≤ z₁.size by rwa [hsize])
      (show Disjoint _ z₁.freeSet by rw [hset]; exact Set.disjoint_sdiff_right)
  change expand order curr (z₁.offset + _) _ _ = .ok (z₁.offset + _, z') at hrun
  change z'.freeSet = z₁.freeSet ∪ _ at hset'
  change _ ≤ z₁.size at hj
  have hrun' : expand order curr (z.offset + i * 2 ^ curr) (i * 2 ^ curr)
      { z₁ with freePages := z₁.freePages - 2 ^ order } = .ok (z.offset + j * 2 ^ order, z') := by
    rw [← hoffset]
    exact hrun
  rw [hsize] at hj
  have hbounds' : z'.SameBounds z := ⟨hbounds.1.trans hoffset, hbounds.2.trans hsize⟩
  refine ⟨_, ?_, .taken hj (hsubj.trans hsub) hgood' ?_ hbounds'⟩
  · have hbad : z'.badRange (z.offset + j * 2 ^ order) = false := by
      have := Zone.badRange_eq_false (z := z') (hbounds'.2 ▸ hj)
      rwa [hbounds'.1] at this
    rw [takeFirst, Zone.badRange_eq_false hi, if_neg Bool.false_ne_true]
    dsimp only
    rw [Nat.add_sub_cancel_left, ← bind_assoc, hmark]
    show (expand order curr (z.offset + i * 2 ^ curr) (i * 2 ^ curr) _ >>= _) = _
    rw [hrun']
    show (if z'.badRange (z.offset + j * 2 ^ order) = true then _ else _) = _
    rw [hbad]
    rfl
  · rw [hset', hset, Set.sdiff_union_sdiff_cancel hsub hsubj]

theorem rmqueueLoop_spec {order turns curr : Nat} (horder : order < maxOrder) (hz : z.Good 0)
    (hcurr : curr + turns = maxOrder) (hle : order ≤ curr)
    (hbelow : ∀ o, order ≤ o → o < curr → (z.area o).freeList = []) :
    ∃ out, rmqueueLoop order turns curr z = .ok out ∧ Rmqueues z order out := by
  induction turns generalizing curr with
  | zero =>
    refine ⟨_, rfl, .refused fun j hj => ?_⟩
    -- A block that is wholly free would be inside a block that is on a list.
    obtain ⟨k, hk⟩ := exists_of_block_subset hz.coalesced (by omega) hj
    have hlt := (hz.of_mem hk).1
    have hmem := Zone.mem_free.mp hk
    rw [hbelow (order + k) (by omega) (by omega)] at hmem
    exact List.not_mem_nil hmem
  | succ turns ih =>
    rw [rmqueueLoop]
    cases hl : (z.area curr).freeList with
    | nil =>
      refine ih (by omega) (by omega) fun o h₁ h₂ => ?_
      rcases Nat.lt_succ_iff_lt_or_eq.mp h₂ with h | rfl
      · exact hbelow o h₁ h
      · exact hl
    | cons page rest =>
      have hmem : page ∈ (z.area curr).freeList := by
        rw [hl]
        exact List.mem_cons_self
      obtain ⟨-, i, rfl, -⟩ := hz.listed curr page hmem
      exact takeFirst_spec hz hle (Zone.mem_free.mpr hmem)

/-- `rmqueue` always ends well, and refuses only if no block of the order is wholly free. -/
theorem rmqueue_spec {order : Nat} (horder : order < maxOrder) (hz : z.Good 0) :
    ∃ out, rmqueue z order = .ok out ∧ Rmqueues z order out :=
  rmqueueLoop_spec horder hz (by omega) le_rfl (by omega)

end Zone

/-! ## The start -/

theorem two_pow_dvd_mapSpan (size i : Nat) : 2 ^ (i + 1) ∣ mapSpan size i := by
  cases i with
  | zero => exact Dvd.intro_left _ rfl
  | succ i => exact Dvd.intro_left _ rfl

theorem le_mapSpan (size i : Nat) : size ≤ mapSpan size i := by
  have hround (n k : Nat) : n ≤ (n + (2 ^ k - 1)) / 2 ^ k * 2 ^ k := by
    have hpos := Nat.two_pow_pos k
    have hdiv := Nat.div_add_mod (n + (2 ^ k - 1)) (2 ^ k)
    have hmod := Nat.mod_lt (n + (2 ^ k - 1)) hpos
    rw [Nat.mul_comm] at hdiv
    omega
  induction i with
  | zero => exact hround size 1
  | succ i ih => exact ih.trans (hround _ (i + 2))

/-- The bitmaps have a bit for every pair of buddies. -/
theorem bits_freeAreaInit {offset size o i : Nat} (h : i * 2 ^ o < size) :
    i / 2 < ((freeAreaInit offset size).area o).map.length := by
  show _ < (List.replicate _ _).length
  rw [List.length_replicate, bitmapSize]
  have hpos := Nat.two_pow_pos o
  have hle := le_mapSpan size o
  have hspan : 2 * 2 ^ o ≤ mapSpan size o :=
    Nat.pow_succ' ▸ Nat.le_of_dvd (by omega) (two_pow_dvd_mapSpan size o)
  have hi : i ≤ mapSpan size o / 2 ^ o := (Nat.le_div_iff_mul_le hpos).mpr (by omega)
  have htwo : 2 ≤ mapSpan size o / 2 ^ o := (Nat.le_div_iff_mul_le hpos).mpr hspan
  omega

/-- No page is free at the start, and the bitmaps say so. -/
theorem good_freeAreaInit (offset size : Nat) : (freeAreaInit offset size).Good 0 :=
  { nodup := fun _ => List.nodup_nil
    listed := fun _ _ h => absurd h List.not_mem_nil
    apart := fun _ _ _ h => absurd (Zone.mem_free.mp h) List.not_mem_nil
    coalesced := fun _ _ _ h => absurd (Zone.mem_free.mp h.1) List.not_mem_nil
    bits := fun _ _ _ h => bits_freeAreaInit h
    parity := fun o _ k hk => by
      rw [List.getElem?_eq_getElem hk]
      exact congrArg some (List.getElem_replicate hk)
    count := by
      rw [Nat.zero_add]
      exact (Finset.sum_eq_zero fun o _ => Nat.zero_mul _).symm }

theorem freeSet_freeAreaInit (offset size : Nat) : (freeAreaInit offset size).freeSet = ∅ :=
  Set.eq_empty_of_forall_notMem fun _ ⟨_, h⟩ => List.not_mem_nil (Zone.mem_free.mp h)

end Mm
end Blackroo
