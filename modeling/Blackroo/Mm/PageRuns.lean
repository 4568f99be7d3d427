import Mathlib.Algebra.BigOperators.Group.Finset.Piecewise
import Mathlib.Algebra.BigOperators.Group.Finset.Sigma
import Mathlib.Algebra.Group.Action.Defs
import Blackroo.Lib.Runs
import Blackroo.Mm.PageAlloc

/-!
# Runs of the page allocator

The kernel takes blocks from a zone and gives them back, in any order.  A block that was handed
out may also be given back in parts, since the allocator does not remember how large it was.  At
boot all pages are handed out, each as a block of its own and reserved, and the boot allocator
gives the pages back that it did not use itself.

`pages_conserved` says that in every run every page of the zone is in exactly one block, free or
handed out, and that the only `BUG()` is the one for giving back a page that is still in use.
`refused_iff` says that an allocation is refused only if there is no room: merging
buddies as they come back is enough to find every free block, however the zone was cut up before.

A run is a list of events, and an event that the allocator refuses with a `BUG()` ends it.  The
invariant is `Pool.Ok`: the pages of the zone are divided between the free lists and the blocks that
are handed out.  `step_judged` says of every event whether it goes through, and that the invariant
is kept if it does; `run_judged` is the induction, by the rule of `Lib.Runs` for runs that are
judged step by step.

For `refused_iff` the invariant has to be read the other way round.  An aligned block without a page
in somebody's hands is wholly free, and a wholly free block is inside of one on a list, since two
buddies are never both on their lists.
-/

namespace Blackroo
namespace Mm

open Dyadic Runs

/-- A block that was handed out. -/
structure Held where
  no : Nat
  order : Nat
  deriving DecidableEq, Repr

/-- A page of `mem_map` is in a block. -/
def Held.Has (b : Held) (page : Nat) : Prop := b.no ≤ page ∧ page < b.no + 2 ^ b.order

instance (b : Held) (page : Nat) : Decidable (b.Has page) := inferInstanceAs (Decidable (_ ∧ _))

/-- A zone, the `struct page` of every page, and the blocks that are handed out. -/
structure Pool where
  zone : Zone
  pages : Nat → Page
  owned : List Held

/-- What happens to a pool.  The last two are done by others: a block is regarded as its two halves,
and a `struct page` is changed. -/
inductive Event where
  | alloc (order : Nat)
  | free (k : Nat)
  | split (k : Nat)
  | touch (no : Nat) (page : Page)

/-- `__free_pages_ok` for a block that is handed out.  A reserved page stays where it is. -/
def Pool.freeBlock (s : Pool) (k : Nat) (b : Held) : Except Fault Pool := do
  let (z, page) ← freePagesOk s.zone (s.pages b.no) b.no b.order
  return {
    zone := z
    pages := Function.update s.pages b.no page
    owned := if (s.pages b.no).reserved then s.owned else s.owned.eraseIdx k }

/-- The halves of a block. -/
def Held.halves (b : Held) : List Held :=
  match b.order with
  | 0 => [b]
  | o + 1 => [⟨b.no, o⟩, ⟨b.no + 2 ^ o, o⟩]

def step (s : Pool) : Event → Except Fault Pool
  | .alloc order =>
    -- The test of `alloc_pages`.
    if maxOrder ≤ order then .ok s
    else do
      let (page, z) ← rmqueue s.zone order
      return { s with
        zone := z
        owned := match page with
          | none => s.owned
          | some no => ⟨no, order⟩ :: s.owned }
  | .free k =>
    match s.owned[k]? with
    | none => .ok s
    | some b => s.freeBlock k b
  | .split k =>
    match s.owned[k]? with
    | none => .ok s
    | some b => .ok { s with owned := b.halves ++ s.owned.eraseIdx k }
  | .touch no page => .ok { s with pages := Function.update s.pages no page }

/-- The pool behind `free_area_init_core`. -/
def Pool.start (offset size : Nat) (pages : Nat → Page) : Pool where
  zone := freeAreaInit offset size
  pages := pages
  owned := (List.range size).map fun i => ⟨offset + i, 0⟩

/-- The blocks a page is in, free or handed out. -/
def Pool.holders (s : Pool) (page : Nat) : Nat :=
  ∑ o ∈ Finset.range maxOrder,
      (s.zone.area o).freeList.countP (fun no => decide (Held.Has ⟨no, o⟩ page)) +
    s.owned.countP fun b => decide (b.Has page)

/-- Every page is in one block, and the free pages have been counted. -/
structure Pool.Conserved (s : Pool) : Prop where
  holders_eq : ∀ page, s.zone.offset ≤ page → page < s.zone.offset + s.zone.size →
    s.holders page = 1
  total : s.zone.freePages + (s.owned.map fun b => 2 ^ b.order).sum = s.zone.size

/-- A block that is given back is not in use; what happens to a reserved page is nothing. -/
def Clear (s : Pool) : Event → Prop
  | .free k => ∀ b, s.owned[k]? = some b →
      (s.pages b.no).reserved = true ∨ (s.pages b.no).inUse = false
  | _ => True

/-! ## The blocks of a page -/

section Zone

variable {z : Zone}

theorem has_iff {offset o i x : Nat} :
    Held.Has ⟨offset + i * 2 ^ o, o⟩ (offset + x) ↔ x ∈ block o i := by
  rw [Held.Has, mem_block_iff]
  dsimp only
  omega

/-- A page of the zone is in one block of a list, or in none. -/
theorem Zone.Good.countP_freeList {n : Nat} (hz : z.Good n) (x o : Nat) :
    (z.area o).freeList.countP (fun no => decide (Held.Has ⟨no, o⟩ (z.offset + x))) =
      if z.isFree o (x / 2 ^ o) then 1 else 0 := by
  have hcongr : (z.area o).freeList.countP (fun no => decide (Held.Has ⟨no, o⟩ (z.offset + x))) =
      (z.area o).freeList.count (z.offset + x / 2 ^ o * 2 ^ o) := by
    refine List.countP_congr fun no hno => ?_
    obtain ⟨-, i, rfl, -⟩ := hz.listed o no hno
    rw [decide_eq_true_iff, has_iff, mem_block, beq_iff_eq, eq_comm]
    exact Zone.start_inj.symm
  rw [hcongr, (hz.nodup o).count]
  exact if_congr decide_eq_true_iff.symm rfl rfl

theorem Zone.Good.sum_countP {n x : Nat} (hz : z.Good n) [Decidable (x ∈ z.freeSet)] :
    ∑ o ∈ Finset.range maxOrder,
        (z.area o).freeList.countP (fun no => decide (Held.Has ⟨no, o⟩ (z.offset + x))) =
      if x ∈ z.freeSet then 1 else 0 := by
  rw [Finset.sum_congr rfl fun o _ => hz.countP_freeList x o]
  split
  · rename_i hx
    obtain ⟨o, ho⟩ := hx
    rw [Finset.sum_eq_single_of_mem o (Finset.mem_range.mpr (hz.of_mem ho).1)]
    · exact if_pos ho
    · intro o' _ hne
      exact if_neg fun h => hne (hz.apart x o' o h ho)
  · rename_i hx
    exact Finset.sum_eq_zero fun o _ => if_neg fun h => hx ⟨o, h⟩

/-- A block lies in the zone. -/
def Held.In (b : Held) (z : Zone) : Prop :=
  z.offset ≤ b.no ∧ b.no + 2 ^ b.order ≤ z.offset + z.size

/-- The pages of some blocks, each counted as often as there are blocks with it. -/
theorem sum_countP_has {l : List Held} (hl : ∀ b ∈ l, b.In z) :
    ∑ x ∈ Finset.range z.size, l.countP (fun b => decide (b.Has (z.offset + x))) =
      (l.map fun b => 2 ^ b.order).sum := by
  induction l with
  | nil => exact Finset.sum_eq_zero fun _ _ => rfl
  | cons b l ih =>
    obtain ⟨hno, hend⟩ := hl b List.mem_cons_self
    have hblock : ∑ x ∈ Finset.range z.size, (if b.Has (z.offset + x) then 1 else 0) =
        2 ^ b.order := by
      rw [← Finset.card_filter]
      have heq : (Finset.range z.size).filter (fun x => b.Has (z.offset + x)) =
          Finset.Ico (b.no - z.offset) (b.no - z.offset + 2 ^ b.order) := by
        ext x
        rw [Finset.mem_filter, Finset.mem_range, Finset.mem_Ico, Held.Has]
        omega
      rw [heq, Nat.card_Ico, Nat.add_sub_cancel_left]
    have hcons (x : Nat) : (b :: l).countP (fun b => decide (b.Has (z.offset + x))) =
        l.countP (fun b => decide (b.Has (z.offset + x))) +
          if b.Has (z.offset + x) then 1 else 0 := by
      rw [List.countP_cons]
      simp only [decide_eq_true_eq]
    rw [Finset.sum_congr rfl fun x _ => hcons x, Finset.sum_add_distrib, hblock,
      ih fun b' hb' => hl b' (List.mem_cons_of_mem b hb'), List.map_cons, List.sum_cons,
      Nat.add_comm]

end Zone

/-! ## The invariant -/

/-- The pages of the zone are divided between the free lists and the owners. -/
structure Pool.Ok (s : Pool) : Prop where
  zone : s.zone.Good 0
  aligned : ∀ b ∈ s.owned, b.order < maxOrder ∧ ∃ i, b.no = s.zone.offset + i * 2 ^ b.order ∧
    i * 2 ^ b.order + 2 ^ b.order ≤ s.zone.size
  shared : ∀ x < s.zone.size, s.owned.countP (fun b => decide (b.Has (s.zone.offset + x))) ≤ 1 ∧
    (x ∈ s.zone.freeSet ↔ s.owned.countP (fun b => decide (b.Has (s.zone.offset + x))) = 0)

theorem Pool.Ok.conserved {s : Pool} (hs : s.Ok) : s.Conserved := by
  classical
  have hholders (x : Nat) (hx : x < s.zone.size) : s.holders (s.zone.offset + x) = 1 := by
    obtain ⟨hle, hiff⟩ := hs.shared x hx
    rw [Pool.holders, hs.zone.sum_countP]
    split
    · rename_i hfree
      rw [hiff.mp hfree]
    · rename_i hfree
      have := mt hiff.mpr hfree
      omega
  refine ⟨fun page h₁ h₂ => ?_, ?_⟩
  · obtain ⟨x, rfl⟩ := Nat.exists_eq_add_of_le h₁
    exact hholders x (by omega)
  -- Add up the pages of all blocks.
  · have hsum : ∑ x ∈ Finset.range s.zone.size, s.holders (s.zone.offset + x) = s.zone.size := by
      rw [Finset.sum_congr rfl fun x hx => hholders x (Finset.mem_range.mp hx), Finset.sum_const,
        Finset.card_range, smul_eq_mul, Nat.mul_one]
    have hlist (o : Nat) : ∑ x ∈ Finset.range s.zone.size, (s.zone.area o).freeList.countP
        (fun no => decide (Held.Has ⟨no, o⟩ (s.zone.offset + x))) =
          (s.zone.area o).freeList.length * 2 ^ o := by
      have h := sum_countP_has (z := s.zone) (l := (s.zone.area o).freeList.map (Held.mk · o))
        fun b hb => by
          obtain ⟨no, hno, rfl⟩ := List.mem_map.mp hb
          obtain ⟨-, i, rfl, hi⟩ := hs.zone.listed o no hno
          exact ⟨Nat.le_add_right .., by dsimp only; omega⟩
      rw [List.map_map] at h
      simp only [List.countP_map] at h
      refine h.trans ?_
      rw [show (fun b : Held => 2 ^ b.order) ∘ (Held.mk · o) = fun _ => 2 ^ o from rfl,
        List.map_const', List.sum_replicate, smul_eq_mul]
    have howned := sum_countP_has (z := s.zone) (l := s.owned) fun b hb => by
      obtain ⟨-, i, hno, hi⟩ := hs.aligned b hb
      exact ⟨by omega, by omega⟩
    simp only [Pool.holders, Finset.sum_add_distrib] at hsum
    rw [Finset.sum_comm, Finset.sum_congr rfl fun o _ => hlist o, howned] at hsum
    have := hs.zone.count
    omega

/-! ## The steps -/

theorem Pool.Ok.alloc {s : Pool} (hs : s.Ok) (order : Nat) :
    ∃ s', step s (.alloc order) = .ok s' ∧ (s'.Ok ∧ s'.zone.SameBounds s.zone) ∧
      s'.pages = s.pages ∧ s.owned ⊆ s'.owned := by
  rw [step]
  by_cases horder : maxOrder ≤ order
  · rw [if_pos horder]
    exact ⟨s, rfl, ⟨hs, rfl, rfl⟩, rfl, List.Subset.refl _⟩
  rw [if_neg horder]
  obtain ⟨out, hrun, hout⟩ := rmqueue_spec (Nat.lt_of_not_le horder) hs.zone
  rw [hrun]
  refine ⟨_, rfl, ?_⟩
  cases hout with
  | refused _ => exact ⟨⟨hs, rfl, rfl⟩, rfl, List.Subset.refl _⟩
  | @taken j z' hj hfree hgood hset hbounds =>
    have hoffset : z'.offset = s.zone.offset := hbounds.1
    have hsize : z'.size = s.zone.size := hbounds.2
    refine ⟨⟨⟨hgood, fun b hb => ?_, fun x hx => ?_⟩, hbounds⟩, rfl, List.subset_cons_self ..⟩
    · show b.order < maxOrder ∧ ∃ i, b.no = z'.offset + _ ∧ _ ≤ z'.size
      rw [hoffset, hsize]
      rcases List.mem_cons.mp hb with rfl | hb
      · exact ⟨Nat.lt_of_not_le horder, j, rfl, hj⟩
      · exact hs.aligned b hb
    · obtain ⟨hle, hiff⟩ := hs.shared x (hsize ▸ hx)
      dsimp only
      rw [hoffset, hset, List.countP_cons]
      by_cases hx : x ∈ block order j
      · rw [if_pos (decide_eq_true (has_iff.mpr hx)), hiff.mp (hfree hx)]
        exact ⟨le_rfl, fun h => absurd hx h.2, fun h => absurd h (by omega)⟩
      · rw [if_neg (by rw [decide_eq_true_iff, has_iff]; exact hx), Nat.add_zero]
        exact ⟨hle, (and_iff_left hx).trans hiff⟩

/-- The other blocks, when one is given back. -/
theorem countP_eraseIdx {l : List Held} {k : Nat} {b : Held} (hb : l[k]? = some b)
    (p : Held → Bool) :
    l.countP p = (l.eraseIdx k).countP p + if p b then 1 else 0 := by
  obtain ⟨hk, rfl⟩ := List.getElem?_eq_some_iff.mp hb
  rw [← (List.getElem_cons_eraseIdx_perm hk).countP_eq, List.countP_cons]

theorem Pool.Ok.freeBlock {s : Pool} (hs : s.Ok) {k : Nat} {b : Held} (hb : s.owned[k]? = some b) :
    Judged (fun s' : Pool => s'.Ok ∧ s'.zone.SameBounds s.zone) (· = Fault.bug)
      ((s.pages b.no).reserved = true ∨ (s.pages b.no).inUse = false) (s.freeBlock k b) := by
  obtain ⟨hin, i, hno, hi⟩ := hs.aligned b (List.mem_of_getElem? hb)
  rw [Pool.freeBlock]
  cases hreserved : (s.pages b.no).reserved with
  | true =>
    rw [freePagesOk, hreserved]
    exact .ok (.inl rfl) ⟨⟨hs.zone, hs.aligned, hs.shared⟩, rfl, rfl⟩
  | false =>
    cases huse : (s.pages b.no).inUse with
    | true =>
      rw [freePagesOk, hreserved, huse]
      exact .error (by simp) rfl
    | false =>
      have hhas (x : Nat) : b.Has (s.zone.offset + x) ↔ x ∈ block b.order i := by
        have h := @has_iff s.zone.offset b.order i x
        rwa [← hno] at h
      have hpage (x : Nat) := countP_eraseIdx hb fun b => decide (b.Has (s.zone.offset + x))
      have hout : Disjoint (block b.order i) s.zone.freeSet := by
        refine Set.disjoint_left.mpr fun x hx hfree => ?_
        have hcount := ((hs.shared x (hs.zone.lt_of_mem_freeSet hfree)).2).mp hfree
        rw [hpage x, if_pos (decide_eq_true ((hhas x).mpr hx))] at hcount
        omega
      obtain ⟨z', hrun, hgood, hset, hbounds⟩ :=
        freePagesOk_spec hs.zone hreserved huse hin hi hout
      rw [← hno] at hrun
      rw [hrun]
      refine .ok (.inr rfl) ⟨⟨hgood, fun c hc => ?_, fun x hx => ?_⟩, hbounds⟩
      · show c.order < maxOrder ∧ ∃ i, c.no = z'.offset + _ ∧ _ ≤ z'.size
        rw [hbounds.1, hbounds.2]
        exact hs.aligned c (List.mem_of_mem_eraseIdx hc)
      · obtain ⟨hle, hiff⟩ := hs.shared x (hbounds.2 ▸ hx)
        show (s.owned.eraseIdx k).countP (fun b => decide (b.Has (z'.offset + x))) ≤ 1 ∧
          (x ∈ z'.freeSet ↔ (s.owned.eraseIdx k).countP _ = 0)
        rw [hbounds.1, hset, Set.mem_union, hiff]
        have hpage := hpage x
        by_cases hx : x ∈ block b.order i
        · rw [if_pos (decide_eq_true ((hhas x).mpr hx))] at hpage
          exact ⟨by omega, fun _ => by omega, fun _ => .inr hx⟩
        · rw [if_neg (by rw [decide_eq_true_iff, hhas]; exact hx), Nat.add_zero] at hpage
          rw [← hpage]
          exact ⟨hle, or_iff_left hx⟩

theorem Held.countP_halves (b : Held) (page : Nat) :
    b.halves.countP (fun b => decide (b.Has page)) = if b.Has page then 1 else 0 := by
  obtain ⟨no, order⟩ := b
  cases order with
  | zero => simp [Held.halves, List.countP_cons]
  | succ o =>
    have hdouble : 2 ^ (o + 1) = 2 ^ o + 2 ^ o := Nat.two_pow_succ _
    have hor : Held.Has ⟨no, o + 1⟩ page ↔
        Held.Has ⟨no, o⟩ page ∨ Held.Has ⟨no + 2 ^ o, o⟩ page := by
      simp only [Held.Has]
      omega
    have hnot : Held.Has ⟨no, o⟩ page → ¬ Held.Has ⟨no + 2 ^ o, o⟩ page := by
      simp only [Held.Has]
      omega
    by_cases h : Held.Has ⟨no, o⟩ page
    · simp [Held.halves, hor, h, hnot h]
    · simp [Held.halves, List.countP_cons, hor, h]

theorem Pool.Ok.split {s : Pool} (hs : s.Ok) {k : Nat} {b : Held} (hb : s.owned[k]? = some b) :
    Pool.Ok { s with owned := b.halves ++ s.owned.eraseIdx k } := by
  refine ⟨hs.zone, fun c hc => ?_, fun x hx => ?_⟩
  · rcases List.mem_append.mp hc with hc | hc
    · obtain ⟨hin, i, hno, hi⟩ := hs.aligned b (List.mem_of_getElem? hb)
      obtain ⟨no, order⟩ := b
      cases order with
      | zero =>
        obtain rfl := List.mem_singleton.mp hc
        exact ⟨hin, i, hno, hi⟩
      | succ o =>
        have hhalves : i * 2 ^ (o + 1) = 2 * i * 2 ^ o := by ring
        have hsecond : (2 * i + 1) * 2 ^ o = 2 * i * 2 ^ o + 2 ^ o := Nat.add_one_mul ..
        have hdouble : 2 ^ (o + 1) = 2 ^ o + 2 ^ o := Nat.two_pow_succ _
        have hpos := Nat.two_pow_pos o
        dsimp only at hin hno hi
        rcases List.mem_pair.mp hc with rfl | rfl
        · exact ⟨show o < maxOrder by omega, 2 * i,
            show no = s.zone.offset + 2 * i * 2 ^ o by omega,
            show 2 * i * 2 ^ o + 2 ^ o ≤ s.zone.size by omega⟩
        · exact ⟨show o < maxOrder by omega, 2 * i + 1,
            show no + 2 ^ o = s.zone.offset + (2 * i + 1) * 2 ^ o by omega,
            show (2 * i + 1) * 2 ^ o + 2 ^ o ≤ s.zone.size by omega⟩
    · exact hs.aligned c (List.mem_of_mem_eraseIdx hc)
  · have hcount := countP_eraseIdx hb fun b => decide (b.Has (s.zone.offset + x))
    simp only [decide_eq_true_eq] at hcount
    dsimp only
    rw [List.countP_append, Held.countP_halves, Nat.add_comm, ← hcount]
    exact hs.shared x hx

/-- **One step.** -/
theorem step_judged (s : Pool) (e : Event) (hs : s.Ok) :
    Judged (fun s' : Pool => s'.Ok ∧ s'.zone.SameBounds s.zone) (· = Fault.bug) (Clear s e)
      (step s e) := by
  cases e with
  | alloc order =>
    obtain ⟨s', hs', hok, -⟩ := hs.alloc order
    exact .of_exists trivial ⟨s', hs', hok⟩
  | free k =>
    rw [step]
    cases hb : s.owned[k]? with
    | none =>
      exact .ok (fun b h => absurd (hb.symm.trans h) (Option.some_ne_none b).symm) ⟨hs, rfl, rfl⟩
    | some b =>
      refine (hs.freeBlock hb).congr ⟨fun h b' hb' => ?_, fun h => h b hb⟩
      obtain rfl := Option.some.inj (hb.symm.trans hb')
      exact h
  | split k =>
    rw [step]
    cases hb : s.owned[k]? with
    | none => exact .ok trivial ⟨hs, rfl, rfl⟩
    | some b => exact .ok trivial ⟨hs.split hb, rfl, rfl⟩
  | touch no page => exact .ok trivial ⟨⟨hs.zone, hs.aligned, hs.shared⟩, rfl, rfl⟩

theorem ok_start (offset size : Nat) (pages : Nat → Page) : (Pool.start offset size pages).Ok where
  zone := good_freeAreaInit offset size
  aligned b hb := by
    obtain ⟨i, hi, rfl⟩ := List.mem_map.mp hb
    refine ⟨show 0 < maxOrder by decide, i, ?_, ?_⟩
    · rw [Nat.pow_zero, Nat.mul_one]
      rfl
    · rw [Nat.pow_zero, Nat.mul_one]
      exact List.mem_range.mp hi
  shared x hx := by
    have hcount : (Pool.start offset size pages).owned.countP
        (fun b => decide (b.Has (offset + x))) = 1 := by
      show ((List.range size).map fun i => (⟨offset + i, 0⟩ : Held)).countP _ = 1
      rw [List.countP_map]
      have hcongr : (List.range size).countP ((fun b : Held => decide (b.Has (offset + x))) ∘
          fun i => ⟨offset + i, 0⟩) = (List.range size).count x := by
        refine List.countP_congr fun i _ => ?_
        rw [Function.comp_apply, decide_eq_true_iff, beq_iff_eq, Held.Has]
        dsimp only
        omega
      rw [hcongr, List.nodup_range.count]
      exact if_pos (List.mem_range.mpr hx)
    show _ ≤ 1 ∧ (x ∈ (freeAreaInit offset size).freeSet ↔ _ = 0)
    rw [freeSet_freeAreaInit]
    constructor
    · exact hcount.le
    · exact ⟨fun h => absurd h (Set.notMem_empty x),
        fun h => absurd (hcount.symm.trans h) one_ne_zero⟩

/-- **A run.**  The zone stays where it is. -/
theorem run_judged (offset size : Nat) (pages : Nat → Page) (events : List Event) :
    Judged (fun s : Pool => s.Ok ∧ s.zone.offset = offset ∧ s.zone.size = size) (· = Fault.bug)
      (ClearRun step Clear (Pool.start offset size pages) events)
      (events.foldlM step (Pool.start offset size pages)) := by
  refine judged_run (fun s e hs => ?_) ⟨ok_start offset size pages, rfl, rfl⟩ events
  refine (step_judged s e hs.1).mono fun s' hs' => ?_
  exact ⟨hs'.1, hs'.2.1.trans hs.2.1, hs'.2.2.trans hs.2.2⟩

/-- **No page is lost, and none is handed out twice.**  Whatever is allocated and given back, in
whatever order, every page of the zone is in exactly one block, and the free pages are counted
right.  The allocator stops for one reason only, a page that is given back while it is in use. -/
theorem pages_conserved (offset size : Nat) (pages : Nat → Page) (events : List Event) :
    ((∃ s, events.foldlM step (Pool.start offset size pages) = .ok s) ↔
        ClearRun step Clear (Pool.start offset size pages) events) ∧
      (∀ s, events.foldlM step (Pool.start offset size pages) = .ok s → s.Conserved) ∧
      ∀ f, events.foldlM step (Pool.start offset size pages) = .error f → f = .bug := by
  have hrun := run_judged offset size pages events
  refine ⟨hrun.exists_ok_iff, fun s hs => ?_, fun f hf => ?_⟩
  · rw [hs] at hrun
    cases hrun with
    | ok _ hok => exact hok.1.conserved
  · rw [hf] at hrun
    cases hrun with
    | error _ hbug => exact hbug

/-- The pages that are not handed out are free. -/
theorem Pool.Ok.mem_freeSet_iff {s : Pool} (hs : s.Ok) {x : Nat} (hx : x < s.zone.size) :
    x ∈ s.zone.freeSet ↔ ∀ b ∈ s.owned, ¬ b.Has (s.zone.offset + x) := by
  rw [(hs.shared x hx).2, List.countP_eq_zero]
  simp only [decide_eq_true_eq]

/-- **An allocation is refused only if there is no room.**  In every state that a run leads to, an
allocation of `2 ^ order` pages fails exactly if every aligned block of that many pages has a page
that is handed out. -/
theorem refused_iff (offset size : Nat) (pages : Nat → Page) (events : List Event) (s : Pool)
    (hs : events.foldlM step (Pool.start offset size pages) = .ok s) (order : Nat)
    (horder : order < maxOrder) :
    (∃ z, rmqueue s.zone order = .ok (none, z)) ↔
      ∀ j, j * 2 ^ order + 2 ^ order ≤ size →
        ∃ b ∈ s.owned, ∃ x < 2 ^ order, b.Has (offset + j * 2 ^ order + x) := by
  obtain ⟨hok, rfl, rfl⟩ : s.Ok ∧ s.zone.offset = offset ∧ s.zone.size = size := by
    have hrun := run_judged offset size pages events
    rw [hs] at hrun
    cases hrun with
    | ok _ hok => exact hok
  -- A block is wholly free if none of its pages is handed out.
  have hblock (j : Nat) (hj : j * 2 ^ order + 2 ^ order ≤ s.zone.size) :
      block order j ⊆ s.zone.freeSet ↔
        ¬ ∃ b ∈ s.owned, ∃ x < 2 ^ order, b.Has (s.zone.offset + j * 2 ^ order + x) := by
    push Not
    constructor
    · intro hsub b hb x hx
      have hmem : j * 2 ^ order + x ∈ s.zone.freeSet :=
        hsub (mem_block_iff.mpr ⟨by omega, by omega⟩)
      rw [Nat.add_assoc]
      exact (hok.mem_freeSet_iff (by omega)).mp hmem b hb
    · intro h y hy
      obtain ⟨h₁, h₂⟩ := mem_block_iff.mp hy
      refine (hok.mem_freeSet_iff (by omega)).mpr fun b hb => ?_
      have := h b hb (y - j * 2 ^ order) (by omega)
      rwa [Nat.add_assoc, Nat.add_sub_cancel' h₁] at this
  obtain ⟨out, hout, hcases⟩ := rmqueue_spec horder hok.zone
  rw [hout]
  cases hcases with
  | refused hnone =>
    refine iff_of_true ⟨_, rfl⟩ fun j hj => ?_
    exact not_not.mp (mt (hblock j hj).mpr (hnone j))
  | taken hj hfree _ _ _ =>
    refine iff_of_false ?_ fun h => (hblock _ hj).mp hfree (h _ hj)
    rintro ⟨z, hz⟩
    exact absurd (congrArg Prod.fst (Except.ok.inj hz)) (Option.some_ne_none _)

/-- A page behind `free_area_init_core`. -/
def bootPage : Page where
  reserved := true
  buffers := false
  mapping := false
  swapCache := false
  locked := false
  decrAfter := false
  dirty := false
  active := false
  inactiveDirty := false
  inactiveClean := false
  referenced := false
  age := 0

/-- The pool that a run leads to. -/
def Pool.after (s : Pool) (events : List Event) : Pool := (events.foldlM step s).toOption.getD s

/-- The first two of four pages are given back, one after the other. -/
def freeBuddies : List Event :=
  [.touch 0 { bootPage with reserved := false }, .touch 1 { bootPage with reserved := false },
    .free 0, .free 0]

/-- The two pages have become one block again, which can be had, and after that not even one page
can. -/
theorem refused_iff_buddies :
    (¬ ∃ z, rmqueue ((Pool.start 0 4 fun _ => bootPage).after freeBuddies).zone 1 =
        .ok (none, z)) ∧
      ∃ z, rmqueue ((Pool.start 0 4 fun _ => bootPage).after (freeBuddies ++ [.alloc 1])).zone 0 =
        .ok (none, z) := by
  constructor
  · refine (refused_iff 0 4 (fun _ => bootPage) freeBuddies _ rfl 1 (by decide)).not.mpr fun h => ?_
    exact absurd (h 0 (by decide)) (by decide +kernel)
  · refine (refused_iff 0 4 (fun _ => bootPage) (freeBuddies ++ [.alloc 1]) _ rfl 0
      (by decide)).mpr ?_
    have hheld : ∀ j < 4, ∃ b ∈ ((Pool.start 0 4 fun _ => bootPage).after
        (freeBuddies ++ [.alloc 1])).owned, ∃ x < 2 ^ 0, b.Has (0 + j * 2 ^ 0 + x) := by
      decide +kernel
    intro j hj
    exact hheld j (by omega)

end Mm
end Blackroo
