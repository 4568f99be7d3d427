import Blackroo.Brsh.Consistency

/-!
# What mkfs refuses

`cmd_mkfs` describes a volume by one group: one block of bitmap for its blocks, one descriptor
with 16 bits for either count.  It refuses what is too small.  It does not ask whether the volume
is too large, so that everything beyond 8193 blocks is accepted as well:

* from 8194 blocks on the volume needs a second group, and the command says `done` without one;
* from 67657 blocks on the descriptor keeps the free blocks modulo 65536
  (`freeBlocks_lt_iff`);
* when the metadata pass block 8192, the loop over the block bitmap leaves `fsbuf`
  (`stray_blockBitmap_iff`).

What a run has made by the time it ends depends on the first write that fails (`Kernel.made`), and
a failing write is the only other way for a volume to get away.  `mkfs_sound_iff` is the exact
condition.
-/

namespace Blackroo
namespace Brsh

/-! ## How far a run gets -/

/-- The `n`-th `fs_put` fails. -/
def Kernel.PutFails (k : Kernel) (n : Nat) : Prop :=
  k.lseekResult n < 0 ∨ k.writeResult n ≠ fsBsize.toNat

instance (k : Kernel) (n : Nat) : Decidable (k.PutFails n) := inferInstanceAs (Decidable (_ ∨ _))

/-- The blocks that are made in `fsbuf`, the first of them for the `n`-th write: the block whose
write fails is the last one. -/
def Kernel.made (k : Kernel) : Nat → List (UInt32 × Fsbuf) → List (UInt32 × Fsbuf)
  | _, [] => []
  | n, e :: es => e :: if k.PutFails n then [] else k.made (n + 1) es

theorem fsPut_neg_iff (k : Kernel) (n : Nat) (dev : Device) (blk : UInt32) (buf : Fsbuf) :
    (fsPut k n dev blk buf).1 < 0 ↔ k.PutFails n := by
  rw [fsPut, Kernel.PutFails]
  by_cases hseek : k.lseekResult n < 0
  · simp [hseek]
  · by_cases hwrite : k.writeResult n = fsBsize.toNat
    · simp [hseek, hwrite]
    · simp only [hseek, hwrite, if_false, ne_eq, not_false_eq_true, if_true, or_true, iff_true]
      split <;> omega

/-- The writes end with an error if one of them fails. -/
theorem putAll_neg_iff (k : Kernel) (n : Nat) (dev : Device) (es : List (UInt32 × Fsbuf)) :
    (putAll k n dev es).1 < 0 ↔ ∃ i < es.length, k.PutFails (n + i) := by
  induction es generalizing n dev with
  | nil => simp [putAll]
  | cons e es ih =>
    obtain ⟨blk, buf⟩ := e
    have hput := fsPut_neg_iff k n dev blk buf
    simp only [putAll]
    by_cases hfail : k.PutFails n
    · rw [if_pos (hput.mpr hfail)]
      exact iff_of_true (hput.mpr hfail) ⟨0, Nat.succ_pos _, hfail⟩
    · rw [if_neg (hput.not.mpr hfail), ih]
      constructor
      · rintro ⟨i, hi, hfails⟩
        exact ⟨i + 1, Nat.succ_lt_succ hi, by rwa [Nat.add_comm i, ← Nat.add_assoc]⟩
      · rintro ⟨i, hi, hfails⟩
        cases i with
        | zero => exact absurd hfails hfail
        | succ i =>
          exact ⟨i, Nat.lt_of_succ_lt_succ hi, by rwa [Nat.add_assoc, Nat.add_comm 1]⟩

theorem mem_of_mem_made {k : Kernel} {n : Nat} {es : List (UInt32 × Fsbuf)} {e : UInt32 × Fsbuf}
    (h : e ∈ k.made n es) : e ∈ es := by
  induction es generalizing n with
  | nil => exact h
  | cons e' es ih =>
    rw [Kernel.made, List.mem_cons] at h
    rcases h with rfl | h
    · exact List.mem_cons_self
    · split at h
      · exact absurd h List.not_mem_nil
      · exact List.mem_cons_of_mem _ (ih h)

theorem made_image_of_putFails {k : Kernel} (l : Layout) (h : k.PutFails 0) :
    k.made 0 (image l) = [(1, superblock l)] := by
  simp [image, Kernel.made, h]

theorem groupDescriptor_mem_made {k : Kernel} (l : Layout) (h : ¬ k.PutFails 0) :
    (2, groupDescriptor l) ∈ k.made 0 (image l) := by
  simp [image, Kernel.made, h]

/-! ## What does not fit -/

/-- The groups that the volume needs.  Block 0 is in none. -/
def Layout.groups (l : Layout) : Nat := (l.blocks.toNat - 1 + 8191) / 8192

/-- The counts of the group descriptor are those of the layout. -/
def Layout.Described (l : Layout) : Prop :=
  Ext2.GroupDesc.read (groupDescriptor l).bytes = l.groupDesc

theorem mem_stray_foldl_mark {is : List Nat} {j : Nat} (buf : Fsbuf)
    (h : j ∈ buf.stray ∨ 1024 ≤ j ∧ ∃ i ∈ is, (i - 1) / 8 = j) :
    j ∈ (is.foldl Fsbuf.mark buf).stray := by
  induction is generalizing buf with
  | nil => simpa using h
  | cons i is ih =>
    refine ih _ ?_
    rcases h with h | ⟨hj, i', hi', rfl⟩
    · left
      rw [Fsbuf.mark, Fsbuf.store]
      split
      · exact h
      · exact List.mem_append_left _ h
    · rcases List.mem_cons.mp hi' with rfl | hi'
      · left
        rw [Fsbuf.mark, Fsbuf.store, if_neg (Nat.not_lt.mpr hj)]
        exact List.mem_append_right _ List.mem_cons_self
      · exact .inr ⟨hj, i', hi', rfl⟩

/-- **The block bitmap leaves `fsbuf`** exactly if there is a block beyond 8192 in use. -/
theorem stray_blockBitmap_iff (l : Layout) :
    (blockBitmap l).stray = [] ↔ l.firstFree.toNat ≤ 8193 := by
  constructor
  · intro hempty
    by_contra hlt
    have hused : 8193 ∈ List.range' 1 (l.firstFree.toNat - 1) := by
      rw [List.mem_range'_1]
      omega
    have hstray : 1024 ∈ (blockBitmap l).stray := by
      refine mem_stray_foldl_mark _ (.inl ?_)
      exact mem_stray_foldl_mark _ (.inr ⟨le_rfl, 8193, hused, rfl⟩)
    rw [hempty] at hstray
    exact List.not_mem_nil hstray
  · intro hle
    exact stray_image hle (l.bBitmap, blockBitmap l) (by simp [image])

/-- What the checks of `cmd_mkfs` let through. -/
structure Accepted (l : Layout) : Prop where
  layout_eq : l = layout l.blocks
  blocks_ge : 16 ≤ l.blocks.toNat
  firstFree_lt : l.firstFree.toNat < l.blocks.toNat

theorem accepted_of_accept {k : Kernel} {av : List String} {l : Layout} (h : accept k av = .ok l) :
    Accepted l := by
  obtain ⟨blocks, rfl, h16, hfits⟩ := layout_of_accept h
  rw [UInt32.lt_iff_toNat_lt] at h16
  exact ⟨rfl, Nat.not_lt.mp h16, UInt32.lt_iff_toNat_lt.mp hfits⟩

section Accepted

variable {l : Layout} (h : Accepted l)

include h

theorem Accepted.inodes_eq : l.inodes.toNat = (max (l.blocks.toNat / 4) 16 + 7) / 8 * 8 := by
  rw [h.layout_eq]
  exact toNat_inodesFor l.blocks

theorem Accepted.firstFree_eq : l.firstFree.toNat = 6 + l.inodes.toNat / 8 % 2 ^ 22 := by
  rw [h.layout_eq, toNat_firstFree, toNat_itblocks]

theorem Accepted.freeInodes_eq : l.freeInodes.toNat = l.inodes.toNat - 10 := by
  rw [h.layout_eq, toNat_freeInodes]

theorem Accepted.freeBlocks_eq : l.freeBlocks.toNat = l.blocks.toNat - l.firstFree.toNat := by
  have hdef : l.freeBlocks = l.blocks - l.firstFree := by
    rw [h.layout_eq]
    rfl
  rw [hdef]
  exact UInt32.toNat_sub_of_le _ _ (UInt32.le_iff_toNat_le.mpr h.firstFree_lt.le)

theorem groups_eq_one_iff : l.groups = 1 ↔ l.blocks.toNat ≤ 8193 := by
  have := h.blocks_ge
  rw [Layout.groups]
  omega

/-- The largest volume whose free blocks 16 bits can count. -/
theorem freeBlocks_lt_iff : l.freeBlocks.toNat < 2 ^ 16 ↔ l.blocks.toNat ≤ 67656 := by
  have hinodes := h.inodes_eq
  have hfirst := h.firstFree_eq
  have hfree := h.freeBlocks_eq
  have hlt := h.firstFree_lt
  rcases Nat.lt_or_ge (l.inodes.toNat / 8) (2 ^ 22) with hit | hit
  · rw [Nat.mod_eq_of_lt hit] at hfirst
    omega
  · -- the size of the table has wrapped, and the volume is much larger than what is left of it
    have hmod := Nat.mod_lt (l.inodes.toNat / 8) (show 2 ^ 22 > 0 by decide)
    omega

/-- **The descriptor is right** up to 67656 blocks: the free blocks are the first count not to
fit. -/
theorem described_iff : l.Described ↔ l.blocks.toNat ≤ 67656 := by
  have hinodes := h.inodes_eq
  have hfree := h.freeInodes_eq
  have hbitmaps : l.bBitmap = 3 ∧ l.iBitmap = 4 ∧ l.iTable = 5 := by
    rw [h.layout_eq]
    exact ⟨rfl, rfl, rfl⟩
  obtain ⟨hb, hi, ht⟩ := hbitmaps
  rw [Layout.Described, read_groupDescriptor_eq, hb, hi, ht, Layout.groupDesc,
    ← freeBlocks_lt_iff h]
  constructor
  · intro heq
    have hblocks : l.freeBlocks.toNat % 2 ^ 16 = l.freeBlocks.toNat :=
      congrArg Ext2.GroupDesc.freeBlocksCount heq
    omega
  · intro hblocks
    have hle := (freeBlocks_lt_iff h).mp hblocks
    rw [Nat.mod_eq_of_lt hblocks, Nat.mod_eq_of_lt (by omega)]
    rfl

theorem firstFree_le_of_blocks_le (hle : l.blocks.toNat ≤ 67656) : l.firstFree.toNat ≤ 8193 := by
  have hinodes := h.inodes_eq
  have hfirst := h.firstFree_eq
  omega

end Accepted

/-! ## The command -/

/-- The outcomes that come before the first write. -/
def Outcome.Refused : Outcome → Prop
  | .writeFailed _ | .done _ => False
  | _ => True

theorem refused_of_accept {k : Kernel} {av : List String} {o : Outcome}
    (h : accept k av = .error o) : o.Refused := by
  have hcount : ∀ o, blockCount k av = .error o → o.Refused := by
    intro o ho
    unfold blockCount at ho
    repeat' split at ho
    all_goals cases ho
    all_goals trivial
  unfold accept at h
  split at h
  · cases h
    trivial
  split at h
  · cases h
    trivial
  split at h
  next o' ho' =>
    cases h
    exact hcount o ho'
  repeat' split at h
  all_goals cases h
  all_goals trivial

/-- The command refuses and leaves the device alone, or reports a failed write, or is done with a
volume of one group; it does not leave `fsbuf`, and a group descriptor it has made says what the
layout says. -/
structure Sound (k : Kernel) (av : List String) (dev : Device) : Prop where
  outcome :
    ((cmdMkfs k av dev).1.Refused ∧ (cmdMkfs k av dev).2 = dev) ∨
      (∃ err, (cmdMkfs k av dev).1 = .writeFailed err) ∨
      ∃ l, accept k av = .ok l ∧ (cmdMkfs k av dev).1 = .done l.freeBlocks ∧ l.groups = 1
  inBounds : ∀ l, accept k av = .ok l → ∀ e ∈ k.made 0 (image l), e.2.stray = []
  described : ∀ l, accept k av = .ok l → (2, groupDescriptor l) ∈ k.made 0 (image l) → l.Described

theorem cmdMkfs_of_refused {k : Kernel} {av : List String} {o : Outcome}
    (h : accept k av = .error o) (dev : Device) : cmdMkfs k av dev = (o, dev) := by
  rw [cmdMkfs, h]

/-- An accepted volume is done if no write fails. -/
theorem outcome_of_accept {k : Kernel} {av : List String} {l : Layout} (h : accept k av = .ok l)
    (dev : Device) :
    (∃ err, (cmdMkfs k av dev).1 = .writeFailed err) ∧ (∃ n < (image l).length, k.PutFails n) ∨
      (cmdMkfs k av dev).1 = .done l.freeBlocks ∧ ¬ ∃ n < (image l).length, k.PutFails n := by
  have hput := putAll_neg_iff k 0 dev (image l)
  simp only [Nat.zero_add] at hput
  simp only [cmdMkfs, h]
  by_cases hneg : (putAll k 0 dev (image l)).1 < 0
  · rw [if_pos hneg]
    exact .inl ⟨⟨_, rfl⟩, hput.mp hneg⟩
  · rw [if_neg hneg]
    exact .inr ⟨rfl, hput.not.mp hneg⟩

/-- An accepted volume is either not done, or has one group. -/
theorem one_group_of_sound {k : Kernel} {av : List String} {dev : Device} {l : Layout}
    (hs : Sound k av dev) (h : accept k av = .ok l)
    (hput : ¬ ∃ n < (image l).length, k.PutFails n) : l.groups = 1 := by
  rcases outcome_of_accept h dev with ⟨-, hfails⟩ | ⟨hdone, -⟩
  · exact absurd hfails hput
  · rcases hs.outcome with ⟨hrefused, -⟩ | ⟨err, hfailed⟩ | ⟨l', h', -, hone⟩
    · rw [hdone] at hrefused
      exact hrefused.elim
    · rw [hdone] at hfailed
      cases hfailed
    · rw [h] at h'
      cases h'
      exact hone

/-- **When mkfs is sound**: on what it refuses, and on an accepted volume if one group is enough,
or the first write fails, or some write fails and the descriptor has room for the counts. -/
theorem mkfs_sound_iff (k : Kernel) (av : List String) (dev : Device) :
    Sound k av dev ↔ ∀ l, accept k av = .ok l →
      l.blocks.toNat ≤ 8193 ∨ k.PutFails 0 ∨
        l.blocks.toNat ≤ 67656 ∧ ∃ n < (image l).length, k.PutFails n := by
  constructor
  · intro hs l h
    have hacc := accepted_of_accept h
    by_cases hput : ∃ n < (image l).length, k.PutFails n
    · by_cases hfirst : k.PutFails 0
      · exact .inr (.inl hfirst)
      · have hdescribed := hs.described l h (groupDescriptor_mem_made l hfirst)
        exact .inr (.inr ⟨(described_iff hacc).mp hdescribed, hput⟩)
    · exact .inl ((groups_eq_one_iff hacc).mp (one_group_of_sound hs h hput))
  · intro hcond
    cases h : accept k av with
    | error o =>
      refine ⟨.inl ?_, fun l hl => ?_, fun l hl => ?_⟩
      · rw [cmdMkfs_of_refused h]
        exact ⟨refused_of_accept h, rfl⟩
      · rw [h] at hl
        cases hl
      · rw [h] at hl
        cases hl
    | ok l =>
      have hacc := accepted_of_accept h
      have hl : ∀ l', accept k av = .ok l' → l' = l := fun l' h' => Except.ok.inj (h'.symm.trans h)
      -- either nothing but the superblock is made, or the counts fit
      have hmade : k.PutFails 0 ∨ l.blocks.toNat ≤ 67656 := by
        rcases hcond l h with hle | hfirst | ⟨hle, -⟩
        · exact .inr (by omega)
        · exact .inl hfirst
        · exact .inr hle
      refine ⟨?_, ?_, ?_⟩
      · rcases outcome_of_accept h dev with ⟨hfailed, -⟩ | ⟨hdone, hput⟩
        · exact .inr (.inl hfailed)
        · refine .inr (.inr ⟨l, h, hdone, (groups_eq_one_iff hacc).mpr ?_⟩)
          rcases hcond l h with hle | hfirst | ⟨-, hfails⟩
          · exact hle
          · exact absurd ⟨0, by simp [image], hfirst⟩ hput
          · exact absurd hfails hput
      · intro l' h' e he
        obtain rfl := hl l' h'
        rcases hmade with hfirst | hle
        · rw [made_image_of_putFails _ hfirst, List.mem_singleton] at he
          rw [he]
          simp (disch := omega) only [superblock, stray_put16, stray_put32]
          rfl
        · exact stray_image (firstFree_le_of_blocks_le hacc hle) e (mem_of_mem_made he)
      · intro l' h' he
        obtain rfl := hl l' h'
        rcases hmade with hfirst | hle
        · rw [made_image_of_putFails _ hfirst, List.mem_singleton] at he
          exact absurd (congrArg Prod.fst he) (show (2 : UInt32) ≠ 1 by decide)
        · exact (described_iff hacc).mpr hle

/-- A partition of 300000 blocks is accepted, and its block bitmap is written over what comes after
`fsbuf`. -/
theorem mkfs_overruns_fsbuf :
    ¬ Sound cardKernel ["mkfs", "/dev/hda", "yes", "300000"] fun _ => 0 := by
  intro hs
  have haccept : accept cardKernel ["mkfs", "/dev/hda", "yes", "300000"] = .ok (layout 300000) := by
    decide
  have hmade : ((layout 300000).bBitmap, blockBitmap (layout 300000)) ∈
      cardKernel.made 0 (image (layout 300000)) := by
    have h0 : ¬ cardKernel.PutFails 0 := by decide
    have h1 : ¬ cardKernel.PutFails 1 := by decide
    simp [image, Kernel.made, h0, h1]
  have hle := (stray_blockBitmap_iff _).mp (hs.inBounds _ haccept _ hmade)
  exact absurd hle (by decide)

end Brsh
end Blackroo
