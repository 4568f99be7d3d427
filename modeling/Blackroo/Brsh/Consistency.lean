import Blackroo.Brsh.Mkfs
import Blackroo.Lib.ByteMemory

/-!
# What mkfs writes is a consistent file system

The counts in the superblock and in the group descriptor come from the layout; the bitmaps
come from two loops each; the place of the root directory comes from the size of the inode
table.  `mkfs_consistent` says that they fit together on every volume that one group can
describe.

What a file system of one group has to look like is in `Lib.Ext2`, which reads a volume by the
offsets of the format and does not know how it was made.  The way there has four parts.

* `Geometry`: the numbers of the layout as natural numbers.  Up to 8193 blocks nothing wraps, and the
  inode table and the root directory come to lie before the first free block.
* `stray_image`: no store of the command misses `fsbuf`, so every block is what its stores say.
* `bit_blockBitmap` and `bit_inodeBitmap`: the loops over the bitmaps leave zeros exactly for what is
  free, the padding at the end of the block included.
* `putAll_of_succeed`: if the writes succeed, the volume holds the blocks of `image` and is
  otherwise as it was.
-/

namespace Blackroo
namespace Brsh

open LittleEndian

/-! ## Fields -/

theorem get32_put32 {off : Nat} (v : UInt32) (buf : Fsbuf) (h : off + 4 ≤ 1024) :
    get32 (put32 off v buf).bytes off = v := by
  refine get32_putBytes ?_
  rw [buf.length_bytes]
  exact h

theorem get32_put32_of_disjoint {off o : Nat} (v : UInt32) (buf : Fsbuf)
    (h : o + 4 ≤ off ∨ off + 4 ≤ o) : get32 (put32 off v buf).bytes o = get32 buf.bytes o :=
  get32_putBytes_of_disjoint (bytes32 v) _ h

theorem get32_put16_of_disjoint {off o : Nat} (v : UInt32) (buf : Fsbuf)
    (h : o + 4 ≤ off ∨ off + 2 ≤ o) : get32 (put16 off v buf).bytes o = get32 buf.bytes o :=
  get32_putBytes_of_disjoint [v.toUInt8, (v >>> 8).toUInt8] _ h

theorem get16_put32_of_disjoint {off o : Nat} (v : UInt32) (buf : Fsbuf)
    (h : o + 2 ≤ off ∨ off + 4 ≤ o) : get16 (put32 off v buf).bytes o = get16 buf.bytes o :=
  get16_putBytes_of_disjoint (bytes32 v) _ h

theorem get16_put16_of_disjoint {off o : Nat} (v : UInt32) (buf : Fsbuf)
    (h : o + 2 ≤ off ∨ off + 2 ≤ o) : get16 (put16 off v buf).bytes o = get16 buf.bytes o :=
  get16_putBytes_of_disjoint [v.toUInt8, (v >>> 8).toUInt8] _ h

/-- `put16` keeps the low half of a word. -/
theorem get16_put16 {off : Nat} (v : UInt32) (buf : Fsbuf) (h : off + 2 ≤ 1024) :
    get16 (put16 off v buf).bytes off = v.toUInt16 := by
  have hbytes : [v.toUInt8, (v >>> 8).toUInt8] = bytes16 v.toUInt16 := by
    rw [bytes16]
    congr 1
    · apply UInt8.toNat_inj.mp
      simp
    · congr 1
      apply UInt8.toNat_inj.mp
      simp only [UInt32.toNat_toUInt8, UInt16.toNat_toUInt8, UInt32.toNat_shiftRight,
        UInt16.toNat_shiftRight, UInt32.toNat_toUInt16]
      show v.toNat >>> 8 % 2 ^ 8 = (v.toNat % 2 ^ 16) >>> 8 % 2 ^ 8
      rw [Nat.shiftRight_eq_div_pow, Nat.shiftRight_eq_div_pow]
      omega
  show get16 (putBytes off [v.toUInt8, (v >>> 8).toUInt8] buf.bytes) off = _
  rw [hbytes]
  refine get16_putBytes ?_
  rw [buf.length_bytes]
  exact h

theorem getD_fsZero (i : Nat) : fsZero.bytes.getD i 0 = 0 := by
  show (List.replicate 1024 0).getD i 0 = 0
  rw [List.getD_eq_getElem?_getD, List.getElem?_replicate]
  split <;> rfl

theorem get32_fsZero (o : Nat) : get32 fsZero.bytes o = 0 := by
  rw [get32, getD_fsZero, getD_fsZero, getD_fsZero, getD_fsZero]
  rfl

/-! ## Bitmaps -/

theorem bytes_markRange (lo hi : Nat) (buf : Fsbuf) :
    (buf.markRange lo hi).bytes =
      ((List.range' lo (hi - lo)).map (· - 1)).foldl Bitmap.setBit buf.bytes := by
  rw [Fsbuf.markRange]
  generalize List.range' lo (hi - lo) = l
  induction l generalizing buf with
  | nil => rfl
  | cons i l ih => exact ih (buf.mark i)

/-- A loop over a bitmap sets the bits of its range. -/
theorem bit_markRange {lo hi : Nat} (hlo : 1 ≤ lo) (hhi : hi ≤ 8193) (buf : Fsbuf) (j : Nat) :
    Bitmap.bit (buf.markRange lo hi).bytes j =
      (decide (lo ≤ j + 1 ∧ j + 1 < hi) || Bitmap.bit buf.bytes j) := by
  rw [bytes_markRange, Bitmap.bit_setBits]
  · congr 1
    refine decide_eq_decide.mpr ?_
    simp only [List.mem_map, List.mem_range'_1]
    constructor
    · rintro ⟨i, hi, rfl⟩
      omega
    · intro h
      exact ⟨j + 1, by omega, by omega⟩
  · intro i hi
    simp only [List.mem_map, List.mem_range'_1] at hi
    obtain ⟨k, hk, rfl⟩ := hi
    rw [buf.length_bytes]
    omega

theorem bit_fsZero (j : Nat) : Bitmap.bit fsZero.bytes j = false := by
  rw [Bitmap.bit, getD_fsZero]
  exact Nat.zero_testBit _

/-! ## Geometry -/

/-- What the layout of a volume of one group comes to, without wrapping. -/
structure Geometry (l : Layout) : Prop where
  blocks_le : l.blocks.toNat ≤ 8193
  inodes_eq : l.inodes.toNat = 8 * l.itblocks.toNat
  two_le_itblocks : 2 ≤ l.itblocks.toNat
  bBitmap_eq : l.bBitmap = 3
  iBitmap_eq : l.iBitmap = 4
  iTable_eq : l.iTable = 5
  rootData_eq : l.rootData.toNat = 5 + l.itblocks.toNat
  firstFree_eq : l.firstFree.toNat = 6 + l.itblocks.toNat
  firstFree_lt : l.firstFree.toNat < l.blocks.toNat
  inodes_le : l.inodes.toNat ≤ 2048
  freeBlocks_eq : l.freeBlocks.toNat = l.blocks.toNat - l.firstFree.toNat
  freeInodes_eq : l.freeInodes.toNat = l.inodes.toNat - 10

theorem toNat_inodesFor (blocks : UInt32) :
    (inodesFor blocks).toNat = (max (blocks.toNat / 4) 16 + 7) / 8 * 8 := by
  have hlt := blocks.toNat_lt
  have hdiv : (blocks / 4).toNat = blocks.toNat / 4 := UInt32.toNat_div _ _
  have hmax : (if blocks / 4 < 16 then 16 else blocks / 4).toNat = max (blocks.toNat / 4) 16 := by
    by_cases hlt : blocks / 4 < 16
    · rw [if_pos hlt]
      rw [UInt32.lt_iff_toNat_lt, hdiv] at hlt
      exact (max_eq_right hlt.le).symm
    · rw [if_neg hlt, hdiv]
      rw [UInt32.lt_iff_toNat_lt, hdiv] at hlt
      exact (max_eq_left (Nat.not_lt.mp hlt)).symm
  show ((_ + 7) &&& ~~~7 : UInt32).toNat = _
  rw [UInt32.and_comm, ByteMemory.toNat_and_mask (k := 3) (by decide) rfl, UInt32.toNat_add, hmax]
  show (max (blocks.toNat / 4) 16 + 7) % 2 ^ 32 / 8 * 8 = _
  rw [Nat.mod_eq_of_lt (by omega)]

/-- Eight inodes to a block of the table.  The product wraps for large volumes. -/
theorem toNat_itblocks (blocks : UInt32) :
    (layout blocks).itblocks.toNat = (layout blocks).inodes.toNat / 8 % 2 ^ 22 := by
  have hinodes : (layout blocks).inodes.toNat = _ := toNat_inodesFor blocks
  show (((layout blocks).inodes * 128 + 1024 - 1) / 1024).toNat = _
  rw [UInt32.toNat_div, UInt32.toNat_sub, UInt32.toNat_add, UInt32.toNat_mul]
  show (2 ^ 32 - 1 + ((layout blocks).inodes.toNat * 128 % 2 ^ 32 + 1024) % 2 ^ 32) % 2 ^ 32 /
    1024 = _
  omega

theorem toNat_rootData (blocks : UInt32) :
    (layout blocks).rootData.toNat = 5 + (layout blocks).itblocks.toNat := by
  have hit := toNat_itblocks blocks
  show (5 + (layout blocks).itblocks).toNat = _
  rw [UInt32.toNat_add]
  show (5 + _) % 2 ^ 32 = _
  omega

theorem toNat_firstFree (blocks : UInt32) :
    (layout blocks).firstFree.toNat = 6 + (layout blocks).itblocks.toNat := by
  have hit := toNat_itblocks blocks
  show ((layout blocks).rootData + 1).toNat = _
  rw [UInt32.toNat_add, toNat_rootData]
  show (5 + _ + 1) % 2 ^ 32 = _
  omega

theorem toNat_freeInodes (blocks : UInt32) :
    (layout blocks).freeInodes.toNat = (layout blocks).inodes.toNat - 10 := by
  have hinodes : (layout blocks).inodes.toNat = _ := toNat_inodesFor blocks
  have hlt := blocks.toNat_lt
  show ((layout blocks).inodes - 11 + 1).toNat = _
  rw [UInt32.toNat_add, UInt32.toNat_sub]
  show ((2 ^ 32 - 11 + (layout blocks).inodes.toNat) % 2 ^ 32 + 1) % 2 ^ 32 = _
  omega

theorem geometry_layout {blocks : UInt32} (h16 : ¬ blocks < 16) (h : blocks.toNat - 1 ≤ 8192) :
    Geometry (layout blocks) := by
  rw [UInt32.lt_iff_toNat_lt] at h16
  have hge : 16 ≤ blocks.toNat := Nat.not_lt.mp h16
  have hinodes : (layout blocks).inodes.toNat = _ := toNat_inodesFor blocks
  have hit := toNat_itblocks blocks
  have hfree := toNat_firstFree blocks
  have hlt : (layout blocks).firstFree.toNat < (layout blocks).blocks.toNat := by
    show _ < blocks.toNat
    omega
  constructor
  · show blocks.toNat ≤ 8193
    omega
  · omega
  · omega
  · rfl
  · rfl
  · rfl
  · exact toNat_rootData blocks
  · exact hfree
  · exact hlt
  · omega
  · exact UInt32.toNat_sub_of_le _ _ (UInt32.le_iff_toNat_le.mpr hlt.le)
  · exact toNat_freeInodes blocks

/-! ## Writing -/

/-- All system calls of the writes succeed. -/
def Kernel.WritesSucceed (k : Kernel) : Prop :=
  ∀ n, 0 ≤ k.lseekResult n ∧ k.writeResult n = 1024

/-- The device as blocks. -/
def volume (dev : Device) : Ext2.Volume :=
  fun b => (List.range 1024).map fun i => dev (b * 1024 + i)

theorem fsPut_of_succeed {k : Kernel} (hk : k.WritesSucceed) (n : Nat) (dev : Device)
    {blk : UInt32} (buf : Fsbuf) (hblk : blk.toNat < 2 ^ 22) :
    fsPut k n dev blk buf = (0, writeAt dev (blk.toNat * 1024) 1024 buf.bytes) := by
  obtain ⟨hseek, hwrite⟩ := hk n
  have hpos : (blk * fsBsize).toNat = blk.toNat * 1024 := by
    rw [UInt32.toNat_mul]
    show blk.toNat * 1024 % 2 ^ 32 = _
    omega
  rw [fsPut, if_neg (Int.not_lt.mpr hseek), hwrite, hpos]
  rfl

theorem volume_writeAt (dev : Device) (b : Nat) (buf : Fsbuf) :
    volume (writeAt dev (b * 1024) 1024 buf.bytes) b = buf.bytes := by
  refine List.ext_getElem ?_ ?_
  · rw [volume, List.length_map, List.length_range, buf.length_bytes]
  · intro i h₁ h₂
    rw [buf.length_bytes] at h₂
    simp only [volume, List.getElem_map, List.getElem_range]
    rw [writeAt, if_pos (by omega), Nat.add_sub_cancel_left]
    exact List.getD_eq_getElem _ _ _

theorem writeAt_of_ne {dev : Device} {b a : Nat} {bs : List UInt8} (h : a / 1024 ≠ b) :
    writeAt dev (b * 1024) 1024 bs a = dev a := by
  rw [writeAt, if_neg (by omega)]

/-- What successful writes leave: the blocks that were written hold what was written, and
nothing else has changed. -/
theorem putAll_of_succeed {k : Kernel} (hk : k.WritesSucceed) (n : Nat) (dev : Device)
    {es : List (UInt32 × Fsbuf)} (hes : ∀ e ∈ es, e.1.toNat < 2 ^ 22)
    (hnodup : (es.map fun e => e.1.toNat).Nodup) :
    ∃ dev', putAll k n dev es = (0, dev') ∧ (∀ e ∈ es, volume dev' e.1.toNat = e.2.bytes) ∧
      ∀ a, a / 1024 ∉ (es.map fun e => e.1.toNat) → dev' a = dev a := by
  induction es generalizing n dev with
  | nil => exact ⟨dev, rfl, fun e he => absurd he List.not_mem_nil, fun _ _ => rfl⟩
  | cons e es ih =>
    obtain ⟨blk, buf⟩ := e
    rw [List.map_cons, List.nodup_cons] at hnodup
    obtain ⟨dev', hput, hin, hout⟩ := ih (n + 1) (writeAt dev (blk.toNat * 1024) 1024 buf.bytes)
      (fun e he => hes e (List.mem_cons_of_mem _ he)) hnodup.2
    refine ⟨dev', ?_, ?_, ?_⟩
    · rw [putAll, fsPut_of_succeed hk n dev buf (hes _ List.mem_cons_self)]
      exact hput
    · intro e he
      rcases List.mem_cons.mp he with rfl | he
      · rw [← volume_writeAt dev blk.toNat buf]
        refine List.map_congr_left fun i hi => hout _ ?_
        rw [List.mem_range] at hi
        rw [show (blk.toNat * 1024 + i) / 1024 = blk.toNat by omega]
        exact hnodup.1
      · exact hin e he
    · intro a ha
      rw [List.map_cons, List.mem_cons, not_or] at ha
      rw [hout a ha.2, writeAt_of_ne ha.1]

/-- The blocks are the first ones, in order. -/
theorem numbers_image {l : Layout} (h : Geometry l) :
    ((image l).map fun e => e.1.toNat) = List.range' 1 (5 + l.itblocks.toNat) := by
  have hit : l.itblocks.toNat ≤ 256 := by
    have := h.inodes_le
    have := h.inodes_eq
    omega
  have htable : (List.range l.itblocks.toNat).map
      ((fun e : UInt32 × Fsbuf => e.1.toNat) ∘ fun i =>
        (l.iTable + UInt32.ofNat i, inodeTable l i)) =
        List.range' 5 l.itblocks.toNat := by
    rw [List.range'_eq_map_range]
    refine List.map_congr_left fun i hi => ?_
    rw [List.mem_range] at hi
    show (l.iTable + UInt32.ofNat i).toNat = 5 + i
    rw [h.iTable_eq, UInt32.toNat_add, UInt32.toNat_ofNat']
    show (5 + i % 2 ^ 32) % 2 ^ 32 = 5 + i
    omega
  have hlast : List.range' 5 (l.itblocks.toNat + 1) =
      List.range' 5 l.itblocks.toNat ++ [5 + l.itblocks.toNat] := by
    rw [List.range'_concat, Nat.one_mul]
  have hfirst : List.range' 1 (4 + (l.itblocks.toNat + 1)) =
      [1, 2, 3, 4] ++ List.range' 5 (l.itblocks.toNat + 1) := List.range'_append_1.symm
  rw [image, List.map_append, List.map_append, List.map_map, htable, List.map_singleton,
    h.rootData_eq, List.append_assoc, ← hlast, h.bBitmap_eq, h.iBitmap_eq,
    show 5 + l.itblocks.toNat = 4 + (l.itblocks.toNat + 1) by omega, hfirst]
  rfl

/-! ## The buffer is not overrun -/

theorem stray_store {i : Nat} (b : UInt8) (buf : Fsbuf) (h : i < 1024) :
    (buf.store i b).stray = buf.stray := if_pos h

theorem stray_put16 {off : Nat} (v : UInt32) (buf : Fsbuf) (h : off + 2 ≤ 1024) :
    (put16 off v buf).stray = buf.stray := by
  rw [put16, stray_store _ _ (by omega), stray_store _ _ (by omega)]

theorem stray_put32 {off : Nat} (v : UInt32) (buf : Fsbuf) (h : off + 4 ≤ 1024) :
    (put32 off v buf).stray = buf.stray := by
  rw [put32, stray_store _ _ (by omega), stray_store _ _ (by omega), stray_store _ _ (by omega),
    stray_store _ _ (by omega)]

theorem stray_markRange {lo hi : Nat} (hhi : hi ≤ 8193) (buf : Fsbuf) :
    (buf.markRange lo hi).stray = buf.stray := by
  have hl : ∀ i ∈ List.range' lo (hi - lo), i < 8193 := by
    intro i hi
    rw [List.mem_range'_1] at hi
    omega
  rw [Fsbuf.markRange]
  generalize List.range' lo (hi - lo) = l at hl
  induction l generalizing buf with
  | nil => rfl
  | cons i l ih =>
    have hi := hl i List.mem_cons_self
    rw [List.foldl_cons, ih _ fun j hj => hl j (List.mem_cons_of_mem i hj)]
    exact stray_store _ _ (by omega)

theorem inodeTable_zero (l : Layout) :
    inodeTable l 0 =
      (fsZero |> put16 128 0x41ED |> put16 130 0 |> put32 132 1024 |> put16 152 0 |> put16 154 2
        |> put32 156 2 |> put32 168 l.rootData) := rfl

/-- **Every store lands in `fsbuf`** if the blocks in use have their bits in one block. -/
theorem stray_image {l : Layout} (h : l.firstFree.toNat ≤ 8193) :
    ∀ e ∈ image l, e.2.stray = [] := by
  have hbits : (fsBsize * 8).toNat + 1 = 8193 := rfl
  have hzero : fsZero.stray = [] := rfl
  intro e he
  simp only [image, List.mem_append, List.mem_cons, List.mem_map, List.not_mem_nil, or_false] at he
  rcases he with ((rfl | rfl | rfl | rfl) | ⟨i, -, rfl⟩) | rfl
  · simp (disch := omega) only [superblock, stray_put16, stray_put32, hzero]
  · simp (disch := omega) only [groupDescriptor, stray_put16, stray_put32, hzero]
  · rw [blockBitmap, stray_markRange hbits.le, stray_markRange h, hzero]
  · rw [inodeBitmap, stray_markRange hbits.le, stray_markRange (by decide), hzero]
  · by_cases hi : i = 0
    · rw [hi, inodeTable_zero]
      simp (disch := omega) only [stray_put16, stray_put32, hzero]
    · rw [inodeTable, if_neg hi, hzero]
  · rfl

/-! ## What is on the volume -/

/-- The blocks of a finished volume that a reader looks at. -/
structure Written (l : Layout) (v : Ext2.Volume) : Prop where
  superblock_eq : v 1 = (superblock l).bytes
  groupDescriptor_eq : v 2 = (groupDescriptor l).bytes
  blockBitmap_eq : v 3 = (blockBitmap l).bytes
  inodeBitmap_eq : v 4 = (inodeBitmap l).bytes
  inodeTable_eq : v 5 = (inodeTable l 0).bytes
  rootDirectory_eq : v (5 + l.itblocks.toNat) = rootDirectory.bytes

theorem written_of_image {l : Layout} (h : Geometry l) {v : Ext2.Volume}
    (hv : ∀ e ∈ image l, v e.1.toNat = e.2.bytes) : Written l v where
  superblock_eq := hv (1, superblock l) (by simp [image])
  groupDescriptor_eq := hv (2, groupDescriptor l) (by simp [image])
  blockBitmap_eq := hv (3, blockBitmap l) (by simp [image, h.bBitmap_eq])
  inodeBitmap_eq := hv (4, inodeBitmap l) (by simp [image, h.iBitmap_eq])
  inodeTable_eq := by
    have hpos : 0 < l.itblocks.toNat := Nat.lt_of_lt_of_le Nat.two_pos h.two_le_itblocks
    have hmem : (l.iTable + UInt32.ofNat 0, inodeTable l 0) ∈ image l := by
      refine List.mem_append_left _ (List.mem_append_right _ ?_)
      exact List.mem_map.mpr ⟨0, List.mem_range.mpr hpos, rfl⟩
    rw [h.iTable_eq] at hmem
    exact hv _ hmem
  rootDirectory_eq := by
    rw [← h.rootData_eq]
    exact hv (l.rootData, rootDirectory) (by simp [image])

/-- The superblock a reader finds. -/
def Layout.super (l : Layout) : Ext2.Superblock where
  inodesCount := l.inodes.toNat
  blocksCount := l.blocks.toNat
  freeBlocksCount := l.freeBlocks.toNat
  freeInodesCount := l.freeInodes.toNat
  firstDataBlock := 1
  logBlockSize := 0
  blocksPerGroup := 8192
  inodesPerGroup := l.inodes.toNat
  magic := 0xEF53
  revLevel := 0

/-- The group descriptor a reader finds. -/
def Layout.groupDesc (l : Layout) : Ext2.GroupDesc where
  blockBitmap := 3
  inodeBitmap := 4
  inodeTable := 5
  freeBlocksCount := l.freeBlocks.toNat
  freeInodesCount := l.freeInodes.toNat
  usedDirsCount := 1

/-- The root inode a reader finds. -/
def Layout.root (l : Layout) : Ext2.Inode where
  mode := 0x41ED
  size := 1024
  linksCount := 2
  sectors := 2
  pointers := (5 + l.itblocks.toNat) :: List.replicate 14 0

theorem read_superblock (l : Layout) : Ext2.Superblock.read (superblock l).bytes = l.super := by
  simp (disch := omega) only [Ext2.Superblock.read, superblock, get32_put32, get16_put16,
    get32_put32_of_disjoint, get32_put16_of_disjoint, get16_put16_of_disjoint,
    get16_put32_of_disjoint]
  rfl

/-- The descriptor keeps 16 bits of either count. -/
theorem read_groupDescriptor_eq (l : Layout) :
    Ext2.GroupDesc.read (groupDescriptor l).bytes =
      { blockBitmap := l.bBitmap.toNat
        inodeBitmap := l.iBitmap.toNat
        inodeTable := l.iTable.toNat
        freeBlocksCount := l.freeBlocks.toNat % 2 ^ 16
        freeInodesCount := l.freeInodes.toNat % 2 ^ 16
        usedDirsCount := 1 } := by
  simp (disch := omega) only [Ext2.GroupDesc.read, groupDescriptor, get32_put32, get16_put16,
    get32_put32_of_disjoint, get32_put16_of_disjoint, get16_put16_of_disjoint,
    UInt32.toNat_toUInt16]
  rfl

theorem read_groupDescriptor {l : Layout} (h : Geometry l) :
    Ext2.GroupDesc.read (groupDescriptor l).bytes = l.groupDesc := by
  have hblocks : l.freeBlocks.toNat < 2 ^ 16 := by
    have := h.freeBlocks_eq
    have := h.blocks_le
    omega
  have hinodes : l.freeInodes.toNat < 2 ^ 16 := by
    have := h.freeInodes_eq
    have := h.inodes_le
    omega
  rw [read_groupDescriptor_eq, h.bBitmap_eq, h.iBitmap_eq, h.iTable_eq, Nat.mod_eq_of_lt hblocks,
    Nat.mod_eq_of_lt hinodes]
  rfl

theorem read_root {l : Layout} (h : Geometry l) :
    Ext2.Inode.read (inodeTable l 0).bytes 128 = l.root := by
  have hrest : ∀ n, (get32 (inodeTable l 0).bytes (128 + 40 + 4 * (n + 1))).toNat = 0 := by
    intro n
    rw [inodeTable_zero]
    simp (disch := omega) only [get32_put32_of_disjoint, get32_put16_of_disjoint, get32_fsZero]
    rfl
  have hpointers : ((List.range 15).map fun n =>
      (get32 (inodeTable l 0).bytes (128 + 40 + 4 * n)).toNat) =
        (5 + l.itblocks.toNat) :: List.replicate 14 0 := by
    rw [List.range_succ_eq_map, List.map_cons, List.map_map]
    congr 1
    · rw [← h.rootData_eq, inodeTable_zero]
      exact congrArg UInt32.toNat (get32_put32 _ _ (by decide))
    · refine List.eq_replicate_iff.mpr ⟨rfl, ?_⟩
      intro p hp
      obtain ⟨n, -, rfl⟩ := List.mem_map.mp hp
      exact hrest n
  rw [Ext2.Inode.read, hpointers, inodeTable_zero]
  simp (disch := omega) only [get32_put32, get16_put16, get32_put32_of_disjoint,
    get32_put16_of_disjoint, get16_put16_of_disjoint, get16_put32_of_disjoint]
  rfl

theorem directory_root :
    Ext2.directory rootDirectory.bytes = [⟨2, 12, [0x2E]⟩, ⟨2, 1012, [0x2E, 0x2E]⟩] := by
  decide +kernel

/-- The zeros of the block bitmap are the free blocks. -/
theorem bit_blockBitmap {l : Layout} (h : Geometry l) {i : Nat} (hi : i < 8192) :
    Bitmap.bit (blockBitmap l).bytes i = false ↔
      l.firstFree.toNat - 1 ≤ i ∧ i < l.blocks.toNat - 1 := by
  have hblocks := h.blocks_le
  have hfree := h.firstFree_eq
  have hlt := h.firstFree_lt
  have hbits : (fsBsize * 8).toNat + 1 = 8193 := rfl
  rw [blockBitmap, hbits, bit_markRange (by omega) le_rfl, bit_markRange le_rfl (by omega),
    bit_fsZero]
  simp only [Bool.or_false, Bool.or_eq_false_iff, decide_eq_false_iff_not]
  omega

/-- The zeros of the inode bitmap are the free inodes. -/
theorem bit_inodeBitmap {l : Layout} (h : Geometry l) {i : Nat} (hi : i < 8192) :
    Bitmap.bit (inodeBitmap l).bytes i = false ↔ 10 ≤ i ∧ i < l.inodes.toNat := by
  have hinodes := h.inodes_le
  have hbits : (fsBsize * 8).toNat + 1 = 8193 := rfl
  have hfirst : fsFirstino.toNat = 11 := rfl
  have hnext : (l.inodes + 1).toNat = l.inodes.toNat + 1 := by
    rw [UInt32.toNat_add]
    show (l.inodes.toNat + 1) % 2 ^ 32 = _
    omega
  rw [inodeBitmap, hbits, hfirst, hnext, bit_markRange (by omega) le_rfl,
    bit_markRange le_rfl (by decide), bit_fsZero]
  simp only [Bool.or_false, Bool.or_eq_false_iff, decide_eq_false_iff_not]
  omega

theorem zeros_blockBitmap {l : Layout} (h : Geometry l) :
    Bitmap.zeros (blockBitmap l).bytes Ext2.bitmapBits = l.freeBlocks.toNat := by
  have hblocks := h.blocks_le
  have hfirst := h.firstFree_eq
  have hbits : l.blocks.toNat - 1 ≤ Ext2.bitmapBits := by
    show _ ≤ 8192
    omega
  rw [Bitmap.zeros_of_interval hbits fun i hi => bit_blockBitmap h hi, h.freeBlocks_eq]
  omega

theorem zeros_inodeBitmap {l : Layout} (h : Geometry l) :
    Bitmap.zeros (inodeBitmap l).bytes Ext2.bitmapBits = l.freeInodes.toNat := by
  have hbits : l.inodes.toNat ≤ Ext2.bitmapBits := h.inodes_le.trans (by decide)
  rw [Bitmap.zeros_of_interval hbits fun i hi => bit_inodeBitmap h hi, h.freeInodes_eq]

section Written

variable {l : Layout} {v : Ext2.Volume}

theorem Written.super_eq (hv : Written l v) : Ext2.super v = l.super := by
  rw [Ext2.super, hv.superblock_eq, read_superblock]

theorem Written.groupDesc_eq (hv : Written l v) (h : Geometry l) :
    Ext2.groupDesc v = l.groupDesc := by
  rw [Ext2.groupDesc, hv.super_eq, ← read_groupDescriptor h, ← hv.groupDescriptor_eq]
  rfl

theorem Written.bitmap_eq (hv : Written l v) (h : Geometry l) :
    Ext2.blockBitmap v = (blockBitmap l).bytes := by
  rw [Ext2.blockBitmap, hv.groupDesc_eq h]
  exact hv.blockBitmap_eq

theorem Written.imap_eq (hv : Written l v) (h : Geometry l) :
    Ext2.inodeBitmap v = (inodeBitmap l).bytes := by
  rw [Ext2.inodeBitmap, hv.groupDesc_eq h]
  exact hv.inodeBitmap_eq

theorem Written.root_eq (hv : Written l v) (h : Geometry l) : Ext2.inode v 2 = l.root := by
  rw [Ext2.inode, hv.groupDesc_eq h, ← read_root h, ← hv.inodeTable_eq]
  rfl

theorem Written.blockUsed (hv : Written l v) (h : Geometry l) {b : Nat} (hb : 1 ≤ b)
    (hlt : b < l.firstFree.toNat) : Ext2.blockUsed v b = true := by
  have hle := h.blocks_le
  have hfree := h.firstFree_lt
  rw [Ext2.blockUsed, hv.bitmap_eq h, hv.super_eq, ← Bool.not_eq_false]
  show ¬ Bitmap.bit _ (b - 1) = false
  rw [bit_blockBitmap h (by omega)]
  omega

end Written

/-- **A finished volume is consistent.** -/
theorem Written.consistent {l : Layout} {v : Ext2.Volume} (hv : Written l v) (h : Geometry l) :
    Ext2.Consistent v l.blocks.toNat l.firstFree.toNat := by
  have hblocks := h.blocks_le
  have hfirst := h.firstFree_eq
  have hlt := h.firstFree_lt
  have hinodes := h.inodes_eq
  have htwo := h.two_le_itblocks
  have hroot : l.firstFree.toNat - 1 = 5 + l.itblocks.toNat := by omega
  exact
    { magic_eq := by rw [hv.super_eq]; rfl
      revLevel_eq := by rw [hv.super_eq]; rfl
      blockSize_eq := by rw [hv.super_eq]; rfl
      blocksCount_eq := by rw [hv.super_eq]; rfl
      groupsCount_eq := by
        rw [hv.super_eq]
        show (l.blocks.toNat - 1 + 8192 - 1) / 8192 = 1
        omega
      freeBlocks := by rw [hv.super_eq, hv.bitmap_eq h, zeros_blockBitmap h]; rfl
      groupFreeBlocks := by rw [hv.groupDesc_eq h, hv.bitmap_eq h, zeros_blockBitmap h]; rfl
      free_of_zero := by
        intro i hi hzero
        rw [hv.bitmap_eq h, bit_blockBitmap h hi] at hzero
        rw [hv.super_eq]
        show _ ≤ i + 1 ∧ i + 1 < _
        omega
      used := by
        intro b hb hb'
        rw [hv.super_eq] at hb
        exact hv.blockUsed h hb hb'
      descriptor_lt := by
        rw [hv.super_eq]
        exact ⟨rfl, by omega⟩
      bitmaps_lt := by
        rw [hv.groupDesc_eq h]
        show 3 < _ ∧ 4 < _
        omega
      table_lt := by
        rw [hv.groupDesc_eq h, hv.super_eq]
        show 5 * 1024 + l.inodes.toNat * 128 < _ * 1024
        omega
      blockPadding := by
        intro i hi hpad
        rw [hv.super_eq] at hpad
        rw [hv.bitmap_eq h, ← Bool.not_eq_false, bit_blockBitmap h hi]
        have : l.blocks.toNat ≤ i + 1 := hpad
        omega
      freeInodes := by rw [hv.super_eq, hv.imap_eq h, zeros_inodeBitmap h]; rfl
      groupFreeInodes := by rw [hv.groupDesc_eq h, hv.imap_eq h, zeros_inodeBitmap h]; rfl
      reserved := by
        intro i hi hi'
        rw [Ext2.inodeUsed, hv.imap_eq h, ← Bool.not_eq_false, bit_inodeBitmap h (by omega)]
        omega
      inodePadding := by
        intro i hi hpad
        rw [hv.super_eq] at hpad
        rw [hv.imap_eq h, ← Bool.not_eq_false, bit_inodeBitmap h hi]
        have : l.inodes.toNat ≤ i := hpad
        omega
      inodesPerGroup_eq := by rw [hv.super_eq]; rfl
      root_directory := by
        rw [hv.root_eq h]
        show 0x41ED / 2 ^ 12 = 4
        decide
      root_size := by rw [hv.root_eq h]; rfl
      root_sectors := by
        rw [hv.root_eq h]
        show 2 * 512 = 1024
        decide
      root_pointers := by rw [hv.root_eq h, hroot]; rfl
      root_used := hv.blockUsed h (by omega) (by omega)
      table_size := by
        rw [hv.groupDesc_eq h, hv.super_eq]
        show 5 * 1024 + l.inodes.toNat * 128 = _ * 1024
        omega
      root_records := by
        rw [hroot, hv.rootDirectory_eq, directory_root]
        exact ⟨_, _, rfl, rfl, rfl, rfl, rfl, rfl⟩
      root_links := by rw [hv.root_eq h]; rfl
      usedDirs := by rw [hv.groupDesc_eq h]; rfl }

/-! ## The command -/

/-- What `cmd_mkfs` accepts. -/
theorem layout_of_accept {k : Kernel} {av : List String} {l : Layout} (h : accept k av = .ok l) :
    ∃ blocks, l = layout blocks ∧ ¬ blocks < 16 ∧ (layout blocks).firstFree < blocks := by
  rw [accept] at h
  split at h
  · cases h
  split at h
  · cases h
  split at h
  · cases h
  split at h
  · cases h
  next blocks _ h16 =>
    split at h
    · cases h
    next hfits => exact ⟨blocks, (Except.ok.inj h).symm, h16, UInt32.not_le.mp hfits⟩

/-- **mkfs leaves a consistent file system**, on every device and for every block count it
accepts that fits one group, if its writes succeed.  Block 0 and everything from the first
free block on is as it was. -/
theorem mkfs_consistent {k : Kernel} {av : List String} {l : Layout} (haccept : accept k av = .ok l)
    (hfit : l.blocks.toNat - 1 ≤ 8192) (hwrites : k.WritesSucceed) (dev : Device) :
    (cmdMkfs k av dev).1 = .done l.freeBlocks ∧
      Ext2.Consistent (volume (cmdMkfs k av dev).2) l.blocks.toNat l.firstFree.toNat ∧
      ∀ a, a < 1024 ∨ l.firstFree.toNat * 1024 ≤ a → (cmdMkfs k av dev).2 a = dev a := by
  have h : Geometry l := by
    obtain ⟨blocks, rfl, h16, -⟩ := layout_of_accept haccept
    exact geometry_layout h16 hfit
  have hnum := numbers_image h
  have hfirst := h.firstFree_eq
  have hbound : ∀ e ∈ image l, e.1.toNat < 2 ^ 22 := by
    intro e he
    have hmem : e.1.toNat ∈ (image l).map fun e => e.1.toNat := List.mem_map.mpr ⟨e, he, rfl⟩
    rw [hnum, List.mem_range'_1] at hmem
    have := h.firstFree_lt
    have := h.blocks_le
    omega
  obtain ⟨dev', hput, hin, hout⟩ := putAll_of_succeed hwrites 0 dev hbound
    (hnum ▸ List.nodup_range')
  have hrun : cmdMkfs k av dev = (.done l.freeBlocks, dev') := by
    simp only [cmdMkfs, haccept, hput]
    rfl
  rw [hrun]
  refine ⟨rfl, (written_of_image h hin).consistent h, fun a ha => hout a ?_⟩
  rw [hnum, List.mem_range'_1]
  omega

/-- A driver that reports 762 sectors, and writes that all succeed. -/
def cardKernel : Kernel where
  openResult := 3
  ioctlResult := 0
  sectors := 762
  lseekResult := fun _ => 0
  writeResult := fun _ => 1024

theorem mkfs_consistent_card :
    accept cardKernel ["mkfs", "/dev/bul", "yes"] = .ok (layout 381) ∧ cardKernel.WritesSucceed ∧
      (cmdMkfs cardKernel ["mkfs", "/dev/bul", "yes"] fun _ => 0xFF).1 = .done 363 ∧
      Ext2.Consistent (volume (cmdMkfs cardKernel ["mkfs", "/dev/bul", "yes"] fun _ => 0xFF).2) 381
        18 := by
  have haccept : accept cardKernel ["mkfs", "/dev/bul", "yes"] = .ok (layout 381) := by decide
  have hwrites : cardKernel.WritesSucceed := fun _ => ⟨le_rfl, rfl⟩
  have h := mkfs_consistent haccept (by decide) hwrites fun _ => 0xFF
  exact ⟨haccept, hwrites, h.1, h.2.1⟩

end Brsh
end Blackroo
