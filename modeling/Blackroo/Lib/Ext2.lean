import Blackroo.Lib.Bitmap
import Blackroo.Lib.LittleEndian

/-!
# ext2 volumes with one group

What a reader of an ext2 revision 0 volume with 1024-byte blocks finds on it: the
superblock and the first group descriptor, the two bitmaps where the descriptor says they
are, the inodes in the table, and the records of a directory block.  Everything is read
from the bytes of the volume, and nothing is assumed about who wrote them.

`Consistent` is what a checker asks of a volume of one group that holds nothing but its
root directory: the parts that are computed separately (counts, bitmaps, sizes and places)
agree with each other.
-/

namespace Ext2

open LittleEndian

/-- A volume, block by block. -/
abbrev Volume : Type := Nat → List UInt8

def blockSize : Nat := 1024

def inodeSize : Nat := 128

/-- The bits of a bitmap of one block. -/
def bitmapBits : Nat := 8 * blockSize

/-! ## Records -/

structure Superblock where
  inodesCount : Nat
  blocksCount : Nat
  freeBlocksCount : Nat
  freeInodesCount : Nat
  firstDataBlock : Nat
  logBlockSize : Nat
  blocksPerGroup : Nat
  inodesPerGroup : Nat
  magic : Nat
  revLevel : Nat
  deriving DecidableEq, Repr

def Superblock.read (bs : List UInt8) : Superblock where
  inodesCount := (get32 bs 0).toNat
  blocksCount := (get32 bs 4).toNat
  freeBlocksCount := (get32 bs 12).toNat
  freeInodesCount := (get32 bs 16).toNat
  firstDataBlock := (get32 bs 20).toNat
  logBlockSize := (get32 bs 24).toNat
  blocksPerGroup := (get32 bs 32).toNat
  inodesPerGroup := (get32 bs 40).toNat
  magic := (get16 bs 56).toNat
  revLevel := (get32 bs 76).toNat

/-- The number of groups, rounded up. -/
def Superblock.groupsCount (s : Superblock) : Nat :=
  (s.blocksCount - s.firstDataBlock + s.blocksPerGroup - 1) / s.blocksPerGroup

structure GroupDesc where
  blockBitmap : Nat
  inodeBitmap : Nat
  inodeTable : Nat
  freeBlocksCount : Nat
  freeInodesCount : Nat
  usedDirsCount : Nat
  deriving DecidableEq, Repr

def GroupDesc.read (bs : List UInt8) : GroupDesc where
  blockBitmap := (get32 bs 0).toNat
  inodeBitmap := (get32 bs 4).toNat
  inodeTable := (get32 bs 8).toNat
  freeBlocksCount := (get16 bs 12).toNat
  freeInodesCount := (get16 bs 14).toNat
  usedDirsCount := (get16 bs 16).toNat

/-- An inode.  The space it takes is counted in units of 512 bytes. -/
structure Inode where
  mode : Nat
  size : Nat
  linksCount : Nat
  sectors : Nat
  pointers : List Nat
  deriving DecidableEq, Repr

/-- The inode at an offset of a block of the table. -/
def Inode.read (bs : List UInt8) (off : Nat) : Inode where
  mode := (get16 bs off).toNat
  size := (get32 bs (off + 4)).toNat
  linksCount := (get16 bs (off + 26)).toNat
  sectors := (get32 bs (off + 28)).toNat
  pointers := (List.range 15).map fun n => (get32 bs (off + 40 + 4 * n)).toNat

/-- The type bits of a directory. -/
def Inode.IsDirectory (i : Inode) : Prop := i.mode / 2 ^ 12 = 4

/-- A record of a directory. -/
structure Dirent where
  inode : Nat
  recLen : Nat
  name : List UInt8
  deriving DecidableEq, Repr

/-- The record at an offset of a directory block. -/
def Dirent.read (bs : List UInt8) (off : Nat) : Dirent where
  inode := (get32 bs off).toNat
  recLen := (get16 bs (off + 4)).toNat
  name := (bs.drop (off + 8)).take (get16 bs (off + 6)).toNat

/-- The records of a directory block from an offset on, at most `n` of them. -/
def dirents (bs : List UInt8) : (n off : Nat) → List Dirent
  | 0, _ => []
  | n + 1, off =>
    if off < blockSize then
      Dirent.read bs off :: dirents bs n (off + (Dirent.read bs off).recLen)
    else []

/-- The records of a directory of one block.  A record has at least eight bytes. -/
def directory (bs : List UInt8) : List Dirent := dirents bs (blockSize / 8) 0

/-! ## Volumes -/

section Volume

variable (v : Volume)

def super : Superblock := .read (v 1)

/-- The descriptor of the first group, in the block after the superblock. -/
def groupDesc : GroupDesc := .read (v ((super v).firstDataBlock + 1))

/-- The block bitmap; its first bit stands for the first data block. -/
def blockBitmap : List UInt8 := v (groupDesc v).blockBitmap

/-- The inode bitmap; its first bit stands for inode 1. -/
def inodeBitmap : List UInt8 := v (groupDesc v).inodeBitmap

def blockUsed (b : Nat) : Bool := Bitmap.bit (blockBitmap v) (b - (super v).firstDataBlock)

def inodeUsed (i : Nat) : Bool := Bitmap.bit (inodeBitmap v) (i - 1)

/-- Inode `i` of the table. -/
def inode (i : Nat) : Inode :=
  .read (v ((groupDesc v).inodeTable + (i - 1) * inodeSize / blockSize))
    ((i - 1) * inodeSize % blockSize)

end Volume

/-! ## Consistency -/

/-- The volume has `blocks` blocks in one group, everything below `firstFree` is taken by
the structure of the file system and its root directory, and the rest is free. -/
structure Consistent (v : Volume) (blocks firstFree : Nat) : Prop where
  magic_eq : (super v).magic = 0xEF53
  revLevel_eq : (super v).revLevel = 0
  blockSize_eq : 1024 * 2 ^ (super v).logBlockSize = blockSize
  blocksCount_eq : (super v).blocksCount = blocks
  groupsCount_eq : (super v).groupsCount = 1
  /-- Both free block counts are the number of zeros of the block bitmap. -/
  freeBlocks : (super v).freeBlocksCount = Bitmap.zeros (blockBitmap v) bitmapBits
  groupFreeBlocks : (groupDesc v).freeBlocksCount = Bitmap.zeros (blockBitmap v) bitmapBits
  /-- A zero of the block bitmap is a block of the volume from `firstFree` on. -/
  free_of_zero : ∀ i < bitmapBits, Bitmap.bit (blockBitmap v) i = false →
    firstFree ≤ i + (super v).firstDataBlock ∧ i + (super v).firstDataBlock < blocks
  /-- The blocks below `firstFree` are in use: superblock, descriptor, bitmaps, the inode
  table and the root directory are there. -/
  used : ∀ b, (super v).firstDataBlock ≤ b → b < firstFree → blockUsed v b = true
  descriptor_lt : (super v).firstDataBlock = 1 ∧ 1 + 1 < firstFree
  bitmaps_lt : (groupDesc v).blockBitmap < firstFree ∧ (groupDesc v).inodeBitmap < firstFree
  table_lt : (groupDesc v).inodeTable * blockSize + (super v).inodesCount * inodeSize <
    firstFree * blockSize
  blockPadding : ∀ i < bitmapBits, blocks ≤ i + (super v).firstDataBlock →
    Bitmap.bit (blockBitmap v) i = true
  /-- Both free inode counts are the number of zeros of the inode bitmap. -/
  freeInodes : (super v).freeInodesCount = Bitmap.zeros (inodeBitmap v) bitmapBits
  groupFreeInodes : (groupDesc v).freeInodesCount = Bitmap.zeros (inodeBitmap v) bitmapBits
  /-- The first ten inodes are reserved. -/
  reserved : ∀ i, 1 ≤ i → i ≤ 10 → inodeUsed v i = true
  inodePadding : ∀ i < bitmapBits, (super v).inodesCount ≤ i →
    Bitmap.bit (inodeBitmap v) i = true
  inodesPerGroup_eq : (super v).inodesPerGroup = (super v).inodesCount
  /-- Inode 2 is a directory of one block, which is in use. -/
  root_directory : (inode v 2).IsDirectory
  root_size : (inode v 2).size = blockSize
  root_sectors : (inode v 2).sectors * 512 = blockSize
  root_pointers : (inode v 2).pointers = (firstFree - 1) :: List.replicate 14 0
  root_used : blockUsed v (firstFree - 1) = true
  /-- The inode table ends where the directory starts: it holds exactly the inodes. -/
  table_size : (groupDesc v).inodeTable * blockSize + (super v).inodesCount * inodeSize =
    (firstFree - 1) * blockSize
  /-- The records of the directory are `.` and `..`, and fill the block. -/
  root_records : ∃ d e, directory (v (firstFree - 1)) = [d, e] ∧
    d.inode = 2 ∧ d.name = [0x2E] ∧ e.inode = 2 ∧ e.name = [0x2E, 0x2E] ∧
    d.recLen + e.recLen = blockSize
  root_links : (inode v 2).linksCount = 2
  usedDirs : (groupDesc v).usedDirsCount = 1

end Ext2
