import Blackroo.Lib.Ext2

/-!
# The mkfs command of brsh

`cmd_mkfs` writes an ext2 revision 0 file system with one block group.  It makes every block
in the static buffer `fsbuf`, starting from zeros, and writes it with `fs_put`; the first
write that fails ends the command.

`unsigned long` is 32 bits wide, so the arithmetic of the layout wraps.  A store outside
`fsbuf` is not executed here; the index is kept instead.  The texts the command prints,
`resolve` of the device path, and the final `close` and `sync` are left out.

## The order of the blocks

`image` is the list of the blocks with their numbers, in the order in which the command writes them:
superblock, group descriptor, block bitmap, inode bitmap, inode table, root directory.  Each entry
is what `fsbuf` holds at its `fs_put`, so a block can be looked at without the writes before it, and
the writing is one loop over the list (`putAll`).

## What the kernel may do

`Kernel` has the outcome of every system call the command makes: the `open`, the number of sectors
of `BLKGETSIZE`, and for each `fs_put` the `lseek` and the number of bytes that `write` takes.  So a
write may be short, and the device then holds the part that was taken.  `Brsh.Refusal` is about the
command that gives up, and `Brsh.Consistency` about what it leaves when it does not.
-/

namespace Blackroo
namespace Brsh

open LittleEndian

/-! ## The block buffer -/

/-- `FS_BSIZE`, `FS_INOSIZE` and `FS_FIRSTINO`. -/
def fsBsize : UInt32 := 1024

@[inherit_doc fsBsize]
def fsInosize : UInt32 := 128

@[inherit_doc fsBsize]
def fsFirstino : UInt32 := 11

/-- `fsbuf`, and the indices of stores that missed it. -/
structure Fsbuf where
  bytes : List UInt8
  stray : List Nat
  length_bytes : bytes.length = 1024
  deriving DecidableEq, Repr

/-- `fs_zero`. -/
def fsZero : Fsbuf := ⟨List.replicate 1024 0, [], List.length_replicate⟩

/-- `fsbuf[i] = b`. -/
def Fsbuf.store (i : Nat) (b : UInt8) (buf : Fsbuf) : Fsbuf where
  bytes := buf.bytes.set i b
  stray := if i < 1024 then buf.stray else buf.stray ++ [i]
  length_bytes := by rw [List.length_set, buf.length_bytes]

def put16 (off : Nat) (v : UInt32) (buf : Fsbuf) : Fsbuf :=
  (buf.store off v.toUInt8).store (off + 1) (v >>> 8).toUInt8

def put32 (off : Nat) (v : UInt32) (buf : Fsbuf) : Fsbuf :=
  (((buf.store off v.toUInt8).store (off + 1) (v >>> 8).toUInt8).store (off + 2)
    (v >>> 16).toUInt8).store (off + 3) (v >>> 24).toUInt8

/-- `fsbuf[(i - 1) >> 3] |= (unsigned char)(1 << ((i - 1) & 7))`. -/
def Fsbuf.mark (buf : Fsbuf) (i : Nat) : Fsbuf :=
  buf.store ((i - 1) / 8) (buf.bytes.getD ((i - 1) / 8) 0 ||| 1 <<< UInt8.ofNat ((i - 1) % 8))

/-- The loops over a bitmap: mark `lo`, `lo + 1`, ... below `hi`. -/
def Fsbuf.markRange (lo hi : Nat) (buf : Fsbuf) : Fsbuf :=
  (List.range' lo (hi - lo)).foldl Fsbuf.mark buf

/-! ## The layout -/

/-- The variables of `cmd_mkfs` that describe the file system. -/
structure Layout where
  blocks : UInt32
  inodes : UInt32
  itblocks : UInt32
  bBitmap : UInt32
  iBitmap : UInt32
  iTable : UInt32
  rootData : UInt32
  firstFree : UInt32
  freeBlocks : UInt32
  freeInodes : UInt32
  deriving DecidableEq, Repr

/-- One inode for four blocks, at least 16, rounded up to a whole block of the table. -/
def inodesFor (blocks : UInt32) : UInt32 :=
  let inodes := blocks / 4
  let inodes := if inodes < 16 then 16 else inodes
  (inodes + 7) &&& ~~~7

def layout (blocks : UInt32) : Layout :=
  let inodes := inodesFor blocks
  let itblocks := (inodes * fsInosize + fsBsize - 1) / fsBsize
  let iTable := 5
  let rootData := iTable + itblocks
  let firstFree := rootData + 1
  { blocks := blocks
    inodes := inodes
    itblocks := itblocks
    bBitmap := 3
    iBitmap := 4
    iTable := iTable
    rootData := rootData
    firstFree := firstFree
    freeBlocks := blocks - firstFree
    freeInodes := inodes - fsFirstino + 1 }

/-! ## The blocks -/

def superblock (l : Layout) : Fsbuf :=
  fsZero
    |> put32 0 l.inodes
    |> put32 4 l.blocks
    |> put32 8 0
    |> put32 12 l.freeBlocks
    |> put32 16 l.freeInodes
    |> put32 20 1
    |> put32 24 0
    |> put32 28 0
    |> put32 32 (fsBsize * 8)
    |> put32 36 (fsBsize * 8)
    |> put32 40 l.inodes
    |> put16 56 0xEF53
    |> put16 58 1
    |> put16 60 1
    |> put32 72 0
    |> put32 76 0
    |> put16 54 0xffff

def groupDescriptor (l : Layout) : Fsbuf :=
  fsZero
    |> put32 0 l.bBitmap
    |> put32 4 l.iBitmap
    |> put32 8 l.iTable
    |> put16 12 l.freeBlocks
    |> put16 14 l.freeInodes
    |> put16 16 1

/-- Block `b` is bit `b - 1`.  The blocks in use are marked, and the padding. -/
def blockBitmap (l : Layout) : Fsbuf :=
  fsZero
    |> Fsbuf.markRange 1 l.firstFree.toNat
    |> Fsbuf.markRange l.blocks.toNat ((fsBsize * 8).toNat + 1)

def inodeBitmap (l : Layout) : Fsbuf :=
  fsZero
    |> Fsbuf.markRange 1 fsFirstino.toNat
    |> Fsbuf.markRange (l.inodes + 1).toNat ((fsBsize * 8).toNat + 1)

/-- Block `i` of the inode table.  Inode 2 is the root directory, in the first block. -/
def inodeTable (l : Layout) (i : Nat) : Fsbuf :=
  if i = 0 then
    let o := fsInosize.toNat
    fsZero
      |> put16 (o + 0) 0x41ED
      |> put16 (o + 2) 0
      |> put32 (o + 4) fsBsize
      |> put16 (o + 24) 0
      |> put16 (o + 26) 2
      |> put32 (o + 28) (fsBsize / 512)
      |> put32 (o + 40) l.rootData
  else fsZero

def rootDirectory : Fsbuf :=
  fsZero
    |> put32 0 2
    |> put16 4 12
    |> Fsbuf.store 6 1
    |> Fsbuf.store 8 0x2E
    |> put32 12 2
    |> put16 16 (fsBsize - 12)
    |> Fsbuf.store 18 2
    |> Fsbuf.store 20 0x2E
    |> Fsbuf.store 21 0x2E

/-- The blocks in the order in which they are written, with their numbers. -/
def image (l : Layout) : List (UInt32 × Fsbuf) :=
  [(1, superblock l), (2, groupDescriptor l), (l.bBitmap, blockBitmap l),
    (l.iBitmap, inodeBitmap l)] ++
  (List.range l.itblocks.toNat).map (fun i => (l.iTable + UInt32.ofNat i, inodeTable l i)) ++
  [(l.rootData, rootDirectory)]

/-! ## Writing -/

/-- The device, byte by byte. -/
abbrev Device : Type := Nat → UInt8

/-- How the system calls turn out: `open`, `BLKGETSIZE` with the sectors it stores, and the
`lseek` and the `write` of each `fs_put`. -/
structure Kernel where
  openResult : Int
  ioctlResult : Int
  sectors : UInt32
  lseekResult : Nat → Int
  writeResult : Nat → Int

/-- The first `n` of the bytes, written at `pos`. -/
def writeAt (dev : Device) (pos n : Nat) (bs : List UInt8) : Device :=
  fun a => if pos ≤ a ∧ a < pos + n then bs.getD (a - pos) 0 else dev a

/-- `fs_put`, the `n`-th of the run. -/
def fsPut (k : Kernel) (n : Nat) (dev : Device) (blk : UInt32) (buf : Fsbuf) : Int × Device :=
  if k.lseekResult n < 0 then (k.lseekResult n, dev)
  else
    let r := k.writeResult n
    let dev := writeAt dev (blk * fsBsize).toNat (min r.toNat fsBsize.toNat) buf.bytes
    if r ≠ fsBsize.toNat then (if r < 0 then r else -1, dev) else (0, dev)

/-- Writes until one fails. -/
def putAll (k : Kernel) : Nat → Device → List (UInt32 × Fsbuf) → Int × Device
  | _, dev, [] => (0, dev)
  | n, dev, (blk, buf) :: rest =>
    let (err, dev) := fsPut k n dev blk buf
    if err < 0 then (err, dev) else putAll k (n + 1) dev rest

/-! ## The command -/

/-- How the command ends. -/
inductive Outcome where
  | usage
  | openFailed (err : Int)
  | sizeFailed (err : Int)
  | zeroSized
  | tooSmall (blocks : UInt32)
  | tooSmallForMetadata
  | writeFailed (err : Int)
  | done (freeBlocks : UInt32)
  deriving DecidableEq, Repr

/-- The block count of the command line: digits up to the first other character. -/
def parseBlocks (cs : List Char) : UInt32 :=
  (cs.takeWhile fun c => '0' ≤ c ∧ c ≤ '9').foldl
    (fun blocks c => blocks * 10 + UInt32.ofNat (c.toNat - '0'.toNat)) 0

/-- The block count, from the command line or from the driver. -/
def blockCount (k : Kernel) (av : List String) : Except Outcome UInt32 :=
  if av.length > 3 then .ok (parseBlocks (av.getD 3 "").toList)
  else if k.ioctlResult < 0 then .error (.sizeFailed k.ioctlResult)
  else if k.sectors / 2 = 0 then .error .zeroSized
  else .ok (k.sectors / 2)

/-- `cmd_mkfs` up to the first write. -/
def accept (k : Kernel) (av : List String) : Except Outcome Layout :=
  if av.length < 3 ∨ av.getD 2 "" ≠ "yes" then .error .usage
  else if k.openResult < 0 then .error (.openFailed k.openResult)
  else
    match blockCount k av with
    | .error o => .error o
    | .ok blocks =>
      if blocks < 16 then .error (.tooSmall blocks)
      else if (layout blocks).firstFree ≥ blocks then .error .tooSmallForMetadata
      else .ok (layout blocks)

/-- `cmd_mkfs`, with the device it leaves. -/
def cmdMkfs (k : Kernel) (av : List String) (dev : Device) : Outcome × Device :=
  match accept k av with
  | .error o => (o, dev)
  | .ok l =>
    let (err, dev) := putAll k 0 dev (image l)
    if err < 0 then (.writeFailed err, dev) else (.done l.freeBlocks, dev)

end Brsh
end Blackroo
