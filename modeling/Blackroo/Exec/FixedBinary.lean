import Blackroo.Lib.ByteMemory

/-!
# The fixed-address ELF loader

`fs/binfmt_fixed.c` runs statically linked programs on a machine without an MMU: it
copies the loadable segments to the addresses they were linked for, inside a window
at the top of RAM that the page allocator never owns, and builds the argument stack
at the top of that window.

The model keeps every byte the loader stores at an address taken from the program:
the segment data and zero fill in one trace, the strings and the
`argc`/`argv`/`envp` tables in another.  The memory itself is carried along, because
`create_fixed_tables` finds the strings by scanning what `putstring` wrote.

The loader makes two passes over the program headers.  The first only looks: every loadable segment
has to lie in the window below the room for the stack (`checkSegments`).  The second copies, when
the old program is gone already, so a short read there cannot be reported to it any more and kills
the process instead (`copySegments`).  `Exec.Confinement` says that no store of either trace leaves
the window, and `Exec.StartStack` what a program finds on its stack.
-/

namespace Blackroo
namespace Exec

open ByteMemory LittleEndian

/-! ## The reserved window -/

/-- The RAM options of the kernel configuration. -/
inductive RamOption where
  | mb2 | mb4 | mb8 | mb16
  deriving DecidableEq, Repr

/-- `BLACKROO_USER_TOP`. -/
def RamOption.userTop : RamOption → Nat
  | .mb16 => 0x01000000
  | .mb8 => 0x00800000
  | .mb4 => 0x00400000
  | .mb2 => 0x00200000

/-- `BLACKROO_STACK_SIZE`: 12 KB at the top of the window. -/
def blackrooStackSize : Nat := 0x3000

/-- The window of a kernel configuration: `CONFIG_BLACKROO_USER_RESERVE_KB` leaves
room for the stack and does not exceed the RAM. -/
structure Window where
  ram : RamOption
  reserveKb : Nat
  stack_le : blackrooStackSize ≤ reserveKb * 1024
  le_top : reserveKb * 1024 ≤ ram.userTop

/-- `BLACKROO_USER_SIZE`. -/
def Window.userSize (w : Window) : Nat := w.reserveKb <<< 10

/-- `BLACKROO_USER_END`. -/
def Window.userEnd (w : Window) : Nat := w.ram.userTop

/-- `BLACKROO_USER_BASE`. -/
def Window.userBase (w : Window) : Nat := w.userEnd - w.userSize

/-- `BLACKROO_USER_END - BLACKROO_STACK_SIZE`: segments end below, the stack stays
above. -/
def Window.stackFloor (w : Window) : Nat := w.userEnd - blackrooStackSize

/-! ## The executable -/

/-- `-ENOEXEC`, `-EACCES`, `-ENOMEM` and `-EIO`. -/
def eNoExec : Int := -8

def eAcces : Int := -13

def eNoMem : Int := -12

def eIo : Int := -5

/-- The file being executed: its bytes, and whether it can be read at all. -/
structure ExecFile where
  content : List UInt8
  hasRead : Bool

/-- The bytes `kernel_read` delivers; the return value is their number. -/
def kernelRead (f : ExecFile) (offset count : Nat) : List UInt8 :=
  (f.content.drop offset).take count

/-- The fields of the ELF header the loader looks at. -/
structure ElfHdr where
  eIdent : List UInt8
  eType : UInt16
  eMachine : UInt16
  eEntry : UInt32
  ePhoff : UInt32
  ePhnum : UInt16

/-- `bprm->buf` read as an ELF header: the first 128 bytes of the file, over a
buffer of zeros. -/
def elfHdr (f : ExecFile) : ElfHdr :=
  let buf := kernelRead f 0 128
  ⟨(List.range 4).map fun i => buf.getD i 0, get16 buf 16, get16 buf 18, get32 buf 24,
    get32 buf 28, get16 buf 44⟩

/-- The fields of a program header the loader looks at. -/
structure ElfPhdr where
  pType : UInt32
  pOffset : UInt32
  pVaddr : UInt32
  pFilesz : UInt32
  pMemsz : UInt32
  deriving DecidableEq, Repr

/-- `sizeof(struct elf_phdr)`. -/
def phdrSize : Nat := 32

/-- Entry `i` of a program-header table. -/
def phdrAt (table : List UInt8) (i : Nat) : ElfPhdr :=
  ⟨get32 table (phdrSize * i), get32 table (phdrSize * i + 4), get32 table (phdrSize * i + 8),
    get32 table (phdrSize * i + 16), get32 table (phdrSize * i + 20)⟩

/-- `ELFMAG`, `ET_EXEC`, `EM_MIPS` and `PT_LOAD`. -/
def elfMag : List UInt8 := [0x7f, 0x45, 0x4c, 0x46]

def etExec : UInt16 := 2

def emMips : UInt16 := 8

def ptLoad : UInt32 := 1

/-- A C string, without its terminator. -/
abbrev CString : Type := { s : List UInt8 // (0 : UInt8) ∉ s }

/-- The fields of `struct linux_binprm` the loader looks at. -/
structure LinuxBinprm where
  file : ExecFile
  filename : CString
  argv : List CString
  envp : List CString

/-- What the rest of the kernel answers: whether `kmalloc` succeeds, and the result
of `flush_old_exec`. -/
structure KernelEnv where
  kmallocOk : Bool
  flushOldExec : Int

/-! ## Segments -/

/-- The window check of every loadable segment, with the lowest start, the highest
end and the count.  `end = start + p_memsz` is an `unsigned long` addition. -/
def checkSegments (w : Window) : List ElfPhdr → UInt32 → UInt32 → Nat →
    Except Int (UInt32 × UInt32 × Nat)
  | [], low, high, nload => .ok (low, high, nload)
  | ph :: phs, low, high, nload =>
    if ph.pType ≠ ptLoad then checkSegments w phs low high nload
    else
      let start := ph.pVaddr
      let stop := start + ph.pMemsz
      if start.toNat < w.userBase ∨ stop.toNat > w.stackFloor then .error eNoExec
      else
        checkSegments w phs (if start < low then start else low)
          (if stop > high then stop else high) (nload + 1)

/-- The stores of one loadable segment, and whether the read was complete: the file
data, then the zero fill. -/
def copySegment (f : ExecFile) (ph : ElfPhdr) : List Store × Bool :=
  let data := if ph.pFilesz ≠ 0 then kernelRead f ph.pOffset.toNat ph.pFilesz.toNat else []
  if data.length ≠ ph.pFilesz.toNat then (block ph.pVaddr data, false)
  else
    (block ph.pVaddr data ++
      (if ph.pMemsz > ph.pFilesz then
        block (ph.pVaddr + ph.pFilesz) (List.replicate (ph.pMemsz - ph.pFilesz).toNat 0)
      else []), true)

/-- The second pass over the table.  A short read ends it with `-EIO`. -/
def copySegments (f : ExecFile) : List ElfPhdr → List Store × Option Int
  | [] => ([], none)
  | ph :: phs =>
    if ph.pType ≠ ptLoad then copySegments f phs
    else
      let (stores, complete) := copySegment f ph
      if complete then
        let (rest, err) := copySegments f phs
        (stores ++ rest, err)
      else (stores, some eIo)

/-! ## The argument stack -/

/-- The processor as the loader drives it: the memory, and the stores made so far. -/
structure Cpu where
  mem : Mem
  trace : List Store

/-- Making some stores. -/
def Cpu.store (c : Cpu) (t : List Store) : Cpu := ⟨apply c.mem t, c.trace ++ t⟩

/-- `putstring`: copy a string with its terminator below `p`. -/
def putstring (c : Cpu) (p : UInt32) (s : CString) : Cpu × UInt32 :=
  let p := p - UInt32.ofNat (s.val.length + 1)
  (c.store (block p (s.val ++ [0])), p)

/-- `putstringarray`: the last string first. -/
def putstringarray (c : Cpu) (p : UInt32) (array : List CString) : Cpu × UInt32 :=
  array.foldr (fun s cp => putstring cp.1 cp.2 s) (c, p)

/-- `while (*p++) ;`, over a memory of `2 ^ 32` bytes. -/
def skipString (m : Mem) : Nat → UInt32 → UInt32
  | 0, p => p
  | n + 1, p => if m p = 0 then p + 1 else skipString m n (p + 1)

/-- The loop that fills a pointer table: store the address of the next string, then
scan past it.  The result is the end of the table and the end of the strings. -/
def putPointers : Nat → Cpu → UInt32 → UInt32 → Cpu × UInt32 × UInt32
  | 0, c, table, p => (c, table, p)
  | n + 1, c, table, p =>
    let c := c.store (wordAt table p)
    putPointers n c (table + 4) (skipString c.mem (2 ^ 32) p)

/-- The addresses `create_fixed_tables` reports. -/
structure FixedTables where
  sp : UInt32
  argStart : UInt32
  argEnd : UInt32
  envEnd : UInt32

/-- `create_fixed_tables`. -/
def createFixedTables (c : Cpu) (pp : UInt32) (argc envc : Nat) : Cpu × FixedTables :=
  let sp := (0 - 4) &&& pp
  let envp := sp - UInt32.ofNat (4 * (envc + 1))
  let argv := envp - UInt32.ofNat (4 * (argc + 1))
  let sp := argv - 4
  let c := c.store (wordAt sp (UInt32.ofNat argc))
  let (c, argvEnd, p₁) := putPointers argc c argv pp
  let c := c.store (wordAt argvEnd 0)
  let (c, envpEnd, p₂) := putPointers envc c envp p₁
  let c := c.store (wordAt envpEnd 0)
  (c, ⟨sp, pp, p₁, p₂⟩)

/-! ## The loader -/

/-- What a run of the loader did.  `stores` are the segment bytes and `stack` the
strings and tables; `sigkill` records the signal of the short-read path. -/
structure LoadResult where
  retval : Int
  stores : List Store
  stack : List Store
  sigkill : Bool
  mem : Mem
  tables : Option FixedTables

/-- A run that stored nothing. -/
def LoadResult.refuse (retval : Int) (mem : Mem) : LoadResult :=
  ⟨retval, [], [], false, mem, none⟩

/-- The program-header table, when the header is acceptable and the table can be
read whole. -/
def readPhdrs (env : KernelEnv) (f : ExecFile) : Except Int (List ElfPhdr) :=
  let elf := elfHdr f
  if elf.eIdent ≠ elfMag then .error eNoExec
  else if elf.eType ≠ etExec then .error eNoExec
  else if elf.eMachine ≠ emMips then .error eNoExec
  else if !f.hasRead then .error eAcces
  else
    let phsize := elf.ePhnum.toNat * phdrSize
    if elf.ePhnum.toNat < 1 ∨ phsize > 64 * phdrSize then .error eNoExec
    else if !env.kmallocOk then .error eNoMem
    else
      let table := kernelRead f elf.ePhoff.toNat phsize
      if table.length ≠ phsize then .error eIo
      else .ok ((List.range elf.ePhnum.toNat).map (phdrAt table))

/-- The argument stack of a loaded program. -/
def buildStack (w : Window) (bprm : LinuxBinprm) (mem : Mem) : Cpu × FixedTables :=
  let stackTop := UInt32.ofNat (w.userEnd - 16)
  let (c, p) := putstringarray ⟨mem, []⟩ stackTop [bprm.filename]
  let (c, p) := putstringarray c p bprm.envp
  let (c, p) := putstringarray c p bprm.argv
  createFixedTables c p bprm.argv.length bprm.envp.length

/-- `load_fixed_binary`. -/
def loadFixedBinary (w : Window) (env : KernelEnv) (bprm : LinuxBinprm) (mem : Mem) :
    LoadResult :=
  match readPhdrs env bprm.file with
  | .error e => .refuse e mem
  | .ok phdrs =>
    match checkSegments w phdrs (0 - 1) 0 0 with
    | .error e => .refuse e mem
    | .ok (_, _, nload) =>
      if nload = 0 then .refuse eNoExec mem
      else if env.flushOldExec ≠ 0 then .refuse env.flushOldExec mem
      else
        match copySegments bprm.file phdrs with
        | (stores, some e) => ⟨e, stores, [], true, apply mem stores, none⟩
        | (stores, none) =>
          let (c, tables) := buildStack w bprm (apply mem stores)
          ⟨0, stores, c.trace, false, c.mem, some tables⟩

end Exec
end Blackroo
