import Blackroo.Initrd.Setup
import Blackroo.Kloader.Host

/-!
# Where the initrd is put and where it is looked for

`addpsexe_initrd` appends an initrd to the PS-EXE of a kernel at build time, and
`setup_arch` looks for it at boot time.  The two never exchange an address: the tool goes
by the load address of the image and the `_end` symbol it is given, the kernel by its own
`_end`, and each rounds up to a page and steps back over a header.  The tool works with
addresses in KSEG0, the kernel with physical ones.

`initrd_placed` says that they meet.  The image the tool writes, loaded at its address, has
the bytes of the kernel where they were, zeros up to the header, and the header and the
initrd at the address of the search, behind what `kernel_entry` clears.  If the RAM has
room for it, `setup_arch` keeps its pages (`Placed.kept`).
-/

namespace Blackroo
namespace Initrd

open ByteMemory LittleEndian Kloader

/-! ## The tool -/

/-- The start of KSEG0, the unmapped view of the physical memory. -/
def kseg0 : UInt32 := 0x80000000

/-- The `_end` symbol as the tool takes it: a bare physical address is accepted. -/
def symbolEnd (sym : UInt32) : UInt32 := if sym < 0x80000000 then sym ||| 0x80000000 else sym

/-- `kernel_end`: the end of the image, or the symbol if one is given and lies above. -/
def kernelEnd (tAddr tSize : UInt32) (sym : Option UInt32) : UInt32 :=
  match sym with
  | none => tAddr + tSize
  | some sym => if symbolEnd sym > tAddr + tSize then symbolEnd sym else tAddr + tSize

/-- `initrd_offset`, the address of the header in memory. -/
def initrdOffset (kernelEnd : UInt32) : UInt32 :=
  let offset := ((kernelEnd + 4095) &&& ~~~4095) - 8
  if offset < kernelEnd then offset + 4096 else offset

/-- `new_t_size`, padded to the block size of a PS-EXE. -/
def newTSize (tAddr tSize initrdSize kernelEnd : UInt32) : UInt32 :=
  let imageEnd := tAddr + tSize
  let paddingSize := initrdOffset kernelEnd - imageEnd
  (tSize + paddingSize + 8 + initrdSize + 2047) &&& ~~~2047

/-- `file_offset`, the place of the header in the output. -/
def fileOffset (tAddr kernelEnd : UInt32) : UInt32 := 2048 + (initrdOffset kernelEnd - tAddr)

/-- One copy into the output buffer. -/
structure Write where
  offset : Nat
  bytes : List UInt8

/-- The output buffer, cleared when it is allocated, and what is copied into it. -/
structure Output where
  size : UInt32
  writes : List Write

/-- The file that is written. -/
def Output.file (o : Output) : List UInt8 :=
  o.writes.foldl (fun buf w => putBytes w.offset w.bytes buf) (List.replicate o.size.toNat 0)

/-- The header of an initrd in the file. -/
def inrdHeader (initrdSize : UInt32) : List UInt8 := bytes32 inrdMagic ++ bytes32 initrdSize

/-- `main` of `addpsexe_initrd`, on the contents of its two input files and the value of
its last argument.  Sizes of files are kept in 32 bits. -/
def addpsexeInitrd (exe initrd : List UInt8) (sym : Option UInt32) : Option Output :=
  let exeSize := UInt32.ofNat exe.length
  let initrdSize := UInt32.ofNat initrd.length
  let exeData := exe.take exeSize.toNat
  if exeData.take 8 ≠ psexeMagic then none
  else
    let tAddr := get32 exeData 0x18
    let tSize := get32 exeData 0x1C
    let kend := kernelEnd tAddr tSize sym
    let newSize := newTSize tAddr tSize initrdSize kend
    let off := (fileOffset tAddr kend).toNat
    some {
      size := 2048 + newSize
      writes := [
        ⟨0, exeData.take psexeHeaderSize⟩,
        ⟨0x1C, bytes32 newSize⟩,
        ⟨psexeHeaderSize, (exeData.drop psexeHeaderSize).take tSize.toNat⟩,
        ⟨off, inrdHeader initrdSize⟩,
        ⟨off + 8, initrd.take initrdSize.toNat⟩] }

/-! ## The way into memory -/

/-- `kernel_load_psexe`. -/
def kernelLoadPsexe (mem : Mem) (data : List UInt8) : Option Mem :=
  if data.take 8 ≠ psexeMagic then none
  else
    some (apply mem (block (get32 data 0x18)
      ((data.drop psexeHeaderSize).take (get32 data 0x1C).toNat)))

/-- The memory at physical addresses, as the kernel sees it. -/
def physical (mem : Mem) : Mem := fun p => mem (p + kseg0)

/-- The loop of `kernel_entry` that clears the BSS, which stops at `t1`. -/
def clearLoop (t1 : UInt32) : (turns : Nat) → UInt32 → Mem → Option Mem
  | 0, _, _ => none
  | turns + 1, t0, mem =>
    -- the store sits in the delay slot of the branch
    let mem := apply mem (wordAt (t0 + 4) 0)
    if t0 + 4 = t1 then some mem else clearLoop t1 turns (t0 + 4) mem

/-- `kernel_entry` up to the end of the loop. -/
def clearBss (edata kend : UInt32) (turns : Nat) (mem : Mem) : Option Mem :=
  clearLoop (kend - 4) turns edata (apply mem (wordAt edata 0))

/-! ## The two addresses -/

/-- The physical address of `_end`. -/
def physicalEnd (sym : UInt32) : UInt32 := if sym < kseg0 then sym else sym - kseg0

theorem toNat_add_kseg0 (p : UInt32) : (p + kseg0).toNat = (p.toNat + 2 ^ 31) % 2 ^ 32 :=
  UInt32.toNat_add p kseg0

theorem symbolEnd_eq (sym : UInt32) : symbolEnd sym = physicalEnd sym + kseg0 := by
  unfold symbolEnd physicalEnd
  by_cases hbare : sym < kseg0
  · have hlt : sym.toNat < 2 ^ 31 := UInt32.lt_iff_toNat_lt.mp hbare
    rw [if_pos hbare, if_pos (show sym < 0x80000000 from hbare)]
    apply UInt32.toNat_inj.mp
    rw [UInt32.toNat_or, toNat_add_kseg0, Nat.or_comm]
    have hor := Nat.two_pow_add_eq_or_of_lt hlt 1
    show 2 ^ 31 ||| sym.toNat = _
    rw [Nat.mul_one] at hor
    omega
  · rw [if_neg hbare, if_neg (show ¬sym < 0x80000000 from hbare), UInt32.sub_add_cancel]

theorem physicalEnd_lt {sym : UInt32} (h : sym.toNat < 0xA0000000) :
    (physicalEnd sym).toNat < 2 ^ 31 := by
  unfold physicalEnd
  by_cases hbare : sym < kseg0
  · rw [if_pos hbare]
    exact UInt32.lt_iff_toNat_lt.mp hbare
  · have hge : 2 ^ 31 ≤ sym.toNat := UInt32.le_iff_toNat_le.mp (UInt32.not_lt.mp hbare)
    rw [if_neg hbare, UInt32.toNat_sub]
    show (2 ^ 32 - 2 ^ 31 + sym.toNat) % 2 ^ 32 < 2 ^ 31
    omega

/-- The address before the test whether it lies below `_end`. -/
theorem toNat_pageEnd_sub {kend : UInt32} (h0 : 0 < kend.toNat) (h : kend.toNat < 2 ^ 31) :
    (((kend + 4095) &&& ~~~4095) - 8).toNat = (kend.toNat + 4095) / 4096 * 4096 - 8 ∧
      (((kend + kseg0 + 4095) &&& ~~~4095) - 8).toNat =
        (kend.toNat + 4095) / 4096 * 4096 - 8 + 2 ^ 31 := by
  constructor
  · rw [UInt32.toNat_sub, toNat_pageMask, UInt32.toNat_add]
    show (2 ^ 32 - 8 + (kend.toNat + 4095) % 2 ^ 32 / 4096 * 4096) % 2 ^ 32 = _
    omega
  · rw [UInt32.toNat_sub, toNat_pageMask, UInt32.toNat_add, toNat_add_kseg0]
    show (2 ^ 32 - 8 + ((kend.toNat + 2 ^ 31) % 2 ^ 32 + 4095) % 2 ^ 32 / 4096 * 4096) % 2 ^ 32 = _
    omega

/-- **The search is the same in both views of the memory.** -/
theorem searchAddr_add_kseg0 {kend : UInt32} (h0 : 0 < kend.toNat) (h : kend.toNat < 2 ^ 31) :
    searchAddr (kend + kseg0) = searchAddr kend + kseg0 := by
  obtain ⟨hphys, hkseg⟩ := toNat_pageEnd_sub h0 h
  have hview : ((kend + kseg0 + 4095) &&& ~~~4095) - 8 =
    ((kend + 4095) &&& ~~~4095) - 8 + kseg0 := by
    apply UInt32.toNat_inj.mp
    rw [hkseg, toNat_add_kseg0, hphys]
    omega
  have hlt : ((kend + 4095) &&& ~~~4095) - 8 + kseg0 < kend + kseg0 ↔
      ((kend + 4095) &&& ~~~4095) - 8 < kend := by
    rw [UInt32.lt_iff_toNat_lt, UInt32.lt_iff_toNat_lt, toNat_add_kseg0, toNat_add_kseg0, hphys]
    omega
  unfold searchAddr
  dsimp only
  rw [hview]
  by_cases hbelow : ((kend + 4095) &&& ~~~4095) - 8 < kend
  · rw [if_pos hbelow, if_pos (hlt.mpr hbelow), UInt32.add_assoc, UInt32.add_comm kseg0,
      ← UInt32.add_assoc]
  · rw [if_neg hbelow, if_neg (mt hlt.mp hbelow)]

/-- The header lies behind `_end`, by less than two pages. -/
theorem searchAddr_bounds {kend : UInt32} (h0 : 0 < kend.toNat) (h : kend.toNat < 2 ^ 31) :
    kend.toNat ≤ (searchAddr kend).toNat ∧ (searchAddr kend).toNat < kend.toNat + 2 * 4096 := by
  obtain ⟨hphys, -⟩ := toNat_pageEnd_sub h0 h
  unfold searchAddr
  dsimp only
  split
  · rw [UInt32.toNat_add, hphys]
    show kend.toNat ≤ (_ + 4096) % 2 ^ 32 ∧ (_ + 4096) % 2 ^ 32 < _
    omega
  · next hbelow =>
    have hle := UInt32.le_iff_toNat_le.mp (UInt32.not_lt.mp hbelow)
    omega

/-- The tool and the kernel go by the same expression, at different addresses. -/
theorem initrdOffset_eq_searchAddr (kend : UInt32) : initrdOffset kend = searchAddr kend := rfl

/-! ## What the tool computes -/

/-- How far behind the load address the header comes to lie. -/
def headerPlace (exe : List UInt8) (sym : UInt32) : Nat :=
  (initrdOffset (symbolEnd sym) - get32 exe 0x18).toNat

/-- The bytes behind the header of the output file. -/
def dataSize (exe initrd : List UInt8) (sym : UInt32) : Nat :=
  (headerPlace exe sym + 8 + initrd.length + 2047) / 2048 * 2048

/-- A complete PS-EXE for KSEG0, an `_end` symbol above the end of its image, and an initrd
with which the output has a 32-bit size. -/
structure Placeable (exe initrd : List UInt8) (sym : UInt32) : Prop where
  magic : exe.take 8 = psexeMagic
  complete : psexeHeaderSize + (get32 exe 0x1C).toNat ≤ exe.length
  exeSize : exe.length < 2 ^ 32
  low : 0x80000000 ≤ (get32 exe 0x18).toNat
  high : (get32 exe 0x18).toNat < 0xA0000000
  symbol : sym.toNat < 0xA0000000
  bssGap : (get32 exe 0x18).toNat + (get32 exe 0x1C).toNat < (symbolEnd sym).toNat
  outputSize : psexeHeaderSize + dataSize exe initrd sym < 2 ^ 32

section Placement

variable {exe initrd : List UInt8} {sym : UInt32}

theorem Placeable.toNat_symbolEnd (h : Placeable exe initrd sym) :
    (symbolEnd sym).toNat = (physicalEnd sym).toNat + 2 ^ 31 := by
  have hlt := physicalEnd_lt h.symbol
  rw [symbolEnd_eq, toNat_add_kseg0]
  omega

theorem Placeable.physicalEnd_pos (h : Placeable exe initrd sym) : 0 < (physicalEnd sym).toNat := by
  have hsym := h.toNat_symbolEnd
  have hgap := h.bssGap
  have hlow := h.low
  omega

/-- The header lies at the physical address of the search, seen through KSEG0. -/
theorem Placeable.initrdOffset_eq (h : Placeable exe initrd sym) :
    initrdOffset (symbolEnd sym) = searchAddr (physicalEnd sym) + kseg0 := by
  rw [initrdOffset_eq_searchAddr, symbolEnd_eq,
    searchAddr_add_kseg0 h.physicalEnd_pos (physicalEnd_lt h.symbol)]

/-- The distance of the header, between physical addresses. -/
theorem Placeable.headerPlace_eq (h : Placeable exe initrd sym) :
    (get32 exe 0x18).toNat + headerPlace exe sym =
        (searchAddr (physicalEnd sym)).toNat + 2 ^ 31 ∧
      (get32 exe 0x1C).toNat < headerPlace exe sym := by
  have hsearch := searchAddr_bounds h.physicalEnd_pos (physicalEnd_lt h.symbol)
  have hsym := h.toNat_symbolEnd
  have hgap := h.bssGap
  have hlow := h.low
  have hplace : headerPlace exe sym = (2 ^ 32 - (get32 exe 0x18).toNat +
      ((searchAddr (physicalEnd sym)).toNat + 2 ^ 31) % 2 ^ 32) % 2 ^ 32 := by
    rw [headerPlace, h.initrdOffset_eq, UInt32.toNat_sub, toNat_add_kseg0]
  have hhigh := h.high
  have hbound := physicalEnd_lt h.symbol
  omega

theorem Placeable.kernelEnd_eq (h : Placeable exe initrd sym) :
    kernelEnd (get32 exe 0x18) (get32 exe 0x1C) (some sym) = symbolEnd sym := by
  have hlt := (symbolEnd sym).toNat_lt
  have hgap := h.bssGap
  refine if_pos (UInt32.lt_iff_toNat_lt.mpr ?_)
  rw [UInt32.toNat_add]
  omega

theorem Placeable.toNat_fileOffset (h : Placeable exe initrd sym) :
    (fileOffset (get32 exe 0x18) (symbolEnd sym)).toNat =
      psexeHeaderSize + headerPlace exe sym := by
  have hsize := h.outputSize
  unfold dataSize psexeHeaderSize at hsize
  rw [fileOffset, UInt32.toNat_add]
  show (2048 + headerPlace exe sym) % 2 ^ 32 = 2048 + headerPlace exe sym
  omega

/-- The padding is measured from the end of the image, so the new size does not depend on
where the image ends. -/
theorem Placeable.toNat_newTSize (h : Placeable exe initrd sym) :
    (newTSize (get32 exe 0x18) (get32 exe 0x1C) (UInt32.ofNat initrd.length)
      (symbolEnd sym)).toNat = dataSize exe initrd sym := by
  have hsize := h.outputSize
  unfold dataSize psexeHeaderSize at hsize
  have hpadding : get32 exe 0x1C +
      (initrdOffset (symbolEnd sym) - (get32 exe 0x18 + get32 exe 0x1C)) =
        initrdOffset (symbolEnd sym) - get32 exe 0x18 := by
    have haddr := (get32 exe 0x18).toNat_lt
    apply UInt32.toNat_inj.mp
    rw [UInt32.toNat_add, UInt32.toNat_sub, UInt32.toNat_sub, UInt32.toNat_add]
    omega
  have hlen : (UInt32.ofNat initrd.length).toNat = initrd.length := UInt32.toNat_ofNat_of_lt' (by
    show initrd.length < 2 ^ 32
    omega)
  unfold newTSize
  dsimp only
  rw [hpadding, UInt32.and_comm, toNat_and_mask (k := 11) (by decide) (by decide), UInt32.toNat_add,
    UInt32.toNat_add, UInt32.toNat_add, hlen]
  show (((headerPlace exe sym + 8) % 2 ^ 32 + initrd.length) % 2 ^ 32 + 2047) % 2 ^ 32 / 2 ^ 11 *
    2 ^ 11 = (headerPlace exe sym + 8 + initrd.length + 2047) / 2048 * 2048
  omega

/-- What `main` allocates and copies, with its sizes worked out. -/
def placedOutput (exe initrd : List UInt8) (sym : UInt32) : Output where
  size := UInt32.ofNat (psexeHeaderSize + dataSize exe initrd sym)
  writes := [
    ⟨0, exe.take psexeHeaderSize⟩,
    ⟨0x1C, bytes32 (UInt32.ofNat (dataSize exe initrd sym))⟩,
    ⟨psexeHeaderSize, (exe.drop psexeHeaderSize).take (get32 exe 0x1C).toNat⟩,
    ⟨psexeHeaderSize + headerPlace exe sym, inrdHeader (UInt32.ofNat initrd.length)⟩,
    ⟨psexeHeaderSize + headerPlace exe sym + 8, initrd⟩]

theorem Placeable.addpsexeInitrd_eq (h : Placeable exe initrd sym) :
    addpsexeInitrd exe initrd (some sym) = some (placedOutput exe initrd sym) := by
  have hsize := h.outputSize
  have hinitrd : initrd.length < 2 ^ 32 := by
    unfold dataSize psexeHeaderSize at hsize
    omega
  have hexe : exe.take (UInt32.ofNat exe.length).toNat = exe := by
    rw [UInt32.toNat_ofNat_of_lt' h.exeSize, List.take_length]
  have hrd : initrd.take (UInt32.ofNat initrd.length).toNat = initrd := by
    rw [UInt32.toNat_ofNat_of_lt' hinitrd, List.take_length]
  have hnew : newTSize (get32 exe 0x18) (get32 exe 0x1C) (UInt32.ofNat initrd.length)
      (symbolEnd sym) = UInt32.ofNat (dataSize exe initrd sym) := by
    rw [← h.toNat_newTSize, UInt32.ofNat_toNat]
  have hout : 2048 + UInt32.ofNat (dataSize exe initrd sym) =
      UInt32.ofNat (psexeHeaderSize + dataSize exe initrd sym) := by
    rw [UInt32.ofNat_add]
    rfl
  unfold addpsexeInitrd
  dsimp only
  rw [hexe, hrd, if_neg (not_not.mpr h.magic), h.kernelEnd_eq, hnew, hout, h.toNat_fileOffset,
    placedOutput]

/-! ## The file -/

theorem Placeable.toNat_size (h : Placeable exe initrd sym) :
    (placedOutput exe initrd sym).size.toNat = psexeHeaderSize + dataSize exe initrd sym :=
  UInt32.toNat_ofNat_of_lt' h.outputSize

/-- The output file, with the copies of the header and the initrd as one. -/
theorem Placeable.file_eq (h : Placeable exe initrd sym) :
    (placedOutput exe initrd sym).file =
      putBytes (psexeHeaderSize + headerPlace exe sym)
        (inrdHeader (UInt32.ofNat initrd.length) ++ initrd)
        (putBytes psexeHeaderSize ((exe.drop psexeHeaderSize).take (get32 exe 0x1C).toNat)
          (putBytes 0x1C (bytes32 (UInt32.ofNat (dataSize exe initrd sym)))
            (putBytes 0 (exe.take psexeHeaderSize)
              (List.replicate (psexeHeaderSize + dataSize exe initrd sym) 0)))) := by
  rw [Output.file, h.toNat_size, putBytes_append]
  rfl

/-- The sizes that keep the copies apart. -/
theorem Placeable.sizes (h : Placeable exe initrd sym) :
    (exe.take psexeHeaderSize).length = psexeHeaderSize ∧
      ((exe.drop psexeHeaderSize).take (get32 exe 0x1C).toNat).length = (get32 exe 0x1C).toNat ∧
      (inrdHeader (UInt32.ofNat initrd.length)).length = 8 ∧
      headerPlace exe sym + 8 + initrd.length ≤ dataSize exe initrd sym := by
  have hcomplete := h.complete
  refine ⟨?_, ?_, rfl, ?_⟩
  · rw [List.length_take]
    omega
  · rw [List.length_take, List.length_drop]
    omega
  · unfold dataSize
    omega

/-- **No copy leaves the output buffer.** -/
theorem Placeable.inside (h : Placeable exe initrd sym) :
    ∀ w ∈ (placedOutput exe initrd sym).writes,
      w.offset + w.bytes.length ≤ (placedOutput exe initrd sym).size.toNat := by
  obtain ⟨hhead, hkernel, hinrd, hdata⟩ := h.sizes
  have hplace := h.headerPlace_eq.2
  have hpos : psexeHeaderSize = 2048 := rfl
  rw [h.toNat_size, placedOutput]
  dsimp only
  rw [List.forall_mem_cons, List.forall_mem_cons, List.forall_mem_cons, List.forall_mem_cons,
    List.forall_mem_singleton, hhead, hkernel, hinrd, length_bytes32]
  dsimp only
  omega

theorem Placeable.length_file (h : Placeable exe initrd sym) :
    (placedOutput exe initrd sym).file.length = psexeHeaderSize + dataSize exe initrd sym := by
  rw [h.file_eq, length_putBytes, length_putBytes, length_putBytes, length_putBytes,
    List.length_replicate]

/-- The header of the file is that of the PS-EXE, the new size apart. -/
theorem Placeable.getD_file_header (h : Placeable exe initrd sym) {i : Nat}
    (hi : i < psexeHeaderSize) (hsize : i < 0x1C ∨ 0x20 ≤ i) :
    (placedOutput exe initrd sym).file.getD i 0 = exe.getD i 0 := by
  obtain ⟨hhead, -, -, -⟩ := h.sizes
  have hcopy := @getD_putBytes 0 i (exe.take psexeHeaderSize)
    (List.replicate (psexeHeaderSize + dataSize exe initrd sym) 0) (by omega)
    (by rw [hhead, List.length_replicate]; omega)
  rw [Nat.zero_add] at hcopy
  rw [h.file_eq, getD_putBytes_of_disjoint _ (by omega), getD_putBytes_of_disjoint _ (by omega),
    getD_putBytes_of_disjoint _ (by rw [length_bytes32]; omega), hcopy,
    List.getD_eq_getElem?_getD, List.getElem?_take_of_lt hi, List.getD_eq_getElem?_getD]

theorem Placeable.get32_file_tAddr (h : Placeable exe initrd sym) :
    get32 (placedOutput exe initrd sym).file 0x18 = get32 exe 0x18 := by
  have hbyte : ∀ i < 4, (placedOutput exe initrd sym).file.getD (0x18 + i) 0 =
      exe.getD (0x18 + i) 0 := by
    intro i hi
    exact h.getD_file_header (by unfold psexeHeaderSize; omega) (by omega)
  rw [get32, hbyte 0 (by decide), hbyte 1 (by decide), hbyte 2 (by decide), hbyte 3 (by decide),
    get32]

theorem Placeable.get32_file_tSize (h : Placeable exe initrd sym) :
    get32 (placedOutput exe initrd sym).file 0x1C = UInt32.ofNat (dataSize exe initrd sym) := by
  have hpos : psexeHeaderSize = 2048 := rfl
  rw [h.file_eq, get32_putBytes_of_disjoint _ _ (by omega),
    get32_putBytes_of_disjoint _ _ (by omega), get32_putBytes]
  rw [length_putBytes, List.length_replicate]
  omega

theorem Placeable.take_file (h : Placeable exe initrd sym) :
    (placedOutput exe initrd sym).file.take 8 = psexeMagic := by
  have hpos : psexeHeaderSize = 2048 := rfl
  have hcomplete := h.complete
  have hlen := h.length_file
  rw [← h.magic]
  apply List.ext_getElem
  · rw [List.length_take, List.length_take]
    omega
  · intro i h₁ h₂
    rw [List.length_take] at h₁ h₂
    rw [List.getElem_take, List.getElem_take, ← List.getD_eq_getElem _ 0,
      ← List.getD_eq_getElem _ 0]
    exact h.getD_file_header (by omega) (by omega)

theorem Placeable.getD_file_kernel (h : Placeable exe initrd sym) {i : Nat}
    (hi : i < (get32 exe 0x1C).toNat) :
    (placedOutput exe initrd sym).file.getD (psexeHeaderSize + i) 0 =
      exe.getD (psexeHeaderSize + i) 0 := by
  obtain ⟨-, hkernel, -, hdata⟩ := h.sizes
  have hplace := h.headerPlace_eq.2
  rw [h.file_eq, getD_putBytes_of_disjoint _ (by omega), getD_putBytes (by omega) (by
      rw [hkernel, length_putBytes, length_putBytes, List.length_replicate]
      omega),
    List.getD_eq_getElem?_getD, List.getElem?_take_of_lt hi, List.getElem?_drop,
    List.getD_eq_getElem?_getD]

/-- The buffer was cleared, and nothing is copied into the gap. -/
theorem Placeable.getD_file_gap (h : Placeable exe initrd sym) {i : Nat}
    (hi : (get32 exe 0x1C).toNat ≤ i) (hgap : i < headerPlace exe sym) :
    (placedOutput exe initrd sym).file.getD (psexeHeaderSize + i) 0 = 0 := by
  obtain ⟨hhead, hkernel, -, -⟩ := h.sizes
  have hpos : psexeHeaderSize = 2048 := rfl
  rw [h.file_eq, getD_putBytes_of_disjoint _ (by omega), getD_putBytes_of_disjoint _ (by omega),
    getD_putBytes_of_disjoint _ (by rw [length_bytes32]; omega),
    getD_putBytes_of_disjoint _ (by omega), List.getD_eq_getElem?_getD]
  exact List.getElem?_getD_replicate_default_eq _ _ _

theorem Placeable.getD_file_initrd (h : Placeable exe initrd sym) {i : Nat}
    (hi : i < (inrdHeader (UInt32.ofNat initrd.length) ++ initrd).length) :
    (placedOutput exe initrd sym).file.getD (psexeHeaderSize + (headerPlace exe sym + i)) 0 =
      (inrdHeader (UInt32.ofNat initrd.length) ++ initrd).getD i 0 := by
  obtain ⟨-, -, hinrd, hdata⟩ := h.sizes
  rw [h.file_eq, ← Nat.add_assoc, getD_putBytes hi]
  rw [length_putBytes, length_putBytes, length_putBytes, List.length_replicate, List.length_append,
    hinrd]
  omega

/-! ## The memory -/

/-- The loaded image, byte by byte. -/
theorem Placeable.loaded (h : Placeable exe initrd sym) (mem : Mem) :
    ∃ m, kernelLoadPsexe mem (placedOutput exe initrd sym).file = some m ∧
      ∀ i < dataSize exe initrd sym, m (get32 exe 0x18 + UInt32.ofNat i) =
        (placedOutput exe initrd sym).file.getD (psexeHeaderSize + i) 0 := by
  have hsize := h.outputSize
  have hlen := h.length_file
  have hdata : (UInt32.ofNat (dataSize exe initrd sym)).toNat = dataSize exe initrd sym :=
    UInt32.toNat_ofNat_of_lt' (by
      show dataSize exe initrd sym < 2 ^ 32
      omega)
  refine ⟨_, if_neg (not_not.mpr h.take_file), fun i hi => ?_⟩
  rw [h.get32_file_tAddr, h.get32_file_tSize, hdata, apply_block _ _ (by
      rw [List.length_take, List.length_drop]
      omega),
    toNat_add_ofNat_sub _ (by omega), List.getD_eq_getElem _ _ (by
      rw [List.length_take, List.length_drop]
      omega),
    List.getElem_take, List.getElem_drop, List.getD_eq_getElem]

/-- The physical address of a byte of the header or the initrd. -/
theorem Placeable.search_add (h : Placeable exe initrd sym) (i : Nat) :
    searchAddr (physicalEnd sym) + UInt32.ofNat i + kseg0 =
      get32 exe 0x18 + UInt32.ofNat (headerPlace exe sym + i) := by
  have hoff : get32 exe 0x18 + UInt32.ofNat (headerPlace exe sym) =
      searchAddr (physicalEnd sym) + kseg0 := by
    rw [headerPlace, UInt32.ofNat_toNat, ← h.initrdOffset_eq, UInt32.add_comm,
      UInt32.sub_add_cancel]
  rw [UInt32.ofNat_add, ← UInt32.add_assoc, hoff, UInt32.add_assoc, UInt32.add_assoc,
    UInt32.add_comm (UInt32.ofNat i)]

end Placement

/-- **The loop ends, and stores only between its ends.** -/
theorem clearLoop_eq (t1 : UInt32) (ht1 : t1.toNat + 4 < 2 ^ 32) {n : Nat} (hn : 0 < n)
    (t0 : UInt32)
    (h : t0.toNat + 4 * n = t1.toNat) (mem : Mem) :
    ∃ t, Within (t0.toNat + 4) (t1.toNat + 4) t ∧ clearLoop t1 n t0 mem = some (apply mem t) := by
  induction n generalizing t0 mem with
  | zero => exact absurd hn (by decide)
  | succ n ih =>
    have hnext : (t0 + 4).toNat = t0.toNat + 4 := by
      rw [UInt32.toNat_add]
      show (t0.toNat + 4) % 2 ^ 32 = _
      omega
    have hstore : Within (t0.toNat + 4) (t1.toNat + 4) (wordAt (t0 + 4) 0) :=
      (within_wordAt ht1 _ _).mpr (by omega)
    rw [clearLoop]
    by_cases hstop : t0 + 4 = t1
    · exact ⟨_, hstore, if_pos hstop⟩
    · have hne : (t0 + 4).toNat ≠ t1.toNat := fun heq => hstop (UInt32.toNat_inj.mp heq)
      obtain ⟨t, ht, hloop⟩ := ih (by omega) (t0 + 4) (by omega) (apply mem (wordAt (t0 + 4) 0))
      refine ⟨wordAt (t0 + 4) 0 ++ t, within_append.mpr ⟨hstore, ?_⟩, ?_⟩
      · exact ht.mono (by omega) (Nat.le_refl _)
      · rw [apply_append]
        exact (if_neg hstop).trans hloop

/-- `kernel_entry` clears a BSS of `n` words, two or more, and nothing outside it. -/
theorem clearBss_eq {edata kend : UInt32} {n : Nat} (hn : 2 ≤ n)
    (h : edata.toNat + 4 * n = kend.toNat) (mem : Mem) :
    ∃ t, Within edata.toNat kend.toNat t ∧ clearBss edata kend (n - 1) mem =
      some (apply mem t) := by
  have hkend := kend.toNat_lt
  have hlast : (kend - 4).toNat = kend.toNat - 4 := toNat_sub_ofNat (n := 4) (by omega)
  obtain ⟨t, ht, hloop⟩ := clearLoop_eq (kend - 4) (by omega) (by omega) edata
    (show edata.toNat + 4 * (n - 1) = _ by omega) (apply mem (wordAt edata 0))
  refine ⟨wordAt edata 0 ++ t, within_append.mpr ⟨?_, ht.mono (by omega) (by omega)⟩, ?_⟩
  · exact (within_wordAt hkend _ _).mpr (by omega)
  · rw [apply_append]
    exact hloop

/-! ## The meeting -/

/-- The words of the header that `setup_arch` finds. -/
def readHeader (mem : Mem) (kend : UInt32) : Header :=
  ⟨get32 (load mem (searchAddr kend) 8) 0, get32 (load mem (searchAddr kend) 8) 4⟩

/-- The memory holds what the tool was given: the kernel, a cleared gap, and the initrd
where the kernel looks for it, before and after the kernel has cleared its BSS. -/
structure Placed (exe initrd : List UInt8) (kend : UInt32) (m : Mem) : Prop where
  kernel : ∀ i < (get32 exe 0x1C).toNat,
    m (get32 exe 0x18 + UInt32.ofNat i) = exe.getD (psexeHeaderSize + i) 0
  gap : ∀ i, (get32 exe 0x1C).toNat ≤ i →
    (get32 exe 0x18).toNat + i < (searchAddr kend).toNat + kseg0.toNat →
      m (get32 exe 0x18 + UInt32.ofNat i) = 0
  header : readHeader (physical m) kend = ⟨inrdMagic, UInt32.ofNat initrd.length⟩
  content : load (physical m) (searchAddr kend + 8) initrd.length = initrd
  cleared : ∀ edata n, 2 ≤ n → edata.toNat + 4 * n = kend.toNat →
    (get32 exe 0x18).toNat ≤ edata.toNat + kseg0.toNat →
      ∃ m', clearBss edata kend (n - 1) (physical m) = some m' ∧
        readHeader m' kend = ⟨inrdMagic, UInt32.ofNat initrd.length⟩ ∧
        load m' (searchAddr kend + 8) initrd.length = initrd

/-- The bytes of the header and the initrd, read as the kernel reads them. -/
theorem read_of_bytes {m : Mem} {kend : UInt32} {initrd : List UInt8}
    (h : ∀ i < (inrdHeader (UInt32.ofNat initrd.length) ++ initrd).length,
      m (searchAddr kend + UInt32.ofNat i) =
        (inrdHeader (UInt32.ofNat initrd.length) ++ initrd).getD i 0) :
    readHeader m kend = ⟨inrdMagic, UInt32.ofNat initrd.length⟩ ∧
      load m (searchAddr kend + 8) initrd.length = initrd := by
  have hall := load_eq m _ h
  rw [List.length_append, load_add] at hall
  obtain ⟨hheader, hinitrd⟩ := List.append_inj hall (length_load _ _ _)
  refine ⟨?_, hinitrd⟩
  have hload : load m (searchAddr kend) 8 = inrdHeader (UInt32.ofNat initrd.length) := hheader
  rw [readHeader, hload]
  show Header.mk (get32 (bytes32 inrdMagic) 0) (get32 (bytes32 (UInt32.ofNat initrd.length)) 0) = _
  rw [get32_bytes32, get32_bytes32]

section Meeting

variable {exe initrd : List UInt8} {sym : UInt32}

/-- **The initrd is where the kernel looks**, in every memory that was loaded. -/
theorem Placeable.placed (h : Placeable exe initrd sym) {m : Mem}
    (hm : ∀ i < dataSize exe initrd sym, m (get32 exe 0x18 + UInt32.ofNat i) =
      (placedOutput exe initrd sym).file.getD (psexeHeaderSize + i) 0) :
    Placed exe initrd (physicalEnd sym) m := by
  obtain ⟨-, -, hinrd, hdata⟩ := h.sizes
  obtain ⟨hplace, hroom⟩ := h.headerPlace_eq
  have hkseg : kseg0.toNat = 2 ^ 31 := rfl
  have hbytes : ∀ i < (inrdHeader (UInt32.ofNat initrd.length) ++ initrd).length,
      physical m (searchAddr (physicalEnd sym) + UInt32.ofNat i) =
        (inrdHeader (UInt32.ofNat initrd.length) ++ initrd).getD i 0 := by
    intro i hi
    have hlen := hi
    rw [List.length_append, hinrd] at hlen
    rw [physical, h.search_add, hm _ (by omega), h.getD_file_initrd hi]
  refine ⟨fun i hi => ?_, fun i hi hgap => ?_, (read_of_bytes hbytes).1, (read_of_bytes hbytes).2,
    fun edata n hn hend hlow => ?_⟩
  · rw [hm i (by omega), h.getD_file_kernel hi]
  · rw [hm i (by omega), h.getD_file_gap hi (by omega)]
  · obtain ⟨t, ht, hclear⟩ := clearBss_eq hn hend (physical m)
    refine ⟨_, hclear, read_of_bytes fun i hi => ?_⟩
    rw [apply_of_within _ ht ?_, hbytes i hi]
    have hsize := h.outputSize
    have hsearch := searchAddr_bounds h.physicalEnd_pos (physicalEnd_lt h.symbol)
    have hlen := hi
    rw [List.length_append, hinrd] at hlen
    rw [UInt32.toNat_add, UInt32.toNat_ofNat']
    omega

end Meeting

/-- **From the tool to the boot allocator**: an initrd that was placed and ends within the RAM
is published by `setup_arch`, and its pages are kept. -/
theorem Placed.kept {exe initrd : List UInt8} {kend : UInt32} {m : Mem}
    (h : Placed exe initrd kend m) {r : Region}
    (hram : (searchAddr kend).toNat + 8 + initrd.length ≤ 4096 * (highestPfn [r]).toNat) :
    InitrdKept kend (setupArch kend [r] (readHeader (physical m) kend)) := by
  have hmax := highestPfn_lt [r]
  have hlen : (UInt32.ofNat initrd.length).toNat = initrd.length := UInt32.toNat_ofNat_of_lt' (by
    show initrd.length < 2 ^ 32
    omega)
  have hstart : (initrdStart kend).toNat = (searchAddr kend).toNat + 8 := by
    rw [initrdStart, UInt32.toNat_add]
    show (_ + 8) % 2 ^ 32 = _
    omega
  have hend : (initrdEnd kend ⟨inrdMagic, UInt32.ofNat initrd.length⟩).toNat =
      (searchAddr kend).toNat + 8 + initrd.length := by
    rw [initrdEnd, UInt32.toNat_add, hstart, hlen]
    omega
  rw [h.header]
  refine kept_of_within rfl ?_ ?_ ?_
  · intro hzero
    rw [hzero] at hstart
    exact absurd hstart (by show ¬0 = _; omega)
  · rw [UInt32.le_iff_toNat_le, hstart, hend]
    omega
  · rw [UInt32.le_iff_toNat_le, hend, toNat_pfnPhys hmax]
    exact hram

/-- **The tool and the kernel meet.**  For every complete PS-EXE in KSEG0, every `_end`
above the end of its image and every initrd that fits, the tool writes a file, no copy
leaves its buffer, and wherever the file is loaded the kernel finds the initrd, at or above
its `_end`. -/
theorem initrd_placed (exe initrd : List UInt8) (sym : UInt32) (h : Placeable exe initrd sym) :
    ∃ o, addpsexeInitrd exe initrd (some sym) = some o ∧
      (∀ w ∈ o.writes, w.offset + w.bytes.length ≤ o.size.toNat) ∧
      (physicalEnd sym).toNat ≤ (searchAddr (physicalEnd sym)).toNat ∧
      ∀ mem, ∃ m, kernelLoadPsexe mem o.file = some m ∧ Placed exe initrd (physicalEnd sym) m := by
  refine ⟨_, h.addpsexeInitrd_eq, h.inside, ?_, fun mem => ?_⟩
  · exact (searchAddr_bounds h.physicalEnd_pos (physicalEnd_lt h.symbol)).1
  · obtain ⟨m, hload, hm⟩ := h.loaded mem
    exact ⟨m, hload, h.placed hm⟩

/-- A kernel of four bytes at the load address of the real one. -/
def smallKernel : List UInt8 :=
  psexeMagic ++ List.replicate 16 0 ++ bytes32 0x80090000 ++ bytes32 4 ++ List.replicate 2016 0 ++
    [1, 2, 3, 4]

theorem placeable_smallKernel : Placeable smallKernel [5, 6, 7] 0x90FFC where
  magic := by decide +kernel
  complete := by decide +kernel
  exeSize := by decide +kernel
  low := by decide +kernel
  high := by decide +kernel
  symbol := by decide
  bssGap := by decide +kernel
  outputSize := by decide +kernel

/-- A bare physical `_end` four bytes below the end of a page, so that the header goes to the
end of the next one. -/
theorem initrd_placed_smallKernel :
    searchAddr (physicalEnd 0x90FFC) = 0x91FF8 ∧
      ∃ o, addpsexeInitrd smallKernel [5, 6, 7] (some 0x90FFC) = some o ∧
        (∀ w ∈ o.writes, w.offset + w.bytes.length ≤ o.size.toNat) ∧
        (physicalEnd 0x90FFC).toNat ≤ (searchAddr (physicalEnd 0x90FFC)).toNat ∧
        ∀ mem, ∃ m, kernelLoadPsexe mem o.file = some m ∧
          Placed smallKernel [5, 6, 7] (physicalEnd 0x90FFC) m :=
  ⟨by decide, initrd_placed smallKernel [5, 6, 7] 0x90FFC placeable_smallKernel⟩

end Initrd
end Blackroo
