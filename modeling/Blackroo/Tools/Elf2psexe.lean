import Mathlib.Data.List.Find
import Blackroo.Initrd.Placement
import Blackroo.Lib.CString

/-!
# From ELF to PS-EXE

`tools/elf2psexe.c` turns a linked ELF file into the image that the console loads: it looks for
the range of addresses that the `PT_LOAD` segments take up, copies their bytes into a buffer of
that size, pads it to whole sectors and puts a header in front.

The segments may come in any order, overlap, leave gaps or be empty.  `elf2psexe_loads` says
that this does not matter: if the tool succeeds without a warning, then the image, loaded where
its header says, has at every address the byte of the last segment that reaches it, and zeros
elsewhere.  What it rests on is that the 32-bit sums of the range do not wrap, and that all
segments lie on one side of the start of KSEG0, so that one displacement takes all their
addresses there.

The model has the tool's accesses to its image buffer, the warnings about short reads, and the
failures that the host can bring about (`Host`).  Offsets are seeked to as they are, as on a
host with 64-bit `long`, and the structures of the file are read as they stand, as on a
little-endian one.
-/

namespace Blackroo
namespace Elf2psexe

open LittleEndian ByteMemory Kloader Initrd
open CommandLine (ascii)

/-! ## The tool -/

/-- What the host decides: whether memory is found, and files are opened and written. -/
structure Host where
  mallocs : Bool
  callocs : Bool
  reallocs : Bool
  opensOutput : Bool
  writesHeader : Bool
  writesImage : Bool
  deriving DecidableEq, Repr

/-- The ways not to exit with status 0. -/
inductive Stop where
  | exit1 (message : String)
  /-- the buffer is gone and is written to -/
  | nullImage
  deriving DecidableEq, Repr

structure Ehdr where
  eIdent : List UInt8
  eMachine : UInt16
  eEntry : UInt32
  ePhoff : UInt32
  ePhnum : UInt16
  deriving DecidableEq, Repr

structure Phdr where
  pType : UInt32
  pOffset : UInt32
  pVaddr : UInt32
  pFilesz : UInt32
  pMemsz : UInt32
  pFlags : UInt32
  deriving DecidableEq, Repr

/-- The file header. -/
def ehdrOf (file : List UInt8) : Ehdr :=
  ⟨file.take 16, get16 file 18, get32 file 24, get32 file 28, get16 file 44⟩

/-- The program header at an offset. -/
def phdrAt (file : List UInt8) (off : Nat) : Phdr :=
  ⟨get32 file off, get32 file (off + 4), get32 file (off + 8), get32 file (off + 16),
    get32 file (off + 20), get32 file (off + 24)⟩

/-- The program headers. -/
def phdrsOf (file : List UInt8) : List Phdr :=
  (List.range (ehdrOf file).ePhnum.toNat).map fun i =>
    phdrAt file ((ehdrOf file).ePhoff.toNat + 32 * i)

def ptLoad : UInt32 := 1

def pfW : UInt32 := 2

def readEhdr (file : List UInt8) : Except Stop Ehdr :=
  if file.length < 52 then .error (.exit1 "Cannot read ELF header")
  else .ok (ehdrOf file)

def checkEhdr (ehdr : Ehdr) : Except Stop Unit :=
  if ehdr.eIdent.take 4 ≠ [0x7f, 0x45, 0x4c, 0x46] then .error (.exit1 "Error: Not an ELF file")
  else if ehdr.eIdent.getD 4 0 ≠ 1 then .error (.exit1 "Error: Not a 32-bit ELF")
  else if ehdr.eIdent.getD 5 0 ≠ 1 then .error (.exit1 "Error: Not little-endian")
  else if ehdr.eMachine ≠ 8 then
    .error (.exit1 ("Error: Not a MIPS ELF (machine=" ++ toString ehdr.eMachine.toNat ++ ")"))
  else .ok ()

def readPhdrs (host : Host) (file : List UInt8) (ehdr : Ehdr) : Except Stop (List Phdr) :=
  if !host.mallocs then .error (.exit1 "Cannot allocate program headers")
  else if (file.drop ehdr.ePhoff.toNat).length / 32 < ehdr.ePhnum.toNat then
    .error (.exit1 "Cannot read program headers")
  else .ok (phdrsOf file)

/-- What the first pass over the segments finds. -/
structure Range where
  loadAddr : UInt32
  endAddr : UInt32
  bssAddr : UInt32
  bssSize : UInt32
  dataAddr : UInt32
  dataSize : UInt32
  deriving DecidableEq, Repr

/-- One turn of the first pass. -/
def scan (r : Range) (p : Phdr) : Range :=
  if p.pType = ptLoad then
    { loadAddr := if p.pVaddr < r.loadAddr then p.pVaddr else r.loadAddr
      endAddr := if p.pVaddr + p.pFilesz > r.endAddr then p.pVaddr + p.pFilesz else r.endAddr
      bssAddr := if p.pMemsz > p.pFilesz then p.pVaddr + p.pFilesz else r.bssAddr
      bssSize := if p.pMemsz > p.pFilesz then p.pMemsz - p.pFilesz else r.bssSize
      dataAddr := if p.pFlags &&& pfW ≠ 0 then p.pVaddr else r.dataAddr
      dataSize := if p.pFlags &&& pfW ≠ 0 then p.pFilesz else r.dataSize }
  else r

def loadRange (phdrs : List Phdr) : Range := phdrs.foldl scan ⟨0xFFFFFFFF, 0, 0, 0, 0, 0⟩

/-- `image_size`. -/
def Range.imageSize (r : Range) : UInt32 := r.endAddr - r.loadAddr

/-- An access to the image buffer, and the size of the buffer then. -/
structure Access where
  offset : Nat
  count : Nat
  size : Nat
  deriving DecidableEq, Repr

def Access.InBounds (a : Access) : Prop := a.offset + a.count ≤ a.size

/-- The image buffer, the accesses so far, and whether there has been a warning. -/
structure Image where
  bytes : List UInt8
  accesses : List Access
  warned : Bool
  deriving DecidableEq, Repr

/-- What a segment reads of the file. -/
def Phdr.bytes (p : Phdr) (file : List UInt8) : List UInt8 :=
  (file.drop p.pOffset.toNat).take p.pFilesz.toNat

/-- One turn of the second pass. -/
def copySegment (file : List UInt8) (loadAddr : UInt32) (im : Image) (p : Phdr) : Image :=
  if p.pType = ptLoad ∧ p.pFilesz > 0 then
    let offset := (p.pVaddr - loadAddr).toNat
    { bytes := putBytes offset (p.bytes file) im.bytes
      accesses := im.accesses ++ [⟨offset, (p.bytes file).length, im.bytes.length⟩]
      warned := im.warned || (p.bytes file).length ≠ p.pFilesz.toNat }
  else im

def loadImage (host : Host) (file : List UInt8) (phdrs : List Phdr) (r : Range) :
    Except Stop Image :=
  if !host.callocs then .error (.exit1 "Cannot allocate image buffer")
  else
    .ok (phdrs.foldl (copySegment file r.loadAddr)
      ⟨List.replicate r.imageSize.toNat 0, [], false⟩)

/-- `padded_size`. -/
def paddedSize (imageSize : UInt32) : UInt32 := (imageSize + 2047) &&& ~~~2047

def padImage (host : Host) (imageSize : UInt32) (im : Image) : Except Stop Image :=
  if paddedSize imageSize > imageSize then
    if host.reallocs then
      .ok { im with
        bytes := im.bytes ++ List.replicate ((paddedSize imageSize).toNat - imageSize.toNat) 0
        accesses := im.accesses ++ [⟨imageSize.toNat,
          (paddedSize imageSize).toNat - imageSize.toNat, (paddedSize imageSize).toNat⟩] }
    else .error .nullImage
  else .ok im

/-- `TO_KSEG0`. -/
def toKseg0 (addr : UInt32) : UInt32 := if addr < 0x80000000 then addr ||| 0x80000000 else addr

/-- `image_size` after the padding. -/
def finalSize (imageSize : UInt32) : UInt32 :=
  if paddedSize imageSize > imageSize then paddedSize imageSize else imageSize

/-- The header: the fields from `pc0` to `sp_offset`, and the marker. -/
def psexeHeader (entry : UInt32) (r : Range) (stackTop : Option UInt32) : List UInt8 :=
  psexeMagic ++ List.replicate 8 0 ++
    bytes32 (toKseg0 entry) ++ bytes32 0 ++
    bytes32 (toKseg0 r.loadAddr) ++ bytes32 (finalSize r.imageSize) ++
    bytes32 (toKseg0 r.dataAddr) ++ bytes32 r.dataSize ++
    bytes32 (toKseg0 r.bssAddr) ++ bytes32 r.bssSize ++
    bytes32 (stackTop.getD 0x801fff00) ++ bytes32 0 ++
    List.replicate 20 0 ++
    padTo 1972 (ascii "Blackroo Linux for PlayStation")

/-- A finished conversion. -/
structure Output where
  file : List UInt8
  accesses : List Access
  warned : Bool
  deriving DecidableEq, Repr

/-- `fwrite` of one item of size 0 returns 0. -/
def writeExe (host : Host) (header : List UInt8) (im : Image) : Except Stop Output :=
  if !host.opensOutput then .error (.exit1 "Cannot create output file")
  else if !host.writesHeader then .error (.exit1 "Cannot write PS-EXE header")
  else if im.bytes = [] ∨ !host.writesImage then .error (.exit1 "Cannot write image data")
  else
    .ok ⟨header ++ im.bytes, im.accesses ++ [⟨0, im.bytes.length, im.bytes.length⟩], im.warned⟩

/-- `main`, on the contents of the input file and the value of the last argument. -/
def elf2psexe (host : Host) (file : Option (List UInt8)) (stackTop : Option UInt32) :
    Except Stop Output := do
  match file with
  | none => .error (.exit1 "Cannot open input ELF file")
  | some file =>
    let ehdr ← readEhdr file
    checkEhdr ehdr
    let phdrs ← readPhdrs host file ehdr
    let r := loadRange phdrs
    let im ← loadImage host file phdrs r
    let im ← padImage host r.imageSize im
    writeExe host (psexeHeader ehdr.eEntry r stackTop) im

/-! ## A conversion that succeeds -/

theorem ok_of_bind {ε α β : Type} {x : Except ε α} {f : α → Except ε β} {b : β}
    (h : x >>= f = .ok b) : ∃ a, x = .ok a ∧ f a = .ok b := by
  cases x with
  | error e => cases h
  | ok a => exact ⟨a, rfl, h⟩

/-- The image buffer behind the second pass. -/
def loadedImage (file : List UInt8) : Image :=
  (phdrsOf file).foldl (copySegment file (loadRange (phdrsOf file)).loadAddr)
    ⟨List.replicate (loadRange (phdrsOf file)).imageSize.toNat 0, [], false⟩

/-- **What a conversion writes.** -/
theorem elf2psexe_cases {host : Host} {file : List UInt8} {stackTop : Option UInt32} {out : Output}
    (h : elf2psexe host (some file) stackTop = .ok out) :
    ∃ im, padImage host (loadRange (phdrsOf file)).imageSize (loadedImage file) = .ok im ∧
      im.bytes ≠ [] ∧
      out = ⟨psexeHeader (get32 file 24) (loadRange (phdrsOf file)) stackTop ++ im.bytes,
        im.accesses ++ [⟨0, im.bytes.length, im.bytes.length⟩], im.warned⟩ := by
  obtain ⟨ehdr, hehdr, h₁⟩ := ok_of_bind h
  obtain ⟨_, _, h₂⟩ := ok_of_bind h₁
  obtain ⟨phdrs, hphdrs, h₃⟩ := ok_of_bind h₂
  obtain ⟨im₀, him₀, h₄⟩ := ok_of_bind h₃
  obtain ⟨im, him, hwrite⟩ := ok_of_bind h₄
  have hehdr' : ehdr = ehdrOf file := by
    rw [readEhdr] at hehdr
    split at hehdr <;> cases hehdr
    rfl
  have hphdrs' : phdrs = phdrsOf file := by
    rw [readPhdrs] at hphdrs
    split at hphdrs
    · cases hphdrs
    · split at hphdrs <;> cases hphdrs
      rfl
  subst hehdr' hphdrs'
  have him₀' : im₀ = loadedImage file := by
    rw [loadImage] at him₀
    split at him₀ <;> cases him₀
    rfl
  subst him₀'
  refine ⟨im, him, ?_⟩
  unfold writeExe at hwrite
  split at hwrite
  · cases hwrite
  · split at hwrite
    · cases hwrite
    · split at hwrite
      · cases hwrite
      · rename_i hne
        cases hwrite
        exact ⟨fun hnil => hne (.inl hnil), rfl⟩

/-! ## The first pass -/

/-- The `PT_LOAD` segments. -/
def segments (file : List UInt8) : List Phdr := (phdrsOf file).filter fun p => p.pType = ptLoad

/-- The 32-bit sums of the first pass do not wrap. -/
def NoWrap (file : List UInt8) : Prop :=
  ∀ p ∈ segments file, p.pVaddr.toNat + p.pFilesz.toNat < 2 ^ 32

/-- The segments lie all below the start of KSEG0, or all at or above it. -/
def OneSided (file : List UInt8) : Prop :=
  (∀ p ∈ segments file, p.pVaddr.toNat + p.pFilesz.toNat ≤ 2 ^ 31) ∨
    ∀ p ∈ segments file, 2 ^ 31 ≤ p.pVaddr.toNat

theorem toNat_ite_lt (x y : UInt32) : (if x < y then x else y).toNat = min x.toNat y.toNat := by
  split
  · rename_i h
    have := UInt32.lt_iff_toNat_lt.mp h
    omega
  · rename_i h
    have := UInt32.le_iff_toNat_le.mp (UInt32.not_lt.mp h)
    omega

theorem toNat_ite_gt (x y : UInt32) : (if x > y then x else y).toNat = max x.toNat y.toNat := by
  split
  · rename_i h
    have := UInt32.lt_iff_toNat_lt.mp h
    omega
  · rename_i h
    have := UInt32.le_iff_toNat_le.mp (UInt32.not_lt.mp h)
    omega

/-- The range is the smallest one around the segments. -/
structure Spans (ps : List Phdr) (r : Range) : Prop where
  lower : ∀ p ∈ ps, p.pType = ptLoad → r.loadAddr.toNat ≤ p.pVaddr.toNat
  upper : ∀ p ∈ ps, p.pType = ptLoad → p.pVaddr.toNat + p.pFilesz.toNat ≤ r.endAddr.toNat
  le_load : ∀ n < 2 ^ 32, (∀ p ∈ ps, p.pType = ptLoad → n ≤ p.pVaddr.toNat) → n ≤ r.loadAddr.toNat
  end_le : ∀ n, (∀ p ∈ ps, p.pType = ptLoad → p.pVaddr.toNat + p.pFilesz.toNat ≤ n) →
    r.endAddr.toNat ≤ n

theorem spans_loadRange {ps : List Phdr}
    (h : ∀ p ∈ ps, p.pType = ptLoad → p.pVaddr.toNat + p.pFilesz.toNat < 2 ^ 32) :
    Spans ps (loadRange ps) := by
  induction ps using List.reverseRecOn with
  | nil =>
    refine ⟨nofun, nofun, fun n hn _ => ?_, fun n _ => Nat.zero_le n⟩
    show n ≤ 2 ^ 32 - 1
    omega
  | append_singleton ps p ih =>
    have hps := ih fun q hq => h q (List.mem_append_left _ hq)
    have hstep : loadRange (ps ++ [p]) = scan (loadRange ps) p := by
      rw [loadRange, List.foldl_append]
      rfl
    rw [hstep, scan]
    split
    · rename_i hload
      have hsum : (p.pVaddr + p.pFilesz).toNat = p.pVaddr.toNat + p.pFilesz.toNat := by
        rw [UInt32.toNat_add]
        exact Nat.mod_eq_of_lt (h p (List.mem_append_right _ List.mem_cons_self) hload)
      constructor
      all_goals
        dsimp only
        simp only [toNat_ite_lt, toNat_ite_gt, hsum, List.forall_mem_append,
          List.forall_mem_singleton]
      · exact ⟨fun q hq hl => Nat.le_trans (Nat.min_le_right _ _) (hps.lower q hq hl),
          fun _ => Nat.min_le_left _ _⟩
      · exact ⟨fun q hq hl => Nat.le_trans (hps.upper q hq hl) (Nat.le_max_right _ _),
          fun _ => Nat.le_max_left _ _⟩
      · rintro n hn ⟨hrest, hp⟩
        exact Nat.le_min.mpr ⟨hp hload, hps.le_load n hn hrest⟩
      · rintro n ⟨hrest, hp⟩
        exact Nat.max_le.mpr ⟨hp hload, hps.end_le n hrest⟩
    · rename_i hload
      constructor
      all_goals simp only [List.forall_mem_append, List.forall_mem_singleton]
      · exact ⟨hps.lower, fun hl => absurd hl hload⟩
      · exact ⟨hps.upper, fun hl => absurd hl hload⟩
      · exact fun n hn hrest => hps.le_load n hn hrest.1
      · exact fun n hrest => hps.end_le n hrest.1

/-! ## The second pass -/

/-- The segments that are copied. -/
def copied (ps : List Phdr) : List Phdr := ps.filter fun p => p.pType = ptLoad ∧ p.pFilesz > 0

/-- Where the bytes of a segment go. -/
def Phdr.patch (p : Phdr) (file : List UInt8) (loadAddr : UInt32) : Patch :=
  ⟨(p.pVaddr - loadAddr).toNat, p.bytes file⟩

/-- The access that a copy makes. -/
def accessOf (size : Nat) (q : Patch) : Access := ⟨q.offset, q.bytes.length, size⟩

/-- **The second pass is an overlay**, and without a warning every segment was read whole. -/
theorem copySegments_eq (file : List UInt8) (loadAddr : UInt32) (ps : List Phdr) (im : Image) :
    let patches := (copied ps).map fun p => p.patch file loadAddr
    let im' := ps.foldl (copySegment file loadAddr) im
    im'.bytes = overlay patches im.bytes ∧
      im'.accesses = im.accesses ++ patches.map (accessOf im.bytes.length) ∧
      (im'.warned = false → im.warned = false ∧
        ∀ p ∈ copied ps, (p.bytes file).length = p.pFilesz.toNat) := by
  induction ps generalizing im with
  | nil => exact ⟨rfl, (List.append_nil _).symm, fun h => ⟨h, nofun⟩⟩
  | cons p ps ih =>
    dsimp only
    rw [List.foldl_cons]
    obtain ⟨hbytes, hacc, hwarn⟩ := ih (copySegment file loadAddr im p)
    rw [hbytes, hacc]
    by_cases hp : p.pType = ptLoad ∧ p.pFilesz > 0
    · have hcopied : copied (p :: ps) = p :: copied ps :=
        List.filter_cons_of_pos (decide_eq_true hp)
      rw [hcopied, List.map_cons]
      rw [copySegment, if_pos hp] at hwarn ⊢
      dsimp only at hwarn ⊢
      refine ⟨rfl, ?_, fun h => ?_⟩
      · rw [length_putBytes, List.map_cons, List.append_assoc]
        rfl
      · obtain ⟨h₁, h₂⟩ := hwarn h
        rw [Bool.or_eq_false_iff] at h₁
        have hlen : (p.bytes file).length = p.pFilesz.toNat := by simpa using h₁.2
        exact ⟨h₁.1, List.forall_mem_cons.mpr ⟨hlen, h₂⟩⟩
    · have hcopied : copied (p :: ps) = copied ps :=
        List.filter_cons_of_neg (by rwa [decide_eq_true_eq])
      rw [hcopied]
      rw [copySegment, if_neg hp] at hwarn ⊢
      exact ⟨rfl, rfl, hwarn⟩

/-! ## Sizes -/

section Sizes

variable {file : List UInt8}

theorem mem_segments {p : Phdr} : p ∈ segments file ↔ p ∈ phdrsOf file ∧ p.pType = ptLoad := by
  rw [segments, List.mem_filter, decide_eq_true_eq]

theorem NoWrap.spans (h : NoWrap file) : Spans (phdrsOf file) (loadRange (phdrsOf file)) :=
  spans_loadRange fun p hp hl => h p (mem_segments.mpr ⟨hp, hl⟩)

/-- The image is as long as the segments reach. -/
theorem NoWrap.le_imageSize (h : NoWrap file) {p : Phdr} (hp : p ∈ segments file) :
    (loadRange (phdrsOf file)).loadAddr.toNat ≤ p.pVaddr.toNat ∧
      p.pVaddr.toNat + p.pFilesz.toNat ≤
        (loadRange (phdrsOf file)).loadAddr.toNat + (loadRange (phdrsOf file)).imageSize.toNat := by
  obtain ⟨hp', hl⟩ := mem_segments.mp hp
  have hlower := h.spans.lower p hp' hl
  have hupper := h.spans.upper p hp' hl
  refine ⟨hlower, ?_⟩
  have hend := (loadRange (phdrsOf file)).endAddr.toNat_lt
  rw [Range.imageSize, UInt32.toNat_sub]
  omega

/-- The image does not reach beyond the addresses, and one side of KSEG0 is no more than half of
them. -/
theorem NoWrap.imageSize_le (h : NoWrap file) (hside : OneSided file) :
    (loadRange (phdrsOf file)).imageSize.toNat ≤ 2 ^ 31 ∧
      (loadRange (phdrsOf file)).loadAddr.toNat + (loadRange (phdrsOf file)).imageSize.toNat ≤
        2 ^ 32 := by
  have hspans := h.spans
  generalize hr : loadRange (phdrsOf file) = r at hspans
  have hload := r.loadAddr.toNat_lt
  rw [Range.imageSize, UInt32.toNat_sub]
  cases hseg : segments file with
  | nil =>
    -- without a segment the range is that of the initial values
    have hnone : ∀ p ∈ phdrsOf file, p.pType ≠ ptLoad := fun p hp hl => by
      have hmem := mem_segments.mpr ⟨hp, hl⟩
      rw [hseg] at hmem
      cases hmem
    have h₁ := hspans.le_load (2 ^ 32 - 1) (by decide) fun p hp hl => absurd hl (hnone p hp)
    have h₂ := hspans.end_le 0 fun p hp hl => absurd hl (hnone p hp)
    omega
  | cons p rest =>
    have hp : p ∈ segments file := by rw [hseg]; exact List.mem_cons_self
    obtain ⟨hp', hl⟩ := mem_segments.mp hp
    have hlower := hspans.lower p hp' hl
    have hupper := hspans.upper p hp' hl
    rcases hside with hbelow | habove
    · have h₂ := hspans.end_le (2 ^ 31) fun q hq hq' => hbelow q (mem_segments.mpr ⟨hq, hq'⟩)
      omega
    · have h₁ := hspans.le_load (2 ^ 31) (by decide) fun q hq hq' =>
        habove q (mem_segments.mpr ⟨hq, hq'⟩)
      have hend := r.endAddr.toNat_lt
      omega

end Sizes

/-- Padding to whole sectors. -/
theorem toNat_finalSize {n : UInt32} (h : n.toNat ≤ 2 ^ 31) :
    (finalSize n).toNat = (n.toNat + 2047) / 2048 * 2048 := by
  have hpad : (paddedSize n).toNat = (n.toNat + 2047) / 2048 * 2048 := by
    rw [paddedSize, UInt32.and_comm, toNat_and_mask (k := 11) (by decide) rfl, UInt32.toNat_add]
    show (n.toNat + 2047) % 2 ^ 32 / 2048 * 2048 = _
    omega
  rw [finalSize, toNat_ite_gt, hpad]
  omega

theorem padImage_eq {host : Host} {n : UInt32} {im im' : Image} (h : padImage host n im = .ok im') :
    im'.bytes = im.bytes ++ List.replicate ((finalSize n).toNat - n.toNat) 0 ∧
      im'.warned = im.warned ∧ ∀ a ∈ im'.accesses, a ∈ im.accesses ∨ a.InBounds := by
  rw [padImage] at h
  split at h
  · rename_i hgt
    split at h
    · cases h
      have hlt := UInt32.lt_iff_toNat_lt.mp hgt
      refine ⟨by rw [finalSize, if_pos hgt], rfl, fun a ha => ?_⟩
      rcases List.mem_append.mp ha with ha | ha
      · exact .inl ha
      · rw [List.mem_singleton.mp ha]
        exact .inr (Nat.add_sub_of_le (Nat.le_of_lt hlt)).le
    · cases h
  · rename_i hgt
    cases h
    refine ⟨?_, rfl, fun a ha => .inl ha⟩
    rw [finalSize, if_neg hgt, Nat.sub_self, List.replicate_zero, List.append_nil]

/-! ## The bytes of the image -/

/-- The address is in the file part of the segment. -/
def Phdr.Covers (p : Phdr) (a : UInt32) : Prop :=
  p.pVaddr.toNat ≤ a.toNat ∧ a.toNat < p.pVaddr.toNat + p.pFilesz.toNat

instance (p : Phdr) (a : UInt32) : Decidable (p.Covers a) := inferInstanceAs (Decidable (_ ∧ _))

/-- The last segment whose file part has the address. -/
def lastSegment (file : List UInt8) (a : UInt32) : Option Phdr :=
  (segments file).reverse.find? fun p => p.Covers a

section Bytes

variable {file : List UInt8}

theorem mem_of_lastSegment {a : UInt32} {p : Phdr} (h : lastSegment file a = some p) :
    p ∈ segments file ∧ p.Covers a := by
  rw [lastSegment] at h
  have hcov := List.find?_some h
  exact ⟨List.mem_reverse.mp (List.mem_of_find?_eq_some h), of_decide_eq_true hcov⟩

/-- The copies into the image. -/
def patches (file : List UInt8) : List Patch :=
  (copied (phdrsOf file)).map fun p => p.patch file (loadRange (phdrsOf file)).loadAddr

theorem mem_copied {p : Phdr} :
    p ∈ copied (phdrsOf file) ↔ p ∈ segments file ∧ 0 < p.pFilesz.toNat := by
  rw [copied, List.mem_filter, decide_eq_true_eq, mem_segments, and_assoc]
  rfl

/-- Every copy was whole. -/
def Whole (file : List UInt8) : Prop :=
  ∀ p ∈ copied (phdrsOf file), (p.bytes file).length = p.pFilesz.toNat

theorem toNat_sub_loadAddr (h : NoWrap file) {p : Phdr} (hp : p ∈ segments file) :
    (p.pVaddr - (loadRange (phdrsOf file)).loadAddr).toNat =
      p.pVaddr.toNat - (loadRange (phdrsOf file)).loadAddr.toNat := by
  have hle := (h.le_imageSize hp).1
  have hv := p.pVaddr.toNat_lt
  rw [UInt32.toNat_sub]
  omega

/-- **The copies stay in the buffer.** -/
theorem patches_inBounds (h : NoWrap file) (hw : Whole file) :
    ∀ q ∈ patches file, q.offset + q.bytes.length ≤ (loadRange (phdrsOf file)).imageSize.toNat := by
  intro q hq
  obtain ⟨p, hp, rfl⟩ := List.mem_map.mp hq
  obtain ⟨hseg, -⟩ := mem_copied.mp hp
  obtain ⟨h₁, h₂⟩ := h.le_imageSize hseg
  rw [Phdr.patch]
  dsimp only
  rw [hw p hp, toNat_sub_loadAddr h hseg]
  omega

/-- The last copy to an offset is that of the last segment at the address. -/
theorem lastCover_patches (h : NoWrap file) (hw : Whole file) {a : UInt32}
    (ha : (loadRange (phdrsOf file)).loadAddr.toNat ≤ a.toNat) :
    lastCover (patches file) (a.toNat - (loadRange (phdrsOf file)).loadAddr.toNat) =
      (lastSegment file a).map fun p => p.patch file (loadRange (phdrsOf file)).loadAddr := by
  rw [lastCover, patches, ← List.map_reverse, List.find?_map, lastSegment, copied, segments,
    ← List.filter_reverse, ← List.filter_reverse, List.find?_filter, List.find?_filter]
  congr 1
  refine List.find?_congr fun p hp => ?_
  have hp' : p ∈ phdrsOf file := List.mem_reverse.mp hp
  rw [Bool.eq_iff_iff, decide_eq_true_eq, decide_eq_true_eq, Function.comp_apply,
    decide_eq_true_eq, decide_eq_true_eq, decide_eq_true_eq, decide_eq_true_eq]
  constructor
  · rintro ⟨⟨hl, hpos⟩, h₁, h₂⟩
    have hseg := mem_segments.mpr ⟨hp', hl⟩
    have hle := (h.le_imageSize hseg).1
    rw [Phdr.patch] at h₁ h₂
    dsimp only at h₁ h₂
    rw [toNat_sub_loadAddr h hseg] at h₁ h₂
    rw [hw p (mem_copied.mpr ⟨hseg, UInt32.lt_iff_toNat_lt.mp hpos⟩)] at h₂
    exact ⟨hl, by omega, by omega⟩
  · rintro ⟨hl, h₁, h₂⟩
    have hseg := mem_segments.mpr ⟨hp', hl⟩
    have hle := (h.le_imageSize hseg).1
    have hpos : 0 < p.pFilesz.toNat := by omega
    refine ⟨⟨hl, UInt32.lt_iff_toNat_lt.mpr hpos⟩, ?_⟩
    rw [Patch.Covers, Phdr.patch]
    dsimp only
    rw [toNat_sub_loadAddr h hseg, hw p (mem_copied.mpr ⟨hseg, hpos⟩)]
    omega

/-- **The byte of an address in the image** is that of the last segment, or zero. -/
theorem getD_loadedImage (h : NoWrap file) (hw : Whole file) {a : UInt32}
    (ha : (loadRange (phdrsOf file)).loadAddr.toNat ≤ a.toNat) :
    (loadedImage file).bytes.getD (a.toNat - (loadRange (phdrsOf file)).loadAddr.toNat) 0 =
      match lastSegment file a with
      | none => 0
      | some p => file.getD (p.pOffset.toNat + (a.toNat - p.pVaddr.toNat)) 0 := by
  have hbytes := (copySegments_eq file (loadRange (phdrsOf file)).loadAddr (phdrsOf file)
    ⟨List.replicate (loadRange (phdrsOf file)).imageSize.toNat 0, [], false⟩).1
  have hbytes' : (loadedImage file).bytes =
    overlay (patches file) (List.replicate (loadRange (phdrsOf file)).imageSize.toNat 0) := hbytes
  rw [hbytes', getD_overlay (by rw [List.length_replicate]; exact patches_inBounds h hw),
    lastCover_patches h hw ha]
  cases hlast : lastSegment file a with
  | none =>
    show (List.replicate _ (0 : UInt8)).getD _ 0 = 0
    rw [List.getD_eq_getElem?_getD, List.getElem?_getD_replicate_default_eq]
  | some p =>
    obtain ⟨hseg, h₁, h₂⟩ := mem_of_lastSegment hlast
    have hle := (h.le_imageSize hseg).1
    show (p.bytes file).getD (_ - (p.pVaddr - _).toNat) 0 = file.getD _ 0
    rw [toNat_sub_loadAddr h hseg, Phdr.bytes, List.getD_eq_getElem?_getD,
      List.getElem?_take_of_lt (by omega), List.getElem?_drop, List.getD_eq_getElem?_getD]
    congr 3
    omega

theorem length_loadedImage :
    (loadedImage file).bytes.length = (loadRange (phdrsOf file)).imageSize.toNat := by
  have hbytes := (copySegments_eq file (loadRange (phdrsOf file)).loadAddr (phdrsOf file)
    ⟨List.replicate (loadRange (phdrsOf file)).imageSize.toNat 0, [], false⟩).1
  rw [loadedImage, hbytes, length_overlay, List.length_replicate]

theorem accesses_loadedImage (h : NoWrap file) (hw : Whole file) :
    ∀ a ∈ (loadedImage file).accesses, a.InBounds := by
  have hacc := (copySegments_eq file (loadRange (phdrsOf file)).loadAddr (phdrsOf file)
    ⟨List.replicate (loadRange (phdrsOf file)).imageSize.toNat 0, [], false⟩).2.1
  intro a ha
  rw [loadedImage, hacc, List.nil_append, List.length_replicate] at ha
  obtain ⟨q, hq, rfl⟩ := List.mem_map.mp ha
  exact patches_inBounds h hw q hq

theorem whole_of_not_warned (h : (loadedImage file).warned = false) : Whole file :=
  ((copySegments_eq file _ _ _).2.2 h).2

end Bytes

/-- A byte of a segment that was read whole is a byte of the file. -/
theorem getElem?_of_whole {file : List UInt8} (hw : Whole file) {p : Phdr}
    (hp : p ∈ segments file) {a : UInt32} (h₁ : p.pVaddr.toNat ≤ a.toNat)
    (h₂ : a.toNat < p.pVaddr.toNat + p.pFilesz.toNat) :
    file[p.pOffset.toNat + (a.toNat - p.pVaddr.toNat)]? =
      some (file.getD (p.pOffset.toNat + (a.toNat - p.pVaddr.toNat)) 0) := by
  have hlen := hw p (mem_copied.mpr ⟨hp, by omega⟩)
  rw [Phdr.bytes, List.length_take, List.length_drop] at hlen
  have hlt : p.pOffset.toNat + (a.toNat - p.pVaddr.toNat) < file.length := by omega
  rw [List.getD_eq_getElem _ _ hlt, List.getElem?_eq_getElem hlt]

theorem getD_append_of_lt {bs cs : List UInt8} {j : Nat} {d : UInt8} (h : j < bs.length) :
    (bs ++ cs).getD j d = bs.getD j 0 := by
  rw [List.getD_append _ _ _ _ h, List.getD_eq_getElem _ _ h, List.getD_eq_getElem _ _ h]

/-! ## The output file -/

section Header

variable (entry : UInt32) (r : Range) (stackTop : Option UInt32) (image : List UInt8)

theorem length_psexeHeader : (psexeHeader entry r stackTop).length = psexeHeaderSize := by
  have hmagic : psexeMagic.length = 8 := rfl
  have hmarker : (ascii "Blackroo Linux for PlayStation").length = 30 := rfl
  simp only [psexeHeader, padTo, List.length_append, List.length_replicate, length_bytes32, hmagic,
    hmarker, psexeHeaderSize]

theorem take_psexeHeader : (psexeHeader entry r stackTop ++ image).take 8 = psexeMagic := by
  simp only [psexeHeader, List.append_assoc]
  exact List.take_left' (show psexeMagic.length = 8 by decide)

theorem get32_pc0 : get32 (psexeHeader entry r stackTop ++ image) 0x10 = toKseg0 entry := by
  simp only [psexeHeader, List.append_assoc]
  rw [get32_append_right (by decide), get32_append_right (by decide)]
  exact get32_bytes32_append _ _

theorem get32_tAddr : get32 (psexeHeader entry r stackTop ++ image) 0x18 = toKseg0 r.loadAddr := by
  simp only [psexeHeader, List.append_assoc]
  rw [get32_append_right (by decide), get32_append_right (by decide),
    get32_append_right (by simp only [length_bytes32]; decide),
    get32_append_right (by simp only [length_bytes32]; decide)]
  exact get32_bytes32_append _ _

theorem get32_tSize :
    get32 (psexeHeader entry r stackTop ++ image) 0x1C = finalSize r.imageSize := by
  simp only [psexeHeader, List.append_assoc]
  rw [get32_append_right (by decide), get32_append_right (by decide),
    get32_append_right (by simp only [length_bytes32]; decide),
    get32_append_right (by simp only [length_bytes32]; decide),
    get32_append_right (by simp only [length_bytes32]; decide)]
  exact get32_bytes32_append _ _

end Header

theorem toKseg0_of_lt {a : UInt32} (h : a.toNat < 2 ^ 31) : toKseg0 a = a + kseg0 := by
  have hlt : a < kseg0 := UInt32.lt_iff_toNat_lt.mpr h
  rw [show toKseg0 a = symbolEnd a from rfl, symbolEnd_eq, physicalEnd, if_pos hlt]

theorem toKseg0_of_le {a : UInt32} (h : 2 ^ 31 ≤ a.toNat) : toKseg0 a = a :=
  if_neg fun hlt => by
    have := UInt32.lt_iff_toNat_lt.mp hlt
    exact absurd this (Nat.not_lt.mpr h)

/-- On one side of KSEG0 the conversion is a displacement. -/
theorem toKseg0_sub {file : List UInt8} (h : NoWrap file) (hside : OneSided file) {a : UInt32}
    {p : Phdr} (hp : p ∈ segments file) (ha : p.Covers a) :
    toKseg0 a - toKseg0 (loadRange (phdrsOf file)).loadAddr =
      a - (loadRange (phdrsOf file)).loadAddr := by
  have hle := (h.le_imageSize hp).1
  obtain ⟨h₁, h₂⟩ := ha
  rcases hside with hbelow | habove
  · have hp' := hbelow p hp
    rw [toKseg0_of_lt (by omega), toKseg0_of_lt (by omega)]
    apply UInt32.toNat_inj.mp
    rw [UInt32.toNat_sub, UInt32.toNat_sub, toNat_add_kseg0, toNat_add_kseg0]
    have := a.toNat_lt
    omega
  · have hload := h.spans.le_load (2 ^ 31) (by decide) fun q hq hl =>
      habove q (mem_segments.mpr ⟨hq, hl⟩)
    have hp' := habove p hp
    rw [toKseg0_of_le (by omega), toKseg0_of_le hload]

section Loaded

variable {file : List UInt8} (hwrap : NoWrap file) (hside : OneSided file) (hwhole : Whole file)
  {zeros : Nat} (mem : Mem)

theorem length_loaded_le (hlen : (loadRange (phdrsOf file)).imageSize.toNat + zeros ≤ 2 ^ 32) :
    ((loadedImage file).bytes ++ List.replicate zeros 0).length ≤ 2 ^ 32 := by
  rw [List.length_append, length_loadedImage, List.length_replicate]
  exact hlen

include hwrap hside hwhole

/-- **An address of a segment**, with the image in memory. -/
theorem loaded_segment
    (hlen : (loadRange (phdrsOf file)).imageSize.toNat + zeros ≤ 2 ^ 32) {a : UInt32} {p : Phdr}
    (hp : lastSegment file a = some p) :
    file[p.pOffset.toNat + (a.toNat - p.pVaddr.toNat)]? =
      some (apply mem (block (toKseg0 (loadRange (phdrsOf file)).loadAddr)
        ((loadedImage file).bytes ++ List.replicate zeros 0)) (toKseg0 a)) := by
  obtain ⟨hseg, hcov⟩ := mem_of_lastSegment hp
  obtain ⟨h₁, h₂⟩ := hwrap.le_imageSize hseg
  have hj : (a - (loadRange (phdrsOf file)).loadAddr).toNat =
      a.toNat - (loadRange (phdrsOf file)).loadAddr.toNat := by
    have ha := a.toNat_lt
    have hv := hcov.1
    rw [UInt32.toNat_sub]
    omega
  have himage := getD_loadedImage hwrap hwhole (Nat.le_trans h₁ hcov.1)
  rw [hp] at himage
  rw [apply_block _ _ (length_loaded_le hlen), toKseg0_sub hwrap hside hseg hcov, hj, getD_append_of_lt, himage]
  · exact getElem?_of_whole hwhole hseg hcov.1 hcov.2
  · rw [length_loadedImage]
    obtain ⟨h₃, h₄⟩ := hcov
    omega

/-- **The rest of the image**, with the image in memory. -/
theorem loaded_zero (hlen : (loadRange (phdrsOf file)).imageSize.toNat + zeros ≤ 2 ^ 32)
    {x : UInt32} (hx : (x - toKseg0 (loadRange (phdrsOf file)).loadAddr).toNat <
      (loadRange (phdrsOf file)).imageSize.toNat + zeros)
    (hnone : ∀ a, toKseg0 a = x → lastSegment file a = none) :
    apply mem (block (toKseg0 (loadRange (phdrsOf file)).loadAddr)
      ((loadedImage file).bytes ++ List.replicate zeros 0)) x = 0 := by
  rw [apply_block _ _ (length_loaded_le hlen)]
  generalize hj : x - toKseg0 (loadRange (phdrsOf file)).loadAddr = j at hx
  by_cases hlt : j.toNat < (loadRange (phdrsOf file)).imageSize.toNat
  · -- the byte belongs to an address behind the load address
    have htop := (hwrap.imageSize_le hside).2
    have ha : (j + (loadRange (phdrsOf file)).loadAddr).toNat =
        j.toNat + (loadRange (phdrsOf file)).loadAddr.toNat := by
      rw [UInt32.toNat_add]
      omega
    have himage := getD_loadedImage hwrap hwhole
      (a := j + (loadRange (phdrsOf file)).loadAddr) (by omega)
    rw [ha, Nat.add_sub_cancel] at himage
    rw [getD_append_of_lt (by rw [length_loadedImage]; exact hlt), himage]
    cases hlast : lastSegment file (j + (loadRange (phdrsOf file)).loadAddr) with
    | none => rfl
    | some p =>
      obtain ⟨hseg, hcov⟩ := mem_of_lastSegment hlast
      have hsub := toKseg0_sub hwrap hside hseg hcov
      rw [UInt32.add_sub_cancel] at hsub
      have hx' : toKseg0 (j + (loadRange (phdrsOf file)).loadAddr) = x := by
        rw [← UInt32.sub_add_cancel x (toKseg0 (loadRange (phdrsOf file)).loadAddr), hj, ← hsub,
          UInt32.sub_add_cancel, hsub]
      rw [hnone _ hx'] at hlast
      cases hlast
  · rw [List.getD_append_right _ _ _ _ (by rw [length_loadedImage]; omega)]
    exact List.getD_replicate _ (by rw [length_loadedImage]; omega)

end Loaded

/-- **The output is the program that was put in.**  Loaded where its header says, it has at the
KSEG0 form of every address of a segment the byte that the last such segment has in the file,
and zeros elsewhere. -/
theorem elf2psexe_loads {host : Host} {file : List UInt8} {stackTop : Option UInt32} {out : Output}
    (hout : elf2psexe host (some file) stackTop = .ok out) (hwarned : out.warned = false)
    (hwrap : NoWrap file) (hside : OneSided file) :
    (∀ a ∈ out.accesses, a.InBounds) ∧
      2048 ∣ (get32 out.file 0x1C).toNat ∧
      out.file.length = 2048 + (get32 out.file 0x1C).toNat ∧
      get32 out.file 0x10 = toKseg0 (get32 file 24) ∧
      ∀ mem, ∃ mem', kernelLoadPsexe mem out.file = some mem' ∧
        (∀ a p, lastSegment file a = some p →
          file[p.pOffset.toNat + (a.toNat - p.pVaddr.toNat)]? = some (mem' (toKseg0 a))) ∧
        ∀ x, (x - get32 out.file 0x18).toNat < (get32 out.file 0x1C).toNat →
          (∀ a, toKseg0 a = x → lastSegment file a = none) → mem' x = 0 := by
  obtain ⟨im, hpad, -, rfl⟩ := elf2psexe_cases hout
  obtain ⟨hbytes, hwarn, hacc⟩ := padImage_eq hpad
  have hwhole : Whole file := whole_of_not_warned (hwarn ▸ hwarned)
  have hsize := (hwrap.imageSize_le hside).1
  have hfinal := toNat_finalSize hsize
  have hlen : im.bytes.length = (finalSize (loadRange (phdrsOf file)).imageSize).toNat := by
    rw [hbytes, List.length_append, length_loadedImage, List.length_replicate]
    omega
  have hpayload : (List.drop psexeHeaderSize
      (psexeHeader (get32 file 24) (loadRange (phdrsOf file)) stackTop ++ im.bytes)).take
        (finalSize (loadRange (phdrsOf file)).imageSize).toNat = im.bytes := by
    rw [List.drop_left' (length_psexeHeader _ _ _), ← hlen, List.take_length]
  dsimp only
  rw [get32_tSize, get32_pc0, get32_tAddr]
  refine ⟨fun a ha => ?_, ?_, ?_, rfl, fun mem => ?_⟩
  · rcases List.mem_append.mp ha with ha | ha
    · exact (hacc a ha).elim (accesses_loadedImage hwrap hwhole a) id
    · rw [List.mem_singleton.mp ha]
      exact (Nat.zero_add _).le
  · rw [hfinal]
    exact Nat.dvd_mul_left _ _
  · rw [List.length_append, length_psexeHeader, hlen]
    rfl
  · refine ⟨_, by
      rw [kernelLoadPsexe, if_neg (not_not_intro (take_psexeHeader _ _ _ _)), get32_tSize,
        get32_tAddr, hpayload], fun a p hp => ?_, fun x hx hnone => ?_⟩
    · rw [hbytes]
      exact loaded_segment hwrap hside hwhole mem (by omega) hp
    · rw [hbytes]
      exact loaded_zero hwrap hside hwhole mem (by omega) (by omega) hnone

/-- A program header entry for a segment of the program. -/
def loadSegment (offset vaddr size : UInt32) : List UInt8 :=
  bytes32 1 ++ bytes32 offset ++ bytes32 vaddr ++ bytes32 vaddr ++ bytes32 size ++ bytes32 size ++
    bytes32 7 ++ bytes32 4096

/-- An ELF file with three segments: the second is below the first, with a gap between them, and the
third covers the end of the second and one byte of the gap. -/
def mixedElf : List UInt8 :=
  [0x7f, 0x45, 0x4c, 0x46, 1, 1, 1] ++ List.replicate 9 0 ++ bytes16 2 ++ bytes16 8 ++ bytes32 1 ++
    bytes32 0x10000 ++ bytes32 52 ++ bytes32 0 ++ bytes32 0 ++ bytes16 52 ++ bytes16 32 ++
    bytes16 3 ++ List.replicate 6 0 ++
    loadSegment 148 0x10008 4 ++ loadSegment 152 0x10000 4 ++ loadSegment 156 0x10002 3 ++
    [5, 6, 7, 8] ++ [1, 2, 3, 4] ++ [9, 10, 11]

/-- A conversion without a warning. -/
def silent : Except Stop Output → Bool
  | .ok out => !out.warned
  | .error _ => false

/-- The bytes of the three segments are where they belong, where two overlap those of the later one,
and the gap is zero. -/
theorem elf2psexe_loads_mixedElf :
    ∃ out, elf2psexe ⟨true, true, true, true, true, true⟩ (some mixedElf) none = .ok out ∧
      out.warned = false ∧ NoWrap mixedElf ∧ OneSided mixedElf ∧
      ∀ mem, ∃ mem', kernelLoadPsexe mem out.file = some mem' ∧ mem' 0x80010001 = 2 ∧
        mem' 0x80010003 = 10 ∧ mem' 0x80010006 = 0 ∧ mem' 0x80010008 = 5 := by
  have hsilent : silent (elf2psexe ⟨true, true, true, true, true, true⟩ (some mixedElf) none) =
      true := by decide +kernel
  have hwrap : NoWrap mixedElf := by
    unfold NoWrap
    decide +kernel
  have hside : OneSided mixedElf := by
    unfold OneSided
    decide +kernel
  have hfile : ∀ out, elf2psexe ⟨true, true, true, true, true, true⟩ (some mixedElf) none =
    .ok out →
      get32 out.file 0x18 = 0x80010000 ∧ get32 out.file 0x1C = 2048 := by
    intro out hout
    obtain ⟨im, -, -, rfl⟩ := elf2psexe_cases hout
    rw [get32_tAddr, get32_tSize]
    decide +kernel
  cases hout : elf2psexe ⟨true, true, true, true, true, true⟩ (some mixedElf) none with
  | error e =>
    rw [hout] at hsilent
    cases hsilent
  | ok out =>
    rw [hout] at hsilent
    have hwarned : out.warned = false := by simpa [silent] using hsilent
    obtain ⟨-, -, -, -, hload⟩ := elf2psexe_loads hout hwarned hwrap hside
    obtain ⟨haddr, hsize⟩ := hfile out hout
    refine ⟨out, rfl, hwarned, hwrap, hside, fun mem => ?_⟩
    obtain ⟨mem', hmem', hbytes, hzero⟩ := hload mem
    have hbyte {a : UInt32} {p : Phdr} {x : UInt8} (hp : lastSegment mixedElf a = some p)
        (hx : mixedElf[p.pOffset.toNat + (a.toNat - p.pVaddr.toNat)]? = some x) :
        mem' (toKseg0 a) = x := Option.some.inj ((hbytes a p hp).symm.trans hx)
    refine ⟨mem', hmem', ?_, ?_, ?_, ?_⟩
    · exact hbyte (a := 0x10001) (p := ⟨1, 152, 0x10000, 4, 4, 7⟩) (by decide +kernel)
        (by decide +kernel)
    · exact hbyte (a := 0x10003) (p := ⟨1, 156, 0x10002, 3, 3, 7⟩) (by decide +kernel)
        (by decide +kernel)
    · refine hzero 0x80010006 (by rw [haddr, hsize]; decide) fun a ha => ?_
      by_cases hlt : a.toNat < 2 ^ 31
      · rw [toKseg0_of_lt hlt] at ha
        have hgap : a = 0x10006 :=
          (UInt32.add_left_inj kseg0).mp (ha.trans (by decide : _ = 0x10006 + kseg0))
        rw [hgap]
        decide +kernel
      · rw [toKseg0_of_le (by omega)] at ha
        rw [ha]
        decide +kernel
    · exact hbyte (a := 0x10008) (p := ⟨1, 148, 0x10008, 4, 4, 7⟩) (by decide +kernel)
        (by decide +kernel)

end Elf2psexe
end Blackroo
