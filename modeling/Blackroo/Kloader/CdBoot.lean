import Blackroo.Lib.MappedMemory
import Blackroo.Kloader.Host

/-!
# Booting from the disc

`cdrom_boot` of `kernel.c` looks a file up on the disc, reads its first sector, takes the load
address and the length from the header there, and reads sector after sector to that address
before it calls `kernel_launch`.

Two things are not looked at.  `CdReadSync` says whether a sector came, and its answer is dropped:
after a read that failed the buffer holds whatever it holds, and that is copied.  And the length in
the header is never compared with the length of the file, so that the loop reads on into whatever
follows the file on the disc.

`loads_file_iff` says when what is launched is the file.  Besides those two it takes a destination
that can hold the file: a store to a device or to kloader itself is the end of what can be said
about the run (`Outcome.lost`), and addresses of the same RAM cell keep only the last byte.

The lookup is that of the SDK, and so is the arithmetic of positions: `CdPosToInt` and `CdIntToPos`
are inverse to each other, and a position is its sector number here.  The messages, the command
line and what `kernel_launch` does are left out.
-/

namespace Blackroo
namespace Kloader

open LittleEndian MappedMemory

/-! ## The drive -/

abbrev Sector : Type := { bs : List UInt8 // bs.length = 2048 }

/-- What `CdReadSync` says about a read, with what a failed one leaves in the buffer. -/
inductive ReadResult where
  | delivered
  | failed (left : Sector)
  deriving DecidableEq

/-- The disc, and how the reads of the run turn out. -/
structure Drive where
  sector : Nat → Sector
  result : Nat → ReadResult

/-- `CdRead(1, sector, CdlModeSpeed)` and `CdReadSync(0, 0)`, the `n`-th of the run: what is in the
buffer then. -/
def Drive.cdRead (d : Drive) (n loc : Nat) : Sector :=
  match d.result n with
  | .delivered => d.sector loc
  | .failed left => left

/-- `CdlFILE`, with the position as a sector number. -/
structure CdlFile where
  pos : Nat
  size : Nat
  deriving DecidableEq, Repr

/-- The bytes on the disc from the start of a file on. -/
def Drive.fileByte (d : Drive) (file : CdlFile) (i : Nat) : UInt8 :=
  (d.sector (file.pos + i / 2048)).1.getD (i % 2048) 0

/-! ## `cdrom_boot` -/

/-- The fields of `psexe_header_t` that `cdrom_boot` uses. -/
structure PsexeHeader where
  magic : List UInt8
  pc0 : UInt32
  tAddr : UInt32
  tSize : UInt32
  deriving DecidableEq, Repr

def headerOf (sector : Sector) : PsexeHeader :=
  ⟨sector.1.take 8, get32 sector.1 0x10, get32 sector.1 0x18, get32 sector.1 0x1C⟩

variable {C : Type}

/-- The variables of the loop, the position of the last `CdlSetloc`, the number of reads so far and
the RAM. -/
structure Loading (C : Type) where
  remaining : Nat
  offset : Nat
  loc : Nat
  reads : Nat
  ram : Cells C

inductive Outcome (C : Type) where
  | fileNotFound
  | tooSmall
  | notPsexe
  | lost
  | launched (hdr : PsexeHeader) (s : Loading C)

section Load

variable [DecidableEq C] (t : Target C) (d : Drive) (file : CdlFile)

/-- One turn of the loop. -/
def readChunk (dst : UInt32) (s : Loading C) : Option (Loading C) :=
  let chunk := if s.remaining > 2048 then 2048 else s.remaining
  let sector := d.cdRead s.reads s.loc
  (copy t (dst + UInt32.ofNat s.offset) (sector.1.take chunk) s.ram).map fun ram =>
    { remaining := s.remaining - chunk
      offset := s.offset + chunk
      loc := file.pos + 1 + (s.offset + chunk) / 2048
      reads := s.reads + 1
      ram := ram }

def readLoop (dst : UInt32) : Nat → Loading C → Option (Loading C)
  | 0, s => some s
  | turns + 1, s =>
    if s.remaining = 0 then some s
    else (readChunk t d file dst s).bind (readLoop dst turns)

/-- The state in which the loop is entered, after the read of the header. -/
def startLoading (hdr : PsexeHeader) (ram : Cells C) : Loading C :=
  ⟨hdr.tSize.toNat, 0, file.pos + 1, 1, ram⟩

end Load

/-- `cdrom_boot`, from the answer of `CdSearchFile` on. -/
def cdromBoot [DecidableEq C] (t : Target C) (d : Drive) (found : Option CdlFile) (ram : Cells C) :
    Outcome C :=
  match found with
  | none => .fileNotFound
  | some file =>
    if file.size < 2048 then .tooSmall
    else
      let hdr := headerOf (d.cdRead 0 file.pos)
      if hdr.magic ≠ psexeMagic then .notPsexe
      else
        -- a turn takes at least one byte, so there are no more turns than bytes
        match readLoop t d file hdr.tAddr hdr.tSize.toNat (startLoading file hdr ram) with
        | none => .lost
        | some s => .launched hdr s

/-! ## The loop -/

/-- What holds between the turns: every sector so far was a whole one, unless it was the last. -/
structure Reading (file : CdlFile) (size : Nat) (s : Loading C) : Prop where
  total : s.offset + s.remaining = size
  whole : s.remaining = 0 ∨ s.offset % 2048 = 0
  loc_eq : s.loc = file.pos + 1 + s.offset / 2048
  reads_eq : s.reads = 1 + (s.offset + 2047) / 2048

theorem reading_startLoading (file : CdlFile) (hdr : PsexeHeader) (ram : Cells C) :
    Reading file hdr.tSize.toNat (startLoading file hdr ram) :=
  ⟨Nat.zero_add _, .inr rfl, by simp [startLoading], by simp [startLoading]⟩

section Loop

variable [DecidableEq C] {t : Target C} {d : Drive} {file : CdlFile} {dst : UInt32} {size : Nat}
  {s s' : Loading C}

/-- The bytes that a turn copies. -/
def chunkOf (d : Drive) (s : Loading C) : List UInt8 :=
  (d.cdRead s.reads s.loc).1.take (min s.remaining 2048)

omit [DecidableEq C] in
theorem length_chunkOf (d : Drive) (s : Loading C) :
    (chunkOf d s).length = min s.remaining 2048 := by
  rw [chunkOf, List.length_take, (d.cdRead s.reads s.loc).2]
  omega

omit [DecidableEq C] in
/-- A sector that came is the one of the file that belongs there. -/
theorem getD_chunkOf (h : Reading file size s) (hread : d.result s.reads = .delivered) {i : Nat}
    (hi : i < (chunkOf d s).length) :
    (chunkOf d s).getD i 0 = d.fileByte file (2048 + (s.offset + i)) := by
  rw [length_chunkOf] at hi
  have hoff : s.offset % 2048 = 0 := by
    rcases h.whole with hzero | hoff
    · omega
    · exact hoff
  have hsector : (2048 + (s.offset + i)) / 2048 = 1 + s.offset / 2048 := by omega
  have hbyte : (2048 + (s.offset + i)) % 2048 = i := by omega
  rw [Drive.fileByte, hsector, hbyte, chunkOf, Drive.cdRead, hread, h.loc_eq, ← Nat.add_assoc]
  simp only [List.getD_eq_getElem?_getD, List.getElem?_take, if_pos hi]

theorem readChunk_eq (t : Target C) (d : Drive) (file : CdlFile) (dst : UInt32) (s : Loading C) :
    readChunk t d file dst s =
      (copy t (dst + UInt32.ofNat s.offset) (chunkOf d s) s.ram).map fun ram =>
        { remaining := s.remaining - min s.remaining 2048
          offset := s.offset + min s.remaining 2048
          loc := file.pos + 1 + (s.offset + min s.remaining 2048) / 2048
          reads := s.reads + 1
          ram := ram } := by
  have hchunk : (if s.remaining > 2048 then 2048 else s.remaining) = min s.remaining 2048 := by
    split <;> omega
  simp only [readChunk, hchunk]
  rfl

/-- **One turn**: the counters move on by a sector, and so do the bytes in memory if the sector
came. -/
theorem Reading.readChunk (h : Reading file size s) (hpos : s.remaining ≠ 0)
    (hstep : readChunk t d file dst s = some s') :
    Reading file size s' ∧ s'.remaining < s.remaining ∧
      (d.result s.reads = .delivered →
        Coherent t dst (fun i => d.fileByte file (2048 + i)) size →
        Holds t s.ram dst (fun i => d.fileByte file (2048 + i)) s.offset →
        Holds t s'.ram dst (fun i => d.fileByte file (2048 + i)) s'.offset) := by
  have htotal := h.total
  have hreads := h.reads_eq
  have hoff : s.offset % 2048 = 0 := h.whole.resolve_left hpos
  rw [readChunk_eq, Option.map_eq_some_iff] at hstep
  obtain ⟨ram, hcopy, rfl⟩ := hstep
  refine ⟨⟨?_, ?_, rfl, ?_⟩, ?_, ?_⟩
  · show s.offset + min s.remaining 2048 + (s.remaining - min s.remaining 2048) = size
    omega
  · show s.remaining - min s.remaining 2048 = 0 ∨ (s.offset + min s.remaining 2048) % 2048 = 0
    omega
  · show s.reads + 1 = 1 + (s.offset + min s.remaining 2048 + 2047) / 2048
    omega
  · show s.remaining - min s.remaining 2048 < s.remaining
    omega
  · intro hread hcoherent hholds
    have hlen := length_chunkOf d s
    have hnext := hholds.copy hcoherent (by omega) (fun i hi => getD_chunkOf h hread hi) hcopy
    rw [hlen] at hnext
    exact hnext

/-- The loop has come from `s` to its end in `s'`: if all sectors came and the bytes before `s` are
in memory, the file is. -/
def Arrived (t : Target C) (d : Drive) (file : CdlFile) (dst : UInt32) (size : Nat)
    (s s' : Loading C) : Prop :=
  Reading file size s' ∧ s'.remaining = 0 ∧
    ((∀ n < 1 + (size + 2047) / 2048, d.result n = .delivered) →
      Coherent t dst (fun i => d.fileByte file (2048 + i)) size →
      Holds t s.ram dst (fun i => d.fileByte file (2048 + i)) s.offset →
      Holds t s'.ram dst (fun i => d.fileByte file (2048 + i)) size)

omit [DecidableEq C] in
theorem Reading.arrived (h : Reading file size s) (hzero : s.remaining = 0) :
    Arrived t d file dst size s s := by
  refine ⟨h, hzero, fun _ _ hholds => ?_⟩
  have htotal := h.total
  rw [hzero, Nat.add_zero] at htotal
  rwa [htotal] at hholds

/-- **The whole loop** arrives. -/
theorem Reading.readLoop {turns : Nat} (h : Reading file size s) (hturns : s.remaining ≤ turns)
    (hloop : readLoop t d file dst turns s = some s') : Arrived t d file dst size s s' := by
  induction turns generalizing s with
  | zero =>
    cases hloop
    exact h.arrived (Nat.le_zero.mp hturns)
  | succ turns ih =>
    rw [Kloader.readLoop] at hloop
    by_cases hzero : s.remaining = 0
    · rw [if_pos hzero] at hloop
      cases hloop
      exact h.arrived hzero
    · rw [if_neg hzero] at hloop
      obtain ⟨s₁, hstep, hrest⟩ := Option.bind_eq_some_iff.mp hloop
      obtain ⟨h₁, hlt, hholds₁⟩ := h.readChunk hzero hstep
      obtain ⟨h', hzero', hholds'⟩ := ih h₁ (by omega) hrest
      refine ⟨h', hzero', fun hreads hcoherent hholds => ?_⟩
      have hread : d.result s.reads = .delivered := by
        refine hreads _ ?_
        have htotal := h.total
        have hoff := h.whole.resolve_left hzero
        rw [h.reads_eq]
        omega
      exact hholds' hreads hcoherent (hholds₁ hread hcoherent hholds)

/-- **When the loop has a result**: if the destination may be stored to. -/
theorem Reading.readLoop_isSome (h : Reading file size s) (hw : Writable t dst size) (d : Drive)
    (turns : Nat) : (Kloader.readLoop t d file dst turns s).isSome := by
  induction turns generalizing s with
  | zero => rfl
  | succ turns ih =>
    rw [Kloader.readLoop]
    by_cases hzero : s.remaining = 0
    · rw [if_pos hzero]
      rfl
    · rw [if_neg hzero]
      have hcopy : (copy t (dst + UInt32.ofNat s.offset) (chunkOf d s) s.ram).isSome := by
        rw [copy_isSome_iff, length_chunkOf]
        intro i hi
        rw [UInt32.add_assoc, ← UInt32.ofNat_add]
        refine hw _ ?_
        have := h.total
        omega
      obtain ⟨ram, hram⟩ := Option.isSome_iff_exists.mp hcopy
      have hstep : ∃ s₁, Kloader.readChunk t d file dst s = some s₁ := by
        rw [readChunk_eq, hram]
        exact ⟨_, rfl⟩
      obtain ⟨s₁, hstep⟩ := hstep
      rw [hstep, Option.bind_some]
      exact ih (h.readChunk hzero hstep).1

end Loop

/-! ## What is launched -/

section Launch

variable [DecidableEq C]

/-- The header as it was read. -/
def readHeader (d : Drive) (file : CdlFile) : PsexeHeader := headerOf (d.cdRead 0 file.pos)

/-- If the kernel is launched, all sectors came, all bytes are of the file, and they are in
memory. -/
def LoadsFile (t : Target C) (d : Drive) (file : CdlFile) (ram : Cells C) : Prop :=
  match cdromBoot t d (some file) ram with
  | .launched hdr s =>
    (∀ n < s.reads, d.result n = .delivered) ∧ 2048 + hdr.tSize.toNat ≤ file.size ∧
      Holds t s.ram hdr.tAddr (fun i => d.fileByte file (2048 + i)) hdr.tSize.toNat
  | .lost => False
  | _ => True

/-- The file is turned down. -/
def Declined (d : Drive) (file : CdlFile) : Prop :=
  file.size < 2048 ∨ (readHeader d file).magic ≠ psexeMagic

/-- All reads succeed, the file is as long as its header says, and it fits where it is to go. -/
structure Loadable (t : Target C) (d : Drive) (file : CdlFile) : Prop where
  delivered : ∀ n < 1 + ((readHeader d file).tSize.toNat + 2047) / 2048, d.result n = .delivered
  size_le : 2048 + (readHeader d file).tSize.toNat ≤ file.size
  writable : Writable t (readHeader d file).tAddr (readHeader d file).tSize.toNat
  coherent : Coherent t (readHeader d file).tAddr (fun i => d.fileByte file (2048 + i))
    (readHeader d file).tSize.toNat

theorem cdromBoot_of_declined {d : Drive} {file : CdlFile} (t : Target C) (h : Declined d file)
    (ram : Cells C) :
    cdromBoot t d (some file) ram = .tooSmall ∨ cdromBoot t d (some file) ram = .notPsexe := by
  simp only [cdromBoot]
  by_cases hsize : file.size < 2048
  · exact .inl (if_pos hsize)
  · refine .inr ?_
    rw [if_neg hsize]
    exact if_pos (h.resolve_left hsize)

/-- What comes of a file that is not turned down. -/
theorem cdromBoot_of_not_declined {d : Drive} {file : CdlFile} (t : Target C)
    (h : ¬ Declined d file) (ram : Cells C) :
    cdromBoot t d (some file) ram =
      match readLoop t d file (readHeader d file).tAddr (readHeader d file).tSize.toNat
        (startLoading file (readHeader d file) ram) with
      | none => .lost
      | some s => .launched (readHeader d file) s := by
  rw [Declined, not_or] at h
  simp only [cdromBoot]
  rw [if_neg h.1]
  exact if_neg h.2

/-- A file that is not turned down is launched if its destination may be stored to. -/
theorem cdromBoot_launched {t : Target C} {d : Drive} {file : CdlFile} (h : ¬ Declined d file)
    (hw : Writable t (readHeader d file).tAddr (readHeader d file).tSize.toNat) (ram : Cells C) :
    ∃ s, readLoop t d file (readHeader d file).tAddr (readHeader d file).tSize.toNat
        (startLoading file (readHeader d file) ram) = some s ∧
      cdromBoot t d (some file) ram = .launched (readHeader d file) s := by
  obtain ⟨s, hloop⟩ := Option.isSome_iff_exists.mp
    ((reading_startLoading file (readHeader d file) ram).readLoop_isSome
      hw d (readHeader d file).tSize.toNat)
  refine ⟨s, hloop, ?_⟩
  rw [cdromBoot_of_not_declined t h, hloop]

/-- **When the file is loaded that is launched**: if it is turned down, or else exactly if it is
loadable. -/
theorem loads_file_iff (t : Target C) (d : Drive) (file : CdlFile) (ram : Cells C) :
    LoadsFile t d file ram ↔ Declined d file ∨ Loadable t d file := by
  by_cases hdec : Declined d file
  · refine iff_of_true ?_ (.inl hdec)
    rcases cdromBoot_of_declined t hdec ram with h | h
    · rw [LoadsFile, h]
      trivial
    · rw [LoadsFile, h]
      trivial
  · have hstart := reading_startLoading file (readHeader d file) ram
    rw [or_iff_right hdec, LoadsFile]
    constructor
    · intro h
      rw [cdromBoot_of_not_declined t hdec] at h
      cases hloop : readLoop t d file (readHeader d file).tAddr (readHeader d file).tSize.toNat
        (startLoading file (readHeader d file) ram) with
      | none =>
        rw [hloop] at h
        exact h.elim
      | some s =>
        rw [hloop] at h
        obtain ⟨hreads, hsize, hholds⟩ := h
        obtain ⟨hend, hzero, -⟩ := hstart.readLoop le_rfl hloop
        have htotal := hend.total
        rw [hzero, Nat.add_zero] at htotal
        rw [hend.reads_eq, htotal] at hreads
        exact ⟨hreads, hsize, hholds.writable, hholds.coherent⟩
    · intro h
      obtain ⟨s, hloop, hlaunched⟩ := cdromBoot_launched hdec h.writable ram
      rw [hlaunched]
      obtain ⟨hend, hzero, hholds⟩ := hstart.readLoop le_rfl hloop
      have htotal := hend.total
      rw [hzero, Nat.add_zero] at htotal
      refine ⟨?_, h.size_le, hholds h.delivered h.coherent fun i hi =>
        absurd hi (Nat.not_lt_zero i)⟩
      rw [hend.reads_eq, htotal]
      exact h.delivered

end Launch

/-- A header that asks for four bytes. -/
def shortHeader : Sector :=
  ⟨psexeMagic ++ List.replicate 16 0 ++ bytes32 0x80010000 ++ bytes32 4 ++ List.replicate 2016 0, by
    have hmagic : psexeMagic.length = 8 := rfl
    simp only [List.length_append, List.length_replicate, length_bytes32, hmagic]⟩

/-- A disc on which every sector is that header, and comes when it is asked for. -/
def shortDrive : Drive := ⟨fun _ => shortHeader, fun _ => .delivered⟩

theorem headerOf_shortHeader :
    (headerOf shortHeader).magic = psexeMagic ∧ (headerOf shortHeader).tSize = 4 := by
  decide

/-- A file of nothing but that header is launched with the first bytes of the sector after it. -/
theorem truncated_file_launched : ¬ LoadsFile some shortDrive ⟨200, 2048⟩ fun _ => 0 := by
  intro h
  have hdec : ¬ Declined shortDrive ⟨200, 2048⟩ := by
    rintro (hsize | hmagic)
    · exact absurd hsize (Nat.lt_irrefl 2048)
    · exact hmagic headerOf_shortHeader.1
  obtain ⟨s, -, hs⟩ := cdromBoot_launched (t := some) hdec (fun _ _ => rfl) fun _ => 0
  rw [LoadsFile, hs] at h
  have hsize : 2048 + (headerOf shortHeader).tSize.toNat ≤ 2048 := h.2.1
  rw [headerOf_shortHeader.2] at hsize
  exact absurd hsize (by decide)

end Kloader
end Blackroo
