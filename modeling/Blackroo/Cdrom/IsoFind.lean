import Mathlib.Algebra.Order.Ring.Nat
import Mathlib.Data.Fintype.Pi
import Blackroo.Cdrom.Lookup

/-!
# The disc checker on the host

`tools/host/iso-find.py` runs the driver's lookup on the host, against the image that is
about to be burned.  Its directory walk is written after `psxcd_iso_lookup`, but it is not
the same walk.  It goes on after a hit and so reports the last record of a name and not the
first; it does not look whether the identifier is inside its record, whether the directory
is one that the driver scans, or whether the file has an extent and a sector; it takes an
image for a raw one by its length alone; and an index behind the end of a sector raises.

`isoFind` is the walk as the script has it, with `Py` for what may raise.  `Reported` says in
terms of the format what it reports, as `Locates` does for the driver.

## When the two agree

`isoFind_agrees_iff` is a condition on the records of the root directory.  Let the script read the
image in its format.  If it gets through the whole directory, then either it takes no record for the
file, or the driver accepts the directory, and the first record that the driver takes for the file
is usable and names the same place as the last one that the script takes for it.  A record of the
driver is one of the script (`listed_of_wanted`), but not the other way round: the script takes an
identifier that goes past the end of its record.  If the script does not get through, then the
driver must not come to a usable record.  An image of cooked sectors whose number is a multiple of
147 is read in two formats, and the condition is on the records of two directories.
-/

namespace Blackroo
namespace Cdrom
namespace Iso9660

open LittleEndian

/-! ## Images -/

/-- The two kinds of image: whole raw sectors, and only their data. -/
inductive Format where
  | raw
  | cooked
  deriving DecidableEq, Repr

/-- The bytes of one sector in the image. -/
def Format.step : Format → Nat
  | .raw => 2352
  | .cooked => 2048

/-- Where the data starts in a sector of the image. -/
def Format.skip : Format → Nat
  | .raw => 24
  | .cooked => 0

/-- An image of whole sectors, each of which has an address on a disc. -/
structure Image where
  format : Format
  sectors : Nat
  byte : Nat → UInt8
  sectors_le : sectors + 150 ≤ 450000

def Image.size (img : Image) : Nat := img.sectors * img.format.step

/-- A sector of an image that is read in a given format. -/
def Image.sectorAs (img : Image) (f : Format) (lba : Nat) : Option Sector :=
  if lba * f.step < img.size then some fun i => img.byte (lba * f.step + f.skip + i) else none

/-- The sectors of the disc that is burned from the image. -/
def Image.burned (img : Image) : Nat → Option Sector := img.sectorAs img.format

/-- That disc in the drive.  A read succeeds if the sector is on the disc. -/
def Image.disc (img : Image) : Nat → UInt32 → Option Sector := fun _ lba => img.burned lba.toNat

/-! ## The script -/

inductive PyError where
  | indexError
  deriving DecidableEq, Repr

/-- What may raise. -/
abbrev Py : Type → Type := Except PyError

/-- A `bytes` object; `get` is its content up to `len`. -/
structure PyBytes where
  len : Nat
  get : Nat → UInt8

def PyBytes.index (b : PyBytes) (i : Nat) : Py UInt8 :=
  if i < b.len then .ok (b.get i) else .error .indexError

def PyBytes.slice (b : PyBytes) (lo hi : Nat) : PyBytes :=
  ⟨min hi b.len - lo, fun i => b.get (lo + i)⟩

def PyBytes.toList (b : PyBytes) : List UInt8 := bytesAt b.get 0 b.len

def le32 (b : PyBytes) (o : Nat) : Py UInt32 := do
  let b₀ ← b.index o
  let b₁ ← b.index (o + 1)
  let b₂ ← b.index (o + 2)
  let b₃ ← b.index (o + 3)
  return word32 b₀ b₁ b₂ b₃

/-- `bytes.upper`, for one byte. -/
def upperByte (c : UInt8) : UInt8 := if 97 ≤ c ∧ c ≤ 122 then c - 32 else c

/-- A file name of 1 to 31 ASCII characters. -/
structure AsciiName where
  chars : List UInt8
  length_pos : 0 < chars.length
  length_le : chars.length ≤ 31
  ascii : ∀ c ∈ chars, 0 < c ∧ c < 128

/-- `raw = len(img) % RAW == 0`. -/
def Image.guess (img : Image) : Format := if img.size % 2352 = 0 then .raw else .cooked

/-- `sector(lba)`. -/
def pySector (img : Image) (lba : Nat) : PyBytes :=
  let off := lba * img.guess.step + img.guess.skip
  (⟨img.size, img.byte⟩ : PyBytes).slice off (off + 2048)

/-- The body of the loop over the records, up to the assignment of `found`. -/
def visitRecord (want : AsciiName) (d : PyBytes) (off : Nat) : Py (Option Entry) := do
  let nl := (← d.index (off + 32)).toNat
  let nm := d.slice (off + 33) (off + 33 + nl)
  if nl ≠ 0 then
    if (← d.index (off + 25)) &&& 2 = 0 then
      let lba ← le32 d (off + 2)
      let size ← le32 d (off + 10)
      if (nm.toList.takeWhile (· ≠ 59)).map upperByte = want.chars.map upperByte then
        return some ⟨lba, size⟩
      else return none
    else return none
  else return none

/-- The loop over the records of a sector, with `found` so far. -/
def walkSector (want : AsciiName) (d : PyBytes) : Nat → Nat → Option Entry → Py (Option Entry)
  | 0, _, found => return found
  | fuel + 1, off, found => do
      if off < 2048 then
        let reclen := (← d.index off).toNat
        if reclen = 0 ∨ off + reclen > 2048 then return found
        else
          let hit ← visitRecord want d off
          walkSector want d fuel (off + reclen) (hit.or found)
      else return found

/-- The loop over the sectors of the directory. -/
def walkDirectory (img : Image) (want : AsciiName) (lba : Nat) :
    Nat → Nat → Option Entry → Py (Option Entry)
  | 0, _, found => return found
  | n + 1, s, found => do
      let found ← walkSector want (pySector img (lba + s)) 2048 0 found
      walkDirectory img want lba n (s + 1) found

/-- `main`, up to `found`. -/
def isoFind (img : Image) (want : AsciiName) : Py (Option Entry) := do
  let b := pySector img 16
  if (← b.index 0) ≠ 1 ∨ (b.slice 1 6).toList ≠ [67, 68, 48, 48, 49] then return none
  else
    let rootLba ← le32 b (156 + 2)
    let rootLen ← le32 b (156 + 10)
    walkDirectory img want rootLba.toNat ((rootLen.toNat + 2047) / 2048) 0 none

/-! ## What it reports -/

theorem toInt_toInt8 {c : UInt8} (h : c < 128) : c.toInt8.toInt = c.toNat := by
  have hlt : c.toNat < 128 := UInt8.lt_iff_toNat_lt.mp h
  show c.toBitVec.toInt = _
  rw [BitVec.toInt_eq_toNat_of_lt (by rw [UInt8.toNat_toBitVec]; omega), UInt8.toNat_toBitVec]

/-- The name as the driver has it. -/
def AsciiName.fileName (want : AsciiName) : FileName where
  chars := want.chars.map UInt8.toInt8
  length_le := by
    rw [List.length_map]
    exact want.length_le
  ne_zero := by
    intro c hc h0
    obtain ⟨a, ha, rfl⟩ := List.mem_map.mp hc
    have hpos := (want.ascii a ha).1
    have : a = 0 := by
      have := toInt_toInt8 (want.ascii a ha).2
      rw [h0] at this
      refine UInt8.toNat_inj.mp ?_
      simpa using this.symm
    rw [this] at hpos
    exact absurd hpos (by decide)

/-- A record that the script takes for the file: its identifier is read up to the end of the
sector, whatever the length of the record. -/
def Listed (want : FileName) (s : Sector) (off : Nat) : Prop :=
  recFlags s off &&& 2 = 0 ∧ 0 < recNameLen s off ∧
    SameName ((recName s off).take (2048 - (off + 33))) want

instance (want : FileName) (s : Sector) (off : Nat) : Decidable (Listed want s off) :=
  inferInstanceAs (Decidable (_ ∧ _))

/-- The walk gets through a sector: it is in the image, and no index is past its end. -/
def Walkable (s : Sector) : Prop := ∀ off, Record s off → off + 32 < 2048

/-- The last record of a sector that the script takes for the file. -/
def LastIn (want : FileName) (s : Sector) (off : Nat) : Prop :=
  Record s off ∧ Listed want s off ∧ ∀ o, off < o → Record s o → ¬ Listed want s o

section Directory

-- the sectors of an image in one of the two formats, and the volume descriptor
variable (view : Nat → Option Sector) (want : FileName) (pvd : Sector)

/-- The script gets through the whole root directory. -/
def Complete : Prop :=
  ∀ i < rootSectors pvd, ∃ s, view ((rootLba pvd).toNat + i) = some s ∧ Walkable s

/-- The script takes no record of the root directory for the file. -/
def NoneListed : Prop :=
  ∀ i < rootSectors pvd, ∀ s, view ((rootLba pvd).toNat + i) = some s →
    ∀ o, Record s o → ¬ Listed want s o

/-- The last record of the root directory, in scan order, that the script takes for the file. -/
def LastListed (e : Entry) : Prop :=
  ∃ k s off, k < rootSectors pvd ∧ view ((rootLba pvd).toNat + k) = some s ∧
    LastIn want s off ∧ e = entryAt s off ∧
    ∀ i, k < i → i < rootSectors pvd → ∀ s', view ((rootLba pvd).toNat + i) = some s' →
      ∀ o, Record s' o → ¬ Listed want s' o

/-- The first record, in scan order, that the driver takes for the file; all sectors up to it can be
read. -/
def FirstWanted (e : Entry) : Prop :=
  ∃ k s off, k < rootSectors pvd ∧
    (∀ i < k, ∃ s', view ((rootLba pvd).toNat + i) = some s' ∧
      ∀ o, Record s' o → ¬ Wanted want s' o) ∧
    view ((rootLba pvd).toNat + k) = some s ∧ FirstIn want s off ∧ e = entryAt s off

/-- **What the script reports**: the last record, in scan order, that it takes for the file,
if it gets through the whole directory. -/
def Reported (e : Entry) : Prop :=
  ∃ pvd, view 16 = some pvd ∧ Primary pvd ∧ Complete view pvd ∧ LastListed view want pvd e

end Directory

/-! ## Names -/

theorem upper_toNat (c : UInt8) : upper c.toNat = (upperByte c).toNat := by
  have hsmall : (97 ≤ c ∧ c ≤ 122) ↔ 97 ≤ c.toNat ∧ c.toNat ≤ 122 :=
    and_congr UInt8.le_iff_toNat_le UInt8.le_iff_toNat_le
  rw [upper, upperByte]
  by_cases h : 97 ≤ c ∧ c ≤ 122
  · have hc := hsmall.mp h
    have h32 : (32 : UInt8) ≤ c := UInt8.le_iff_toNat_le.mpr (show 32 ≤ c.toNat by omega)
    rw [if_pos h, if_pos (by omega), UInt8.toNat_sub_of_le _ _ h32]
    show (c.toNat : Int) - 32 = ((c.toNat - 32 : Nat) : Int)
    omega
  · have hc := mt hsmall.mpr h
    rw [if_neg h, if_neg (by omega)]

/-- The two comparisons of names are one. -/
theorem sameName_iff (want : AsciiName) (ident : List UInt8) :
    (ident.takeWhile (· ≠ 59)).map upperByte = want.chars.map upperByte ↔
      SameName ident want.fileName := by
  have hinj : Function.Injective fun c : UInt8 => (c.toNat : Int) := fun a b h =>
    UInt8.toNat_inj.mp (Int.ofNat_inj.mp h)
  have hwant : (want.chars.map UInt8.toInt8).map (fun c => upper c.toInt) =
      (want.chars.map upperByte).map fun c : UInt8 => (c.toNat : Int) := by
    rw [List.map_map, List.map_map]
    refine List.map_congr_left fun c hc => ?_
    show upper (c.toInt8.toInt) = _
    rw [toInt_toInt8 (want.ascii c hc).2, upper_toNat]
    rfl
  have hident : (ident.takeWhile (· ≠ 59)).map (fun a => upper a.toNat) =
      ((ident.takeWhile (· ≠ 59)).map upperByte).map fun c : UInt8 => (c.toNat : Int) := by
    rw [List.map_map]
    exact List.map_congr_left fun c _ => upper_toNat c
  rw [SameName, AsciiName.fileName, hwant, hident, (List.map_injective_iff.mpr hinj).eq_iff]

/-! ## One sector -/

section Sector

variable {d : PyBytes} {s : Sector} {want : AsciiName}

/-- The bytes of a whole sector. -/
def PyBytes.Holds (d : PyBytes) (s : Sector) : Prop := d.len = 2048 ∧ ∀ i < 2048, d.get i = s.byte i

theorem index_of_lt (hd : d.Holds s) {i : Nat} (h : i < 2048) : d.index i = .ok (s.byte i) := by
  rw [PyBytes.index, if_pos (by rw [hd.1]; exact h), hd.2 i h]

theorem index_of_ge (hd : d.Holds s) {i : Nat} (h : 2048 ≤ i) : d.index i = .error .indexError := by
  rw [PyBytes.index, if_neg (by rw [hd.1]; omega)]

theorem le32_of_lt (hd : d.Holds s) {o : Nat} (h : o + 3 < 2048) :
    le32 d o = .ok (wordAt s.byte o) := by
  rw [le32, index_of_lt hd (by omega), index_of_lt hd (by omega), index_of_lt hd (by omega),
    index_of_lt hd h]
  rfl

theorem bytesAt_slice (lo hi : Nat) (off n : Nat) :
    bytesAt (d.slice lo hi).get off n = bytesAt d.get (lo + off) n := by
  induction n generalizing off with
  | zero => rfl
  | succ n ih => rw [bytesAt, bytesAt, ih, PyBytes.slice, Nat.add_assoc]

theorem toList_slice (hd : d.Holds s) (lo n : Nat) (hlo : lo ≤ 2048) :
    (d.slice lo (lo + n)).toList = (bytesAt s.byte lo n).take (2048 - lo) := by
  have hlen : (d.slice lo (lo + n)).len = min n (2048 - lo) := by
    show min (lo + n) d.len - lo = _
    rw [hd.1]
    omega
  rw [PyBytes.toList, hlen, bytesAt_slice, Nat.add_zero]
  have htake : (bytesAt s.byte lo n).take (2048 - lo) = bytesAt s.byte lo (min n (2048 - lo)) := by
    rcases Nat.le_total n (2048 - lo) with h | h
    · rw [Nat.min_eq_left h, List.take_of_length_le (by rw [length_bytesAt]; exact h)]
    · rw [Nat.min_eq_right h, take_bytesAt lo h]
  rw [htake]
  exact bytesAt_congr fun i h₁ h₂ => hd.2 i (by omega)

/-- A record in the last bytes of a sector raises. -/
theorem visitRecord_of_ge (hd : d.Holds s) {off : Nat} (h : 2048 ≤ off + 32) :
    visitRecord want d off = .error .indexError := by
  rw [visitRecord, index_of_ge hd h]
  rfl

theorem visitRecord_of_lt (hd : d.Holds s) {off : Nat} (h : off + 32 < 2048) :
    visitRecord want d off =
      .ok (if Listed want.fileName s off then some (entryAt s off) else none) := by
  have hname := toList_slice hd (off + 33) (recNameLen s off) (by omega)
  rw [visitRecord, index_of_lt hd h]
  simp only [bind, Except.bind]
  rw [← recNameLen, hname, ← recName]
  by_cases hlen : recNameLen s off = 0
  · rw [if_neg (not_not.mpr hlen), if_neg fun hw => by have := hw.2.1; omega]
    rfl
  · rw [if_pos hlen, index_of_lt hd (by omega)]
    dsimp only
    rw [← recFlags]
    by_cases hflags : recFlags s off &&& 2 = 0
    · rw [if_pos hflags, le32_of_lt hd (by omega), le32_of_lt hd (by omega)]
      dsimp only
      by_cases hsame : SameName ((recName s off).take (2048 - (off + 33))) want.fileName
      · rw [if_pos ((sameName_iff _ _).mpr hsame), if_pos ⟨hflags, by omega, hsame⟩]
        rfl
      · rw [if_neg fun h => hsame ((sameName_iff _ _).mp h), if_neg fun hw => hsame hw.2.2]
        rfl
    · rw [if_neg hflags, if_neg fun hw => hflags hw.1]
      rfl

/-- One turn of the loop over the records. -/
theorem walkSector_of_fits (hd : d.Holds s) {fuel off : Nat} (hf : Fits s off)
    (found : Option Entry) :
    walkSector want d (fuel + 1) off found =
      (visitRecord want d off).bind fun hit =>
        walkSector want d fuel (off + recLen s off) (hit.or found) := by
  rw [walkSector, if_pos hf.1, index_of_lt hd hf.1]
  simp only [bind, Except.bind]
  rw [← recLen, if_neg (by have := hf.2; omega)]

theorem walkSector_of_not_fits (hd : d.Holds s) {fuel off : Nat} (hf : ¬ Fits s off)
    (found : Option Entry) : walkSector want d fuel off found = .ok found := by
  cases fuel with
  | zero => rfl
  | succ fuel =>
    rw [walkSector]
    by_cases hoff : off < 2048
    · rw [if_pos hoff, index_of_lt hd hoff]
      simp only [bind, Except.bind]
      rw [← recLen, if_pos]
      · rfl
      · by_contra h
        exact hf ⟨hoff, by omega, by omega⟩
    · rw [if_neg hoff]
      rfl

theorem walkSector_error (hd : d.Holds s) {fuel off o : Nat} (ho : o ∈ records s fuel off)
    (h : 2048 ≤ o + 32) (found : Option Entry) :
    walkSector want d fuel off found = .error .indexError := by
  induction fuel generalizing off found with
  | zero => cases ho
  | succ fuel ih =>
    by_cases hf : Fits s off
    · rw [records_of_fits hf, List.mem_cons] at ho
      rw [walkSector_of_fits hd hf]
      rcases ho with rfl | ho
      · rw [visitRecord_of_ge hd h]
        rfl
      · by_cases hin : off + 32 < 2048
        · rw [visitRecord_of_lt hd hin]
          exact ih ho _
        · rw [visitRecord_of_ge hd (by omega)]
          rfl
    · rw [records_of_not_fits hf] at ho
      cases ho

/-- The walk over a sector leaves the last hit, or what was found before. -/
theorem walkSector_ok (want : AsciiName) (hd : d.Holds s) {fuel off : Nat}
    (hin : ∀ o ∈ records s fuel off, o + 32 < 2048) (found : Option Entry) :
    (∃ o ∈ records s fuel off, Listed want.fileName s o ∧
        (∀ o' ∈ records s fuel off, o < o' → ¬ Listed want.fileName s o') ∧
        walkSector want d fuel off found = .ok (some (entryAt s o))) ∨
      (∀ o ∈ records s fuel off, ¬ Listed want.fileName s o) ∧
        walkSector want d fuel off found = .ok found := by
  induction fuel generalizing off found with
  | zero => exact .inr ⟨fun o ho => (nomatch ho), rfl⟩
  | succ fuel ih =>
    by_cases hf : Fits s off
    · have hlater : ∀ o ∈ records s fuel (off + recLen s off), off < o := fun o ho => by
        have h₁ := (fits_of_mem_records ho).1
        have h₂ := hf.2.1
        omega
      rw [records_of_fits hf] at hin ⊢
      obtain ⟨hoff, hin⟩ := List.forall_mem_cons.mp hin
      rw [walkSector_of_fits hd hf, visitRecord_of_lt hd hoff]
      simp only [Except.bind]
      rcases ih hin ((if Listed want.fileName s off then some (entryAt s off) else none).or found)
        with ⟨o, ho, hl, hlast, heq⟩ | ⟨hnone, heq⟩
      · refine .inl ⟨o, List.mem_cons_of_mem off ho, hl, fun o' ho' hlt => ?_, heq⟩
        rcases List.mem_cons.mp ho' with rfl | ho'
        · exact absurd (hlater o ho) (by omega)
        · exact hlast o' ho' hlt
      · by_cases hl : Listed want.fileName s off
        · rw [if_pos hl] at heq ⊢
          refine .inl ⟨off, List.mem_cons_self, hl, fun o' ho' hlt => ?_, heq⟩
          rcases List.mem_cons.mp ho' with rfl | ho'
          · exact absurd hlt (lt_irrefl _)
          · exact hnone o' ho'
        · rw [if_neg hl] at heq ⊢
          exact .inr ⟨List.forall_mem_cons.mpr ⟨hl, hnone⟩, heq⟩
    · rw [records_of_not_fits hf, walkSector_of_not_fits hd hf]
      exact .inr ⟨fun o ho => (nomatch ho), rfl⟩

end Sector

/-! ## The image as the script reads it -/

section Whole

variable {img : Image} {want : AsciiName}

/-- The image in the format the script takes it for. -/
def Image.view (img : Image) : Nat → Option Sector := img.sectorAs img.guess

/-- The image has whole sectors of the format the script takes it for. -/
theorem guess_step_dvd (img : Image) : img.guess.step ∣ img.size := by
  rw [Image.guess]
  split
  · next h => exact Nat.dvd_of_mod_eq_zero h
  · next h =>
      rw [Image.size] at h ⊢
      cases hf : img.format with
      | raw =>
        rw [hf] at h
        exact absurd (Nat.mul_mod_left _ _) h
      | cooked => exact Nat.dvd_mul_left _ _

theorem guess_skip_le (img : Image) : img.guess.skip + 2048 ≤ img.guess.step := by
  cases img.guess <;> decide

/-- A sector of the image is whole. -/
theorem sector_end_le {lba : Nat} (h : lba * img.guess.step < img.size) :
    lba * img.guess.step + img.guess.skip + 2048 ≤ img.size := by
  obtain ⟨n, hn⟩ := guess_step_dvd img
  rw [hn, Nat.mul_comm] at h
  have hlba : lba + 1 ≤ n := lt_of_mul_lt_mul_left h (Nat.zero_le _)
  have hmul := Nat.mul_le_mul_left img.guess.step hlba
  rw [Nat.mul_add, Nat.mul_one, Nat.mul_comm] at hmul
  have := guess_skip_le img
  omega

theorem pySector_holds {lba : Nat} {s : Sector} (h : img.view lba = some s) :
    (pySector img lba).Holds s := by
  rw [Image.view, Image.sectorAs] at h
  split at h
  · next hlt =>
      have hend := sector_end_le hlt
      cases h
      refine ⟨?_, fun i hi => ?_⟩
      · show min (_ + 2048) img.size - _ = 2048
        omega
      · rw [Sector.byte, dif_pos hi]
        rfl
  · cases h

theorem pySector_len_of_none {lba : Nat} (h : img.view lba = none) :
    (pySector img lba).len = 0 := by
  rw [Image.view, Image.sectorAs] at h
  split at h
  · cases h
  · show min (_ + 2048) img.size - _ = 0
    omega

theorem index_of_none {lba : Nat} (h : img.view lba = none) (i : Nat) :
    (pySector img lba).index i = .error .indexError := by
  rw [PyBytes.index, pySector_len_of_none h, if_neg (Nat.not_lt_zero i)]

/-- A walk over a directory that leaves the image, or has a record in the last bytes of a
sector, raises. -/
theorem walkDirectory_error {lba n j : Nat} {found : Option Entry}
    (h : ∃ i, j ≤ i ∧ i < j + n ∧ ∀ s, img.view (lba + i) = some s → ¬ Walkable s) :
    walkDirectory img want lba n j found = .error .indexError := by
  induction n generalizing j found with
  | zero =>
    obtain ⟨i, h₁, h₂, -⟩ := h
    omega
  | succ n ih =>
    rw [walkDirectory]
    obtain ⟨i, h₁, h₂, hi⟩ := h
    cases hs : img.view (lba + j) with
    | none =>
      rw [walkSector, if_pos (by omega), index_of_none hs]
      rfl
    | some s =>
      by_cases hw : Walkable s
      · have hin : ∀ o ∈ records s 2048 0, o + 32 < 2048 := fun o ho =>
          hw o (mem_records_iff.mp ho)
        have hij : i ≠ j := by
          rintro rfl
          exact hi s hs hw
        obtain ⟨found', heq⟩ : ∃ found',
            walkSector want (pySector img (lba + j)) 2048 0 found = .ok found' := by
          rcases walkSector_ok want (pySector_holds hs) hin found with
            ⟨o, -, -, -, heq⟩ | ⟨-, heq⟩
          · exact ⟨_, heq⟩
          · exact ⟨_, heq⟩
        rw [heq]
        exact ih ⟨i, by omega, by omega, hi⟩
      · rw [Walkable] at hw
        push Not at hw
        obtain ⟨o, ho, hge⟩ := hw
        rw [walkSector_error (pySector_holds hs) (mem_records_iff.mpr ho) hge]
        rfl

/-- A walk over a whole directory leaves the last hit. -/
theorem walkDirectory_ok (want : AsciiName) {lba n j : Nat} (found : Option Entry)
    (h : ∀ i, j ≤ i → i < j + n → ∃ s, img.view (lba + i) = some s ∧ Walkable s) :
    (∃ k s off, j ≤ k ∧ k < j + n ∧ img.view (lba + k) = some s ∧ LastIn want.fileName s off ∧
        (∀ i, k < i → i < j + n → ∀ s', img.view (lba + i) = some s' →
          ∀ o, Record s' o → ¬ Listed want.fileName s' o) ∧
        walkDirectory img want lba n j found = .ok (some (entryAt s off))) ∨
      (∀ i, j ≤ i → i < j + n → ∀ s', img.view (lba + i) = some s' →
          ∀ o, Record s' o → ¬ Listed want.fileName s' o) ∧
        walkDirectory img want lba n j found = .ok found := by
  induction n generalizing j found with
  | zero => exact .inr ⟨fun i h₁ h₂ => absurd h₁ (by omega), rfl⟩
  | succ n ih =>
    obtain ⟨s, hs, hw⟩ := h j le_rfl (by omega)
    have hin : ∀ o ∈ records s 2048 0, o + 32 < 2048 := fun o ho => hw o (mem_records_iff.mp ho)
    have hrest : ∀ i, j + 1 ≤ i → i < j + 1 + n → ∃ s, img.view (lba + i) = some s ∧ Walkable s :=
      fun i h₁ h₂ => h i (by omega) (by omega)
    have hend : j + 1 + n = j + (n + 1) := by omega
    rw [walkDirectory]
    rcases walkSector_ok want (pySector_holds hs) hin found with
      ⟨o, ho, hl, hlast, heq⟩ | ⟨hnone, heq⟩
    · rw [heq]
      rcases ih (some (entryAt s o)) hrest with
        ⟨k, s', off, h₁, h₂, hk, hlast', hafter, heq'⟩ | ⟨hnone', heq'⟩
      · exact .inl ⟨k, s', off, by omega, by omega, hk, hlast', hend ▸ hafter, heq'⟩
      · refine .inl ⟨j, s, o, le_rfl, by omega, hs, ⟨mem_records_iff.mp ho, hl,
          fun o' hlt hr => hlast o' (mem_records_iff.mpr hr) hlt⟩, fun i h₁ h₂ => ?_, heq'⟩
        exact hnone' i h₁ (by omega)
    · rw [heq]
      rcases ih found hrest with
        ⟨k, s', off, h₁, h₂, hk, hlast', hafter, heq'⟩ | ⟨hnone', heq'⟩
      · exact .inl ⟨k, s', off, by omega, by omega, hk, hlast', hend ▸ hafter, heq'⟩
      · refine .inr ⟨fun i h₁ h₂ s' hs' o' hr => ?_, heq'⟩
        rcases Nat.eq_or_lt_of_le h₁ with rfl | h₁
        · rw [hs] at hs'
          cases hs'
          exact hnone o' (mem_records_iff.mpr hr)
        · exact hnone' i h₁ (by omega) s' hs' o' hr

/-- What the script reports is unique. -/
theorem last_unique {view : Nat → Option Sector} {name : FileName} {lba n k k' off off' : Nat}
    {s s' : Sector} (hk : k < n) (hs : view (lba + k) = some s) (hl : LastIn name s off)
    (hafter : ∀ i, k < i → i < n → ∀ s, view (lba + i) = some s →
      ∀ o, Record s o → ¬ Listed name s o)
    (hk' : k' < n) (hs' : view (lba + k') = some s') (hl' : LastIn name s' off')
    (hafter' : ∀ i, k' < i → i < n → ∀ s, view (lba + i) = some s →
      ∀ o, Record s o → ¬ Listed name s o) :
    entryAt s off = entryAt s' off' := by
  obtain rfl : k = k' := by
    rcases lt_trichotomy k k' with h | h | h
    · exact absurd hl'.2.1 (hafter k' h hk' s' hs' off' hl'.1)
    · exact h
    · exact absurd hl.2.1 (hafter' k h hk s hs off hl.1)
  rw [hs] at hs'
  cases hs'
  obtain rfl : off = off' := by
    rcases lt_trichotomy off off' with h | h | h
    · exact absurd hl'.2.1 (hl.2.2 off' h hl'.1)
    · exact h
    · exact absurd hl.2.1 (hl'.2.2 off h hl.1)
  rfl

/-- **The result of the walk of the script.** -/
theorem isoFind_eq_some_iff (img : Image) (want : AsciiName) (e : Entry) :
    isoFind img want = .ok (some e) ↔ Reported img.view want.fileName e := by
  rw [isoFind]
  cases hpvd : img.view 16 with
  | none =>
    rw [index_of_none hpvd]
    refine ⟨fun h => (nomatch h), fun ⟨pvd, h, _⟩ => ?_⟩
    rw [hpvd] at h
    cases h
  | some pvd =>
    have hd := pySector_holds hpvd
    have hmagic : (pvd.byte 0 ≠ 1 ∨ (((pySector img 16).slice 1 6).toList ≠
        [67, 68, 48, 48, 49])) ↔ ¬ Primary pvd := by
      rw [show (6 : Nat) = 1 + 5 from rfl, toList_slice hd 1 5 (by omega),
        List.take_of_length_le (by rw [length_bytesAt]; omega), Primary,
        show bytesAt pvd.byte 0 6 = pvd.byte 0 :: bytesAt pvd.byte 1 5 from rfl,
        List.cons_eq_cons, not_and_or]
    rw [index_of_lt hd (by omega)]
    simp only [bind, Except.bind]
    by_cases hp : Primary pvd
    · rw [if_neg fun h => hmagic.mp h hp, le32_of_lt hd (by omega), le32_of_lt hd (by omega)]
      show walkDirectory img want (rootLba pvd).toNat (rootSectors pvd) 0 none = _ ↔ _
      by_cases hall : ∀ i < rootSectors pvd,
          ∃ s, img.view ((rootLba pvd).toNat + i) = some s ∧ Walkable s
      · rcases walkDirectory_ok want (n := rootSectors pvd) (j := 0) none
            fun i _ h => hall i (by omega) with
          ⟨k, s, off, -, hk, hs, hlast, hafter, heq⟩ | ⟨hnone, heq⟩
        · rw [Nat.zero_add] at hk hafter
          rw [heq, Except.ok.injEq, Option.some.injEq]
          refine ⟨fun h => ⟨pvd, hpvd, hp, hall, ⟨k, s, off, hk, hs, hlast, h.symm, hafter⟩⟩, ?_⟩
          rintro ⟨pvd', hpvd', -, -, k', s', off', hk', hs', hlast', rfl, hafter'⟩
          rw [hpvd] at hpvd'
          cases hpvd'
          exact last_unique hk hs hlast hafter hk' hs' hlast' hafter'
        · rw [heq]
          refine ⟨fun h => (nomatch h), ?_⟩
          rintro ⟨pvd', hpvd', -, -, k', s', off', hk', hs', hlast', -⟩
          rw [hpvd] at hpvd'
          cases hpvd'
          exact absurd hlast'.2.1 (hnone k' (Nat.zero_le _) (by omega) s' hs' off' hlast'.1)
      · rw [walkDirectory_error]
        · refine ⟨fun h => (nomatch h), ?_⟩
          rintro ⟨pvd', hpvd', -, hall', -⟩
          rw [hpvd] at hpvd'
          cases hpvd'
          exact absurd hall' hall
        · push Not at hall
          obtain ⟨i, hi, h⟩ := hall
          exact ⟨i, Nat.zero_le i, by omega, h⟩
    · rw [if_pos (hmagic.mpr hp)]
      refine ⟨fun h => (nomatch h), ?_⟩
      rintro ⟨pvd', hpvd', hp', -⟩
      rw [hpvd] at hpvd'
      cases hpvd'
      exact absurd hp' hp

/-! ## The two walks compared -/

/-- The script finds the file exactly when the driver does, and both report one place and one
size in KB. -/
def Agree (img : Image) (want : AsciiName) : Prop :=
  ∀ (behind : Nat → UInt8) (place : Place),
    ((∃ e, isoFind img want = .ok (some e)) ↔
      (lookup img.disc behind want.fileName place).1.1 = 1) ∧
    ∀ e, isoFind img want = .ok (some e) →
      (lookup img.disc behind want.fileName place).1.2.psxcdBaseLba = e.extent ∧
        (lookup img.disc behind want.fileName place).1.2.psxcdLenKb = e.size >>> 10

/-- A record that the driver takes for the file is one that the script takes for it. -/
theorem listed_of_wanted {name : FileName} {s : Sector} {off : Nat} (hr : Record s off)
    (h : Wanted name s off) : Listed name s off := by
  obtain ⟨hflags, hpos, hlen, hsame⟩ := h
  have hfits : Fits s off := by
    cases hr with
    | first h => exact h
    | next _ h => exact h
  refine ⟨hflags, hpos, ?_⟩
  rw [List.take_of_length_le]
  · exact hsame
  · have := hfits.2.2
    rw [recName, length_bytesAt]
    omega

/-- The file has an extent and at least one sector. -/
def Entry.Usable (e : Entry) : Prop := e.extent ≠ 0 ∧ 2048 ≤ e.size.toNat

/-- The same extent, and the same size in KB. -/
def Entry.SamePlace (e e' : Entry) : Prop := e.extent = e'.extent ∧ e.size >>> 10 = e'.size >>> 10

theorem lt_of_burned {lba : Nat} {s : Sector} (h : img.burned lba = some s) : lba < 450000 := by
  rw [Image.burned, Image.sectorAs] at h
  split at h
  · next hlt =>
      have hlba : lba < img.sectors := lt_of_mul_lt_mul_right hlt (Nat.zero_le _)
      have := img.sectors_le
      omega
  · cases h

/-- The drive's reads are of the sectors of the directory: the addresses do not wrap. -/
theorem disc_add {lba : UInt32} {k : Nat} (hlba : lba.toNat < 450000) (hk : k < 64) (c : Nat) :
    img.disc c (lba + .ofNat k) = img.burned (lba.toNat + k) := by
  rw [Image.disc, UInt32.toNat_add, UInt32.toNat_ofNat_of_lt' (show _ < 2 ^ 32 by omega)]
  show img.burned ((lba.toNat + k) % 2 ^ 32) = _
  rw [Nat.mod_eq_of_lt (by omega)]

/-- **What the driver finds**, in terms of the records of the directory. -/
def Found (view : Nat → Option Sector) (want : FileName) (e : Entry) : Prop :=
  ∃ pvd, view 16 = some pvd ∧ RootOk pvd ∧ FirstWanted view want pvd e ∧ e.Usable

theorem locates_disc_iff {name : FileName} {e : Entry} :
    Locates img.disc name e ↔ Found img.burned name e := by
  constructor
  · rintro ⟨pvd, hpvd, hroot, k, s, off, hk, hpassed, hs, hfirst, rfl, husable⟩
    have hk64 : k < 64 := by have := hroot.2.2.2; omega
    have hlba : (rootLba pvd).toNat < 450000 := by
      obtain ⟨s', hs'⟩ : ∃ s', img.burned (rootLba pvd + 0).toNat = some s' := by
        cases k with
        | zero => exact ⟨s, hs⟩
        | succ k =>
          obtain ⟨s', hs', -⟩ := hpassed 0 (Nat.succ_pos k)
          exact ⟨s', hs'⟩
      rw [UInt32.add_zero] at hs'
      exact lt_of_burned hs'
    refine ⟨pvd, hpvd, hroot, ⟨k, s, off, ?_, fun i hi => ?_, ?_, hfirst, rfl⟩, husable⟩
    · rw [rootSectors]
      omega
    · obtain ⟨s', hs', hnone⟩ := hpassed i hi
      exact ⟨s', (disc_add hlba (by omega) _).symm.trans hs', hnone⟩
    · exact (disc_add hlba hk64 _).symm.trans hs
  · rintro ⟨pvd, hpvd, hroot, ⟨k, s, off, hk, hearlier, hs, hfirst, rfl⟩, husable⟩
    rw [rootSectors] at hk
    have hk64 : k < 64 := by have := hroot.2.2.2; omega
    have hlba : (rootLba pvd).toNat < 450000 := by
      have := lt_of_burned hs
      omega
    refine ⟨pvd, hpvd, hroot, k, s, off, by omega, fun i hi => ?_, ?_, hfirst, rfl, husable⟩
    · obtain ⟨s', hs', hnone⟩ := hearlier i hi
      exact ⟨s', (disc_add hlba (by omega) _).trans hs', hnone⟩
    · exact (disc_add hlba hk64 _).trans hs

/-- What the script reports in one reading and what the driver finds in the other are one place, or
nothing. -/
def Concur (view disc : Nat → Option Sector) (name : FileName) : Prop :=
  ((¬ ∃ e, Reported view name e) ∧ ¬ ∃ e, Found disc name e) ∨
    ∃ last first, Reported view name last ∧ Found disc name first ∧ last.SamePlace first

theorem agree_iff (img : Image) (want : AsciiName) :
    Agree img want ↔ Concur img.view img.burned want.fileName := by
  have hone : ∀ e e', isoFind img want = .ok (some e) → isoFind img want = .ok (some e') →
      e = e' := fun e e' h h' => by
    rw [h] at h'
    cases h'
    rfl
  simp only [isoFind_eq_some_iff] at hone
  simp only [Agree, Concur, isoFind_eq_some_iff, ← locates_disc_iff]
  constructor
  · intro h
    obtain ⟨hiff, hsame⟩ := h (fun _ => 0) ⟨0, 0⟩
    rcases lookup_cases img.disc (fun _ => 0) want.fileName ⟨0, 0⟩ with ⟨e', he', heq⟩ | ⟨hno, heq⟩
    · rw [heq] at hiff hsame
      obtain ⟨e, he⟩ := hiff.mpr rfl
      exact .inr ⟨e, e', he, he', (hsame e he).1.symm, (hsame e he).2.symm⟩
    · rw [heq] at hiff
      exact .inl ⟨fun hr => absurd (hiff.mp hr) (by decide), hno⟩
  · intro h behind place
    rcases lookup_cases img.disc behind want.fileName place with ⟨e', he', heq⟩ | ⟨hno, heq⟩
    · rw [heq]
      rcases h with ⟨-, hl⟩ | ⟨e, e'', he, he'', hext, hsize⟩
      · exact absurd ⟨e', he'⟩ hl
      · obtain rfl := locates_unique he' he''
        refine ⟨iff_of_true ⟨e, he⟩ rfl, fun e₁ he₁ => ?_⟩
        obtain rfl := hone e e₁ he he₁
        exact ⟨hext.symm, hsize.symm⟩
    · rw [heq]
      rcases h with ⟨hr, -⟩ | ⟨e, e', -, he', -⟩
      · exact ⟨iff_of_false hr (show ¬ (0 : Int) = 1 by decide), fun e he => absurd ⟨e, he⟩ hr⟩
      · exact absurd ⟨e', he'⟩ hno

theorem lastListed_or_noneListed {pvd : Sector} (h : Complete img.view pvd) :
    (∃ e, LastListed img.view want.fileName pvd e) ∨ NoneListed img.view want.fileName pvd := by
  rcases walkDirectory_ok want (n := rootSectors pvd) (j := 0) none fun i _ hi =>
    h i (by omega) with
    ⟨k, s, off, -, hk, hs, hlast, hafter, -⟩ | ⟨hnone, -⟩
  · rw [Nat.zero_add] at hk hafter
    exact .inl ⟨_, k, s, off, hk, hs, hlast, rfl, hafter⟩
  · exact .inr fun i hi => hnone i (Nat.zero_le i) (by omega)

theorem not_lastListed {view : Nat → Option Sector} {name : FileName} {pvd : Sector} {e : Entry}
    (h : NoneListed view name pvd) : ¬ LastListed view name pvd e := by
  rintro ⟨k, s, off, hk, hs, hlast, -⟩
  exact h k hk s hs off hlast.1 hlast.2.1

/-- **The condition on one directory.** -/
def RecordsAgree (view : Nat → Option Sector) (want : FileName) (pvd : Sector) : Prop :=
  (Complete view pvd → NoneListed view want pvd ∨
      (RootOk pvd ∧ ∃ first last, FirstWanted view want pvd first ∧ first.Usable ∧
        LastListed view want pvd last ∧ last.SamePlace first)) ∧
    (¬ Complete view pvd → RootOk pvd → ∀ first, FirstWanted view want pvd first → ¬ first.Usable)

/-- The condition on two directories, in an image that the script reads in the other format. -/
def ReadingsAgree (view disc : Nat → Option Sector) (want : FileName) : Prop :=
  ((∀ pvd, view 16 = some pvd → Primary pvd → Complete view pvd → NoneListed view want pvd) ∧
      ∀ pvd, disc 16 = some pvd → RootOk pvd → ∀ first, FirstWanted disc want pvd first →
        ¬ first.Usable) ∨
    ∃ pvd pvd' first last, view 16 = some pvd ∧ Primary pvd ∧ Complete view pvd ∧
      LastListed view want pvd last ∧ disc 16 = some pvd' ∧ RootOk pvd' ∧
      FirstWanted disc want pvd' first ∧ first.Usable ∧ last.SamePlace first

/-- The script takes the image for a raw one. -/
def Image.Misread (img : Image) : Prop := img.format = .cooked ∧ 147 ∣ img.sectors

theorem view_of_not_misread (h : ¬ img.Misread) : img.view = img.burned := by
  have hguess : img.guess = img.format := by
    rw [Image.guess, Image.size]
    cases hf : img.format with
    | raw => exact if_pos (Nat.mul_mod_left _ _)
    | cooked =>
      refine if_neg fun hmod => h ⟨hf, ?_⟩
      show 147 ∣ img.sectors
      have hmod' : img.sectors * 2048 % 2352 = 0 := hmod
      omega
  rw [Image.view, hguess]
  rfl

section Readings

variable {view disc : Nat → Option Sector} {name : FileName}
  (hlisted : ∀ pvd, Complete view pvd →
    (∃ e, LastListed view name pvd e) ∨ NoneListed view name pvd)

include hlisted

theorem not_reported_iff : (¬ ∃ e, Reported view name e) ↔
    ∀ pvd, view 16 = some pvd → Primary pvd → Complete view pvd → NoneListed view name pvd := by
  constructor
  · intro h pvd hpvd hprim hall
    exact (hlisted pvd hall).resolve_left fun ⟨e, he⟩ => h ⟨e, pvd, hpvd, hprim, hall, he⟩
  · rintro h ⟨e, pvd, hpvd, hprim, hall, hlast⟩
    exact not_lastListed (h pvd hpvd hprim hall) hlast

omit hlisted in
theorem not_found_iff : (¬ ∃ e, Found disc name e) ↔
    ∀ pvd, disc 16 = some pvd → RootOk pvd → ∀ first, FirstWanted disc name pvd first →
      ¬ first.Usable := by
  constructor
  · exact fun h pvd hpvd hroot first hfirst husable => h ⟨first, pvd, hpvd, hroot, hfirst, husable⟩
  · rintro h ⟨e, pvd, hpvd, hroot, hfirst, husable⟩
    exact h pvd hpvd hroot e hfirst husable

theorem concur_iff_readingsAgree : Concur view disc name ↔ ReadingsAgree view disc name := by
  rw [Concur, ReadingsAgree, not_reported_iff hlisted, not_found_iff]
  refine or_congr_right ⟨?_, ?_⟩
  · rintro ⟨last, first, ⟨pvd, hpvd, hprim, hall, hlast⟩, ⟨pvd', hpvd', hroot, hfirst, husable⟩,
      hsame⟩
    exact ⟨pvd, pvd', first, last, hpvd, hprim, hall, hlast, hpvd', hroot, hfirst, husable, hsame⟩
  · rintro ⟨pvd, pvd', first, last, hpvd, hprim, hall, hlast, hpvd', hroot, hfirst, husable, hsame⟩
    exact ⟨last, first, ⟨pvd, hpvd, hprim, hall, hlast⟩, ⟨pvd', hpvd', hroot, hfirst, husable⟩,
      hsame⟩

omit hlisted in
/-- A directory without a record for the script has none for the driver. -/
theorem not_firstWanted {pvd : Sector} {e : Entry} (h : NoneListed view name pvd) :
    ¬ FirstWanted view name pvd e := by
  rintro ⟨k, s, off, hk, -, hs, hfirst, -⟩
  exact h k hk s hs off hfirst.1 (listed_of_wanted hfirst.1 hfirst.2.1)

/-- Both read one directory. -/
theorem concur_iff_recordsAgree : Concur view view name ↔
    ∀ pvd, view 16 = some pvd → Primary pvd → RecordsAgree view name pvd := by
  rw [Concur, not_reported_iff hlisted, not_found_iff]
  constructor
  · rintro (⟨hscript, hdriver⟩ | ⟨last, first, ⟨pvd₁, hpvd₁, -, hall₁, hlast⟩,
      ⟨pvd₂, hpvd₂, hroot, hfirst, husable⟩, hsame⟩) pvd hpvd hprim
    · exact ⟨fun hall => .inl (hscript pvd hpvd hprim hall), fun _ => hdriver pvd hpvd⟩
    · obtain rfl := Option.some.inj (hpvd₁.symm.trans hpvd)
      obtain rfl := Option.some.inj (hpvd₂.symm.trans hpvd)
      exact ⟨fun _ => .inr ⟨hroot, first, last, hfirst, husable, hlast, hsame⟩,
        fun hall => absurd hall₁ hall⟩
  · intro h
    by_cases hboth : ∃ pvd last, view 16 = some pvd ∧ Primary pvd ∧ Complete view pvd ∧
        LastListed view name pvd last
    · obtain ⟨pvd, _, hpvd, hprim, hall, hlast⟩ := hboth
      rcases (h pvd hpvd hprim).1 hall with hnone | ⟨hroot, first, last, hfirst, husable, hlast,
        hsame⟩
      · exact absurd hlast (not_lastListed hnone)
      · exact .inr ⟨last, first, ⟨pvd, hpvd, hprim, hall, hlast⟩,
          ⟨pvd, hpvd, hroot, hfirst, husable⟩, hsame⟩
    · have hscript : ∀ pvd, view 16 = some pvd → Primary pvd → Complete view pvd →
          NoneListed view name pvd := fun pvd hpvd hprim hall =>
        (hlisted pvd hall).resolve_left fun ⟨e, he⟩ => hboth ⟨pvd, e, hpvd, hprim, hall, he⟩
      refine .inl ⟨hscript, fun pvd hpvd hroot first hfirst => ?_⟩
      by_cases hall : Complete view pvd
      · exact absurd hfirst (not_firstWanted (hscript pvd hpvd hroot.1 hall))
      · exact (h pvd hpvd hroot.1).2 hall hroot first hfirst

end Readings

/-- **The checker and the driver agree** on an image and a name exactly if the records of its root
directory do, or those of its two root directories if the script reads the image in the other
format. -/
theorem isoFind_agrees_iff (img : Image) (want : AsciiName) :
    Agree img want ↔
      (¬ img.Misread → ∀ pvd, img.burned 16 = some pvd → Primary pvd →
        RecordsAgree img.burned want.fileName pvd) ∧
      (img.Misread → ReadingsAgree img.view img.burned want.fileName) := by
  have hlisted : ∀ pvd, Complete img.view pvd → (∃ e, LastListed img.view want.fileName pvd e) ∨
      NoneListed img.view want.fileName pvd := fun pvd => lastListed_or_noneListed
  rw [agree_iff]
  by_cases hread : img.Misread
  · rw [concur_iff_readingsAgree hlisted]
    exact ⟨fun h => ⟨fun hn => absurd hread hn, fun _ => h⟩, fun h => h.2 hread⟩
  · rw [view_of_not_misread hread] at hlisted ⊢
    rw [concur_iff_recordsAgree hlisted]
    exact ⟨fun h => ⟨fun _ => h, fun hm => absurd hm hread⟩, fun h => h.1 hread⟩

/-- An image with a root directory of one sector, in which `ROOT.IMG;1` is an empty file. -/
def emptyRootImage : Image where
  format := .cooked
  sectors := 18
  byte := fun n =>
    if n / 2048 = 16 then smallVolume.byte (n % 2048)
    else if n / 2048 = 17 then
      (Sector.ofBytes [(0, 44), (2, 18), (32, 10), (33, 82), (34, 79), (35, 79), (36, 84), (37, 46),
        (38, 73), (39, 77), (40, 71), (41, 59), (42, 49)]).byte (n % 2048)
    else 0
  sectors_le := by decide

/-- The script finds an empty file at sector 18, and the driver refuses it. -/
theorem isoFind_disagrees :
    ¬ Agree emptyRootImage ⟨[82, 79, 79, 84, 46, 73, 77, 71], by decide, by decide,
      by decide +kernel⟩ := by
  intro h
  have hscript : isoFind emptyRootImage
      ⟨[82, 79, 79, 84, 46, 73, 77, 71], by decide, by decide, by decide +kernel⟩ =
        .ok (some ⟨18, 0⟩) := by decide +kernel
  have hdriver := (h (fun _ => 0) ⟨0, 16384⟩).1.mp ⟨_, hscript⟩
  revert hdriver
  decide +kernel

end Whole

end Iso9660
end Cdrom
end Blackroo
