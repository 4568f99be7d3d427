import Blackroo.Lib.Interaction
import Blackroo.Lib.LittleEndian

/-!
# Finding a file on the disc

`psxcd_iso_lookup` of `drivers/block/psxcd.c` finds the image of the root filesystem in
the root directory of an ISO9660 disc.  It reads the volume descriptor, takes the extent
of the root directory from the record in it, and walks the directory a sector at a time.
If the file is not there it walks the directory again and prints what is.

The first half of this file is the format, in its own terms: a sector, the records of a
sector in scan order (`Record`), and the record a name asks for (`Wanted`).  The second
half is the code.  All of it reads `psxcd_probe_buf`, a buffer of one sector, at offsets
that come off the disc; every access to that buffer and to the name buffer of the listing
is recorded, and what lies behind the probe buffer in memory is arbitrary.

`psxcd_hw_read` is a question of the program: the answer is the sector, or nothing if the
read failed.  The text of the messages is left out; the reasons for which the lookup gives
up are the constructors of `Failure`.
-/

namespace Blackroo
namespace Cdrom
namespace Iso9660

open LittleEndian

/-! ## The format -/

/-- `PSXCD_SECTOR` bytes. -/
abbrev Sector : Type := Fin 2048 → UInt8

/-- The byte at an offset; there is nothing past the end. -/
def Sector.byte (s : Sector) (off : Nat) : UInt8 :=
  if h : off < 2048 then s ⟨off, h⟩ else 0

/-- The `n` bytes at an offset. -/
def bytesAt (mem : Nat → UInt8) : Nat → Nat → List UInt8
  | _, 0 => []
  | off, n + 1 => mem off :: bytesAt mem (off + 1) n

theorem length_bytesAt (mem : Nat → UInt8) (off n : Nat) : (bytesAt mem off n).length = n := by
  induction n generalizing off with
  | zero => rfl
  | succ n ih => rw [bytesAt, List.length_cons, ih]

/-- The little-endian word at an offset. -/
def wordAt (mem : Nat → UInt8) (off : Nat) : UInt32 :=
  word32 (mem off) (mem (off + 1)) (mem (off + 2)) (mem (off + 3))

/-- The fields of the record at an offset. -/
def recLen (s : Sector) (off : Nat) : Nat := (s.byte off).toNat

def recExtent (s : Sector) (off : Nat) : UInt32 := wordAt s.byte (off + 2)

def recSize (s : Sector) (off : Nat) : UInt32 := wordAt s.byte (off + 10)

def recFlags (s : Sector) (off : Nat) : UInt8 := s.byte (off + 25)

def recNameLen (s : Sector) (off : Nat) : Nat := (s.byte (off + 32)).toNat

def recName (s : Sector) (off : Nat) : List UInt8 := bytesAt s.byte (off + 33) (recNameLen s off)

/-- There is a record at an offset: its length is not zero, and it ends in the sector. -/
def Fits (s : Sector) (off : Nat) : Prop :=
  off < 2048 ∧ recLen s off ≠ 0 ∧ off + recLen s off ≤ 2048

instance (s : Sector) (off : Nat) : Decidable (Fits s off) := inferInstanceAs (Decidable (_ ∧ _))

/-- The records of a sector: one stands at its start, and the next one behind each. -/
inductive Record (s : Sector) : Nat → Prop
  | first (h : Fits s 0) : Record s 0
  | next {off : Nat} (hr : Record s off) (h : Fits s (off + recLen s off)) :
      Record s (off + recLen s off)

/-- `psxcd_file_name`: up to 31 characters of type `char`, which is signed, and a zero. -/
structure FileName where
  chars : List Int8
  length_le : chars.length ≤ 31
  ne_zero : ∀ c ∈ chars, c ≠ 0

/-- Capital letters for small ones. -/
def upper (c : Int) : Int := if 97 ≤ c ∧ c ≤ 122 then c - 32 else c

/-- An identifier is the wanted name, in any case and with any version behind a `;`. -/
def SameName (ident : List UInt8) (want : FileName) : Prop :=
  (ident.takeWhile (· ≠ 59)).map (fun a => upper a.toNat) =
    want.chars.map fun c => upper c.toInt

instance (ident : List UInt8) (want : FileName) : Decidable (SameName ident want) :=
  inferInstanceAs (Decidable (_ = _))

/-- The record at an offset is a file of the wanted name, and its identifier is inside it. -/
def Wanted (want : FileName) (s : Sector) (off : Nat) : Prop :=
  recFlags s off &&& 2 = 0 ∧ 0 < recNameLen s off ∧ 33 + recNameLen s off ≤ recLen s off ∧
    SameName (recName s off) want

instance (want : FileName) (s : Sector) (off : Nat) : Decidable (Wanted want s off) :=
  inferInstanceAs (Decidable (_ ∧ _))

/-- Where a file is. -/
structure Entry where
  extent : UInt32
  size : UInt32
  deriving DecidableEq, Repr

def entryAt (s : Sector) (off : Nat) : Entry := ⟨recExtent s off, recSize s off⟩

/-- The volume descriptor is a primary one. -/
def Primary (s : Sector) : Prop := bytesAt s.byte 0 6 = [1, 67, 68, 48, 48, 49]

instance (s : Sector) : Decidable (Primary s) := inferInstanceAs (Decidable (_ = _))

/-- The root directory of a volume: the extent and the length in its record. -/
def rootLba (pvd : Sector) : UInt32 := recExtent pvd 156

def rootLen (pvd : Sector) : UInt32 := recSize pvd 156

/-! ## The accesses -/

/-- An access to one of the two buffers. -/
inductive Access where
  | probeBuf (off : Nat)
  | nameBuf (off : Nat)
  deriving DecidableEq, Repr

/-- `psxcd_probe_buf` has 2048 bytes, `nm` has 40. -/
def Access.InBounds : Access → Prop
  | .probeBuf off => off < 2048
  | .nameBuf off => off < 40

instance (a : Access) : Decidable a.InBounds := by
  cases a <;> exact inferInstanceAs (Decidable (_ < _))

/-- The memory from `psxcd_probe_buf` on, with a sector in the buffer. -/
def probeMemory (behind : Nat → UInt8) (s : Sector) (off : Nat) : UInt8 :=
  if h : off < 2048 then s ⟨off, h⟩ else behind off

section Buffer

variable (mem : Nat → UInt8)

/-- A byte of the probe buffer is read. -/
def load (off : Nat) : Traced Access UInt8 := do
  Traced.touch (.probeBuf off)
  return mem off

def isoLe32 (p : Nat) : Traced Access UInt32 := do
  let b₀ ← load mem p
  let b₁ ← load mem (p + 1)
  let b₂ ← load mem (p + 2)
  let b₃ ← load mem (p + 3)
  return word32 b₀ b₁ b₂ b₃

/-- The loop that drops the version: where the identifier ends. -/
def versionAt (id : Nat) : Nat → Nat → Traced Access Nat
  | 0, i => return i
  | n + 1, i => do
      if (← load mem (id + i)) = 59 then return i
      else versionAt id n (i + 1)

/-- `want[i]`. -/
def FileName.charAt (want : FileName) (i : Nat) : Int := (want.chars.getD i 0).toInt

/-- The loop that compares, over the last `n` characters of the identifier. -/
def sameLetters (id : Nat) (want : FileName) : Nat → Nat → Traced Access Bool
  | 0, i => return want.charAt i = 0
  | n + 1, i => do
      let a ← load mem (id + i)
      let b := want.charAt i
      if b = 0 then return false
      else if upper a.toNat ≠ upper b then return false
      else sameLetters id want n (i + 1)

def isoNameEq (id idlen : Nat) (want : FileName) : Traced Access Bool := do
  let idlen ← versionAt mem id idlen 0
  sameLetters mem id want idlen 0

/-- The `while` loop over the records of a sector, which both walks have.  A record has at
least one byte, so a fuel of one sector does not run out. -/
def walkRecords {α : Type} (visit : Nat → Nat → Traced Access (Option α)) :
    Nat → Nat → Traced Access (Option α)
  | 0, _ => return none
  | fuel + 1, off => do
      if off < 2048 then
        let reclen := (← load mem off).toNat
        if reclen = 0 then return none
        else if off + reclen > 2048 then return none
        else
          match ← visit off reclen with
          | some a => return some a
          | none => walkRecords visit fuel (off + reclen)
      else return none

/-- The search walk at one record. -/
def searchRecord (want : FileName) (off reclen : Nat) : Traced Access (Option Entry) := do
  let namelen := (← load mem (off + 32)).toNat
  let flags ← load mem (off + 25)
  if flags &&& 2 = 0 ∧ 0 < namelen ∧ 33 + namelen ≤ reclen then
    if ← isoNameEq mem (off + 33) namelen want then
      let lba ← isoLe32 mem (off + 2)
      let len ← isoLe32 mem (off + 10)
      return some ⟨lba, len⟩
    else return none
  else return none

/-- The loop of the listing that copies a name into `nm`. -/
def copyName (id : Nat) : Nat → Nat → Traced Access Unit
  | 0, i => Traced.touch (.nameBuf i)
  | n + 1, i => do
      let _ ← load mem (id + i)
      Traced.touch (.nameBuf i)
      copyName id n (i + 1)

/-- `printk` reads the name back. -/
def printName : Nat → Nat → Traced Access Unit
  | 0, i => Traced.touch (.nameBuf i)
  | n + 1, i => do
      Traced.touch (.nameBuf i)
      printName n (i + 1)

/-- The listing at one record. -/
def listRecord (off reclen : Nat) : Traced Access (Option Unit) := do
  let namelen := (← load mem (off + 32)).toNat
  if 0 < namelen ∧ 33 + namelen ≤ reclen then
    let shown := min namelen 39
    copyName mem (off + 33) shown 0
    printName shown 0
    let _ ← load mem (off + 25)
    let _ ← isoLe32 mem (off + 2)
    let _ ← isoLe32 mem (off + 10)
    return none
  else return none

end Buffer

section Walks

variable (behind : Nat → UInt8) (want : FileName)

/-- The search walk over the sector in the buffer. -/
def searchSector (b : Sector) : Traced Access (Option Entry) :=
  walkRecords (probeMemory behind b) (searchRecord (probeMemory behind b) want) 2048 0

/-- The listing walk over the sector in the buffer. -/
def listSector (b : Sector) : Traced Access (Option Unit) :=
  walkRecords (probeMemory behind b) (listRecord (probeMemory behind b)) 2048 0

end Walks

/-! ## The lookup -/

/-- Why the lookup gives up. -/
inductive Failure where
  | cannotReadDescriptor
  | noDescriptor
  | rootRecordEmpty
  | rootTooLong (claimed : UInt32)
  | rootReadFailed
  | tooSmall
  | notFound
  deriving DecidableEq, Repr

/-- What the lookup asks of its surroundings: a sector by `psxcd_hw_read`; and it tells
them of its accesses. -/
inductive Query where
  | hwRead (lba : UInt32)
  | touched (log : List Access)

abbrev Answer : Query → Type
  | .hwRead _ => Option Sector
  | .touched _ => Unit

abbrev Lookup : Type → Type := Interaction.Tree Query Answer

def hwRead (lba : UInt32) : Lookup (Option Sector) := .query (Query.hwRead lba)

/-- Looking at the buffers. -/
def look {α : Type} (x : Traced Access α) : Lookup α := do
  Interaction.Tree.query (Query.touched x.log)
  return x.val

/-- The variables that say where the image is. -/
structure Place where
  psxcdBaseLba : UInt32
  psxcdLenKb : UInt32
  deriving DecidableEq, Repr

section Lookup

variable (behind : Nat → UInt8) (want : FileName)

/-- The search walk over the directory, with `n` sectors before the limit. -/
def searchRoot (lba len : UInt32) : Nat → Nat → Lookup (Except Failure (Option Entry))
  | 0, _ => return .ok none
  | n + 1, sector => do
      if sector * 2048 < len.toNat then
        match ← hwRead (lba + .ofNat sector) with
        | none => return .error .rootReadFailed
        | some b =>
          match ← look (searchSector behind want b) with
          | some e => return .ok (some e)
          | none => searchRoot lba len n (sector + 1)
      else return .ok none

/-- The listing walk. -/
def listRoot (lba len : UInt32) : Nat → Nat → Lookup Unit
  | 0, _ => return ()
  | n + 1, sector => do
      if sector * 2048 < len.toNat then
        match ← hwRead (lba + .ofNat sector) with
        | none => return ()
        | some b =>
          let _ ← look (listSector behind b)
          listRoot lba len n (sector + 1)
      else return ()

/-- The checks of the volume descriptor, up to the extent of the root directory. -/
def readDescriptor (mem : Nat → UInt8) : Traced Access (Except Failure (UInt32 × UInt32)) := do
  let b₀ ← load mem 0
  let b₁ ← load mem 1
  let b₂ ← load mem 2
  let b₃ ← load mem 3
  let b₄ ← load mem 4
  let b₅ ← load mem 5
  if [b₀, b₁, b₂, b₃, b₄, b₅] ≠ [1, 67, 68, 48, 48, 49] then return .error .noDescriptor
  else
    let lba ← isoLe32 mem (156 + 2)
    let len ← isoLe32 mem (156 + 10)
    if lba = 0 ∨ len = 0 then return .error .rootRecordEmpty
    else if len.toNat > 64 * 2048 then return .error (.rootTooLong len)
    else return .ok (lba, len)

/-- The two walks over the root directory, and the check of what the first one finds. -/
def scanRoot (lba len : UInt32) : Lookup (Except Failure Entry) := do
  match ← searchRoot behind want lba len 64 0 with
  | .error e => return .error e
  | .ok (some e) =>
    if e.extent = 0 ∨ e.size.toNat < 2048 then return .error .tooSmall
    else return .ok e
  | .ok none =>
    listRoot behind lba len 64 0
    return .error .notFound

/-- `psxcd_iso_lookup`, up to the assignment of the two variables. -/
def locate : Lookup (Except Failure Entry) := do
  match ← hwRead 16 with
  | none => return .error .cannotReadDescriptor
  | some b =>
    match ← look (readDescriptor (probeMemory behind b)) with
    | .error e => return .error e
    | .ok (lba, len) => scanRoot behind want lba len

/-- `psxcd_iso_lookup`: the value it returns, and the variables afterwards. -/
def psxcdIsoLookup (place : Place) : Lookup (Int × Place) := do
  match ← locate behind want with
  | .error _ => return (0, place)
  | .ok e => return (1, ⟨e.extent, e.size >>> 10⟩)

end Lookup

/-! ## The surroundings -/

/-- How often the lookup read a sector, and its accesses. -/
structure Session where
  calls : Nat
  log : List Access

/-- The reads are answered in the order in which they are made; `answer k lba` is what the
read number `k` gives. -/
def respond (answer : Nat → UInt32 → Option Sector) : Interaction.Handler Query Answer Session
  | .hwRead lba, t => (answer t.calls lba, { t with calls := t.calls + 1 })
  | .touched l, t => ((), { t with log := t.log ++ l })

/-- The lookup from its start. -/
def lookup (answer : Nat → UInt32 → Option Sector) (behind : Nat → UInt8) (want : FileName)
    (place : Place) : (Int × Place) × Session :=
  Interaction.run (respond answer) (psxcdIsoLookup behind want place) ⟨0, []⟩

end Iso9660
end Cdrom
end Blackroo
