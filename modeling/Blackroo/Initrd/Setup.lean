import Blackroo.Lib.ByteMemory
import Blackroo.Lib.PageMap

/-!
# Early memory setup with an appended initrd

`setup_arch` meets the initrd twice.  Before the boot allocator exists it looks for the
header behind `_end` and, if the magic is there, moves `start_pfn`, and with it the bitmap
of the allocator, behind the end the header announces.  After the allocator has been set
up it looks for the header again, and either publishes `initrd_start` and `initrd_end` and
reserves the pages, or finds that the image does not fit into the RAM and publishes
nothing.

All of this is arithmetic modulo `2 ^ 32` on words the kernel found in memory, and
`start_pfn` is not moved back when the second look rejects what the first accepted.
`earlySetupRight_iff` says for which headers the two agree.

The kernel runs at physical addresses here (`PAGE_OFFSET` is 0), so an address of a symbol
is an address of a page.  `BUG()` prints a line and stores a word at address 0, which this
machine allows, and goes on: it is left out, and so is `node_low_pfn`, which only decides
about it.
-/

namespace Blackroo
namespace Initrd

open PageMap

/-! ## Page frames -/

/-- The macro `PFN_UP`. -/
def pfnUp (x : UInt32) : UInt32 := (x + 4095) >>> 12

/-- The macro `PFN_DOWN`. -/
def pfnDown (x : UInt32) : UInt32 := x >>> 12

/-- The macro `PFN_PHYS`. -/
def pfnPhys (x : UInt32) : UInt32 := x <<< 12

theorem toNat_pfnUp (x : UInt32) : (pfnUp x).toNat = (x.toNat + 4095) % 2 ^ 32 / 4096 := by
  rw [pfnUp, UInt32.toNat_shiftRight, UInt32.toNat_add]
  exact Nat.shiftRight_eq_div_pow _ _

theorem toNat_pfnDown (x : UInt32) : (pfnDown x).toNat = x.toNat / 4096 := by
  rw [pfnDown, UInt32.toNat_shiftRight]
  exact Nat.shiftRight_eq_div_pow _ _

theorem toNat_pfnPhys {x : UInt32} (h : x.toNat < 2 ^ 20) : (pfnPhys x).toNat = 4096 * x.toNat := by
  rw [pfnPhys, UInt32.toNat_shiftLeft]
  show x.toNat <<< 12 % 2 ^ 32 = _
  rw [Nat.shiftLeft_eq]
  omega

theorem pfnUp_lt (x : UInt32) : (pfnUp x).toNat < 2 ^ 20 := by
  rw [toNat_pfnUp]
  omega

theorem pfnDown_lt (x : UInt32) : (pfnDown x).toNat < 2 ^ 20 := by
  have := x.toNat_lt
  rw [toNat_pfnDown]
  omega

/-! ## The header of the initrd -/

/-- The word "INRD" in front of an initrd. -/
def inrdMagic : UInt32 := 0x494E5244

/-- The two words of a header. -/
structure Header where
  magic : UInt32
  size : UInt32
deriving Repr, DecidableEq

/-- The address at which `setup_arch` looks for the header, both times. -/
def searchAddr (kend : UInt32) : UInt32 :=
  let phys := ((kend + 4095) &&& ~~~4095) - 8
  if phys < kend then phys + 4096 else phys

theorem toNat_pageMask (x : UInt32) : (x &&& ~~~4095).toNat = x.toNat / 4096 * 4096 := by
  rw [UInt32.and_comm]
  exact ByteMemory.toNat_and_mask (k := 12) (by decide) (by decide) x

/-- The header is aligned to its size. -/
theorem searchAddr_mod (kend : UInt32) : (searchAddr kend).toNat % 8 = 0 := by
  have hpage := toNat_pageMask (kend + 4095)
  have hoff : (((kend + 4095) &&& ~~~4095) - 8).toNat % 8 = 0 := by
    rw [UInt32.toNat_sub, hpage]
    show (2 ^ 32 - 8 + _) % 2 ^ 32 % 8 = 0
    omega
  unfold searchAddr
  dsimp only
  split
  · rw [UInt32.toNat_add]
    show (_ + 4096) % 2 ^ 32 % 8 = 0
    omega
  · exact hoff

/-! ## The boot allocator -/

/-- The boot allocator: the page its bitmap starts at, the bytes of the bitmap, and the
pages that are reserved. -/
structure Bootmem where
  mapStart : UInt32
  mapSize : UInt32
  reserved : PageMap.Map

/-- `init_bootmem`, with the node starting at page 0. -/
def initBootmem (start pages : UInt32) : Bootmem where
  mapStart := start
  mapSize := ((pages + 7) / 8 + 3) &&& ~~~3
  reserved := fun _ => true

/-- `reserve_bootmem`. -/
def reserveBootmem (b : Bootmem) (addr size : UInt32) : Bootmem :=
  { b with reserved := reserve b.reserved (addr / 4096).toNat ((addr + size + 4095) / 4096).toNat }

/-- `free_bootmem`. -/
def freeBootmem (b : Bootmem) (addr size : UInt32) : Bootmem :=
  { b with
    reserved := release b.reserved ((addr + 4095) / 4096).toNat ((addr + size) / 4096).toNat }

/-- The byte at an address belongs to the bitmap. -/
def Bootmem.Covers (b : Bootmem) (addr : UInt32) : Prop :=
  (pfnPhys b.mapStart).toNat ≤ addr.toNat ∧
    addr.toNat < (pfnPhys b.mapStart).toNat + b.mapSize.toNat

instance (b : Bootmem) (addr : UInt32) : Decidable (b.Covers addr) :=
  inferInstanceAs (Decidable (_ ∧ _))

/-- A page holds bytes of the bitmap. -/
def Bootmem.Holds (b : Bootmem) (page : Nat) : Prop :=
  (pfnPhys b.mapStart).toNat < 4096 * (page + 1) ∧
    4096 * page < (pfnPhys b.mapStart).toNat + b.mapSize.toNat

/-- The word at an address that held `found` before the bitmap was written. -/
def Bootmem.read (b : Bootmem) (addr found : UInt32) : UInt32 :=
  if b.Covers addr then word b.reserved ((addr - pfnPhys b.mapStart).toNat / 4) else found

/-! ## The memory map -/

/-- What a region of the memory map is. -/
inductive MemType
  | ram
  | romData
  | reserved
deriving Repr, DecidableEq

/-- An entry of `boot_mem_map`. -/
structure Region where
  addr : UInt32
  size : UInt32
  type : MemType
deriving Repr, DecidableEq

/-- One turn of the loop that finds the highest page. -/
def raiseMaxPfn (maxPfn : UInt32) (r : Region) : UInt32 :=
  if r.type ≠ .ram then maxPfn
  else if pfnUp r.addr ≥ pfnDown (r.addr + r.size) then maxPfn
  else if pfnDown (r.addr + r.size) > maxPfn then pfnDown (r.addr + r.size)
  else maxPfn

/-- `max_pfn`. -/
def highestPfn (map : List Region) : UInt32 := map.foldl raiseMaxPfn 0

/-- One turn of the loop that hands the RAM to the boot allocator. -/
def registerRam (startPfn maxPfn : UInt32) (b : Bootmem) (r : Region) : Bootmem :=
  if r.type ≠ .ram then b
  else if pfnUp r.addr ≥ maxPfn then b
  else
    let curr := if pfnUp r.addr < startPfn then startPfn else pfnUp r.addr
    let last := if pfnDown (r.addr + r.size) > maxPfn then maxPfn else pfnDown (r.addr + r.size)
    if last ≤ curr then b else freeBootmem b (pfnPhys curr) (pfnPhys (last - curr))

/-- The allocator after `Reserve the bootmap memory`. -/
def setupBootmem (startPfn maxPfn : UInt32) (map : List Region) : Bootmem :=
  let b := map.foldl (registerRam startPfn maxPfn) (initBootmem startPfn maxPfn)
  reserveBootmem b (pfnPhys startPfn) b.mapSize

/-! ## The two blocks -/

/-- The first block: `start_pfn`, behind an initrd if there is one. -/
def bootmemStart (kend : UInt32) (hdr : Header) : UInt32 :=
  if hdr.magic = inrdMagic then
    let irdEnd := searchAddr kend + 8 + hdr.size
    if pfnUp irdEnd > pfnUp kend then pfnUp irdEnd else pfnUp kend
  else pfnUp kend

/-- What the initrd blocks of `setup_arch` leave. -/
structure EarlySetup where
  startPfn : UInt32
  maxPfn : UInt32
  bootmem : Bootmem
  initrdStart : UInt32
  initrdEnd : UInt32

/-- `setup_arch` from `start_pfn` to the end of the second block, with the words of the
header as they were found at the start.  `initrd_start` and `initrd_end` are 0 before. -/
def setupArch (kend : UInt32) (map : List Region) (hdr : Header) : EarlySetup :=
  let startPfn := bootmemStart kend hdr
  let maxPfn := highestPfn map
  let b := setupBootmem startPfn maxPfn map
  let initrdPhys := searchAddr kend
  if b.read initrdPhys hdr.magic = inrdMagic then
    let initrdStart := initrdPhys + 8
    let initrdEnd := initrdStart + b.read (initrdPhys + 4) hdr.size
    if initrdEnd > pfnPhys maxPfn then ⟨startPfn, maxPfn, b, 0, 0⟩
    else
      ⟨startPfn, maxPfn, reserveBootmem b initrdPhys (initrdEnd - initrdPhys + 8), initrdStart,
        initrdEnd⟩
  else ⟨startPfn, maxPfn, b, 0, 0⟩

/-! ## What is asked of it -/

/-- No initrd, and an allocator that starts behind the kernel and within the RAM. -/
structure InitrdDisabled (kend : UInt32) (s : EarlySetup) : Prop where
  start : s.initrdStart = 0
  stop : s.initrdEnd = 0
  behind : s.startPfn = pfnUp kend
  room : s.startPfn < s.maxPfn

/-- An initrd within the RAM, on pages the allocator neither gives away nor uses. -/
structure InitrdKept (kend : UInt32) (s : EarlySetup) : Prop where
  enabled : s.initrdStart ≠ 0
  order : s.initrdStart ≤ s.initrdEnd
  ram : s.initrdEnd ≤ pfnPhys s.maxPfn
  pages : ∀ page, (searchAddr kend).toNat < 4096 * (page + 1) → 4096 * page < s.initrdEnd.toNat →
    s.bootmem.reserved page = true ∧ ¬s.bootmem.Holds page

/-- Early memory setup came out right. -/
def EarlySetupRight (kend : UInt32) (s : EarlySetup) : Prop :=
  InitrdDisabled kend s ∨ InitrdKept kend s

/-! ## The allocator after its setup -/

theorem raiseMaxPfn_lt {maxPfn : UInt32} (h : maxPfn.toNat < 2 ^ 20) (r : Region) :
    (raiseMaxPfn maxPfn r).toNat < 2 ^ 20 := by
  unfold raiseMaxPfn
  split_ifs
  · exact h
  · exact h
  · exact pfnDown_lt _
  · exact h

theorem highestPfn_lt (map : List Region) : (highestPfn map).toNat < 2 ^ 20 := by
  unfold highestPfn
  have hrun : ∀ (m : UInt32), m.toNat < 2 ^ 20 → (map.foldl raiseMaxPfn m).toNat < 2 ^ 20 := by
    induction map with
    | nil => exact fun m hm => hm
    | cons r map ih => exact fun m hm => ih _ (raiseMaxPfn_lt hm r)
  exact hrun 0 (by decide)

theorem bootmemStart_lt (kend : UInt32) (hdr : Header) :
    (bootmemStart kend hdr).toNat < 2 ^ 20 := by
  unfold bootmemStart
  dsimp only
  split_ifs <;> exact pfnUp_lt _

theorem toNat_pfnPhys_up {x : UInt32} (h : x.toNat < 2 ^ 20) :
    ((pfnPhys x + 4095) / 4096).toNat = x.toNat := by
  rw [UInt32.toNat_div, UInt32.toNat_add, toNat_pfnPhys h]
  show (4096 * x.toNat + 4095) % 2 ^ 32 / 4096 = x.toNat
  omega

theorem toNat_pfnPhys_down {x : UInt32} (h : x.toNat < 2 ^ 20) :
    (pfnPhys x / 4096).toNat = x.toNat := by
  rw [UInt32.toNat_div, toNat_pfnPhys h]
  exact Nat.mul_div_cancel_left _ (by decide)

/-- A region is left alone or releases pages, none of them below `start_pfn`. -/
theorem registerRam_cases {startPfn maxPfn : UInt32} (hstart : startPfn.toNat < 2 ^ 20)
    (b : Bootmem) (r : Region) :
    registerRam startPfn maxPfn b r = b ∨
      ∃ lo hi, startPfn.toNat ≤ lo ∧
        registerRam startPfn maxPfn b r = { b with reserved := release b.reserved lo hi } := by
  unfold registerRam
  dsimp only
  by_cases htype : r.type ≠ .ram
  · exact .inl (if_pos htype)
  by_cases hout : pfnUp r.addr ≥ maxPfn
  · rw [if_neg htype, if_pos hout]
    exact .inl rfl
  rw [if_neg htype, if_neg hout]
  have hcurr : startPfn.toNat ≤ (if pfnUp r.addr < startPfn then startPfn else pfnUp r.addr).toNat ∧
      (if pfnUp r.addr < startPfn then startPfn else pfnUp r.addr).toNat < 2 ^ 20 := by
    split
    · exact ⟨Nat.le_refl _, hstart⟩
    · next h => exact ⟨UInt32.le_iff_toNat_le.mp (UInt32.not_lt.mp h), pfnUp_lt _⟩
  generalize (if pfnUp r.addr < startPfn then startPfn else pfnUp r.addr) = curr at hcurr ⊢
  generalize (if pfnDown (r.addr + r.size) > maxPfn then maxPfn
    else pfnDown (r.addr + r.size)) = last
  by_cases hempty : last ≤ curr
  · exact .inl (if_pos hempty)
  · exact .inr ⟨_, _, (toNat_pfnPhys_up hcurr.2).symm ▸ hcurr.1, if_neg hempty⟩

/-- What every step of the setup keeps: the place of the bitmap, and the pages below it
reserved. -/
structure Starts (startPfn maxPfn : UInt32) (b : Bootmem) : Prop where
  mapStart : b.mapStart = startPfn
  mapSize : b.mapSize = (initBootmem startPfn maxPfn).mapSize
  below : ∀ i < startPfn.toNat, b.reserved i = true

theorem Starts.reserve {startPfn maxPfn : UInt32} {b : Bootmem} (h : Starts startPfn maxPfn b)
    (addr size : UInt32) : Starts startPfn maxPfn (reserveBootmem b addr size) :=
  ⟨h.mapStart, h.mapSize, fun i hi => reserve_of_reserved _ _ (h.below i hi)⟩

theorem Starts.register {startPfn maxPfn : UInt32} {b : Bootmem} (hstart : startPfn.toNat < 2 ^ 20)
    (h : Starts startPfn maxPfn b) (r : Region) :
    Starts startPfn maxPfn (registerRam startPfn maxPfn b r) := by
  obtain heq | ⟨lo, hi, hlo, heq⟩ := registerRam_cases hstart b r
  · rw [heq]
    exact h
  · rw [heq]
    refine ⟨h.mapStart, h.mapSize, fun i hi => ?_⟩
    exact (release_of_lt _ (by omega)).trans (h.below i hi)

/-- **Nothing below `start_pfn` is ever released**, whatever the memory map says. -/
theorem starts_setupBootmem {startPfn : UInt32} (hstart : startPfn.toNat < 2 ^ 20)
    (maxPfn : UInt32) (map : List Region) :
    Starts startPfn maxPfn (setupBootmem startPfn maxPfn map) := by
  have hrun : ∀ b, Starts startPfn maxPfn b →
      Starts startPfn maxPfn (map.foldl (registerRam startPfn maxPfn) b) := by
    induction map with
    | nil => exact fun b hb => hb
    | cons r map ih => exact fun b hb => ih _ (hb.register hstart r)
  exact (hrun _ ⟨rfl, rfl, fun _ _ => rfl⟩).reserve _ _

/-- With one region, the free pages are an interval. -/
theorem ordConnected_setupBootmem {startPfn : UInt32} (hstart : startPfn.toNat < 2 ^ 20)
    (maxPfn : UInt32) (r : Region) :
    (free (setupBootmem startPfn maxPfn [r]).reserved).OrdConnected := by
  unfold setupBootmem
  rw [List.foldl_cons, List.foldl_nil]
  unfold reserveBootmem
  dsimp only
  rw [toNat_pfnPhys_down hstart]
  obtain heq | ⟨lo, hi, hlo, heq⟩ := registerRam_cases hstart (initBootmem startPfn maxPfn) r
  · rw [heq]
    exact ordConnected_free_reserve _ _
  · rw [heq]
    exact ordConnected_free hlo

/-- The magic is no word of a bitmap with one interval of free pages: it has a one between
two zeros. -/
theorem word_ne_inrdMagic {m : PageMap.Map} (h : (free m).OrdConnected) (w : Nat) :
    word m w ≠ inrdMagic := by
  intro heq
  have hzero := testBit_word_of_ordConnected h w (a := 0) (b := 2) (c := 3) (by decide) (by decide)
    (by decide) (by rw [heq]; decide) (by rw [heq]; decide)
  rw [heq] at hzero
  exact absurd hzero (by decide)

/-! ## The second look -/

/-- With one region, the magic is still there if it was there and is not under the
bitmap. -/
theorem read_magic_iff {b : Bootmem} (h : (free b.reserved).OrdConnected) (addr magic : UInt32) :
    b.read addr magic = inrdMagic ↔ magic = inrdMagic ∧ ¬b.Covers addr := by
  unfold Bootmem.read
  by_cases hcov : b.Covers addr
  · rw [if_pos hcov]
    exact ⟨fun heq => absurd heq (word_ne_inrdMagic h _), fun hand => absurd hcov hand.2⟩
  · rw [if_neg hcov]
    exact ⟨fun heq => ⟨heq, hcov⟩, And.left⟩

/-- If the first word of the header is not under the bitmap, the second is not either. -/
theorem read_size {b : Bootmem} (hstart : b.mapStart.toNat < 2 ^ 20) {kend : UInt32}
    (hcov : ¬b.Covers (searchAddr kend)) (size : UInt32) :
    b.read (searchAddr kend + 4) size = size := by
  have hmod := searchAddr_mod kend
  have hlt := (searchAddr kend).toNat_lt
  have hsecond : (searchAddr kend + 4).toNat = (searchAddr kend).toNat + 4 := by
    rw [UInt32.toNat_add]
    show (_ + 4) % 2 ^ 32 = _
    omega
  unfold Bootmem.read
  refine if_neg fun hsize => hcov ?_
  unfold Bootmem.Covers at hsize ⊢
  rw [hsecond, toNat_pfnPhys hstart] at hsize
  rw [toNat_pfnPhys hstart]
  omega

/-- `initrd_start` of a header that is found. -/
def initrdStart (kend : UInt32) : UInt32 := searchAddr kend + 8

/-- The end of the initrd a header announces, which both blocks compute. -/
def initrdEnd (kend : UInt32) (hdr : Header) : UInt32 := initrdStart kend + hdr.size

/-- The bitmap of an allocator that starts behind the kernel lies over the header. -/
def HeaderCovered (kend maxPfn : UInt32) : Prop :=
  (initBootmem (pfnUp kend) maxPfn).Covers (searchAddr kend)

instance (kend maxPfn : UInt32) : Decidable (HeaderCovered kend maxPfn) :=
  inferInstanceAs (Decidable (Bootmem.Covers _ _))

/-- The headers that early memory setup takes: the magic is absent, or it is there with an
end that does not move `start_pfn` and is then rejected or not seen again, or the initrd
lies within the RAM. -/
def HeaderTaken (kend maxPfn : UInt32) (hdr : Header) : Prop :=
  (pfnUp kend < maxPfn ∧
    (hdr.magic ≠ inrdMagic ∨
      pfnUp (initrdEnd kend hdr) ≤ pfnUp kend ∧
        (pfnPhys maxPfn < initrdEnd kend hdr ∨ HeaderCovered kend maxPfn ∨
          initrdStart kend = 0 ∧ initrdEnd kend hdr = 0))) ∨
  (hdr.magic = inrdMagic ∧ initrdStart kend ≠ 0 ∧ initrdStart kend ≤ initrdEnd kend hdr ∧
    initrdEnd kend hdr ≤ pfnPhys maxPfn)

theorem bootmemStart_of_absent {kend : UInt32} {hdr : Header} (h : hdr.magic ≠ inrdMagic) :
    bootmemStart kend hdr = pfnUp kend := by
  rw [bootmemStart, if_neg h]

theorem bootmemStart_of_magic {kend : UInt32} {hdr : Header} (h : hdr.magic = inrdMagic) :
    bootmemStart kend hdr =
      if pfnUp (initrdEnd kend hdr) > pfnUp kend then pfnUp (initrdEnd kend hdr)
        else pfnUp kend := by
  rw [bootmemStart, if_pos h, initrdEnd, initrdStart]

/-- The first block leaves `start_pfn` behind the kernel. -/
theorem bootmemStart_eq_iff {kend : UInt32} {hdr : Header} (h : hdr.magic = inrdMagic) :
    bootmemStart kend hdr = pfnUp kend ↔ pfnUp (initrdEnd kend hdr) ≤ pfnUp kend := by
  rw [bootmemStart_of_magic h]
  by_cases hraised : pfnUp (initrdEnd kend hdr) > pfnUp kend
  · rw [if_pos hraised]
    refine ⟨fun heq => ?_, fun hle => absurd hraised (UInt32.not_lt.mpr hle)⟩
    rw [heq]
    exact UInt32.le_refl _
  · rw [if_neg hraised]
    exact ⟨fun _ => UInt32.not_lt.mp hraised, fun _ => rfl⟩

/-- An initrd that ends within the RAM ends below the page the allocator starts at: the sum
of the first block does not wrap there. -/
theorem initrdEnd_le_bootmemStart {kend maxPfn : UInt32} {hdr : Header}
    (hmax : maxPfn.toNat < 2 ^ 20) (h : hdr.magic = inrdMagic)
    (hram : initrdEnd kend hdr ≤ pfnPhys maxPfn) :
    (initrdEnd kend hdr).toNat ≤ 4096 * (bootmemStart kend hdr).toNat := by
  have hup : (pfnUp (initrdEnd kend hdr)).toNat ≤ (bootmemStart kend hdr).toNat := by
    rw [bootmemStart_of_magic h]
    split
    · exact Nat.le_refl _
    · next hraised => exact UInt32.le_iff_toNat_le.mp (UInt32.not_lt.mp hraised)
  rw [UInt32.le_iff_toNat_le, toNat_pfnPhys hmax] at hram
  rw [toNat_pfnUp] at hup
  omega

/-- The start of an initrd that is published lies behind its header. -/
theorem toNat_initrdStart {kend : UInt32} (h : initrdStart kend ≠ 0) :
    (initrdStart kend).toNat = (searchAddr kend).toNat + 8 := by
  have hmod := searchAddr_mod kend
  have hlt := (searchAddr kend).toNat_lt
  have hadd : (initrdStart kend).toNat = ((searchAddr kend).toNat + 8) % 2 ^ 32 := by
    rw [initrdStart, UInt32.toNat_add]
    rfl
  have hne : (initrdStart kend).toNat ≠ 0 := fun h0 => h (UInt32.toNat_inj.mp h0)
  omega

/-- The allocator between the two blocks. -/
def bootmemBetween (kend : UInt32) (map : List Region) (hdr : Header) : Bootmem :=
  setupBootmem (bootmemStart kend hdr) (highestPfn map) map

/-- The second block finds the magic: it was there, and the bitmap is not over it. -/
def SeenAgain (kend maxPfn : UInt32) (hdr : Header) : Prop :=
  hdr.magic = inrdMagic ∧ ¬(initBootmem (bootmemStart kend hdr) maxPfn).Covers (searchAddr kend)

theorem starts_bootmemBetween (kend : UInt32) (map : List Region) (hdr : Header) :
    Starts (bootmemStart kend hdr) (highestPfn map) (bootmemBetween kend map hdr) :=
  starts_setupBootmem (bootmemStart_lt kend hdr) _ _

section OneRegion

variable {kend : UInt32} {r : Region} {hdr : Header}

theorem read_bootmemBetween_iff :
    (bootmemBetween kend [r] hdr).read (searchAddr kend) hdr.magic = inrdMagic ↔
      SeenAgain kend (highestPfn [r]) hdr := by
  have hstarts := starts_bootmemBetween kend [r] hdr
  have hfree : (free (bootmemBetween kend [r] hdr).reserved).OrdConnected :=
    ordConnected_setupBootmem (bootmemStart_lt kend hdr) _ r
  rw [read_magic_iff hfree]
  unfold SeenAgain Bootmem.Covers
  rw [hstarts.mapStart, hstarts.mapSize]
  rfl

theorem setupArch_of_hidden (h : ¬SeenAgain kend (highestPfn [r]) hdr) :
    setupArch kend [r] hdr =
      ⟨bootmemStart kend hdr, highestPfn [r], bootmemBetween kend [r] hdr, 0, 0⟩ := by
  have hread := mt read_bootmemBetween_iff.mp h
  unfold bootmemBetween at hread ⊢
  unfold setupArch
  dsimp only
  rw [if_neg hread]

theorem setupArch_of_seen (h : SeenAgain kend (highestPfn [r]) hdr) :
    setupArch kend [r] hdr =
      if initrdEnd kend hdr > pfnPhys (highestPfn [r]) then
        ⟨bootmemStart kend hdr, highestPfn [r], bootmemBetween kend [r] hdr, 0, 0⟩
      else
        ⟨bootmemStart kend hdr, highestPfn [r],
          reserveBootmem (bootmemBetween kend [r] hdr) (searchAddr kend)
            (initrdEnd kend hdr - searchAddr kend + 8),
          initrdStart kend, initrdEnd kend hdr⟩ := by
  have hstarts := starts_bootmemBetween kend [r] hdr
  have hsize : (bootmemBetween kend [r] hdr).read (searchAddr kend + 4) hdr.size = hdr.size := by
    refine read_size (by rw [hstarts.mapStart]; exact bootmemStart_lt kend hdr) ?_ hdr.size
    unfold Bootmem.Covers
    rw [hstarts.mapStart, hstarts.mapSize]
    exact h.2
  have hread := read_bootmemBetween_iff.mpr h
  unfold bootmemBetween at hread hsize ⊢
  unfold setupArch
  dsimp only
  rw [if_pos hread, hsize, initrdEnd, initrdStart]

/-- An allocator that was not moved and an initrd that is not published. -/
theorem disabled_of_behind (hroom : pfnUp kend < highestPfn [r])
    (hbehind : bootmemStart kend hdr = pfnUp kend)
    (hnone : hdr.magic = inrdMagic → pfnPhys (highestPfn [r]) < initrdEnd kend hdr ∨
      HeaderCovered kend (highestPfn [r]) ∨ initrdStart kend = 0 ∧ initrdEnd kend hdr = 0) :
    InitrdDisabled kend (setupArch kend [r] hdr) := by
  by_cases hseen : SeenAgain kend (highestPfn [r]) hdr
  · rw [setupArch_of_seen hseen]
    split
    · exact ⟨rfl, rfl, hbehind, hbehind ▸ hroom⟩
    · next hram =>
      obtain hlarge | hcovered | ⟨hstart, hstop⟩ := hnone hseen.1
      · exact absurd hlarge hram
      · have hvisible := hseen.2
        rw [hbehind] at hvisible
        exact absurd hcovered hvisible
      · exact ⟨hstart, hstop, hbehind, hbehind ▸ hroom⟩
  · rw [setupArch_of_hidden hseen]
    exact ⟨rfl, rfl, hbehind, hbehind ▸ hroom⟩

/-- An initrd within the RAM is seen again, and its pages stay. -/
theorem kept_of_within (hmagic : hdr.magic = inrdMagic) (hstart : initrdStart kend ≠ 0)
    (horder : initrdStart kend ≤ initrdEnd kend hdr)
    (hram : initrdEnd kend hdr ≤ pfnPhys (highestPfn [r])) :
    InitrdKept kend (setupArch kend [r] hdr) := by
  have hend := initrdEnd_le_bootmemStart (highestPfn_lt [r]) hmagic hram
  have hphys := toNat_pfnPhys (bootmemStart_lt kend hdr)
  have hbehind := toNat_initrdStart hstart
  have hle := UInt32.le_iff_toNat_le.mp horder
  have hseen : SeenAgain kend (highestPfn [r]) hdr := by
    refine ⟨hmagic, fun hcovers => ?_⟩
    have hlow : (pfnPhys (bootmemStart kend hdr)).toNat ≤ (searchAddr kend).toNat := hcovers.1
    omega
  have hkept := (starts_bootmemBetween kend [r] hdr).reserve (searchAddr kend)
    (initrdEnd kend hdr - searchAddr kend + 8)
  rw [setupArch_of_seen hseen, if_neg (UInt32.not_lt.mpr hram)]
  refine ⟨hstart, horder, hram, fun page _ hpage => ?_⟩
  dsimp only at hpage ⊢
  refine ⟨hkept.below page (by omega), fun hholds => ?_⟩
  have hlow := hholds.1
  rw [hkept.mapStart] at hlow
  omega

end OneRegion

/-- **Which headers early memory setup takes.**  For every end of the kernel, every memory
map of one region and every two words at the place of the header. -/
theorem earlySetupRight_iff (kend : UInt32) (r : Region) (hdr : Header) :
    EarlySetupRight kend (setupArch kend [r] hdr) ↔ HeaderTaken kend (highestPfn [r]) hdr := by
  constructor
  · intro h
    by_cases hseen : SeenAgain kend (highestPfn [r]) hdr
    · rw [setupArch_of_seen hseen] at h
      by_cases hlarge : initrdEnd kend hdr > pfnPhys (highestPfn [r])
      · rw [if_pos hlarge] at h
        obtain ⟨-, -, hbehind, hroom⟩ | hkept := h
        · exact .inl ⟨hbehind ▸ hroom,
            .inr ⟨(bootmemStart_eq_iff hseen.1).mp hbehind, .inl hlarge⟩⟩
        · exact absurd rfl hkept.enabled
      · rw [if_neg hlarge] at h
        obtain ⟨hstart, hstop, hbehind, hroom⟩ | ⟨henabled, horder, hram, -⟩ := h
        · exact .inl ⟨hbehind ▸ hroom,
            .inr ⟨(bootmemStart_eq_iff hseen.1).mp hbehind, .inr (.inr ⟨hstart, hstop⟩)⟩⟩
        · exact .inr ⟨hseen.1, henabled, horder, hram⟩
    · rw [setupArch_of_hidden hseen] at h
      obtain ⟨-, -, hbehind, hroom⟩ | hkept := h
      · refine .inl ⟨hbehind ▸ hroom, ?_⟩
        by_cases hmagic : hdr.magic = inrdMagic
        · have hcovered := not_not.mp (not_and.mp hseen hmagic)
          dsimp only at hbehind
          rw [hbehind] at hcovered
          exact .inr ⟨(bootmemStart_eq_iff hmagic).mp hbehind, .inr (.inl hcovered)⟩
        · exact .inl hmagic
      · exact absurd rfl hkept.enabled
  · rintro (⟨hroom, habsent | ⟨hlow, hnone⟩⟩ | ⟨hmagic, hstart, horder, hram⟩)
    · exact .inl (disabled_of_behind hroom (bootmemStart_of_absent habsent)
        fun hmagic => absurd hmagic habsent)
    · refine .inl (disabled_of_behind hroom ?_ fun _ => hnone)
      by_cases hmagic : hdr.magic = inrdMagic
      · exact (bootmemStart_eq_iff hmagic).mpr hlow
      · exact bootmemStart_of_absent hmagic
    · exact .inr (kept_of_within hmagic hstart horder hram)

/-- A kernel that ends at physical `0x16acd0` in two megabytes of RAM, with a header that
announces two megabytes more: the initrd is disabled, and the allocator starts behind the RAM. -/
theorem not_earlySetupRight_oversized :
    ¬EarlySetupRight 0x16ACD0 (setupArch 0x16ACD0 [⟨0, 0x200000, .ram⟩] ⟨inrdMagic, 0x200000⟩) := by
  rintro (hdisabled | hkept)
  · exact absurd hdisabled.behind (by decide +kernel)
  · exact absurd hkept.enabled (by decide +kernel)

end Initrd
end Blackroo
