import Mathlib.Algebra.Order.Group.Nat
import Mathlib.Data.List.GetD
import Blackroo.Kloader.Pioflash

/-!
# The chips behind the port

`Pioflash.loadSerial_iff` leaves it to the device whether the report to the host is right.  This is
the device that `pioflash.c` is written for: a NOR flash with the command set of the AMD and SST
parts.  Commands are spelled by writes to two addresses, and while an operation goes on every read
returns a status in which bit 6 changes from one read to the next (`NorChip`).

What an operation does to a cell is a parameter (`Effect`).  In a sound chip an erase sets the bits
of the cell and a program can only clear bits.  In a worn chip some cells do not follow, and a ROM
leaves all cells as they are; bit 6 stops toggling all the same.

## When the report is right

A poll that succeeds has seen the end of the operation (`pollToggle_chip`), so that each
acknowledged command has had whatever effect it has on this chip (`perform_flashCommands`), and
the commands are acknowledged if the operations are over in time (`exists_perform_iff`).
`truthful_iff` puts them together: of an image that is reported as verified, each byte has to be
what its cell becomes by the erases of its sector and the one program.  None of this is looked at
by kloader.

For a sound chip the condition is about the size of the sectors only: if they are not smaller than
kloader thinks, every cell of the image is erased, and the report is right (`nor_flash_truthful`).
Of a smaller sector the tail would not be erased.
-/

namespace Blackroo
namespace Kloader
namespace Pioflash

/-! ## The chip -/

/-- How far a command has been spelled. -/
inductive Mode where
  | ready
  | unlock1
  | unlock2
  | program
  | erase
  | erase1
  | erase2
  deriving DecidableEq, Repr

/-- The part: the size of its sectors, and how many reads its operations last. -/
structure NorPart where
  sectorSize : Nat
  sectorSize_pos : 0 < sectorSize
  programTime : Nat
  eraseTime : Nat

/-- What the operations do to single cells: an erase to the cell at an address, and a program of a
byte to it. -/
structure Effect where
  erase : Nat → UInt8 → UInt8
  program : Nat → UInt8 → UInt8 → UInt8

namespace Effect

/-- An erase sets all bits, a program clears bits. -/
def sound : Effect := ⟨fun _ _ => 0xFF, fun _ x cell => cell &&& x⟩

/-- The cells stay as they are. -/
def none : Effect := ⟨fun _ cell => cell, fun _ _ cell => cell⟩

/-- What `pioflash_program_byte` does to a cell: `FF` is not programmed. -/
def store (effect : Effect) (addr : Nat) (x cell : UInt8) : UInt8 :=
  if x = 0xFF then cell else effect.program addr x cell

theorem store_sound (addr : Nat) (x cell : UInt8) : sound.store addr x cell = cell &&& x := by
  rw [store]
  split
  next h =>
    rw [h]
    exact UInt8.and_neg_one.symm
  next => rfl

end Effect

structure NorChip where
  cells : Nat → UInt8
  mode : Mode
  /-- the reads until the operation is over -/
  busy : Nat
  toggle : Bool

namespace NorPart

variable (part : NorPart)

/-- What an erase leaves. -/
def erased (effect : Effect) (addr : Nat) (cells : Nat → UInt8) : Nat → UInt8 :=
  fun a => if a / part.sectorSize = addr / part.sectorSize then effect.erase a (cells a)
    else cells a

/-- A write that the chip pays attention to. -/
def accept (effect : Effect) (addr : Nat) (x : UInt8) (s : NorChip) : NorChip :=
  match s.mode with
  | .ready => if addr = 0x5555 ∧ x = 0xAA then { s with mode := .unlock1 } else s
  | .unlock1 =>
    if addr = 0x2AAA ∧ x = 0x55 then { s with mode := .unlock2 } else { s with mode := .ready }
  | .unlock2 =>
    if addr = 0x5555 ∧ x = 0xA0 then { s with mode := .program }
    else if addr = 0x5555 ∧ x = 0x80 then { s with mode := .erase }
    else { s with mode := .ready }
  | .program =>
    { s with
      cells := Function.update s.cells addr (effect.program addr x (s.cells addr))
      mode := .ready
      busy := part.programTime }
  | .erase =>
    if addr = 0x5555 ∧ x = 0xAA then { s with mode := .erase1 } else { s with mode := .ready }
  | .erase1 =>
    if addr = 0x2AAA ∧ x = 0x55 then { s with mode := .erase2 } else { s with mode := .ready }
  | .erase2 =>
    if x = 0x30 then
      { s with cells := part.erased effect addr s.cells, mode := .ready, busy := part.eraseTime }
    else { s with mode := .ready }

/-- The status that is read while an operation goes on. -/
def status (toggle : Bool) : UInt8 := if toggle then 0x40 else 0

/-- The chip at the expansion port.  It is deaf while it is busy. -/
def deviceWith (effect : Effect) : Device NorChip where
  read addr s :=
    if s.busy = 0 then (s.cells addr, s)
    else (status s.toggle, { s with busy := s.busy - 1, toggle := !s.toggle })
  write addr x s := if s.busy = 0 then part.accept effect addr x s else s

/-- The chip in which all cells follow. -/
def device : Device NorChip := part.deviceWith .sound

/-- How often the load of an image of this size erases the sector of a cell. -/
def erasures (info : PioflashInfo) (size a : Nat) : Nat :=
  (List.range (sectors info size)).countP fun k =>
    a / part.sectorSize = k * info.sectorSize / part.sectorSize

end NorPart

/-- The chip waits for a command. -/
def NorChip.Idle (s : NorChip) : Prop := s.mode = .ready ∧ s.busy = 0

/-! ## Polling -/

section Poll

variable (part : NorPart) (effect : Effect)

theorem status_ne (toggle : Bool) :
    NorPart.status toggle &&& 0x40 ≠ NorPart.status (!toggle) &&& 0x40 := by
  cases toggle <;> decide

/-- A poll that succeeds has seen the end of the operation, and has changed nothing. -/
theorem pollLoop_chip {addr loops : Nat} {prev : UInt8} {s s' : NorChip}
    (hprev : s.busy ≠ 0 → prev = NorPart.status (!s.toggle) &&& 0x40)
    (h : pollLoop (part.deviceWith effect) addr loops prev s = (true, s')) :
    s.busy < loops ∧ s'.cells = s.cells ∧ s'.mode = s.mode ∧ s'.busy = 0 := by
  induction loops generalizing prev s with
  | zero => simp [pollLoop] at h
  | succ loops ih =>
    rw [pollLoop] at h
    by_cases hbusy : s.busy = 0
    · simp only [NorPart.deviceWith, hbusy, if_true] at h
      refine ⟨by omega, ?_⟩
      split at h
      · cases h
        exact ⟨rfl, rfl, hbusy⟩
      · exact (ih (fun hne => absurd hbusy hne) h).2
    · have hne : NorPart.status s.toggle &&& 0x40 ≠ prev := by
        rw [hprev hbusy]
        exact status_ne s.toggle
      simp only [NorPart.deviceWith, hbusy, if_false, if_neg hne] at h
      obtain ⟨hlt, hcells, hmode, hzero⟩ := ih (fun _ => by rw [Bool.not_not]) h
      exact ⟨by dsimp only at hlt; omega, hcells, hmode, hzero⟩

theorem pollToggle_chip {addr loops : Nat} {s s' : NorChip}
    (h : pollToggle (part.deviceWith effect) addr loops s = (true, s')) :
    s.busy ≤ loops ∧ s'.cells = s.cells ∧ s'.mode = s.mode ∧ s'.busy = 0 := by
  rw [pollToggle] at h
  by_cases hbusy : s.busy = 0
  · simp only [NorPart.deviceWith, hbusy, if_true] at h
    exact ⟨by omega, (pollLoop_chip part effect (fun hne => absurd hbusy hne) h).2⟩
  · simp only [NorPart.deviceWith, hbusy, if_false] at h
    obtain ⟨hlt, hcells, hmode, hzero⟩ := pollLoop_chip part effect
      (fun _ => by rw [Bool.not_not]) h
    exact ⟨by dsimp only at hlt; omega, hcells, hmode, hzero⟩

/-- A poll that is longer than the operation succeeds. -/
theorem pollLoop_ok {addr loops : Nat} {prev : UInt8} {s : NorChip} (h : s.busy + 2 ≤ loops) :
    ∃ s', pollLoop (part.deviceWith effect) addr loops prev s = (true, s') := by
  induction loops generalizing prev s with
  | zero => omega
  | succ loops ih =>
    by_cases hbusy : s.busy = 0
    -- Two reads of a cell agree.
    · obtain ⟨loops, rfl⟩ : ∃ l, loops = l + 1 := ⟨loops - 1, by omega⟩
      refine ⟨s, ?_⟩
      simp [pollLoop, NorPart.deviceWith, hbusy]
    · rw [pollLoop]
      simp only [NorPart.deviceWith, hbusy, if_false]
      split
      · exact ⟨_, rfl⟩
      · exact ih (by dsimp only; omega)

theorem pollToggle_ok {addr loops : Nat} {s : NorChip} (hloops : 2 ≤ loops) (h : s.busy < loops) :
    ∃ s', pollToggle (part.deviceWith effect) addr loops s = (true, s') := by
  rw [pollToggle]
  by_cases hbusy : s.busy = 0
  · simp only [NorPart.deviceWith, hbusy, if_true]
    exact pollLoop_ok part effect (by omega)
  · simp only [NorPart.deviceWith, hbusy, if_false]
    exact pollLoop_ok part effect (by dsimp only; omega)

end Poll

/-! ## The commands -/

section Commands

variable {part : NorPart} {effect : Effect} {s s' : NorChip}

/-- An acknowledged erase was over in time, and has had its effect on the sector. -/
theorem eraseSector_chip {addr : Nat} (hs : s.Idle)
    (h : eraseSector (part.deviceWith effect) addr s = (true, s')) :
    part.eraseTime ≤ 5000000 ∧ s'.Idle ∧ s'.cells = part.erased effect addr s.cells := by
  obtain ⟨cells, mode, busy, toggle⟩ := s
  obtain ⟨rfl, rfl⟩ : mode = .ready ∧ busy = 0 := hs
  obtain ⟨htime, hcells, hmode, hbusy⟩ := pollToggle_chip part effect h
  exact ⟨htime, ⟨hmode, hbusy⟩, hcells⟩

/-- An acknowledged program was over in time, and has had its effect on the cell. -/
theorem programByte_chip {addr : Nat} {x : UInt8} (hs : s.Idle)
    (h : programByte (part.deviceWith effect) addr x s = (true, s')) :
    (x ≠ 0xFF → part.programTime ≤ 500000) ∧ s'.Idle ∧
      s'.cells = Function.update s.cells addr (effect.store addr x (s.cells addr)) := by
  rw [programByte] at h
  by_cases hx : x = 0xFF
  · rw [if_pos hx] at h
    cases h
    rw [Effect.store, if_pos hx, Function.update_eq_self]
    exact ⟨fun hne => absurd hx hne, hs, rfl⟩
  · rw [if_neg hx] at h
    obtain ⟨cells, mode, busy, toggle⟩ := s
    obtain ⟨rfl, rfl⟩ : mode = .ready ∧ busy = 0 := hs
    obtain ⟨htime, hcells, hmode, hbusy⟩ := pollToggle_chip part effect h
    rw [Effect.store, if_neg hx]
    exact ⟨fun _ => htime, ⟨hmode, hbusy⟩, hcells⟩

/-- Acknowledged erases have had their effect on all cells of their sectors. -/
theorem perform_erases {addrs : List Nat} (hs : s.Idle)
    (h : perform (part.deviceWith effect) (addrs.map .erase) s = some s') :
    (addrs ≠ [] → part.eraseTime ≤ 5000000) ∧ s'.Idle ∧ ∀ a, s'.cells a =
      (effect.erase a)^[addrs.countP fun addr => a / part.sectorSize = addr / part.sectorSize]
        (s.cells a) := by
  induction addrs generalizing s with
  | nil =>
    cases h
    exact ⟨fun hne => absurd rfl hne, hs, fun a => rfl⟩
  | cons addr addrs ih =>
    rw [List.map_cons, perform, Command.issue] at h
    rcases hissue : eraseSector (part.deviceWith effect) addr s with ⟨ok, s₁⟩
    rw [hissue] at h
    cases ok with
    | false => cases h
    | true =>
      obtain ⟨htime, hs₁, hcells₁⟩ := eraseSector_chip hs hissue
      obtain ⟨-, hs', hcells'⟩ := ih hs₁ h
      refine ⟨fun _ => htime, hs', fun a => ?_⟩
      rw [hcells', hcells₁, NorPart.erased, List.countP_cons]
      by_cases hsame : a / part.sectorSize = addr / part.sectorSize
      · rw [if_pos hsame, if_pos (decide_eq_true hsame), Function.iterate_succ_apply]
      · rw [if_neg hsame, if_neg (by simpa using hsame), Nat.add_zero]

/-- Acknowledged programs have had their effect on their cells, and on no others. -/
theorem perform_programs {i : Nat} {xs : List UInt8} (hs : s.Idle)
    (h : perform (part.deviceWith effect) (programCommands i xs) s = some s') :
    ((∃ x ∈ xs, x ≠ 0xFF) → part.programTime ≤ 500000) ∧ s'.Idle ∧ ∀ a, s'.cells a =
      if i ≤ a ∧ a < i + xs.length then effect.store a (xs.getD (a - i) 0) (s.cells a)
      else s.cells a := by
  induction xs generalizing i s with
  | nil =>
    cases h
    refine ⟨by simp, hs, fun a => ?_⟩
    rw [if_neg (by simp)]
  | cons x xs ih =>
    rw [programCommands, perform, Command.issue] at h
    rcases hissue : programByte (part.deviceWith effect) i x s with ⟨ok, s₁⟩
    rw [hissue] at h
    cases ok with
    | false => cases h
    | true =>
      obtain ⟨htime, hs₁, hcells₁⟩ := programByte_chip hs hissue
      obtain ⟨htimes, hs', hcells'⟩ := ih hs₁ h
      refine ⟨?_, hs', fun a => ?_⟩
      · rintro ⟨y, hy, hne⟩
        rcases List.mem_cons.mp hy with rfl | hy
        · exact htime hne
        · exact htimes ⟨y, hy, hne⟩
      rw [hcells', hcells₁, List.length_cons]
      rcases Nat.lt_trichotomy a i with hlt | rfl | hgt
      · rw [if_neg (by omega), if_neg (by omega), Function.update_of_ne (by omega)]
      · rw [if_neg (by omega), if_pos (by omega), Function.update_self, Nat.sub_self]
        rfl
      · have hsub : a - i = a - (i + 1) + 1 := by omega
        rw [Function.update_of_ne (by omega), hsub, List.getD_cons_succ]
        by_cases hin : a < i + 1 + xs.length
        · rw [if_pos ⟨hgt, hin⟩, if_pos (by omega)]
        · rw [if_neg (by omega), if_neg (by omega)]

theorem readBack_chip (part : NorPart) (effect : Effect) {s : NorChip} (hs : s.Idle) (n i : Nat) :
    readBack (part.deviceWith effect) n i s = (List.range' i n).map s.cells := by
  induction n generalizing i with
  | zero => rfl
  | succ n ih =>
    rw [readBack, List.range'_succ, List.map_cons]
    simp only [NorPart.deviceWith, hs.2, if_true]
    exact congrArg _ (ih (i + 1))

/-- The chip reads as the image if its cells hold it. -/
theorem readBack_eq_iff (part : NorPart) (effect : Effect) {s : NorChip} (hs : s.Idle)
    (data : List UInt8) :
    readBack (part.deviceWith effect) data.length 0 s = data ↔
      ∀ a < data.length, s.cells a = data.getD a 0 := by
  rw [readBack_chip part effect hs, List.ext_getElem_iff]
  simp only [List.length_map, List.length_range', List.getElem_map, List.getElem_range',
    Nat.one_mul,
    Nat.zero_add, true_and]
  constructor
  · intro h a ha
    rw [h a ha ha, List.getD_eq_getElem _ _ ha]
  · intro h a ha _
    rw [h a ha, List.getD_eq_getElem _ _ ha]

/-- **What an acknowledged load leaves in the cells**: what the erases of its sector and the program
of its byte make of each. -/
theorem perform_flashCommands {info : PioflashInfo} {data : List UInt8} (hs : s.Idle)
    (h : perform (part.deviceWith effect) (flashCommands info data) s = some s') :
    s'.Idle ∧ ∀ a, s'.cells a =
      if a < data.length then
        effect.store a (data.getD a 0)
          ((effect.erase a)^[part.erasures info data.length a] (s.cells a))
      else (effect.erase a)^[part.erasures info data.length a] (s.cells a) := by
  rw [flashCommands, perform_append] at h
  obtain ⟨s₁, herase, hprogram⟩ := Option.bind_eq_some_iff.mp h
  rw [eraseCommands_eq] at herase
  obtain ⟨-, hs₁, hcells₁⟩ := perform_erases hs herase
  obtain ⟨-, hs', hcells⟩ := perform_programs hs₁ hprogram
  refine ⟨hs', fun a => ?_⟩
  rw [hcells, hcells₁, List.countP_map, Nat.zero_add, Nat.sub_zero]
  simp only [Nat.zero_le, true_and]
  rfl

/-- The operations that the load of this image needs are over while kloader still polls. -/
structure NorPart.InTime (part : NorPart) (data : List UInt8) : Prop where
  erase : part.eraseTime < 5000000
  program : (∃ x ∈ data, x ≠ 0xFF) → part.programTime < 500000

theorem issue_ok {data : List UInt8} (htime : part.InTime data) (hs : s.Idle) {c : Command}
    (hc : ∀ addr x, c = .program addr x → x ∈ data) :
    ∃ s', c.issue (part.deviceWith effect) s = (true, s') ∧ s'.Idle := by
  have hidle := hs
  obtain ⟨cells, mode, busy, toggle⟩ := s
  obtain ⟨rfl, rfl⟩ : mode = .ready ∧ busy = 0 := hs
  cases c with
  | erase addr =>
    obtain ⟨s', hs'⟩ : ∃ s', eraseSector (part.deviceWith effect) addr
        ⟨cells, .ready, 0, toggle⟩ = (true, s') :=
      pollToggle_ok part effect (by decide) htime.erase
    exact ⟨s', hs', (eraseSector_chip hidle hs').2.1⟩
  | program addr x =>
    obtain ⟨s', hs'⟩ : ∃ s', programByte (part.deviceWith effect) addr x
        ⟨cells, .ready, 0, toggle⟩ = (true, s') := by
      rw [programByte]
      split
      next => exact ⟨_, rfl⟩
      next hx =>
        exact pollToggle_ok part effect (by decide) (htime.program ⟨x, hc addr x rfl, hx⟩)
    exact ⟨s', hs', (programByte_chip hidle hs').2.1⟩

theorem perform_ok {data : List UInt8} (htime : part.InTime data) (hs : s.Idle) {cs : List Command}
    (hcs : ∀ addr x, .program addr x ∈ cs → x ∈ data) :
    ∃ s', perform (part.deviceWith effect) cs s = some s' := by
  induction cs generalizing s with
  | nil => exact ⟨s, rfl⟩
  | cons c cs ih =>
    obtain ⟨s₁, hissue, hs₁⟩ := issue_ok htime hs fun addr x hc =>
      hcs addr x (hc ▸ List.mem_cons_self)
    obtain ⟨s', hs'⟩ := ih hs₁ fun addr x hmem => hcs addr x (List.mem_cons_of_mem c hmem)
    refine ⟨s', ?_⟩
    rw [perform, hissue]
    exact hs'

variable (effect) in
/-- **When all commands are acknowledged**: exactly if the operations are over in time, but for an
operation that ends with the last read of a poll, where it depends on the phase of bit 6. -/
theorem exists_perform_iff (herase : part.eraseTime ≠ 5000000)
    (hprogram : part.programTime ≠ 500000) {info : PioflashInfo} {data : List UInt8}
    (hdata : data ≠ []) (hs : s.Idle) :
    (∃ s', perform (part.deviceWith effect) (flashCommands info data) s = some s') ↔
      part.InTime data := by
  constructor
  · rintro ⟨s', h⟩
    rw [flashCommands, perform_append] at h
    obtain ⟨s₁, h₁, h₂⟩ := Option.bind_eq_some_iff.mp h
    rw [eraseCommands_eq] at h₁
    obtain ⟨htime, hs₁, -⟩ := perform_erases hs h₁
    obtain ⟨htimes, -⟩ := perform_programs hs₁ h₂
    -- The first sector is erased for every image.
    have hsectors : 0 < sectors info data.length := by
      rw [lt_sectors_iff, Nat.zero_mul]
      exact List.length_pos_iff.mpr hdata
    have hne : (List.range (sectors info data.length)).map (· * info.sectorSize) ≠ [] := by
      simpa using hsectors.ne'
    exact ⟨lt_of_le_of_ne (htime hne) herase, fun hx => lt_of_le_of_ne (htimes hx) hprogram⟩
  · intro htime
    exact perform_ok htime hs fun addr x hmem => mem_of_program_mem hmem

end Commands

/-! ## The report -/

/-- A part with sectors of four bytes. -/
def smallPart : NorPart := ⟨4, by decide, 1, 1⟩

def smallInfo : PioflashInfo := ⟨4, 4, by decide, by decide⟩

/-- The chip is worn: its cell 1 can be erased and not programmed. -/
def worn : Effect := ⟨fun _ _ => 0xFF, fun addr x cell => if addr = 1 then cell else cell &&& x⟩

/-- A ROM: the cells stay as they are, and nothing takes any time. -/
def rom : NorPart := ⟨1, by decide, 0, 0⟩

/-- No write changes what the reads of a ROM return. -/
theorem rom_write (addr : Nat) (x : UInt8) {s : NorChip} (hs : s.busy = 0) :
    ((rom.deviceWith .none).write addr x s).busy = 0 ∧
      ((rom.deviceWith .none).write addr x s).cells = s.cells := by
  have hprogram : Effect.none.program addr x (s.cells addr) = s.cells addr := rfl
  have htimes : rom.programTime = 0 ∧ rom.eraseTime = 0 := ⟨rfl, rfl⟩
  have herase : rom.erased .none addr s.cells = s.cells := funext fun a => by
    rw [NorPart.erased]
    exact ite_self _
  simp only [NorPart.deviceWith, hs, if_true, NorPart.accept]
  repeat' split
  all_goals simp [hs, hprogram, herase, htimes]

section Sound

variable {part : NorPart}

/-- The sector of every cell of the image is erased, if it is not smaller than kloader thinks. -/
theorem erasures_pos {info : PioflashInfo} (hsector : info.sectorSize ∣ part.sectorSize)
    {size a : Nat} (ha : a < size) : 0 < part.erasures info size a := by
  obtain ⟨c, hc⟩ := hsector
  -- the sector begins at a multiple of the smaller size
  have hstart : a / part.sectorSize * c * info.sectorSize =
    a / part.sectorSize * part.sectorSize := by
    rw [hc, Nat.mul_comm info.sectorSize, Nat.mul_assoc]
  refine List.countP_pos_iff.mpr ⟨a / part.sectorSize * c, ?_, ?_⟩
  · rw [List.mem_range, lt_sectors_iff, hstart]
    exact (Nat.div_mul_le_self a part.sectorSize).trans_lt ha
  · rw [hstart, Nat.mul_div_cancel _ part.sectorSize_pos]
    exact decide_eq_true rfl

/-- A sector that has no cell of the image is not erased. -/
theorem erasures_eq_zero {info : PioflashInfo} {size a : Nat}
    (ha : ∀ b < size, a / part.sectorSize ≠ b / part.sectorSize) :
    part.erasures info size a = 0 := by
  refine List.countP_eq_zero.mpr fun k hk heq => ?_
  exact ha _ ((lt_sectors_iff info size k).mp (List.mem_range.mp hk)) (of_decide_eq_true heq)

/-- An erased cell of a sound chip takes any byte. -/
theorem store_erased {info : PioflashInfo} (hsector : info.sectorSize ∣ part.sectorSize)
    {size a : Nat} (ha : a < size) (x cell : UInt8) :
    Effect.sound.store a x ((Effect.sound.erase a)^[part.erasures info size a] cell) = x := by
  obtain ⟨n, hn⟩ := Nat.exists_eq_succ_of_ne_zero (erasures_pos hsector ha).ne'
  rw [hn, Function.iterate_succ_apply', Effect.store_sound]
  exact UInt8.neg_one_and

/-- **The report is right for a NOR flash** that waits for a command, whose sectors are as large as
kloader takes them to be, or a multiple of that. -/
theorem nor_flash_truthful (part : NorPart) (info : PioflashInfo)
    (hsector : info.sectorSize ∣ part.sectorSize) (data : List UInt8) (arrived : Nat) {s : NorChip}
    (hs : s.Idle) : Truthful part.device info data arrived s := by
  rw [truthful_iff_perform]
  intro _ s' hperform
  obtain ⟨hs', hcells⟩ := perform_flashCommands hs hperform
  refine (readBack_eq_iff part .sound hs' data).mpr fun a ha => ?_
  rw [hcells, if_pos ha, store_erased hsector ha]

end Sound

end Pioflash
end Kloader
end Blackroo
