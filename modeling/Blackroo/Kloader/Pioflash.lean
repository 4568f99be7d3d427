import Blackroo.Lib.LittleEndian

/-!
# Programming a cartridge over the serial line

`pioflash_load_serial` takes an image from the host, erases the sectors it needs and programs the
bytes as they come, each step with `flash_poll_toggle`.  Then it sends `V`, which `cmd_flash_load`
on the host reports as a verified flash.

What the poll looks at is whether bit 6 has stopped toggling.  That tells an operation that is over
from one that is not; it does not tell an operation that has worked from one that has not, and a
ROM, which never toggles, passes every poll at once.  There is nothing else: the comment says
`Re-read and send ACK byte`, and the code sends the byte.

The device is arbitrary here (`Device`): reading may change it, and writing may do anything.  What
kloader does to it is a list of commands (`flashCommands`), and `loadSerial_iff` says that `V` is
sent exactly if the image fits, all of it arrives, and every command is acknowledged.
`truthful_iff_perform` draws the conclusion: the report is right exactly for devices on which the
acknowledged commands have stored the image.  Which chips those are is the subject of
`Kloader.NorFlash`.
-/

namespace Blackroo
namespace Kloader

open LittleEndian

/-! ## The device -/

/-- What is plugged into the expansion port, with states `S`. -/
structure Device (S : Type) where
  read : Nat → S → UInt8 × S
  write : Nat → UInt8 → S → S

/-- What `pioflash_detect` finds out about it. -/
structure PioflashInfo where
  size : Nat
  sectorSize : Nat
  sectorSize_pos : 0 < sectorSize
  in_range : size + sectorSize ≤ 2 ^ 32
  deriving DecidableEq, Repr

namespace Pioflash

/-- `known_chips`: the two identifiers, the size and the size of a sector. -/
def knownChips : List (UInt8 × UInt8 × PioflashInfo) :=
  [(0xBF, 0xB5, ⟨128 * 1024, 4096, by decide, by decide⟩),
    (0xBF, 0xB6, ⟨256 * 1024, 4096, by decide, by decide⟩),
    (0xBF, 0xB7, ⟨512 * 1024, 4096, by decide, by decide⟩),
    (0xBF, 0x10, ⟨256 * 1024, 128, by decide, by decide⟩),
    (0xBF, 0x04, ⟨512 * 1024, 256, by decide, by decide⟩),
    (0x01, 0x20, ⟨128 * 1024, 16384, by decide, by decide⟩),
    (0x01, 0xB0, ⟨256 * 1024, 16384, by decide, by decide⟩),
    (0x01, 0xA4, ⟨512 * 1024, 65536, by decide, by decide⟩),
    (0x01, 0xD5, ⟨1024 * 1024, 65536, by decide, by decide⟩),
    (0xDA, 0x45, ⟨256 * 1024, 128, by decide, by decide⟩),
    (0xDA, 0x46, ⟨512 * 1024, 256, by decide, by decide⟩),
    (0x1F, 0xDA, ⟨256 * 1024, 256, by decide, by decide⟩),
    (0x1F, 0x5D, ⟨512 * 1024, 512, by decide, by decide⟩),
    (0xC2, 0xB0, ⟨256 * 1024, 16384, by decide, by decide⟩),
    (0xC2, 0xA4, ⟨512 * 1024, 65536, by decide, by decide⟩)]

/-- What is assumed of a chip that does not say what it is. -/
def defaultInfo : PioflashInfo := ⟨256 * 1024, 4096, by decide, by decide⟩

def lookupChip (mfr dev : UInt8) : Option PioflashInfo :=
  (knownChips.find? fun c => c.1 = mfr ∧ c.2.1 = dev).map fun c => c.2.2

variable {S : Type} (dev : Device S)

/-- `flash_unlock`. -/
def unlock (s : S) : S := dev.write 0x2AAA 0x55 (dev.write 0x5555 0xAA s)

/-- `flash_reset`. -/
def reset (s : S) : S := dev.write 0 0xF0 s

/-- `pioflash_detect`. -/
def detect (s : S) : Option PioflashInfo × S :=
  let (byte0, s) := dev.read 0 s
  if byte0 = 0xFF then (none, s)
  else
    let s := dev.write 0x5555 0x90 (unlock dev s)
    let (mfr, s) := dev.read 0 s
    let (device, s) := dev.read 1 s
    let s := reset dev s
    if mfr = 0xFF ∧ device = 0xFF then (some defaultInfo, s)
    else if mfr = byte0 then
      -- the cell behind the identifier is read only if the first one agrees
      let (byte1, s) := dev.read 1 s
      if device = byte1 then (some defaultInfo, s)
      else (some ((lookupChip mfr device).getD defaultInfo), s)
    else (some ((lookupChip mfr device).getD defaultInfo), s)

/-- The loop of `flash_poll_toggle`. -/
def pollLoop (addr : Nat) : Nat → UInt8 → S → Bool × S
  | 0, _, s => (false, reset dev s)
  | loops + 1, prev, s =>
    let (b, s) := dev.read addr s
    if b &&& 0x40 = prev then (true, s) else pollLoop addr loops (b &&& 0x40) s

/-- `flash_poll_toggle`. -/
def pollToggle (addr loops : Nat) (s : S) : Bool × S :=
  let (b, s) := dev.read addr s
  pollLoop dev addr loops (b &&& 0x40) s

/-- `pioflash_erase_sector`. -/
def eraseSector (addr : Nat) (s : S) : Bool × S :=
  let s := dev.write 0x5555 0x80 (unlock dev s)
  let s := dev.write addr 0x30 (unlock dev s)
  pollToggle dev addr 5000000 s

/-- `pioflash_program_byte`. -/
def programByte (offset : Nat) (x : UInt8) (s : S) : Bool × S :=
  if x = 0xFF then (true, s)
  else
    let s := dev.write 0x5555 0xA0 (unlock dev s)
    let s := dev.write offset x s
    pollToggle dev offset 500000 s

/-! ## `pioflash_load_serial` -/

/-- `PIOFLASH_MAGIC`. -/
def magic : UInt32 := 0x4C464B42

/-- The loop over the sectors. -/
def eraseLoop (info : PioflashInfo) (size : Nat) : Nat → Nat → S → Bool × S
  | 0, _, s => (true, s)
  | turns + 1, addr, s =>
    if addr < size then
      match eraseSector dev addr s with
      | (false, s) => (false, s)
      | (true, s) => eraseLoop info size turns (addr + info.sectorSize) s
    else (true, s)

/-- The loop over the bytes of the image: `n` are to come, the first of them for address `i`. -/
def programLoop : Nat → Nat → List UInt8 → S → Bool × S
  | 0, _, _, s => (true, s)
  | _ + 1, _, [], s => (false, s)
  | n + 1, i, x :: input, s =>
    match programByte dev i x s with
    | (false, s) => (false, s)
    | (true, s) => programLoop n (i + 1) input s

/-- What the function returns, what it has sent, and the device it leaves. -/
structure Loaded (S : Type) where
  ok : Bool
  sent : List UInt8
  device : S

/-- `pioflash_load_serial`.  The input is what arrives in time: `serial_getchar` gives up after the
last byte of it. -/
def loadSerial (info : PioflashInfo) (input : List UInt8) (s : S) : Loaded S :=
  if input.length < 16 then ⟨false, [], s⟩
  else if get32 input 0 ≠ magic then ⟨false, [], s⟩
  else
    let size := (get32 input 4).toNat
    if size > info.size then ⟨false, [], s⟩
    else if size = 0 then ⟨false, [], s⟩
    else
      -- a turn goes on by at least one address, so there are no more turns than addresses
      match eraseLoop dev info size size 0 s with
      | (false, s) => ⟨false, [], s⟩
      | (true, s) =>
        match programLoop dev size 0 (input.drop 16) s with
        | (false, s) => ⟨false, [], s⟩
        | (true, s) => ⟨true, [0x56], s⟩

/-! ## `cmd_flash_load` -/

/-- What the host sends.  `struct.pack` raises an error for a size of more than 32 bits. -/
def flashLoadBytes (data : List UInt8) : Option (List UInt8) :=
  if data.length < 2 ^ 32 then
    some (bytes32 magic ++ bytes32 (UInt32.ofNat data.length) ++ [0, 0] ++ List.replicate 6 0 ++
      data)
  else none

inductive Verdict where
  | verified
  | unexpected (b : UInt8)
  | timeout
  deriving DecidableEq, Repr

/-- What the host makes of the answer. -/
def verdict : List UInt8 → Verdict
  | [] => .timeout
  | b :: _ => if b = 0x56 then .verified else .unexpected b

/-! ## The commands -/

/-- What kloader asks the device to do. -/
inductive Command where
  | erase (addr : Nat)
  | program (addr : Nat) (x : UInt8)
  deriving DecidableEq, Repr

def Command.issue : Command → S → Bool × S
  | .erase addr, s => eraseSector dev addr s
  | .program addr x, s => programByte dev addr x s

/-- Commands issued one after the other, up to the first that is not acknowledged. -/
def perform : List Command → S → Option S
  | [], s => some s
  | c :: cs, s =>
    match c.issue dev s with
    | (false, _) => none
    | (true, s) => perform cs s

theorem perform_append (cs cs' : List Command) (s : S) :
    perform dev (cs ++ cs') s = (perform dev cs s).bind (perform dev cs') := by
  induction cs generalizing s with
  | nil => rfl
  | cons c cs ih =>
    rw [List.cons_append, perform, perform]
    split
    · rfl
    · exact ih _

/-- The sectors that an image of this size touches. -/
def sectors (info : PioflashInfo) (size : Nat) : Nat :=
  (size + info.sectorSize - 1) / info.sectorSize

def eraseCommands (info : PioflashInfo) (size : Nat) : List Command :=
  (List.range (sectors info size)).map fun k => .erase (k * info.sectorSize)

/-- The commands for bytes from address `i` on. -/
def programCommands : Nat → List UInt8 → List Command
  | _, [] => []
  | i, x :: xs => .program i x :: programCommands (i + 1) xs

def flashCommands (info : PioflashInfo) (data : List UInt8) : List Command :=
  eraseCommands info data.length ++ programCommands 0 data

variable {dev}

theorem eraseCommands_eq (info : PioflashInfo) (size : Nat) :
    eraseCommands info size =
      ((List.range (sectors info size)).map (· * info.sectorSize)).map .erase := by
  rw [eraseCommands, List.map_map]
  rfl

/-- What is programmed is a byte of the image. -/
theorem mem_of_program_mem {info : PioflashInfo} {data : List UInt8} {addr : Nat} {x : UInt8}
    (h : .program addr x ∈ flashCommands info data) : x ∈ data := by
  have hprogram : ∀ (i : Nat) (xs : List UInt8), .program addr x ∈ programCommands i xs →
    x ∈ xs := by
    intro i xs
    induction xs generalizing i with
    | nil => simp [programCommands]
    | cons y xs ih =>
      intro hmem
      rcases List.mem_cons.mp hmem with heq | hmem
      · cases heq
        exact List.mem_cons_self
      · exact List.mem_cons_of_mem y (ih (i + 1) hmem)
  rcases List.mem_append.mp h with herase | hmem
  · simp [eraseCommands] at herase
  · exact hprogram 0 data hmem

theorem lt_sectors_iff (info : PioflashInfo) (size k : Nat) :
    k < sectors info size ↔ k * info.sectorSize < size := by
  have hpos := info.sectorSize_pos
  rw [sectors, Nat.lt_iff_add_one_le, Nat.le_div_iff_mul_le hpos, Nat.add_one_mul]
  omega

/-- The loop over the sectors issues their commands. -/
theorem eraseLoop_eq_true_iff {info : PioflashInfo} {size turns k : Nat} {s s' : S}
    (hturns : size ≤ turns + k * info.sectorSize) :
    eraseLoop dev info size turns (k * info.sectorSize) s = (true, s') ↔
      perform dev ((List.range' k (sectors info size - k)).map fun k =>
        .erase (k * info.sectorSize)) s = some s' := by
  have hpos := info.sectorSize_pos
  have hlt := lt_sectors_iff info size k
  induction turns generalizing k s with
  | zero =>
    have hk : sectors info size - k = 0 := by omega
    rw [hk]
    simp [eraseLoop, perform]
  | succ turns ih =>
    rw [eraseLoop]
    by_cases hmore : k * info.sectorSize < size
    · have hk : sectors info size - k = sectors info size - (k + 1) + 1 := by omega
      have hnext : k * info.sectorSize + info.sectorSize = (k + 1) * info.sectorSize := by
        rw [Nat.add_one_mul]
      rw [if_pos hmore, hk, List.range'_succ, List.map_cons, perform, Command.issue]
      rcases eraseSector dev (k * info.sectorSize) s with ⟨ok, s₁⟩
      cases ok with
      | false => simp
      | true =>
        dsimp only
        rw [hnext]
        exact ih (by rw [Nat.add_one_mul]; omega) (lt_sectors_iff info size (k + 1))
    · have hk : sectors info size - k = 0 := by omega
      rw [if_neg hmore, hk]
      simp [perform]

/-- The loop over the image issues its commands, if it comes. -/
theorem programLoop_eq_true_iff {n i : Nat} {input : List UInt8} {s s' : S} :
    programLoop dev n i input s = (true, s') ↔
      n ≤ input.length ∧ perform dev (programCommands i (input.take n)) s = some s' := by
  induction n generalizing i input s with
  | zero => simp [programLoop, programCommands, perform]
  | succ n ih =>
    cases input with
    | nil => simp [programLoop]
    | cons x input =>
      rw [programLoop, List.take_succ_cons, programCommands, perform, Command.issue,
        List.length_cons, Nat.succ_le_succ_iff]
      rcases programByte dev i x s with ⟨ok, s₁⟩
      cases ok with
      | false => simp
      | true => exact ih

/-! ## The answer -/

/-- The image fits, and all of it arrives. -/
structure Accepted (info : PioflashInfo) (data : List UInt8) (arrived : Nat) : Prop where
  nonempty : data ≠ []
  fits : data.length ≤ info.size
  complete : 16 + data.length ≤ arrived

theorem Accepted.flashLoadBytes_eq {info : PioflashInfo} {data : List UInt8} {arrived : Nat}
    (h : Accepted info data arrived) :
    flashLoadBytes data = some (bytes32 magic ++ bytes32 (UInt32.ofNat data.length) ++ [0, 0] ++
      List.replicate 6 0 ++ data) := by
  have hfits := h.fits
  have hpos := info.sectorSize_pos
  have hrange := info.in_range
  exact if_pos (by omega)

/-- What kloader reads of what the host sends: the header, and the image behind it. -/
structure Heard (data : List UInt8) (arrived : Nat) (input : List UInt8) : Prop where
  length_eq : input.length = min arrived (16 + data.length)
  magic_eq : 16 ≤ arrived → get32 input 0 = magic
  size_eq : 16 ≤ arrived → (get32 input 4).toNat = data.length
  image_eq : input.drop 16 = data.take (arrived - 16)

theorem heard_of_flashLoadBytes {data bytes : List UInt8} (h : flashLoadBytes data = some bytes)
    (arrived : Nat) : Heard data arrived (bytes.take arrived) := by
  rw [flashLoadBytes] at h
  by_cases hlen : data.length < 2 ^ 32
  · rw [if_pos hlen] at h
    obtain rfl := Option.some.inj h
    set hdr := bytes32 magic ++ bytes32 (UInt32.ofNat data.length) ++ [0, 0] ++ List.replicate 6 0
      with hhdr
    have hhdrlen : hdr.length = 16 := rfl
    -- a header that has arrived is the beginning of what is read
    have htake : 16 ≤ arrived → (hdr ++ data).take arrived = hdr ++ data.take (arrived - 16) := by
      intro harrived
      rw [List.take_append, hhdrlen, List.take_of_length_le (by omega)]
    refine ⟨?_, ?_, ?_, ?_⟩
    · rw [List.length_take, List.length_append, hhdrlen]
    · intro harrived
      rw [htake harrived, hhdr]
      simp only [List.append_assoc]
      exact get32_bytes32_append _ _
    · intro harrived
      rw [htake harrived, hhdr]
      simp only [List.append_assoc]
      rw [get32_append_right (Nat.le_refl 4), length_bytes32, Nat.sub_self, get32_bytes32_append,
        UInt32.toNat_ofNat_of_lt' hlen]
    · rw [List.drop_take, List.drop_left' hhdrlen]
  · rw [if_neg hlen] at h
    cases h

/-- The two loops on the image, as the commands that they issue. -/
theorem erase_image_iff (dev : Device S) (info : PioflashInfo) (data : List UInt8) (s s' : S) :
    eraseLoop dev info data.length data.length 0 s = (true, s') ↔
      perform dev (eraseCommands info data.length) s = some s' := by
  have h : eraseLoop dev info data.length data.length (0 * info.sectorSize) s = (true, s') ↔ _ :=
    eraseLoop_eq_true_iff (Nat.le_add_right _ _)
  rwa [Nat.zero_mul, Nat.sub_zero, ← List.range_eq_range'] at h

theorem Heard.program_image_iff {data input : List UInt8} {arrived : Nat}
    (h : Heard data arrived input) (harrived : 16 ≤ arrived) (dev : Device S) (s s' : S) :
    programLoop dev data.length 0 (input.drop 16) s = (true, s') ↔
      16 + data.length ≤ arrived ∧ perform dev (programCommands 0 data) s = some s' := by
  rw [programLoop_eq_true_iff, h.image_eq, List.length_take]
  constructor
  · rintro ⟨hle, hperform⟩
    rw [List.take_take, List.take_of_length_le (by omega)] at hperform
    exact ⟨by omega, hperform⟩
  · rintro ⟨hle, hperform⟩
    rw [List.take_take, List.take_of_length_le (by omega)]
    exact ⟨by omega, hperform⟩

/-- **When `V` is sent**: exactly if the image fits, all of it arrives, and every command is
acknowledged. -/
theorem loadSerial_iff {info : PioflashInfo} {data bytes : List UInt8}
    (h : flashLoadBytes data = some bytes) (arrived : Nat) (s s' : S) :
    ((loadSerial dev info (bytes.take arrived) s).sent = [0x56] ∧
        (loadSerial dev info (bytes.take arrived) s).device = s') ↔
      Accepted info data arrived ∧ perform dev (flashCommands info data) s = some s' := by
  have hheard := heard_of_flashLoadBytes h arrived
  generalize bytes.take arrived = input at hheard
  have hlen := hheard.length_eq
  have herase := erase_image_iff dev info data s
  rw [loadSerial, flashCommands, perform_append]
  by_cases hshort : input.length < 16
  · rw [if_pos hshort]
    refine iff_of_false (by simp) ?_
    rintro ⟨⟨-, -, hcomplete⟩, -⟩
    omega
  have harrived : 16 ≤ arrived := by omega
  rw [if_neg hshort, hheard.magic_eq harrived, if_neg (not_not.mpr rfl)]
  dsimp only
  rw [hheard.size_eq harrived]
  by_cases hfits : data.length > info.size
  · rw [if_pos hfits]
    exact iff_of_false (by simp) fun h => absurd h.1.fits (Nat.not_le.mpr hfits)
  rw [if_neg hfits]
  by_cases hempty : data.length = 0
  · rw [if_pos hempty]
    exact iff_of_false (by simp) fun h => h.1.nonempty (List.length_eq_zero_iff.mp hempty)
  rw [if_neg hempty]
  rcases hloop : eraseLoop dev info data.length data.length 0 s with ⟨ok, s₁⟩
  rw [hloop] at herase
  cases ok with
  | false =>
    refine iff_of_false (by simp) ?_
    rintro ⟨-, hperform⟩
    obtain ⟨s₂, hs₂, -⟩ := Option.bind_eq_some_iff.mp hperform
    exact absurd ((herase s₂).mpr hs₂) (by simp)
  | true =>
    rw [(herase s₁).mp rfl, Option.bind_some]
    have hprogram := hheard.program_image_iff harrived dev s₁
    dsimp only
    rcases hloop' : programLoop dev data.length 0 (input.drop 16) s₁ with ⟨ok, s₂⟩
    rw [hloop'] at hprogram
    cases ok with
    | false =>
      refine iff_of_false (by simp) ?_
      rintro ⟨⟨-, -, hcomplete⟩, hperform⟩
      exact absurd ((hprogram s').mpr ⟨hcomplete, hperform⟩) (by simp)
    | true =>
      have hs' : (true, s₂) = (true, s') ↔ s₂ = s' := by simp
      dsimp only
      rw [and_iff_right rfl, ← hs', hprogram s']
      constructor
      · rintro ⟨hcomplete, hperform⟩
        exact ⟨⟨mt List.length_eq_zero_iff.mpr hempty, Nat.not_lt.mp hfits, hcomplete⟩, hperform⟩
      · rintro ⟨haccepted, hperform⟩
        exact ⟨haccepted.complete, hperform⟩

theorem sent_loadSerial (dev : Device S) (info : PioflashInfo) (input : List UInt8) (s : S) :
    (loadSerial dev info input s).sent = [] ∨ (loadSerial dev info input s).sent = [0x56] := by
  unfold loadSerial
  dsimp only
  repeat' split
  all_goals simp

theorem verdict_loadSerial_iff (dev : Device S) (info : PioflashInfo) (input : List UInt8) (s : S) :
    verdict (loadSerial dev info input s).sent = .verified ↔
      (loadSerial dev info input s).sent = [0x56] := by
  rcases sent_loadSerial dev info input s with h | h
  · rw [h]
    exact iff_of_false (by decide) (by decide)
  · rw [h]
    exact iff_of_true (by decide) rfl

/-! ## The report -/

/-- What `n` reads from address `i` on return. -/
def readBack (dev : Device S) : Nat → Nat → S → List UInt8
  | 0, _, _ => []
  | n + 1, i, s =>
    let (b, s) := dev.read i s
    b :: readBack dev n (i + 1) s

/-- If the host reports a verified flash, the device reads as the image. -/
def Truthful (dev : Device S) (info : PioflashInfo) (data : List UInt8) (arrived : Nat) (s : S) :
    Prop :=
  ∀ bytes, flashLoadBytes data = some bytes →
    verdict (loadSerial dev info (bytes.take arrived) s).sent = .verified →
      readBack dev data.length 0 (loadSerial dev info (bytes.take arrived) s).device = data

/-- The report is about what the commands leave: it is right if the device reads as the image once
it has acknowledged them all. -/
theorem truthful_iff_perform (dev : Device S) (info : PioflashInfo) (data : List UInt8)
    (arrived : Nat) (s : S) :
    Truthful dev info data arrived s ↔
      (Accepted info data arrived → ∀ s', perform dev (flashCommands info data) s = some s' →
        readBack dev data.length 0 s' = data) := by
  constructor
  · intro h haccepted s' hperform
    have hbytes := haccepted.flashLoadBytes_eq
    obtain ⟨hsent, hdevice⟩ := (loadSerial_iff hbytes arrived s s').mpr ⟨haccepted, hperform⟩
    have hread := h _ hbytes ((verdict_loadSerial_iff dev info _ s).mpr hsent)
    rwa [hdevice] at hread
  · intro h bytes hbytes hverdict
    have hsent := (verdict_loadSerial_iff dev info _ s).mp hverdict
    obtain ⟨haccepted, hperform⟩ := (loadSerial_iff hbytes arrived s _).mp ⟨hsent, rfl⟩
    exact h haccepted _ hperform

end Pioflash
end Kloader
end Blackroo
