import Blackroo.Kloader.Host
import Blackroo.Kloader.NorFlash

/-!
# Backing up a cartridge, and restoring it

`pioflash_dump_serial` sends the contents of a cartridge to the host, and `cmd_flash_dump` saves
them in a file.  `cmd_flash_load` sends such a file back, into the same cartridge or another one of
its kind.

The header of a dump is the header of a load, with the identifiers of the chip where the load has
two zeros, and the file is what follows it.  `backup_restored` says that this is a backup: whatever
is in the second cartridge, the load is acknowledged, and leaves in all cells what was in the first.
That takes more than a report that is right when it comes: the polls have to end, so the chip has to
be done before kloader gives up on it.
-/

namespace Blackroo
namespace Kloader
namespace Pioflash

open LittleEndian Process

/-! ## The dump -/

/-- The header that `pioflash_dump_serial` sends. -/
def dumpHeader (info : PioflashInfo) (mfrId devId : UInt8) : List UInt8 :=
  bytes32 magic ++ bytes32 (UInt32.ofNat info.size) ++ [mfrId, devId] ++ List.replicate 6 0

/-- `pioflash_dump_serial`. -/
def dumpSerial {S : Type} (dev : Device S) (info : PioflashInfo) (mfrId devId : UInt8) (s : S) :
    Line Unit :=
  sendAll (dumpHeader info mfrId devId ++ readBack dev info.size 0 s)

/-- The end of `cmd_flash_dump`. -/
inductive FlashDump where
  | headerTimeout
  | badMagic (magic : UInt32)
  | timeout (received : Nat)
  | saved (data : List UInt8)
  deriving DecidableEq, Repr

/-- The loop of `cmd_flash_dump`.  A read gives at least a byte or ends the loop, so `size` turns
are enough. -/
def flashDumpLoop (size : Nat) : (turns : Nat) → (data : List UInt8) → Host FlashDump
  | 0, data => return .saved data
  | turns + 1, data =>
    if data.length < size then
      .recv .data (min (size - data.length) 4096) fun chunk =>
        if chunk.length = 0 then .done (.timeout data.length)
        else flashDumpLoop size turns (data ++ chunk)
    else return .saved data

/-- `cmd_flash_dump`. -/
def cmdFlashDump : Host FlashDump :=
  .recv .word 16 fun hdr =>
    if hdr.length < 16 then .done .headerTimeout
    else if get32 hdr 0 ≠ magic then .done (.badMagic (get32 hdr 0))
    else
      let size := (get32 hdr 4).toNat
      flashDumpLoop size size []

section Dump

variable {F : Pair Read Unit UInt8 FlashDump Unit → Prop}

/-- The data is taken in any pieces. -/
theorem ends_flashDumpLoop {size turns : Nat} {data rest : List UInt8}
    (hsize : data.length + rest.length = size) (hturns : rest.length ≤ turns)
    (h : Ends SplitsData (fun _ => False) F ⟨.done (.saved (data ++ rest)), .done (), [], []⟩) :
    Ends SplitsData (fun _ => False) F ⟨flashDumpLoop size turns data, .done (), [], rest⟩ := by
  induction turns generalizing data rest with
  | zero =>
    obtain rfl : rest = [] := List.length_eq_zero_iff.mp (Nat.le_zero.mp hturns)
    rw [List.append_nil] at h
    exact h
  | succ turns ih =>
    rw [flashDumpLoop]
    by_cases hrest : rest = []
    · subst hrest
      rw [List.append_nil] at h
      rw [if_neg (by rw [List.length_nil] at hsize; omega)]
      exact h
    · have hpos := List.length_pos_iff.mpr hrest
      rw [if_pos (by omega)]
      refine .pieces_left_done ?_ ?_
      · obtain ⟨b, rest, rfl⟩ := List.exists_cons_of_ne_nil hrest
        refine ⟨[b], List.prefix_append [b] rest, .inr ⟨rfl, List.cons_ne_nil _ _, ?_⟩⟩
        show 1 ≤ _
        omega
      · rintro bs ⟨⟨rest', rfl⟩, hbs⟩
        have hbs : bs.length ≠ 0 := by
          rcases hbs with hbs | ⟨-, hbs, -⟩
          · omega
          · exact fun h0 => hbs (List.length_eq_zero_iff.mp h0)
        rw [List.length_append] at hsize hturns
        rw [List.drop_left, if_neg hbs]
        refine ih ?_ (by omega) ?_
        · rw [List.length_append]
          omega
        · rwa [List.append_assoc]

theorem length_readBack {S : Type} (dev : Device S) (n i : Nat) (s : S) :
    (readBack dev n i s).length = n := by
  induction n generalizing i s with
  | zero => rfl
  | succ n ih => exact congrArg Nat.succ (ih _ _)

/-- **The file is what the reads of kloader returned.** -/
theorem ends_flashDump {S : Type} (dev : Device S) (info : PioflashInfo) (mfrId devId : UInt8)
    (s : S)
    (h : Ends SplitsData (fun _ => False) F
      ⟨.done (.saved (readBack dev info.size 0 s)), .done (), [], []⟩) :
    Ends SplitsData (fun _ => False) F
      ⟨cmdFlashDump, dumpSerial dev info mfrId devId s, [], []⟩ := by
  have hword : ¬ SplitsData .word := Read.noConfusion
  have hsize : info.size < 2 ^ 32 := by
    have := info.in_range
    have := info.sectorSize_pos
    omega
  have hmagic : get32 (dumpHeader info mfrId devId) 0 = magic := by
    rw [dumpHeader]
    simp only [List.append_assoc]
    exact get32_bytes32_append _ _
  have hlength : (get32 (dumpHeader info mfrId devId) 4).toNat = info.size := by
    rw [dumpHeader]
    simp only [List.append_assoc]
    rw [get32_append_right (Nat.le_refl 4), length_bytes32, Nat.sub_self, get32_bytes32_append,
      UInt32.toNat_ofNat_of_lt' hsize]
  rw [dumpSerial, ← Proc.bind_done (sendAll _)]
  refine .sendAll_right ?_
  rw [List.nil_append]
  have hread : Determined (SplitsData .word) 16
      (dumpHeader info mfrId devId ++ readBack dev info.size 0 s) (dumpHeader info mfrId devId) :=
    determined_whole hword _
  refine .read_left hread ?_
  rw [List.drop_left]
  show Ends _ _ F ⟨if (dumpHeader info mfrId devId).length < 16 then _ else _, _, _, _⟩
  have hlen : (dumpHeader info mfrId devId).length = 16 := rfl
  rw [if_neg (by rw [hlen]; exact Nat.lt_irrefl 16), if_neg (not_not.mpr hmagic)]
  dsimp only
  rw [hlength]
  refine ends_flashDumpLoop ?_ (length_readBack ..).le h
  rw [length_readBack]
  exact Nat.zero_add _

end Dump

/-! ## The load -/

section Load

/-- The operations of the part are over before kloader gives up. -/
structure NorPart.Quick (part : NorPart) : Prop where
  program : part.programTime + 2 ≤ 500000
  erase : part.eraseTime + 2 ≤ 5000000

theorem NorPart.Quick.inTime {part : NorPart} (h : part.Quick) (data : List UInt8) :
    part.InTime data := by
  obtain ⟨hprogram, herase⟩ := h
  exact ⟨by omega, fun _ => by omega⟩

end Load

/-- **A backup can be restored.**  What the host saves of one cartridge, in whatever pieces it
arrives, can be loaded into any other of its kind: the host reports it as verified, the cells that
were saved are those of the first, and no other sector is touched. -/
theorem backup_restored (part : NorPart) (hquick : part.Quick) (info : PioflashInfo)
    (hsector : info.sectorSize ∣ part.sectorSize) (hsize : 0 < info.size) (mfrId devId : UInt8)
    (s₀ s₁ : NorChip) (h₀ : s₀.Idle) (h₁ : s₁.Idle) :
    Completes SplitsData (fun _ => False)
      (fun host _ toConsole toHost => toConsole = [] ∧ toHost = [] ∧
        ∃ data bytes s', host = .saved data ∧ flashLoadBytes data = some bytes ∧
          verdict (loadSerial part.device info bytes s₁).sent = .verified ∧
          (loadSerial part.device info bytes s₁).device = s' ∧
          (∀ a < info.size, s'.cells a = s₀.cells a) ∧
          ∀ a, (∀ b < info.size, a / part.sectorSize ≠ b / part.sectorSize) →
            s'.cells a = s₁.cells a)
      ⟨cmdFlashDump, dumpSerial part.device info mfrId devId s₀, [], []⟩ := by
  refine Ends.completes (ends_flashDump part.device info mfrId devId s₀ ?_)
  generalize hdata : readBack part.device info.size 0 s₀ = data
  have hlength : data.length = info.size := by rw [← hdata, length_readBack]
  have haccepted : Accepted info data (16 + data.length) :=
    ⟨List.ne_nil_of_length_pos (by omega), hlength.le, le_rfl⟩
  have hbytes := haccepted.flashLoadBytes_eq
  obtain ⟨s', hperform⟩ : ∃ s', perform part.device (flashCommands info data) s₁ = some s' :=
    perform_ok (hquick.inTime data) h₁ fun addr x hmem => mem_of_program_mem hmem
  obtain ⟨hsent, hdevice⟩ := (loadSerial_iff hbytes _ s₁ s').mpr ⟨haccepted, hperform⟩
  rw [List.take_of_length_le (by simp [length_bytes32]; omega)] at hsent hdevice
  obtain ⟨-, hcells⟩ := perform_flashCommands h₁ hperform
  refine .done ⟨⟨rfl, rfl, data, _, s', rfl, hbytes,
    (verdict_loadSerial_iff part.device info _ s₁).mpr hsent, hdevice, fun a ha => ?_,
    fun a ha => ?_⟩⟩
  · rw [hcells, if_pos (by omega), store_erased hsector (by omega)]
    exact ((readBack_eq_iff part .sound h₀ data).mp (hlength ▸ hdata) a (by omega)).symm
  · rw [hcells, if_neg fun h => ha a (by omega) rfl, erasures_eq_zero (by rwa [hlength])]
    rfl

/-- A chip of one sector, with one byte in it, is backed up, and its erased twin gets the byte. -/
theorem backup_restored_small :
    Completes SplitsData (fun _ => False)
      (fun host _ toConsole toHost => toConsole = [] ∧ toHost = [] ∧
        ∃ data bytes s', host = .saved data ∧ flashLoadBytes data = some bytes ∧
          verdict (loadSerial smallPart.device smallInfo bytes
            ⟨fun _ => 0xFF, .ready, 0, false⟩).sent = .verified ∧
          (loadSerial smallPart.device smallInfo bytes
            ⟨fun _ => 0xFF, .ready, 0, false⟩).device = s' ∧
          (∀ a < 4, s'.cells a = if a = 2 then 0x2A else 0xFF) ∧
          ∀ a, (∀ b < 4, a / 4 ≠ b / 4) → s'.cells a = 0xFF)
      ⟨cmdFlashDump, dumpSerial smallPart.device smallInfo 0 0
        ⟨fun a => if a = 2 then 0x2A else 0xFF, .ready, 0, false⟩, [], []⟩ :=
  backup_restored smallPart ⟨by decide, by decide⟩ smallInfo ⟨1, rfl⟩ (by decide) 0 0
    ⟨fun a => if a = 2 then 0x2A else 0xFF, .ready, 0, false⟩ ⟨fun _ => 0xFF, .ready, 0, false⟩
    ⟨rfl, rfl⟩ ⟨rfl, rfl⟩

end Pioflash
end Kloader
end Blackroo
