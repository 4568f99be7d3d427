import Mathlib.Data.Fintype.Pi
import Mathlib.Tactic.FinCases
import Mathlib.Tactic.NormNum
import Blackroo.MemoryCard.Basic

/-!
# Sweeping the slots and joining the cards

`bu_init` probes every slot once at boot, and `bu_revalidate` probes them again
whenever the device is opened while nobody uses it.  Both sweeps read the first
block of each card, judge it by its recorded number (and, in `bu_revalidate`, by
its serial), add the accepted cards to `bu_total`, and leave the joined size in
`bu_sizes[0]`.  `do_bu_request` then finds the card of a logical block by walking
the slots and subtracting the size of every card it passes.

The two halves do not look at the same thing.  A sweep counts the cards it
*accepts*; the walk passes every slot whose recorded size is not zero, and
`bu_read_first_block` records the size before the card is judged and keeps it when
a later probe fails.  The last section says exactly when the two agree.
-/

namespace Blackroo
namespace MemoryCard

/-! ## The sweeps -/

/-- The statics a sweep fills in.  `accepted` is not stored by the driver: it
records for which slots the sweep printed "card found". -/
structure Joined where
  /-- `bu_devices[].first_block` -/
  firstBlock : Slot → FirstBlock
  /-- `bu_sizes[]`, in KB -/
  sizes : Slot → Int
  /-- `bu_total`, in blocks of 128 bytes -/
  total : Int
  accepted : Slot → Bool
  deriving DecidableEq

/-- The statics before `bu_init`. -/
def Joined.zero : Joined :=
  ⟨fun _ => .zero, fun _ => 0, 0, fun _ => false⟩

/-- A sweep in progress: the statics together with the locals `bu_size`,
`bu_seen[]` and the serials accepted so far. -/
structure Sweep extends Joined where
  size : Int
  seen : Slot → Bool
  serials : List UInt32

/-- `bu_read_first_block`, on what the probe of slot `card` delivered.  `none` is
the return value 0; the record is stored only past the identity check. -/
def buReadFirstBlock (firstBlock : Slot → FirstBlock) (cards : Cards) (card : Slot) :
    Option (Slot → FirstBlock) :=
  match cards card with
  | none => none
  | some b => if b.id ≠ buId then none else some (Function.update firstBlock card b)

/-- `number >= BU_MINORS || bu_seen[number]`. -/
def numberClaimed (seen : Slot → Bool) (number : UInt32) : Bool :=
  if h : number.toNat < buMinors then seen ⟨number.toNat, h⟩ else true

/-- `bu_seen[number] = 1`. -/
def markSeen (seen : Slot → Bool) (number : UInt32) : Slot → Bool :=
  fun k => if k.val = number.toNat then true else seen k

/-- `bu_serial_seen`: whether the serial repeats, and the serials afterwards. -/
def buSerialSeen (serials : List UInt32) (serial : UInt32) : Bool × List UInt32 :=
  if serial ∈ serials then (true, serials)
  else (false, if serials.length < buMinors then serials ++ [serial] else serials)

/-- The size in KB a card is counted with, an `unsigned` expression stored in an
`int`. -/
def cardKb (size : UInt32) : Int := toInt32 ((size >>> 3) - 1).toNat

/-- The accounting of an accepted card, the same in both sweeps. -/
def Sweep.accept (s : Sweep) (i : Slot) (b : FirstBlock) : Sweep :=
  { s with
    seen := markSeen s.seen b.number
    sizes := Function.update s.sizes i (cardKb b.size)
    size := toInt32 (s.size + cardKb b.size)
    total := toInt32 (s.total + (b.size - 8).toNat)
    accepted := Function.update s.accepted i true }

/-- `bu_sizes[i] = 0`. -/
def Sweep.drop (s : Sweep) (i : Slot) : Sweep :=
  { s with sizes := Function.update s.sizes i 0 }

/-- One turn of the loop of `bu_init`.  A card with a bad number is reported and
left out; a slot whose bus cannot be caught is skipped like an absent card, its
`bu_sizes` entry being 0 already. -/
def initSlot (cards : Cards) (s : Sweep) (i : Slot) : Sweep :=
  match buReadFirstBlock s.firstBlock cards i with
  | none => s.drop i
  | some firstBlock =>
    let s := { s with firstBlock := firstBlock }
    if numberClaimed s.seen (firstBlock i).number then s
    else s.accept i (firstBlock i)

/-- One turn of the loop of `bu_revalidate`, which also rejects a card whose
serial was accepted before in the same sweep. -/
def revalidateSlot (cards : Cards) (s : Sweep) (i : Slot) : Sweep :=
  match buReadFirstBlock s.firstBlock cards i with
  | none => s.drop i
  | some firstBlock =>
    let s := { s with firstBlock := firstBlock }
    if numberClaimed s.seen (firstBlock i).number then s.drop i
    else
      let seen := buSerialSeen s.serials (firstBlock i).serial
      let s := { s with serials := seen.2 }
      if seen.1 then s.drop i else s.accept i (firstBlock i)

/-- A sweep starts with nothing counted, claimed or accepted. -/
def Joined.startSweep (d : Joined) : Sweep :=
  { d with
    total := 0, accepted := fun _ => false
    size := 0, seen := fun _ => false, serials := [] }

/-- `bu_sizes[0] = bu_size` at the end of a sweep. -/
def Sweep.finish (s : Sweep) : Joined :=
  { s.toJoined with sizes := Function.update s.sizes 0 s.size }

/-- The slots in the order both sweeps and the slot loop visit them. -/
def slots : List Slot := List.finRange buMinors

/-- `bu_init`, from the registration on. -/
def buInit (cards : Cards) : Joined :=
  (slots.foldl (initSlot cards) Joined.zero.startSweep).finish

/-- `-ENODEV`. -/
def eNoDev : Int := -19

/-- `bu_revalidate` once the bus is caught: the statics and the return value. -/
def buRevalidate (d : Joined) (cards : Cards) : Joined × Int :=
  let s := slots.foldl (revalidateSlot cards) d.startSweep
  (s.finish, if s.size = 0 then eNoDev else 0)

/-- `bu_init` once, then `bu_revalidate` for each later content of the slots. -/
def runSweeps (boot : Cards) (later : List Cards) : Joined :=
  later.foldl (fun d cards => (buRevalidate d cards).1) (buInit boot)

/-! ## The slot loop of `do_bu_request` -/

/-- The loop over the slots: `block` is the `__u16` field of the request, and the
sizes are the recorded ones. -/
def slotLoop (size : Slot → UInt32) : List Slot → UInt16 → Option (Slot × UInt16)
  | [], _ => none
  | j :: js, block =>
    if size j > 0 then
      let block := block + 8
      if block.toUInt32 < size j then some (j, block)
      else slotLoop size js (block.toUInt32 - size j).toUInt16
    else slotLoop size js block

/-- The card and card block of logical block `b`; `none` is the branch "bad card
number found". -/
def Joined.locate (d : Joined) (b : UInt32) : Option (Slot × UInt16) :=
  slotLoop (fun j => (d.firstBlock j).size) slots b.toUInt16

/-- The bound check of `do_bu_request` for the single block `b`: `start+len` and
`bu_total` are compared as `unsigned long`. -/
def Joined.below (d : Joined) (b : UInt32) : Prop := b.toNat < toUlong d.total

instance (d : Joined) (b : UInt32) : Decidable (d.below b) :=
  inferInstanceAs (Decidable (b.toNat < toUlong d.total))

/-! ## What a sweep accepts, read off the cards -/

/-- The first block of slot `i`, when it carries the driver's mark. -/
def identified (cards : Cards) (i : Slot) : Option FirstBlock :=
  (cards i).filter fun b => b.id == buId

/-- A card number the driver has a place for. -/
def numberInRange (number : UInt32) : Bool := decide (number.toNat < buMinors)

/-- The first block of slot `i`, when its number is in range as well. -/
def claimable (cards : Cards) (i : Slot) : Option FirstBlock :=
  (identified cards i).filter fun b => numberInRange b.number

/-- Two cards that cannot both be accepted. -/
def clash (bySerial : Bool) (a b : FirstBlock) : Bool :=
  a.number == b.number || (bySerial && a.serial == b.serial)

/-- The slots a sweep accepts.  Slot 0 is judged on its own; slot 1 must not clash
with it. -/
def accepts (bySerial : Bool) (cards : Cards) (i : Slot) : Bool :=
  (claimable cards i).any fun b =>
    i == 0 || !(claimable cards 0).any fun a => clash bySerial a b

/-- The size recorded on the card of slot `i`. -/
def cardSize (cards : Cards) (i : Slot) : UInt32 :=
  ((identified cards i).getD .zero).size

/-- Data blocks of the accepted cards, as integers. -/
def dataBlocks (acc : Slot → Bool) (cards : Cards) : Int :=
  (slots.map fun j => if acc j then ((cardSize cards j).toNat : Int) - 8 else 0).sum

/-- Whole KB of the accepted cards, as integers. -/
def dataKb (acc : Slot → Bool) (cards : Cards) : Int :=
  (slots.map fun j => if acc j then ((cardSize cards j).toNat / 8 : Int) - 1 else 0).sum

theorem buReadFirstBlock_eq (firstBlock : Slot → FirstBlock) (cards : Cards) (i : Slot) :
    buReadFirstBlock firstBlock cards i =
      (identified cards i).map fun b => Function.update firstBlock i b := by
  unfold buReadFirstBlock identified
  cases cards i with
  | none => rfl
  | some b => by_cases h : b.id = buId <;> simp [h, Option.filter]

/-- What one turn of either loop does to the sweep, given the verdict. -/
structure Turn (cards : Cards) (i : Slot) (verdict : Bool) (s s' : Sweep) : Prop where
  firstBlock : ∀ j, s'.firstBlock j =
    if j = i then (identified cards i).getD (s.firstBlock i) else s.firstBlock j
  accepted : ∀ j, s'.accepted j = if j = i ∧ verdict then true else s.accepted j
  seen : s'.seen = if verdict then markSeen s.seen ((identified cards i).getD .zero).number
    else s.seen
  total : s'.total = if verdict then toInt32 (s.total + (cardSize cards i - 8).toNat)
    else s.total
  size : s'.size = if verdict then toInt32 (s.size + cardKb (cardSize cards i))
    else s.size

/-- The verdict of `bu_init`. -/
def initVerdict (cards : Cards) (s : Sweep) (i : Slot) : Bool :=
  (identified cards i).any fun b => !numberClaimed s.seen b.number

/-- The verdict of `bu_revalidate`. -/
def revalidateVerdict (cards : Cards) (s : Sweep) (i : Slot) : Bool :=
  (identified cards i).any fun b => !numberClaimed s.seen b.number && b.serial ∉ s.serials

theorem initSlot_turn (cards : Cards) (s : Sweep) (i : Slot) :
    Turn cards i (initVerdict cards s i) s (initSlot cards s i) := by
  unfold initSlot initVerdict
  rw [buReadFirstBlock_eq]
  cases hb : identified cards i with
  | none => constructor <;> simp [hb, Sweep.drop]
  | some b =>
    by_cases hc : numberClaimed s.seen b.number
    · constructor <;> simp [hb, hc, Function.update_apply]
    · constructor <;>
        simp [hb, hc, Sweep.accept, Function.update_apply, cardSize]

theorem revalidateSlot_turn (cards : Cards) (s : Sweep) (i : Slot) :
    Turn cards i (revalidateVerdict cards s i) s (revalidateSlot cards s i) := by
  unfold revalidateSlot revalidateVerdict
  rw [buReadFirstBlock_eq]
  cases hb : identified cards i with
  | none => constructor <;> simp [hb, Sweep.drop]
  | some b =>
    by_cases hc : numberClaimed s.seen b.number
    · constructor <;> simp [hb, hc, Sweep.drop, Function.update_apply]
    · by_cases hs : b.serial ∈ s.serials
      · constructor <;>
          simp [hb, hc, hs, buSerialSeen, Sweep.drop, Function.update_apply]
      · constructor <;>
          simp [hb, hc, hs, buSerialSeen, Sweep.accept, Function.update_apply, cardSize]

/-- A serial is remembered exactly when its card is accepted. -/
theorem revalidateSlot_serials (cards : Cards) (s : Sweep) (i : Slot)
    (hlen : s.serials.length < buMinors) :
    (revalidateSlot cards s i).serials =
      if revalidateVerdict cards s i then
        s.serials ++ [((identified cards i).getD .zero).serial]
      else s.serials := by
  unfold revalidateSlot revalidateVerdict
  rw [buReadFirstBlock_eq]
  cases hb : identified cards i with
  | none => simp [Sweep.drop]
  | some b =>
    by_cases hc : numberClaimed s.seen b.number
    · simp [hc, Sweep.drop]
    · by_cases hs : b.serial ∈ s.serials
      · simp [hc, hs, buSerialSeen, Sweep.drop]
      · simp [hc, hs, buSerialSeen, Sweep.accept, hlen]

/-- Two `int` values are equal when they agree modulo `2 ^ 32`. -/
theorem toInt32_congr {x y : Int} (h : x % 2 ^ 32 = y % 2 ^ 32) : toInt32 x = toInt32 y := by
  rw [toInt32, toInt32, Int.bmod_def, Int.bmod_def]
  norm_num at h ⊢
  rw [h]

theorem toInt32_emod (x : Int) : toInt32 x % 2 ^ 32 = x % 2 ^ 32 := by
  rw [toInt32]
  exact_mod_cast Int.bmod_emod

/-- Adding the `unsigned` difference `size - 8` to an `int` adds `size - 8`. -/
theorem toInt32_add_sub_eight (x : Int) (size : UInt32) :
    toInt32 (toInt32 x + (size - 8).toNat) = toInt32 (x + (size.toNat - 8)) := by
  apply toInt32_congr
  have hx := toInt32_emod x
  have hs : (size - 8).toNat = (2 ^ 32 - 8 + size.toNat) % 2 ^ 32 := by
    rw [UInt32.toNat_sub]
    rfl
  rw [hs]
  omega

/-- The KB of a card never leave the range of an `int`. -/
theorem cardKb_eq (size : UInt32) : cardKb size = (size.toNat / 8 : Int) - 1 := by
  have hlt : size.toNat < 2 ^ 32 := size.toNat_lt
  have hs : ((size >>> 3) - 1).toNat = (2 ^ 32 - 1 + size.toNat / 8) % 2 ^ 32 := by
    rw [UInt32.toNat_sub, UInt32.toNat_shiftRight, Nat.shiftRight_eq_div_pow]
    rfl
  rw [cardKb, hs, toInt32, Int.bmod_def]
  split <;> omega

/-- What a sweep leaves behind, read off the cards it found. -/
structure Swept (bySerial : Bool) (cards : Cards) (before after : Joined) : Prop where
  firstBlock : ∀ j, after.firstBlock j = (identified cards j).getD (before.firstBlock j)
  accepted : ∀ j, after.accepted j = accepts bySerial cards j
  total : after.total = toInt32 (dataBlocks (accepts bySerial cards) cards)
  advertised : after.sizes 0 = dataKb (accepts bySerial cards) cards

theorem slots_eq : slots = [0, 1] := rfl

theorem slot_cases (j : Slot) : j = 0 ∨ j = 1 := by
  fin_cases j <;> simp

theorem dataBlocks_eq (acc : Slot → Bool) (cards : Cards) :
    dataBlocks acc cards =
      (if acc 0 then ((cardSize cards 0).toNat : Int) - 8 else 0) +
        (if acc 1 then ((cardSize cards 1).toNat : Int) - 8 else 0) := by
  rw [dataBlocks, slots_eq]
  simp

theorem dataKb_eq (acc : Slot → Bool) (cards : Cards) :
    dataKb acc cards =
      (if acc 0 then ((cardSize cards 0).toNat / 8 : Int) - 1 else 0) +
        (if acc 1 then ((cardSize cards 1).toNat / 8 : Int) - 1 else 0) := by
  rw [dataKb, slots_eq]
  simp

@[simp] theorem Sweep.finish_firstBlock (s : Sweep) : s.finish.firstBlock = s.firstBlock := rfl

@[simp] theorem Sweep.finish_accepted (s : Sweep) : s.finish.accepted = s.accepted := rfl

@[simp] theorem Sweep.finish_total (s : Sweep) : s.finish.total = s.total := rfl

@[simp] theorem Sweep.finish_sizes (s : Sweep) : s.finish.sizes 0 = s.size := by
  simp [Sweep.finish]

/-- Two turns with the right verdicts make a sweep. -/
theorem swept_of_turns {bySerial : Bool} {cards : Cards} {d : Joined} {s₁ s₂ : Sweep}
    (h₀ : Turn cards 0 (accepts bySerial cards 0) d.startSweep s₁)
    (h₁ : Turn cards 1 (accepts bySerial cards 1) s₁ s₂) :
    Swept bySerial cards d s₂.finish := by
  constructor
  · intro j
    rw [Sweep.finish_firstBlock, h₁.firstBlock]
    rcases slot_cases j with rfl | rfl <;> simp [h₀.firstBlock, Joined.startSweep]
  · intro j
    rw [Sweep.finish_accepted, h₁.accepted]
    rcases slot_cases j with rfl | rfl <;> simp [h₀.accepted, Joined.startSweep]
  · have hz : d.startSweep.total = toInt32 0 := rfl
    rw [Sweep.finish_total, h₁.total, h₀.total, hz, dataBlocks_eq]
    generalize accepts bySerial cards 0 = a₀
    generalize accepts bySerial cards 1 = a₁
    cases a₀ <;> cases a₁ <;> simp [toInt32_add_sub_eight]
  · have hz : d.startSweep.size = 0 := rfl
    have hlt₀ : (cardSize cards 0).toNat < 2 ^ 32 := (cardSize cards 0).toNat_lt
    have hlt₁ : (cardSize cards 1).toNat < 2 ^ 32 := (cardSize cards 1).toNat_lt
    rw [Sweep.finish_sizes, h₁.size, h₀.size, hz, dataKb_eq, cardKb_eq, cardKb_eq]
    generalize accepts bySerial cards 0 = a₀
    generalize accepts bySerial cards 1 = a₁
    have h0 := toInt32_of_range (x := 0 + (((cardSize cards 0).toNat / 8 : Int) - 1))
      (by omega) (by omega)
    cases a₀ <;> cases a₁ <;>
      simp only [h0, Bool.false_eq_true, if_true, if_false]
    · rfl
    · rw [toInt32_of_range (by omega) (by omega)]
    · omega
    · rw [toInt32_of_range (by omega) (by omega)]
      omega

theorem numberClaimed_none (number : UInt32) :
    numberClaimed (fun _ => false) number = !numberInRange number := by
  unfold numberClaimed numberInRange
  by_cases h : number.toNat < buMinors <;> simp [h]

theorem numberClaimed_markSeen (seen : Slot → Bool) (m number : UInt32) :
    numberClaimed (markSeen seen m) number =
      (numberClaimed seen number || m == number) := by
  unfold numberClaimed markSeen
  by_cases h : number.toNat < buMinors
  · by_cases hm : m = number
    · simp [h, hm]
    · have hne : ¬ number.toNat = m.toNat := fun hh => hm (UInt32.toNat_inj.mp hh.symm)
      simp [h, hm, hne]
  · simp [h]

/-- With nothing claimed yet, a card is judged by its mark and its number. -/
theorem accepts_zero (bySerial : Bool) (cards : Cards) :
    accepts bySerial cards 0 =
      (identified cards 0).any fun b => numberInRange b.number := by
  unfold accepts claimable
  cases identified cards 0 with
  | none => rfl
  | some b => cases h : numberInRange b.number <;> simp [h, Option.filter]

/-- The card of slot 1 must not clash with an accepted card of slot 0. -/
theorem accepts_one (bySerial : Bool) (cards : Cards) :
    accepts bySerial cards 1 =
      (identified cards 1).any fun b => numberInRange b.number &&
        !(accepts bySerial cards 0 &&
          clash bySerial ((identified cards 0).getD .zero) b) := by
  rw [accepts_zero]
  unfold accepts claimable
  cases identified cards 1 with
  | none => rfl
  | some b =>
    cases identified cards 0 with
    | none => cases h : numberInRange b.number <;> simp [h, Option.filter]
    | some a =>
      cases h : numberInRange b.number <;> cases ha : numberInRange a.number <;>
        simp [h, ha, Option.filter]

/-- **The boot sweep.**  Both turns of `bu_init` reach the verdict of `accepts`. -/
theorem buInit_swept (cards : Cards) : Swept false cards .zero (buInit cards) := by
  have h₀ := initSlot_turn cards Joined.zero.startSweep 0
  have h₁ := initSlot_turn cards (initSlot cards Joined.zero.startSweep 0) 1
  have hv₀ : initVerdict cards Joined.zero.startSweep 0 = accepts false cards 0 := by
    rw [accepts_zero, initVerdict]
    simp [Joined.startSweep, numberClaimed_none]
  rw [hv₀] at h₀
  have hv₁ : initVerdict cards (initSlot cards Joined.zero.startSweep 0) 1 =
      accepts false cards 1 := by
    rw [accepts_one, initVerdict, h₀.seen]
    cases accepts false cards 0 <;>
      simp [Joined.startSweep, numberClaimed_none, numberClaimed_markSeen, clash]
  rw [hv₁] at h₁
  exact swept_of_turns h₀ h₁

/-- **The re-validation sweep.**  `bu_revalidate` reaches the verdict of `accepts`
with the serials compared as well. -/
theorem buRevalidate_swept (d : Joined) (cards : Cards) :
    Swept true cards d (buRevalidate d cards).1 := by
  have h₀ := revalidateSlot_turn cards d.startSweep 0
  have h₁ := revalidateSlot_turn cards (revalidateSlot cards d.startSweep 0) 1
  have hs := revalidateSlot_serials cards d.startSweep 0 (by simp [Joined.startSweep])
  have hv₀ : revalidateVerdict cards d.startSweep 0 = accepts true cards 0 := by
    rw [accepts_zero, revalidateVerdict]
    simp [Joined.startSweep, numberClaimed_none]
  rw [hv₀] at h₀ hs
  have hv₁ : revalidateVerdict cards (revalidateSlot cards d.startSweep 0) 1 =
      accepts true cards 1 := by
    rw [accepts_one, revalidateVerdict, h₀.seen, hs]
    cases accepts true cards 0
    · simp [Joined.startSweep, numberClaimed_none]
    · simp [Joined.startSweep, numberClaimed_none, numberClaimed_markSeen, clash,
        Bool.and_assoc, eq_comm, beq_eq_decide]
  rw [hv₁] at h₁
  exact swept_of_turns h₀ h₁

/-! ## A whole history of sweeps -/

/-- The contents the last sweep saw. -/
def lastCards (boot : Cards) (later : List Cards) : Cards := later.getLastD boot

/-- The record the driver holds for slot `j` after a history of sweeps, newest
last: the newest one with the driver's mark. -/
def recorded (history : List Cards) (j : Slot) : FirstBlock :=
  (history.reverse.findSome? fun cards => identified cards j).getD .zero

theorem recorded_append (history : List Cards) (cards : Cards) (j : Slot) :
    recorded (history ++ [cards]) j = (identified cards j).getD (recorded history j) := by
  unfold recorded
  rw [List.reverse_append]
  cases h : identified cards j <;> simp [h]

theorem runSweeps_append (boot : Cards) (later : List Cards) (cards : Cards) :
    runSweeps boot (later ++ [cards]) = (buRevalidate (runSweeps boot later) cards).1 := by
  rw [runSweeps, List.foldl_append]
  rfl

/-- **The records along a run.**  A slot keeps the record of the last card with
the driver's mark, whatever was judged or removed since. -/
theorem runSweeps_firstBlock (boot : Cards) (later : List Cards) (j : Slot) :
    (runSweeps boot later).firstBlock j = recorded (boot :: later) j := by
  induction later using List.reverseRecOn with
  | nil =>
    rw [runSweeps, List.foldl_nil, (buInit_swept boot).firstBlock]
    exact (recorded_append [] boot j).symm
  | append_singleton later cards ih =>
    rw [runSweeps_append, (buRevalidate_swept _ cards).firstBlock, ih, ← recorded_append,
      List.cons_append]

/-- **The last sweep of a run** decides what is accepted and counted. -/
theorem runSweeps_swept (boot : Cards) (later : List Cards) :
    ∃ before, Swept (!later.isEmpty) (lastCards boot later) before (runSweeps boot later) := by
  induction later using List.reverseRecOn with
  | nil => exact ⟨_, buInit_swept boot⟩
  | append_singleton later cards _ =>
    refine ⟨runSweeps boot later, ?_⟩
    have h := buRevalidate_swept (runSweeps boot later) cards
    have hne : (!(later ++ [cards]).isEmpty) = true := by simp
    have hlast : lastCards boot (later ++ [cards]) = cards := by simp [lastCards]
    rw [hne, hlast, runSweeps_append]
    exact h

/-! ## The two sweeps compared

The comments of `bu_revalidate` call its loop a copy of the one in `bu_init`.  The
copies differ in one test: only the later one compares serials.  So they agree on
every content of the slots except a pair that the numbers would let through and the
serials would not. -/

/-- Two sweeps judged the slots alike: the same slots accepted, the same `bu_total`
and the same advertised size. -/
structure SameJudgement (d d' : Joined) : Prop where
  accepted : ∀ j, d.accepted j = d'.accepted j
  total : d.total = d'.total
  advertised : d.sizes 0 = d'.sizes 0

/-- Both slots hold a card the driver has a place for; their numbers differ and
their serials do not. -/
def RepeatsSerial (cards : Cards) : Prop :=
  ∃ a b, claimable cards 0 = some a ∧ claimable cards 1 = some b ∧
    a.number ≠ b.number ∧ a.serial = b.serial

/-- Slot 0 is judged before any serial is known. -/
theorem accepts_zero_eq (cards : Cards) : accepts false cards 0 = accepts true cards 0 := by
  rw [accepts_zero, accepts_zero]

/-- Comparing serials changes the verdict on slot 1 exactly at a repeated serial. -/
theorem accepts_one_eq_iff (cards : Cards) :
    accepts false cards 1 = accepts true cards 1 ↔ ¬ RepeatsSerial cards := by
  unfold accepts RepeatsSerial
  cases hb : claimable cards 1 with
  | none => simp
  | some b =>
    cases ha : claimable cards 0 with
    | none => simp
    | some a =>
      by_cases hn : a.number = b.number <;> by_cases hs : a.serial = b.serial <;>
        simp [clash, hn, hs]

/-- What a sweep counts is decided by what it accepts. -/
theorem sameJudgement_iff_accepts {cards : Cards} {before before' d d' : Joined}
    (h : Swept false cards before d) (h' : Swept true cards before' d') :
    SameJudgement d d' ↔ ∀ j, accepts false cards j = accepts true cards j := by
  constructor
  · intro hsame j
    rw [← h.accepted, ← h'.accepted]
    exact hsame.accepted j
  · intro hacc
    have heq : accepts false cards = accepts true cards := funext hacc
    refine ⟨fun j => ?_, ?_, ?_⟩
    · rw [h.accepted, h'.accepted, heq]
    · rw [h.total, h'.total, heq]
    · rw [h.advertised, h'.advertised, heq]

/-- **The boot sweep and the sweep after it agree unless a serial repeats.** -/
theorem sameJudgement_iff (cards : Cards) :
    SameJudgement (buInit cards) (buRevalidate (buInit cards) cards).1 ↔
      ¬ RepeatsSerial cards := by
  rw [sameJudgement_iff_accepts (buInit_swept cards) (buRevalidate_swept _ cards),
    ← accepts_one_eq_iff]
  constructor
  · intro h
    exact h 1
  · intro h j
    rcases slot_cases j with rfl | rfl
    · exact accepts_zero_eq cards
    · exact h

/-- Cards 0 and 1 that carry one serial. -/
def sameSerialPair : Cards := fun i =>
  some (if i = 0 then ⟨buId, 1024, 0x1001, 0⟩ else ⟨buId, 1024, 0x1001, 1⟩)

/-- **A repeated serial is noticed only after boot.**  `bu_init` joins both cards and
the next `bu_revalidate` only the first. -/
theorem not_sameJudgement_sameSerialPair :
    ¬ SameJudgement (buInit sameSerialPair)
      (buRevalidate (buInit sameSerialPair) sameSerialPair).1 := by
  intro h
  exact absurd (h.accepted 1) (by decide)

end MemoryCard
end Blackroo
