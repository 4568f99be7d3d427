import Mathlib.Algebra.GroupWithZero.Nat
import Mathlib.Algebra.Order.Group.Nat
import Mathlib.Data.FinEnum
import Mathlib.Data.List.Basic
import Blackroo.Lib.CString

/-!
# The arguments of the monitor's block and card commands

`blk`, `blkw`, `blktest` and `card format` of `brmon.c` read their numbers with `mon_hex`, which
reports a bad one through a flag, and returns 0 for it.  The first three pass the same flag to all
their calls of `mon_hex` and look at it once, behind the last; `card format` looks at it behind the
first.  So a number is checked only if it is the one that was read last before the flag is looked
at, and the others may be anything: they are 0 then.

Besides, a number of more than 32 bits loses its upper digits, and a device number has eight bits
for each of its halves.

`lineSound_iff` says on which lines that does no harm.
-/

namespace Blackroo
namespace Brmon

open CommandLine (ascii)

abbrev Text : Type := List UInt8

/-! ## Numbers -/

/-- The value of a digit. -/
def hexDigit (c : UInt8) : Option UInt32 :=
  if 48 ≤ c ∧ c ≤ 57 then some (c.toUInt32 - 48)
  else if 97 ≤ c ∧ c ≤ 102 then some (c.toUInt32 - 97 + 10)
  else if 65 ≤ c ∧ c ≤ 70 then some (c.toUInt32 - 65 + 10)
  else none

/-- A number without `0x` or `0X` before it. -/
def skip0x (s : Text) : Text :=
  if s[0]? = some 48 ∧ (s[1]? = some 120 ∨ s[1]? = some 88) then s.drop 2 else s

/-- The loop of `mon_hex`. -/
def monHexLoop : Text → (v : UInt32) → (digits : Nat) → UInt32 × Bool
  | [], v, digits => (v, digits ≠ 0)
  | c :: s, v, digits =>
    match hexDigit c with
    | some d => monHexLoop s ((v <<< 4) ||| d) (digits + 1)
    | none => (0, false)

/-- `mon_hex`, with what it writes to `*ok`. -/
def monHex (s : Text) : UInt32 × Bool := monHexLoop (skip0x s) 0 0

/-! ## Devices -/

/-- `MKDEV`, as a `kdev_t`. -/
def mkdev (ma mi : UInt32) : UInt16 := ((ma <<< 8) ||| mi).toUInt16

/-- `MAJOR`. -/
def major (dev : UInt16) : Nat := (dev >>> 8).toNat

/-- `MINOR`. -/
def minor (dev : UInt16) : Nat := (dev &&& 0xff).toNat

/-! ## The commands -/

/-- What a command goes on to use: a block of a device, to write or only to read, or a memory
card. -/
inductive Access where
  | block (writes : Bool) (dev : UInt16) (block size : UInt32)
  | format (slot seq : UInt32)
  deriving DecidableEq, Repr

/-- Why a command does nothing. -/
inductive Refusal where
  | usage
  | badArgument
  | blockZero
  | badSlot
  deriving DecidableEq, Repr

/-- `argv[i]`. -/
def arg (argv : List Text) (i : Nat) : Text := argv.getD i []

def cmdBlk (argv : List Text) : Except Refusal Access :=
  if argv.length < 4 then .error .usage
  else
    let (major, _) := monHex (arg argv 1)
    let (minor, _) := monHex (arg argv 2)
    let (block, ok) := monHex (arg argv 3)
    let (size, ok) := if 4 < argv.length then monHex (arg argv 4) else (1024, ok)
    if !ok then .error .badArgument
    else .ok (.block false (mkdev major minor) block size)

def cmdBlkw (argv : List Text) : Except Refusal Access :=
  if argv.length < 5 ∨ argv.getLast? ≠ some (ascii "yes") then .error .usage
  else
    let (major, _) := monHex (arg argv 1)
    let (minor, _) := monHex (arg argv 2)
    let (block, ok) := monHex (arg argv 3)
    let (size, ok) := if 5 < argv.length then monHex (arg argv 4) else (1024, ok)
    if !ok then .error .badArgument
    else if block = 0 then .error .blockZero
    else .ok (.block true (mkdev major minor) block size)

def cmdBlktest (argv : List Text) : Except Refusal Access :=
  if argv.length < 4 then .error .usage
  else
    let (major, _) := monHex (arg argv 1)
    let (minor, _) := monHex (arg argv 2)
    let (block, ok) := monHex (arg argv 3)
    if !ok then .error .badArgument
    else .ok (.block true (mkdev major minor) block 1024)

/-- `cmd_card_format`, up to its use of the bus. -/
def cmdCardFormat (argv : List Text) : Except Refusal Access :=
  if argv.length < 4 ∨ arg argv 3 ≠ ascii "yes" then .error .usage
  else
    let (slot, ok) := monHex (arg argv 2)
    if !ok ∨ slot > 7 then .error .badSlot
    else
      let (seq, _) := if 4 < argv.length then monHex (arg argv 4) else (0, ok)
      .ok (.format slot seq)

inductive Command where
  | blk
  | blkw
  | blktest
  | cardFormat
  deriving DecidableEq, Repr

def Command.run (argv : List Text) : Command → Except Refusal Access
  | .blk => cmdBlk argv
  | .blkw => cmdBlkw argv
  | .blktest => cmdBlktest argv
  | .cardFormat => cmdCardFormat argv

/-- `mon_split`, with `MON_ARGS_MAX` words. -/
def monSplit (line : Text) : List Text := CommandLine.words 8 line

/-- The command of a line in `brmon_main`, as far as these go; `cmd_card` looks at one more word. -/
def commandOf (argv : List Text) : Option Command :=
  if argv[0]? = some (ascii "card") then
    if argv[1]? = some (ascii "format") then some .cardFormat else none
  else if argv[0]? = some (ascii "blk") then some .blk
  else if argv[0]? = some (ascii "blktest") then some .blktest
  else if argv[0]? = some (ascii "blkw") then some .blkw
  else none

/-! ## What is on the line -/

/-- One or more hexadecimal digits, with `0x` before them or not. -/
def Digits (w : Text) : Prop := skip0x w ≠ [] ∧ ∀ c ∈ skip0x w, (hexDigit c).isSome

instance (w : Text) : Decidable (Digits w) := inferInstanceAs (Decidable (_ ∧ _))

/-- The number that digits from the left have, going on from `v`. -/
def valueFrom (v : Nat) (s : Text) : Nat :=
  s.foldl (fun v c => v * 16 + ((hexDigit c).getD 0).toNat) v

/-- The number that a word is. -/
def hexValue (w : Text) : Nat := valueFrom 0 (skip0x w)

/-- The word is a number, and one of 32 bits. -/
def IsNumber (w : Text) : Prop := Digits w ∧ hexValue w < 2 ^ 32

instance (w : Text) : Decidable (IsNumber w) := inferInstanceAs (Decidable (_ ∧ _))

namespace Command

/-- The words of the line that are numbers for the command. -/
def numbers (argv : List Text) : Command → List Text
  | .blk => [arg argv 1, arg argv 2, arg argv 3] ++ if 4 < argv.length then [arg argv 4] else []
  | .blkw => [arg argv 1, arg argv 2, arg argv 3] ++ if 5 < argv.length then [arg argv 4] else []
  | .blktest => [arg argv 1, arg argv 2, arg argv 3]
  | .cardFormat => [arg argv 2] ++ if 4 < argv.length then [arg argv 4] else []

/-- The value of a number that is not on the line. -/
def defaults (argv : List Text) : Command → List Nat
  | .blk => if 4 < argv.length then [] else [1024]
  | .blkw => if 5 < argv.length then [] else [1024]
  | .blktest => [1024]
  | .cardFormat => if 4 < argv.length then [] else [0]

end Command

/-- The numbers in an access. -/
def Access.values : Access → List Nat
  | .block _ dev n size => [major dev, minor dev, n.toNat, size.toNat]
  | .format slot seq => [slot.toNat, seq.toNat]

/-- **What a command is to do**: it uses a device only if all its numbers are numbers, and then just
these. -/
def Command.Sound (argv : List Text) (c : Command) : Prop :=
  ∀ a, c.run argv = .ok a → (∀ w ∈ c.numbers argv, IsNumber w) ∧
    a.values = (c.numbers argv).map hexValue ++ c.defaults argv

/-- The line is refused: it has not the words that the command asks for, the number that is read
last before the check is none, or a value is refused. -/
def Command.Refused (argv : List Text) : Command → Prop
  | .blk => argv.length < 4 ∨ ¬ Digits (arg argv (if 4 < argv.length then 4 else 3))
  | .blkw => argv.length < 5 ∨ argv.getLast? ≠ some (ascii "yes") ∨
      ¬ Digits (arg argv (if 5 < argv.length then 4 else 3)) ∨ ¬ Digits (arg argv 3) ∨
      hexValue (arg argv 3) % 2 ^ 32 = 0
  | .blktest => argv.length < 4 ∨ ¬ Digits (arg argv 3)
  | .cardFormat => argv.length < 4 ∨ arg argv 3 ≠ ascii "yes" ∨ ¬ Digits (arg argv 2) ∨
      7 < hexValue (arg argv 2) % 2 ^ 32

/-- A device number has room for what is on the line. -/
def Command.DeviceFits (argv : List Text) : Command → Prop
  | .blk | .blkw | .blktest => hexValue (arg argv 1) < 256 ∧ hexValue (arg argv 2) < 256
  | .cardFormat => True

/-! ## Reading numbers -/

theorem hexDigit_lt {c : UInt8} {d : UInt32} (h : hexDigit c = some d) : d.toNat < 16 := by
  have hrange {lo hi : UInt8} {base k : UInt32} (hbase : base.toNat = lo.toNat)
      (hk : hi.toNat - lo.toNat + k.toNat < 16) (hc : lo ≤ c ∧ c ≤ hi) :
      (c.toUInt32 - base + k).toNat < 16 := by
    have hlo := UInt8.le_iff_toNat_le.mp hc.1
    have hhi := UInt8.le_iff_toNat_le.mp hc.2
    have hlt := c.toNat_lt
    rw [UInt32.toNat_add, UInt32.toNat_sub, UInt8.toNat_toUInt32, hbase]
    omega
  rw [hexDigit] at h
  split at h
  · obtain rfl := Option.some.inj h
    have hdigit := @hrange 48 57 48 0 (by decide) (by decide) ‹_›
    rwa [UInt32.add_zero] at hdigit
  · split at h
    · obtain rfl := Option.some.inj h
      exact @hrange 97 102 97 10 (by decide) (by decide) ‹_›
    · split at h
      · obtain rfl := Option.some.inj h
        exact @hrange 65 70 65 10 (by decide) (by decide) ‹_›
      · cases h

/-- One digit more. -/
theorem toNat_shiftLeft_or (v : UInt32) {d : UInt32} (hd : d.toNat < 16) :
    ((v <<< 4) ||| d).toNat = (v.toNat * 16 + d.toNat) % 2 ^ 32 := by
  have hv := v.toNat_lt
  have hshift : (v <<< 4).toNat = (v.toNat % 2 ^ 28) <<< 4 := by
    rw [UInt32.toNat_shiftLeft, Nat.shiftLeft_eq, Nat.shiftLeft_eq]
    show v.toNat * 2 ^ 4 % 2 ^ 32 = _
    omega
  rw [UInt32.toNat_or, hshift, ← Nat.shiftLeft_add_eq_or_of_lt hd, Nat.shiftLeft_eq]
  omega

theorem valueFrom_mod (v : Nat) (s : Text) :
    valueFrom (v % 2 ^ 32) s % 2 ^ 32 = valueFrom v s % 2 ^ 32 := by
  induction s generalizing v with
  | nil => exact Nat.mod_mod _ _
  | cons c s ih =>
    show valueFrom (v % 2 ^ 32 * 16 + ((hexDigit c).getD 0).toNat) s % 2 ^ 32 =
      valueFrom (v * 16 + ((hexDigit c).getD 0).toNat) s % 2 ^ 32
    rw [← ih, ← ih (v * 16 + _), Nat.add_mod, Nat.mod_mul_mod, ← Nat.add_mod]

/-- **The loop of `mon_hex`.** -/
theorem monHexLoop_eq (s : Text) (v : UInt32) (digits : Nat) : monHexLoop s v digits =
    if ∀ c ∈ s, (hexDigit c).isSome then
      (UInt32.ofNat (valueFrom v.toNat s), decide (digits + s.length ≠ 0))
    else (0, false) := by
  induction s generalizing v digits with
  | nil => simp [monHexLoop, valueFrom]
  | cons c s ih =>
    cases hc : hexDigit c with
    | none => simp [monHexLoop, hc]
    | some d =>
      have hvalue : UInt32.ofNat (valueFrom ((v <<< 4) ||| d).toNat s) =
          UInt32.ofNat (valueFrom v.toNat (c :: s)) := by
        apply UInt32.toNat_inj.mp
        rw [UInt32.toNat_ofNat', UInt32.toNat_ofNat', toNat_shiftLeft_or v (hexDigit_lt hc),
          valueFrom_mod]
        show _ = valueFrom (v.toNat * 16 + ((hexDigit c).getD 0).toNat) s % 2 ^ 32
        rw [hc]
        rfl
      rw [monHexLoop, hc]
      dsimp only
      rw [ih, hvalue]
      simp only [List.forall_mem_cons, hc, Option.isSome_some, true_and, List.length_cons]
      simp [Nat.add_assoc, Nat.add_comm 1]

theorem monHex_of_digits {w : Text} (h : Digits w) :
    monHex w = (UInt32.ofNat (hexValue w), true) := by
  have hlen : (skip0x w).length ≠ 0 := fun hlen => h.1 (List.length_eq_zero_iff.mp hlen)
  rw [monHex, monHexLoop_eq, if_pos h.2, Nat.zero_add, decide_eq_true hlen]
  rfl

theorem monHex_of_not_digits {w : Text} (h : ¬ Digits w) : monHex w = (0, false) := by
  rw [monHex, monHexLoop_eq]
  split
  · next hall =>
      have hnil : skip0x w = [] := by
        by_contra hnil
        exact h ⟨hnil, hall⟩
      rw [hnil]
      rfl
  · rfl

/-- What `mon_hex` says. -/
theorem monHex_ok (w : Text) : (monHex w).2 = decide (Digits w) := by
  by_cases h : Digits w
  · rw [monHex_of_digits h, decide_eq_true h]
  · rw [monHex_of_not_digits h, decide_eq_false h]

theorem toNat_monHex {w : Text} (h : Digits w) : (monHex w).1.toNat = hexValue w % 2 ^ 32 := by
  rw [monHex_of_digits h]
  exact UInt32.toNat_ofNat'

theorem toNat_monHex_of_isNumber {w : Text} (h : IsNumber w) : (monHex w).1.toNat = hexValue w := by
  rw [toNat_monHex h.1, Nat.mod_eq_of_lt h.2]

/-! ## Device numbers -/

/-- A device number keeps both numbers exactly if they have eight bits. -/
theorem mkdev_iff (ma mi : UInt32) : major (mkdev ma mi) = ma.toNat ∧
    minor (mkdev ma mi) = mi.toNat ↔
    ma.toNat < 256 ∧ mi.toNat < 256 := by
  have hmajor : major (mkdev ma mi) = (mkdev ma mi).toNat / 256 := by
    rw [major, UInt16.toNat_shiftRight]
    exact Nat.shiftRight_eq_div_pow _ 8
  have hminor : minor (mkdev ma mi) = (mkdev ma mi).toNat % 256 := by
    rw [minor, UInt16.toNat_and]
    exact Nat.and_two_pow_sub_one_eq_mod _ 8
  have hdev := (mkdev ma mi).toNat_lt
  rw [hmajor, hminor]
  constructor
  · omega
  · rintro ⟨hma, hmi⟩
    have hshift : (ma <<< 8).toNat = ma.toNat <<< 8 := by
      rw [UInt32.toNat_shiftLeft, Nat.shiftLeft_eq]
      show ma.toNat * 2 ^ 8 % 2 ^ 32 = ma.toNat <<< 8
      rw [Nat.shiftLeft_eq]
      omega
    have hvalue : (mkdev ma mi).toNat = ma.toNat * 256 + mi.toNat := by
      rw [mkdev, UInt32.toNat_toUInt16, UInt32.toNat_or, hshift,
        ← Nat.shiftLeft_add_eq_or_of_lt (show mi.toNat < 2 ^ 8 from hmi), Nat.shiftLeft_eq]
      omega
    rw [hvalue]
    omega

/-! ## The commands -/

section Commands

variable {argv : List Text} {a : Access}

/-- The number that a command has for a word. -/
def value (argv : List Text) (i : Nat) : UInt32 := (monHex (arg argv i)).1

theorem monHex_eq (w : Text) : monHex w = ((monHex w).1, decide (Digits w)) :=
  Prod.ext rfl (monHex_ok w)

theorem cmdBlk_ok_iff : cmdBlk argv = .ok a ↔ ¬ Command.Refused argv .blk ∧
    a = .block false (mkdev (value argv 1) (value argv 2)) (value argv 3)
      (if 4 < argv.length then value argv 4 else 1024) := by
  rw [cmdBlk, Command.Refused, monHex_eq (arg argv 3), monHex_eq (arg argv 4)]
  by_cases hlen : argv.length < 4
  · simp [hlen]
  · by_cases hsize : 4 < argv.length
    · by_cases hd : Digits (arg argv 4)
      · simp [hlen, hsize, hd, value, eq_comm]
      · simp [hlen, hsize, hd]
    · by_cases hd : Digits (arg argv 3)
      · simp [hlen, hsize, hd, value, eq_comm]
      · simp [hlen, hsize, hd]

theorem cmdBlktest_ok_iff : cmdBlktest argv = .ok a ↔ ¬ Command.Refused argv .blktest ∧
    a = .block true (mkdev (value argv 1) (value argv 2)) (value argv 3) 1024 := by
  rw [cmdBlktest, Command.Refused, monHex_eq (arg argv 3)]
  by_cases hlen : argv.length < 4
  · simp [hlen]
  · by_cases hd : Digits (arg argv 3)
    · simp [hlen, hd, value, eq_comm]
    · simp [hlen, hd]

/-- The value is zero: a bad number, or a multiple of 2 ^ 32. -/
theorem monHex_eq_zero_iff (w : Text) :
    (monHex w).1 = 0 ↔ ¬ Digits w ∨ hexValue w % 2 ^ 32 = 0 := by
  by_cases h : Digits w
  · rw [or_iff_right (not_not.mpr h), ← toNat_monHex h]
    exact UInt32.toNat_inj.symm
  · rw [monHex_of_not_digits h]
    exact iff_of_true rfl (.inl h)

theorem cmdBlkw_ok_iff : cmdBlkw argv = .ok a ↔ ¬ Command.Refused argv .blkw ∧
    a = .block true (mkdev (value argv 1) (value argv 2)) (value argv 3)
      (if 5 < argv.length then value argv 4 else 1024) := by
  have hzero := monHex_eq_zero_iff (arg argv 3)
  rw [cmdBlkw, Command.Refused, ← hzero, monHex_eq (arg argv 3), monHex_eq (arg argv 4)]
  by_cases husage : argv.length < 5 ∨ argv.getLast? ≠ some (ascii "yes")
  · rw [if_pos husage]
    rcases husage with hlen | hlast
    · simp [hlen]
    · simp [hlast]
  · rw [if_neg husage]
    obtain ⟨hlen, hlast⟩ := not_or.mp husage
    by_cases hsize : 5 < argv.length
    · by_cases hd : Digits (arg argv 4)
      · by_cases hblock : (monHex (arg argv 3)).1 = 0
        · simp [hsize, hd, hblock]
        · simp [hlen, not_not.mp hlast, hsize, hd, hblock, value, eq_comm]
      · simp [hsize, hd]
    · by_cases hd : Digits (arg argv 3)
      · by_cases hblock : (monHex (arg argv 3)).1 = 0
        · simp [hsize, hd, hblock]
        · simp [hlen, not_not.mp hlast, hsize, hd, hblock, value, eq_comm]
      · simp [hsize, hd]

theorem cmdCardFormat_ok_iff : cmdCardFormat argv = .ok a ↔ ¬ Command.Refused argv .cardFormat ∧
    a = .format (value argv 2) (if 4 < argv.length then value argv 4 else 0) := by
  rw [cmdCardFormat, Command.Refused, monHex_eq (arg argv 2), monHex_eq (arg argv 4)]
  by_cases husage : argv.length < 4 ∨ arg argv 3 ≠ ascii "yes"
  · rw [if_pos husage]
    rcases husage with hlen | hyes
    · simp [hlen]
    · simp [hyes]
  · rw [if_neg husage]
    obtain ⟨hlen, hyes⟩ := not_or.mp husage
    by_cases hd : Digits (arg argv 2)
    · have hslot : (monHex (arg argv 2)).1 > 7 ↔ 7 < hexValue (arg argv 2) % 2 ^ 32 := by
        rw [← toNat_monHex hd]
        exact UInt32.lt_iff_toNat_lt
      rw [← hslot]
      by_cases hgt : (monHex (arg argv 2)).1 > 7
      · simp [hd, hgt]
      · by_cases hseq : 4 < argv.length
        · simp [hlen, not_not.mp hyes, hd, hgt, hseq, value, eq_comm]
        · simp [hlen, not_not.mp hyes, hd, hgt, hseq, value, eq_comm]
    · simp [hd]

/-- A command that is refused or makes one access. -/
theorem sound_iff_of_run {c : Command} {a₀ : Access}
    (hrun : ∀ a, c.run argv = .ok a ↔ ¬ c.Refused argv ∧ a = a₀) :
    c.Sound argv ↔ c.Refused argv ∨ ((∀ w ∈ c.numbers argv, IsNumber w) ∧
      a₀.values = (c.numbers argv).map hexValue ++ c.defaults argv) := by
  constructor
  · intro h
    by_cases hrefused : c.Refused argv
    · exact .inl hrefused
    · exact .inr (h a₀ ((hrun a₀).mpr ⟨hrefused, rfl⟩))
  · rintro (hrefused | hok) a ha
    · exact absurd hrefused ((hrun a).mp ha).1
    · rw [((hrun a).mp ha).2]
      exact hok

/-- The values of a block access, when the words are numbers. -/
theorem block_values_iff {writes : Bool} {size : UInt32} {rest : List Nat}
    (h₁ : IsNumber (arg argv 1)) (h₂ : IsNumber (arg argv 2)) (h₃ : IsNumber (arg argv 3))
    (hsize : [size.toNat] = rest) :
    (Access.block writes (mkdev (value argv 1) (value argv 2)) (value argv 3) size).values =
        hexValue (arg argv 1) :: hexValue (arg argv 2) :: hexValue (arg argv 3) :: rest ↔
      hexValue (arg argv 1) < 256 ∧ hexValue (arg argv 2) < 256 := by
  have hmkdev := mkdev_iff (value argv 1) (value argv 2)
  rw [value, value, toNat_monHex_of_isNumber h₁, toNat_monHex_of_isNumber h₂] at hmkdev
  rw [← hmkdev, Access.values, hsize, value, value, value, toNat_monHex_of_isNumber h₃]
  simp

/-- The same for a command that takes a size or not. -/
theorem sized_values_iff {writes : Bool} (given : Prop) [Decidable given]
    (hall : ∀ w ∈ [arg argv 1, arg argv 2, arg argv 3] ++ if given then [arg argv 4] else [],
      IsNumber w) :
    (Access.block writes (mkdev (value argv 1) (value argv 2)) (value argv 3)
        (if given then value argv 4 else 1024)).values =
        ([arg argv 1, arg argv 2, arg argv 3] ++ if given then [arg argv 4] else []).map hexValue ++
          (if given then [] else [1024]) ↔
      hexValue (arg argv 1) < 256 ∧ hexValue (arg argv 2) < 256 := by
  by_cases hgiven : given
  · simp only [hgiven, if_true] at hall ⊢
    refine block_values_iff (hall _ (by simp)) (hall _ (by simp)) (hall _ (by simp)) ?_
    rw [value, toNat_monHex_of_isNumber (hall _ (by simp))]
    rfl
  · simp only [hgiven, if_false] at hall ⊢
    exact block_values_iff (hall _ (by simp)) (hall _ (by simp)) (hall _ (by simp)) rfl

/-- **A command uses what it was given** exactly if it refuses the line, or all the words that are
numbers for it are numbers and the device number has room for them. -/
theorem Command.sound_iff (c : Command) (argv : List Text) : c.Sound argv ↔
    c.Refused argv ∨ (∀ w ∈ c.numbers argv, IsNumber w) ∧ c.DeviceFits argv := by
  cases c with
  | blk =>
    rw [sound_iff_of_run (c := .blk) fun a => cmdBlk_ok_iff]
    exact or_congr Iff.rfl (and_congr_right fun hall => sized_values_iff (4 < argv.length) hall)
  | blkw =>
    rw [sound_iff_of_run (c := .blkw) fun a => cmdBlkw_ok_iff]
    exact or_congr Iff.rfl (and_congr_right fun hall => sized_values_iff (5 < argv.length) hall)
  | blktest =>
    rw [sound_iff_of_run (c := .blktest) fun a => cmdBlktest_ok_iff]
    refine or_congr Iff.rfl (and_congr_right fun hall => ?_)
    simp only [numbers, defaults] at hall ⊢
    exact block_values_iff (hall _ (by simp)) (hall _ (by simp)) (hall _ (by simp)) rfl
  | cardFormat =>
    rw [sound_iff_of_run (c := .cardFormat) fun a => cmdCardFormat_ok_iff]
    refine or_congr Iff.rfl (and_congr_right fun hall => iff_of_true ?_ trivial)
    by_cases hseq : 4 < argv.length
    · simp only [numbers, defaults, hseq, if_true] at hall ⊢
      rw [Access.values, value, value, toNat_monHex_of_isNumber (hall _ (by simp)),
        toNat_monHex_of_isNumber (hall _ (by simp))]
      rfl
    · simp only [numbers, defaults, hseq, if_false] at hall ⊢
      rw [Access.values, value, toNat_monHex_of_isNumber (hall _ (by simp))]
      rfl

end Commands

/-! ## Lines -/

/-- The line does what these commands are to do, if it is for one of them. -/
def LineSound (line : Text) : Prop :=
  ∀ c, commandOf (monSplit line) = some c → c.Sound (monSplit line)

/-- **On every line** a device or a card is used only with valid arguments, and then with just
these, exactly if the line is refused, or all its numbers are valid and the device number has room
for them. -/
theorem lineSound_iff (line : Text) : LineSound line ↔
    ∀ c, commandOf (monSplit line) = some c → c.Refused (monSplit line) ∨
      (∀ w ∈ c.numbers (monSplit line), IsNumber w) ∧ c.DeviceFits (monSplit line) :=
  forall_congr' fun c => imp_congr_right fun _ => c.sound_iff (monSplit line)

/-- A line that writes to the device 0, 0 for want of a major number. -/
def badMajorLine : Text := ascii "blkw zz 0 5 yes"

theorem bad_major_writes : commandOf (monSplit badMajorLine) = some .blkw ∧
    Command.run (monSplit badMajorLine) .blkw = .ok (.block true 0 5 1024) ∧
    ¬ LineSound badMajorLine := by
  have hcommand : commandOf (monSplit badMajorLine) = some .blkw := by decide +kernel
  have hrun : Command.run (monSplit badMajorLine) .blkw = .ok (.block true 0 5 1024) := by
    decide +kernel
  refine ⟨hcommand, hrun, fun h => ?_⟩
  have hvalid := (h .blkw hcommand _ hrun).1 (ascii "zz") (by decide +kernel)
  exact absurd hvalid (by decide +kernel)

end Brmon
end Blackroo
