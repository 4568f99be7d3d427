import Blackroo.Lib.MixedRadix

/-!
# The addresses of `cd_lba_to_msf`

`Setloc` takes minutes, seconds and frames, two decimal digits to the byte, and the lead-in of two
seconds is part of the count.  Two conversions are behind one another: the number of frames goes to
the radices 60 and 75, and each of the three digits goes to decimal.  The minutes are the digit
without a bound, so that the two decimal digits of a byte suffice for them up to 450000 frames.

The bytes can be compared as they stand: a packed byte is in the order of its value
(`lt_of_bcdValue`), and minutes, seconds and frames are in the order of the number of frames.
-/

namespace Blackroo
namespace Cdrom

open MixedRadix

/-- One byte of `cd_lba_to_msf`: two decimal digits, packed. -/
def packedBcd (n : UInt32) : UInt8 := (((n / 10) <<< 4) ||| (n % 10)).toUInt8

/-- A minute, second, frame address as the `Setloc` parameters carry it. -/
structure Msf where
  mm : UInt8
  ss : UInt8
  ff : UInt8
  deriving DecidableEq, Repr

/-- `cd_lba_to_msf`. -/
def cdLbaToMsf (lba : UInt32) : Msf :=
  let t := lba + 150
  ⟨packedBcd (t / (75 * 60)), packedBcd ((t / 75) % 60), packedBcd (t % 75)⟩

/-- A packed decimal byte as the drive reads it. -/
def bcdValue (b : UInt8) : Option Nat :=
  if b.toNat / 16 < 10 ∧ b.toNat % 16 < 10 then some (10 * (b.toNat / 16) + b.toNat % 16)
  else none

/-- The sector a `Setloc` addresses, if its parameters are valid. -/
def Msf.sector (a : Msf) : Option Nat :=
  match bcdValue a.mm, bcdValue a.ss, bcdValue a.ff with
  | some m, some s, some f =>
    if s < 60 ∧ f < 75 ∧ 150 ≤ (m * 60 + s) * 75 + f then some ((m * 60 + s) * 75 + f - 150)
    else none
  | _, _, _ => none

/-- The three bytes in the order in which they are sent. -/
def Msf.bytes (a : Msf) : List UInt8 := [a.mm, a.ss, a.ff]

/-- The bytes are valid, and these are the numbers they stand for. -/
structure Msf.Reads (a : Msf) (m s f : Nat) : Prop where
  minutes : bcdValue a.mm = some m
  seconds : bcdValue a.ss = some s
  frames : bcdValue a.ff = some f

/-! ## Packed bytes -/

theorem bcdValue_packedBcd {n : UInt32} (h : n.toNat < 100) :
    bcdValue (packedBcd n) = some n.toNat := by
  have key : ∀ k : Fin 100, bcdValue (packedBcd (UInt32.ofNat k)) = some k.val := by decide
  have hn : UInt32.ofNat n.toNat = n := UInt32.ofNat_toNat
  rw [← hn]
  simpa using key ⟨n.toNat, h⟩

theorem bcdValue_eq_some {b : UInt8} {n : Nat} (h : bcdValue b = some n) :
    b.toNat % 16 < 10 ∧ n = 10 * (b.toNat / 16) + b.toNat % 16 := by
  unfold bcdValue at h
  split at h
  · next hdigits => exact ⟨hdigits.2, (Option.some.inj h).symm⟩
  · cases h

/-- Valid bytes are in the order of their values. -/
theorem lt_of_bcdValue {a b : UInt8} {m n : Nat} (ha : bcdValue a = some m)
    (hb : bcdValue b = some n) (h : m < n) : a < b := by
  obtain ⟨ha, rfl⟩ := bcdValue_eq_some ha
  obtain ⟨hb, rfl⟩ := bcdValue_eq_some hb
  rw [UInt8.lt_iff_toNat_lt]
  omega

theorem eq_of_bcdValue {a b : UInt8} {n : Nat} (ha : bcdValue a = some n)
    (hb : bcdValue b = some n) : a = b := by
  obtain ⟨ha, hn⟩ := bcdValue_eq_some ha
  obtain ⟨hb, rfl⟩ := bcdValue_eq_some hb
  apply UInt8.toNat_inj.mp
  omega

/-- What is in the order of the numbers is in the order of the bytes. -/
theorem Msf.Reads.bytes_lt {a b : Msf} {m s f m' s' f' : Nat} (ha : a.Reads m s f)
    (hb : b.Reads m' s' f') (h : [m, s, f] < [m', s', f']) : a.bytes < b.bytes := by
  simp only [List.cons_lt_cons_iff] at h
  simp only [Msf.bytes, List.cons_lt_cons_iff]
  rcases h with hm | ⟨rfl, hs | ⟨rfl, hf | ⟨-, hnil⟩⟩⟩
  · exact .inl (lt_of_bcdValue ha.minutes hb.minutes hm)
  · exact .inr ⟨eq_of_bcdValue ha.minutes hb.minutes,
      .inl (lt_of_bcdValue ha.seconds hb.seconds hs)⟩
  · exact .inr ⟨eq_of_bcdValue ha.minutes hb.minutes, .inr ⟨eq_of_bcdValue ha.seconds hb.seconds,
      .inl (lt_of_bcdValue ha.frames hb.frames hf)⟩⟩
  · exact absurd hnil (List.not_lt_nil _)

/-! ## Minutes, seconds and frames -/

/-- The code's quotients and remainders are the digits in the radices 60 and 75. -/
theorem digits_frames (t : Nat) : digits [60, 75] t = [t / 4500, t / 75 % 60, t % 75] := by
  have hs : t % 4500 / 75 = t / 75 % 60 := by omega
  have hf : t % 4500 % 75 = t % 75 := by omega
  show [t / 4500, t % 4500 / 75, t % 4500 % 75] = _
  rw [hs, hf]

/-- `cd_lba_to_msf` writes the digits of the number of frames, lead-in included. -/
theorem reads_cdLbaToMsf {lba : UInt32} (h : lba.toNat + 150 < 450000) :
    (cdLbaToMsf lba).Reads ((lba.toNat + 150) / 4500) ((lba.toNat + 150) / 75 % 60)
      ((lba.toNat + 150) % 75) := by
  have ht : (lba + 150).toNat = lba.toNat + 150 := by
    rw [UInt32.toNat_add]
    exact Nat.mod_eq_of_lt (by
      show lba.toNat + 150 < 2 ^ 32
      omega)
  have hm : ((lba + 150) / (75 * 60)).toNat = (lba.toNat + 150) / 4500 := by
    rw [UInt32.toNat_div, ht]
    rfl
  have hs : ((lba + 150) / 75 % 60).toNat = (lba.toNat + 150) / 75 % 60 := by
    rw [UInt32.toNat_mod, UInt32.toNat_div, ht]
    rfl
  have hf : ((lba + 150) % 75).toNat = (lba.toNat + 150) % 75 := by
    rw [UInt32.toNat_mod, ht]
    rfl
  constructor
  · rw [← hm]
    exact bcdValue_packedBcd (by omega)
  · rw [← hs]
    exact bcdValue_packedBcd (by omega)
  · rw [← hf]
    exact bcdValue_packedBcd (by omega)

/-- **`Setloc` addresses the sector it was given**, for every address a disc has. -/
theorem sector_cdLbaToMsf {lba : UInt32} (h : lba.toNat + 150 < 450000) :
    (cdLbaToMsf lba).sector = some lba.toNat := by
  have hreads := reads_cdLbaToMsf h
  unfold Msf.sector
  rw [hreads.minutes, hreads.seconds, hreads.frames]
  have hsum : ((lba.toNat + 150) / 4500 * 60 + (lba.toNat + 150) / 75 % 60) * 75 +
      (lba.toNat + 150) % 75 = lba.toNat + 150 := by omega
  simp only [hsum]
  rw [if_pos ⟨by omega, by omega, by omega⟩]
  simp

/-- From 100 minutes on the tens are no decimal digit. -/
theorem bcdValue_packedBcd_eq_none {n : UInt32} (h : 100 ≤ n.toNat) (h' : n.toNat < 160) :
    bcdValue (packedBcd n) = none := by
  have key : ∀ k : Fin 60, bcdValue (packedBcd (UInt32.ofNat (k + 100))) = none := by decide
  have hn : UInt32.ofNat (n.toNat - 100 + 100) = n := by
    rw [Nat.sub_add_cancel h]
    exact UInt32.ofNat_toNat
  rw [← hn]
  exact key ⟨n.toNat - 100, by omega⟩

/-- Up to 160 minutes `Setloc` addresses no other sector than the one it was given. -/
theorem sector_of_cdLbaToMsf {lba : UInt32} {s : Nat} (h : lba.toNat + 150 < 720000)
    (hs : (cdLbaToMsf lba).sector = some s) : s = lba.toNat := by
  by_cases hlt : lba.toNat + 150 < 450000
  · rw [sector_cdLbaToMsf hlt] at hs
    exact (Option.some.inj hs).symm
  · have ht : ((lba + 150) / (75 * 60)).toNat = (lba.toNat + 150) / 4500 := by
      rw [UInt32.toNat_div, UInt32.toNat_add]
      show (lba.toNat + 150) % 2 ^ 32 / 4500 = _
      rw [Nat.mod_eq_of_lt (by omega)]
    have hnone : bcdValue (cdLbaToMsf lba).mm = none :=
      bcdValue_packedBcd_eq_none (by omega) (by omega)
    rw [Msf.sector, hnone] at hs
    cases hs

/-- **Below 450000 frames every address has its bytes.**  They are valid, with seconds below 60 and
frames below 75, they stand for the sector they were computed from, and a later sector has later
bytes. -/
theorem cdLbaToMsf_faithful (lba : UInt32) (h : lba.toNat + 150 < 450000) :
    (∃ m s f : Nat, (cdLbaToMsf lba).Reads m s f ∧ s < 60 ∧ f < 75 ∧
      (((m * 60 + s) * 75 + f : Nat) : Int) - 150 = lba.toNat) ∧
    ∀ lba' : UInt32, lba'.toNat + 150 < 450000 → lba < lba' →
      (cdLbaToMsf lba).bytes < (cdLbaToMsf lba').bytes := by
  constructor
  · refine ⟨_, _, _, reads_cdLbaToMsf h, Nat.mod_lt _ (by decide), Nat.mod_lt _ (by decide), ?_⟩
    have hvalue := value_digits [60, 75] (lba.toNat + 150)
    rw [digits_frames] at hvalue
    simp only [value, List.prod_cons, List.prod_nil] at hvalue
    omega
  · intro lba' h' hlt
    apply (reads_cdLbaToMsf h).bytes_lt (reads_cdLbaToMsf h')
    rw [← digits_frames, ← digits_frames]
    have hnat : lba.toNat < lba'.toNat := UInt32.lt_iff_toNat_lt.mp hlt
    exact digits_lt_digits _ (by omega)

/-- From the last frame of a minute to the first of the next one. -/
theorem cdLbaToMsf_faithful_minute :
    (cdLbaToMsf 4349).bytes = [0x00, 0x59, 0x74] ∧ (cdLbaToMsf 4350).bytes = [0x01, 0x00, 0x00] ∧
      (cdLbaToMsf 4349).bytes < (cdLbaToMsf 4350).bytes :=
  ⟨by decide, by decide, (cdLbaToMsf_faithful 4349 (by decide)).2 4350 (by decide) (by decide)⟩

end Cdrom
end Blackroo
