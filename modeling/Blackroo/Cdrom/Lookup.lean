import Mathlib.Algebra.Order.Group.Nat
import Mathlib.Data.List.GetD
import Blackroo.Cdrom.Iso9660

/-!
# What the lookup finds, and what it touches

The search walk of `psxcd_iso_lookup` stops at the first record, in scan order, that is a
file of the wanted name.  `searchRoot_result` says how it ends: at that record, at the
first sector that cannot be read, or at the end of a directory without such a record.
`psxcdIsoLookup_result` puts the checks before and after it around that.

Every access is inside the two buffers as long as no record starts in the last 32 bytes of
a sector: the walk checks the end of a record by the length the record claims, and then
reads the length of the identifier at a fixed place behind its start
(`psxcdIsoLookup_inBounds_iff`).

## Two walks over the same records

A lookup that finds nothing reads the directory again and lists its names, so the accesses of both
walks count.  Each is an instance of one loop over the records of a sector (`val_walkRecords`,
`inBounds_walkRecords`): what a walk returns and where it stops are read off the list of the records
(`records`), and its accesses are those at the records before that.  From the sectors to the
directory the same is done once more, with `Reached` for the sectors that a walk gets to.
-/

namespace Blackroo
namespace Cdrom
namespace Iso9660

open Interaction LittleEndian Traced

/-! ## Reading the buffer -/

section Buffer

variable {mem mem' : Nat → UInt8} {behind : Nat → UInt8} {s : Sector} {want : FileName}

theorem probeMemory_of_lt {off : Nat} (h : off < 2048) :
    probeMemory behind s off = s.byte off := by
  rw [probeMemory, Sector.byte, dif_pos h, dif_pos h]

theorem bytesAt_congr {off n : Nat} (h : ∀ i, off ≤ i → i < off + n → mem i = mem' i) :
    bytesAt mem off n = bytesAt mem' off n := by
  induction n generalizing off with
  | zero => rfl
  | succ n ih =>
    rw [bytesAt, bytesAt, h off le_rfl (by omega),
      ih fun i h₁ h₂ => h i (by omega) (by omega)]

theorem wordAt_congr {off : Nat} (h : ∀ i, off ≤ i → i < off + 4 → mem i = mem' i) :
    wordAt mem off = wordAt mem' off := by
  rw [wordAt, wordAt, h off le_rfl (by omega), h (off + 1) (by omega) (by omega),
    h (off + 2) (by omega) (by omega), h (off + 3) (by omega) (by omega)]

theorem take_bytesAt (off : Nat) {m n : Nat} (h : m ≤ n) :
    (bytesAt mem off n).take m = bytesAt mem off m := by
  induction m generalizing off n with
  | zero => rw [List.take_zero, bytesAt]
  | succ m ih =>
    obtain ⟨k, rfl⟩ : ∃ k, n = k + 1 := ⟨n - 1, by omega⟩
    rw [bytesAt, List.take_succ_cons, ih (off + 1) (by omega), bytesAt]

@[simp] theorem val_load_bind {α : Type} (off : Nat) (f : UInt8 → Traced Access α) :
    (load mem off >>= f).val = (f (mem off)).val := rfl

@[simp] theorem inBounds_load_bind {α : Type} (off : Nat) (f : UInt8 → Traced Access α) :
    All Access.InBounds (load mem off >>= f) ↔
      off < 2048 ∧ All Access.InBounds (f (mem off)) := by
  rw [all_bind, load, all_bind, all_touch, and_assoc]
  exact and_congr Iff.rfl (and_iff_right (all_pure _))

@[simp] theorem val_isoLe32 (p : Nat) : (isoLe32 mem p).val = wordAt mem p := rfl

@[simp] theorem inBounds_isoLe32 (p : Nat) :
    All Access.InBounds (isoLe32 mem p) ↔ p + 3 < 2048 := by
  simp only [isoLe32, inBounds_load_bind, all_pure, and_true]
  omega

theorem val_versionAt (id n i : Nat) :
    (versionAt mem id n i).val = i + ((bytesAt mem (id + i) n).takeWhile (· ≠ 59)).length := by
  induction n generalizing i with
  | zero => rfl
  | succ n ih =>
    simp only [versionAt, val_load_bind]
    by_cases h : mem (id + i) = 59
    · rw [if_pos h, bytesAt, List.takeWhile_cons_of_neg (by simpa using h)]
      rfl
    · rw [if_neg h, ih, bytesAt, List.takeWhile_cons_of_pos (by simpa using h), List.length_cons,
        Nat.add_assoc id i 1]
      omega

theorem charAt_eq_zero_iff (i : Nat) : want.charAt i = 0 ↔ want.chars.length ≤ i := by
  rw [FileName.charAt]
  rcases Nat.lt_or_ge i want.chars.length with h | h
  · rw [List.getD_eq_getElem _ _ h]
    have hne := want.ne_zero _ (List.getElem_mem h)
    have : (want.chars[i]).toInt ≠ 0 := fun h0 => hne (Int8.toInt_inj.mp h0)
    simp only [this, false_iff]
    omega
  · rw [List.getD_eq_default _ _ h]
    simpa using h

theorem val_sameLetters (id n i : Nat) :
    (sameLetters mem id want n i).val =
      decide ((bytesAt mem (id + i) n).map (fun a => upper a.toNat) =
        (want.chars.drop i).map fun c => upper c.toInt) := by
  induction n generalizing i with
  | zero =>
    rw [sameLetters, val_pure, bytesAt, List.map_nil]
    refine decide_eq_decide.mpr ?_
    rw [charAt_eq_zero_iff, eq_comm, List.map_eq_nil_iff, List.drop_eq_nil_iff]
  | succ n ih =>
    simp only [sameLetters, val_load_bind]
    rw [bytesAt, List.map_cons]
    rcases Nat.lt_or_ge i want.chars.length with h | h
    · have h0 : want.charAt i ≠ 0 := fun h0 => by
        have := (charAt_eq_zero_iff i).mp h0
        omega
      have hc : want.charAt i = (want.chars[i]).toInt := by
        rw [FileName.charAt, List.getD_eq_getElem _ _ h]
      rw [if_neg h0, List.drop_eq_getElem_cons h, List.map_cons, hc]
      by_cases he : upper (mem (id + i)).toNat = upper (want.chars[i]).toInt
      · rw [if_neg (not_not.mpr he), ih, he]
        refine decide_eq_decide.mpr ?_
        rw [List.cons_inj_right, Nat.add_assoc id i 1]
      · rw [if_pos he, val_pure]
        refine (decide_eq_false fun hcons => he ?_).symm
        exact (List.cons_eq_cons.mp hcons).1
    · rw [if_pos ((charAt_eq_zero_iff i).mpr h), val_pure, List.drop_eq_nil_of_le h]
      simp

/-- `iso_name_eq` compares as it says. -/
theorem val_isoNameEq (id n : Nat) :
    (isoNameEq mem id n want).val = decide (SameName (bytesAt mem id n) want) := by
  have hpre := List.takeWhile_prefix (l := bytesAt mem id n) (fun a => decide (a ≠ 59))
  have hle : ((bytesAt mem id n).takeWhile (· ≠ 59)).length ≤ n := by
    have := hpre.length_le
    rwa [length_bytesAt] at this
  rw [isoNameEq, val_bind, val_sameLetters, val_versionAt, List.drop_zero, Nat.zero_add,
    Nat.add_zero]
  refine decide_eq_decide.mpr ?_
  rw [SameName, ← take_bytesAt id hle, ← List.prefix_iff_eq_take.mp hpre]

theorem val_versionAt_le (id n i : Nat) : (versionAt mem id n i).val ≤ i + n := by
  rw [val_versionAt]
  have := (List.takeWhile_prefix (l := bytesAt mem (id + i) n) (fun a => decide (a ≠ 59))).length_le
  rw [length_bytesAt] at this
  omega

theorem inBounds_versionAt {id n i : Nat} (h : id + i + n ≤ 2048) :
    All Access.InBounds (versionAt mem id n i) := by
  induction n generalizing i with
  | zero => exact all_pure i
  | succ n ih =>
    rw [versionAt, inBounds_load_bind]
    refine ⟨by omega, ?_⟩
    split
    · exact all_pure i
    · exact ih (by omega)

theorem inBounds_sameLetters {id n i : Nat} (h : id + i + n ≤ 2048) :
    All Access.InBounds (sameLetters mem id want n i) := by
  induction n generalizing i with
  | zero => exact all_pure _
  | succ n ih =>
    rw [sameLetters, inBounds_load_bind]
    refine ⟨by omega, ?_⟩
    dsimp only
    split
    · exact all_pure _
    · split
      · exact all_pure _
      · exact ih (by omega)

theorem inBounds_isoNameEq {id n : Nat} (h : id + n ≤ 2048) :
    All Access.InBounds (isoNameEq mem id n want) := by
  rw [isoNameEq, all_bind]
  refine ⟨inBounds_versionAt (by omega), inBounds_sameLetters ?_⟩
  have := @val_versionAt_le mem id n 0
  omega

theorem inBounds_copyName {id n i : Nat} (h : id + i + n ≤ 2048) (hn : i + n < 40) :
    All Access.InBounds (copyName mem id n i) := by
  induction n generalizing i with
  | zero => exact (all_touch _).mpr hn
  | succ n ih =>
    rw [copyName, inBounds_load_bind, all_bind, all_touch]
    refine ⟨by omega, ?_, ih (by omega) (by omega)⟩
    show i < 40
    omega

theorem inBounds_printName {n i : Nat} (hn : i + n < 40) :
    All Access.InBounds (printName n i) := by
  induction n generalizing i with
  | zero => exact (all_touch _).mpr hn
  | succ n ih =>
    simp only [printName, all_bind, all_touch]
    refine ⟨?_, ih (by omega)⟩
    show i < 40
    omega

end Buffer

/-! ## One record -/

section Visit

variable {behind : Nat → UInt8} {s : Sector} {want : FileName} {off : Nat}

/-- A record too short for an identifier is passed over, whatever is read in the place of
its length. -/
theorem val_searchRecord (h : Fits s off) :
    (searchRecord (probeMemory behind s) want off (recLen s off)).val =
      if Wanted want s off then some (entryAt s off) else none := by
  obtain ⟨hoff, -, hend⟩ := h
  simp only [searchRecord, val_load_bind]
  by_cases hin : off + 32 < 2048
  · rw [probeMemory_of_lt hin, probeMemory_of_lt (by omega)]
    by_cases hc : s.byte (off + 25) &&& 2 = 0 ∧ 0 < (s.byte (off + 32)).toNat ∧
        33 + (s.byte (off + 32)).toNat ≤ recLen s off
    · have hname : bytesAt (probeMemory behind s) (off + 33) (s.byte (off + 32)).toNat =
          recName s off := bytesAt_congr fun i h₁ h₂ => probeMemory_of_lt (by omega)
      have hext : wordAt (probeMemory behind s) (off + 2) = recExtent s off :=
        wordAt_congr fun i h₁ h₂ => probeMemory_of_lt (by omega)
      have hsize : wordAt (probeMemory behind s) (off + 10) = recSize s off :=
        wordAt_congr fun i h₁ h₂ => probeMemory_of_lt (by omega)
      rw [if_pos hc, val_bind, val_isoNameEq, hname]
      by_cases hsame : SameName (recName s off) want
      · rw [if_pos (decide_eq_true hsame), if_pos ⟨hc.1, hc.2.1, hc.2.2, hsame⟩]
        simp only [val_bind, val_isoLe32, val_pure, hext, hsize, entryAt]
      · rw [if_neg (by simpa using hsame), if_neg fun hw => hsame hw.2.2.2]
        rfl
    · rw [if_neg hc, if_neg fun hw => hc ⟨hw.1, hw.2.1, hw.2.2.1⟩]
      rfl
  · have hshort : ¬ Wanted want s off := fun hw => by
      have h₁ := hw.2.1
      have h₂ := hw.2.2.1
      omega
    rw [if_neg (fun hc => by omega), if_neg hshort]
    rfl

/-- Looking at a record is safe unless it starts too close to the end of the sector. -/
theorem inBounds_searchRecord (h : Fits s off) :
    All Access.InBounds (searchRecord (probeMemory behind s) want off (recLen s off)) ↔
      off + 32 < 2048 := by
  obtain ⟨hoff, -, hend⟩ := h
  simp only [searchRecord, inBounds_load_bind]
  refine ⟨fun hall => hall.1, fun hin => ⟨hin, by omega, ?_⟩⟩
  split
  · next hc =>
      rw [all_bind]
      refine ⟨inBounds_isoNameEq (by omega), ?_⟩
      split
      · simp only [all_bind, inBounds_isoLe32, all_pure, and_true]
        omega
      · exact all_pure _
  · exact all_pure _

theorem val_listRecord (mem : Nat → UInt8) (off reclen : Nat) :
    (listRecord mem off reclen).val = none := by
  simp only [listRecord, val_load_bind]
  split <;> rfl

theorem inBounds_listRecord (h : Fits s off) :
    All Access.InBounds (listRecord (probeMemory behind s) off (recLen s off)) ↔
      off + 32 < 2048 := by
  obtain ⟨hoff, -, hend⟩ := h
  simp only [listRecord, inBounds_load_bind]
  refine ⟨fun hall => hall.1, fun hin => ⟨hin, ?_⟩⟩
  split
  · next hc =>
      rw [all_bind, all_bind, inBounds_load_bind, all_bind, inBounds_isoLe32, all_bind,
        inBounds_isoLe32]
      exact ⟨inBounds_copyName (by omega) (by omega), inBounds_printName (by omega), by omega,
        by omega, by omega, all_pure _⟩
  · exact all_pure _

end Visit

/-! ## The records of a sector -/

section Walk

variable {s : Sector} {want : FileName}

/-- The records from an offset on, in scan order. -/
def records (s : Sector) : Nat → Nat → List Nat
  | 0, _ => []
  | fuel + 1, off => if Fits s off then off :: records s fuel (off + recLen s off) else []

theorem records_of_fits {fuel off : Nat} (h : Fits s off) :
    records s (fuel + 1) off = off :: records s fuel (off + recLen s off) := if_pos h

theorem records_of_not_fits {fuel off : Nat} (h : ¬ Fits s off) : records s fuel off = [] := by
  cases fuel with
  | zero => rfl
  | succ fuel => exact if_neg h

theorem fits_of_mem_records {fuel off o : Nat} (h : o ∈ records s fuel off) :
    off ≤ o ∧ Fits s o := by
  induction fuel generalizing off with
  | zero => cases h
  | succ fuel ih =>
    by_cases hf : Fits s off
    · rw [records_of_fits hf, List.mem_cons] at h
      rcases h with rfl | h
      · exact ⟨le_rfl, hf⟩
      · exact ⟨(Nat.le_add_right _ _).trans (ih h).1, (ih h).2⟩
    · rw [records_of_not_fits hf] at h
      cases h

theorem sortedLT_records (fuel off : Nat) : (records s fuel off).Pairwise (· < ·) := by
  induction fuel generalizing off with
  | zero => exact List.Pairwise.nil
  | succ fuel ih =>
    by_cases hf : Fits s off
    · rw [records_of_fits hf]
      refine List.pairwise_cons.mpr ⟨fun o ho => ?_, ih _⟩
      have h₁ := (fits_of_mem_records ho).1
      have h₂ := hf.2.1
      omega
    · rw [records_of_not_fits hf]
      exact List.Pairwise.nil

/-- Behind every record that is listed the next one is listed too, while the fuel covers
the rest of the sector. -/
theorem next_mem_records {fuel off o : Nat} (hfuel : 2048 ≤ fuel + off)
    (ho : o ∈ records s fuel off) (hnext : Fits s (o + recLen s o)) :
    o + recLen s o ∈ records s fuel off := by
  induction fuel generalizing off with
  | zero => cases ho
  | succ fuel ih =>
    have hf : Fits s off := by
      by_contra hf
      rw [records_of_not_fits hf] at ho
      cases ho
    have hlen := hf.2.1
    rw [records_of_fits hf, List.mem_cons] at ho
    rw [records_of_fits hf, List.mem_cons]
    right
    rcases ho with rfl | ho
    · obtain ⟨k, rfl⟩ : ∃ k, fuel = k + 1 := ⟨fuel - 1, by have := hnext.1; omega⟩
      rw [records_of_fits hnext]
      exact List.mem_cons_self
    · exact ih (by omega) ho

theorem record_of_mem_records {fuel off o : Nat} (hoff : Fits s off → Record s off)
    (ho : o ∈ records s fuel off) : Record s o := by
  induction fuel generalizing off with
  | zero => cases ho
  | succ fuel ih =>
    by_cases hf : Fits s off
    · rw [records_of_fits hf, List.mem_cons] at ho
      rcases ho with rfl | ho
      · exact hoff hf
      · exact ih (fun h => .next (hoff hf) h) ho
    · rw [records_of_not_fits hf] at ho
      cases ho

/-- The list of a whole sector has its records. -/
theorem mem_records_iff {o : Nat} : o ∈ records s 2048 0 ↔ Record s o := by
  refine ⟨record_of_mem_records .first, fun h => ?_⟩
  induction h with
  | first h =>
    rw [records_of_fits h]
    exact List.mem_cons_self
  | next _ h ih => exact next_mem_records le_rfl ih h

/-- The first record of a sector that a name asks for. -/
def FirstIn (want : FileName) (s : Sector) (off : Nat) : Prop :=
  Record s off ∧ Wanted want s off ∧ ∀ o < off, Record s o → ¬ Wanted want s o

variable {α : Type} {behind : Nat → UInt8} {visit : Nat → Nat → Traced Access (Option α)}

/-- The loop visits the records until it gets a result. -/
theorem val_walkRecords (fuel off : Nat) :
    (walkRecords (probeMemory behind s) visit fuel off).val =
      (records s fuel off).findSome? fun o => (visit o (recLen s o)).val := by
  induction fuel generalizing off with
  | zero => rfl
  | succ fuel ih =>
    rw [walkRecords]
    by_cases hoff : off < 2048
    · rw [if_pos hoff]
      simp only [val_load_bind]
      rw [probeMemory_of_lt hoff, ← recLen]
      by_cases h0 : recLen s off = 0
      · rw [if_pos h0, records_of_not_fits fun hf => hf.2.1 h0]
        rfl
      · rw [if_neg h0]
        by_cases hend : off + recLen s off > 2048
        · rw [if_pos hend, records_of_not_fits fun hf => by have := hf.2.2; omega]
          rfl
        · rw [if_neg hend, records_of_fits ⟨hoff, h0, by omega⟩, val_bind, List.findSome?_cons]
          cases (visit off (recLen s off)).val with
          | none => exact ih _
          | some a => rfl
    · rw [if_neg hoff, records_of_not_fits fun hf => hoff hf.1]
      rfl

/-- Its accesses are those at the records it visits. -/
theorem inBounds_walkRecords (fuel off : Nat) :
    All Access.InBounds (walkRecords (probeMemory behind s) visit fuel off) ↔
      ∀ o ∈ records s fuel off,
        (∀ o' ∈ records s fuel off, o' < o → (visit o' (recLen s o')).val = none) →
          All Access.InBounds (visit o (recLen s o)) := by
  induction fuel generalizing off with
  | zero =>
    refine ⟨fun _ o ho => ?_, fun _ => all_pure none⟩
    cases ho
  | succ fuel ih =>
    rw [walkRecords]
    by_cases hoff : off < 2048
    · rw [if_pos hoff]
      simp only [inBounds_load_bind, hoff, true_and]
      rw [probeMemory_of_lt hoff, ← recLen]
      by_cases h0 : recLen s off = 0
      · rw [if_pos h0, records_of_not_fits fun hf => hf.2.1 h0]
        simp
      · rw [if_neg h0]
        by_cases hend : off + recLen s off > 2048
        · rw [if_pos hend, records_of_not_fits fun hf => by have := hf.2.2; omega]
          simp
        · have hlater : ∀ o ∈ records s fuel (off + recLen s off), off < o := fun o ho => by
            have := (fits_of_mem_records ho).1
            omega
          rw [if_neg hend, records_of_fits ⟨hoff, h0, by omega⟩, all_bind]
          simp only [List.forall_mem_cons]
          refine and_congr ⟨fun h _ => h, fun h => h ⟨fun h => (lt_irrefl _ h).elim, ?_⟩⟩ ?_
          · intro o' ho' hlt
            have := hlater o' ho'
            omega
          · cases hv : (visit off (recLen s off)).val with
            | none =>
              rw [ih]
              simp
            | some a =>
              refine ⟨fun _ o ho hnone => ?_, fun _ => all_pure _⟩
              exact absurd (hnone.1 (hlater o ho)) (by simp)
    · rw [if_neg hoff, records_of_not_fits fun hf => hoff hf.1]
      simp

/-- The first hit in an increasing list. -/
theorem findSome?_cases {l : List Nat} (hl : l.Pairwise (· < ·)) {f : Nat → Option α}
    {p : Nat → Prop} [DecidablePred p] {g : Nat → α}
    (hf : ∀ o ∈ l, f o = if p o then some (g o) else none) :
    (∃ o ∈ l, p o ∧ (∀ o' ∈ l, o' < o → ¬ p o') ∧ l.findSome? f = some (g o)) ∨
      (∀ o ∈ l, ¬ p o) ∧ l.findSome? f = none := by
  induction l with
  | nil => exact .inr ⟨fun o ho => (List.not_mem_nil ho).elim, rfl⟩
  | cons a l ih =>
    obtain ⟨hlt, hl⟩ := List.pairwise_cons.mp hl
    have ha := hf a List.mem_cons_self
    by_cases hp : p a
    · refine .inl ⟨a, List.mem_cons_self, hp, fun o' ho' h => ?_, ?_⟩
      · rcases List.mem_cons.mp ho' with rfl | ho'
        · exact (lt_irrefl _ h).elim
        · exact (lt_asymm h (hlt o' ho')).elim
      · rw [List.findSome?_cons, ha, if_pos hp]
    · rw [if_neg hp] at ha
      rw [List.findSome?_cons, ha]
      rcases ih hl fun o ho => hf o (List.mem_cons_of_mem a ho) with
        ⟨o, ho, hpo, hfirst, heq⟩ | ⟨hnone, heq⟩
      · refine .inl ⟨o, List.mem_cons_of_mem a ho, hpo, fun o' ho' h => ?_, heq⟩
        rcases List.mem_cons.mp ho' with rfl | ho'
        · exact hp
        · exact hfirst o' ho' h
      · exact .inr ⟨List.forall_mem_cons.mpr ⟨hp, hnone⟩, heq⟩

/-- **One sector of the search**: it ends at the first record that the name asks for. -/
theorem searchSector_cases (behind : Nat → UInt8) (want : FileName) (s : Sector) :
    (∃ off, FirstIn want s off ∧ (searchSector behind want s).val = some (entryAt s off)) ∨
      (∀ off, Record s off → ¬ Wanted want s off) ∧ (searchSector behind want s).val = none := by
  rw [searchSector, val_walkRecords]
  rcases findSome?_cases (sortedLT_records 2048 0) (p := Wanted want s) (g := entryAt s)
      fun o ho => val_searchRecord (fits_of_mem_records ho).2 with
    ⟨o, ho, hw, hfirst, heq⟩ | ⟨hnone, heq⟩
  · exact .inl ⟨o, ⟨mem_records_iff.mp ho, hw,
      fun o' h hr => hfirst o' (mem_records_iff.mpr hr) h⟩, heq⟩
  · exact .inr ⟨fun o hr => hnone o (mem_records_iff.mpr hr), heq⟩

theorem inBounds_searchSector (behind : Nat → UInt8) (want : FileName) (s : Sector) :
    All Access.InBounds (searchSector behind want s) ↔
      ∀ off, Record s off → (∀ o < off, Record s o → ¬ Wanted want s o) → off + 32 < 2048 := by
  have hval : ∀ o, Record s o →
      ((searchRecord (probeMemory behind s) want o (recLen s o)).val = none ↔
        ¬ Wanted want s o) := fun o ho => by
    rw [val_searchRecord (fits_of_mem_records (mem_records_iff.mpr ho)).2]
    split <;> simp [*]
  rw [searchSector, inBounds_walkRecords]
  refine forall_congr' fun off => ?_
  rw [mem_records_iff]
  refine forall_congr' fun hoff => ?_
  rw [inBounds_searchRecord (fits_of_mem_records (mem_records_iff.mpr hoff)).2]
  refine imp_congr_left (forall_congr' fun o => ?_)
  rw [mem_records_iff]
  exact ⟨fun h hlt ho => (hval o ho).mp (h ho hlt), fun h ho hlt => (hval o ho).mpr (h hlt ho)⟩

theorem inBounds_listSector :
    All Access.InBounds (listSector behind s) ↔ ∀ off, Record s off → off + 32 < 2048 := by
  rw [listSector, inBounds_walkRecords]
  refine forall_congr' fun off => ?_
  rw [mem_records_iff]
  refine forall_congr' fun hoff => ?_
  rw [inBounds_listRecord (fits_of_mem_records (mem_records_iff.mpr hoff)).2]
  exact ⟨fun h => h fun o _ _ => val_listRecord _ o _, fun h _ => h⟩

end Walk

/-! ## The directory -/

section Directory

variable {answer : Nat → UInt32 → Option Sector} {behind : Nat → UInt8} {want : FileName}
  {lba len : UInt32}

@[simp] theorem run_hwRead_bind {α : Type} (lba : UInt32) (f : Option Sector → Lookup α)
    (t : Session) :
    run (respond answer) (hwRead lba >>= f) t =
      run (respond answer) (f (answer t.calls lba)) { t with calls := t.calls + 1 } := rfl

@[simp] theorem run_look_bind {α β : Type} (x : Traced Access α) (f : α → Lookup β)
    (t : Session) :
    run (respond answer) (look x >>= f) t =
      run (respond answer) (f x.val) { t with log := t.log ++ x.log } := rfl

/-- The search goes past a sector of the directory: it is read, and the file is not in it.
Read number 0 is the volume descriptor. -/
def Passed (answer : Nat → UInt32 → Option Sector) (want : FileName) (lba : UInt32)
    (sector : Nat) : Prop :=
  ∃ s, answer (sector + 1) (lba + .ofNat sector) = some s ∧
    ∀ off, Record s off → ¬ Wanted want s off

/-- A sector with a hit is not passed. -/
theorem not_passed {lba : UInt32} {k off : Nat} {s : Sector}
    (ha : answer (k + 1) (lba + .ofNat k) = some s) (hf : FirstIn want s off) :
    ¬ Passed answer want lba k := by
  rintro ⟨s', hs', hno⟩
  rw [ha] at hs'
  cases hs'
  exact hno off hf.1 hf.2.1

/-- Nor is one that cannot be read. -/
theorem not_passed_of_none {lba : UInt32} {k : Nat} (ha : answer (k + 1) (lba + .ofNat k) = none) :
    ¬ Passed answer want lba k := by
  rintro ⟨s, hs, -⟩
  rw [ha] at hs
  cases hs

/-- What is true of one place and of all behind it is true from that place on. -/
theorem forall_ge_of_succ {P : Nat → Prop} {j : Nat} (hj : P j) (h : ∀ i, j + 1 ≤ i → P i) (i : Nat)
    (hi : j ≤ i) : P i := by
  rcases Nat.eq_or_lt_of_le hi with rfl | hi
  · exact hj
  · exact h i hi

/-- What is true of every sector that a walk through a directory of `n` bytes gets to, from sector
`j` on.  The walk goes on behind the sectors that it passes. -/
def Reached (read : Nat → Option Sector) (pass : Nat → Prop) (n : Nat) (P : Sector → Prop)
    (j : Nat) : Prop :=
  ∀ k s, j ≤ k → k * 2048 < n → (∀ i, j ≤ i → i < k → pass i) → read k = some s → P s

theorem reached_of_le {read : Nat → Option Sector} {pass : Nat → Prop} {n : Nat}
    {P : Sector → Prop} {j : Nat} (hj : n ≤ j * 2048) : Reached read pass n P j := by
  intro k s h₁ h₂
  omega

/-- The walk gets to sector `j`, and from there to the next one if it passes it. -/
theorem reached_iff {read : Nat → Option Sector} {pass : Nat → Prop} {n : Nat}
    {P : Sector → Prop} {j : Nat} (hj : j * 2048 < n) :
    Reached read pass n P j ↔
      (∀ s, read j = some s → P s) ∧ (pass j → Reached read pass n P (j + 1)) := by
  constructor
  · intro h
    refine ⟨fun s hs => h j s le_rfl hj (fun i h₁ h₂ => absurd h₁ (by omega)) hs, ?_⟩
    intro hpass k s h₁ h₂ hp hs
    exact h k s (by omega) h₂
      (forall_ge_of_succ (P := fun i => i < k → pass i) (fun _ => hpass) hp) hs
  · rintro ⟨hnow, hnext⟩ k s h₁ h₂ hp hs
    rcases Nat.eq_or_lt_of_le h₁ with rfl | h₁
    · exact hnow s hs
    · exact hnext (hp j le_rfl h₁) k s h₁ h₂ (fun i h₃ => hp i (by omega)) hs

theorem reached_zero {read : Nat → Option Sector} {pass : Nat → Prop} {n : Nat}
    {P : Sector → Prop} :
    Reached read pass n P 0 ↔
      ∀ k s, k * 2048 < n → (∀ i < k, pass i) → read k = some s → P s := by
  refine forall_congr' fun k => forall_congr' fun s => ?_
  exact ⟨fun h hk hp => h (Nat.zero_le k) hk fun i _ => hp i,
    fun h _ hk hp => h hk fun i => hp i (Nat.zero_le i)⟩

variable (answer behind want)

/-- How the search ends: at the first record that the name asks for, at the first sector that
cannot be read, or at the end of the directory. -/
theorem searchRoot_result (hlen : len.toNat ≤ 64 * 2048) {n j : Nat} (hn : j + n = 64)
    (log : List Access) :
    (∃ k s off, j ≤ k ∧ k * 2048 < len.toNat ∧ (∀ i, j ≤ i → i < k → Passed answer want lba i) ∧
        answer (k + 1) (lba + .ofNat k) = some s ∧ FirstIn want s off ∧
        (run (respond answer) (searchRoot behind want lba len n j) ⟨j + 1, log⟩).1 =
          .ok (some (entryAt s off))) ∨
      (∃ k, j ≤ k ∧ k * 2048 < len.toNat ∧ (∀ i, j ≤ i → i < k → Passed answer want lba i) ∧
        answer (k + 1) (lba + .ofNat k) = none ∧
        (run (respond answer) (searchRoot behind want lba len n j) ⟨j + 1, log⟩).1 =
          .error .rootReadFailed) ∨
      (∀ i, j ≤ i → i * 2048 < len.toNat → Passed answer want lba i) ∧
        (run (respond answer) (searchRoot behind want lba len n j) ⟨j + 1, log⟩).1 = .ok none ∧
        (run (respond answer) (searchRoot behind want lba len n j) ⟨j + 1, log⟩).2.calls =
          max (j + 1) ((len.toNat + 2047) / 2048 + 1) := by
  induction n generalizing j log with
  | zero =>
    refine .inr (.inr ⟨fun i hj hi => ?_, rfl, ?_⟩)
    · omega
    · show j + 1 = _
      omega
  | succ n ih =>
    rw [searchRoot]
    by_cases hj : j * 2048 < len.toNat
    · rw [if_pos hj, run_hwRead_bind]
      cases hs : answer (j + 1) (lba + .ofNat j) with
      | none =>
        exact .inr (.inl ⟨j, le_rfl, hj, fun i h₁ h₂ => absurd h₁ (by omega), hs, rfl⟩)
      | some s =>
        dsimp only
        rw [run_look_bind]
        rcases searchSector_cases behind want s with ⟨off, hfirst, hval⟩ | ⟨hnone, hval⟩
        · rw [hval]
          exact .inl ⟨j, s, off, le_rfl, hj, fun i h₁ h₂ => absurd h₁ (by omega), hs, hfirst,
            rfl⟩
        · rw [hval]
          dsimp only
          have hpass : Passed answer want lba j := ⟨s, hs, hnone⟩
          have hgrow (k : Nat) (h : ∀ i, j + 1 ≤ i → i < k → Passed answer want lba i) :
              ∀ i, j ≤ i → i < k → Passed answer want lba i :=
            forall_ge_of_succ (P := fun i => i < k → _) (fun _ => hpass) h
          rcases ih (j := j + 1) (by omega) (log ++ (searchSector behind want s).log) with
            ⟨k, s', off, hk, hlt, hp, ha, hf, heq⟩ | ⟨k, hk, hlt, hp, ha, heq⟩ | ⟨hp, heq, hc⟩
          · exact .inl ⟨k, s', off, by omega, hlt, hgrow k hp, ha, hf, heq⟩
          · exact .inr (.inl ⟨k, by omega, hlt, hgrow k hp, ha, heq⟩)
          · refine .inr (.inr ⟨?_, heq, hc.trans (by omega)⟩)
            exact forall_ge_of_succ (P := fun i => i * 2048 < len.toNat → _) (fun _ => hpass) hp
    · rw [if_neg hj]
      refine .inr (.inr ⟨fun i h₁ h₂ => ?_, rfl, ?_⟩)
      · omega
      · show j + 1 = _
        omega

/-- No record that the search of a sector looks at starts in its last 32 bytes. -/
def SearchInside (want : FileName) (s : Sector) : Prop :=
  ∀ off, Record s off → (∀ o < off, Record s o → ¬ Wanted want s o) → off + 32 < 2048

/-- The accesses of the search: those at the records up to the first hit, in the sectors it
gets to. -/
theorem searchRoot_inBounds {n j : Nat} (hn : len.toNat ≤ (j + n) * 2048) (log : List Access) :
    (∀ a ∈ (run (respond answer) (searchRoot behind want lba len n j) ⟨j + 1, log⟩).2.log,
        a.InBounds) ↔
      (∀ a ∈ log, a.InBounds) ∧
        Reached (fun k => answer (k + 1) (lba + .ofNat k)) (Passed answer want lba) len.toNat
          (SearchInside want) j := by
  induction n generalizing j log with
  | zero => exact (and_iff_left (reached_of_le hn)).symm
  | succ n ih =>
    have hrest : len.toNat ≤ (j + 1 + n) * 2048 := by
      rwa [Nat.add_assoc, Nat.add_comm 1 n]
    rw [searchRoot]
    by_cases hj : j * 2048 < len.toNat
    · rw [if_pos hj, run_hwRead_bind, reached_iff hj]
      cases hs : answer (j + 1) (lba + .ofNat j) with
      | none =>
        refine (and_iff_left ⟨fun s hs' => ?_, fun hpass => ?_⟩).symm
        · exact absurd hs' (Option.some_ne_none s).symm
        · exact absurd hpass (not_passed_of_none hs)
      | some s =>
        dsimp only
        rw [run_look_bind]
        have hsector : (∀ a ∈ log ++ (searchSector behind want s).log, a.InBounds) ↔
            (∀ a ∈ log, a.InBounds) ∧ ∀ s', some s = some s' → SearchInside want s' := by
          rw [List.forall_mem_append]
          refine and_congr_right fun _ => (inBounds_searchSector behind want s).trans ?_
          exact ⟨fun h s' hs' => Option.some.inj hs' ▸ h, fun h => h s rfl⟩
        rcases searchSector_cases behind want s with ⟨off, hfirst, hval⟩ | ⟨hnone, hval⟩
        · rw [hval]
          dsimp only
          rw [run_pure]
          rw [and_iff_left fun hpass => absurd hpass (not_passed hs hfirst)]
          exact hsector
        · rw [hval]
          dsimp only
          have hpass : Passed answer want lba j := ⟨s, hs, hnone⟩
          rw [ih hrest, hsector, and_assoc, imp_iff_right hpass]
    · rw [if_neg hj]
      exact (and_iff_left (reached_of_le (Nat.le_of_not_lt hj))).symm

/-- The accesses of the listing, whose first read is the read number `c`. -/
theorem listRoot_inBounds {n j c : Nat} (hn : len.toNat ≤ (j + n) * 2048) (log : List Access) :
    (∀ a ∈ (run (respond answer) (listRoot behind lba len n j) ⟨c + j, log⟩).2.log,
        a.InBounds) ↔
      (∀ a ∈ log, a.InBounds) ∧
        Reached (fun k => answer (c + k) (lba + .ofNat k))
          (fun i => answer (c + i) (lba + .ofNat i) ≠ none) len.toNat
          (fun s => ∀ off, Record s off → off + 32 < 2048) j := by
  induction n generalizing j log with
  | zero => exact (and_iff_left (reached_of_le hn)).symm
  | succ n ih =>
    have hrest : len.toNat ≤ (j + 1 + n) * 2048 := by
      rwa [Nat.add_assoc, Nat.add_comm 1 n]
    rw [listRoot]
    by_cases hj : j * 2048 < len.toNat
    · rw [if_pos hj, run_hwRead_bind, reached_iff hj]
      cases hs : answer (c + j) (lba + .ofNat j) with
      | none =>
        refine (and_iff_left ⟨fun s hs' => ?_, fun hpass => absurd rfl hpass⟩).symm
        exact absurd hs' (Option.some_ne_none s).symm
      | some s =>
        dsimp only
        rw [run_look_bind]
        dsimp only
        rw [Nat.add_assoc c j 1, ih hrest, List.forall_mem_append, and_assoc]
        refine and_congr_right fun _ => ?_
        rw [← All, inBounds_listSector, imp_iff_right (Option.some_ne_none s)]
        refine and_congr_left fun _ => ?_
        exact ⟨fun h s' hs' => Option.some.inj hs' ▸ h, fun h => h s rfl⟩
    · rw [if_neg hj]
      exact (and_iff_left (reached_of_le (Nat.le_of_not_lt hj))).symm

end Directory

/-! ## The whole lookup -/

section Whole

variable {answer : Nat → UInt32 → Option Sector} {behind : Nat → UInt8} {want : FileName}

/-- The volume descriptor is a primary one, and its root directory is one that the driver
reads: there is one, of at most 64 sectors. -/
def RootOk (pvd : Sector) : Prop :=
  Primary pvd ∧ rootLba pvd ≠ 0 ∧ rootLen pvd ≠ 0 ∧ (rootLen pvd).toNat ≤ 64 * 2048

theorem readDescriptor_cases (behind : Nat → UInt8) (pvd : Sector) :
    RootOk pvd ∧ (readDescriptor (probeMemory behind pvd)).val = .ok (rootLba pvd, rootLen pvd) ∨
      ¬ RootOk pvd ∧ ∃ e, (readDescriptor (probeMemory behind pvd)).val = .error e := by
  have hmagic : bytesAt (probeMemory behind pvd) 0 6 = bytesAt pvd.byte 0 6 :=
    bytesAt_congr fun i _ h => probeMemory_of_lt (by omega)
  have hlba : wordAt (probeMemory behind pvd) (156 + 2) = rootLba pvd :=
    wordAt_congr fun i _ h => probeMemory_of_lt (by omega)
  have hlen : wordAt (probeMemory behind pvd) (156 + 10) = rootLen pvd :=
    wordAt_congr fun i _ h => probeMemory_of_lt (by omega)
  simp only [readDescriptor, val_load_bind]
  rw [show [probeMemory behind pvd 0, probeMemory behind pvd 1, probeMemory behind pvd 2,
      probeMemory behind pvd 3, probeMemory behind pvd 4, probeMemory behind pvd 5] =
    bytesAt pvd.byte 0 6 from hmagic]
  by_cases hp : bytesAt pvd.byte 0 6 = [1, 67, 68, 48, 48, 49]
  · rw [if_neg (not_not.mpr hp), val_bind, val_isoLe32, hlba, val_bind, val_isoLe32, hlen]
    by_cases h0 : rootLba pvd = 0 ∨ rootLen pvd = 0
    · rw [if_pos h0]
      exact .inr ⟨fun h => h0.elim h.2.1 h.2.2.1, _, rfl⟩
    · rw [if_neg h0]
      by_cases hbig : (rootLen pvd).toNat > 64 * 2048
      · rw [if_pos hbig]
        exact .inr ⟨fun h => absurd h.2.2.2 (by omega), _, rfl⟩
      · rw [if_neg hbig]
        exact .inl ⟨⟨hp, fun h => h0 (.inl h), fun h => h0 (.inr h), by omega⟩, rfl⟩
  · rw [if_pos hp]
    exact .inr ⟨fun h => hp h.1, _, rfl⟩

theorem inBounds_readDescriptor (mem : Nat → UInt8) :
    All Access.InBounds (readDescriptor mem) := by
  simp only [readDescriptor, inBounds_load_bind]
  refine ⟨by omega, by omega, by omega, by omega, by omega, by omega, ?_⟩
  split
  · exact all_pure _
  · rw [all_bind, all_bind, inBounds_isoLe32, inBounds_isoLe32]
    refine ⟨by omega, by omega, ?_⟩
    split
    · exact all_pure _
    · split <;> exact all_pure _

/-- **What the lookup is to find**: the first record, in scan order, that is a file of the
wanted name, if every read up to it succeeds and it has an extent and at least one sector. -/
def Locates (answer : Nat → UInt32 → Option Sector) (want : FileName) (e : Entry) : Prop :=
  ∃ pvd, answer 0 16 = some pvd ∧ RootOk pvd ∧
    ∃ k s off, k * 2048 < (rootLen pvd).toNat ∧
      (∀ i < k, Passed answer want (rootLba pvd) i) ∧
      answer (k + 1) (rootLba pvd + .ofNat k) = some s ∧ FirstIn want s off ∧
      e = entryAt s off ∧ e.extent ≠ 0 ∧ 2048 ≤ e.size.toNat

/-- What stops the search is unique. -/
theorem hit_unique {lba : UInt32} {k k' off off' : Nat} {s s' : Sector}
    (hp : ∀ i < k, Passed answer want lba i) (ha : answer (k + 1) (lba + .ofNat k) = some s)
    (hf : FirstIn want s off) (hp' : ∀ i < k', Passed answer want lba i)
    (ha' : answer (k' + 1) (lba + .ofNat k') = some s') (hf' : FirstIn want s' off') :
    entryAt s off = entryAt s' off' := by
  obtain rfl : k = k' := by
    rcases lt_trichotomy k k' with h | h | h
    · exact absurd (hp' k h) (not_passed ha hf)
    · exact h
    · exact absurd (hp k' h) (not_passed ha' hf')
  rw [ha] at ha'
  cases ha'
  obtain rfl : off = off' := by
    rcases lt_trichotomy off off' with h | h | h
    · exact absurd hf.2.1 (hf'.2.2 off h hf.1)
    · exact h
    · exact absurd hf'.2.1 (hf.2.2 off' h hf'.1)
  rfl

/-- How the lookup ends. -/
theorem locate_cases (answer : Nat → UInt32 → Option Sector) (behind : Nat → UInt8)
    (want : FileName) :
    (∃ e, Locates answer want e ∧
        (run (respond answer) (locate behind want) ⟨0, []⟩).1 = .ok e) ∨
      (¬ ∃ e, Locates answer want e) ∧
        ∃ f, (run (respond answer) (locate behind want) ⟨0, []⟩).1 = .error f := by
  rw [locate, run_hwRead_bind]
  cases hpvd : answer 0 16 with
  | none =>
    refine .inr ⟨?_, _, rfl⟩
    rintro ⟨e, pvd, h, -⟩
    rw [hpvd] at h
    cases h
  | some pvd =>
    dsimp only
    rw [run_look_bind]
    rcases readDescriptor_cases behind pvd with ⟨hroot, hval⟩ | ⟨hroot, e, hval⟩
    · rw [hval]
      dsimp only
      rw [scanRoot, run_bind, show (0 : Nat) + 1 = 0 + 0 + 1 from rfl]
      rcases searchRoot_result answer behind want hroot.2.2.2 (show 0 + 64 = 64 from rfl)
          ([] ++ (readDescriptor (probeMemory behind pvd)).log) with
        ⟨k, s, off, -, hk, hp, ha, hf, heq⟩ | ⟨k, -, hk, hp, ha, heq⟩ | ⟨hp, heq, -⟩
      · rw [heq]
        dsimp only
        have hp' : ∀ i < k, Passed answer want (rootLba pvd) i := fun i => hp i (Nat.zero_le i)
        by_cases hsmall : (entryAt s off).extent = 0 ∨ (entryAt s off).size.toNat < 2048
        · rw [if_pos hsmall]
          refine .inr ⟨?_, _, rfl⟩
          rintro ⟨e, pvd', h, -, k', s', off', -, hp'', ha', hf', rfl, hne, hsize⟩
          rw [hpvd] at h
          cases h
          rw [hit_unique hp' ha hf hp'' ha' hf'] at hsmall
          rcases hsmall with h | h
          · exact hne h
          · omega
        · rw [if_neg hsmall]
          exact .inl ⟨_, ⟨pvd, hpvd, hroot, k, s, off, hk, hp', ha, hf, rfl,
            fun h => hsmall (.inl h), by omega⟩, rfl⟩
      · rw [heq]
        refine .inr ⟨?_, _, rfl⟩
        rintro ⟨e, pvd', h, -, k', s', off', -, hp', ha', hf', -⟩
        rw [hpvd] at h
        cases h
        rcases lt_trichotomy k k' with h | h | h
        · exact not_passed_of_none ha (hp' k h)
        · rw [h, ha'] at ha
          cases ha
        · exact not_passed ha' hf' (hp k' (Nat.zero_le _) h)
      · rw [heq]
        dsimp only
        refine .inr ⟨?_, .notFound, by rw [run_bind, run_pure]⟩
        rintro ⟨e, pvd', h, -, k', s', off', hk', -, ha', hf', -⟩
        rw [hpvd] at h
        cases h
        exact not_passed ha' hf' (hp k' (Nat.zero_le _) hk')
    · rw [hval]
      refine .inr ⟨?_, _, rfl⟩
      rintro ⟨e, pvd', h, hroot', -⟩
      rw [hpvd] at h
      cases h
      exact hroot hroot'

theorem toNat_shiftRight_ten (x : UInt32) : (x >>> 10).toNat = x.toNat / 1024 := by
  rw [UInt32.toNat_shiftRight]
  show x.toNat >>> 10 = _
  rw [Nat.shiftRight_eq_div_pow]

theorem locates_unique {e e' : Entry} (he : Locates answer want e) (he' : Locates answer want e') :
    e = e' := by
  obtain ⟨pvd, hpvd, -, k, s, off, -, hp, ha, hf, rfl, -⟩ := he
  obtain ⟨pvd', hpvd', -, k', s', off', -, hp', ha', hf', rfl, -⟩ := he'
  rw [hpvd] at hpvd'
  cases hpvd'
  exact hit_unique hp ha hf hp' ha' hf'

/-- The lookup returns what there is to find, or leaves its variables alone. -/
theorem lookup_cases (answer : Nat → UInt32 → Option Sector) (behind : Nat → UInt8)
    (want : FileName) (place : Place) :
    (∃ e, Locates answer want e ∧
        (lookup answer behind want place).1 = (1, ⟨e.extent, e.size >>> 10⟩)) ∨
      (¬ ∃ e, Locates answer want e) ∧ (lookup answer behind want place).1 = (0, place) := by
  rw [lookup, psxcdIsoLookup, run_bind]
  rcases locate_cases answer behind want with ⟨e, he, heq⟩ | ⟨hno, f, heq⟩
  · rw [heq]
    exact .inl ⟨e, he, rfl⟩
  · rw [heq]
    exact .inr ⟨hno, rfl⟩

/-- **The result of the lookup.**  It returns 1 exactly when there is something to find, and
then the two variables are its extent and its size in KB; in every other case it returns 0
and leaves them alone. -/
theorem psxcdIsoLookup_result (answer : Nat → UInt32 → Option Sector) (behind : Nat → UInt8)
    (want : FileName) (place : Place) :
    ((lookup answer behind want place).1.1 = 1 ↔ ∃ e, Locates answer want e) ∧
      (∀ e, Locates answer want e →
        (lookup answer behind want place).1.2.psxcdBaseLba = e.extent ∧
          (lookup answer behind want place).1.2.psxcdLenKb.toNat = e.size.toNat / 1024) ∧
      ((lookup answer behind want place).1.1 ≠ 1 →
        (lookup answer behind want place).1 = (0, place)) := by
  rcases lookup_cases answer behind want place with ⟨e, he, heq⟩ | ⟨hno, heq⟩
  · rw [heq]
    refine ⟨iff_of_true rfl ⟨e, he⟩, fun e' he' => ?_, fun h => absurd rfl h⟩
    obtain rfl := locates_unique he he'
    exact ⟨rfl, toNat_shiftRight_ten _⟩
  · rw [heq]
    exact ⟨iff_of_false (show ¬ (0 : Int) = 1 by decide) hno, fun e he => absurd ⟨e, he⟩ hno,
      fun _ => rfl⟩

/-! ## The accesses of the lookup -/

/-- No record that the search looks at starts in the last 32 bytes of its sector. -/
def SearchClear (answer : Nat → UInt32 → Option Sector) (want : FileName) (pvd : Sector) : Prop :=
  ∀ k s, k * 2048 < (rootLen pvd).toNat → (∀ i < k, Passed answer want (rootLba pvd) i) →
    answer (k + 1) (rootLba pvd + .ofNat k) = some s →
    ∀ off, Record s off → (∀ o < off, Record s o → ¬ Wanted want s o) → off + 32 < 2048

/-- The sectors of the root directory. -/
def rootSectors (pvd : Sector) : Nat := ((rootLen pvd).toNat + 2047) / 2048

/-- The same for the listing, which comes after a search without a hit and reads the directory
again. -/
def ListClear (answer : Nat → UInt32 → Option Sector) (want : FileName) (pvd : Sector) : Prop :=
  (∀ i, i * 2048 < (rootLen pvd).toNat → Passed answer want (rootLba pvd) i) →
    ∀ k s, k * 2048 < (rootLen pvd).toNat →
      (∀ i < k, answer (rootSectors pvd + 1 + i) (rootLba pvd + .ofNat i) ≠ none) →
      answer (rootSectors pvd + 1 + k) (rootLba pvd + .ofNat k) = some s →
      ∀ off, Record s off → off + 32 < 2048

theorem searchRoot_inBounds_iff {pvd : Sector} (hroot : RootOk pvd) {log : List Access}
    (hlog : ∀ a ∈ log, a.InBounds) :
    (∀ a ∈ (run (respond answer) (searchRoot behind want (rootLba pvd) (rootLen pvd) 64 0)
        ⟨0 + 1, log⟩).2.log, a.InBounds) ↔ SearchClear answer want pvd := by
  rw [searchRoot_inBounds answer behind want (by have := hroot.2.2.2; omega), and_iff_right hlog]
  exact reached_zero

/-- The accesses of the two walks. -/
theorem scanRoot_inBounds {pvd : Sector} (hroot : RootOk pvd) {log : List Access}
    (hlog : ∀ a ∈ log, a.InBounds) :
    (∀ a ∈ (run (respond answer) (scanRoot behind want (rootLba pvd) (rootLen pvd))
        ⟨0 + 1, log⟩).2.log, a.InBounds) ↔
      SearchClear answer want pvd ∧ ListClear answer want pvd := by
  have hsearch := @searchRoot_inBounds_iff answer behind want pvd hroot log hlog
  rw [scanRoot, run_bind]
  rcases searchRoot_result answer behind want hroot.2.2.2 (show 0 + 64 = 64 from rfl) log with
    ⟨k, s, off, -, hk, -, ha, hf, heq⟩ | ⟨k, -, hk, -, ha, heq⟩ | ⟨hp, heq, hcalls⟩
  · have hlist : ListClear answer want pvd := fun hall =>
      absurd (hall k hk) (not_passed ha hf)
    rw [heq, and_iff_left hlist, ← hsearch]
    dsimp only
    split <;> rfl
  · have hlist : ListClear answer want pvd := fun hall =>
      absurd (hall k hk) (not_passed_of_none ha)
    rw [heq, and_iff_left hlist, ← hsearch]
    rfl
  · rw [heq]
    dsimp only
    rw [run_bind, run_pure]
    generalize run (respond answer) (searchRoot behind want (rootLba pvd) (rootLen pvd) 64 0)
      ⟨0 + 1, log⟩ = out at hsearch hcalls
    obtain ⟨r, calls, log'⟩ := out
    obtain rfl : calls = rootSectors pvd + 1 + 0 := by
      have : calls = max (0 + 1) (rootSectors pvd + 1) := hcalls
      omega
    rw [listRoot_inBounds answer behind (by have := hroot.2.2.2; omega)]
    refine and_congr hsearch ?_
    rw [ListClear, imp_iff_right fun i => hp i (Nat.zero_le i)]
    exact reached_zero

/-- **The accesses of the lookup** are all inside the two buffers exactly when no record that
one of the two walks looks at starts in the last 32 bytes of its sector. -/
theorem psxcdIsoLookup_inBounds_iff (answer : Nat → UInt32 → Option Sector) (behind : Nat → UInt8)
    (want : FileName) (place : Place) :
    (∀ a ∈ (lookup answer behind want place).2.log, a.InBounds) ↔
      ∀ pvd, answer 0 16 = some pvd → RootOk pvd →
        SearchClear answer want pvd ∧ ListClear answer want pvd := by
  have hlocate : (lookup answer behind want place).2 =
      (run (respond answer) (locate behind want) ⟨0, []⟩).2 := by
    rw [lookup, psxcdIsoLookup, run_bind]
    split <;> rfl
  rw [hlocate, locate, run_hwRead_bind]
  cases hpvd : answer 0 16 with
  | none => exact ⟨fun _ pvd h => (nomatch h), fun _ a ha => (nomatch ha)⟩
  | some pvd =>
    dsimp only
    rw [run_look_bind]
    rcases readDescriptor_cases behind pvd with ⟨hroot, hval⟩ | ⟨hroot, e, hval⟩
    · rw [hval]
      dsimp only
      rw [List.nil_append, scanRoot_inBounds hroot (inBounds_readDescriptor _)]
      refine ⟨fun h pvd' h' _ => ?_, fun h => h pvd rfl hroot⟩
      cases h'
      exact h
    · rw [hval]
      refine ⟨fun _ pvd' h' hroot' => ?_, fun _ => inBounds_readDescriptor _⟩
      cases h'
      exact absurd hroot' hroot

/-- The name the driver looks for unless it is told another one. -/
def rootImg : FileName := ⟨[82, 79, 79, 84, 46, 73, 77, 71], by decide, by decide +kernel⟩

/-- A sector that is zero but for a few bytes. -/
def Sector.ofBytes (bytes : List (Nat × UInt8)) : Sector := fun i =>
  (bytes.lookup i.val).getD 0

/-- The descriptor of a volume with a root directory of one sector at 17. -/
def smallVolume : Sector :=
  .ofBytes [(0, 1), (1, 67), (2, 68), (3, 48), (4, 48), (5, 49), (158, 17), (167, 8)]

/-- A directory that ends in a record of 32 bytes. -/
def shortTail : Sector :=
  .ofBytes [(0, 255), (255, 255), (510, 255), (765, 255), (1020, 255), (1275, 255), (1530, 255),
    (1785, 231), (2016, 32)]

/-- The length of the identifier of such a record is read behind the buffer. -/
theorem psxcdIsoLookup_reads_behind :
    ¬ ∀ a ∈ (lookup (fun k _ => some (if k = 0 then smallVolume else shortTail)) (fun _ => 0)
        rootImg ⟨0, 16384⟩).2.log, a.InBounds := by
  decide +kernel

end Whole

end Iso9660
end Cdrom
end Blackroo
