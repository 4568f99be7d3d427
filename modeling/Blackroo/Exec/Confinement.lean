import Blackroo.Exec.FixedBinary

/-!
# Where the fixed-address loader stores

The loader chooses no address itself: segments go to `p_vaddr`, the stack is counted
down from the top of the window.  Confinement is the statement that all of it stays
in the window, segments below `BLACKROO_USER_END - BLACKROO_STACK_SIZE` and stack
data above.

The check that is meant to give this looks at `p_vaddr` and at
`p_vaddr + p_memsz` in 32-bit arithmetic.  It does not look at `p_filesz`, which
is what the copy uses, nor at the size of the argument strings.  `confined_iff`
says what has to be true of the executable and of its arguments on top of the check,
for every file: the bytes the file really delivers and the zero fill end below the
stack, and strings and tables fit into 12 KB.
-/

namespace Blackroo
namespace Exec

open ByteMemory LittleEndian

/-! ## The window in numbers -/

theorem Window.userEnd_lt (w : Window) : w.userEnd < 2 ^ 32 := by
  unfold Window.userEnd RamOption.userTop
  split <;> decide

theorem Window.le_userEnd (w : Window) : 0x200000 ≤ w.userEnd := by
  unfold Window.userEnd RamOption.userTop
  split <;> decide

theorem Window.four_dvd_userEnd (w : Window) : 4 ∣ w.userEnd := by
  unfold Window.userEnd RamOption.userTop
  split <;> decide

theorem Window.stackFloor_add (w : Window) : w.stackFloor + 0x3000 = w.userEnd := by
  have h := w.le_userEnd
  have hs : w.stackFloor = w.userEnd - 0x3000 := rfl
  omega

theorem Window.userBase_le_stackFloor (w : Window) : w.userBase ≤ w.stackFloor := by
  have h₁ : blackrooStackSize ≤ w.userSize := by
    have hsize : w.userSize = w.reserveKb * 1024 := Nat.shiftLeft_eq _ _
    rw [hsize]
    exact w.stack_le
  exact Nat.sub_le_sub_left h₁ w.userEnd

theorem Window.stackFloor_lt (w : Window) : w.stackFloor < 2 ^ 32 :=
  lt_of_le_of_lt (Nat.sub_le _ _) w.userEnd_lt

/-! ## One segment -/

/-- The number of bytes of file data a segment gets: `p_filesz`, or what the file
still has at `p_offset`. -/
def available (f : ExecFile) (ph : ElfPhdr) : Nat :=
  min ph.pFilesz.toNat (f.content.length - ph.pOffset.toNat)

/-- The file has all of the segment's data. -/
def Complete (f : ExecFile) (ph : ElfPhdr) : Prop := available f ph = ph.pFilesz.toNat

instance (f : ExecFile) (ph : ElfPhdr) : Decidable (Complete f ph) :=
  inferInstanceAs (Decidable (_ = _))

/-- The segment's data and its zero fill end below the stack. -/
def SegmentFits (w : Window) (f : ExecFile) (ph : ElfPhdr) : Prop :=
  (0 < available f ph → ph.pVaddr.toNat + available f ph ≤ w.stackFloor) ∧
    (Complete f ph → ph.pFilesz < ph.pMemsz →
      ph.pVaddr.toNat + ph.pMemsz.toNat ≤ w.stackFloor)

/-- The file data of a segment. -/
def segmentData (f : ExecFile) (ph : ElfPhdr) : List UInt8 :=
  kernelRead f ph.pOffset.toNat ph.pFilesz.toNat

/-- The zero fill of a segment. -/
def zeroFill (ph : ElfPhdr) : List Store :=
  if ph.pMemsz > ph.pFilesz then
    block (ph.pVaddr + ph.pFilesz) (List.replicate (ph.pMemsz - ph.pFilesz).toNat 0)
  else []

@[simp] theorem length_segmentData (f : ExecFile) (ph : ElfPhdr) :
    (segmentData f ph).length = available f ph := by
  rw [segmentData, kernelRead, List.length_take, List.length_drop]
  rfl

theorem copySegment_eq (f : ExecFile) (ph : ElfPhdr) :
    copySegment f ph =
      (block ph.pVaddr (segmentData f ph) ++ (if Complete f ph then zeroFill ph else []),
        decide (Complete f ph)) := by
  have hdata : (if ph.pFilesz ≠ 0 then kernelRead f ph.pOffset.toNat ph.pFilesz.toNat else []) =
      segmentData f ph := by
    by_cases h : ph.pFilesz = 0
    · rw [if_neg (not_not.mpr h), segmentData, kernelRead, h]
      rfl
    · rw [if_pos h]
      rfl
  unfold copySegment
  rw [hdata]
  show ite _ _ _ = _
  rw [length_segmentData]
  by_cases h : Complete f ph
  · have hav : available f ph = ph.pFilesz.toNat := h
    rw [if_neg (not_not.mpr hav), if_pos h, decide_eq_true h]
    rfl
  · have hav : available f ph ≠ ph.pFilesz.toNat := h
    rw [if_pos hav, if_neg h, decide_eq_false h, List.append_nil]

theorem within_data {lo : Nat} {w : Window} {f : ExecFile} {ph : ElfPhdr}
    (hlo : lo ≤ ph.pVaddr.toNat) :
    Within lo w.stackFloor (block ph.pVaddr (segmentData f ph)) ↔
      (0 < available f ph → ph.pVaddr.toNat + available f ph ≤ w.stackFloor) := by
  by_cases h : segmentData f ph = []
  · have hz : available f ph = 0 := by rw [← length_segmentData, h, List.length_nil]
    rw [h, block_nil, hz]
    exact ⟨fun _ h0 => absurd h0 (lt_irrefl 0), fun _ => within_nil _ _⟩
  · have hpos : 0 < available f ph := by
      rw [← length_segmentData]
      exact List.length_pos_of_ne_nil h
    rw [within_block w.stackFloor_lt _ h, length_segmentData]
    exact ⟨fun hw _ => hw.2, fun hf => ⟨hlo, hf hpos⟩⟩

theorem within_zeroFill {lo : Nat} {w : Window} {ph : ElfPhdr} (hlo : lo ≤ ph.pVaddr.toNat)
    (hdata : 0 < ph.pFilesz.toNat → ph.pVaddr.toNat + ph.pFilesz.toNat ≤ w.stackFloor) :
    Within lo w.stackFloor (zeroFill ph) ↔
      (ph.pFilesz < ph.pMemsz → ph.pVaddr.toNat + ph.pMemsz.toNat ≤ w.stackFloor) := by
  by_cases h : ph.pFilesz < ph.pMemsz
  · have hlt : ph.pFilesz.toNat < ph.pMemsz.toNat := UInt32.lt_iff_toNat_lt.mp h
    have hsub : (ph.pMemsz - ph.pFilesz).toNat = ph.pMemsz.toNat - ph.pFilesz.toNat :=
      UInt32.toNat_sub_of_le _ _ (UInt32.le_of_lt h)
    have hstart : (ph.pVaddr + ph.pFilesz).toNat = ph.pVaddr.toNat + ph.pFilesz.toNat := by
      have hv := ph.pVaddr.toNat_lt
      have hw := w.stackFloor_lt
      rw [UInt32.toNat_add]
      exact Nat.mod_eq_of_lt (by omega)
    have hne : List.replicate (ph.pMemsz - ph.pFilesz).toNat (0 : UInt8) ≠ [] := by
      rw [hsub]
      exact fun h0 => absurd (congrArg List.length h0) (by simp; omega)
    rw [zeroFill, if_pos h, within_block w.stackFloor_lt _ hne, hstart, List.length_replicate,
      hsub]
    constructor
    · intro hw _
      omega
    · intro hf
      have := hf h
      omega
  · rw [zeroFill, if_neg h]
    exact ⟨fun _ hf => absurd hf h, fun _ => within_nil _ _⟩

/-- **A segment that starts in the window stays below the stack exactly when it
fits.** -/
theorem within_copySegment {w : Window} {f : ExecFile} {ph : ElfPhdr}
    (hlo : w.userBase ≤ ph.pVaddr.toNat) :
    Within w.userBase w.stackFloor (copySegment f ph).1 ↔ SegmentFits w f ph := by
  rw [copySegment_eq, within_append, within_data hlo]
  by_cases h : Complete f ph
  · rw [if_pos h]
    have hav : available f ph = ph.pFilesz.toNat := h
    constructor
    · rintro ⟨h₁, h₂⟩
      rw [within_zeroFill hlo (hav ▸ h₁)] at h₂
      exact ⟨h₁, fun _ => h₂⟩
    · rintro ⟨h₁, h₂⟩
      exact ⟨h₁, (within_zeroFill hlo (hav ▸ h₁)).mpr (h₂ h)⟩
  · rw [if_neg h]
    exact ⟨fun hw => ⟨hw.1, fun hc => absurd hc h⟩, fun hf => ⟨hf.1, within_nil _ _⟩⟩

/-! ## The two passes over the table -/

/-- The `PT_LOAD` entries. -/
def loadable (phdrs : List ElfPhdr) : List ElfPhdr := phdrs.filter fun ph => ph.pType = ptLoad

/-- The window check as the code makes it. -/
def PassesCheck (w : Window) (ph : ElfPhdr) : Prop :=
  w.userBase ≤ ph.pVaddr.toNat ∧ (ph.pVaddr + ph.pMemsz).toNat ≤ w.stackFloor

/-- The loadable entries the second pass reaches: up to the first one the file does
not have all of. -/
def reached (f : ExecFile) : List ElfPhdr → List ElfPhdr
  | [] => []
  | ph :: phs => if Complete f ph then ph :: reached f phs else [ph]

theorem loadable_cons_of_ne {ph : ElfPhdr} (phs : List ElfPhdr) (h : ph.pType ≠ ptLoad) :
    loadable (ph :: phs) = loadable phs := by
  rw [loadable, List.filter_cons_of_neg (by simpa using h)]
  rfl

theorem loadable_cons_of_eq {ph : ElfPhdr} (phs : List ElfPhdr) (h : ph.pType = ptLoad) :
    loadable (ph :: phs) = ph :: loadable phs := by
  rw [loadable, List.filter_cons_of_pos (by simpa using h)]
  rfl

theorem reached_subset (f : ExecFile) (phs : List ElfPhdr) : reached f phs ⊆ phs := by
  induction phs with
  | nil => exact List.Subset.refl _
  | cons ph phs ih =>
    rw [reached]
    split
    · exact List.cons_subset_cons ph ih
    · exact List.cons_subset_cons ph (List.nil_subset phs)

/-- **What the first pass decides.** -/
theorem checkSegments_spec (w : Window) (phs : List ElfPhdr) (low high : UInt32) (nload : Nat) :
    ((∀ ph ∈ loadable phs, PassesCheck w ph) ∧
        ∃ low' high', checkSegments w phs low high nload =
          .ok (low', high', nload + (loadable phs).length)) ∨
      ((¬ ∀ ph ∈ loadable phs, PassesCheck w ph) ∧
        checkSegments w phs low high nload = .error eNoExec) := by
  induction phs generalizing low high nload with
  | nil => exact .inl ⟨fun ph h => absurd h (List.not_mem_nil), low, high, rfl⟩
  | cons ph phs ih =>
    unfold checkSegments
    by_cases ht : ph.pType = ptLoad
    · rw [if_neg (not_not.mpr ht), loadable_cons_of_eq phs ht, List.forall_mem_cons]
      by_cases hc : PassesCheck w ph
      · have hno : ¬ (ph.pVaddr.toNat < w.userBase ∨
            (ph.pVaddr + ph.pMemsz).toNat > w.stackFloor) := by
          obtain ⟨h₁, h₂⟩ := hc
          omega
        show _ ∨ (_ ∧ ite _ _ _ = _)
        rw [if_neg hno, List.length_cons]
        rcases ih (if ph.pVaddr < low then ph.pVaddr else low)
          (if ph.pVaddr + ph.pMemsz > high then ph.pVaddr + ph.pMemsz else high)
          (nload + 1) with ⟨hall, low', high', heq⟩ | ⟨hnot, heq⟩
        · exact .inl ⟨⟨hc, hall⟩, low', high', by rw [heq, Nat.add_right_comm]; rfl⟩
        · exact .inr ⟨fun hall => hnot hall.2, heq⟩
      · have hyes : ph.pVaddr.toNat < w.userBase ∨
            (ph.pVaddr + ph.pMemsz).toNat > w.stackFloor := by
          unfold PassesCheck at hc
          omega
        exact .inr ⟨fun hall => hc hall.1, if_pos hyes⟩
    · rw [if_pos ht, loadable_cons_of_ne phs ht]
      exact ih low high nload

/-- **What the second pass stores.** -/
theorem copySegments_spec (f : ExecFile) (phs : List ElfPhdr) :
    copySegments f phs =
      ((reached f (loadable phs)).flatMap fun ph => (copySegment f ph).1,
        if ∀ ph ∈ loadable phs, Complete f ph then none else some eIo) := by
  induction phs with
  | nil => rfl
  | cons ph phs ih =>
    unfold copySegments
    by_cases ht : ph.pType = ptLoad
    · rw [if_neg (not_not.mpr ht), loadable_cons_of_eq phs ht, ih, reached]
      simp only [List.forall_mem_cons]
      by_cases hc : Complete f ph
      · simp [copySegment_eq, hc]
      · simp [copySegment_eq, hc]
    · rw [if_pos ht, loadable_cons_of_ne phs ht, ih]

/-! ## The argument stack -/

/-- The bytes a list of strings takes, terminators included. -/
def stringsSize (l : List CString) : Nat := (l.map fun s => s.val.length + 1).sum

/-- The strings on the stack, from the lowest address up. -/
def arguments (bprm : LinuxBinprm) : List CString := bprm.argv ++ (bprm.envp ++ [bprm.filename])

/-- **Strings and tables fit** below the 16 bytes left at the top: the strings padded
to a word, one pointer each with two terminators, and `argc`. -/
def StackFits (bprm : LinuxBinprm) : Prop :=
  16 + 4 * ((stringsSize (arguments bprm) + 3) / 4) +
    4 * (bprm.argv.length + bprm.envp.length + 3) ≤ blackrooStackSize

theorem stringsSize_cons (s : CString) (l : List CString) :
    stringsSize (s :: l) = s.val.length + 1 + stringsSize l := by
  rw [stringsSize, List.map_cons, List.sum_cons]
  rfl

theorem length_le_stringsSize (l : List CString) : l.length ≤ stringsSize l := by
  induction l with
  | nil => exact Nat.zero_le _
  | cons s l ih =>
    rw [stringsSize_cons, List.length_cons]
    omega

theorem length_arguments (bprm : LinuxBinprm) :
    (arguments bprm).length = bprm.argv.length + bprm.envp.length + 1 := by
  rw [arguments, List.length_append, List.length_append]
  rfl

theorem putstringarray_append (c : Cpu) (p : UInt32) (l m : List CString) :
    putstringarray c p (l ++ m) =
      putstringarray (putstringarray c p m).1 (putstringarray c p m).2 l := by
  rw [putstringarray, List.foldr_append]
  rfl

@[simp] theorem store_trace (c : Cpu) (t : List Store) : (c.store t).trace = c.trace ++ t := rfl

/-- **The string copies**: they stay in an interval that holds their start exactly
when there is room for all of them, and then end that much lower. -/
theorem putstringarray_spec {lo hi : Nat} (hhi : hi < 2 ^ 32) {p : UInt32} (hlo : lo ≤ p.toNat)
    (hp : p.toNat ≤ hi) (c : Cpu) (l : List CString) :
    ∃ t, (putstringarray c p l).1.trace = c.trace ++ t ∧
      (Within lo hi t ↔ lo + stringsSize l ≤ p.toNat) ∧
      (stringsSize l ≤ p.toNat →
        (putstringarray c p l).2.toNat = p.toNat - stringsSize l) := by
  induction l with
  | nil => exact ⟨[], (List.append_nil _).symm, ⟨fun _ => hlo, fun _ => within_nil lo hi⟩,
      fun _ => rfl⟩
  | cons s l ih =>
    obtain ⟨t, htrace, hwithin, hptr⟩ := ih
    have hstep : putstringarray c p (s :: l) =
        putstring (putstringarray c p l).1 (putstringarray c p l).2 s := rfl
    have hlen : (s.val ++ [0]).length = s.val.length + 1 := List.length_append
    have hne : s.val ++ [(0 : UInt8)] ≠ [] := List.append_ne_nil_of_right_ne_nil _ (by simp)
    rw [hstep, stringsSize_cons]
    refine ⟨t ++ block ((putstringarray c p l).2 - UInt32.ofNat (s.val.length + 1))
      (s.val ++ [0]), ?_, ?_, ?_⟩
    · rw [putstring, store_trace, htrace, List.append_assoc]
    · rw [within_append, hwithin]
      by_cases hl : lo + stringsSize l ≤ p.toNat
      · have hq := hptr (by omega)
        rw [← hlen, within_push hhi (by omega) hne, hq, hlen]
        omega
      · constructor
        · exact fun h => absurd h.1 hl
        · intro h
          omega
    · intro h
      have hq := hptr (by omega)
      show ((putstringarray c p l).2 - UInt32.ofNat (s.val.length + 1)).toNat = _
      rw [toNat_sub_ofNat (by omega), hq]
      omega

theorem store_extends (c : Cpu) (t : List Store) : c.trace <+: (c.store t).trace :=
  List.prefix_append _ _

/-- Filling a pointer table only adds stores. -/
theorem putPointers_extends (n : Nat) (c : Cpu) (table p : UInt32) :
    c.trace <+: (putPointers n c table p).1.trace := by
  induction n generalizing c table p with
  | zero => exact List.prefix_rfl
  | succ n ih => exact (store_extends c _).trans (ih _ _ _)

/-- Building the tables only adds stores. -/
theorem createFixedTables_extends (c : Cpu) (pp : UInt32) (argc envc : Nat) :
    c.trace <+: (createFixedTables c pp argc envc).1.trace :=
  ((((store_extends c _).trans (putPointers_extends argc _ _ pp)).trans
    (store_extends _ _)).trans (putPointers_extends envc _ _ _)).trans (store_extends _ _)

/-- **The pointer table** is `4 * n` bytes at its address, whatever the strings are. -/
theorem putPointers_spec {lo hi : Nat} (hhi : hi < 2 ^ 32) (n : Nat) (c : Cpu)
    {table : UInt32} (p : UInt32) (hlo : lo ≤ table.toNat) (hn : table.toNat + 4 * n ≤ hi) :
    ∃ t, (putPointers n c table p).1.trace = c.trace ++ t ∧ Within lo hi t ∧
      (putPointers n c table p).2.1.toNat = table.toNat + 4 * n := by
  induction n generalizing c table p with
  | zero => exact ⟨[], (List.append_nil _).symm, within_nil lo hi, rfl⟩
  | succ n ih =>
    have hnext : (table + 4).toNat = table.toNat + 4 := by
      rw [UInt32.toNat_add]
      exact Nat.mod_eq_of_lt (by
        show table.toNat + 4 < 2 ^ 32
        omega)
    obtain ⟨t, htrace, hwithin, htable⟩ := @ih (c.store (wordAt table p)) (table + 4)
      (skipString (c.store (wordAt table p)).mem (2 ^ 32) p) (by omega) (by omega)
    refine ⟨wordAt table p ++ t, ?_, ?_, ?_⟩
    · rw [putPointers, htrace, store_trace, List.append_assoc]
    · exact within_append.mpr ⟨(within_wordAt hhi table p).mpr ⟨hlo, by omega⟩, hwithin⟩
    · rw [putPointers, htable, hnext]
      omega

/-- **The tables**: they stay in an interval that holds the strings exactly when the
final stack pointer does. -/
theorem createFixedTables_spec {lo hi : Nat} (hhi : hi < 2 ^ 32) (c : Cpu) {pp : UInt32}
    (hp : pp.toNat ≤ hi) (argc envc : Nat) (hroom : 4 * (argc + envc + 3) ≤ pp.toNat) :
    ∃ t, (createFixedTables c pp argc envc).1.trace = c.trace ++ t ∧
      (Within lo hi t ↔ lo + 4 * (argc + envc + 3) ≤ 4 * (pp.toNat / 4)) := by
  let top := (0 - 4) &&& pp
  let envp := top - UInt32.ofNat (4 * (envc + 1))
  let argv := envp - UInt32.ofNat (4 * (argc + 1))
  let sp := argv - UInt32.ofNat 4
  have htop : top.toNat = 4 * (pp.toNat / 4) := toNat_align pp
  have henvp : envp.toNat = top.toNat - 4 * (envc + 1) := toNat_sub_ofNat (by omega)
  have hargv : argv.toNat = envp.toNat - 4 * (argc + 1) := toNat_sub_ofNat (by omega)
  have hsp : sp.toNat = argv.toNat - 4 := toNat_sub_ofNat (by omega)
  let c₁ := c.store (wordAt sp (UInt32.ofNat argc))
  obtain ⟨t₁, htrace₁, hwithin₁, hend₁⟩ := @putPointers_spec argv.toNat hi hhi argc c₁ argv pp
    (Nat.le_refl _) (by omega)
  let r₁ := putPointers argc c₁ argv pp
  let c₂ := r₁.1.store (wordAt r₁.2.1 0)
  obtain ⟨t₂, htrace₂, hwithin₂, hend₂⟩ := @putPointers_spec argv.toNat hi hhi envc c₂ envp r₁.2.2
    (by omega) (by omega)
  let r₂ := putPointers envc c₂ envp r₁.2.2
  have hr₁ : r₁.2.1.toNat = argv.toNat + 4 * argc := hend₁
  have hr₂ : r₂.2.1.toNat = envp.toNat + 4 * envc := hend₂
  -- every table word above `argc` lies between `argv` and the strings
  have htables : Within argv.toNat hi (t₁ ++ wordAt r₁.2.1 0 ++ t₂ ++ wordAt r₂.2.1 0) := by
    rw [within_append, within_append, within_append, within_wordAt hhi, within_wordAt hhi]
    exact ⟨⟨⟨hwithin₁, by omega, by omega⟩, hwithin₂⟩, by omega, by omega⟩
  refine ⟨wordAt sp (UInt32.ofNat argc) ++ (t₁ ++ wordAt r₁.2.1 0 ++ t₂ ++ wordAt r₂.2.1 0),
    ?_, ?_⟩
  · show r₂.1.trace ++ wordAt r₂.2.1 0 = _
    rw [show r₂.1.trace = c₂.trace ++ t₂ from htrace₂,
      show c₂.trace = r₁.1.trace ++ wordAt r₁.2.1 0 from rfl,
      show r₁.1.trace = c₁.trace ++ t₁ from htrace₁,
      show c₁.trace = c.trace ++ wordAt sp (UInt32.ofNat argc) from rfl]
    simp only [List.append_assoc]
  · rw [within_append, within_wordAt hhi]
    constructor
    · rintro ⟨⟨h, -⟩, -⟩
      omega
    · intro h
      exact ⟨⟨by omega, by omega⟩, htables.mono (by omega) (Nat.le_refl _)⟩

theorem Window.toNat_stackTop (w : Window) : (UInt32.ofNat (w.userEnd - 16)).toNat =
    w.userEnd - 16 :=
  UInt32.toNat_ofNat_of_lt' (by
    have := w.userEnd_lt
    show w.userEnd - 16 < 2 ^ 32
    omega)

/-- The three arrays of strings are copied as one. -/
theorem buildStack_eq (w : Window) (bprm : LinuxBinprm) (mem : Mem) :
    buildStack w bprm mem =
      createFixedTables
        (putstringarray ⟨mem, []⟩ (UInt32.ofNat (w.userEnd - 16)) (arguments bprm)).1
        (putstringarray ⟨mem, []⟩ (UInt32.ofNat (w.userEnd - 16)) (arguments bprm)).2
        bprm.argv.length bprm.envp.length := by
  rw [arguments, putstringarray_append, putstringarray_append]
  rfl

/-- **The argument stack stays in its area exactly when it fits.** -/
theorem within_buildStack (w : Window) (bprm : LinuxBinprm) (mem : Mem) :
    Within w.stackFloor w.userEnd (buildStack w bprm mem).1.trace ↔ StackFits bprm := by
  have hhi := w.userEnd_lt
  have hle := w.le_userEnd
  have hfloor := w.stackFloor_add
  have halign : w.userEnd % 4 = 0 := Nat.mod_eq_zero_of_dvd w.four_dvd_userEnd
  let top := UInt32.ofNat (w.userEnd - 16)
  have htop : top.toNat = w.userEnd - 16 := w.toNat_stackTop
  let r := putstringarray ⟨mem, []⟩ top (arguments bprm)
  have hbuild : buildStack w bprm mem =
      createFixedTables r.1 r.2 bprm.argv.length bprm.envp.length := buildStack_eq w bprm mem
  obtain ⟨t, htrace, hwithin, hptr⟩ := @putstringarray_spec w.stackFloor w.userEnd hhi top
    (by omega) (by omega) ⟨mem, []⟩ (arguments bprm)
  have hr : r.1.trace = t := htrace
  have hcount : bprm.argv.length + bprm.envp.length + 1 ≤ stringsSize (arguments bprm) := by
    have h := length_le_stringsSize (arguments bprm)
    rwa [length_arguments] at h
  have hfits : StackFits bprm ↔ 16 + 4 * ((stringsSize (arguments bprm) + 3) / 4) +
      4 * (bprm.argv.length + bprm.envp.length + 3) ≤ 0x3000 := Iff.rfl
  rw [hbuild, hfits]
  by_cases hstrings : w.stackFloor + stringsSize (arguments bprm) ≤ top.toNat
  · have hq : r.2.toNat = top.toNat - stringsSize (arguments bprm) := hptr (by omega)
    obtain ⟨u, hutrace, huwithin⟩ := @createFixedTables_spec w.stackFloor w.userEnd hhi r.1 r.2
      (by omega) bprm.argv.length bprm.envp.length (by omega)
    rw [hutrace, within_append, hr, huwithin, hq]
    constructor
    · rintro ⟨-, h⟩
      omega
    · intro h
      exact ⟨hwithin.mpr hstrings, by omega⟩
  · obtain ⟨u, hutrace⟩ := createFixedTables_extends r.1 r.2 bprm.argv.length bprm.envp.length
    rw [← hutrace, within_append, hr, hwithin]
    constructor
    · rintro ⟨h, -⟩
      exact absurd h hstrings
    · intro h
      omega

/-! ## The loader -/

/-- **Confinement** of what a run of the loader stored: everything in the window,
segments below the stack area, strings and tables in it. -/
structure Confined (w : Window) (r : LoadResult) : Prop where
  in_window : Within w.userBase w.userEnd (r.stores ++ r.stack)
  segments_below : ∀ s ∈ r.stores, s.addr.toNat < w.stackFloor
  stack_above : ∀ s ∈ r.stack, w.stackFloor ≤ s.addr.toNat

/-- The loader gets past its checks with this program-header table. -/
structure Accepted (w : Window) (env : KernelEnv) (bprm : LinuxBinprm)
    (phdrs : List ElfPhdr) : Prop where
  table : readPhdrs env bprm.file = .ok phdrs
  nload : loadable phdrs ≠ []
  check : ∀ ph ∈ loadable phdrs, PassesCheck w ph
  flush : env.flushOldExec = 0

theorem confined_iff_within (w : Window) (r : LoadResult) :
    Confined w r ↔
      Within w.userBase w.stackFloor r.stores ∧ Within w.stackFloor w.userEnd r.stack := by
  have hbase := w.userBase_le_stackFloor
  have hend := w.stackFloor_add
  constructor
  · rintro ⟨hw, hlt, hle⟩
    rw [within_append] at hw
    exact ⟨fun s hs => ⟨(hw.1 s hs).1, hlt s hs⟩, fun s hs => ⟨hle s hs, (hw.2 s hs).2⟩⟩
  · rintro ⟨h₁, h₂⟩
    exact ⟨within_append.mpr ⟨h₁.mono (Nat.le_refl _) (by omega), h₂.mono hbase (Nat.le_refl _)⟩,
      fun s hs => (h₁ s hs).2, fun s hs => (h₂ s hs).1⟩

/-- A refused executable stores nothing. -/
theorem loadFixedBinary_refused {w : Window} {env : KernelEnv} {bprm : LinuxBinprm}
    (h : ∀ phdrs, ¬ Accepted w env bprm phdrs) (mem : Mem) :
    ∃ e, loadFixedBinary w env bprm mem = .refuse e mem := by
  unfold loadFixedBinary
  cases htable : readPhdrs env bprm.file with
  | error e => exact ⟨e, rfl⟩
  | ok phdrs =>
    rcases checkSegments_spec w phdrs (0 - 1) 0 0 with ⟨hall, low, high, heq⟩ | ⟨-, heq⟩
    · simp only [heq, Nat.zero_add, List.length_eq_zero_iff]
      by_cases hn : loadable phdrs = []
      · exact ⟨_, if_pos hn⟩
      · have hf : env.flushOldExec ≠ 0 := fun hf => h phdrs ⟨htable, hn, hall, hf⟩
        rw [if_neg hn, if_pos hf]
        exact ⟨_, rfl⟩
    · simp only [heq]
      exact ⟨_, rfl⟩

/-- The stores of an accepted executable. -/
theorem loadFixedBinary_accepted {w : Window} {env : KernelEnv} {bprm : LinuxBinprm}
    {phdrs : List ElfPhdr} (h : Accepted w env bprm phdrs) (mem : Mem) :
    (loadFixedBinary w env bprm mem).stores =
        (reached bprm.file (loadable phdrs)).flatMap (fun ph => (copySegment bprm.file ph).1) ∧
      (loadFixedBinary w env bprm mem).stack =
        if ∀ ph ∈ loadable phdrs, Complete bprm.file ph then
          (buildStack w bprm (apply mem (copySegments bprm.file phdrs).1)).1.trace
        else [] := by
  obtain ⟨low, high, heq⟩ : ∃ low high, checkSegments w phdrs (0 - 1) 0 0 =
      .ok (low, high, 0 + (loadable phdrs).length) := by
    rcases checkSegments_spec w phdrs (0 - 1) 0 0 with ⟨-, hok⟩ | ⟨hnot, -⟩
    · exact hok
    · exact absurd h.check hnot
  have hn : ¬ 0 + (loadable phdrs).length = 0 := by
    rw [Nat.zero_add, List.length_eq_zero_iff]
    exact h.nload
  unfold loadFixedBinary
  simp only [h.table, heq, if_neg hn, if_neg (not_not.mpr h.flush)]
  rw [copySegments_spec]
  split <;> simp_all

/-- The stores of an accepted executable are confined exactly when its segments and
its stack fit. -/
theorem Accepted.confined_iff_fits {w : Window} {env : KernelEnv} {bprm : LinuxBinprm}
    {phdrs : List ElfPhdr} (h : Accepted w env bprm phdrs) (mem : Mem) :
    Confined w (loadFixedBinary w env bprm mem) ↔
      (∀ ph ∈ reached bprm.file (loadable phdrs), SegmentFits w bprm.file ph) ∧
        ((∀ ph ∈ loadable phdrs, Complete bprm.file ph) → StackFits bprm) := by
  obtain ⟨hstores, hstack⟩ := loadFixedBinary_accepted h mem
  have hsegments : Within w.userBase w.stackFloor (loadFixedBinary w env bprm mem).stores ↔
      ∀ ph ∈ reached bprm.file (loadable phdrs), SegmentFits w bprm.file ph := by
    rw [hstores, within_flatMap]
    exact forall₂_congr fun ph hph =>
      within_copySegment (h.check ph (reached_subset _ _ hph)).1
  rw [confined_iff_within, hsegments, hstack]
  refine and_congr_right fun _ => ?_
  by_cases hc : ∀ ph ∈ loadable phdrs, Complete bprm.file ph
  · rw [if_pos hc, within_buildStack]
    exact ⟨fun hs _ => hs, fun hs => hs hc⟩
  · rw [if_neg hc]
    exact ⟨fun _ hc' => absurd hc' hc, fun _ => within_nil _ _⟩

/-- **When the loader stays in its window**, for every executable, argument list and
environment: exactly when it refuses the executable, or every segment it copies ends
below the stack area and the argument stack, if it is built, fits into it. -/
theorem confined_iff (w : Window) (env : KernelEnv) (bprm : LinuxBinprm) (mem : Mem) :
    Confined w (loadFixedBinary w env bprm mem) ↔
      ∀ phdrs, Accepted w env bprm phdrs →
        (∀ ph ∈ reached bprm.file (loadable phdrs), SegmentFits w bprm.file ph) ∧
          ((∀ ph ∈ loadable phdrs, Complete bprm.file ph) → StackFits bprm) := by
  constructor
  · intro hconf phdrs h
    exact (h.confined_iff_fits mem).mp hconf
  · intro hfits
    by_cases hacc : ∃ phdrs, Accepted w env bprm phdrs
    · obtain ⟨phdrs, h⟩ := hacc
      exact (h.confined_iff_fits mem).mpr (hfits phdrs h)
    · obtain ⟨e, he⟩ := loadFixedBinary_refused (fun phdrs h => hacc ⟨phdrs, h⟩) mem
      rw [he]
      exact ⟨within_nil _ _, fun s hs => absurd hs List.not_mem_nil,
        fun s hs => absurd hs List.not_mem_nil⟩

/-- The default window of a 2 MB machine. -/
def defaultWindow : Window := ⟨.mb2, 192, by decide, by decide⟩

/-- An executable of one segment, linked four bytes below the stack area, with
`p_filesz` 84 and `p_memsz` 4. -/
def overlongFile : ExecFile where
  content :=
    [0x7f, 0x45, 0x4c, 0x46, 1, 1, 1, 0, 0, 0, 0, 0, 0, 0, 0, 0, 2, 0, 8, 0, 1, 0, 0, 0,
      0xfc, 0xcf, 0x1f, 0, 52, 0, 0, 0, 0, 0, 0, 0, 0, 0, 0, 0, 52, 0, 32, 0, 1, 0, 0, 0,
      0, 0, 0, 0, 1, 0, 0, 0, 0, 0, 0, 0, 0xfc, 0xcf, 0x1f, 0, 0xfc, 0xcf, 0x1f, 0,
      84, 0, 0, 0, 4, 0, 0, 0, 7, 0, 0, 0, 4, 0, 0, 0]
  hasRead := true

/-- **The file size is not checked**: the 84 bytes of `overlongFile` run into the
stack area. -/
theorem not_confined_overlongFile :
    ¬ Confined defaultWindow
      (loadFixedBinary defaultWindow ⟨true, 0⟩ ⟨overlongFile, ⟨[0x61], by decide⟩, [], []⟩
        fun _ => 0) := by
  rintro ⟨-, hbelow, -⟩
  exact absurd hbelow (by decide +kernel)

end Exec
end Blackroo
