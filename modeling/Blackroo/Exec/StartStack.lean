import Blackroo.Exec.Confinement

/-!
# The stack a program starts with

`load_fixed_binary` copies the strings of a program to the top of the window, the file name first
and the last argument's last byte below it, so that they end up one behind the other: the
arguments, the environment, the file name.  `create_fixed_tables` is told where the first of them
begins, and how many there are.  It finds the others by scanning for their terminators, and fills
two tables of pointers below them as it goes.

* `load_putstringarray` is what the copying leaves: the text of the strings, in order.
* `putPointers_eq` is what one loop over a table does: it writes where the strings begin, and ends
  behind the last.  The table is below the strings, so that what it writes does not disturb what it
  still has to scan.
* `createFixedTables_eq` puts the two tables together: they and `argc` are one row of words.

`start_stack` says what the program finds at its stack pointer.
-/

namespace Blackroo
namespace Exec

open ByteMemory LittleEndian

/-! ## Strings in memory -/

/-- The strings one behind the other, each with its terminator. -/
def text (l : List CString) : List UInt8 := l.flatMap fun s => s.val ++ [0]

@[simp] theorem text_cons (s : CString) (l : List CString) :
    text (s :: l) = s.val ++ [0] ++ text l := by
  rw [text, List.flatMap_cons]
  rfl

theorem text_append (l l' : List CString) : text (l ++ l') = text l ++ text l' :=
  List.flatMap_append

@[simp] theorem length_text (l : List CString) : (text l).length = stringsSize l := by
  induction l with
  | nil => rfl
  | cons s l ih =>
    rw [text_cons, List.length_append, List.length_append, ih, stringsSize_cons]
    rfl

theorem stringsSize_append (l l' : List CString) :
    stringsSize (l ++ l') = stringsSize l + stringsSize l' := by
  rw [← length_text, text_append, List.length_append, length_text, length_text]

/-- A string is at an address. -/
def StringAt (m : Mem) (p : UInt32) (s : CString) : Prop :=
  load m p (s.val.length + 1) = s.val ++ [0]

/-- Strings are at an address, one behind the other. -/
def StringsAt (m : Mem) (p : UInt32) (l : List CString) : Prop :=
  load m p (stringsSize l) = text l

/-- Where strings that are one behind the other begin. -/
def starts : UInt32 → List CString → List UInt32
  | _, [] => []
  | p, s :: l => p :: starts (p + UInt32.ofNat (s.val.length + 1)) l

@[simp] theorem length_starts (p : UInt32) (l : List CString) : (starts p l).length = l.length := by
  induction l generalizing p with
  | nil => rfl
  | cons s l ih => rw [starts, List.length_cons, ih, List.length_cons]

theorem stringsAt_cons {m : Mem} {p : UInt32} {s : CString} {l : List CString} :
    StringsAt m p (s :: l) ↔
      StringAt m p s ∧ StringsAt m (p + UInt32.ofNat (s.val.length + 1)) l := by
  rw [StringsAt, stringsSize_cons, load_add, text_cons]
  constructor
  · intro h
    exact List.append_inj h (by simp)
  · rintro ⟨hs, hl⟩
    rw [hs, hl]

theorem stringsAt_append {m : Mem} {p : UInt32} {l l' : List CString} :
    StringsAt m p (l ++ l') ↔
      StringsAt m p l ∧ StringsAt m (p + UInt32.ofNat (stringsSize l)) l' := by
  rw [StringsAt, stringsSize_append, load_add, text_append]
  constructor
  · intro h
    exact List.append_inj h (by simp)
  · rintro ⟨hl, hl'⟩
    rw [hl, hl']

/-- Each of the strings is where it begins. -/
theorem StringsAt.forall₂ {m : Mem} {p : UInt32} {l : List CString} (h : StringsAt m p l) :
    List.Forall₂ (StringAt m) (starts p l) l := by
  induction l generalizing p with
  | nil => exact .nil
  | cons s l ih =>
    obtain ⟨hs, hl⟩ := stringsAt_cons.mp h
    exact .cons hs (ih hl)

/-! ## Copying the strings -/

theorem toNat_add_ofNat {p : UInt32} {n : Nat} (h : p.toNat + n < 2 ^ 32) :
    (p + UInt32.ofNat n).toNat = p.toNat + n := by
  rw [UInt32.toNat_add, UInt32.toNat_ofNat', Nat.add_mod_mod, Nat.mod_eq_of_lt h]

/-- **What the copying leaves**: the text of the strings, below the address it started from. -/
theorem load_putstringarray (c : Cpu) {p : UInt32} {l : List CString}
    (h : stringsSize l ≤ p.toNat) :
    (putstringarray c p l).2 = p - UInt32.ofNat (stringsSize l) ∧
      StringsAt (putstringarray c p l).1.mem (p - UInt32.ofNat (stringsSize l)) l := by
  have hp := p.toNat_lt
  induction l with
  | nil => exact ⟨(UInt32.sub_zero p).symm, rfl⟩
  | cons s l ih =>
    rw [stringsSize_cons] at h ⊢
    obtain ⟨hptr, hstrings⟩ := ih (by omega)
    -- the string goes right below those that are there
    have hnext : p - UInt32.ofNat (s.val.length + 1 + stringsSize l) =
        p - UInt32.ofNat (stringsSize l) - UInt32.ofNat (s.val.length + 1) := by
      rw [UInt32.ofNat_add]
      grind
    have hback : p - UInt32.ofNat (stringsSize l) - UInt32.ofNat (s.val.length + 1) +
        UInt32.ofNat (s.val.length + 1) = p - UInt32.ofNat (stringsSize l) :=
      UInt32.sub_add_cancel _ _
    have hq : (p - UInt32.ofNat (stringsSize l)).toNat = p.toNat - stringsSize l :=
      toNat_sub_ofNat (by omega)
    have hlen : (s.val ++ [(0 : UInt8)]).length = s.val.length + 1 := List.length_append
    have hstep : putstringarray c p (s :: l) =
        putstring (putstringarray c p l).1 (putstringarray c p l).2 s := rfl
    rw [hstep, putstring, hptr, hnext]
    refine ⟨rfl, stringsAt_cons.mpr ⟨?_, ?_⟩⟩
    · rw [StringAt, ← hlen]
      exact load_apply_block _ _ (by omega)
    · rw [hback]
      have hwithin : Within (p.toNat - stringsSize l - (s.val.length + 1)) (p.toNat - stringsSize l)
          (block (p - UInt32.ofNat (stringsSize l) - UInt32.ofNat (s.val.length + 1))
            (s.val ++ [0])) := by
        rw [within_block (by omega) _ (by simp), toNat_sub_ofNat (by omega), hq, hlen]
        omega
      rw [StringsAt, ← hstrings]
      exact load_apply_of_within _ hwithin hq.ge (by omega)

/-! ## Filling a table -/

theorem skipString_eq {m : Mem} {fuel : Nat} {p : UInt32} {s : List UInt8} (hs : (0 : UInt8) ∉ s)
    (h : load m p (s.length + 1) = s ++ [0]) (hfuel : s.length < fuel) :
    skipString m fuel p = p + UInt32.ofNat (s.length + 1) := by
  induction s generalizing fuel p with
  | nil =>
    obtain ⟨fuel, rfl⟩ := Nat.exists_eq_add_one_of_ne_zero (Nat.ne_of_gt hfuel)
    rw [skipString, if_pos (List.head_eq_of_cons_eq h)]
    rfl
  | cons b s ih =>
    obtain ⟨fuel, rfl⟩ := Nat.exists_eq_add_one_of_ne_zero (Nat.ne_of_gt (Nat.zero_lt_of_lt hfuel))
    rw [List.mem_cons, not_or] at hs
    rw [List.length_cons, load, List.cons_append, List.cons.injEq] at h
    rw [skipString, if_neg (by rw [h.1]; exact fun h0 => hs.1 h0.symm),
      ih hs.2 h.2 (Nat.lt_of_succ_lt_succ hfuel), List.length_cons, UInt32.add_assoc]
    congr 1
    rw [Nat.add_comm (s.length + 1) 1, UInt32.ofNat_add 1]
    rfl

theorem store_store (c : Cpu) (t u : List Store) : (c.store t).store u = c.store (t ++ u) := by
  rw [Cpu.store, Cpu.store, Cpu.store, apply_append, List.append_assoc]

/-- Strings above the stores stay. -/
theorem StringsAt.store {c : Cpu} {t : List Store} {lo hi : Nat} {p : UInt32} {l : List CString}
    (h : StringsAt c.mem p l) (ht : Within lo hi t) (hp : hi ≤ p.toNat)
    (hsize : p.toNat + stringsSize l ≤ 2 ^ 32) : StringsAt (c.store t).mem p l :=
  (load_apply_of_within c.mem ht hp hsize).trans h

/-- **What one loop does**: it writes where the strings begin, and ends behind the last of them. -/
theorem putPointers_eq {c : Cpu} {table p : UInt32} {l : List CString} (h : StringsAt c.mem p l)
    (htable : table.toNat + 4 * l.length ≤ p.toNat) (hsize : p.toNat + stringsSize l < 2 ^ 32) :
    putPointers l.length c table p =
      (c.store (block table ((starts p l).flatMap bytes32)), table + UInt32.ofNat (4 * l.length),
        p + UInt32.ofNat (stringsSize l)) := by
  induction l generalizing c table p with
  | nil =>
    simp [putPointers, starts, Cpu.store, apply, stringsSize]
  | cons s l ih =>
    rw [List.length_cons] at htable
    rw [stringsSize_cons] at hsize
    have hnext : (p + UInt32.ofNat (s.val.length + 1)).toNat = p.toNat + (s.val.length + 1) :=
      toNat_add_ofNat (by omega)
    have hword : (table + 4).toNat = table.toNat + 4 := toNat_add_ofNat (n := 4) (by omega)
    have hwithin : Within table.toNat p.toNat (wordAt table p) :=
      (within_wordAt p.toNat_lt table p).mpr ⟨le_rfl, by omega⟩
    have hkept := h.store hwithin le_rfl (by rw [stringsSize_cons]; omega)
    obtain ⟨hs, hl⟩ := stringsAt_cons.mp hkept
    rw [List.length_cons, putPointers, skipString_eq s.property hs (by omega),
      ih hl (by omega) (by omega), store_store, starts, List.flatMap_cons, block_append,
      stringsSize_cons]
    have hend : table + 4 + UInt32.ofNat (4 * l.length) =
        table + UInt32.ofNat (4 * (l.length + 1)) := by
      rw [Nat.mul_add, Nat.add_comm, UInt32.ofNat_add, UInt32.add_assoc]
      rfl
    rw [hend, UInt32.add_assoc, ← UInt32.ofNat_add]
    rfl

/-! ## The tables -/

/-- The words below the strings: `argc`, and the two tables with their ends. -/
def frame (pp : UInt32) (argv envp : List CString) : List UInt32 :=
  [UInt32.ofNat argv.length] ++ starts pp argv ++ [0] ++
    starts (pp + UInt32.ofNat (stringsSize argv)) envp ++ [0]

@[simp] theorem length_frame (pp : UInt32) (argv envp : List CString) :
    (frame pp argv envp).length = argv.length + envp.length + 3 := by
  simp only [frame, List.length_append, List.length_singleton, length_starts]
  omega

/-- Words stored behind words. -/
theorem store_words (c : Cpu) (p : UInt32) (ws vs : List UInt32) {k : Nat} (hk : ws.length = k) :
    (c.store (block p (ws.flatMap bytes32))).store
        (block (p + UInt32.ofNat (4 * k)) (vs.flatMap bytes32)) =
      c.store (block p ((ws ++ vs).flatMap bytes32)) := by
  rw [store_store, List.flatMap_append, block_append, length_flatMap_bytes32, hk]

/-- Words below the strings do not disturb them. -/
theorem StringsAt.store_words {c : Cpu} {p : UInt32} {l : List CString} (h : StringsAt c.mem p l)
    (sp : UInt32) (ws : List UInt32) (hsp : sp.toNat + 4 * ws.length ≤ p.toNat)
    (hsize : p.toNat + stringsSize l ≤ 2 ^ 32) :
    StringsAt (c.store (block sp (ws.flatMap bytes32))).mem p l := by
  refine h.store (within_block_of_le p.toNat_lt le_rfl ?_) le_rfl hsize
  rw [length_flatMap_bytes32]
  exact hsp

/-- The stack pointer that `create_fixed_tables` returns. -/
def tablesAt (pp : UInt32) (argc envc : Nat) : UInt32 :=
  ((0 - 4) &&& pp) - UInt32.ofNat (4 * (argc + envc + 3))

theorem toNat_tablesAt {pp : UInt32} {argc envc : Nat}
    (hroom : 4 * (argc + envc + 3) ≤ 4 * (pp.toNat / 4)) :
    (tablesAt pp argc envc).toNat = 4 * (pp.toNat / 4) - 4 * (argc + envc + 3) := by
  rw [tablesAt, toNat_sub_ofNat (by rw [toNat_align]; exact hroom), toNat_align]

/-- **What `create_fixed_tables` does**: one row of words, right below the strings. -/
theorem createFixedTables_eq {c : Cpu} {pp : UInt32} {argv envp : List CString}
    (h : StringsAt c.mem pp (argv ++ envp))
    (hroom : 4 * (argv.length + envp.length + 3) ≤ 4 * (pp.toNat / 4))
    (hsize : pp.toNat + stringsSize (argv ++ envp) < 2 ^ 32) :
    createFixedTables c pp argv.length envp.length =
      (c.store (block (tablesAt pp argv.length envp.length) ((frame pp argv envp).flatMap bytes32)),
        { sp := tablesAt pp argv.length envp.length
          argStart := pp
          argEnd := pp + UInt32.ofNat (stringsSize argv)
          envEnd := pp + UInt32.ofNat (stringsSize (argv ++ envp)) }) := by
  rw [stringsSize_append] at hsize ⊢
  obtain ⟨hargv, henvp⟩ := stringsAt_append.mp h
  have hpp := toNat_tablesAt hroom
  -- the addresses of the source, from the lowest up
  have hsp : (0 - 4 &&& pp) - UInt32.ofNat (4 * (envp.length + 1)) -
      UInt32.ofNat (4 * (argv.length + 1)) - 4 = tablesAt pp argv.length envp.length := by
    have hsum : UInt32.ofNat (4 * (argv.length + envp.length + 3)) =
        UInt32.ofNat (4 * (envp.length + 1)) + UInt32.ofNat (4 * (argv.length + 1)) + 4 := by
      rw [← UInt32.ofNat_add]
      show _ = UInt32.ofNat _ + UInt32.ofNat 4
      rw [← UInt32.ofNat_add]
      congr 1
      omega
    rw [tablesAt, hsum]
    grind
  have hA : (0 - 4 &&& pp) - UInt32.ofNat (4 * (envp.length + 1)) -
      UInt32.ofNat (4 * (argv.length + 1)) = tablesAt pp argv.length envp.length + UInt32.ofNat
        (4 * 1) := by
    rw [← hsp]
    exact (UInt32.sub_add_cancel _ _).symm
  have hE : (0 - 4 &&& pp) - UInt32.ofNat (4 * (envp.length + 1)) =
      tablesAt pp argv.length envp.length + UInt32.ofNat (4 * (argv.length + 2)) := by
    rw [show 4 * (argv.length + 2) = 4 * 1 + 4 * (argv.length + 1) by omega, UInt32.ofNat_add,
      ← UInt32.add_assoc, ← hA]
    exact (UInt32.sub_add_cancel _ _).symm
  unfold createFixedTables
  dsimp only
  rw [hsp, hA, hE]
  generalize tablesAt pp argv.length envp.length = sp at hpp
  have hA' : (sp + UInt32.ofNat (4 * 1)).toNat = sp.toNat + 4 := toNat_add_ofNat (by omega)
  have hE' : (sp + UInt32.ofNat (4 * (argv.length + 2))).toNat = sp.toNat + 4 * (argv.length + 2) :=
    toNat_add_ofNat (by omega)
  have hp₁ : (pp + UInt32.ofNat (stringsSize argv)).toNat = pp.toNat + stringsSize argv :=
    toNat_add_ofNat (by omega)
  have hrow : ∀ i j : Nat, sp + UInt32.ofNat (4 * i) + UInt32.ofNat (4 * j) =
      sp + UInt32.ofNat (4 * (i + j)) := by
    intro i j
    rw [UInt32.add_assoc, ← UInt32.ofNat_add, Nat.mul_add]
  -- each piece goes right behind the words that are there
  simp only [wordAt_eq]
  rw [putPointers_eq (hargv.store_words sp _ (by simp; omega) (by omega)) (by omega) (by omega)]
  dsimp only
  rw [store_words c sp _ _ List.length_singleton, hrow, store_words c sp _ _ (by simp; omega),
    putPointers_eq (henvp.store_words sp _ (by simp; omega) (by omega)) (by omega) (by omega)]
  dsimp only
  rw [store_words c sp _ _ (by simp), hrow, store_words c sp _ _ (by simp; omega), UInt32.add_assoc,
    ← UInt32.ofNat_add]
  rfl

/-! ## The whole stack -/

/-- Strings and tables have room between address 0 and the top of the window. -/
def Room (w : Window) (bprm : LinuxBinprm) : Prop :=
  bprm.argv.length + bprm.envp.length + 3 ≤ (w.userEnd - 16 - stringsSize (arguments bprm)) / 4

instance (w : Window) (bprm : LinuxBinprm) : Decidable (Room w bprm) :=
  inferInstanceAs (Decidable (_ ≤ _))

/-- What a program finds: at its stack pointer `argc`, the pointers to the arguments, a zero, the
pointers to the environment and a zero; above them the strings, delimited by the addresses that the
kernel keeps. -/
structure StartStack (w : Window) (bprm : LinuxBinprm) (m : Mem) (t : FixedTables) : Prop where
  aligned : t.sp.toNat % 4 = 0
  words : ∃ argc argv envp,
    loadWords m t.sp (bprm.argv.length + bprm.envp.length + 3) =
        [argc] ++ argv ++ [0] ++ envp ++ [0] ∧
      argc.toNat = bprm.argv.length ∧ List.Forall₂ (StringAt m) argv bprm.argv ∧
      List.Forall₂ (StringAt m) envp bprm.envp
  below : t.sp.toNat + 4 * (bprm.argv.length + bprm.envp.length + 3) ≤ t.argStart.toNat
  arguments : StringsAt m t.argStart bprm.argv
  argEnd_eq : t.argEnd.toNat = t.argStart.toNat + stringsSize bprm.argv
  environment : StringsAt m t.argEnd bprm.envp
  envEnd_eq : t.envEnd.toNat = t.argEnd.toNat + stringsSize bprm.envp
  filename : StringAt m t.envEnd bprm.filename
  top_eq : t.envEnd.toNat + bprm.filename.val.length + 1 = w.userEnd - 16

/-- **The stack of a program**, for all strings that have room, whatever was in memory. -/
theorem start_stack (w : Window) (bprm : LinuxBinprm) (mem : Mem) (h : Room w bprm) :
    StartStack w bprm (buildStack w bprm mem).1.mem (buildStack w bprm mem).2 := by
  have htop := w.toNat_stackTop
  have hlt := w.userEnd_lt
  rw [Room] at h
  have hsize : stringsSize (arguments bprm) =
      stringsSize bprm.argv + stringsSize bprm.envp + (bprm.filename.val.length + 1) := by
    rw [arguments, ← List.append_assoc, stringsSize_append, stringsSize_append]
    rfl
  obtain ⟨hptr, hstrings⟩ := load_putstringarray ⟨mem, []⟩
    (p := UInt32.ofNat (w.userEnd - 16)) (l := arguments bprm) (by omega)
  have hpp : (UInt32.ofNat (w.userEnd - 16) - UInt32.ofNat (stringsSize (arguments bprm))).toNat =
      w.userEnd - 16 - stringsSize (arguments bprm) := by
    rw [toNat_sub_ofNat (by omega), htop]
  rw [buildStack_eq, hptr]
  generalize (putstringarray ⟨mem, []⟩ (UInt32.ofNat (w.userEnd - 16)) (arguments bprm)).1 = c
    at hstrings
  generalize UInt32.ofNat (w.userEnd - 16) - UInt32.ofNat (stringsSize (arguments bprm)) = pp
    at hstrings hpp
  have hroom : 4 * (bprm.argv.length + bprm.envp.length + 3) ≤ 4 * (pp.toNat / 4) := by omega
  have hsp := toNat_tablesAt hroom
  have hboth : StringsAt c.mem pp (bprm.argv ++ bprm.envp) := by
    rw [arguments, ← List.append_assoc] at hstrings
    exact (stringsAt_append.mp hstrings).1
  have hfit : pp.toNat + stringsSize (bprm.argv ++ bprm.envp) < 2 ^ 32 := by
    rw [stringsSize_append]
    omega
  rw [createFixedTables_eq hboth hroom hfit]
  -- the strings are as they were before the tables
  have hkept := hstrings.store_words (tablesAt pp bprm.argv.length bprm.envp.length)
    (frame pp bprm.argv bprm.envp) (by rw [length_frame]; omega) (by omega)
  obtain ⟨hargv, hrest⟩ := stringsAt_append.mp hkept
  obtain ⟨henvp, hname⟩ := stringsAt_append.mp hrest
  have hargEnd : (pp + UInt32.ofNat (stringsSize bprm.argv)).toNat =
      pp.toNat + stringsSize bprm.argv := toNat_add_ofNat (by omega)
  have henvEnd : (pp + UInt32.ofNat (stringsSize (bprm.argv ++ bprm.envp))).toNat =
      pp.toNat + stringsSize bprm.argv + stringsSize bprm.envp := by
    rw [toNat_add_ofNat hfit, stringsSize_append, Nat.add_assoc]
  refine ⟨?_, ⟨UInt32.ofNat bprm.argv.length, _, _, ?_, ?_, hargv.forall₂, henvp.forall₂⟩, ?_,
    hargv,
    hargEnd, henvp, ?_, ?_, ?_⟩
  · show (tablesAt pp bprm.argv.length bprm.envp.length).toNat % 4 = 0
    omega
  · rw [← length_frame pp bprm.argv bprm.envp]
    refine loadWords_eq ?_
    rw [← length_flatMap_bytes32]
    exact load_apply_block _ _ (by rw [length_flatMap_bytes32, length_frame]; omega)
  · exact UInt32.toNat_ofNat_of_lt' (by
      show bprm.argv.length < 2 ^ 32
      omega)
  · show (tablesAt pp bprm.argv.length bprm.envp.length).toNat + _ ≤ pp.toNat
    omega
  · show (pp + UInt32.ofNat (stringsSize (bprm.argv ++ bprm.envp))).toNat =
      (pp + UInt32.ofNat (stringsSize bprm.argv)).toNat + _
    omega
  · have hend : pp + UInt32.ofNat (stringsSize bprm.argv) + UInt32.ofNat (stringsSize bprm.envp) =
        pp + UInt32.ofNat (stringsSize (bprm.argv ++ bprm.envp)) := by
      rw [UInt32.add_assoc, ← UInt32.ofNat_add, stringsSize_append]
    rw [hend] at hname
    exact (stringsAt_cons.mp hname).1
  · show (pp + UInt32.ofNat (stringsSize (bprm.argv ++ bprm.envp))).toNat + _ + 1 = _
    omega

/-- `/bin/cat -n x` with one variable in its environment. -/
def catBinprm : LinuxBinprm where
  file := ⟨[], true⟩
  filename := ⟨[0x2F, 0x62, 0x69, 0x6E, 0x2F, 0x63, 0x61, 0x74], by decide⟩
  argv := [⟨[0x63, 0x61, 0x74], by decide⟩, ⟨[0x2D, 0x6E], by decide⟩, ⟨[0x78], by decide⟩]
  envp := [⟨[0x54, 0x45, 0x52, 0x4D, 0x3D], by decide⟩]

theorem start_stack_cat : Room defaultWindow catBinprm ∧
    StartStack defaultWindow catBinprm (buildStack defaultWindow catBinprm fun _ => 0xFF).1.mem
      (buildStack defaultWindow catBinprm fun _ => 0xFF).2 :=
  ⟨by decide, start_stack defaultWindow catBinprm _ (by decide)⟩

end Exec
end Blackroo
