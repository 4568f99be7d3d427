import Blackroo.Irq.Safety

/-!
# Which calls of the drivers keep the kernel safe

For each call the condition under which it keeps a safe state safe can be read off the chains, the
masks and the calls of `do_IRQ` under way (`Call.Clear`, `call_clear_iff`):

* `enable_irq` needs a handler on every line its mask lets through;
* `request_irq` of one of the eleven lines is always fine, but the check is for numbers below 32, and
  the "mask" of a number past the table is a word that belongs to something else;
* `free_irq` needs a number below 32, although it checks for 39, an action that is not running, and
  another action on the line if the line is in service.

So the condition along a run is exact: the kernel is safe from interrupts at every point of a run if
and only if every call in it was clear (`safe_throughout_iff`).
-/

namespace Blackroo
namespace Irq

open Runs

variable {beyond : Nat → BitVec 16} {s s' : State}

/-! ## The conditions -/

/-- The condition under which a call keeps a safe kernel safe. -/
def Call.Clear (beyond : Nat → BitVec 16) (s : State) : Call → Prop
  | .request r memory => r.irq < 32 → r.handler = true → memory = true → s.actions r.irq = [] →
      ∀ i < nrInts, (cpuMaskTbl beyond r.irq).getLsbD (lineBit i) = true →
        i = r.irq ∨ s.actions i ≠ []
  | .free irq devId => 39 < irq ∨ irq < 32 ∧ ∀ a, (s.actions irq).find? (·.devId == devId) =
      some a →
      ∀ f ∈ s.services, f.irq = irq → f.running ≠ some a.id ∧ s.actions irq ≠ [a]
  | .enable irq => Covered beyond s irq
  | .disable _ => True

def Event.Clear (beyond : Nat → BitVec 16) (s : State) : Event → Prop
  | .signal _ => True
  | .call c => s.driversRun = true → c.Clear beyond s

/-! ## Requests -/

section Request

variable {irq : Nat} {new : Irqaction}

/-- A longer chain serves whoever the chain before it served. -/
theorem Service.Finds.mono {f : Service} {actions actions' : Nat → List Irqaction}
    (h : f.Finds actions) (hsub : (actions f.irq).map Irqaction.id ⊆
      (actions' f.irq).map Irqaction.id) :
    f.Finds actions' := by
  unfold Service.Finds at h ⊢
  split at h
  · obtain ⟨a, rest, hchain⟩ := List.exists_cons_of_ne_nil h
    have hmem : a.id ∈ (actions' f.irq).map Irqaction.id :=
      hsub (by rw [hchain]; exact List.mem_cons_self)
    exact fun hnil => by simp [hnil] at hmem
  · exact hsub h

/-- A chain may be replaced where the line is masked or keeps a handler. -/
theorem Guarded.setActions (h : Guarded s) {chain : List Irqaction} {mask : BitVec 16}
    (hmask : ∀ k, mask.getLsbD k = true → s.mask.getLsbD k = true)
    (hirq : irq < nrInts → mask.getLsbD (lineBit irq) = true → chain ≠ [])
    (hfinds : ∀ f ∈ s.services, Service.Finds f (Function.update s.actions irq chain)) :
    Guarded { s.setActions irq chain with mask := mask } :=
  ⟨(Function.forall_update_iff s.actions fun i chain => i < nrInts →
      mask.getLsbD (lineBit i) = true → chain ≠ []).mpr
    ⟨hirq, fun i _ hi hbit => h.handled i hi (hmask _ hbit)⟩, hfinds⟩

/-- An action at the end of a chain disturbs nobody. -/
theorem Guarded.append (h : Guarded s) : Guarded (s.setActions irq (s.actions irq ++ [new])) := by
  refine h.setActions (fun _ hk => hk) (fun _ _ => by simp) fun f hf => (h.serving f hf).mono ?_
  by_cases hj : f.irq = irq
  · rw [hj, Function.update_self, List.map_append]
    exact List.subset_append_left _ _
  · rw [Function.update_of_ne hj]
    exact List.Subset.refl _

theorem Wf.setActions (hwf : Wf s) {chain : List Irqaction}
    (hnodup : (chain.map Irqaction.id).Nodup)
    (hids : ∀ a ∈ chain, a.id < s.fresh) : Wf (s.setActions irq chain) :=
  ⟨hwf.mask_lt, hwf.irq_lt,
    (Function.forall_update_iff s.actions fun _ chain => (chain.map Irqaction.id).Nodup).mpr
      ⟨hnodup, fun j _ => hwf.nodup j⟩,
    (Function.forall_update_iff s.actions fun _ chain => ∀ a ∈ chain, a.id < s.fresh).mpr
      ⟨hids, fun j _ => hwf.ids_lt j⟩⟩

theorem Wf.append (hwf : Wf s) (hnew : ∀ a ∈ s.actions irq, a.id < new.id)
    (hfresh : new.id < s.fresh) :
    Wf (s.setActions irq (s.actions irq ++ [new])) := by
  refine hwf.setActions ?_
    (List.forall_mem_append.mpr ⟨hwf.ids_lt irq, List.forall_mem_singleton.mpr hfresh⟩)
  rw [List.map_append, List.nodup_append]
  refine ⟨hwf.nodup irq, List.nodup_singleton _, fun x hx y hy => ?_⟩
  obtain ⟨a, ha, rfl⟩ := List.mem_map.mp hx
  obtain rfl : y = new.id := by simpa using hy
  exact (hnew a ha).ne

/-- What `setup_ps_irq` does: nothing, or the action is put at the end of the chain, and the line is
unmasked with the first one. -/
theorem setupPsIrq_cases (beyond : Nat → BitVec 16) (s : State) (irq : Nat) (new : Irqaction) :
    (s.actions irq = [] ∧ (setupPsIrq beyond s irq new).2 =
        (s.setActions irq (s.actions irq ++ [new])).unmaskIrq beyond irq) ∨
      s.actions irq ≠ [] ∧ ((setupPsIrq beyond s irq new).2 = s ∨
        (setupPsIrq beyond s irq new).2 = s.setActions irq (s.actions irq ++ [new])) := by
  unfold setupPsIrq
  split
  · rename_i hnil
    exact .inl ⟨hnil, by rw [hnil]; rfl⟩
  · rename_i old rest hchain
    refine .inr ⟨by simp [hchain], ?_⟩
    split
    · exact .inl rfl
    · split
      · exact .inl rfl
      · exact .inr (by rw [hchain])

theorem Wf.setup (hwf : Wf s) (hnew : ∀ a ∈ s.actions irq, a.id < new.id)
    (hfresh : new.id < s.fresh) :
    Wf (setupPsIrq beyond s irq new).2 := by
  rcases setupPsIrq_cases beyond s irq new with ⟨-, heq⟩ | ⟨-, heq | heq⟩
  · rw [heq]
    exact (hwf.append hnew hfresh).unmask irq
  · rw [heq]
    exact hwf
  · rw [heq]
    exact hwf.append hnew hfresh

theorem guarded_setup_iff (h : Guarded s) : Guarded (setupPsIrq beyond s irq new).2 ↔
    (s.actions irq = [] → ∀ i < nrInts, (cpuMaskTbl beyond irq).getLsbD (lineBit i) = true →
      i = irq ∨ s.actions i ≠ []) := by
  rcases setupPsIrq_cases beyond s irq new with ⟨hnil, heq⟩ | ⟨hne, heq | heq⟩
  · rw [heq, guarded_unmask_iff h.append]
    refine (forall_congr' fun i => forall_congr' fun _ => imp_congr_right fun _ => ?_).trans
      ⟨fun hall _ => hall, fun hall => hall hnil⟩
    show Function.update s.actions irq (s.actions irq ++ [new]) i ≠ [] ↔ _
    by_cases hi : i = irq
    · rw [hi, Function.update_self]
      simp
    · rw [Function.update_of_ne hi]
      simp [hi]
  · rw [heq]
    exact ⟨fun _ hnil => absurd hnil hne, fun _ => h⟩
  · rw [heq]
    exact ⟨fun _ hnil => absurd hnil hne, fun _ => h.append⟩

/-- A request that is turned down does nothing, any other is `setup_ps_irq` of a new action. -/
theorem requestIrq_cases (beyond : Nat → BitVec 16) (s : State) (r : Request) (memory : Bool) :
    ((requestIrq beyond s r memory).2 = s ∧ ¬ (r.irq < 32 ∧ r.handler = true ∧ memory = true)) ∨
      (r.irq < 32 ∧ r.handler = true ∧ memory = true) ∧
        requestIrq beyond s r memory = setupPsIrq beyond { s with fresh := s.fresh + 1 } r.irq
          ⟨s.fresh, r.saInterrupt, r.saShirq, r.devId⟩ := by
  unfold requestIrq
  split
  · exact .inl ⟨rfl, by omega⟩
  · split
    · exact .inl ⟨rfl, by simp_all⟩
    · split
      · exact .inl ⟨rfl, by simp_all⟩
      · refine .inr ⟨⟨by omega, by simp_all, by simp_all⟩, rfl⟩

end Request

/-! ## Releases -/

section Free

variable {irq devId : Nat} {a : Irqaction}

/-- The chain without the action that is freed. -/
theorem mem_map_eraseP (hnodup : ((s.actions irq).map Irqaction.id).Nodup)
    (ha : (s.actions irq).find? (·.devId == devId) = some a) (id : Nat) :
    id ∈ ((s.actions irq).eraseP (·.devId == devId)).map Irqaction.id ↔
      id ∈ (s.actions irq).map Irqaction.id ∧ id ≠ a.id := by
  obtain ⟨hdev, before, after, hsplit, hbefore⟩ := List.find?_eq_some_iff_append.mp ha
  have herase : (s.actions irq).eraseP (·.devId == devId) = before ++ after := by
    rw [hsplit, List.eraseP_append_right _ (by simpa using hbefore), List.eraseP_cons, hdev]
    rfl
  rw [herase]
  rw [hsplit, List.map_append, List.map_cons, List.nodup_middle, List.nodup_cons] at hnodup
  rw [hsplit, List.map_append, List.map_append, List.map_cons, List.mem_append, List.mem_append,
    List.mem_cons]
  have hnot := hnodup.1
  rw [List.mem_append] at hnot
  constructor
  · intro hmem
    exact ⟨hmem.imp_right .inr, fun hid => hnot (hid ▸ hmem)⟩
  · rintro ⟨hmem | rfl | hmem, hne⟩
    · exact .inl hmem
    · exact absurd rfl hne
    · exact .inr hmem

/-- The chain is empty afterwards only if the action was alone. -/
theorem eraseP_eq_nil_iff (ha : (s.actions irq).find? (·.devId == devId) = some a) :
    (s.actions irq).eraseP (·.devId == devId) = [] ↔ s.actions irq = [a] := by
  have hmem := List.mem_of_find?_eq_some ha
  have hdev := List.find?_some ha
  rw [List.eraseP_eq_nil_iff]
  constructor
  · rintro (hnil | ⟨b, -, hb⟩)
    · rw [hnil] at hmem
      exact absurd hmem List.not_mem_nil
    · rw [hb] at hmem ⊢
      rw [List.mem_singleton.mp hmem]
  · exact fun h => .inr ⟨a, hdev, h⟩

/-- The state without the action of a device; a line that loses its last action is masked. -/
def State.released (beyond : Nat → BitVec 16) (s : State) (irq devId : Nat) : State :=
  let chain := (s.actions irq).eraseP (·.devId == devId)
  if chain = [] then (s.setActions irq chain).maskIrq beyond irq else s.setActions irq chain

/-- What `free_irq` does: nothing, or it releases the action, or it reads an entry that the table
does not have. -/
theorem freeIrq_cases (beyond : Nat → BitVec 16) (s : State) (irq devId : Nat) :
    ((39 < irq ∨ irq < 32 ∧ (s.actions irq).find? (·.devId == devId) = none) ∧
        freeIrq beyond s irq devId = .ok s) ∨
      ((¬ 39 < irq ∧ ¬ irq < 32) ∧ freeIrq beyond s irq devId = .error .noEntry) ∨
      (¬ 39 < irq ∧ irq < 32) ∧ ∃ a, (s.actions irq).find? (·.devId == devId) = some a ∧
        freeIrq beyond s irq devId = .ok (s.released beyond irq devId) := by
  have hset : (s.setActions irq ((s.actions irq).eraseP (·.devId == devId))).actions irq =
      (s.actions irq).eraseP (·.devId == devId) := Function.update_self _ _ _
  unfold freeIrq
  by_cases hlarge : 39 < irq
  · exact .inl ⟨.inl hlarge, if_pos hlarge⟩
  · rw [if_neg hlarge]
    by_cases hirq : irq < 32
    · rw [if_neg (by omega), ← List.isSome_find?]
      cases ha : (s.actions irq).find? (·.devId == devId) with
      | none => exact .inl ⟨.inr ⟨hirq, rfl⟩, rfl⟩
      | some a =>
        refine .inr (.inr ⟨⟨hlarge, hirq⟩, a, rfl, ?_⟩)
        dsimp only [Option.isSome_some, if_true]
        rw [hset]
        rfl
    · exact .inr (.inl ⟨⟨hlarge, hirq⟩, if_pos (by omega)⟩)

theorem Wf.erase (hwf : Wf s) : Wf (s.setActions irq ((s.actions irq).eraseP (·.devId == devId))) :=
  hwf.setActions ((hwf.nodup irq).sublist (List.eraseP_sublist.map _))
    fun a ha => hwf.ids_lt irq a (List.eraseP_sublist.subset ha)

theorem Wf.mask (hwf : Wf s) (irq : Nat) : Wf (s.maskIrq beyond irq) :=
  ⟨fun k hk => hwf.mask_lt k (mask_of_maskIrq hk), hwf.irq_lt, hwf.nodup, hwf.ids_lt⟩

/-- A call of `do_IRQ` under way still finds what it looks for after the release, unless it runs the
action or has only that one. -/
theorem finds_erase_iff (hwf : Wf s) (h : Guarded s)
    (ha : (s.actions irq).find? (·.devId == devId) = some a) {f : Service} (hf : f ∈ s.services) :
    f.Finds (Function.update s.actions irq ((s.actions irq).eraseP (·.devId == devId))) ↔
      (f.irq = irq → f.running ≠ some a.id ∧ s.actions irq ≠ [a]) := by
  have hold := h.serving f hf
  obtain ⟨firq, running⟩ := f
  by_cases hirq : firq = irq
  · subst hirq
    refine Iff.trans ?_ ⟨fun hc _ => hc, fun hc => hc rfl⟩
    cases running with
    | none =>
      show Function.update s.actions firq _ firq ≠ [] ↔ _
      rw [Function.update_self, ne_eq, eraseP_eq_nil_iff ha]
      exact ⟨fun hne => ⟨by simp, hne⟩, fun hc => hc.2⟩
    | some id =>
      show id ∈ (Function.update s.actions firq _ firq).map Irqaction.id ↔ _
      have hmem : id ∈ (s.actions firq).map Irqaction.id := hold
      rw [Function.update_self, mem_map_eraseP (hwf.nodup firq) ha]
      constructor
      · rintro ⟨-, hne⟩
        refine ⟨fun heq => hne (Option.some.inj heq), fun hone => hne ?_⟩
        rw [hone] at hmem
        simpa using hmem
      · exact fun hc => ⟨hmem, fun heq => hc.1 (congrArg some heq)⟩
  · refine ⟨fun _ heq => absurd heq hirq, fun _ => hold.mono ?_⟩
    show (s.actions firq).map _ ⊆ (Function.update s.actions irq _ firq).map _
    rw [Function.update_of_ne hirq]
    exact List.Subset.refl _

theorem guarded_released_iff (hwf : Wf s) (h : Guarded s)
    (ha : (s.actions irq).find? (·.devId == devId) = some a) :
    Guarded (s.released beyond irq devId) ↔
      ∀ f ∈ s.services, f.irq = irq → f.running ≠ some a.id ∧ s.actions irq ≠ [a] := by
  refine Iff.trans ?_ (forall_congr' fun f => forall_congr' fun hf => finds_erase_iff hwf h ha hf)
  unfold State.released
  dsimp only
  split
  · refine ⟨fun hg => hg.serving, fun hfinds =>
      h.setActions (fun k hk => mask_of_maskIrq hk) (fun hi hmask => ?_) hfinds⟩
    have hbit := (getLsbD_maskIrq s irq (lineBit irq) (by have := lineBit_lt hi; omega)).symm.trans
      hmask
    simp [hi, lineBit_lt hi] at hbit
  · rename_i hne
    exact ⟨fun hg => hg.serving, fun hfinds =>
      h.setActions (fun _ hk => hk) (fun _ _ => hne) hfinds⟩

end Free

/-! ## Calls -/

theorem exists_ok_iff {t : State} :
    (∃ s', (.ok t : Except Fault State) = .ok s' ∧ Guarded s') ↔ Guarded t :=
  ⟨fun ⟨_, hs', hg⟩ => Except.ok.inj hs' ▸ hg, fun hg => ⟨t, rfl, hg⟩⟩

/-- **A call keeps a safe kernel safe exactly if it is clear.** -/
theorem call_clear_iff (hwf : Wf s) (h : Guarded s) (c : Call) :
    (∃ s', call beyond s c = .ok s' ∧ Guarded s') ↔ c.Clear beyond s := by
  cases c with
  | request r memory =>
    refine exists_ok_iff.trans ?_
    rcases requestIrq_cases beyond s r memory with ⟨heq, hno⟩ | ⟨⟨hirq, hhandler, hmemory⟩, heq⟩
    · rw [heq]
      exact ⟨fun _ h₁ h₂ h₃ => absurd ⟨h₁, h₂, h₃⟩ hno, fun _ => h⟩
    · have hg : Guarded { s with fresh := s.fresh + 1 } := ⟨h.handled, h.serving⟩
      rw [heq, guarded_setup_iff hg]
      exact ⟨fun hc _ _ _ => hc, fun hc => hc hirq hhandler hmemory⟩
  | free irq devId =>
    show (∃ s', freeIrq beyond s irq devId = .ok s' ∧ Guarded s') ↔ _
    rcases freeIrq_cases beyond s irq devId with
      ⟨hno, heq⟩ | ⟨hno, heq⟩ | ⟨⟨hlarge, hirq⟩, a, ha, heq⟩
    · rw [heq, exists_ok_iff]
      refine iff_of_true h (hno.imp_right fun hno => ⟨hno.1, fun a ha => ?_⟩)
      exact absurd (hno.2.symm.trans ha) (Option.some_ne_none a).symm
    · -- the entries the table does not have
      rw [heq]
      exact iff_of_false (fun ⟨s', hs', _⟩ => by cases hs')
        fun hc => hno.2 (hc.resolve_left hno.1).1
    · rw [heq, exists_ok_iff, guarded_released_iff hwf h ha]
      refine ⟨fun hc => .inr ⟨hirq, fun b hb => ?_⟩, fun hc => (hc.resolve_left hlarge).2 a ha⟩
      exact Option.some.inj (ha.symm.trans hb) ▸ hc
  | enable irq => exact exists_ok_iff.trans (guarded_unmask_iff h irq)
  | disable irq =>
    exact ⟨fun _ => trivial, fun _ => ⟨_, rfl,
      fun i hi hmask => h.handled i hi (mask_of_maskIrq hmask), h.serving⟩⟩

theorem call_wf (hwf : Wf s) {c : Call} (hs' : call beyond s c = .ok s') : Wf s' := by
  cases c with
  | request r memory =>
    obtain rfl : (requestIrq beyond s r memory).2 = s' := Except.ok.inj hs'
    rcases requestIrq_cases beyond s r memory with ⟨heq, -⟩ | ⟨-, heq⟩
    · rw [heq]
      exact hwf
    · rw [heq]
      refine Wf.setup ⟨hwf.mask_lt, hwf.irq_lt, hwf.nodup, fun irq a ha => ?_⟩
        (hwf.ids_lt r.irq) (Nat.lt_succ_self _)
      exact Nat.lt_succ_of_lt (hwf.ids_lt irq a ha)
  | free irq devId =>
    have hfree : freeIrq beyond s irq devId = .ok s' := hs'
    rcases freeIrq_cases beyond s irq devId with ⟨-, heq⟩ | ⟨-, heq⟩ | ⟨-, a, -, heq⟩
    · exact Except.ok.inj (heq.symm.trans hfree) ▸ hwf
    · cases heq.symm.trans hfree
    · obtain rfl := Except.ok.inj (heq.symm.trans hfree)
      unfold State.released
      dsimp only
      split
      · exact hwf.erase.mask irq
      · exact hwf.erase
  | enable irq =>
    cases hs'
    exact hwf.unmask irq
  | disable irq =>
    cases hs'
    exact hwf.mask irq

/-! ## Runs -/

theorem step_wf (hwf : Wf s) {e : Event} (hs' : step beyond s e = .ok s') : Wf s' := by
  cases e with
  | signal x => exact (signal_moves hwf hs').wf hwf
  | call c =>
    have hcall : (if s.driversRun then call beyond s c else .ok s) = .ok s' := hs'
    split at hcall
    · exact call_wf hwf hcall
    · cases hcall
      exact hwf

theorem run_wf (hwf : Wf s) {events : List Event}
    (hs' : events.foldlM (step beyond) s = .ok s') : Wf s' :=
  inv_of_foldlM (fun _ _ _ _ hwf => step_wf hwf) hwf hs'

/-- **The exact condition under which interrupts cannot kill the kernel.**  In every state that any
run of drivers and interrupts leads to, no sequence of further interrupts ends in a panic, a null
pointer or freed memory, if and only if every unmasked line has a handler and every call of `do_IRQ`
under way still finds what it will look for. -/
theorem crash_free_iff (beyond : Nat → BitVec 16) (events : List Event) (s : State)
    (hrun : events.foldlM (step beyond) State.boot = .ok s) : Safe beyond s ↔ Guarded s :=
  safe_iff_guarded (run_wf wf_boot hrun)

/-- `enable_irq` of the controller line before the card driver has asked for it. -/
theorem not_safe_enabled : ¬ Safe (fun _ => 0) (enableIrq (fun _ => 0) State.boot 1) := by
  rw [crash_free_iff (fun _ => 0) [.call (.enable 1)] _ rfl]
  intro h
  exact h.handled 1 (by decide) (by decide) rfl

/-- A step keeps a safe kernel safe exactly if it is clear. -/
theorem step_clear_iff (hwf : Wf s) (h : Guarded s) (e : Event) :
    (∃ s', step beyond s e = .ok s' ∧ Guarded s') ↔ e.Clear beyond s := by
  cases e with
  | signal x =>
    obtain ⟨s', hs'⟩ := signal_ok beyond hwf h x
    exact ⟨fun _ => trivial, fun _ => ⟨s', hs', (signal_moves hwf hs').guarded hwf h⟩⟩
  | call c =>
    unfold step Event.Clear
    by_cases hrun : s.driversRun = true
    · simp only [hrun, if_true, true_imp_iff]
      exact call_clear_iff hwf h c
    · simp only [hrun]
      exact ⟨fun _ hc => absurd hc (by simp), fun _ => ⟨s, rfl, h⟩⟩

theorem clearRun_iff (hwf : Wf s) (h : Guarded s) (events : List Event) :
    ClearRun (step beyond) (Event.Clear beyond) s events ↔
      ∀ n, ∃ s', (events.take n).foldlM (step beyond) s = .ok s' ∧ Guarded s' := by
  induction events generalizing s with
  | nil =>
    refine ⟨fun _ n => ⟨s, ?_, h⟩, fun _ => trivial⟩
    rw [List.take_nil]
    rfl
  | cons e events ih =>
    constructor
    · rintro ⟨hclear, hrest⟩ n
      cases n with
      | zero => exact ⟨s, rfl, h⟩
      | succ n =>
        obtain ⟨s₁, hs₁, hg⟩ := (step_clear_iff hwf h e).mpr hclear
        rw [List.take_succ_cons, List.foldlM_cons, hs₁]
        exact (ih (step_wf hwf hs₁) hg).mp (hrest s₁ hs₁) n
    · intro hall
      obtain ⟨s₁, hs₁, hg⟩ := hall 1
      have hstep : step beyond s e = .ok s₁ := by
        rw [List.take_succ_cons, List.take_zero, List.foldlM_cons] at hs₁
        exact (bind_pure (step beyond s e)).symm.trans hs₁
      refine ⟨(step_clear_iff hwf h e).mp ⟨s₁, hstep, hg⟩, fun s₂ hs₂ => ?_⟩
      obtain rfl := Except.ok.inj (hstep.symm.trans hs₂)
      refine (ih (step_wf hwf hstep) hg).mpr fun n => ?_
      have htake := hall (n + 1)
      rwa [List.take_succ_cons, List.foldlM_cons, hstep] at htake

/-- **Drivers keep the kernel safe exactly by clear calls.**  For every run of drivers and
interrupts from the start: at every point of it the kernel is alive and no interrupts can kill it,
if and only if every call a driver makes in it is clear where it is made. -/
theorem safe_throughout_iff (beyond : Nat → BitVec 16) (events : List Event) :
    ClearRun (step beyond) (Event.Clear beyond) State.boot events ↔
      ∀ n, ∃ s, (events.take n).foldlM (step beyond) State.boot = .ok s ∧ Safe beyond s := by
  rw [clearRun_iff wf_boot guarded_boot]
  exact forall_congr' fun n => exists_congr fun s => and_congr_right fun hrun =>
    (safe_iff_guarded (run_wf wf_boot hrun)).symm

end Irq
end Blackroo
