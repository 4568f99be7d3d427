import Mathlib.Data.List.TakeWhile
import Blackroo.Irq.Controller
import Blackroo.Lib.Runs

/-!
# When an interrupt can kill the kernel

`do_IRQ` panics on a line without a handler, reads through a null pointer if the chain is empty when
it looks again, and reads freed memory if the action that has just run is gone.  Whether one of
these can happen depends on what the drivers did before, possibly long before.

`Guarded` is the exact condition on a state: a line that may interrupt has a handler, and a call of
`do_IRQ` that is under way still finds what it will look for.  As long as drivers do nothing,
interrupts keep it (`signal_ok`, `Moves.guarded`), and where it fails, some sequence of interrupts
finds the gap (`guarded_of_safe`): calls under way return until the bad one is on top, and a line
without a handler gets through as soon as every line before it is masked.

What remains is which calls keep it (`Call.Clear`).  `do_IRQ` unmasks its line at the end
whatever has happened to the chain, so the interesting one is `free_irq`: it must not free the
action that is running, nor the last action of a line in service, which makes it useless in a
handler of the same line.
-/

namespace Blackroo
namespace Irq

open Runs

variable {beyond : Nat → BitVec 16} {s s' : State}

/-! ## The condition -/

/-- What holds in every state. -/
structure Wf (s : State) : Prop where
  mask_lt : ∀ k, s.mask.getLsbD k = true → k < 11
  irq_lt : ∀ f ∈ s.services, f.irq < nrInts
  nodup : ∀ irq, ((s.actions irq).map Irqaction.id).Nodup
  ids_lt : ∀ irq, ∀ a ∈ s.actions irq, a.id < s.fresh

/-- What a call of `do_IRQ` will look for. -/
def Service.Finds (f : Service) (actions : Nat → List Irqaction) : Prop :=
  match f.running with
  | none => actions f.irq ≠ []
  | some id => id ∈ (actions f.irq).map Irqaction.id

theorem Service.Finds.ne_nil {f : Service} {actions : Nat → List Irqaction}
    (h : f.Finds actions) : actions f.irq ≠ [] := by
  unfold Service.Finds at h
  split at h
  · exact h
  · intro hnil
    rw [hnil] at h
    exact absurd h List.not_mem_nil

/-- **The condition**: every line that may interrupt has a handler, and every call of `do_IRQ` under
way finds what it will look for. -/
structure Guarded (s : State) : Prop where
  handled : ∀ i < nrInts, s.mask.getLsbD (lineBit i) = true → s.actions i ≠ []
  serving : ∀ f ∈ s.services, f.Finds s.actions

/-- Interrupts alone cannot kill the kernel. -/
def Safe (beyond : Nat → BitVec 16) (s : State) : Prop :=
  ∀ xs : List Signal, ∃ s', xs.foldlM (signal beyond) s = .ok s'

theorem wf_boot : Wf State.boot where
  mask_lt k h := absurd h (by simp [State.boot])
  irq_lt f h := absurd h List.not_mem_nil
  nodup _ := List.nodup_nil
  ids_lt _ a h := absurd h List.not_mem_nil

theorem guarded_boot : Guarded State.boot where
  handled i _ h := absurd h (by simp [State.boot])
  serving f h := absurd h List.not_mem_nil

/-! ## Interrupts -/

theorem pending_eq_some {i : Nat} (h : s.pending beyond = some i) :
    i < nrInts ∧ s.stat.getLsbD (lineBit i) = true ∧ s.mask.getLsbD (lineBit i) = true := by
  have hi : i < nrInts := List.mem_range.mp (List.mem_of_find?_eq_some h)
  have hbit := List.find?_some h
  rw [bne_iff_ne, and_cpuMaskTbl_ne_zero hi, BitVec.getLsbD_and, Bool.and_eq_true] at hbit
  exact ⟨hi, hbit⟩

theorem pending_eq_none (hwf : Wf s) (h : s.pending beyond = none) : s.stat &&& s.mask = 0 := by
  refine BitVec.eq_of_getLsbD_eq fun k _ => ?_
  show _ = (0#16).getLsbD k
  rw [BitVec.getLsbD_and, BitVec.getLsbD_zero, Bool.eq_false_iff]
  intro hbit
  rw [Bool.and_eq_true] at hbit
  obtain ⟨i, hi, rfl⟩ := exists_lineBit (hwf.mask_lt k hbit.2)
  refine absurd (List.find?_eq_none.mp h i (List.mem_range.mpr hi)) (not_not.mpr ?_)
  rw [bne_iff_ne, and_cpuMaskTbl_ne_zero hi, BitVec.getLsbD_and, hbit.1, hbit.2]
  rfl

/-- The processor goes on, or a line that asks and may interrupt gets through. -/
theorem takeIrq_cases (beyond : Nat → BitVec 16) (hwf : Wf s) :
    (takeIrq beyond s = .ok s ∧ (s.enabled = true → s.stat &&& s.mask = 0)) ∨
      ∃ i < nrInts, s.stat.getLsbD (lineBit i) = true ∧ s.mask.getLsbD (lineBit i) = true ∧
        takeIrq beyond s = doIrq beyond s i := by
  unfold takeIrq
  split
  · rename_i hcond
    rw [Bool.and_eq_true, bne_iff_ne] at hcond
    split
    · rename_i hnone
      exact absurd (pending_eq_none hwf hnone) hcond.2
    · rename_i i hsome
      obtain ⟨hi, hstat, hmask⟩ := pending_eq_some hsome
      have hnr : ∀ i : Fin 11, cpuIrqNr.getD i nrInts = i := by decide
      refine .inr ⟨i, hi, hstat, hmask, ?_⟩
      rw [hnr ⟨i, hi⟩]
      rfl
  · rename_i hcond
    refine .inl ⟨rfl, fun henabled => ?_⟩
    rw [henabled, Bool.true_and, bne_iff_ne, not_not] at hcond
    exact hcond

/-- The state in which `do_IRQ` of line `i` has found an action. -/
def State.served (beyond : Nat → BitVec 16) (s : State) (i : Nat) (a : Irqaction) : State :=
  { s.maskIrq beyond i with
    stat := s.stat &&& ~~~(cpuMaskTbl beyond i)
    enabled := !a.saInterrupt
    services := ⟨i, none⟩ :: s.services }

theorem doIrq_nil {i : Nat} (h : s.actions i = []) :
    doIrq beyond s i = .error (.unregistered i) := by
  unfold doIrq State.maskIrq
  simp only [h]

theorem doIrq_cons {i : Nat} {a : Irqaction} {rest : List Irqaction} (h : s.actions i = a :: rest) :
    doIrq beyond s i = .ok (s.served beyond i a) := by
  unfold doIrq State.maskIrq
  simp only [h]
  rfl

/-- Masking only takes lines away. -/
theorem mask_of_maskIrq {irq k : Nat} (h : (s.maskIrq beyond irq).mask.getLsbD k = true) :
    s.mask.getLsbD k = true := by
  rw [State.maskIrq, BitVec.getLsbD_and, Bool.and_eq_true] at h
  exact h.1

theorem Wf.served (hwf : Wf s) {i : Nat} (hi : i < nrInts) (a : Irqaction) :
    Wf (s.served beyond i a) :=
  ⟨fun k hk => hwf.mask_lt k (mask_of_maskIrq hk), List.forall_mem_cons.mpr ⟨hi, hwf.irq_lt⟩,
    hwf.nodup, hwf.ids_lt⟩

theorem Guarded.served (h : Guarded s) {i : Nat} (hne : s.actions i ≠ []) (a : Irqaction) :
    Guarded (s.served beyond i a) :=
  ⟨fun j hj hbit => h.handled j hj (mask_of_maskIrq hbit),
    List.forall_mem_cons.mpr ⟨hne, h.serving⟩⟩

theorem Wf.unmask (hwf : Wf s) (irq : Nat) : Wf (s.unmaskIrq beyond irq) := by
  refine ⟨fun k hk => ?_, hwf.irq_lt, hwf.nodup, hwf.ids_lt⟩
  rw [getLsbD_unmaskIrq, Bool.or_eq_true, Bool.and_eq_true, decide_eq_true_iff] at hk
  exact hk.elim (hwf.mask_lt k) fun h => h.2

/-- The lines that unmasking `irq` lets through all have a handler. -/
def Covered (beyond : Nat → BitVec 16) (s : State) (irq : Nat) : Prop :=
  ∀ i < nrInts, (cpuMaskTbl beyond irq).getLsbD (lineBit i) = true → s.actions i ≠ []

theorem covered_line {i : Nat} (hi : i < nrInts) (h : s.actions i ≠ []) : Covered beyond s i := by
  intro j hj hbit
  rw [getLsbD_cpuMaskTbl hi, decide_eq_true_iff] at hbit
  obtain rfl := lineBit_inj hj hi hbit
  exact h

theorem guarded_unmask_iff (h : Guarded s) (irq : Nat) :
    Guarded (s.unmaskIrq beyond irq) ↔ Covered beyond s irq := by
  constructor
  · intro h' i hi hbit
    refine h'.handled i hi ?_
    rw [getLsbD_unmaskIrq, hbit, decide_eq_true (lineBit_lt hi)]
    simp
  · intro hcov
    refine ⟨fun i hi hbit => ?_, h.serving⟩
    rw [getLsbD_unmaskIrq, Bool.or_eq_true, Bool.and_eq_true] at hbit
    exact hbit.elim (h.handled i hi) fun hb => hcov i hi hb.1

/-! ## Where a handler returns to -/

theorem dropWhile_ne_nil {chain : List Irqaction} {id : Nat}
    (h : id ∈ chain.map Irqaction.id) : chain.dropWhile (·.id != id) ≠ [] := by
  intro hnil
  obtain ⟨a, ha, rfl⟩ := List.mem_map.mp h
  simpa using List.dropWhile_eq_nil_iff.mp hnil a ha

theorem mem_of_dropWhile {chain rest : List Irqaction} {p : Irqaction → Bool} {a : Irqaction}
    (h : chain.dropWhile p = rest) (ha : a ∈ rest) : a.id ∈ chain.map Irqaction.id := by
  subst h
  exact List.mem_map_of_mem ((List.dropWhile_sublist p).subset ha)

/-- The chain from the next action on. -/
theorem dropWhile_next {chain rest : List Irqaction} (hnodup : (chain.map Irqaction.id).Nodup)
    {id : Nat} {a b : Irqaction} (h : chain.dropWhile (·.id != id) = a :: b :: rest) :
    chain.dropWhile (·.id != b.id) = b :: rest := by
  have hsplit : chain = chain.takeWhile (·.id != id) ++ [a] ++ b :: rest := by
    rw [List.append_assoc, List.singleton_append, ← h, List.takeWhile_append_dropWhile]
  generalize chain.takeWhile (·.id != id) ++ [a] = before at hsplit
  subst hsplit
  rw [List.map_append, List.nodup_append] at hnodup
  rw [List.dropWhile_append_of_pos, List.dropWhile_cons_of_neg (by simp)]
  intro c hc
  rw [bne_iff_ne]
  exact hnodup.2.2 c.id (List.mem_map_of_mem hc) b.id (List.mem_map_of_mem List.mem_cons_self)

/-! ## Interrupts keep the condition -/

/-- What interrupts do to a kernel: flags change, a line is taken, a call of `do_IRQ` comes to its
next handler, or the innermost one returns. -/
inductive Moves (beyond : Nat → BitVec 16) (s : State) : State → Prop
  | flags (stat : BitVec 16) (enabled : Bool) :
      Moves beyond s { s with stat := stat, enabled := enabled }
  | taken {i : Nat} {a : Irqaction} (hi : i < nrInts)
      (hmask : s.mask.getLsbD (lineBit i) = true) : Moves beyond s (s.served beyond i a)
  | next {f : Service} {a : Irqaction} {rest : List Service} (hservices : s.services = f :: rest)
      (ha : a.id ∈ (s.actions f.irq).map Irqaction.id) :
      Moves beyond s { s with services := ⟨f.irq, some a.id⟩ :: rest }
  | returned {f : Service} {rest : List Service} (hservices : s.services = f :: rest) :
      Moves beyond s { s.unmaskIrq beyond f.irq with enabled := true, services := rest }

theorem signal_moves (hwf : Wf s) {x : Signal} (h : signal beyond s x = .ok s') :
    Moves beyond s s' := by
  cases x with
  | raise line =>
    cases h
    exact .flags _ _
  | sti =>
    cases h
    split <;> exact .flags _ _
  | cli =>
    cases h
    split <;> exact .flags _ _
  | take =>
    have htake : takeIrq beyond s = .ok s' := h
    rcases takeIrq_cases beyond hwf with ⟨heq, -⟩ | ⟨i, hi, -, hmask, heq⟩
    · obtain rfl := Except.ok.inj (heq.symm.trans htake)
      exact .flags _ _
    · rw [heq] at htake
      cases hchain : s.actions i with
      | nil => exact absurd ((doIrq_nil hchain).symm.trans htake) (by simp)
      | cons a rest =>
        obtain rfl := Except.ok.inj ((doIrq_cons hchain).symm.trans htake)
        exact .taken hi hmask
  | firstHandler =>
    have hfirst : firstHandler s = .ok s' := h
    unfold firstHandler at hfirst
    split at hfirst
    · rename_i irq rest hservices
      split at hfirst
      · cases hfirst
      · rename_i a chain hchain
        cases hfirst
        exact .next hservices (by rw [hchain]; exact List.mem_cons_self)
    · cases hfirst
      exact .flags _ _
  | handlerReturns =>
    have hreturns : handlerReturns beyond s = .ok s' := h
    unfold handlerReturns at hreturns
    split at hreturns
    · rename_i irq id rest hservices
      split at hreturns
      · cases hreturns
      · cases hreturns
        exact .returned hservices
      · rename_i a b rest' hdrop
        cases hreturns
        exact .next hservices (mem_of_dropWhile hdrop (List.mem_cons_of_mem _ List.mem_cons_self))
    · cases hreturns
      exact .flags _ _

theorem Moves.wf (hwf : Wf s) (h : Moves beyond s s') : Wf s' := by
  have hirq := hwf.irq_lt
  cases h with
  | flags => exact ⟨hwf.mask_lt, hwf.irq_lt, hwf.nodup, hwf.ids_lt⟩
  | taken hi => exact hwf.served hi _
  | next hservices =>
    rw [hservices, List.forall_mem_cons] at hirq
    exact ⟨hwf.mask_lt, List.forall_mem_cons.mpr hirq, hwf.nodup, hwf.ids_lt⟩
  | returned hservices =>
    rw [hservices, List.forall_mem_cons] at hirq
    exact ⟨(hwf.unmask _).mask_lt, hirq.2, hwf.nodup, hwf.ids_lt⟩

theorem Moves.guarded (hwf : Wf s) (hg : Guarded s) (h : Moves beyond s s') : Guarded s' := by
  have hserving := hg.serving
  cases h with
  | flags => exact ⟨hg.handled, hg.serving⟩
  | taken hi hmask => exact hg.served (hg.handled _ hi hmask) _
  | next hservices ha =>
    rw [hservices, List.forall_mem_cons] at hserving
    exact ⟨hg.handled, List.forall_mem_cons.mpr ⟨ha, hserving.2⟩⟩
  | returned hservices =>
    -- the line is unmasked, and its chain is not empty
    have hirq := hwf.irq_lt
    rw [hservices, List.forall_mem_cons] at hirq hserving
    have hcovered : Covered beyond s _ := covered_line hirq.1 hserving.1.ne_nil
    exact ⟨((guarded_unmask_iff hg _).mpr hcovered).handled, hserving.2⟩

/-- **As long as drivers do nothing, nothing goes wrong.** -/
theorem signal_ok (beyond : Nat → BitVec 16) (hwf : Wf s) (h : Guarded s) (x : Signal) :
    ∃ s', signal beyond s x = .ok s' := by
  cases x with
  | raise line => exact ⟨_, rfl⟩
  | sti => exact ⟨_, rfl⟩
  | cli => exact ⟨_, rfl⟩
  | take =>
    show ∃ s', takeIrq beyond s = .ok s'
    rcases takeIrq_cases beyond hwf with ⟨heq, -⟩ | ⟨i, hi, -, hmask, heq⟩
    · exact ⟨s, heq⟩
    · obtain ⟨a, rest, hchain⟩ := List.exists_cons_of_ne_nil (h.handled i hi hmask)
      exact ⟨_, heq.trans (doIrq_cons hchain)⟩
  | firstHandler =>
    show ∃ s', firstHandler s = .ok s'
    unfold firstHandler
    split
    · rename_i irq rest hservices
      have hfinds := h.serving ⟨irq, none⟩ (by rw [hservices]; exact List.mem_cons_self)
      obtain ⟨a, chain, hchain⟩ := List.exists_cons_of_ne_nil hfinds.ne_nil
      simp only [hchain]
      exact ⟨_, rfl⟩
    · exact ⟨s, rfl⟩
  | handlerReturns =>
    show ∃ s', handlerReturns beyond s = .ok s'
    unfold handlerReturns
    split
    · rename_i irq id rest hservices
      have hfinds := h.serving ⟨irq, some id⟩ (by rw [hservices]; exact List.mem_cons_self)
      split
      · rename_i hnil
        exact absurd hnil (dropWhile_ne_nil hfinds)
      · exact ⟨_, rfl⟩
      · exact ⟨_, rfl⟩
    · exact ⟨s, rfl⟩

theorem safe_of_guarded (beyond : Nat → BitVec 16) (hwf : Wf s) (h : Guarded s) :
    Safe beyond s := by
  intro xs
  induction xs generalizing s with
  | nil => exact ⟨s, rfl⟩
  | cons x xs ih =>
    obtain ⟨s₁, hs₁⟩ := signal_ok beyond hwf h x
    have hmoves := signal_moves hwf hs₁
    rw [List.foldlM_cons, hs₁]
    exact ih (hmoves.wf hwf) (hmoves.guarded hwf h)

/-! ## Where the condition fails -/

section Unsafe

theorem Safe.signal_ok (h : Safe beyond s) (x : Signal) :
    ∃ s', signal beyond s x = .ok s' ∧ Safe beyond s' := by
  cases hx : signal beyond s x with
  | error f =>
    obtain ⟨s', hs'⟩ := h [x]
    rw [List.foldlM_cons, hx] at hs'
    cases hs'
  | ok s₁ =>
    refine ⟨s₁, rfl, fun xs => ?_⟩
    obtain ⟨s₂, hs₂⟩ := h (x :: xs)
    rw [List.foldlM_cons, hx] at hs₂
    exact ⟨s₂, hs₂⟩

theorem Safe.not_error (h : Safe beyond s) {x : Signal} {f : Fault} :
    signal beyond s x ≠ .error f := by
  intro herror
  obtain ⟨s', hs', -⟩ := h.signal_ok x
  rw [herror] at hs'
  cases hs'

/-- A call of `do_IRQ` whose handlers run returns. -/
theorem Safe.returns {irq id : Nat} {rest : List Service} (h : Safe beyond s)
    (hnodup : ((s.actions irq).map Irqaction.id).Nodup)
    (hservices : s.services = ⟨irq, some id⟩ :: rest) :
    id ∈ (s.actions irq).map Irqaction.id ∧
      ∃ s', Safe beyond s' ∧ s'.actions = s.actions ∧ s'.services = rest := by
  -- the induction is on how much of the chain is left
  generalize hn : ((s.actions irq).dropWhile (·.id != id)).length = n
  induction n generalizing s id with
  | zero =>
    refine absurd (?_ : signal beyond s .handlerReturns = .error .actionFreed) h.not_error
    show handlerReturns beyond s = _
    unfold handlerReturns
    simp only [hservices, List.length_eq_zero_iff.mp hn]
  | succ n ih =>
    obtain ⟨s₁, hs₁, hsafe₁⟩ := h.signal_ok .handlerReturns
    have hret : handlerReturns beyond s = .ok s₁ := hs₁
    have hmem : id ∈ (s.actions irq).map Irqaction.id := by
      have hne : (s.actions irq).dropWhile (·.id != id) ≠ [] := by
        intro hnil
        rw [hnil] at hn
        cases hn
      have hhead := List.head_dropWhile_not (fun a : Irqaction => a.id != id) hne
      rw [bne_eq_false_iff_eq] at hhead
      rw [← hhead]
      exact mem_of_dropWhile rfl (List.head_mem hne)
    refine ⟨hmem, ?_⟩
    unfold handlerReturns at hret
    simp only [hservices] at hret
    split at hret
    · cases hret
    · cases hret
      exact ⟨_, hsafe₁, rfl, rfl⟩
    · rename_i a b rest' hdrop
      cases hret
      have hnext := dropWhile_next hnodup hdrop
      rw [hdrop] at hn
      obtain ⟨-, s₂, hsafe₂, hactions₂, hservices₂⟩ := ih hsafe₁ hnodup rfl (by
        show ((s.actions irq).dropWhile (·.id != b.id)).length = n
        rw [hnext]
        exact Nat.succ.inj hn)
      exact ⟨s₂, hsafe₂, hactions₂, hservices₂⟩

/-- `do_IRQ` finds an action when it looks again, and calls its handler. -/
theorem Safe.first {irq : Nat} {rest : List Service} (h : Safe beyond s)
    (hservices : s.services = ⟨irq, none⟩ :: rest) :
    ∃ a chain, s.actions irq = a :: chain ∧
      Safe beyond { s with services := ⟨irq, some a.id⟩ :: rest } := by
  obtain ⟨s₁, hs₁, hsafe⟩ := h.signal_ok .firstHandler
  have hfirst : firstHandler s = .ok s₁ := hs₁
  unfold firstHandler at hfirst
  simp only [hservices] at hfirst
  split at hfirst
  · cases hfirst
  · rename_i a chain hchain
    cases hfirst
    exact ⟨a, chain, hchain, hsafe⟩

/-- Every call of `do_IRQ` under way finds what it looks for: the calls above it return first. -/
theorem Safe.serving (h : Safe beyond s) (hwf : Wf s) : ∀ f ∈ s.services, f.Finds s.actions := by
  generalize hservices : s.services = services
  have hnodup := hwf.nodup
  clear hwf
  induction services generalizing s with
  | nil => exact fun f hf => absurd hf List.not_mem_nil
  | cons f rest ih =>
    obtain ⟨irq, running⟩ := f
    have hgo {s₁ : State} (hsafe : Safe beyond s₁) (hactions : s₁.actions = s.actions)
        (hrest : s₁.services = rest) : ∀ f ∈ rest, f.Finds s.actions := by
      rw [← hactions]
      exact ih hsafe hrest (by rw [hactions]; exact hnodup)
    cases running with
    | none =>
      obtain ⟨a, chain, hchain, hsafe⟩ := h.first hservices
      obtain ⟨-, s₁, hsafe₁, hactions, hrest⟩ := hsafe.returns (hnodup irq) rfl
      refine List.forall_mem_cons.mpr ⟨?_, hgo hsafe₁ hactions hrest⟩
      show s.actions irq ≠ []
      rw [hchain]
      exact List.cons_ne_nil a chain
    | some id =>
      obtain ⟨hmem, s₁, hsafe₁, hactions, hrest⟩ := h.returns (hnodup irq) hservices
      exact List.forall_mem_cons.mpr ⟨hmem, hgo hsafe₁ hactions hrest⟩

/-- Some code gets to run with interrupts on. -/
theorem Safe.open (h : Safe beyond s) (hwf : Wf s) : ∃ services,
    Safe beyond { s with enabled := true, services := services } ∧
      Wf { s with enabled := true, services := services } := by
  have hsti {t : State} (ht : Safe beyond t) (hrun : t.driversRun = true) :
      Safe beyond { t with enabled := true } := by
    obtain ⟨t₁, ht₁, hsafe⟩ := ht.signal_ok .sti
    have heq : (Except.ok (if t.driversRun then { t with enabled := true } else t) :
      Except Fault State) = .ok t₁ := ht₁
    rw [if_pos hrun] at heq
    cases heq
    exact hsafe
  by_cases hrun : s.driversRun = true
  · exact ⟨s.services, hsti h hrun, ⟨hwf.mask_lt, hwf.irq_lt, hwf.nodup, hwf.ids_lt⟩⟩
  · unfold State.driversRun at hrun
    split at hrun
    · rename_i irq rest hservices
      obtain ⟨a, chain, -, hsafe⟩ := h.first hservices
      have hirq := hwf.irq_lt
      rw [hservices, List.forall_mem_cons] at hirq
      exact ⟨⟨irq, some a.id⟩ :: rest, hsti hsafe rfl,
        ⟨hwf.mask_lt, List.forall_mem_cons.mpr hirq, hwf.nodup, hwf.ids_lt⟩⟩
    · exact absurd rfl hrun

/-- Taking a line masks it. -/
theorem mask_served_lt {j : Nat} (hj : j < nrInts) (hmask : s.mask.getLsbD (lineBit j) = true)
    (a : Irqaction) : (s.served beyond j a).mask.toNat < s.mask.toNat := by
  have hlt := lineBit_lt hj
  refine lt_of_le_of_ne ?_ fun heq => ?_
  · exact (BitVec.toNat_and _ _).trans_le Nat.and_le_left
  · have hbit := @getLsbD_maskIrq beyond s j (lineBit j) (by omega)
    rw [show (s.maskIrq beyond j).mask = s.mask from BitVec.eq_of_toNat_eq heq] at hbit
    simp [hmask, hj, hlt] at hbit

/-- A line without a handler that asks and may interrupt gets through, after at most all others. -/
theorem Safe.not_exposed (h : Safe beyond s) (hwf : Wf s) {i : Nat} (hi : i < nrInts)
    (hnil : s.actions i = []) (hstat : s.stat.getLsbD (lineBit i) = true)
    (hmask : s.mask.getLsbD (lineBit i) = true) : False := by
  -- the induction is on the lines that may interrupt: each one taken is masked
  generalize hn : s.mask.toNat = n
  induction n using Nat.strong_induction_on generalizing s with
  | _ n ih =>
  obtain ⟨services, hsafe, hwf'⟩ := h.open hwf
  rcases takeIrq_cases beyond hwf' with ⟨-, hzero⟩ | ⟨j, hj, -, hmaskj, heq⟩
  · have hbit := congrArg (fun x : BitVec 16 => x.getLsbD (lineBit i)) (hzero rfl)
    simp [hstat, hmask] at hbit
  · cases hchain : s.actions j with
    | nil => exact hsafe.not_error (x := .take) (heq.trans (doIrq_nil hchain))
    | cons a chain =>
      obtain ⟨s₁, hs₁, hsafe₁⟩ := hsafe.signal_ok .take
      obtain rfl := Except.ok.inj ((heq.trans (doIrq_cons hchain)).symm.trans hs₁)
      have hij : lineBit i ≠ lineBit j := by
        intro hbits
        rw [lineBit_inj hi hj hbits, hchain] at hnil
        cases hnil
      have hlt := lineBit_lt hi
      refine ih _ (hn ▸ mask_served_lt (s := s) hj hmaskj a) hsafe₁ (hwf'.served hj a) hnil ?_
        ?_ rfl
      · show (s.stat &&& ~~~(cpuMaskTbl beyond j)).getLsbD (lineBit i) = true
        rw [BitVec.getLsbD_and, BitVec.getLsbD_not, getLsbD_cpuMaskTbl hj, hstat]
        simp [hij, show lineBit i < 16 by omega]
      · change (State.maskIrq beyond _ j).mask.getLsbD (lineBit i) = true
        rw [getLsbD_maskIrq _ _ _ (by omega), getLsbD_cpuMaskTbl hj]
        simp [hij, hmask]

/-- **Where the condition fails, interrupts can kill the kernel.** -/
theorem guarded_of_safe (hwf : Wf s) (h : Safe beyond s) : Guarded s := by
  refine ⟨fun i hi hmask hnil => ?_, h.serving hwf⟩
  obtain ⟨s₁, hs₁, hsafe₁⟩ := h.signal_ok (.raise ⟨i, hi⟩)
  cases hs₁
  refine hsafe₁.not_exposed ⟨hwf.mask_lt, hwf.irq_lt, hwf.nodup, hwf.ids_lt⟩ hi hnil ?_ hmask
  show (s.stat ||| cpuMaskTbl beyond i).getLsbD (lineBit i) = true
  rw [BitVec.getLsbD_or, getLsbD_cpuMaskTbl hi]
  simp

end Unsafe

theorem safe_iff_guarded (hwf : Wf s) : Safe beyond s ↔ Guarded s :=
  ⟨guarded_of_safe hwf, safe_of_guarded beyond hwf⟩

end Irq
end Blackroo
