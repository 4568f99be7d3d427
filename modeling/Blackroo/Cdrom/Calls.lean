import Blackroo.Cdrom.Controller
import Blackroo.Lib.LossyStream

/-!
# What a call of `psxcd_hw_read` relies on

The driver never asks the drive what it says.  It takes the next interrupt for the answer to the
command it has just written, counts the sectors in `psxcd_next_lba`, and believes that the next INT1
is the next sector.  Here is what makes that true, along one call.

* A drive that was idle at a `Setloc` has nothing to say but the answer (`Locating`), and is idle again
  behind it.  The same for the `ReadN` that follows (`Starting`), except that the INT1s of the new
  run may be behind the answer.
* From then on the drive is `Streaming`: all it holds are INT1s of this `ReadN`, and every sector from
  the wanted one up to the head is held, or has been dropped.
* Behind a `Pause` nothing needs to be known of the drive, because the next command is a `Setloc`.

Two things can be asked of a call, and each has its price (`Orders`).  That the drive is idle at
every `Setloc` is always demanded.  Who also wants every answer to be one (`A`) has to see to the
`Pause`, which is written while the drive reads: no INT1 may be there when it is written, and none
may be raised before it is executed.  Who wants the right sector (`S`) has to see to it that the
drive has not dropped it.  Between two calls the driver is `InStep` with the drive.
-/

namespace Blackroo
namespace Cdrom
namespace Registers

open Interaction LossyStream

/-! ## The moves of the drive -/

namespace Controller

@[simp] theorem line_raise (d : Controller) (i : Reply) : (d.raise i).line = d.line ++ [i] :=
  (List.append_assoc d.pending.toList d.queue [i]).symm

theorem line_raise_of_nil {d : Controller} (h : d.line = []) (i : Reply) :
    ({ d with command := none }.raise i).line = [i] := by
  rw [line_raise, show ({ d with command := none } : Controller).line = [] from h]
  rfl

@[simp] theorem line_accept (d : Controller) (n : Nat) (c : Command) :
    (d.accept n c).line = d.line := by
  cases c <;> rfl

theorem deliver_eq (d : Controller) :
    d.deliver = { d with pending := d.line.head?, queue := d.line.tail } := by
  rcases d with ⟨_, _, _, _ | p, _ | ⟨i, queue⟩, _, _, _, _, _, _, _⟩ <;> rfl

@[simp] theorem line_deliver (d : Controller) : d.deliver.line = d.line := by
  rw [deliver_eq]
  cases h : d.line with
  | nil => rfl
  | cons i rest => rfl

theorem line_of_pending {d : Controller} {i : Reply} (h : d.pending = some i) :
    d.line = i :: d.queue := by
  rw [line, h]
  rfl

/-- What a sector changes. -/
theorem sector_eq (d : Controller) (overwrite : Bool) : ∃ queue head dropped,
    d.sector overwrite = { d with queue := queue, head := head, dropped := dropped } := by
  rw [sector]
  split
  · exact ⟨_, _, _, rfl⟩
  · split <;> exact ⟨_, _, _, rfl⟩

/-- A sector comes behind what is there, or in the place of the last INT1. -/
theorem sector_of_reading {d : Controller} {n : Nat} (h : d.reading = some n) (overwrite : Bool) :
    (d.sector overwrite).head = d.head + 1 ∧
      (((d.sector overwrite).line = d.line ++ [⟨n, .int1 d.head⟩] ∧
          (d.sector overwrite).dropped = d.dropped) ∨
        ∃ front i k, i.irq.sector = some k ∧ d.line = front ++ [i] ∧
          (d.sector overwrite).line = front ++ [⟨n, .int1 d.head⟩] ∧
          (d.sector overwrite).dropped = k :: d.dropped) := by
  rw [sector, h]
  dsimp only
  split
  · rename_i k hk
    obtain ⟨i, hi, hik⟩ := Option.bind_eq_some_iff.mp hk
    obtain ⟨front, hfront⟩ := List.getLast?_eq_some_iff.mp hi
    refine ⟨rfl, .inr ⟨d.pending.toList ++ front, i, k, hik, ?_, ?_, rfl⟩⟩
    · rw [line, hfront, List.append_assoc]
    · show d.pending.toList ++ (d.queue.dropLast ++ [_]) = _
      rw [hfront, List.dropLast_concat, List.append_assoc]
  · exact ⟨rfl, .inl ⟨line_raise _ _, rfl⟩⟩

@[simp] theorem issued_move (d : Controller) (m : Move) : (d.move m).issued = d.issued := by
  cases m with
  | execute accepted =>
    rw [move, execute]
    split
    · rfl
    · rename_i n c _
      split
      · cases c <;> rfl
      · rfl
  | sector overwrite =>
    obtain ⟨_, _, _, h⟩ := d.sector_eq overwrite
    rw [move, h]
  | complete =>
    rw [move, complete]
    split <;> rfl
  | deliver => rw [move, deliver_eq]

/-- An idle drive has no move. -/
theorem Idle.move_eq {d : Controller} (h : d.Idle) (m : Move) : d.move m = d := by
  have hqueue : d.queue = [] := (List.append_eq_nil_iff.mp h.line).2
  cases m with
  | execute accepted => rw [move, execute, h.command]
  | sector overwrite => rw [move, sector, h.reading]
  | complete => rw [move, complete, h.pausing]
  | deliver =>
    rw [move, deliver, hqueue]
    cases d.pending <;> rfl

theorem execute_of_none {d : Controller} (h : d.command = none) (accepted : Bool) :
    d.execute accepted = d := by
  rw [execute, h]

theorem complete_of_none {d : Controller} (h : d.pausing = none) : d.complete = d := by
  rw [complete, h]

end Controller

open Controller

/-! ## A drive that streams -/

/-- The drive reads under the `ReadN` with the number `n`, and of what it holds this part is the
run: INT1s of `n`, and as far as sectors matter (`S`) all from `s` on that have not been dropped. -/
structure Run (S : Prop) (n s : Nat) (d : Controller) (line : List Reply) : Prop where
  reading : d.reading = some n
  own : ∀ i ∈ line, ∃ k, i = ⟨n, .int1 k⟩
  covers : S → Covers s d.head (line.filterMap fun i => i.irq.sector) d.dropped

/-- One more sector, behind interrupts that are not of the run. -/
theorem Run.sector {S : Prop} {n s : Nat} {d : Controller} {pre line : List Reply}
    (h : Run S n s d line) (hline : d.line = pre ++ line) (hpre : ∀ i ∈ pre, i.irq.sector = none)
    (overwrite : Bool) : ∃ line', (d.sector overwrite).line = pre ++ line' ∧
      Run S n s (d.sector overwrite) line' := by
  obtain ⟨queue, head, dropped, heq⟩ := d.sector_eq overwrite
  have hreading : (d.sector overwrite).reading = some n := by
    rw [heq]
    exact h.reading
  obtain ⟨hhead, ⟨hl, hdropped⟩ | ⟨front, i, k, hik, hfront, hl, hdropped⟩⟩ :=
    sector_of_reading h.reading overwrite
  · refine ⟨line ++ [⟨n, .int1 d.head⟩], ?_, hreading, ?_, ?_⟩
    · rw [hl, hline, List.append_assoc]
    · intro i hi
      rcases List.mem_append.mp hi with hi | hi
      · exact h.own i hi
      · exact ⟨d.head, List.mem_singleton.mp hi⟩
    · intro hS
      rw [hhead, hdropped, List.filterMap_append]
      exact (h.covers hS).push
  · rw [hline] at hfront
    rcases List.eq_nil_or_concat line with rfl | ⟨line', j, rfl⟩
    · -- the last interrupt would be one of those in front
      rw [List.append_nil] at hfront
      rw [hpre i (hfront ▸ List.mem_append_right _ (List.mem_singleton_self i))] at hik
      cases hik
    · rw [List.concat_eq_append, ← List.append_assoc] at hfront
      obtain ⟨rfl, hij⟩ := List.append_inj' hfront rfl
      obtain rfl : j = i := List.singleton_inj.mp hij
      refine ⟨line' ++ [⟨n, .int1 d.head⟩], ?_, hreading, ?_, ?_⟩
      · rw [hl, List.append_assoc]
      · intro i hi
        rcases List.mem_append.mp hi with hi | hi
        · exact h.own i (by rw [List.concat_eq_append]; exact List.mem_append_left _ hi)
        · exact ⟨d.head, List.mem_singleton.mp hi⟩
      · intro hS
        have hcov := h.covers hS
        rw [List.concat_eq_append, List.filterMap_append, List.filterMap_cons, hik] at hcov
        rw [hhead, hdropped, List.filterMap_append]
        exact hcov.replace

/-- All that the drive holds is of the run. -/
structure Streaming (S : Prop) (n s : Nat) (d : Controller) : Prop where
  command : d.command = none
  pausing : d.pausing = none
  run : Run S n s d d.line

/-- **The drive keeps streaming by itself.** -/
theorem Streaming.move {S : Prop} {n s : Nat} {d : Controller} (h : Streaming S n s d) (m : Move) :
    Streaming S n s (d.move m) := by
  cases m with
  | execute accepted =>
    rw [Controller.move, execute_of_none h.command]
    exact h
  | sector overwrite =>
    obtain ⟨line, hline, hrun⟩ := h.run.sector (show d.line = [] ++ d.line from rfl)
      (fun _ hi => absurd hi List.not_mem_nil) overwrite
    obtain ⟨queue, head, dropped, heq⟩ := d.sector_eq overwrite
    refine ⟨?_, ?_, ?_⟩
    · rw [Controller.move, heq]
      exact h.command
    · rw [Controller.move, heq]
      exact h.pausing
    · rw [List.nil_append] at hline
      rw [Controller.move, hline]
      exact hrun
  | complete =>
    rw [Controller.move, complete_of_none h.pausing]
    exact h
  | deliver =>
    have hline := line_deliver d
    rw [Controller.move]
    rw [deliver_eq] at hline ⊢
    refine ⟨h.command, h.pausing, ?_⟩
    rw [hline]
    exact ⟨h.run.reading, h.run.own, h.run.covers⟩

/-- The interrupt that is pending is one of the run, and its sector the wanted one unless that has
been dropped. -/
theorem Streaming.pending {S : Prop} {n s : Nat} {d : Controller} (h : Streaming S n s d)
    {i : Reply}
    (hi : d.pending = some i) : ∃ k, i = ⟨n, .int1 k⟩ ∧ (S → s ∉ d.dropped → k = s) := by
  have hline := line_of_pending hi
  obtain ⟨k, rfl⟩ := h.run.own i (hline ▸ List.mem_cons_self)
  refine ⟨k, rfl, fun hS hs => ?_⟩
  have hcov := h.run.covers hS
  rw [hline, List.filterMap_cons] at hcov
  exact (Covers.head_eq_iff hcov).mpr hs

/-- Acknowledging the wanted sector takes it from the run. -/
theorem Streaming.acknowledge {S : Prop} {n s k : Nat} {d : Controller} (h : Streaming S n s d)
    (hi : d.pending = some ⟨n, .int1 k⟩) (hk : S → k = s) :
      Streaming S n (s + 1) d.acknowledge := by
  have hline := line_of_pending hi
  refine ⟨h.command, h.pausing, h.run.reading, fun i hi' => h.run.own i ?_, fun hS => ?_⟩
  · rw [hline]
    exact List.mem_cons_of_mem _ hi'
  · have hcov := h.run.covers hS
    rw [hline, List.filterMap_cons] at hcov
    obtain rfl := hk hS
    exact Covers.take hcov

/-! ## From an idle drive to one that streams -/

/-- An idle drive got a `Setloc` for `a`, and has nothing to say but the answer. -/
def Locating (a : Option Nat) (d : Controller) : Prop :=
  ∃ n, d.issued = n + 1 ∧ d.reading = none ∧ d.pausing = none ∧
    ((d.command = some (n, .setloc a) ∧ d.line = []) ∨
      (d.command = none ∧ ∃ q, d.line = [⟨n, q⟩] ∧ (q = .int3 → d.target = a ∧ a ≠ none)))

theorem Locating.move {a : Option Nat} {d : Controller} (h : Locating a d) (m : Move) :
    Locating a (d.move m) := by
  obtain ⟨n, hn, hr, hp, h⟩ := h
  refine ⟨n, (issued_move d m).trans hn, ?_⟩
  cases m with
  | execute accepted =>
    rcases h with ⟨hc, hl⟩ | h
    · have hline := line_raise_of_nil hl
      rw [Controller.move, execute, hc]
      dsimp only
      split
      · next hacc =>
          refine ⟨hr, hp, .inr ⟨rfl, .int3, hline _, fun _ => ⟨rfl, ?_⟩⟩⟩
          rintro rfl
          exact hacc.2 rfl
      · exact ⟨hr, hp, .inr ⟨rfl, .int5, hline _, Irq.noConfusion⟩⟩
    · rw [Controller.move, execute_of_none h.1]
      exact ⟨hr, hp, .inr h⟩
  | sector overwrite =>
    rw [Controller.move, sector, hr]
    exact ⟨hr, hp, h⟩
  | complete =>
    rw [Controller.move, complete_of_none hp]
    exact ⟨hr, hp, h⟩
  | deliver =>
    have hline := line_deliver d
    rw [Controller.move]
    rw [deliver_eq] at hline ⊢
    refine ⟨hr, hp, ?_⟩
    rw [hline]
    exact h

/-- The interrupt that is pending is the answer, and nothing is behind it. -/
theorem Locating.pending {a : Option Nat} {d : Controller} (h : Locating a d) {i : Reply}
    (hi : d.pending = some i) : d.issued = i.origin + 1 ∧ d.acknowledge.Idle ∧
      (i.irq = .int3 → d.target = a ∧ a ≠ none) := by
  obtain ⟨n, hn, hr, hp, ⟨hc, hl⟩ | ⟨hc, q, hl, hq⟩⟩ := h
  · rw [line_of_pending hi] at hl
    cases hl
  · rw [line_of_pending hi] at hl
    obtain ⟨rfl, hqueue⟩ := List.cons.inj hl
    exact ⟨hn, ⟨hc, hqueue, hr, hp⟩, hq⟩

/-- An idle drive that was told where to read got a `ReadN`: the answer is still to come, or is the
first thing it has to say. -/
def Starting (S : Prop) (s : Nat) (d : Controller) : Prop :=
  ∃ n, d.issued = n + 1 ∧ d.pausing = none ∧
    ((d.command = some (n, .readN) ∧ d.line = [] ∧ d.reading = none ∧ d.target = some s) ∨
      (d.command = none ∧ ((∃ line, d.line = ⟨n, .int3⟩ :: line ∧ Run S n s d line) ∨
        (d.line = [⟨n, .int5⟩] ∧ d.reading = none))))

theorem Starting.move {S : Prop} {s : Nat} {d : Controller} (h : Starting S s d) (m : Move) :
    Starting S s (d.move m) := by
  obtain ⟨n, hn, hp, h⟩ := h
  refine ⟨n, (issued_move d m).trans hn, ?_⟩
  cases m with
  | execute accepted =>
    rcases h with ⟨hc, hl, hr, ht⟩ | h
    · have hline := line_raise_of_nil hl
      rw [Controller.move, execute, hc]
      dsimp only
      split
      · refine ⟨hp, .inr ⟨rfl, .inl ⟨[], (line_accept _ _ _).trans (hline _), rfl,
          fun _ h => absurd h List.not_mem_nil, fun _ => ?_⟩⟩⟩
        show Covers s (d.target.getD d.head) [] []
        rw [ht]
        exact Covers.start s
      · exact ⟨hp, .inr ⟨rfl, .inr ⟨hline _, hr⟩⟩⟩
    · rw [Controller.move, execute_of_none h.1]
      exact ⟨hp, .inr h⟩
  | sector overwrite =>
    rcases h with ⟨hc, hl, hr, ht⟩ | ⟨hc, ⟨line, hl, hrun⟩ | ⟨hl, hr⟩⟩
    · rw [Controller.move, sector, hr]
      exact ⟨hp, .inl ⟨hc, hl, hr, ht⟩⟩
    · have hpre : ∀ i ∈ [(⟨n, .int3⟩ : Reply)], i.irq.sector = none := fun i hi => by
        rw [List.mem_singleton.mp hi]
        rfl
      obtain ⟨line', hl', hrun'⟩ := hrun.sector hl hpre overwrite
      obtain ⟨queue, head, dropped, heq⟩ := d.sector_eq overwrite
      rw [Controller.move]
      have hframe : (d.sector overwrite).pausing = none ∧ (d.sector overwrite).command = none := by
        rw [heq]
        exact ⟨hp, hc⟩
      exact ⟨hframe.1, .inr ⟨hframe.2, .inl ⟨line', hl', hrun'⟩⟩⟩
    · rw [Controller.move, sector, hr]
      exact ⟨hp, .inr ⟨hc, .inr ⟨hl, hr⟩⟩⟩
  | complete =>
    rw [Controller.move, complete_of_none hp]
    exact ⟨hp, h⟩
  | deliver =>
    have hline := line_deliver d
    rw [Controller.move]
    rw [deliver_eq] at hline ⊢
    refine ⟨hp, ?_⟩
    rw [hline]
    rcases h with h | ⟨hc, ⟨line, hl, hrun⟩ | h⟩
    · exact .inl h
    · exact .inr ⟨hc, .inl ⟨line, hl, hrun.reading, hrun.own, hrun.covers⟩⟩
    · exact .inr ⟨hc, .inr h⟩

/-- The interrupt that is pending is the answer; behind an INT3 the drive streams. -/
theorem Starting.pending {S : Prop} {s : Nat} {d : Controller} (h : Starting S s d) {i : Reply}
    (hi : d.pending = some i) : d.issued = i.origin + 1 ∧
      (i.irq = .int3 → Streaming S i.origin s d.acknowledge) := by
  obtain ⟨n, hn, hp, ⟨-, hl, -⟩ | ⟨hc, ⟨line, hl, hrun⟩ | ⟨hl, -⟩⟩⟩ := h
  · rw [line_of_pending hi] at hl
    cases hl
  · rw [line_of_pending hi] at hl
    obtain ⟨rfl, rfl⟩ := List.cons.inj hl
    exact ⟨hn, fun _ => ⟨hc, hp, hrun.reading, hrun.own, hrun.covers⟩⟩
  · rw [line_of_pending hi] at hl
    obtain ⟨rfl, -⟩ := List.cons.inj hl
    exact ⟨hn, nofun⟩

/-- A `Pause` is the next thing the drive has to answer. -/
def Stopping (d : Controller) : Prop :=
  ∃ n, d.issued = n + 1 ∧
    ((d.command = some (n, .pause) ∧ d.pausing = none ∧ d.line = []) ∨
      (d.command = none ∧ ∃ q line, q.sector = none ∧ d.line = ⟨n, q⟩ :: line))

/-- It stays that, unless a sector is raised before the `Pause` is executed. -/
theorem Stopping.move {d : Controller} (h : Stopping d) (m : Move)
    (hm : ∀ overwrite, m = .sector overwrite → ∀ n, d.command ≠ some (n, .pause)) :
    Stopping (d.move m) := by
  obtain ⟨n, hn, h⟩ := h
  refine ⟨n, (issued_move d m).trans hn, ?_⟩
  cases m with
  | execute accepted =>
    rcases h with ⟨hc, hp, hl⟩ | h
    · have hline := line_raise_of_nil hl
      rw [Controller.move, execute, hc]
      dsimp only
      split
      · exact .inr ⟨rfl, .int3, [], rfl, hline _⟩
      · exact .inr ⟨rfl, .int5, [], rfl, hline _⟩
    · rw [Controller.move, execute_of_none h.1]
      exact .inr h
  | sector overwrite =>
    rcases h with ⟨hc, -⟩ | ⟨hc, q, line, hq, hl⟩
    · exact absurd hc (hm overwrite rfl n)
    rw [Controller.move]
    cases hr : d.reading with
    | none =>
      rw [sector, hr]
      exact .inr ⟨hc, q, line, hq, hl⟩
    | some r =>
      have hcommand : (d.sector overwrite).command = none := by
        obtain ⟨_, _, _, heq⟩ := d.sector_eq overwrite
        rw [heq]
        exact hc
      refine .inr ⟨hcommand, q, ?_⟩
      obtain ⟨-, ⟨hl', -⟩ | ⟨front, i, k, hik, hfront, hl', -⟩⟩ := sector_of_reading hr overwrite
      · exact ⟨line ++ [⟨r, .int1 d.head⟩], hq, by rw [hl', hl]; rfl⟩
      · rw [hl] at hfront
        cases front with
        | nil =>
          obtain ⟨rfl, -⟩ := List.cons.inj hfront
          rw [hq] at hik
          cases hik
        | cons j front =>
          obtain ⟨rfl, -⟩ := List.cons.inj hfront
          exact ⟨front ++ [(⟨r, .int1 d.head⟩ : Reply)], hq, hl'⟩
  | complete =>
    rw [Controller.move]
    rcases h with ⟨hc, hp, hl⟩ | ⟨hc, q, line, hq, hl⟩
    · rw [complete_of_none hp]
      exact .inl ⟨hc, hp, hl⟩
    · rw [complete]
      cases d.pausing with
      | none => exact .inr ⟨hc, q, line, hq, hl⟩
      | some p =>
        refine .inr ⟨hc, q, line ++ [⟨p, .int2⟩], hq, ?_⟩
        rw [line_raise, show ({ d with pausing := none } : Controller).line = _ from hl]
        rfl
  | deliver =>
    have hline := line_deliver d
    rw [Controller.move]
    rw [deliver_eq] at hline ⊢
    rw [hline]
    exact h

theorem Stopping.pending {d : Controller} (h : Stopping d) {i : Reply} (hi : d.pending = some i) :
    d.issued = i.origin + 1 := by
  obtain ⟨n, hn, ⟨-, -, hl⟩ | ⟨-, q, line, -, hl⟩⟩ := h
  · rw [line_of_pending hi] at hl
    cases hl
  · rw [line_of_pending hi] at hl
    obtain ⟨rfl, -⟩ := List.cons.inj hl
    exact hn

/-! ## A call -/

/-- What the rules have to ensure, with `A` if the answers matter, and `S` if the sectors do. -/
structure Orders (R : Rules) (A S : Prop) (lba : UInt32) : Prop where
  /-- the drive is idle at every `Setloc` -/
  setloc : ∀ d, d.bank = 0 → R.write d .cd1 0x02 = true → d.Idle
  /-- there is no interrupt at a `Pause` -/
  pause : A → ∀ d, d.bank = 0 → R.write d .cd1 0x09 = true → d.line = []
  /-- no sector is raised before a `Pause` is executed -/
  quiet : A → ∀ d overwrite n, R.move d (.sector overwrite) = true → d.command ≠ some (n, .pause)
  /-- no data is taken for a sector that has been dropped -/
  kept : S → ∀ d, R.data d = true → lba.toNat ∉ d.dropped

/-- The driver's belief between two calls. -/
def InStep (A S : Prop) (v : Vars) : Assertion := fun d l =>
  (v.psxcdStreaming = true → ∃ n s, l.current = some n ∧ Streaming S n s d ∧
    (S → s = v.psxcdNextLba.toNat)) ∧ (A → l.Right)

/-- A call that wanted `lba` is over. -/
def Fetched (A S : Prop) (disc : Nat → Iso9660.Sector) (lba : UInt32)
    (p : Option Iso9660.Sector × Vars) : Assertion := fun d l =>
  InStep A S p.2 d l ∧ (S → ∀ data, p.1 = some data → data = disc lba.toNat)

theorem fetched_none {A S : Prop} {disc : Nat → Iso9660.Sector} {lba : UInt32} {v : Vars}
    (hv : v.psxcdStreaming = false) {d : Controller} {l : Log} (hl : A → l.Right) :
    Fetched A S disc lba (none, v) d l :=
  ⟨⟨fun h => absurd (hv.symm.trans h) Bool.false_ne_true, hl⟩, nofun⟩

theorem code_eq_three {q : Irq} (h : 3 = q.code) : q = .int3 := by
  cases q with
  | int3 => rfl
  | _ => exact absurd h (by simp only [Irq.code]; decide)

theorem dataFifo_move (d : Controller) (m : Move) : (d.move m).dataFifo = d.dataFifo := by
  cases m with
  | execute accepted =>
    rw [Controller.move, execute]
    split
    · rfl
    · rename_i n c _
      split
      · cases c <;> rfl
      · rfl
  | sector overwrite =>
    obtain ⟨_, _, _, h⟩ := d.sector_eq overwrite
    rw [Controller.move, h]
  | complete =>
    rw [Controller.move, complete]
    split <;> rfl
  | deliver => rw [Controller.move, deliver_eq]

section Call

variable {R : Rules} {disc : Nat → Iso9660.Sector} {A S : Prop} {lba : UInt32}

/-- The log is right, and nothing is said about the drive. -/
theorem stable_log : Stable R fun _ l => A → l.Right := fun _ _ _ _ h => h

theorem framed_log : Framed fun _ l => A → l.Right := fun _ _ _ _ h => h

theorem setlocSector_setlocParameters {parameters : List UInt32}
    (h : (setlocParameters lba).reverse <+: parameters) :
    setlocSector parameters = (cdLbaToMsf lba).sector := by
  obtain ⟨older, rfl⟩ := h
  show (Msf.mk (cdLbaToMsf lba).mm.toUInt32.toUInt8 (cdLbaToMsf lba).ss.toUInt32.toUInt8
    (cdLbaToMsf lba).ff.toUInt32.toUInt8).sector = _
  simp only [UInt8.toUInt8_toUInt32]

/-- **`Setloc`** gets its own answer, and the drive is idle again. -/
theorem sat_setloc (hR : Orders R A S lba) :
    Sat (Step R disc) (On fun _ l => A → l.Right) (cdDo 0x02 (setlocParameters lba) 400000)
      fun r => On fun d l => (A → l.Right) ∧ (r = some 3 →
        d.Idle ∧ ∃ s, d.target = some s ∧ (cdLbaToMsf lba).sector = some s) := by
  refine (sat_cdDo (W := fun d l => Locating (cdLbaToMsf lba).sector d ∧ (A → l.Right))
    (F := fun _ l => A → l.Right)
    (A := fun i d l => (A → l.Right) ∧ d.Idle ∧ (i.irq = .int3 →
      d.target = (cdLbaToMsf lba).sector ∧ (cdLbaToMsf lba).sector ≠ none))
    stable_log framed_log (fun d l m _ h => ⟨h.1.move m, h.2⟩) (fun d l x par h => h) ?_ ?_ ?_
    (fun _ _ h => h) (fun _ _ h => h.2) 400000).weaken fun r b hb => ?_
  · intro d l hl hbank hpar hw
    have hidle := hR.setloc d hbank hw
    refine ⟨⟨d.issued, rfl, hidle.reading, hidle.pausing, .inl ⟨?_, hidle.line⟩⟩, hl⟩
    show some (d.issued, Command.ofCode 0x02 d.parameters) = _
    rw [Command.ofCode, if_pos rfl, setlocSector_setlocParameters hpar]
  · exact fun d l i h hi => ⟨h.1, fun hA => (h.2 hA).answer hi (h.1.pending hi).1⟩
  · exact fun d l i h hi => ⟨h.2, (h.1.pending hi).2⟩
  · cases r with
    | none => exact ⟨hb, nofun⟩
    | some t =>
      obtain ⟨i, rfl, hl, hidle, htarget⟩ := hb
      refine ⟨hl, fun h3 => ⟨hidle, ?_⟩⟩
      obtain ⟨ht, hne⟩ := htarget (code_eq_three (Option.some.inj h3).symm)
      obtain ⟨s, hs⟩ := Option.ne_none_iff_exists'.mp hne
      exact ⟨s, ht.trans hs, hs⟩

/-- **`ReadN`** gets its own answer, and the drive streams. -/
theorem sat_readN (s : Nat) :
    Sat (Step R disc) (On fun d l => (d.Idle ∧ d.target = some s) ∧ (A → l.Right))
      (cdDo 0x06 [] 400000)
      fun r => On fun d l => (A → l.Right) ∧
        (r = some 3 → ∃ n, d.issued = n + 1 ∧ Streaming S n s d) := by
  refine (sat_cdDo (W := fun d l => Starting S s d ∧ (A → l.Right)) (F := fun _ l => A → l.Right)
    (A := fun i d l => (A → l.Right) ∧
      (i.irq = .int3 → d.issued = i.origin + 1 ∧ Streaming S i.origin s d))
    (fun d l m _ h => by rw [h.1.1.move_eq]; exact h)
    (fun d l x par h => ⟨⟨⟨h.1.1.1, h.1.1.2, h.1.1.3, h.1.1.4⟩, h.1.2⟩, h.2⟩)
    (fun d l m _ h => ⟨h.1.move m, h.2⟩) ?_ ?_ ?_ ?_
    (fun _ _ h => h.2) (fun _ _ h => h.2) 400000).weaken fun r b hb => ?_
  · rintro d l x par ⟨⟨n, hn, hp, h⟩, hl⟩
    refine ⟨⟨n, hn, hp, ?_⟩, hl⟩
    rcases h with h | ⟨hc, ⟨line, hline, hrun⟩ | h⟩
    · exact .inl h
    · exact .inr ⟨hc, .inl ⟨line, hline, hrun.reading, hrun.own, hrun.covers⟩⟩
    · exact .inr ⟨hc, .inr h⟩
  · rintro d l ⟨⟨hidle, ht⟩, hl⟩ - - -
    exact ⟨⟨d.issued, rfl, hidle.pausing, .inl ⟨rfl, hidle.line, hidle.reading, ht⟩⟩, hl⟩
  · exact fun d l i h hi => ⟨h.1, fun hA => (h.2 hA).answer hi (h.1.pending hi).1⟩
  · exact fun d l i h hi => ⟨h.2, fun hirq => ⟨(h.1.pending hi).1, (h.1.pending hi).2 hirq⟩⟩
  · cases r with
    | none => exact ⟨hb, nofun⟩
    | some t =>
      obtain ⟨i, rfl, hl, hstream⟩ := hb
      exact ⟨hl, fun h3 => ⟨_, hstream (code_eq_three (Option.some.inj h3).symm)⟩⟩

/-! ### Fetching a sector -/

/-- The drive streams under the `ReadN` of the current run, from the sector `s` on. -/
def OnRun (A S : Prop) (n s : Nat) : Assertion := fun d l =>
  Streaming S n s d ∧ l.current = some n ∧ (A → l.Right)

theorem stable_onRun (n s : Nat) : Stable R (OnRun A S n s) :=
  fun _ _ m _ h => ⟨h.1.move m, h.2⟩

theorem framed_onRun (n s : Nat) : Framed (OnRun A S n s) :=
  fun _ _ _ _ h => ⟨⟨h.1.command, h.1.pausing, h.1.run.reading, h.1.run.own, h.1.run.covers⟩, h.2⟩

/-- Its data has been asked for. -/
def Requested (A S : Prop) (n s k : Nat) : Assertion := fun d l =>
  Seen ⟨n, .int1 k⟩ (OnRun A S n s) d l ∧ d.dataFifo = some k

theorem stable_requested (n s k : Nat) : Stable R (Requested A S n s k) :=
  fun d l m hm h => ⟨(stable_onRun n s).seen _ d l m hm h.1, (dataFifo_move d m).trans h.2⟩

theorem framed_requested (n s k : Nat) : Framed (Requested A S n s k) :=
  fun d l x par h => ⟨(framed_onRun n s).seen _ d l x par h.1, h.2⟩

theorem request_eq {d : Controller} {n k : Nat} (h : d.pending = some ⟨n, .int1 k⟩) :
    d.request = { d with dataFifo := some k } := by
  rw [request, h]

theorem sat_requestData (n s k : Nat) :
    Sat (Step R disc) (On (Seen ⟨n, .int1 k⟩ (OnRun A S n s))) requestData
      fun _ => On (Requested A S n s k) := by
  have hP : Stable R (Seen ⟨n, .int1 k⟩ (OnRun A S n s)) := (stable_onRun n s).seen _
  have hF : Framed (Seen ⟨n, .int1 k⟩ (OnRun A S n s)) := (framed_onRun n s).seen _
  refine (sat_selectBank hP hF 0).bind fun _ => ?_
  refine (sat_readReg_keep (hP.held _ _) .cd0).bind fun _ => ?_
  refine Sat.bind (R := fun _ => On (Held 0 [] (Seen ⟨n, .int1 k⟩ (OnRun A S n s))))
    (sat_writeReg (hP.held _ _) fun d l hd _ => ?_) fun _ => ?_
  · have hbank : d.bank = 0 := hd.2.1
    simp only [Controller.write, hbank]
    rw [if_neg (by decide), if_neg (by decide)]
    exact hd
  refine (sat_readReg_keep (hP.held _ _) .cd3).bind fun _ => ?_
  refine Sat.bind (R := fun _ => On (Held 0 [] (Seen ⟨n, .int1 k⟩ (OnRun A S n s))))
    (sat_writeReg (hP.held _ _) fun d l hd _ => ⟨hF d l _ _ hd.1, rfl, hd.2.2⟩) fun _ => ?_
  refine sat_writeReg (hP.held _ _) fun d l hd _ => ?_
  obtain ⟨⟨hrun, hi⟩, hbank, -⟩ := hd
  simp only [Controller.write, hbank]
  rw [if_neg (by decide), if_pos (by decide), request_eq hi]
  obtain ⟨hstream, hrest⟩ := hrun
  exact ⟨⟨⟨⟨hstream.command, hstream.pausing, hstream.run.reading, hstream.run.own,
    hstream.run.covers⟩, hrest⟩, hi⟩, rfl⟩

theorem sat_giveUp (v : Vars) :
    Sat (Step R disc) (On fun _ l => A → l.Right) (giveUp v) fun p =>
      On (Fetched A S disc lba p) := by
  refine (sat_cdAck (S := fun _ l => A → l.Right) stable_log framed_log
    fun _ _ h => h).bind fun _ => ?_
  refine (sat_cdReleaseIrq stable_log v).bind fun _ => ?_
  exact Sat.ret fun _ hb => fetched_none rfl hb

theorem sat_startDma (n s k : Nat) (buf : UInt32) :
    Sat (Step R disc) (On (Requested A S n s k)) (startDma buf)
      fun _ => On (Requested A S n s k) := by
  have hP : Stable R (Requested A S n s k) := stable_requested n s k
  refine (sat_writeReg_other hP _ fun _ => rfl).bind fun _ => ?_
  refine (sat_writeReg_other hP _ fun _ => rfl).bind fun _ => ?_
  refine Sat.bind (R := fun _ => On (Requested A S n s k)) (sat_note fun d l hd => ?_) fun _ =>
    sat_writeReg_other hP _ fun _ => rfl
  obtain ⟨⟨⟨hstream, hn, hl⟩, hi⟩, hfifo⟩ := hd
  exact ⟨⟨⟨hstream, hn, fun hA => (hl hA).transfer hn hi⟩, hi⟩, hfifo⟩

theorem toNat_add_one {lba : UInt32} (h : lba.toNat + 1 < 2 ^ 32) :
    (lba + 1).toNat = lba.toNat + 1 := by
  rw [UInt32.toNat_add]
  exact Nat.mod_eq_of_lt h

/-- The data is taken, and the interrupt acknowledged. -/
theorem sat_takeData (hR : Orders R A S lba) {v : Vars} {n s k : Nat} (hs : S → s = lba.toNat)
    (hlba : S → lba.toNat + 1 < 2 ^ 32) :
    Sat (Step R disc) (On (Requested A S n s k)) (do
      let sector ← Tree.query Query.data
      cdAck
      cdReleaseIrq v
      return (some sector, { v with psxcdNextLba := lba + 1 }))
      fun p => On (Fetched A S disc lba p) := by
  refine Sat.bind (R := fun sector => On fun d l => Requested A S n s k d l ∧
    (S → k = s ∧ sector = disc lba.toNat)) (Sat.query ?_) fun sector => ?_
  · rintro b sector b' hb ⟨hdata, hsector, rfl⟩
    obtain ⟨k', hk', hkept⟩ := hb.1.1.1.pending hb.1.2
    obtain rfl : k = k' := Irq.int1.inj (Reply.mk.inj hk').2
    refine ⟨hb, fun hS => ?_⟩
    have hks : k = s := hkept hS (hs hS ▸ hR.kept hS _ hdata)
    refine ⟨hks, ?_⟩
    rw [hsector k hb.2, hks, hs hS]
  refine Sat.bind (R := fun _ => On fun d l => OnRun A S n (s + 1) d l ∧
    (S → sector = disc lba.toNat)) ?_ fun _ => ?_
  · refine sat_cdAck (fun d l m hm h => ⟨stable_requested n s k d l m hm h.1, h.2⟩)
      (fun d l x par h => ⟨framed_requested n s k d l x par h.1, h.2⟩) fun d l h => ?_
    obtain ⟨⟨⟨⟨hstream, hrest⟩, hi⟩, -⟩, hS⟩ := h
    exact ⟨⟨hstream.acknowledge hi fun h => (hS h).1, hrest⟩, fun h => (hS h).2⟩
  · refine (sat_cdReleaseIrq (fun d l m hm h => ⟨stable_onRun n _ d l m hm h.1, h.2⟩)
      v).bind fun _ =>
      Sat.ret fun b hb => ?_
    obtain ⟨⟨hstream, hn, hl⟩, hsector⟩ := hb
    refine ⟨⟨fun _ => ⟨n, s + 1, hn, hstream, fun hS => ?_⟩, hl⟩, fun hS data hdata => ?_⟩
    · rw [hs hS, toNat_add_one (hlba hS)]
    · rw [← Option.some.inj hdata]
      exact hsector hS

theorem sat_transfer (hR : Orders R A S lba) (v : Vars) (buf : UInt32) {n s k : Nat}
    (hs : S → s = lba.toNat) (hlba : S → lba.toNat + 1 < 2 ^ 32) :
    Sat (Step R disc) (On (Seen ⟨n, .int1 k⟩ (OnRun A S n s))) (transfer v lba buf)
      fun p => On (Fetched A S disc lba p) := by
  have hP : Stable R (Requested A S n s k) := stable_requested n s k
  have hgive : Sat (Step R disc) (On (Requested A S n s k)) (giveUp v)
      fun p => On (Fetched A S disc lba p) :=
    (sat_giveUp v).strengthen fun b hb => hb.1.1.2.2
  refine (sat_cdResult ((stable_onRun n s).seen _) 16).bind fun _ => ?_
  refine (sat_requestData n s k).bind fun _ => ?_
  refine (sat_waitFlag hP _ _ _).bind fun up => ?_
  cases up with
  | false => exact hgive
  | true =>
    refine (sat_startDma n s k buf).bind fun _ => ?_
    refine (sat_waitFlag hP _ _ _).bind fun done => ?_
    cases done with
    | false => exact hgive
    | true => exact sat_takeData hR hs hlba

/-- **The next sector of a run.** -/
theorem sat_fetch (hR : Orders R A S lba) (v : Vars) (buf : UInt32) {n s : Nat}
    (hs : S → s = lba.toNat) (hlba : S → lba.toNat + 1 < 2 ^ 32) :
    Sat (Step R disc) (On (OnRun A S n s)) (fetch v lba buf)
      fun p => On (Fetched A S disc lba p) := by
  refine (sat_cdWaitInt (stable_onRun n s) (framed_onRun n s) _).bind fun r => ?_
  by_cases hr : r = some 1
  · rw [if_pos hr]
    intro b a b' hb hrun
    obtain ⟨hb, hseen⟩ := hb
    obtain ⟨i, hi, hcode⟩ := hseen 1 hr
    obtain ⟨k, rfl, -⟩ := hb.1.pending hi
    exact sat_transfer hR v buf hs hlba b a b' ⟨hb, hi⟩ hrun
  · rw [if_neg hr]
    refine Sat.strengthen (P := On fun _ l => A → l.Right) ?_ fun b hb => hb.1.2.2
    exact (sat_cdReleaseIrq stable_log v).bind fun _ => Sat.ret fun _ hb => fetched_none rfl hb

/-! ### Stopping -/

/-- No command waits for its execution, and no `Pause` for its end. -/
def Settled (A : Prop) : Assertion := fun d l =>
  d.command = none ∧ d.pausing = none ∧ (A → l.Right)

theorem stable_settled : Stable R (Settled A) := by
  rintro d l m - ⟨hc, hp, hl⟩
  cases m with
  | execute accepted =>
    rw [Controller.move, execute_of_none hc]
    exact ⟨hc, hp, hl⟩
  | sector overwrite =>
    obtain ⟨_, _, _, heq⟩ := d.sector_eq overwrite
    rw [Controller.move, heq]
    exact ⟨hc, hp, hl⟩
  | complete =>
    rw [Controller.move, complete_of_none hp]
    exact ⟨hc, hp, hl⟩
  | deliver =>
    rw [Controller.move, deliver_eq]
    exact ⟨hc, hp, hl⟩

theorem framed_settled : Framed (Settled A) := fun _ _ _ _ h => h

theorem sat_drainTurn {P : Assertion} (hP : Stable R P) (hF : Framed P)
    (hack : ∀ d l, P d l → P d.acknowledge l) :
    Sat (Step R disc) (On P) drainTurn fun _ => On P := by
  refine Sat.bind (R := fun _ => On P) ((sat_cdInt hP hF).weaken fun _ _ hb => hb.1) fun t => ?_
  split
  · exact Sat.ret fun _ hb => hb
  · refine (sat_cdResult hP 16).bind fun _ => ?_
    exact (sat_cdAck hP hF hack).bind fun _ => Sat.ret fun _ hb => hb

/-- The rest of what a command was answered. -/
theorem sat_restOfAnswer : Sat (Step R disc) (On fun _ l => A → l.Right) (do
      let _ ← cdResult 16
      cdAck) fun _ => On fun _ l => A → l.Right :=
  (sat_cdResult stable_log 16).bind fun _ => sat_cdAck stable_log framed_log fun _ _ h => h

theorem sat_cdWaitInt_log (spins : Nat) :
    Sat (Step R disc) (On fun _ l => A → l.Right) (cdWaitInt spins)
      fun _ => On fun _ l => A → l.Right :=
  (sat_cdWaitInt stable_log framed_log spins).weaken fun _ _ hb => hb.1

/-- **`Pause`** gets its own answer, or none. -/
theorem sat_pauseDrive (hR : Orders R A S lba) :
    Sat (Step R disc) (On (Settled A)) pauseDrive fun _ => On fun _ l => A → l.Right := by
  have hpause : Sat (Step R disc) (On (Settled A)) (cdDo 0x09 [] 400000)
      fun _ => On fun _ l => A → l.Right := by
    refine (sat_cdDo (W := fun d l => A → Stopping d ∧ l.Right) (F := fun _ l => A → l.Right)
      (A := fun _ _ l => A → l.Right) stable_settled framed_settled ?_ (fun _ _ _ _ h => h) ?_ ?_ ?_
      (fun _ _ h => h.2.2) (fun _ _ h hA => (h hA).2) 400000).weaken fun r b hb => ?_
    · refine fun d l m hm h hA => ⟨(h hA).1.move m fun overwrite hsector n => ?_, (h hA).2⟩
      exact hR.quiet hA d overwrite n (hsector ▸ hm)
    · rintro d l ⟨-, hp, hl⟩ hbank - hw hA
      exact ⟨⟨d.issued, rfl, .inl ⟨rfl, hp, hR.pause hA d hbank hw⟩⟩, hl hA⟩
    · exact fun d l i h hi hA => ⟨(h hA).1, (h hA).2.answer hi ((h hA).1.pending hi)⟩
    · exact fun d l i h _ hA => (h hA).2
    · cases r with
      | none => exact hb
      | some t => exact hb.choose_spec.2
  refine hpause.bind fun r => ?_
  cases r with
  | none => exact Sat.ret fun _ hb => hb
  | some t =>
    dsimp only
    split
    · exact (sat_cdWaitInt_log _).bind fun _ => sat_restOfAnswer
    · refine (sat_cdResult stable_log 16).bind fun _ => ?_
      refine (sat_cdAck (S := fun _ l => A → l.Right) stable_log framed_log
        fun _ _ h => h).bind fun _ => ?_
      refine (sat_cdWaitInt_log _).bind fun r => ?_
      cases r with
      | none => exact Sat.ret fun _ hb => hb
      | some t => exact sat_restOfAnswer

theorem meets_psxcdHwStop (hR : Orders R A S lba) {v : Vars} (hv : v.psxcdStreaming = true) :
    Meets (Step R disc) drainTurn (On (Settled A)) (psxcdHwStop v)
      fun v' b => v'.psxcdStreaming = false ∧ On (fun _ l => A → l.Right) b := by
  rw [psxcdHwStop, if_pos hv]
  refine (Meets.lift (sat_cdTakeIrq stable_settled v)).bind fun v₁ => ?_
  refine Meets.bind (R := fun _ => On (Settled A)) ?_ fun _ => ?_
  · refine fun b r b' hb hrun => Meets.loop ?_ b r b' hb.1 hrun
    exact sat_drainTurn stable_settled framed_settled fun _ _ h => h
  refine Meets.bind (R := fun _ => On fun _ l => A → l.Right)
    (Meets.lift ((sat_pauseDrive hR).bind fun _ => sat_cdReleaseIrq stable_log v₁)) fun _ => ?_
  refine (Meets.lift (sat_cdTakeIrq stable_log _)).bind fun v₂ => ?_
  intro b v' b' hb hrun
  obtain ⟨hb, mask, rfl⟩ := hb
  refine Meets.bind (R := fun _ => On fun _ l => A → l.Right)
    (S := fun v' b => v'.psxcdStreaming = false ∧ On (fun _ l => A → l.Right) b)
    (Meets.loop (sat_drainTurn stable_log framed_log fun _ _ h => h)) (fun _ => ?_) b v' b' hb hrun
  refine (Meets.lift (sat_cdReleaseIrq stable_log _)).bind fun _ => ?_
  intro b v' b' hb hrun
  cases hrun with
  | done => exact ⟨rfl, hb⟩

/-! ### The whole call -/

/-- **The start of a run.** -/
theorem sat_startRun (hR : Orders R A S lba) {v : Vars} (hv : v.psxcdStreaming = false)
    (buf : UInt32) (haddr : S → lba.toNat + 150 < 720000) :
    Sat (Step R disc) (On fun _ l => A → l.Right) (startRun v lba buf)
      fun p => On (Fetched A S disc lba p) := by
  have hfail : Sat (Step R disc) (On fun _ l => A → l.Right) (do
      cdReleaseIrq v
      return ((none : Option Iso9660.Sector), v)) fun p => On (Fetched A S disc lba p) :=
    (sat_cdReleaseIrq stable_log v).bind fun _ => Sat.ret fun _ hb => fetched_none hv hb
  refine (sat_setloc hR).bind fun r => ?_
  by_cases hr : r = some 3
  · rw [if_pos hr]
    intro b p b' hb hrun
    obtain ⟨hl, hidle⟩ := hb
    obtain ⟨hidle, s, htarget, hs⟩ := hidle hr
    refine Sat.bind (S := fun p => On (Fetched A S disc lba p)) (sat_readN (S := S) s)
      (fun r' => ?_) b p b' ⟨⟨hidle, htarget⟩, hl⟩ hrun
    by_cases hr' : r' = some 3
    · rw [if_pos hr']
      intro b p b' hb hrun
      obtain ⟨hl, hstream⟩ := hb
      obtain ⟨n, hn, hstream⟩ := hstream hr'
      refine Sat.bind (P := fun c => c = b) (R := fun _ => On (OnRun A S n s))
        (S := fun p => On (Fetched A S disc lba p)) (Sat.query ?_) (fun _ => ?_) b p b' rfl hrun
      · rintro _ u _ rfl rfl
        refine ⟨hstream, ?_, hl⟩
        rw [Log.noted, hn]
        rfl
      · refine sat_fetch hR _ buf (fun hS => sector_of_cdLbaToMsf (haddr hS) hs) fun hS => ?_
        have h := haddr hS
        omega
    · rw [if_neg hr']
      exact hfail.strengthen fun b hb => hb.1
  · rw [if_neg hr]
    exact hfail.strengthen fun b hb => hb.1

/-- **A call of `psxcd_hw_read` keeps in step**, and returns nothing but the sector. -/
theorem meets_psxcdHwRead (hR : Orders R A S lba) (v : Vars) (buf : UInt32)
    (haddr : S → lba.toNat + 150 < 720000) :
    Meets (Step R disc) drainTurn (On (InStep A S v)) (psxcdHwRead v lba buf)
      fun p => On (Fetched A S disc lba p) := by
  have hstable : Stable R (InStep A S v) := by
    rintro d l m - ⟨hd, hl⟩
    refine ⟨fun hv => ?_, hl⟩
    obtain ⟨n, s, hn, hstream, hs⟩ := hd hv
    exact ⟨n, s, hn, hstream.move m, hs⟩
  refine (Meets.lift (sat_cdTakeIrq hstable v)).bind fun v₁ => ?_
  intro b p b' hb hrun
  obtain ⟨⟨hd, hl⟩, mask, rfl⟩ := hb
  by_cases hv : v.psxcdStreaming = false
  · rw [if_pos hv] at hrun
    exact sat_startRun hR (by exact hv) buf haddr b p b' hl hrun.of_lift
  rw [if_neg hv] at hrun
  obtain ⟨n, s, hn, hstream, hs⟩ := hd (eq_true_of_ne_false hv)
  by_cases hlba : lba = v.psxcdNextLba
  · rw [if_pos hlba] at hrun
    refine sat_fetch hR _ buf (fun hS => hlba ▸ hs hS) (fun hS => ?_) b p b' ⟨hstream, hn, hl⟩
      hrun.of_lift
    have h := haddr hS
    omega
  · rw [if_neg hlba] at hrun
    refine Meets.bind (P := On (Settled A)) (R := fun _ => On (Settled A))
      (S := fun p => On (Fetched A S disc lba p))
      (Meets.lift (sat_cdReleaseIrq stable_settled _)) (fun _ => ?_) b p b'
      ⟨hstream.command, hstream.pausing, hl⟩ hrun
    refine (meets_psxcdHwStop hR (by exact eq_true_of_ne_false hv)).bind fun v₂ => ?_
    intro b p b' hb hrun
    obtain ⟨hv₂, hl⟩ := hb
    refine Sat.bind (S := fun p => On (Fetched A S disc lba p)) (sat_cdTakeIrq stable_log v₂)
      (fun v₃ => ?_) b p b' hl hrun.of_lift
    intro b p b' hb hrun
    obtain ⟨hl, mask', rfl⟩ := hb
    exact sat_startRun hR (by exact hv₂) buf haddr b p b' hl hrun

end Call

/-! ## Sequences of calls -/

/-- **Calls in sequence**, each with the sector it asks for and what it returns.  What may happen
during a call can depend on the sector it wants. -/
inductive Calls (R : UInt32 → Rules) (disc : Nat → Iso9660.Sector) :
    Vars → Bench → List (UInt32 × Option Iso9660.Sector) → Vars → Bench → Prop
  | nil (v : Vars) (b : Bench) : Calls R disc v b [] v b
  | call {v v' v'' : Vars} {b b' b'' : Bench} {lba : UInt32} {r : Option Iso9660.Sector}
      {calls : List (UInt32 × Option Iso9660.Sector)} (buf : UInt32)
      (h : Comes (Step (R lba) disc) drainTurn (psxcdHwRead v lba buf) b (r, v') b')
      (hrest : Calls R disc v' b' calls v'' b'') : Calls R disc v b ((lba, r) :: calls) v'' b''

/-- **Calls in sequence keep in step.** -/
theorem Calls.inStep {R : UInt32 → Rules} {disc : Nat → Iso9660.Sector} {A S : Prop}
    (hR : ∀ lba, Orders (R lba) A S lba) {v v' : Vars} {b b' : Bench}
    {calls : List (UInt32 × Option Iso9660.Sector)} (h : Calls R disc v b calls v' b')
    (haddr : S → ∀ c ∈ calls, c.1.toNat + 150 < 720000) (hb : On (InStep A S v) b) :
    On (InStep A S v') b' ∧ (S → ∀ c ∈ calls, ∀ data, c.2 = some data → data = disc c.1.toNat) := by
  induction h with
  | nil => exact ⟨hb, fun _ _ hc => nomatch hc⟩
  | @call v v₁ v' b b₁ b' lba r calls buf hcall _ ih =>
    obtain ⟨hstep, hdata⟩ := meets_psxcdHwRead (hR lba) v buf
      (fun hS => haddr hS (lba, r) List.mem_cons_self) b (r, v₁) b₁ hb hcall
    obtain ⟨hend, hrest⟩ := ih (fun hS c hc => haddr hS c (List.mem_cons_of_mem _ hc)) hstep
    refine ⟨hend, fun hS c hc => ?_⟩
    rcases List.mem_cons.mp hc with rfl | hc
    · exact hdata hS
    · exact hrest hS c hc

/-! ## Runs that can be computed -/

/-- The drive makes these moves, if it may. -/
def tryMoves (R : Rules) : Controller → List Move → Option Controller
  | d, [] => some d
  | d, m :: moves => if R.move d m = true then tryMoves R (d.move m) moves else none

theorem Passes.of_tryMoves {R : Rules} {moves : List Move} {d d' : Controller}
    (h : tryMoves R d moves = some d') : Passes R d d' := by
  induction moves generalizing d with
  | nil =>
    obtain rfl := Option.some.inj h
    exact .refl d
  | cons m moves ih =>
    by_cases hm : R.move d m = true
    · rw [tryMoves, if_pos hm] at h
      exact .move m hm (ih h)
    · rw [tryMoves, if_neg hm] at h
      cases h

/-- The bits that do not depend on the drive: there is data, no result, and no transfer under way.
-/
def otherBits : Reg → UInt32
  | .cd0 => 0x40
  | _ => 0

/-- A drive with a plan: what it does before the access with this number. -/
def tryAnswer (R : Rules) (disc : Nat → Iso9660.Sector) (plan : Nat → Controller → List Move) :
    (q : Query) → Nat × Bench → Option (Answer q × (Nat × Bench))
  | .read r, (i, b) => (tryMoves R b.drive (plan i b.drive)).map fun d =>
    (d.read r (otherBits r), i + 1, ⟨d, b.log⟩)
  | .write r x, (i, b) => (tryMoves R b.drive (plan i b.drive)).bind fun d =>
    if R.write d r x = true then some ((), i + 1, ⟨d.write r x, b.log⟩) else none
  | .note n, (i, b) => some ((), i, ⟨b.drive, b.log.noted b.drive n⟩)
  | .data, (i, b) =>
    if R.data b.drive = true then some (disc (b.drive.dataFifo.getD 0), i, b) else none

theorem step_of_tryAnswer {R : Rules} {disc : Nat → Iso9660.Sector}
    {plan : Nat → Controller → List Move} (q : Query) (t : Nat × Bench) (r : Answer q)
    (t' : Nat × Bench) (h : tryAnswer R disc plan q t = some (r, t')) :
      Step R disc q t.2 r t'.2 := by
  obtain ⟨i, b⟩ := t
  cases q with
  | read reg =>
    obtain ⟨d, hd, heq⟩ := Option.map_eq_some_iff.mp h
    obtain ⟨rfl, rfl⟩ := Prod.mk.inj heq
    exact ⟨.of_tryMoves hd, rfl, _, rfl⟩
  | write reg x =>
    obtain ⟨d, hd, heq⟩ := Option.bind_eq_some_iff.mp h
    by_cases hw : R.write d reg x = true
    · rw [if_pos hw] at heq
      obtain ⟨-, rfl⟩ := Prod.mk.inj (Option.some.inj heq)
      exact ⟨d, .of_tryMoves hd, hw, rfl⟩
    · rw [if_neg hw] at heq
      cases heq
  | note n =>
    obtain ⟨-, rfl⟩ := Prod.mk.inj (Option.some.inj h)
    rfl
  | data =>
    by_cases hr : R.data b.drive = true
    · rw [tryAnswer, if_pos hr] at h
      obtain ⟨rfl, rfl⟩ := Prod.mk.inj (Option.some.inj h)
      refine ⟨hr, fun k hk => ?_, rfl⟩
      rw [hk]
      rfl
    · rw [tryAnswer, if_neg hr] at h
      cases h

/-- Calls for these sectors, with eight turns at most in a drain loop. -/
def tryCalls (R : UInt32 → Rules) (disc : Nat → Iso9660.Sector)
    (plan : Nat → Controller → List Move) : List UInt32 → Vars → Nat × Bench →
      Option (List (UInt32 × Option Iso9660.Sector) × Vars × (Nat × Bench))
  | [], v, t => some ([], v, t)
  | lba :: lbas, v, t =>
    (tryComes (tryAnswer (R lba) disc plan) drainTurn 8 (psxcdHwRead v lba 0) t).bind fun r =>
      (tryCalls R disc plan lbas r.1.2 r.2).map fun rest => ((lba, r.1.1) :: rest.1, rest.2)

theorem Calls.of_tryCalls {R : UInt32 → Rules} {disc : Nat → Iso9660.Sector}
    {plan : Nat → Controller → List Move} {lbas : List UInt32} {v : Vars} {t : Nat × Bench}
    {calls : List (UInt32 × Option Iso9660.Sector)} {v' : Vars} {t' : Nat × Bench}
    (h : tryCalls R disc plan lbas v t = some (calls, v', t')) :
    Calls R disc v t.2 calls v' t'.2 := by
  induction lbas generalizing v t calls with
  | nil =>
    obtain ⟨rfl, hend⟩ := Prod.mk.inj (Option.some.inj h)
    obtain ⟨rfl, rfl⟩ := Prod.mk.inj hend
    exact .nil v t.2
  | cons lba lbas ih =>
    obtain ⟨⟨⟨r, v₁⟩, t₁⟩, hcall, hrest⟩ := Option.bind_eq_some_iff.mp h
    obtain ⟨⟨rest, v₂, t₂⟩, hcalls, heq⟩ := Option.map_eq_some_iff.mp hrest
    obtain ⟨rfl, hend⟩ := Prod.mk.inj heq
    obtain ⟨rfl, rfl⟩ := Prod.mk.inj hend
    exact .call 0 (Comes.of_tryComes (f := Prod.snd) step_of_tryAnswer hcall) (ih hcalls)

end Registers
end Cdrom
end Blackroo
