import Blackroo.Cdrom.Calls

/-!
# In which runs the driver gets what it believes to get

The driver never looks at who raised an interrupt, nor at the header of a sector.  It relies on the
time that passes: that the drive is done with one command before the next one is written, and that
the sectors are fetched as fast as they come.  Two conditions on the timing of a run settle for
which runs this is enough, whatever waits run out in them and whatever calls fail.

## Whose answer an interrupt is

`prompt` says that a `Setloc` is only written to an idle drive, that a `Pause` is only written when
no interrupt is there, and that no sector is raised while a `Pause` waits for its execution.  Then
every interrupt is attributed to the right command (`answers_attributed`).  An exit of
`psxcd_hw_read` that leaves something outstanding is harmless as long as it has come to its end
before the next call gets to its `Setloc`.  It is not harmless otherwise, and a seek is as dangerous
as an error: in `not_answers_attributed_unlucky` no wait runs out, and the answer of every command
after the first two is another one's.

## Which sector has been read

`kept` says that a `Setloc` is only written to an idle drive, and that no data is taken in a call
for a sector which the drive has dropped since its `ReadN`.  Then every call that succeeds has the
sector it was asked for (`sectors_right`).  A drive drops a sector when the driver lets three of
them pass, and the driver does not notice (`not_sectors_right_idling`).
-/

namespace Blackroo
namespace Cdrom
namespace Registers

open Interaction

/-! ## Conditions on the timing -/

/-- The drive is idle when this is written, if it is a `Setloc`. -/
def setlocIdle (d : Controller) (r : Reg) (x : UInt32) : Bool :=
  if r = .cd1 ∧ d.bank = 0 ∧ x = 0x02 then decide d.Idle else true

/-- There is no interrupt when this is written, if it is a `Pause`. -/
def pauseQuiet (d : Controller) (r : Reg) (x : UInt32) : Bool :=
  if r = .cd1 ∧ d.bank = 0 ∧ x = 0x09 then decide (d.line = []) else true

/-- This is no sector, or no `Pause` waits for its execution. -/
def noneBeforePause (d : Controller) : Move → Bool
  | .sector _ => d.command.all fun c => c.2 ≠ .pause
  | _ => true

def prompt : Rules where
  move := noneBeforePause
  write d r x := setlocIdle d r x && pauseQuiet d r x
  data _ := true

def kept (lba : UInt32) : Rules where
  move _ _ := true
  write := setlocIdle
  data d := decide (lba.toNat ∉ d.dropped)

theorem idle_of_setlocIdle {d : Controller} (hbank : d.bank = 0)
    (h : setlocIdle d .cd1 0x02 = true) : d.Idle := by
  rw [setlocIdle, if_pos ⟨rfl, hbank, rfl⟩] at h
  exact of_decide_eq_true h

theorem orders_prompt (lba : UInt32) : Orders prompt True False lba where
  setloc d hbank h := idle_of_setlocIdle hbank (Bool.and_eq_true_iff.mp h).1
  pause _ d hbank h := by
    have h' : pauseQuiet d .cd1 0x09 = true := (Bool.and_eq_true_iff.mp h).2
    rw [pauseQuiet, if_pos ⟨rfl, hbank, rfl⟩] at h'
    exact of_decide_eq_true h'
  quiet _ d overwrite n h hc := by
    have h' : d.command.all (fun c => c.2 ≠ .pause) = true := h
    rw [hc] at h'
    exact absurd h' (by simp)
  kept h := h.elim

theorem orders_kept (lba : UInt32) : Orders (kept lba) False True lba where
  setloc _ hbank h := idle_of_setlocIdle hbank h
  pause h := h.elim
  quiet h := h.elim
  kept _ _ h := of_decide_eq_true h

/-- Before the first run the driver believes nothing. -/
theorem inStep_of_not_streaming {A S : Prop} {v : Vars} {b : Bench} (hv : v.psxcdStreaming = false)
    (hl : A → b.log.Right) : On (InStep A S v) b :=
  ⟨fun h => absurd (hv.symm.trans h) Bool.false_ne_true, hl⟩

/-! ## A drive for runs that can be computed -/

/-- Nothing has happened yet. -/
def atRest : Bench where
  drive := ⟨0, [], none, none, [], none, none, 0, none, none, 0, []⟩
  log := ⟨none, [], []⟩

/-- The variables behind `psxcd_hw_init`. -/
def initialised : Vars := ⟨0, false, 0, true⟩

/-- A disc whose sectors hold their numbers. -/
def numbered (k : Nat) : Iso9660.Sector := fun _ => UInt8.ofNat k

/-- Commands are executed at once, and there is a sector every forty accesses. -/
def steady (i : Nat) (d : Controller) : List Move :=
  if d.command.isSome then [.execute true, .deliver]
  else if i % 40 = 0 then [.sector false, .complete, .deliver]
  else [.complete, .deliver]

/-! ## Whose answer an interrupt is -/

/-- **Every interrupt is attributed to the right command, in a run that is prompt.** -/
theorem answers_attributed {disc : Nat → Iso9660.Sector} {v v' : Vars} {b b' : Bench}
    {calls : List (UInt32 × Option Iso9660.Sector)} (hv : v.psxcdStreaming = false)
    (hl : b.log.Right) (h : Calls (fun _ => prompt) disc v b calls v' b') : b'.log.Right :=
  (h.inStep orders_prompt nofun (inStep_of_not_streaming hv fun _ => hl)).1.2 trivial

/-- Two sectors in a row and a seek, on a drive that is neither slow nor early. -/
theorem answers_attributed_steady : ∃ calls v b,
    Calls (fun _ => prompt) numbered initialised atRest calls v b ∧
      b.log.answers.length = 5 ∧ b.log.transfers.length = 3 ∧ b.log.Right := by
  have hrun : (tryCalls (fun _ => prompt) numbered steady [16, 17, 100] initialised (0, atRest)).map
      (fun r => (r.2.2.2.log.answers.length, r.2.2.2.log.transfers.length)) = some (5, 3) := by
    decide +kernel
  obtain ⟨⟨calls, v, t⟩, hcalls, hlog⟩ := Option.map_eq_some_iff.mp hrun
  obtain ⟨hanswers, htransfers⟩ := Prod.mk.inj hlog
  exact ⟨calls, v, t.2, .of_tryCalls hcalls, hanswers, htransfers,
    answers_attributed rfl ⟨List.forall_mem_nil _, List.forall_mem_nil _⟩ (.of_tryCalls hcalls)⟩

/-- Two sectors come between the first drain and the execution of the `Pause`, and the drive comes
to rest behind the second drain. -/
def unlucky (i : Nat) (d : Controller) : List Move :=
  match d.command with
  | some (_, .pause) => [.sector false, .deliver, .sector false, .execute true]
  | some (_, .setloc _) => [.complete, .execute true, .deliver]
  | some _ => [.execute true, .deliver]
  | none => if i = 40 then [.sector false, .deliver] else [.deliver]

/-- A seek, and a second attempt at it.  The `Pause` is answered by an INT1, the `Setloc` by the
INT2 of the `Pause`, the next `Setloc` by the INT3 of that one, and the `ReadN` by the INT3 of its
`Setloc`. -/
theorem not_answers_attributed_unlucky : ∃ calls v b,
    Calls (fun _ => anything) numbered initialised atRest calls v b ∧
      b.log.answers = [(0, some 0), (1, some 1), (2, some 1), (3, some 2), (4, some 3),
        (5, some 4)] ∧
      ¬ b.log.Right := by
  have hrun : (tryCalls (fun _ => anything) numbered unlucky [16, 100, 100] initialised
      (0, atRest)).map (fun r => r.2.2.2.log.answers) =
        some [(0, some 0), (1, some 1), (2, some 1), (3, some 2), (4, some 3), (5, some 4)] := by
    decide +kernel
  obtain ⟨⟨calls, v, t⟩, hcalls, hanswers⟩ := Option.map_eq_some_iff.mp hrun
  have hanswers : t.2.log.answers = _ := hanswers
  refine ⟨calls, v, t.2, .of_tryCalls hcalls, hanswers, fun hright => ?_⟩
  have hwrong := hright.1 (2, some 1) (by rw [hanswers]; decide)
  exact absurd (Option.some.inj hwrong) (by decide)

/-! ## Which sector has been read -/

/-- **Every call that succeeds has its sector, in a run in which it has been kept.** -/
theorem sectors_right {disc : Nat → Iso9660.Sector} {v v' : Vars} {b b' : Bench}
    {calls : List (UInt32 × Option Iso9660.Sector)} (hv : v.psxcdStreaming = false)
    (haddr : ∀ c ∈ calls, c.1.toNat + 150 < 720000) (h : Calls kept disc v b calls v' b') :
    ∀ c ∈ calls, ∀ data, c.2 = some data → data = disc c.1.toNat :=
  (h.inStep orders_kept (fun _ => haddr) (inStep_of_not_streaming hv nofun)).2 trivial

theorem sectors_right_steady : ∃ calls v b,
    Calls kept numbered initialised atRest calls v b ∧
      calls.map (fun c => (c.1, c.2.isSome)) = [(16, true), (17, true), (100, true)] ∧
      ∀ c ∈ calls, ∀ data, c.2 = some data → data = numbered c.1.toNat := by
  have hrun : (tryCalls kept numbered steady [16, 17, 100] initialised (0, atRest)).map
      (fun r => r.1.map fun c => (c.1, c.2.isSome)) =
        some [(16, true), (17, true), (100, true)] := by
    decide +kernel
  obtain ⟨⟨calls, v, t⟩, hcalls, hsome⟩ := Option.map_eq_some_iff.mp hrun
  have haddr : ∀ c ∈ calls, c.1.toNat + 150 < 720000 := by
    have hall : ∀ p ∈ [((16 : UInt32), true), (17, true), (100, true)], p.1.toNat + 150 <
      720000 := by
      simp
    rw [← hsome] at hall
    exact fun c hc => hall _ (List.mem_map_of_mem hc)
  exact ⟨calls, v, t.2, .of_tryCalls hcalls, hsome, sectors_right rfl haddr (.of_tryCalls hcalls)⟩

/-- Room for one sector behind the pending interrupt. -/
def oneBehind : Rules where
  move d m := match m with
    | .sector overwrite => overwrite = (d.pending.isSome && d.queue.any fun i =>
        i.irq.sector.isSome)
    | _ => true
  write _ _ _ := true
  data _ := true

/-- Three sectors pass behind the first one. -/
def idling (_ : Nat) (d : Controller) : List Move :=
  if d.command.isSome then [.execute true, .deliver]
  else if d.head = 0 then [.sector false, .deliver]
  else if d.head = 1 ∧ d.line = [] then [.sector false, .deliver, .sector false, .sector true]
  else [.deliver]

/-- The third call returns the sector behind the one it was asked for. -/
theorem not_sectors_right_idling : ∃ calls v b,
    Calls (fun _ => oneBehind) numbered initialised atRest calls v b ∧
      calls.map (fun c => (c.1, c.2.map fun data => data 0)) =
        [(0, some 0), (1, some 1), (2, some 3)] ∧
      ¬ ∀ c ∈ calls, ∀ data, c.2 = some data → data = numbered c.1.toNat := by
  have hrun : (tryCalls (fun _ => oneBehind) numbered idling [0, 1, 2] initialised (0, atRest)).map
      (fun r => r.1.map fun c => (c.1, c.2.map fun data => data 0)) =
        some [(0, some 0), (1, some 1), (2, some 3)] := by
    decide +kernel
  obtain ⟨⟨calls, v, t⟩, hcalls, hread⟩ := Option.map_eq_some_iff.mp hrun
  refine ⟨calls, v, t.2, .of_tryCalls hcalls, hread, fun hright => ?_⟩
  have hthird : ((2 : UInt32), some (3 : UInt8)) ∈
      calls.map fun c => (c.1, c.2.map fun data => data 0) := by
    rw [hread]
    decide
  obtain ⟨⟨lba, r⟩, hc, heq⟩ := List.mem_map.mp hthird
  obtain ⟨rfl, hr⟩ := Prod.mk.inj heq
  obtain ⟨data, rfl, hdata⟩ := Option.map_eq_some_iff.mp hr
  rw [hright _ hc data rfl] at hdata
  exact absurd (show numbered 2 0 = 3 from hdata) (by decide)

end Registers
end Cdrom
end Blackroo
