import Blackroo.Kloader.Shell
import Blackroo.Lib.StreamSearch

/-!
# Waiting for the beacon

`wait_for_beacon` of `blackroo-serial.py` looks at the serial port again and again until the four
bytes of the beacon have arrived.  A turn of its loop is a `Poll`: how long it has been waiting
and the bytes that are there.  They come in pieces of any size, and the buffer in which the beacon
is searched is cut to its last 16 bytes when it gets longer than 64.

`early` are the polls before the timeout, `Seen` says that the beacon is among their bytes.  That
the buffer is enough to see it is `StreamSearch.Window`: a cut loses no beacon that is still
arriving, because three bytes of one are less than the 16 that are kept, and none that has arrived,
because the search comes before the cut.

The loop ends in three ways, and `waitForBeacon_iff` has them all: the beacon is seen, the time is
over, or the polls considered are used up before either.
-/

namespace Blackroo
namespace Kloader

open LittleEndian StreamSearch

/-! ## The code -/

/-- `buf.find(beacon_bytes)`, without the -1. -/
def findBytes (pattern : List UInt8) : List UInt8 → Option Nat
  | [] => if pattern = [] then some 0 else none
  | b :: buf => if pattern <+: b :: buf then some 0 else (findBytes pattern buf).map (· + 1)

/-- `beacon_bytes`. -/
def beaconBytes : List UInt8 := bytes32 shellBeacon

/-- The port at one turn of the loop: the time since the start, and what `ser.read(ser.in_waiting)`
returns. -/
structure Poll where
  elapsed : Nat
  waiting : List UInt8
  deriving DecidableEq, Repr

/-- The trim of the buffer. -/
def trimBuffer (buf : List UInt8) : List UInt8 :=
  if buf.length > 64 then buf.drop (buf.length - 16) else buf

/-- The loop: what is returned, with the polls still to come, or nothing while it goes on.  After
the beacon there is one more look at the port, for what is stale. -/
def beaconLoop (timeout : Nat) : (buf : List UInt8) → List Poll → Option (Bool × List Poll)
  | _, [] => none
  | buf, poll :: polls =>
    if poll.elapsed < timeout then
      if poll.waiting.length > 0 then
        match findBytes beaconBytes (buf ++ poll.waiting) with
        | some _ => some (true, polls.drop 1)
        | none => beaconLoop timeout (trimBuffer (buf ++ poll.waiting)) polls
      else beaconLoop timeout buf polls
    else some (false, polls)

/-- `wait_for_beacon`, on what arrives after `reset_input_buffer`. -/
def waitForBeacon (timeout : Nat) (polls : List Poll) : Option (Bool × List Poll) :=
  beaconLoop timeout [] polls

/-! ## The buffer -/

theorem findBytes_eq_none_iff (pattern buf : List UInt8) :
    findBytes pattern buf = none ↔ ¬ pattern <:+: buf := by
  induction buf with
  | nil =>
    rw [findBytes, List.infix_nil]
    split <;> simp_all
  | cons b buf ih =>
    rw [findBytes, List.infix_cons_iff]
    split
    · next h => simp [h]
    · next h => simp [h, ih]

theorem length_beaconBytes : beaconBytes.length = 4 := rfl

theorem window_trimBuffer {s buf : List UInt8} (h : Window beaconBytes s buf) :
    Window beaconBytes s (trimBuffer buf) := by
  rw [trimBuffer]
  split
  · exact h.drop (by rw [length_beaconBytes]; omega)
  · exact h

/-! ## What is returned -/

/-- The polls before the timeout. -/
def early (timeout : Nat) (polls : List Poll) : List Poll :=
  polls.takeWhile fun poll => poll.elapsed < timeout

/-- The beacon is among these bytes and those of the polls. -/
def SeenAfter (s : List UInt8) (polls : List Poll) : Prop :=
  beaconBytes <:+: s ++ polls.flatMap Poll.waiting

theorem seenAfter_nil (s : List UInt8) : SeenAfter s [] ↔ beaconBytes <:+: s := by
  rw [SeenAfter, List.flatMap_nil, List.append_nil]

theorem seenAfter_cons (s : List UInt8) (poll : Poll) (polls : List Poll) :
    SeenAfter s (poll :: polls) ↔ SeenAfter (s ++ poll.waiting) polls := by
  rw [SeenAfter, SeenAfter, List.flatMap_cons, List.append_assoc]

/-- Once seen, it stays seen. -/
theorem SeenAfter.mono {s : List UInt8} {polls more : List Poll} (h : SeenAfter s polls)
    (hle : polls <+: more) : SeenAfter s more := by
  obtain ⟨rest, rfl⟩ := hle
  rw [SeenAfter, List.flatMap_append, ← List.append_assoc]
  exact h.trans (List.prefix_append _ _).isInfix

/-- The possible results, after the bytes `s`. -/
inductive BeaconOutcome (timeout : Nat) (s : List UInt8) (polls : List Poll) :
    Option (Bool × List Poll) → Prop
  | found {k : Nat} (hk : k < (early timeout polls).length)
      (hbefore : ¬ SeenAfter s ((early timeout polls).take k))
      (hnow : SeenAfter s ((early timeout polls).take (k + 1))) :
      BeaconOutcome timeout s polls (some (true, polls.drop (k + 2)))
  | late (hnot : ¬ SeenAfter s (early timeout polls))
      (hlt : (early timeout polls).length < polls.length) :
      BeaconOutcome timeout s polls (some (false, polls.drop ((early timeout polls).length + 1)))
  | waiting (hnot : ¬ SeenAfter s (early timeout polls)) (hall : early timeout polls = polls) :
      BeaconOutcome timeout s polls none

/-- A turn before the timeout in which the beacon is not seen. -/
theorem BeaconOutcome.cons {timeout : Nat} {s : List UInt8} {poll : Poll} {polls : List Poll}
    {r : Option (Bool × List Poll)} (hearly : poll.elapsed < timeout)
    (h : BeaconOutcome timeout (s ++ poll.waiting) polls r) :
    BeaconOutcome timeout s (poll :: polls) r := by
  have hcons : early timeout (poll :: polls) = poll :: early timeout polls :=
    List.takeWhile_cons_of_pos (by simpa using hearly)
  cases h with
  | @found k hk hbefore hnow =>
    refine BeaconOutcome.found (k := k + 1) ?_ ?_ ?_
    · rw [hcons]
      exact Nat.succ_lt_succ hk
    · rwa [hcons, List.take_succ_cons, seenAfter_cons]
    · rwa [hcons, List.take_succ_cons, seenAfter_cons]
  | late hnot hlt =>
    have hdrop : polls.drop ((early timeout polls).length + 1) =
        (poll :: polls).drop ((early timeout (poll :: polls)).length + 1) := by
      rw [hcons, List.length_cons, List.drop_succ_cons]
    rw [hdrop]
    refine BeaconOutcome.late ?_ ?_
    · rwa [hcons, seenAfter_cons]
    · rw [hcons]
      exact Nat.succ_lt_succ hlt
  | waiting hnot hall =>
    refine BeaconOutcome.waiting ?_ ?_
    · rwa [hcons, seenAfter_cons]
    · rw [hcons, hall]

/-- **The loop**, with a buffer that is enough of what has been read. -/
theorem beaconLoop_outcome (timeout : Nat) {s buf : List UInt8} (h : Window beaconBytes s buf)
    (polls : List Poll) : BeaconOutcome timeout s polls (beaconLoop timeout buf polls) := by
  induction polls generalizing s buf with
  | nil => exact .waiting (by rw [early, List.takeWhile_nil, seenAfter_nil]; exact h.not_found) rfl
  | cons poll polls ih =>
    rw [beaconLoop]
    split
    · next hearly =>
        have hcons : early timeout (poll :: polls) = poll :: early timeout polls :=
          List.takeWhile_cons_of_pos (by simpa using hearly)
        split
        · split
          · next i hfind =>
              have hin : beaconBytes <:+: buf ++ poll.waiting := by
                by_contra hnot
                rw [(findBytes_eq_none_iff _ _).mpr hnot] at hfind
                cases hfind
              refine BeaconOutcome.found (k := 0) ?_ ?_ ?_
              · rw [hcons]
                exact Nat.succ_pos _
              · rw [List.take_zero, seenAfter_nil]
                exact h.not_found
              · rw [hcons, List.take_succ_cons, List.take_zero, seenAfter_cons, seenAfter_nil]
                exact (h.infix_append_iff _).mpr hin
          · next hfind =>
              have hnew := h.append ((findBytes_eq_none_iff _ _).mp hfind)
              exact (ih (window_trimBuffer hnew)).cons hearly
        · next hempty =>
            have hnil : poll.waiting = [] := List.eq_nil_of_length_eq_zero (by omega)
            refine BeaconOutcome.cons hearly ?_
            rw [hnil, List.append_nil]
            exact ih h
    · next hlate =>
        have hnil : early timeout (poll :: polls) = [] :=
          List.takeWhile_cons_of_neg (by simpa using hlate)
        have hdrop : polls = (poll :: polls).drop ((early timeout (poll :: polls)).length + 1) := by
          rw [hnil]
          rfl
        nth_rewrite 2 [hdrop]
        refine BeaconOutcome.late ?_ ?_
        · rw [hnil, seenAfter_nil]
          exact h.not_found
        · rw [hnil]
          exact Nat.succ_pos _

/-- The beacon is among the bytes of these polls. -/
def Seen (polls : List Poll) : Prop := beaconBytes <:+: polls.flatMap Poll.waiting

theorem Seen.mono {polls more : List Poll} (h : Seen polls) (hle : polls <+: more) : Seen more :=
  SeenAfter.mono (s := []) h hle

/-- There is only one poll with which the beacon has arrived. -/
theorem eq_of_seen {polls : List Poll} {k m : Nat} (hk : ¬ Seen (polls.take k))
    (hk' : Seen (polls.take (k + 1))) (hm : ¬ Seen (polls.take m))
    (hm' : Seen (polls.take (m + 1))) : k = m := by
  have hle {i j : Nat} (hi : Seen (polls.take (i + 1))) (hj : ¬ Seen (polls.take j)) : j ≤ i := by
    by_contra hlt
    exact hj (hi.mono (List.take_prefix_take_left (by omega)))
  exact Nat.le_antisymm (hle hm' hk) (hle hk' hm)

/-- **The beacon is found however it arrives.**  `wait_for_beacon` returns `True` at the first poll
before the timeout with which the beacon has arrived, `False` at the timeout if it has not arrived
by then, and goes on exactly as long as neither is the case. -/
theorem waitForBeacon_iff (timeout : Nat) (polls : List Poll) :
    (∀ rest, waitForBeacon timeout polls = some (true, rest) ↔
      ∃ k < (early timeout polls).length, ¬ Seen ((early timeout polls).take k) ∧
        Seen ((early timeout polls).take (k + 1)) ∧ rest = polls.drop (k + 2)) ∧
    (∀ rest, waitForBeacon timeout polls = some (false, rest) ↔
      ¬ Seen (early timeout polls) ∧ (early timeout polls).length < polls.length ∧
        rest = polls.drop ((early timeout polls).length + 1)) ∧
    (waitForBeacon timeout polls = none ↔
      ¬ Seen (early timeout polls) ∧ early timeout polls = polls) := by
  have hout : BeaconOutcome timeout [] polls (waitForBeacon timeout polls) :=
    beaconLoop_outcome timeout (Window.start (by decide)) polls
  generalize waitForBeacon timeout polls = result at hout
  cases hout with
  | @found k hk hbefore hnow =>
    have hseen : Seen (early timeout polls) := Seen.mono hnow (List.take_prefix _ _)
    refine ⟨fun rest => ⟨fun h => ?_, fun h => ?_⟩, fun rest => ⟨nofun, fun h => absurd hseen h.1⟩,
      ⟨nofun, fun h => absurd hseen h.1⟩⟩
    · cases h
      exact ⟨k, hk, hbefore, hnow, rfl⟩
    · obtain ⟨m, -, hm, hm', rfl⟩ := h
      rw [eq_of_seen hbefore hnow hm hm']
  | late hnot hlt =>
    refine ⟨fun rest => ⟨nofun, fun h => ?_⟩, fun rest => ⟨fun h => ?_, fun h => ?_⟩,
      ⟨nofun, fun h => ?_⟩⟩
    · obtain ⟨m, -, -, hm, -⟩ := h
      exact absurd (Seen.mono hm (List.take_prefix _ _)) hnot
    · cases h
      exact ⟨hnot, hlt, rfl⟩
    · rw [h.2.2]
    · rw [h.2] at hlt
      exact absurd hlt (Nat.lt_irrefl _)
  | waiting hnot hall =>
    refine ⟨fun rest => ⟨nofun, fun h => ?_⟩, fun rest => ⟨nofun, fun h => ?_⟩,
      ⟨fun _ => ⟨hnot, hall⟩, fun _ => rfl⟩⟩
    · obtain ⟨m, -, -, hm, -⟩ := h
      exact absurd (Seen.mono hm (List.take_prefix _ _)) hnot
    · rw [hall] at h
      exact absurd h.2.1 (Nat.lt_irrefl _)

end Kloader
end Blackroo
