import Mathlib.Algebra.Order.Ring.Nat
import Mathlib.Data.Fintype.Basic
import Mathlib.Tactic.FinCases
import Blackroo.Lib.SerialBus
import Blackroo.MemoryCard.Transfer

/-!
# Two masters of one card

The kernel drives a transfer from interrupts: every call of `bu_rd_routine` reads the
reply to the byte sent before and then sends the next one, and the last call makes two
exchanges.  The boot loader's `memcard.c` polls: it sends a byte, waits for the reply,
and goes on.  So the kernel is always one reply behind, and sends one byte more before
it is satisfied.

Both are run here on the same bus (`buTransfer` and the `memcard` functions), against
any peer.  `Tracks.completes` and `Tracks.gives_up` say what the state machine does on
a bus once it is known to track a script, and `memcardReadBlock_iff` which replies the
polled read asks for.  `readers_agree` is the shift by one, for every sequence of
replies.
-/

namespace Blackroo
namespace MemoryCard

open Dialogue SerialBus

variable {σ : Type}

/-! ## The polled functions of the boot loader -/

/-- `MC_FLOOR`: the multitap sub-port of a slot number. -/
def mcFloor (slot : Nat) : Nat := slot % 4

/-- `mc_addr`: the address byte of a slot. -/
def mcAddr (slot : Nat) : UInt8 := UInt8.ofNat (0x81 + mcFloor slot)

/-- `mc_visible_slots`: the slot numbers of the two ports. -/
def mcVisibleSlots (port : Slot) : Nat := if port = 0 then 0 else 4

/-- `MC_CMD_READ`. -/
def mcCmdRead : UInt8 := 0x52

/-- `MC_CMD_WRITE`. -/
def mcCmdWrite : UInt8 := 0x57

/-- `sio0_xfer` on the selected port; `none` is the return value -1. -/
def sio0Xfer (dev : Peer σ UInt8) (tx : UInt8) : Polled σ UInt8 (Option UInt8) := xfer dev tx

/-- The loop over the data bytes in `memcard_read_block`. -/
def recvBytes (dev : Peer σ UInt8) : Nat → List UInt8 → UInt8 →
    Polled σ UInt8 (List UInt8 × UInt8)
  | 0, buf, checksum => pure (buf, checksum)
  | n + 1, buf, checksum => do
      let rx ← sio0Xfer dev 0x00
      ensure rx.isSome
      let byte := rx.getD 0
      recvBytes dev n (buf ++ [byte]) (checksum ^^^ byte)

/-- `memcard_read_block`: the buffer on success. -/
def memcardReadBlock (dev : Peer σ UInt8) (slot : Nat) (block : UInt16) :
    Polled σ UInt8 (List UInt8) := do
  let rx ← sio0Xfer dev (mcAddr slot)
  ensure rx.isSome
  let _ ← sio0Xfer dev mcCmdRead
  -- card ID response
  let rx ← sio0Xfer dev 0x00
  ensure (rx == some 0x5A)
  let rx ← sio0Xfer dev 0x00
  ensure (rx == some 0x5D)
  -- block address
  let _ ← sio0Xfer dev (msb block)
  let _ ← sio0Xfer dev (lsb block)
  -- command ACK
  let rx ← sio0Xfer dev 0x00
  ensure (rx == some 0x5C)
  let rx ← sio0Xfer dev 0x00
  ensure (rx == some 0x5D)
  -- address echo
  let rx ← sio0Xfer dev 0x00
  ensure (rx == some (msb block))
  let rx ← sio0Xfer dev 0x00
  ensure (rx == some (lsb block))
  let data ← recvBytes dev buBlkSize [] (msb block ^^^ lsb block)
  let rx ← sio0Xfer dev 0x00
  ensure (rx == some data.2)
  let rx ← sio0Xfer dev 0x00
  ensure (rx == some 0x47)
  pure data.1

/-- The loop over the data bytes in `memcard_write_block`. -/
def sendBytes (dev : Peer σ UInt8) : List UInt8 → UInt8 → Polled σ UInt8 UInt8
  | [], checksum => pure checksum
  | byte :: buf, checksum => do
      let _ ← sio0Xfer dev byte
      sendBytes dev buf (checksum ^^^ byte)

/-- `memcard_write_block`. -/
def memcardWriteBlock (dev : Peer σ UInt8) (slot : Nat) (block : UInt16) (buf : List UInt8) :
    Polled σ UInt8 Unit := do
  let rx ← sio0Xfer dev (mcAddr slot)
  ensure rx.isSome
  let _ ← sio0Xfer dev mcCmdWrite
  -- card ID response
  let rx ← sio0Xfer dev 0x00
  ensure (rx == some 0x5A)
  let rx ← sio0Xfer dev 0x00
  ensure (rx == some 0x5D)
  -- block address
  let _ ← sio0Xfer dev (msb block)
  let _ ← sio0Xfer dev (lsb block)
  let checksum ← sendBytes dev buf (msb block ^^^ lsb block)
  let _ ← sio0Xfer dev checksum
  -- ACK bytes, then the status
  let rx ← sio0Xfer dev 0x00
  ensure (rx == some 0x5C)
  let rx ← sio0Xfer dev 0x00
  ensure (rx == some 0x5D)
  let rx ← sio0Xfer dev 0x00
  ensure (rx == some 0x47)

/-! ## The interrupt-driven transfer on a bus -/

/-- A transfer of the kernel, one call of `bu_rd_routine` after the other: the first
one from `do_bu_request`, every later one when the reply has come.  The last state
waits for one more reply, the one to the zero it sends. -/
def buTransfer (dev : Peer σ UInt8) : Nat → Bu → Bus σ UInt8 → Option (Bu × Bus σ UInt8)
  | 0, _, _ => none
  | calls + 1, bu, bus =>
    match bus.data with
    | none => none
    | some byte =>
      let next := (bus.send dev 0).data
      match buRdRoutine bu ⟨byte, next.isSome, next.getD 0⟩ with
      | none => none
      | some o =>
        let bus := o.wire.foldl (fun bus x => bus.send dev x.tx) bus
        if o.status < 0 then none
        else if o.bu.stop then some (o.bu, bus)
        else buTransfer dev calls o.bu bus

/-- `bu_sw_init` and the transfer after it. -/
def buStart (dev : Peer σ UInt8) (calls : Nat) (bu : Bu) (bus : Bus σ UInt8) :
    Option (Bu × Bus σ UInt8) :=
  (buSwInit bu).bind fun bu => buTransfer dev calls bu bus

/-- The script accepts all the bytes from position `n` on. -/
def AcceptsFrom (script : Script UInt8) (len : Nat) (seen : Nat → UInt8) (n : Nat) : Prop :=
  ∀ i, n ≤ i → i < len → script.accept ((List.range i).map seen) (seen i) = true

section Transfer

variable {script : Script UInt8} {len : Nat} {At Done : Bu → List (Exchange UInt8) → Prop}
  {dev : Peer σ UInt8} {bus : Bus σ UInt8} {seen : Nat → UInt8} {bu : Bu}
  {w : List (Exchange UInt8)}

/-- The data register holds `seen n` when call `n` of a transfer reads it. -/
def Shows (dev : Peer σ UInt8) (bus : Bus σ UInt8) (script : Script UInt8) (len : Nat)
    (seen : Nat → UInt8) : Prop :=
  ∀ n < len, (bus.sends dev script.send n).data = some (seen n)

theorem map_range_succ_seen (n : Nat) :
    (List.range (n + 1)).map seen = (List.range n).map seen ++ [seen n] := by
  rw [List.range_succ, List.map_append]
  rfl

/-- A call in the middle of a transfer: what it makes of its reply, and how the transfer goes on. -/
theorem Tracks.transfer_call (ht : Tracks script len At Done)
    (hshows : Shows dev bus script len seen) (hat : At bu w) (hlt : w.length + 2 < len) :
    ∃ input o, input.byte = seen w.length ∧ Advances script At w input o ∧
      ∀ calls, buTransfer dev (calls + 1) bu (bus.sends dev script.send w.length) =
        let bus' := o.wire.foldl (fun bus x => bus.send dev x.tx)
          (bus.sends dev script.send w.length)
        if o.status < 0 then none
        else if o.bu.stop then some (o.bu, bus')
        else buTransfer dev calls o.bu bus' := by
  have hdata := hshows w.length (by omega)
  obtain ⟨o, ho, hadv⟩ := ht.middle hat hlt
    ⟨seen w.length, ((bus.sends dev script.send w.length).send dev 0).data.isSome,
      ((bus.sends dev script.send w.length).send dev 0).data.getD 0⟩
  refine ⟨_, o, rfl, hadv, fun calls => ?_⟩
  rw [buTransfer, hdata]
  simp only [ho]

/-- A call in the middle of a transfer whose reply the script accepts. -/
theorem Tracks.transfer_middle (ht : Tracks script len At Done)
    (hshows : Shows dev bus script len seen) (hat : At bu w)
    (hseen : received w = (List.range w.length).map seen) (hlt : w.length + 2 < len)
    (hacc : script.accept ((List.range w.length).map seen) (seen w.length) = true) (calls : Nat) :
    ∃ bu' x, buTransfer dev (calls + 1) bu (bus.sends dev script.send w.length) =
        buTransfer dev calls bu' (bus.sends dev script.send (w.length + 1)) ∧
      At bu' (w ++ [x]) ∧ received (w ++ [x]) = (List.range (w.length + 1)).map seen := by
  obtain ⟨input, o, hbyte, hadv, hcall⟩ := ht.transfer_call hshows hat hlt
  rw [← hseen, ← hbyte] at hacc
  obtain ⟨hst, hwire, hat'⟩ := hadv.accepted hacc
  refine ⟨o.bu, ⟨seen w.length, script.send w.length⟩, ?_, ?_, ?_⟩
  · rw [hcall calls]
    simp only [hst, ht.running hat', hwire]
    rfl
  · rw [← hbyte, ← hwire]
    exact hat'
  · rw [received_append, hseen, map_range_succ_seen]
    rfl

/-- A call in the middle of a transfer whose reply the script refuses. -/
theorem Tracks.transfer_refused (ht : Tracks script len At Done)
    (hshows : Shows dev bus script len seen) (hat : At bu w)
    (hseen : received w = (List.range w.length).map seen) (hlt : w.length + 2 < len)
    (hacc : script.accept ((List.range w.length).map seen) (seen w.length) = false) (calls : Nat) :
    buTransfer dev calls bu (bus.sends dev script.send w.length) = none := by
  cases calls with
  | zero => rfl
  | succ calls =>
    obtain ⟨input, o, hbyte, hadv, hcall⟩ := ht.transfer_call hshows hat hlt
    rw [← hseen, ← hbyte] at hacc
    rw [hcall calls]
    simp only [hadv.refused hacc]
    rfl

/-- What the last call reads: the byte before the last, and the last one. -/
theorem Shows.last (hshows : Shows dev bus script len seen) (hlen : w.length + 2 = len)
    (hzero : script.send w.length = 0) :
    ((bus.sends dev script.send w.length).send dev 0).data = some (seen (w.length + 1)) := by
  have h := hshows (w.length + 1) (by omega)
  rw [← hzero]
  exact h

theorem endsWell_iff (hseen : received w = (List.range w.length).map seen)
    (hlen : w.length + 2 = len) :
    EndsWell script w ⟨seen w.length, true, seen (w.length + 1)⟩ ↔
      AcceptsFrom script len seen w.length := by
  unfold EndsWell AcceptsFrom
  rw [hseen, ← map_range_succ_seen]
  constructor
  · rintro ⟨h₁, -, h₂⟩ i hle hlt
    rcases Nat.lt_or_eq_of_le hle with hi | rfl
    · obtain rfl : i = w.length + 1 := by omega
      exact h₂
    · exact h₁
  · intro h
    exact ⟨h _ (le_refl _) (by omega), rfl, h _ (Nat.le_succ _) (by omega)⟩

/-- **An accepted transfer completes**, with all bytes of the script sent. -/
theorem Tracks.completes (ht : Tracks script len At Done)
    (hshows : Shows dev bus script len seen) (hzero : script.send (len - 2) = 0) (hat : At bu w)
    (hseen : received w = (List.range w.length).map seen) {k : Nat} (hk : w.length + k + 2 = len)
    (hacc : AcceptsFrom script len seen w.length) (extra : Nat) :
    ∃ bu' w', buTransfer dev (k + 1 + extra) bu (bus.sends dev script.send w.length) =
        some (bu', bus.sends dev script.send len) ∧
      Done bu' w' ∧ received w' = (List.range len).map seen := by
  induction k generalizing bu w with
  | zero =>
    have hlen : w.length + 2 = len := by omega
    have hlast := hshows.last hlen (by rwa [show w.length = len - 2 by omega])
    have hdata := hshows w.length (by omega)
    obtain ⟨o, ho, hends⟩ := ht.last hat hlen ⟨seen w.length, true, seen (w.length + 1)⟩
    obtain ⟨hst, hstop, hwire, hdone⟩ := hends.accepted ((endsWell_iff hseen hlen).mpr hacc)
    refine ⟨o.bu, w ++ o.wire, ?_, hdone, ?_⟩
    · rw [show 0 + 1 + extra = extra + 1 by omega, buTransfer, hdata, hlast]
      simp only [Option.isSome_some, Option.getD_some, ho, hst, hstop, hwire]
      rw [← hlen]
      rfl
    · rw [received_append, hwire, hseen, ← hlen, map_range_succ_seen, map_range_succ_seen,
        List.append_assoc]
      rfl
  | succ k ih =>
    obtain ⟨bu', x, hrun, hat', hseen'⟩ := ht.transfer_middle hshows hat hseen (by omega)
      (hacc _ (le_refl _) (by omega)) (k + 1 + extra)
    have hlen : (w ++ [x]).length = w.length + 1 := by simp
    rw [← hlen] at hrun hseen'
    rw [show k + 1 + 1 + extra = k + 1 + extra + 1 by omega, hrun]
    refine ih hat' hseen' (by omega) fun i hle hlt => hacc i (by omega) hlt

/-- **A refused transfer gives up.** -/
theorem Tracks.gives_up (ht : Tracks script len At Done)
    (hshows : Shows dev bus script len seen) (hzero : script.send (len - 2) = 0) (hat : At bu w)
    (hseen : received w = (List.range w.length).map seen)
    (hno : ¬ AcceptsFrom script len seen w.length) (calls : Nat) :
    buTransfer dev calls bu (bus.sends dev script.send w.length) = none := by
  induction calls generalizing bu w with
  | zero => rfl
  | succ calls ih =>
    rcases Nat.lt_or_eq_of_le (ht.bounded hat) with hlt | hlen
    · cases hacc : script.accept ((List.range w.length).map seen) (seen w.length) with
      | false => exact ht.transfer_refused hshows hat hseen hlt hacc _
      | true =>
        obtain ⟨bu', x, hrun, hat', hseen'⟩ :=
          ht.transfer_middle hshows hat hseen hlt hacc calls
        have hlen : (w ++ [x]).length = w.length + 1 := by simp
        rw [← hlen] at hrun hseen'
        rw [hrun]
        refine ih hat' hseen' fun hall => hno fun i hle hi => ?_
        rcases Nat.lt_or_eq_of_le hle with hlt' | rfl
        · exact hall i (by omega) hi
        · exact hacc
    · have hlast := hshows.last hlen (by rwa [show w.length = len - 2 by omega])
      have hdata := hshows w.length (by omega)
      obtain ⟨o, ho, hends⟩ := ht.last hat hlen ⟨seen w.length, true, seen (w.length + 1)⟩
      have hst := hends.refused (fun hwell => hno ((endsWell_iff hseen hlen).mp hwell))
      rw [buTransfer, hdata, hlast]
      simp only [Option.isSome_some, Option.getD_some, ho, hst]
      rfl

/-- The first call of a transfer. -/
theorem Tracks.transfer_first (ht : Tracks script len At Done) (hstart : Starts script At bu)
    (hshows : Shows dev bus script len seen) (hlen : 3 ≤ len) :
    ∃ bu' w, w.length = 1 ∧ At bu' w ∧ received w = (List.range 1).map seen ∧
      buStart dev 0 bu bus = none ∧ ∀ calls, buStart dev (calls + 1) bu bus =
        buTransfer dev calls bu' (bus.sends dev script.send 1) := by
  obtain ⟨bu₁, hinit, hfirst⟩ := hstart
  obtain ⟨o, ho, hst, hwire, hat⟩ := hfirst
    ⟨seen 0, (bus.send dev 0).data.isSome, (bus.send dev 0).data.getD 0⟩
  have hstop := ht.running hat
  have hdata : bus.data = some (seen 0) := hshows 0 (by omega)
  refine ⟨o.bu, o.wire, by rw [hwire]; rfl, hat, by rw [hwire]; rfl, ?_, fun calls => ?_⟩
  · rw [buStart, hinit]
    rfl
  · rw [buStart, hinit, Option.bind_some, buTransfer, hdata]
    simp only [ho, hst, hstop, hwire]
    rfl

/-- **From the start: an accepted transfer completes.** -/
theorem Tracks.start_completes (ht : Tracks script len At Done) (hstart : Starts script At bu)
    (hshows : Shows dev bus script len seen) (hzero : script.send (len - 2) = 0) (hlen : 3 ≤ len)
    (hacc : AcceptsFrom script len seen 1) (extra : Nat) :
    ∃ bu' w', buStart dev (len - 1 + extra) bu bus =
        some (bu', bus.sends dev script.send len) ∧
      Done bu' w' ∧ received w' = (List.range len).map seen := by
  obtain ⟨bu₁, w, hw, hat, hseen, -, hrun⟩ := ht.transfer_first hstart hshows hlen
  rw [show len - 1 + extra = len - 3 + 1 + extra + 1 by omega, hrun]
  rw [← hw] at hseen hacc
  have hdone := ht.completes (k := len - 3) hshows hzero hat hseen (by omega) hacc extra
  rwa [hw] at hdone

/-- **From the start: a refused transfer gives up.** -/
theorem Tracks.start_gives_up (ht : Tracks script len At Done) (hstart : Starts script At bu)
    (hshows : Shows dev bus script len seen) (hzero : script.send (len - 2) = 0) (hlen : 3 ≤ len)
    (hno : ¬ AcceptsFrom script len seen 1) (calls : Nat) :
    buStart dev calls bu bus = none := by
  obtain ⟨bu₁, w, hw, hat, hseen, hnone, hrun⟩ := ht.transfer_first hstart hshows hlen
  cases calls with
  | zero => exact hnone
  | succ calls =>
    rw [hrun]
    rw [← hw] at hseen hno ⊢
    exact ht.gives_up hshows hzero hat hseen hno calls

end Transfer

/-! ## The replies a polled read asks for -/

/-- An exchange of a function that keeps to a sequence of bytes. -/
theorem sio0Xfer_bind (dev : Peer σ UInt8) (bus : Bus σ UInt8) (send : Nat → UInt8) (n m : Nat)
    (tx : UInt8) (hm : m = n + 1) (htx : tx = send n) {γ : Type}
    (f : Option UInt8 → Polled σ UInt8 γ) :
    (sio0Xfer dev tx >>= f).run (bus.sends dev send n) =
      (f (bus.reply dev send n)).run (bus.sends dev send m) := by
  rw [hm]
  exact xfer_bind_sends dev bus send n htx f

/-- The replies with which a block is read. -/
structure ReadReplies (reply : Nat → Option UInt8) (block : UInt16) (buf : List UInt8) :
    Prop where
  selected : (reply 0).isSome = true
  id : reply 2 = some 0x5A ∧ reply 3 = some 0x5D
  ack : reply 6 = some 0x5C ∧ reply 7 = some 0x5D
  echo : reply 8 = some (msb block) ∧ reply 9 = some (lsb block)
  data : ∀ i < buBlkSize, (reply (10 + i)).isSome = true
  buf_eq : buf = (List.range buBlkSize).map fun i => (reply (10 + i)).getD 0
  check : reply 138 = some (checksum block buf)
  good : reply 139 = some 0x47

/-- The data loop, `n` bytes from position `m` of a sequence of zeros. -/
theorem recvBytes_iff (dev : Peer σ UInt8) (bus : Bus σ UInt8) (send : Nat → UInt8) (n m : Nat)
    (hzero : ∀ i < n, send (m + i) = 0) (buf : List UInt8) (cs : UInt8)
    (r : List UInt8 × UInt8) (bus' : Bus σ UInt8) :
    (recvBytes dev n buf cs).run (bus.sends dev send m) = (some r, bus') ↔
      (∀ i < n, (bus.reply dev send (m + i)).isSome = true) ∧
      r.1 = buf ++ (List.range n).map (fun i => (bus.reply dev send (m + i)).getD 0) ∧
      r.2 = ((List.range n).map fun i => (bus.reply dev send (m + i)).getD 0).foldl
        (· ^^^ ·) cs ∧
      bus' = bus.sends dev send (m + n) := by
  induction n generalizing m buf cs with
  | zero =>
    rw [recvBytes, pure_eq_some_iff]
    simp [Prod.ext_iff, and_assoc]
  | succ n ih =>
    have hnext : ∀ i < n, send (m + 1 + i) = 0 := by
      intro i hi
      rw [Nat.add_right_comm]
      exact hzero (i + 1) (by omega)
    rw [recvBytes, sio0Xfer_bind dev bus send m (m + 1) 0 rfl (hzero 0 (by omega)).symm,
      ensure_bind_iff, ih (m + 1) hnext]
    rw [List.range_succ_eq_map, List.map_cons, List.map_map, List.foldl_cons]
    have hshift : ((fun i => (bus.reply dev send (m + i)).getD 0) ∘ Nat.succ) =
        fun i => (bus.reply dev send (m + 1 + i)).getD 0 := by
      funext i
      simp only [Function.comp_apply, Nat.succ_eq_add_one]
      rw [show m + (i + 1) = m + 1 + i by omega]
    rw [hshift, show m + 1 + n = m + (n + 1) by omega, List.append_assoc, Nat.add_zero]
    have hall : (∀ i < n + 1, (bus.reply dev send (m + i)).isSome = true) ↔
        (bus.reply dev send m).isSome = true ∧
          ∀ i < n, (bus.reply dev send (m + 1 + i)).isSome = true := by
      constructor
      · intro h
        refine ⟨h 0 (by omega), fun i hi => ?_⟩
        rw [show m + 1 + i = m + (i + 1) by omega]
        exact h (i + 1) (by omega)
      · rintro ⟨h₀, h⟩ i hi
        cases i with
        | zero => exact h₀
        | succ i =>
          rw [show m + (i + 1) = m + 1 + i by omega]
          exact h i (by omega)
    rw [hall, and_assoc]
    rfl

/-- **The polled read** succeeds on the replies of a read, and on no others. -/
theorem memcardReadBlock_iff (dev : Peer σ UInt8) (slot : Nat) (block : UInt16)
    (bus : Bus σ UInt8) (buf : List UInt8) (bus' : Bus σ UInt8) :
    (memcardReadBlock dev slot block).run bus = (some buf, bus') ↔
      ReadReplies (bus.reply dev (readScript (mcFloor slot) block).send) block buf ∧
        bus' = bus.sends dev (readScript (mcFloor slot) block).send 140 := by
  have hx := @sio0Xfer_bind σ dev bus (readScript (mcFloor slot) block).send
  have hsum : checksum block = fun data => data.foldl (· ^^^ ·) (msb block ^^^ lsb block) := by
    funext data
    rw [checksum, UInt8.xor_comm]
  show (memcardReadBlock dev slot block).run
    (bus.sends dev (readScript (mcFloor slot) block).send 0) = _ ↔ _
  unfold memcardReadBlock
  rw [hx 0 1 (mcAddr slot) rfl rfl, ensure_bind_iff, hx 1 2 mcCmdRead rfl rfl, hx 2 3 0 rfl rfl,
    ensure_bind_iff, hx 3 4 0 rfl rfl, ensure_bind_iff, hx 4 5 (msb block) rfl rfl,
    hx 5 6 (lsb block) rfl rfl, hx 6 7 0 rfl rfl, ensure_bind_iff, hx 7 8 0 rfl rfl,
    ensure_bind_iff, hx 8 9 0 rfl rfl, ensure_bind_iff, hx 9 10 0 rfl rfl, ensure_bind_iff,
    bind_eq_some_iff]
  simp only [beq_iff_eq]
  have hzero : ∀ i, (readScript (mcFloor slot) block).send (10 + i) = 0 := by
    intro i
    simp [readScript, show 10 + i ≠ 1 by omega, show 10 + i ≠ 4 by omega,
      show 10 + i ≠ 5 by omega]
  constructor
  · rintro ⟨h₀, h₂, h₃, h₆, h₇, h₈, h₉, data, bus₁, hdata, h⟩
    rw [recvBytes_iff dev bus _ buBlkSize 10 (fun i _ => hzero i), List.nil_append] at hdata
    obtain ⟨hsome, hbuf, hcs, rfl⟩ := hdata
    rw [show 10 + buBlkSize = 138 from rfl, hx 138 139 0 rfl (hzero 128).symm, ensure_bind_iff,
      hx 139 140 0 rfl (hzero 129).symm, ensure_bind_iff, pure_eq_some_iff, beq_iff_eq,
      beq_iff_eq] at h
    obtain ⟨hcheck, hgood, rfl, rfl⟩ := h
    refine ⟨⟨h₀, ⟨h₂, h₃⟩, ⟨h₆, h₇⟩, ⟨h₈, h₉⟩, hsome, hbuf, ?_, hgood⟩, rfl⟩
    rw [hcheck, hcs, hsum, hbuf]
  · rintro ⟨h, rfl⟩
    refine ⟨h.selected, h.id.1, h.id.2, h.ack.1, h.ack.2, h.echo.1, h.echo.2,
      (buf, checksum block buf), _,
      (recvBytes_iff dev bus _ buBlkSize 10 (fun i _ => hzero i) _ _ _ _).mpr
        ⟨h.data, h.buf_eq, ?_, rfl⟩, ?_⟩
    · rw [hsum, ← h.buf_eq]
    · rw [show 10 + buBlkSize = 138 from rfl, hx 138 139 0 rfl (hzero 128).symm,
        ensure_bind_iff, hx 139 140 0 rfl (hzero 129).symm, ensure_bind_iff, pure_eq_some_iff,
        beq_iff_eq, beq_iff_eq]
      exact ⟨h.check, h.good, rfl, rfl⟩

/-! ## The replies a write asks for -/

/-- The replies with which a block is written.  The state machine does not look at the
second acknowledge byte. -/
structure WriteReplies (reply : Nat → Option UInt8) : Prop where
  selected : (reply 0).isSome = true
  id : reply 2 = some 0x5A ∧ reply 3 = some 0x5D
  ack : reply 135 = some 0x5C ∧ reply 136 = some 0x5D
  good : reply 137 = some 0x47

/-- The data loop of a write, from position `m` of a sequence that has the data there. -/
theorem run_sendBytes (dev : Peer σ UInt8) (bus : Bus σ UInt8) (send : Nat → UInt8)
    (buf : List UInt8) (m : Nat) (hsend : ∀ i < buf.length, buf.getD i 0 = send (m + i))
    (cs : UInt8) :
    (sendBytes dev buf cs).run (bus.sends dev send m) =
      (some (buf.foldl (· ^^^ ·) cs), bus.sends dev send (m + buf.length)) := by
  induction buf generalizing m cs with
  | nil => rfl
  | cons byte buf ih =>
    have hbyte : byte = send m := hsend 0 (Nat.succ_pos _)
    rw [sendBytes, sio0Xfer_bind dev bus send m (m + 1) byte rfl hbyte, ih (m + 1)]
    · rw [List.foldl_cons, List.length_cons, show m + 1 + buf.length = m + (buf.length + 1) by
        omega]
    · intro i hi
      have h := hsend (i + 1) (Nat.succ_lt_succ hi)
      rw [show m + (i + 1) = m + 1 + i by omega] at h
      exact h

/-- **The polled write** succeeds on the replies of a write, and on no others. -/
theorem memcardWriteBlock_iff (dev : Peer σ UInt8) (slot : Nat) (block : UInt16)
    {buf : List UInt8} (hbuf : buf.length = 128) (bus bus' : Bus σ UInt8) (r : Unit) :
    (memcardWriteBlock dev slot block buf).run bus = (some r, bus') ↔
      WriteReplies (bus.reply dev (writeScript (mcFloor slot) block buf).send) ∧
        bus' = bus.sends dev (writeScript (mcFloor slot) block buf).send 138 := by
  have hx := @sio0Xfer_bind σ dev bus (writeScript (mcFloor slot) block buf).send
  have hdata : ∀ i < buf.length,
      buf.getD i 0 = (writeScript (mcFloor slot) block buf).send (6 + i) := by
    intro i hi
    have hsub : 6 + i - 6 = i := Nat.add_sub_cancel_left 6 i
    simp [writeScript, show 6 + i ≠ 1 by omega, show 6 + i ≠ 4 by omega,
      show 6 + i ≠ 5 by omega, show 6 + i < 134 by omega, hsub]
  have hsum : (msb block ^^^ lsb block) = lsb block ^^^ msb block := UInt8.xor_comm _ _
  have htail : ∀ i, (writeScript (mcFloor slot) block buf).send (135 + i) = 0 := by
    intro i
    simp [writeScript, show 135 + i ≠ 1 by omega, show 135 + i ≠ 4 by omega,
      show 135 + i ≠ 5 by omega, show ¬ 135 + i < 134 by omega, show 135 + i ≠ 134 by omega]
  have h134 : checksum block buf = (writeScript (mcFloor slot) block buf).send 134 := by
    simp [writeScript]
  show (memcardWriteBlock dev slot block buf).run
    (bus.sends dev (writeScript (mcFloor slot) block buf).send 0) = _ ↔ _
  unfold memcardWriteBlock
  rw [hx 0 1 (mcAddr slot) rfl rfl, ensure_bind_iff, hx 1 2 mcCmdWrite rfl rfl,
    hx 2 3 0 rfl rfl, ensure_bind_iff, hx 3 4 0 rfl rfl, ensure_bind_iff,
    hx 4 5 (msb block) rfl rfl, hx 5 6 (lsb block) rfl rfl, bind_eq_some_iff,
    run_sendBytes dev bus _ buf 6 hdata, hbuf, hsum]
  simp only [beq_iff_eq]
  have hrest : ∀ (bus₁ : Bus σ UInt8),
      (do
        let _ ← sio0Xfer dev (checksum block buf)
        let rx ← sio0Xfer dev 0
        ensure (rx == some 0x5C)
        let rx ← sio0Xfer dev 0
        ensure (rx == some 0x5D)
        let rx ← sio0Xfer dev 0
        ensure (rx == some 0x47)).run
          (bus.sends dev (writeScript (mcFloor slot) block buf).send 134) = (some r, bus₁) ↔
      bus.reply dev (writeScript (mcFloor slot) block buf).send 135 = some 0x5C ∧
        bus.reply dev (writeScript (mcFloor slot) block buf).send 136 = some 0x5D ∧
        bus.reply dev (writeScript (mcFloor slot) block buf).send 137 = some 0x47 ∧
        bus₁ = bus.sends dev (writeScript (mcFloor slot) block buf).send 138 := by
    intro bus₁
    rw [hx 134 135 _ rfl h134, hx 135 136 0 rfl (htail 0).symm, ensure_bind_iff,
      hx 136 137 0 rfl (htail 1).symm, ensure_bind_iff, hx 137 138 0 rfl (htail 2).symm,
      ensure_eq_some_iff]
    simp only [beq_iff_eq]
  constructor
  · rintro ⟨h₀, h₂, h₃, cs, bus₁, hrun, h⟩
    rw [Prod.mk.injEq, Option.some.injEq] at hrun
    obtain ⟨rfl, rfl⟩ := hrun
    obtain ⟨h₅, h₆, h₇, rfl⟩ := (hrest bus').mp h
    exact ⟨⟨h₀, ⟨h₂, h₃⟩, ⟨h₅, h₆⟩, h₇⟩, rfl⟩
  · rintro ⟨h, rfl⟩
    exact ⟨h.selected, h.id.1, h.id.2, _, _, rfl,
      (hrest _).mpr ⟨h.ack.1, h.ack.2, h.good, rfl⟩⟩

/-! ## The readers agree -/

/-- What the data register shows to an interrupt-driven transfer: the byte left in it,
then the replies, each one call late. -/
def registerBytes (stale : UInt8) (answers : Nat → UInt8) : Nat → UInt8
  | 0 => stale
  | n + 1 => answers n

/-- The data bytes of a read are the replies from the eleventh on. -/
theorem readData_registerBytes (stale : UInt8) (answers : Nat → UInt8) {n : Nat}
    (hn : 139 ≤ n) :
    readData ((List.range n).map (registerBytes stale answers)) =
      (List.range buBlkSize).map fun i => answers (10 + i) := by
  have hblk : buBlkSize = 128 := rfl
  refine List.ext_getElem (by simp [readData]; omega) fun i h₁ h₂ => ?_
  simp only [readData, List.getElem_take, List.getElem_drop, List.getElem_map,
    List.getElem_range]
  rw [show 11 + i = 10 + i + 1 by omega]
  rfl

/-- The script of the state machine asks for the replies the polled read asks for. -/
theorem acceptsFrom_read_iff (floor : Nat) (block : UInt16) (stale : UInt8)
    (answers : Nat → UInt8) :
    AcceptsFrom (readScript floor block) readLength (registerBytes stale answers) 1 ↔
      ReadReplies (fun i => some (answers i)) block
        ((List.range buBlkSize).map fun i => answers (10 + i)) := by
  constructor
  · intro h
    have h' : ∀ i, 0 < i → i < 141 → (readScript floor block).accept
        ((List.range i).map (registerBytes stale answers)) (registerBytes stale answers i) =
          true := fun i h₁ h₂ => h i h₁ h₂
    have h3 := h' 3 (by omega) (by omega)
    have h4 := h' 4 (by omega) (by omega)
    have h7 := h' 7 (by omega) (by omega)
    have h8 := h' 8 (by omega) (by omega)
    have h9 := h' 9 (by omega) (by omega)
    have h10 := h' 10 (by omega) (by omega)
    have h139 := h' 139 (by omega) (by omega)
    have h140 := h' 140 (by omega) (by omega)
    simp only [readScript, List.length_map, List.length_range, registerBytes, beq_iff_eq]
      at h3 h4 h7 h8 h9 h10 h139 h140
    rw [readData_registerBytes stale answers (le_refl 139)] at h139
    exact ⟨rfl, ⟨by rw [h3], by rw [h4]⟩, ⟨by rw [h7], by rw [h8]⟩, ⟨by rw [h9], by rw [h10]⟩,
      fun _ _ => rfl, rfl, by rw [h139], by rw [h140]⟩
  · rintro ⟨-, ⟨h2, h3⟩, ⟨h6, h7⟩, ⟨h8, h9⟩, -, -, h138, h139⟩ i h₁ h₂
    simp only [Option.some.injEq] at h2 h3 h6 h7 h8 h9 h138 h139
    simp only [readScript, List.length_map, List.length_range]
    split
    · simp [registerBytes, h2]
    · simp [registerBytes, h3]
    · simp [registerBytes, h6]
    · simp [registerBytes, h7]
    · simp [registerBytes, h8]
    · simp [registerBytes, h9]
    · rw [readData_registerBytes stale answers (le_refl 139)]
      simp [registerBytes, h138]
    · simp [registerBytes, h139]
    · rfl

/-- The script of a write accepts the replies of a write. -/
theorem acceptsFrom_write (floor : Nat) (block : UInt16) (data : List UInt8) (stale : UInt8)
    {answers : Nat → UInt8} (h : WriteReplies fun i => some (answers i)) :
    AcceptsFrom (writeScript floor block data) writeLength (registerBytes stale answers) 1 := by
  obtain ⟨-, ⟨h2, h3⟩, ⟨h135, -⟩, h137⟩ := h
  simp only [Option.some.injEq] at h2 h3 h135 h137
  intro i h₁ h₂
  simp only [writeScript, List.length_map, List.length_range]
  split
  · simp [registerBytes, h2]
  · simp [registerBytes, h3]
  · simp [registerBytes, h135]
  · simp [registerBytes, h137]
  · rfl

/-- An interrupt-driven read and a polled one treat a card alike. -/
structure ReadersAgree (fsm : Option (Bu × Bus σ UInt8))
    (polled : Option (List UInt8) × Bus σ UInt8) : Prop where
  accept : fsm.isSome = true ↔ polled.1.isSome = true
  deliver : ∀ bu bus buf, fsm = some (bu, bus) → polled.1 = some buf →
    bu.request.buffer = buf ∧ buf.length = buBlkSize ∧ bus.sent = polled.2.sent ++ [0]

/-- The bus before a read, with a byte left in the data register. -/
def quietBus (stale : UInt8) : Bus Nat UInt8 := ⟨0, some stale, []⟩

theorem shows_replay (answers : Nat → UInt8) (stale : UInt8) (script : Script UInt8) (len : Nat) :
    Shows (replay answers) (quietBus stale) script len (registerBytes stale answers) := by
  intro n _
  cases n with
  | zero => rfl
  | succ n =>
    have h := reply_replay answers (quietBus stale) script.send n
    rw [show (quietBus stale).peer + n = n from Nat.zero_add n] at h
    exact h

theorem mcFloor_mcVisibleSlots (card : Slot) : mcFloor (mcVisibleSlots card) = buFloor card := by
  fin_cases card <;> rfl

/-- **The two readers agree.**  On every sequence of replies the state machine accepts
a read exactly when `memcard_read_block` does; then both deliver the same 128 bytes,
and the state machine has sent the bytes of the polled read and one more zero. -/
theorem readers_agree (answers : Nat → UInt8) (stale : UInt8) {card : Slot} {block : UInt16}
    {bu : Bu} (haimed : Aimed modeRead card block bu) (hbuf : bu.request.buffer.length = 128)
    (extra : Nat) :
    ReadersAgree (buStart (replay answers) (readLength - 1 + extra) bu (quietBus stale))
      ((memcardReadBlock (replay answers) (mcVisibleSlots card) block).run (quietBus stale)) := by
  have htracks := readAt_tracks card block
  have hstart := readAt_start haimed hbuf
  have hshows := shows_replay answers stale (readScript (buFloor card) block) readLength
  have hreply : (quietBus stale).reply (replay answers)
      (readScript (mcFloor (mcVisibleSlots card)) block).send = fun i => some (answers i) := by
    funext i
    rw [reply_replay, show (quietBus stale).peer + i = i from Nat.zero_add i]
  have hpolled := fun buf bus' => memcardReadBlock_iff (replay answers) (mcVisibleSlots card)
    block (quietBus stale) buf bus'
  rw [hreply, mcFloor_mcVisibleSlots] at hpolled
  by_cases hacc : AcceptsFrom (readScript (buFloor card) block) readLength
      (registerBytes stale answers) 1
  · obtain ⟨bu', w', hrun, hdone, hseen⟩ := htracks.start_completes hstart hshows rfl (by decide)
      hacc extra
    have hread := (hpolled _ _).mpr ⟨(acceptsFrom_read_iff _ _ _ _).mp hacc, rfl⟩
    rw [hrun, hread]
    refine ⟨by simp, ?_⟩
    rintro bu bus buf hfsm hbuf'
    simp only [Option.some.injEq, Prod.mk.injEq] at hfsm hbuf'
    obtain ⟨rfl, rfl⟩ := hfsm
    subst hbuf'
    refine ⟨?_, by simp, ?_⟩
    · rw [hdone.data, hseen, readData_registerBytes stale answers (by decide)]
    · show (Bus.sends _ _ _ _).sent = (Bus.sends _ _ _ _).sent ++ _
      rw [Bus.sent_sends, Bus.sent_sends, List.append_assoc,
        show readLength = 140 + 1 from rfl, List.range_succ, List.map_append]
      rfl
  · have hgive := htracks.start_gives_up hstart hshows rfl (by decide) hacc
      (readLength - 1 + extra)
    have hread : ∀ buf bus', (memcardReadBlock (replay answers) (mcVisibleSlots card) block).run
        (quietBus stale) ≠ (some buf, bus') := by
      intro buf bus' h
      obtain ⟨hreplies, -⟩ := (hpolled buf bus').mp h
      have hbuf' := hreplies.buf_eq
      simp only [Option.getD_some] at hbuf'
      rw [hbuf'] at hreplies
      exact hacc ((acceptsFrom_read_iff _ _ _ _).mpr hreplies)
    rw [hgive]
    cases hres : (memcardReadBlock (replay answers) (mcVisibleSlots card) block).run
        (quietBus stale) with
    | mk o bus' =>
      cases o with
      | none => exact ⟨by simp, fun _ _ _ h => absurd h (by simp)⟩
      | some buf => exact absurd hres (hread buf bus')

/-- The replies of a card whose block 0 is empty. -/
def emptyCardAnswers (i : Nat) : UInt8 :=
  match i with
  | 2 => 0x5A
  | 3 => 0x5D
  | 6 => 0x5C
  | 7 => 0x5D
  | 139 => 0x47
  | _ => 0

/-- A read of block 0 in the first slot. -/
def firstBlockRead : Bu :=
  ⟨⟨0, 0, 0, List.replicate 128 0xFF, modeRead⟩, 0, 0, 0, false, 0, 0⟩

theorem readers_agree_emptyCard :
    Aimed modeRead 0 0 firstBlockRead ∧ firstBlockRead.request.buffer.length = 128 ∧
      ReadersAgree
        (buStart (replay emptyCardAnswers) (readLength - 1 + 0) firstBlockRead (quietBus 0xFF))
        ((memcardReadBlock (replay emptyCardAnswers) (mcVisibleSlots 0) 0).run
          (quietBus 0xFF)) := by
  have haimed : Aimed modeRead 0 0 firstBlockRead := ⟨rfl, rfl, rfl, rfl⟩
  have hbuf : firstBlockRead.request.buffer.length = 128 := List.length_replicate
  exact ⟨haimed, hbuf, readers_agree emptyCardAnswers 0xFF haimed hbuf 0⟩

end MemoryCard
end Blackroo
