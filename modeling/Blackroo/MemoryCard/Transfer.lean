import Mathlib.Algebra.Order.Ring.Int
import Blackroo.MemoryCard.Basic
import Blackroo.Lib.SerialBus

/-!
# One transfer of a card block

`bu_rd_routine` drives a transfer from the acknowledge interrupt: the handler of the
current state reads the byte the card sent, sends the next one, and says how the
state moves on.  `bu_rd_states` has the handlers of a read from entry 0 and those of
a write from entry 16, with a gap between them that must never be called.

What the bytes on the bus should be is said separately, as two scripts: the read
protocol with its identification bytes, the echo of the address, 128 data bytes, the
checksum and the end byte, and the write protocol.  The state machine is then shown
to track its script, whatever the card replies: it sends the script's bytes, gives up
exactly where the script refuses a reply, and stops only at the script's end
(`readAt_tracks`, `writeAt_tracks`).
-/

namespace Blackroo
namespace MemoryCard

open Dialogue

/-! ## The state machine -/

/-- `bu_request_t`: the parameters of a transfer. -/
structure BuRequest where
  floor : Nat
  block : UInt16
  card : Slot
  buffer : List UInt8
  mode : UInt8

/-- `bu_t`: the transfer in progress. -/
structure Bu where
  request : BuRequest
  cs : UInt8
  cnt : Nat
  state : Nat
  stop : Bool
  hwState : UInt8
  byte : UInt8

/-- What the hardware gives a handler: the byte in `BU_DATA`, and for the last state
whether `BU_STATUS` becomes ready in time, and the byte after that. -/
structure CardInput where
  byte : UInt8
  ready : Bool
  next : UInt8

/-- What a handler did: its status, and the bytes it exchanged. -/
structure Outcome where
  status : Int
  bu : Bu
  wire : List (Exchange UInt8)

abbrev Handler : Type := Bu → CardInput → Outcome

/-- `'R'` and `'W'`. -/
def modeRead : UInt8 := 0x52

def modeWrite : UInt8 := 0x57

/-- The two bytes of a block number. -/
def msb (block : UInt16) : UInt8 := (block >>> 8).toUInt8

def lsb (block : UInt16) : UInt8 := block.toUInt8

/-- A handler that keeps the byte it reads, sends one, and goes on if it likes what it
read. -/
def exchange (check : UInt8 → Bool) (send : UInt8) : Handler := fun bu input =>
  ⟨if check input.byte then 1 else -1, { bu with byte := input.byte }, [⟨input.byte, send⟩]⟩

def buRdState0 : Handler := fun bu =>
  exchange (fun _ => true) (UInt8.ofNat (0x81 + bu.request.floor)) bu

def buRdState1 : Handler := fun bu => exchange (fun _ => true) bu.request.mode bu

def buRdState2 : Handler := fun bu input =>
  let o := exchange (fun _ => true) 0 bu input
  { o with bu := { o.bu with hwState := o.bu.byte } }

def buRdState3 : Handler := exchange (· == 0x5a) 0

def buRdState4 : Handler := fun bu => exchange (· == 0x5d) (msb bu.request.block) bu

def buRdState5 : Handler := fun bu => exchange (fun _ => true) (lsb bu.request.block) bu

def buRdState6 : Handler := exchange (fun _ => true) 0

def buRdState7 : Handler := exchange (· == 0x5c) 0

def buRdState8 : Handler := exchange (· == 0x5d) 0

def buRdState9 : Handler := fun bu => exchange (· == msb bu.request.block) 0 bu

def buRdState10 : Handler := fun bu => exchange (· == lsb bu.request.block) 0 bu

/-- The end of both transfers: the checksum, read only in a read, then the end byte. -/
def buRdState12 : Handler := fun bu input =>
  let wire := [⟨input.byte, 0⟩]
  let bu := { bu with byte := input.byte }
  if bu.request.mode = modeRead ∧ input.byte ≠ bu.cs then ⟨-1, bu, wire⟩
  else if !input.ready then ⟨-1, bu, wire⟩
  else
    let wire := wire ++ [⟨input.next, 0⟩]
    let bu := { bu with byte := input.next }
    if input.next = 0x47 then ⟨1, { bu with stop := true }, wire⟩ else ⟨-1, bu, wire⟩

def buWrState7 : Handler := fun bu input => ⟨1, bu, [⟨input.byte, bu.cs⟩]⟩

def buRdData : Handler := fun bu input =>
  ⟨if bu.cnt + 1 = buBlkSize then 1 else 0,
    { bu with
      request := { bu.request with buffer := bu.request.buffer.set bu.cnt input.byte }
      cs := bu.cs ^^^ input.byte
      cnt := bu.cnt + 1 },
    [⟨input.byte, 0⟩]⟩

def buWrData : Handler := fun bu input =>
  let byte := bu.request.buffer.getD bu.cnt 0
  ⟨if bu.cnt + 1 = buBlkSize then 1 else 0,
    { bu with cs := bu.cs ^^^ byte, cnt := bu.cnt + 1 },
    [⟨input.byte, byte⟩]⟩

/-- `bu_rd_states`. -/
def buRdStates : List (Option Handler) :=
  [some buRdState0, some buRdState1, some buRdState2, some buRdState3, some buRdState4,
    some buRdState5, some buRdState6, some buRdState7, some buRdState8, some buRdState9,
    some buRdState10, some buRdData, some buRdState12, none, none, none,
    some buRdState0, some buRdState1, some buRdState2, some buRdState3, some buRdState4,
    some buRdState5, some buWrData, some buWrState7, some buRdState6, some buRdState7,
    some buRdState12]

/-- `bu_rd_routine`; `none` is a call through an entry that holds no handler. -/
def buRdRoutine (bu : Bu) (input : CardInput) : Option Outcome :=
  match buRdStates.getD bu.state none with
  | none => none
  | some handler =>
    let o := handler bu input
    if o.status < 0 then some { o with status := -1 }
    else some { o with status := 0, bu := { o.bu with state := o.bu.state + o.status.toNat } }

/-- `bu_sw_init`: `none` for an unknown mode. -/
def buSwInit (bu : Bu) : Option Bu :=
  let bu := { bu with cnt := 0, stop := false, cs := lsb bu.request.block ^^^ msb bu.request.block }
  if bu.request.mode = modeRead then some { bu with state := 0 }
  else if bu.request.mode = modeWrite then some { bu with state := 0x10 }
  else none

/-! ## The protocols -/

/-- The checksum of a block: its address and its data. -/
def checksum (block : UInt16) (data : List UInt8) : UInt8 :=
  data.foldl (· ^^^ ·) (lsb block ^^^ msb block)

/-- The data bytes among the replies of a read. -/
def readData (replies : List UInt8) : List UInt8 := (replies.drop 11).take buBlkSize

/-- The read protocol of a card block. -/
def readScript (floor : Nat) (block : UInt16) : Script UInt8 where
  send := fun i =>
    if i = 0 then UInt8.ofNat (0x81 + floor)
    else if i = 1 then modeRead
    else if i = 4 then msb block
    else if i = 5 then lsb block
    else 0
  accept := fun replies rx =>
    match replies.length with
    | 3 => rx == 0x5a
    | 4 => rx == 0x5d
    | 7 => rx == 0x5c
    | 8 => rx == 0x5d
    | 9 => rx == msb block
    | 10 => rx == lsb block
    | 139 => rx == checksum block (readData replies)
    | 140 => rx == 0x47
    | _ => true

/-- The exchanges of a complete read. -/
def readLength : Nat := 141

/-- The write protocol of a card block with these data. -/
def writeScript (floor : Nat) (block : UInt16) (data : List UInt8) : Script UInt8 where
  send := fun i =>
    if i = 0 then UInt8.ofNat (0x81 + floor)
    else if i = 1 then modeWrite
    else if i = 4 then msb block
    else if i = 5 then lsb block
    else if 6 ≤ i ∧ i < 134 then data.getD (i - 6) 0
    else if i = 134 then checksum block data
    else 0
  accept := fun replies rx =>
    match replies.length with
    | 3 => rx == 0x5a
    | 4 => rx == 0x5d
    | 136 => rx == 0x5c
    | 138 => rx == 0x47
    | _ => true

/-- The exchanges of a complete write. -/
def writeLength : Nat := 139

/-! ## The state machine follows the protocols -/

/-- The parameters of a transfer, apart from its data. -/
structure Aimed (mode : UInt8) (card : Slot) (block : UInt16) (bu : Bu) : Prop where
  mode_eq : bu.request.mode = mode
  card_eq : bu.request.card = card
  floor_eq : bu.request.floor = buFloor card
  block_eq : bu.request.block = block

/-- A read in progress that has followed its protocol so far. -/
structure ReadAt (card : Slot) (block : UInt16) (bu : Bu) (w : List (Exchange UInt8)) : Prop where
  aimed : Aimed modeRead card block bu
  running : bu.stop = false
  follows : Follows (readScript (buFloor card) block) w
  place : (1 ≤ bu.state ∧ bu.state ≤ 10 ∧ bu.cnt = 0 ∧ w.length = bu.state) ∨
    (bu.state = 11 ∧ bu.cnt < 128 ∧ w.length = 11 + bu.cnt) ∨
    (bu.state = 12 ∧ bu.cnt = 128 ∧ w.length = 139)
  length_buffer : bu.request.buffer.length = 128
  data : bu.request.buffer.take bu.cnt = (received w).drop 11
  cs : bu.cs = checksum block ((received w).drop 11)

/-- A read the card has completed and the driver accepts. -/
structure ReadDone (card : Slot) (block : UInt16) (buffer : List UInt8)
    (w : List (Exchange UInt8)) : Prop where
  follows : Follows (readScript (buFloor card) block) w
  complete : w.length = readLength
  data : buffer = readData (received w)

/-- A write in progress that has followed its protocol so far. -/
structure WriteAt (card : Slot) (block : UInt16) (data : List UInt8) (bu : Bu)
    (w : List (Exchange UInt8)) : Prop where
  aimed : Aimed modeWrite card block bu
  running : bu.stop = false
  follows : Follows (writeScript (buFloor card) block data) w
  place : (17 ≤ bu.state ∧ bu.state ≤ 21 ∧ bu.cnt = 0 ∧ bu.state = 16 + w.length) ∨
    (bu.state = 22 ∧ bu.cnt < 128 ∧ w.length = 6 + bu.cnt) ∨
    (23 ≤ bu.state ∧ bu.state ≤ 26 ∧ bu.cnt = 128 ∧ w.length = bu.state + 111)
  length_buffer : bu.request.buffer.length = 128
  buffer : bu.request.buffer = data
  cs : bu.cs = checksum block (data.take bu.cnt)

/-- A write the card has completed and the driver accepts. -/
structure WriteDone (card : Slot) (block : UInt16) (data : List UInt8)
    (w : List (Exchange UInt8)) : Prop where
  follows : Follows (writeScript (buFloor card) block data) w
  complete : w.length = writeLength

theorem checksum_append (block : UInt16) (data : List UInt8) (b : UInt8) :
    checksum block (data ++ [b]) = checksum block data ^^^ b := by
  rw [checksum, List.foldl_append]
  rfl

theorem buRdRoutine_go {bu : Bu} {input : CardInput} {handler : Handler}
    (htable : buRdStates.getD bu.state none = some handler)
    (hstatus : 0 ≤ (handler bu input).status) :
    buRdRoutine bu input = some
      ⟨0, { (handler bu input).bu with
            state := (handler bu input).bu.state + (handler bu input).status.toNat },
        (handler bu input).wire⟩ := by
  unfold buRdRoutine
  rw [htable]
  exact if_neg (Int.not_lt.mpr hstatus)

theorem buRdRoutine_fail {bu : Bu} {input : CardInput} {handler : Handler}
    (htable : buRdStates.getD bu.state none = some handler)
    (hstatus : (handler bu input).status < 0) :
    ∃ o, buRdRoutine bu input = some o ∧ o.status = -1 := by
  unfold buRdRoutine
  rw [htable]
  exact ⟨_, if_pos hstatus, rfl⟩

/-- The parameters of a transfer are not touched by its handlers. -/
structure Keeps (bu bu' : Bu) : Prop where
  mode : bu'.request.mode = bu.request.mode
  card : bu'.request.card = bu.request.card
  floor : bu'.request.floor = bu.request.floor
  block : bu'.request.block = bu.request.block
  length_buffer : bu'.request.buffer.length = bu.request.buffer.length

/-- What a handler may do: it keeps the target and exchanges a byte. -/
def Handles (bu : Bu) (o : Outcome) : Prop := Keeps bu o.bu ∧ o.wire ≠ []

theorem handles_exchange (check : UInt8 → Bool) (send : UInt8) (bu : Bu) (input : CardInput) :
    Handles bu (exchange check send bu input) := ⟨⟨rfl, rfl, rfl, rfl, rfl⟩, List.cons_ne_nil _ _⟩

theorem handles_buRdState12 (bu : Bu) (input : CardInput) : Handles bu (buRdState12 bu input) := by
  unfold buRdState12
  simp only
  split
  · exact ⟨⟨rfl, rfl, rfl, rfl, rfl⟩, List.cons_ne_nil _ _⟩
  · split
    · exact ⟨⟨rfl, rfl, rfl, rfl, rfl⟩, List.cons_ne_nil _ _⟩
    · split <;> exact ⟨⟨rfl, rfl, rfl, rfl, rfl⟩, List.cons_ne_nil _ _⟩

theorem handles_of_mem {handler : Handler} (h : some handler ∈ buRdStates) (bu : Bu)
    (input : CardInput) : Handles bu (handler bu input) := by
  have hdata : Handles bu (buRdData bu input) :=
    ⟨⟨rfl, rfl, rfl, rfl, List.length_set⟩, List.cons_ne_nil _ _⟩
  simp only [buRdStates, List.mem_cons, Option.some.injEq, List.not_mem_nil, or_false,
    reduceCtorEq, false_or] at h
  rcases h with rfl | rfl | rfl | rfl | rfl | rfl | rfl | rfl | rfl | rfl | rfl | rfl | rfl | rfl |
    rfl | rfl | rfl | rfl | rfl | rfl | rfl | rfl | rfl | rfl
  all_goals first
    | exact handles_exchange _ _ bu input
    | exact hdata
    | exact handles_buRdState12 bu input
    | exact ⟨⟨rfl, rfl, rfl, rfl, rfl⟩, List.cons_ne_nil _ _⟩

/-- What a call of `bu_rd_routine` does, it does with a handler of the table. -/
theorem exists_handler_of_buRdRoutine {bu : Bu} {input : CardInput} {o : Outcome}
    (h : buRdRoutine bu input = some o) :
    ∃ handler, some handler ∈ buRdStates ∧ o.wire = (handler bu input).wire ∧
      o.bu.request = (handler bu input).bu.request := by
  unfold buRdRoutine at h
  cases htable : buRdStates.getD bu.state none with
  | none =>
    rw [htable] at h
    exact absurd h (Option.some_ne_none o).symm
  | some handler =>
    have hmem : some handler ∈ buRdStates := by
      rw [List.getD_eq_getElem?_getD] at htable
      cases hget : buRdStates[bu.state]? with
      | none => simp [hget] at htable
      | some e =>
        rw [hget] at htable
        obtain rfl : e = some handler := htable
        exact List.mem_of_getElem? hget
    refine ⟨handler, hmem, ?_⟩
    simp only [htable] at h
    split at h
    · obtain rfl := Option.some.inj h
      exact ⟨rfl, rfl⟩
    · obtain rfl := Option.some.inj h
      exact ⟨rfl, rfl⟩

/-- **A transfer keeps its target.** -/
theorem buRdRoutine_keeps {bu : Bu} {input : CardInput} {o : Outcome}
    (h : buRdRoutine bu input = some o) : Keeps bu o.bu := by
  obtain ⟨handler, hmem, -, hreq⟩ := exists_handler_of_buRdRoutine h
  obtain ⟨h₁, h₂, h₃, h₄, h₅⟩ := (handles_of_mem hmem bu input).1
  refine ⟨?_, ?_, ?_, ?_, ?_⟩ <;> rw [hreq]
  exacts [h₁, h₂, h₃, h₄, h₅]

theorem buRdRoutine_wire {bu : Bu} {input : CardInput} {o : Outcome}
    (h : buRdRoutine bu input = some o) : 0 < o.wire.length := by
  obtain ⟨handler, hmem, hwire, -⟩ := exists_handler_of_buRdRoutine h
  rw [hwire]
  exact List.length_pos_iff.mpr (handles_of_mem hmem bu input).2

/-! ## Machines that track a script

Both transfers are one call of `bu_rd_routine` per exchange, except that the last
call makes the last two.  `Tracks` says that each call does what the script says of
the byte it reads, and no more. -/

section Tracks

/-- A call before the end of a script: it sends the script's byte and goes on if the
script accepts the byte it read, and gives up if not. -/
structure Advances (script : Script UInt8) (At : Bu → List (Exchange UInt8) → Prop)
    (w : List (Exchange UInt8)) (input : CardInput) (o : Outcome) : Prop where
  accepted : script.accept (received w) input.byte = true →
    o.status = 0 ∧ o.wire = [⟨input.byte, script.send w.length⟩] ∧ At o.bu (w ++ o.wire)
  refused : script.accept (received w) input.byte = false → o.status = -1

/-- The script accepts the last two bytes of a transfer, and the second one comes in
time. -/
def EndsWell (script : Script UInt8) (w : List (Exchange UInt8)) (input : CardInput) : Prop :=
  script.accept (received w) input.byte = true ∧ input.ready = true ∧
    script.accept (received w ++ [input.byte]) input.next = true

/-- The call that ends a script. -/
structure Ends (script : Script UInt8) (Done : Bu → List (Exchange UInt8) → Prop)
    (w : List (Exchange UInt8)) (input : CardInput) (o : Outcome) : Prop where
  accepted : EndsWell script w input →
    o.status = 0 ∧ o.bu.stop = true ∧
      o.wire = [⟨input.byte, script.send w.length⟩, ⟨input.next, script.send (w.length + 1)⟩] ∧
      Done o.bu (w ++ o.wire)
  refused : ¬ EndsWell script w input → o.status = -1

/-- The two exchanges that end a script follow it. -/
theorem EndsWell.follows {script : Script UInt8} {w : List (Exchange UInt8)} {input : CardInput}
    (h : EndsWell script w input) (hw : Follows script w) :
    Follows script (w ++ [⟨input.byte, script.send w.length⟩,
      ⟨input.next, script.send (w.length + 1)⟩]) := by
  have hfirst : Follows script (w ++ [⟨input.byte, script.send w.length⟩]) := hw.snoc rfl h.1
  rw [List.append_cons]
  refine hfirst.snoc (by rw [List.length_append]; rfl) ?_
  rw [received_append]
  exact h.2.2

section Call

variable {script : Script UInt8} {At Done : Bu → List (Exchange UInt8) → Prop} {bu : Bu}
  {w : List (Exchange UInt8)} {input : CardInput} {handler : Handler}
  (htable : buRdStates.getD bu.state none = some handler)

include htable

theorem exists_advances_of_accepted (hgo : 0 ≤ (handler bu input).status)
    (hacc : script.accept (received w) input.byte = true)
    (hwire : (handler bu input).wire = [⟨input.byte, script.send w.length⟩])
    (hat : At { (handler bu input).bu with
        state := (handler bu input).bu.state + (handler bu input).status.toNat }
      (w ++ (handler bu input).wire)) :
    ∃ o, buRdRoutine bu input = some o ∧ Advances script At w input o :=
  ⟨_, buRdRoutine_go htable hgo, fun _ => ⟨rfl, hwire, hat⟩,
    fun hno => absurd (hacc.symm.trans hno) (by decide)⟩

theorem exists_advances_of_refused (hfail : (handler bu input).status < 0)
    (hacc : ¬script.accept (received w) input.byte = true) :
    ∃ o, buRdRoutine bu input = some o ∧ Advances script At w input o := by
  obtain ⟨o, ho, hst⟩ := buRdRoutine_fail htable hfail
  exact ⟨o, ho, fun hyes => absurd hyes hacc, fun _ => hst⟩

theorem exists_ends_of_refused (hfail : (handler bu input).status < 0)
    (hill : ¬EndsWell script w input) :
    ∃ o, buRdRoutine bu input = some o ∧ Ends script Done w input o := by
  obtain ⟨o, ho, hst⟩ := buRdRoutine_fail htable hfail
  exact ⟨o, ho, fun hwell => absurd hwell hill, fun _ => hst⟩

end Call

/-- A state machine that makes the `len` exchanges of a script. -/
structure Tracks (script : Script UInt8) (len : Nat)
    (At Done : Bu → List (Exchange UInt8) → Prop) : Prop where
  running : ∀ {bu w}, At bu w → bu.stop = false
  bounded : ∀ {bu w}, At bu w → w.length + 2 ≤ len
  middle : ∀ {bu w}, At bu w → w.length + 2 < len → ∀ input,
    ∃ o, buRdRoutine bu input = some o ∧ Advances script At w input o
  last : ∀ {bu w}, At bu w → w.length + 2 = len → ∀ input,
    ∃ o, buRdRoutine bu input = some o ∧ Ends script Done w input o

/-- `bu_sw_init` prepares a transfer whose first call sends the first byte of the
script. -/
def Starts (script : Script UInt8) (At : Bu → List (Exchange UInt8) → Prop) (bu : Bu) : Prop :=
  ∃ bu', buSwInit bu = some bu' ∧ ∀ input, ∃ o, buRdRoutine bu' input = some o ∧
    o.status = 0 ∧ o.wire = [⟨input.byte, script.send 0⟩] ∧ At o.bu o.wire

/-- A step of a transfer: it gives up, goes on along the protocol, or is done. -/
theorem Tracks.routine {script : Script UInt8} {len : Nat}
    {At Done : Bu → List (Exchange UInt8) → Prop} (ht : Tracks script len At Done) {bu : Bu}
    {w : List (Exchange UInt8)} (h : At bu w) (input : CardInput) :
    ∃ o, buRdRoutine bu input = some o ∧
      (o.status = -1 ∨
        o.status = 0 ∧ o.bu.stop = false ∧ At o.bu (w ++ o.wire) ∨
        o.status = 0 ∧ o.bu.stop = true ∧ Done o.bu (w ++ o.wire)) := by
  rcases Nat.lt_or_eq_of_le (ht.bounded h) with hlt | heq
  · obtain ⟨o, ho, hadv⟩ := ht.middle h hlt input
    cases hacc : script.accept (received w) input.byte with
    | true =>
      obtain ⟨hst, -, hat⟩ := hadv.accepted hacc
      exact ⟨o, ho, .inr (.inl ⟨hst, ht.running hat, hat⟩)⟩
    | false => exact ⟨o, ho, .inl (hadv.refused hacc)⟩
  · obtain ⟨o, ho, hends⟩ := ht.last h heq input
    by_cases hgood : EndsWell script w input
    · obtain ⟨hst, hstop, -, hdone⟩ := hends.accepted hgood
      exact ⟨o, ho, .inr (.inr ⟨hst, hstop, hdone⟩)⟩
    · exact ⟨o, ho, .inl (hends.refused hgood)⟩

end Tracks

section Read

variable {card : Slot} {block : UInt16} {bu : Bu} {w : List (Exchange UInt8)}

theorem ReadAt.length_wire_le (h : ReadAt card block bu w) : w.length ≤ 139 := by
  rcases h.place with ⟨-, hs, -, hlen⟩ | ⟨-, hcnt, hlen⟩ | ⟨-, -, hlen⟩ <;> omega

/-- A state before the data that accepts the reply. -/
theorem ReadAt.next (h : ReadAt card block bu w) (hlen : w.length = bu.state) (h₂ : bu.state ≤ 10)
    {bu' : Bu} {rx tx : UInt8} (hreq : bu'.request = bu.request) (hcs : bu'.cs = bu.cs)
    (hcnt : bu'.cnt = bu.cnt) (hstop : bu'.stop = bu.stop) (hstate : bu'.state = bu.state + 1)
    (hsend : tx = (readScript (buFloor card) block).send bu.state)
    (haccept : (readScript (buFloor card) block).accept (received w) rx = true) :
    ReadAt card block bu' (w ++ [⟨rx, tx⟩]) := by
  have hzero : bu.cnt = 0 := by
    rcases h.place with hp | hp | hp <;> omega
  have hold : (received w).drop 11 = [] := List.drop_eq_nil_of_le (by simp; omega)
  have hnew : (received (w ++ [⟨rx, tx⟩])).drop 11 = [] :=
    List.drop_eq_nil_of_le (by simp; omega)
  refine ⟨?_, hstop.trans h.running, h.follows.snoc (hlen ▸ hsend) haccept, ?_,
    hreq ▸ h.length_buffer, ?_, ?_⟩
  · exact ⟨hreq ▸ h.aimed.mode_eq, hreq ▸ h.aimed.card_eq, hreq ▸ h.aimed.floor_eq,
      hreq ▸ h.aimed.block_eq⟩
  · rw [List.length_append, List.length_singleton, hstate, hcnt, hzero, hlen]
    omega
  · rw [hnew, hcnt, hzero, List.take_zero]
  · rw [hnew, ← hold, hcs, h.cs]

/-- The handlers before the data, by their places in the script. -/
theorem ReadAt.handler (h : ReadAt card block bu w) (h₁ : 1 ≤ bu.state) (h₂ : bu.state ≤ 10)
    (hlen : w.length = bu.state) (input : CardInput) :
    ∃ handler hw, buRdStates.getD bu.state none = some handler ∧
      handler bu input =
        ⟨if (readScript (buFloor card) block).accept (received w) input.byte then 1 else -1,
          { bu with byte := input.byte, hwState := hw },
          [⟨input.byte, (readScript (buFloor card) block).send bu.state⟩]⟩ := by
  obtain ⟨hmode, -, -, hblock⟩ := h.aimed
  have hstates : bu.state = 1 ∨ bu.state = 2 ∨ bu.state = 3 ∨ bu.state = 4 ∨ bu.state = 5 ∨
      bu.state = 6 ∨ bu.state = 7 ∨ bu.state = 8 ∨ bu.state = 9 ∨ bu.state = 10 := by omega
  have hrep : (received w).length = bu.state := by rw [length_received, hlen]
  rcases hstates with hs | hs | hs | hs | hs | hs | hs | hs | hs | hs <;> rw [hs] at hrep ⊢
  · exact ⟨buRdState1, bu.hwState, rfl, by simp [buRdState1, exchange, readScript, hrep, hs, hmode]⟩
  · exact ⟨buRdState2, input.byte, rfl, by simp [buRdState2, exchange, readScript, hrep, hs]⟩
  · exact ⟨buRdState3, bu.hwState, rfl, by simp [buRdState3, exchange, readScript, hrep, hs]⟩
  · exact ⟨buRdState4, bu.hwState, rfl,
      by simp [buRdState4, exchange, readScript, hrep, hs, hblock]⟩
  · exact ⟨buRdState5, bu.hwState, rfl,
      by simp [buRdState5, exchange, readScript, hrep, hs, hblock]⟩
  · exact ⟨buRdState6, bu.hwState, rfl, by simp [buRdState6, exchange, readScript, hrep, hs]⟩
  · exact ⟨buRdState7, bu.hwState, rfl, by simp [buRdState7, exchange, readScript, hrep, hs]⟩
  · exact ⟨buRdState8, bu.hwState, rfl, by simp [buRdState8, exchange, readScript, hrep, hs]⟩
  · exact ⟨buRdState9, bu.hwState, rfl,
      by simp [buRdState9, exchange, readScript, hrep, hs, hblock]⟩
  · exact ⟨buRdState10, bu.hwState, rfl,
      by simp [buRdState10, exchange, readScript, hrep, hs, hblock]⟩

theorem ReadAt.early (h : ReadAt card block bu w) (h₁ : 1 ≤ bu.state) (h₂ : bu.state ≤ 10)
    (hlen : w.length = bu.state) (input : CardInput) :
    ∃ o, buRdRoutine bu input = some o ∧
      Advances (readScript (buFloor card) block) (ReadAt card block) w input o := by
  obtain ⟨handler, hw, htable, hrun⟩ := h.handler h₁ h₂ hlen input
  by_cases hacc : (readScript (buFloor card) block).accept (received w) input.byte = true
  · rw [if_pos hacc] at hrun
    refine exists_advances_of_accepted htable (by rw [hrun]; exact Int.one_nonneg) hacc
      (by rw [hrun, hlen]) ?_
    rw [hrun]
    exact h.next hlen h₂ rfl rfl rfl rfl rfl rfl hacc
  · rw [if_neg hacc] at hrun
    exact exists_advances_of_refused htable (by rw [hrun]; exact neg_one_lt_zero) hacc

/-- A data byte. -/
theorem ReadAt.dataByte (h : ReadAt card block bu w) (hs : bu.state = 11) (hcnt : bu.cnt < 128)
    (hlen : w.length = 11 + bu.cnt) (input : CardInput) :
    ∃ o, buRdRoutine bu input = some o ∧
      Advances (readScript (buFloor card) block) (ReadAt card block) w input o := by
  have hsend : (0 : UInt8) = (readScript (buFloor card) block).send w.length := by
    simp [readScript, show w.length ≠ 0 by omega, show w.length ≠ 1 by omega,
      show w.length ≠ 4 by omega, show w.length ≠ 5 by omega]
  have haccept : (readScript (buFloor card) block).accept (received w) input.byte = true := by
    have hrep : (received w).length = 11 + bu.cnt := by rw [length_received, hlen]
    unfold readScript
    simp only [hrep]
    split <;> first | rfl | omega
  have hdrop : (received (w ++ [⟨input.byte, (0 : UInt8)⟩])).drop 11 =
      (received w).drop 11 ++ [input.byte] := by
    rw [received_append, List.drop_append_of_le_length (by simp; omega)]
    rfl
  have htake : (bu.request.buffer.set bu.cnt input.byte).take (bu.cnt + 1) =
      bu.request.buffer.take bu.cnt ++ [input.byte] := by
    have hb := h.length_buffer
    rw [List.take_add_one, List.take_set_of_le (Nat.le_refl _)]
    simp [hb, hcnt]
  have hnew : ∀ state, (state = 11 ∧ bu.cnt + 1 < 128) ∨ (state = 12 ∧ bu.cnt + 1 = 128) →
      ReadAt card block
        { bu with
          request := { bu.request with buffer := bu.request.buffer.set bu.cnt input.byte }
          cs := bu.cs ^^^ input.byte
          cnt := bu.cnt + 1
          state := state }
        (w ++ [⟨input.byte, 0⟩]) := by
    intro state hstate
    obtain ⟨hmode, hcard, hfloor, hblock⟩ := h.aimed
    refine ⟨⟨hmode, hcard, hfloor, hblock⟩, h.running, h.follows.snoc hsend haccept, ?_, ?_, ?_, ?_⟩
    · rw [List.length_append, List.length_singleton, hlen]
      simp only
      omega
    · simpa using h.length_buffer
    · rw [hdrop, ← h.data]
      exact htake
    · rw [hdrop, checksum_append, ← h.cs]
  have htable : buRdStates.getD bu.state none = some buRdData := by rw [hs]; rfl
  by_cases hend : bu.cnt + 1 = 128
  · have hst : (buRdData bu input).status = 1 := if_pos hend
    refine exists_advances_of_accepted htable (by rw [hst]; decide) haccept
      (by rw [← hsend]; rfl) ?_
    rw [hst]
    exact hnew _ (.inr ⟨congrArg (· + 1) hs, hend⟩)
  · have hst : (buRdData bu input).status = 0 := if_neg hend
    refine exists_advances_of_accepted htable (by rw [hst]) haccept (by rw [← hsend]; rfl) ?_
    rw [hst]
    exact hnew _ (.inl ⟨hs, by omega⟩)

/-- The checksum and the end byte. -/
theorem ReadAt.last (h : ReadAt card block bu w) (hs : bu.state = 12) (hcnt : bu.cnt = 128)
    (hlen : w.length = 139) (input : CardInput) :
    ∃ o, buRdRoutine bu input = some o ∧
      Ends (readScript (buFloor card) block)
        (fun bu => ReadDone card block bu.request.buffer) w input o := by
  have htable : buRdStates.getD bu.state none = some buRdState12 := by rw [hs]; rfl
  have hdata : readData (received w) = bu.request.buffer := by
    have htake : bu.request.buffer.take bu.cnt = bu.request.buffer :=
      List.take_of_length_le (by rw [h.length_buffer, hcnt])
    rw [readData, ← h.data, htake]
    exact List.take_of_length_le (by rw [h.length_buffer]; decide)
  have hsum : bu.cs = checksum block (readData (received w)) := by
    rw [h.cs, hdata, ← h.data, hcnt]
    exact congrArg _ (List.take_of_length_le (by rw [h.length_buffer]))
  have hends : EndsWell (readScript (buFloor card) block) w input ↔
      input.byte = bu.cs ∧ input.ready = true ∧ input.next = 0x47 := by
    rw [hsum]
    simp [EndsWell, readScript, hlen]
  by_cases hgood : input.byte = bu.cs ∧ input.ready = true ∧ input.next = 0x47
  · obtain ⟨hbyte, hready, hnext⟩ := hgood
    have hrun : buRdState12 bu input = ⟨1, { bu with byte := input.next, stop := true },
        [⟨input.byte, 0⟩, ⟨input.next, 0⟩]⟩ := by
      simp [buRdState12, hbyte, hready, hnext]
    have hwell := hends.mpr ⟨hbyte, hready, hnext⟩
    refine ⟨_, buRdRoutine_go htable (by rw [hrun]; exact Int.one_nonneg), fun _ => ?_,
      fun hno => absurd hwell hno⟩
    rw [hrun]
    have hfollows := hwell.follows h.follows
    rw [hlen] at hfollows
    refine ⟨rfl, rfl, by rw [hlen]; rfl, hfollows, ?_, ?_⟩
    · rw [List.length_append, hlen]
      rfl
    · rw [received_append, readData, List.drop_append_of_le_length (by simp; omega),
        List.take_append_of_le_length (by simp [buBlkSize, hlen])]
      exact hdata.symm
  · have hfail : (buRdState12 bu input).status < 0 := by
      unfold buRdState12
      simp only [h.aimed.mode_eq, true_and]
      split
      · exact neg_one_lt_zero
      · split
        · exact neg_one_lt_zero
        · rename_i hsame hready
          have hnext : input.next ≠ 0x47 := fun hn =>
            hgood ⟨not_not.mp hsame, by simpa using hready, hn⟩
          rw [if_neg hnext]
          exact neg_one_lt_zero
    exact exists_ends_of_refused htable hfail (mt hends.mp hgood)

/-- **The read machine makes the exchanges of a read.** -/
theorem readAt_tracks (card : Slot) (block : UInt16) :
    Tracks (readScript (buFloor card) block) readLength (ReadAt card block)
      (fun bu => ReadDone card block bu.request.buffer) where
  running h := h.running
  bounded h := Nat.add_le_add_right h.length_wire_le 2
  middle {bu w} h hlt input := by
    have hw : w.length < 139 := Nat.lt_of_add_lt_add_right hlt
    rcases h.place with ⟨h₁, h₂, -, hlen⟩ | ⟨hs, hcnt, hlen⟩ | ⟨-, -, hlen⟩
    · exact h.early h₁ h₂ hlen input
    · exact h.dataByte hs hcnt hlen input
    · omega
  last {bu w} h heq input := by
    have hw : w.length = 139 := Nat.add_right_cancel heq
    rcases h.place with ⟨-, h₂, -, hlen⟩ | ⟨-, hcnt, hlen⟩ | ⟨hs, hcnt, hlen⟩
    · omega
    · omega
    · exact h.last hs hcnt hlen input

/-- The first byte of a read. -/
theorem readAt_start (haimed : Aimed modeRead card block bu)
    (hbuf : bu.request.buffer.length = 128) :
    Starts (readScript (buFloor card) block) (ReadAt card block) bu := by
  obtain ⟨hmode, hcard, hfloor, hblock⟩ := haimed
  have hsend : UInt8.ofNat (0x81 + bu.request.floor) =
      (readScript (buFloor card) block).send 0 := by
    rw [hfloor]
    rfl
  refine ⟨_, if_pos hmode, fun input => ⟨_, rfl, rfl,
    congrArg (fun tx => [(⟨input.byte, tx⟩ : Exchange UInt8)]) hsend,
    ⟨⟨hmode, hcard, hfloor, hblock⟩, rfl, ?_, ?_, hbuf, rfl, ?_⟩⟩⟩
  · exact Follows.nil.snoc hsend rfl
  · exact .inl ⟨Nat.le_refl 1, (by decide : 1 ≤ 10), rfl, rfl⟩
  · show lsb bu.request.block ^^^ msb bu.request.block = _
    rw [hblock]
    rfl

end Read

section Write

variable {card : Slot} {block : UInt16} {data : List UInt8} {bu : Bu} {w : List (Exchange UInt8)}

theorem WriteAt.length_wire_le (h : WriteAt card block data bu w) : w.length ≤ 137 := by
  rcases h.place with ⟨-, hs, -, hlen⟩ | ⟨-, hcnt, hlen⟩ | ⟨-, hs, -, hlen⟩ <;> omega

/-- A state of a write that only looks at the reply. -/
def WritePlain (bu : Bu) (w : List (Exchange UInt8)) : Prop :=
  (17 ≤ bu.state ∧ bu.state ≤ 21 ∧ bu.cnt = 0 ∧ bu.state = 16 + w.length) ∨
    (23 ≤ bu.state ∧ bu.state ≤ 25 ∧ bu.cnt = 128 ∧ w.length = bu.state + 111)

/-- The handlers of those states, by their places in the script. -/
theorem WriteAt.handler (h : WriteAt card block data bu w) (hplain : WritePlain bu w)
    (input : CardInput) :
    ∃ handler byte hw, buRdStates.getD bu.state none = some handler ∧
      handler bu input =
        ⟨if (writeScript (buFloor card) block data).accept (received w) input.byte then 1 else -1,
          { bu with byte := byte, hwState := hw },
          [⟨input.byte, (writeScript (buFloor card) block data).send w.length⟩]⟩ := by
  obtain ⟨hmode, -, -, hblock⟩ := h.aimed
  have hrep : (received w).length = w.length := length_received w
  rcases hplain with ⟨h₁, h₂, -, hlen⟩ | ⟨h₁, h₂, hcnt, hlen⟩
  · have hstates : bu.state = 17 ∨ bu.state = 18 ∨ bu.state = 19 ∨ bu.state = 20 ∨
        bu.state = 21 := by omega
    rcases hstates with hs | hs | hs | hs | hs
    · have hw : w.length = 1 := by omega
      exact ⟨buRdState1, input.byte, bu.hwState, by rw [hs]; rfl, by
        simp [buRdState1, exchange, writeScript, hrep, hw, hmode]⟩
    · have hw : w.length = 2 := by omega
      exact ⟨buRdState2, input.byte, input.byte, by rw [hs]; rfl, by
        simp [buRdState2, exchange, writeScript, hrep, hw]⟩
    · have hw : w.length = 3 := by omega
      exact ⟨buRdState3, input.byte, bu.hwState, by rw [hs]; rfl, by
        simp [buRdState3, exchange, writeScript, hrep, hw]⟩
    · have hw : w.length = 4 := by omega
      exact ⟨buRdState4, input.byte, bu.hwState, by rw [hs]; rfl, by
        simp [buRdState4, exchange, writeScript, hrep, hw, hblock]⟩
    · have hw : w.length = 5 := by omega
      exact ⟨buRdState5, input.byte, bu.hwState, by rw [hs]; rfl, by
        simp [buRdState5, exchange, writeScript, hrep, hw, hblock]⟩
  · have hstates : bu.state = 23 ∨ bu.state = 24 ∨ bu.state = 25 := by omega
    have hcs : bu.cs = checksum block data := by
      rw [h.cs, hcnt, List.take_of_length_le (by rw [← h.buffer, h.length_buffer])]
    rcases hstates with hs | hs | hs
    · have hw : w.length = 134 := by omega
      exact ⟨buWrState7, bu.byte, bu.hwState, by rw [hs]; rfl, by
        simp [buWrState7, writeScript, hrep, hw, ← hcs]⟩
    · have hw : w.length = 135 := by omega
      exact ⟨buRdState6, input.byte, bu.hwState, by rw [hs]; rfl, by
        simp [buRdState6, exchange, writeScript, hrep, hw]⟩
    · have hw : w.length = 136 := by omega
      exact ⟨buRdState7, input.byte, bu.hwState, by rw [hs]; rfl, by
        simp [buRdState7, exchange, writeScript, hrep, hw]⟩

theorem WriteAt.plain (h : WriteAt card block data bu w) (hplain : WritePlain bu w)
    (input : CardInput) :
    ∃ o, buRdRoutine bu input = some o ∧
      Advances (writeScript (buFloor card) block data) (WriteAt card block data) w input o := by
  obtain ⟨handler, byte, hw, htable, hrun⟩ := h.handler hplain input
  by_cases hacc : (writeScript (buFloor card) block data).accept (received w) input.byte = true
  · rw [if_pos hacc] at hrun
    refine exists_advances_of_accepted htable (by rw [hrun]; exact Int.one_nonneg) hacc
      (by rw [hrun]) ?_
    rw [hrun]
    obtain ⟨hmode, hcard, hfloor, hblock⟩ := h.aimed
    refine ⟨⟨hmode, hcard, hfloor, hblock⟩, h.running, h.follows.snoc rfl hacc, ?_,
      h.length_buffer, h.buffer, h.cs⟩
    have hone : (1 : Int).toNat = 1 := rfl
    rw [List.length_append, List.length_singleton, hone]
    simp only
    rcases hplain with hp | hp <;> omega
  · rw [if_neg hacc] at hrun
    exact exists_advances_of_refused htable (by rw [hrun]; exact neg_one_lt_zero) hacc

/-- A data byte. -/
theorem WriteAt.dataByte (h : WriteAt card block data bu w) (hs : bu.state = 22)
    (hcnt : bu.cnt < 128) (hlen : w.length = 6 + bu.cnt) (input : CardInput) :
    ∃ o, buRdRoutine bu input = some o ∧
      Advances (writeScript (buFloor card) block data) (WriteAt card block data) w input o := by
  have hdata : data.length = 128 := by rw [← h.buffer, h.length_buffer]
  have hsend : bu.request.buffer.getD bu.cnt 0 =
      (writeScript (buFloor card) block data).send w.length := by
    have hsub : w.length - 6 = bu.cnt := by omega
    simp [writeScript, h.buffer, hsub, show w.length ≠ 0 by omega, show w.length ≠ 1 by omega,
      show w.length ≠ 4 by omega, show w.length ≠ 5 by omega, show 6 ≤ w.length by omega,
      show w.length < 134 by omega]
  have haccept : (writeScript (buFloor card) block data).accept (received w) input.byte = true := by
    have hrep : (received w).length = 6 + bu.cnt := by rw [length_received, hlen]
    unfold writeScript
    simp only [hrep]
    split <;> first | rfl | omega
  have htake : data.take (bu.cnt + 1) = data.take bu.cnt ++ [data.getD bu.cnt 0] := by
    rw [List.take_add_one, List.getD_eq_getElem?_getD,
      List.getElem?_eq_getElem (hdata.symm ▸ hcnt)]
    rfl
  have hnew : ∀ state, (state = 22 ∧ bu.cnt + 1 < 128) ∨ (state = 23 ∧ bu.cnt + 1 = 128) →
      WriteAt card block data
        { bu with
          cs := bu.cs ^^^ bu.request.buffer.getD bu.cnt 0
          cnt := bu.cnt + 1
          state := state }
        (w ++ [⟨input.byte, bu.request.buffer.getD bu.cnt 0⟩]) := by
    intro state hstate
    obtain ⟨hmode, hcard, hfloor, hblock⟩ := h.aimed
    refine ⟨⟨hmode, hcard, hfloor, hblock⟩, h.running, h.follows.snoc hsend haccept, ?_,
      h.length_buffer, h.buffer, ?_⟩
    · rw [List.length_append, List.length_singleton, hlen]
      simp only
      omega
    · rw [htake, checksum_append, ← h.cs, h.buffer]
  have htable : buRdStates.getD bu.state none = some buWrData := by rw [hs]; rfl
  by_cases hend : bu.cnt + 1 = 128
  · have hst : (buWrData bu input).status = 1 := if_pos hend
    refine exists_advances_of_accepted htable (by rw [hst]; decide) haccept
      (by rw [← hsend]; rfl) ?_
    rw [hst]
    exact hnew _ (.inr ⟨congrArg (· + 1) hs, hend⟩)
  · have hst : (buWrData bu input).status = 0 := if_neg hend
    refine exists_advances_of_accepted htable (by rw [hst]) haccept (by rw [← hsend]; rfl) ?_
    rw [hst]
    exact hnew _ (.inl ⟨hs, by omega⟩)

/-- The end byte. -/
theorem WriteAt.last (h : WriteAt card block data bu w) (hs : bu.state = 26)
    (hlen : w.length = 137) (input : CardInput) :
    ∃ o, buRdRoutine bu input = some o ∧
      Ends (writeScript (buFloor card) block data)
        (fun _ => WriteDone card block data) w input o := by
  have htable : buRdStates.getD bu.state none = some buRdState12 := by rw [hs]; rfl
  have hmode : ¬ (bu.request.mode = modeRead ∧ input.byte ≠ bu.cs) := by
    rw [h.aimed.mode_eq]
    exact fun hm => absurd hm.1 (by decide)
  have hends : EndsWell (writeScript (buFloor card) block data) w input ↔
      input.ready = true ∧ input.next = 0x47 := by
    simp [EndsWell, writeScript, hlen]
  by_cases hgood : input.ready = true ∧ input.next = 0x47
  · obtain ⟨hready, hnext⟩ := hgood
    have hrun : buRdState12 bu input = ⟨1, { bu with byte := input.next, stop := true },
        [⟨input.byte, 0⟩, ⟨input.next, 0⟩]⟩ := by
      unfold buRdState12
      simp only [if_neg hmode, hready, hnext]
      rfl
    have hwell := hends.mpr ⟨hready, hnext⟩
    refine ⟨_, buRdRoutine_go htable (by rw [hrun]; exact Int.one_nonneg), fun _ => ?_,
      fun hno => absurd hwell hno⟩
    rw [hrun]
    have hfollows := hwell.follows h.follows
    rw [hlen] at hfollows
    refine ⟨rfl, rfl, by rw [hlen]; rfl, hfollows, ?_⟩
    rw [List.length_append, hlen]
    rfl
  · have hfail : (buRdState12 bu input).status < 0 := by
      unfold buRdState12
      simp only [if_neg hmode]
      split
      · exact neg_one_lt_zero
      · rename_i hready
        have hnext : input.next ≠ 0x47 := fun hn => hgood ⟨by simpa using hready, hn⟩
        rw [if_neg hnext]
        exact neg_one_lt_zero
    exact exists_ends_of_refused htable hfail (mt hends.mp hgood)

/-- **The write machine makes the exchanges of a write.** -/
theorem writeAt_tracks (card : Slot) (block : UInt16) (data : List UInt8) :
    Tracks (writeScript (buFloor card) block data) writeLength (WriteAt card block data)
      (fun _ => WriteDone card block data) where
  running h := h.running
  bounded h := Nat.add_le_add_right h.length_wire_le 2
  middle {bu w} h hlt input := by
    have hw : w.length < 137 := Nat.lt_of_add_lt_add_right hlt
    rcases h.place with hp | ⟨hs, hcnt, hlen⟩ | ⟨h₁, h₂, hcnt, hlen⟩
    · exact h.plain (.inl hp) input
    · exact h.dataByte hs hcnt hlen input
    · exact h.plain (.inr ⟨h₁, by omega, hcnt, hlen⟩) input
  last {bu w} h heq input := by
    have hw : w.length = 137 := Nat.add_right_cancel heq
    rcases h.place with ⟨-, h₂, -, hlen⟩ | ⟨-, hcnt, hlen⟩ | ⟨-, -, -, hlen⟩
    · omega
    · omega
    · exact h.last (by omega) hw input

/-- The first byte of a write. -/
theorem writeAt_start (haimed : Aimed modeWrite card block bu)
    (hbuf : bu.request.buffer.length = 128) (hdata : bu.request.buffer = data) :
    Starts (writeScript (buFloor card) block data) (WriteAt card block data) bu := by
  obtain ⟨hmode, hcard, hfloor, hblock⟩ := haimed
  have hnot : ¬ bu.request.mode = modeRead := by
    rw [hmode]
    decide
  have hsend : UInt8.ofNat (0x81 + bu.request.floor) =
      (writeScript (buFloor card) block data).send 0 := by
    rw [hfloor]
    rfl
  refine ⟨_, (if_neg hnot).trans (if_pos hmode), fun input => ⟨_, rfl, rfl,
    congrArg (fun tx => [(⟨input.byte, tx⟩ : Exchange UInt8)]) hsend,
    ⟨⟨hmode, hcard, hfloor, hblock⟩, rfl, ?_, ?_, hbuf, hdata, ?_⟩⟩⟩
  · exact Follows.nil.snoc hsend rfl
  · exact .inl ⟨Nat.le_refl 17, (by decide : 17 ≤ 21), rfl, rfl⟩
  · show lsb bu.request.block ^^^ msb bu.request.block = _
    rw [hblock]
    rfl

end Write

end MemoryCard
end Blackroo
