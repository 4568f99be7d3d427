import Mathlib.Data.List.Basic

/-!
# The keyboard driver

`drivers/char/psxkbd.c` polls a keyboard on the SIO0 bus from a timer.  A poll clocks up to fifteen
bytes.  What comes back lags the bytes that are sent by some bytes that mean nothing; then come the
two bytes `96 5A`, the number of bytes that follow, and those bytes, which are scan codes of set 2
as the keyboard sends them.

* `psxkbdFrame` clocks the bytes and stops early once it has seen how many are worth clocking.
* `psxkbdDecode` looks for `96 5A` on its own account and turns scan codes into key codes.  A scan
  code may be announced by `E0` or `F0`, and the announcement is kept from one poll to the next.
* `psxkbdTick` is the timer function: it looks for a keyboard on two ports and four floors of a
  multitap as long as there is none, polls if it gets the bus, and arms the timer again.

What a byte comes to on the bus is left to `Reply`: `psxkbd_xfer` returns a byte or times out.  The
tracing of `psxkbd_debug` and the message of `psxkbd_announced` are left out.
-/

namespace Blackroo
namespace Keyboard

/-! ## Key codes -/

/-- `psxkbd_set2`. -/
def psxkbdSet2 : List (UInt8 × UInt8) :=
  [(0x1c, 30), (0x32, 48), (0x21, 46), (0x23, 32), (0x24, 18), (0x2b, 33),
    (0x34, 34), (0x33, 35), (0x43, 23), (0x3b, 36), (0x42, 37), (0x4b, 38),
    (0x3a, 50), (0x31, 49), (0x44, 24), (0x4d, 25), (0x15, 16), (0x2d, 19),
    (0x1b, 31), (0x2c, 20), (0x3c, 22), (0x2a, 47), (0x1d, 17), (0x22, 45),
    (0x35, 21), (0x1a, 44),
    (0x45, 11), (0x16, 2), (0x1e, 3), (0x26, 4), (0x25, 5), (0x2e, 6),
    (0x36, 7), (0x3d, 8), (0x3e, 9), (0x46, 10),
    (0x0e, 41), (0x4e, 12), (0x55, 13), (0x5d, 43), (0x54, 26), (0x5b, 27),
    (0x4c, 39), (0x52, 40), (0x41, 51), (0x49, 52), (0x4a, 53),
    (0x66, 14), (0x0d, 15), (0x5a, 28), (0x29, 57), (0x76, 1), (0x58, 58),
    (0x12, 42), (0x59, 54), (0x14, 29), (0x11, 56),
    (0x05, 59), (0x06, 60), (0x04, 61), (0x0c, 62), (0x03, 63), (0x0b, 64),
    (0x83, 65), (0x0a, 66), (0x01, 67), (0x09, 68), (0x78, 87), (0x07, 88),
    (0x7e, 70), (0x77, 69),
    (0x7c, 55), (0x7b, 74), (0x79, 78), (0x71, 83), (0x70, 82), (0x69, 79),
    (0x72, 80), (0x7a, 81), (0x6b, 75), (0x73, 76), (0x74, 77), (0x6c, 71),
    (0x75, 72), (0x7d, 73),
    (0x00, 0)]

/-- `psxkbd_set2_e0`. -/
def psxkbdSet2E0 : List (UInt8 × UInt8) :=
  [(0x14, 97), (0x11, 100), (0x1f, 125), (0x27, 126), (0x2f, 127), (0x70, 110), (0x71, 111),
    (0x6c, 102), (0x69, 107), (0x7d, 104), (0x7a, 109), (0x75, 103), (0x72, 108), (0x6b, 105),
    (0x74, 106), (0x4a, 98), (0x5a, 96),
    (0x00, 0)]

/-- The search of a table, up to the entry with key code 0. -/
def tableKeycode (code : UInt8) : List (UInt8 × UInt8) → UInt8
  | [] => 0
  | (c, keycode) :: t =>
    if keycode = 0 then 0 else if c = code then keycode else tableKeycode code t

def psxkbdKeycode (code : UInt8) (ext : Bool) : UInt8 :=
  tableKeycode code (if ext then psxkbdSet2E0 else psxkbdSet2)

/-! ## A frame -/

def kbdFrameLen : Nat := 15

def kbdId : UInt8 := 0x96

def kbdReady : UInt8 := 0x5a

def kbdNoDev : UInt8 := 0xff

/-- What `psxkbd_xfer` returns for each byte of a frame; `none` is a timeout. -/
abbrev Reply : Type := Nat → Option UInt8

/-- The bytes `96 5A` are at position `i` and the next. -/
def PairAt (rx : List UInt8) (i : Nat) : Prop :=
  rx.getD i 0 = kbdId ∧ rx.getD (i + 1) 0 = kbdReady

instance (rx : List UInt8) (i : Nat) : Decidable (PairAt rx i) :=
  inferInstanceAs (Decidable (_ ∧ _))

/-- `want` after byte `i` has come in. -/
def wantAfter (want i : Nat) (rx : List UInt8) : Nat :=
  if want = kbdFrameLen ∧ 2 ≤ i ∧ PairAt rx (i - 2) then
    let nn := rx.getD i 0
    if nn ≠ kbdNoDev then min (i + 1 + nn.toNat) kbdFrameLen else want
  else want

/-- The loop of `psxkbd_frame`.  As many bytes have come in as `rx` has. -/
def frameLoop (reply : Reply) : Nat → Nat → List UInt8 → List UInt8
  | 0, _, rx => rx
  | turns + 1, want, rx =>
    if rx.length < want then
      match reply rx.length with
      | none => rx
      | some b => frameLoop reply turns (wantAfter want rx.length (rx ++ [b])) (rx ++ [b])
    else rx

/-- The bytes that `psxkbd_frame` receives. -/
def psxkbdFrame (reply : Reply) : List UInt8 := frameLoop reply kbdFrameLen kbdFrameLen []

/-! ## Decoding -/

/-- A call of `handle_scancode`. -/
structure Event where
  keycode : UInt8
  down : Bool
  deriving DecidableEq, Repr

/-- `psxkbd_ext` and `psxkbd_brk`. -/
structure Pending where
  ext : Bool
  brk : Bool
  deriving DecidableEq, Repr

/-- The loop over the scan codes. -/
def decodeBytes : Pending → List UInt8 → Pending × List Event
  | p, [] => (p, [])
  | p, code :: codes =>
    if code = 0x00 ∨ code = 0xff then decodeBytes p codes
    else if code = 0xe0 then decodeBytes { p with ext := true } codes
    else if code = 0xf0 then decodeBytes { p with brk := true } codes
    else
      let keycode := psxkbdKeycode code p.ext
      let (p', events) := decodeBytes ⟨false, false⟩ codes
      (p', if keycode ≠ 0 then ⟨keycode, !p.brk⟩ :: events else events)

/-- The first `96 5A`. -/
def anchor (rx : List UInt8) : Option Nat :=
  (List.range (rx.length - 1)).find? fun i => PairAt rx i

/-- `psxkbd_decode`: whether a keyboard has answered, and what it has typed. -/
def psxkbdDecode (rx : List UInt8) (p : Pending) : Bool × Pending × List Event :=
  match anchor rx with
  | none => (false, p, [])
  | some start =>
    if start + 2 ≥ rx.length then (false, p, [])
    else
      let num := rx.getD (start + 2) 0
      if num = kbdNoDev then (true, p, [])
      else
        let num := min num.toNat (rx.length - (start + 3))
        (true, decodeBytes p ((rx.drop (start + 3)).take num))

/-! ## The timer -/

/-- `KBD_POLL_TICKS`, `KBD_IDLE_TICKS` and `KBD_QUIET_MAX`, with `HZ` as 100. -/
def kbdPollTicks : Nat := 1

@[inherit_doc kbdPollTicks]
def kbdIdleTicks : Nat := 100

@[inherit_doc kbdPollTicks]
def kbdQuietMax : Nat := 50

/-- The variables of the driver, and the time at which its timer goes off, if it is armed. -/
structure Psxkbd where
  slot : Nat
  addr : UInt8
  scan : Nat
  quiet : Nat
  present : Bool
  pending : Pending
  timer : Option Nat
  deriving DecidableEq, Repr

/-- What a tick finds: another owner of the bus, or what each port and address would reply. -/
inductive Turn where
  | busy
  | poll (reply : Nat → UInt8 → Reply)

/-- The step to the next port and address, as long as there is no keyboard. -/
def Psxkbd.search (s : Psxkbd) : Psxkbd :=
  if s.present then s
  else
    { s with
      slot := (s.scan >>> 2) &&& 1
      addr := 0x01 + UInt8.ofNat (s.scan &&& 3)
      scan := (s.scan + 1) &&& 7 }

/-- The poll of a tick: whether there is somebody, and what was typed. -/
def Psxkbd.ask (s : Psxkbd) : Turn → Bool × Pending × List Event
  | .busy => (s.present, s.pending, [])
  | .poll reply =>
    let rx := psxkbdFrame (reply s.slot s.addr)
    if rx.length > 0 then psxkbdDecode rx s.pending else (false, s.pending, [])

/-- What is concluded from the poll. -/
def Psxkbd.settle (s : Psxkbd) (alive : Bool) : Psxkbd :=
  if alive then { s with quiet := 0, present := true }
  else if s.quiet < kbdQuietMax then { s with quiet := s.quiet + 1 }
  else { s with present := false, pending := ⟨false, false⟩ }

/-- `psxkbd_tick`, at time `jiffies`. -/
def psxkbdTick (s : Psxkbd) (jiffies : Nat) (turn : Turn) : Psxkbd × List Event :=
  let s := s.search
  let (alive, pending, events) := s.ask turn
  let s := { s with pending := pending }.settle alive
  ({ s with timer := some (jiffies + if s.present then kbdPollTicks else kbdIdleTicks) }, events)

/-- What `kbd_init_hw` leaves: nothing found yet, and a first tick in a second. -/
def kbdInitHw (jiffies : Nat) : Psxkbd :=
  { slot := 0
    addr := 0x01
    scan := 0
    quiet := kbdQuietMax
    present := false
    pending := ⟨false, false⟩
    timer := some (jiffies + kbdIdleTicks) }

/-- A run of the timer: its ticks with their times. -/
def psxkbdRun (s : Psxkbd) : List (Nat × Turn) → Psxkbd × List Event
  | [] => (s, [])
  | (jiffies, turn) :: ticks =>
    let (s, events) := psxkbdTick s jiffies turn
    let (s, more) := psxkbdRun s ticks
    (s, events ++ more)

end Keyboard
end Blackroo
