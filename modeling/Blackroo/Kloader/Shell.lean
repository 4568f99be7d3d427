import Blackroo.Lib.ByteMemory
import Blackroo.Lib.MappedMemory
import Blackroo.Lib.Process

/-!
# The serial shell of kloader

`shell.c` and `serial.c` of the bootloader: the command server a host talks to over SIO1.
Every function is a program over the line (`Process.Proc`), with the statics of the shell
passed along.  A read is `serial_getchar`, which gives a byte or times out.

## Memory

The bytes a UEXE or UBIN receives go straight to memory, and so does the word of a POKE.  The
processor sees the same RAM at many addresses, and devices, the ROM or nothing at others, so memory
is a map from addresses to cells (`MemoryMap`).

kloader is in that memory itself.  The disc build is linked at 0x80010000, and an upload to that
address overwrites the loader that receives it; on the console this ended at offset 6144.  How many
cells kloader takes depends on the build (its text alone goes up to 0x8001E800 in one of them, with
the heap behind it), so they are a parameter.  A store to one of them, or to what is not RAM, is the
end of what can be said about the run (`Exit.lost`), as it is for a kernel from the disc.

The screen, the debug counters and the interrupt mask are left out.
-/

namespace Blackroo
namespace Kloader

open ByteMemory LittleEndian MappedMemory Process

/-! ## Tags -/

/-- `SHELL_TAG`. -/
def shellTag (a b c d : Char) : UInt32 :=
  word32 (UInt8.ofNat a.toNat) (UInt8.ofNat b.toNat) (UInt8.ofNat c.toNat) (UInt8.ofNat d.toNat)

def shellBeacon : UInt32 := shellTag 'B' 'K' '>' '>'
def shellOk : UInt32 := shellTag 'O' 'K' 'O' 'K'
def shellErr : UInt32 := shellTag 'F' 'A' 'I' 'L'
def shellMore : UInt32 := shellTag 'M' 'O' 'R' 'E'
def shellDone : UInt32 := shellTag 'D' 'O' 'N' 'E'
def shellPong : UInt32 := shellTag 'P' 'O' 'N' 'G'

def cmdPing : UInt32 := shellTag 'P' 'I' 'N' 'G'
def cmdUexe : UInt32 := shellTag 'U' 'E' 'X' 'E'
def cmdUbin : UInt32 := shellTag 'U' 'B' 'I' 'N'
def cmdExecTag : UInt32 := shellTag 'E' 'X' 'E' 'C'
def cmdBootTag : UInt32 := shellTag 'B' 'O' 'O' 'T'
def cmdDumpTag : UInt32 := shellTag 'D' 'U' 'M' 'P'
def cmdPeekTag : UInt32 := shellTag 'P' 'E' 'E' 'K'
def cmdPokeTag : UInt32 := shellTag 'P' 'O' 'K' 'E'
def cmdFastTag : UInt32 := shellTag 'F' 'A' 'S' 'T'
def cmdSlowTag : UInt32 := shellTag 'S' 'L' 'O' 'W'
def cmdRest : UInt32 := shellTag 'R' 'E' 'S' 'T'

/-- `SHELL_CHUNK`. -/
def shellChunk : Nat := 2048

def serialBaudSlow : UInt32 := 115200
def serialBaudFast : UInt32 := 518400

/-! ## The line -/

/-- A program of the console. -/
abbrev Line : Type → Type := Proc Unit UInt8

/-- `serial_getchar`; `none` is a timeout. -/
def serialGetchar : Line (Option UInt8) := .recv () 1 fun bs => .done bs.head?

def serialSendU32 (val : UInt32) : Line Unit := sendAll (bytes32 val)

def serialRecvU32 : Line (Option UInt32) := do
  let some b0 ← serialGetchar | return none
  let some b1 ← serialGetchar | return none
  let some b2 ← serialGetchar | return none
  let some b3 ← serialGetchar | return none
  return some (word32 b0 b1 b2 b3)

/-- `read_tag`: all three bytes are read, whether they come or not. -/
def readTag (firstByte : UInt8) : Line (Option UInt32) := do
  let b1 ← serialGetchar
  let b2 ← serialGetchar
  let b3 ← serialGetchar
  match b1, b2, b3 with
  | some b1, some b2, some b3 => return some (word32 firstByte b1 b2 b3)
  | _, _, _ => return none

/-! ## State -/

/-- The address space that kloader works in. -/
structure MemoryMap where
  /-- the RAM cell behind an address, if there is RAM -/
  cell : UInt32 → Option UInt32
  /-- the cells that hold kloader -/
  own : UInt32 → Bool
  /-- what is read where there is no RAM -/
  device : UInt32 → UInt8

/-- The cell a store may change. -/
def MemoryMap.target (m : MemoryMap) : Target UInt32 := fun a =>
  (m.cell a).filter fun c => !m.own c

/-- What is read at an address. -/
def MemoryMap.mem (m : MemoryMap) (ram : Cells UInt32) : Mem := fun a =>
  match m.cell a with
  | some c => ram c
  | none => m.device a

/-- The statics of the shell, and the memory.  The last field is not stored by the shell: how far
the last transfer was at the end of each of its chunks. -/
structure Shell where
  map : MemoryMap
  ram : Cells UInt32
  curBaud : UInt32
  statusText : String
  lastCmdText : String
  lastEntry : UInt32
  lastLoad : UInt32
  lastSize : UInt32
  hasUpload : Bool
  boundaries : List Nat

/-- What is read at each address. -/
def Shell.mem (s : Shell) : Mem := s.map.mem s.ram

/-- The statics at the start of `shell_run`. -/
def Shell.start (map : MemoryMap) (ram : Cells UInt32) (baud : UInt32) : Shell where
  map := map
  ram := ram
  curBaud := baud
  statusText := "Listening"
  lastCmdText := ""
  lastEntry := 0
  lastLoad := 0
  lastSize := 0
  hasUpload := false
  boundaries := []

/-- What the shell knows from the rest of the loader: `hw.ram_size_kb`, and the command
line `settings_build_cmdline` makes of the saved settings. -/
structure Loader where
  ramSizeKb : UInt32
  cmdline : List UInt8

/-- How the shell is left other than by the pad. -/
inductive Exit where
  | launched (entry ramSizeKb : UInt32) (cmdline : List UInt8)
  | executed (addr : UInt32)
  | reset
  /-- a store went to kloader itself, or to no RAM -/
  | lost
  deriving DecidableEq, Repr

/-- The end of a turn of the command loop. -/
inductive Turn where
  | again (s : Shell)
  | left (e : Exit) (s : Shell)

/-! ## Data transfer -/

/-- `receive_data` in progress: memory and checksum, the bytes received so far, and the
values of `received` at which a MORE was sent. -/
structure Receipt where
  ram : Cells UInt32
  checksum : UInt32
  data : List UInt8
  boundaries : List Nat

/-- The memory after `dst[received + i] = b`, and `checksum += b`. -/
def Receipt.push (r : Receipt) (ram : Cells UInt32) (b : UInt8) : Receipt :=
  { r with ram := ram, checksum := r.checksum + b.toUInt32, data := r.data ++ [b] }

/-- How a transfer ends; `failed` is a timeout, or a wrong checksum. -/
inductive Transfer where
  | complete
  | failed
  | lost
  deriving DecidableEq, Repr

section Receive

variable (t : Target UInt32) (dst : UInt32)

/-- The bytes of one chunk. -/
def receiveChunk : Nat → Receipt → Line (Transfer × Receipt)
  | 0, r => return (.complete, r)
  | n + 1, r => do
      let some b ← serialGetchar | return (.failed, r)
      match store t (dst + UInt32.ofNat r.data.length) b r.ram with
      | none => return (.lost, r)
      | some ram => receiveChunk n (r.push ram b)

/-- The loop over the chunks, with `left` bytes to come.  Every chunk has a byte, so `left`
turns are enough. -/
def receiveLoop : Nat → Nat → Receipt → Line (Transfer × Receipt)
  | 0, _, r => return (.complete, r)
  | turns + 1, left, r =>
    if left = 0 then return (.complete, r)
    else do
      let chunk := min left shellChunk
      let (outcome, r) ← receiveChunk t dst chunk r
      if outcome ≠ .complete then return (outcome, r)
      serialSendU32 shellMore
      receiveLoop turns (left - chunk) { r with boundaries := r.boundaries ++ [r.data.length] }

end Receive

/-- `receive_data` behind the loop. -/
def receiveEnd (expectedChecksum : UInt32) (p : Transfer × Receipt) :
    Line (Transfer × Receipt) := do
  match p.1 with
  | .lost => return p
  | .failed =>
    serialSendU32 shellErr
    return p
  | .complete =>
    if p.2.checksum ≠ expectedChecksum then
      serialSendU32 shellErr
      return (.failed, p.2)
    serialSendU32 shellDone
    return p

/-- `receive_data`. -/
def receiveData (t : Target UInt32) (dst : UInt32) (ram : Cells UInt32)
    (size expectedChecksum : UInt32) : Line (Transfer × Receipt) :=
  receiveLoop t dst size.toNat size.toNat ⟨ram, 0, [], []⟩ >>= receiveEnd expectedChecksum

/-- `checksum += b` over a block. -/
def byteSum (bs : List UInt8) : UInt32 := bs.foldl (fun sum b => sum + b.toUInt32) 0

theorem byteSum_concat (bs : List UInt8) (b : UInt8) :
    byteSum (bs ++ [b]) = byteSum bs + b.toUInt32 := by
  rw [byteSum, List.foldl_append]
  rfl

theorem byteSum_append (bs cs : List UInt8) : byteSum (bs ++ cs) = byteSum bs + byteSum cs := by
  induction cs using List.reverseRecOn with
  | nil =>
    rw [List.append_nil]
    exact (UInt32.add_zero _).symm
  | append_singleton cs c ih =>
    rw [← List.append_assoc, byteSum_concat, byteSum_concat, ih, UInt32.add_assoc]

/-- `send_data` with `left` bytes to go, up to the checksum; `none` is a chunk that was not
acknowledged.  The second result is not returned by the source: the values of `sent` at
the ends of the chunks that were acknowledged. -/
def sendLoop (mem : Mem) (src : UInt32) :
    (turns left sent : Nat) → UInt32 → List Nat → Line (Option UInt32 × List Nat)
  | 0, _, _, checksum, boundaries => return (some checksum, boundaries)
  | turns + 1, left, sent, checksum, boundaries =>
    if left = 0 then return (some checksum, boundaries)
    else do
      let chunk := min left shellChunk
      let bytes := load mem (src + UInt32.ofNat sent) chunk
      sendAll bytes
      let ack ← serialRecvU32
      if ack ≠ some shellMore then return (none, boundaries)
      else
        sendLoop mem src turns (left - chunk) (sent + chunk) (checksum + byteSum bytes)
          (boundaries ++ [sent + chunk])

/-- `send_data`. -/
def sendData (mem : Mem) (src size : UInt32) : Line (List Nat) := do
  let (checksum, boundaries) ← sendLoop mem src size.toNat size.toNat 0 0 []
  match checksum with
  | none => return boundaries
  | some checksum =>
    serialSendU32 checksum
    return boundaries

/-! ## Commands -/

/-- The label `fail` of `cmd_upload_exe`. -/
def uploadExeFail (s : Shell) : Line Turn := do
  serialSendU32 shellErr
  return .again { s with statusText := "Upload failed", lastCmdText := "UEXE FAIL" }

/-- `cmd_upload_exe` behind `receive_data`. -/
def uploadExeEnd (s : Shell) (p : Transfer × Receipt) : Line Turn :=
  let s := { s with ram := p.2.ram, boundaries := p.2.boundaries }
  match p.1 with
  | .complete => return .again { s with
      hasUpload := true, statusText := "Upload complete", lastCmdText := "UEXE OK" }
  | .failed => uploadExeFail s
  | .lost => return .left .lost s

def cmdUploadExe (s : Shell) : Line Turn := do
  serialSendU32 shellOk
  let some entry ← serialRecvU32 | uploadExeFail s
  let some loadAddr ← serialRecvU32 | uploadExeFail s
  let some size ← serialRecvU32 | uploadExeFail s
  let some checksum ← serialRecvU32 | uploadExeFail s
  let s :=
    { s with
      lastEntry := entry
      lastLoad := loadAddr
      lastSize := size
      statusText := "RECEIVING - do not touch" }
  serialSendU32 shellOk
  receiveData s.map.target loadAddr s.ram size checksum >>= uploadExeEnd s

/-- The label `fail` of `cmd_upload_bin`. -/
def uploadBinFail (s : Shell) : Line Turn := do
  serialSendU32 shellErr
  return .again { s with statusText := "Binary failed", lastCmdText := "UBIN FAIL" }

/-- `cmd_upload_bin` behind `receive_data`. -/
def uploadBinEnd (s : Shell) (p : Transfer × Receipt) : Line Turn :=
  let s := { s with ram := p.2.ram, boundaries := p.2.boundaries }
  match p.1 with
  | .complete => return .again { s with statusText := "Binary loaded", lastCmdText := "UBIN OK" }
  | .failed => uploadBinFail s
  | .lost => return .left .lost s

def cmdUploadBin (s : Shell) : Line Turn := do
  serialSendU32 shellOk
  let some addr ← serialRecvU32 | uploadBinFail s
  let some size ← serialRecvU32 | uploadBinFail s
  let some checksum ← serialRecvU32 | uploadBinFail s
  serialSendU32 shellOk
  let s := { s with lastLoad := addr, lastSize := size, statusText := "Receiving BIN..." }
  receiveData s.map.target addr s.ram size checksum >>= uploadBinEnd s

def cmdExec (s : Shell) : Line Turn := do
  serialSendU32 shellOk
  let some addr ← serialRecvU32 | return .again s
  return .left (.executed addr) s

/-- The command line the host sends; `none` is a timeout. -/
def recvCmdline : Nat → Line (Option (List UInt8))
  | 0 => return some []
  | n + 1 => do
      let some b ← serialGetchar | return none
      let some bs ← recvCmdline n | return none
      return some (b :: bs)

def cmdBoot (l : Loader) (s : Shell) : Line Turn := do
  if !s.hasUpload then
    serialSendU32 shellErr
    return .again { s with lastCmdText := "BOOT: no upload" }
  serialSendU32 shellOk
  let some cmdlineLen ← serialRecvU32 | return .again s
  if 0 < cmdlineLen.toNat ∧ cmdlineLen.toNat < 256 then
    let some cmdline ← recvCmdline cmdlineLen.toNat | return .again s
    return .left (.launched s.lastEntry l.ramSizeKb cmdline) s
  else return .left (.launched s.lastEntry l.ramSizeKb l.cmdline) s

def cmdDump (s : Shell) : Line Shell := do
  serialSendU32 shellOk
  let some addr ← serialRecvU32 | return s
  let some size ← serialRecvU32 | return s
  let boundaries ← sendData s.mem addr size
  return { s with lastCmdText := "DUMP OK", boundaries := boundaries }

def cmdPeek (s : Shell) : Line Shell := do
  serialSendU32 shellOk
  let some addr ← serialRecvU32 | return s
  serialSendU32 (get32 (load s.mem addr 4) 0)
  return { s with lastCmdText := "PEEK OK" }

def cmdPoke (s : Shell) : Line Turn := do
  serialSendU32 shellOk
  let some addr ← serialRecvU32 | return .again s
  let some val ← serialRecvU32 | return .again s
  match copy s.map.target addr (bytes32 val) s.ram with
  | none => return .left .lost s
  | some ram =>
    serialSendU32 shellDone
    return .again { s with ram := ram, lastCmdText := "POKE OK" }

/-- `cmd_fast` and `cmd_slow` differ in the rate and the text. -/
def changeBaud (s : Shell) (baud : UInt32) (text : String) : Line Shell := do
  serialSendU32 shellOk
  return { s with curBaud := baud, lastCmdText := text }

def cmdFast (s : Shell) : Line Shell := changeBaud s serialBaudFast "FAST (518400)"

def cmdSlow (s : Shell) : Line Shell := changeBaud s serialBaudSlow "SLOW (115200)"

/-! ## The command loop -/

/-- What the screen shows for an unknown tag. -/
def unknownText (cmd : UInt32) : String :=
  let hexDigit (n : UInt8) : Char := "0123456789ABCDEF".toList.getD n.toNat '0'
  let hex (b : UInt8) : List Char := [hexDigit (b >>> 4), hexDigit (b &&& 0xF)]
  let shown (b : UInt8) : Char := if 0x20 ≤ b ∧ b < 0x7F then Char.ofNat b.toNat else '.'
  let bytes := bytes32 cmd
  String.ofList (['?'] ++ (bytes.map fun b => ' ' :: hex b).flatten ++ [' ', '\''] ++
    bytes.map shown ++ ['\''])

/-- `shell_dispatch`. -/
def shellDispatch (l : Loader) (s : Shell) (cmd : UInt32) : Line Turn :=
  if cmd = cmdPing then do
    serialSendU32 shellPong
    return .again { s with lastCmdText := "PING" }
  else if cmd = cmdUexe then cmdUploadExe s
  else if cmd = cmdUbin then cmdUploadBin s
  else if cmd = cmdExecTag then cmdExec s
  else if cmd = cmdBootTag then cmdBoot l s
  else if cmd = cmdDumpTag then return .again (← cmdDump s)
  else if cmd = cmdPeekTag then return .again (← cmdPeek s)
  else if cmd = cmdPokeTag then cmdPoke s
  else if cmd = cmdFastTag then return .again (← cmdFast s)
  else if cmd = cmdSlowTag then return .again (← cmdSlow s)
  else if cmd = cmdRest then return .left .reset s
  else do
    serialSendU32 shellErr
    return .again { s with lastCmdText := unknownText cmd }

/-- The status text after a command that returned. -/
def Turn.listen : Turn → Turn
  | .again s => .again { s with statusText := "Listening" }
  | .left e s => .left e s

/-- The loop of `shell_run` behind the beacon: wait for a command and execute it. -/
def shellCommand (l : Loader) (s : Shell) : Line Turn := do
  let some b0 ← serialGetchar | return .again s
  let some cmd ← readTag b0 | return .again { s with lastCmdText := "TAG TIMEOUT" }
  let turn ← shellDispatch l { s with statusText := "Processing..." } cmd
  return turn.listen

/-- One turn of the loop of `shell_run`. -/
def shellTurn (l : Loader) (s : Shell) : Line Turn := do
  serialSendU32 shellBeacon
  shellCommand l s

/-- What follows a turn of the loop, unless the shell is left. -/
def Turn.resume (next : Shell → Line Turn) : Turn → Line Turn
  | .again s => next s
  | .left e s => return .left e s

/-- `shell_run` for some turns of its loop, as a program. -/
def shellTurns (l : Loader) : Nat → Shell → Line Turn
  | 0, s => return .again s
  | turns + 1, s => shellTurn l s >>= Turn.resume (shellTurns l turns)

/-- While nothing comes the shell only sends its beacon. -/
theorem idle_shellTurns (l : Loader) (turns : Nat) (s : Shell) :
    (shellTurns l turns s).idle = .again s := by
  induction turns with
  | zero => rfl
  | succ turns ih =>
    rw [shellTurns, Proc.idle_bind]
    exact ih

/-- A console with 2 MB of RAM, which the first 8 MB of KUSEG, KSEG0 and KSEG1 repeat, and the text
of the disc build of kloader in it. -/
def discMap : MemoryMap where
  cell a :=
    if (a >>> 29 = 0 ∨ a >>> 29 = 4 ∨ a >>> 29 = 5) ∧ a &&& 0x1FFFFFFF < 0x800000 then
      some (a &&& 0x1FFFFF)
    else none
  own c := 0x10000 ≤ c && c < 0x1E800
  device _ := 0

/-- A console that has just been started. -/
def freshShell : Shell := .start discMap (fun _ => 0) serialBaudSlow

end Kloader
end Blackroo
