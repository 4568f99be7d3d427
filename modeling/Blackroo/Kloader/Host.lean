import Blackroo.Kloader.Shell

/-!
# The host side of the shell protocol

`blackroo-serial.py`: the upload of a PS-EXE and the dump of memory, from the command tag
on.  What the tool prints and the time it measures are left out; an error is kept as the
place where the function returned `False`, with the values it reports.

`ser.read(n)` returns at most `n` bytes.  `recv_u32` takes fewer than four for a timeout,
while `cmd_dump` goes on with whatever part of a chunk it got, so the two kinds of read
are told apart.

The two programs are run against each other in whole words where that is possible:
`ends_tell` and `ends_answer` are the exchanges of one word in each direction.
-/

namespace Blackroo
namespace Kloader

open ByteMemory LittleEndian Process

/-! ## Words -/

/-- The two kinds of `ser.read`: for a word, and for data. -/
inductive Read where
  | word
  | data
  deriving DecidableEq, Repr

/-- The line may divide the payload, but no word. -/
def SplitsData (read : Read) : Prop := read = .data

/-- A program of the host. -/
abbrev Host : Type → Type := Proc Read UInt8

/-- `send_u32`. -/
def sendU32 (val : UInt32) : Host Unit := sendAll (bytes32 val)

/-- `recv_u32`; `none` is a timeout. -/
def recvU32 : Host (Option UInt32) :=
  .recv .word 4 fun data => .done (if data.length < 4 then none else some (get32 data 0))

/-- `send_command`. -/
def sendCommand (cmd : UInt32) : Host (Option UInt32) := do
  sendU32 cmd
  recvU32

/-- `checksum`. -/
def checksum (data : List UInt8) : UInt32 := UInt32.ofNat (data.map UInt8.toNat).sum

theorem byteSum_eq_checksum (bs : List UInt8) : byteSum bs = checksum bs := by
  induction bs using List.reverseRecOn with
  | nil => rfl
  | append_singleton bs b ih =>
    rw [byteSum_concat, ih, checksum, checksum, List.map_append, List.sum_append, UInt32.ofNat_add]
    congr 1
    apply UInt32.toNat_inj.mp
    have hb : b.toNat < 2 ^ 8 := b.toNat_lt
    rw [UInt8.toNat_toUInt32]
    show b.toNat = (UInt32.ofNat (b.toNat + 0)).toNat
    rw [Nat.add_zero, UInt32.toNat_ofNat_of_lt' (by
      show b.toNat < 2 ^ 32
      omega)]

/-- `CHUNK_SIZE`. -/
def chunkSize : Nat := 2048

/-! ## Upload -/

/-- `PSEXE_MAGIC`. -/
def psexeMagic : List UInt8 := "PS-X EXE".toList.map fun c => UInt8.ofNat c.toNat

/-- `PSEXE_HEADER_SIZE`. -/
def psexeHeaderSize : Nat := 2048

/-- What the host sends of a PS-EXE. -/
structure PsExe where
  pc0 : UInt32
  tAddr : UInt32
  tSize : UInt32
  payload : List UInt8
  length_payload : payload.length = tSize.toNat

/-- Where `cmd_upload` returns `False`, the beacon apart. -/
inductive UploadError where
  | notFound
  | tooSmall (length : Nat)
  | badMagic
  | rejected (resp : Option UInt32)
  | headerRejected (resp : Option UInt32)
  | chunkFailed (offset : Nat) (resp : Option UInt32)
  | checksumMismatch
  | unexpected (resp : Option UInt32)
  deriving DecidableEq, Repr

/-- The payload, padded with zeros up to `t_size`. -/
def padTo (size : Nat) (payload : List UInt8) : List UInt8 :=
  payload ++ List.replicate (size - payload.length) 0

/-- The header fields and the payload of a file. -/
def PsExe.ofFile (data : List UInt8) : PsExe where
  pc0 := get32 data 0x10
  tAddr := get32 data 0x18
  tSize := get32 data 0x1C
  payload :=
    padTo (get32 data 0x1C).toNat ((data.drop psexeHeaderSize).take (get32 data 0x1C).toNat)
  length_payload := by
    rw [padTo, List.length_append, List.length_replicate, List.length_take]
    omega

/-- The first part of `cmd_upload`: the file is read and taken apart. -/
def parsePsexe (file : Option (List UInt8)) : Except UploadError PsExe :=
  match file with
  | none => .error .notFound
  | some data =>
    if data.length < psexeHeaderSize then .error (.tooSmall data.length)
    else if data.take 8 ≠ psexeMagic then .error .badMagic
    else .ok (.ofFile data)

/-- The loop over the chunks.  Every chunk has a byte, so `t_size` turns are enough.  The
result is not returned by the source: the values of `sent` after each MORE. -/
def sendPayload (payload : List UInt8) (tSize : Nat) :
    (turns sent : Nat) → List Nat → Host (Except UploadError (List Nat))
  | 0, _, boundaries => return .ok boundaries
  | turns + 1, sent, boundaries =>
    if sent < tSize then do
      let chunkLen := min (tSize - sent) chunkSize
      sendAll ((payload.drop sent).take chunkLen)
      let resp ← recvU32
      if resp ≠ some shellMore then return .error (.chunkFailed sent resp)
      else sendPayload payload tSize turns (sent + chunkLen) (boundaries ++ [sent + chunkLen])
    else return .ok boundaries

/-- The end of `cmd_upload`, after the loop. -/
def uploadFinish : Except UploadError (List Nat) → Host (Except UploadError (List Nat))
  | .error e => return .error e
  | .ok boundaries => do
      let resp ← recvU32
      if resp = some shellDone then return .ok boundaries
      else if resp = some shellErr then return .error .checksumMismatch
      else return .error (.unexpected resp)

/-- `cmd_upload` from the command on. -/
def uploadExe (exe : PsExe) (csum : UInt32) : Host (Except UploadError (List Nat)) := do
  let resp ← sendCommand cmdUexe
  if resp ≠ some shellOk then return .error (.rejected resp)
  else
    sendU32 exe.pc0
    sendU32 exe.tAddr
    sendU32 exe.tSize
    sendU32 csum
    let resp ← recvU32
    if resp ≠ some shellOk then return .error (.headerRejected resp)
    else sendPayload exe.payload exe.tSize.toNat exe.tSize.toNat 0 [] >>= uploadFinish

/-- `cmd_upload` without the boot, once the beacon was seen.  It returns `True` where the
result is `ok`, and `False` at an error. -/
def cmdUpload (file : Option (List UInt8)) : Host (Except UploadError (List Nat)) :=
  match parsePsexe file with
  | .error e => return .error e
  | .ok exe => uploadExe exe (checksum exe.payload)

/-! ## Dump -/

/-- The end of `cmd_dump`: `False` is returned at two places; otherwise the data is in, and
the checksum the console sent is the one of the data, or not. -/
inductive DumpResult where
  | rejected
  | timeout (received : Nat)
  | checksumMatch (data : List UInt8)
  | checksumMismatch (data : List UInt8) (remoteCsum : Option UInt32)
  deriving DecidableEq, Repr

/-- The loop of `cmd_dump`, up to the data or the number of bytes at the timeout.  A read
gives at least a byte or ends the loop, so `size` turns are enough.  The second result is
not returned by the source: the values of `received` at which a MORE was sent. -/
def dumpLoop (size : Nat) : (turns : Nat) → (data : List UInt8) → List Nat →
    Host (Except Nat (List UInt8) × List Nat)
  | 0, data, boundaries => return (.ok data, boundaries)
  | turns + 1, data, boundaries =>
    if data.length < size then
      .recv .data (min (size - data.length) chunkSize) fun chunk =>
        if chunk.length = 0 then .done (.error data.length, boundaries)
        else
          let data := data ++ chunk
          if data.length % chunkSize = 0 ∨ data.length ≥ size then do
            sendU32 shellMore
            dumpLoop size turns data (boundaries ++ [data.length])
          else dumpLoop size turns data boundaries
    else return (.ok data, boundaries)

/-- `cmd_dump` of the host from the command on, with the values of `received` at its
MOREs. -/
def cmdDumpHost (addr size : UInt32) : Host (DumpResult × List Nat) := do
  let resp ← sendCommand cmdDumpTag
  if resp ≠ some shellOk then return (.rejected, [])
  else
    sendU32 addr
    sendU32 size
    match ← dumpLoop size.toNat size.toNat [] [] with
    | (.error received, boundaries) => return (.timeout received, boundaries)
    | (.ok data, boundaries) =>
      let remoteCsum ← recvU32
      if remoteCsum = some (checksum data) then return (.checksumMatch data, boundaries)
      else return (.checksumMismatch data remoteCsum, boundaries)

/-! ## Exchanges -/

section Exchange

variable {α γ : Type} {short : Read → Prop} {short' : Unit → Prop}
  {F : Pair Read Unit UInt8 α γ → Prop}

/-- The console reads a byte that is there. -/
theorem ends_getchar {l : Host α} {next : List UInt8 → Line γ} {b : UInt8}
    {rest tl : List UInt8} (h : Ends short short' F ⟨l, next [b], rest, tl⟩) :
    Ends short short' F ⟨l, .recv () 1 next, b :: rest, tl⟩ :=
  .read_right (determined_one _ b rest) h

/-- The console reads a word that is there. -/
theorem ends_serialRecvU32 {l : Host α} {g : Option UInt32 → Line γ} {v : UInt32}
    {rest tl : List UInt8} (h : Ends short short' F ⟨l, g (some v), rest, tl⟩) :
    Ends short short' F ⟨l, serialRecvU32 >>= g, bytes32 v ++ rest, tl⟩ := by
  iterate 4 refine ends_getchar ?_
  show Ends short short' F ⟨l, g (some (word32 _ _ _ _)), rest, tl⟩
  rw [word32_bytes32]
  exact h

/-- The host reads a word that is there. -/
theorem ends_recvU32 (hword : ¬ short .word) {f : Option UInt32 → Host α} {r : Line γ}
    {v : UInt32} {tr : List UInt8} (rest : List UInt8)
    (h : Ends short short' F ⟨f (some v), r, tr, rest⟩) :
    Ends short short' F ⟨recvU32 >>= f, r, tr, bytes32 v ++ rest⟩ := by
  refine .read_left (determined_whole hword rest) ?_
  show Ends short short' F ⟨f (some (get32 (bytes32 v) 0)), r, tr, rest⟩
  rw [get32_bytes32]
  exact h

/-- A word from the host to the console. -/
theorem ends_tell {f : Unit → Host α} {g : Option UInt32 → Line γ} {v : UInt32}
    {tl : List UInt8} (h : Ends short short' F ⟨f (), g (some v), [], tl⟩) :
    Ends short short' F ⟨sendU32 v >>= f, serialRecvU32 >>= g, [], tl⟩ :=
  .sendAll_left (ends_serialRecvU32 h)

/-- A word from the console to the host. -/
theorem ends_answer (hword : ¬ short .word) {f : Option UInt32 → Host α} {g : Unit → Line γ}
    {v : UInt32} {tr : List UInt8} (h : Ends short short' F ⟨f (some v), g (), tr, []⟩) :
    Ends short short' F ⟨recvU32 >>= f, serialSendU32 v >>= g, tr, []⟩ :=
  .sendAll_right (ends_recvU32 hword [] h)

/-- The console reads a command tag that is there. -/
theorem ends_shellCommand {l : Host α} {g : Turn → Line γ} {ld : Loader} {s : Shell} {cmd : UInt32}
    {rest tl : List UInt8}
    (h : Ends short short' F ⟨l,
      shellDispatch ld { s with statusText := "Processing..." } cmd >>= fun t => g t.listen,
      rest, tl⟩) :
    Ends short short' F ⟨l, shellCommand ld s >>= g, bytes32 cmd ++ rest, tl⟩ := by
  refine ends_getchar ?_
  show Ends short short' F ⟨_, (readTag _ >>= _) >>= _, _, _⟩
  iterate 3 refine ends_getchar ?_
  show Ends short short' F ⟨_, (shellDispatch ld _ (word32 _ _ _ _) >>= _) >>= _, rest, tl⟩
  rw [word32_bytes32, Proc.bind_assoc]
  exact h

/-- A command from the host to the console. -/
theorem ends_command {f : Option UInt32 → Host α} {g : Turn → Line γ} {ld : Loader} {s : Shell}
    {cmd : UInt32}
    (h : Ends short short' F ⟨recvU32 >>= f,
      shellDispatch ld { s with statusText := "Processing..." } cmd >>= fun t => g t.listen,
      [], []⟩) :
    Ends short short' F ⟨sendCommand cmd >>= f, shellCommand ld s >>= g, [], []⟩ := by
  rw [sendCommand, Proc.bind_assoc]
  exact .sendAll_left (ends_shellCommand h)

end Exchange

end Kloader
end Blackroo
