import Blackroo.Kloader.Host

/-!
# Uploading a PS-EXE

`cmd_upload` of the host against `cmd_upload_exe` of the console, over a line that loses
nothing and keeps the order.  The two sides count the chunks on their own: the host by
`sent`, the console by `received`.  `ends_payload` keeps the two loops in step, and
everything else is an exchange of words.

## Where the bytes go

The console stores what it receives at the address in the header, whatever that is.  A store into
the memory of kloader itself, or to where there is no RAM, ends what can be said of the run: the
shell is lost, and the host waits for an answer (`lost_uploadExe`).  `HasPlace` is the condition
that no byte of the file goes there, and that two addresses of one cell of RAM do not get different
bytes; it is about the file and the memory map, and `upload_overwrites_kloader` is a file without
it.

## A byte that changes on the way

The line is not changed for this.  A line that alters one byte of the payload is a host with another
payload and the checksum of the first one (`alter_uploadExe`), and a sum of bytes notices the change
of a single one (`checksum_set_ne`).  So the run is again one of two programs over a line that keeps
what it is given, and ends with FAIL.
-/

namespace Blackroo
namespace Kloader

open LittleEndian MappedMemory Process

/-! ## The payload -/

/-- What was received is in memory, and has been added up. -/
structure Receipt.Stored (t : Target UInt32) (ram : Cells UInt32) (dst : UInt32) (r : Receipt) :
    Prop where
  copied : copy t dst r.data ram = some r.ram
  checksum_eq : r.checksum = byteSum r.data

theorem receipt_copy_concat {t : Target UInt32} {ram : Cells UInt32} {dst : UInt32} {r : Receipt}
    (h : r.Stored t ram dst) (bs : List UInt8) :
    copy t dst (r.data ++ bs) ram = copy t (dst + UInt32.ofNat r.data.length) bs r.ram := by
  rw [copy_append, h.copied, Option.bind_some]

theorem Receipt.Stored.push {t : Target UInt32} {ram ram' : Cells UInt32} {dst : UInt32}
    {r : Receipt} (h : r.Stored t ram dst) {b : UInt8}
    (hstore : store t (dst + UInt32.ofNat r.data.length) b r.ram = some ram') :
    (r.push ram' b).Stored t ram dst where
  copied := by
    show copy t dst (r.data ++ [b]) ram = some ram'
    rw [receipt_copy_concat h, copy, hstore]
    rfl
  checksum_eq := by
    show r.checksum + b.toUInt32 = byteSum (r.data ++ [b])
    rw [byteSum_concat, h.checksum_eq]

section Payload

variable {α γ : Type} {short : Read → Prop} {short' : Unit → Prop}
  {F : Pair Read Unit UInt8 α γ → Prop} {t : Target UInt32} {ram : Cells UInt32} {dst : UInt32}

/-- The console reads a chunk, or the part of it that is there, unless it is lost on the way. -/
theorem ends_receiveChunk {l : Host α} {g : Transfer × Receipt → Line γ} {n : Nat}
    {bs tl : List UInt8} {r : Receipt} (hn : bs.length ≤ n) (hr : r.Stored t ram dst)
    (hdone : bs.length = n → ∀ r' : Receipt, r'.Stored t ram dst → r'.data = r.data ++ bs →
      r'.boundaries = r.boundaries → Ends short short' F ⟨l, g (.complete, r'), [], tl⟩)
    (hshort : bs.length < n → ∀ (m : Nat) (r' : Receipt),
      Ends short short' F ⟨l, receiveChunk t dst (m + 1) r' >>= g, [], tl⟩)
    (hlost : copy t dst (r.data ++ bs) ram = none → ∀ (r' : Receipt) (rest : List UInt8),
      Ends short short' F ⟨l, g (.lost, r'), rest, tl⟩) :
    Ends short short' F ⟨l, receiveChunk t dst n r >>= g, bs, tl⟩ := by
  induction bs generalizing n r with
  | nil =>
    cases n with
    | zero => exact hdone rfl r hr (List.append_nil _).symm rfl
    | succ n => exact hshort (Nat.succ_pos n) n r
  | cons b bs ih =>
    obtain ⟨n, rfl⟩ : ∃ m, n = m + 1 := ⟨n - 1, by rw [List.length_cons] at hn; omega⟩
    simp only [List.length_cons, Nat.add_le_add_iff_right, Nat.add_right_cancel_iff,
      Nat.add_lt_add_iff_right] at hn hdone hshort
    rw [receiveChunk, Proc.bind_assoc]
    refine ends_getchar ?_
    simp only [List.head?_cons, Proc.bind]
    cases hstore : store t (dst + UInt32.ofNat r.data.length) b r.ram with
    | none =>
      refine hlost ?_ r bs
      rw [receipt_copy_concat hr, copy, hstore]
      rfl
    | some ram' =>
      have hdata : (r.push ram' b).data ++ bs = r.data ++ b :: bs := by
        show r.data ++ [b] ++ bs = _
        rw [List.append_assoc]
        rfl
      rw [← hdata] at hdone hlost
      exact ih hn (hr.push hstore) (fun hlen r' hr' hd hb => hdone hlen r' hr' hd hb) hshort hlost

/-- **The two loops stay in step**: they have the same boundaries, and the console ends with the
payload.  If the payload is shorter than announced, or the console is lost, the host comes to wait
for an answer. -/
theorem ends_payload (hword : ¬ short .word) {f : Except UploadError (List Nat) → Host α}
    {g : Transfer × Receipt → Line γ} {payload : List UInt8} {total : Nat}
    (htotal : payload.length ≤ total)
    (h : payload.length = total → ∀ r : Receipt, r.Stored t ram dst → r.data = payload →
      Ends short short' F ⟨f (.ok r.boundaries), g (.complete, r), [], []⟩)
    (hshort : payload.length < total → ∀ (next : List UInt8 → Host α) (next' : List UInt8 → Line γ)
      (r : Receipt), (Proc.recv () 1 next').idle = (g (.failed, r)).idle →
        F ⟨.recv .word 4 next, .recv () 1 next', [], []⟩)
    (hlost : copy t dst payload ram = none → ∀ (next : List UInt8 → Host α) (r : Receipt)
      (rest : List UInt8), Ends short short' F ⟨.recv .word 4 next, g (.lost, r), rest, []⟩)
    {turns sent : Nat} {r : Receipt} (hturns : total - sent ≤ turns)
    (hr : r.Stored t ram dst) (hdata : r.data = payload.take sent) (hsent : sent ≤ payload.length) :
    Ends short short' F
      ⟨sendPayload payload total turns sent r.boundaries >>= f,
        receiveLoop t dst turns (total - sent) r >>= g, [], []⟩ := by
  induction turns generalizing sent r with
  | zero =>
    refine h (by omega) r hr ?_
    rw [hdata, List.take_of_length_le (by omega)]
  | succ turns ih =>
    by_cases hlt : sent < total
    · rw [sendPayload, if_pos hlt, receiveLoop, if_neg (by omega)]
      simp only [Proc.bind_assoc]
      have hlen : ((payload.drop sent).take (min (total - sent) chunkSize)).length =
          min (min (total - sent) chunkSize) (payload.length - sent) := by
        rw [List.length_take, List.length_drop]
      have hnext : r.data ++ (payload.drop sent).take (min (total - sent) chunkSize) =
          payload.take (sent + min (total - sent) chunkSize) := by
        rw [hdata, List.take_add]
      have hpos : 0 < min (total - sent) chunkSize := by
        unfold chunkSize
        omega
      refine .sendAll_left ?_
      rw [List.nil_append]
      refine ends_receiveChunk (show _ ≤ min (total - sent) shellChunk from
        hlen.trans_le (min_le_left _ _)) hr ?_ ?_ ?_
      · intro hwhole r' hr' hdata' hboundaries
        simp only [ne_eq, not_true_eq_false, if_false, Proc.bind_assoc]
        refine ends_answer hword ?_
        rw [hnext] at hdata'
        have hreceived : r'.data.length = sent + min (total - sent) chunkSize := by
          have hchunk : min (min (total - sent) chunkSize) (payload.length - sent) =
            min (total - sent) chunkSize := hlen.symm.trans hwhole
          rw [hdata', List.length_take]
          omega
        rw [← hboundaries, ← hreceived, Nat.sub_sub]
        rw [← hreceived] at hdata'
        show Ends short short' F ⟨_, receiveLoop t dst turns
          (total - (sent + min (total - sent) chunkSize)) _ >>= g, [], []⟩
        rw [← hreceived]
        refine ih (r := { r' with boundaries := r'.boundaries ++ [r'.data.length] }) (by omega)
          ⟨hr'.copied, hr'.checksum_eq⟩ hdata' ?_
        rw [hdata', List.length_take]
        omega
      · -- the file ends within this chunk
        intro hcut m r'
        have hend : payload.length < total := by
          have : min (min (total - sent) chunkSize) (payload.length - sent) <
            min (total - sent) chunkSize := hlen.symm.trans_lt hcut
          omega
        exact .stop (stopped_both_waiting (by decide) Nat.one_pos) (hshort hend _ _ r' rfl)
      · intro hnone r' rest
        refine hlost ?_ _ r' rest
        rw [hnext] at hnone
        rw [← List.take_append_drop (sent + min (total - sent) chunkSize) payload, copy_append,
          hnone, Option.bind_none]
    · rw [sendPayload, if_neg hlt, receiveLoop, if_pos (by omega)]
      refine h (by omega) r hr ?_
      rw [hdata, List.take_of_length_le (by omega)]

/-- The payload against `receive_data`: the answer is DONE or FAIL, by the checksum. -/
theorem ends_receiveData (hword : ¬ short .word)
    {f : Except UploadError (List Nat) → Host α} {g : Transfer × Receipt → Line γ}
    {payload : List UInt8} {size expected : UInt32} (hsize : payload.length ≤ size.toNat)
    (hmatch : payload.length = size.toNat → byteSum payload = expected →
      ∀ r : Receipt, r.Stored t ram dst → r.data = payload →
        Ends short short' F ⟨f (.ok r.boundaries), g (.complete, r), [], bytes32 shellDone⟩)
    (hmismatch : payload.length = size.toNat → byteSum payload ≠ expected →
      ∀ r : Receipt, r.Stored t ram dst → r.data = payload →
        Ends short short' F ⟨f (.ok r.boundaries), g (.failed, r), [], bytes32 shellErr⟩)
    (hshort : payload.length < size.toNat → ∀ (next : List UInt8 → Host α)
      (next' : List UInt8 → Line γ) (r : Receipt),
        (Proc.recv () 1 next').idle = (g (.failed, r)).idle →
          F ⟨.recv .word 4 next, .recv () 1 next', [], []⟩)
    (hlost : copy t dst payload ram = none → ∀ (next : List UInt8 → Host α) (r : Receipt)
      (rest : List UInt8), Ends short short' F ⟨.recv .word 4 next, g (.lost, r), rest, []⟩) :
    Ends short short' F
      ⟨sendPayload payload size.toNat size.toNat 0 [] >>= f,
        receiveData t dst ram size expected >>= g, [], []⟩ := by
  rw [receiveData, Proc.bind_assoc]
  refine ends_payload (r := ⟨ram, 0, [], []⟩) (g := fun p => receiveEnd expected p >>= g) hword
    hsize
    ?_ (fun hlt next next' r hidle => hshort hlt next next' r hidle) hlost (Nat.sub_le _ _)
    ⟨rfl, rfl⟩ rfl (Nat.zero_le _)
  intro hwhole r hr hdata
  rw [receiveEnd]
  by_cases hsum : byteSum payload = expected
  · rw [if_neg (not_not.mpr (by rw [hr.checksum_eq, hdata, hsum])), Proc.bind_assoc]
    refine .sendAll_right ?_
    exact hmatch hwhole hsum r hr hdata
  · rw [if_pos (by rw [hr.checksum_eq, hdata]; exact hsum), Proc.bind_assoc]
    refine .sendAll_right ?_
    exact hmismatch hwhole hsum r hr hdata

end Payload

/-! ## The whole transfer -/

/-- The end of a transfer of `exe`, announced with the checksum `csum`. -/
structure Transferred (exe : PsExe) (csum : UInt32) (s : Shell)
    (host : Except UploadError (List Nat)) (s' : Shell) (toHost : List UInt8) : Prop where
  copied : copy s.map.target exe.tAddr exe.payload s.ram = some s'.ram
  map_eq : s'.map = s.map
  matched : byteSum exe.payload = csum → host = .ok s'.boundaries ∧ toHost = []
  mismatch : byteSum exe.payload ≠ csum →
    host = .error .checksumMismatch ∧ s'.lastCmdText = "UEXE FAIL" ∧ toHost = bytes32 shellErr

theorem shellDispatch_uexe (ld : Loader) (s : Shell) :
    shellDispatch ld s cmdUexe = cmdUploadExe s := by
  rw [shellDispatch, if_neg (by decide), if_pos rfl]

/-- The shell with the header of a UEXE. -/
def Shell.withHeader (s : Shell) (entry addr size : UInt32) : Shell :=
  { s with
    lastEntry := entry
    lastLoad := addr
    lastSize := size
    statusText := "RECEIVING - do not touch" }

/-- The tag and the header of an upload. -/
theorem ends_header {α γ : Type} {short : Read → Prop} {short' : Unit → Prop}
    {F : Pair Read Unit UInt8 α γ → Prop} (hword : ¬ short .word) {ld : Loader} {s : Shell}
    {entry addr size csum : UInt32} {e e' : Option UInt32 → Host α} {f : Host α}
    {g : Turn → Line γ}
    (h : Ends short short' F ⟨f, receiveData s.map.target addr s.ram size csum >>= fun p =>
      uploadExeEnd (s.withHeader entry addr size) p >>= fun turn => g turn.listen, [], []⟩) :
    Ends short short' F
      ⟨sendCommand cmdUexe >>= fun r => if r ≠ some shellOk then e r else
        sendU32 entry >>= fun _ => sendU32 addr >>= fun _ => sendU32 size >>= fun _ =>
          sendU32 csum >>= fun _ => recvU32 >>= fun r => if r ≠ some shellOk then e' r else f,
        shellCommand ld s >>= g, [], []⟩ := by
  refine ends_command ?_
  rw [shellDispatch_uexe, cmdUploadExe]
  simp only [Proc.bind_assoc]
  refine ends_answer hword ?_
  rw [if_neg (not_not.mpr rfl)]
  iterate 4
    refine ends_tell ?_
    simp only [Proc.bind_assoc]
  refine ends_answer hword ?_
  rw [if_neg (not_not.mpr rfl)]
  exact h

/-- **The host and the console complete the transfer of any payload** that has a place in memory. -/
theorem completes_uploadExe (exe : PsExe) (csum : UInt32) (ld : Loader) (s : Shell)
    (hplace : Writable s.map.target exe.tAddr exe.tSize.toNat) {short : Read → Prop}
    {short' : Unit → Prop} (hword : ¬ short .word) :
    Completes short short' (fun host turn toConsole toHost =>
        ∃ s', turn = .again s' ∧ toConsole = [] ∧ Transferred exe csum s host s' toHost)
      ⟨uploadExe exe csum, shellCommand ld s, [], []⟩ := by
  have hsome : copy s.map.target exe.tAddr exe.payload s.ram ≠ none := by
    rw [← Option.isSome_iff_ne_none, copy_isSome_iff, exe.length_payload]
    exact hplace
  rw [← Proc.bind_done (shellCommand ld s)]
  refine Ends.completes (ends_header hword ?_)
  refine ends_receiveData hword exe.length_payload.le ?_ ?_
    (fun hlt => absurd exe.length_payload hlt.ne) fun hnone => absurd hnone hsome
  · intro _ hsum r hr hdata
    refine ends_recvU32 hword [] (.done ⟨⟨_, rfl, rfl, ?_⟩⟩)
    exact ⟨hdata ▸ hr.copied, rfl, fun _ => ⟨rfl, rfl⟩, fun hne => absurd hsum hne⟩
  · intro _ hsum r hr hdata
    simp only [uploadExeEnd, uploadExeFail, Proc.bind_assoc]
    refine .sendAll_right (ends_recvU32 hword _ ?_)
    refine .done ⟨⟨_, rfl, rfl, ?_⟩⟩
    exact ⟨hdata ▸ hr.copied, rfl, fun heq => absurd heq hsum, fun _ => ⟨rfl, rfl, rfl⟩⟩

/-- **A payload that has no place is the end of the console**, and the host waits. -/
theorem lost_uploadExe (exe : PsExe) (csum : UInt32) (ld : Loader) (s : Shell)
    (hplace : ¬ Writable s.map.target exe.tAddr exe.tSize.toNat) {short : Read → Prop}
    {short' : Unit → Prop} (hword : ¬ short .word) :
    Ends short short' (fun p => ∃ s', p.right = .done (.left .lost s'))
      ⟨uploadExe exe csum, shellCommand ld s, [], []⟩ := by
  have hnone : copy s.map.target exe.tAddr exe.payload s.ram = none := by
    rw [← Option.not_isSome_iff_eq_none, copy_isSome_iff, exe.length_payload]
    exact hplace
  rw [← Proc.bind_done (shellCommand ld s)]
  refine ends_header hword (ends_receiveData hword exe.length_payload.le ?_ ?_ ?_ ?_)
  · exact fun _ _ r hr hdata => absurd (hnone.symm.trans (hdata ▸ hr.copied)) (by simp)
  · exact fun _ _ r hr hdata => absurd (hnone.symm.trans (hdata ▸ hr.copied)) (by simp)
  · exact fun hlt => absurd exe.length_payload hlt.ne
  · exact fun _ next r rest => .stop (stopped_waiting_left (by decide)) ⟨_, rfl⟩

/-! ## An altered byte

A line that changes one byte of the payload is a host that sends another payload under the
old checksum. -/

theorem alter_recvU32 {α : Type} (v : UInt8) (i : Nat) (f : Option UInt32 → Host α) :
    (recvU32 >>= f).alter v i = recvU32 >>= fun resp => (f resp).alter v i :=
  alter_recv v i Read.word 4 fun data =>
    f (if data.length < 4 then none else some (get32 data 0))

/-- A step that goes on only after the expected answer. -/
theorem alter_expect {α : Type} (v : UInt8) (i : Nat) (w : UInt32) (e : Option UInt32 → α)
    (f : Option UInt32 → Host α) :
    (recvU32 >>= fun resp => if resp ≠ some w then pure (e resp) else f resp).alter v i =
      recvU32 >>= fun resp => if resp ≠ some w then pure (e resp) else (f resp).alter v i := by
  rw [alter_recvU32]
  congr 1
  funext resp
  by_cases h : resp = some w
  · rw [if_neg (not_not.mpr h), if_neg (not_not.mpr h)]
  · rw [if_pos h, if_pos h]
    exact alter_done v i _

theorem alter_sendU32 {α : Type} (v : UInt8) {i : Nat} (w : UInt32) (f : Unit → Host α) :
    (sendU32 w >>= f).alter v (4 + i) = sendU32 w >>= fun u => (f u).alter v i := by
  rw [sendU32, alter_sendAll_of_le v f (Nat.le_add_right 4 i), length_bytes32,
    Nat.add_sub_cancel_left]

/-- Only what is still to be sent matters. -/
theorem sendPayload_congr {p p' : List UInt8} {n turns sent : Nat} {boundaries : List Nat}
    (h : p.drop sent = p'.drop sent) :
    sendPayload p n turns sent boundaries = sendPayload p' n turns sent boundaries := by
  induction turns generalizing sent boundaries with
  | zero => rfl
  | succ turns ih =>
    have hnext : p.drop (sent + min (n - sent) chunkSize) =
        p'.drop (sent + min (n - sent) chunkSize) := by
      rw [← List.drop_drop, h, List.drop_drop]
    rw [sendPayload, sendPayload, h]
    simp only [ih hnext]

theorem alter_sendPayload {α : Type} {payload : List UInt8} {k : Nat} (hk : k < payload.length)
    (v : UInt8) {f : Except UploadError (List Nat) → Host α}
    (hf : ∀ e i, (f (.error e)).alter v i = f (.error e)) {turns sent : Nat} {boundaries : List Nat}
    (hsent : sent ≤ k) (hturns : payload.length - sent ≤ turns) :
    (sendPayload payload payload.length turns sent boundaries >>= f).alter v (k - sent) =
      sendPayload (payload.set k v) payload.length turns sent boundaries >>= f := by
  induction turns generalizing sent boundaries with
  | zero => omega
  | succ turns ih =>
    have hlen : ((payload.drop sent).take (min (payload.length - sent) chunkSize)).length =
        min (payload.length - sent) chunkSize := by
      rw [List.length_take, List.length_drop]
      exact min_eq_left (min_le_left _ _)
    have hpos : 0 < min (payload.length - sent) chunkSize := by
      unfold chunkSize
      omega
    rw [sendPayload, sendPayload, if_pos (by omega), if_pos (by omega)]
    simp only [Proc.bind_assoc]
    by_cases hin : k - sent < min (payload.length - sent) chunkSize
    · rw [alter_sendAll_of_lt v _ (by omega)]
      have hchunk : ((payload.set k v).drop sent).take (min (payload.length - sent) chunkSize) =
          ((payload.drop sent).take (min (payload.length - sent) chunkSize)).set (k - sent) v := by
        rw [List.drop_set, if_neg (by omega), List.take_set]
      have hrest : ∀ b, sendPayload (payload.set k v) payload.length turns
          (sent + min (payload.length - sent) chunkSize) b =
            sendPayload payload payload.length turns
          (sent + min (payload.length - sent) chunkSize) b := by
        intro b
        refine sendPayload_congr ?_
        rw [List.drop_set, if_pos (by omega)]
      rw [hchunk]
      simp only [hrest]
    · rw [alter_sendAll_of_le v _ (by omega), hlen]
      have hchunk : ((payload.set k v).drop sent).take (min (payload.length - sent) chunkSize) =
          (payload.drop sent).take (min (payload.length - sent) chunkSize) := by
        rw [List.drop_set, if_neg (by omega), List.take_set, List.set_eq_of_length_le (by omega)]
      rw [hchunk]
      congr 1
      funext u
      rw [alter_recvU32]
      congr 1
      funext resp
      by_cases hresp : resp = some shellMore
      · rw [if_neg (not_not.mpr hresp), if_neg (not_not.mpr hresp), Nat.sub_sub]
        exact ih (by omega) (by omega)
      · rw [if_pos hresp, if_pos hresp]
        exact hf _ _

/-- The file with one byte of the payload changed. -/
def PsExe.setByte (exe : PsExe) (k : Nat) (v : UInt8) : PsExe :=
  { exe with
    payload := exe.payload.set k v
    length_payload := by rw [List.length_set, exe.length_payload] }

/-- The payload starts after the command and the four words of the header. -/
theorem alter_uploadExe (exe : PsExe) (csum : UInt32) {k : Nat} (hk : k < exe.payload.length)
    (v : UInt8) :
    (uploadExe exe csum).alter v (20 + k) = uploadExe (exe.setByte k v) csum := by
  rw [uploadExe, uploadExe, sendCommand]
  simp only [Proc.bind_assoc]
  rw [show 20 + k = 4 + (4 + (4 + (4 + (4 + (k - 0))))) by omega]
  simp only [alter_sendU32, alter_expect]
  have hpayload : (sendPayload exe.payload exe.tSize.toNat exe.tSize.toNat 0 [] >>=
      uploadFinish).alter v (k - 0) = sendPayload (exe.payload.set k v) exe.tSize.toNat
        exe.tSize.toNat 0 [] >>= uploadFinish := by
    rw [← exe.length_payload]
    refine alter_sendPayload hk v ?_ (Nat.zero_le k) (Nat.sub_le _ 0)
    intro e i
    exact alter_done v i _
  simp only [hpayload]
  rfl

/-! ## Checksums -/

/-- A byte sum notices the change of one byte. -/
theorem checksum_set_ne {bs : List UInt8} {k : Nat} {v : UInt8} (hk : k < bs.length)
    (hv : v ≠ bs[k]) : checksum (bs.set k v) ≠ checksum bs := by
  intro heq
  have hset : ∀ w : UInt8, (checksum (bs.set k w)).toNat =
      (((bs.take k).map UInt8.toNat).sum + w.toNat + ((bs.drop (k + 1)).map UInt8.toNat).sum) %
        2 ^ 32 := by
    intro w
    rw [checksum, UInt32.toNat_ofNat', List.set_eq_take_append_cons_drop, if_pos hk,
      List.map_append,
      List.map_cons, List.sum_append, List.sum_cons, Nat.add_assoc]
  have h₁ := hset v
  have h₂ := hset bs[k]
  rw [List.set_getElem_self hk, ← heq, h₁] at h₂
  have hlt : v.toNat < 2 ^ 8 := v.toNat_lt
  have hlt' : bs[k].toNat < 2 ^ 8 := bs[k].toNat_lt
  exact hv (UInt8.toNat_inj.mp (by omega))

/-! ## Files -/

/-- A PS-EXE file: long enough for the header, and with the magic. -/
def IsPsExe (file : List UInt8) : Prop :=
  psexeHeaderSize ≤ file.length ∧ file.take 8 = psexeMagic

instance (file : List UInt8) : Decidable (IsPsExe file) := inferInstanceAs (Decidable (_ ∧ _))

/-- Byte `i` of the payload of a file; past the end of the file it is zero. -/
def payloadByte (file : List UInt8) (i : Nat) : UInt8 := file.getD (psexeHeaderSize + i) 0

theorem cmdUpload_of_isPsExe {file : List UInt8} (h : IsPsExe file) :
    cmdUpload (some file) = uploadExe (.ofFile file) (checksum (PsExe.ofFile file).payload) := by
  rw [cmdUpload, parsePsexe, if_neg (Nat.not_lt.mpr h.1), if_neg (not_not.mpr h.2)]

theorem getD_padTo (n i : Nat) (bs : List UInt8) : (padTo n bs).getD i 0 = bs.getD i 0 := by
  rw [padTo]
  by_cases hi : i < bs.length
  · exact List.getD_append _ _ _ _ hi
  · rw [List.getD_append_right _ _ _ _ (Nat.not_lt.mp hi),
      List.getD_eq_default bs _ (Nat.not_lt.mp hi),
      List.getD_eq_getElem?_getD, List.getElem?_replicate]
    split <;> rfl

theorem payload_ofFile (file : List UInt8) :
    (PsExe.ofFile file).payload =
      (List.range (PsExe.ofFile file).tSize.toNat).map (payloadByte file) := by
  refine List.ext_getElem ?_ ?_
  · rw [(PsExe.ofFile file).length_payload, List.length_map, List.length_range]
  · intro i h₁ h₂
    rw [List.getElem_map, List.getElem_range, payloadByte, ← List.getD_eq_getElem _ 0 h₁]
    have hi : i < (get32 file 0x1C).toNat := by
      rw [(PsExe.ofFile file).length_payload] at h₁
      exact h₁
    show (padTo _ _).getD i 0 = _
    rw [getD_padTo, List.getD_eq_getElem?_getD, List.getElem?_take_of_lt hi, List.getElem?_drop,
      ← List.getD_eq_getElem?_getD]

/-- The memory of the console from `t_addr` on holds the payload of a file, padded to `t_size`. -/
def Loaded (file : List UInt8) (s : Shell) : Prop :=
  Holds s.map.target s.ram (get32 file 0x18) (payloadByte file) (get32 file 0x1C).toNat

/-- There is a place for a file: its addresses are those of RAM that kloader is not in, and those of
one cell are to get one byte. -/
structure HasPlace (file : List UInt8) (s : Shell) : Prop where
  writable : Writable s.map.target (get32 file 0x18) (get32 file 0x1C).toNat
  coherent : Coherent s.map.target (get32 file 0x18) (payloadByte file) (get32 file 0x1C).toNat

/-- Bytes that were copied are the payload of the file in memory. -/
theorem HasPlace.loaded {file : List UInt8} {s s' : Shell} (h : HasPlace file s)
    {payload : List UInt8}
    (hpayload : payload = (List.range (get32 file 0x1C).toNat).map (payloadByte file))
    (hmap : s'.map = s.map)
    (hcopy : copy s.map.target (get32 file 0x18) payload s.ram = some s'.ram) : Loaded file s' := by
  have hlen : payload.length = (get32 file 0x1C).toNat := by
    rw [hpayload, List.length_map, List.length_range]
  rw [Loaded, hmap, ← hlen]
  refine holds_of_copy (hlen.symm ▸ h.coherent) (fun i hi => ?_) hcopy
  rw [hlen] at hi
  simp [hpayload, List.getD_eq_getElem?_getD, hi]

/-- The end of an upload that went well: the host returns `True`, the two sides have counted
the same chunks, the payload is in memory, and nothing is left on the line. -/
def Uploaded (file : List UInt8) (host : Except UploadError (List Nat)) (turn : Turn)
    (toConsole toHost : List UInt8) : Prop :=
  ∃ s', turn = .again s' ∧ host = .ok s'.boundaries ∧ Loaded file s' ∧ toConsole = [] ∧ toHost = []

/-- The end of an upload that the console refused: where a DONE was due the host got a FAIL
and returned `False`.  A second FAIL is left on the line. -/
def Refused (host : Except UploadError (List Nat)) (turn : Turn)
    (toConsole toHost : List UInt8) : Prop :=
  ∃ s', turn = .again s' ∧ host = .error .checksumMismatch ∧ s'.lastCmdText = "UEXE FAIL" ∧
    toConsole = [] ∧ toHost = bytes32 shellErr

/-- What comes before the payload: the command and the four words of the header. -/
def payloadStart : Nat := 20

/-- A file with this address, two bytes of payload and a `t_size` of three. -/
def shortFile (addr : UInt32) : List UInt8 :=
  psexeMagic ++ List.replicate 8 0 ++ bytes32 addr ++ List.replicate 4 0 ++
    bytes32 addr ++ bytes32 3 ++ List.replicate 2016 0 ++ [7, 9]

theorem hasPlace_shortFile : HasPlace (shortFile 0x80090000) freshShell :=
  ⟨by decide +kernel, by decide +kernel⟩

end Kloader
end Blackroo
