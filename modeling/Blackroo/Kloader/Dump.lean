import Blackroo.Kloader.Host

/-!
# Dumping memory

`cmd_dump` of the host against `cmd_dump` and `send_data` of the console.  The console
sends a chunk and waits for a MORE; the host does not know where a chunk ends other than
by its own count, asks for up to 2048 bytes wherever it is, and may get any part of them.

* Within a chunk the host's count is neither a multiple of 2048 nor the size, so it sends
  no MORE (`ends_dumpChunk`), and at the end of a chunk it is one of the two.
* Chunk by chunk the two loops stay in step (`ends_dumpLoop`).

The reads of `recv_u32` are a different matter: a part of a word is taken for a timeout,
so they have to return whole words (`not_dump_right_splitWord`).
-/

namespace Blackroo
namespace Kloader

open ByteMemory LittleEndian Process

/-- The ends of the first `k` chunks of a transfer. -/
def chunkEnds (size k : Nat) : List Nat :=
  (List.range k).map fun i => min size ((i + 1) * shellChunk)

/-- The number of chunks of a transfer. -/
def chunkCount (size : Nat) : Nat := (size + (shellChunk - 1)) / shellChunk

theorem chunkEnds_succ (size k : Nat) :
    chunkEnds size (k + 1) = chunkEnds size k ++ [min size ((k + 1) * shellChunk)] := by
  rw [chunkEnds, List.range_succ, List.map_append]
  rfl

section Loop

variable {α γ : Type} {short : Read → Prop} {short' : Unit → Prop}
  {F : Pair Read Unit UInt8 α γ → Prop}

/-- A chunk that is on the line is taken in any pieces, and answered once, at its end. -/
theorem ends_dumpChunk (hdata : short .data) {f : Except Nat (List UInt8) × List Nat → Host α}
    {r : Line γ} (hr : ∃ next, r = .recv () 1 next) {size turns : Nat} {data tl : List UInt8}
      {boundaries : List Nat}
    (htl : tl ≠ []) (hturns : size - data.length ≤ turns)
    (hend : (data ++ tl).length = size ∨
      (data ++ tl).length % chunkSize = 0 ∧ (data ++ tl).length < size)
    (hinside : ∀ n, data.length < n → n < (data ++ tl).length → n % chunkSize ≠ 0)
    (h : ∀ turns, size - (data ++ tl).length ≤ turns →
      Ends short short' F
        ⟨sendU32 shellMore >>= fun _ =>
          dumpLoop size turns (data ++ tl) (boundaries ++ [(data ++ tl).length]) >>= f,
          r, [], []⟩) :
    Ends short short' F ⟨dumpLoop size turns data boundaries >>= f, r, [], tl⟩ := by
  obtain ⟨next, rfl⟩ := hr
  -- induction on what is left of the chunk
  induction hk : tl.length using Nat.strong_induction_on generalizing data tl turns with
  | _ k ih =>
  subst hk
  have hpos : 0 < tl.length := List.length_pos_iff.mpr htl
  have hle : data.length + tl.length ≤ size := by
    rw [List.length_append] at hend
    omega
  obtain ⟨turns, rfl⟩ : ∃ t, turns = t + 1 := ⟨turns - 1, by omega⟩
  have hn : 1 ≤ min (size - data.length) chunkSize := by
    unfold chunkSize
    omega
  rw [dumpLoop, if_pos (by omega)]
  refine .pieces_left Nat.one_pos ?_ ?_
  · obtain ⟨b, rest, rfl⟩ := List.exists_cons_of_ne_nil htl
    exact ⟨[b], List.prefix_append [b] rest, .inr ⟨hdata, List.cons_ne_nil _ _, hn⟩⟩
  · rintro bs ⟨⟨rest, rfl⟩, hbs⟩
    have hbs : bs.length ≠ 0 := by
      rcases hbs with hbs | ⟨-, hbs, -⟩
      · omega
      · exact fun h0 => hbs (List.length_eq_zero_iff.mp h0)
    show Ends short short' F ⟨(if bs.length = 0 then _ else
      if (data ++ bs).length % chunkSize = 0 ∨ (data ++ bs).length ≥ size then _ else _) >>= f,
        _, [], _⟩
    rw [List.drop_left, if_neg hbs]
    simp only [← List.append_assoc] at hend hinside h
    rw [List.length_append] at hend hinside
    by_cases hrest : rest = []
    · subst hrest
      rw [List.append_nil] at h
      rw [List.length_nil, Nat.add_zero] at hend
      rw [if_pos (by omega), Proc.bind_assoc]
      exact h turns (by rw [List.length_append]; omega)
    · have hrest' := List.length_pos_iff.mpr hrest
      have hin : (data ++ bs).length % chunkSize ≠ 0 := by
        refine hinside _ ?_ ?_
        · rw [List.length_append]
          omega
        · omega
      have hlt : (data ++ bs).length < size := by omega
      rw [if_neg (by omega)]
      refine ih rest.length ?_ hrest ?_ ?_ ?_ h rfl
      · rw [List.length_append]
        omega
      · rw [List.length_append]
        omega
      · rw [List.length_append]
        exact hend
      · intro n hlo hhi
        rw [List.length_append] at hlo hhi
        exact hinside n (by omega) (by omega)

theorem dumpLoop_of_le {size turns : Nat} {data : List UInt8} {boundaries : List Nat}
    (h : size ≤ data.length) : dumpLoop size turns data boundaries =
      .done (.ok data, boundaries) := by
  cases turns with
  | zero => rfl
  | succ turns =>
    rw [dumpLoop, if_neg (Nat.not_lt.mpr h)]
    rfl

theorem sendLoop_zero (mem : Mem) (src : UInt32) (turns sent : Nat) (checksum : UInt32)
    (boundaries : List Nat) :
    sendLoop mem src turns 0 sent checksum boundaries = .done (some checksum, boundaries) := by
  cases turns <;> rfl

/-- **The two loops stay in step**, chunk by chunk. -/
theorem ends_dumpLoop (hdata : short .data)
    {f : Except Nat (List UInt8) × List Nat → Host α} {g : Option UInt32 × List Nat → Line γ}
    {mem : Mem} {src : UInt32} {size : Nat}
    (h : Ends short short' F
      ⟨f (.ok (load mem src size), chunkEnds size (chunkCount size)),
        g (some (byteSum (load mem src size)), chunkEnds size (chunkCount size)), [], []⟩)
    {k turns turns' sent : Nat} (hsent : sent = min size (k * shellChunk))
    (hk : k ≤ chunkCount size) (hturns : size - sent ≤ turns) (hturns' : size - sent ≤ turns') :
    Ends short short' F
      ⟨dumpLoop size turns (load mem src sent) (chunkEnds size k) >>= f,
        sendLoop mem src turns' (size - sent) sent (byteSum (load mem src sent)) (chunkEnds size k)
          >>= g,
        [], []⟩ := by
  -- induction on the chunks that are still to come
  induction hm : chunkCount size - k generalizing k turns turns' sent with
  | zero =>
    obtain rfl : k = chunkCount size := by omega
    obtain rfl : sent = size := by
      unfold chunkCount shellChunk at hsent
      omega
    rw [dumpLoop_of_le (length_load mem src sent).ge, Nat.sub_self, sendLoop_zero]
    exact h
  | succ m ih =>
    have hlt : k * shellChunk < size := by
      unfold chunkCount shellChunk at hm
      unfold shellChunk
      omega
    have hsent' : sent = k * shellChunk := by omega
    obtain ⟨turns', rfl⟩ : ∃ t, turns' = t + 1 := ⟨turns' - 1, by omega⟩
    have hnext : sent + min (size - sent) shellChunk = min size ((k + 1) * shellChunk) := by
      rw [Nat.succ_mul]
      omega
    have hgrow : sent < min size ((k + 1) * shellChunk) := by
      unfold shellChunk at hlt hsent' ⊢
      omega
    have hload : load mem src sent ++
        load mem (src + UInt32.ofNat sent) (min (size - sent) shellChunk) =
          load mem src (min size ((k + 1) * shellChunk)) := by
      rw [← load_add, hnext]
    rw [sendLoop, if_neg (by omega)]
    simp only [Proc.bind_assoc]
    refine .sendAll_right ?_
    rw [List.nil_append]
    refine ends_dumpChunk hdata ⟨_, rfl⟩ ?_ ?_ ?_ ?_ ?_
    · refine List.ne_nil_of_length_pos ?_
      rw [length_load]
      unfold shellChunk
      omega
    · rw [length_load]
      exact hturns
    · rw [hload, length_load]
      unfold chunkSize shellChunk
      omega
    · rw [hload, length_load, length_load, hsent']
      unfold chunkSize shellChunk
      omega
    · intro turns hturns
      refine ends_tell ?_
      rw [hload, length_load] at hturns
      rw [if_neg (not_not.mpr rfl), Nat.sub_sub, hload, length_load, ← byteSum_append, hload, hnext,
        ← chunkEnds_succ]
      exact ih rfl (by omega) hturns (by omega) (by omega)

end Loop

/-! ## The whole transfer -/

/-- The end of a dump that went well: the host has the memory from `addr` on and the
checksum it computed is the one the console sent; the console has sent all chunks, and the
host sent one MORE for each, when it had received as much as the end of the chunk; nothing
is left on the line. -/
def Dumped (s : Shell) (addr size : UInt32) (host : DumpResult × List Nat) (turn : Turn)
    (toConsole toHost : List UInt8) : Prop :=
  ∃ s', turn = .again s' ∧ host.1 = .checksumMatch (load s.mem addr size.toNat) ∧
    s'.boundaries = chunkEnds size.toNat (chunkCount size.toNat) ∧ host.2 = s'.boundaries ∧
    toConsole = [] ∧ toHost = []

theorem shellDispatch_dump (ld : Loader) (s : Shell) :
    shellDispatch ld s cmdDumpTag = cmdDump s >>= fun s => .done (.again s) := by
  rw [shellDispatch]
  iterate 5 rw [if_neg (by decide)]
  rw [if_pos rfl]
  rfl

/-- **Every dump is right, however the payload is divided into reads.**  The reads of words
return whole words. -/
theorem dump_right (addr size : UInt32) (ld : Loader) (s : Shell) :
    Completes SplitsData (fun _ => False) (Dumped s addr size)
      ⟨cmdDumpHost addr size, shellCommand ld s, [], []⟩ := by
  have hword : ¬ SplitsData .word := Read.noConfusion
  have hdata : SplitsData .data := rfl
  rw [← Proc.bind_done (shellCommand ld s)]
  refine Ends.completes (ends_command ?_)
  rw [shellDispatch_dump, cmdDump]
  simp only [Proc.bind_assoc]
  refine ends_answer hword ?_
  rw [if_neg (not_not.mpr rfl)]
  iterate 2
    refine ends_tell ?_
    simp only [Proc.bind_assoc]
  rw [sendData]
  simp only [Proc.bind_assoc]
  have hstart : 0 = min size.toNat (0 * shellChunk) := by rw [Nat.zero_mul, Nat.min_zero]
  refine ends_dumpLoop hdata ?_ hstart (Nat.zero_le _) (Nat.sub_le _ _) (Nat.sub_le _ _)
  simp only [Proc.bind_assoc]
  refine ends_answer hword ?_
  rw [if_pos (by rw [byteSum_eq_checksum])]
  exact .done ⟨⟨_, rfl, rfl, rfl, rfl, rfl, rfl⟩⟩

/-- **A word must not be split**: if the read of the first OKOK returns two bytes, the host
gives up and the console waits for an address for ever. -/
theorem not_dump_right_splitWord :
    ¬ Completes (fun _ => True) (fun _ => False) (Dumped freshShell 0x80010000 1)
      ⟨cmdDumpHost 0x80010000 1, shellCommand ⟨2048, []⟩ freshShell, [], []⟩ := by
  intro h
  -- the console takes the command and answers
  have hsent := (((h.of_step .sendLeft).of_step .sendLeft).of_step .sendLeft).of_step .sendLeft
  have hread := (((hsent.of_step (.recvRight (determined_one _ _ _).1)).of_step
    (.recvRight (determined_one _ _ _).1)).of_step (.recvRight (determined_one _ _ _).1)).of_step
    (.recvRight (determined_one _ _ _).1)
  have hok := (((hread.of_step .sendRight).of_step .sendRight).of_step .sendRight).of_step
    .sendRight
  -- and the host gets two bytes of the answer
  have hpiece : Piece True 4 ([0x4F, 0x4B] ++ [0x4F, 0x4B]) [(0x4F : UInt8), 0x4B] :=
    ⟨List.prefix_append _ _, .inr ⟨trivial, List.cons_ne_nil _ _, by decide⟩⟩
  have hsplit := hok.of_step (.recvLeft hpiece)
  exact not_completes_of_waiting Nat.one_pos hsplit

end Kloader
end Blackroo
