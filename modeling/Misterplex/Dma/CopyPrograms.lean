import Misterplex.Dma.CopyRun

/-!
# Copies made by the programs and the fallback

A program the builder returns copies its range burst by burst and ends. With
word-aligned addresses the copy is exact, whatever the memory holds, precisely
when no destination byte is written before a later burst reads it as a source
byte. The chunks of the fallback follow one another through the range.
-/

namespace Misterplex.Dma

open BlockCopy Channel List

/-- The bytes of a chunk, each with its source and its destination. -/
def Chunk.bytes (c : Chunk) : List (BitVec 32 × BitVec 32) :=
  (cells c.src_phys c.len).zip (cells c.dst_phys c.len)

variable (src dst : BitVec 32)

/-- The copy of every byte of a range is what the memory held before. -/
def Copied (len : ℕ) (before after : BitVec 32 → BitVec 8) : Prop :=
  ∀ i<len, after (dst+BitVec.ofNat 32 i)=before (src+BitVec.ofNat 32 i)

variable {out_cap : ℕ}

theorem foldl_emit (bs out : List (BitVec 8))
    (h : out.length+bs.length≤out_cap) : bs.foldl (emit out_cap) out = out ++ bs := by
  induction bs generalizing out with
  | nil => exact (append_nil out).symm
  | cons b bs ih =>
    rw [length_cons] at h
    have hroom : emit out_cap out b = out ++ [b] := if_pos (by omega)
    rw [foldl_cons,hroom,ih (out ++ [b]) (by rw [length_append,length_singleton]; omega),
      append_assoc,singleton_append]

theorem code_length (src dst ccr : BitVec 32) (inner outer : ℕ) :
    (moveBytes src dst ccr ++ loopBytes inner outer ++ endBytes).length≤31 := by
  rw [loopBytes]
  split
  · exact le_refl 31
  · exact (by decide : 27≤31)

/-- A program that is built sets the registers, runs the loops and ends. -/
theorem pl330BuildMem2MemProgramLoops_spec {src dst ccr : BitVec 32}
    {inner outer : ℕ} {code : List (BitVec 8)}
    (h : pl330BuildMem2MemProgramLoops out_cap src dst ccr inner outer=some code) :
    code = moveBytes src dst ccr ++ loopBytes inner outer ++ endBytes := by
  have hlen := code_length src dst ccr inner outer
  rw [pl330BuildMem2MemProgramLoops] at h
  split at h
  · exact absurd h (Option.some_ne_none code).symm
  · rw [foldl_emit _ _ (by rw [length_nil]; omega)] at h
    exact (Option.some.inj h).symm

/-- The program the builder returns: an allowed burst, loop counts that run
over the whole length, and the code of these. -/
theorem pl330BuildMem2MemProgramAuto_spec {src dst len : BitVec 32}
    {max_burst_cap force_burst : ℕ} {nonsecure_ccr : Bool} {p : Program}
    (h : pl330BuildMem2MemProgramAuto out_cap src dst len.toNat max_burst_cap force_burst
      nonsecure_ccr=some p) :
    ∃ inner outer, 1≤p.burst ∧ p.burst≤16 ∧ Count inner ∧ Count outer ∧
      len.toNat=4*p.burst*(inner*outer) ∧
      p.ccr=pl330BuildCcrBurst p.burst nonsecure_ccr ∧
      p.code = moveBytes src dst p.ccr ++ loopBytes inner outer ++ endBytes := by
  rw [pl330BuildMem2MemProgramAuto] at h
  split at h
  · exact absurd h (Option.some_ne_none p).symm
  · rename_i l hpick
    have hspec := pl330PickBurstAndLoops_spec hpick
    have hbounds := allowedBursts_bounds hspec.1
    have hccr := (pl330BuildCcrBurst_beats hbounds.1 hbounds.2 nonsecure_ccr).2.2
    rw [if_neg hccr] at h
    obtain ⟨code,hcode,hp⟩ := Option.map_eq_some_iff.mp h
    rw [← hp]
    exact ⟨l.inner,l.outer,hbounds.1,hbounds.2,hspec.2.1,hspec.2.2.1,hspec.2.2.2,rfl,
      pl330BuildMem2MemProgramLoops_spec hcode⟩

theorem program_ends {src dst len : BitVec 32}
    {max_burst_cap force_burst : ℕ} {nonsecure_ccr : Bool} {p : Program}
    (h : pl330BuildMem2MemProgramAuto out_cap src dst len.toNat max_burst_cap force_burst
      nonsecure_ccr=some p)
    (hsrc : src.toNat%4=0) (hdst : dst.toNat%4=0) :
    len.toNat=4*p.burst*(len.toNat/(4*p.burst)) ∧
      ∀ s, Started s → ∃ t, Ends p.code s t ∧ t.events = s.events ++ [0#8] ∧
        t.transfers=transfersOf p.burst (len.toNat/(4*p.burst)) src dst ∧
        t.mem=copyBlocks (4*p.burst) (len.toNat/(4*p.burst)) src dst s.mem := by
  obtain ⟨inner,outer,hpos,hle,hinner,houter,hlen,hccr,hcode⟩ :=
    pl330BuildMem2MemProgramAuto_spec h
  have hbeats := pl330BuildCcrBurst_beats hpos hle nonsecure_ccr
  rw [← hccr] at hbeats
  have hset : Setting src dst p.ccr p.burst := ⟨hsrc,hdst,hbeats.1,hbeats.2.1,hle⟩
  have hdiv : len.toNat/(4*p.burst)=inner*outer := by
    rw [hlen]
    exact Nat.mul_div_cancel_left _ (by omega)
  rw [hdiv]
  exact ⟨hlen,fun s hs => copy_ends hset hinner houter hcode hs⟩

/-- The bytes from an offset to the end of a range. -/
def bytesFrom (len done : ℕ) : List (BitVec 32 × BitVec 32) :=
  (cells (src+BitVec.ofNat 32 done) (len-done)).zip
    (cells (dst+BitVec.ofNat 32 done) (len-done))

theorem bytesFrom_chunk {len done chunk : ℕ} (h : done+chunk≤len) : bytesFrom src dst len done =
      Chunk.bytes ⟨src+BitVec.ofNat 32 done,dst+BitVec.ofNat 32 done,chunk⟩ ++
        bytesFrom src dst len (done+chunk) := by
  have hrest : len-done=chunk+(len-(done+chunk)) := by omega
  rw [bytesFrom,hrest,cells_append,cells_append,zip_append (by simp),cell_add,cell_add]
  rfl

/-- The chunks from an offset on are a first part of the rest of the range, and
all of it when every chunk succeeds. -/
theorem chunkedFrom_bytes (one_ok : ℕ → Bool) (src dst : BitVec 32) (len done : ℕ) :
    (chunkedFrom one_ok src dst len done).1.flatMap Chunk.bytes <+: bytesFrom src dst len done ∧
      ((∀ d, one_ok d=true) →
        (chunkedFrom one_ok src dst len done).2=true ∧
        (chunkedFrom one_ok src dst len done).1.flatMap Chunk.bytes =
          bytesFrom src dst len done) := by
  induction hrem : len-done using Nat.strong_induction_on generalizing done with
  | _ n ih =>
    rw [chunkedFrom]
    by_cases hdone : done < len
    · rw [if_pos hdone]
      let chunk := if 256*4 < len-done then 256*4 else len-done
      have hchunk : 0<chunk ∧ done+chunk≤len := by
        simp only [chunk]
        split
        · omega
        · omega
      have hsplit := bytesFrom_chunk src dst hchunk.2
      cases hok : one_ok done with
      | true =>
        rw [if_pos rfl,hsplit,flatMap_cons]
        have hnext := ih (len-(done+chunk)) (by omega) (done+chunk) rfl
        constructor
        · exact (prefix_append_right_inj _).mpr hnext.1
        · intro hall
          exact ⟨(hnext.2 hall).1,congrArg _ (hnext.2 hall).2⟩
      | false =>
        rw [if_neg Bool.false_ne_true,hsplit,flatMap_singleton]
        constructor
        · exact prefix_append _ _
        · intro hall
          exact absurd ((hall done).symm.trans hok) Bool.true_eq_false.mp
    · rw [if_neg hdone]
      have hzero : len-done=0 := by omega
      have hnil : bytesFrom src dst len done=[] := by
        rw [bytesFrom,hzero]
        rfl
      rw [hnil,flatMap_nil]
      exact ⟨prefix_refl [],fun _ => ⟨rfl,rfl⟩⟩

theorem chunkedFrom_len (one_ok : ℕ → Bool) (src dst : BitVec 32) (len done : ℕ) :
    ∀ c∈(chunkedFrom one_ok src dst len done).1, 0<c.len ∧ c.len≤1024 := by
  induction hrem : len-done using Nat.strong_induction_on generalizing done with
  | _ n ih =>
    rw [chunkedFrom]
    by_cases hdone : done < len
    · rw [if_pos hdone]
      let chunk := if 256*4 < len-done then 256*4 else len-done
      have hchunk : 0<chunk ∧ chunk≤1024 := by
        simp only [chunk]
        split
        · omega
        · omega
      cases one_ok done with
      | true =>
        intro c hc
        cases mem_cons.mp hc with
        | inl heq => exact heq ▸ hchunk
        | inr hrest => exact ih (len-(done+chunk)) (by omega) (done+chunk) rfl c hrest
      | false =>
        intro c hc
        rw [mem_singleton.mp hc]
        exact hchunk
    · rw [if_neg hdone]
      exact fun c hc => absurd hc not_mem_nil

/-- A channel over a memory that names its cells, about to execute its first
instruction. -/
def fresh : Channel :=
  { pc := 0, sar := 0, dar := 0, ccr := 0, lc0 := 0, lc1 := 0, fifo := [],
    mem := fun a => a.setWidth 8, transfers := [], events := [], status := .executing }

/-- The program of a short copy through the largest burst that fits. -/
def shortProgram (len : ℕ) : Program :=
  (pl330BuildMem2MemProgramAuto 64 src dst len 16 0 true).getD ⟨[],0,0⟩

/-- A copy of three words to the address of the second one, and a copy of one
word between unaligned addresses: the program is built and ends, and a byte of
the copy is not its source byte. -/
theorem copy_differs :
    (∃ p t, pl330BuildMem2MemProgramAuto 64 0x1000#32 0x1004#32 12 16 0 true=some p ∧
      Ends p.code fresh t ∧ ¬ Copied 0x1000#32 0x1004#32 12 fresh.mem t.mem) ∧
    (∃ p t, pl330BuildMem2MemProgramAuto 64 0x1001#32 0x2011#32 4 16 0 true=some p ∧
      Ends p.code fresh t ∧ ¬ Copied 0x1001#32 0x2011#32 4 fresh.mem t.mem) := by
  constructor
  · refine ⟨shortProgram 0x1000#32 0x1004#32 12,
      (step (shortProgram 0x1000#32 0x1004#32 12).code)^[15] fresh,by decide,
      ⟨⟨15,rfl⟩,by decide⟩,fun h => ?_⟩
    exact absurd (h 4 (by decide)) (by decide)
  · refine ⟨shortProgram 0x1001#32 0x2011#32 4,
      (step (shortProgram 0x1001#32 0x2011#32 4).code)^[9] fresh,by decide,
      ⟨⟨9,rfl⟩,by decide⟩,fun h => ?_⟩
    exact absurd (h 3 (by decide)) (by decide)

/-- A program built for word-aligned addresses ends, has issued a read and a
write of whole words for every burst in order, has written no byte outside its
destination, and copies the range whatever the memory holds precisely when no
destination byte is written before a later burst reads it. A program is built
exactly when the buffer is large enough and the length fits an allowed burst.
The chunks of the fallback are a first part of the range in order, and the
whole range when every chunk succeeds. -/
theorem mem2mem_copies (out_cap : ℕ) (src dst len : BitVec 32) (max_burst_cap force_burst : ℕ)
    (nonsecure_ccr : Bool) :
    (∀ p, pl330BuildMem2MemProgramAuto out_cap src dst len.toNat max_burst_cap force_burst
          nonsecure_ccr=some p →
        src.toNat%4=0 → dst.toNat%4=0 →
        (∀ s, Started s → ∃ t, Ends p.code s t ∧ t.events = s.events ++ [0#8] ∧
          t.transfers=transfersOf p.burst (len.toNat/(4*p.burst)) src dst ∧
          ∀ a, len.toNat≤(a-dst).toNat → t.mem a=s.mem a) ∧
        ((∀ s t, Started s → Ends p.code s t → Copied src dst len.toNat s.mem t.mem) ↔
          Clear (4*p.burst) len.toNat src dst)) ∧
    ((pl330BuildMem2MemProgramAuto out_cap src dst len.toNat max_burst_cap force_burst
          nonsecure_ccr).isSome=true ↔
        40≤out_cap ∧ ∃ b∈allowedBursts max_burst_cap force_burst, FitsBurst len.toNat b) ∧
    (∀ one_ok : ℕ → Bool,
        (chunked one_ok src dst len.toNat).1.flatMap Chunk.bytes <+:
            (cells src len.toNat).zip (cells dst len.toNat) ∧
          ((∀ d, one_ok d=true) →
            (chunked one_ok src dst len.toNat).1.flatMap Chunk.bytes =
              (cells src len.toNat).zip (cells dst len.toNat)) ∧
          ∀ c∈(chunked one_ok src dst len.toNat).1, 0<c.len ∧ c.len≤1024) := by
  refine ⟨?_,pl330BuildMem2MemProgramAuto_isSome_iff out_cap src dst len max_burst_cap
    force_burst nonsecure_ccr,?_⟩
  · intro p hp hsrc hdst
    obtain ⟨hlen,hends⟩ := program_ends hp hsrc hdst
    have hfit : 4*p.burst*(len.toNat/(4*p.burst))≤2^32 := by
      rw [← hlen]
      exact len.isLt.le
    constructor
    · intro s hs
      obtain ⟨t,ht,hevents,htransfers,hmem⟩ := hends s hs
      refine ⟨t,ht,hevents,htransfers,fun a ha => ?_⟩
      rw [hmem]
      exact copyBlocks_outside s.mem hfit (hlen ▸ ha)
    · constructor
      · intro hcopied
        rw [hlen]
        refine clear_of_copyBlocks (x := 0#8) (y := 1#8) (by decide) hfit fun mem i hi => ?_
        have hs : Started { fresh with mem := mem } := ⟨rfl,rfl,rfl,rfl⟩
        obtain ⟨t,ht,-,-,hmem⟩ := hends _ hs
        rw [← hmem]
        exact hcopied _ t hs ht i (hlen ▸ hi)
      · intro hclear s t hs ht i hi
        obtain ⟨u,hu,-,-,hmem⟩ := hends s hs
        rw [Ends.unique ht hu,hmem]
        rw [hlen] at hclear hi
        exact copyBlocks_of_clear hfit hclear s.mem hi
  · intro one_ok
    have hbytes := chunkedFrom_bytes one_ok src dst len.toNat 0
    have hwhole : bytesFrom src dst len.toNat 0 =
        (cells src len.toNat).zip (cells dst len.toNat) := by
      rw [bytesFrom,BitVec.add_zero,BitVec.add_zero,Nat.sub_zero]
    rw [hwhole] at hbytes
    exact ⟨hbytes.1,fun hall => (hbytes.2 hall).2,chunkedFrom_len one_ok src dst len.toNat 0⟩

/-- A copy of sixteen words between two pages. -/
theorem mem2mem_copies_words :
    Clear 64 64 0x1000#32 0x2000#32 ∧
      ∀ s t, Started s → Ends (shortProgram 0x1000#32 0x2000#32 64).code s t →
        Copied 0x1000#32 0x2000#32 64 s.mem t.mem := by
  have hclear : Clear 64 64 0x1000#32 0x2000#32 := by
    unfold Clear
    decide
  have hcopies := ((mem2mem_copies 64 0x1000#32 0x2000#32 64#32 16 0 true).1
    (shortProgram 0x1000#32 0x2000#32 64) (by decide) (by decide) (by decide)).2
  exact ⟨hclear,hcopies.mpr hclear⟩

end Misterplex.Dma
