import Misterplex.Dma.Factoring

/-!
# Running a copy program

One pass through the loop body copies one burst. The inner loop runs its count
of bursts and the outer loop its count of inner loops, so a program started at
its first instruction ends with the whole range copied burst by burst.
-/

namespace Misterplex.Dma

open BlockCopy BitVec

/-- Both sides of a burst of words. -/
def wordBeats (burst : ℕ) : Beats := ⟨true,4,burst⟩

/-- The bursts of a copy on the bus, a read and a write for each. -/
def transfersOf (burst n : ℕ) (src dst : BitVec 32) : List Transfer :=
  (List.range n).flatMap fun k =>
    [⟨false,src+BitVec.ofNat 32 (4*burst*k),wordBeats burst⟩,
      ⟨true,dst+BitVec.ofNat 32 (4*burst*k),wordBeats burst⟩]

/-- The setting of a copy: word-aligned addresses, a burst and its control
word. -/
structure Setting (src dst ccr : BitVec 32) (burst : ℕ) : Prop where
  src_aligned : src.toNat%4=0
  dst_aligned : dst.toNat%4=0
  src_beats : srcBeats ccr=wordBeats burst
  dst_beats : dstBeats ccr=wordBeats burst
  /-- The burst is not longer than a control word can say. -/
  burst_le : burst≤16

/-- The channel has copied `k` bursts of the range and waits for the next. -/
structure AtBurst (s₀ : Channel) (src dst ccr : BitVec 32) (burst k : ℕ) (s : Channel) :
    Prop where
  status : s.status = .executing
  /-- The next burst is read behind the copied ones. -/
  sar : s.sar=src+BitVec.ofNat 32 (4*burst*k)
  /-- The next burst is written behind the copied ones. -/
  dar : s.dar=dst+BitVec.ofNat 32 (4*burst*k)
  /-- The control word is in place. -/
  ccr : s.ccr=ccr
  fifo : s.fifo=[]
  /-- The bursts are copied one after the other. -/
  mem : s.mem=copyBlocks (4*burst) k src dst s₀.mem
  transfers : s.transfers=transfersOf burst k src dst
  events : s.events = s₀.events

theorem transfersOf_succ (burst n : ℕ) (src dst : BitVec 32) :
    transfersOf burst (n+1) src dst = transfersOf burst n src dst ++
      [⟨false,src+BitVec.ofNat 32 (4*burst*n),wordBeats burst⟩,
        ⟨true,dst+BitVec.ofNat 32 (4*burst*n),wordBeats burst⟩] := by
  rw [transfersOf,List.range_succ,List.flatMap_append,List.flatMap_singleton,← transfersOf]

theorem aligned_add {addr : BitVec 32} (h : addr.toNat%4=0) (burst k : ℕ) :
    (addr+BitVec.ofNat 32 (4*burst*k)).toNat%4=0 := by
  have hword : 4*burst*k%4=0 := by
    rw [Nat.mul_assoc]
    exact Nat.mul_mod_right 4 _
  rw [toNat_add,toNat_ofNat]
  omega

theorem wordBeats_addresses {addr : BitVec 32} (h : addr.toNat%4=0) (burst : ℕ) :
    (wordBeats burst).addresses addr=cells addr (4*burst) := by
  rw [Beats.addresses,wordBeats,if_pos rfl,h,Nat.sub_zero]

theorem wordBeats_next {addr : BitVec 32} (h : addr.toNat%4=0) (burst : ℕ) :
    (wordBeats burst).next addr=addr+BitVec.ofNat 32 (4*burst) := by
  rw [Beats.next,wordBeats,if_pos rfl,h,Nat.sub_zero]

theorem word_emit32 (v : BitVec 32) :
    word (v.extractLsb' 0 8) (v.extractLsb' 8 8) (v.extractLsb' 16 8) (v.extractLsb' 24 8)=v := by
  have hhigh : v.extractLsb' 24 8 ++ v.extractLsb' 16 8 = v.extractLsb' 16 16 :=
    extractLsb'_append_extractLsb'_eq_extractLsb' (by rfl)
  have hmiddle : v.extractLsb' 16 16 ++ v.extractLsb' 8 8 = v.extractLsb' 8 24 :=
    extractLsb'_append_extractLsb'_eq_extractLsb' (by rfl)
  have hlow : v.extractLsb' 8 24 ++ v.extractLsb' 0 8 = v.extractLsb' 0 32 :=
    extractLsb'_append_extractLsb'_eq_extractLsb' (by rfl)
  calc word (v.extractLsb' 0 8) (v.extractLsb' 8 8) (v.extractLsb' 16 8) (v.extractLsb' 24 8)
      = (v.extractLsb' 24 8 ++ v.extractLsb' 16 8) ++ v.extractLsb' 8 8 ++
          v.extractLsb' 0 8 := rfl
    _ = v.extractLsb' 16 16 ++ v.extractLsb' 8 8 ++ v.extractLsb' 0 8 :=
        congrArg (fun x => x ++ v.extractLsb' 8 8 ++ v.extractLsb' 0 8) hhigh
    _ = v.extractLsb' 8 24 ++ v.extractLsb' 0 8 := congrArg (· ++ v.extractLsb' 0 8) hmiddle
    _ = v.extractLsb' 0 32 := hlow
    _ = v := extractLsb'_eq_self

variable {code : List (BitVec 8)} {s₀ s : Channel} {src dst ccr : BitVec 32} {burst k p : ℕ}

namespace Channel

theorem load_store (hset : Setting src dst ccr burst) (hs : AtBurst s₀ src dst ccr burst k s) :
    ((s.exec 1 .ld).exec 1 .st) =
      { s with
        pc := s.pc+1+1
        sar := src+BitVec.ofNat 32 (4*burst*(k+1))
        dar := dst+BitVec.ofNat 32 (4*burst*(k+1))
        fifo := []
        mem := copyBlocks (4*burst) (k+1) src dst s₀.mem
        transfers := transfersOf burst (k+1) src dst } := by
  have hsar := aligned_add hset.src_aligned burst k
  have hdar := aligned_add hset.dst_aligned burst k
  have hmul : 4*burst*k+4*burst=4*burst*(k+1) := by ring
  have hfit := hset.burst_le
  have hcopy := writeAll_cells (n := 4*burst) (by omega)
    (src+BitVec.ofNat 32 (4*burst*k)) (dst+BitVec.ofNat 32 (4*burst*k)) s.mem
  have hlen : ¬ ((cells (src+BitVec.ofNat 32 (4*burst*k)) (4*burst)).map s.mem).length <
      (cells (dst+BitVec.ofNat 32 (4*burst*k)) (4*burst)).length := by
    rw [List.length_map,cells_length,cells_length]
    exact lt_irrefl _
  have hdrop : ((cells (src+BitVec.ofNat 32 (4*burst*k)) (4*burst)).map s.mem).drop
      (cells (dst+BitVec.ofNat 32 (4*burst*k)) (4*burst)).length=[] := by
    apply List.drop_eq_nil_of_le
    rw [List.length_map,cells_length,cells_length]
  rw [copyBlocks,← hs.mem,transfersOf_succ,← hs.transfers]
  simp only [exec,load,store,advance,hs.ccr,hs.sar,hs.dar,hs.fifo,hset.src_beats,
    hset.dst_beats,wordBeats_addresses hsar,wordBeats_addresses hdar,wordBeats_next hsar,
    wordBeats_next hdar,List.nil_append,if_neg hlen,hdrop,hcopy,cell_add,hmul,
    List.append_assoc,List.cons_append]

open Runs

theorem body (hset : Setting src dst ccr burst) (hs : AtBurst s₀ src dst ccr burst k s)
    (hpc : s.pc=p) (hld : decode (code.drop p)=some (.ld,1))
    (hst : decode (code.drop (p+1))=some (.st,1)) :
    ∃ t, Runs code s t ∧ AtBurst s₀ src dst ccr burst (k+1) t ∧ t.pc=p+2 ∧
      t.lc0=s.lc0 ∧ t.lc1=s.lc1 := by
  have hload := instruction hs.status hpc hld
  have hpc' : (s.exec 1 .ld).pc=p+1 := by
    rw [← hpc]
    rfl
  have hstore := instruction (s := s.exec 1 .ld) hs.status hpc' hst
  rw [load_store hset hs] at hstore
  refine ⟨_,hload.trans hstore,?_,?_,rfl,rfl⟩
  · constructor
    · exact hs.status
    · rfl
    · rfl
    · exact hs.ccr
    · rfl
    · rfl
    · rfl
    · exact hs.events
  · rw [← hpc]

theorem lpend_zero {lc : Counter} {jump : BitVec 8} (h : s.counter lc=0#8) :
    s.exec 2 (.lpend lc jump)=s.advance 2 := by
  rw [exec,if_pos h]

theorem lpend_jump (lc : Counter) {jump : BitVec 8} (h : s.counter lc≠0#8) :
    s.exec 2 (.lpend lc jump) =
      { s.setCounter lc (s.counter lc-1#8) with pc := s.pc-jump.toNat } := by
  rw [exec,if_neg h]

theorem counter_pred {c : BitVec 8} {n : ℕ} (h : c.toNat=n+1) :
    c≠0#8 ∧ (c-1#8).toNat=n := by
  constructor
  · bv_omega
  · bv_omega

theorem AtBurst.of_eq {t : Channel} (hs : AtBurst s₀ src dst ccr burst k s)
    (h : t = { s with pc := t.pc, lc0 := t.lc0, lc1 := t.lc1 }) :
    AtBurst s₀ src dst ccr burst k t := by
  constructor
  · exact (congrArg Channel.status h).trans hs.status
  · exact (congrArg Channel.sar h).trans hs.sar
  · exact (congrArg Channel.dar h).trans hs.dar
  · exact (congrArg Channel.ccr h).trans hs.ccr
  · exact (congrArg Channel.fifo h).trans hs.fifo
  · exact (congrArg Channel.mem h).trans hs.mem
  · exact (congrArg Channel.transfers h).trans hs.transfers
  · exact (congrArg Channel.events h).trans hs.events

theorem inner_loop (hset : Setting src dst ccr burst) {n : ℕ}
    (hld : decode (code.drop p)=some (.ld,1)) (hst : decode (code.drop (p+1))=some (.st,1))
    (hend : decode (code.drop (p+2))=some (.lpend .lc0 2#8,2))
    (hs : AtBurst s₀ src dst ccr burst k s) (hpc : s.pc=p) (hn : s.lc0.toNat=n) :
    ∃ t, Runs code s t ∧ AtBurst s₀ src dst ccr burst (k+(n+1)) t ∧ t.pc=p+4 ∧
      t.lc1=s.lc1 := by
  induction n generalizing s k with
  | zero =>
    obtain ⟨t,hrun,hat,htpc,hlc0,hlc1⟩ := body hset hs hpc hld hst
    have hzero : t.counter .lc0=0#8 := by
      change t.lc0=0#8
      rw [hlc0]
      exact eq_of_toNat_eq hn
    have hlast := instruction hat.status htpc hend
    rw [lpend_zero hzero] at hlast
    refine ⟨t.advance 2,hrun.trans hlast,AtBurst.of_eq hat rfl,?_,hlc1⟩
    rw [advance,htpc]
  | succ n ih =>
    obtain ⟨t,hrun,hat,htpc,hlc0,hlc1⟩ := body hset hs hpc hld hst
    have hpred := counter_pred (c := t.lc0) (n := n) (by rw [hlc0,hn])
    have hjump := instruction hat.status htpc hend
    rw [lpend_jump .lc0 hpred.1] at hjump
    have hback : ({ t.setCounter .lc0 (t.counter .lc0-1#8) with
        pc := t.pc-(2#8).toNat } : Channel).pc=p := by
      rw [htpc]
      rfl
    obtain ⟨u,hrest,hau,hupc,hulc1⟩ := ih (AtBurst.of_eq hat rfl) hback hpred.2
    rw [Nat.add_assoc,Nat.add_comm 1] at hau
    exact ⟨u,(hrun.trans hjump).trans hrest,hau,hupc,hulc1.trans hlc1⟩

theorem outer_loop (hset : Setting src dst ccr burst) {n : ℕ} {iter : BitVec 8}
    (hlp : decode (code.drop p)=some (.lp .lc0 iter,2))
    (hld : decode (code.drop (p+2))=some (.ld,1))
    (hst : decode (code.drop (p+2+1))=some (.st,1))
    (hend : decode (code.drop (p+2+2))=some (.lpend .lc0 2#8,2))
    (hout : decode (code.drop (p+2+4))=some (.lpend .lc1 6#8,2))
    (hs : AtBurst s₀ src dst ccr burst k s) (hpc : s.pc=p) (hn : s.lc1.toNat=n) :
    ∃ t, Runs code s t ∧ AtBurst s₀ src dst ccr burst (k+(iter.toNat+1)*(n+1)) t ∧
      t.pc=p+8 := by
  induction n generalizing s k with
  | zero =>
    have hload := instruction hs.status hpc hlp
    obtain ⟨t,hrun,hat,htpc,hlc1⟩ := inner_loop hset (n := iter.toNat)
      (s := s.exec 2 (.lp .lc0 iter)) hld hst hend (AtBurst.of_eq hs rfl) (congrArg (· + 2) hpc) rfl
    have hzero : t.counter .lc1=0#8 := by
      change t.lc1=0#8
      rw [hlc1]
      exact eq_of_toNat_eq hn
    have hlast := instruction hat.status htpc hout
    rw [lpend_zero hzero] at hlast
    refine ⟨t.advance 2,(hload.trans hrun).trans hlast,?_,?_⟩
    · rw [Nat.zero_add,Nat.mul_one]
      exact AtBurst.of_eq hat rfl
    · rw [advance,htpc]
  | succ n ih =>
    have hload := instruction hs.status hpc hlp
    obtain ⟨t,hrun,hat,htpc,hlc1⟩ := inner_loop hset (n := iter.toNat)
      (s := s.exec 2 (.lp .lc0 iter)) hld hst hend (AtBurst.of_eq hs rfl) (congrArg (· + 2) hpc) rfl
    have hpred := counter_pred (c := t.lc1) (n := n) (by rw [hlc1]; exact hn)
    have hjump := instruction hat.status htpc hout
    rw [lpend_jump .lc1 hpred.1] at hjump
    have hback : ({ t.setCounter .lc1 (t.counter .lc1-1#8) with
        pc := t.pc-(6#8).toNat } : Channel).pc=p := by
      rw [htpc]
      rfl
    obtain ⟨u,hrest,hau,hupc⟩ := ih (AtBurst.of_eq hat rfl) hback hpred.2
    have hcount : k+(iter.toNat+1)+(iter.toNat+1)*(n+1) =
        k+(iter.toNat+1)*(n+1+1) := by ring
    rw [hcount] at hau
    exact ⟨u,((hload.trans hrun).trans hjump).trans hrest,hau,hupc⟩

variable (burst) in
theorem setup {tail : List (BitVec 8)} (hcode : code = moveBytes src dst ccr ++ tail)
    (hs : Started s₀) :
    ∃ t, Runs code s₀ t ∧ AtBurst s₀ src dst ccr burst 0 t ∧ t.pc=18 := by
  have hsar : decode (code.drop 0)=some (.mov .sar src,6) := by
    rw [← word_emit32 src,hcode]
    rfl
  have hccr : decode (code.drop 6)=some (.mov .ccr ccr,6) := by
    rw [← word_emit32 ccr,hcode]
    rfl
  have hdar : decode (code.drop 12)=some (.mov .dar dst,6) := by
    rw [← word_emit32 dst,hcode]
    rfl
  have hpc₁ : (s₀.exec 6 (.mov .sar src)).pc=6 := congrArg (· + 6) hs.pc
  have hpc₂ : ((s₀.exec 6 (.mov .sar src)).exec 6 (.mov .ccr ccr)).pc=12 :=
    congrArg (· + 6) hpc₁
  have hfirst := instruction hs.status hs.pc hsar
  have hsecond := instruction (s := s₀.exec 6 (.mov .sar src)) hs.status hpc₁ hccr
  have hthird := instruction (s := (s₀.exec 6 (.mov .sar src)).exec 6 (.mov .ccr ccr))
    hs.status hpc₂ hdar
  refine ⟨_,(hfirst.trans hsecond).trans hthird,?_,?_⟩
  · constructor
    · exact hs.status
    · exact (add_zero src).symm
    · exact (add_zero dst).symm
    · rfl
    · exact hs.fifo
    · rfl
    · exact hs.transfers
    · rfl
  · exact congrArg (· + 6) hpc₂

theorem loops (hset : Setting src dst ccr burst) {inner outer : ℕ} (hinner : Count inner)
    (houter : Count outer) (hcode : code = moveBytes src dst ccr ++ loopBytes inner outer ++ endBytes)
    (hs : AtBurst s₀ src dst ccr burst 0 s) (hpc : s.pc=18) :
    ∃ t, Runs code s t ∧ AtBurst s₀ src dst ccr burst (inner*outer) t ∧
      code.drop t.pc=endBytes := by
  have hiter : (BitVec.ofNat 8 (inner-1)).toNat+1=inner := by
    have hbounds := hinner
    unfold Count at hbounds
    rw [toNat_ofNat]
    omega
  by_cases hnested : 1<outer
  · have hcount : (BitVec.ofNat 8 (outer-1)).toNat+1=outer := by
      have hbounds := houter
      unfold Count at hbounds
      rw [toNat_ofNat]
      omega
    rw [loopBytes,if_pos hnested] at hcode
    have hlp : decode (code.drop 18)=some (.lp .lc1 (BitVec.ofNat 8 (outer-1)),2) := by
      rw [hcode]
      rfl
    have hlp0 : decode (code.drop 20)=some (.lp .lc0 (BitVec.ofNat 8 (inner-1)),2) := by
      rw [hcode]
      rfl
    have hld : decode (code.drop (20+2))=some (.ld,1) := by
      rw [hcode]
      rfl
    have hst : decode (code.drop (20+2+1))=some (.st,1) := by
      rw [hcode]
      rfl
    have hend : decode (code.drop (20+2+2))=some (.lpend .lc0 2#8,2) := by
      rw [hcode]
      rfl
    have hout : decode (code.drop (20+2+4))=some (.lpend .lc1 6#8,2) := by
      rw [hcode]
      rfl
    have hload := instruction hs.status hpc hlp
    obtain ⟨t,hrun,hat,htpc⟩ := outer_loop hset
      (s := s.exec 2 (.lp .lc1 (BitVec.ofNat 8 (outer-1)))) hlp0 hld hst hend hout
      (AtBurst.of_eq hs rfl) (congrArg (· + 2) hpc) rfl
    refine ⟨t,hload.trans hrun,?_,?_⟩
    · change AtBurst s₀ src dst ccr burst
        (0+((BitVec.ofNat 8 (inner-1)).toNat+1) *
          ((BitVec.ofNat 8 (outer-1)).toNat+1)) t at hat
      rw [hiter,hcount,Nat.zero_add] at hat
      exact hat
    · rw [htpc,hcode]
      rfl
  · have hone : outer=1 := by
      have hpos := houter.1
      omega
    rw [loopBytes,if_neg hnested] at hcode
    have hlp : decode (code.drop 18)=some (.lp .lc0 (BitVec.ofNat 8 (inner-1)),2) := by
      rw [hcode]
      rfl
    have hld : decode (code.drop 20)=some (.ld,1) := by
      rw [hcode]
      rfl
    have hst : decode (code.drop (20+1))=some (.st,1) := by
      rw [hcode]
      rfl
    have hend : decode (code.drop (20+2))=some (.lpend .lc0 2#8,2) := by
      rw [hcode]
      rfl
    have hload := instruction hs.status hpc hlp
    obtain ⟨t,hrun,hat,htpc,-⟩ := inner_loop hset
      (s := s.exec 2 (.lp .lc0 (BitVec.ofNat 8 (inner-1)))) hld hst hend
      (AtBurst.of_eq hs rfl) (congrArg (· + 2) hpc) rfl
    refine ⟨t,hload.trans hrun,?_,?_⟩
    · change AtBurst s₀ src dst ccr burst
        (0+((BitVec.ofNat 8 (inner-1)).toNat+1)) t at hat
      rw [hiter,Nat.zero_add] at hat
      rw [hone,Nat.mul_one]
      exact hat
    · rw [htpc,hcode]
      rfl

/-- Behind the last burst the program signals its event and ends. -/
theorem finish (hs : AtBurst s₀ src dst ccr burst k s) (hcode : code.drop s.pc=endBytes) :
    ∃ t, Ends code s t ∧ t.events = s₀.events ++ [0#8] ∧
      t.transfers=transfersOf burst k src dst ∧
      t.mem=copyBlocks (4*burst) k src dst s₀.mem := by
  have hsev : decode (code.drop s.pc)=some (.sev 0#8,2) := by
    rw [hcode]
    rfl
  have hnext : (s.exec 2 (.sev 0#8)).pc=s.pc+2 := rfl
  have hend : decode (code.drop (s.exec 2 (.sev 0#8)).pc)=some (.done,1) := by
    rw [hnext,← List.drop_drop,hcode]
    rfl
  have hfirst := instruction hs.status rfl hsev
  have hsecond := instruction (s := s.exec 2 (.sev 0#8)) hs.status rfl hend
  refine ⟨_,⟨hfirst.trans hsecond,rfl⟩,?_,hs.transfers,hs.mem⟩
  change s.events ++ [0#8] = s₀.events ++ [0#8]
  rw [hs.events]

theorem copy_ends (hset : Setting src dst ccr burst) {inner outer : ℕ} (hinner : Count inner)
    (houter : Count outer) (hcode : code = moveBytes src dst ccr ++ loopBytes inner outer ++ endBytes)
    (hs : Started s₀) :
    ∃ t, Ends code s₀ t ∧ t.events = s₀.events ++ [0#8] ∧
      t.transfers=transfersOf burst (inner*outer) src dst ∧
      t.mem=copyBlocks (4*burst) (inner*outer) src dst s₀.mem := by
  have happend := hcode
  rw [List.append_assoc] at happend
  obtain ⟨t,hrun,hat,hpc⟩ := setup burst happend hs
  obtain ⟨u,hloops,hau,hend⟩ := loops hset hinner houter hcode hat hpc
  obtain ⟨v,hends,hev⟩ := finish hau hend
  exact ⟨v,⟨(hrun.trans hloops).trans hends.1,hends.2⟩,hev⟩

end Channel

end Misterplex.Dma
