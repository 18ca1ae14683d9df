import Misterplex.Lib.BlockCopy

/-!
# A DMA controller channel

One channel thread of the controller executes byte-coded instructions: moves
into its address and control registers, loop counters, loads and stores of one
burst through a byte queue, an event and the end. A burst starts at the
address register and ends with its last aligned beat, so an unaligned burst
carries fewer bytes. A store that finds too few bytes queued is a fault.

The host encodes a copy as a small program for it: three moves, one or two counted
loops around a load and a store, an event and the end. The length is factored into a
burst and two loop counts. A length that cannot be factored is copied in chunks of at
most 1 KiB.
-/

namespace Misterplex.Dma

open BlockCopy

/-- The registers an instruction can move a word into. -/
inductive Register where
  | sar
  /-- The channel control word. -/
  | ccr
  | dar
  deriving DecidableEq

/-- The two loop counters. -/
inductive Counter where
  | lc0
  | lc1
  deriving DecidableEq

/-- The instructions of a memory copy program. -/
inductive Insn where
  /-- `DMAMOV`: move a word into a register. -/
  | mov (rd : Register) (imm : BitVec 32)
  /-- `DMALP`: load a loop counter with the iterations less one. -/
  | lp (lc : Counter) (iter : BitVec 8)
  /-- `DMALPEND`: jump back while the loop counter is not zero. -/
  | lpend (lc : Counter) (jump : BitVec 8)
  /-- `DMALD`: read one burst into the queue. -/
  | ld
  /-- `DMAST`: write one burst from the queue. -/
  | st
  | sev (event : BitVec 8)
  /-- `DMAEND`: stop the thread. -/
  | done
  deriving DecidableEq

/-- The word of four bytes, least significant first. -/
def word (b0 b1 b2 b3 : BitVec 8) : BitVec 32 := b3 ++ b2 ++ b1 ++ b0

/-- The register named by the second byte of `DMAMOV`. -/
def register (rd : BitVec 8) : Option Register :=
  if rd = 0#8 then some .sar
  else if rd = 1#8 then some .ccr
  else if rd = 2#8 then some .dar
  else none

/-- The instruction at the head of the code, and its length in bytes. -/
def decode : List (BitVec 8) → Option (Insn × ℕ)
  | [] => none
  | op::args =>
    if op = 0xBC#8 then
      match args with
      | rd::b0::b1::b2::b3::_ =>
        (register rd).map fun r => (.mov r (word b0 b1 b2 b3),6)
      | _ => none
    else if op = 0x20#8 then args.head?.map fun iter => (.lp .lc0 iter,2)
    else if op = 0x22#8 then args.head?.map fun iter => (.lp .lc1 iter,2)
    else if op = 0x38#8 then args.head?.map fun jump => (.lpend .lc0 jump,2)
    else if op = 0x3C#8 then args.head?.map fun jump => (.lpend .lc1 jump,2)
    else if op = 0x34#8 then args.head?.map fun event => (.sev (event.ushiftRight 3),2)
    else if op = 0x04#8 then some (.ld,1)
    else if op = 0x08#8 then some (.st,1)
    else if op = 0x00#8 then some (.done,1)
    else none

/-- The addressing of one side of a burst, as the control word gives it. -/
structure Beats where
  /-- The address moves on with every beat. -/
  inc : Bool
  /-- The bytes of a beat. -/
  size : ℕ
  /-- The beats of a burst. -/
  len : ℕ
  deriving DecidableEq

/-- The source side of a control word. -/
def srcBeats (ccr : BitVec 32) : Beats :=
  ⟨ccr.getLsbD 0,2^(ccr.extractLsb' 1 3).toNat,(ccr.extractLsb' 4 4).toNat+1⟩

/-- The destination side of a control word. -/
def dstBeats (ccr : BitVec 32) : Beats :=
  ⟨ccr.getLsbD 14,2^(ccr.extractLsb' 15 3).toNat,(ccr.extractLsb' 18 4).toNat+1⟩

/-- The addresses one burst covers: up to the end of its last aligned beat, or
every beat at the same place when the address is fixed. -/
def Beats.addresses (b : Beats) (addr : BitVec 32) : List (BitVec 32) :=
  if b.inc then cells addr (b.size*b.len-addr.toNat%b.size)
  else (List.replicate b.len (cells addr (b.size-addr.toNat%b.size))).flatten

/-- The address register after a burst. -/
def Beats.next (b : Beats) (addr : BitVec 32) : BitVec 32 :=
  if b.inc then addr+BitVec.ofNat 32 (b.size*b.len-addr.toNat%b.size) else addr

/-- The state of a channel thread. -/
inductive Status where
  | executing
  | stopped
  | faulting
  deriving DecidableEq

/-- One burst on the bus. -/
structure Transfer where
  /-- It is a store. -/
  write : Bool
  /-- Where it begins. -/
  addr : BitVec 32
  /-- Its beats. -/
  beats : Beats
  deriving DecidableEq

/-- A channel, and the memory it works on. -/
structure Channel where
  /-- Program counter, as an offset into the code. -/
  pc : ℕ
  /-- Source address register. -/
  sar : BitVec 32
  /-- Destination address register. -/
  dar : BitVec 32
  /-- Channel control register. -/
  ccr : BitVec 32
  /-- The inner loop counter. -/
  lc0 : BitVec 8
  /-- The outer loop counter. -/
  lc1 : BitVec 8
  /-- Bytes loaded and not yet stored. -/
  fifo : List (BitVec 8)
  /-- The memory. -/
  mem : BitVec 32 → BitVec 8
  /-- The bursts issued so far. -/
  transfers : List Transfer
  /-- The events signalled so far. -/
  events : List (BitVec 8)
  /-- What the channel does. -/
  status : Status

namespace Channel

variable (s : Channel)

/-- A loop counter. -/
def counter : Counter → BitVec 8
  | .lc0 => s.lc0
  | .lc1 => s.lc1

/-- A loop counter set to a value. -/
def setCounter (lc : Counter) (v : BitVec 8) : Channel :=
  match lc with
  | .lc0 => { s with lc0 := v }
  | .lc1 => { s with lc1 := v }

/-- A register set to a word. -/
def setRegister (rd : Register) (v : BitVec 32) : Channel :=
  match rd with
  | .sar => { s with sar := v }
  | .ccr => { s with ccr := v }
  | .dar => { s with dar := v }

/-- The next instruction. -/
def advance (len : ℕ) : Channel := { s with pc := s.pc+len }

/-- A burst read into the queue. -/
def load : Channel :=
  { s with
    fifo := s.fifo ++ ((srcBeats s.ccr).addresses s.sar).map s.mem
    sar := (srcBeats s.ccr).next s.sar
    transfers := s.transfers ++ [⟨false,s.sar,srcBeats s.ccr⟩] }

/-- A burst written from the queue, when the queue holds enough for it. -/
def store : Channel :=
  if s.fifo.length < ((dstBeats s.ccr).addresses s.dar).length then
    { s with status := .faulting }
  else
    { s with
      mem := writeAll s.mem ((dstBeats s.ccr).addresses s.dar) s.fifo
      fifo := s.fifo.drop ((dstBeats s.ccr).addresses s.dar).length
      dar := (dstBeats s.ccr).next s.dar
      transfers := s.transfers ++ [⟨true,s.dar,dstBeats s.ccr⟩] }

/-- The effect of one instruction of the given length. -/
def exec (len : ℕ) : Insn → Channel
  | .mov rd imm => (s.setRegister rd imm).advance len
  | .lp lc iter => (s.setCounter lc iter).advance len
  | .lpend lc jump =>
    if s.counter lc = 0#8 then s.advance len
    else { s.setCounter lc (s.counter lc-1#8) with pc := s.pc-jump.toNat }
  | .ld => s.load.advance len
  | .st => s.store.advance len
  | .sev event => { s.advance len with events := s.events ++ [event] }
  | .done => { s with status := .stopped }

/-- One step of the thread. A stopped or faulting thread stays as it is. -/
def step (code : List (BitVec 8)) (s : Channel) : Channel :=
  if s.status = .executing then
    match decode (code.drop s.pc) with
    | some (i,len) => s.exec len i
    | none => { s with status := .faulting }
  else s

/-- A thread about to execute its first instruction. -/
structure Started (s : Channel) : Prop where
  /-- The first instruction is next. -/
  pc : s.pc=0
  status : s.status = .executing
  fifo : s.fifo=[]
  /-- No burst has been issued. -/
  transfers : s.transfers=[]

/-- The thread runs from one state to another. -/
def Runs (code : List (BitVec 8)) (s t : Channel) : Prop := ∃ n : ℕ, (step code)^[n] s=t

/-- The thread runs until it has ended. -/
def Ends (code : List (BitVec 8)) (s t : Channel) : Prop :=
  Runs code s t ∧ t.status = .stopped

variable {code : List (BitVec 8)}

/-- Runs compose. -/
theorem Runs.trans {s t u : Channel} (hst : Runs code s t) (htu : Runs code t u) :
    Runs code s u := by
  obtain ⟨n,hn⟩ := hst
  obtain ⟨m,hm⟩ := htu
  exact ⟨m+n,by rw [Function.iterate_add_apply,hn,hm]⟩

theorem Runs.instruction {s : Channel} {i : Insn} {len p : ℕ} (hrun : s.status = .executing)
    (hpc : s.pc=p) (hcode : decode (code.drop p)=some (i,len)) :
    Runs code s (s.exec len i) := by
  refine ⟨1,?_⟩
  rw [Function.iterate_one,step,if_pos hrun,hpc,hcode]

theorem iterate_stopped {t : Channel} (h : t.status = .stopped) (n : ℕ) :
    (step code)^[n] t=t := by
  induction n with
  | zero => rfl
  | succ n ih =>
    have hstep : step code t=t := by
      rw [step,if_neg]
      rw [h]
      exact Status.noConfusion
    rw [Function.iterate_succ_apply,hstep,ih]

theorem Ends.unique {s t u : Channel} (ht : Ends code s t) (hu : Ends code s u) : t=u := by
  obtain ⟨⟨n,hn⟩,hts⟩ := ht
  obtain ⟨⟨m,hm⟩,hus⟩ := hu
  rcases Nat.le_total n m with hle | hle
  · obtain ⟨d,rfl⟩ := Nat.exists_eq_add_of_le hle
    rw [Nat.add_comm,Function.iterate_add_apply,hn,iterate_stopped hts] at hm
    exact hm
  · obtain ⟨d,rfl⟩ := Nat.exists_eq_add_of_le hle
    rw [Nat.add_comm,Function.iterate_add_apply,hm,iterate_stopped hus] at hn
    exact hn.symm

end Channel

/-- The control word of symmetric bursts of `burst_len` words, with the
protection bits of a non-secure channel. Zero for a bad length. -/
def pl330BuildCcrBurst (burst_len : ℕ) (nonsecure : Bool) : BitVec 32 :=
  if burst_len < 1 ∨ 16 < burst_len then 0#32
  else
    let SRC_INC := 1#32 <<< 0
    let DST_INC := 1#32 <<< 14
    let SRC_BURST_SIZE_32 := 2#32 <<< 1
    let DST_BURST_SIZE_32 := 2#32 <<< 15
    let bl := BitVec.ofNat 32 (burst_len-1)
    let SRC_BURST_LEN := bl <<< 4
    let DST_BURST_LEN := bl <<< 18
    let SRC_PROT_NS := 2#32 <<< 8
    let DST_PROT_NS := 2#32 <<< 22
    let ccr := SRC_INC ||| DST_INC ||| SRC_BURST_SIZE_32 ||| DST_BURST_SIZE_32 |||
      SRC_BURST_LEN ||| DST_BURST_LEN
    if nonsecure then ccr ||| (SRC_PROT_NS ||| DST_PROT_NS) else ccr

/-- The search of the outer loop count, downwards from a bound. -/
def factorFrom (n_iters : ℕ) : ℕ → Option (ℕ × ℕ)
  | 0 => none
  | o+1 =>
    if n_iters%(o+1) = 0 ∧ 1≤n_iters/(o+1) ∧ n_iters/(o+1) ≤ 256 then
      some (n_iters/(o+1),o+1)
    else factorFrom n_iters o

/-- The inner and outer loop counts of a number of iterations. -/
def pl330FactorLoops (n_iters : ℕ) : Option (ℕ × ℕ) :=
  if n_iters = 0 then none
  else if n_iters ≤ 256 then some (n_iters,1)
  else if 256*256 < n_iters then none
  else factorFrom n_iters 256

/-- A burst length, with the inner and outer loop counts. -/
structure Loops where
  /-- Words of a burst, and turns of both loops. -/
  (burst inner outer : ℕ)
  deriving DecidableEq

/-- The loops of one burst length, when it divides the length and the number
of iterations, cast to a 32-bit word, can be factored. -/
def loopsOfBurst (len burst : ℕ) : Option Loops :=
  if len%(4*burst) ≠ 0 then none
  else (pl330FactorLoops (len/(4*burst)%2^32)).map fun f => ⟨burst,f.1,f.2⟩

/-- The burst cap in force: zero stands for 16, and no cap exceeds 16. -/
def burstCap (max_burst_cap : ℕ) : ℕ :=
  if max_burst_cap = 0 then 16 else min max_burst_cap 16

/-- The burst and loops chosen for a length. -/
def pl330PickBurstAndLoops (len max_burst_cap force_burst : ℕ) : Option Loops :=
  let cap := burstCap max_burst_cap
  if len = 0 ∨ len%4 ≠ 0 then none
  else if force_burst ≠ 0 then
    if 16 < force_burst ∨ cap < force_burst then none else loopsOfBurst len force_burst
  else [16,8,4,2,1].findSome? fun b => if cap < b then none else loopsOfBurst len b

/-- Append a byte while the buffer has room. -/
def emit (out_cap : ℕ) (out : List (BitVec 8)) (b : BitVec 8) : List (BitVec 8) :=
  if out.length < out_cap then out ++ [b] else out

/-- The bytes of a word, least significant first. -/
def emit32 (v : BitVec 32) : List (BitVec 8) :=
  [v.extractLsb' 0 8,v.extractLsb' 8 8,v.extractLsb' 16 8,v.extractLsb' 24 8]

/-- The moves that set up a channel. -/
def moveBytes (src dst ccr : BitVec 32) : List (BitVec 8) :=
  [0xBC#8,0x00#8] ++ emit32 src ++ ([0xBC#8,0x01#8] ++ emit32 ccr) ++
    ([0xBC#8,0x02#8] ++ emit32 dst)

/-- The inner loop around one load and one store. -/
def innerBytes (inner : ℕ) : List (BitVec 8) :=
  [0x20#8,BitVec.ofNat 8 (inner-1),0x04#8,0x08#8,0x38#8,0x02#8]

/-- The inner loop, inside the outer loop when there is one. -/
def loopBytes (inner outer : ℕ) : List (BitVec 8) :=
  if 1 < outer then
    [0x22#8,BitVec.ofNat 8 (outer-1)] ++ innerBytes inner ++ [0x3C#8,0x06#8]
  else innerBytes inner

/-- The event and the end of a program. -/
def endBytes : List (BitVec 8) := [0x34#8,0x00#8,0x00#8]

/-- The program of given loops, when the buffer is large enough. -/
def pl330BuildMem2MemProgramLoops (out_cap : ℕ) (src dst ccr : BitVec 32) (inner outer : ℕ) :
    Option (List (BitVec 8)) :=
  if out_cap < 40 ∨ inner=0 ∨ 256 < inner ∨ outer=0 ∨ 256 < outer then none
  else some ((moveBytes src dst ccr ++ loopBytes inner outer ++ endBytes).foldl (emit out_cap) [])

/-- A program, with the burst and the control word it was built for. -/
structure Program where
  code : List (BitVec 8)
  burst : ℕ
  ccr : BitVec 32
  deriving DecidableEq

/-- The program of a whole copy: the largest burst that fits. -/
def pl330BuildMem2MemProgramAuto (out_cap : ℕ) (src dst : BitVec 32)
    (len max_burst_cap force_burst : ℕ) (nonsecure_ccr : Bool) : Option Program :=
  match pl330PickBurstAndLoops len max_burst_cap force_burst with
  | none => none
  | some l =>
    let ccr := pl330BuildCcrBurst l.burst nonsecure_ccr
    if ccr = 0#32 then none
    else (pl330BuildMem2MemProgramLoops out_cap src dst ccr l.inner l.outer).map fun code =>
      ⟨code,l.burst,ccr⟩

/-- A chunk of a copy. -/
structure Chunk where
  /-- Where it is read. -/
  src_phys : BitVec 32
  /-- Where it is written. -/
  dst_phys : BitVec 32
  /-- Its bytes. -/
  len : ℕ
  deriving DecidableEq

/-- The chunks the fallback issues from `done` on, and whether the copy is
reported as done. The outcome of the chunk at an offset is given. -/
def chunkedFrom (one_ok : ℕ → Bool) (src_phys dst_phys : BitVec 32) (len done : ℕ) :
    List Chunk × Bool :=
  if done < len then
    let chunk := if 256*4 < len-done then 256*4 else len-done
    let sub : Chunk := ⟨src_phys+BitVec.ofNat 32 done,dst_phys+BitVec.ofNat 32 done,chunk⟩
    if one_ok done then
      let rest := chunkedFrom one_ok src_phys dst_phys len (done+chunk)
      (sub::rest.1,rest.2)
    else ([sub],false)
  else ([],true)
termination_by len-done
decreasing_by
  split
  · omega
  · omega

/-- The fallback copy of a request in chunks. -/
def chunked (one_ok : ℕ → Bool) (src_phys dst_phys : BitVec 32) (len : ℕ) : List Chunk × Bool :=
  chunkedFrom one_ok src_phys dst_phys len 0

end Misterplex.Dma
