import Misterplex.Baseline.Parser
import Misterplex.Lib.Leads

/-!
# How the parser reads

While the parser is busy it takes no byte. Over a buffer of at most 8191 bytes
the states that collect answer each question of the states with a meaning, with
codes of up to 24 leading zeros. A buffer of 8192 bytes has no bit for it, and
a longer one is never taken.
-/

namespace Misterplex.Baseline

open BitString ExpGolomb List

/-- Codes with at most 24 leading zeros, and fields of at most 32 bits. -/
def parserLimits : ReadLimits := ⟨24,32⟩

namespace Parser

variable {i : Inputs} {p q : Parser} {bits : List Bool}

/-- One clock without a byte. -/
def tick (i : Inputs) (p : Parser) : Parser := p.clock i none

theorem tick_of_busy (h : p.busy=true) : p.tick i=p.parse i := if_pos h

theorem tick_of_idle (h : p.busy=false) : p.tick i=p := by
  rw [tick,clock,h,if_neg Bool.false_ne_true]

theorem clock_of_busy (h : p.busy=true) (x : Option (Byte × Bool)) :
    p.clock i x=p.tick i := by
  cases x with
  | none => rfl
  | some x =>
    have hready : p.inReady=false := by
      rw [inReady,h,Bool.not_true,Bool.false_and]
    rw [clock,hready,if_neg Bool.false_ne_true]
    rfl

/-- The parser is before given bits of a buffer that 16 bits can address. -/
structure Before (bits : List Bool) (p : Parser) : Prop where
  /-- The buffer is not too long. -/
  short : p.rbsp.length < maxRbspBytes
  /-- The position and the bits left make up the buffer. -/
  position : p.bitPos+bits.length=8*p.rbsp.length
  left : (bitsOf p.rbsp).drop p.bitPos=bits

/-- Only the buffer and the position decide what lies ahead. -/
theorem Before.congr (h : Before bits p) (hrbsp : q.rbsp=p.rbsp) (hpos : q.bitPos=p.bitPos) :
    Before bits q where
  short := by rw [hrbsp]; exact h.short
  position := by rw [hrbsp,hpos]; exact h.position
  left := by rw [hrbsp,hpos]; exact h.left

theorem Before.atEnd_eq (h : Before bits p) : p.atEnd=bits.isEmpty := by
  have hshort := h.short
  have hpos := h.position
  have hmod : p.rbsp.length*8%65536=8*p.rbsp.length := by
    rw [maxRbspBytes] at hshort
    omega
  rw [atEnd,hmod]
  cases bits with
  | nil =>
    rw [length_nil] at hpos
    rw [isEmpty_nil,decide_eq_true_eq]
    omega
  | cons b bits =>
    rw [length_cons] at hpos
    rw [isEmpty_cons,decide_eq_false_iff_not]
    omega

/-- The bit under the position is the first one left, and the position moves on behind it. -/
theorem Before.cons {b : Bool} (h : Before (b::bits) p) :
    p.atEnd=false ∧ p.bitAt=b ∧ Before bits p.advance ∧
      p.advance.bitPos=p.bitPos+1 := by
  have hshort := h.short
  have hpos := h.position
  have hleft := h.left
  rw [length_cons] at hpos
  rw [maxRbspBytes] at hshort
  have hbyte : p.bitPos/8<p.rbsp.length := by omega
  have hbit : (bitsOf p.rbsp)[p.bitPos]?=some b := by
    rw [← head?_drop,hleft]
    rfl
  have hnext : (p.bitPos+1)%65536=p.bitPos+1 := by omega
  rw [getElem?_bitsOf,getElem?_eq_getElem hbyte,Option.map_some,
    Option.some.injEq] at hbit
  have hrest : (bitsOf p.rbsp).drop (p.bitPos+1)=bits := by
    rw [drop_add_one_eq_tail_drop,hleft]
    rfl
  refine ⟨h.atEnd_eq,?_,⟨h.short,?_,?_⟩,hnext⟩
  · rw [bitAt,getD_eq_getElem _ _ hbyte,hbit]
  · rw [advance]
    dsimp only
    omega
  · rw [advance]
    rw [hnext,hrest]

/-- Registers that the states that collect keep. -/
structure Keeps (p q : Parser) : Prop where
  busy : q.busy=p.busy
  error : q.error=p.error
  retSt : q.retSt=p.retSt
  regs : q.regs=p.regs

theorem Keeps.refl (p : Parser) : Keeps p p := ⟨rfl,rfl,rfl,rfl⟩

/-- The parser is in a state with a meaning, has heard an answer and is before given bits. -/
structure Hears (s : Own) (h : Heard) (r : Regs) (bits : List Bool) (p : Parser) : Prop where
  state : p.st = .own s
  busy : p.busy=true
  healthy : p.error=false
  heard : p.heard=h
  regs : p.regs=r
  before : Before bits p

theorem collect_cons {b : Bool} {n : ℕ} (hleft : p.fixedLeft=n+1)
    (hbefore : Before (b::bits) p) :
    p.collect = { p.advance with
      fixedAcc := (2*p.fixedAcc+b.toNat)%2^32
      fixedLeft := n
      st := if n = 0 then .own p.retSt else .bits } := by
  obtain ⟨hend,hbit,-,-⟩ := hbefore.cons
  rw [collect,if_neg (by omega),hend,if_neg Bool.false_ne_true,hbit,hleft,
    Nat.add_sub_cancel]
  simp only [Nat.add_eq_right]

open Leads

theorem leads_collect {field : List Bool} (hbusy : p.busy=true) (hst : p.st = .bits)
    (hlen : p.fixedLeft=field.length) (hfit : field.length≤32)
    (hacc : p.fixedAcc<2^(32-field.length)) (hbefore : Before (field ++ bits) p) :
    Leads (tick i) p fun q =>
      Keeps p q ∧ q.st = .own p.retSt ∧ Before bits q ∧ q.ueValue=p.ueValue ∧
        q.bitPos=p.bitPos+field.length ∧
        q.fixedAcc=p.fixedAcc*2^field.length+value field := by
  induction field generalizing p with
  | nil =>
    have hone : p.tick i = { p with st := .own p.retSt } := by
      rw [tick_of_busy hbusy,parse,hst]
      exact if_pos hlen
    refine next_eq hone (here ?_)
    refine ⟨⟨rfl,rfl,rfl,rfl⟩,rfl,hbefore.congr rfl rfl,rfl,rfl,?_⟩
    rw [length_nil,value_nil,pow_zero,Nat.mul_one,Nat.add_zero]
  | cons b field ih =>
    rw [length_cons] at hlen hfit hacc
    obtain ⟨-,-,hnext,hmoved⟩ := hbefore.cons
    have hpow : 2^(32-field.length)=2*2^(32-(field.length+1)) := by
      rw [← pow_succ']
      exact congrArg (2 ^ ·) (by omega)
    have hb : b.toNat≤1 := Bool.toNat_le b
    have hbig : 2^(32-field.length)≤2^32 :=
      Nat.pow_le_pow_right Nat.two_pos (Nat.sub_le _ _)
    have hmod : (2*p.fixedAcc+b.toNat)%2^32=2*p.fixedAcc+b.toNat :=
      Nat.mod_eq_of_lt (by omega)
    have hone : p.tick i = { p.advance with
        fixedAcc := 2*p.fixedAcc+b.toNat
        fixedLeft := field.length
        st := if field.length = 0 then .own p.retSt else .bits } := by
      rw [tick_of_busy hbusy,parse,hst]
      rw [collect_cons hlen hbefore,hmod]
    refine next_eq hone ?_
    by_cases hlast : field.length=0
    · have hnil : field=[] := eq_nil_of_length_eq_zero hlast
      subst hnil
      refine here ⟨⟨rfl,rfl,rfl,rfl⟩,rfl,hnext.congr rfl rfl,rfl,hmoved,?_⟩
      rw [value_cons,value_nil,length_cons,length_nil]
      dsimp only
      omega
    · rw [if_neg hlast]
      have hrest := ih (p := { p.advance with
          fixedAcc := 2*p.fixedAcc+b.toNat
          fixedLeft := field.length
          st := .bits }) hbusy rfl rfl (by omega) (by dsimp only; omega)
        (hnext.congr rfl rfl)
      refine hrest.mono fun q hq => ?_
      obtain ⟨hkeeps,hown,hbits,hue,hpos,hvalue⟩ := hq
      refine ⟨{ hkeeps with },hown,hbits,hue,?_,?_⟩
      · rw [hpos,hmoved,length_cons]
        omega
      · rw [hvalue,value_cons,length_cons,pow_succ]
        ring

theorem answers_bits {s : Own} {h : Heard} {r : Regs} {field : List Bool}
    (hfit : field.length≤32) (hbusy : p.busy=true) (herror : p.error=false)
    (hheard : p.heard=h) (hregs : p.regs=r) (hbefore : Before (field ++ bits) p) :
    Leads (tick i) (p.ask (.bits field.length s))
      (Hears s ⟨h.ueValue,value field,h.position+field.length⟩ r bits) := by
  have hlen : field.length%256=field.length := Nat.mod_eq_of_lt (by omega)
  have hcollect := leads_collect (i := i) (p := p.ask (.bits field.length s)) hbusy rfl hlen hfit
    (Nat.two_pow_pos _) (hbefore.congr rfl rfl)
  refine hcollect.mono fun q hq => ?_
  obtain ⟨hkeeps,hown,hbits,hue,hpos,hvalue⟩ := hq
  refine ⟨hown,hkeeps.busy.trans hbusy,hkeeps.error.trans herror,?_,
    hkeeps.regs.trans hregs,hbits⟩
  have hzero : q.fixedAcc=value field := by
    rw [hvalue]
    exact (congrArg (· + value field) (Nat.zero_mul _)).trans (Nat.zero_add _)
  rw [← hheard,heard,heard,hzero,hue,hpos]
  rfl

theorem leads_zeros {k : ℕ} {tail : List Bool} (hbusy : p.busy=true) (hst : p.st = .ueZero)
    (hcount : p.ueZero+k≤24)
    (hbefore : Before (List.replicate k false ++ true::tail) p) :
    Leads (tick i) p fun q =>
      Keeps p q ∧ q.st = .ueZero ∧ q.ueZero=p.ueZero+k ∧ q.fixedAcc=p.fixedAcc ∧
        q.bitPos=p.bitPos+k ∧ Before (true::tail) q := by
  induction k generalizing p with
  | zero => exact here ⟨Keeps.refl p,hst,rfl,rfl,rfl,hbefore⟩
  | succ k ih =>
    obtain ⟨hend,hbit,hnext,hmoved⟩ := hbefore.cons
    have hone : p.tick i = { p.advance with ueZero := p.ueZero+1 } := by
      rw [tick_of_busy hbusy,parse,hst]
      rw [countZero,hend,if_neg Bool.false_ne_true,hbit,Bool.not_false,if_pos rfl,
        if_neg (by omega)]
    refine next_eq hone ?_
    have hrest := ih (p := { p.advance with ueZero := p.ueZero+1 }) hbusy hst
      (by dsimp only; omega) (hnext.congr rfl rfl)
    refine hrest.mono fun q hq => ?_
    obtain ⟨hkeeps,hown,hzeros,hacc,hpos,hbits⟩ := hq
    refine ⟨{ hkeeps with },hown,?_,hacc,?_,hbits⟩
    · rw [hzeros]
      dsimp only
      omega
    · rw [hpos,hmoved]
      omega

theorem leads_suffix {field : List Bool} (hbusy : p.busy=true) (hst : p.st = .ueSuffix)
    (hsome : field≠[]) (hlen : p.ueSuffixLeft=field.length) (hzeros : p.ueZero≤24)
    (hfit : field.length≤24) (hsuffix : p.ueSuffix<2^(24-field.length))
    (hbefore : Before (field ++ bits) p) :
    Leads (tick i) p fun q =>
      Keeps p q ∧ q.st = .own p.retSt ∧ q.fixedAcc=p.fixedAcc ∧
        q.bitPos=p.bitPos+field.length ∧ Before bits q ∧
        q.ueValue=2^p.ueZero-1+(p.ueSuffix*2^field.length+value field) := by
  induction field generalizing p with
  | nil => exact absurd rfl hsome
  | cons b field ih =>
    rw [length_cons] at hlen hfit hsuffix
    obtain ⟨hend,hbit,hnext,hmoved⟩ := hbefore.cons
    have hpow : 2^(24-field.length)=2*2^(24-(field.length+1)) := by
      rw [← pow_succ']
      exact congrArg (2 ^ ·) (by omega)
    have hb : b.toNat≤1 := Bool.toNat_le b
    have hbig : 2^(24-field.length)≤2^24 :=
      Nat.pow_le_pow_right Nat.two_pos (Nat.sub_le _ _)
    have hmod : (2*p.ueSuffix+b.toNat)%2^32=2*p.ueSuffix+b.toNat :=
      Nat.mod_eq_of_lt (by omega)
    have hdown : (p.ueSuffixLeft+255)%256=field.length := by omega
    by_cases hlast : field=[]
    · subst hlast
      have hzero : 2^p.ueZero≤2^24 := Nat.pow_le_pow_right Nat.two_pos hzeros
      have hvalue : (2^p.ueZero-1+(2*p.ueSuffix+b.toNat))%2^32 =
          2^p.ueZero-1+(2*p.ueSuffix+b.toNat) :=
        Nat.mod_eq_of_lt (by omega)
      have hone : p.tick i = { p.advance with
          ueSuffix := 2*p.ueSuffix+b.toNat
          ueSuffixLeft := 0
          ueValue := 2^p.ueZero-1+(2*p.ueSuffix+b.toNat)
          st := .own p.retSt } := by
        rw [tick_of_busy hbusy,parse,hst]
        rw [collectSuffix,hend,if_neg Bool.false_ne_true,hbit,hmod,hdown]
        rw [if_pos (show p.ueSuffixLeft=1 from hlen),hvalue]
        rfl
      refine next_eq hone (here ?_)
      refine ⟨⟨rfl,rfl,rfl,rfl⟩,rfl,rfl,hmoved,hnext.congr rfl rfl,?_⟩
      rw [value_cons,value_nil,length_cons,length_nil]
      dsimp only
      omega
    · have hpos := length_pos_iff.mpr hlast
      have hone : p.tick i = { p.advance with
          ueSuffix := 2*p.ueSuffix+b.toNat
          ueSuffixLeft := field.length } := by
        rw [tick_of_busy hbusy,parse,hst]
        rw [collectSuffix,hend,if_neg Bool.false_ne_true,hbit,hmod,hdown]
        rw [if_neg (by omega)]
      refine next_eq hone ?_
      have hrest := ih (p := { p.advance with
          ueSuffix := 2*p.ueSuffix+b.toNat
          ueSuffixLeft := field.length }) hbusy hst hlast rfl hzeros (by omega)
        (by dsimp only; omega) (hnext.congr rfl rfl)
      refine hrest.mono fun q hq => ?_
      obtain ⟨hkeeps,hown,hacc,hposition,hbits,hvalue⟩ := hq
      refine ⟨{ hkeeps with },hown,hacc,?_,hbits,?_⟩
      · rw [hposition,hmoved,length_cons]
        omega
      · have hsum : (2*p.ueSuffix+b.toNat)*2^field.length+value field =
            p.ueSuffix*(2^field.length*2)+(b.toNat*2^field.length+value field) := by
          ring
        rw [hvalue,value_cons,length_cons,pow_succ,← hsum]
        rfl

theorem answers_ue {s : Own} {h : Heard} {r : Regs} {v : ℕ} (hfit : zerosOf v≤24)
    (hbusy : p.busy=true) (herror : p.error=false) (hheard : p.heard=h)
    (hregs : p.regs=r) (hbefore : Before (ueCode v ++ bits) p) :
    Leads (tick i) (p.ask (.ue s))
      (Hears s ⟨v,h.acc,h.position+(ueCode v).length⟩ r bits) := by
  have hcode : ueCode v ++ bits = replicate (zerosOf v) false ++
      true::(ofNat (zerosOf v) (v+1) ++ bits) := by
    rw [ueCode,append_assoc,cons_append]
  have hat : Before (ueCode v ++ bits) (p.ask (.ue s)) := hbefore.congr rfl rfl
  rw [hcode] at hat
  have hzeros := leads_zeros (i := i) (p := p.ask (.ue s)) hbusy rfl
    (show 0+zerosOf v≤24 by omega) hat
  refine hzeros.trans fun t ht => ?_
  obtain ⟨hkeeps,hst,hcount,hacc,hpos,hbits⟩ := ht
  have hcount : t.ueZero=zerosOf v := hcount.trans (Nat.zero_add _)
  obtain ⟨hend,hbit,hnext,hmoved⟩ := hbits.cons
  have htbusy : t.busy=true := hkeeps.busy.trans hbusy
  have hvalue := value_suffix v
  have hlength := length_ueCode v
  have hstart : p.fixedAcc=h.acc ∧ p.bitPos=h.position := by
    rw [← hheard]
    exact ⟨rfl,rfl⟩
  have hasked : (p.ask (.ue s)).bitPos=p.bitPos ∧ (p.ask (.ue s)).fixedAcc=p.fixedAcc :=
    ⟨rfl,rfl⟩
  by_cases hzero : zerosOf v=0
  · rw [hzero] at hvalue hlength hpos hcount hnext
    have hnil : value (ofNat 0 (v+1))=0 := rfl
    have hone : t.tick i = { t.advance with ueValue := 0, st := .own t.retSt } := by
      rw [tick_of_busy htbusy,parse,hst]
      rw [countZero,hend,if_neg Bool.false_ne_true,hbit,Bool.not_true,
        if_neg Bool.false_ne_true,if_pos hcount]
    refine next_eq hone (here ?_)
    refine ⟨congrArg St.own hkeeps.retSt,htbusy,hkeeps.error.trans herror,?_,
      hkeeps.regs.trans hregs,hnext.congr rfl rfl⟩
    rw [heard,Heard.mk.injEq]
    refine ⟨?_,hacc.trans (hasked.2.trans hstart.1),?_⟩
    · dsimp only
      omega
    · rw [hmoved,hpos,hlength,hasked.1,hstart.2]
  · have hone : t.tick i = { t.advance with
        ueSuffixLeft := zerosOf v
        ueSuffix := 0
        st := .ueSuffix } := by
      rw [tick_of_busy htbusy,parse,hst]
      rw [countZero,hend,if_neg Bool.false_ne_true,hbit,Bool.not_true,
        if_neg Bool.false_ne_true,hcount,if_neg hzero]
    refine next_eq hone ?_
    have hlen : (ofNat (zerosOf v) (v+1)).length=zerosOf v := length_ofNat _ _
    have hsome : ofNat (zerosOf v) (v+1)≠[] := by
      intro hnil
      rw [hnil] at hlen
      exact hzero hlen.symm
    have hrest := leads_suffix (i := i) (p := { t.advance with
        ueSuffixLeft := zerosOf v
        ueSuffix := 0
        st := .ueSuffix }) htbusy rfl hsome hlen.symm (hcount.trans_le hfit)
      (hlen.trans_le hfit) (Nat.two_pow_pos _) (hnext.congr rfl rfl)
    refine hrest.mono fun q hq => ?_
    obtain ⟨hkept,hown,hqacc,hqpos,hqbits,hqvalue⟩ := hq
    refine ⟨hown.trans (congrArg St.own hkeeps.retSt),hkept.busy.trans htbusy,
      (hkept.error.trans hkeeps.error).trans herror,?_,
      (hkept.regs.trans hkeeps.regs).trans hregs,hqbits⟩
    rw [heard,Heard.mk.injEq]
    refine ⟨?_,hqacc.trans (hacc.trans (hasked.2.trans hstart.1)),?_⟩
    · rw [hqvalue,hlen]
      have hlead : t.advance.ueZero=zerosOf v := hcount
      dsimp only
      rw [hlead]
      have hpow := Nat.two_pow_pos (zerosOf v)
      omega
    · rw [hqpos,hlen]
      dsimp only
      omega

/-- The parser has ended valid, with given registers and at a given position. -/
structure Valid (r : Regs) (n : ℕ) (p : Parser) : Prop where
  idle : p.busy=false
  valid : p.valid=true
  healthy : p.error=false
  regs : p.regs=r
  consumed : p.rbspBitsConsumed = .ofNat 16 n

theorem tick_own {s : Own} (hbusy : p.busy=true) (hst : p.st = .own s) (hs : s ≠ .fail) :
    p.tick i = { p with regs := (ownState i s p.heard p.regs).1 }.ask
      (ownState i s p.heard p.regs).2 := by
  rw [tick_of_busy hbusy,parse,hst]
  cases s with
  | fail => exact absurd rfl hs
  | _ => rfl

theorem ownState_fail (h : Heard) (r : Regs) : (ownState i .fail h r).2 = .fail := rfl

theorem Hears.goes {s : Own} {h : Heard} {r out : Regs} {n : ℕ} (hq : Hears s h r bits q)
    (hasks : Asks parserLimits (ownState i) (ownState i s h r).2 h (ownState i s h r).1 bits out n)
    (hnext : ∀ p : Parser, p.busy=true → p.error=false → p.heard=h →
      p.regs=(ownState i s h r).1 → Before bits p →
      Leads (tick i) (p.ask (ownState i s h r).2) (Valid out n)) :
    Leads (tick i) q (Valid out n) := by
  have hs : s ≠ .fail := by
    intro hfail
    rw [hfail,ownState_fail] at hasks
    cases hasks
  have hone := tick_own (i := i) hq.busy hq.state hs
  rw [hq.heard,hq.regs] at hone
  exact next_eq hone (hnext _ hq.busy hq.healthy hq.heard rfl (hq.before.congr rfl rfl))

theorem leads_of_asks {a : Ask Own} {h : Heard} {r out : Regs} {n : ℕ}
    (hasks : Asks parserLimits (ownState i) a h r bits out n) (hbusy : p.busy=true)
    (herror : p.error=false) (hheard : p.heard=h) (hregs : p.regs=r)
    (hbefore : Before bits p) : Leads (tick i) (p.ask a) (Valid out n) := by
  induction hasks generalizing p with
  | done =>
    refine here ⟨rfl,rfl,herror,hregs,?_⟩
    rw [← hheard]
    rfl
  | @go s h r out bits n hrest ih =>
    have hhears : Hears s h r bits (p.ask (.go s)) :=
      ⟨rfl,hbusy,herror,hheard,hregs,hbefore.congr rfl rfl⟩
    exact hhears.goes hrest fun _ => ih
  | @ue s h r out bits v n hfits hrest ih =>
    refine (answers_ue hfits hbusy herror hheard hregs hbefore).trans fun q hq => ?_
    exact hq.goes hrest fun _ => ih
  | @bits s h r out bits n field hfits hrest ih =>
    refine (answers_bits hfits hbusy herror hheard hregs hbefore).trans fun q hq => ?_
    exact hq.goes hrest fun _ => ih

end Parser

end Misterplex.Baseline
