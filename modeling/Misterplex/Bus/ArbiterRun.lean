import Misterplex.Bus.Arbiter
import Misterplex.Bus.AsyncFifoRun

/-!
# Commands and beats of two masters

What each master has seen accepted against what the DDR bus has accepted from it, and the
beats of its reads against those that it has received. The arbiter forwards the request of
a master that it holds off while the read of the other returns, and a master on the slow
clock sees an old busy. Commands and beats are conserved in every run in which the masters
keep clear of both.
-/

namespace Misterplex.Arbiter

open AsyncFifo (Fifo Edge FifoWorld Synced held)
open Trace List

/-- The arbiter, the request registers of the slow master, and a record of what has passed. -/
structure BusWorld where
  /-- The arbiter. -/
  arb : ArbiterRegs
  /-- The request of the slow master in this cycle of its clock. -/
  m1 : MasterWires
  /-- The slow master wants the bus. -/
  m1Want : Bool
  /-- The DDR bus was ready at some edge of clk in this cycle of the slow clock. -/
  offered : Bool
  /-- Commands of the first master that the DDR bus has accepted. -/
  forwarded0 : List MasterWires
  /-- Commands that the first master has seen accepted. -/
  seen0 : List MasterWires
  /-- Commands of the slow master that the DDR bus has accepted. -/
  forwarded1 : List MasterWires
  /-- Commands that the slow master has seen accepted. -/
  seen1 : List MasterWires
  /-- For each beat that the DDR bus owes, whether the slow master has asked for it. -/
  outstanding : List Bool
  /-- Beats that have returned for the first master. -/
  due0 : List (BitVec 64)
  /-- Beats that the first master has received. -/
  got0 : List (BitVec 64)
  /-- Beats that have returned for the slow master. -/
  due1 : List (BitVec 64)
  /-- Beats that the response FIFO has accepted. -/
  entered1 : List (BitVec 64)
  /-- Beats that the slow master has received. -/
  got1 : List (BitVec 64)

/-- What the masters and the DDR bus do at a moment. -/
structure BusInput where
  /-- Which clocks have an edge. -/
  (clk clkM1 : Bool)
  m0 : MasterWires
  /-- The request registers of the slow master after its edge. -/
  m1Next : MasterWires
  /-- m1_want after the edge of the slow clock. -/
  m1WantNext : Bool
  ddrBusy : Bool
  ddrDout : BitVec 64
  ddrDoutReady : Bool
  deriving DecidableEq, Repr

/-- The wires of the arbiter. -/
def BusWorld.moment (w : BusWorld) (i : BusInput) : Moment where
  clk := i.clk
  clkM1 := i.clkM1
  reset := false
  m1Want := w.m1Want
  m0 := i.m0
  m1 := w.m1
  ddrBusy := i.ddrBusy
  ddrDout := i.ddrDout
  ddrDoutReady := i.ddrDoutReady

/-- The DDR bus accepts a command: RD or WE is high while it is not busy. -/
def accepted (w : BusWorld) (i : BusInput) : Bool :=
  i.clk && !i.ddrBusy && cmd (selected w.arb (w.moment i))

/-- The first master sees its command accepted. -/
def m0Sees (w : BusWorld) (i : BusInput) : Bool :=
  i.clk && cmd i.m0 && !m0Busy w.arb (w.moment i)

/-- The slow master sees its command accepted. -/
def m1Sees (w : BusWorld) (i : BusInput) : Bool := i.clkM1 && cmd w.m1 && !m1Busy w.arb

/-- The DDR bus returns a beat. -/
def returns (i : BusInput) : Bool := i.clk && i.ddrDoutReady

/-- The beats that the DDR bus owes for a command that it accepts. -/
def beatsOwed (w : BusWorld) (i : BusInput) : List Bool :=
  if accepted w i && (selected w.arb (w.moment i)).rd then
    List.replicate (selected w.arb (w.moment i)).burstcnt.toNat w.arb.grantM1
  else []

/-- The response FIFO with what it has accepted and delivered. -/
def BusWorld.rsp (w : BusWorld) : FifoWorld 64 3 := ⟨w.arb.m1RspFifo,w.entered1,w.got1⟩

/-- One moment. -/
def BusWorld.step (w : BusWorld) (i : BusInput) : BusWorld where
  arb := Arbiter.step w.arb (w.moment i)
  m1 := if i.clkM1 then i.m1Next else w.m1
  m1Want := if i.clkM1 then i.m1WantNext else w.m1Want
  offered := if i.clkM1 then false else w.offered || (i.clk && !i.ddrBusy)
  forwarded0 :=
    if accepted w i && !w.arb.grantM1 then w.forwarded0 ++ [selected w.arb (w.moment i)]
    else w.forwarded0
  seen0 := if m0Sees w i then w.seen0 ++ [i.m0] else w.seen0
  forwarded1 :=
    if accepted w i && w.arb.grantM1 then w.forwarded1 ++ [selected w.arb (w.moment i)]
    else w.forwarded1
  seen1 := if m1Sees w i then w.seen1 ++ [w.m1] else w.seen1
  outstanding := (if returns i then w.outstanding.tail else w.outstanding) ++ beatsOwed w i
  due0 :=
    if returns i && w.outstanding.head? == some false then w.due0 ++ [i.ddrDout] else w.due0
  got0 := if i.clk && m0DoutReady w.arb (w.moment i) then w.got0 ++ [i.ddrDout] else w.got0
  due1 :=
    if returns i && w.outstanding.head? == some true then w.due1 ++ [i.ddrDout] else w.due1
  entered1 := (w.rsp.step (fifoEdge w.arb (w.moment i))).accepted
  got1 := (w.rsp.step (fifoEdge w.arb (w.moment i))).delivered

/-- The commands that the DDR bus has accepted are those that their owners have seen
accepted in the same cycle, and the beats of every read have gone to the master that
issued it and to no other. -/
structure BusConserved (w : BusWorld) : Prop where
  /-- Every command of the first master is accepted just when it sees that. -/
  m0Commands : w.forwarded0=w.seen0
  /-- Every command of the slow master is accepted once in the cycle in which it sees that. -/
  m1Commands : w.forwarded1=w.seen1 ∨
    cmd w.m1=true ∧ m1Busy w.arb=false ∧ w.forwarded1 = w.seen1 ++ [w.m1]
  /-- The first master receives its beats as they return. -/
  m0Beats : w.got0=w.due0
  /-- The slow master has received its beats but for those in the response FIFO. -/
  m1Beats : w.got1 ++ held w.arb.m1RspFifo ++ w.arb.m1RspFifo.ring.contents = w.due1

/-- The DDR bus returns a beat only for a read that it has accepted. -/
def Answered (w : BusWorld) (i : BusInput) : Prop := returns i=true → w.outstanding≠[]

/-- When the DDR bus would take a request of the first master, the arbiter is out of reset,
no read of the slow master returns, and if the request is a read then no read returns. -/
def M0Waits (w : BusWorld) (i : BusInput) : Prop :=
  i.clk=true → i.ddrBusy=false → w.arb.grantM1=false → cmd i.m0=true →
    w.arb.resetS2=false ∧
      (rspActive w.arb=true → w.arb.rspOwnerM1=false ∧ i.m0.rd=false)

/-- The slow master has the bus and does not give it up. -/
def keepsGrant (w : BusWorld) (i : BusInput) : Bool :=
  w.arb.grantM1 && !(i.clk && !i.ddrBusy && (cmd w.m1 || !w.arb.m1WantS2))

/-- The slow master raises a request only while it has the bus and will see it free. -/
def M1Raises (w : BusWorld) (i : BusInput) : Prop :=
  i.clkM1=true → cmd i.m1Next=true → keepsGrant w i=true ∧ w.arb.m1BusyS1=false

/-- The arbiter gives the bus to the slow master. -/
def givesGrant (w : BusWorld) (i : BusInput) : Bool :=
  i.clk && !w.arb.resetS2 && !i.ddrBusy && !rspActive w.arb && !w.arb.grantM1 && !cmd i.m0 &&
    w.arb.m1WantS2

/-- The bus is given to the slow master only while it requests nothing. -/
def M1Rests (w : BusWorld) (i : BusInput) : Prop := givesGrant w i=true → cmd w.m1=false

/-- The DDR bus is ready at some edge of clk in each cycle of the slow clock in which the
slow master requests something. -/
def M1Offered (w : BusWorld) (i : BusInput) : Prop :=
  i.clkM1=true → cmd w.m1=true → w.offered=true ∨ i.clk=true ∧ i.ddrBusy=false

/-- The response FIFO has room for every beat. -/
def RspRoom (w : BusWorld) (i : BusInput) : Prop :=
  i.clk=true → m1RspWrEn w.arb (w.moment i)=true → AsyncFifo.wrFull w.arb.m1RspFifo=false

/-- The masters keep clear of requests that the arbiter forwards too early, too often or
not at all. -/
def Orderly (w : BusWorld) (i : BusInput) : Prop :=
  M0Waits w i ∧ M1Raises w i ∧ M1Rests w i ∧ M1Offered w i ∧ RspRoom w i

instance (w : BusWorld) (i : BusInput) : Decidable (Answered w i) :=
  inferInstanceAs (Decidable (_ → _))

instance (w : BusWorld) (i : BusInput) : Decidable (M0Waits w i) :=
  inferInstanceAs (Decidable (_ → _ → _ → _ → _ ∧ (_ → _ ∧ _)))

instance (w : BusWorld) (i : BusInput) : Decidable (M1Raises w i) :=
  inferInstanceAs (Decidable (_ → _ → _ ∧ _))

instance (w : BusWorld) (i : BusInput) : Decidable (M1Rests w i) :=
  inferInstanceAs (Decidable (_ → _))

instance (w : BusWorld) (i : BusInput) : Decidable (M1Offered w i) :=
  inferInstanceAs (Decidable (_ → _ → _ ∨ _ ∧ _))

instance (w : BusWorld) (i : BusInput) : Decidable (RspRoom w i) :=
  inferInstanceAs (Decidable (_ → _ → _))

instance (w : BusWorld) (i : BusInput) : Decidable (Orderly w i) := instDecidableAnd

variable {w : BusWorld} {i : BusInput}

/-- The beats that the DDR bus owes are those of one read, and the register counts them. -/
structure Owing (w : BusWorld) : Prop where
  /-- The beats counted down are those owed, all to one master. -/
  owed : w.outstanding=List.replicate w.arb.rspLeft.toNat w.arb.rspOwnerM1
  /-- No read returns while the slow master has the bus. -/
  granted : w.arb.grantM1=true → w.arb.rspLeft=0
  /-- The reset falls in order. -/
  released : w.arb.resetS1=true → w.arb.resetS2=true
  /-- In reset nothing is granted and nothing returns. -/
  reset : w.arb.resetS2=true → w.arb.grantM1=false ∧ w.arb.rspLeft=0

theorem rspActive_iff (a : ArbiterRegs) : rspActive a=true ↔ a.rspLeft.toNat≠0 := by
  rw [rspActive,bne_iff_ne,ne_eq,ne_eq,← BitVec.toNat_inj]
  exact Iff.rfl

theorem Owing.head_iff (h : Owing w) (o : Bool) :
    (w.outstanding.head? == some o)=(rspActive w.arb && (w.arb.rspOwnerM1 == o)) := by
  have hactive := rspActive_iff w.arb
  rw [h.owed]
  cases hleft : w.arb.rspLeft.toNat with
  | zero =>
    have hno : rspActive w.arb=false := by
      rw [← Bool.not_eq_true,hactive,hleft]
      exact fun hc => hc rfl
    rw [hno]
    rfl
  | succ n =>
    have hyes : rspActive w.arb=true := hactive.mpr (by omega)
    rw [hyes,Bool.true_and,replicate_succ]
    rfl

theorem left_next (a : ArbiterRegs) (ready : Bool) (o : Bool) :
    List.replicate (if ready && rspActive a then a.rspLeft-1 else a.rspLeft).toNat o =
      if ready then (List.replicate a.rspLeft.toNat o).tail else List.replicate a.rspLeft.toNat o := by
  have hactive := rspActive_iff a
  cases ready with
  | false => rfl
  | true =>
    rw [Bool.true_and,if_pos rfl,tail_replicate]
    by_cases hleft : a.rspLeft.toNat=0
    · have hno : ¬rspActive a=true := fun hc => hactive.mp hc hleft
      rw [if_neg hno,hleft]
    · have hone : (1 : BitVec 9).toNat=1 := rfl
      rw [if_pos (hactive.mpr hleft),BitVec.toNat_sub,hone]
      congr 1
      omega

theorem toNat_burst (b : BitVec 8) : (b.setWidth 9).toNat=b.toNat :=
  BitVec.toNat_setWidth_of_le (by omega)

theorem Owing.step_bus (h : Owing w) (hwaits : M0Waits w i) (hanswered : Answered w i) :
    (w.step i).outstanding=List.replicate (w.step i).arb.rspLeft.toNat (w.step i).arb.rspOwnerM1 ∧
      ((w.step i).arb.grantM1=true → (w.step i).arb.rspLeft=0) ∧
      (w.arb.resetS2=true → (w.step i).arb.grantM1=false ∧ (w.step i).arb.rspLeft=0) := by
  have hpass : accepted w i=false → beatsOwed w i=[] := fun hno => by
    unfold beatsOwed
    rw [hno]
    rfl
  have howed := h.owed
  have hnext : (w.step i).outstanding =
      (if returns i then w.outstanding.tail else w.outstanding) ++ beatsOwed w i := rfl
  have harb : (w.step i).arb=Arbiter.step w.arb (w.moment i) := rfl
  rw [hnext,harb]
  cases hclk : i.clk with
  | false =>
    obtain ⟨hgrant,howner,hleft⟩ := step_still (a := w.arb) (i := w.moment i) hclk
    have hno : accepted w i=false := by
      unfold accepted
      rw [hclk]
      rfl
    have hquiet : returns i=false := by
      unfold returns
      rw [hclk]
      rfl
    rw [hgrant,howner,hleft,hpass hno,hquiet,append_nil]
    exact ⟨howed,h.granted,h.reset⟩
  | true =>
    cases hrst : w.arb.resetS2 with
    | true =>
      obtain ⟨hgrant,howner,hleft⟩ := step_rst (a := w.arb) (i := w.moment i) hclk hrst
      obtain ⟨hnogrant,hnoleft⟩ := h.reset hrst
      have hnone : w.outstanding=[] := by
        rw [howed,hnoleft]
        rfl
      have hquiet : returns i=false := by
        by_contra hc
        exact hanswered (by simpa using hc) hnone
      have hno : accepted w i=false := by
        by_contra hc
        simp only [accepted,selected,hnogrant,Bool.not_eq_false,Bool.and_eq_true,
          Bool.not_eq_true'] at hc
        obtain ⟨⟨_,hbusy⟩,hcmd⟩ := hc
        have hout := (hwaits hclk hbusy hnogrant hcmd).1
        exact absurd (hrst.symm.trans hout) Bool.false_ne_true.symm
      rw [hgrant,howner,hleft,hpass hno,hquiet,hnone]
      exact ⟨rfl,fun hc => absurd hc Bool.false_ne_true,fun _ => ⟨rfl,rfl⟩⟩
    | false =>
      have hreturns : returns i=i.ddrDoutReady := by
        unfold returns
        rw [hclk,Bool.true_and]
      rw [hreturns]
      cases hbusy : i.ddrBusy with
      | true =>
        obtain ⟨hgrant,howner,hleft⟩ := step_busy (a := w.arb) (i := w.moment i) hclk hrst hbusy
        have hno : accepted w i=false := by simp [accepted,hbusy]
        have hbeats := left_next w.arb i.ddrDoutReady w.arb.rspOwnerM1
        have hready : (w.moment i).ddrDoutReady=i.ddrDoutReady := rfl
        rw [hgrant,howner,hleft,hpass hno,append_nil,hready,hbeats,howed]
        refine ⟨rfl,fun hc => ?_,fun hc => absurd hc Bool.false_ne_true⟩
        have hzero := h.granted hc
        have hidle : rspActive w.arb=false := by simp [rspActive,hzero]
        rw [hidle,Bool.and_false,if_neg Bool.false_ne_true]
        exact hzero
      | false =>
        have haccepted : accepted w i=cmd (selected w.arb (w.moment i)) := by
          simp [accepted,hclk,hbusy]
        cases hactive : rspActive w.arb with
        | true =>
          have hnogrant : w.arb.grantM1=false := by
            by_contra hc
            have hzero := h.granted (by simpa using hc)
            simp [rspActive,hzero] at hactive
          obtain ⟨hgrant,howner,hleft⟩ :=
            step_active (a := w.arb) (i := w.moment i) hclk hrst hactive hnogrant
          have hread : cmd i.m0=true → i.m0.rd=false := fun hcmd =>
            ((hwaits hclk hbusy hnogrant hcmd).2 hactive).2
          have hnone : beatsOwed w i=[] := by
            unfold beatsOwed
            rw [haccepted]
            cases hcmd : cmd i.m0 with
            | false => simp [selected,hnogrant,BusWorld.moment,hcmd]
            | true => simp [selected,hnogrant,BusWorld.moment,hread hcmd]
          have hbeats := left_next w.arb i.ddrDoutReady w.arb.rspOwnerM1
          have hready : (w.moment i).ddrDoutReady=i.ddrDoutReady := rfl
          rw [hactive,Bool.and_true] at hbeats
          rw [hgrant,howner,hleft,hnone,append_nil,hready,hbeats,howed]
          exact ⟨rfl,fun hc => absurd hc Bool.false_ne_true,fun hc => absurd hc Bool.false_ne_true⟩
        | false =>
          have hzero : w.arb.rspLeft=0 := by simpa [rspActive] using hactive
          have hnone : w.outstanding=[] := by
            rw [howed,hzero]
            rfl
          have hquiet : i.ddrDoutReady=false := by
            by_contra hc
            exact hanswered (by rw [hreturns]; simpa using hc) hnone
          have howes : beatsOwed w i =
              if (selected w.arb (w.moment i)).rd then
                replicate (selected w.arb (w.moment i)).burstcnt.toNat w.arb.grantM1
              else [] := by
            unfold beatsOwed
            rw [haccepted]
            cases hrd : (selected w.arb (w.moment i)).rd with
            | false => simp
            | true => simp [cmd,hrd]
          rw [hquiet,hnone,if_neg Bool.false_ne_true,nil_append,howes]
          cases hgrant : w.arb.grantM1 with
          | true =>
            obtain ⟨hgrant',howner,hleft⟩ :=
              step_granted (a := w.arb) (i := w.moment i) hclk hrst hbusy hactive hgrant
            have hsel : selected w.arb (w.moment i)=w.m1 := if_pos hgrant
            have hm1 : (w.moment i).m1=w.m1 := rfl
            rw [hgrant',howner,hleft,hsel,hm1,hzero]
            cases hrd : w.m1.rd with
            | true => simp [cmd,hrd,-BitVec.toNat_setWidth,toNat_burst]
            | false => simp
          | false =>
            obtain ⟨hgrant',howner,hleft⟩ :=
              step_free (a := w.arb) (i := w.moment i) hclk hrst hbusy hactive hgrant
            have hsel : selected w.arb (w.moment i)=i.m0 := if_neg (by simp [hgrant])
            have hm0 : (w.moment i).m0=i.m0 := rfl
            rw [hgrant',howner,hleft,hsel,hm0,hzero]
            cases hrd : i.m0.rd with
            | true => simp [cmd,hrd,-BitVec.toNat_setWidth,toNat_burst]
            | false => simp

/-- The count of the beats owed is kept. -/
theorem Owing.step (h : Owing w) (hwaits : M0Waits w i) (hanswered : Answered w i) :
    Owing (w.step i) := by
  obtain ⟨howed,hgranted,hreset⟩ := h.step_bus hwaits hanswered
  have hs1 : (w.step i).arb.resetS1 = if i.clk then false else w.arb.resetS1 := rfl
  have hs2 : (w.step i).arb.resetS2 = if i.clk then w.arb.resetS1 else w.arb.resetS2 := rfl
  refine ⟨howed,hgranted,?_,fun hrst => hreset ?_⟩
  · rw [hs1,hs2]
    cases i.clk with
    | false => exact h.released
    | true => exact fun hc => absurd hc Bool.false_ne_true
  · rw [hs2] at hrst
    cases hclk : i.clk with
    | false =>
      rw [hclk] at hrst
      exact hrst
    | true =>
      rw [hclk] at hrst
      exact h.released hrst

theorem Owing.grant_next (h : Owing w) :
    (w.step i).arb.grantM1=(keepsGrant w i || givesGrant w i) := by
  have harb : (w.step i).arb=Arbiter.step w.arb (w.moment i) := rfl
  rw [harb]
  unfold keepsGrant givesGrant
  cases hclk : i.clk with
  | false =>
    rw [(step_still (a := w.arb) (i := w.moment i) hclk).1]
    simp
  | true =>
    cases hrst : w.arb.resetS2 with
    | true =>
      rw [(step_rst (a := w.arb) (i := w.moment i) hclk hrst).1,(h.reset hrst).1]
      simp
    | false =>
      cases hbusy : i.ddrBusy with
      | true =>
        rw [(step_busy (a := w.arb) (i := w.moment i) hclk hrst hbusy).1]
        simp
      | false =>
        cases hgrant : w.arb.grantM1 with
        | true =>
          have hidle : rspActive w.arb=false := by simp [rspActive,h.granted hgrant]
          rw [(step_granted (a := w.arb) (i := w.moment i) hclk hrst hbusy hidle hgrant).1]
          simp [BusWorld.moment]
        | false =>
          cases hactive : rspActive w.arb with
          | true =>
            rw [(step_active (a := w.arb) (i := w.moment i) hclk hrst hactive hgrant).1]
            simp
          | false =>
            rw [(step_free (a := w.arb) (i := w.moment i) hclk hrst hbusy hactive hgrant).1]
            simp [BusWorld.moment]

/-- The first master sees its commands accepted just when the DDR bus accepts them. -/
theorem m0Sees_iff (hwaits : M0Waits w i) : (accepted w i && !w.arb.grantM1)=m0Sees w i := by
  unfold accepted m0Sees m0Busy selected
  cases hclk : i.clk with
  | false => simp
  | true =>
    cases hgrant : w.arb.grantM1 with
    | true => simp
    | false =>
      cases hbusy : i.ddrBusy with
      | true => simp [BusWorld.moment,hbusy]
      | false =>
        cases hcmd : cmd i.m0 with
        | false => simp [BusWorld.moment,hcmd]
        | true =>
          have howner := (hwaits hclk hbusy hgrant hcmd).2
          cases hactive : rspActive w.arb with
          | false => simp [BusWorld.moment,hbusy,hcmd]
          | true => simp [BusWorld.moment,hbusy,hcmd,(howner hactive).1]

/-- Where the request of the slow master stands in this cycle of its clock. -/
inductive Request (w : BusWorld) : Prop
  | none (hcmd : cmd w.m1=false) (hsame : w.forwarded1=w.seen1)
  /-- It has the bus, and the DDR bus has not been ready. -/
  | waiting (hcmd : cmd w.m1=true) (hfree : m1Busy w.arb=false)
      (hsame : w.forwarded1=w.seen1) (hgrant : w.arb.grantM1=true) (hoffered : w.offered=false)
  /-- The DDR bus has accepted its command. -/
  | taken (hcmd : cmd w.m1=true) (hfree : m1Busy w.arb=false)
      (hmore : w.forwarded1 = w.seen1 ++ [w.m1]) (hgrant : w.arb.grantM1=false)

/-- A cycle of the slow clock begins with nothing requested or with the bus granted. -/
theorem Request.begins (howing : Owing w) (hraises : M1Raises w i) (hclk : i.clkM1=true)
    (hsame : (w.step i).forwarded1=(w.step i).seen1) : Request (w.step i) := by
  have hm1 : (w.step i).m1=i.m1Next := if_pos hclk
  have hbusy : m1Busy (w.step i).arb=w.arb.m1BusyS1 := if_pos hclk
  have hoffered : (w.step i).offered=false := if_pos hclk
  cases hcmd : cmd i.m1Next with
  | false => exact Request.none (by rw [hm1,hcmd]) hsame
  | true =>
    obtain ⟨hkeeps,hs1⟩ := hraises hclk hcmd
    refine Request.waiting (by rw [hm1,hcmd]) (hbusy.trans hs1) hsame ?_ hoffered
    rw [howing.grant_next,hkeeps,Bool.true_or]

/-- Between the edges of its clock the slow master sees nothing new. -/
theorem m1_rests (hclk : i.clkM1=false) : (w.step i).m1=w.m1 ∧
    m1Busy (w.step i).arb=m1Busy w.arb ∧ m1Sees w i=false :=
  ⟨if_neg (by simp [hclk]),if_neg (by simp [BusWorld.moment,hclk]),by simp [m1Sees,hclk]⟩

/-- The slow master's command stays until it is accepted. -/
theorem Request.step (h : Request w) (howing : Owing w) (hraises : M1Raises w i)
    (hrests : M1Rests w i) (hoffered : M1Offered w i) : Request (w.step i) := by
  have hforwarded : (w.step i).forwarded1 =
      if accepted w i && w.arb.grantM1 then w.forwarded1 ++ [selected w.arb (w.moment i)]
      else w.forwarded1 := rfl
  have hseen : (w.step i).seen1 = if m1Sees w i then w.seen1 ++ [w.m1] else w.seen1 := rfl
  have hgrant' := howing.grant_next (i := i)
  cases h with
  | none hcmd hsame =>
    have hno : (accepted w i && w.arb.grantM1)=false := by
      unfold accepted selected
      cases w.arb.grantM1 with
      | false => simp
      | true => simp [BusWorld.moment,hcmd]
    have hblind : m1Sees w i=false := by simp [m1Sees,hcmd]
    have hkept : (w.step i).forwarded1=(w.step i).seen1 := by
      rw [hforwarded,hseen,hno,hblind]
      exact hsame
    cases hclk : i.clkM1 with
    | true => exact Request.begins howing hraises hclk hkept
    | false =>
      have hm1 : (w.step i).m1=w.m1 := if_neg (by simp [hclk])
      exact Request.none (by rw [hm1,hcmd]) hkept
  | waiting hcmd hfree hsame hgrant hquiet =>
    have hsel : selected w.arb (w.moment i)=w.m1 := if_pos hgrant
    have htakes : (accepted w i && w.arb.grantM1)=(i.clk && !i.ddrBusy) := by
      simp [accepted,hsel,hcmd,hgrant]
    have hgives : givesGrant w i=false := by simp [givesGrant,hgrant]
    cases hready : (i.clk && !i.ddrBusy) with
    | true =>
      have hmore : (w.step i).forwarded1 = w.seen1 ++ [w.m1] := by
        rw [hforwarded,htakes,hready,if_pos rfl,hsel,hsame]
      have hleaves : keepsGrant w i=false := by simp [keepsGrant,hready,hcmd]
      cases hclk : i.clkM1 with
      | true =>
        have hsees : m1Sees w i=true := by simp [m1Sees,hclk,hcmd,hfree]
        refine Request.begins howing hraises hclk ?_
        rw [hmore,hseen,hsees,if_pos rfl]
      | false =>
        obtain ⟨hm1,hbusy,hblind⟩ := m1_rests hclk
        refine Request.taken (by rw [hm1,hcmd]) (hbusy.trans hfree) ?_ ?_
        · rw [hmore,hseen,hblind,if_neg Bool.false_ne_true,hm1]
        · rw [hgrant',hleaves,hgives]
          rfl
    | false =>
      have hkept : (w.step i).forwarded1=w.seen1 := by
        rw [hforwarded,htakes,hready,if_neg Bool.false_ne_true,hsame]
      have hkeeps : keepsGrant w i=true := by simp [keepsGrant,hready,hgrant]
      cases hclk : i.clkM1 with
      | true =>
        have hlate := hoffered hclk hcmd
        rw [hquiet] at hlate
        obtain ⟨hup,hfreebus⟩ := hlate.resolve_left Bool.false_ne_true
        rw [hup,hfreebus] at hready
        exact absurd hready.symm Bool.false_ne_true
      | false =>
        obtain ⟨hm1,hbusy,hblind⟩ := m1_rests hclk
        have hstill : (w.step i).offered=(w.offered || (i.clk && !i.ddrBusy)) :=
          if_neg (by simp [hclk])
        refine Request.waiting (by rw [hm1,hcmd]) (hbusy.trans hfree) ?_ ?_ ?_
        · rw [hkept,hseen,hblind,if_neg Bool.false_ne_true]
        · rw [hgrant',hkeeps,Bool.true_or]
        · rw [hstill,hquiet,hready]
          rfl
  | taken hcmd hfree hmore hgrant =>
    have hno : (accepted w i && w.arb.grantM1)=false := by rw [hgrant,Bool.and_false]
    have hkept : (w.step i).forwarded1 = w.seen1 ++ [w.m1] := by
      rw [hforwarded,hno,if_neg Bool.false_ne_true,hmore]
    have hgives : givesGrant w i=false := by
      by_contra hc
      have hrest := hrests (by simpa using hc)
      exact absurd (hrest.symm.trans hcmd) Bool.false_ne_true
    have hleaves : keepsGrant w i=false := by simp [keepsGrant,hgrant]
    cases hclk : i.clkM1 with
    | true =>
      have hsees : m1Sees w i=true := by simp [m1Sees,hclk,hcmd,hfree]
      refine Request.begins howing hraises hclk ?_
      rw [hkept,hseen,hsees,if_pos rfl]
    | false =>
      obtain ⟨hm1,hbusy,hblind⟩ := m1_rests hclk
      refine Request.taken (by rw [hm1,hcmd]) (hbusy.trans hfree) ?_ ?_
      · rw [hkept,hseen,hblind,if_neg Bool.false_ne_true,hm1]
      · rw [hgrant',hleaves,hgives]
        rfl

/-- Every beat has gone where it belongs. -/
structure Delivering (w : BusWorld) : Prop where
  /-- The first master has received what it is due. -/
  first : w.got0=w.due0
  /-- The response FIFO has accepted those of the slow master. -/
  entered : w.entered1=w.due1
  /-- Nothing is due while the reset holds. -/
  unreturned : w.arb.resetS2=true → w.due1=[]
  /-- The response FIFO keeps them in order. -/
  synced : ∃ w1 w2 r1 r2, Synced w.rsp w1 w2 r1 r2

/-- The response FIFO runs, in reset too, and accepts the beats of the slow master. -/
theorem Delivering.rsp_running (h : Delivering w) (howing : Owing w) (hroom : RspRoom w i) :
    ∃ e : Edge 64, AsyncFifo.Running e ∧ (w.step i).rsp=w.rsp.step e ∧
      e.rd=(fifoEdge w.arb (w.moment i)).rd ∧
      AsyncFifo.accepts w.rsp.fifo e =
        if i.clk && m1RspWrEn w.arb (w.moment i) then [i.ddrDout] else [] := by
  obtain ⟨w1,w2,r1,r2,hsynced⟩ := h.synced
  have hrd : ∀ p∈(fifoEdge w.arb (w.moment i)).rd, p.reset=false := by
    unfold fifoEdge
    cases hclk : (w.moment i).clkM1 with
    | false => simp
    | true =>
      intro p hp
      rw [if_pos rfl,Option.mem_some_iff] at hp
      rw [← hp]
      rfl
  cases hclk : i.clk with
  | false =>
    have hwr : (fifoEdge w.arb (w.moment i)).wr=none := if_neg (by simp [BusWorld.moment,hclk])
    refine ⟨fifoEdge w.arb (w.moment i),⟨fun p hp => ?_,hrd⟩,rfl,rfl,?_⟩
    · rw [hwr] at hp
      exact absurd hp (Option.not_mem_none p)
    · rw [AsyncFifo.accepts,hwr]
      rfl
  | true =>
    have hwr : (fifoEdge w.arb (w.moment i)).wr =
        some ⟨w.arb.resetS2,m1RspWrEn w.arb (w.moment i),i.ddrDout⟩ := if_pos hclk
    cases hrst : w.arb.resetS2 with
    | true =>
      have hempty : w.rsp.accepted=[] := h.entered.trans (h.unreturned hrst)
      have hidle : m1RspWrEn w.arb (w.moment i)=false := by
        simp [m1RspWrEn,rspActive,(howing.reset hrst).2]
      have hedge : fifoEdge w.arb (w.moment i) =
          ⟨some ⟨true,m1RspWrEn w.arb (w.moment i),i.ddrDout⟩,
            (fifoEdge w.arb (w.moment i)).rd⟩ := by
        rw [← hrst,← hwr]
      refine ⟨⟨none,(fifoEdge w.arb (w.moment i)).rd⟩,⟨fun p hp => ?_,hrd⟩,?_,rfl,?_⟩
      · exact absurd hp (Option.not_mem_none p)
      · have hnext : (w.step i).rsp=w.rsp.step (fifoEdge w.arb (w.moment i)) := rfl
        rw [hnext,hedge]
        exact hsynced.wr_reset (p := ⟨true,m1RspWrEn w.arb (w.moment i),i.ddrDout⟩) hempty rfl _
      · rw [hidle,Bool.and_false]
        rfl
    | false =>
      refine ⟨fifoEdge w.arb (w.moment i),⟨fun p hp => ?_,hrd⟩,rfl,rfl,?_⟩
      · rw [hwr,Option.mem_some_iff] at hp
        rw [← hp]
        exact hrst
      · rw [AsyncFifo.accepts,hwr,Option.elim_some,AsyncFifo.wrAccept,Bool.true_and]
        cases hen : m1RspWrEn w.arb (w.moment i) with
        | false => rfl
        | true =>
          have hfull : AsyncFifo.wrFull w.rsp.fifo=false := hroom hclk hen
          rw [hfull]
          rfl

/-- The beats go on to their masters. -/
theorem Delivering.step (h : Delivering w) (howing : Owing w) (hroom : RspRoom w i) :
    Delivering (w.step i) := by
  have hdue0 : (w.step i).due0 =
      if returns i && w.outstanding.head? == some false then w.due0 ++ [i.ddrDout]
      else w.due0 := rfl
  have hdue1 : (w.step i).due1 =
      if returns i && w.outstanding.head? == some true then w.due1 ++ [i.ddrDout]
      else w.due1 := rfl
  have hgot0 : (w.step i).got0 =
      if i.clk && m0DoutReady w.arb (w.moment i) then w.got0 ++ [i.ddrDout] else w.got0 := rfl
  have hfirst : (returns i && w.outstanding.head? == some false) =
      (i.clk && m0DoutReady w.arb (w.moment i)) := by
    rw [howing.head_iff,returns,m0DoutReady]
    simp [BusWorld.moment,Bool.and_assoc]
  have hsecond : (returns i && w.outstanding.head? == some true) =
      (i.clk && m1RspWrEn w.arb (w.moment i)) := by
    rw [howing.head_iff,returns,m1RspWrEn]
    simp [BusWorld.moment,Bool.and_assoc]
  obtain ⟨w1,w2,r1,r2,hsynced⟩ := h.synced
  obtain ⟨e,hrun,hrsp,_,haccepts⟩ := h.rsp_running howing hroom
  have hentered : (w.step i).entered1 =
      w.entered1 ++ if i.clk && m1RspWrEn w.arb (w.moment i) then [i.ddrDout] else [] := by
    rw [← haccepts]
    exact (congrArg FifoWorld.accepted hrsp).trans hrun.accepted
  constructor
  · rw [hgot0,hdue0,hfirst,h.first]
  · rw [hentered,hdue1,hsecond,h.entered]
    split_ifs
    · rfl
    · exact append_nil _
  · intro hrst
    have hs2 : (w.step i).arb.resetS2 = if i.clk then w.arb.resetS1 else w.arb.resetS2 := rfl
    have hold : w.arb.resetS2=true := by
      rw [hs2] at hrst
      cases hclk : i.clk with
      | false =>
        rw [hclk] at hrst
        exact hrst
      | true =>
        rw [hclk] at hrst
        exact howing.released hrst
    have hidle : m1RspWrEn w.arb (w.moment i)=false := by
      simp [m1RspWrEn,rspActive,(howing.reset hold).2]
    rw [hdue1,hsecond,hidle,Bool.and_false,if_neg Bool.false_ne_true]
    exact h.unreturned hold
  · rw [hrsp]
    exact ⟨_,_,_,_,hsynced.step (by decide) hrun⟩

/-- Commands and beats so far, and where the registers stand. -/
structure Tracked (w : BusWorld) : Prop where
  /-- The arbiter counts the beats owed. -/
  owing : Owing w
  /-- The first master sees its commands accepted. -/
  commands0 : w.forwarded0=w.seen0
  /-- Commands of the slow master. -/
  request : Request w
  /-- The beats go where they are due. -/
  delivering : Delivering w

/-- One moment keeps everything that is tracked. -/
theorem Tracked.step (h : Tracked w) (hanswered : Answered w i) (horderly : Orderly w i) :
    Tracked (w.step i) := by
  obtain ⟨hwaits,hraises,hrests,hoffered,hroom⟩ := horderly
  refine ⟨h.owing.step hwaits hanswered,?_,h.request.step h.owing hraises hrests hoffered,
    h.delivering.step h.owing hroom⟩
  have hforwarded : (w.step i).forwarded0 =
      if accepted w i && !w.arb.grantM1 then w.forwarded0 ++ [selected w.arb (w.moment i)]
      else w.forwarded0 := rfl
  have hseen : (w.step i).seen0 = if m0Sees w i then w.seen0 ++ [i.m0] else w.seen0 := rfl
  have hsame := m0Sees_iff hwaits
  rw [hforwarded,hseen,← hsame,h.commands0]
  cases hgrant : w.arb.grantM1 with
  | true => simp
  | false =>
    have hsel : selected w.arb (w.moment i)=i.m0 := if_neg (by simp [hgrant])
    rw [hsel]

theorem Tracked.conserved (h : Tracked w) : BusConserved w := by
  obtain ⟨w1,w2,r1,r2,hsynced⟩ := h.delivering.synced
  constructor
  · exact h.commands0
  · cases h.request with
    | none hcmd hsame => exact Or.inl hsame
    | waiting hcmd hfree hsame hgrant hoffered => exact Or.inl hsame
    | taken hcmd hfree hmore hgrant => exact Or.inr ⟨hcmd,hfree,hmore⟩
  · exact h.delivering.first
  · rw [← h.delivering.entered]
    exact hsynced.inOrder

/-- A master that requests nothing. -/
def MasterWires.idle : MasterWires := ⟨0,0,false,0,0,false⟩

/-- Nothing has passed yet. -/
def BusWorld.start (a : ArbiterRegs) : BusWorld where
  arb := a
  m1 := MasterWires.idle
  m1Want := false
  offered := false
  forwarded0 := []
  seen0 := []
  forwarded1 := []
  seen1 := []
  outstanding := []
  due0 := []
  got0 := []
  due1 := []
  entered1 := []
  got1 := []

/-- A reset: it is high at every moment, and both clocks rise. -/
structure BusReset (resets : List Moment) : Prop where
  /-- The reset is asserted throughout. -/
  asserted : ∀ i∈resets, i.reset=true
  /-- The DDR clock rises in it. -/
  clkRises : ∃ i∈resets, i.clk=true
  /-- The slow master's clock rises in it. -/
  clkM1Rises : ∃ i∈resets, i.clkM1=true

variable {a : ArbiterRegs}

theorem fifoEdge_resetting {j : Moment} (hreset : j.reset=true) :
    AsyncFifo.Resetting (fifoEdge a j) := by
  unfold AsyncFifo.Resetting fifoEdge rst
  rw [hreset]
  cases j.clk with
  | false =>
    cases j.clkM1 with
    | false => simp
    | true => simp
  | true =>
    cases j.clkM1 with
    | false => simp
    | true => simp

theorem tracked_reset {resets : List Moment} (h : BusReset resets) (a : ArbiterRegs) :
    Tracked (BusWorld.start (finalState step a resets)) := by
  have hbus : (finalState step a resets).grantM1=false ∧
      (finalState step a resets).rspLeft=0 := by
    refine established_run (P := fun a : ArbiterRegs => a.grantM1=false ∧ a.rspLeft=0)
      (fun b j hreset hor => ?_) h.asserted (Or.inl h.clkRises)
    cases hclk : j.clk with
    | true =>
      obtain ⟨hgrant,_,hleft⟩ := step_rst (a := b) hclk (by simp [rst,hreset])
      exact ⟨hgrant,hleft⟩
    | false =>
      obtain ⟨hgrant,_,hleft⟩ := step_still (a := b) hclk
      rw [hgrant,hleft]
      exact hor.resolve_left (by simp [hclk])
  have hreset2 : (finalState step a resets).resetS2=true := by
    refine established_run (P := fun a : ArbiterRegs => a.resetS2=true) (fun b j hreset _ => ?_) h.asserted
      (Or.inl h.clkRises)
    exact if_pos hreset
  have hwr : AsyncFifo.WrCleared ⟨(finalState step a resets).m1RspFifo,[],[]⟩ := by
    refine established_run (P := fun a : ArbiterRegs => AsyncFifo.WrCleared ⟨a.m1RspFifo,[],[]⟩)
      (fun b j hreset hor => ?_) h.asserted (Or.inl h.clkRises)
    have hedge := fifoEdge_resetting (a := b) hreset
    have hnext : AsyncFifo.WrCleared (FifoWorld.step ⟨b.m1RspFifo,[],[]⟩ (fifoEdge b j)) := by
      refine AsyncFifo.wrCleared_step hedge (hor.imp (fun hclk => ?_) id)
      simp [fifoEdge,hclk]
    rw [AsyncFifo.step_resetting hedge] at hnext
    exact hnext
  have hrd : AsyncFifo.RdCleared ⟨(finalState step a resets).m1RspFifo,[],[]⟩ := by
    refine established_run (P := fun a : ArbiterRegs => AsyncFifo.RdCleared ⟨a.m1RspFifo,[],[]⟩)
      (fun b j hreset hor => ?_) h.asserted (Or.inl h.clkM1Rises)
    have hedge := fifoEdge_resetting (a := b) hreset
    have hnext : AsyncFifo.RdCleared (FifoWorld.step ⟨b.m1RspFifo,[],[]⟩ (fifoEdge b j)) := by
      refine AsyncFifo.rdCleared_step hedge (hor.imp (fun hclk => ?_) id)
      simp [fifoEdge,hclk]
    rw [AsyncFifo.step_resetting hedge] at hnext
    exact hnext
  refine ⟨⟨?_,fun _ => hbus.2,fun _ => hreset2,fun _ => hbus⟩,rfl,Request.none rfl rfl,
    ⟨rfl,rfl,fun _ => rfl,0,0,0,0,AsyncFifo.synced_cleared hwr hrd⟩⟩
  have hleft : (BusWorld.start (finalState step a resets)).arb.rspLeft=0 := hbus.2
  rw [hleft]
  rfl

/-- The slow clock rises. -/
def risesM1 (i : BusInput) : Bool := i.clkM1

/-- A beat that the response FIFO has accepted reaches the slow master within twelve edges
of its clock. -/
theorem got1_run {ls : List BusInput} (h : Tracked w)
    (halong : Along BusWorld.step (fun w i => Answered w i ∧ Orderly w i) w ls) {n w1 w2 r1 r2 : ℕ}
    (hsynced : Synced w.rsp w1 w2 r1 r2) (hn : n≤w.entered1.length)
    (hreads : n≤w.got1.length ∨ AsyncFifo.pendingReads n w.rsp w1 w2≤ls.countP risesM1) :
    n≤(finalState BusWorld.step w ls).got1.length := by
  induction ls generalizing w w1 w2 r1 r2 with
  | nil =>
    rcases hreads with hdone | hzero
    · exact hdone
    · rw [countP_nil,AsyncFifo.pendingReads] at hzero
      have hdelivered : w.rsp.delivered=w.got1 := rfl
      rw [hdelivered] at hzero
      exact (by omega : n≤w.got1.length)
  | cons i ls ih =>
    obtain ⟨hanswered,horderly⟩ := halong.1
    obtain ⟨e,hrun,hrsp,hrd,_⟩ := h.delivering.rsp_running h.owing horderly.2.2.2.2
    have hgrow : w.got1.length≤(w.step i).got1.length := by
      have hdelivered := congrArg FifoWorld.delivered hrsp
      have hnext : (w.step i).got1=(w.step i).rsp.delivered := rfl
      rw [hnext,hdelivered,hrun.delivered,length_append]
      exact Nat.le_add_right _ _
    have haccepted : w.entered1.length≤(w.step i).entered1.length := by
      have hentered := congrArg FifoWorld.accepted hrsp
      have hnext : (w.step i).entered1=(w.step i).rsp.accepted := rfl
      rw [hnext,hentered,hrun.accepted,length_append]
      exact Nat.le_add_right _ _
    have hsynced' := hsynced.step (by decide) hrun
    rw [← hrsp] at hsynced'
    refine ih (h.step hanswered horderly) halong.2 hsynced' (by omega) ?_
    by_cases hdone : n≤(w.step i).got1.length
    · exact Or.inl hdone
    · have hnot : ¬n≤(w.rsp.step e).delivered.length := by
        rw [← hrsp]
        exact hdone
      have hless := AsyncFifo.pendingReads_step hsynced hrun hn hnot
      have hpending := hreads.resolve_left (by omega)
      have hcount : (if risesM1 i = true then 1 else 0)≤(AsyncFifo.advances w.rsp.fifo e).toNat := by
        unfold AsyncFifo.advances risesM1
        rw [hrd]
        unfold fifoEdge
        have hclk : (w.moment i).clkM1=i.clkM1 := rfl
        rw [hclk]
        cases i.clkM1 with
        | false => exact Nat.le_refl 0
        | true =>
          have hready : (!AsyncFifo.rdEmpty w.arb.m1RspFifo || AsyncFifo.rdEmpty w.rsp.fifo)=true :=
            Bool.not_or_self _
          rw [if_pos rfl,if_pos rfl,Option.elim_some,hready]
          exact Nat.le_refl 1
      rw [countP_cons] at hpending
      rw [hrsp]
      exact Or.inr (by omega)

/-- From a reset on, in every run in which the DDR bus answers its reads and the masters
keep clear of each other, commands and beats are conserved in every state reached, and
every beat of the slow master has reached it twelve edges of its clock later. -/
theorem bus_conserved (a : ArbiterRegs) {resets : List Moment} {ls : List BusInput}
    (hreset : BusReset resets)
    (hanswered : Along BusWorld.step Answered (BusWorld.start (finalState step a resets)) ls)
    (horderly : Along BusWorld.step Orderly (BusWorld.start (finalState step a resets)) ls) :
    Throughout BusWorld.step BusConserved (BusWorld.start (finalState step a resets)) ls ∧
      ∀ before after : List BusInput, ls = before ++ after → 12≤after.countP risesM1 →
        (finalState BusWorld.step (BusWorld.start (finalState step a resets)) before).due1.length ≤
          (finalState BusWorld.step (BusWorld.start (finalState step a resets)) ls).got1.length := by
  have hstart := tracked_reset hreset a
  have hboth := hanswered.and horderly
  constructor
  · have hall : Throughout BusWorld.step Tracked (BusWorld.start (finalState step a resets)) ls :=
      Along.throughout (fun _ _ htracked hnow => htracked.step hnow.1 hnow.2) hboth hstart
    exact hall.mono fun _ htracked => htracked.conserved
  · intro before after hsplit hrises
    subst hsplit
    obtain ⟨hbefore,hafter⟩ := hboth.split
    have hmid := (Along.throughout (P := Tracked)
      (fun _ _ htracked hnow => htracked.step hnow.1 hnow.2) hbefore hstart).last
    obtain ⟨w1,w2,r1,r2,hsynced⟩ := hmid.delivering.synced
    rw [finalState_append,← hmid.delivering.entered]
    exact got1_run hmid hafter hsynced (Nat.le_refl _)
      (Or.inr (hsynced.pendingReads_le.trans hrises))

/-- All registers zero. -/
def ArbiterRegs.zero : ArbiterRegs :=
  ⟨false,false,false,false,false,false,0,false,false,false,
    ⟨⟨fun _ => 0,0,0⟩,0,0,0,0,0,0,0,false⟩⟩

/-- A run of one edge of both clocks under reset. -/
def oneReset : List Moment :=
  [⟨true,true,true,false,MasterWires.idle,MasterWires.idle,false,0,false⟩]

/-- A read of one beat. -/
def oneBeat : MasterWires := ⟨1,5,true,0,255,false⟩

/-- An edge of clk. -/
def clkOnly (m0 : MasterWires) (ready : Bool) : BusInput :=
  ⟨true,false,m0,MasterWires.idle,true,false,77,ready⟩

/-- An edge of the slow clock. -/
def slowOnly (m1 : MasterWires) : BusInput :=
  ⟨false,true,MasterWires.idle,m1,true,false,0,false⟩

/-- The slow master asks for the bus, is granted it, sees it free and reads. -/
def slowRead (m0 : MasterWires) : List BusInput :=
  slowOnly MasterWires.idle::List.replicate 5 (clkOnly MasterWires.idle false) ++
    [clkOnly m0 false,slowOnly MasterWires.idle,slowOnly oneBeat,clkOnly m0 false]

/-- The read of the slow master returns. -/
theorem bus_conserved_slowRead :
    Throughout BusWorld.step BusConserved (BusWorld.start (finalState step ArbiterRegs.zero oneReset))
      (slowRead MasterWires.idle ++ [slowOnly MasterWires.idle,clkOnly MasterWires.idle true] ++
        List.replicate 12 (slowOnly MasterWires.idle)) ∧
    (finalState BusWorld.step (BusWorld.start (finalState step ArbiterRegs.zero oneReset))
      (slowRead MasterWires.idle ++ [slowOnly MasterWires.idle,clkOnly MasterWires.idle true] ++
        List.replicate 12 (slowOnly MasterWires.idle))).got1=[77] :=
  ⟨(bus_conserved ArbiterRegs.zero ⟨by decide,by decide,by decide⟩ (by decide)
    (by decide)).1,by decide⟩

/-- A read that the first master raises as the bus is granted to the slow master is taken
by the DDR bus while the read of the slow master returns and the first master sees it busy. -/
theorem not_bus_conserved_held : ¬ ∀ (a : ArbiterRegs) (resets : List Moment) (ls : List BusInput),
    BusReset resets →
    Along BusWorld.step Answered (BusWorld.start (finalState step a resets)) ls →
    Throughout BusWorld.step BusConserved (BusWorld.start (finalState step a resets)) ls := by
  intro h
  have hall := h ArbiterRegs.zero oneReset (slowRead oneBeat ++ [clkOnly oneBeat false])
    ⟨by decide,by decide,by decide⟩ (by decide)
  have hcommands := hall.last.m0Commands
  exact cons_ne_nil _ _ hcommands

end Misterplex.Arbiter
