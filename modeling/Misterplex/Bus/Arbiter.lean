import Misterplex.Bus.AsyncFifo

/-!
# ddr_bus_arbiter

Two masters share the DDR bus: one on the clock of the bus, one on a slower clock of its
own. The grant, the owner of the read that is returning and what each master sees of the
bus are separate registers. Beats for the second master come through a FIFO between the
clocks.
-/

namespace Misterplex.Arbiter

open AsyncFifo (Fifo Edge)

/-- The request wires of a master. -/
structure MasterWires where
  /-- The words of the burst. -/
  burstcnt : BitVec 8
  /-- The word address. -/
  addr : BitVec 29
  /-- A read is asked for. -/
  rd : Bool
  /-- The word to write. -/
  din : BitVec 64
  /-- Its byte enables. -/
  be : BitVec 8
  /-- A write is asked for. -/
  we : Bool
  deriving DecidableEq, Repr

/-- Registers of the module. -/
structure ArbiterRegs where
  /-- The reset and m1_want, synchronised. -/
  (resetS1 resetS2 m1WantS1 m1WantS2 : Bool)
  /-- The slow master has the bus. -/
  grantM1 : Bool
  /-- The returning beats are the slow master's. -/
  rspOwnerM1 : Bool
  /-- The beats still to return. -/
  rspLeft : BitVec 9
  /-- m1_busy, and as the slow master sees it. -/
  (m1BusyR m1BusyS1 m1BusyS2 : Bool)
  /-- The beats on their way to the slow master. -/
  m1RspFifo : Fifo 64 3

/-- The input wires at a moment at which one of the clocks rises, or both. -/
structure Moment where
  /-- The DDR clock rises. -/
  clk : Bool
  /-- The slow master's clock rises. -/
  clkM1 : Bool
  /-- The reset is asserted. -/
  reset : Bool
  /-- The slow master wants the bus. -/
  m1Want : Bool
  /-- The first master's wires. -/
  m0 : MasterWires
  /-- The slow master's wires. -/
  m1 : MasterWires
  /-- The DDR bus is busy. -/
  ddrBusy : Bool
  /-- The word that returns. -/
  ddrDout : BitVec 64
  /-- A word returns. -/
  ddrDoutReady : Bool
  deriving DecidableEq, Repr

/-- m0_cmd and m1_cmd. -/
def cmd (m : MasterWires) : Bool := m.rd || m.we

/-- A read is waiting for beats. -/
def rspActive (a : ArbiterRegs) : Bool := a.rspLeft != 0

/-- The wires that the DDR bus sees. -/
def selected (a : ArbiterRegs) (i : Moment) : MasterWires := if a.grantM1 then i.m1 else i.m0

/-- What the first master sees as busy. -/
def m0Busy (a : ArbiterRegs) (i : Moment) : Bool :=
  i.ddrBusy || a.grantM1 || (rspActive a && a.rspOwnerM1)

/-- The slow master's busy, in the DDR clock. -/
def m1BusyComb (a : ArbiterRegs) (i : Moment) : Bool :=
  i.ddrBusy || !a.grantM1 || (rspActive a && !a.rspOwnerM1)

/-- The slow master's busy behind its two registers. -/
def m1Busy (a : ArbiterRegs) : Bool := a.m1BusyS2

/-- The returning beat is the first master's. -/
def m0DoutReady (a : ArbiterRegs) (i : Moment) : Bool :=
  i.ddrDoutReady && rspActive a && !a.rspOwnerM1

/-- The returning beat enters the response FIFO. -/
def m1RspWrEn (a : ArbiterRegs) (i : Moment) : Bool :=
  i.ddrDoutReady && rspActive a && a.rspOwnerM1

/-- rst: the registers behind it are set without a clock. -/
def rst (a : ArbiterRegs) (i : Moment) : Bool := i.reset || a.resetS2

/-- The bus registers at an edge of clk. -/
def clkEdge (a : ArbiterRegs) (i : Moment) : ArbiterRegs :=
  if rst a i then
    { a with m1WantS1 := false, m1WantS2 := false, m1BusyR := true, grantM1 := false,
             rspOwnerM1 := false, rspLeft := 0 }
  else
    let t := { a with
      m1WantS1 := i.m1Want
      m1WantS2 := a.m1WantS1
      m1BusyR := m1BusyComb a i
      rspLeft := if i.ddrDoutReady && rspActive a then a.rspLeft-1 else a.rspLeft }
    let u :=
      if !i.ddrBusy && !rspActive a then
        if a.grantM1 then
          if i.m1.rd then
            { t with rspOwnerM1 := true, rspLeft := (selected a i).burstcnt.setWidth 9,
                     grantM1 := false }
          else if i.m1.we || !a.m1WantS2 then { t with grantM1 := false }
          else t
        else if i.m0.rd then
          { t with rspOwnerM1 := false, rspLeft := (selected a i).burstcnt.setWidth 9 }
        else if !cmd i.m0 && a.m1WantS2 then { t with grantM1 := true }
        else t
      else t
    if a.grantM1 && !i.ddrBusy && cmd i.m1 && !i.m1.rd then { u with grantM1 := false } else u

/-- The ports of the response FIFO. -/
def fifoEdge (a : ArbiterRegs) (i : Moment) : Edge 64 where
  wr := if i.clk then some ⟨rst a i,m1RspWrEn a i,i.ddrDout⟩ else none
  rd := if i.clkM1 then some ⟨i.reset,!AsyncFifo.rdEmpty a.m1RspFifo⟩ else none

/-- One moment of the arbiter: either clock may have its edge. -/
def step (a : ArbiterRegs) (i : Moment) : ArbiterRegs :=
  let b := if i.clk then clkEdge a i else a
  { b with
    resetS1 := if i.reset then true else if i.clk then false else a.resetS1
    resetS2 := if i.reset then true else if i.clk then a.resetS1 else a.resetS2
    m1BusyS1 := if i.clkM1 then i.reset || a.m1BusyR else a.m1BusyS1
    m1BusyS2 := if i.clkM1 then i.reset || a.m1BusyS1 else a.m1BusyS2
    m1RspFifo := AsyncFifo.step a.m1RspFifo (fifoEdge a i) }

variable {a : ArbiterRegs} {i : Moment}

/-- Without its clock the arbiter keeps its grant and its count. -/
theorem step_still (h : i.clk=false) : (step a i).grantM1=a.grantM1 ∧
    (step a i).rspOwnerM1=a.rspOwnerM1 ∧ (step a i).rspLeft=a.rspLeft := by
  unfold step
  rw [h]
  exact ⟨rfl,rfl,rfl⟩

/-- Reset takes the grant back. -/
theorem step_rst (h : i.clk=true) (hrst : rst a i=true) : (step a i).grantM1=false ∧
    (step a i).rspOwnerM1=false ∧ (step a i).rspLeft=0 := by
  unfold step clkEdge
  rw [h,hrst]
  exact ⟨rfl,rfl,rfl⟩

/-- While the bus is busy only returning beats are counted. -/
theorem step_busy (h : i.clk=true) (hrst : rst a i=false) (hbusy : i.ddrBusy=true) :
    (step a i).grantM1=a.grantM1 ∧ (step a i).rspOwnerM1=a.rspOwnerM1 ∧
      (step a i).rspLeft =
        if i.ddrDoutReady && rspActive a then a.rspLeft-1 else a.rspLeft := by
  unfold step clkEdge
  rw [h,hrst,hbusy]
  simp

/-- While beats return, no command is granted. -/
theorem step_active (h : i.clk=true) (hrst : rst a i=false) (hactive : rspActive a=true)
    (hgrant : a.grantM1=false) :
    (step a i).grantM1=false ∧ (step a i).rspOwnerM1=a.rspOwnerM1 ∧
      (step a i).rspLeft = if i.ddrDoutReady then a.rspLeft-1 else a.rspLeft := by
  unfold step clkEdge
  rw [h,hrst,hactive,hgrant]
  simp

/-- The slow master's turn: its read sets the count. -/
theorem step_granted (h : i.clk=true) (hrst : rst a i=false) (hbusy : i.ddrBusy=false)
    (hactive : rspActive a=false) (hgrant : a.grantM1=true) :
    (step a i).grantM1=(!cmd i.m1 && a.m1WantS2) ∧
      (step a i).rspOwnerM1=(i.m1.rd || a.rspOwnerM1) ∧
      (step a i).rspLeft = if i.m1.rd then i.m1.burstcnt.setWidth 9 else a.rspLeft := by
  unfold step clkEdge selected cmd
  rw [h,hrst,hbusy,hactive,hgrant]
  cases i.m1.rd with
  | true =>
    cases i.m1.we with
    | true => simp
    | false => simp
  | false =>
    cases i.m1.we with
    | true => simp
    | false =>
      cases a.m1WantS2 with
      | true => simp
      | false => simp

/-- The first master's turn: its read sets the count. -/
theorem step_free (h : i.clk=true) (hrst : rst a i=false) (hbusy : i.ddrBusy=false)
    (hactive : rspActive a=false) (hgrant : a.grantM1=false) :
    (step a i).grantM1=(!cmd i.m0 && a.m1WantS2) ∧
      (step a i).rspOwnerM1=(!i.m0.rd && a.rspOwnerM1) ∧
      (step a i).rspLeft = if i.m0.rd then i.m0.burstcnt.setWidth 9 else a.rspLeft := by
  unfold step clkEdge selected cmd
  rw [h,hrst,hbusy,hactive,hgrant]
  cases i.m0.rd with
  | true => simp
  | false =>
    cases i.m0.we with
    | true => simp
    | false =>
      cases a.m1WantS2 with
      | true => simp
      | false => simp

end Misterplex.Arbiter
