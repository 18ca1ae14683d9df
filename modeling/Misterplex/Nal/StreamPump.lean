import Misterplex.Header.SpsHost
import Misterplex.Nal.AnnexBFramer

/-!
# The stream pump

The pump reads an Annex B stream in chunks, hands every complete unit to the
dispatcher of the decoder and tries to reconstruct the I slices itself, each behind
the parameter sets it has kept. It scans for start codes with loops of its own,
drops what it has parsed after each chunk and treats the last unit at the end of the
stream. The pump is not stopped.

Its loops find what those of the framer find: what it has handed on and the units of
what is left with the rest of the stream are the units of the stream.
-/

namespace Misterplex.AnnexB

open Emulation
open Header (startReader hostUe)

/-- Size above which the accumulator is thrown away. -/
def kMaxAcc : ℕ := 2*1024*1024

/-- Length of the start code at an offset, as the pump tests it. -/
def pumpStartLen (p : List Byte) (i : ℕ) : ℕ :=
  if i+3 < p.length ∧ p.getD i 0#8=0#8 ∧ p.getD (i+1) 0#8=0#8 ∧
      p.getD (i+2) 0#8=0#8 ∧ p.getD (i+3) 0#8 = 1#8 then 4
  else if i+2 < p.length ∧ p.getD i 0#8=0#8 ∧ p.getD (i+1) 0#8=0#8 ∧
      p.getD (i+2) 0#8 = 1#8 then 3
  else 0

/-- What surrounds the pump. -/
structure Surroundings where
  /-- The units are wanted. -/
  wantF3 : Bool
  /-- The session begins. -/
  begins : Bool
  /-- The player is paused at a read. -/
  pausedAtRead : ℕ → Bool
  /-- The dispatcher pauses or resumes at a read. -/
  controls : ℕ → Bool
  /-- The dispatcher takes a unit. -/
  pushes : ℕ → Bool
  /-- The player is paused at a unit. -/
  pausedAtNal : ℕ → Bool
  /-- The reconstruction gives an access unit up because of its entropy coding. -/
  failsAtCabac : List Byte → Bool

/-- A slice that is tried. -/
structure Try where
  /-- The place of the slice among the units. -/
  number : ℕ
  /-- The sequence parameter set in front of it. -/
  sps : List Byte
  /-- The picture parameter set in front of it. -/
  pps : List Byte
  /-- The slice. -/
  nal : List Byte
  deriving DecidableEq

/-- The access unit that is reconstructed. -/
def Try.au (t : Try) : List Byte := t.sps ++ t.pps ++ t.nal

/-- The pump. -/
structure Pump where
  /-- The bytes that are not yet a unit. -/
  acc : List Byte := []
  /-- Offset of the unit that waits. -/
  parseFrom : ℕ := 0
  /-- The dispatcher has begun the session. -/
  f3Active : Bool
  /-- A unit was refused for good. -/
  f3Fatal : Bool
  /-- The session is paused. -/
  f3Paused : Bool := false
  /-- The last sequence parameter set; empty if there was none. -/
  spsNal : List Byte := []
  /-- The last picture parameter set; empty if there was none. -/
  ppsNal : List Byte := []
  /-- The entropy coding is one that is not reconstructed. -/
  cabacSkip : Bool
  /-- The reads so far. -/
  reads : ℕ := 0
  /-- The units so far. -/
  seen : ℕ := 0
  /-- The units handed on. -/
  handed : List (List Byte) := []
  /-- The reconstructions tried. -/
  tried : List Try := []

/-- Type of a unit with its start code. -/
def typeAt (nal : List Byte) : ℕ := (nal.getD (pumpStartLen nal 0) 0#8).toNat%32

/-- What is behind the type of a unit. -/
def payloadOf (nal : List Byte) : List Byte := nal.drop (pumpStartLen nal 0+1)

/-- A slice that says of itself that it holds no prediction from other pictures. -/
def isISliceNal (nal : List Byte) : Bool :=
  let sc := pumpStartLen nal 0
  if sc = 0 ∨ nal.length ≤ sc then false
  else if typeAt nal = 5 then true
  else if typeAt nal ≠ 1 then false
  else if (payloadOf nal).length < 1 then false
  else
    let first := hostUe (startReader (payloadOf nal))
    let st := hostUe first.2
    if !st.2.ok then false else st.1%5 == 2

namespace Pump

/-- The pump at the start of the stream, with whether the entropy coding of the session
is one that is not reconstructed. -/
def start (w : Surroundings) (cabacSkip : Bool) : Pump where
  f3Active := w.wantF3 && w.begins
  f3Fatal := w.wantF3 && !w.begins
  cabacSkip := cabacSkip

/-- The dispatcher is paused and resumed with the player. -/
def syncF3Pause (p : Pump) (w : Surroundings) : Pump :=
  if !p.f3Active || p.f3Fatal then p
  else if w.pausedAtRead p.reads && !p.f3Paused then
    if w.controls p.reads then { p with f3Paused := true } else { p with f3Fatal := true }
  else if !w.pausedAtRead p.reads && p.f3Paused then
    if w.controls p.reads then { p with f3Paused := false } else { p with f3Fatal := true }
  else p

/-- A unit is handed to the dispatcher. -/
def pushF3Nal (p : Pump) (w : Surroundings) (nal : List Byte) : Pump :=
  if !p.f3Active || p.f3Fatal || !w.wantF3 then p
  else { p with handed := p.handed ++ [nal], f3Fatal := !w.pushes p.seen }

/-- A picture parameter set tells the entropy coding. -/
def applyPpsEntropy (p : Pump) (nal : List Byte) : Pump :=
  let sc := pumpStartLen nal 0
  if sc = 0 ∨ nal.length ≤ sc+1 then p
  else if (payloadOf nal).length < 1 then p
  else
    let ppsId := hostUe (startReader (payloadOf nal))
    let spsId := hostUe ppsId.2
    let cabac := spsId.2.u 1
    if !cabac.2.ok then p else { p with cabacSkip := cabac.1 != 0 }

/-- A slice is reconstructed behind the parameter sets that are kept. -/
def tryReconNal (p : Pump) (w : Surroundings) (nal : List Byte) (ntype : ℕ) : Pump :=
  if p.spsNal = [] ∨ p.ppsNal = [] then p
  else if ntype ≠ 5 ∧ ntype ≠ 1 then p
  else if !isISliceNal nal then p
  else if p.cabacSkip then p
  else
    let t : Try := ⟨p.seen,p.spsNal,p.ppsNal,nal⟩
    { p with tried := p.tried ++ [t], cabacSkip := w.failsAtCabac t.au }

/-- A complete unit is handed on, kept or reconstructed. -/
def handleNal (w : Surroundings) (p : Pump) (nal : List Byte) : Pump :=
  let pushed := p.pushF3Nal w nal
  let handled :=
    if typeAt nal = 7 then { pushed with spsNal := nal }
    else if typeAt nal = 8 then { pushed with ppsNal := nal }.applyPpsEntropy nal
    else if (typeAt nal=5 ∨ typeAt nal=1) ∧ !w.pausedAtNal p.seen then
      pushed.tryReconNal w nal (typeAt nal)
    else pushed
  { handled with seen := p.seen+1 }

/-- The loop to the first start code. The first argument bounds the iterations. -/
def skipTo (acc : List Byte) : ℕ → ℕ → ℕ
  | 0,i => i
  | fuel+1,i =>
    if i+3 < acc.length then
      if pumpStartLen acc i ≠ 0 then i else skipTo acc fuel (i+1)
    else i

/-- The loop to the next start code. The first argument bounds the iterations. -/
def findNext (acc : List Byte) : ℕ → ℕ → Option ℕ
  | 0,_ => none
  | fuel+1,j =>
    if j+2 < acc.length then
      if pumpStartLen acc j ≠ 0 then some j else findNext acc fuel (j+1)
    else none

/-- The loop over the complete units: the units and where the parsing goes on. The first
argument bounds the iterations. -/
def consumeFrom (acc : List Byte) : ℕ → ℕ → List (List Byte) × ℕ
  | 0,i => ([],i)
  | fuel+1,i =>
    if i+3 < acc.length then
      let sc := pumpStartLen acc i
      if sc = 0 then consumeFrom acc fuel (i+1)
      else
        match findNext acc acc.length (i+sc) with
        | none => ([],i)
        | some j =>
          let rest := consumeFrom acc fuel j
          ((if i+sc < j then [(acc.take j).drop i] else []) ++ rest.1,rest.2)
    else ([],i)

/-- The complete units are handled. -/
def consumeCompleteNals (w : Surroundings) (p : Pump) : Pump :=
  let out := consumeFrom p.acc p.acc.length (skipTo p.acc p.acc.length p.parseFrom)
  { out.1.foldl (handleNal w) p with parseFrom := out.2 }

/-- What is parsed is dropped, and what is left if it is too much. -/
def compactAcc (p : Pump) : Pump :=
  if p.parseFrom = 0 then p
  else
    let acc := p.acc.drop p.parseFrom
    if kMaxAcc < acc.length then { p with acc := [], parseFrom := 0 }
    else { p with acc := acc, parseFrom := 0 }

/-- One turn of the reading loop. -/
def read (w : Surroundings) (p : Pump) (data : List Byte) : Pump :=
  let p := p.syncF3Pause w
  (consumeCompleteNals w { p with acc := p.acc ++ data, reads := p.reads+1 }).compactAcc

/-- The last unit ends with the stream. -/
def lastNal (w : Surroundings) (p : Pump) : Pump :=
  if p.parseFrom+3 < p.acc.length then
    let sc := pumpStartLen p.acc p.parseFrom
    if sc ≠ 0 ∧ p.parseFrom+sc < p.acc.length then
      { handleNal w p (p.acc.drop p.parseFrom) with parseFrom := p.acc.length }
    else p
  else p

/-- The stream ends. -/
def finish (w : Surroundings) (p : Pump) : Pump := consumeCompleteNals w (p.lastNal w)

/-- The chunks are read one after the other. A read of nothing is the end of the stream. -/
def run (w : Surroundings) (p : Pump) : List (List Byte) → Pump
  | [] => (p.syncF3Pause w).finish w
  | data::chunks => if data = [] then (p.syncF3Pause w).finish w else (p.read w data).run w chunks

end Pump

theorem pumpStartLen_eq (p : List Byte) (i : ℕ) : pumpStartLen p i=annexBStartLen p i := by
  have h4 : i+3<p.length ↔ i+4≤p.length := by omega
  have h3 : i+2<p.length ↔ i+3≤p.length := by omega
  rw [pumpStartLen,annexBStartLen]
  simp only [h4,h3]
  by_cases hend : p.length ≤ i
  · rw [if_pos hend,if_neg (by omega),if_neg (by omega)]
  · rw [if_neg hend]

namespace Pump

open AnnexBFramer (skipFrom nextStart emitFrom)

variable (acc : List Byte)

theorem skipTo_eq (fuel i : ℕ) : skipTo acc fuel i=skipFrom acc fuel i := by
  induction fuel generalizing i with
  | zero => rfl
  | succ fuel ih => rw [skipTo,skipFrom,pumpStartLen_eq,ih]

theorem findNext_eq (fuel j : ℕ) : findNext acc fuel j=nextStart acc fuel j := by
  induction fuel generalizing j with
  | zero => rfl
  | succ fuel ih => rw [findNext,nextStart,pumpStartLen_eq,ih]

theorem consumeFrom_eq (fuel i : ℕ) :
    consumeFrom acc fuel i=((emitFrom acc false fuel i).1,(emitFrom acc false fuel i).2.offset) := by
  induction fuel generalizing i with
  | zero => rfl
  | succ fuel ih =>
    rw [consumeFrom,emitFrom]
    by_cases hin : i+3<acc.length
    · rw [if_pos hin,if_pos hin,pumpStartLen_eq]
      dsimp only
      rw [findNext_eq]
      by_cases hzero : annexBStartLen acc i=0
      · rw [if_pos hzero,if_pos hzero,ih]
      · rw [if_neg hzero,if_neg hzero]
        cases hnext : nextStart acc acc.length (i+annexBStartLen acc i) with
        | none => rfl
        | some j =>
          dsimp only
          rw [ih]
          rfl
    · rw [if_neg hin,if_neg hin]
      rfl

/-- Bytes that still count. -/
def left (p : Pump) : List Byte := p.acc.drop p.parseFrom

/-- The bytes that are left hold one unit that has begun, or are too few for one. -/
def Waiting (rest : List Byte) : Prop :=
  rest.length≤3 ∨
    (annexBStartLen rest 0≠0 ∧ ∀ k, annexBStartLen rest 0≤k → annexBStartLen rest k=0)

open AnnexBFramer

theorem consumeFrom_waiting (fuel i : ℕ) (hfuel : acc.length ≤ i+fuel) :
    Waiting (acc.drop (consumeFrom acc fuel i).2) := by
  induction fuel generalizing i with
  | zero =>
    refine Or.inl ?_
    rw [consumeFrom,List.length_drop]
    omega
  | succ fuel ih =>
    rw [consumeFrom]
    by_cases hin : i+3<acc.length
    · rw [if_pos hin,pumpStartLen_eq]
      dsimp only
      rw [findNext_eq]
      by_cases hzero : annexBStartLen acc i=0
      · rw [if_pos hzero]
        exact ih (i+1) (by omega)
      · rw [if_neg hzero]
        cases hnext : nextStart acc acc.length (i+annexBStartLen acc i) with
        | none =>
          dsimp only
          refine Or.inr ⟨?_,fun k hk => ?_⟩
          · rw [annexBStartLen_drop]
            exact hzero
          · rw [annexBStartLen_drop,Nat.add_zero] at hk
            rw [annexBStartLen_drop]
            exact nextStart_none hnext (by omega) (i+k) (by omega)
        | some j =>
          obtain ⟨hle,_,_,_⟩ := nextStart_some hnext
          exact ih j (by omega)
    · rw [if_neg hin]
      refine Or.inl ?_
      rw [List.length_drop]
      omega

/-- The units the pump finds in what is accumulated. -/
def complete (p : Pump) : List (List Byte) :=
  (consumeFrom p.acc p.acc.length (skipTo p.acc p.acc.length p.parseFrom)).1

/-- Where the parsing goes on. -/
def stopsAt (p : Pump) : ℕ :=
  (consumeFrom p.acc p.acc.length (skipTo p.acc p.acc.length p.parseFrom)).2

theorem skipTo_le (p : Pump) (h : p.parseFrom≤p.acc.length) :
    skipTo p.acc p.acc.length p.parseFrom≤p.acc.length := by
  rw [skipTo_eq]
  obtain ⟨hle,hnone⟩ := skipFrom_spec p.acc p.acc.length p.parseFrom
  by_cases hmove : skipFrom p.acc p.acc.length p.parseFrom=p.parseFrom
  · omega
  · have hlast := (hnone (skipFrom p.acc p.acc.length p.parseFrom-1) (by omega) (by omega)).1
    omega

/-- The units of what is left and what follows are those found and those from where the
parsing goes on. -/
theorem units_complete (p : Pump) (h : p.parseFrom≤p.acc.length) (tail : List Byte) :
    nalUnits (p.left ++ tail) = p.complete ++ nalUnits (p.acc.drop p.stopsAt ++ tail) := by
  have hskip := units_skip p.acc tail p.acc.length p.parseFrom
  have hopen := (emitFrom_open p.acc p.acc.length
    (skipTo p.acc p.acc.length p.parseFrom) (skipTo_le p h)).2 tail
  rw [left,hskip,← skipTo_eq,hopen,complete,stopsAt,consumeFrom_eq]

theorem stopsAt_le (p : Pump) (h : p.parseFrom≤p.acc.length) : p.stopsAt≤p.acc.length := by
  rw [stopsAt,consumeFrom_eq]
  exact (emitFrom_open p.acc p.acc.length
    (skipTo p.acc p.acc.length p.parseFrom) (skipTo_le p h)).1

theorem stopsAt_waiting (p : Pump) : Waiting (p.acc.drop p.stopsAt) :=
  consumeFrom_waiting p.acc p.acc.length _ (Nat.le_add_left _ _)

theorem units_waiting {rest : List Byte} (h : Waiting rest) :
    nalUnits rest =
      if 3 < rest.length ∧ annexBStartLen rest 0 < rest.length then [rest] else [] := by
  rcases h with hshort | ⟨hstart,hnone⟩
  · rw [nalUnits_short hshort,if_neg (by omega)]
  · have hcode := annexBStartLen_cases rest 0
    rw [nalUnits_last hstart hnone,unitBetween,Nat.zero_add,List.take_length,List.drop_zero]
    by_cases hfull : annexBStartLen rest 0<rest.length
    · rw [if_pos hfull,if_pos ⟨by omega,hfull⟩]
    · rw [if_neg hfull,if_neg fun hboth => hfull hboth.2]

end Pump

end Misterplex.AnnexB
