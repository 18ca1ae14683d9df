import Misterplex.Baseline.Reading
import Mathlib.Data.List.ReduceOption

/-!
# One RBSP in, one report out

The bytes of an RBSP are offered with any number of idle clocks between them, the
last one marked. The parser starts with the last byte and its report is what it
holds when it first is not busy again, whatever is offered meanwhile. An RBSP of
8192 bytes or more never leads to a valid report.
-/

namespace Misterplex.Baseline

open BitString List

/-- The bytes of an RBSP with idle clocks in front of each. -/
structure Delivery where
  /-- Clocks before the last byte. -/
  front : List (Option Byte)
  last : Byte

namespace Delivery

/-- The RBSP. -/
def bytes (d : Delivery) : List Byte := d.front.reduceOption ++ [d.last]

/-- What is offered clock by clock. -/
def inputs (d : Delivery) : List (Option (Byte × Bool)) :=
  d.front.map (Option.map fun b => (b,false)) ++ [some (d.last,true)]

/-- An RBSP that is delivered without idle clocks. -/
def atOnce (front : List Byte) (last : Byte) : Delivery := ⟨front.map some,last⟩

theorem bytes_atOnce (front : List Byte) (last : Byte) :
    (atOnce front last).bytes = front ++ [last] := by
  have hfront : (front.map some).reduceOption=front := by
    rw [reduceOption,filterMap_map]
    exact filterMap_some
  rw [bytes,atOnce,hfront]

end Delivery

namespace Parser

variable {i : Inputs} {p q : Parser} {bits : List Bool}

/-- The parser once the walk has handed it the data. -/
def loaded (i : Inputs) (d : Delivery) : Parser := d.inputs.foldl (clock i) (cleared i)

/-- The parser some clocks later, with what is offered meanwhile. -/
def later (i : Inputs) (offers : ℕ → Option (Byte × Bool)) (p : Parser) : ℕ → Parser
  | 0 => p
  | n+1 => (later i offers p n).clock i (offers n)

/-- The parser is busy up to a state in which it is not. -/
def Ends (i : Inputs) (offers : ℕ → Option (Byte × Bool)) (p q : Parser) : Prop :=
  ∃ n, (∀ k<n, (p.later i offers k).busy=true) ∧ p.later i offers n=q ∧ q.busy=false

variable {offers : ℕ → Option (Byte × Bool)}

theorem Ends.unique {s : Parser} (h : Ends i offers p q) (h' : Ends i offers p s) : q=s := by
  obtain ⟨n,hbusy,rfl,hidle⟩ := h
  obtain ⟨m,hbusy',rfl,hidle'⟩ := h'
  rcases Nat.lt_trichotomy n m with hlt | heq | hgt
  · rw [hbusy' n hlt] at hidle
    cases hidle
  · rw [heq]
  · rw [hbusy m hgt] at hidle'
    cases hidle'

theorem Ends.of_idle (offers : ℕ → Option (Byte × Bool)) (h : p.busy=false) :
    Ends i offers p p :=
  ⟨0,fun k hk => absurd hk (Nat.not_lt_zero k),rfl,h⟩

theorem later_eq {n : ℕ}
    (h : ∀ k<n, ((tick i)^[k] p).busy=true) : p.later i offers n=(tick i)^[n] p := by
  induction n with
  | zero => rfl
  | succ n ih =>
    have hbefore := ih fun k hk => h k (Nat.lt_succ_of_lt hk)
    rw [later,hbefore,clock_of_busy (h n (Nat.lt_succ_self n)),Function.iterate_succ_apply']

theorem ends_of_leads {Q : Parser → Prop} (offers : ℕ → Option (Byte × Bool))
    (h : Leads (tick i) p fun q => q.busy=false ∧ Q q) : ∃ q, Ends i offers p q ∧ Q q := by
  obtain ⟨n,hidle,hQ⟩ := h
  have hex : ∃ m, ((tick i)^[m] p).busy=false := ⟨n,hidle⟩
  have hfirst := Nat.find_spec hex
  have hbusy : ∀ k<Nat.find hex, ((tick i)^[k] p).busy=true := by
    intro k hk
    exact Bool.eq_true_of_not_eq_false (Nat.find_min hex hk)
  obtain ⟨k,hk⟩ := Nat.exists_eq_add_of_le' (Nat.find_min' hex hidle)
  have hrest : (tick i)^[n] p=(tick i)^[Nat.find hex] p := by
    rw [hk,Function.iterate_add_apply]
    exact Function.iterate_fixed (tick_of_idle hfirst) k
  rw [hrest] at hQ
  refine ⟨_,⟨Nat.find hex,fun k hk => ?_,later_eq hbusy,hfirst⟩,hQ⟩
  rw [later_eq fun j hj => hbusy j (lt_trans hj hk)]
  exact hbusy k hk

/-- The cleared parser with bytes in its buffer. -/
def filled (i : Inputs) (bytes : List Byte) : Parser := { cleared i with rbsp := bytes }

/-- The parser behind the last byte. -/
def started (i : Inputs) (bytes : List Byte) : Parser :=
  { filled i bytes with
    busy := true
    bitPos := i.startBit.toNat
    st := .own .dispatch }

theorem clock_filled (bytes : List Byte) (b : Byte) :
    (filled i bytes).clock i (some (b,false)) =
      if bytes.length < maxRbspBytes then filled i (bytes ++ [b]) else filled i bytes := by
  by_cases hroom : bytes.length < maxRbspBytes
  · have hready : (filled i bytes).inReady=true := decide_eq_true hroom
    rw [clock,if_pos hready,if_pos hroom]
    rfl
  · have hready : (filled i bytes).inReady=false := decide_eq_false hroom
    rw [clock,hready,if_neg Bool.false_ne_true,if_neg hroom]
    rfl

theorem foldl_front (front : List (Option Byte)) {bytes : List Byte}
    (hfit : bytes.length ≤ maxRbspBytes) :
    (front.map (Option.map fun b => (b,false))).foldl (clock i) (filled i bytes) =
      filled i ((bytes ++ front.reduceOption).take maxRbspBytes) := by
  induction front generalizing bytes with
  | nil =>
    rw [reduceOption_nil,append_nil,take_of_length_le hfit]
    rfl
  | cons x front ih =>
    rw [map_cons,foldl_cons]
    cases x with
    | none =>
      exact ih hfit
    | some b =>
      rw [Option.map_some,clock_filled,reduceOption_cons_of_some]
      by_cases hroom : bytes.length < maxRbspBytes
      · have hmore : (bytes ++ [b]).length ≤ maxRbspBytes := by
          rw [length_append,length_singleton]
          exact hroom
        rw [if_pos hroom,ih hmore,append_assoc,singleton_append]
      · have hfull : maxRbspBytes=bytes.length := le_antisymm (not_lt.mp hroom) hfit
        rw [if_neg hroom,ih hfit,hfull,take_left,take_left]

variable {d : Delivery}

theorem loaded_of_fits (hfit : d.bytes.length ≤ maxRbspBytes) : loaded i d=started i d.bytes := by
  rw [Delivery.bytes,length_append,length_singleton] at hfit
  have hfront := @foldl_front i d.front [] (Nat.zero_le _)
  rw [nil_append,take_of_length_le (Nat.le_of_succ_le hfit)] at hfront
  have hready : (filled i d.front.reduceOption).inReady=true := decide_eq_true hfit
  rw [loaded,Delivery.inputs,foldl_append]
  refine (congrArg (fun t => clock i t (some (d.last,true))) hfront).trans ?_
  rw [clock,if_pos hready]
  rfl

theorem idle_of_overlong (hlong : maxRbspBytes<d.bytes.length) :
    (loaded i d).busy=false ∧ (loaded i d).valid=false := by
  rw [Delivery.bytes,length_append,length_singleton] at hlong
  have hfront := @foldl_front i d.front [] (Nat.zero_le _)
  have hlen : (d.front.reduceOption.take maxRbspBytes).length=maxRbspBytes :=
    length_take_of_le (Nat.le_of_lt_succ hlong)
  have hready : (filled i (d.front.reduceOption.take maxRbspBytes)).inReady=false :=
    decide_eq_false (by
      show ¬(d.front.reduceOption.take maxRbspBytes).length < maxRbspBytes
      rw [hlen]
      exact Nat.lt_irrefl _)
  have hloaded : loaded i d=filled i (d.front.reduceOption.take maxRbspBytes) := by
    rw [loaded,Delivery.inputs,foldl_append]
    refine (congrArg (fun t => clock i t (some (d.last,true))) hfront).trans ?_
    rw [nil_append,clock,hready,if_neg Bool.false_ne_true]
    rfl
  rw [hloaded]
  exact ⟨rfl,rfl⟩

/-- Over an RBSP of at most 8191 bytes the parser reports what its states come to. -/
theorem ends_valid {pre : List Bool} {Q : Regs → ℕ → Prop}
    (offers : ℕ → Option (Byte × Bool)) (hshort : d.bytes.length < maxRbspBytes)
    (hbits : bitsOf d.bytes = pre ++ bits) (hstart : i.startBit.toNat=pre.length)
    (hcomes : Comes parserLimits (ownState i) (.go .dispatch) ⟨0,0,pre.length⟩ (Regs.reset i)
      bits Q) :
    ∃ q n, Ends i offers (loaded i d) q ∧ Valid q.regs n q ∧ Q q.regs n := by
  obtain ⟨out,n,hasks,hQ⟩ := hcomes
  have hlen := congrArg length hbits
  rw [length_bitsOf,length_append] at hlen
  have hbefore : Before bits (started i d.bytes) := by
    refine ⟨hshort,?_,?_⟩
    · show i.startBit.toNat+bits.length=8*d.bytes.length
      omega
    · show (bitsOf d.bytes).drop i.startBit.toNat=bits
      rw [hbits,hstart,drop_left]
  have hheard : (started i d.bytes).heard=⟨0,0,pre.length⟩ := congrArg (Heard.mk 0 0) hstart
  have hleads := leads_of_asks hasks (p := started i d.bytes) rfl rfl hheard rfl hbefore
  obtain ⟨q,hends,hvalid⟩ := ends_of_leads offers (hleads.mono fun q hq => ⟨hq.idle,hq⟩)
  have hregs := hvalid.regs
  subst hregs
  rw [loaded_of_fits hshort.le]
  exact ⟨q,n,hends,hvalid,hQ⟩

theorem full_code {s : Own} (hbusy : p.busy=true) (hfull : p.rbsp.length=maxRbspBytes) :
    Leads (tick i) (p.ask (.ue s)) fun q => q.busy=false ∧ q.valid=false := by
  have hend : (p.ask (.ue s)).atEnd=true := by
    show decide (p.rbsp.length*8%65536≤p.bitPos)=true
    rw [hfull]
    exact decide_eq_true (Nat.zero_le _)
  have hone : (p.ask (.ue s)).tick i=(p.ask (.ue s)).failed := by
    have hasked : (p.ask (.ue s)).busy=true := hbusy
    rw [tick_of_busy hasked]
    show countZero (p.ask (.ue s)) = _
    rw [countZero,hend,if_pos rfl]
  exact Leads.next_eq hone (Leads.here ⟨rfl,rfl⟩)

theorem full_fails {bytes : List Byte} (hmode : i.mode=1 ∨ i.mode=2)
    (hfull : bytes.length=maxRbspBytes) :
    Leads (tick i) (started i bytes) fun q => q.busy=false ∧ q.valid=false := by
  have hone : (started i bytes).tick i =
      (started i bytes).ask (ownState i .dispatch (started i bytes).heard (Regs.reset i)).2 :=
    tick_own rfl rfl Own.noConfusion
  refine Leads.next_eq hone ?_
  rw [ownState]
  rcases hmode with hmode | hmode
  · rw [hmode,if_neg (by decide),if_pos rfl]
    exact full_code rfl hfull
  · rw [hmode,if_neg (by decide),if_neg (by decide),if_pos rfl]
    have htwo := tick_own (i := i) (p := (started i bytes).ask (.go .mbStart)) (s := .mbStart)
      rfl rfl Own.noConfusion
    refine Leads.next_eq htwo ?_
    by_cases hP : isPSlice i.activeSliceType=true
    · have hsaid : ∀ h r, ownState i .mbStart h r=(r,.ue .mbPSkip) := fun _ _ => if_pos hP
      rw [hsaid]
      exact full_code rfl hfull
    · by_cases hI : isISlice i.activeSliceType=true
      · have hsaid : ∀ h r, ownState i .mbStart h r=(r,.ue .mbType) := fun _ _ =>
          (if_neg hP).trans (if_pos hI)
        rw [hsaid]
        exact full_code rfl hfull
      · have hsaid : ∀ h r, ownState i .mbStart h r=refuse r := fun _ _ =>
          (if_neg hP).trans (if_neg hI)
        rw [hsaid]
        exact Leads.here ⟨rfl,rfl⟩

theorem short_of_valid (hmode : i.mode=1 ∨ i.mode=2) (hends : Ends i offers (loaded i d) q)
    (hvalid : q.valid=true) : d.bytes.length < maxRbspBytes := by
  rcases Nat.lt_trichotomy d.bytes.length maxRbspBytes with hlt | heq | hgt
  · exact hlt
  · rw [loaded_of_fits heq.le] at hends
    obtain ⟨s,hs,hinvalid⟩ := ends_of_leads offers (full_fails hmode heq)
    rw [hends.unique hs,hinvalid] at hvalid
    cases hvalid
  · obtain ⟨hidle,hinvalid⟩ := idle_of_overlong (i := i) hgt
    rw [hends.unique (Ends.of_idle offers hidle),hinvalid] at hvalid
    cases hvalid

end Parser

end Misterplex.Baseline
