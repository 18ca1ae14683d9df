import Misterplex.Frame.Doorbell
import Misterplex.Lib.Trace

/-!
# Kicks across the two clocks

A kick turns the toggle over; the swap side sees a request when two successive samples of
the toggle differ. Kicks that fall between two samples therefore act together: an odd number
of them is one request for the bank of the last, an even number is none.
-/

namespace Misterplex.FrameStore

open Trace

/-- What the swap side reads at an edge of clk, besides the registers of the kicks. -/
structure ClkPort where
  pendingReadyDdr : Bool
  vsyncPulse : Bool
  deriving DecidableEq, Repr

/-- A moment at which one of the two clocks rises, or both. -/
structure KickMoment where
  /-- The system clock rises. -/
  clk : Option ClkPort
  /-- The DDR clock rises. -/
  ddr : Option BellPort
  deriving DecidableEq, Repr

/-- The last kick that was accepted, and what has happened since. -/
structure Kick where
  bank : Bool
  /-- The edges of clk since the kick. -/
  age : ℕ
  /-- A swap to the bank has completed since the kick. -/
  done : Bool
  deriving DecidableEq, Repr

/-- The registers on both sides, with the last kick beside them. -/
structure KickWorld where
  /-- The registers of clk_ddr. -/
  bell : Doorbell
  /-- The side that shows the banks. -/
  swap : SwapFsm
  /-- The last kick taken. -/
  last : Option Kick
  /-- The cycles with a kick since the last edge of clk. -/
  unsampled : ℕ
  deriving DecidableEq, Repr

namespace KickWorld

variable (c : BellConfig)

/-- Both sides after reset. -/
def start : KickWorld := ⟨Doorbell.reset,SwapFsm.reset,none,0⟩

/-- What the swap side reads at an edge of clk. -/
def swapPort (w : KickWorld) (p : ClkPort) : SwapPort :=
  ⟨w.bell.swapReqTDdr,w.bell.pendingBankDdr,p.pendingReadyDdr,p.vsyncPulse⟩

/-- A kick is accepted at this moment. -/
def kicked (w : KickWorld) (m : KickMoment) : Bool := m.ddr.isSome && w.bell.kick c

/-- A swap completes at this moment. -/
def swapped (w : KickWorld) (m : KickMoment) : Bool :=
  m.clk.elim false fun p => w.swap.swapComplete p.vsyncPulse

/-- What has happened since a kick, after this moment. -/
def since (w : KickWorld) (m : KickMoment) (k : Kick) : Kick :=
  ⟨k.bank,k.age+m.clk.isSome.toNat,k.done || (w.swapped m && w.swap.pendingBank == k.bank)⟩

/-- One moment: the registers of each clock that rises change, all from their old values. -/
def step (w : KickWorld) (m : KickMoment) : KickWorld :=
  { bell := m.ddr.elim w.bell (w.bell.step c)
    swap := m.clk.elim w.swap fun p => w.swap.step (w.swapPort p)
    last := if w.kicked c m then some ⟨w.bell.kickBank c,0,false⟩ else w.last.map (w.since m)
    unsampled := (if m.clk.isSome then 0 else w.unsampled)+(w.kicked c m).toNat }

/-- Once the registers between the clocks have passed the last kick on, a swap to its bank is
pending or has completed since. -/
def KickKept (w : KickWorld) : Prop :=
  ∀ k∈w.last, 3≤k.age → k.done=true ∨ (w.swap.swapPending=true ∧ w.swap.pendingBank=k.bank)

/-- The kicks that an edge of clk finds since the edge before it are an odd number, if any. -/
def Spaced (w : KickWorld) (m : KickMoment) : Prop :=
  m.clk.isSome=true → w.unsampled=0 ∨ w.unsampled%2=1

instance (w : KickWorld) : Decidable w.KickKept :=
  inferInstanceAs (Decidable (∀ k∈w.last, _ → _))

instance (w : KickWorld) (m : KickMoment) : Decidable (w.Spaced m) :=
  inferInstanceAs (Decidable (_ → _ ∨ _))

/-- How far the last kick has come: the toggle it turned over and its bank are in the
registers that have been clocked since, and the register after them still differs. -/
structure Underway (w : KickWorld) (k : Kick) : Prop where
  /-- The bank of the kick waits on the side of the kicks. -/
  bank : w.bell.pendingBankDdr=k.bank
  /-- The kick is sampled by the first edge of clk after it. -/
  sampled : 1≤k.age → w.unsampled=0 ∧ w.swap.pendingBankS1=k.bank
  /-- The first sample differs from the one before it. -/
  first : k.age=1 → w.swap.swapReqS1≠w.swap.swapReqS2
  /-- The second register follows the first. -/
  second : 2≤k.age → w.swap.swapReqS2=w.swap.swapReqS1 ∧ w.swap.pendingBankS2=k.bank
  /-- The second edge makes the request visible. -/
  requested : k.age=2 → w.swap.swapReqS2≠w.swap.swapReqSeen
  /-- The third edge takes the request, and no other follows it. -/
  taken : 3≤k.age → w.swap.swapReqSeen=w.swap.swapReqS2 ∧
    (k.done=true ∨ (w.swap.swapPending=true ∧ w.swap.pendingBank=k.bank))

/-- The toggle differs from its last sample exactly when an odd number of kicks has not been
sampled, and the last kick is under way. -/
structure Carried (w : KickWorld) : Prop where
  /-- The toggle against its last sample. -/
  parity : (w.bell.swapReqTDdr != w.swap.swapReqS1)=decide (w.unsampled%2=1)
  underway : ∀ k∈w.last, w.Underway k
  /-- A kick that no edge of clk has sampled is counted. -/
  fresh : ∀ k∈w.last, k.age=0 → w.unsampled≠0

theorem Carried.kept {w : KickWorld} (h : w.Carried) : w.KickKept := by
  intro k hk hage
  exact ((h.underway k hk).taken hage).2

theorem carried_start : start.Carried := by
  constructor
  · decide
  · intro k hk
    cases hk
  · intro k hk
    cases hk

variable {c} {w : KickWorld} {m : KickMoment}

/-- Without a kick the request stays. -/
theorem step_unkicked (h : w.kicked c m=false) :
    (w.step c m).bell.swapReqTDdr=w.bell.swapReqTDdr ∧
      (w.step c m).bell.pendingBankDdr=w.bell.pendingBankDdr := by
  cases hd : m.ddr with
  | none => simp [step,hd]
  | some p =>
    have hkick : w.bell.kick c=false := by simpa [kicked,hd] using h
    simp [step,hd,Doorbell.step,hkick]

/-- A kick toggles the request and names its bank. -/
theorem step_kicked (h : w.kicked c m=true) :
    (w.step c m).bell.swapReqTDdr = !w.bell.swapReqTDdr ∧
      (w.step c m).bell.pendingBankDdr=w.bell.kickBank c := by
  cases hd : m.ddr with
  | none => simp [kicked,hd] at h
  | some p =>
    have hkick : w.bell.kick c=true := by simpa [kicked,hd] using h
    simp [step,hd,Doorbell.step,hkick]

/-- At a moment without an edge of clk and without a kick the last kick stays where it is. -/
theorem Underway.step_still {k : Kick} (h : w.Underway k) (hkick : w.kicked c m=false)
    (hclk : m.clk=none) : (w.step c m).Underway (w.since m k) := by
  have hk : w.since m k=k := by simp [since,swapped,hclk]
  have hswap : (w.step c m).swap=w.swap := by simp [step,hclk]
  have hunsampled : (w.step c m).unsampled=w.unsampled := by simp [step,hclk,hkick]
  rw [hk]
  constructor
  · exact (step_unkicked hkick).2.trans h.bank
  · rw [hswap,hunsampled]
    exact h.sampled
  · rw [hswap]
    exact h.first
  · rw [hswap]
    exact h.second
  · rw [hswap]
    exact h.requested
  · rw [hswap]
    exact h.taken

/-- A kick that has been under way for two clocks is done or pending. -/
theorem Underway.taken_step {k : Kick} (h : w.Underway k) {p : ClkPort} (hclk : m.clk=some p)
    (hage : 2≤k.age) :
    (w.since m k).done=true ∨ ((w.swap.step (w.swapPort p)).swapPending=true ∧
      (w.swap.step (w.swapPort p)).pendingBank=(w.since m k).bank) := by
  by_cases htwo : k.age=2
  · have hnow := w.swap.step_request (w.swapPort p) (h.requested htwo)
    exact Or.inr ⟨hnow.1,hnow.2.trans (h.second hage).2⟩
  · have hthree : 3≤k.age := by omega
    rcases (h.taken hthree).2 with hdone | ⟨hpending,hbank⟩
    · left
      simp [since,hdone]
    · have hnow := w.swap.step_pending (w.swapPort p) (h.taken hthree).1 hpending
      rcases hnow.2 with hcomplete | hstays
      · have hswapped : w.swapped m=true := by simpa [swapped,hclk,swapPort] using hcomplete
        simp [since,hswapped,hbank]
      · exact Or.inr ⟨hstays,hnow.1.trans hbank⟩

theorem Underway.step_edge {k : Kick} (h : w.Underway k) (hcarried : w.Carried)
    (hfresh : k.age=0 → w.unsampled≠0) (hspaced : w.Spaced m) (hkick : w.kicked c m=false)
    {p : ClkPort} (hclk : m.clk=some p) : (w.step c m).Underway (w.since m k) := by
  have hswap : (w.step c m).swap=w.swap.step (w.swapPort p) := by simp [step,hclk]
  have hunsampled : (w.step c m).unsampled=0 := by simp [step,hclk,hkick]
  have hage : (w.since m k).age=k.age+1 := by simp [since,hclk]
  have hsampled : ∀ h1 : 1≤k.age, w.swap.swapReqS1=w.bell.swapReqTDdr := by
    intro h1
    have hparity := hcarried.parity
    rw [(h.sampled h1).1] at hparity
    exact (bne_eq_false_iff_eq.mp hparity).symm
  constructor
  · exact (step_unkicked hkick).2.trans h.bank
  · intro _
    rw [hswap]
    exact ⟨hunsampled,h.bank⟩
  · intro hone
    have hzero : k.age=0 := by omega
    have hodd : w.unsampled%2=1 :=
      (hspaced (by simp [hclk])).resolve_left (hfresh hzero)
    have hparity := hcarried.parity
    rw [decide_eq_true hodd] at hparity
    rw [hswap]
    exact bne_iff_ne.mp hparity
  · intro htwo
    have h1 : 1≤k.age := by omega
    rw [hswap]
    exact ⟨hsampled h1,(h.sampled h1).2⟩
  · intro htwo
    rw [hswap,SwapFsm.step_swapReqSeen]
    exact h.first (by omega)
  · intro hthree
    have h2 : 2≤k.age := by omega
    rw [hswap]
    constructor
    · exact (SwapFsm.step_swapReqSeen _ _).trans (h.second h2).1
    · exact h.taken_step hclk h2

theorem Carried.parity_step (h : w.Carried) :
    ((w.step c m).bell.swapReqTDdr != (w.step c m).swap.swapReqS1) =
      decide ((w.step c m).unsampled%2=1) := by
  have hparity := h.parity
  cases hclk : m.clk with
  | none =>
    have hswap : (w.step c m).swap=w.swap := by simp [step,hclk]
    cases hkick : w.kicked c m with
    | false =>
      have hunsampled : (w.step c m).unsampled=w.unsampled := by simp [step,hclk,hkick]
      rw [hswap,hunsampled,(step_unkicked hkick).1,hparity]
    | true =>
      have hunsampled : (w.step c m).unsampled=w.unsampled+1 := by simp [step,hclk,hkick]
      have hturn : decide ((w.unsampled+1)%2=1) = !decide (w.unsampled%2=1) := by
        rw [← decide_not,decide_eq_decide]
        omega
      rw [hswap,hunsampled,(step_kicked hkick).1,Bool.not_bne,hparity,hturn]
  | some p =>
    have hswap : (w.step c m).swap=w.swap.step (w.swapPort p) := by simp [step,hclk]
    have hs1 : (w.swap.step (w.swapPort p)).swapReqS1=w.bell.swapReqTDdr := rfl
    cases hkick : w.kicked c m with
    | false =>
      have hunsampled : (w.step c m).unsampled=0 := by simp [step,hclk,hkick]
      rw [hswap,hunsampled,(step_unkicked hkick).1,hs1]
      simp
    | true =>
      have hunsampled : (w.step c m).unsampled=1 := by simp [step,hclk,hkick]
      rw [hswap,hunsampled,(step_kicked hkick).1,hs1]
      simp

theorem underway_kicked (hkick : w.kicked c m=true) :
    (w.step c m).Underway ⟨w.bell.kickBank c,0,false⟩ := by
  constructor
  · exact (step_kicked hkick).2
  · intro h
    exact absurd h (by simp)
  · intro h
    exact absurd h (by simp)
  · intro h
    exact absurd h (by simp)
  · intro h
    exact absurd h (by simp)
  · intro h
    exact absurd h (by simp)

/-- One moment carries the last kick on, if the kicks are spaced. -/
theorem Carried.step (h : w.Carried) (hspaced : w.Spaced m) : (w.step c m).Carried := by
  constructor
  · exact h.parity_step
  · intro k hk
    cases hkick : w.kicked c m with
    | true =>
      have hlast : (w.step c m).last=some ⟨w.bell.kickBank c,0,false⟩ := by
        simp [KickWorld.step,hkick]
      rw [hlast,Option.mem_some] at hk
      rw [← hk]
      exact underway_kicked hkick
    | false =>
      have hlast : (w.step c m).last=w.last.map (w.since m) := by
        simp [KickWorld.step,hkick]
      rw [hlast,Option.mem_def,Option.map_eq_some_iff] at hk
      obtain ⟨k',hk',rfl⟩ := hk
      cases hclk : m.clk with
      | none => exact (h.underway k' hk').step_still hkick hclk
      | some p => exact (h.underway k' hk').step_edge h (h.fresh k' hk') hspaced hkick hclk
  · intro k hk hage
    cases hkick : w.kicked c m with
    | true => simp [KickWorld.step,hkick]
    | false =>
      have hlast : (w.step c m).last=w.last.map (w.since m) := by
        simp [KickWorld.step,hkick]
      rw [hlast,Option.mem_def,Option.map_eq_some_iff] at hk
      obtain ⟨k',hk',rfl⟩ := hk
      cases hclk : m.clk with
      | none =>
        have hold : k'.age=0 := by simpa [since,hclk] using hage
        simpa [KickWorld.step,hkick,hclk] using h.fresh k' hk' hold
      | some p => simp [since,hclk] at hage

/-- **No kick is lost.** In a run from reset in which every edge of clk finds no kick or an
odd number of kicks since the edge before, once the registers between the clocks have passed
the last kick on, a swap to its bank is pending or has completed since. -/
theorem kicks_kept (c : BellConfig) {ms : List KickMoment}
    (hspaced : Along (step c) Spaced start ms) : Throughout (step c) KickKept start ms := by
  have hall : Throughout (step c) Carried start ms :=
    Along.throughout (fun _ _ h hnow => h.step hnow) hspaced carried_start
  exact hall.mono fun _ h => h.kept

/-- An edge of clk_ddr alone, at which a poll may return a word. -/
def ddrEdge (word : Option (BitVec 64)) (startReq : Bool) : KickMoment :=
  ⟨none,some ⟨word.isSome,word.isSome,word.getD 0,word.isSome,startReq,true⟩⟩

/-- An edge of clk alone, without a vertical sync. -/
def clkEdge : KickMoment := ⟨some ⟨true,false⟩,none⟩

/-- A doorbell word with the token of bank 1 and sequence number 1. -/
def bellWord : BitVec 64 := 0xA0000001504C584B

/-- A first poll without a token, then a poll that returns one, while start_req rises: the
token and the edge of start_req are accepted in adjacent cycles. -/
def adjacentKicks (between : List KickMoment) : List KickMoment :=
  [ddrEdge (some 0) false,ddrEdge none false,ddrEdge (some bellWord) true,ddrEdge none true] ++
    between ++ ddrEdge none true::List.replicate 3 clkEdge

/-- With an edge of clk between the two kicks the second one is pending in the end. -/
theorem kicks_kept_spaced :
    Throughout (step BellConfig.declared) KickKept start (adjacentKicks [clkEdge]) ∧
      (finalState (step BellConfig.declared) start (adjacentKicks [clkEdge])).last =
        some ⟨true,3,false⟩ :=
  ⟨kicks_kept BellConfig.declared (by decide),by decide⟩

/-- Without one, neither kick asks for a swap. -/
theorem not_kicks_kept_adjacent :
    ¬ ∀ (c : BellConfig) (ms : List KickMoment), Throughout (step c) KickKept start ms := by
  intro h
  have hlast := (h BellConfig.declared (adjacentKicks [])).last
  have hlost : ¬ (finalState (step BellConfig.declared) start (adjacentKicks [])).KickKept := by
    decide
  exact hlost hlast

end KickWorld

end Misterplex.FrameStore
