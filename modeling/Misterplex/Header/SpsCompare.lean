import Misterplex.Header.SpsHost
import Misterplex.Header.SpsParser

/-!
# Codes of the hardware and of the host

A code that the hardware walks over is one that the host reads, kept in 16 bits.
The hardware takes fewer leading zeros than the host.

What the hardware walks over is covered by what the host reads, as long as the
profile is one that both take to be plain or that the hardware refuses, and the
order count type keeps its meaning in 16 bits. The registers of the hardware
then hold the syntax elements of the host modulo 65536.
-/

namespace Misterplex.Header

open BitString BitGrammar Cavlc Emulation

theorem covers_zeros : Covers Eq (zerosBeforeOne : Grammar ℕ) (zerosBeforeOne : Grammar ℕ) := by
  intro bits
  induction bits with
  | nil =>
    intro rest more z h
    cases (show (none : Option (ℕ × List Bool))=some (z,rest) from h)
  | cons b bits ih =>
    intro rest more z h
    cases b with
    | true =>
      obtain ⟨rfl,rfl⟩ := Prod.mk.inj (Option.some.inj h)
      exact ⟨0,rfl,rfl⟩
    | false =>
      obtain ⟨r,hr,heq⟩ := Option.map_eq_some_iff.mp h
      obtain ⟨rfl,rfl⟩ := Prod.mk.inj heq
      obtain ⟨n,hn,hsame⟩ := ih r.2 more r.1 hr
      refine ⟨r.1+1,?_,rfl⟩
      show (zerosBeforeOne (bits ++ more)).map (fun p => (p.1+1,p.2))=_
      rw [show zerosBeforeOne (bits ++ more)=some (n,r.2 ++ more) from hn,← hsame]
      rfl

open Grammar

theorem covers_walkSuffixUpTo {maxZeros : ℕ} (hmax : maxZeros≤24) (z : ℕ) :
    Covers (fun v v' => v=v'%65536) (walkSuffixUpTo maxZeros z) (ueSuffix z) := by
  rw [walkSuffixUpTo,ueSuffix]
  by_cases hmany : maxZeros<z
  · rw [if_pos hmany]
    exact Covers.stop _
  · rw [if_neg hmany]
    by_cases hzero : z=0
    · subst hzero
      intro bits rest more v h
      obtain ⟨rfl,rfl⟩ := pure_eq_some.mp
        (show (pure 0 : Grammar ℕ) bits=some (v,rest) from h)
      exact ⟨0,rfl,rfl⟩
    · rw [if_neg hzero,if_neg (by omega)]
      refine Covers.bind (Covers.field z) fun v v' hv => Covers.pure ?_
      rw [hv.1]

theorem covers_ueUpTo {maxZeros : ℕ} (hmax : maxZeros≤24) :
    Covers (fun v v' => v=v'%65536) (walkUeUpTo maxZeros) (ue : Grammar ℕ) := by
  refine Covers.bind covers_zeros fun z z' hz => ?_
  rw [hz]
  exact covers_walkSuffixUpTo hmax z'

theorem covers_walkUeUpTo (maxZeros : ℕ) :
    Covers Eq (walkUeUpTo maxZeros) (walkUeUpTo maxZeros) := by
  refine Covers.bind covers_zeros fun z z' hz => ?_
  rw [hz,walkSuffixUpTo]
  refine Covers.ite (Covers.stop _) (Covers.bind (Covers.field z') fun v v' hv => Covers.pure ?_)
  rw [hv.1]

theorem covers_ue : Covers (fun v v' => v=v'%65536) walkUe (ue : Grammar ℕ) :=
  covers_ueUpTo (by omega)

theorem covers_walkUe : Covers Eq walkUe walkUe := covers_walkUeUpTo 20

theorem covers_skip {α β : Type} {R : α → β → Prop} {g : Grammar α} {g' : Grammar β}
    (h : Covers R g g') : Covers (fun _ _ => True) g (skip g') := by
  intro bits rest more a ha
  obtain ⟨b,hb,-⟩ := h bits rest more a ha
  exact ⟨(),bind_eq_some.mpr ⟨b,rest ++ more,hb,rfl⟩,trivial⟩

theorem covers_u (n : ℕ) :
    Covers (fun a b => a=b ∧ b<2^n) (Grammar.field n) (u n : Grammar ℕ) := Covers.field n

/-- The registers hold the cropping offsets. -/
structure Cropped (r : SpsRegs) (o : ℕ × ℕ × ℕ × ℕ) : Prop where
  none : r.cropFlag=0 → o=(0,0,0,0)
  left : r.cropFlag≠0 → r.cl=o.1%65536
  right : r.cropFlag≠0 → r.cr=o.2.1%65536
  top : r.cropFlag≠0 → r.ct=o.2.2.1%65536
  bottom : r.cropFlag≠0 → r.cb=o.2.2.2%65536

/-- The registers hold what was read, and show what was shown before. -/
structure Holds (shown r : SpsRegs) (s : SpsSyntax) : Prop where
  shows : Shows shown r
  width : r.wMbs=s.wMbs%65536
  height : r.hMap=s.hMap%65536
  frames : r.frameMbsOnly=s.frameMbsOnly
  bit : s.frameMbsOnly≤1
  crop : Cropped r (s.l,s.r,s.t,s.b)

/-- Showing the same is transitive. -/
theorem Shows.trans {a b c : SpsRegs} (h : Shows b c) (h' : Shows a b) : Shows a c :=
  ⟨h.1.trans h'.1,h.2.1.trans h'.2.1,h.2.2.trans h'.2.2⟩

/-- Showing the same is symmetric. -/
theorem Shows.symm {a b : SpsRegs} (h : Shows a b) : Shows b a :=
  ⟨h.1.symm,h.2.1.symm,h.2.2.symm⟩

theorem covers_crop (r : SpsRegs) (v : ℕ) :
    Covers (fun r' o => (Shows r r' ∧ r'.wMbs=r.wMbs ∧ r'.hMap=r.hMap ∧
      r'.frameMbsOnly=r.frameMbsOnly) ∧ Cropped r' o) (afterCrop r v) (readCrop v) := by
  rw [afterCrop,readCrop]
  by_cases hflag : v ≠ 0
  · rw [if_pos hflag,if_pos hflag]
    refine covers_ue.bind fun a l hl => covers_ue.bind fun b r' hr => ?_
    refine covers_ue.bind fun c t ht => covers_ue.bind fun e b' hb => Covers.pure ?_
    exact ⟨⟨⟨rfl,rfl,rfl⟩,rfl,rfl,rfl⟩,fun h => absurd h hflag,fun _ => hl,fun _ => hr,
      fun _ => ht,fun _ => hb⟩
  · rw [if_neg hflag,if_neg hflag]
    exact Covers.pure ⟨⟨⟨rfl,rfl,rfl⟩,rfl,rfl,rfl⟩,fun _ => rfl,fun h => absurd h hflag,
      fun h => absurd h hflag,fun h => absurd h hflag,fun h => absurd h hflag⟩

theorem covers_d8 (r : SpsRegs) (v : ℕ) (f : ℕ × ℕ × ℕ × ℕ → SpsSyntax) (shown : SpsRegs)
    (hholds : ∀ r' o, Shows r r' ∧ r'.wMbs=r.wMbs ∧ r'.hMap=r.hMap ∧
      r'.frameMbsOnly=r.frameMbsOnly → Cropped r' o → Holds shown r' (f o)) :
    Covers (Holds shown) (afterD8 r v) (do
      let crop ← u 1
      let o ← readCrop crop
      pure (f o)) := by
  refine (covers_u 1).bind fun c c' hc => ?_
  rw [hc.1]
  intro bits rest more r' hr'
  obtain ⟨o,ho,hkeep,hcrop⟩ := covers_crop r c' bits rest more r' hr'
  exact ⟨f o,bind_eq_some.mpr ⟨o,rest ++ more,ho,rfl⟩,hholds r' o hkeep hcrop⟩

/-- The walk from the reference frames on, behind what the host reads before them. -/
theorem covers_refs {shown r : SpsRegs} (hshow : Shows shown r) (sps : SpsSyntax) :
    Covers (Holds shown) (walkUe >>= afterRefs r) (readPicture sps) := by
  refine (covers_skip covers_ue).bind fun _ _ _ => ?_
  refine (covers_skip (covers_u 1)).bind fun _ _ _ => ?_
  refine covers_ue.bind fun w w' hw => covers_ue.bind fun h h' hh => ?_
  refine (covers_u 1).bind fun v frames hv => ?_
  rw [hv.1,afterFmo]
  have hholds : ∀ r' o, Shows r r' ∧ r'.wMbs=(w+1)%65536 ∧ r'.hMap=(h+1)%65536 ∧
      r'.frameMbsOnly=frames → Cropped r' o →
      Holds shown r' { sps with
        wMbs := w'+1, hMap := h'+1, frameMbsOnly := frames, l := o.1, r := o.2.1, t := o.2.2.1,
        b := o.2.2.2 } := by
    intro r' o hkeep hcrop
    exact ⟨hkeep.1.trans hshow,by dsimp only; omega,
      by dsimp only; omega,hkeep.2.2.2,
      Nat.le_of_lt_succ hv.2,hcrop⟩
  by_cases hframe : frames = 0
  · rw [if_pos hframe,onlyIf,if_pos hframe]
    refine (covers_skip (covers_u 1)).bind fun _ _ _ => ?_
    refine (covers_skip (covers_u 1)).bind fun x _ _ => ?_
    exact covers_d8 _ x _ shown hholds
  · rw [if_neg hframe,onlyIf,if_neg hframe,pure_bind]
    refine (covers_skip (covers_u 1)).bind fun x _ _ => ?_
    exact covers_d8 _ x _ shown hholds

/-- The order count type keeps its meaning in 16 bits. -/
def PocKept (poc : ℕ) : Prop := poc<65536 ∨ 2≤poc%65536

theorem covers_poc {shown r : SpsRegs} (hshow : Shows shown r) (sps : SpsSyntax) {poc : ℕ}
    (hkept : PocKept poc) :
    Covers (Holds shown) (afterPoc r (poc%65536)) (skipPoc poc >>= fun _ => readPicture sps) := by
  have hzero : poc%65536=0 ↔ poc=0 := by
    rcases hkept with h | h
    · omega
    · omega
  have hone : poc%65536=1 ↔ poc=1 := by
    rcases hkept with h | h
    · omega
    · omega
  rw [afterPoc,skipPoc]
  by_cases h0 : poc = 0
  · rw [if_pos (hzero.mpr h0),if_pos h0]
    refine (covers_skip covers_ue).bind fun _ _ _ => ?_
    exact covers_refs (r := { r with pocT := poc%65536%8 }) ⟨hshow.1,hshow.2⟩ sps
  · rw [if_neg (mt hzero.mp h0),if_neg h0]
    by_cases h1 : poc=1
    · rw [if_pos (hone.mpr h1),if_pos h1]
      exact Covers.stop _
    · rw [if_neg (mt hone.mp h1),if_neg h1,pure_bind]
      exact covers_refs (r := { r with pocT := poc%65536%8 }) ⟨hshow.1,hshow.2⟩ sps

/-- The profile and the order count type of a plain set. -/
def readHead : Grammar (ℕ × ℕ) := do
  let profile ← u 8
  skip (u 8)
  skip (u 8)
  skip ue
  skip ue
  let poc ← ue
  pure (profile,poc)

/-- The hardware refuses the profile, or the profile is plain and the order count type keeps its
meaning in 16 bits. -/
def PlainHead (bits : List Bool) : Prop :=
  ∀ profile poc rest, readHead bits=some ((profile,poc),rest) →
    profile∈refusedProfiles ∨ (profile ∉ highProfiles ∧ PocKept poc)

/-- A syntax that the hardware walks over. -/
structure Walkable (s : SpsSyntax) : Prop where
  profile : s.profileIdc ∉ refusedProfiles
  /-- Its order count type is not refused. -/
  poc : s.poc≠1
  chroma : s.chroma=1
  planes : s.separateColourPlane=false

theorem holds_of_walkSps {r₀ r : SpsRegs} {bits rest : List Bool} (more : List Bool)
    (hplain : PlainHead (bits ++ more)) (h : walkSps r₀ bits=some (r,rest)) :
    ∃ s, (readSps : Grammar SpsSyntax) (bits ++ more)=some (s,rest ++ more) ∧ Walkable s ∧
      Holds r₀ r s := by
  obtain ⟨prof,b₁,hprof,h⟩ := bind_eq_some.mp h
  obtain ⟨cons,b₂,hcons,h⟩ := bind_eq_some.mp h
  obtain ⟨level,b₃,hlevel,h⟩ := bind_eq_some.mp h
  obtain ⟨id,b₄,hid,h⟩ := bind_eq_some.mp h
  have hbyte : prof%256=prof := Nat.mod_eq_of_lt (field_lt hprof)
  rw [afterSpsId] at h
  dsimp only at h
  rw [hbyte] at h
  by_cases hrefused : prof∈refusedProfiles
  · rw [if_pos hrefused] at h
    cases (show (none : Option (SpsRegs × List Bool))=some (r,rest) from h)
  · rw [if_neg hrefused] at h
    obtain ⟨log2,b₅,hlog2,h⟩ := bind_eq_some.mp h
    obtain ⟨poc,b₆,hpoc,h⟩ := bind_eq_some.mp h
    obtain ⟨prof',hprof',rfl,-⟩ := covers_u 8 _ _ more _ hprof
    obtain ⟨_,hcons',-⟩ := covers_skip (covers_u 8) _ _ more _ hcons
    obtain ⟨level',hlevel',rfl,-⟩ := covers_u 8 _ _ more _ hlevel
    obtain ⟨_,hid',-⟩ := covers_skip covers_ue _ _ more _ hid
    obtain ⟨log2',hlog2',-⟩ := covers_ue _ _ more _ hlog2
    obtain ⟨poc',hpoc',rfl⟩ := covers_ue _ _ more _ hpoc
    obtain ⟨_,hlevelSkip,-⟩ := covers_skip (covers_u 8) _ _ more _ hlevel
    obtain ⟨_,hlogSkip,-⟩ := covers_skip covers_ue _ _ more _ hlog2
    have hhead : readHead (bits ++ more)=some ((prof,poc'),b₆ ++ more) :=
      (bind_of_some hprof').trans <| (bind_of_some hcons').trans <|
        (bind_of_some hlevelSkip).trans <| (bind_of_some hid').trans <|
          (bind_of_some hlogSkip).trans <| (bind_of_some hpoc').trans rfl
    obtain ⟨hlow,hkept⟩ := (hplain prof poc' _ hhead).resolve_left hrefused
    have hchroma : (readChroma prof : Grammar (ℕ × Bool)) (b₄ ++ more) =
        some ((1,false),b₄ ++ more) := by
      rw [readChroma,if_neg hlow]
      rfl
    have hpicture := fun sps (hshow : Shows r₀ _) => covers_poc hshow sps hkept b₆ rest more r h
    obtain ⟨s,hs,hholds⟩ := hpicture
      { profileIdc := prof, levelIdc := level, chroma := 1, separateColourPlane := false,
        log2MaxFrameNumMinus4 := log2', poc := poc', wMbs := 0, hMap := 0, frameMbsOnly := 0, l := 0,
        r := 0, t := 0, b := 0 } ⟨rfl,rfl,rfl⟩
    obtain ⟨_,mid,-,hread⟩ := bind_eq_some.mp hs
    have hkeeps := keeps_of_readPicture hread
    have hpocType : poc'≠1 := by
      intro hone
      rw [hone,afterPoc,if_neg (by decide),if_pos (by decide)] at h
      cases (show (none : Option (SpsRegs × List Bool))=some (r,rest) from h)
    have hwalkable : Walkable s :=
      ⟨by rw [hkeeps.1]; exact hrefused,by rw [hkeeps.2.2.2]; exact hpocType,hkeeps.2.1,
        hkeeps.2.2.1⟩
    refine ⟨s,?_,hwalkable,hholds⟩
    exact (bind_of_some hprof').trans <| (bind_of_some hcons').trans <|
      (bind_of_some hlevel').trans <| (bind_of_some hid').trans <|
        (bind_of_some hchroma).trans <| (bind_of_some hlog2').trans <|
          (bind_of_some hpoc').trans hs

/-- Nothing is said about what is read. -/
def Anyway (_ _ : SpsRegs) : Prop := True

variable (r r' : SpsRegs)

theorem alike_crop (v : ℕ) : Covers Anyway (afterCrop r v) (afterCrop r' v) := by
  refine Covers.ite ?_ (Covers.pure trivial)
  refine covers_walkUe.bind fun _ _ _ => covers_walkUe.bind fun _ _ _ => ?_
  exact covers_walkUe.bind fun _ _ _ => covers_walkUe.bind fun _ _ _ => Covers.pure trivial

theorem alike_d8 (v v' : ℕ) : Covers Anyway (afterD8 r v) (afterD8 r' v') := by
  refine (Covers.field 1).bind fun c c' hc => ?_
  rw [hc.1]
  exact alike_crop r r' c'

theorem alike_refs (v v' : ℕ) : Covers Anyway (afterRefs r v) (afterRefs r' v') := by
  refine (Covers.field 1).bind fun _ _ _ => covers_walkUe.bind fun _ _ _ => ?_
  refine covers_walkUe.bind fun _ _ _ => (Covers.field 1).bind fun c c' hc => ?_
  rw [hc.1]
  refine Covers.ite ?_ ((Covers.field 1).bind fun _ _ _ => alike_d8 _ _ _ _)
  exact (Covers.field 1).bind fun _ _ _ => (Covers.field 1).bind fun _ _ _ => alike_d8 _ _ _ _

theorem alike_poc (v : ℕ) : Covers Anyway (afterPoc r v) (afterPoc r' v) := by
  refine Covers.ite ?_ (Covers.ite (Covers.stop _) ?_)
  · refine covers_walkUe.bind fun _ _ _ => covers_walkUe.bind fun _ _ _ => alike_refs _ _ _ _
  · exact covers_walkUe.bind fun _ _ _ => alike_refs _ _ _ _

theorem alike_spsId {r r' : SpsRegs} (h : r.prof=r'.prof) (v v' : ℕ) :
    Covers Anyway (afterSpsId r v) (afterSpsId r' v') := by
  rw [afterSpsId,afterSpsId,h]
  refine Covers.ite (Covers.stop _) (covers_walkUe.bind fun _ _ _ => ?_)
  refine covers_walkUe.bind fun c c' hc => ?_
  rw [hc]
  exact alike_poc _ _ c'

theorem alike_walkSps : Covers Anyway (walkSps r) (walkSps r') := by
  refine (Covers.field 8).bind fun prof prof' hprof => (Covers.field 8).bind fun _ _ _ => ?_
  refine (Covers.field 8).bind fun _ _ _ => covers_walkUe.bind fun _ _ _ => ?_
  exact alike_spsId (congrArg (· % 256) hprof.1) _ _

end Misterplex.Header
