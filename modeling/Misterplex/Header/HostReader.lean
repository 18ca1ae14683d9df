import Misterplex.Cavlc.ResidualBlock
import Misterplex.Cavlc.BlockSyntax
import Misterplex.Lib.BitGrammar

/-!
# Header fields of the host bit reader

Fixed-length fields and unsigned and signed Exp-Golomb codes as the host reads
them, with the limit of 24 leading zeros, beside their syntaxes over bits. The
host reader has a sticky error, so a header that ends without error was read by
its syntax.
-/

namespace Misterplex.Header

open BitString BitGrammar Cavlc Emulation

/-- What a header is read with. -/
class HeaderReader (m : Type → Type) [Monad m] where
  /-- An unsigned field of a number of bits. -/
  u : ℕ → m ℕ
  /-- An unsigned Exp-Golomb code. -/
  ue : m ℕ
  fail : m Unit
  /-- Reading that is left out after an error. -/
  whileOk : m Unit → m Unit

export HeaderReader (u ue fail whileOk)

/-- The signed value of an unsigned code. -/
def seFromUe (c : ℕ) : ℤ := if c%2 = 0 then -((c/2 : ℕ) : ℤ) else (((c+1)/2 : ℕ) : ℤ)

/-- A signed Exp-Golomb code. -/
def se {m : Type → Type} [Monad m] [HeaderReader m] : m ℤ := do
  let c ← ue
  pure (seFromUe c)

/-- Read something that is not kept. -/
def skip {m : Type → Type} [Monad m] {α : Type} (p : m α) : m Unit := do
  let _ ← p
  pure ()

/-- Read something that is there under a condition. -/
def onlyIf {m : Type → Type} [Monad m] (c : Prop) [Decidable c] (p : m Unit) : m Unit :=
  if c then p else pure ()

/-- The loop of the host's `ue` over leading zeros, with the bits it may still read. -/
def zeroRun : ℕ → BitReader → ℕ × BitReader
  | 0,br => (0,br)
  | fuel+1,br =>
    if !br.ok then (0,br)
    else if br.u1.1 = 0 then ((zeroRun fuel br.u1.2).1+1,(zeroRun fuel br.u1.2).2)
    else (0,br.u1.2)

/-- The host's unsigned Exp-Golomb code. -/
def hostUe (br : BitReader) : ℕ × BitReader :=
  let run := zeroRun (8*br.d.length+1) br
  if !run.2.ok then (0,run.2)
  else if run.1 = 0 then (0,run.2)
  else if 24 < run.1 then (0,{ run.2 with ok := false })
  else (2^run.1-1+(run.2.u run.1).1,(run.2.u run.1).2)

/-- Headers are read by the host with its bit reader. -/
instance : HeaderReader (StateM BitReader) where
  u nbits br := br.u nbits
  ue := hostUe
  fail br := ((),{ br with ok := false })
  whileOk m br := if br.ok then m br else ((),br)

/-- What follows the leading zeros and the one of an unsigned Exp-Golomb code. -/
def ueSuffix (z : ℕ) : Grammar ℕ :=
  if z = 0 then pure 0
  else if 24 < z then Grammar.stop
  else do
    let v ← Grammar.field z
    pure (2^z-1+v)

/-- The unsigned Exp-Golomb code, with at most 24 leading zeros. -/
def ueSyntax : Grammar ℕ := do
  let z ← (zerosBeforeOne : Grammar ℕ)
  ueSuffix z

/-- Headers as syntaxes over bits. -/
instance : HeaderReader Grammar where
  u := Grammar.field
  ue := ueSyntax
  fail := Grammar.stop
  whileOk m := m

/-- The host reader over a buffer. -/
def hostReader (d : List Byte) : StickyReader BitReader where
  At := BitReader.At d
  Failed := fun br => br.ok=false
  disjoint := by
    intro bits br hat hfail
    rw [hat.healthy] at hfail
    cases hfail

variable {d : List Byte}

open Grammar

/-- The host reads a field. -/
theorem reads_u {n : ℕ} (hn : n≤32) : Reads (hostReader d) (u n) (u n) where
  found := by
    intro bits rest v br hat hg
    obtain ⟨front,rfl,rfl,rfl⟩ := field_eq_some.mp hg
    exact BitReader.At.u front hat hn
  missing := by
    intro bits br hat hg
    refine BitReader.At.u_short hat (Nat.lt_of_not_le fun hle => ?_)
    have hfield : field n bits=none := hg
    rw [field,if_pos hle] at hfield
    cases hfield
  sticky := by
    intro br hfail
    have hstay : (br.u n).2=br := BitReader.u_failed hfail n
    show (br.u n).2.ok=false
    rw [hstay]
    exact hfail

variable {br : BitReader}

theorem zeroRun_failed (h : br.ok=false) (fuel : ℕ) : zeroRun fuel br=(0,br) := by
  cases fuel with
  | zero => rfl
  | succ fuel => rw [zeroRun,if_pos (by rw [h,Bool.not_false])]

theorem zeroRun_found {bits rest : List Bool} {z : ℕ}
    (hat : BitReader.At d bits br) (hz : zerosBeforeOne bits=some (z,rest)) {fuel : ℕ}
    (hfuel : bits.length<fuel) :
    (zeroRun fuel br).1=z ∧ BitReader.At d rest (zeroRun fuel br).2 := by
  induction bits generalizing z rest br fuel with
  | nil => cases hz
  | cons b bits ih =>
    obtain ⟨hbit,hnext⟩ := hat.u1
    obtain ⟨fuel,rfl⟩ : ∃ n, fuel=n+1 := ⟨fuel-1,by omega⟩
    rw [zeroRun,if_neg (by rw [hat.healthy,Bool.not_true]; exact Bool.false_ne_true),hbit]
    cases b with
    | true =>
      obtain ⟨rfl,rfl⟩ := Prod.mk.inj (Option.some.inj hz)
      exact ⟨rfl,hnext⟩
    | false =>
      obtain ⟨p,hp,heq⟩ := Option.map_eq_some_iff.mp hz
      obtain ⟨rfl,rfl⟩ := Prod.mk.inj heq
      obtain ⟨hcount,hrest⟩ := ih hnext hp (Nat.lt_of_succ_lt_succ hfuel)
      exact ⟨congrArg Nat.succ hcount,hrest⟩

theorem zeroRun_missing {bits : List Bool} (hat : BitReader.At d bits br)
    (hz : zerosBeforeOne bits=none) {fuel : ℕ} (hfuel : bits.length<fuel) :
    (zeroRun fuel br).2.ok=false := by
  induction bits generalizing br fuel with
  | nil =>
    obtain ⟨fuel,rfl⟩ : ∃ n, fuel=n+1 := ⟨fuel-1,by omega⟩
    rw [zeroRun,if_neg (by rw [hat.healthy,Bool.not_true]; exact Bool.false_ne_true),
      hat.u1_nil,if_pos rfl,zeroRun_failed rfl]
  | cons b bits ih =>
    obtain ⟨hbit,hnext⟩ := hat.u1
    rw [List.length_cons] at hfuel
    obtain ⟨fuel,rfl⟩ : ∃ n, fuel=n+1 := ⟨fuel-1,by omega⟩
    rw [zeroRun,if_neg (by rw [hat.healthy,Bool.not_true]; exact Bool.false_ne_true),hbit]
    cases b with
    | true => cases hz
    | false =>
      exact ih hnext (Option.map_eq_none_iff.mp hz) (by omega)

theorem length_lt_fuel {bits : List Bool} (hat : BitReader.At d bits br) :
    bits.length<8*br.d.length+1 := by
  have hpos := hat.position
  rw [hat.buffer]
  omega

/-- The host reads an unsigned Exp-Golomb code. -/
theorem reads_ue : Reads (hostReader d) ue ue where
  found := by
    intro bits rest v br hat hg
    have hsyntax : ueSyntax bits=some (v,rest) := hg
    obtain ⟨z,mid,hz,hg⟩ := bind_eq_some.mp hsyntax
    rw [ueSuffix] at hg
    obtain ⟨hcount,hmid⟩ := zeroRun_found hat hz (length_lt_fuel hat)
    show (hostUe br).1=v ∧ BitReader.At d rest (hostUe br).2
    rw [hostUe]
    rw [if_neg (by rw [hmid.healthy,Bool.not_true]; exact Bool.false_ne_true),hcount]
    by_cases h0 : z=0
    · rw [if_pos h0] at hg ⊢
      obtain ⟨rfl,rfl⟩ := pure_eq_some.mp hg
      exact ⟨rfl,hmid⟩
    · rw [if_neg h0] at hg ⊢
      by_cases h24 : 24<z
      · rw [if_pos h24] at hg
        cases (show (none : Option (ℕ × List Bool))=some (v,rest) from hg)
      · rw [if_neg h24] at hg ⊢
        obtain ⟨w,tail,hw,hg⟩ := bind_eq_some.mp hg
        obtain ⟨rfl,rfl⟩ := pure_eq_some.mp hg
        have hfield := (reads_u (d := d) (by omega : z≤32)).found hmid hw
        exact ⟨congrArg (2^z-1 + ·) hfield.1,hfield.2⟩
  missing := by
    intro bits br hat hg
    show (hostUe br).2.ok=false
    rw [hostUe]
    cases hz : zerosBeforeOne bits with
    | none =>
      have hbad := zeroRun_missing hat hz (length_lt_fuel hat)
      rw [if_pos (by rw [hbad,Bool.not_false])]
      exact hbad
    | some p =>
      obtain ⟨hcount,hmid⟩ := zeroRun_found hat (show zerosBeforeOne bits=some (p.1,p.2) from hz)
        (length_lt_fuel hat)
      rw [if_neg (by rw [hmid.healthy,Bool.not_true]; exact Bool.false_ne_true),hcount]
      have hzeros : (zerosBeforeOne : Grammar ℕ) bits=some (p.1,p.2) := hz
      have hrest : ueSuffix p.1 p.2=none := (bind_of_some hzeros).symm.trans hg
      rw [ueSuffix] at hrest
      by_cases h0 : p.1=0
      · rw [if_pos h0] at hrest
        cases (show some (0,p.2)=none from hrest)
      · rw [if_neg h0] at hrest ⊢
        by_cases h24 : 24<p.1
        · rw [if_pos h24]
        · rw [if_neg h24] at hrest ⊢
          have hread := Reads.bind (reads_u (d := d) (by omega : p.1≤32))
            fun v => Reads.pure (2^p.1-1+v)
          exact hread.missing hmid hrest
  sticky := by
    intro br hfail
    have hrun := zeroRun_failed hfail (8*br.d.length+1)
    show (hostUe br).2.ok=false
    rw [hostUe]
    rw [hrun]
    have hcond : (!br.ok)=true := by
      rw [show br.ok=false from hfail,Bool.not_false]
    rw [if_pos hcond]
    exact hfail

/-- The host reads a signed Exp-Golomb code. -/
theorem reads_se : Reads (hostReader d) se se :=
  Reads.bind reads_ue fun c => Reads.pure (seFromUe c)

/-- The host can give up. -/
theorem reads_fail : Reads (hostReader d) fail fail := Reads.stop fun _ => rfl

/-- A part that is read unless the reader has failed. -/
theorem reads_whileOk {m : StateM BitReader Unit} {g : Grammar Unit}
    (h : Reads (hostReader d) m g) : Reads (hostReader d) (whileOk m) (whileOk g) := by
  refine h.guarded ?_ ?_
  · intro bits br hat
    exact if_pos (BitReader.At.healthy hat)
  · intro br hfail
    have hok : br.ok=false := hfail
    show (if br.ok = true then m br else ((),br)).2=br
    rw [if_neg (by rw [hok]; exact Bool.false_ne_true)]

/-- A part whose value is not used. -/
theorem reads_skip {α : Type} {m : StateM BitReader α} {g : Grammar α}
    (h : Reads (hostReader d) m g) : Reads (hostReader d) (skip m) (skip g) :=
  h.bind fun _ => Reads.pure ()

/-- A part that is there under a condition. -/
theorem reads_onlyIf {c : Prop} [Decidable c] {m : StateM BitReader Unit} {g : Grammar Unit}
    (h : Reads (hostReader d) m g) : Reads (hostReader d) (onlyIf c m) (onlyIf c g) :=
  h.ite (Reads.pure ())

theorem host_bind {α β : Type} (p : StateM BitReader α) (k : α → StateM BitReader β)
    (br : BitReader) : (p >>= k) br=k (p br).1 (p br).2 := rfl

theorem host_pure {α : Type} (a : α) (br : BitReader) :
    (pure a : StateM BitReader α) br=(a,br) := rfl

theorem host_skip {α : Type} (p : StateM BitReader α) (br : BitReader) :
    skip p br=((),(p br).2) := rfl

theorem host_ue (br : BitReader) : (ue : StateM BitReader ℕ) br=hostUe br := rfl

theorem host_u (n : ℕ) (br : BitReader) : (u n : StateM BitReader ℕ) br=br.u n := rfl

/-- A code is some zeros, a one and as many bits as there are zeros. -/
theorem zeros_of_ue {bits rest : List Bool} {v : ℕ}
    (h : (ue : Grammar ℕ) bits=some (v,rest)) :
    ∃ z mid, zerosBeforeOne bits=some (z,mid) ∧ mid.length=z+rest.length := by
  have hsyntax : ueSyntax bits=some (v,rest) := h
  obtain ⟨z,mid,hz,hsuffix⟩ := bind_eq_some.mp hsyntax
  refine ⟨z,mid,hz,?_⟩
  rw [ueSuffix] at hsuffix
  by_cases h0 : z=0
  · rw [if_pos h0] at hsuffix
    rw [(pure_eq_some.mp hsuffix).2,h0,Nat.zero_add]
  · rw [if_neg h0] at hsuffix
    by_cases h24 : 24<z
    · rw [if_pos h24] at hsuffix
      cases (show (none : Option (ℕ × List Bool))=some (v,rest) from hsuffix)
    · rw [if_neg h24] at hsuffix
      obtain ⟨w,tail,hfield,hpure⟩ := bind_eq_some.mp hsuffix
      obtain ⟨front,hlength,hsplit,-⟩ := field_eq_some.mp hfield
      rw [← (pure_eq_some.mp hpure).2,hsplit,List.length_append,hlength]

theorem length_lt_of_ue {bits rest : List Bool} {v : ℕ}
    (h : (ue : Grammar ℕ) bits=some (v,rest)) : rest.length<bits.length := by
  obtain ⟨z,mid,hz,hlength⟩ := zeros_of_ue h
  rw [zerosBeforeOne_eq_some hz,List.length_append,List.length_cons]
  omega

theorem hostUe_advances {bits : List Bool} (hat : BitReader.At d bits br)
    (hok : (hostUe br).2.ok=true) :
    ∃ rest, BitReader.At d rest (hostUe br).2 ∧ rest.length<bits.length := by
  have hnot : ¬(hostReader d).Failed ((ue : StateM BitReader ℕ) br).2 := by
    show ¬(hostUe br).2.ok=false
    rw [hok]
    exact Bool.noConfusion
  obtain ⟨rest,hue,hrest⟩ := reads_ue.of_not_failed hat hnot
  exact ⟨rest,hrest,length_lt_of_ue hue⟩

theorem ok_of_hostUe_ok (h : (hostUe br).2.ok=true) : br.ok=true := by
  cases hbr : br.ok with
  | true => rfl
  | false =>
    have hfail : (hostUe br).2.ok=false := (reads_ue (d := br.d)).sticky hbr
    rw [hfail] at h
    cases h

theorem at_start (d : List Byte) : BitReader.At d (bitsOf d) ⟨d,0,true⟩ where
  buffer := rfl
  healthy := rfl
  position := by
    rw [length_bitsOf]
    exact Nat.zero_add _
  left := rfl

end Misterplex.Header
