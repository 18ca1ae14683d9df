import Misterplex.Lib.BitString

/-!
# Controllers that ask for codes

A controller reads a syntax by asking for one element after the other: a number of
bits, or an Exp-Golomb code. In each of its states it looks at what it has heard,
changes its registers and asks again, until it is done. What it comes to over
given bits is said without the machine that reads them for it.
-/

namespace Misterplex

open BitString ExpGolomb

/-- What a controller asks for, and the state it hears the answer in. -/
inductive Ask (σ : Type*) where
  /-- An Exp-Golomb code. -/
  | ue (next : σ)
  | bits (n : ℕ) (next : σ)
  /-- Nothing, but another state. -/
  | go (next : σ)
  | done
  | fail
  deriving DecidableEq, Repr

/-- What a controller has heard. -/
structure Heard where
  /-- The last code and field read, and the next bit. -/
  (ueValue acc position : ℕ)
  deriving DecidableEq, Repr

/-- A controller with its states and registers. -/
abbrev Controller (σ ρ : Type*) := σ → Heard → ρ → ρ × Ask σ

/-- What the reading machine can read at a time. -/
structure ReadLimits where
  /-- The longest prefix of a code, and the longest field. -/
  (zeros width : ℕ)

/-- A controller that asks comes to the end over given bits, with registers and at a
position. -/
inductive Asks {σ ρ : Type*} (L : ReadLimits) (C : Controller σ ρ) :
    Ask σ → Heard → ρ → List Bool → ρ → ℕ → Prop where
  | done {h : Heard} {r : ρ} {bits : List Bool} : Asks L C .done h r bits r h.position
  | go {s : σ} {h : Heard} {r out : ρ} {bits : List Bool} {n : ℕ}
      (rest : Asks L C (C s h r).2 h (C s h r).1 bits out n) : Asks L C (.go s) h r bits out n
  | ue {s : σ} {h : Heard} {r out : ρ} {bits : List Bool} {v n : ℕ}
      (fits : zerosOf v≤L.zeros)
      (rest : Asks L C (C s ⟨v,h.acc,h.position+(ueCode v).length⟩ r).2
        ⟨v,h.acc,h.position+(ueCode v).length⟩
        (C s ⟨v,h.acc,h.position+(ueCode v).length⟩ r).1 bits out n) :
      Asks L C (.ue s) h r (ueCode v ++ bits) out n
  | bits {s : σ} {h : Heard} {r out : ρ} {bits : List Bool} {n : ℕ} (field : List Bool)
      (fits : field.length≤L.width)
      (rest : Asks L C (C s ⟨h.ueValue,value field,h.position+field.length⟩ r).2
        ⟨h.ueValue,value field,h.position+field.length⟩
        (C s ⟨h.ueValue,value field,h.position+field.length⟩ r).1 bits out n) :
      Asks L C (.bits field.length s) h r (field ++ bits) out n

/-- Where a controller that asks comes to over given bits, something holds. -/
def Comes {σ ρ : Type*} (L : ReadLimits) (C : Controller σ ρ) (a : Ask σ) (h : Heard) (r : ρ)
    (bits : List Bool) (Q : ρ → ℕ → Prop) : Prop :=
  ∃ out n, Asks L C a h r bits out n ∧ Q out n

namespace Comes

variable {σ ρ : Type*} {L : ReadLimits} {C : Controller σ ρ} {s : σ} {h : Heard} {r r' : ρ}
  {a : Ask σ} {tail : List Bool} {Q Q' : ρ → ℕ → Prop}

/-- Something weaker holds too. -/
theorem mono (hcomes : Comes L C a h r tail Q) (himp : ∀ out n, Q out n → Q' out n) :
    Comes L C a h r tail Q' := by
  obtain ⟨out,n,hasks,hQ⟩ := hcomes
  exact ⟨out,n,hasks,himp out n hQ⟩

/-- The end. -/
theorem done (hQ : Q r h.position) : Comes L C .done h r tail Q := ⟨r,h.position,.done,hQ⟩

/-- Another state, whose answer is known. -/
theorem go (hC : C s h r=(r',a)) (rest : Comes L C a h r' tail Q) :
    Comes L C (.go s) h r tail Q := by
  obtain ⟨out,n,hasks,hQ⟩ := rest
  refine ⟨out,n,.go ?_,hQ⟩
  rw [hC]
  exact hasks

/-- A code in front, and what the controller says to it. -/
theorem ue {v p : ℕ} (fits : zerosOf v≤L.zeros) (hp : h.position+(ueCode v).length=p)
    (hC : C s ⟨v,h.acc,p⟩ r=(r',a)) (rest : Comes L C a ⟨v,h.acc,p⟩ r' tail Q) :
    Comes L C (.ue s) h r (ueCode v ++ tail) Q := by
  obtain ⟨out,n,hasks,hQ⟩ := rest
  subst hp
  refine ⟨out,n,.ue fits ?_,hQ⟩
  rw [hC]
  exact hasks

/-- A signed code in front, and what the controller says to it. -/
theorem se {k : ℤ} {p : ℕ} (fits : zerosOf (seIndex k)≤L.zeros)
    (hp : h.position+(seCode k).length=p) (hC : C s ⟨seIndex k,h.acc,p⟩ r=(r',a))
    (rest : Comes L C a ⟨seIndex k,h.acc,p⟩ r' tail Q) :
    Comes L C (.ue s) h r (seCode k ++ tail) Q :=
  ue fits hp hC rest

/-- Bits in front, and what the controller says to them. -/
theorem bits {front : List Bool} {w v p : ℕ} (hlen : front.length=w) (hval : value front=v)
    (fits : w≤L.width) (hp : h.position+w=p) (hC : C s ⟨h.ueValue,v,p⟩ r=(r',a))
    (rest : Comes L C a ⟨h.ueValue,v,p⟩ r' tail Q) :
    Comes L C (.bits w s) h r (front ++ tail) Q := by
  obtain ⟨out,n,hasks,hQ⟩ := rest
  subst hlen hval hp
  refine ⟨out,n,.bits front fits ?_,hQ⟩
  rw [hC]
  exact hasks

/-- A number in front that is written in the bits asked for, and what the controller says to
it. -/
theorem field {w v p : ℕ} (hv : v<2^w) (fits : w≤L.width) (hp : h.position+w=p)
    (hC : C s ⟨h.ueValue,v,p⟩ r=(r',a)) (rest : Comes L C a ⟨h.ueValue,v,p⟩ r' tail Q) :
    Comes L C (.bits w s) h r (ofNat w v ++ tail) Q :=
  bits (length_ofNat w v) (value_ofNat hv) fits hp hC rest

/-- One bit in front, and what the controller says to it. -/
theorem bit {b : Bool} {p : ℕ} (fits : 1≤L.width) (hp : h.position+1=p)
    (hC : C s ⟨h.ueValue,b.toNat,p⟩ r=(r',a))
    (rest : Comes L C a ⟨h.ueValue,b.toNat,p⟩ r' tail Q) :
    Comes L C (.bits 1 s) h r (b::tail) Q := by
  rw [← List.singleton_append]
  refine bits rfl ?_ fits hp hC rest
  rw [value_cons,value_nil,List.length_nil,pow_zero,Nat.mul_one,Nat.add_zero]

end Comes

end Misterplex
