import Misterplex.Cavlc.BlockSyntax

/-!
# The code tables of the decoder engine

The three case statements of the engine, over keys that pack a table or row
number, a code length and the code bits. Tried with growing lengths they read
the symbols of the code tables, although the bits of a run are cut to five.
-/

namespace Misterplex.Cavlc.Engine

open BitString PrefixCode List

/-- The case table of coeff_token_lookup: key of table, length and bits, then
total_coeff and trailing_ones. -/
def coeffTokenCases : List (ℕ × ℕ × ℕ) :=
  [(0x010001,0,0),(0x060005,1,0),(0x020001,1,1),(0x080007,2,0),(0x060004,2,1),
   (0x030001,2,2),(0x090007,3,0),(0x080006,3,1),(0x070005,3,2),(0x050003,3,3),
   (0x0a0007,4,0),(0x090006,4,1),(0x080005,4,2),(0x060003,4,3),(0x0b0007,5,0),
   (0x0a0006,5,1),(0x090005,5,2),(0x070004,5,3),(0x0d000f,6,0),(0x0b0006,6,1),
   (0x0a0005,6,2),(0x080004,6,3),(0x0d000b,7,0),(0x0d000e,7,1),(0x0b0005,7,2),
   (0x090004,7,3),(0x0d0008,8,0),(0x0d000a,8,1),(0x0d000d,8,2),(0x0a0004,8,3),
   (0x0e000f,9,0),(0x0e000e,9,1),(0x0d0009,9,2),(0x0b0004,9,3),(0x0e000b,10,0),
   (0x0e000a,10,1),(0x0e000d,10,2),(0x0d000c,10,3),(0x0f000f,11,0),(0x0f000e,11,1),
   (0x0e0009,11,2),(0x0e000c,11,3),(0x0f000b,12,0),(0x0f000a,12,1),(0x0f000d,12,2),
   (0x0e0008,12,3),(0x10000f,13,0),(0x0f0001,13,1),(0x0f0009,13,2),(0x0f000c,13,3),
   (0x10000b,14,0),(0x10000e,14,1),(0x10000d,14,2),(0x0f0008,14,3),(0x100007,15,0),
   (0x10000a,15,1),(0x100009,15,2),(0x10000c,15,3),(0x100004,16,0),(0x100006,16,1),
   (0x100005,16,2),(0x100008,16,3),(0x220003,0,0),(0x26000b,1,0),(0x220002,1,1),
   (0x260007,2,0),(0x250007,2,1),(0x230003,2,2),(0x270007,3,0),(0x26000a,3,1),
   (0x260009,3,2),(0x240005,3,3),(0x280007,4,0),(0x260006,4,1),(0x260005,4,2),
   (0x240004,4,3),(0x280004,5,0),(0x270006,5,1),(0x270005,5,2),(0x250006,5,3),
   (0x290007,6,0),(0x280006,6,1),(0x280005,6,2),(0x260008,6,3),(0x2b000f,7,0),
   (0x290006,7,1),(0x290005,7,2),(0x260004,7,3),(0x2b000b,8,0),(0x2b000e,8,1),
   (0x2b000d,8,2),(0x270004,8,3),(0x2c000f,9,0),(0x2b000a,9,1),(0x2b0009,9,2),
   (0x290004,9,3),(0x2c000b,10,0),(0x2c000e,10,1),(0x2c000d,10,2),(0x2b000c,10,3),
   (0x2c0008,11,0),(0x2c000a,11,1),(0x2c0009,11,2),(0x2b0008,11,3),(0x2d000f,12,0),
   (0x2d000e,12,1),(0x2d000d,12,2),(0x2c000c,12,3),(0x2d000b,13,0),(0x2d000a,13,1),
   (0x2d0009,13,2),(0x2d000c,13,3),(0x2d0007,14,0),(0x2e000b,14,1),(0x2d0006,14,2),
   (0x2d0008,14,3),(0x2e0009,15,0),(0x2e0008,15,1),(0x2e000a,15,2),(0x2d0001,15,3),
   (0x2e0007,16,0),(0x2e0006,16,1),(0x2e0005,16,2),(0x2e0004,16,3),(0x44000f,0,0),
   (0x46000f,1,0),(0x44000e,1,1),(0x46000b,2,0),(0x45000f,2,1),(0x44000d,2,2),
   (0x460008,3,0),(0x45000c,3,1),(0x45000e,3,2),(0x44000c,3,3),(0x47000f,4,0),
   (0x45000a,4,1),(0x45000b,4,2),(0x44000b,4,3),(0x47000b,5,0),(0x450008,5,1),
   (0x450009,5,2),(0x44000a,5,3),(0x470009,6,0),(0x46000e,6,1),(0x46000d,6,2),
   (0x440009,6,3),(0x470008,7,0),(0x46000a,7,1),(0x460009,7,2),(0x440008,7,3),
   (0x48000f,8,0),(0x47000e,8,1),(0x47000d,8,2),(0x45000d,8,3),(0x48000b,9,0),
   (0x48000e,9,1),(0x47000a,9,2),(0x46000c,9,3),(0x49000f,10,0),(0x48000a,10,1),
   (0x48000d,10,2),(0x47000c,10,3),(0x49000b,11,0),(0x49000e,11,1),(0x480009,11,2),
   (0x48000c,11,3),(0x490008,12,0),(0x49000a,12,1),(0x49000d,12,2),(0x480008,12,3),
   (0x4a000d,13,0),(0x490007,13,1),(0x490009,13,2),(0x49000c,13,3),(0x4a0009,14,0),
   (0x4a000c,14,1),(0x4a000b,14,2),(0x4a000a,14,3),(0x4a0005,15,0),(0x4a0008,15,1),
   (0x4a0007,15,2),(0x4a0006,15,3),(0x4a0001,16,0),(0x4a0004,16,1),(0x4a0003,16,2),
   (0x4a0002,16,3),(0x660003,0,0),(0x660000,1,0),(0x660001,1,1),(0x660004,2,0),
   (0x660005,2,1),(0x660006,2,2),(0x660008,3,0),(0x660009,3,1),(0x66000a,3,2),
   (0x66000b,3,3),(0x66000c,4,0),(0x66000d,4,1),(0x66000e,4,2),(0x66000f,4,3),
   (0x660010,5,0),(0x660011,5,1),(0x660012,5,2),(0x660013,5,3),(0x660014,6,0),
   (0x660015,6,1),(0x660016,6,2),(0x660017,6,3),(0x660018,7,0),(0x660019,7,1),
   (0x66001a,7,2),(0x66001b,7,3),(0x66001c,8,0),(0x66001d,8,1),(0x66001e,8,2),
   (0x66001f,8,3),(0x660020,9,0),(0x660021,9,1),(0x660022,9,2),(0x660023,9,3),
   (0x660024,10,0),(0x660025,10,1),(0x660026,10,2),(0x660027,10,3),(0x660028,11,0),
   (0x660029,11,1),(0x66002a,11,2),(0x66002b,11,3),(0x66002c,12,0),(0x66002d,12,1),
   (0x66002e,12,2),(0x66002f,12,3),(0x660030,13,0),(0x660031,13,1),(0x660032,13,2),
   (0x660033,13,3),(0x660034,14,0),(0x660035,14,1),(0x660036,14,2),(0x660037,14,3),
   (0x660038,15,0),(0x660039,15,1),(0x66003a,15,2),(0x66003b,15,3),(0x66003c,16,0),
   (0x66003d,16,1),(0x66003e,16,2),(0x66003f,16,3),(0x820001,0,0),(0x860007,1,0),
   (0x810001,1,1),(0x860004,2,0),(0x860006,2,1),(0x830001,2,2),(0x860003,3,0),
   (0x870003,3,1),(0x870002,3,2),(0x860005,3,3),(0x860002,4,0),(0x880003,4,1),
   (0x880002,4,2),(0x870000,4,3)]

/-- The case table of total_zeros_lookup: key of chroma, tc, length and bits. -/
def totalZerosCases : List (ℕ × ℕ) :=
  [(0x02201,0),(0x02603,1),(0x02602,2),(0x02803,3),(0x02802,4),(0x02a03,5),
   (0x02a02,6),(0x02c03,7),(0x02c02,8),(0x02e03,9),(0x02e02,10),(0x03003,11),
   (0x03002,12),(0x03203,13),(0x03202,14),(0x03201,15),(0x04607,0),(0x04606,1),
   (0x04605,2),(0x04604,3),(0x04603,4),(0x04805,5),(0x04804,6),(0x04803,7),
   (0x04802,8),(0x04a03,9),(0x04a02,10),(0x04c03,11),(0x04c02,12),(0x04c01,13),
   (0x04c00,14),(0x06805,0),(0x06607,1),(0x06606,2),(0x06605,3),(0x06804,4),
   (0x06803,5),(0x06604,6),(0x06603,7),(0x06802,8),(0x06a03,9),(0x06a02,10),
   (0x06c01,11),(0x06a01,12),(0x06c00,13),(0x08a03,0),(0x08607,1),(0x08805,2),
   (0x08804,3),(0x08606,4),(0x08605,5),(0x08604,6),(0x08803,7),(0x08603,8),
   (0x08802,9),(0x08a02,10),(0x08a01,11),(0x08a00,12),(0x0a805,0),(0x0a804,1),
   (0x0a803,2),(0x0a607,3),(0x0a606,4),(0x0a605,5),(0x0a604,6),(0x0a603,7),
   (0x0a802,8),(0x0aa01,9),(0x0a801,10),(0x0aa00,11),(0x0cc01,0),(0x0ca01,1),
   (0x0c607,2),(0x0c606,3),(0x0c605,4),(0x0c604,5),(0x0c603,6),(0x0c602,7),
   (0x0c801,8),(0x0c601,9),(0x0cc00,10),(0x0ec01,0),(0x0ea01,1),(0x0e605,2),
   (0x0e604,3),(0x0e603,4),(0x0e403,5),(0x0e602,6),(0x0e801,7),(0x0e601,8),
   (0x0ec00,9),(0x10c01,0),(0x10801,1),(0x10a01,2),(0x10603,3),(0x10403,4),
   (0x10402,5),(0x10602,6),(0x10601,7),(0x10c00,8),(0x12c01,0),(0x12c00,1),
   (0x12801,2),(0x12403,3),(0x12402,4),(0x12601,5),(0x12401,6),(0x12a01,7),
   (0x14a01,0),(0x14a00,1),(0x14601,2),(0x14403,3),(0x14402,4),(0x14401,5),
   (0x14801,6),(0x16800,0),(0x16801,1),(0x16601,2),(0x16602,3),(0x16201,4),
   (0x16603,5),(0x18800,0),(0x18801,1),(0x18401,2),(0x18201,3),(0x18601,4),
   (0x1a600,0),(0x1a601,1),(0x1a201,2),(0x1a401,3),(0x1c400,0),(0x1c401,1),
   (0x1c201,2),(0x1e200,0),(0x1e201,1),(0x42201,0),(0x42401,1),(0x42601,2),
   (0x42600,3),(0x44201,0),(0x44401,1),(0x44400,2),(0x46201,0),(0x46200,1)]

/-- The case table of run_before_lookup: key of row, length and bits. -/
def runBeforeCases : List (ℕ × ℕ) :=
  [(0x0221,0),(0x0220,1),(0x0421,0),(0x0441,1),(0x0440,2),(0x0643,0),(0x0642,1),
   (0x0641,2),(0x0640,3),(0x0843,0),(0x0842,1),(0x0841,2),(0x0861,3),(0x0860,4),
   (0x0a43,0),(0x0a42,1),(0x0a63,2),(0x0a62,3),(0x0a61,4),(0x0a60,5),(0x0c43,0),
   (0x0c60,1),(0x0c61,2),(0x0c63,3),(0x0c62,4),(0x0c65,5),(0x0c64,6),(0x0e67,0),
   (0x0e66,1),(0x0e65,2),(0x0e64,3),(0x0e63,4),(0x0e62,5),(0x0e61,6),(0x0e81,7),
   (0x0ea1,8),(0x0ec1,9),(0x0ee1,10),(0x0f01,11),(0x0f21,12),(0x0f41,13),(0x0f61,14)]

/-- The valid answers of coeff_token_lookup: four times total_coeff plus
trailing_ones. -/
def coeffTokenLookup (tab len bits : ℕ) : Option ℕ :=
  caseOf (coeffTokenCases.map fun c => (c.1,4*c.2.1+c.2.2))
    ((tab*2^5+len)*2^16+bits)

/-- The valid answers of total_zeros_lookup. -/
def totalZerosLookup (chroma : Bool) (tc len bits : ℕ) : Option ℕ :=
  caseOf totalZerosCases (((chroma.toNat*2^5+tc)*2^4+len)*2^9+bits)

/-- The valid answers of run_before_lookup. -/
def runBeforeLookup (zeros len bits : ℕ) : Option ℕ :=
  caseOf runBeforeCases (((if zeros < 7 then zeros else 7)*2^4+len)*2^5+bits)

/-- The number of a coeff_token table. -/
def tableNumber : TokenTable → ℕ
  | .nc0 => 0
  | .nc2 => 1
  | .nc4 => 2
  | .nc8 => 3
  | .chromaDc => 4

/-- Longest code tried in a coeff_token table. -/
def tokenMax (tab : ℕ) : ℕ := if tab = 3 then 6 else if tab = 4 then 8 else 16

theorem shortestFrom_cut (look : ℕ → ℕ → Option ℕ) {maxLen n : ℕ} (h : maxLen≤n)
    (bits : List Bool) :
    shortestFrom (fun len v => look len (v%2^n)) maxLen bits =
      shortestFrom look maxLen bits := by
  refine shortestFrom_congr maxLen bits fun len _ hle hbits => Or.inl ?_
  have hlt := value_lt (bits.take len)
  rw [length_take_of_le hbits] at hlt
  have hpow : 2^len≤2^n := Nat.pow_le_pow_right (by omega) (by omega)
  rw [Nat.mod_eq_of_lt (lt_of_lt_of_le hlt hpow)]

theorem caseHolds_token (t : TokenTable) :
    CaseHolds (coeffTokenCases.map fun c => (c.1,4*c.2.1+c.2.2)) 5 16 (tableNumber t)
      (tokenMax (tableNumber t)) t.code := by
  cases t <;> decide +kernel

theorem token_search (t : TokenTable) (bits : List Bool) :
    shortestFrom (fun len v => coeffTokenLookup (tableNumber t) len (v%2^16))
      (tokenMax (tableNumber t)) bits=symbol t.code bits := by
  have hmax : tokenMax (tableNumber t)≤16 := by cases t <;> decide
  have hreal := realizes_caseOf (caseHolds_token t) (by omega) hmax
  rw [shortestFrom_cut (coeffTokenLookup (tableNumber t)) hmax]
  exact shortestFrom_eq_symbol (prefixFree_code t) hreal bits

theorem caseHolds_totalZeros :
    ∀ tc<16, 0<tc → CaseHolds totalZerosCases 4 9 tc 9 (codewords (totalZerosRows.getD (tc-1) [])) := by
  decide +kernel

theorem caseHolds_totalZerosChroma :
    ∀ tc<4, 0<tc →
      CaseHolds totalZerosCases 4 9 (32+tc) 3 (codewords (totalZerosChromaRows.getD (tc-1) [])) := by
  decide +kernel

theorem totalZeros_search {maxNumCoeff tc : ℕ} (htc : 0<tc) (hlt : tc < maxNumCoeff)
    (hmax : maxNumCoeff≤16) (bits : List Bool) :
    shortestFrom (fun len v => totalZerosLookup (decide (maxNumCoeff=4)) tc len (v%2^9))
      (if maxNumCoeff = 4 then 3 else 9) bits=symbol (totalZerosCode maxNumCoeff tc) bits := by
  have hfree := prefixFree_totalZerosCode maxNumCoeff tc
  unfold totalZerosCode totalZerosLiterals at *
  by_cases h4 : maxNumCoeff=4
  · have hreal := realizes_caseOf (caseHolds_totalZerosChroma tc (by omega) htc) (by decide)
      (by decide)
    rw [if_pos h4] at hfree ⊢
    rw [if_pos h4,decide_eq_true h4,shortestFrom_cut (totalZerosLookup true tc) (by decide)]
    exact shortestFrom_eq_symbol hfree hreal bits
  · have hreal := realizes_caseOf (caseHolds_totalZeros tc (by omega) htc) (by decide) (by decide)
    have hkey : (fun len v => totalZerosLookup false tc len v) =
        fun len word => caseOf totalZerosCases ((tc*2^4+len)*2^9+word) := by
      funext len v
      rw [totalZerosLookup,Bool.toNat_false,Nat.zero_mul,Nat.zero_add]
    rw [if_neg h4] at hfree ⊢
    rw [if_neg h4,decide_eq_false h4,shortestFrom_cut (totalZerosLookup false tc) (by decide),
      ← shortestFrom_eq_symbol hfree hreal bits,← hkey]

theorem caseHolds_run :
    ∀ zeros<7, 0<zeros →
      CaseHolds runBeforeCases 4 5 zeros 3 (codewords (runBeforeRows.getD (zeros-1) [])) := by
  decide

/-- The row of more than six zeros with its bits cut to five: the codes are those
of the case statement, found under their value, and nothing else is found
under fewer than 32. -/
theorem longRun_items :
    (∀ p∈(runBeforeCode 7).zipIdx, p.1≠[] → p.1.length≤11 ∧ value p.1<32 ∧
      runBeforeLookup 7 p.1.length (value p.1)=some p.2) ∧
    ∀ item∈runBeforeCases, item.1/2^5/2^4=7 →
      (runBeforeCode 7)[item.2]?=some (ofNat (item.1/2^5%2^4) (item.1%2^5)) := by
  decide

theorem longRun_found {w : List Bool} {i : ℕ} (hw : (runBeforeCode 7)[i]?=some w) (hne : w≠[]) :
    value w<32 ∧ runBeforeLookup 7 w.length (value w)=some i :=
  (longRun_items.1 (w,i) (mem_zipIdx_iff_getElem?.mpr hw) hne).2

/-- Without the keys that only the cut reaches the row of more than six zeros
realizes its code. -/
theorem realizes_longRun :
    Realizes (fun len v => if v < 32 then runBeforeLookup 7 len v else none) (runBeforeCode 7)
      11 := by
  constructor
  · intro i w hw hne
    obtain ⟨hlt,hfound⟩ := longRun_found hw hne
    rw [if_pos hlt]
    exact ⟨(longRunCode_one w (mem_of_getElem? hw)).2,hfound⟩
  · intro w i _ hlen hfound
    by_cases hlt : value w<32
    · rw [if_pos hlt] at hfound
      obtain ⟨item,hitem,rfl⟩ := Option.map_eq_some_iff.mp hfound
      have hmem := mem_of_find?_eq_some hitem
      have hkey := find?_some hitem
      rw [beq_iff_eq,if_neg (by decide)] at hkey
      obtain ⟨htable,hlength,hvalue⟩ :=
        packed_parts 4 5 7 (show w.length<2^4 by omega) hlt
      rw [← hkey] at htable hlength hvalue
      rw [longRun_items.2 item hmem htable,hlength,hvalue,
        ofNat_of_mod (Nat.mod_eq_of_lt (value_lt w))]
    · rw [if_neg hlt] at hfound
      cases hfound

theorem longRun_earlier {bits : List Bool} {len : ℕ} (hlen : len≤11) (hbits : len≤bits.length)
    (hlarge : 32≤value (bits.take len)) :
    ∃ m, 1 ≤ m ∧ m<len ∧ ∃ i : ℕ, (runBeforeCode 7)[i]?=some (bits.take m) := by
  have hprefix : ∀ pre tail, bits.take len = pre ++ tail → bits.take pre.length=pre := by
    intro pre tail hsplit
    have hpre : pre <+: bits := by
      refine List.IsPrefix.trans ?_ (List.take_prefix len bits)
      exact hsplit ▸ prefix_append pre tail
    exact (prefix_iff_eq_take.mp hpre).symm
  cases hz : zerosBeforeOne (bits.take len) with
  | none =>
    rw [zerosBeforeOne_eq_none hz,value_replicate_false] at hlarge
    omega
  | some p =>
    have hsplit := zerosBeforeOne_eq_some hz
    have hcount := congrArg length hsplit
    rw [length_take_of_le hbits,length_append,length_replicate,
      length_cons] at hcount
    have hrest : 5≤p.2.length := by
      by_contra hshort
      have hlt := value_lt (true::p.2)
      have hpow : 2^(true::p.2).length≤2^5 := by
        refine Nat.pow_le_pow_right (by omega) ?_
        rw [length_cons]
        omega
      rw [hsplit,value_append,value_replicate_false] at hlarge
      omega
    by_cases h3 : p.1<3
    · have hlen3 : (bits.take 3).length=3 := length_take_of_le (by omega)
      have hmem : true∈bits.take 3 := by
        have hpre := hprefix (replicate p.1 false ++ [true]) p.2 (by
          rw [hsplit,append_assoc]
          rfl)
        rw [length_append,length_replicate,length_singleton] at hpre
        refine take_subset_take_left bits (show p.1+1≤3 by omega) ?_
        rw [hpre]
        exact mem_append_right _ (mem_singleton_self true)
      have hpos := value_pos hmem
      have hlt := value_lt (bits.take 3)
      have hword := ofNat_of_mod (Nat.mod_eq_of_lt (value_lt (bits.take 3)))
      rw [hlen3] at hlt hword
      refine ⟨3,by omega,by omega,7-value (bits.take 3),?_⟩
      rw [longRunCode _ (by omega),if_pos (by omega),
        show 7-(7-value (bits.take 3))=value (bits.take 3) by omega,hword]
    · have hword : (runBeforeCode 7)[p.1+4]?=some (replicate p.1 false ++ [true]) := by
        rw [longRunCode _ (by omega),if_neg (by omega),Nat.add_sub_cancel]
      have hpre := hprefix (replicate p.1 false ++ [true]) p.2 (by
        rw [hsplit,append_assoc]
        rfl)
      rw [length_append,length_replicate,length_singleton] at hpre
      exact ⟨p.1+1,by omega,by omega,p.1+4,by rw [hword,hpre]⟩

/-- The engine's search over the lengths is a look-up in the code. -/
theorem run_search {zeros : ℕ} (hpos : 0<zeros) (bits : List Bool) :
    shortestFrom (fun len v => runBeforeLookup zeros len (v%2^5)) (if zeros < 7 then 3 else 11)
      bits=symbol (runBeforeCode zeros) bits := by
  by_cases h7 : zeros<7
  · have hcode : runBeforeCode zeros=codewords (runBeforeRows.getD (zeros-1) []) := by
      rw [runBeforeCode,Nat.min_eq_left (by omega)]
    have hfree := prefixFree_runBeforeCode zeros
    have hreal := realizes_caseOf (caseHolds_run zeros h7 hpos) (by decide) (by decide)
    have hkey : (fun len v => runBeforeLookup zeros len v) =
        fun len word => caseOf runBeforeCases ((zeros*2^4+len)*2^5+word) := by
      funext len v
      rw [runBeforeLookup,if_pos h7]
    rw [hcode] at hfree ⊢
    rw [if_pos h7,shortestFrom_cut (runBeforeLookup zeros) (by decide),
      ← shortestFrom_eq_symbol hfree hreal bits,← hkey]
  · have hlook : runBeforeLookup zeros=runBeforeLookup 7 := by
      funext len v
      rw [runBeforeLookup,if_neg h7,runBeforeLookup,if_neg (by decide)]
    rw [if_neg h7,hlook,runBeforeCode_of_le (by omega),
      ← shortestFrom_eq_symbol (prefixFree_runBeforeCode 7) realizes_longRun bits]
    refine shortestFrom_congr 11 bits fun len _ hle hbits => ?_
    by_cases hlt : value (bits.take len)<32
    · exact Or.inl (by rw [if_pos hlt,Nat.mod_eq_of_lt (show _ < 2^5 from hlt)])
    · obtain ⟨m,hm,hmlt,i,hword⟩ := longRun_earlier hle hbits (by omega)
      have hmlen : (bits.take m).length=m := length_take_of_le (by omega)
      obtain ⟨hval,hfound⟩ := longRun_found hword (ne_nil_of_length_pos (by omega))
      rw [hmlen] at hfound
      refine Or.inr ⟨m,hm,hmlt,?_,?_⟩
      · rw [Nat.mod_eq_of_lt (show _ < 2^5 from hval),hfound]
        exact Option.some_ne_none i
      · rw [if_pos hval,hfound]
        exact Option.some_ne_none i

end Misterplex.Cavlc.Engine
