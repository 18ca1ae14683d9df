import Misterplex.Header.SpsCompare

/-!
# Runs of sps_parser

From the end of a capture the parser comes back to its idle state. It then
shows what the syntax of the captured bytes says, or, when the syntax is not
there, what it showed before.

Payloads are delivered one after another: the capture is cleared, the bytes without
emulation prevention come in, with gaps, the capture ends, and the parser is left alone
until it is idle.
-/

namespace Misterplex.Header

open BitString BitGrammar Cavlc Emulation ParserText

variable {d : List Byte} {bits : List Bool} {p : SpsParser}

/-- The way from the end of a capture to the idle state. -/
def spsCourse (shown : SpsRegs) : Course spsText SpsRegs where
  Keeps := Shows shown
  End := SpsEnd shown
  tick := fun _ => rfl
  fails := fun hst hshows => Leads.next_eq (step_own hst rfl) (Leads.here ⟨rfl,hshows⟩)

variable (shown : SpsRegs)

theorem leads_show (hst : p.walk.st = .own .finish) (bits : List Bool) :
    Leads spsText.step p (SpsEnd shown (some (p.regs,bits))) :=
  Leads.next_eq (step_own hst rfl) (Leads.here ⟨rfl,rfl⟩)

theorem follows_cb : FollowsUe (spsCourse shown) .cb afterCb := fun _ _ bits hst _ _ =>
  Leads.next_eq (step_own hst rfl) (leads_show shown rfl bits)

theorem follows_ct : FollowsUe (spsCourse shown) .ct afterCt := by
  have hfollows := FollowsUe.ue (s := .ct) (fun (r : SpsRegs) v => { r with ct := v })
    (follows_cb shown) (fun _ => rfl) fun _ _ h => ⟨h.1,h.2⟩
  exact hfollows

theorem follows_cr : FollowsUe (spsCourse shown) .cr afterCr := by
  have hfollows := FollowsUe.ue (s := .cr) (fun (r : SpsRegs) v => { r with cr := v })
    (follows_ct shown) (fun _ => rfl) fun _ _ h => ⟨h.1,h.2⟩
  exact hfollows

theorem follows_cl : FollowsUe (spsCourse shown) .cl afterCl := by
  have hfollows := FollowsUe.ue (s := .cl) (fun (r : SpsRegs) v => { r with cl := v })
    (follows_cr shown) (fun _ => rfl) fun _ _ h => ⟨h.1,h.2⟩
  exact hfollows

theorem follows_crop : FollowsField (spsCourse shown) 1 .crop afterCrop := by
  intro p d bits hst hkeeps hlt hat
  have hmod : p.walk.acc%2=p.walk.acc := Nat.mod_eq_of_lt hlt
  refine Leads.next_eq (step_own hst rfl) ?_
  rw [afterCrop]
  by_cases hflag : p.walk.acc≠0
  · rw [if_pos hflag]
    refine (follows_cl shown).start (p := p) (r := { p.regs with cropFlag := p.walk.acc }) ?_ hkeeps hat
    show spsOwn .crop p=_
    rw [spsOwn,hmod,if_pos hflag]
  · rw [if_neg hflag]
    have hown : spsText.own .crop p =
        { walk := { p.walk with st := .own .finish }, regs := { p.regs with cropFlag := p.walk.acc } } := by
      show spsOwn .crop p=_
      rw [spsOwn,hmod,if_neg hflag]
    rw [hown]
    exact leads_show shown rfl bits

theorem follows_d8 : FollowsField (spsCourse shown) 1 .d8 afterD8 := by
  have hfollows := FollowsField.field (n := 1) (s := .d8) (fun (r : SpsRegs) _ => r)
    (follows_crop shown) (by omega) (by omega) (fun _ => rfl) fun _ _ h => ⟨h.1,h.2⟩
  exact hfollows

theorem follows_mbaff : FollowsField (spsCourse shown) 1 .mbaff afterMbaff := by
  have hfollows := FollowsField.field (n := 1) (s := .mbaff) (fun (r : SpsRegs) _ => r)
    (follows_d8 shown) (by omega) (by omega) (fun _ => rfl) fun _ _ h => ⟨h.1,h.2⟩
  exact hfollows

theorem follows_fmo : FollowsField (spsCourse shown) 1 .fmo afterFmo := by
  intro p d bits hst hkeeps hlt hat
  have hmod : p.walk.acc%2=p.walk.acc := Nat.mod_eq_of_lt hlt
  refine Leads.next_eq (step_own hst rfl) ?_
  rw [afterFmo]
  by_cases hframe : p.walk.acc=0
  · rw [if_pos hframe]
    refine (follows_mbaff shown).start (p := p) (r := { p.regs with frameMbsOnly := p.walk.acc })
      (by omega) (by omega) ?_ hkeeps hat
    show spsOwn .fmo p=_
    rw [spsOwn,hmod,if_pos hframe]
  · rw [if_neg hframe]
    refine (follows_d8 shown).start (p := p) (r := { p.regs with frameMbsOnly := p.walk.acc })
      (by omega) (by omega) ?_ hkeeps hat
    show spsOwn .fmo p=_
    rw [spsOwn,hmod,if_neg hframe]

theorem follows_h : FollowsUe (spsCourse shown) .h afterH := by
  have hfollows := FollowsUe.field (s := .h) (fun (r : SpsRegs) v => { r with hMap := (v+1)%65536 })
    (follows_fmo shown) (by omega) (by omega) (fun _ => rfl) fun _ _ h => ⟨h.1,h.2⟩
  exact hfollows

theorem follows_w : FollowsUe (spsCourse shown) .w afterW := by
  have hfollows := FollowsUe.ue (s := .w) (fun (r : SpsRegs) v => { r with wMbs := (v+1)%65536 })
    (follows_h shown) (fun _ => rfl) fun _ _ h => ⟨h.1,h.2⟩
  exact hfollows

theorem follows_gaps : FollowsField (spsCourse shown) 1 .gaps afterGaps := by
  have hfollows := FollowsField.ue (n := 1) (s := .gaps) (fun (r : SpsRegs) _ => r)
    (follows_w shown) (fun _ => rfl) fun _ _ h => ⟨h.1,h.2⟩
  exact hfollows

theorem follows_refs : FollowsUe (spsCourse shown) .refs afterRefs := by
  have hfollows := FollowsUe.field (s := .refs) (fun (r : SpsRegs) _ => r)
    (follows_gaps shown) (by omega) (by omega) (fun _ => rfl) fun _ _ h => ⟨h.1,h.2⟩
  exact hfollows

theorem follows_poc0 : FollowsUe (spsCourse shown) .poc0 afterPoc0 := by
  have hfollows := FollowsUe.ue (s := .poc0) (fun (r : SpsRegs) _ => r)
    (follows_refs shown) (fun _ => rfl) fun _ _ h => ⟨h.1,h.2⟩
  exact hfollows

theorem follows_poc : FollowsUe (spsCourse shown) .poc afterPoc := by
  intro p d bits hst hkeeps hat
  refine Leads.next_eq (step_own hst rfl) ?_
  rw [afterPoc]
  by_cases hzero : p.walk.ueVal=0
  · rw [if_pos hzero]
    refine (follows_poc0 shown).start (p := p) (r := { p.regs with pocT := p.walk.ueVal%8 }) ?_
      hkeeps hat
    show spsOwn .poc p=_
    rw [spsOwn,if_pos hzero]
  · rw [if_neg hzero]
    by_cases hone : p.walk.ueVal=1
    · rw [if_pos hone]
      have hown : spsText.own .poc p =
          { walk := { p.walk with st := .own .fail },
            regs := { p.regs with pocT := p.walk.ueVal%8 } } := by
        show spsOwn .poc p=_
        rw [spsOwn,if_neg hzero,if_pos hone]
      rw [hown]
      exact (spsCourse shown).fails rfl hkeeps
    · rw [if_neg hone]
      refine (follows_refs shown).start (p := p) (r := { p.regs with pocT := p.walk.ueVal%8 }) ?_
        hkeeps hat
      show spsOwn .poc p=_
      rw [spsOwn,if_neg hzero,if_neg hone]

theorem follows_log2 : FollowsUe (spsCourse shown) .log2 afterLog2 := by
  have hfollows := FollowsUe.ue (s := .log2) (fun (r : SpsRegs) v => { r with log2Fn := (v%32+4)%32 })
    (follows_poc shown) (fun _ => rfl) fun _ _ h => ⟨h.1,h.2⟩
  exact hfollows

theorem follows_spsId : FollowsUe (spsCourse shown) .spsId afterSpsId := by
  intro p d bits hst hkeeps hat
  refine Leads.next_eq (step_own hst rfl) ?_
  rw [afterSpsId]
  by_cases hrefused : p.regs.prof∈refusedProfiles
  · rw [if_pos hrefused]
    have hown : spsText.own .spsId p = { p with walk := { p.walk with st := .own .fail } } := by
      show spsOwn .spsId p=_
      rw [spsOwn,if_pos hrefused]
    rw [hown]
    exact (spsCourse shown).fails rfl hkeeps
  · rw [if_neg hrefused]
    refine (follows_log2 shown).start (p := p) (r := p.regs) ?_ hkeeps hat
    show spsOwn .spsId p=_
    rw [spsOwn,if_neg hrefused]

theorem follows_level : FollowsField (spsCourse shown) 8 .level afterLevel := by
  have hfollows := FollowsField.ue (n := 8) (s := .level) (fun (r : SpsRegs) v => { r with levelIdc := v%256 })
    (follows_spsId shown) (fun _ => rfl) fun _ _ h => ⟨h.1,h.2⟩
  exact hfollows

theorem follows_cons : FollowsField (spsCourse shown) 8 .cons afterCons := by
  have hfollows := FollowsField.field (n := 8) (s := .cons) (fun (r : SpsRegs) _ => r)
    (follows_level shown) (by omega) (by omega) (fun _ => rfl) fun _ _ h => ⟨h.1,h.2⟩
  exact hfollows

theorem follows_prof : FollowsField (spsCourse shown) 8 .prof afterProf := by
  have hfollows := FollowsField.field (n := 8) (s := .prof)
    (fun (r : SpsRegs) v => { r with prof := v%256, profileIdc := v%256 }) (follows_cons shown)
    (by omega) (by omega) (fun _ => rfl) fun _ _ h => ⟨h.1,h.2⟩
  exact hfollows

/-- From its start the parser comes to the end of the syntax of what was captured. -/
theorem leads_walkSps (p : SpsParser) :
    Leads spsText.step (SpsParser.start p)
      (SpsEnd p.regs (walkSps p.regs (bitsOf p.walk.mem))) := by
  have hat : Walk.At p.walk.mem (bitsOf p.walk.mem) { p.walk with bbyte := 0, bpos := 7 } :=
    ⟨rfl,le_refl 7,by dsimp only; rw [length_bitsOf]; omega,rfl⟩
  exact (follows_prof p.regs).start (p := { p with walk := { p.walk with bbyte := 0, bpos := 7 } })
    (by omega) (by omega) rfl ⟨rfl,rfl,rfl⟩ hat

/-- Nothing on the wires. -/
def CapPort.quiet : CapPort := ⟨false,false,0#8,false⟩

/-- The capture is cleared. -/
def CapPort.begin : CapPort := ⟨true,false,0#8,false⟩

/-- The capture ends. -/
def CapPort.close : CapPort := ⟨false,false,0#8,true⟩

/-- Cycles of a capture bring given bytes. -/
structure Brings (is : List CapPort) (bytes : List Byte) : Prop where
  /-- The capture is neither cleared nor ended. -/
  running : ∀ i∈is, i.clear=false ∧ i.last=false
  bytes : (is.filter (·.en)).map (·.data)=bytes

/-- A payload is given to the parser, which comes back to its idle state. -/
def Delivers (p : SpsParser) (payload : List Byte) (q : SpsParser) : Prop :=
  ∃ is n, Brings is (removeEpb payload) ∧ q.walk.st = .own .idle ∧
    q=(SpsParser.step · CapPort.quiet)^[n]
      ((Trace.finalState SpsParser.step (p.step CapPort.begin) is).step CapPort.close)

variable {p : SpsParser}

/-- While bytes are captured the parser waits and shows the last set. -/
theorem step_idle {i : CapPort} (hst : p.walk.st = .own .idle) (hlast : i.last=false) :
    (p.step i).walk.st = .own .idle ∧ Shows p.regs (p.step i).regs ∧
      (p.step i).walk.mem=capture p.walk.mem i := by
  have hwalk : p.walkStep i=spsOwn .idle p := by
    rw [SpsParser.walkStep,if_neg (by rw [hlast]; exact fun h => Bool.noConfusion h.2.1)]
    exact step_own hst rfl
  rw [SpsParser.step,hwalk]
  exact ⟨hst,⟨rfl,rfl,rfl⟩,rfl⟩

/-- The first cycle of a capture captures its byte, and the others bring the rest. -/
theorem Brings.captureUpTo_cons {size : ℕ} {i : CapPort} {is : List CapPort} {bytes mem : List Byte}
    (h : Brings (i::is) bytes) (hlen : mem.length ≤ size) :
    Brings is ((is.filter (·.en)).map (·.data)) ∧ (captureUpTo size mem i).length ≤ size ∧
      (captureUpTo size mem i ++ (is.filter (·.en)).map (·.data)).take size=(mem ++ bytes).take size := by
  obtain ⟨hclear,-⟩ := h.running i (List.mem_cons_self ..)
  have hbytes := h.bytes
  refine ⟨⟨fun j hj => h.running j (List.mem_cons_of_mem i hj),rfl⟩,?_,?_⟩
  · rw [captureUpTo,if_neg (by rw [hclear]; exact Bool.false_ne_true)]
    split
    · rename_i hroom
      rw [Bool.and_eq_true,decide_eq_true_eq] at hroom
      rw [List.length_append,List.length_singleton]
      omega
    · exact hlen
  · rw [captureUpTo,if_neg (by rw [hclear]; exact Bool.false_ne_true),← hbytes]
    cases hen : i.en with
    | false =>
      rw [List.filter_cons_of_neg (by rw [hen]; exact Bool.false_ne_true),Bool.false_and,
        if_neg Bool.false_ne_true]
    | true =>
      rw [List.filter_cons_of_pos hen,List.map_cons,Bool.true_and]
      by_cases hroom : mem.length<size
      · rw [if_pos (decide_eq_true hroom),List.append_assoc,List.singleton_append]
      · have hfull : mem.length=size := by omega
        rw [if_neg (by rw [decide_eq_true_eq]; exact hroom),List.take_append_of_le_length
          (le_of_eq hfull.symm),List.take_append_of_le_length (le_of_eq hfull.symm)]

theorem Brings.capture_cons {i : CapPort} {is : List CapPort} {bytes mem : List Byte}
    (h : Brings (i::is) bytes) (hlen : mem.length ≤ maxB) :
    Brings is ((is.filter (·.en)).map (·.data)) ∧ (capture mem i).length ≤ maxB ∧
      (capture mem i ++ (is.filter (·.en)).map (·.data)).take maxB=(mem ++ bytes).take maxB :=
  h.captureUpTo_cons hlen

theorem brings_bytes (bytes : List Byte) :
    Brings (bytes.map fun b => ⟨false,true,b,false⟩) bytes := by
  constructor
  · intro i hi
    obtain ⟨b,-,rfl⟩ := List.mem_map.mp hi
    exact ⟨rfl,rfl⟩
  · induction bytes with
    | nil => rfl
    | cons b bytes ih =>
      rw [List.map_cons,List.filter_cons_of_pos rfl,List.map_cons,ih]

/-- A run of captured bytes fills the buffer. -/
theorem run_capture {is : List CapPort} {bytes : List Byte} (h : Brings is bytes)
    (hst : p.walk.st = .own .idle) (hlen : p.walk.mem.length ≤ maxB) :
    let q := Trace.finalState SpsParser.step p is
    q.walk.st = .own .idle ∧ Shows p.regs q.regs ∧
      q.walk.mem=(p.walk.mem ++ bytes).take maxB := by
  induction is generalizing p bytes with
  | nil =>
    have hnone : bytes=[] := h.bytes.symm
    rw [hnone,List.append_nil,List.take_of_length_le hlen]
    exact ⟨hst,⟨rfl,rfl,rfl⟩,rfl⟩
  | cons i is ih =>
    obtain ⟨-,hlast⟩ := h.running i (List.mem_cons_self ..)
    obtain ⟨hst',hshows,hmem⟩ := step_idle hst hlast
    obtain ⟨hrest,hshort,hbytes⟩ := h.capture_cons hlen
    obtain ⟨hidle,hshown,hcaptured⟩ := ih hrest hst' hshort
    exact ⟨hidle,hshown.trans hshows,hcaptured.trans hbytes⟩

theorem mem_spsOwn (s : SpsSt) (p : SpsParser) : (spsOwn s p).walk.mem=p.walk.mem := by
  cases s with
  | crop =>
    rw [spsOwn]
    split <;> rfl
  | fmo =>
    rw [spsOwn]
    split <;> rfl
  | spsId =>
    rw [spsOwn]
    split <;> rfl
  | poc =>
    rw [spsOwn]
    split
    · rfl
    · split <;> rfl
  | _ => rfl

theorem mem_spsStep (p : SpsParser) : (spsText.step p).walk.mem=p.walk.mem := by
  rw [ParserText.step]
  split
  · exact mem_spsOwn _ _
  · exact Walk.mem_step _ _ _

theorem step_quiet (p : SpsParser) : p.step CapPort.quiet=spsText.step p := by
  have hwalk : p.walkStep CapPort.quiet=spsText.step p := by
    rw [SpsParser.walkStep,if_neg]
    rintro ⟨-,hlast,-⟩
    cases hlast
  rw [SpsParser.step,hwalk]
  show { spsText.step p with walk := { (spsText.step p).walk with mem := p.walk.mem } } = _
  rw [← mem_spsStep p]

theorem quiet_idle (hst : p.walk.st = .own .idle) (n : ℕ) :
    (spsText.step^[n] p).walk.st = .own .idle ∧ Shows p.regs (spsText.step^[n] p).regs := by
  induction n generalizing p with
  | zero => exact ⟨hst,rfl,rfl,rfl⟩
  | succ n ih =>
    have hstep : spsText.step p=spsOwn .idle p := step_own hst rfl
    obtain ⟨hidle,hshows⟩ := ih (p := spsText.step p) (by rw [hstep]; exact hst)
    refine ⟨hidle,hshows.trans ?_⟩
    rw [hstep]
    exact ⟨rfl,rfl,rfl⟩

theorem shows_of_idle {n m : ℕ} (hn : (spsText.step^[n] p).walk.st = .own .idle)
    (hm : (spsText.step^[m] p).walk.st = .own .idle) :
    Shows (spsText.step^[n] p).regs (spsText.step^[m] p).regs := by
  rcases Nat.le_total n m with hle | hle
  · obtain ⟨k,rfl⟩ := Nat.exists_eq_add_of_le' hle
    rw [Function.iterate_add_apply]
    exact (quiet_idle hn k).2
  · obtain ⟨k,rfl⟩ := Nat.exists_eq_add_of_le' hle
    rw [Function.iterate_add_apply]
    exact (quiet_idle hm k).2.symm

end Misterplex.Header
