import Misterplex.Nal.StreamPump

/-!
# What the stream pump hands on and tries

Every unit is handed to the dispatcher, and the parameter sets that are kept are the
last ones among the units so far. So however the stream is cut, the dispatcher gets
the units of the stream, as the framer delivers them, and a slice is tried behind the
last parameter sets in front of it.
-/

namespace Misterplex.AnnexB

open Emulation List

/-- Nothing fails in the dispatcher. -/
structure Surroundings.Healthy (w : Surroundings) : Prop where
  /-- The units are wanted. -/
  wanted : w.wantF3=true
  /-- The session begins. -/
  begins : w.begins=true
  /-- Every control is accepted. -/
  controls : ∀ n, w.controls n=true
  /-- Every unit is accepted. -/
  pushes : ∀ n, w.pushes n=true

/-- The last unit of a type; empty if there is none. -/
def lastOfType (ntype : ℕ) (units : List (List Byte)) : List Byte :=
  ((units.filter fun nal => typeAt nal == ntype).getLast?).getD []

theorem lastOfType_append (ntype : ℕ) (units : List (List Byte)) (nal : List Byte) :
    lastOfType ntype (units ++ [nal]) =
      if typeAt nal = ntype then nal else lastOfType ntype units := by
  rw [lastOfType,filter_append]
  by_cases htype : typeAt nal=ntype
  · have hkept : [nal].filter (fun nal => typeAt nal == ntype)=[nal] := by simp [htype]
    rw [if_pos htype,hkept,getLast?_concat,Option.getD_some]
  · have hdropped : [nal].filter (fun nal => typeAt nal == ntype)=[] := by simp [htype]
    rw [if_neg htype,hdropped,append_nil,lastOfType]

/-- A slice is one of the units, and it is tried behind the last parameter sets in front
of it. -/
structure Try.Placed (t : Try) (units : List (List Byte)) : Prop where
  /-- It tries the unit of its number. -/
  nal : units[t.number]?=some t.nal
  /-- The sequence parameter set is the last one. -/
  sps : t.sps=lastOfType 7 (units.take t.number)
  /-- It has a sequence parameter set. -/
  sps_some : t.sps≠[]
  /-- The picture parameter set is the last one. -/
  pps : t.pps=lastOfType 8 (units.take t.number)
  /-- It has a picture parameter set. -/
  pps_some : t.pps≠[]

theorem Try.Placed.append {t : Try} {units : List (List Byte)} (h : t.Placed units)
    (more : List (List Byte)) : t.Placed (units ++ more) := by
  obtain ⟨hlt,_⟩ := List.getElem?_eq_some_iff.mp h.nal
  have htake : (units ++ more).take t.number=units.take t.number :=
    take_append_of_le_length (by omega)
  refine ⟨?_,?_,h.sps_some,?_,h.pps_some⟩
  · rw [List.getElem?_append_left hlt]
    exact h.nal
  · rw [htake]
    exact h.sps
  · rw [htake]
    exact h.pps

namespace Pump

variable {w : Surroundings} {p : Pump}

/-- The pump with the units it has handled so far. -/
structure Handled (p : Pump) (units : List (List Byte)) : Prop where
  /-- The session is open. -/
  active : p.f3Active=true
  /-- Nothing was fatal. -/
  sane : p.f3Fatal=false
  /-- Exactly the units were handed on. -/
  handed : p.handed=units
  /-- Exactly the units were seen. -/
  seen : p.seen=units.length
  /-- The sequence parameter set that is kept is the last one. -/
  sps : p.spsNal=lastOfType 7 units
  /-- The picture parameter set that is kept is the last one. -/
  pps : p.ppsNal=lastOfType 8 units
  /-- The slices tried are those behind their parameter sets. -/
  tried : ∀ t∈p.tried, t.Placed units

theorem applyPpsEntropy_eq (p : Pump) (nal : List Byte) :
    ∃ skip, p.applyPpsEntropy nal = { p with cabacSkip := skip } := by
  rw [applyPpsEntropy]
  dsimp only
  split
  · exact ⟨p.cabacSkip,rfl⟩
  · split
    · exact ⟨p.cabacSkip,rfl⟩
    · split
      · exact ⟨p.cabacSkip,rfl⟩
      · exact ⟨_,rfl⟩

theorem tryReconNal_eq (w : Surroundings) (p : Pump) (nal : List Byte) (ntype : ℕ) :
    p.tryReconNal w nal ntype=p ∨
      p.spsNal≠[] ∧ p.ppsNal≠[] ∧
        ∃ skip, p.tryReconNal w nal ntype =
          { p with tried := p.tried ++ [⟨p.seen,p.spsNal,p.ppsNal,nal⟩], cabacSkip := skip } := by
  rw [tryReconNal]
  split
  · exact Or.inl rfl
  · rename_i hsets
    split
    · exact Or.inl rfl
    · split
      · exact Or.inl rfl
      · split
        · exact Or.inl rfl
        · exact Or.inr ⟨fun h => hsets (Or.inl h),fun h => hsets (Or.inr h),_,rfl⟩

variable {units : List (List Byte)}

theorem pushF3Nal_eq (hw : w.Healthy) (h : p.Handled units)
    (nal : List Byte) : p.pushF3Nal w nal = { p with handed := units ++ [nal] } := by
  have hgo : ¬(!p.f3Active || p.f3Fatal || !w.wantF3)=true := by
    rw [h.active,h.sane,hw.wanted]
    decide
  rw [pushF3Nal,if_neg hgo,hw.pushes,h.handed]
  have hsane := h.sane
  cases p
  cases hsane
  rfl

theorem Handled.placed (h : p.Handled units) (nal : List Byte)
    (hsps : p.spsNal≠[]) (hpps : p.ppsNal≠[]) :
    (⟨p.seen,p.spsNal,p.ppsNal,nal⟩ : Try).Placed (units ++ [nal]) := by
  have htake : (units ++ [nal]).take units.length=units := take_left
  refine ⟨?_,?_,hsps,?_,hpps⟩
  · rw [h.seen,List.getElem?_concat_length]
  · rw [h.seen,htake]
    exact h.sps
  · rw [h.seen,htake]
    exact h.pps

theorem Handled.handleNal (hw : w.Healthy) (h : p.Handled units)
    (nal : List Byte) : (handleNal w p nal).Handled (units ++ [nal]) := by
  have hlength : p.seen+1=(units ++ [nal]).length := by
    rw [h.seen,length_append,length_singleton]
  have htried : ∀ t∈p.tried, t.Placed (units ++ [nal]) := fun t ht => (h.tried t ht).append [nal]
  have hsps := lastOfType_append 7 units nal
  have hpps := lastOfType_append 8 units nal
  rw [Pump.handleNal,pushF3Nal_eq hw h]
  by_cases h7 : typeAt nal=7
  · rw [if_pos h7] at hsps ⊢
    rw [if_neg (by omega)] at hpps
    exact ⟨h.active,h.sane,rfl,hlength,hsps.symm,h.pps.trans hpps.symm,htried⟩
  · rw [if_neg h7] at hsps ⊢
    by_cases h8 : typeAt nal=8
    · rw [if_pos h8] at hpps ⊢
      obtain ⟨skip,hskip⟩ := applyPpsEntropy_eq
        { p with handed := units ++ [nal], ppsNal := nal } nal
      rw [hskip]
      exact ⟨h.active,h.sane,rfl,hlength,h.sps.trans hsps.symm,hpps.symm,htried⟩
    · rw [if_neg h8] at hpps ⊢
      have hkept : ∀ tried skip, (∀ t∈tried, Try.Placed t (units ++ [nal])) →
          Handled { p with
            handed := units ++ [nal], tried := tried, cabacSkip := skip, seen := p.seen+1 }
            (units ++ [nal]) := fun tried skip hplaced =>
        ⟨h.active,h.sane,rfl,hlength,h.sps.trans hsps.symm,h.pps.trans hpps.symm,hplaced⟩
      by_cases hslice : (typeAt nal=5 ∨ typeAt nal=1) ∧ (!w.pausedAtNal p.seen) = true
      · rw [if_pos hslice]
        rcases tryReconNal_eq w { p with handed := units ++ [nal] } nal (typeAt nal) with
          hout | ⟨hs,hp,skip,hin⟩
        · rw [hout]
          exact hkept p.tried p.cabacSkip htried
        · rw [hin]
          refine hkept _ skip fun t ht => ?_
          rcases mem_append.mp ht with ht | ht
          · exact htried t ht
          · rw [mem_singleton.mp ht]
            exact h.placed nal hs hp
      · rw [if_neg hslice]
        exact hkept p.tried p.cabacSkip htried

/-- A list of units is handled one after the other. -/
theorem Handled.foldl (hw : w.Healthy) (h : p.Handled units)
    (nals : List (List Byte)) : (nals.foldl (Pump.handleNal w) p).Handled (units ++ nals) := by
  induction nals generalizing p units with
  | nil =>
    rw [append_nil]
    exact h
  | cons nal nals ih =>
    have hrest := ih (h.handleNal hw nal)
    rw [append_assoc] at hrest
    exact hrest

theorem handleNal_acc (w : Surroundings) (p : Pump) (nal : List Byte) :
    (handleNal w p nal).acc=p.acc := by
  have hpush : (p.pushF3Nal w nal).acc=p.acc := by
    rw [pushF3Nal]
    split <;> rfl
  rw [handleNal]
  split
  · exact hpush
  · split
    · obtain ⟨skip,hskip⟩ := applyPpsEntropy_eq { p.pushF3Nal w nal with ppsNal := nal } nal
      rw [hskip]
      exact hpush
    · split
      · rcases tryReconNal_eq w (p.pushF3Nal w nal) nal (typeAt nal) with hout | ⟨_,_,skip,hin⟩
        · rw [hout]
          exact hpush
        · rw [hin]
          exact hpush
      · exact hpush

theorem foldl_acc (w : Surroundings) (p : Pump) (nals : List (List Byte)) :
    (nals.foldl (handleNal w) p).acc=p.acc := by
  induction nals generalizing p with
  | nil => rfl
  | cons nal nals ih => rw [foldl_cons,ih,handleNal_acc]

/-- The pump between two reads: what is left waits for more. -/
structure Ready (p : Pump) (units : List (List Byte)) : Prop where
  /-- The units so far are handled. -/
  handled : p.Handled units
  /-- The parsing goes on within what is accumulated. -/
  inside : p.parseFrom≤p.acc.length
  /-- No unit is complete in what is left. -/
  waiting : Waiting p.left

/-- The complete units of the accumulator are handed on. -/
theorem Handled.consume (hw : w.Healthy) (h : p.Handled units) (hin : p.parseFrom≤p.acc.length) :
    (consumeCompleteNals w p).Ready (units ++ p.complete) ∧
      ∀ tail, nalUnits (p.left ++ tail) =
        p.complete ++ nalUnits ((consumeCompleteNals w p).left ++ tail) := by
  have hall := h.foldl hw p.complete
  have hacc : (consumeCompleteNals w p).acc=p.acc := foldl_acc w p p.complete
  have hparse : (consumeCompleteNals w p).parseFrom=p.stopsAt := rfl
  have hleft : (consumeCompleteNals w p).left=p.acc.drop p.stopsAt := by
    rw [left,hacc,hparse]
  refine ⟨⟨?_,?_,?_⟩,fun tail => ?_⟩
  · exact { hall with }
  · rw [hacc,hparse]
    exact stopsAt_le p hin
  · rw [hleft]
    exact stopsAt_waiting p
  · rw [hleft]
    exact units_complete p hin tail

theorem Ready.compact (h : p.Ready units) (hcap : p.left.length≤kMaxAcc) :
    p.compactAcc.Ready units ∧ p.compactAcc.left=p.left := by
  rw [compactAcc]
  by_cases hstart : p.parseFrom=0
  · rw [if_pos hstart]
    exact ⟨h,rfl⟩
  · have hsmall : ¬kMaxAcc<(p.acc.drop p.parseFrom).length := Nat.not_lt.mpr hcap
    have hall := h.handled
    rw [if_neg hstart]
    rw [if_neg hsmall]
    exact ⟨⟨{ hall with },
      Nat.zero_le _,h.waiting⟩,rfl⟩

theorem syncF3Pause_eq (hw : w.Healthy) (p : Pump) :
    ∃ paused, p.syncF3Pause w = { p with f3Paused := paused } := by
  rw [syncF3Pause,hw.controls,if_pos rfl,if_pos rfl]
  split
  · exact ⟨p.f3Paused,rfl⟩
  · split
    · exact ⟨true,rfl⟩
    · split
      · exact ⟨false,rfl⟩
      · exact ⟨p.f3Paused,rfl⟩

theorem Ready.sync (hw : w.Healthy) (h : p.Ready units) :
    (p.syncF3Pause w).Ready units ∧ (p.syncF3Pause w).left=p.left := by
  obtain ⟨paused,hpaused⟩ := syncF3Pause_eq hw p
  have hall := h.handled
  rw [hpaused]
  exact ⟨⟨{ hall with },
    h.inside,h.waiting⟩,rfl⟩

/-- What waits after a read is not more than the accumulator may hold. -/
def Within (w : Surroundings) (p : Pump) : List (List Byte) → Prop
  | [] => True
  | data::chunks =>
    (consumeCompleteNals w
        { p.syncF3Pause w with
          acc := (p.syncF3Pause w).acc ++ data,
          reads := (p.syncF3Pause w).reads+1 }).left.length≤kMaxAcc ∧
      (p.read w data).Within w chunks

/-- A read hands on the units it completes and leaves the rest of the stream as it was cut. -/
theorem Ready.read (hw : w.Healthy) (h : p.Ready units)
    {data : List Byte} {chunks : List (List Byte)} (hcap : p.Within w (data::chunks)) :
    ∃ nals, (p.read w data).Ready (units ++ nals) ∧
      ∀ tail, nalUnits (p.left ++ (data ++ tail)) =
        nals ++ nalUnits ((p.read w data).left ++ tail) := by
  obtain ⟨hsync,hleft⟩ := h.sync hw
  have hcapped := hcap.1
  rw [Pump.read]
  generalize hq : { p.syncF3Pause w with
    acc := (p.syncF3Pause w).acc ++ data, reads := (p.syncF3Pause w).reads+1 } = q at hcapped ⊢
  have hall := hsync.handled
  have hhandled : q.Handled units := by
    rw [← hq]
    exact { hall with }
  have hinside : q.parseFrom≤q.acc.length := by
    have hin := hsync.inside
    rw [← hq,length_append]
    exact Nat.le_add_right_of_le hin
  have hqleft : q.left = p.left ++ data := by
    rw [← hleft,← hq]
    exact drop_append_of_le_length hsync.inside
  obtain ⟨hready,hunits⟩ := hhandled.consume hw hinside
  obtain ⟨hcompact,hkept⟩ := hready.compact hcapped
  refine ⟨q.complete,hcompact,fun tail => ?_⟩
  rw [hkept,← hunits tail,hqleft,append_assoc]

theorem Ready.lastNal (hw : w.Healthy) (h : p.Ready units) :
    (p.lastNal w).Handled (units ++ nalUnits p.left) ∧
      (p.lastNal w).parseFrom≤(p.lastNal w).acc.length ∧ nalUnits (p.lastNal w).left=[] := by
  have hunits := units_waiting h.waiting
  have hlength : p.left.length=p.acc.length-p.parseFrom := length_drop
  have hcode : annexBStartLen p.left 0=annexBStartLen p.acc p.parseFrom := by
    rw [left,annexBStartLen_drop,Nat.add_zero]
  have hnone : (¬(3<p.left.length ∧ annexBStartLen p.left 0<p.left.length)) →
      p.Handled (units ++ nalUnits p.left) ∧ p.parseFrom≤p.acc.length ∧ nalUnits p.left=[] := by
    intro hfew
    rw [hunits,if_neg hfew,append_nil]
    exact ⟨h.handled,h.inside,rfl⟩
  rw [Pump.lastNal]
  by_cases hlong : p.parseFrom+3<p.acc.length
  · rw [if_pos hlong,pumpStartLen_eq]
    by_cases hfull : annexBStartLen p.acc p.parseFrom≠0 ∧
        p.parseFrom+annexBStartLen p.acc p.parseFrom<p.acc.length
    · have hhandled := h.handled.handleNal hw p.left
      rw [if_pos hfull,hunits,if_pos ⟨by omega,by omega⟩]
      refine ⟨{ hhandled with },?_,?_⟩
      · rw [handleNal_acc]
      · have hempty : (p.acc.drop p.acc.length)=[] := drop_length
        rw [left]
        dsimp only
        rw [handleNal_acc,hempty]
        exact nalUnits_short (Nat.zero_le 3)
    · rw [if_neg hfull]
      refine hnone fun hboth => hfull ⟨?_,by omega⟩
      rcases h.waiting with hshort | hstart
      · omega
      · rw [← hcode]
        exact hstart.1
  · rw [if_neg hlong]
    exact hnone fun hboth => by omega

/-- The end of the stream hands on what is left. -/
theorem Ready.finish (hw : w.Healthy) (h : p.Ready units) :
    (p.finish w).Handled (units ++ nalUnits p.left) := by
  obtain ⟨hlast,hinside,hnone⟩ := h.lastNal hw
  obtain ⟨hready,hunits⟩ := hlast.consume hw hinside
  have hend := hunits []
  rw [append_nil,hnone] at hend
  have hcomplete : (p.lastNal w).complete=[] := (append_eq_nil_iff.mp hend.symm).1
  have hhandled := hready.handled
  rw [hcomplete,append_nil] at hhandled
  exact hhandled

/-- A healthy run hands on the units of everything it reads. -/
theorem Ready.run (hw : w.Healthy) (h : p.Ready units)
    {chunks : List (List Byte)} (hread : ∀ data∈chunks, data≠[]) (hcap : p.Within w chunks) :
    (p.run w chunks).Handled (units ++ nalUnits (p.left ++ chunks.flatten)) := by
  induction chunks generalizing p units with
  | nil =>
    obtain ⟨hsync,hleft⟩ := h.sync hw
    have hfinish := hsync.finish hw
    rw [hleft] at hfinish
    rw [flatten_nil,append_nil]
    exact hfinish
  | cons data chunks ih =>
    obtain ⟨nals,hready,hunits⟩ := h.read hw hcap
    have hrest := ih hready (fun data hdata => hread data (mem_cons_of_mem _ hdata)) hcap.2
    rw [append_assoc,← hunits chunks.flatten] at hrest
    rw [Pump.run,if_neg (hread data mem_cons_self),flatten_cons]
    exact hrest

theorem start_ready (hw : w.Healthy) (cabacSkip : Bool) : (start w cabacSkip).Ready [] := by
  have hactive : (start w cabacSkip).f3Active=true := by
    rw [start,hw.wanted,hw.begins]
    rfl
  have hsane : (start w cabacSkip).f3Fatal=false := by
    rw [start,hw.wanted,hw.begins]
    rfl
  exact ⟨⟨hactive,hsane,rfl,rfl,rfl,rfl,fun t ht => absurd ht not_mem_nil⟩,Nat.zero_le _,
    Or.inl (Nat.zero_le 3)⟩

/-- However a stream is cut into chunks, as long as nothing fails in the dispatcher and the
accumulator is not thrown away, the pump hands on the units of the stream in order, which
are those the framer delivers however the stream is cut for it, and every slice it tries is
one of them, behind the last parameter sets in front of it. -/
theorem run_units (hw : w.Healthy) (cabacSkip : Bool) (chunks : List (List Byte))
    (hread : ∀ data∈chunks, data≠[]) (hcap : (start w cabacSkip).Within w chunks) :
    ((start w cabacSkip).run w chunks).handed=nalUnits chunks.flatten ∧
    (∀ maxAccumBytes cut, cut.flatten=chunks.flatten →
      (AnnexBFramer.new maxAccumBytes).Within cut →
        ((start w cabacSkip).run w chunks).handed =
          (AnnexBFramer.new maxAccumBytes).nalsOf cut) ∧
    ∀ t∈((start w cabacSkip).run w chunks).tried, t.Placed (nalUnits chunks.flatten) := by
  have hrun := (start_ready hw cabacSkip).run hw hread hcap
  refine ⟨hrun.handed,fun maxAccumBytes cut hcut hwithin => ?_,hrun.tried⟩
  have hframer := AnnexBFramer.nalsOf_units (f := AnnexBFramer.new maxAccumBytes) (Nat.le_refl 0)
    hwithin
  rw [hrun.handed,hframer,hcut]
  rfl

/-- Surroundings in which the decoder takes all and nothing is paused. -/
def undisturbed : Surroundings where
  wantF3 := true
  begins := true
  pausedAtRead _ := false
  controls _ := true
  pushes _ := true
  pausedAtNal _ := false
  failsAtCabac _ := false

/-- Two parameter sets and a slice, cut inside their start codes. -/
def cutStream : List (List Byte) :=
  [[0#8,0#8],[0#8,1#8,0x67#8,0x42#8,0#8,0#8],[1#8,0x68#8,0xce#8,0#8,0#8,1#8,0x65#8],
    [0x88#8]]

/-- A stream cut inside its start codes is handed on whole. -/
theorem run_units_cut :
    ((start undisturbed false).run undisturbed cutStream).handed =
      [[0#8,0#8,0#8,1#8,0x67#8,0x42#8],[0#8,0#8,1#8,0x68#8,0xce#8],
        [0#8,0#8,1#8,0x65#8,0x88#8]] := by
  have hrun := run_units (w := undisturbed) ⟨rfl,rfl,fun _ => rfl,fun _ => rfl⟩ false
    cutStream (by decide)
    ⟨by decide,by decide,by decide,by decide,trivial⟩
  exact hrun.1.trans (by decide)

/-- The slice at its end is tried behind both parameter sets. -/
example :
    ((start undisturbed false).run undisturbed cutStream).tried =
      [⟨2,[0#8,0#8,0#8,1#8,0x67#8,0x42#8],[0#8,0#8,1#8,0x68#8,0xce#8],
        [0#8,0#8,1#8,0x65#8,0x88#8]⟩] := by
  decide

end Pump

end Misterplex.AnnexB
