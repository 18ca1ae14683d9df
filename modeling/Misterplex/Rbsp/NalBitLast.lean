import Misterplex.Rbsp.BitFeeder

/-!
# nal_bit_last

The last flag of a byte that stays travels with it through the queue. The flag
of a skipped byte waits in pending_nal_last until a window runs out over an
empty queue. Its pulse meets the last bit of the unit as long as such a bit is
still to be taken, no older mark is held and no byte of the next unit enters
before that bit.
-/

namespace Misterplex.BitFeeder

open Trace Emulation CountingStrip BitString

variable (stripEpb : Bool)

/-- Byte taken from the producer in a cycle, with its last flag. -/
def fed (s : FeederState) (i : FeederInput) : List (Byte × Bool) :=
  if (i.inValid && inReady s) = true then [(i.inByte,i.inLast)] else []

/-- The bit taken in a cycle and the nal_bit_last pulse that goes up with its edge. -/
def shown (s : FeederState) (i : FeederInput) : List Mark :=
  taken s i ++ if (step stripEpb s i).nalBitLast then [Mark.last] else []

/-- RBSP bits of the units, with one mark behind those of each unit. -/
def unitMarks : Transducer StripState (Byte × Bool) Mark where
  next t c := (bitStrip stripEpb).next t c.1
  emit t c :=
    ((bitStrip stripEpb).emit t c.1).map Mark.bit ++ if c.2 then [Mark.last] else []

/-- What is shown is the beginning of what is due, and the mark of a unit whose last bit is
out has been shown too. -/
def InTime (due seen : List Mark) : Prop :=
  seen <+: due ∧ (due.drop seen.length).head?≠some Mark.last

instance (due seen : List Mark) : Decidable (InTime due seen) :=
  inferInstanceAs (Decidable (_ ∧ _))

/-- Bits and marks that the bytes fed from reset on call for. -/
def dueMarks (inputs : List FeederInput) : List Mark :=
  (unitMarks stripEpb).run StripState.cleared (emitted (step stripEpb) fed cleared inputs)

/-- Bits and marks shown from reset on. -/
def shownMarks (inputs : List FeederInput) : List Mark :=
  emitted (step stripEpb) (shown stripEpb) cleared inputs

/-- At every moment of a run each unit with all its bits out has had one pulse, directly
behind its last bit. -/
def PulsesInTime (inputs : List FeederInput) : Prop :=
  ∀ before, before <+: inputs → InTime (dueMarks stripEpb before) (shownMarks stripEpb before)

/-- An end that is skipped finds a held bit that stays and no older mark; a byte enters
behind an open end only while the last held bit is taken. -/
def KeepsEnd (s : FeederState) (i : FeederInput) : Prop :=
  (skipEpb stripEpb s i=true → i.inLast=true → Mark.last ∉ body s ∧ taken s i≠body s) ∧
    (s.pendingNalLast=true → pushed stripEpb s i≠[] → taken s i=body s)

instance (s : FeederState) (i : FeederInput) : Decidable (KeepsEnd stripEpb s i) :=
  inferInstanceAs (Decidable (_ ∧ _))

/-- An open end stands behind held bits of its own unit only, right after a skipped byte. -/
structure Sound (s : FeederState) : Prop where
  wf : s.queue.Wf
  /-- The last held bit is the last of its unit. -/
  open_end : s.pendingNalLast=true →
    Mark.last ∉ body s ∧ body s≠[] ∧ s.strip.inhibitSkip=true

/-- The held marks and the open end behind them. -/
def held (s : FeederState) : List Mark :=
  body s ++ if s.pendingNalLast then [Mark.last] else []

theorem marksOf_ne_nil (c : Byte × Bool) : ∃ b rest, marksOf c=Mark.bit b::rest := by
  exact ⟨_,_,rfl⟩

theorem queueMarks_eq_nil_iff (s : FeederState) :
    s.queue.contents.flatMap marksOf=[] ↔ s.queue.isEmpty=true := by
  rw [← RingFifo.contents_eq_nil_iff]
  cases s.queue.contents with
  | nil => exact ⟨fun _ => rfl,fun _ => rfl⟩
  | cons c cells =>
    obtain ⟨b,rest,hc⟩ := marksOf_ne_nil c
    simp [hc]

theorem windowMarks_ne_nil {s : FeederState} (hcur : s.haveCur=true) : windowMarks s≠[] := by
  rw [windowMarks_take hcur]
  exact List.cons_ne_nil _ _

/-- Held marks begin with a bit. -/
theorem head_body (s : FeederState) : (body s).head?≠some Mark.last := by
  cases hcur : s.haveCur with
  | true =>
    rw [body,windowMarks_take hcur]
    simp
  | false =>
    rw [body,windowMarks,if_neg (by simp [hcur]),List.nil_append]
    cases s.queue.contents with
    | nil => simp
    | cons c cells =>
      obtain ⟨b,rest,hc⟩ := marksOf_ne_nil c
      simp [hc]

/-- The mark of the window's byte is held until its last bit is taken. -/
theorem last_mem_body {s : FeederState} {i : FeederInput}
    (h : (finishes s i && s.curLast)=true) : Mark.last∈body s := by
  obtain ⟨hfin,hlast⟩ := Bool.and_eq_true_iff.mp h
  have hcur : s.haveCur=true :=
    (Bool.and_eq_true_iff.mp (Bool.and_eq_true_iff.mp hfin).1).1
  rw [body,windowMarks,if_pos hcur,if_pos hlast]
  simp

/-- Without a held mark the last held bit is taken when the window runs out over an empty
queue. -/
theorem taken_eq_body_iff {s : FeederState} {i : FeederInput} (hne : body s≠[])
    (hmark : Mark.last ∉ body s) :
    taken s i=body s ↔ (finishes s i && s.queue.isEmpty)=true := by
  cases htake : takeBit s i with
  | false =>
    have hnone : taken s i=[] := by rw [taken,delivered,if_neg (by simp [htake])]; rfl
    rw [hnone,finishes,htake]
    exact ⟨fun h => absurd h.symm hne,fun h => absurd h Bool.false_ne_true⟩
  | true =>
    have hcur : s.haveCur=true := (Bool.and_eq_true_iff.mp htake).1
    have hone : taken s i=[Mark.bit (bitValue s)] := by
      rw [taken,delivered,if_pos htake]
      rfl
    rw [hone,body,windowMarks_take hcur,finishes,htake,Bool.true_and,Bool.and_eq_true,
      ← queueMarks_eq_nil_iff s]
    by_cases h7 : s.bitIdx=7#3
    · have hlast : s.curLast=false := by
        refine Bool.eq_false_iff.mpr fun hl => hmark (last_mem_body (i := i) ?_)
        rw [finishes,htake,h7,hl]
        rfl
      rw [if_pos h7,h7,hlast]
      constructor
      · intro h
        exact ⟨rfl,(List.cons.inj h).2.symm⟩
      · intro h
        rw [h.2]
        rfl
    · have hmore := windowMarks_ne_nil (s := { s with bitIdx := s.bitIdx+1 }) hcur
      rw [if_neg h7]
      constructor
      · intro h
        exact absurd (List.append_eq_nil_iff.mp (List.cons.inj h).2.symm).1 hmore
      · intro h
        exact absurd (beq_iff_eq.mp h.1) h7

/-- A fed byte asks for its bits and mark when it stays, for its mark alone when not. -/
theorem run_fed (s : FeederState) (i : FeederInput) :
    (unitMarks stripEpb).run s.strip (fed s i) =
      (pushed stripEpb s i).flatMap marksOf ++
        if skipEpb stripEpb s i && i.inLast then [Mark.last] else [] := by
  by_cases ha : (i.inValid && inReady s)=true
  · obtain ⟨h1,h2⟩ := Bool.and_eq_true_iff.mp ha
    have hskip : skipEpb stripEpb s i=(stripEpb && s.strip.skipEpb i.inByte) := by
      simp [skipEpb,h1,h2]
    rw [fed,if_pos ha,Transducer.run_cons,Transducer.run_nil,List.append_nil,pushed,ha,hskip]
    cases hk : (stripEpb && s.strip.skipEpb i.inByte) with
    | false => simp [unitMarks,emit_push hk,marksOf]
    | true => simp [unitMarks,emit_skip hk]
  · have hskip : skipEpb stripEpb s i=false := skipEpb_of_not_fed stripEpb ha
    rw [fed,if_neg ha,pushed,hskip,if_neg (by simp [ha])]
    rfl

theorem fed_map (s : FeederState) (i : FeederInput) : (fed s i).map Prod.fst=accepted s i := by
  unfold fed accepted
  split_ifs <;> rfl

theorem skipped {s : FeederState} {i : FeederInput} (h : skipEpb stripEpb s i=true) :
    pushed stripEpb s i=[] ∧
      ((bitStrip stripEpb).after s.strip (accepted s i)).inhibitSkip=true := by
  have hpush : pushed stripEpb s i=[] := by rw [pushed,h,if_neg (by simp)]
  by_cases ha : (i.inValid && inReady s)=true
  · obtain ⟨h1,h2⟩ := Bool.and_eq_true_iff.mp ha
    have hboth : (stripEpb && s.strip.skipEpb i.inByte)=true := by
      simpa [skipEpb,h1,h2] using h
    obtain ⟨hon,hsk⟩ := Bool.and_eq_true_iff.mp hboth
    rw [accepted,if_pos ha,Transducer.after_cons,Transducer.after_nil]
    exact ⟨hpush,by simp [bitStrip,hon,StripState.next,hsk]⟩
  · exact absurd h (by rw [skipEpb_of_not_fed stripEpb ha]; exact Bool.false_ne_true)

theorem not_skipped {s : FeederState} (h : s.strip.inhibitSkip=true) (i : FeederInput) :
    skipEpb stripEpb s i=false := by
  simp [skipEpb,StripState.skipEpb,h]

theorem accepted_eq_nil {s : FeederState} {i : FeederInput} (hskip : skipEpb stripEpb s i=false)
    (hpush : pushed stripEpb s i=[]) : accepted s i=[] := by
  by_cases ha : (i.inValid && inReady s)=true
  · rw [pushed,ha,hskip] at hpush
    exact absurd hpush (List.cons_ne_nil _ _)
  · rw [accepted,if_neg ha]

/-- A cycle without an open end: every pulse is that of the window's byte, and a skipped end
leaves an open one. -/
theorem step_held_closed {s : FeederState} {i : FeederInput} (hq : Quiet i) (hs : Sound s)
    (hk : KeepsEnd stripEpb s i) (hp : s.pendingNalLast=false) :
    Sound (step stripEpb s i) ∧
      shown stripEpb s i ++ held (step stripEpb s i) =
        held s ++ (unitMarks stripEpb).run s.strip (fed s i) := by
  obtain ⟨hwf,hstrip,hbody⟩ := step_body stripEpb s hq hs.wf
  obtain ⟨hpulse,hpend⟩ := step_pulse stripEpb s hq
  rw [hp,Bool.false_and,Bool.or_false] at hpulse
  rw [hp,Bool.or_false] at hpend
  rw [run_fed,shown,held,held,hp,List.append_assoc,hpulse]
  cases hend : (skipEpb stripEpb s i && i.inLast) with
  | false =>
    rw [hend,Bool.and_false] at hpend
    refine ⟨⟨hwf,fun h => absurd (hpend.symm.trans h) Bool.false_ne_true⟩,?_⟩
    rw [hpend]
    simpa using hbody
  | true =>
    obtain ⟨hsk,hl⟩ := Bool.and_eq_true_iff.mp hend
    obtain ⟨hmark,hleft⟩ := hk.1 hsk hl
    obtain ⟨hpush,hinh⟩ := skipped stripEpb hsk
    have hown : (finishes s i && s.curLast)=false :=
      Bool.eq_false_iff.mpr fun h => hmark (last_mem_body h)
    rw [hpulse,hown,hend] at hpend
    rw [hown,hpush] at hbody
    have hsplit : taken s i ++ body (step stripEpb s i) = body s := by simpa using hbody
    refine ⟨⟨hwf,fun _ => ⟨fun h => hmark ?_,fun h => hleft ?_,hstrip ▸ hinh⟩⟩,?_⟩
    · rw [← hsplit]
      exact List.mem_append_right _ h
    · rw [h,List.append_nil] at hsplit
      exact hsplit
    · rw [hpend,hown,hpush,← hsplit]
      simp

/-- A cycle with an open end: the pulse comes with the last held bit, and until then the end
stays open. -/
theorem step_held_open {s : FeederState} {i : FeederInput} (hq : Quiet i) (hs : Sound s)
    (hk : KeepsEnd stripEpb s i) (hp : s.pendingNalLast=true) :
    Sound (step stripEpb s i) ∧
      shown stripEpb s i ++ held (step stripEpb s i) =
        held s ++ (unitMarks stripEpb).run s.strip (fed s i) := by
  obtain ⟨hwf,hstrip,hbody⟩ := step_body stripEpb s hq hs.wf
  obtain ⟨hpulse,hpend⟩ := step_pulse stripEpb s hq
  obtain ⟨hmark,hne,hinh⟩ := hs.open_end hp
  have hskip := not_skipped stripEpb hinh i
  have hown : (finishes s i && s.curLast)=false :=
    Bool.eq_false_iff.mpr fun h => hmark (last_mem_body h)
  have hall := taken_eq_body_iff (i := i) hne hmark
  rw [hp,Bool.true_and,Bool.and_or_distrib_left,hown,Bool.false_or] at hpulse
  rw [hp,Bool.or_true,Bool.and_true] at hpend
  rw [hown] at hbody
  rw [run_fed,shown,held,held,hp,hskip]
  by_cases hlast : taken s i=body s
  · rw [hall.mp hlast] at hpulse
    rw [hpulse] at hpend
    refine ⟨⟨hwf,fun h => absurd (hpend.symm.trans h) Bool.false_ne_true⟩,?_⟩
    have hnext : body (step stripEpb s i)=(pushed stripEpb s i).flatMap marksOf := by
      rw [hlast] at hbody
      simpa using hbody
    rw [hpulse,hpend,hlast,hnext]
    simp
  · rw [Bool.eq_false_iff.mpr fun h => hlast (hall.mpr h)] at hpulse
    rw [hpulse] at hpend
    have hpush : pushed stripEpb s i=[] := by
      by_contra h
      exact hlast (hk.2 hp h)
    have hsplit : taken s i ++ body (step stripEpb s i) = body s := by
      rw [hpush] at hbody
      simpa using hbody
    rw [accepted_eq_nil stripEpb hskip hpush,Transducer.after_nil] at hstrip
    refine ⟨⟨hwf,fun _ => ⟨fun h => hmark ?_,fun h => hlast ?_,hstrip ▸ hinh⟩⟩,?_⟩
    · rw [← hsplit]
      exact List.mem_append_right _ h
    · rw [h,List.append_nil] at hsplit
      exact hsplit
    · rw [hpulse,hpend,hpush,← hsplit]
      simp

/-- Along a run that keeps the ends, what was shown and is held is what is due. -/
theorem held_run {s : FeederState} {inputs : List FeederInput} (hq : ∀ i∈inputs, Quiet i)
    (hs : Sound s) (hk : Along (step stripEpb) (KeepsEnd stripEpb) s inputs) :
    Sound (finalState (step stripEpb) s inputs) ∧
      emitted (step stripEpb) (shown stripEpb) s inputs ++
          held (finalState (step stripEpb) s inputs) =
        held s ++ (unitMarks stripEpb).run s.strip (emitted (step stripEpb) fed s inputs) := by
  induction inputs generalizing s with
  | nil => exact ⟨hs,(List.append_nil _).symm⟩
  | cons i inputs ih =>
    have hi := hq i List.mem_cons_self
    have hone : Sound (step stripEpb s i) ∧
        shown stripEpb s i ++ held (step stripEpb s i) =
          held s ++ (unitMarks stripEpb).run s.strip (fed s i) := by
      cases hp : s.pendingNalLast with
      | false => exact step_held_closed stripEpb hi hs hk.1 hp
      | true => exact step_held_open stripEpb hi hs hk.1 hp
    obtain ⟨hnext,hrest⟩ := ih (fun j hj => hq j (List.mem_cons_of_mem i hj)) hone.1 hk.2
    have hstrip : (step stripEpb s i).strip=(unitMarks stripEpb).after s.strip (fed s i) := by
      rw [(step_body stripEpb s hi hs.wf).2.1,← fed_map s i]
      exact List.foldl_map
    refine ⟨hnext,?_⟩
    rw [emitted_cons,finalState_cons,List.append_assoc,hrest,← List.append_assoc,hone.2,
      List.append_assoc,emitted_cons,Transducer.run_append,hstrip]

/-- Held marks with an open end begin with a bit. -/
theorem head_held {s : FeederState} (hs : Sound s) : (held s).head?≠some Mark.last := by
  have hbody := head_body s
  cases hp : s.pendingNalLast with
  | false => simpa [held,hp] using hbody
  | true =>
    cases hb : body s with
    | nil => exact absurd hb (hs.open_end hp).2.1
    | cons m rest =>
      simpa [held,hb] using hbody

/-- Without stripping no end is ever open. -/
theorem keepsEnd_of_plain (inputs : List FeederInput) (hq : ∀ i∈inputs, Quiet i) :
    Along (step false) (KeepsEnd false) cleared inputs := by
  have hquiet : Along (step false) (fun _ i => Quiet i) cleared inputs :=
    along_of_forall hq cleared
  refine hquiet.imp (fun s => s.pendingNalLast=false) (fun s i hp hi => ?_)
    (fun s i hp _ => ?_) rfl
  · rw [(step_pulse false s hi).2,hp,skipEpb,Bool.false_and,Bool.false_and,Bool.false_and,
      Bool.false_and,Bool.or_false,Bool.and_false]
  · refine ⟨fun h => absurd h (by simp [skipEpb]),fun h => ?_⟩
    exact absurd (hp.symm.trans h) Bool.false_ne_true

/-- A unit 80 00 00 03 whose last byte arrives after the bits of the others are taken. -/
def drainedInputs : List FeederInput :=
  straightInputs [0x80#8,0#8,0#8] ++ [{ offer 3#8 with inLast := true }]

/-- With STRIP_EPB off every run, and with it on every run in which each skipped end finds a
bit of its unit that stays to be taken, no older mark, and no byte behind it before the last
held bit is taken, has its pulses in time. -/
theorem nal_bit_last_in_time (inputs : List FeederInput) (hq : ∀ i∈inputs, Quiet i)
    (hk : stripEpb=true → Along (step stripEpb) (KeepsEnd stripEpb) cleared inputs) :
    PulsesInTime stripEpb inputs := by
  intro before hbefore
  obtain ⟨after,rfl⟩ := hbefore
  have hkeep : Along (step stripEpb) (KeepsEnd stripEpb) cleared (before ++ after) := by
    cases stripEpb with
    | false => exact keepsEnd_of_plain _ hq
    | true => exact hk rfl
  have hstart : Sound cleared := ⟨wf_cleared,fun h => absurd h Bool.false_ne_true⟩
  obtain ⟨hsound,hrun⟩ := held_run stripEpb (fun i hi => hq i (List.mem_append_left after hi))
    hstart hkeep.split.1
  have hdue : shownMarks stripEpb before ++ held (finalState (step stripEpb) cleared before) =
      dueMarks stripEpb before := by
    exact hrun
  rw [InTime,← hdue,List.drop_left]
  exact ⟨List.prefix_append _ _,head_held hsound⟩

/-- A unit 80 00 00 03 that is fed without a pause and drained afterwards. -/
def promptInputs : List FeederInput :=
  [offer 0x80#8,offer 0#8,offer 0#8,{ offer 3#8 with inLast := true }] ++
    List.replicate 28 idle

/-- The prompt inputs mark the last bit in time. -/
theorem promptInputs_in_time : PulsesInTime true promptInputs :=
  nal_bit_last_in_time true promptInputs (by decide) fun _ => by decide

/-- The pulse of the drained unit does not come. -/
theorem drained_not_in_time :
    ¬∀ (stripEpb : Bool) (inputs : List FeederInput), (∀ i∈inputs, Quiet i) →
      PulsesInTime stripEpb inputs := by
  intro h
  have hlate := h true drainedInputs (by decide) drainedInputs (List.prefix_refl _)
  exact absurd hlate (by decide)

end Misterplex.BitFeeder
