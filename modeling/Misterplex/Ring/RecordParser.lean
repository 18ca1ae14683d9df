import Misterplex.Ring.ReaderStep
import Misterplex.Ring.Records

/-!
# The record parser

Where in a stream of records the parser is, and what one more byte of the stream
does: it moves the parser on, keeps its session in line with the session rules and
presents a byte just if the rules deliver it.
-/

namespace Misterplex.Ring

open Emulation BitVec List

/-- A header holds the fields of a record. -/
structure HeaderOf (hdr : BitVec 5 → Byte) (c : Record) : Prop where
  /-- The mark. -/
  magic : hdr32 hdr 0=magicRec
  /-- The event. -/
  code : hdr 4=c.event.code
  /-- The session. -/
  session : hdr64 hdr 8=c.session
  /-- The sequence number. -/
  seq : hdr32 hdr 16=c.seq
  /-- The payload's length. -/
  length : hdr32 hdr 20=BitVec.ofNat 32 c.payload.length
  /-- The reserved word. -/
  zero : hdr32 hdr 24=0#32

theorem hdr32_of_bytes {hdr : BitVec 5 → Byte} {base : BitVec 5} (v : BitVec 32)
    (h0 : hdr base=v.extractLsb' 0 8) (h1 : hdr (base+1)=v.extractLsb' 8 8)
    (h2 : hdr (base+2)=v.extractLsb' 16 8) (h3 : hdr (base+3)=v.extractLsb' 24 8) :
    hdr32 hdr base=v := by
  unfold hdr32
  rw [h0,h1,h2,h3]
  apply eq_of_getLsbD_eq
  intro k hk
  simp only [getLsbD_append,getLsbD_extractLsb']
  split_ifs
  all_goals
    rw [decide_eq_true (by omega),Bool.true_and]
    exact congrArg v.getLsbD (by omega)

theorem hdr64_of_bytes {hdr : BitVec 5 → Byte} {base : BitVec 5} (v : BitVec 64)
    (h0 : hdr base=v.extractLsb' 0 8) (h1 : hdr (base+1)=v.extractLsb' 8 8)
    (h2 : hdr (base+2)=v.extractLsb' 16 8) (h3 : hdr (base+3)=v.extractLsb' 24 8)
    (h4 : hdr (base+4)=v.extractLsb' 32 8) (h5 : hdr (base+5)=v.extractLsb' 40 8)
    (h6 : hdr (base+6)=v.extractLsb' 48 8) (h7 : hdr (base+7)=v.extractLsb' 56 8) :
    hdr64 hdr base=v := by
  unfold hdr64
  rw [h0,h1,h2,h3,h4,h5,h6,h7]
  apply eq_of_getLsbD_eq
  intro k hk
  simp only [getLsbD_append,getLsbD_extractLsb']
  split_ifs
  all_goals
    rw [decide_eq_true (by omega),Bool.true_and]
    exact congrArg v.getLsbD (by omega)

theorem headerOf_bytes {hdr : BitVec 5 → Byte} {c : Record}
    (h : ∀ j, j<32 → hdr (BitVec.ofNat 5 j)=c.header.getD j 0#8) : HeaderOf hdr c where
  magic := hdr32_of_bytes magicRec (h 0 (by omega)) (h 1 (by omega)) (h 2 (by omega)) (h 3 (by omega))
  code := h 4 (by omega)
  session := hdr64_of_bytes c.session (h 8 (by omega)) (h 9 (by omega)) (h 10 (by omega))
    (h 11 (by omega)) (h 12 (by omega)) (h 13 (by omega)) (h 14 (by omega)) (h 15 (by omega))
  seq := hdr32_of_bytes c.seq (h 16 (by omega)) (h 17 (by omega)) (h 18 (by omega)) (h 19 (by omega))
  length := hdr32_of_bytes (BitVec.ofNat 32 c.payload.length) (h 20 (by omega)) (h 21 (by omega))
    (h 22 (by omega)) (h 23 (by omega))
  zero := hdr32_of_bytes 0#32 (h 24 (by omega)) (h 25 (by omega)) (h 26 (by omega)) (h 27 (by omega))

/-- A record whose length fits its header is known from its bytes, whatever follows them. -/
theorem record_of_bytes {c d : Record} (hc : c.payload.length<2^32)
    (hd : d.payload.length<2^32) {s t : List Byte} (h : c.encode ++ s = d.encode ++ t) :
    c=d ∧ s=t := by
  rw [Record.encode,Record.encode,List.append_assoc,List.append_assoc] at h
  obtain ⟨hheader,hrest⟩ := append_inj h (by rw [length_header,length_header])
  have hof : ∀ e : Record, e.header=c.header →
      HeaderOf (fun i => c.header.getD i.toNat 0#8) e := fun e he =>
    headerOf_bytes fun j hj => by rw [he,toNat_ofNat,Nat.mod_eq_of_lt hj]
  have hown := hof c rfl
  have hother := hof d hheader.symm
  have hevent : c.event.code=d.event.code := hown.code.symm.trans hother.code
  have hlen := congrArg BitVec.toNat (hown.length.symm.trans hother.length)
  rw [toNat_ofNat,toNat_ofNat,Nat.mod_eq_of_lt hc,Nat.mod_eq_of_lt hd] at hlen
  have hbyte : ∀ k, c.header.getD k 0#8=d.header.getD k 0#8 := fun k => by rw [hheader]
  obtain ⟨hpayload,hnext⟩ := append_inj hrest hlen
  have hkind : c.event=d.event := by
    revert hevent
    cases c.event <;> cases d.event <;> decide
  have htype : c.nalType=d.nalType := hbyte 5
  have hreserved : c.reserved=d.reserved := Prod.ext (hbyte 6) (hbyte 7)
  have hsession := hown.session.symm.trans hother.session
  have hseq := hown.seq.symm.trans hother.seq
  exact ⟨Record.mk.injEq .. ▸ ⟨hkind,htype,hreserved,hsession,hseq,hpayload⟩,hnext⟩

/-- A stream of records that begins with the bytes of some records begins with those records. -/
theorem records_prefix (cs ds : List Record) (tail : List Byte)
    (hfit : ∀ c ∈ cs ++ ds, c.payload.length<2^32)
    (h : encodeAll ds = encodeAll cs ++ tail) : ∃ rest, ds = cs ++ rest ∧ tail=encodeAll rest := by
  induction cs generalizing ds with
  | nil => exact ⟨ds,rfl,h.symm⟩
  | cons c cs ih =>
    rw [List.cons_append,forall_mem_cons] at hfit
    rw [encodeAll,encodeAll,flatMap_cons,List.append_assoc] at h
    cases ds with
    | nil =>
      have hlen := congrArg List.length h
      rw [length_append,length_encode] at hlen
      exact absurd hlen (by rw [flatMap_nil,length_nil]; omega)
    | cons d ds =>
      obtain ⟨rfl,hnext⟩ := record_of_bytes (hfit.2 d (by simp)) hfit.1 h
      obtain ⟨rest,hds,htail⟩ := ih ds (fun e he => hfit.2 e (by simp at he ⊢; tauto)) hnext
      exact ⟨rest,by rw [hds,List.cons_append],htail⟩

/-- A session of one unit. -/
def oneUnit : List Record :=
  [{ event := .begin, session := 7#64 },{ event := .nal, session := 7#64, payload := [0x65#8] }]

/-- The session of one unit begins with its begin record. -/
theorem records_prefix_begin : ∃ rest, oneUnit = oneUnit.take 1 ++ rest ∧
    encodeAll (oneUnit.drop 1)=encodeAll rest :=
  records_prefix (oneUnit.take 1) oneUnit _ (by decide) rfl

/-- The session registers as the session rules see them. -/
def Session.toState (s : Session) : SessionState := ⟨s.active,s.paused,s.currentSession,s.expectedSeq⟩

/-- The parser after a complete header. -/
def Parser.afterHeader (p : Parser) (s : SessionState) (c : Record) : Parser :=
  if c.payload = [] then p
  else { p with payloadLeft := BitVec.ofNat 32 c.payload.length,
                mode := if s.accepts c then .payload else .drop }

variable {hdr : BitVec 5 → Byte} {c : Record} {old n : Reader}

open Session

theorem wrongNal_eq (h : HeaderOf hdr c) (hevent : c.event = .nal) :
    wrongNal old hdr = !old.session.toState.accepts c := by
  unfold wrongNal SessionState.accepts toState
  rw [h.session,h.seq,hevent]
  cases old.session.active with
  | false => simp
  | true =>
    cases old.session.paused with
    | false =>
      simp [Bool.decide_and]
      rfl
    | true => simp

theorem wrongControl_eq (h : HeaderOf hdr c) (hempty : c.payload=[]) :
    wrongControl old hdr = !old.session.toState.owns c := by
  unfold wrongControl SessionState.owns toState
  rw [h.session,h.length,hempty]
  cases old.session.active with
  | false => simp
  | true =>
    simp
    rfl

/-- A payload is entered unless it is empty. -/
theorem enterPayload_spec (h : HeaderOf hdr c) (hlen : c.payload.length<2^31) (mode : Mode) :
    (enterPayload hdr mode n).parser=(if c.payload = [] then n.parser
      else { n.parser with payloadLeft := BitVec.ofNat 32 c.payload.length, mode := mode }) ∧
    (enterPayload hdr mode n).session=n.session ∧ (enterPayload hdr mode n).telem=n.telem := by
  have hzero : hdr32 hdr 20≠0#32 ↔ c.payload≠[] := by
    rw [h.length,← List.length_pos_iff,Ne,← toNat_inj,BitVec.toNat_ofNat,
      BitVec.toNat_ofNat]
    omega
  unfold enterPayload
  by_cases hempty : c.payload=[]
  · rw [if_neg (fun hc => hzero.mp hc hempty),if_pos hempty]
    exact ⟨rfl,rfl,rfl⟩
  · rw [if_pos (hzero.mpr hempty),if_neg hempty,h.length]
    exact ⟨rfl,rfl,rfl⟩

/-- A control record moves the session that owns it, and no other. -/
theorem control_spec (h : HeaderOf hdr c) (hempty : c.payload=[]) {m : Reader}
    (hsession : n.session=old.session) (move : Session → Session)
    (hmoved : m.session=move n.session) (hparser : m.parser=n.parser) (htelem : m.telem=n.telem) :
    let r := if wrongControl old hdr then markDesync old (hdr32 hdr 16) n else m
    r.session.toState =
        (if old.session.toState.owns c then (move old.session).toState
          else old.session.toState) ∧
      r.telem.fatalSticky=n.telem.fatalSticky ∧ r.parser=n.parser := by
  rw [wrongControl_eq h hempty]
  cases old.session.toState.owns c with
  | true => exact ⟨congrArg toState (hmoved.trans (congrArg move hsession)),by
      rw [Bool.not_true,if_neg Bool.false_ne_true,htelem],hparser⟩
  | false => exact ⟨congrArg toState hsession,rfl,rfl⟩

open RecordEvent

/-- A complete header moves the session as its record does. -/
theorem record_spec (h : HeaderOf hdr c) (hform : c.WellFormed)
    (hbegin : c.event = .begin → old.session.active=false)
    (hlen : c.payload.length<2^31) (hsession : n.session=old.session) :
    (record old hdr n).session.toState=old.session.toState.after c ∧
    (record old hdr n).telem.fatalSticky=n.telem.fatalSticky ∧
    (record old hdr n).parser=n.parser.afterHeader old.session.toState c := by
  have hvalid : ¬(hdr32 hdr 0≠magicRec ∨ hdr32 hdr 24≠0#32) := by
    rintro (hmagic | hzero)
    · exact hmagic h.magic
    · exact hzero h.zero
  have hcode := h.code
  unfold record
  rw [if_neg hvalid]
  cases hevent : c.event with
  | nal =>
    rw [hevent] at hcode
    rw [if_neg (by rw [hcode]; decide),if_pos (by rw [hcode]; rfl),wrongNal_eq h hevent]
    unfold SessionState.after Parser.afterHeader
    rw [hevent]
    cases haccepts : old.session.toState.accepts c with
    | true =>
      rw [Bool.not_true,if_neg Bool.false_ne_true]
      obtain ⟨hparser,hses,htel⟩ := enterPayload_spec (n := { n with session := { n.session with
        consumerSeq := hdr32 hdr 16, expectedSeq := hdr32 hdr 16+1 } }) h hlen .payload
      rw [hparser,hses,htel,hsession,h.seq]
      have hseq : c.seq=old.session.toState.nextSeq := (of_decide_eq_true haccepts).2.2.2.2
      rw [hseq]
      exact ⟨rfl,rfl,rfl⟩
    | false =>
      rw [Bool.not_false,if_pos rfl]
      obtain ⟨hparser,hses,htel⟩ := enterPayload_spec (n := markDesync old (hdr32 hdr 16) n)
        h hlen .drop
      rw [hparser,hses,htel]
      exact ⟨congrArg toState hsession,rfl,rfl⟩
  | begin =>
    have hempty := hform (by rw [hevent]; exact noConfusion)
    have hinactive := hbegin hevent
    have hfits : ¬(old.session.active=true ∨ hdr32 hdr 20≠0#32) := by
      rw [h.length,hempty,hinactive]
      decide
    have hcode : hdr 4=eventBegin := hcode.trans (by rw [hevent]; rfl)
    rw [if_pos hcode,if_neg hfits]
    unfold SessionState.after Parser.afterHeader
    rw [hevent,if_pos hempty,h.session]
    exact ⟨(if_neg (by rw [toState,hinactive]; exact Bool.false_ne_true)).symm,rfl,rfl⟩
  | flush =>
    have hempty := hform (by rw [hevent]; exact noConfusion)
    have hcode : hdr 4=eventFlush := hcode.trans (by rw [hevent]; rfl)
    rw [hcode,if_neg (by decide),if_neg (by decide),if_pos rfl]
    unfold SessionState.after Parser.afterHeader
    rw [hevent,if_pos hempty]
    obtain ⟨hafter,hrest⟩ := control_spec (m := flushOut { n with
      session := { n.session with seenPayload := false } }) h hempty hsession
      (fun s => { s with seenPayload := false }) rfl rfl rfl
    exact ⟨hafter.trans (ite_self _),hrest⟩
  | «end» =>
    have hempty := hform (by rw [hevent]; exact noConfusion)
    have hcode : hdr 4=eventEnd := hcode.trans (by rw [hevent]; rfl)
    rw [hcode,if_neg (by decide),if_neg (by decide),if_neg (by decide),if_pos rfl]
    unfold SessionState.after Parser.afterHeader
    rw [hevent,if_pos hempty]
    exact control_spec h hempty hsession (fun s => { s with active := false, paused := false }) rfl rfl rfl
  | pause =>
    have hempty := hform (by rw [hevent]; exact noConfusion)
    have hcode : hdr 4=eventPause := hcode.trans (by rw [hevent]; rfl)
    rw [hcode,if_neg (by decide),if_neg (by decide),if_neg (by decide),if_neg (by decide),
      if_pos rfl]
    unfold SessionState.after Parser.afterHeader
    rw [hevent,if_pos hempty]
    exact control_spec h hempty hsession (fun s => { s with paused := true }) rfl rfl rfl
  | resume =>
    have hempty := hform (by rw [hevent]; exact noConfusion)
    have hcode : hdr 4=eventResume := hcode.trans (by rw [hevent]; rfl)
    rw [hcode,if_neg (by decide),if_neg (by decide),if_neg (by decide),if_neg (by decide),
      if_neg (by decide),if_pos rfl]
    unfold SessionState.after Parser.afterHeader
    rw [hevent,if_pos hempty]
    exact control_spec h hempty hsession (fun s => { s with paused := false }) rfl rfl rfl

/-- Where the parser is when a number of bytes of a stream of records is consumed. -/
inductive Position (s₀ : SessionState) (cs : List Record) : ℕ → Parser → Session → Prop
  | header {done tail : List Record} {k : ℕ} {p : Parser} {s : Session} :
      cs = done ++ tail → k<32 → p.mode = .header → p.hdrIdx.toNat=k →
      (∀ j, j<k → p.hdr (BitVec.ofNat 5 j)=(encodeAll tail).getD j 0#8) →
      s.toState=s₀.afterAll done → Position s₀ cs ((encodeAll done).length+k) p s
  | payload {done tail : List Record} {c : Record} {k : ℕ} {p : Parser} {s : Session} :
      cs = done ++ c::tail → k<c.payload.length →
      p.mode=(if (s₀.afterAll done).accepts c then .payload else .drop) →
      p.payloadLeft.toNat=c.payload.length-k → s.toState=(s₀.afterAll done).after c →
      Position s₀ cs ((encodeAll done).length+(32+k)) p s

section Position

variable {s₀ : SessionState} {cs done tail : List Record} {c : Record} {k : ℕ}

theorem encodeAll_append (cs ds : List Record) :
    encodeAll (cs ++ ds) = encodeAll cs ++ encodeAll ds := flatMap_append

theorem getD_encodeAll_append (done tail : List Record) (k : ℕ) :
    (encodeAll (done ++ tail)).getD ((encodeAll done).length+k) 0#8 =
      (encodeAll tail).getD k 0#8 := by
  rw [encodeAll_append,List.getD_eq_getElem?_getD,List.getElem?_append_right (Nat.le_add_right _ _),
    Nat.add_sub_cancel_left,List.getD_eq_getElem?_getD]

theorem getD_encodeAll_header (c : Record) (tail : List Record) (h : k<32) :
    (encodeAll (c::tail)).getD k 0#8=c.header.getD k 0#8 := by
  rw [encodeAll,List.flatMap_cons,Record.encode,List.append_assoc,List.getD_eq_getElem?_getD,
    List.getElem?_append_left (by rw [length_header]; exact h),List.getD_eq_getElem?_getD]

theorem getD_encodeAll_payload (c : Record) (tail : List Record) (h : k<c.payload.length) :
    (encodeAll (c::tail)).getD (32+k) 0#8=c.payload.getD k 0#8 := by
  rw [encodeAll,List.flatMap_cons,Record.encode,List.append_assoc,List.getD_eq_getElem?_getD,
    List.getElem?_append_right (by rw [length_header]; exact Nat.le_add_right _ _),length_header,
    Nat.add_sub_cancel_left,List.getElem?_append_left h,List.getD_eq_getElem?_getD]

theorem length_encodeAll_snoc (done : List Record) (c : Record) :
    (encodeAll (done ++ [c])).length=(encodeAll done).length+(32+c.payload.length) := by
  simp [encodeAll]

theorem afterAll_snoc (s₀ : SessionState) (done : List Record) (c : Record) :
    s₀.afterAll (done ++ [c])=(s₀.afterAll done).after c := by
  rw [SessionState.afterAll,SessionState.afterAll,foldl_append]
  rfl

theorem Position.restart {p : Parser} {s : Session} (hcs : cs = done ++ c::tail)
    (hmode : p.mode = .header) (hidx : p.hdrIdx=0#5)
    (hsession : s.toState=(s₀.afterAll done).after c) :
    Position s₀ cs ((encodeAll done).length+(32+c.payload.length)) p s := by
  have hpos : Position s₀ cs ((encodeAll (done ++ [c])).length+0) p s :=
    Position.header (by rw [hcs,List.append_assoc]; rfl) (by omega) hmode (by rw [hidx]; rfl)
      (fun j hj => absurd hj (Nat.not_lt_zero j)) (by rw [afterAll_snoc,hsession])
  rw [length_encodeAll_snoc,Nat.add_zero] at hpos
  exact hpos

theorem deliveredUpTo_inside (s₀ : SessionState) (done tail : List Record) (c : Record) {n : ℕ}
    (h : n≤32+c.payload.length) :
    deliveredUpTo s₀ (done ++ c::tail) ((encodeAll done).length+n) =
      deliveredAll s₀ done ++ (delivered (s₀.afterAll done) c).take (n-32) := by
  rw [deliveredUpTo_append,deliveredUpTo_within _ _ _ (by rw [length_encode]; exact h)]

end Position

/-- What one byte of the stream does to the parser, in registers that are not presenting
a byte. -/
structure ParseStep (s₀ : SessionState) (cs : List Record) (i : ℕ) (n m : Reader) : Prop where
  position : Position s₀ cs (i+1) m.parser m.session
  fatal : m.telem.fatalSticky=n.telem.fatalSticky
  presents : deliveredUpTo s₀ cs (i+1) = deliveredUpTo s₀ cs i ++ presented m
  /-- Only a presented byte is a last one. -/
  last : m.out.outLast=true → m.out.outValid=true

/-- So it is behind the records that are done. -/
theorem NoBeginInSession.behind {s₀ : SessionState} {done tail : List Record} {c : Record}
    (h : NoBeginInSession s₀ (done ++ c::tail)) :
    c.event = .begin → (s₀.afterAll done).active=false := by
  induction done generalizing s₀ with
  | nil => exact h.1
  | cons d done ih => exact ih h.2

section Parse

variable {s₀ : SessionState} {cs done tail : List Record} {c : Record} {k : ℕ}
variable {bitFeed : Bool} {old n : Reader} {rx : Byte}

theorem presented_of_invalid (h : n.out.outValid=false) : presented n=[] := by
  unfold presented
  rw [h,if_neg Bool.false_ne_true]

theorem deliveredUpTo_header (s₀ : SessionState) (done tail : List Record) (c : Record)
    (h : k<32) :
    deliveredUpTo s₀ (done ++ c::tail) ((encodeAll done).length+k+1) =
      deliveredUpTo s₀ (done ++ c::tail) ((encodeAll done).length+k) := by
  rw [Nat.add_assoc,deliveredUpTo_inside s₀ done tail c (by omega),
    deliveredUpTo_inside s₀ done tail c (by omega),Nat.sub_eq_zero_of_le (by omega),
    Nat.sub_eq_zero_of_le (by omega)]

/-- The next byte of a payload is what is delivered next, if the record is accepted. -/
theorem deliveredUpTo_payload (s₀ : SessionState) (done tail : List Record) (c : Record)
    (h : k<c.payload.length) :
    deliveredUpTo s₀ (done ++ c::tail) ((encodeAll done).length+(32+k)+1) =
      deliveredUpTo s₀ (done ++ c::tail) ((encodeAll done).length+(32+k)) ++
      if (s₀.afterAll done).accepts c then
        [(c.payload.getD k 0#8,decide (k+1=c.payload.length))]
      else [] := by
  rw [Nat.add_assoc,deliveredUpTo_inside s₀ done tail c (by omega),
    deliveredUpTo_inside s₀ done tail c (by omega),Nat.add_sub_cancel_left,Nat.add_assoc,
    Nat.add_sub_cancel_left,List.append_assoc]
  unfold delivered
  split_ifs with haccepts
  · rw [take_add_one,getElem_withLast h]
    rfl
  · rw [take_nil,take_nil]
    rfl

theorem ParseStep.headerByte (hcs : cs = done ++ c::tail) (hk : k<31)
    (hmode : old.parser.mode = .header) (hidx : old.parser.hdrIdx.toNat=k)
    (hbytes : ∀ j, j<k → old.parser.hdr (BitVec.ofNat 5 j)=(encodeAll (c::tail)).getD j 0#8)
    (hstate : old.session.toState=s₀.afterAll done)
    (hrx : rx=(encodeAll (c::tail)).getD k 0#8)
    (hparser : n.parser=old.parser) (hsession : n.session=old.session)
    (hvalid : n.out.outValid=false) (hlast : n.out.outLast=false) :
    ParseStep s₀ cs ((encodeAll done).length+k) n (headerByte old rx n) := by
  have hmore : old.parser.hdrIdx≠31#5 := fun hfull => by
    rw [hfull] at hidx
    exact absurd hidx (by simp; omega)
  unfold Ring.headerByte
  rw [if_neg hmore]
  refine ⟨?_,rfl,?_,fun hl => absurd (hlast.symm.trans hl) Bool.false_ne_true⟩
  · rw [Nat.add_assoc]
    refine Position.header hcs (by omega) ?_ ?_ ?_ ?_
    · rw [hparser]
      exact hmode
    · have hinc : (1 : BitVec 5).toNat=1 := rfl
      rw [toNat_add,hinc,hidx]
      omega
    · intro j hj
      dsimp only
      unfold setHdr
      by_cases hnew : j=k
      · rw [if_pos,hnew,hrx]
        apply eq_of_toNat_eq
        rw [BitVec.toNat_ofNat,hidx]
        omega
      · rw [if_neg,hbytes j (by omega)]
        intro heq
        have hnat := congrArg BitVec.toNat heq
        rw [BitVec.toNat_ofNat,hidx] at hnat
        omega
    · rw [hsession]
      exact hstate
  · have hquiet := presented_of_invalid (n := { n with parser := { n.parser with
      hdr := setHdr old.parser.hdr old.parser.hdrIdx rx, hdrIdx := old.parser.hdrIdx+1 } }) hvalid
    rw [hquiet,append_nil,hcs]
    exact deliveredUpTo_header s₀ done tail c (by omega)

theorem ParseStep.lastHeaderByte (hcs : cs = done ++ c::tail)
    (hmode : old.parser.mode = .header) (hidx : old.parser.hdrIdx.toNat=31)
    (hbytes : ∀ j, j<31 → old.parser.hdr (BitVec.ofNat 5 j)=(encodeAll (c::tail)).getD j 0#8)
    (hstate : old.session.toState=s₀.afterAll done)
    (hrx : rx=(encodeAll (c::tail)).getD 31 0#8)
    (hform : c.WellFormed) (hbegin : c.event = .begin → (s₀.afterAll done).active=false)
    (hlen : c.payload.length<2^31)
    (hparser : n.parser=old.parser) (hsession : n.session=old.session)
    (hvalid : n.out.outValid=false) (hlast : n.out.outLast=false) :
    ParseStep s₀ cs ((encodeAll done).length+31) n (Ring.headerByte old rx n) := by
  have hfull : old.parser.hdrIdx=31#5 := eq_of_toNat_eq hidx
  have hheader : HeaderOf (setHdr old.parser.hdr old.parser.hdrIdx rx) c := by
    apply headerOf_bytes
    intro j hj
    rw [← getD_encodeAll_header c tail hj]
    unfold setHdr
    by_cases hnew : j=31
    · rw [if_pos,hnew,hrx]
      rw [hfull,hnew]
    · rw [if_neg,hbytes j (by omega)]
      intro heq
      have hnat := congrArg BitVec.toNat heq
      rw [BitVec.toNat_ofNat,hidx] at hnat
      omega
  unfold Ring.headerByte
  rw [if_pos hfull]
  obtain ⟨hafter,hfatal,hnext⟩ := @record_spec _ c old
    { n with parser := { n.parser with
      hdr := setHdr old.parser.hdr old.parser.hdrIdx rx, hdrIdx := 0#5 } }
    hheader hform (fun hev => by rw [← hbegin hev,← hstate]; rfl) hlen hsession
  obtain ⟨_,_,_,_,_,hkeepsValid,hkeepsLast⟩ := record_keeps old
    (setHdr old.parser.hdr old.parser.hdrIdx rx)
    { n with parser := { n.parser with
      hdr := setHdr old.parser.hdr old.parser.hdrIdx rx, hdrIdx := 0#5 } }
  rw [hstate] at hafter hnext
  refine ⟨?_,hfatal,?_,fun hl => absurd ((hkeepsLast.trans hlast).symm.trans hl) Bool.false_ne_true⟩
  · rw [hnext]
    unfold Parser.afterHeader
    by_cases hempty : c.payload=[]
    · rw [if_pos hempty]
      have hlength : 31+1=32+c.payload.length := by rw [hempty]; rfl
      rw [Nat.add_assoc,hlength]
      exact Position.restart hcs (by rw [hparser]; exact hmode) rfl hafter
    · rw [if_neg hempty]
      refine Position.payload (k := 0) hcs (List.length_pos_iff.mpr hempty) rfl ?_ hafter
      rw [BitVec.toNat_ofNat,Nat.mod_eq_of_lt (by omega),Nat.sub_zero]
  · rw [presented_of_invalid (hkeepsValid.trans hvalid),append_nil,hcs]
    exact deliveredUpTo_header s₀ done tail c (by omega)

theorem Position.afterPayload {p : Parser} {s : Session} (hcs : cs = done ++ c::tail)
    (hk : k<c.payload.length) (hlen : c.payload.length<2^31)
    (hmode : old.parser.mode=(if (s₀.afterAll done).accepts c then .payload else .drop))
    (hleft : old.parser.payloadLeft.toNat=c.payload.length-k)
    (hstate : s.toState=(s₀.afterAll done).after c)
    (hidx : p.hdrIdx = if old.parser.payloadLeft = 1#32 then 0#5 else old.parser.hdrIdx)
    (hnext : p.mode = if old.parser.payloadLeft = 1#32 then .header else old.parser.mode)
    (hcount : p.payloadLeft=old.parser.payloadLeft-1) :
    Position s₀ cs ((encodeAll done).length+(32+k)+1) p s := by
  have hone : old.parser.payloadLeft=1#32 ↔ k+1=c.payload.length := by
    rw [← toNat_inj,hleft]
    simp only [BitVec.toNat_ofNat]
    omega
  by_cases hend : k+1=c.payload.length
  · rw [if_pos (hone.mpr hend)] at hidx hnext
    have hlength : 32+k+1=32+c.payload.length := by omega
    rw [Nat.add_assoc,hlength]
    exact Position.restart hcs hnext hidx hstate
  · rw [if_neg (fun h => hend (hone.mp h))] at hnext
    rw [Nat.add_assoc,Nat.add_assoc]
    refine Position.payload hcs (by omega) (hnext.trans hmode) ?_ hstate
    have hdec : (1 : BitVec 32).toNat=1 := rfl
    rw [hcount,toNat_sub,hdec,hleft]
    omega

theorem ParseStep.payloadByte (hcs : cs = done ++ c::tail) (hk : k<c.payload.length)
    (hlen : c.payload.length<2^31)
    (hmode : old.parser.mode=(if (s₀.afterAll done).accepts c then .payload else .drop))
    (hleft : old.parser.payloadLeft.toNat=c.payload.length-k)
    (hstate : old.session.toState=(s₀.afterAll done).after c)
    (hrx : rx=c.payload.getD k 0#8)
    (hparser : n.parser=old.parser) (hsession : n.session=old.session)
    (hvalid : n.out.outValid=false) (hlast : n.out.outLast=false) :
    ParseStep s₀ cs ((encodeAll done).length+(32+k)) n (parseByte bitFeed old rx n) := by
  have hone : decide (old.parser.payloadLeft=1#32)=decide (k+1=c.payload.length) := by
    apply decide_eq_decide.mpr
    rw [← toNat_inj,hleft]
    simp only [BitVec.toNat_ofNat]
    omega
  have hdelivers := deliveredUpTo_payload s₀ done tail c hk
  rw [← hcs] at hdelivers
  have hstate' : n.session.toState=(s₀.afterAll done).after c := hsession ▸ hstate
  unfold parseByte
  cases haccepts : (s₀.afterAll done).accepts c with
  | true =>
    rw [haccepts,if_pos rfl] at hmode hdelivers
    rw [hmode]
    unfold Ring.payloadByte
    refine ⟨?_,rfl,?_,fun _ => rfl⟩
    · refine Position.afterPayload hcs hk hlen (by rw [hmode,haccepts]; rfl) hleft hstate' ?_ ?_ rfl
      · simp [hparser]
      · simp [hparser]
    · rw [hdelivers,hrx]
      simp [presented,hone]
  | false =>
    rw [haccepts,if_neg Bool.false_ne_true] at hmode hdelivers
    rw [hmode]
    unfold dropByte
    refine ⟨?_,rfl,?_,fun hl => absurd (hlast.symm.trans hl) Bool.false_ne_true⟩
    · refine Position.afterPayload hcs hk hlen (by rw [hmode,haccepts]; rfl) hleft hstate' ?_ ?_ rfl
      · simp [hparser]
      · simp [hparser]
    · rw [hdelivers]
      exact congrArg (deliveredUpTo s₀ cs ((encodeAll done).length+(32+k)) ++ ·)
        (presented_of_invalid hvalid).symm

theorem Position.parse {i : ℕ} (h : Position s₀ cs i old.parser old.session)
    (hi : i<(encodeAll cs).length) (hform : ∀ c∈cs, c.WellFormed)
    (hbegin : NoBeginInSession s₀ cs) (hlen : (encodeAll cs).length<2^31)
    (hrx : rx=(encodeAll cs).getD i 0#8)
    (hparser : n.parser=old.parser) (hsession : n.session=old.session)
    (hvalid : n.out.outValid=false) (hlast : n.out.outLast=false) :
    ParseStep s₀ cs i n (parseByte bitFeed old rx n) := by
  have hfits : ∀ {done tail : List Record} {c : Record}, cs = done ++ c::tail →
      c.payload.length<2^31 := by
    rintro done tail c rfl
    rw [encodeAll_append,encodeAll,encodeAll,List.flatMap_cons,length_append,
      length_append,length_encode] at hlen
    omega
  generalize hp : old.parser=p at h
  generalize hs : old.session=s at h
  cases h with
  | @header done tail k p s hcs hk hmode hidx hbytes hstate =>
    subst hp
    subst hs
    cases tail with
    | nil =>
      rw [hcs,append_nil] at hi
      omega
    | cons c tail =>
      rw [hcs,getD_encodeAll_append] at hrx
      unfold parseByte
      rw [hmode]
      by_cases hfull : k=31
      · subst hfull
        exact ParseStep.lastHeaderByte hcs hmode hidx hbytes hstate hrx
          (hform c (by rw [hcs]; simp)) (NoBeginInSession.behind (hcs ▸ hbegin)) (hfits hcs) hparser
          hsession hvalid hlast
      · exact ParseStep.headerByte hcs (by omega) hmode hidx hbytes hstate hrx hparser hsession
          hvalid hlast
  | @payload done tail c k p s hcs hk hmode hleft hstate =>
    subst hp
    subst hs
    rw [hcs,getD_encodeAll_append,getD_encodeAll_payload c tail hk] at hrx
    exact ParseStep.payloadByte hcs hk (hfits hcs) hmode hleft hstate hrx hparser hsession hvalid
      hlast

end Parse

end Misterplex.Ring
