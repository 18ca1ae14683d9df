import Misterplex.Npx.Path
import Misterplex.Bus.AsyncFifoRun

/-!
# Groups on their way

A run of the bridge is watched: which groups were pushed, which words went into the FIFO and
came out of it, at which words a group was begun to be taken apart, and which pixels came
out. Words leave in the order in which they were pushed as long as none met a full skid, and
with more than one lane the unpacker is done with a word just after the FIFO has moved on.
-/

namespace Misterplex.Npx

open AsyncFifo List

/-- The pixels of a group, first lane first; only the first one starts a frame. -/
def Group.pixels {n : ℕ} (x : Group n) : List Pixel :=
  (List.range n).map fun lane => lanePixel x lane (x.fs && lane == 0)

namespace Bridge

variable {g : NpxParams}

/-- The group that is pushed at a moment, if there is one. -/
def pushes (s : Bridge g) (t : Tick g.pxPerClk) : List (Group g.pxPerClk) :=
  t.sys.elim [] fun a => if s.pipe.s3.v then [s.pipe.group a] else []

/-- The pixel that comes out at a moment, if there is one. -/
def emits (s : Bridge g) (t : Tick g.pxPerClk) : List Pixel :=
  if t.pix && (s.step t).pix.outCe then [(s.step t).pix.out] else []

/-- A word is begun to be taken apart. -/
def begins (s : Bridge g) (t : Tick g.pxPerClk) : Bool :=
  t.pix && s.pix.pops g (rdEmpty s.fifo)

end Bridge

/-- The bridge and what has passed through it. -/
structure Watched (g : NpxParams) where
  /-- The bridge. -/
  now : Bridge g
  /-- Groups that reached the skid. -/
  pushed : List (Group g.pxPerClk)
  /-- Words into the FIFO and out of it. -/
  (accepted delivered : List (BitVec (wordWidth g.pxPerClk)))
  /-- Numbers of the words that were begun to be taken apart. -/
  left : List ℕ
  /-- Pixels put out. -/
  pixels : List Pixel

namespace Watched

variable {g : NpxParams}

/-- The watched path at reset. -/
def start (g : NpxParams) : Watched g := ⟨.reset g,[],[],[],[],[]⟩

/-- One moment. -/
def step (w : Watched g) (t : Tick g.pxPerClk) : Watched g where
  now := w.now.step t
  pushed := w.pushed ++ w.now.pushes t
  accepted := w.accepted ++ accepts w.now.fifo (w.now.edge t)
  delivered := w.delivered ++ delivers w.now.fifo (w.now.edge t)
  left := w.left ++ if w.now.begins t then [w.delivered.length] else []
  pixels := w.pixels ++ w.now.emits t

/-- The pixel FIFO with what it has accepted and delivered. -/
def world (w : Watched g) : FifoWorld (wordWidth g.pxPerClk) g.fifoAw :=
  ⟨w.now.fifo,w.accepted,w.delivered⟩

variable {w : Watched g} {t : Tick g.pxPerClk}

theorem step_now : (w.step t).now=w.now.step t := rfl

theorem step_accepted :
    (w.step t).accepted = w.accepted ++ accepts w.now.fifo (w.now.edge t) := rfl

theorem step_delivered :
    (w.step t).delivered = w.delivered ++ delivers w.now.fifo (w.now.edge t) := rfl

theorem step_pushed : (w.step t).pushed = w.pushed ++ w.now.pushes t := rfl

theorem step_left :
    (w.step t).left = w.left ++ if w.now.begins t then [w.delivered.length] else [] := rfl

theorem step_pixels : (w.step t).pixels = w.pixels ++ w.now.emits t := rfl

variable (s : Bridge g)

theorem running (t : Tick g.pxPerClk) : Running (s.edge t) := by
  constructor
  · intro p hp
    rw [Bridge.edge] at hp
    cases hsys : t.sys with
    | none =>
      rw [hsys] at hp
      cases hp
    | some a =>
      rw [hsys] at hp
      cases hp
      rfl
  · intro p hp
    rw [Bridge.edge] at hp
    cases hpix : t.pix with
    | false =>
      rw [hpix] at hp
      cases hp
    | true =>
      rw [hpix] at hp
      cases hp
      rfl

/-- The pixel FIFO sees one edge. -/
theorem world_step (w : Watched g) (t : Tick g.pxPerClk) :
    (w.step t).world=w.world.step (w.now.edge t) := by
  have haccepted := (running w.now t).accepted (w := w.world)
  have hdelivered := (running w.now t).delivered (w := w.world)
  exact congrArg₂ (FifoWorld.mk (AsyncFifo.step w.now.fifo (w.now.edge t))) haccepted.symm
    hdelivered.symm

theorem accepts_edge (t : Tick g.pxPerClk) : accepts s.fifo (s.edge t) =
      t.sys.elim [] fun _ => if s.sys.fifoWrFire (wrFull s.fifo) then [s.sys.skid.head] else [] := by
  have hsame : wrAccept s.fifo ⟨false,s.sys.fifoWrFire (wrFull s.fifo),s.sys.skid.head⟩ =
      s.sys.fifoWrFire (wrFull s.fifo) := by
    rw [wrAccept,SysSide.fifoWrFire,Bool.and_assoc,Bool.and_self]
  rw [accepts,Bridge.edge]
  cases t.sys with
  | none => rfl
  | some a => rw [Option.map_some,Option.elim_some,Option.elim_some,hsame]

theorem delivers_edge (t : Tick g.pxPerClk) : delivers s.fifo (s.edge t) =
      if t.pix && (s.pix.rdEn && s.fifo.rdValid) then [s.fifo.rdDataR] else [] := by
  rw [delivers,takes,held,Bridge.edge]
  cases t.pix with
  | false => rfl
  | true =>
    simp only [if_true,Option.elim_some,rdConsume,Bool.true_and]
    cases s.fifo.rdValid with
    | false => simp
    | true => simp

theorem register_kept (t : Tick g.pxPerClk) (hvalid : s.fifo.rdValid=true)
    (hkeep : (t.pix && s.pix.rdEn)=false) :
    (s.step t).fifo.rdValid=true ∧ (s.step t).fifo.rdDataR=s.fifo.rdDataR := by
  rw [Bridge.step,Bridge.edge,AsyncFifo.step]
  cases hpix : t.pix with
  | false => exact ⟨hvalid,rfl⟩
  | true =>
    rw [hpix,Bool.true_and] at hkeep
    simp only [if_true,Option.elim_some,hkeep]
    rw [rdEdge_running rfl]
    simp [rdPrefetch,rdConsume,hvalid]

open RingFifo

/-- The skid gives its head to the FIFO and takes the group that comes, if it is not full. -/
theorem skid_step {s : SysSide g.pxPerClk} (full valid : Bool) (x : Group g.pxPerClk)
    (hfits : s.skid.level.toNat≤16) :
    (if s.fifoWrFire full then [s.skid.head] else []) ++ (s.step g full valid x).skid.contents =
      s.skid.contents ++ if s.skidAccept valid then [packGroup x] else [] := by
  have hroom : s.skidAccept valid=true → s.skid.level.toNat<2^4 := by
    intro haccept
    simp only [SysSide.skidAccept,SysSide.skidFull,Bool.and_eq_true,Bool.not_eq_true',
      decide_eq_false_iff_not] at haccept
    omega
  have hsome : s.fifoWrFire full=true → s.skid.level.toNat≠0 := by
    intro hfire hzero
    rw [level_eq_zero_iff] at hzero
    rw [SysSide.fifoWrFire,RingFifo.isEmpty,beq_iff_eq.mpr hzero] at hfire
    cases hfire
  simp only [SysSide.step]
  cases hfire : s.fifoWrFire full with
  | false =>
    cases haccept : s.skidAccept valid with
    | false => simp
    | true => simpa using contents_push s.skid (packGroup x) (hroom haccept)
  | true =>
    cases haccept : s.skidAccept valid with
    | false => simpa using (contents_eq_head_cons s.skid (hsome hfire)).symm
    | true =>
      simpa using contents_push_pop s.skid (packGroup x) (hroom haccept) (hsome hfire)

/-- The skid's level after one clock. -/
theorem level_step {s : SysSide g.pxPerClk} (full valid : Bool) (x : Group g.pxPerClk)
    (hfits : s.skid.level.toNat≤16) :
    (s.step g full valid x).skid.level.toNat+(s.fifoWrFire full).toNat =
      s.skid.level.toNat+(s.skidAccept valid).toNat := by
  have hlengths := congrArg length (skid_step full valid x hfits)
  rw [length_append,length_append,length_contents,
    length_contents] at hlengths
  cases hfire : s.fifoWrFire full with
  | false =>
    cases haccept : s.skidAccept valid with
    | false => simpa [hfire,haccept] using hlengths
    | true => simpa [hfire,haccept] using hlengths
  | true =>
    cases haccept : s.skidAccept valid with
    | false =>
      simp only [hfire,haccept,if_true,Bool.false_eq_true,if_false,length_singleton,
        length_nil,Bool.toNat_true,Bool.toNat_false] at hlengths ⊢
      omega
    | true =>
      simp only [hfire,haccept,if_true,length_singleton,Bool.toNat_true] at hlengths ⊢
      omega

theorem sys_rests (hsys : t.sys=none) :
    (w.step t).now.sys=w.now.sys ∧ (w.step t).now.beam=w.now.beam ∧
      (w.step t).now.pipe=w.now.pipe ∧ (w.step t).accepted=w.accepted ∧
      (w.step t).pushed=w.pushed := by
  rw [step_accepted,step_pushed,step_now,accepts_edge,Bridge.pushes,Bridge.step,hsys]
  exact ⟨rfl,rfl,rfl,List.append_nil _,List.append_nil _⟩

theorem sys_clocks {a : Answer g.pxPerClk} (hsys : t.sys=some a) :
    (w.step t).now.sys =
        w.now.sys.step g (wrFull w.now.fifo) w.now.pipe.s3.v (w.now.pipe.group a) ∧
      (w.step t).now.beam=w.now.beam.step g.glass w.now.sys.inReady ∧
      (w.step t).now.pipe=w.now.pipe.step w.now.beam ∧
      (w.step t).accepted = w.accepted ++
        (if w.now.sys.fifoWrFire (wrFull w.now.fifo) then [w.now.sys.skid.head] else []) ∧
      (w.step t).pushed =
        w.pushed ++ if w.now.pipe.s3.v then [w.now.pipe.group a] else [] := by
  rw [step_accepted,step_pushed,step_now,accepts_edge,Bridge.pushes,Bridge.step,hsys]
  exact ⟨rfl,rfl,rfl,rfl,rfl⟩

theorem pix_rests (hpix : t.pix=false) :
    (w.step t).now.pix=w.now.pix ∧ (w.step t).delivered=w.delivered ∧
      (w.step t).left=w.left ∧ (w.step t).pixels=w.pixels := by
  rw [step_delivered,step_left,step_pixels,step_now,delivers_edge,Bridge.begins,Bridge.emits,
    Bridge.step,hpix]
  exact ⟨rfl,List.append_nil _,List.append_nil _,List.append_nil _⟩

theorem pix_clocks (hpix : t.pix=true) :
    (w.step t).now.pix =
        w.now.pix.step g w.now.sys.prefillGoSys (rdEmpty w.now.fifo) w.now.fifo.rdDataR ∧
      (w.step t).delivered = w.delivered ++
        (if w.now.pix.rdEn && w.now.fifo.rdValid then [w.now.fifo.rdDataR] else []) ∧
      (w.step t).left = w.left ++
        (if w.now.pix.pops g (rdEmpty w.now.fifo) then [w.delivered.length] else []) ∧
      (w.step t).pixels = w.pixels ++
        if (w.step t).now.pix.outCe then [(w.step t).now.pix.out] else [] := by
  rw [step_delivered,step_left,step_pixels,step_now,delivers_edge,Bridge.begins,Bridge.emits,
    Bridge.step,hpix]
  exact ⟨rfl,rfl,rfl,rfl⟩

/-- The pixel side remembers that the stream has begun. -/
theorem streamSeen_step (s : PixSide g.pxPerClk) (go empty : Bool)
    (data : BitVec (wordWidth g.pxPerClk)) :
    (s.step g go empty data).streamSeen=(s.streamSeen || (s.holdBusy || s.pops g empty)) ∧
      ((s.step g go empty data).holdBusy=true → (s.step g go empty data).streamSeen=true) ∧
      (s.step g go empty data).prefillGoP1=go ∧
      (s.step g go empty data).prefillGoPix=s.prefillGoP1 := by
  simp only [PixSide.step]
  cases hbusy : s.holdBusy with
  | true => simp
  | false =>
    cases hpops : s.pops g empty with
    | true => simp
    | false => simp

/-- The counters agree with what was watched. -/
structure Stocked (w : Watched g) : Prop where
  /-- The FIFO holds its words in order. -/
  synced : ∃ w1 w2 r1 r2, Synced w.world w1 w2 r1 r2
  fits : w.now.sys.skid.level.toNat≤16
  seen : w.now.pix.streamSeen=true ↔ w.left≠[]
  /-- A group that is taken apart belongs to the stream. -/
  busy : w.now.pix.holdBusy=true → w.now.pix.streamSeen=true
  /-- The words written are counted up to 255. -/
  count : w.now.sys.wrGroupCount.toNat=min w.accepted.length 255
  /-- The unpacker may start when enough words are written. -/
  go : w.now.sys.prefillGoSys=true ↔ g.prefillGroups=0 ∨
    0<w.accepted.length ∧ g.prefillGroups%2^8≤w.accepted.length
  heard : (w.now.pix.prefillGoP1=true ∨ w.now.pix.prefillGoPix=true) →
    w.now.sys.prefillGoSys=true

namespace Stocked

theorem start (g : NpxParams) : (Watched.start g).Stocked := by
  constructor
  case synced =>
    refine ⟨0,0,0,0,synced_cleared ⟨rfl,rfl,rfl,rfl,rfl⟩ ⟨rfl,rfl,rfl,rfl,rfl,rfl⟩⟩
  case fits =>
    have hempty : (Watched.start g).now.sys.skid.level.toNat=0 :=
      (level_eq_zero_iff _).mpr rfl
    omega
  case seen => exact ⟨nofun,fun hsome => absurd rfl hsome⟩
  case busy => exact nofun
  case count => rfl
  case go =>
    constructor
    · intro hgo
      exact Or.inl (of_decide_eq_true hgo)
    · rintro (hzero | ⟨hpos,_⟩)
      · exact decide_eq_true hzero
      · exact absurd hpos (Nat.lt_irrefl 0)
  case heard => exact fun hheard => hheard.elim nofun nofun

theorem count_step {s : SysSide g.pxPerClk} (full valid : Bool) (x : Group g.pxPerClk) {n : ℕ}
    (hcount : s.wrGroupCount.toNat=min n 255) :
    (s.step g full valid x).wrGroupCount.toNat=min (n+(s.fifoWrFire full).toNat) 255 := by
  simp only [SysSide.step]
  cases hfire : s.fifoWrFire full with
  | false => simpa using hcount
  | true =>
    by_cases htop : s.wrGroupCount=255#8
    · have hvalue : s.wrGroupCount.toNat=255 := congrArg BitVec.toNat htop
      rw [htop]
      exact (by omega : 255=min (n+1) 255)
    · have hless : s.wrGroupCount.toNat≠255 := fun hvalue => htop (BitVec.eq_of_toNat_eq hvalue)
      have hone : (s.wrGroupCount+1).toNat=s.wrGroupCount.toNat+1 := by
        exact Nat.mod_eq_of_lt (by omega : s.wrGroupCount.toNat+1<2^8)
      have hbelow : (s.wrGroupCount != 255#8)=true := bne_iff_ne.mpr htop
      rw [hbelow,Bool.and_self,if_pos rfl,hone,Bool.toNat_true]
      omega

theorem go_step {s : SysSide g.pxPerClk} (full valid : Bool) (x : Group g.pxPerClk) {n : ℕ}
    (hcount : s.wrGroupCount.toNat=min n 255)
    (hgo : s.prefillGoSys=true ↔
      g.prefillGroups=0 ∨ 0<n ∧ g.prefillGroups%2^8≤n) :
    (s.step g full valid x).prefillGoSys=true ↔ g.prefillGroups=0 ∨
      0<n+(s.fifoWrFire full).toNat ∧
        g.prefillGroups%2^8≤n+(s.fifoWrFire full).toNat := by
  simp only [SysSide.step]
  cases hfire : s.fifoWrFire full with
  | false => simpa using hgo
  | true =>
    have hreached : (s.wrGroupCount+1≥BitVec.ofNat 8 g.prefillGroups) ↔
        g.prefillGroups%2^8≤(s.wrGroupCount.toNat+1)%2^8 := by
      rfl
    rw [Bool.true_and,Bool.toNat_true]
    by_cases hnow : (g.prefillGroups == 0 ||
        decide (s.wrGroupCount+1≥BitVec.ofNat 8 g.prefillGroups))=true
    · rw [if_pos hnow]
      refine iff_of_true rfl ?_
      rw [Bool.or_eq_true,beq_iff_eq,decide_eq_true_eq,hreached] at hnow
      rcases hnow with hzero | henough
      · exact Or.inl hzero
      · exact Or.inr ⟨by omega,by omega⟩
    · rw [if_neg hnow,hgo]
      rw [Bool.or_eq_true,beq_iff_eq,decide_eq_true_eq,hreached] at hnow
      omega

theorem step (haw : 1≤g.fifoAw) (h : w.Stocked) (t : Tick g.pxPerClk) : (w.step t).Stocked := by
  obtain ⟨w1,w2,r1,r2,hsynced⟩ := h.synced
  have hwr : (w.step t).now.sys.skid.level.toNat≤16 ∧
      (w.step t).now.sys.wrGroupCount.toNat=min (w.step t).accepted.length 255 ∧
      ((w.step t).now.sys.prefillGoSys=true ↔ g.prefillGroups=0 ∨
        0<(w.step t).accepted.length ∧
          g.prefillGroups%2^8≤(w.step t).accepted.length) := by
    cases hsys : t.sys with
    | none =>
      obtain ⟨hside,_,_,haccepted,_⟩ := sys_rests (w := w) hsys
      rw [hside,haccepted]
      exact ⟨h.fits,h.count,h.go⟩
    | some a =>
      obtain ⟨hside,_,_,haccepted,_⟩ := sys_clocks (w := w) hsys
      have hlength : (w.step t).accepted.length =
          w.accepted.length+(w.now.sys.fifoWrFire (wrFull w.now.fifo)).toNat := by
        rw [haccepted,length_append]
        cases w.now.sys.fifoWrFire (wrFull w.now.fifo) <;> rfl
      rw [hside,hlength]
      refine ⟨?_,count_step _ _ _ h.count,go_step _ _ _ h.count h.go⟩
      have hlevel := level_step (g := g) (wrFull w.now.fifo) w.now.pipe.s3.v
        (w.now.pipe.group a) h.fits
      have haccept : (w.now.sys.skidAccept w.now.pipe.s3.v).toNat +
          w.now.sys.skid.level.toNat≤16 := by
        have hfits := h.fits
        rw [SysSide.skidAccept,SysSide.skidFull]
        by_cases hfull : w.now.sys.skid.level.toNat=16
        · simp [hfull]
        · have hone := Bool.toNat_le (w.now.pipe.s3.v && !decide (w.now.sys.skid.level.toNat=16))
          omega
      omega
  have hsticky : w.now.sys.prefillGoSys=true → (w.step t).now.sys.prefillGoSys=true := by
    intro hgo
    have hgrows : w.accepted.length≤(w.step t).accepted.length := by
      rw [Watched.step,length_append]
      exact Nat.le_add_right _ _
    rw [hwr.2.2]
    rw [h.go] at hgo
    omega
  constructor
  case synced => exact ⟨_,_,_,_,world_step w t ▸ hsynced.step haw (running w.now t)⟩
  case fits => exact hwr.1
  case count => exact hwr.2.1
  case go => exact hwr.2.2
  case seen =>
    cases hpix : t.pix with
    | false =>
      obtain ⟨hside,_,hleft,_⟩ := pix_rests (w := w) hpix
      rw [hside,hleft]
      exact h.seen
    | true =>
      obtain ⟨hside,_,hleft,_⟩ := pix_clocks (w := w) hpix
      obtain ⟨hseen,_⟩ := streamSeen_step w.now.pix w.now.sys.prefillGoSys
        (rdEmpty w.now.fifo) w.now.fifo.rdDataR
      rw [hside,hleft,hseen]
      cases hpops : w.now.pix.pops g (rdEmpty w.now.fifo) with
      | true => simp
      | false =>
        rw [Bool.or_false,if_neg Bool.false_ne_true,List.append_nil,← h.seen,Bool.or_eq_true]
        exact ⟨fun hor => hor.elim id h.busy,Or.inl⟩
  case busy =>
    cases hpix : t.pix with
    | false =>
      rw [(pix_rests (w := w) hpix).1]
      exact h.busy
    | true =>
      rw [(pix_clocks (w := w) hpix).1]
      exact (streamSeen_step _ _ _ _).2.1
  case heard =>
    cases hpix : t.pix with
    | false =>
      rw [(pix_rests hpix).1]
      exact fun hheard => hsticky (h.heard hheard)
    | true =>
      obtain ⟨_,_,hp1,hgoPix⟩ := streamSeen_step w.now.pix w.now.sys.prefillGoSys
        (rdEmpty w.now.fifo) w.now.fifo.rdDataR
      rw [(pix_clocks hpix).1,hp1,hgoPix]
      exact fun hheard => hsticky (hheard.elim id fun hbefore => h.heard (Or.inl hbefore))

end Stocked

/-- A group comes to a full skid. -/
def Drops (t : Tick g.pxPerClk) : Prop :=
  t.sys.isSome=true ∧ s.pipe.s3.v=true ∧ s.sys.skidFull=true

/-- The groups pushed are in the FIFO or stand in the skid. -/
def Kept (w : Watched g) : Prop :=
  w.accepted ++ w.now.sys.skid.contents = w.pushed.map packGroup

/-- A tick that drops no group keeps every group. -/
theorem Kept.step (h : w.Kept) (hstocked : w.Stocked) (hdrop : ¬Drops w.now t) :
    (w.step t).Kept := by
  rw [Kept] at h ⊢
  cases hsys : t.sys with
  | none =>
    obtain ⟨hside,_,_,haccepted,hpushed⟩ := sys_rests (w := w) hsys
    rw [hside,haccepted,hpushed]
    exact h
  | some a =>
    obtain ⟨hside,_,_,haccepted,hpushed⟩ := sys_clocks (w := w) hsys
    have haccept : w.now.sys.skidAccept w.now.pipe.s3.v=w.now.pipe.s3.v := by
      rw [SysSide.skidAccept]
      cases hvalid : w.now.pipe.s3.v with
      | false => rfl
      | true =>
        have hroom : w.now.sys.skidFull=false :=
          Bool.not_eq_true _ ▸ fun hfull => hdrop ⟨by rw [hsys]; rfl,hvalid,hfull⟩
        rw [hroom]
        rfl
    have hskid := skid_step (g := g) (wrFull w.now.fifo) w.now.pipe.s3.v (w.now.pipe.group a)
      hstocked.fits
    rw [haccept] at hskid
    rw [hside,haccepted,hpushed,List.append_assoc,hskid,← List.append_assoc,h,
      List.map_append]
    cases w.now.pipe.s3.v <;> rfl

/-- The lanes that are still to come of the group that is taken apart. -/
def rest (w : Watched g) : List Pixel :=
  if w.now.pix.holdBusy then w.now.pix.hold.pixels.drop w.now.pix.laneIdx else []

/-- The unpacker is with the FIFO, and what came out are the lanes of the words it has begun. -/
structure Unpacked (w : Watched g) : Prop where
  /-- Each word is begun once, in order. -/
  once : w.left=List.range w.left.length
  /-- While a word is taken from the FIFO its second lane is shown. -/
  taking : w.now.pix.rdEn=true → w.now.fifo.rdValid=true ∧ w.now.pix.holdBusy=true ∧
    w.now.pix.laneIdx=1 ∧ w.left.length=w.delivered.length+1
  /-- Else the words begun are those taken. -/
  taken : w.now.pix.rdEn=false → w.left.length=w.delivered.length
  lane : w.now.pix.holdBusy=true → 0<w.now.pix.laneIdx ∧ w.now.pix.laneIdx<g.pxPerClk
  /-- What came out and what is to come are the pixels of the words begun. -/
  carried : w.pixels ++ w.rest =
    ((w.accepted.take w.left.length).map popGroup).flatMap Group.pixels

theorem drop_pixels {n lane : ℕ} (x : Group n) (hlane : lane<n) :
    x.pixels.drop lane =
      lanePixel x lane (x.fs && lane == 0)::x.pixels.drop (lane+1) := by
  rw [Group.pixels,drop_eq_getElem_cons (by simpa using hlane)]
  simp

theorem lane_fits {n lane : ℕ} (hlane : lane<n) : lane%2^laneW n=lane := by
  refine Nat.mod_eq_of_lt (lt_of_lt_of_le hlane ?_)
  rw [laneW]
  split
  · omega
  · exact Nat.le_pow_clog (by omega) n

/-- A clock that shows the next lane of the group at hand. -/
theorem busy_step {s : PixSide g.pxPerClk} (go empty : Bool) (data : BitVec (wordWidth g.pxPerClk))
    (hbusy : s.holdBusy=true) (hlane : s.laneIdx<g.pxPerClk) :
    (s.step g go empty data).rdEn=false ∧ (s.step g go empty data).outCe=true ∧
      (s.step g go empty data).out=lanePixel s.hold s.laneIdx false ∧
      (s.step g go empty data).hold=s.hold ∧
      ((s.step g go empty data).holdBusy=true ↔ s.laneIdx+1<g.pxPerClk) ∧
      ((s.step g go empty data).holdBusy=true →
        (s.step g go empty data).laneIdx=s.laneIdx+1) := by
  have hlast : (g.pxPerClk-1)%2^laneW g.pxPerClk=g.pxPerClk-1 := lane_fits (by omega)
  simp only [PixSide.step,if_pos hbusy,hlast]
  refine ⟨trivial,trivial,trivial,trivial,?_,fun hmore => ?_⟩
  · rw [bne_iff_ne]
    omega
  · rw [bne_iff_ne] at hmore
    rw [if_neg hmore,lane_fits (by omega)]

theorem pops_step {s : PixSide g.pxPerClk} (go : Bool) {empty : Bool}
    (data : BitVec (wordWidth g.pxPerClk)) (hlanes : 1<g.pxPerClk)
    (hpops : s.pops g empty=true) :
    (s.step g go empty data).rdEn=true ∧ (s.step g go empty data).outCe=true ∧
      (s.step g go empty data).out=lanePixel (popGroup data) 0 (popGroup data).fs ∧
      (s.step g go empty data).hold=popGroup data ∧
      (s.step g go empty data).holdBusy=true ∧ (s.step g go empty data).laneIdx=1 := by
  have hbusy : ¬s.holdBusy=true := by
    intro hbusy
    rw [PixSide.pops,hbusy] at hpops
    cases hpops
  simp only [PixSide.step,if_neg hbusy,if_pos hpops,if_pos hlanes,decide_eq_true hlanes]
  exact ⟨trivial,trivial,trivial,trivial,trivial,trivial⟩

/-- A clock with no group at hand and none to take. -/
theorem quiet_step {s : PixSide g.pxPerClk} (go : Bool) {empty : Bool}
    (data : BitVec (wordWidth g.pxPerClk)) (hbusy : s.holdBusy=false)
    (hpops : s.pops g empty=false) :
    (s.step g go empty data).rdEn=false ∧ (s.step g go empty data).outCe=false ∧
      (s.step g go empty data).holdBusy=false := by
  simp only [PixSide.step,hbusy,hpops,Bool.false_eq_true,if_false]
  exact ⟨trivial,trivial,trivial⟩

namespace Unpacked

theorem left_le (h : w.Unpacked) (hstocked : w.Stocked) : w.left.length≤w.accepted.length := by
  obtain ⟨_,_,_,_,hsynced⟩ := hstocked.synced
  have hlevel : w.now.fifo.ring.level.toNat+fetched w.world=w.accepted.length := hsynced.level
  have hfetched : fetched w.world=w.delivered.length+(held w.now.fifo).length := rfl
  cases hen : w.now.pix.rdEn with
  | false =>
    have htaken := h.taken hen
    omega
  | true =>
    obtain ⟨hvalid,_,_,htaking⟩ := h.taking hen
    rw [held_length,hvalid] at hfetched
    simp only [if_true] at hfetched
    omega

theorem next_word (hstocked : w.Stocked) (hvalid : w.now.fifo.rdValid=true) :
    w.accepted[w.delivered.length]?=some w.now.fifo.rdDataR := by
  obtain ⟨_,_,_,_,hsynced⟩ := hstocked.synced
  refine (hsynced.conserved 0).shown ?_
  have hempty : rdEmpty w.world.fifo = !w.now.fifo.rdValid := rfl
  rw [hempty,hvalid]
  rfl

theorem start (g : NpxParams) : (Watched.start g).Unpacked where
  once := rfl
  taking := nofun
  taken := fun _ => rfl
  lane := nofun
  carried := rfl

theorem step_rests (h : w.Unpacked) (hstocked : w.Stocked) (hpix : t.pix=false) :
    (w.step t).Unpacked := by
  obtain ⟨hside,hdelivered,hleft,hpixels⟩ := pix_rests (w := w) hpix
  have hmore : (w.step t).accepted =
      w.accepted ++ accepts w.now.fifo (w.now.edge t) := rfl
  constructor
  case once => rw [hleft]; exact h.once
  case taking =>
    rw [hside,hleft,hdelivered]
    intro hen
    obtain ⟨hvalid,hothers⟩ := h.taking hen
    exact ⟨(register_kept w.now t hvalid (by rw [hpix]; rfl)).1,hothers⟩
  case taken => rw [hside,hleft,hdelivered]; exact h.taken
  case lane => rw [hside]; exact h.lane
  case carried =>
    have hrest : (w.step t).rest=w.rest := by rw [rest,hside,rest]
    rw [hpixels,hrest,hleft,hmore,take_append_of_le_length (h.left_le hstocked)]
    exact h.carried

/-- A tick inside a group. -/
theorem step_busy (h : w.Unpacked) (hstocked : w.Stocked) (hpix : t.pix=true)
    (hbusy : w.now.pix.holdBusy=true) : (w.step t).Unpacked := by
  obtain ⟨hpos,hlane⟩ := h.lane hbusy
  obtain ⟨hside,hdelivered,hleft,hpixels⟩ := pix_clocks (w := w) hpix
  obtain ⟨hen,hce,hout,hhold,hmore,hnext⟩ := busy_step w.now.sys.prefillGoSys
    (rdEmpty w.now.fifo) w.now.fifo.rdDataR hbusy hlane
  rw [← hside] at hen hce hout hhold hmore hnext
  have hpops : w.now.pix.pops g (rdEmpty w.now.fifo)=false := by
    rw [PixSide.pops,hbusy]
    rfl
  rw [hpops,if_neg Bool.false_ne_true,List.append_nil] at hleft
  rw [hce,if_pos rfl,hout] at hpixels
  constructor
  case once => rw [hleft]; exact h.once
  case taking =>
    intro hyes
    rw [hen] at hyes
    cases hyes
  case taken =>
    intro _
    rw [hleft,hdelivered,length_append]
    cases hwas : w.now.pix.rdEn with
    | false => simpa using h.taken hwas
    | true =>
      obtain ⟨hvalid,_,_,htaking⟩ := h.taking hwas
      rw [hvalid]
      exact htaking
  case lane =>
    intro hyes
    rw [hnext hyes]
    exact ⟨Nat.succ_pos _,hmore.mp hyes⟩
  case carried =>
    have hrest : w.rest=lanePixel w.now.pix.hold w.now.pix.laneIdx false::(w.step t).rest := by
      have hlater : (w.now.pix.hold.fs && w.now.pix.laneIdx == 0)=false := by
        rw [beq_eq_false_iff_ne.mpr (by omega),Bool.and_false]
      rw [rest,if_pos hbusy,drop_pixels _ hlane,hlater,rest,hhold]
      by_cases hyes : (w.step t).now.pix.holdBusy=true
      · rw [if_pos hyes,hnext hyes]
      · rw [if_neg hyes]
        have hend : g.pxPerClk≤w.now.pix.laneIdx+1 := Nat.le_of_not_lt fun hlt =>
          hyes (hmore.mpr hlt)
        rw [drop_eq_nil_of_le (by simpa [Group.pixels] using hend)]
    rw [hpixels,hleft,step_accepted,take_append_of_le_length (h.left_le hstocked),← h.carried,
      hrest,List.append_assoc,List.singleton_append]

theorem step_pops (hlanes : 1<g.pxPerClk) (h : w.Unpacked) (hstocked : w.Stocked)
    (hpix : t.pix=true) (hpops : w.now.pix.pops g (rdEmpty w.now.fifo)=true) :
    (w.step t).Unpacked := by
  have hidle : w.now.pix.holdBusy=false := by
    cases hbusy : w.now.pix.holdBusy with
    | false => rfl
    | true =>
      rw [PixSide.pops,hbusy] at hpops
      cases hpops
  have hvalid : w.now.fifo.rdValid=true := by
    rw [PixSide.pops,rdEmpty] at hpops
    simp only [Bool.and_eq_true,Bool.not_eq_true',Bool.not_eq_false'] at hpops
    exact hpops.2.2
  have hen : w.now.pix.rdEn=false := by
    cases hen : w.now.pix.rdEn with
    | false => rfl
    | true =>
      have hbusy := (h.taking hen).2.1
      rw [hidle] at hbusy
      cases hbusy
  have htaken := h.taken hen
  obtain ⟨hside,hdelivered,hleft,hpixels⟩ := pix_clocks (w := w) hpix
  obtain ⟨hen',hce,hout,hhold,hbusy',hlane'⟩ := pops_step w.now.sys.prefillGoSys
    w.now.fifo.rdDataR hlanes hpops
  rw [← hside] at hen' hce hout hhold hbusy' hlane'
  rw [hen,Bool.false_and,if_neg Bool.false_ne_true,List.append_nil] at hdelivered
  rw [hpops,if_pos rfl,← htaken] at hleft
  rw [hce,if_pos rfl,hout] at hpixels
  have hlength : (w.step t).left.length=w.left.length+1 := by
    rw [hleft,length_append,length_singleton]
  constructor
  case once =>
    rw [hlength,range_succ,← h.once]
    exact hleft
  case taking =>
    intro _
    refine ⟨(register_kept w.now t hvalid (by rw [hen,Bool.and_false])).1,hbusy',hlane',?_⟩
    rw [hlength,hdelivered,htaken]
  case taken =>
    intro hno
    rw [hen'] at hno
    cases hno
  case lane =>
    intro _
    rw [hlane']
    exact ⟨Nat.one_pos,hlanes⟩
  case carried =>
    have hword := next_word hstocked hvalid
    rw [← htaken] at hword
    have hrest : w.rest=[] := by rw [rest,hidle]; rfl
    have hfirst : (popGroup w.now.fifo.rdDataR).pixels =
        lanePixel (popGroup w.now.fifo.rdDataR) 0 (popGroup w.now.fifo.rdDataR).fs ::
          (w.step t).rest := by
      have hsplit : (popGroup w.now.fifo.rdDataR).pixels.drop 0=_ := drop_pixels _ (by omega)
      rw [beq_self_eq_true,Bool.and_true,drop_zero] at hsplit
      rw [rest,if_pos hbusy',hhold,hlane']
      exact hsplit
    have hless : w.left.length<w.accepted.length := (List.getElem?_eq_some_iff.mp hword).1
    have hcarried := h.carried
    rw [hrest,List.append_nil] at hcarried
    rw [hpixels,hlength,step_accepted,take_append_of_le_length hless,take_add_one,hword,
      List.map_append,List.flatMap_append,← hcarried,List.append_assoc]
    simp [hfirst]

/-- A tick between two groups. -/
theorem step_quiet (h : w.Unpacked) (hstocked : w.Stocked) (hpix : t.pix=true)
    (hbusy : w.now.pix.holdBusy=false)
    (hpops : w.now.pix.pops g (rdEmpty w.now.fifo)=false) : (w.step t).Unpacked := by
  have hen : w.now.pix.rdEn=false := by
    cases hen : w.now.pix.rdEn with
    | false => rfl
    | true =>
      have hwas := (h.taking hen).2.1
      rw [hbusy] at hwas
      cases hwas
  obtain ⟨hside,hdelivered,hleft,hpixels⟩ := pix_clocks (w := w) hpix
  obtain ⟨hen',hce,hbusy'⟩ := quiet_step w.now.sys.prefillGoSys w.now.fifo.rdDataR hbusy hpops
  rw [← hside] at hen' hce hbusy'
  rw [hen,Bool.false_and,if_neg Bool.false_ne_true,List.append_nil] at hdelivered
  rw [hpops,if_neg Bool.false_ne_true,List.append_nil] at hleft
  rw [hce,if_neg Bool.false_ne_true,List.append_nil] at hpixels
  constructor
  case once => rw [hleft]; exact h.once
  case taking =>
    intro hyes
    rw [hen'] at hyes
    cases hyes
  case taken => rw [hleft,hdelivered]; exact fun _ => h.taken hen
  case lane =>
    intro hyes
    rw [hbusy'] at hyes
    cases hyes
  case carried =>
    have hrest : (w.step t).rest=w.rest := by
      rw [rest,hbusy',rest,hbusy]
      rfl
    have haccepted : (w.step t).accepted = w.accepted ++ accepts w.now.fifo (w.now.edge t) := rfl
    rw [hpixels,hrest,hleft,haccepted,take_append_of_le_length (h.left_le hstocked)]
    exact h.carried

theorem step (hlanes : 1<g.pxPerClk) (h : w.Unpacked) (hstocked : w.Stocked)
    (t : Tick g.pxPerClk) : (w.step t).Unpacked := by
  cases hpix : t.pix with
  | false => exact h.step_rests hstocked hpix
  | true =>
    cases hbusy : w.now.pix.holdBusy with
    | true => exact h.step_busy hstocked hpix hbusy
    | false =>
      cases hpops : w.now.pix.pops g (rdEmpty w.now.fifo) with
      | true => exact h.step_pops hlanes hstocked hpix hpops
      | false => exact h.step_quiet hstocked hpix hbusy hpops

end Unpacked

end Watched

end Misterplex.Npx
