import Misterplex.Npx.Overrun

/-!
# Every group leaves once

With two lanes or more, a FIFO that can hold the words the unpacker waits for, and a skid
that does not overrun, every group leaves once and in order, however the edges of the clocks
follow each other. One lane alone is begun twice, a FIFO that is too small never starts, and
an overrun skid loses a group.
-/

namespace Misterplex.Npx

open AsyncFifo Endless List
open GrayCode (encode)

/-- Both clocks rise again and again. -/
structure Fair {n : ℕ} (ts : ℕ → Tick n) : Prop where
  sys : ∀ m, ∃ k, m≤k ∧ (ts k).sys.isSome=true
  pix : ∀ m, ∃ k, m≤k ∧ (ts k).pix=true

namespace Watched

variable {g : NpxParams} {w : Watched g} {t : Tick g.pxPerClk} {ts : ℕ → Tick g.pxPerClk}

/-- Every group that is pushed leaves once and in order. -/
structure Exact (ts : ℕ → Tick g.pxPerClk) : Prop where
  /-- No group comes to a full skid. -/
  kept : ∀ n, ¬Drops (during g ts n).now (ts n)
  /-- No word is begun twice, and none out of order. -/
  once : ∀ n, (during g ts n).left=List.range (during g ts n).left.length
  /-- What comes out are the pixels of the groups, in order. -/
  carried : ∀ n, (during g ts n).pixels <+: (during g ts n).pushed.flatMap Group.pixels
  /-- All pixels of every group come out. -/
  leaves : ∀ n, ∃ m, (during g ts n).pushed.length*g.pxPerClk≤(during g ts m).pixels.length

/-- The parameters and the clocks under which every group leaves once. -/
structure Tame (ts : ℕ → Tick g.pxPerClk) : Prop where
  /-- There is more than one lane. -/
  lanes : g.pxPerClk≠1
  /-- The FIFO and its register hold the words the unpacker waits for. -/
  prefill : g.prefillGroups%2^8≤2^g.fifoAw+1
  /-- The FIFO is never full for five clocks while the skid fills. -/
  drains : ∀ n, ¬FullFor ts 5 n

theorem during_succ (g : NpxParams) (ts : ℕ → Tick g.pxPerClk) (n : ℕ) :
    during g ts (n+1)=(during g ts n).step (ts n) := rfl

theorem grows (w : Watched g) (t : Tick g.pxPerClk) :
    w.pushed.length≤(w.step t).pushed.length ∧
      w.accepted.length≤(w.step t).accepted.length ∧
      w.delivered.length≤(w.step t).delivered.length ∧
      w.left.length≤(w.step t).left.length ∧ w.pixels.length≤(w.step t).pixels.length := by
  simp only [step,length_append]
  omega

theorem fetched_grows (w : Watched g) (t : Tick g.pxPerClk) :
    fetched w.world≤fetched (w.step t).world := by
  rw [world_step,(running w.now t).fetched]
  exact Nat.le_add_right _ _

theorem pushes_again (ts : ℕ → Tick g.pxPerClk) (hfair : Fair ts) {c m : ℕ}
    (hrest : RestsAt (fun n => (during g ts n).pushed.length) c m) :
    ∃ n, m≤n ∧ 12≤(during g ts n).now.sys.skid.level.toNat := by
  by_contra hnone
  have hroom : ∀ n, m≤n → (during g ts n).now.sys.skid.level.toNat<12 := fun n hn =>
    Nat.lt_of_not_le fun hmany => hnone ⟨n,hn,hmany⟩
  have hkeeps : ∀ n, ¬(ts n).sys.isSome=true → (ts n).sys=none := fun n hno =>
    Option.not_isSome_iff_eq_none.mp hno
  have hstages : ∀ n, (ts n).sys.isSome=true →
      (during g ts (n+1)).now.beam.beamCe =
          decide ((during g ts n).now.sys.skid.level.toNat<12) ∧
        (during g ts (n+1)).now.pipe.s0.v=(during g ts n).now.beam.beamCe ∧
        (during g ts (n+1)).now.pipe.s1.v=(during g ts n).now.pipe.s0.v ∧
        (during g ts (n+1)).now.pipe.s2.v=(during g ts n).now.pipe.s1.v ∧
        (during g ts (n+1)).now.pipe.s3.v=(during g ts n).now.pipe.s2.v := fun n hsome => by
    obtain ⟨a,ha⟩ := Option.isSome_iff_exists.mp hsome
    exact stages_clock (w := during g ts n) ha
  have hstays : ∀ n, ¬(ts n).sys.isSome=true →
      (during g ts (n+1)).now.beam=(during g ts n).now.beam ∧
        (during g ts (n+1)).now.pipe=(during g ts n).now.pipe := fun n hno => by
    obtain ⟨_,hbeam,hpipe,_,_⟩ := sys_rests (w := during g ts n) (hkeeps n hno)
    exact ⟨hbeam,hpipe⟩
  have hlet : RestsAt (fun n => decide ((during g ts n).now.sys.skid.level.toNat<12)) true m :=
    fun n hn => decide_eq_true (hroom n hn)
  obtain ⟨m0,hm0,hbeam⟩ := hlet.copied (fun n => (during g ts n).now.beam.beamCe)
    hfair.sys (fun n hn => (hstages n hn).1) fun n hn => by rw [(hstays n hn).1]
  obtain ⟨m1,hm1,hs0⟩ := hbeam.copied (fun n => (during g ts n).now.pipe.s0.v)
    hfair.sys (fun n hn => (hstages n hn).2.1) fun n hn => by rw [(hstays n hn).2]
  obtain ⟨m2,hm2,hs1⟩ := hs0.copied (fun n => (during g ts n).now.pipe.s1.v)
    hfair.sys (fun n hn => (hstages n hn).2.2.1) fun n hn => by rw [(hstays n hn).2]
  obtain ⟨m3,hm3,hs2⟩ := hs1.copied (fun n => (during g ts n).now.pipe.s2.v)
    hfair.sys (fun n hn => (hstages n hn).2.2.2.1) fun n hn => by rw [(hstays n hn).2]
  obtain ⟨m4,hm4,hs3⟩ := hs2.copied (fun n => (during g ts n).now.pipe.s3.v)
    hfair.sys (fun n hn => (hstages n hn).2.2.2.2) fun n hn => by rw [(hstays n hn).2]
  obtain ⟨k,hk,hsome⟩ := hfair.sys m4
  obtain ⟨a,ha⟩ := Option.isSome_iff_exists.mp hsome
  have hpushed := congrArg length (sys_clocks (w := during g ts k) ha).2.2.2.2
  have hvalid : (during g ts k).now.pipe.s3.v=true := hs3 k hk
  rw [hvalid,if_pos rfl,length_append,length_singleton,← during_succ] at hpushed
  have hbefore := hrest k (by omega)
  have hafter := hrest (k+1) (by omega)
  simp only at hbefore hafter
  omega

theorem seen_at_rest (haw : 1≤g.fifoAw) (hfair : Fair ts) {a f m : ℕ}
    (haccepted : RestsAt (fun n => (during g ts n).accepted.length) a m)
    (hfetched : RestsAt (fun n => fetched (during g ts n).world) f m) :
    ∃ k, m≤k ∧ ∀ n, k≤n → (rdHasEntry (during g ts n).now.fifo=true ↔ f<a) ∧
      (wrFull (during g ts n).now.fifo=true ↔ a=f+2^g.fifoAw) := by
  have hgray : RestsAt (fun n => (during g ts n).now.fifo.wrGray)
      (encode (BitVec.ofNat (g.fifoAw+1) a)) m := fun n hn => by
    obtain ⟨_,_,_,_,hsynced⟩ := (stocked_during ts haw n).synced
    have hcode : (during g ts n).now.fifo.wrGray=_ := hsynced.wrGray.trans
      (congrArg encode hsynced.wrBin)
    exact hcode.trans (congrArg (fun k => encode (BitVec.ofNat _ k)) (haccepted n hn))
  have hgray' : RestsAt (fun n => (during g ts n).now.fifo.rdGray)
      (encode (BitVec.ofNat (g.fifoAw+1) f)) m := fun n hn => by
    obtain ⟨_,_,_,_,hsynced⟩ := (stocked_during ts haw n).synced
    have hcode : (during g ts n).now.fifo.rdGray=_ := hsynced.rdGray.trans
      (congrArg encode hsynced.rdBin)
    exact hcode.trans (congrArg (fun k => encode (BitVec.ofNat _ k)) (hfetched n hn))
  have hrd : ∀ n, ((during g ts n).now.edge (ts n)).rd.isSome=(ts n).pix := fun n => by
    rw [Bridge.edge]
    cases (ts n).pix <;> rfl
  have hwr : ∀ n, ((during g ts n).now.edge (ts n)).wr.isSome=(ts n).sys.isSome := fun n =>
    Option.isSome_map
  have hrun : ∀ n, Running ((during g ts n).now.edge (ts n)) := fun n => running _ _
  obtain ⟨k1,hk1,hr1⟩ := hgray.copied (fun n => (during g ts n).now.fifo.wrGrayR1)
    hfair.pix (fun n hn => (rdSync_running (hrun n)).1.trans (if_pos ((hrd n).trans hn)))
    fun n hn => (rdSync_running (hrun n)).1.trans (if_neg (by rw [hrd n]; exact hn))
  obtain ⟨k2,hk2,hr2⟩ := hr1.copied (fun n => (during g ts n).now.fifo.wrGrayR2)
    hfair.pix (fun n hn => (rdSync_running (hrun n)).2.trans (if_pos ((hrd n).trans hn)))
    fun n hn => (rdSync_running (hrun n)).2.trans (if_neg (by rw [hrd n]; exact hn))
  obtain ⟨k3,hk3,hw1⟩ := hgray'.copied (fun n => (during g ts n).now.fifo.rdGrayW1)
    hfair.sys (fun n hn => (wrSync_running (hrun n)).1.trans (if_pos ((hwr n).trans hn)))
    fun n hn => (wrSync_running (hrun n)).1.trans (if_neg (by rw [hwr n]; exact hn))
  obtain ⟨k4,hk4,hw2⟩ := hw1.copied (fun n => (during g ts n).now.fifo.rdGrayW2)
    hfair.sys (fun n hn => (wrSync_running (hrun n)).2.trans (if_pos ((hwr n).trans hn)))
    fun n hn => (wrSync_running (hrun n)).2.trans (if_neg (by rw [hwr n]; exact hn))
  refine ⟨max k2 k4,by omega,fun n hn => ?_⟩
  obtain ⟨w1,w2,r1,r2,hsynced⟩ := (stocked_during ts haw n).synced
  have horder := hsynced.order
  have hpos := Nat.two_pow_pos g.fifoAw
  have ha : (during g ts n).world.accepted.length=a := haccepted n (by omega)
  have hf : fetched (during g ts n).world=f := hfetched n (by omega)
  have hsame1 : w2=a := by
    have hcode : encode (BitVec.ofNat (g.fifoAw+1) w2)=encode (BitVec.ofNat (g.fifoAw+1) a) :=
      hsynced.wrSeen.2.symm.trans (hr2 n (by omega))
    exact (RingFifo.ofNat_eq_iff (by omega) (by omega)).mp (GrayCode.encode_inj.mp hcode)
  have hsame2 : r2=f := by
    have hcode : encode (BitVec.ofNat (g.fifoAw+1) r2)=encode (BitVec.ofNat (g.fifoAw+1) f) :=
      hsynced.rdSeen.2.symm.trans (hw2 n (by omega))
    exact (RingFifo.ofNat_eq_iff (by omega) (by omega)).mp (GrayCode.encode_inj.mp hcode)
  have hentry := hsynced.hasEntry_iff
  have hfull := hsynced.full_iff haw
  rw [hf,hsame1] at hentry
  rw [ha,hsame2] at hfull
  exact ⟨hentry,hfull⟩

theorem heard_at_rest (hfair : Fair ts) {c : Bool} {m : ℕ}
    (hgo : RestsAt (fun n => (during g ts n).now.sys.prefillGoSys) c m) :
    ∃ k, m≤k ∧ RestsAt (fun n => (during g ts n).now.pix.prefillGoPix) c k := by
  have hno : ∀ n, ¬(ts n).pix=true → (during g ts (n+1)).now.pix=(during g ts n).now.pix :=
    fun n hn => (pix_rests (w := during g ts n) (Bool.not_eq_true _ ▸ hn)).1
  have hyes : ∀ n, (ts n).pix=true →
      (during g ts (n+1)).now.pix.prefillGoP1=(during g ts n).now.sys.prefillGoSys ∧
        (during g ts (n+1)).now.pix.prefillGoPix=(during g ts n).now.pix.prefillGoP1 := by
    intro n hn
    rw [during_succ,(pix_clocks hn).1]
    exact (streamSeen_step _ _ _ _).2.2
  obtain ⟨k1,hk1,hp1⟩ := hgo.copied (fun n => (during g ts n).now.pix.prefillGoP1)
    hfair.pix (fun n hn => (hyes n hn).1) fun n hn => by rw [hno n hn]
  obtain ⟨k2,hk2,hp2⟩ := hp1.copied (fun n => (during g ts n).now.pix.prefillGoPix)
    hfair.pix (fun n hn => (hyes n hn).2) fun n hn => by rw [hno n hn]
  exact ⟨k2,by omega,hp2⟩

theorem kept_during (haw : 1≤g.fifoAw) (hkept : ∀ n, ¬Drops (during g ts n).now (ts n)) (n : ℕ) :
    (during g ts n).Kept := by
  induction n with
  | zero =>
    have hempty : (during g ts 0).now.sys.skid.contents=[] :=
      (RingFifo.contents_eq_nil_iff _).mpr rfl
    rw [Kept,hempty]
    rfl
  | succ n ih => exact ih.step (stocked_during _ haw n) (hkept n)

theorem unpacked_during (ts : ℕ → Tick g.pxPerClk) (haw : 1≤g.fifoAw) (hlanes : 1<g.pxPerClk) (n : ℕ) :
    (during g ts n).Unpacked := by
  induction n with
  | zero => exact Unpacked.start g
  | succ n ih => exact ih.step hlanes (stocked_during _ haw n) (ts n)

theorem length_pixels {n : ℕ} (xs : List (Group n)) :
    (xs.flatMap Group.pixels).length=xs.length*n := by
  induction xs with
  | nil => exact (Nat.zero_mul n).symm
  | cons x xs ih =>
    rw [flatMap_cons,length_append,ih,length_cons,Group.pixels,length_map,
      length_range,Nat.succ_mul,Nat.add_comm]

/-- Pixels that came out and those still to come of the word that is taken apart. -/
theorem Unpacked.count (h : w.Unpacked) (hstocked : w.Stocked) :
    w.pixels.length+w.rest.length=w.left.length*g.pxPerClk ∧
      (w.now.pix.holdBusy=false → w.rest=[]) ∧ w.rest.length≤g.pxPerClk := by
  refine ⟨?_,fun hidle => ?_,?_⟩
  · have hlength := congrArg length h.carried
    rw [length_append,length_pixels,length_map,length_take,
      Nat.min_eq_left (h.left_le hstocked)] at hlength
    exact hlength
  · rw [rest,hidle]
    rfl
  · rw [rest]
    split
    · rw [length_drop,Group.pixels,length_map,length_range]
      exact Nat.sub_le _ _
    · exact Nat.zero_le _

/-- Nothing moves any more. -/
structure Still (ts : ℕ → Tick g.pxPerClk) (m : ℕ) : Prop where
  pixels : RestsAt (fun n => (during g ts n).pixels.length) (during g ts m).pixels.length m
  left : RestsAt (fun n => (during g ts n).left.length) (during g ts m).left.length m
  fetched : RestsAt (fun n => AsyncFifo.fetched (during g ts n).world)
    (AsyncFifo.fetched (during g ts m).world) m
  accepted : RestsAt (fun n => (during g ts n).accepted.length) (during g ts m).accepted.length m
  pushed : RestsAt (fun n => (during g ts n).pushed.length) (during g ts m).pushed.length m
  /-- The unpacker is told nothing new. -/
  go : RestsAt (fun n => (during g ts n).now.sys.prefillGoSys)
    (during g ts m).now.sys.prefillGoSys m

theorem still_of_bound (haw : 1≤g.fifoAw) (hlanes : 1<g.pxPerClk)
    (hkept : ∀ n, ¬Drops (during g ts n).now (ts n)) {b : ℕ}
    (hbound : ∀ n, (during g ts n).pixels.length≤b) : ∃ m, Still ts m := by
  have hstocked := stocked_during ts haw
  have hleft : ∀ n, (during g ts n).left.length≤b+g.pxPerClk := fun n => by
    obtain ⟨hcount,_,hrest⟩ := (unpacked_during ts haw hlanes n).count (hstocked n)
    have hnow := hbound n
    calc (during g ts n).left.length≤(during g ts n).left.length*g.pxPerClk :=
          Nat.le_mul_of_pos_right _ (by omega)
      _ ≤ b+g.pxPerClk := by omega
  have hfetched : ∀ n, fetched (during g ts n).world≤b+g.pxPerClk+1 := fun n => by
    have hunpacked := unpacked_during ts haw hlanes n
    have hnow := hleft n
    have hvalue : fetched (during g ts n).world =
        (during g ts n).delivered.length+(held (during g ts n).now.fifo).length := rfl
    have hheld : (held (during g ts n).now.fifo).length≤1 := by
      rw [held_length]
      split <;> omega
    cases hen : (during g ts n).now.pix.rdEn with
    | false =>
      have htaken := hunpacked.taken hen
      omega
    | true =>
      have htaking := (hunpacked.taking hen).2.2.2
      omega
  have haccepted : ∀ n, (during g ts n).accepted.length≤b+g.pxPerClk+1+2^g.fifoAw :=
    fun n => by
      obtain ⟨_,_,_,_,hsynced⟩ := (hstocked n).synced
      have hlevel : (during g ts n).now.fifo.ring.level.toNat+fetched (during g ts n).world =
          (during g ts n).accepted.length := hsynced.level
      have hroom : (during g ts n).now.fifo.ring.level.toNat≤2^g.fifoAw := hsynced.room
      have hnow := hfetched n
      omega
  have hpushed : ∀ n, (during g ts n).pushed.length ≤
      b+g.pxPerClk+1+2^g.fifoAw+16 := fun n => by
    have hlength := congrArg length (kept_during haw hkept n)
    rw [length_append,RingFifo.length_contents,length_map] at hlength
    have hnow := haccepted n
    have hfits := (hstocked n).fits
    omega
  obtain ⟨m1,h1⟩ := comes_to_rest (f := fun n => (during g ts n).pixels.length)
    (fun n => (grows _ (ts n)).2.2.2.2) hbound
  obtain ⟨m2,h2⟩ := comes_to_rest (f := fun n => (during g ts n).left.length)
    (fun n => (grows _ (ts n)).2.2.2.1) hleft
  obtain ⟨m3,h3⟩ := comes_to_rest (f := fun n => fetched (during g ts n).world)
    (fun n => fetched_grows _ (ts n)) hfetched
  obtain ⟨m4,h4⟩ := comes_to_rest (f := fun n => (during g ts n).accepted.length)
    (fun n => (grows _ (ts n)).2.1) haccepted
  obtain ⟨m5,h5⟩ := comes_to_rest (f := fun n => (during g ts n).pushed.length)
    (fun n => (grows _ (ts n)).1) hpushed
  have hle : m1 ≤ m1+m2+m3+m4+m5 ∧ m2 ≤ m1+m2+m3+m4+m5 ∧
      m3 ≤ m1+m2+m3+m4+m5 ∧ m4 ≤ m1+m2+m3+m4+m5 ∧
      m5 ≤ m1+m2+m3+m4+m5 := by omega
  refine ⟨m1+m2+m3+m4+m5,h1.here hle.1,h2.here hle.2.1,h3.here hle.2.2.1,
    h4.here hle.2.2.2.1,h5.here hle.2.2.2.2,fun n hn => ?_⟩
  have hsame := (h4.here hle.2.2.2.1) n hn
  simp only at hsame
  rw [Bool.eq_iff_iff,(hstocked n).go,hsame,← (hstocked _).go]

/-- While nothing is fetched, nothing is put out. -/
theorem Still.quiet (haw : 1≤g.fifoAw) (hlanes : 1<g.pxPerClk) {m n : ℕ} (h : Still ts m)
    (hn : m≤n) (hpix : (ts n).pix=true) :
    (during g ts n).now.pix.holdBusy=false ∧
      (during g ts n).now.pix.pops g (rdEmpty (during g ts n).now.fifo)=false ∧
      (during g ts n).now.pix.rdEn=false ∧
      ((during g ts n).now.fifo.rdValid=false →
        rdHasEntry (during g ts n).now.fifo=false) := by
  have hunpacked := unpacked_during ts haw hlanes n
  obtain ⟨hside,_,hleft,hpixels⟩ := pix_clocks (w := during g ts n) hpix
  have hpixels0 := h.pixels n hn
  have hpixels1 := h.pixels (n+1) (by omega)
  have hleft0 := h.left n hn
  have hleft1 := h.left (n+1) (by omega)
  simp only [during_succ] at hpixels0 hpixels1 hleft0 hleft1
  have hbusy : (during g ts n).now.pix.holdBusy=false := by
    cases hbusy : (during g ts n).now.pix.holdBusy with
    | false => rfl
    | true =>
      have hce := (busy_step (during g ts n).now.sys.prefillGoSys
        (rdEmpty (during g ts n).now.fifo) (during g ts n).now.fifo.rdDataR hbusy
        (hunpacked.lane hbusy).2).2.1
      rw [← hside] at hce
      rw [hce,if_pos rfl] at hpixels
      have hlength := congrArg length hpixels
      rw [length_append,length_singleton] at hlength
      omega
  have hpops : (during g ts n).now.pix.pops g (rdEmpty (during g ts n).now.fifo)=false := by
    cases hpops : (during g ts n).now.pix.pops g (rdEmpty (during g ts n).now.fifo) with
    | false => rfl
    | true =>
      rw [hpops,if_pos rfl] at hleft
      have hlength := congrArg length hleft
      rw [length_append,length_singleton] at hlength
      omega
  have hen : (during g ts n).now.pix.rdEn=false := by
    cases hen : (during g ts n).now.pix.rdEn with
    | false => rfl
    | true => exact absurd ((hunpacked.taking hen).2.1.symm.trans hbusy) (by decide)
  refine ⟨hbusy,hpops,hen,fun hvalid => ?_⟩
  have hmove := (running (during g ts n).now (ts n)).fetched (w := (during g ts n).world)
  rw [← world_step] at hmove
  have hfetched0 := h.fetched n hn
  have hfetched1 := h.fetched (n+1) (by omega)
  simp only [during_succ] at hfetched0 hfetched1
  cases hentry : rdHasEntry (during g ts n).now.fifo with
  | false => rfl
  | true =>
    have hfetch : fetches (during g ts n).world.fifo
        ((during g ts n).now.edge (ts n))=true := by
      have hrd : ((during g ts n).now.edge (ts n)).rd =
          some ⟨false,(during g ts n).now.pix.rdEn⟩ := by
        rw [Bridge.edge,hpix]
        rfl
      rw [fetches,hrd]
      exact Bool.and_eq_true_iff.mpr ⟨hentry,by
        rw [show (during g ts n).world.fifo.rdValid=false from hvalid]
        rfl⟩
    rw [hfetch,if_pos rfl] at hmove
    omega

/-- Where nothing moves, the skid is as full as it was, and a clock finds it empty or the FIFO
full. -/
theorem Still.skid (haw : 1≤g.fifoAw) (hkept : ∀ n, ¬Drops (during g ts n).now (ts n)) {m n : ℕ}
    (h : Still ts m) (hn : m≤n) :
    (during g ts n).now.sys.skid.level.toNat+(during g ts m).accepted.length =
        (during g ts m).pushed.length ∧
      ((ts n).sys.isSome=true → (during g ts n).now.sys.skid.level.toNat=0 ∨
        wrFull (during g ts n).now.fifo=true) := by
  have hlength := congrArg length (kept_during haw hkept n)
  rw [length_append,RingFifo.length_contents,length_map] at hlength
  have haccepted0 := h.accepted n hn
  have haccepted1 := h.accepted (n+1) (by omega)
  have hpushed := h.pushed n hn
  simp only [during_succ] at haccepted0 haccepted1 hpushed
  refine ⟨by omega,fun hsome => ?_⟩
  obtain ⟨a,ha⟩ := Option.isSome_iff_exists.mp hsome
  have hmore := congrArg length (sys_clocks (w := during g ts n) ha).2.2.2.1
  cases hfire : (during g ts n).now.sys.fifoWrFire (wrFull (during g ts n).now.fifo) with
  | true =>
    rw [hfire,if_pos rfl,length_append,length_singleton] at hmore
    omega
  | false =>
    rw [SysSide.fifoWrFire,Bool.and_eq_false_iff,Bool.not_eq_false',Bool.not_eq_false'] at hfire
    rcases hfire with hempty | hfull
    · rw [RingFifo.isEmpty,beq_iff_eq,← RingFifo.level_eq_zero_iff] at hempty
      exact Or.inl hempty
    · exact Or.inr hfull

open PixSide

theorem Tame.leaves (haw : 1≤g.fifoAw) (hlanes : 1<g.pxPerClk) (hfair : Fair ts) (h : Tame ts)
    (n : ℕ) :
    ∃ m, (during g ts n).pushed.length*g.pxPerClk≤(during g ts m).pixels.length := by
  by_contra hnone
  have hless : ∀ m, (during g ts m).pixels.length<(during g ts n).pushed.length*g.pxPerClk :=
    fun m => Nat.lt_of_not_le fun hle => hnone ⟨m,hle⟩
  have hkept := no_drop haw h.drains
  obtain ⟨m,hstill⟩ := still_of_bound haw hlanes hkept fun m => (hless m).le
  obtain ⟨k1,hk1,hseen⟩ := seen_at_rest haw hfair hstill.accepted hstill.fetched
  obtain ⟨k2,hk2,hheard⟩ := heard_at_rest hfair hstill.go
  obtain ⟨j,hj,hpix⟩ := hfair.pix (k1+k2+n)
  obtain ⟨hbusy,hpops,hen,hnoEntry⟩ := hstill.quiet haw hlanes (by omega : m≤j) hpix
  have hunpacked := unpacked_during ts haw hlanes j
  have hstocked := stocked_during ts haw j
  obtain ⟨hcount,hrest,_⟩ := hunpacked.count hstocked
  rw [hrest hbusy,length_nil,Nat.add_zero] at hcount
  have htaken := hunpacked.taken hen
  have hfetched : fetched (during g ts j).world=fetched (during g ts m).world :=
    hstill.fetched j (by omega)
  have hheld : fetched (during g ts j).world =
      (during g ts j).delivered.length+(held (during g ts j).now.fifo).length := rfl
  rw [held_length] at hheld
  have hpos := Nat.two_pow_pos g.fifoAw
  cases hvalid : (during g ts j).now.fifo.rdValid with
  | false =>
    rw [hvalid,if_neg Bool.false_ne_true] at hheld
    have hall : ¬fetched (during g ts m).world<(during g ts m).accepted.length := fun hlt => by
      have hyes := (hseen j (by omega)).1.mpr hlt
      rw [hnoEntry hvalid] at hyes
      cases hyes
    have hfewer : (during g ts j).left.length<(during g ts n).pushed.length := by
      have hnow := hless j
      rw [hcount] at hnow
      exact Nat.lt_of_mul_lt_mul_right hnow
    have hmore : (during g ts n).pushed.length≤(during g ts m).pushed.length := by
      have hmono : Monotone fun k => (during g ts k).pushed.length :=
        monotone_nat_of_le_succ fun k => (grows _ (ts k)).1
      exact (hmono (by omega : n≤j)).trans (hstill.pushed j (by omega)).le
    obtain ⟨x,hx,hsome⟩ := hfair.sys j
    obtain ⟨hlevel,hready⟩ := hstill.skid haw hkept (by omega : m≤x)
    rcases hready hsome with hempty | hfull
    · omega
    · have hend := (hseen x (by omega)).2.mp hfull
      omega
  | true =>
    rw [hvalid,if_pos rfl] at hheld
    rw [pops,hbusy,rdEmpty,hvalid] at hpops
    simp only [Bool.not_false,Bool.true_and,Bool.not_true,Bool.and_true,allowPop,
      Bool.or_eq_false_iff,beq_eq_false_iff_ne] at hpops
    obtain ⟨⟨hunseen,hquiet⟩,hprefill⟩ := hpops
    have hgo : (during g ts m).now.sys.prefillGoSys=false :=
      (hheard j (by omega)).symm.trans hquiet
    have hfew : ¬(g.prefillGroups=0 ∨ 0<(during g ts m).accepted.length ∧
        g.prefillGroups%2^8≤(during g ts m).accepted.length) := by
      rw [← (stocked_during ts haw m).go,hgo]
      exact Bool.false_ne_true
    have henough := h.prefill
    obtain ⟨x,hx,hsome⟩ := hfair.sys j
    obtain ⟨hlevel,hready⟩ := hstill.skid haw hkept (by omega : m≤x)
    have hempty : (during g ts m).accepted.length=(during g ts m).pushed.length := by
      rcases hready hsome with hempty | hfull
      · omega
      · have hend := (hseen x (by omega)).2.mp hfull
        omega
    obtain ⟨y,hy,hmany⟩ := pushes_again ts hfair hstill.pushed
    have hlevel' := (hstill.skid haw hkept hy).1
    omega

/-- Under these clocks every group leaves once. -/
theorem Tame.exact (haw : 1≤g.fifoAw) (hpos : 0<g.pxPerClk) (hfair : Fair ts) (h : Tame ts) :
    Exact ts := by
  have hlanes : 1<g.pxPerClk := by
    have hne := h.lanes
    omega
  have hkept := no_drop haw h.drains
  constructor
  case kept => exact hkept
  case once => exact fun n => (unpacked_during _ haw hlanes n).once
  case leaves => exact h.leaves haw hlanes hfair
  case carried =>
    intro n
    have hunpacked := unpacked_during ts haw hlanes n
    have horder := congrArg (map popGroup) (kept_during haw hkept n)
    rw [map_append,map_map,
      (funext popGroup_packGroup : popGroup ∘ packGroup = id),map_id] at horder
    have hbegun : (during g ts n).pixels <+:
        (((during g ts n).accepted.take (during g ts n).left.length).map popGroup).flatMap
          Group.pixels := ⟨(during g ts n).rest,hunpacked.carried⟩
    refine hbegun.trans ?_
    have htake : ((during g ts n).accepted.take (during g ts n).left.length).map popGroup <+:
        (during g ts n).pushed := by
      rw [← horder]
      exact ((List.take_prefix _ _).map popGroup).trans (prefix_append _ _)
    obtain ⟨more,hmore⟩ := htake
    rw [← hmore,flatMap_append]
    exact prefix_append _ _

/-- Nothing has come out before the first word is begun. -/
def Unbegun (w : Watched g) : Prop :=
  w.left=[] → w.now.pix.rdEn=false ∧ w.now.pix.holdBusy=false ∧ w.delivered=[] ∧
    w.pixels=[]

/-- Until the first group leaves, nothing is shown. -/
theorem Unbegun.step (h : w.Unbegun) (t : Tick g.pxPerClk) : (w.step t).Unbegun := by
  intro hnothing
  cases hpix : t.pix with
  | false =>
    obtain ⟨hside,hdelivered,hleft,hpixels⟩ := pix_rests (w := w) hpix
    rw [hside,hdelivered,hpixels]
    exact h (hleft.symm.trans hnothing)
  | true =>
    obtain ⟨hside,hdelivered,hleft,hpixels⟩ := pix_clocks (w := w) hpix
    rw [hleft] at hnothing
    obtain ⟨hbefore,hnow⟩ := append_eq_nil_iff.mp hnothing
    obtain ⟨hen,hbusy,hnone,hblank⟩ := h hbefore
    have hpops : w.now.pix.pops g (rdEmpty w.now.fifo)=false := by
      cases hpops : w.now.pix.pops g (rdEmpty w.now.fifo) with
      | false => rfl
      | true =>
        rw [hpops] at hnow
        cases hnow
    obtain ⟨hen',hce,hbusy'⟩ := quiet_step w.now.sys.prefillGoSys w.now.fifo.rdDataR hbusy hpops
    rw [← hside] at hen' hce hbusy'
    rw [hdelivered,hpixels,hen,hce,hnone,hblank]
    exact ⟨hen',hbusy',rfl,rfl⟩

theorem unbegun_during (n : ℕ) : (during g ts n).Unbegun := by
  induction n with
  | zero => exact fun _ => ⟨rfl,rfl,rfl,rfl⟩
  | succ n ih => exact ih.step (ts n)

theorem pushes_first (haw : 1≤g.fifoAw) (hfair : Fair ts)
    (hkept : ∀ n, ¬Drops (during g ts n).now (ts n)) : ∃ n, (during g ts n).pushed≠[] := by
  by_contra hnone
  have hnothing : ∀ n, (during g ts n).pushed=[] := fun n =>
    Classical.not_not.mp fun hsome => hnone ⟨n,hsome⟩
  obtain ⟨n,_,hmany⟩ := pushes_again ts hfair (c := 0) (m := 0) fun n _ =>
    congrArg length (hnothing n)
  have hlength := congrArg length (kept_during haw hkept n)
  rw [length_append,RingFifo.length_contents,hnothing n] at hlength
  simp only [map_nil,length_nil] at hlength
  omega

theorem Exact.begins (haw : 1≤g.fifoAw) (hpos : 0<g.pxPerClk) (hfair : Fair ts)
    (h : Exact ts) : ∃ n, (during g ts n).left≠[] := by
  obtain ⟨n,hsome⟩ := pushes_first haw hfair h.kept
  obtain ⟨m,hm⟩ := h.leaves n
  refine ⟨m,fun hnothing => ?_⟩
  have hblank := (unbegun_during m hnothing).2.2.2
  rw [hblank,length_nil] at hm
  have hmore : 0<(during g ts n).pushed.length*g.pxPerClk :=
    Nat.mul_pos (length_pos_of_ne_nil hsome) hpos
  omega

theorem never_begins (haw : 1≤g.fifoAw) (hfew : 2^g.fifoAw+1<g.prefillGroups%2^8)
    (n : ℕ) : (during g ts n).left=[] := by
  induction n with
  | zero => rfl
  | succ n ih =>
    cases hpix : (ts n).pix with
    | false => exact (pix_rests (w := during g ts n) hpix).2.2.1.trans ih
    | true =>
      have hstocked := stocked_during ts haw n
      obtain ⟨_,_,hnone,_⟩ := unbegun_during n ih
      obtain ⟨_,_,_,_,hsynced⟩ := hstocked.synced
      have hlevel : (during g ts n).now.fifo.ring.level.toNat+fetched (during g ts n).world =
          (during g ts n).accepted.length := hsynced.level
      have hroom : (during g ts n).now.fifo.ring.level.toNat≤2^g.fifoAw := hsynced.room
      have hheld : fetched (during g ts n).world =
          (during g ts n).delivered.length+(held (during g ts n).now.fifo).length := rfl
      have hone : (held (during g ts n).now.fifo).length≤1 := by
        rw [held_length]
        split <;> omega
      rw [hnone,length_nil] at hheld
      have hwaits : ¬(during g ts n).now.sys.prefillGoSys=true := by
        rw [hstocked.go]
        rintro (hzero | ⟨_,henough⟩)
        · rw [hzero] at hfew
          simp at hfew
        · omega
      have hunseen : (during g ts n).now.pix.streamSeen=false :=
        Bool.not_eq_true _ ▸ fun hseen => hstocked.seen.mp hseen ih
      have hunheard : (during g ts n).now.pix.prefillGoPix=false :=
        Bool.not_eq_true _ ▸ fun hheard => hwaits (hstocked.heard (Or.inr hheard))
      have hprefill : (g.prefillGroups == 0)=false := by
        rw [beq_eq_false_iff_ne]
        intro hzero
        rw [hzero] at hfew
        simp at hfew
      have hpops : (during g ts n).now.pix.pops g (rdEmpty (during g ts n).now.fifo)=false := by
        rw [pops,allowPop,hunseen,hunheard,hprefill]
        simp
      have hleft := (pix_clocks (w := during g ts n) hpix).2.2.1
      rw [hpops,ih] at hleft
      exact hleft

theorem single_step {s : PixSide g.pxPerClk} (go : Bool) {empty : Bool}
    (data : BitVec (wordWidth g.pxPerClk)) (hone : g.pxPerClk=1) (hpops : s.pops g empty=true) :
    (s.step g go empty data).holdBusy=false ∧ (s.step g go empty data).streamSeen=true := by
  have hbusy : ¬s.holdBusy=true := by
    intro hbusy
    rw [pops,hbusy] at hpops
    cases hpops
  simp only [PixSide.step,if_neg hbusy,if_pos hpops]
  exact ⟨decide_eq_false (by omega),trivial⟩

/-- The first word has been begun and stands in the FIFO's register still. -/
structure FirstBegun (w : Watched g) : Prop where
  idle : w.now.pix.holdBusy=false
  seen : w.now.pix.streamSeen=true
  valid : w.now.fifo.rdValid=true
  delivered : w.delivered=[]
  /-- The word was begun once. -/
  left : w.left=[0]

theorem firstBegun_step (hone : g.pxPerClk=1) (h : w.Unbegun) (hbefore : w.left=[])
    (hafter : (w.step t).left≠[]) : (w.step t).FirstBegun := by
  obtain ⟨hen,_,hnone,_⟩ := h hbefore
  cases hpix : t.pix with
  | false => exact absurd ((pix_rests hpix).2.2.1.trans hbefore) hafter
  | true =>
    obtain ⟨hside,hdelivered,hleft,_⟩ := pix_clocks (w := w) hpix
    cases hpops : w.now.pix.pops g (rdEmpty w.now.fifo) with
    | false =>
      rw [hpops,hbefore] at hleft
      exact absurd hleft hafter
    | true =>
      obtain ⟨hidle,hseen⟩ := single_step w.now.sys.prefillGoSys w.now.fifo.rdDataR hone hpops
      rw [← hside] at hidle hseen
      rw [hpops,hbefore,hnone] at hleft
      rw [hen,hnone] at hdelivered
      have hvalid : w.now.fifo.rdValid=true := by
        rw [pops,rdEmpty] at hpops
        simp only [Bool.and_eq_true,Bool.not_eq_true',Bool.not_eq_false'] at hpops
        exact hpops.2.2
      have hkeep : (t.pix && w.now.pix.rdEn)=false := by rw [hen,Bool.and_false]
      exact ⟨hidle,hseen,(register_kept w.now t hvalid hkeep).1,hdelivered,hleft⟩

theorem FirstBegun.rests (h : w.FirstBegun) (hpix : t.pix=false) : (w.step t).FirstBegun := by
  obtain ⟨hside,hdelivered,hleft,_⟩ := pix_rests (w := w) hpix
  have hkeep : (t.pix && w.now.pix.rdEn)=false := by rw [hpix,Bool.false_and]
  exact ⟨hside ▸ h.idle,hside ▸ h.seen,(register_kept w.now t h.valid hkeep).1,
    hdelivered.trans h.delivered,hleft.trans h.left⟩

theorem FirstBegun.again (h : w.FirstBegun) (hpix : t.pix=true) : (w.step t).left=[0,0] := by
  have hpops : w.now.pix.pops g (rdEmpty w.now.fifo)=true := by
    rw [pops,allowPop,rdEmpty,h.idle,h.seen,h.valid]
    rfl
  have hleft := (pix_clocks (w := w) hpix).2.2.1
  rw [hpops,h.left,h.delivered] at hleft
  exact hleft

theorem begun_twice (hone : g.pxPerClk=1) (hfair : Fair ts)
    (hsome : ∃ n, (during g ts n).left≠[]) : ∃ n, (during g ts n).left=[0,0] := by
  obtain ⟨k,hbefore,hafter⟩ : ∃ k, (during g ts k).left=[] ∧ (during g ts (k+1)).left≠[] := by
    by_contra hnone
    have hnever : ∀ n, (during g ts n).left=[] := by
      intro n
      induction n with
      | zero => rfl
      | succ n ih => exact Classical.not_not.mp fun hlater => hnone ⟨n,ih,hlater⟩
    obtain ⟨n,hn⟩ := hsome
    exact hn (hnever n)
  have hbegun : (during g ts (k+1)).FirstBegun :=
    firstBegun_step hone (unbegun_during k) hbefore hafter
  obtain ⟨m,hm,hpix,hno⟩ := next_tick hfair.pix (k+1)
  have hthere : (during g ts m).FirstBegun :=
    kept_to_tick (P := fun n => (during g ts n).FirstBegun)
      (fun n hn hbegun => hbegun.rests (Bool.not_eq_true _ ▸ hn)) hbegun hm hno
  exact ⟨m+1,hthere.again hpix⟩

/-- Every group leaves once and in order exactly if there is more than one lane, the FIFO can
hold the words the unpacker waits for, and the FIFO is never full for five clocks while
eleven groups in the skid and five on their way fill it. -/
theorem exact_iff (haw : 2≤g.fifoAw) (hpos : 0<g.pxPerClk) (hfair : Fair ts) :
    Exact ts ↔ Tame ts := by
  have haw' : 1≤g.fifoAw := by omega
  constructor
  · intro h
    have hbegins := h.begins haw' hpos hfair
    constructor
    case lanes =>
      intro hone
      obtain ⟨n,hn⟩ := begun_twice hone hfair hbegins
      have honce := h.once n
      rw [hn] at honce
      cases honce
    case prefill =>
      refine Nat.le_of_not_lt fun hfew => ?_
      obtain ⟨n,hn⟩ := hbegins
      exact hn (never_begins haw' hfew n)
    case drains =>
      intro n hfull
      obtain ⟨m,hdrop⟩ := hfull.drops haw' hfair.sys
      exact h.kept m hdrop
  · exact fun h => h.exact haw' hpos hfair

end Watched

/-- The picture of 1280 by 720 and what surrounds it. -/
def cea720 : Glass := ⟨1280,1650,720,750,1390,1430,725,730⟩

/-- The bridge with a FIFO of 64 words that waits for 16 of them. -/
def product (pxPerClk : ℕ) : NpxParams := ⟨cea720,pxPerClk,6,16⟩

/-- Both clocks rise together, and the store answers with one colour. -/
def together (n : ℕ) : ℕ → Tick n := fun _ => ⟨some ⟨true,255,255,255⟩,true⟩

/-- clk_pix is late: until its first edge only clk_sys rises. -/
def late : ℕ → Tick 2 := fun n => ⟨some ⟨true,255,255,255⟩,decide (85≤n)⟩

theorem late_fair : Fair late :=
  ⟨fun m => ⟨m,le_refl m,rfl⟩,
    fun m => ⟨max m 85,le_max_left m 85,decide_eq_true (le_max_right m 85)⟩⟩

open Watched

/-- Eleven groups are in the skid at the 80th clock, and the FIFO stays full for five more. -/
theorem full_late : FullFor (g := product 2) late 5 85 := by
  have hcrowded : FullFor (g := product 2) late 0 80 :=
    .crowded (by constructor <;> decide +kernel)
  have htwo : FullFor (g := product 2) late 2 82 :=
    (hcrowded.clock rfl (by decide +kernel)).clock rfl (by decide +kernel)
  have hfour : FullFor (g := product 2) late 4 84 :=
    (htwo.clock rfl (by decide +kernel)).clock rfl (by decide +kernel)
  exact hfour.clock rfl (by decide +kernel)

/-- With two lanes and a late clk_pix a group comes to a full skid. -/
theorem not_exact_late : ¬Exact (g := product 2) late := by
  have hiff := exact_iff (g := product 2) (by decide) (by decide) late_fair
  exact fun h => (hiff.mp h).drains 85 full_late

/-- With the one lane it is built with, the bridge begins its first word twice. -/
theorem not_exact_product : ¬Exact (g := product 1) (together 1) := by
  intro h
  have htwice : (during (product 1) (together 1) 32).left ≠
      range (during (product 1) (together 1) 32).left.length := by
    decide
  exact htwice (h.once 32)

end Misterplex.Npx
