import Mathlib.Data.List.Basic
import Mathlib.Data.List.Pairwise
import Mathlib.Data.List.TakeDrop
import Mathlib.Data.List.TakeWhile

/-!
# Masking the values behind keys

A text is searched for a mark, a key with its separator. Where the mark stands
at an edge of the text, the value behind it, up to the first stop, is replaced
by a fixed mask and the search goes on behind the mask. Elsewhere the search
goes on behind the mark. Several such passes follow each other.
-/

namespace Misterplex.Masking

open List

variable {α : Type*} [DecidableEq α]

/-- The first occurrence of a mark: the text in front of it and behind it. -/
def locate (mark : List α) : List α → Option (List α × List α)
  | [] => none
  | c::text =>
    if mark.isPrefixOf (c::text) then some ([],(c::text).drop mark.length)
    else (locate mark text).map fun found => (c::found.1,found.2)

/-- An occurrence splits the text around the mark. -/
theorem locate_eq {mark text front tail : List α} (h : locate mark text=some (front,tail)) :
    text = front ++ mark ++ tail := by
  induction text generalizing front with
  | nil => cases h
  | cons c text ih =>
    rw [locate] at h
    by_cases hhere : mark.isPrefixOf (c::text)=true
    · rw [if_pos hhere] at h
      obtain ⟨rest,hrest⟩ := List.isPrefixOf_iff_prefix.mp hhere
      cases h
      rw [← hrest,drop_left]
      rfl
    · rw [if_neg hhere] at h
      cases hlater : locate mark text with
      | none =>
        rw [hlater] at h
        cases h
      | some found =>
        rw [hlater] at h
        cases h
        rw [cons_append,cons_append,← ih hlater]

/-- A mark is found in a text that holds it. -/
theorem locate_isSome {mark text : List α} (hne : mark≠[]) :
    (locate mark text).isSome=true ↔ mark <:+: text := by
  constructor
  · intro h
    obtain ⟨found,hfound⟩ := Option.isSome_iff_exists.mp h
    exact ⟨found.1,found.2,(locate_eq hfound).symm⟩
  · rintro ⟨front,tail,rfl⟩
    induction front with
    | nil =>
      obtain ⟨m,marks,hcons⟩ := exists_cons_of_ne_nil hne
      have hhere : mark.isPrefixOf (m::(marks ++ tail))=true := by
        rw [List.isPrefixOf_iff_prefix,hcons]
        exact ⟨tail,rfl⟩
      have htext : [] ++ mark ++ tail = m::(marks ++ tail) := by
        rw [hcons]
        rfl
      rw [htext,locate,if_pos hhere]
      rfl
    | cons c front ih =>
      rw [cons_append,cons_append,locate]
      split
      · rfl
      · rw [Option.isSome_map]
        exact ih

/-- A first occurrence stays the first one when text is added. -/
theorem locate_append {mark text front tail : List α} (h : locate mark text=some (front,tail))
    (more : List α) : locate mark (text ++ more)=some (front,tail ++ more) := by
  induction text generalizing front with
  | nil => cases h
  | cons c text ih =>
    have hlen := congrArg length (locate_eq h)
    rw [length_append,length_append] at hlen
    rw [locate] at h
    rw [cons_append,locate]
    by_cases hhere : mark.isPrefixOf (c::text)=true
    · obtain ⟨rest,hrest⟩ := List.isPrefixOf_iff_prefix.mp hhere
      have hmore : mark.isPrefixOf (c::(text ++ more))=true := by
        rw [List.isPrefixOf_iff_prefix,← cons_append,← hrest,List.append_assoc]
        exact prefix_append mark _
      rw [if_pos hhere] at h
      cases h
      rw [if_pos hmore,← cons_append,← hrest,List.append_assoc,drop_left,
        drop_left]
    · have hmore : ¬mark.isPrefixOf (c::(text ++ more))=true := by
        intro hmark
        rw [List.isPrefixOf_iff_prefix,← cons_append] at hmark
        have hprefix := prefix_of_prefix_length_le hmark (prefix_append _ _) (by omega)
        exact hhere (List.isPrefixOf_iff_prefix.mpr hprefix)
      rw [if_neg hhere] at h
      cases hlater : locate mark text with
      | none =>
        rw [hlater] at h
        cases h
      | some found =>
        rw [hlater] at h
        cases h
        rw [if_neg hmore,ih hlater]
        rfl

/-- What one pass looks for and how far it replaces. -/
structure Rule (α : Type*) where
  /-- Key and separator that are looked for. -/
  mark : List α
  mark_ne : mark≠[]
  /-- What may stand between the separator and the value and stays. -/
  skips : List α
  stops : List α

variable (edge : α → Bool) (mask : List α)

/-- The end of a text counts as an edge, and so does the start of the whole text. -/
def edgeAt (done : List α) : Bool :=
  match done.getLast? with
  | none => true
  | some c => edge c

namespace Rule

variable (r : Rule α)

/-- What stays between the separator and the value. -/
def gap (tail : List α) : List α := tail.takeWhile (r.skips.contains ·)

/-- The value and what follows it. -/
def atValue (tail : List α) : List α := tail.dropWhile (r.skips.contains ·)

/-- What follows a value. -/
def behindValue (tail : List α) : List α := tail.dropWhile (!r.stops.contains ·)

/-- What follows the value behind a mark. -/
def after (tail : List α) : List α := r.behindValue (r.atValue tail)

/-- What follows a value is no longer than what follows the mark. -/
theorem after_length_le (tail : List α) : (r.after tail).length≤tail.length :=
  Nat.le_trans (dropWhile_suffix _).length_le (dropWhile_suffix _).length_le

/-- One pass over a text whose first part is done. -/
def maskFrom (done rest : List α) : List α :=
  match _hfound : locate r.mark rest with
  | none => done ++ rest
  | some (front,tail) =>
    if edgeAt edge (done ++ front) then
      maskFrom (done ++ front ++ r.mark ++ r.gap tail ++ mask) (r.after tail)
    else maskFrom (done ++ front ++ r.mark) tail
termination_by rest.length
decreasing_by
  all_goals
    have hlen := congrArg List.length (locate_eq _hfound)
    have hpos := List.length_pos_iff.mpr r.mark_ne
    have hafter := r.after_length_le tail
    rw [List.length_append,List.length_append] at hlen
    omega

/-- One pass read from left to right; whether an edge is just passed is carried
along. -/
def scan (atEdge : Bool) : List α → List α
  | [] => []
  | c::rest =>
    if atEdge && r.mark.isPrefixOf (c::rest) then
      r.mark ++ r.gap ((c::rest).drop r.mark.length) ++ mask ++
        scan false (r.after ((c::rest).drop r.mark.length))
    else c::scan (edge c) rest
termination_by rest => rest.length
decreasing_by
  · have hpos := List.length_pos_iff.mpr r.mark_ne
    have hafter := r.after_length_le ((c::rest).drop r.mark.length)
    rw [List.length_drop] at hafter
    simp only [List.length_cons] at hafter ⊢
    omega
  · simp

/-- Marks, gaps, stops and the mask keep clear of each other: only gaps and stops
are edges, and the mask does not start as the mark does. -/
structure Fits : Prop where
  mark_inner : ∀ c∈r.mark, edge c=false
  /-- Whatever stays in front of a value is an edge. -/
  skips_edge : ∀ c∈r.skips, edge c=true
  /-- Whatever ends a value is an edge. -/
  stops_edge : ∀ c∈r.stops, edge c=true
  mask_inner : ∀ c∈mask, edge c=false
  /-- The mask is not empty and does not start as the mark does. -/
  heads : ∀ m rest, mask=m::rest → r.mark.head?≠some m
  mask_ne : mask≠[]

variable {edge mask r} {atEdge : Bool} {c : α} {text tail : List α}

/-- A mark at an edge is followed by the mask. -/
theorem scan_hit (tail : List α) :
    r.scan edge mask true (r.mark ++ tail) =
      r.mark ++ r.gap tail ++ mask ++ r.scan edge mask false (r.after tail) := by
  cases hmark : r.mark with
  | nil => exact absurd hmark r.mark_ne
  | cons m marks =>
    have hhere : (true && r.mark.isPrefixOf (m::(marks ++ tail)))=true := by
      rw [Bool.true_and,List.isPrefixOf_iff_prefix,hmark]
      exact ⟨tail,rfl⟩
    have hdrop : (m::(marks ++ tail)).drop r.mark.length=tail := by
      rw [hmark,← cons_append,drop_left]
    rw [cons_append,scan,if_pos hhere,hdrop,hmark]

/-- A character at which no mark stands is copied. -/
theorem scan_miss (h : atEdge=true → ¬r.mark <+: c::text) :
    r.scan edge mask atEdge (c::text)=c::r.scan edge mask (edge c) text := by
  have hnot : ¬(atEdge && r.mark.isPrefixOf (c::text))=true := by
    rw [Bool.and_eq_true,List.isPrefixOf_iff_prefix]
    exact fun hboth => h hboth.1 hboth.2
  rw [scan,if_neg hnot]

/-- Away from an edge a character is copied. -/
theorem scan_away : r.scan edge mask false (c::text)=c::r.scan edge mask (edge c) text :=
  scan_miss nofun

variable {front : List α}

/-- A stretch without an edge is copied. -/
theorem scan_inner (h : ∀ c∈front, edge c=false) :
    r.scan edge mask false (front ++ text) = front ++ r.scan edge mask false text := by
  induction front with
  | nil => rfl
  | cons c front ih =>
    rw [cons_append,scan_away,h c List.mem_cons_self,
      ih fun d hd => h d (List.mem_cons_of_mem c hd),cons_append]

/-- A stretch without an edge is copied where no mark stands. -/
theorem scan_stretch (hne : front≠[]) (h : ∀ c∈front, edge c=false)
    (hmiss : ¬r.mark <+: front ++ text) :
    r.scan edge mask atEdge (front ++ text) = front ++ r.scan edge mask false text := by
  cases front with
  | nil => exact absurd rfl hne
  | cons c front =>
    rw [cons_append] at hmiss ⊢
    rw [scan_miss fun _ => hmiss,h c List.mem_cons_self,
      scan_inner fun d hd => h d (List.mem_cons_of_mem c hd),cons_append]

omit [DecidableEq α] in
/-- The edge behind a last character. -/
theorem edgeAt_append_cons (done : List α) : edgeAt edge (done ++ [c])=edge c := by
  rw [edgeAt,getLast?_concat]

omit [DecidableEq α] in
/-- Behind a stretch without an edge there is none. -/
theorem edgeAt_inner {front : List α} (hne : front≠[]) (h : ∀ c∈front, edge c=false)
    (done : List α) : edgeAt edge (done ++ front)=false := by
  have hlast := dropLast_append_getLast hne
  rw [← hlast,← List.append_assoc,edgeAt_append_cons]
  exact h _ (getLast_mem hne)

/-- A text without the mark is copied. -/
theorem scan_of_locate_none (h : locate r.mark text=none) :
    r.scan edge mask atEdge text=text := by
  induction text generalizing atEdge with
  | nil => rw [scan]
  | cons c text ih =>
    rw [locate] at h
    by_cases hhere : r.mark.isPrefixOf (c::text)=true
    · rw [if_pos hhere] at h
      cases h
    · rw [if_neg hhere] at h
      have hmiss : ¬r.mark <+: c::text := fun hmark =>
        hhere (List.isPrefixOf_iff_prefix.mpr hmark)
      rw [scan_miss fun _ => hmiss,ih (Option.map_eq_none_iff.mp h)]

/-- What is in front of the first mark is copied. -/
theorem scan_of_locate (done : List α) (h : locate r.mark text=some (front,tail)) :
    r.scan edge mask (edgeAt edge done) text =
      front ++ r.scan edge mask (edgeAt edge (done ++ front)) (r.mark ++ tail) := by
  induction text generalizing done front with
  | nil => cases h
  | cons c text ih =>
    rw [locate] at h
    by_cases hhere : r.mark.isPrefixOf (c::text)=true
    · rw [if_pos hhere] at h
      obtain ⟨rest,hrest⟩ := List.isPrefixOf_iff_prefix.mp hhere
      cases h
      rw [nil_append,append_nil,← hrest,drop_left]
    · rw [if_neg hhere] at h
      have hmiss : ¬r.mark <+: c::text := fun hmark =>
        hhere (List.isPrefixOf_iff_prefix.mpr hmark)
      cases hlater : locate r.mark text with
      | none =>
        rw [hlater] at h
        cases h
      | some found =>
        rw [hlater] at h
        cases h
        have hrest := ih (done ++ [c]) hlater
        rw [edgeAt_append_cons,List.append_assoc,singleton_append] at hrest
        rw [scan_miss fun _ => hmiss,hrest,cons_append]

/-- The pass reads the rest of the text from left to right. -/
theorem maskFrom_eq (fits : r.Fits edge mask) (done rest : List α) :
    r.maskFrom edge mask done rest = done ++ r.scan edge mask (edgeAt edge done) rest := by
  induction hlen : rest.length using Nat.strong_induction_on generalizing done rest with
  | _ n ih =>
    rw [maskFrom]
    split
    case _ hnone => rw [scan_of_locate_none hnone]
    case _ front tail hfound =>
      have hpos := length_pos_iff.mpr r.mark_ne
      have hparts := congrArg length (locate_eq hfound)
      have hafter := r.after_length_le tail
      rw [length_append,length_append] at hparts
      rw [scan_of_locate done hfound]
      by_cases hedge : edgeAt edge (done ++ front)=true
      · have hrest := ih _ (by omega) (done ++ front ++ r.mark ++ r.gap tail ++ mask)
          (r.after tail) rfl
        rw [if_pos hedge,hrest,hedge,scan_hit,
          edgeAt_inner fits.mask_ne fits.mask_inner]
        simp only [List.append_assoc]
      · have hrest := ih _ (by omega) (done ++ front ++ r.mark) tail rfl
        rw [Bool.not_eq_true] at hedge
        rw [if_neg (by rw [hedge]; exact Bool.false_ne_true),hrest,hedge,
          scan_inner fits.mark_inner,edgeAt_inner r.mark_ne fits.mark_inner]
        simp only [List.append_assoc]

omit [DecidableEq α] in
/-- Where an edge stands no mark starts. -/
theorem not_mark_of_edge (fits : r.Fits edge mask) (hedge : edge c=true) :
    ¬r.mark <+: c::text := by
  intro hmark
  obtain ⟨m,marks,hcons⟩ := exists_cons_of_ne_nil r.mark_ne
  obtain ⟨rest,hrest⟩ := hmark
  rw [hcons] at hrest
  cases hrest
  have hinner := fits.mark_inner c (hcons ▸ List.mem_cons_self)
  rw [hedge] at hinner
  cases hinner

omit [DecidableEq α] in
/-- Where the mask stands no mark starts. -/
theorem not_mark_of_mask (fits : r.Fits edge mask) : ¬r.mark <+: mask ++ text := by
  intro hmark
  obtain ⟨m,marks,hcons⟩ := exists_cons_of_ne_nil r.mark_ne
  obtain ⟨d,masks,hmask⟩ := exists_cons_of_ne_nil fits.mask_ne
  obtain ⟨rest,hrest⟩ := hmark
  rw [hcons,hmask,cons_append,cons_append] at hrest
  have hhead : m=d := (cons.inj hrest).1
  exact fits.heads d masks hmask (by rw [hcons,hhead]; rfl)

/-- A text that is over or goes on with a stop. -/
def Ended (r : Rule α) : List α → Prop
  | [] => True
  | c::_ => c∈r.stops

/-- What follows a value has ended it. -/
theorem ended_after (tail : List α) : r.Ended (r.after tail) := by
  cases hafter : r.after tail with
  | nil => trivial
  | cons c rest =>
    have hhead := head?_dropWhile_not (!r.stops.contains ·) (r.atValue tail)
    rw [show (r.atValue tail).dropWhile (!r.stops.contains ·)=c::rest from hafter] at hhead
    have hc : c∈r.stops := by simpa using hhead
    exact hc

variable {other : Rule α}

/-- A pass keeps the end of a value where it is. -/
theorem scan_ended (fits : r.Fits edge mask) (hother : other.Fits edge mask)
    (h : other.Ended text) : other.Ended (r.scan edge mask atEdge text) := by
  cases text with
  | nil =>
    rw [scan]
    trivial
  | cons c text =>
    have hmiss : ¬r.mark <+: c::text := not_mark_of_edge fits (hother.stops_edge c h)
    rw [scan_miss fun _ => hmiss]
    exact h

/-- A gap and the mask are copied. -/
theorem scan_gap_mask (fits : r.Fits edge mask) {gap : List α}
    (hgap : ∀ c∈gap, edge c=true) :
    r.scan edge mask atEdge (gap ++ mask ++ text) =
      gap ++ mask ++ r.scan edge mask false text := by
  induction gap generalizing atEdge with
  | nil => exact scan_stretch fits.mask_ne fits.mask_inner (not_mark_of_mask fits)
  | cons c gap ih =>
    have hmiss : ¬r.mark <+: c::(gap ++ mask ++ text) :=
      not_mark_of_edge fits (hgap c List.mem_cons_self)
    rw [cons_append,cons_append,scan_miss fun _ => hmiss,
      ih fun d hd => hgap d (List.mem_cons_of_mem c hd)]
    rfl

/-- Whatever a gap holds may stand in front of a value. -/
theorem mem_gap (h : c∈r.gap tail) : c∈r.skips := by
  have hc := mem_takeWhile_imp h
  simpa using hc

/-- A gap is made of edges. -/
theorem gap_edge (fits : r.Fits edge mask) (h : c∈r.gap tail) : edge c=true :=
  fits.skips_edge c (mem_gap h)

variable (mask r) in
/-- The value behind a mark is the mask. -/
def Hidden (tail : List α) : Prop := r.atValue tail = mask ++ r.after tail

/-- Characters that are no edge are no skips and no stops. -/
theorem not_contains {chars : List α} (hchars : ∀ c∈chars, edge c=true) {c : α}
    (hc : edge c=false) : chars.contains c=false := by
  rw [← Bool.not_eq_true,contains_iff_mem]
  intro hmem
  rw [hchars c hmem] at hc
  cases hc

/-- A stretch without an edge belongs to the value. -/
theorem behindValue_inner (fits : r.Fits edge mask) (hinner : ∀ c∈front, edge c=false) :
    r.behindValue (front ++ text)=r.behindValue text := by
  have hstops : ∀ c∈front, (!r.stops.contains c)=true := fun c hc => by
    rw [not_contains fits.stops_edge (hinner c hc)]
    rfl
  rw [behindValue,dropWhile_append_of_pos hstops]
  rfl

/-- A value without an edge starts behind the separator. -/
theorem gap_value (fits : r.Fits edge mask) (hne : front≠[])
    (hinner : ∀ c∈front, edge c=false) :
    r.gap (front ++ text)=[] ∧ r.atValue (front ++ text) = front ++ text := by
  obtain ⟨d,ds,hd⟩ := exists_cons_of_ne_nil hne
  have hnot : ¬r.skips.contains d=true := by
    rw [not_contains fits.skips_edge (hinner d (hd ▸ List.mem_cons_self))]
    exact Bool.false_ne_true
  rw [gap,atValue,hd,cons_append,List.takeWhile_cons_of_neg hnot,
    List.dropWhile_cons_of_neg hnot]
  exact ⟨rfl,rfl⟩

/-- What follows a value without an edge. -/
theorem after_value (fits : r.Fits edge mask) (hne : front≠[])
    (hinner : ∀ c∈front, edge c=false) : r.after (front ++ text)=r.behindValue text := by
  rw [after,(gap_value fits hne hinner).2,behindValue_inner fits hinner]

/-- A gap, the mask and the end of a value are a hidden value. -/
theorem hidden_of_mask (fits : r.Fits edge mask) {gap : List α} (hgap : ∀ c∈gap, c∈r.skips)
    (htext : r.Ended text) : r.Hidden mask (gap ++ mask ++ text) := by
  have hgaps : ∀ c∈gap, r.skips.contains c=true := fun c hc =>
    contains_iff_mem.mpr (hgap c hc)
  have hend : r.behindValue text=text := by
    cases text with
    | nil => rfl
    | cons e text =>
      have he : r.stops.contains e=true := contains_iff_mem.mpr htext
      rw [behindValue,List.dropWhile_cons_of_neg (by rw [he]; exact Bool.false_ne_true)]
  have hvalue : r.atValue (gap ++ mask ++ text) = mask ++ text := by
    rw [atValue,List.append_assoc,dropWhile_append_of_pos hgaps,← atValue,
      (gap_value fits fits.mask_ne fits.mask_inner).2]
  rw [Hidden,after,hvalue,behindValue_inner fits fits.mask_inner,hend]

variable (edge mask r) in
/-- Every mark at an edge has a hidden value. -/
def Masked : Bool → List α → Prop
  | _,[] => True
  | atEdge,c::text =>
    (atEdge=true → ∀ tail, c::text = r.mark ++ tail → r.Hidden mask tail) ∧
      Masked (edge c) text

/-- A stretch without an edge is masked when its own start is. -/
theorem masked_stretch (hinner : ∀ c∈front, edge c=false)
    (hhead : atEdge=true → ∀ tail, front ++ text = r.mark ++ tail → r.Hidden mask tail)
    (h : r.Masked edge mask false text) (hne : front≠[]) :
    r.Masked edge mask atEdge (front ++ text) := by
  induction front generalizing atEdge with
  | nil => exact absurd rfl hne
  | cons c front ih =>
    refine ⟨hhead,?_⟩
    rw [hinner c List.mem_cons_self]
    by_cases hfront : front=[]
    · rw [hfront]
      exact h
    · exact ih (fun d hd => hinner d (List.mem_cons_of_mem c hd)) nofun hfront

/-- A gap and the mask hide nothing. -/
theorem masked_gap_mask (fits : r.Fits edge mask) {gap : List α}
    (hgap : ∀ c∈gap, edge c=true) (h : r.Masked edge mask false text) :
    r.Masked edge mask atEdge (gap ++ mask ++ text) := by
  induction gap generalizing atEdge with
  | nil =>
    have hhead : atEdge=true → ∀ tail, mask ++ text = r.mark ++ tail → r.Hidden mask tail :=
      fun _ tail htail => absurd ⟨tail,htail.symm⟩ (not_mark_of_mask fits)
    exact masked_stretch fits.mask_inner hhead h fits.mask_ne
  | cons c gap ih =>
    have hedge := hgap c List.mem_cons_self
    constructor
    case left =>
      intro _ tail htail
      exact absurd ⟨tail,htail.symm⟩ (not_mark_of_edge fits hedge)
    case right => exact ih fun d hd => hgap d (List.mem_cons_of_mem c hd)

/-- The second part of a text is masked where the whole is. -/
theorem Masked.behind (h : r.Masked edge mask atEdge (front ++ c::text)) :
    r.Masked edge mask (edge c) text := by
  induction front generalizing atEdge with
  | nil => exact h.2
  | cons d front ih => exact ih h.2

/-- The end of a masked text is masked, with no edge in front of it. -/
theorem Masked.suffix (h : r.Masked edge mask atEdge (front ++ text)) :
    r.Masked edge mask false text := by
  cases text with
  | nil => trivial
  | cons c text => exact ⟨nofun,h.behind⟩

/-- What follows a value is the end of what follows the mark. -/
theorem tail_eq (tail : List α) : ∃ front, tail = front ++ r.after tail := by
  have hvalue : r.atValue tail <:+ tail := dropWhile_suffix _
  have hafter : r.after tail <:+ r.atValue tail := dropWhile_suffix _
  obtain ⟨front,hfront⟩ := hafter.trans hvalue
  exact ⟨front,hfront.symm⟩

/-- A pass leaves a text alone in which it has nothing to hide. -/
theorem scan_of_masked (h : r.Masked edge mask atEdge text) :
    r.scan edge mask atEdge text=text := by
  induction hlen : text.length using Nat.strong_induction_on generalizing atEdge text with
  | _ n ih =>
    cases text with
    | nil => rw [scan]
    | cons c text =>
      by_cases hhere : atEdge=true ∧ r.mark <+: c::text
      · obtain ⟨hedge,tail,htail⟩ := hhere
        have hpos := length_pos_iff.mpr r.mark_ne
        have hparts := congrArg length htail
        have hafter := r.after_length_le tail
        rw [length_append] at hparts
        have hhidden := h.1 hedge tail htail.symm
        obtain ⟨front,hfront⟩ := r.tail_eq tail
        have hrest : r.Masked edge mask false (r.after tail) := by
          rw [← htail,hfront,← List.append_assoc] at h
          exact h.suffix
        have hkeep := ih _ (by omega) hrest rfl
        have hgap : r.gap tail ++ r.atValue tail = tail := takeWhile_append_dropWhile
        rw [hedge,← htail,scan_hit,hkeep,List.append_assoc,← hhidden,List.append_assoc,hgap]
      · have hmiss : atEdge=true → ¬r.mark <+: c::text := fun hedge hmark =>
          hhere ⟨hedge,hmark⟩
        rw [scan_miss hmiss,ih text.length (by rw [← hlen]; exact Nat.lt_succ_self _) h.2 rfl]

/-- A copied stretch in front of a mark's end comes from the text. -/
theorem scan_inner_eq (hinner : ∀ c∈front, edge c=false)
    (h : r.scan edge mask false text = front ++ tail) :
    ∃ rest, text = front ++ rest ∧ tail=r.scan edge mask false rest := by
  induction front generalizing text with
  | nil => exact ⟨text,rfl,h.symm⟩
  | cons c front ih =>
    cases text with
    | nil =>
      rw [scan] at h
      cases h
    | cons d text =>
      rw [scan_away,cons_append,cons.injEq] at h
      obtain ⟨hd,hrest⟩ := h
      rw [hd,hinner c List.mem_cons_self] at hrest
      obtain ⟨rest,htext,htail⟩ := ih (fun e he => hinner e (List.mem_cons_of_mem c he)) hrest
      rw [hd,htext]
      exact ⟨rest,rfl,htail⟩

/-- A mark that starts with a copied character stands in the text. -/
theorem mark_of_copied (fits : r.Fits edge mask)
    (h : c::other.scan edge mask (edge c) text = r.mark ++ tail) :
    ∃ rest, c::text = r.mark ++ rest ∧ tail=other.scan edge mask false rest := by
  obtain ⟨m,marks,hcons⟩ := exists_cons_of_ne_nil r.mark_ne
  rw [hcons,cons_append,cons.injEq] at h
  obtain ⟨hm,hrest⟩ := h
  have hinner : ∀ d∈m::marks, edge d=false := hcons ▸ fits.mark_inner
  rw [hm,hinner m List.mem_cons_self] at hrest
  obtain ⟨rest,htext,htail⟩ :=
    scan_inner_eq (fun d hd => hinner d (List.mem_cons_of_mem m hd)) hrest
  rw [hcons,hm,htext]
  exact ⟨rest,rfl,htail⟩

/-- After a hit the text is masked when what follows the value is. -/
theorem masked_hit (fits : r.Fits edge mask) (hother : other.Fits edge mask)
    (hhead : ∀ rest, other.mark ++ (other.gap tail ++ mask ++
        other.scan edge mask false (other.after tail)) = r.mark ++ rest → r.Hidden mask rest)
    (h : r.Masked edge mask false (other.scan edge mask false (other.after tail))) :
    r.Masked edge mask true (other.scan edge mask true (other.mark ++ tail)) := by
  rw [scan_hit,List.append_assoc,List.append_assoc,← List.append_assoc (other.gap tail)]
  have hgap : ∀ c∈other.gap tail, edge c=true := fun c hc => gap_edge hother hc
  exact masked_stretch hother.mark_inner (fun _ => hhead) (masked_gap_mask fits hgap h)
    other.mark_ne

/-- After a pass everything it looks for is hidden. -/
theorem masked_scan (fits : r.Fits edge mask) :
    r.Masked edge mask atEdge (r.scan edge mask atEdge text) := by
  induction hlen : text.length using Nat.strong_induction_on generalizing atEdge text with
  | _ n ih =>
    cases text with
    | nil =>
      rw [scan]
      trivial
    | cons c text =>
      by_cases hhere : atEdge=true ∧ r.mark <+: c::text
      · obtain ⟨hedge,tail,htail⟩ := hhere
        have hpos := length_pos_iff.mpr r.mark_ne
        have hparts := congrArg length htail
        have hafter := r.after_length_le tail
        rw [length_append] at hparts
        have hended : r.Ended (r.scan edge mask false (r.after tail)) :=
          scan_ended fits fits (ended_after tail)
        have hhidden := hidden_of_mask fits (fun c (hc : c∈r.gap tail) => mem_gap hc) hended
        rw [hedge,← htail]
        refine masked_hit fits fits ?_ (ih _ (by omega) rfl)
        intro rest hrest
        rw [← append_cancel_left hrest]
        exact hhidden
      · have hmiss : atEdge=true → ¬r.mark <+: c::text := fun hedge hmark =>
          hhere ⟨hedge,hmark⟩
        rw [scan_miss hmiss]
        refine ⟨?_,ih text.length (by rw [← hlen]; exact Nat.lt_succ_self _) rfl⟩
        intro hedge tail htail
        obtain ⟨rest,hrest,_⟩ := mark_of_copied fits htail
        exact absurd ⟨rest,hrest.symm⟩ (hmiss hedge)

/-- Two marks of which no text starts with both. -/
def Apart (r other : Rule α) : Prop := ∀ text, r.mark <+: text → ¬other.mark <+: text

/-- A pass keeps hidden what another pass hides. -/
theorem Masked.scan (fits : r.Fits edge mask) (hother : other.Fits edge mask)
    (hapart : r.Apart other) (h : r.Masked edge mask atEdge text) :
    r.Masked edge mask atEdge (other.scan edge mask atEdge text) := by
  induction hlen : text.length using Nat.strong_induction_on generalizing atEdge text with
  | _ n ih =>
    cases text with
    | nil =>
      rw [Rule.scan]
      trivial
    | cons c text =>
      by_cases hhere : atEdge=true ∧ other.mark <+: c::text
      · obtain ⟨hedge,tail,htail⟩ := hhere
        have hpos := length_pos_iff.mpr other.mark_ne
        have hparts := congrArg length htail
        have hafter := other.after_length_le tail
        rw [length_append] at hparts
        obtain ⟨front,hfront⟩ := other.tail_eq tail
        rw [hedge,← htail] at h ⊢
        have hrest : r.Masked edge mask false (other.after tail) := by
          rw [hfront,← List.append_assoc] at h
          exact h.suffix
        refine masked_hit fits hother ?_ (ih _ (by omega) hrest rfl)
        intro rest hrest
        exact absurd ⟨_,rfl⟩ (hapart _ ⟨rest,hrest.symm⟩)
      · have hmiss : atEdge=true → ¬other.mark <+: c::text := fun hedge hmark =>
          hhere ⟨hedge,hmark⟩
        rw [scan_miss hmiss]
        refine ⟨?_,ih text.length (by rw [← hlen]; exact Nat.lt_succ_self _) h.2 rfl⟩
        intro hedge tail htail
        obtain ⟨rest,hrest,hscan⟩ := mark_of_copied fits htail
        have hhidden := h.1 hedge rest hrest
        have hended : r.Ended (other.scan edge mask false (r.after rest)) :=
          scan_ended hother fits (ended_after rest)
        have hgap : r.gap rest ++ r.atValue rest = rest := takeWhile_append_dropWhile
        rw [hhidden,← List.append_assoc] at hgap
        have hcopied : other.scan edge mask false (r.gap rest ++ mask ++ r.after rest) =
            r.gap rest ++ mask ++ other.scan edge mask false (r.after rest) :=
          scan_gap_mask hother fun c hc => gap_edge fits hc
        rw [hgap] at hcopied
        rw [hscan,hcopied]
        exact hidden_of_mask fits (fun c hc => mem_gap hc) hended

/-- A text without the mark at an edge has nothing to hide. -/
theorem masked_of_absent {done : List α}
    (h : ∀ front tail, text = front ++ r.mark ++ tail → edgeAt edge (done ++ front)=false) :
    r.Masked edge mask (edgeAt edge done) text := by
  induction text generalizing done with
  | nil => trivial
  | cons c text ih =>
    constructor
    case left =>
      intro hedge tail htail
      have hnot := h [] tail htail
      rw [append_nil,hedge] at hnot
      cases hnot
    case right =>
      have hstate : edge c=edgeAt edge (done ++ [c]) := (edgeAt_append_cons done).symm
      rw [hstate]
      refine ih fun front tail htext => ?_
      rw [List.append_assoc]
      exact h (c::front) tail (by rw [htext]; rfl)

end Rule

/-- Two texts that differ only in the values behind marks that stand at an edge. -/
inductive Alike (edge : α → Bool) (hidden : List α → Prop) : Bool → List α → List α → Prop
  | nil {atEdge : Bool} : Alike edge hidden atEdge [] []
  | letter {atEdge : Bool} (c : α) {s t : List α} (rest : Alike edge hidden (edge c) s t) :
    Alike edge hidden atEdge (c::s) (c::t)
  | value {mark v w s t : List α} (hmark : hidden mark) (hv : v≠[]) (hw : w≠[])
    (hvs : ∀ c∈v, edge c=false) (hws : ∀ c∈w, edge c=false)
    (rest : Alike edge hidden false s t) :
    Alike edge hidden true (mark ++ v ++ s) (mark ++ w ++ t)

/-- The hidden marks hold something and no edge. -/
def Inner (edge : α → Bool) (hidden : List α → Prop) : Prop :=
  ∀ mark, hidden mark → mark≠[] ∧ ∀ c∈mark, edge c=false

namespace Alike

variable {edge mask} {hidden : List α → Prop} {atEdge : Bool} {s t : List α}

omit [DecidableEq α] in
/-- Being alike goes both ways. -/
theorem symm (h : Alike edge hidden atEdge s t) : Alike edge hidden atEdge t s := by
  induction h with
  | nil => exact nil
  | letter c _ ih => exact letter c ih
  | value hmark hv hw hvs hws _ ih => exact value hmark hw hv hws hvs ih

omit [DecidableEq α] in
/-- Texts without hidden values are the same. -/
theorem eq (hnone : ∀ mark, ¬hidden mark) (h : Alike edge hidden atEdge s t) : s=t := by
  induction h with
  | nil => rfl
  | letter c _ ih => rw [ih]
  | value hmark _ _ _ _ _ _ => exact absurd hmark (hnone _)

omit [DecidableEq α] in
/-- A stretch without an edge is common to both texts. -/
theorem front {front : List α} (hinner : ∀ c∈front, edge c=false)
    (h : Alike edge hidden false (front ++ s) t) :
    ∃ rest, t = front ++ rest ∧ Alike edge hidden false s rest := by
  induction front generalizing t with
  | nil => exact ⟨t,rfl,h⟩
  | cons c front ih =>
    cases h with
    | letter _ rest =>
      rw [hinner c List.mem_cons_self] at rest
      obtain ⟨tail,htail,hrest⟩ := ih (fun d hd => hinner d (List.mem_cons_of_mem c hd)) rest
      exact ⟨tail,by rw [htail]; rfl,hrest⟩

omit [DecidableEq α] in
/-- A common stretch without an edge. -/
theorem inner {front : List α} (hinner : ∀ c∈front, edge c=false) (hne : front≠[])
    (h : Alike edge hidden false s t) : Alike edge hidden atEdge (front ++ s) (front ++ t) := by
  induction front generalizing atEdge with
  | nil => exact absurd rfl hne
  | cons c front ih =>
    refine letter c ?_
    rw [hinner c List.mem_cons_self]
    by_cases hfront : front=[]
    · rw [hfront]
      exact h
    · exact ih (fun d hd => hinner d (List.mem_cons_of_mem c hd)) hfront

omit [DecidableEq α] in
/-- A common stretch. -/
theorem common (front : List α) (h : ∀ atEdge, Alike edge hidden atEdge s t) :
    Alike edge hidden atEdge (front ++ s) (front ++ t) := by
  induction front generalizing atEdge with
  | nil => exact h atEdge
  | cons c front ih => exact letter c ih

omit [DecidableEq α] in
/-- The mark starts both texts or neither. -/
theorem starts {r : Rule α} (fits : r.Fits edge mask) {c : α} {tail : List α}
    (h : Alike edge hidden (edge c) s t) (hs : c::s = r.mark ++ tail) :
    ∃ rest, c::t = r.mark ++ rest ∧ Alike edge hidden false tail rest := by
  obtain ⟨m,marks,hcons⟩ := exists_cons_of_ne_nil r.mark_ne
  have hinner : ∀ d∈m::marks, edge d=false := hcons ▸ fits.mark_inner
  rw [hcons,cons_append,cons.injEq] at hs
  obtain ⟨hc,hs⟩ := hs
  rw [hc,hinner m List.mem_cons_self,hs] at h
  obtain ⟨rest,ht,hrest⟩ := h.front fun d hd => hinner d (List.mem_cons_of_mem m hd)
  exact ⟨rest,by rw [hc,ht,hcons]; rfl,hrest⟩

variable {r : Rule α}

/-- Both texts have the same gap, and behind it they are still alike. -/
theorem atValue (fits : r.Fits edge mask) (hidden_inner : Inner edge hidden)
    (h : Alike edge hidden atEdge s t) :
    r.gap s=r.gap t ∧ ∃ later, Alike edge hidden later (r.atValue s) (r.atValue t) := by
  induction h with
  | nil => exact ⟨rfl,false,nil⟩
  | @letter atEdge c s t rest ih =>
    by_cases hc : r.skips.contains c=true
    · rw [Rule.gap,Rule.gap,List.takeWhile_cons_of_pos hc,List.takeWhile_cons_of_pos hc,
        Rule.atValue,Rule.atValue,List.dropWhile_cons_of_pos hc,List.dropWhile_cons_of_pos hc]
      exact ⟨congrArg _ ih.1,ih.2⟩
    · rw [Rule.gap,Rule.gap,List.takeWhile_cons_of_neg hc,List.takeWhile_cons_of_neg hc,
        Rule.atValue,Rule.atValue,List.dropWhile_cons_of_neg hc,List.dropWhile_cons_of_neg hc]
      exact ⟨rfl,atEdge,letter c rest⟩
  | @value mark v w s t hmark hv hw hvs hws rest _ =>
    have hboth := value hmark hv hw hvs hws rest
    obtain ⟨m,marks,hcons⟩ := exists_cons_of_ne_nil (hidden_inner mark hmark).1
    have hm : ¬r.skips.contains m=true := by
      have hinner := (hidden_inner mark hmark).2 m (hcons ▸ List.mem_cons_self)
      rw [Rule.not_contains fits.skips_edge hinner]
      exact Bool.false_ne_true
    rw [hcons,cons_append,cons_append,cons_append,cons_append] at hboth ⊢
    rw [Rule.gap,Rule.gap,List.takeWhile_cons_of_neg hm,List.takeWhile_cons_of_neg hm,
      Rule.atValue,Rule.atValue,List.dropWhile_cons_of_neg hm,List.dropWhile_cons_of_neg hm]
    exact ⟨rfl,true,hboth⟩

/-- Both values end at the same place. -/
theorem behindValue (fits : r.Fits edge mask) (hidden_inner : Inner edge hidden)
    (h : Alike edge hidden atEdge s t) :
    Alike edge hidden false (r.behindValue s) (r.behindValue t) := by
  induction h with
  | nil => exact nil
  | @letter atEdge c s t rest ih =>
    by_cases hc : (!r.stops.contains c)=true
    · rw [Rule.behindValue,Rule.behindValue,
        List.dropWhile_cons_of_pos (p := (!r.stops.contains ·)) hc,
        List.dropWhile_cons_of_pos (p := (!r.stops.contains ·)) hc]
      exact ih
    · rw [Rule.behindValue,Rule.behindValue,
        List.dropWhile_cons_of_neg (p := (!r.stops.contains ·)) hc,
        List.dropWhile_cons_of_neg (p := (!r.stops.contains ·)) hc]
      exact letter c rest
  | @value mark v w s t hmark hv hw hvs hws rest ih =>
    rw [List.append_assoc,List.append_assoc,
      Rule.behindValue_inner fits (hidden_inner mark hmark).2,
      Rule.behindValue_inner fits (hidden_inner mark hmark).2,Rule.behindValue_inner fits hvs,
      Rule.behindValue_inner fits hws]
    exact ih

/-- What follows the values is alike. -/
theorem after (fits : r.Fits edge mask) (hidden_inner : Inner edge hidden)
    (h : Alike edge hidden atEdge s t) : Alike edge hidden false (r.after s) (r.after t) := by
  obtain ⟨_,later,hvalue⟩ := h.atValue fits hidden_inner
  exact hvalue.behindValue fits hidden_inner

/-- A pass takes the values behind its mark away. -/
theorem scan (fits : r.Fits edge mask) (hidden_inner : Inner edge hidden)
    (hapart : ∀ mark, hidden mark → mark≠r.mark → ∀ text, ¬r.mark <+: mark ++ text)
    (h : Alike edge hidden atEdge s t) :
    Alike edge (fun mark => hidden mark ∧ mark≠r.mark) atEdge (r.scan edge mask atEdge s)
      (r.scan edge mask atEdge t) := by
  induction hlen : s.length using Nat.strong_induction_on generalizing atEdge s t with
  | _ n ih =>
    cases h with
    | nil =>
      rw [Rule.scan]
      exact nil
    | @letter _ c s t rest =>
      by_cases hhere : atEdge=true ∧ r.mark <+: c::s
      · obtain ⟨hedge,tail,htail⟩ := hhere
        have hpos := length_pos_iff.mpr r.mark_ne
        have hparts := congrArg length htail
        have hafter := r.after_length_le tail
        rw [length_append] at hparts
        obtain ⟨tail',htail',hrest⟩ := rest.starts fits htail.symm
        have hlater := ih _ (by omega) (hrest.after fits hidden_inner) rfl
        rw [hedge,← htail,htail',Rule.scan_hit,Rule.scan_hit,
          ← (hrest.atValue fits hidden_inner).1,List.append_assoc _ mask,List.append_assoc _ mask]
        exact common _ fun _ => hlater.inner fits.mask_inner fits.mask_ne
      · have hs : atEdge=true → ¬r.mark <+: c::s := fun hedge hmark => hhere ⟨hedge,hmark⟩
        have ht : atEdge=true → ¬r.mark <+: c::t := by
          rintro hedge ⟨tail,htail⟩
          obtain ⟨tail',htail',_⟩ := rest.symm.starts fits htail.symm
          exact hs hedge ⟨tail',htail'.symm⟩
        rw [Rule.scan_miss hs,Rule.scan_miss ht]
        exact letter c (ih s.length (by rw [← hlen]; exact Nat.lt_succ_self _) rest rfl)
    | @value mark v w s t hmark hv hw hvs hws rest =>
      have hpos := length_pos_iff.mpr hv
      rw [length_append,length_append] at hlen
      by_cases hsame : mark=r.mark
      · have hlength : (r.behindValue s).length ≤ s.length :=
          (dropWhile_suffix _).length_le
        have hlater := ih _ (by omega) (rest.behindValue fits hidden_inner) rfl
        rw [hsame,List.append_assoc,List.append_assoc,Rule.scan_hit,Rule.scan_hit,
          (Rule.gap_value fits hv hvs).1,(Rule.gap_value fits hw hws).1,
          Rule.after_value fits hv hvs,Rule.after_value fits hw hws,
          List.append_assoc _ mask,List.append_assoc _ mask]
        exact common _ fun _ => hlater.inner fits.mask_inner fits.mask_ne
      · have hcopy : ∀ {v s : List α}, (∀ c∈v, edge c=false) →
            r.scan edge mask true (mark ++ v ++ s) = mark ++ v ++ r.scan edge mask false s := by
          intro v s hvs
          refine Rule.scan_stretch ?_ ?_ ?_
          · exact fun hnil => (hidden_inner mark hmark).1 (List.append_eq_nil_iff.mp hnil).1
          · intro c hc
            rcases mem_append.mp hc with hc | hc
            · exact (hidden_inner mark hmark).2 c hc
            · exact hvs c hc
          · rw [List.append_assoc]
            exact hapart mark hmark hsame _
        rw [hcopy hvs,hcopy hws]
        exact value ⟨hmark,hsame⟩ hv hw hvs hws (ih _ (by omega) rest rfl)

end Alike

/-- One pass after the other over the whole text. -/
def maskAll (rules : List (Rule α)) (text : List α) : List α :=
  rules.foldl (fun text r => r.maskFrom edge mask [] text) text

variable {edge mask} {rules : List (Rule α)} {text s t : List α}

/-- The first pass reads the text from its start. -/
theorem maskAll_cons {r : Rule α} (fits : r.Fits edge mask) :
    maskAll edge mask (r::rules) text=maskAll edge mask rules (r.scan edge mask true text) := by
  rw [maskAll,List.foldl_cons,Rule.maskFrom_eq fits]
  rfl

/-- Later passes keep hidden what is hidden. -/
theorem masked_maskAll {r : Rule α} (fits : r.Fits edge mask)
    (hfits : ∀ other∈rules, other.Fits edge mask) (hapart : ∀ other∈rules, r.Apart other)
    (h : r.Masked edge mask true text) :
    r.Masked edge mask true (maskAll edge mask rules text) := by
  induction rules generalizing text with
  | nil => exact h
  | cons other rules ih =>
    have hother := hfits other List.mem_cons_self
    rw [maskAll_cons hother]
    exact ih (fun r hr => hfits r (List.mem_cons_of_mem other hr))
      (fun r hr => hapart r (List.mem_cons_of_mem other hr))
      (h.scan fits hother (hapart other List.mem_cons_self))

/-- After all passes everything they look for is hidden. -/
theorem all_masked (hfits : ∀ r∈rules, r.Fits edge mask) (hapart : rules.Pairwise Rule.Apart) :
    ∀ r∈rules, r.Masked edge mask true (maskAll edge mask rules text) := by
  induction rules generalizing text with
  | nil => exact fun r hr => absurd hr not_mem_nil
  | cons first rules ih =>
    have hfirst := hfits first List.mem_cons_self
    have hrest : ∀ r∈rules, r.Fits edge mask := fun r hr =>
      hfits r (List.mem_cons_of_mem first hr)
    obtain ⟨hhead,htail⟩ := pairwise_cons.mp hapart
    rw [maskAll_cons hfirst]
    intro r hr
    rcases mem_cons.mp hr with rfl | hr
    · exact masked_maskAll hfirst hrest hhead (Rule.masked_scan hfirst)
    · exact ih hrest htail r hr

/-- A text in which no pass has anything to hide stays. -/
theorem maskAll_of_masked (hfits : ∀ r∈rules, r.Fits edge mask)
    (h : ∀ r∈rules, r.Masked edge mask true text) : maskAll edge mask rules text=text := by
  induction rules with
  | nil => rfl
  | cons first rules ih =>
    rw [maskAll_cons (hfits first List.mem_cons_self),
      Rule.scan_of_masked (h first List.mem_cons_self)]
    exact ih (fun r hr => hfits r (List.mem_cons_of_mem first hr))
      (fun r hr => h r (List.mem_cons_of_mem first hr))

/-- Masking a masked text changes nothing. -/
theorem maskAll_idem (hfits : ∀ r∈rules, r.Fits edge mask) (hapart : rules.Pairwise Rule.Apart) :
    maskAll edge mask rules (maskAll edge mask rules text)=maskAll edge mask rules text :=
  maskAll_of_masked hfits (all_masked hfits hapart)

/-- The passes take the values behind their marks away. -/
theorem Alike.maskAll {hidden : List α → Prop} (hidden_inner : Inner edge hidden)
    (hfits : ∀ r∈rules, r.Fits edge mask)
    (hapart : ∀ mark, hidden mark → ∀ r∈rules, mark≠r.mark → ∀ text, ¬r.mark <+: mark ++ text)
    (h : Alike edge hidden true s t) :
    Alike edge (fun mark => hidden mark ∧ ∀ r∈rules, mark≠r.mark) true
      (maskAll edge mask rules s) (maskAll edge mask rules t) := by
  induction rules generalizing hidden s t with
  | nil =>
    have hnone : hidden = fun mark => hidden mark ∧ ∀ r∈([] : List (Rule α)), mark≠r.mark := by
      funext mark
      exact propext ⟨fun hmark => ⟨hmark,nofun⟩,And.left⟩
    rw [← hnone]
    exact h
  | cons first rules ih =>
    have hfirst := hfits first List.mem_cons_self
    have hscan := h.scan hfirst hidden_inner
      fun mark hmark => hapart mark hmark first List.mem_cons_self
    have hrest := ih (fun mark hmark => hidden_inner mark hmark.1)
      (fun r hr => hfits r (List.mem_cons_of_mem first hr))
      (fun mark hmark r hr => hapart mark hmark.1 r (List.mem_cons_of_mem first hr)) hscan
    have hall : (fun mark => (hidden mark ∧ mark≠first.mark) ∧ ∀ r∈rules, mark≠r.mark) =
        fun mark => hidden mark ∧ ∀ r∈first::rules, mark≠r.mark := by
      funext mark
      rw [forall_mem_cons,and_assoc]
    rw [maskAll_cons hfirst,maskAll_cons hfirst,← hall]
    exact hrest

/-- The marks of some passes. -/
def Marks (rules : List (Rule α)) (mark : List α) : Prop := ∃ r∈rules, mark=r.mark

omit [DecidableEq α] in
/-- The marks of passes that fit hold no edge. -/
theorem inner_marks (hfits : ∀ r∈rules, r.Fits edge mask) : Inner edge (Marks rules) := by
  rintro mark ⟨r,hr,rfl⟩
  exact ⟨r.mark_ne,(hfits r hr).mark_inner⟩

/-- Texts that differ only in values behind the marks of the passes are masked to
the same text. -/
theorem maskAll_eq_of_alike (hfits : ∀ r∈rules, r.Fits edge mask)
    (hapart : rules.Pairwise Rule.Apart) (h : Alike edge (Marks rules) true s t) :
    maskAll edge mask rules s=maskAll edge mask rules t := by
  have hsymm : Std.Symm (Rule.Apart (α := α)) := ⟨fun r other h text hother hr => h text hr hother⟩
  have hleft : ∀ mark, Marks rules mark → ∀ r∈rules, mark≠r.mark →
      ∀ text, ¬r.mark <+: mark ++ text := by
    rintro mark ⟨other,hother,rfl⟩ r hr hne text hprefix
    have hpair := hapart.forall hother hr fun h => hne (congrArg Rule.mark h)
    exact hpair _ ⟨text,rfl⟩ hprefix
  refine Alike.eq ?_ (h.maskAll (inner_marks hfits) hfits hleft)
  rintro mark ⟨⟨r,hr,hmark⟩,hnone⟩
  exact hnone r hr hmark

variable {ι : Type*}

/-- A text with numbered holes filled in. -/
def fill (filling : ι → List α) (text : List (α ⊕ ι)) : List α :=
  text.flatMap (Sum.elim (fun c => [c]) filling)

/-- Every hole directly follows a mark that stands at an edge. -/
def Placed (edge : α → Bool) (marks : List α → Prop) (atEdge : Bool) (text : List (α ⊕ ι)) : Prop :=
  ∀ before n behind, text = before ++ Sum.inr n::behind →
    ∃ front mark, marks mark ∧ before = front ++ mark.map Sum.inl ∧
      ((front=[] ∧ atEdge=true) ∨ ∃ rest c, front = rest ++ [Sum.inl c] ∧ edge c=true)

section holes

variable {edge : α → Bool} {marks : List α → Prop} {atEdge : Bool} {filling : ι → List α}
  {letters : List α} {n : ι} {later text : List (α ⊕ ι)}

omit [DecidableEq α] in
/-- Letters stay when holes are filled. -/
theorem fill_letters :
    fill filling (letters.map Sum.inl ++ text) = letters ++ fill filling text := by
  induction letters with
  | nil => rfl
  | cons c letters ih => exact congrArg (c :: ·) ih

omit [DecidableEq α] in
/-- A hole is filled with what is meant for it. -/
theorem fill_hole : fill filling (Sum.inr n::text) = filling n ++ fill filling text := rfl

omit [DecidableEq α] in
/-- Behind a hole the other holes are placed, with no edge in front. -/
theorem Placed.behind_hole
    (h : Placed edge marks atEdge (letters.map Sum.inl ++ Sum.inr n::later)) :
    Placed edge marks false later := by
  intro before k behind hlater
  obtain ⟨front,mark,hmark,hbefore,hedge⟩ :=
    h (letters.map Sum.inl ++ Sum.inr n::before) k behind (by rw [hlater]; simp)
  have hletter : Sum.inr n ∉ mark.map (Sum.inl (β := ι)) := by
    intro hmem
    obtain ⟨c,_,hc⟩ := mem_map.mp hmem
    cases hc
  rcases append_eq_append_iff.mp hbefore with ⟨rest,hfront,hrest⟩ | ⟨rest,_,hrest⟩
  · cases rest with
    | nil =>
      rw [nil_append] at hrest
      exact absurd (hrest ▸ List.mem_cons_self) hletter
    | cons x rest =>
      rw [cons_append,cons.injEq] at hrest
      obtain ⟨hx,hrest⟩ := hrest
      refine ⟨rest,mark,hmark,hrest,Or.inr ?_⟩
      rcases hedge with ⟨hnil,_⟩ | ⟨first,c,hlast,hedge⟩
      · rw [hnil] at hfront
        exact absurd hfront.symm (append_ne_nil_of_right_ne_nil _ (cons_ne_nil _ _))
      · rw [hfront] at hlast
        rcases eq_nil_or_concat rest with hnil | ⟨others,d,hothers⟩
        · rw [hnil,← hx] at hlast
          have hends := (append_inj' hlast rfl).2
          cases hends
        · rw [hothers,concat_eq_append,← cons_append,← List.append_assoc] at hlast
          have hends := (append_inj' hlast rfl).2
          refine ⟨others,c,?_,hedge⟩
          rw [hothers,concat_eq_append,hends]
  · exact absurd (hrest ▸ mem_append_right rest List.mem_cons_self) hletter

omit [DecidableEq α] in
/-- Behind a letter that does not start a mark with its hole the holes are placed. -/
theorem Placed.tail {c : α} (h : Placed edge marks atEdge (Sum.inl c::text))
    (hnot : ¬∃ mark n later, marks mark ∧ atEdge=true ∧
      Sum.inl c::text = mark.map Sum.inl ++ Sum.inr n::later) :
    Placed edge marks (edge c) text := by
  intro before n behind htext
  obtain ⟨front,mark,hmark,hbefore,hedge⟩ :=
    h (Sum.inl c::before) n behind (by rw [htext]; rfl)
  cases front with
  | nil =>
    rcases hedge with ⟨_,hedge⟩ | ⟨rest,d,hfront,_⟩
    · refine absurd ⟨mark,n,behind,hmark,hedge,?_⟩ hnot
      rw [htext,← cons_append,hbefore,nil_append]
    · exact absurd hfront.symm (append_ne_nil_of_right_ne_nil _ (cons_ne_nil _ _))
  | cons d front =>
    rw [cons_append,cons.injEq] at hbefore
    obtain ⟨hd,hbefore⟩ := hbefore
    refine ⟨front,mark,hmark,hbefore,?_⟩
    rcases hedge with ⟨hnil,_⟩ | ⟨rest,e,hfront,hedge⟩
    · cases hnil
    · cases rest with
      | nil =>
        rw [nil_append,cons.injEq] at hfront
        rw [← hd,Sum.inl.injEq] at hfront
        rw [hfront.1]
        exact Or.inl ⟨hfront.2,hedge⟩
      | cons x rest =>
        rw [cons_append,cons.injEq] at hfront
        exact Or.inr ⟨rest,e,hfront.2,hedge⟩

omit [DecidableEq α] in
/-- Two ways to fill the holes give texts that differ only in hidden values. -/
theorem alike_fill (hmarks : Inner edge marks) {other : ι → List α}
    (hfilling : ∀ n, filling n≠[] ∧ ∀ c∈filling n, edge c=false)
    (hother : ∀ n, other n≠[] ∧ ∀ c∈other n, edge c=false)
    (h : Placed edge marks atEdge text) :
    Alike edge marks atEdge (fill filling text) (fill other text) := by
  induction hlen : text.length using Nat.strong_induction_on generalizing atEdge text with
  | _ k ih =>
    cases text with
    | nil => exact Alike.nil
    | cons x text =>
      cases x with
      | inr n =>
        obtain ⟨front,mark,hmark,hbefore,_⟩ := h [] n text rfl
        have hempty := (List.append_eq_nil_iff.mp hbefore.symm).2
        exact absurd (map_eq_nil_iff.mp hempty) (hmarks mark hmark).1
      | inl c =>
        by_cases hvalue : ∃ mark n later, marks mark ∧ atEdge=true ∧
            Sum.inl c::text = mark.map Sum.inl ++ Sum.inr n::later
        · obtain ⟨mark,n,later,hmark,hedge,htext⟩ := hvalue
          rw [htext] at h hlen ⊢
          rw [hedge,fill_letters,fill_letters,fill_hole,fill_hole,← List.append_assoc,
            ← List.append_assoc]
          rw [length_append,length_cons] at hlen
          have hrest := ih later.length (by omega) h.behind_hole rfl
          exact Alike.value hmark (hfilling n).1 (hother n).1 (hfilling n).2 (hother n).2 hrest
        · have hless : text.length<k := by rw [← hlen]; exact Nat.lt_succ_self _
          have hrest := ih text.length hless (h.tail hvalue) rfl
          exact Alike.letter c hrest

end holes

end Misterplex.Masking
