import Mathlib.Data.List.Infix
import Netlink.Proofs.Attribute.Forest
import Netlink.Proofs.Stream.Cut

/-!
# Where a descent goes

The places at which a descent comes upon attributes, in any byte string and whichever attributes it
enters. Main statement: `descend_sites`, by which two of them stand apart or one inside the payload
of the other, so that no place is visited twice and four bytes pay for every visit.
-/

namespace Netlink

def Visit.found? : Visit → Option (Nat × Attribute)
  | found depth a => some (depth, a)
  | ended _ _ => none

namespace Stream

variable {L : Layout} {s : Stream L} {r : Record L}

/-! ## Siblings -/

theorem bytes_of_mem_placed {place : Nat × Record L} (h : place ∈ s.placed) :
    place.1 + place.2.size ≤ s.offset + s.rest.length ∧
      place.2.bytes = s.rest.slice (place.1 - s.offset) place.2.size := by
  induction s using walk_induction with
  | stop s hnone =>
      rw [placed_of_none hnone] at h
      cases h
  | step s r hfirst ih =>
      rw [placed_of_first? hfirst] at h
      have hfits := Record.size_le_of_first? hfirst
      rcases List.mem_cons.mp h with rfl | hlater
      · refine ⟨Nat.add_le_add_left hfits _, ?_⟩
        have hfront : s.rest.take r.size = r.bytes := by
          rw [Record.eq_append_of_first? hfirst]
          exact List.take_left
        rw [Nat.sub_self, Bytes.slice, List.drop_zero, hfront]
      · have hstart : s.offset + r.span ≤ place.1 := offset_le_of_mem_placed hlater
        obtain ⟨hstop, hbytes⟩ := ih hlater
        have hpos := place.2.size_pos
        have hoffset : (s.skip r.span).offset = s.offset + r.span := rfl
        rw [hoffset, rest_skip, List.length_drop] at hstop
        rw [hoffset, rest_skip, Bytes.slice, List.drop_drop] at hbytes
        refine ⟨by omega, ?_⟩
        rw [hbytes, Bytes.slice, show r.span + (place.1 - (s.offset + r.span)) =
          place.1 - s.offset by omega]

theorem pairwise_placed (s : Stream L) :
    s.placed.Pairwise fun earlier later => earlier.1 + earlier.2.size ≤ later.1 := by
  induction s using walk_induction with
  | stop s hnone =>
      rw [placed_of_none hnone]
      exact List.Pairwise.nil
  | step s r hfirst ih =>
      rw [placed_of_first? hfirst]
      refine List.Pairwise.cons (fun later hlater => ?_) ih
      have hstart : s.offset + r.span ≤ later.1 := offset_le_of_mem_placed hlater
      have hspan : r.size ≤ r.span := le_roundUp r.size
      exact Nat.le_trans (Nat.add_le_add_left hspan _) hstart

end Stream

/-! ## Sites -/

structure Site where
  depth : Nat
  place : Nat
  attr : Attribute

namespace Site

def stop (x : Site) : Nat := x.place + x.attr.size

/-- `y` is deeper and stands inside the payload of `x`, or it stands behind `x`. -/
def Before (x y : Site) : Prop :=
  x.depth < y.depth ∧ x.place + 4 ≤ y.place ∧ y.stop ≤ x.stop ∨ x.stop ≤ y.place

theorem Before.header {x y : Site} (h : x.Before y) : x.place + 4 ≤ y.place := by
  have hheader : 4 ≤ x.attr.size := x.attr.headerSize_le
  rcases h with ⟨_, hinside, _⟩ | hbehind
  · exact hinside
  · exact Nat.le_trans (Nat.add_le_add_left hheader _) hbehind

end Site

namespace Attributes

/-- The sites of a descent into `s`, in its order, where `s` began at the place `base`. -/
def sites (enter : Attribute → Bool) (depth base : Nat) (s : Attributes) : List Site :=
  match _ : s.next? with
  | none => []
  | some (a, t) =>
    let place := base + s.offset
    let inside := if enter a then sites enter (depth + 1) (place + 4) (Attribute.nested a) else []
    ⟨depth, place, a⟩ :: (inside ++ sites enter depth base t)
termination_by s.rest.length
decreasing_by
  · exact rest_nested_lt (by assumption)
  · exact Stream.next?_rest_lt (by assumption)

variable {enter : Attribute → Bool} {depth base : Nat} {s : Attributes} {a : Attribute}

theorem sites_of_none (h : Record.first? (L := .attr) s.rest = none) :
    s.sites enter depth base = [] := by
  rw [sites]
  split
  · rfl
  · rename_i hnext
    rw [Stream.next?_of_none h] at hnext
    cases hnext

theorem sites_of_first? (h : Record.first? s.rest = some a) :
    s.sites enter depth base =
      ⟨depth, base + s.offset, a⟩ ::
        ((if enter a then a.nested.sites enter (depth + 1) (base + s.offset + 4) else []) ++
          sites enter depth base (s.skip a.span)) := by
  rw [sites]
  split
  · rename_i hnext
    rw [Stream.next?_of_first? h] at hnext
    cases hnext
  · rename_i hnext
    rw [Stream.next?_of_first? h] at hnext
    cases hnext
    rfl

/-- Induction along a descent: the stream holds no complete attribute, or one, what is inside that
one, and then the rest. -/
@[elab_as_elim]
theorem descend_induction {motive : Attributes → Prop}
    (stop : ∀ s : Attributes, Record.first? (L := .attr) s.rest = none → motive s)
    (step : ∀ (s : Attributes) (a : Attribute), Record.first? s.rest = some a → motive a.nested →
      motive (s.skip a.span) → motive s)
    (s : Attributes) : motive s := by
  cases h : Record.first? (L := .attr) s.rest with
  | none => exact stop s h
  | some a =>
      exact step s a h (descend_induction stop step (Attribute.nested a))
        (descend_induction stop step (s.skip a.span))
termination_by s.rest.length
decreasing_by
  · exact rest_nested_lt (Stream.next?_of_first? h)
  · exact Stream.next?_rest_lt (Stream.next?_of_first? h)

theorem found_descend (enter : Attribute → Bool) (depth base : Nat) (s : Attributes) :
    (s.descend enter depth).filterMap Visit.found? =
      (s.sites enter depth base).map fun x => (x.depth, x.attr) := by
  induction s using descend_induction generalizing depth base with
  | stop s hnone =>
      rw [descend_of_none hnone, sites_of_none hnone]
      rfl
  | step s a hfirst ihinside ihlater =>
      rw [descend_of_first? hfirst, sites_of_first? hfirst,
        List.filterMap_cons_some (show Visit.found? (.found depth a) = some (depth, a) from rfl),
        List.filterMap_append, List.map_cons, List.map_append, ihlater depth base]
      by_cases henter : enter a = true
      · rw [if_pos henter, if_pos henter, ihinside (depth + 1) (base + s.offset + 4)]
      · rw [if_neg henter, if_neg henter]
        rfl

/-- Every site takes the four bytes of its header from the stream. -/
theorem length_sites_le (enter : Attribute → Bool) (depth base : Nat) (s : Attributes) :
    4 * (s.sites enter depth base).length ≤ s.rest.length := by
  induction s using descend_induction generalizing depth base with
  | stop s hnone =>
      rw [sites_of_none hnone]
      exact Nat.zero_le _
  | step s a hfirst ihinside ihlater =>
      have hfits := Record.size_le_of_first? hfirst
      have hheader : 4 ≤ a.size := a.headerSize_le
      have hspan : a.size ≤ a.span := le_roundUp a.size
      have hinside : 4 * (if enter a then a.nested.sites enter (depth + 1) (base + s.offset + 4)
          else []).length ≤ a.size - 4 := by
        split
        · have hpayload : a.nested.rest.length = a.size - 4 := a.length_payload
          rw [← hpayload]
          exact ihinside (depth + 1) (base + s.offset + 4)
        · exact Nat.zero_le _
      have hlater := ihlater depth base
      rw [Stream.rest_skip, List.length_drop] at hlater
      rw [sites_of_first? hfirst, List.length_cons, List.length_append]
      omega

/-- A descent stays where the stream is, and below the depth at which it began. -/
theorem within_of_mem_sites {x : Site} (h : x ∈ s.sites enter depth base) :
    depth ≤ x.depth ∧ base + s.offset ≤ x.place ∧
      x.stop ≤ base + s.offset + s.rest.length := by
  induction s using descend_induction generalizing depth base with
  | stop s hnone =>
      rw [sites_of_none hnone] at h
      cases h
  | step s a hfirst ihinside ihlater =>
      have hfits := Record.size_le_of_first? hfirst
      have hheader : 4 ≤ a.size := a.headerSize_le
      rw [sites_of_first? hfirst] at h
      rcases List.mem_cons.mp h with rfl | h
      · exact ⟨Nat.le_refl _, Nat.le_refl _, Nat.add_le_add_left hfits _⟩
      rcases List.mem_append.mp h with hinside | hlater
      · split at hinside
        · obtain ⟨hdepth, hplace, hstop⟩ := ihinside hinside
          have hoffset : a.nested.offset = 0 := rfl
          have hpayload : a.nested.rest.length = a.size - 4 := a.length_payload
          omega
        · cases hinside
      · obtain ⟨hdepth, hplace, hstop⟩ := ihlater hlater
        have hoffset : (s.skip a.span).offset = s.offset + a.span := rfl
        have hpos := x.attr.size_pos
        rw [Stream.rest_skip, List.length_drop] at hstop
        rw [Site.stop] at hstop ⊢
        omega

theorem pairwise_sites (enter : Attribute → Bool) (depth base : Nat) (s : Attributes) :
    (s.sites enter depth base).Pairwise Site.Before := by
  induction s using descend_induction generalizing depth base with
  | stop s hnone =>
      rw [sites_of_none hnone]
      exact List.Pairwise.nil
  | step s a hfirst ihinside ihlater =>
      have hspan : a.size ≤ a.span := le_roundUp a.size
      have hheader : 4 ≤ a.size := a.headerSize_le
      let place := base + s.offset
      -- the sites inside end where the attribute does, and those behind it start there or later
      have hinside (x : Site) (hx : x ∈ (if enter a then
          a.nested.sites enter (depth + 1) (place + 4) else [])) :
          depth < x.depth ∧ place + 4 ≤ x.place ∧ x.stop ≤ place + a.size := by
        split at hx
        · obtain ⟨hdepth, hplace, hstop⟩ := within_of_mem_sites hx
          have hoffset : a.nested.offset = 0 := rfl
          have hpayload : a.nested.rest.length = a.size - 4 := a.length_payload
          omega
        · cases hx
      have hlater (x : Site) (hx : x ∈ sites enter depth base (s.skip a.span)) :
          place + a.size ≤ x.place := by
        obtain ⟨_, hplace, _⟩ := within_of_mem_sites hx
        have hoffset : (s.skip a.span).offset = s.offset + a.span := rfl
        omega
      rw [sites_of_first? hfirst, List.pairwise_cons, List.pairwise_append]
      refine ⟨fun x hx => ?_, ?_, ihlater depth base, fun x hx y hy => ?_⟩
      · rcases List.mem_append.mp hx with hx | hx
        · exact .inl (hinside x hx)
        · exact .inr (hlater x hx)
      · split
        · exact ihinside (depth + 1) (place + 4)
        · exact List.Pairwise.nil
      · exact .inr (Nat.le_trans (hinside x hx).2.2 (hlater y hy))

theorem bytes_of_mem_sites {buffer : Bytes} (hrest : s.rest <+: buffer.drop (base + s.offset))
    {x : Site} (h : x ∈ s.sites enter depth base) :
    x.attr.bytes = buffer.slice x.place x.attr.size := by
  induction s using descend_induction generalizing depth base with
  | stop s hnone =>
      rw [sites_of_none hnone] at h
      cases h
  | step s a hfirst ihinside ihlater =>
      have hfront : a.bytes <+: buffer.drop (base + s.offset) := by
        refine List.IsPrefix.trans ?_ hrest
        rw [Record.eq_append_of_first? hfirst]
        exact List.prefix_append _ _
      rw [sites_of_first? hfirst] at h
      rcases List.mem_cons.mp h with rfl | h
      · exact List.prefix_iff_eq_take.mp hfront
      rcases List.mem_append.mp h with hinside | hlater
      · split at hinside
        · refine ihinside ?_ hinside
          have hdrop := hfront.drop 4
          rwa [List.drop_drop] at hdrop
        · cases hinside
      · refine ihlater ?_ hlater
        have hdrop := hrest.drop a.span
        rwa [List.drop_drop, Nat.add_assoc] at hdrop

/-- A descent into any bytes comes upon at most one attribute for four of them, whichever
attributes it enters, and each stands inside the bytes. Of two that it comes upon, the later one
stands inside the payload of the earlier and deeper, or behind it, and so does its header. What is
directly inside an attribute stands one behind the other inside its payload. -/
theorem descend_sites (enter : Attribute → Bool) (bs : Bytes) :
    let s : Attributes := .ofBytes bs
    let found := (s.descend enter 0).filterMap Visit.found?
    let sites := s.sites enter 0 0
    found = sites.map (fun x => (x.depth, x.attr)) ∧ found.length ≤ bs.length / 4 ∧
      (∀ x ∈ sites, x.stop ≤ bs.length ∧ x.attr.bytes = bs.slice x.place x.attr.size) ∧
      sites.Pairwise Site.Before ∧
      sites.Pairwise (fun earlier later => earlier.place + 4 ≤ later.place) ∧
      ∀ a : Attribute,
        (∀ place ∈ a.nested.placed, place.1 + place.2.size ≤ a.payload.length ∧
          place.2.bytes = a.payload.slice place.1 place.2.size) ∧
        a.nested.placed.Pairwise fun earlier later => earlier.1 + earlier.2.size ≤ later.1 := by
  intro s found sites
  have hfound : found = sites.map fun x => (x.depth, x.attr) := found_descend enter 0 0 s
  have hcount : 4 * sites.length ≤ bs.length := length_sites_le enter 0 0 s
  have hbefore : sites.Pairwise Site.Before := pairwise_sites enter 0 0 s
  refine ⟨hfound, ?_, fun x hx => ⟨?_, ?_⟩, hbefore, hbefore.imp Site.Before.header,
    fun a => ⟨fun place hplace => ?_, Stream.pairwise_placed _⟩⟩
  · rw [hfound, List.length_map]
    omega
  · obtain ⟨_, _, hstop⟩ := within_of_mem_sites hx
    rw [← Nat.zero_add bs.length]
    exact hstop
  · exact bytes_of_mem_sites (List.prefix_refl bs) hx
  · obtain ⟨hstop, hbytes⟩ := Stream.bytes_of_mem_placed hplace
    have hoffset : a.nested.offset = 0 := rfl
    rw [hoffset, Nat.zero_add] at hstop
    exact ⟨hstop, hbytes⟩

end Attributes

end Netlink
