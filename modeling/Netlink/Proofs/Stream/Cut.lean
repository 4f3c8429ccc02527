import Netlink.Proofs.Stream.Iteration

/-!
# Streams that are cut

What an iteration finds in the first bytes of a byte string. Main statements: `placed_take`, by
which a cut anywhere leaves exactly the records that end before it, and `last_remaining_take`, by
which a cut where an iteration stood leaves nothing over.
-/

namespace Netlink

namespace Record

variable {L : Layout} {r : Record L} {bs : Bytes} {count : Nat}

theorem first?_take_of_le (h : first? bs = some r) (hle : r.size ≤ count) :
    first? (bs.take count) = some r := by
  rw [eq_append_of_first? h, List.take_append, List.take_of_length_le hle]
  exact r.first?_append _

theorem first?_of_take (h : first? (bs.take count) = some r) : first? bs = some r := by
  have hlonger := first?_append_of_first? h (bs.drop count)
  rwa [List.take_append_drop] at hlonger

theorem first?_take_of_none (h : first? (L := L) bs = none) :
    first? (L := L) (bs.take count) = none := by
  cases hfirst : first? (L := L) (bs.take count) with
  | none => rfl
  | some r =>
      rw [first?_of_take hfirst] at h
      cases h

theorem first?_take_of_lt (h : first? bs = some r) (hlt : count < r.size) :
    first? (L := L) (bs.take count) = none := by
  cases hfirst : first? (L := L) (bs.take count) with
  | none => rfl
  | some r' =>
      have hsame : r = r' := Option.some.inj (h.symm.trans (first?_of_take hfirst))
      have hfits := size_le_of_first? hfirst
      rw [List.length_take] at hfits
      subst hsame
      omega

end Record

namespace Stream

variable {L : Layout} {s t : Stream L} {r : Record L} {count : Nat}

def placed (s : Stream L) : List (Nat × Record L) :=
  s.records.mapIdx fun i r => ((s.after i).offset, r)

theorem placed_of_none (h : Record.first? (L := L) s.rest = none) : s.placed = [] := by
  rw [placed, records_of_none h, List.mapIdx_nil]

theorem placed_of_first? (h : Record.first? s.rest = some r) :
    s.placed = (s.offset, r) :: (s.skip r.span).placed := by
  rw [placed, records_of_first? h, List.mapIdx_cons, placed]
  simp only [after_succ', advance_of_first? h, after_zero]

theorem offset_le_of_mem_placed {place : Nat × Record L} (h : place ∈ s.placed) :
    s.offset ≤ place.1 := by
  induction s using walk_induction with
  | stop s hnone =>
      rw [placed_of_none hnone] at h
      cases h
  | step s r hfirst ih =>
      rw [placed_of_first? hfirst] at h
      rcases List.mem_cons.mp h with rfl | hlater
      · exact Nat.le_refl _
      · exact Nat.le_trans (Nat.le_add_right _ _) (ih hlater)

/-! ## Cuts anywhere -/

theorem first?_cut_of_none (hrest : t.rest = s.rest.take count)
    (h : Record.first? (L := L) s.rest = none) : Record.first? (L := L) t.rest = none := by
  rw [hrest]
  exact Record.first?_take_of_none h

/-- A stream over the first bytes of another one finds the record that comes next there, and goes
on over the first bytes behind it, or it finds none because the record does not end by the cut. -/
theorem first?_cut (hrest : t.rest = s.rest.take count) (h : Record.first? s.rest = some r) :
    (r.size ≤ count ∧ Record.first? t.rest = some r ∧
        (t.skip r.span).rest = (s.skip r.span).rest.take (count - r.span)) ∨
      count < r.size ∧ Record.first? (L := L) t.rest = none := by
  by_cases hends : r.size ≤ count
  · left
    refine ⟨hends, ?_, ?_⟩
    · rw [hrest]
      exact Record.first?_take_of_le h hends
    · rw [rest_skip, rest_skip, hrest, List.drop_take]
  · right
    have hlt : count < r.size := Nat.lt_of_not_le hends
    refine ⟨hlt, ?_⟩
    rw [hrest]
    exact Record.first?_take_of_lt h hlt

/-- A stream over the first bytes, up to offset `stop`, finds the records that end by then. -/
theorem placed_take {stop : Nat} (hoffset : t.offset = s.offset)
    (hrest : t.rest = s.rest.take (stop - s.offset)) :
    t.placed = s.placed.filter fun place => place.1 + place.2.size ≤ stop := by
  induction s using walk_induction generalizing t with
  | stop s hnone =>
      rw [placed_of_none hnone, placed_of_none (first?_cut_of_none hrest hnone), List.filter_nil]
  | step s r hfirst ih =>
      have hpos := r.size_pos
      rw [placed_of_first? hfirst]
      rcases first?_cut hrest hfirst with ⟨hends, hcut, hbehind⟩ | ⟨hlate, hcut⟩
      · have hplace : s.offset + r.size ≤ stop := by omega
        rw [Nat.sub_sub] at hbehind
        rw [placed_of_first? hcut, ih (congrArg (· + r.span) hoffset) hbehind, hoffset,
          List.filter_cons_of_pos (by simpa using hplace)]
      · have hplace : ¬s.offset + r.size ≤ stop := by omega
        -- the records behind start where this one is padded, so they end too late as well
        have hlater : ((s.skip r.span).placed.filter fun place =>
            decide (place.1 + place.2.size ≤ stop)) = [] := by
          rw [List.filter_eq_nil_iff]
          intro place hmem
          have hstart : s.offset + r.span ≤ place.1 := offset_le_of_mem_placed hmem
          have hspan : r.size ≤ r.span := le_roundUp r.size
          rw [decide_eq_true_eq]
          omega
        rw [placed_of_none hcut, List.filter_cons_of_neg (by simpa using hplace), hlater]

theorem records_take_prefix (hrest : t.rest = s.rest.take count) : t.records <+: s.records := by
  induction s using walk_induction generalizing t count with
  | stop s hnone =>
      rw [records_of_none (first?_cut_of_none hrest hnone)]
      exact List.nil_prefix
  | step s r hfirst ih =>
      rcases first?_cut hrest hfirst with ⟨_, hcut, hbehind⟩ | ⟨_, hcut⟩
      · rw [records_of_first? hcut, records_of_first? hfirst, List.cons_prefix_cons]
        exact ⟨rfl, ih hbehind⟩
      · rw [records_of_none hcut]
        exact List.nil_prefix

/-! ## Cuts where an iteration stood -/

theorem offset_le_advance (s : Stream L) : s.offset ≤ s.advance.offset := by
  cases hfirst : Record.first? (L := L) s.rest with
  | none =>
      exact Nat.le_of_eq (by rw [advance_of_none hfirst])
  | some r =>
      rw [advance_of_first? hfirst]
      exact Nat.le_add_right _ _

theorem offset_le_after (s : Stream L) (n : Nat) : s.offset ≤ (s.after n).offset := by
  induction n with
  | zero => exact Nat.le_refl _
  | succ n ih =>
      rw [after_succ]
      exact Nat.le_trans ih (offset_le_advance _)

theorem last_remaining_of_nil (hrest : t.rest = []) (hcount : t.remaining = t.rest.length) :
    t.last.remaining = 0 := by
  rw [last_of_none (Record.first?_of_nil hrest), hcount, hrest]
  rfl

theorem last_remaining_take {n : Nat} (hinside : (s.after n).offset ≤ s.offset + s.rest.length)
    (hrest : t.rest = s.rest.take ((s.after n).offset - s.offset))
    (hcount : t.remaining = t.rest.length) : t.last.remaining = 0 := by
  induction n generalizing s t with
  | zero =>
      rw [after_zero, Nat.sub_self, List.take_zero] at hrest
      exact last_remaining_of_nil hrest hcount
  | succ n ih =>
      cases hfirst : Record.first? (L := L) s.rest with
      | none =>
          rw [after_of_none hfirst, Nat.sub_self, List.take_zero] at hrest
          exact last_remaining_of_nil hrest hcount
      | some r =>
          rw [after_succ', advance_of_first? hfirst] at hinside hrest
          have hpassed : s.offset + r.span ≤ ((s.skip r.span).after n).offset :=
            offset_le_after (s.skip r.span) n
          have hspan : r.size ≤ r.span := le_roundUp r.size
          have hlength := congrArg List.length hrest
          rw [List.length_take] at hlength
          rcases first?_cut hrest hfirst with ⟨_, hcut, hbehind⟩ | ⟨hlate, _⟩
          · rw [Nat.sub_sub] at hbehind
            rw [last_of_first? hcut]
            refine ih ?_ hbehind ?_
            · show _ ≤ s.offset + r.span + (s.rest.drop r.span).length
              rw [List.length_drop]
              omega
            · rw [remaining_skip, rest_skip, hcount, List.length_drop]
              omega
          · omega

section Split

variable {buffer : Bytes} {n : Nat}

/-- An iteration that stands inside the byte string goes on like one that starts there. -/
theorem split_after (hinside : ((ofBytes buffer : Stream L).after n).offset ≤ buffer.length) :
    let stop := ((ofBytes buffer : Stream L).after n).offset
    let front : Stream L := ofBytes (buffer.take stop)
    let back : Stream L := ofBytes (buffer.drop stop)
    front.last.remaining = 0 ∧
      (ofBytes buffer : Stream L).records = front.records ++ back.records ∧
      back.records = (ofBytes buffer : Stream L).records.drop n ∧
      back.last.remaining = (ofBytes buffer : Stream L).last.remaining := by
  intro stop front back
  have hwithin := within_after (L := L) buffer n
  have hlength : (buffer.take stop).length = stop := by
    rw [List.length_take]
    exact Nat.min_eq_left hinside
  have hclean : front.last.remaining = 0 := by
    refine last_remaining_take (s := ofBytes buffer) (n := n) ?_ ?_ rfl
    · show stop ≤ 0 + buffer.length
      omega
    · rfl
  -- an iteration stands at multiples of the boundary, so the part in front has no padding to add
  have hpadded : (ofBytes buffer : Stream L).rest = front.rest.padded ++ buffer.drop stop := by
    have haligned : (buffer.take stop).length % 4 = 0 := by
      rw [hlength]
      exact hwithin.aligned
    show buffer = Bytes.padded (buffer.take stop) ++ buffer.drop stop
    rw [Bytes.padded_of_mod haligned, List.take_append_drop]
  have hsame : back.rest = ((ofBytes buffer : Stream L).after n).rest := hwithin.rest.symm
  refine ⟨hclean, records_padded_append (Int.le_of_eq hclean) hpadded, ?_, ?_⟩
  · rw [records_congr hsame, records_after]
  · have hlast : _ = back.last.remaining :=
      last_remaining_padded_append (Int.le_of_eq hclean) hpadded
    have hstart : (ofBytes buffer : Stream L).remaining =
        (ofBytes buffer : Stream L).rest.length := rfl
    omega

end Split

end Stream

end Netlink
