import Netlink.Proofs.Bytes
import Netlink.Record.Stream

/-!
# Streams by their bytes

The loops over a stream depend on the bytes that are left and on nothing else. Main statements:
`records_padded_append`, by which the records of two byte strings follow one another once the first
is padded, and `visit_eq`, by which visiting a stream is visiting the list of its records.
-/

namespace Netlink

namespace Record

variable {L : Layout} {r : Record L} {bs : Bytes}

theorem first?_append_of_first? (h : first? bs = some r) (rest : Bytes) :
    first? (bs ++ rest) = some r := by
  rw [eq_append_of_first? h, List.append_assoc]
  exact r.first?_append _

theorem first?_eq_none_of_length_lt (h : bs.length < L.headerSize) :
    first? (L := L) bs = none := by
  cases hfirst : first? (L := L) bs with
  | none => rfl
  | some r =>
      have hheader := r.headerSize_le
      have hfits := size_le_of_first? hfirst
      rw [size] at hfits
      omega

theorem first?_of_nil (h : bs = []) : first? (L := L) bs = none := by
  rw [h]
  exact first?_eq_none_of_length_lt L.headerSize_pos

theorem span_mod (r : Record L) : r.span % 4 = 0 := roundUp_mod r.size

end Record

namespace Stream

variable {L : Layout} {σ β : Type} {s t : Stream L} {r : Record L}

@[simp] theorem rest_skip (s : Stream L) (count : Nat) :
    (s.skip count).rest = s.rest.drop count := rfl

@[simp] theorem remaining_skip (s : Stream L) (count : Nat) :
    (s.skip count).remaining = s.remaining - count := rfl

theorem next?_of_first? (h : Record.first? s.rest = some r) :
    s.next? = some (r, s.skip r.span) := next?_eq_some_iff.mpr ⟨h, rfl⟩

theorem next?_of_none (h : Record.first? (L := L) s.rest = none) : s.next? = none := by
  rw [next?, h]
  rfl

theorem records_of_none (h : Record.first? (L := L) s.rest = none) : s.records = [] := by
  rw [records]
  split
  · rfl
  · rename_i hnext
    rw [next?_of_none h] at hnext
    cases hnext

theorem records_of_first? (h : Record.first? s.rest = some r) :
    s.records = r :: (s.skip r.span).records := by
  rw [records]
  split
  · rename_i hnext
    rw [next?_of_first? h] at hnext
    cases hnext
  · rename_i hnext
    rw [next?_of_first? h] at hnext
    cases hnext
    rfl

theorem last_of_none (h : Record.first? (L := L) s.rest = none) : s.last = s := by
  rw [last]
  split
  · rfl
  · rename_i hnext
    rw [next?_of_none h] at hnext
    cases hnext

theorem last_of_first? (h : Record.first? s.rest = some r) : s.last = (s.skip r.span).last := by
  rw [last]
  split
  · rename_i hnext
    rw [next?_of_first? h] at hnext
    cases hnext
  · rename_i hnext
    rw [next?_of_first? h] at hnext
    cases hnext
    rfl

/-- Induction along a stream: it holds no complete record, or one and then the rest. -/
@[elab_as_elim]
theorem walk_induction {motive : Stream L → Prop}
    (stop : ∀ s, Record.first? (L := L) s.rest = none → motive s)
    (step : ∀ s (r : Record L), Record.first? s.rest = some r → motive (s.skip r.span) → motive s)
    (s : Stream L) : motive s := by
  cases h : Record.first? (L := L) s.rest with
  | none => exact stop s h
  | some r => exact step s r h (walk_induction stop step (s.skip r.span))
termination_by s.rest.length
decreasing_by exact next?_rest_lt (next?_of_first? h)

theorem records_congr (h : s.rest = t.rest) : s.records = t.records := by
  induction s using walk_induction generalizing t with
  | stop s hnone =>
      rw [records_of_none hnone, records_of_none (h ▸ hnone)]
  | step s r hfirst ih =>
      have hrest : (s.skip r.span).rest = (t.skip r.span).rest := by
        rw [rest_skip, rest_skip, h]
      rw [records_of_first? hfirst, records_of_first? (s := t) (h ▸ hfirst), ih hrest]

theorem last_remaining_congr (h : s.rest = t.rest) :
    s.last.remaining - s.remaining = t.last.remaining - t.remaining := by
  induction s using walk_induction generalizing t with
  | stop s hnone =>
      rw [last_of_none hnone, last_of_none (h ▸ hnone), Int.sub_self, Int.sub_self]
  | step s r hfirst ih =>
      have hrest : (s.skip r.span).rest = (t.skip r.span).rest := by
        rw [rest_skip, rest_skip, h]
      have hlater := ih hrest
      rw [last_of_first? hfirst, last_of_first? (s := t) (h ▸ hfirst)]
      simp only [remaining_skip] at hlater
      omega

theorem rest_skip_padded_append (hfirst : Record.first? s.rest = some r) {rest : Bytes}
    (h : t.rest = s.rest.padded ++ rest) :
    (t.skip r.span).rest = (s.skip r.span).rest.padded ++ rest := by
  have hspan : r.span ≤ s.rest.padded.length := by
    rw [Bytes.length_padded]
    exact roundUp_le_roundUp (Record.size_le_of_first? hfirst)
  rw [rest_skip, rest_skip, h, List.drop_append_of_le_length hspan, Bytes.drop_padded _ r.span_mod]

/-- Where `s` leaves no bytes over, its records come first in any stream that goes on behind its
padding. -/
theorem records_padded_append (hclean : s.last.remaining ≤ 0) {rest : Bytes}
    (h : t.rest = s.rest.padded ++ rest) :
    t.records = s.records ++ (ofBytes rest : Stream L).records := by
  induction s using walk_induction generalizing t with
  | stop s hnone =>
      rw [last_of_none hnone] at hclean
      have hempty : s.rest = [] := by
        have hlength := s.length_rest
        apply List.eq_nil_of_length_eq_zero
        omega
      rw [hempty] at h
      rw [records_of_none hnone, List.nil_append]
      exact records_congr h
  | step s r hfirst ih =>
      have hlonger : Record.first? t.rest = some r := by
        rw [h, Bytes.padded, List.append_assoc]
        exact Record.first?_append_of_first? hfirst _
      rw [last_of_first? hfirst] at hclean
      rw [records_of_first? hfirst, records_of_first? hlonger, List.cons_append,
        ih hclean (rest_skip_padded_append hfirst h)]

theorem last_remaining_padded_append (hclean : s.last.remaining ≤ 0) {rest : Bytes}
    (h : t.rest = s.rest.padded ++ rest) :
    t.last.remaining - t.remaining + t.rest.length = (ofBytes rest : Stream L).last.remaining := by
  induction s using walk_induction generalizing t with
  | stop s hnone =>
      rw [last_of_none hnone] at hclean
      have hempty : s.rest = [] := by
        have hlength := s.length_rest
        apply List.eq_nil_of_length_eq_zero
        omega
      rw [hempty] at h
      have hrest : t.rest = (ofBytes rest : Stream L).rest := h
      have hcongr := last_remaining_congr hrest
      have hstart : (ofBytes rest : Stream L).remaining = rest.length := rfl
      have hlength : t.rest.length = rest.length := congrArg List.length h
      omega
  | step s r hfirst ih =>
      have hlonger : Record.first? t.rest = some r := by
        rw [h, Bytes.padded, List.append_assoc]
        exact Record.first?_append_of_first? hfirst _
      rw [last_of_first? hfirst] at hclean
      have hlater := ih hclean (rest_skip_padded_append hfirst h)
      have hspan : r.span ≤ t.rest.length := by
        have hup := roundUp_le_roundUp (Record.size_le_of_first? hfirst)
        rw [h, List.length_append, Bytes.length_padded]
        exact Nat.le_trans hup (Nat.le_add_right _ _)
      rw [last_of_first? hlonger]
      simp only [remaining_skip, rest_skip, List.length_drop] at hlater
      omega

/-! ## Visiting -/

/-- Shows `step` one item after the other until it answers with a result. -/
def visitList {α : Type} (step : σ → α → Outcome (Option β) σ) (state : σ) :
    List α → Outcome (Option β) σ
  | [] => ⟨none, state, []⟩
  | a :: later =>
    let here := step state a
    match here.result with
    | some result => ⟨some result, here.state, here.events⟩
    | none =>
      let rest := visitList step here.state later
      { rest with events := here.events ++ rest.events }

theorem visitList_cons_some {α : Type} {step : σ → α → Outcome (Option β) σ} {state : σ} {a : α}
    {result : β} (h : (step state a).result = some result) (later : List α) :
    visitList step state (a :: later) =
      ⟨some result, (step state a).state, (step state a).events⟩ := by
  simp only [visitList, h]

theorem visitList_cons_none {α : Type} {step : σ → α → Outcome (Option β) σ} {state : σ} {a : α}
    (h : (step state a).result = none) (later : List α) :
    visitList step state (a :: later) =
      ⟨(visitList step (step state a).state later).result,
        (visitList step (step state a).state later).state,
        (step state a).events ++ (visitList step (step state a).state later).events⟩ := by
  simp only [visitList, h]

theorem visit_of_none (step : σ → Record L → Outcome (Option β) σ) (state : σ)
    (h : Record.first? (L := L) s.rest = none) :
    s.visit step state = ⟨(none, s), state, []⟩ := by
  rw [visit]
  split
  · rfl
  · rename_i hnext
    rw [next?_of_none h] at hnext
    cases hnext

theorem visit_of_first? (step : σ → Record L → Outcome (Option β) σ) (state : σ)
    (h : Record.first? s.rest = some r) :
    s.visit step state =
      match (step state r).result with
      | some result => ⟨(some result, s.skip r.span), (step state r).state, (step state r).events⟩
      | none =>
        ⟨((s.skip r.span).visit step (step state r).state).result,
          ((s.skip r.span).visit step (step state r).state).state,
          (step state r).events ++ ((s.skip r.span).visit step (step state r).state).events⟩ := by
  rw [visit]
  split
  · rename_i hnext
    rw [next?_of_first? h] at hnext
    cases hnext
  · rename_i hnext
    rw [next?_of_first? h] at hnext
    cases hnext
    rfl

/-- A visit of a stream is a visit of its records; where it has no result, it comes to the end. -/
theorem visit_eq (step : σ → Record L → Outcome (Option β) σ) (state : σ) (s : Stream L) :
    (s.visit step state).result.1 = (visitList step state s.records).result ∧
      (s.visit step state).state = (visitList step state s.records).state ∧
      (s.visit step state).events = (visitList step state s.records).events ∧
      ((s.visit step state).result.1 = none → (s.visit step state).result.2 = s.last) := by
  induction s using walk_induction generalizing state with
  | stop s hnone =>
      rw [visit_of_none step state hnone, records_of_none hnone, last_of_none hnone]
      exact ⟨rfl, rfl, rfl, fun _ => rfl⟩
  | step s r hfirst ih =>
      rw [visit_of_first? step state hfirst, records_of_first? hfirst, last_of_first? hfirst]
      cases hresult : (step state r).result with
      | some result =>
          rw [visitList_cons_some hresult]
          exact ⟨rfl, rfl, rfl, fun h => by cases h⟩
      | none =>
          obtain ⟨hresults, hstates, hevents, hend⟩ := ih (step state r).state
          rw [visitList_cons_none hresult]
          exact ⟨hresults, hstates, congrArg _ hevents, hend⟩

end Stream

end Netlink
