import Netlink.Record
import Netlink.Verdict

/-!
# Record streams

A stream is what is left of a byte string of records, each padded to the boundary. It ends at the
first place that holds no complete record. `remaining` is zero after a well-formed stream and
negative where the last record was not padded. Main statements: `Stream.next?_eq_some_iff`, and
`Stream.next?_rest_lt`, on which every loop over a stream ends.
-/

namespace Netlink

@[ext] structure Stream (L : Layout) where
  /-- Bytes passed since the stream began. -/
  offset : Nat
  rest : Bytes
  remaining : Int
  length_rest : rest.length = remaining.toNat

namespace Stream

variable {L : Layout} {σ β : Type}

def ofBytes (bs : Bytes) : Stream L :=
  { offset := 0, rest := bs, remaining := bs.length, length_rest := by simp }

/-- Moves `count` bytes on, which may lead beyond the end. -/
def skip (s : Stream L) (count : Nat) : Stream L :=
  { offset := s.offset + count
    rest := s.rest.drop count
    remaining := s.remaining - count
    length_rest := by
      have := s.length_rest
      simp only [List.length_drop]
      omega }

def next? (s : Stream L) : Option (Record L × Stream L) :=
  (Record.first? s.rest).map fun r => (r, s.skip r.span)

theorem next?_eq_some_iff {s t : Stream L} {r : Record L} :
    s.next? = some (r, t) ↔ Record.first? s.rest = some r ∧ t = s.skip r.span := by
  simp only [next?, Option.map_eq_some_iff, Prod.mk.injEq]
  constructor
  · rintro ⟨a, ha, rfl, rfl⟩
    exact ⟨ha, rfl⟩
  · rintro ⟨hr, rfl⟩
    exact ⟨r, hr, rfl, rfl⟩

theorem next?_rest_lt {s t : Stream L} {r : Record L} (h : s.next? = some (r, t)) :
    t.rest.length < s.rest.length := by
  obtain ⟨hr, rfl⟩ := next?_eq_some_iff.mp h
  have hpos := r.span_pos
  have hfits := Record.size_le_of_first? hr
  have hsize := r.size_pos
  simp only [skip, List.length_drop]
  omega

def records (s : Stream L) : List (Record L) :=
  match _ : s.next? with
  | none => []
  | some (r, t) => r :: t.records
termination_by s.rest.length
decreasing_by exact next?_rest_lt (by assumption)

def last (s : Stream L) : Stream L :=
  match _ : s.next? with
  | none => s
  | some (_, t) => t.last
termination_by s.rest.length
decreasing_by exact next?_rest_lt (by assumption)

/-- Shows `step` one record after the other until it answers with a result. What is left of the
stream comes with the result, and with none if the records ran out. -/
def visit (step : σ → Record L → Outcome (Option β) σ) (state : σ) (s : Stream L) :
    Outcome (Option β × Stream L) σ :=
  match _ : s.next? with
  | none => ⟨(none, s), state, []⟩
  | some (r, t) =>
    let here := step state r
    match here.result with
    | some result => ⟨(some result, t), here.state, here.events⟩
    | none =>
      let later := visit step here.state t
      { later with events := here.events ++ later.events }
termination_by s.rest.length
decreasing_by exact next?_rest_lt (by assumption)

end Stream

end Netlink
