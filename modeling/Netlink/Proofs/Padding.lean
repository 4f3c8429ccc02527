import Netlink.Attribute.Table
import Netlink.Proofs.Attribute.Parse
import Netlink.Proofs.Dispatcher.Cut

/-!
# Padding

Between the end of a record and the boundary anything may stand. Two streams are `Alike` where they
have the same offset, the same count and, outside of padding, the same bytes. A step of an iteration
keeps them alike, and so nothing that is done with their records can tell one from the other. Main
statement: `padding_unread`, for iterations, runs, parses and tables.
-/

namespace Netlink

namespace Stream

variable {L : Layout} {s t : Stream L} {r : Record L}

/-- The byte at offset `i` stands behind a record of the stream and before the boundary. -/
def Padding (s : Stream L) (i : Nat) : Prop :=
  ∃ place ∈ s.placed, place.1 + place.2.size ≤ i ∧ i < place.1 + place.2.span

instance (s : Stream L) (i : Nat) : Decidable (s.Padding i) :=
  inferInstanceAs (Decidable (∃ place ∈ s.placed, _))

structure Alike (s t : Stream L) : Prop where
  offset : t.offset = s.offset
  remaining : t.remaining = s.remaining
  outside : ∀ i, ¬s.Padding (s.offset + i) → t.rest[i]? = s.rest[i]?

/-! ## Where padding stands -/

theorem not_padding_of_none (h : Record.first? (L := L) s.rest = none) (i : Nat) :
    ¬s.Padding i := by
  unfold Padding
  simp [placed_of_none h]

theorem padding_of_first? (h : Record.first? s.rest = some r) (i : Nat) :
    s.Padding i ↔
      s.offset + r.size ≤ i ∧ i < s.offset + r.span ∨ (s.skip r.span).Padding i := by
  unfold Padding
  simp [placed_of_first? h]

theorem Padding.offset_le {i : Nat} (h : s.Padding i) : s.offset ≤ i := by
  obtain ⟨place, hmem, hbehind, _⟩ := h
  have hstart := offset_le_of_mem_placed hmem
  omega

theorem not_padding_of_lt (h : Record.first? s.rest = some r) {i : Nat} (hi : i < r.size) :
    ¬s.Padding (s.offset + i) := by
  rw [padding_of_first? h]
  rintro (⟨hbehind, _⟩ | hlater)
  · omega
  · have hstart : s.offset + r.span ≤ s.offset + i := hlater.offset_le
    have hspan : r.size ≤ r.span := le_roundUp r.size
    omega

theorem padding_skip (h : Record.first? s.rest = some r) (i : Nat) :
    s.Padding (s.offset + (r.span + i)) ↔
      (s.skip r.span).Padding ((s.skip r.span).offset + i) := by
  have hplace : s.offset + (r.span + i) = (s.skip r.span).offset + i := by
    show _ = s.offset + r.span + i
    omega
  rw [padding_of_first? h, hplace]
  constructor
  · rintro (⟨_, hbefore⟩ | hlater)
    · have hoffset : (s.skip r.span).offset = s.offset + r.span := rfl
      omega
    · exact hlater
  · exact Or.inr

/-! ## Streams that are alike -/

theorem Alike.eq_of_none (h : Alike s t) (hnone : Record.first? (L := L) s.rest = none) :
    t = s := by
  have hrest : t.rest = s.rest := by
    apply List.ext_getElem?
    intro i
    exact h.outside i (not_padding_of_none hnone _)
  ext1
  · exact h.offset
  · exact hrest
  · exact h.remaining

theorem Alike.first?_eq (h : Alike s t) :
    Record.first? (L := L) t.rest = Record.first? s.rest := by
  cases hfirst : Record.first? (L := L) s.rest with
  | none => rw [h.eq_of_none hfirst, hfirst]
  | some r =>
      have hfront : t.rest.take r.size = r.bytes := by
        apply List.ext_getElem?
        intro i
        by_cases hi : i < r.size
        · have hown : s.rest[i]? = r.bytes[i]? := by
            rw [Record.eq_append_of_first? hfirst]
            exact List.getElem?_append_left hi
          rw [List.getElem?_take_of_lt hi, h.outside i (not_padding_of_lt hfirst hi), hown]
        · have hpast : r.size ≤ i := Nat.le_of_not_lt hi
          rw [List.getElem?_take_eq_none hpast, List.getElem?_eq_none hpast]
      have hwhole := List.take_append_drop r.size t.rest
      rw [hfront] at hwhole
      rw [← hwhole]
      exact r.first?_append _

theorem Alike.skip (h : Alike s t) (hfirst : Record.first? s.rest = some r) :
    Alike (s.skip r.span) (t.skip r.span) where
  offset := congrArg (· + r.span) h.offset
  remaining := congrArg (· - (r.span : Int)) h.remaining
  outside := by
    intro i hi
    rw [← padding_skip hfirst] at hi
    rw [rest_skip, rest_skip, List.getElem?_drop, List.getElem?_drop]
    exact h.outside _ hi

theorem Alike.advance (h : Alike s t) : Alike s.advance t.advance := by
  have hsame := h.first?_eq
  cases hfirst : Record.first? (L := L) s.rest with
  | none =>
      rw [hfirst] at hsame
      rw [advance_of_none hfirst, advance_of_none hsame]
      exact h
  | some r =>
      rw [hfirst] at hsame
      rw [advance_of_first? hfirst, advance_of_first? hsame]
      exact h.skip hfirst

theorem Alike.after (h : Alike s t) (n : Nat) : Alike (s.after n) (t.after n) := by
  induction n with
  | zero => exact h
  | succ n ih =>
      rw [after_succ, after_succ]
      exact ih.advance

theorem Alike.records_eq (h : Alike s t) : t.records = s.records := by
  apply List.ext_getElem?
  intro n
  rw [getElem?_records, getElem?_records]
  exact (h.after n).first?_eq

theorem Alike.last_eq (h : Alike s t) : t.last = s.last := by
  induction s using walk_induction generalizing t with
  | stop s hnone => rw [h.eq_of_none hnone]
  | step s r hfirst ih =>
      have hsame : Record.first? t.rest = some r := h.first?_eq.trans hfirst
      rw [last_of_first? hfirst, last_of_first? hsame]
      exact ih (h.skip hfirst)

structure SameButPadding (L : Layout) (bs bs' : Bytes) : Prop where
  length : bs'.length = bs.length
  outside : ∀ i, ¬(ofBytes bs : Stream L).Padding i → bs'[i]? = bs[i]?

theorem SameButPadding.alike {bs bs' : Bytes} (h : SameButPadding L bs bs') :
    Alike (ofBytes bs : Stream L) (ofBytes bs') where
  offset := rfl
  remaining := congrArg Int.ofNat h.length
  outside := by
    intro i hi
    apply h.outside i
    rwa [show (ofBytes bs : Stream L).offset + i = i from Nat.zero_add i] at hi

theorem sameButPadding_iff {bs bs' : Bytes} :
    SameButPadding L bs bs' ↔ bs'.length = bs.length ∧
      ∀ i < bs.length, ¬(ofBytes bs : Stream L).Padding i → bs'[i]? = bs[i]? := by
  constructor
  · intro h
    exact ⟨h.length, fun i _ => h.outside i⟩
  · rintro ⟨hlength, hinside⟩
    refine ⟨hlength, fun i hi => ?_⟩
    by_cases hlt : i < bs.length
    · exact hinside i hlt hi
    · rw [List.getElem?_eq_none (by omega), List.getElem?_eq_none (by omega)]

instance (bs bs' : Bytes) : Decidable (SameButPadding L bs bs') :=
  decidable_of_iff' _ sameButPadding_iff

end Stream

/-! ## What reads a stream -/

namespace Messages

variable {buffer buffer' : Bytes}

theorem after_of_sameButPadding (h : Stream.SameButPadding .message buffer buffer')
    (n : Nat) :
    (after buffer' n).next.result = (after buffer n).next.result ∧
      (after buffer' n).offset = (after buffer n).offset ∧
      (after buffer' n).remaining = (after buffer n).remaining := by
  have hafter := h.alike.after n
  rw [next_result, next_result, after_eq, after_eq]
  exact ⟨hafter.first?_eq, hafter.offset, hafter.remaining⟩

end Messages

namespace Dispatcher

variable {σ : Type} {buffer buffer' : Bytes}

theorem run_of_sameButPadding (h : Stream.SameButPadding .message buffer buffer')
    (d : Dispatcher σ) (data : Callback Message σ) (state : σ) :
    d.run data state buffer' = d.run data state buffer := by
  rw [run_eq_visitList, run_eq_visitList]
  simp only [h.alike.records_eq, h.alike.last_eq]

theorem observe_of_sameButPadding (h : Stream.SameButPadding .message buffer buffer')
    (expected : Correlation) (rs : List (Registration σ)) (data : Callback Message σ) (state : σ) :
    observe expected rs data state buffer' = observe expected rs data state buffer := by
  rw [observe_eq_of, observe_eq_of, h.alike.records_eq]

end Dispatcher

/-- Padding carries no information. An iteration over a buffer that differs in padding alone finds
the same messages at the same offsets with the same counts, and every run over it has the same
result, events, calls and final state. An attribute stream that differs in padding alone is
iterated, walked, parsed under every policy and indexed as before. -/
theorem padding_unread (bs bs' : Bytes) :
    (Stream.SameButPadding .message bs bs' →
      (∀ n, (Messages.after bs' n).next.result = (Messages.after bs n).next.result ∧
        (Messages.after bs' n).offset = (Messages.after bs n).offset ∧
        (Messages.after bs' n).remaining = (Messages.after bs n).remaining) ∧
      (∀ {σ : Type} (d : Dispatcher σ) (data : Callback Message σ) (state : σ),
        d.run data state bs' = d.run data state bs) ∧
      ∀ {σ : Type} (expected : Correlation) (rs : List (Registration σ))
        (data : Callback Message σ) (state : σ),
        Dispatcher.observe expected rs data state bs' =
          Dispatcher.observe expected rs data state bs) ∧
    (Stream.SameButPadding .attr bs bs' →
      let s : Attributes := .ofBytes bs
      let t : Attributes := .ofBytes bs'
      (∀ n, t.records[n]? = s.records[n]? ∧ (t.after n).remaining = (s.after n).remaining) ∧
      (∀ {σ : Type} (callback : Callback Attribute σ) (state : σ),
        t.walk callback state = s.walk callback state ∧
          ∀ p : Policy, p.parse callback state t = p.parse callback state s) ∧
      ∀ maxType, Table.ofStream t maxType = Table.ofStream s maxType) := by
  constructor
  · intro h
    refine ⟨Messages.after_of_sameButPadding h, ?_, ?_⟩
    · intro σ d data state
      exact Dispatcher.run_of_sameButPadding h d data state
    · intro σ expected rs data state
      exact Dispatcher.observe_of_sameButPadding h expected rs data state
  · intro h s t
    have hrecords : t.records = s.records := h.alike.records_eq
    have hlast : t.last = s.last := h.alike.last_eq
    refine ⟨fun n => ⟨by rw [hrecords], (h.alike.after n).remaining⟩, ?_, ?_⟩
    · intro σ callback state
      refine ⟨?_, fun p => ?_⟩
      · rw [Attributes.walk_eq_walkList, Attributes.walk_eq_walkList, hrecords]
      · rw [Policy.parse_eq_of_records, Policy.parse_eq_of_records, hrecords, hlast]
    · intro maxType
      rw [Table.ofStream, Table.ofStream, hrecords]

/-- Padding between two messages, and between two attributes, of which the last has none. -/
theorem padding_unread_between :
    let buffer := fun pad : Bytes => Header.encode { size := 17, type := 16 } ++ 7 :: pad ++
      Header.encode { size := 18, type := 17 } ++ [8, 9]
    let bs := fun pad : Bytes => [5, 0, 1, 0, 65] ++ pad ++ [5, 0, 2, 0, 66]
    let data : Callback Message Nat := fun count _ => ⟨.proceed, count + 1, []⟩
    Stream.SameButPadding .message (buffer [0, 0, 0]) (buffer [4, 0, 255]) ∧
      (Messages.after (buffer [4, 0, 255]) 1).offset =
        (Messages.after (buffer [0, 0, 0]) 1).offset ∧
      (Dispatcher.new {}).run data 0 (buffer [4, 0, 255]) =
        (Dispatcher.new {}).run data 0 (buffer [0, 0, 0]) ∧
      Stream.SameButPadding .attr (bs [0, 0, 0]) (bs [4, 0, 3]) ∧
      Table.ofStream (.ofBytes (bs [4, 0, 3])) 2 = Table.ofStream (.ofBytes (bs [0, 0, 0])) 2 := by
  intro buffer bs data
  have hbuffer : Stream.SameButPadding .message (buffer [0, 0, 0]) (buffer [4, 0, 255]) := by
    decide +kernel
  have hbs : Stream.SameButPadding .attr (bs [0, 0, 0]) (bs [4, 0, 3]) := by decide +kernel
  obtain ⟨hsteps, hruns, _⟩ := (padding_unread _ _).1 hbuffer
  obtain ⟨_, _, htables⟩ := (padding_unread _ _).2 hbs
  exact ⟨hbuffer, (hsteps 1).2.1, hruns _ data 0, hbs, htables 2⟩

end Netlink
