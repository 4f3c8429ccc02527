import Netlink.Proofs.Attribute.Grammar

/-!
# Strict parses

A parse that refuses trailing bytes and nothing else, with a callback that always proceeds. Main
statement: `parse_strict`, by which it accepts exactly the well-formed streams, and of any other
stream shows the longest padded part and counts the bytes behind it.
-/

namespace Netlink

namespace Stream

theorem visitList_of_none {α σ β : Type} {step : σ → α → Outcome (Option β) σ}
    (h : ∀ state a, (step state a).result = none) (state : σ) (items : List α) :
    (visitList step state items).result = none ∧
      (visitList step state items).state =
        items.foldl (fun state a => (step state a).state) state := by
  induction items generalizing state with
  | nil => exact ⟨rfl, rfl⟩
  | cons a later ih =>
      rw [visitList_cons_none (h state a)]
      exact ih (step state a).state

end Stream

namespace Attributes

/-- `s` reads the bytes `bs`, which are the payload of an attribute or what a message holds behind
an extra header. -/
inductive Over : Attributes → Bytes → Prop
  | nested (a : Attribute) : Over a.nested a.payload
  | message {m : Message} {offset : UInt64} {bs : Bytes} (h : m.payloadAt? offset = some bs) :
      Over (.ofMessage m offset) bs

theorem ofMessage_eq_ofBytes {m : Message} {offset : UInt64} {bs : Bytes}
    (h : m.payloadAt? offset = some bs) : ofMessage m offset = .ofBytes bs := by
  have hsize := m.size_lt
  have hpayload : m.payload.length = m.size - 16 := m.length_payload
  rw [Message.payloadAt?] at h
  split at h
  · rename_i hfits
    cases h
    apply Stream.ext
    · rfl
    · rfl
    · show (m.payload.length : Int) - min (align offset).toNat (2 ^ 63 - 1) =
        (m.payload.drop (align offset).toNat).length
      rw [List.length_drop]
      omega
  · cases h

theorem Over.eq_ofBytes {s : Attributes} {bs : Bytes} (h : Over s bs) : s = .ofBytes bs := by
  cases h with
  | nested a => rfl
  | message h => exact ofMessage_eq_ofBytes h

end Attributes

namespace Policy

variable {σ : Type} {callback : Callback Attribute σ} {p : Policy}

theorem step_of_proceed (hmax : p.maxType = none) (hkinds : p.kinds = [])
    (hproceed : ∀ state a, (callback state a).result = .proceed) (state : σ) (a : Attribute) :
    (p.step callback state a).result = none ∧
      (p.step callback state a).state = (callback state a).state := by
  have hvalid : a.validateKinds p.kinds = .ok () := by
    rw [hkinds]
    rfl
  rw [step, hmax, deliver, hvalid]
  refine ⟨?_, rfl⟩
  show (if (callback state a).result.isProceed then none else some _) = none
  rw [hproceed state a]
  rfl

theorem parse_eq_visitList (p : Policy) (callback : Callback Attribute σ) (state : σ)
    (s : Attributes) :
    p.parse callback state s =
      ⟨(Stream.visitList (p.step callback) state s.records).result.getD (p.finish s.last),
        (Stream.visitList (p.step callback) state s.records).state,
        (Stream.visitList (p.step callback) state s.records).events⟩ := by
  obtain ⟨hresult, hstate, hevents, hlast⟩ := Stream.visit_eq (p.step callback) state s
  rw [← hresult, ← hstate, ← hevents, parse]
  generalize s.visit (p.step callback) state = visited at hlast ⊢
  obtain ⟨⟨result, rest⟩, final, events⟩ := visited
  cases result with
  | some result => rfl
  | none =>
      cases hlast rfl
      rfl

theorem parse_of_proceed (hmax : p.maxType = none) (hkinds : p.kinds = [])
    (hproceed : ∀ state a, (callback state a).result = .proceed) (state : σ) (s : Attributes) :
    (p.parse callback state s).result = p.finish s.last ∧
      (p.parse callback state s).state =
        s.records.foldl (fun state a => (callback state a).state) state := by
  have hstep := step_of_proceed hmax hkinds hproceed
  obtain ⟨hnone, hshown⟩ :=
    Stream.visitList_of_none (fun state a => (hstep state a).1) state s.records
  have hsame : (fun state a => (p.step callback state a).state) =
      fun state a => (callback state a).state := by
    funext state a
    exact (hstep state a).2
  rw [hsame] at hshown
  rw [parse_eq_visitList]
  exact ⟨by rw [hnone, Option.getD_none], hshown⟩

/-- A strict parse accepts exactly the well-formed streams and shows the callback their attributes.
Of any other stream it shows the longest padded part, and reports how many bytes stand behind it. -/
theorem parse_strict {s : Attributes} {bs : Bytes} (hover : s.Over bs) (unsupported : Unsupported)
    (hproceed : ∀ state a, (callback state a).result = .proceed) (state : σ) :
    let strict : Policy := { unsupported, rejectTrailing := true }
    let outcome := strict.parse callback state s
    let Saw := fun cs : List Chunk => ∃ seen : List Attribute, seen.map Attribute.chunk = cs ∧
      outcome.state = seen.foldl (fun state a => (callback state a).state) state
    (outcome.result = .ok .proceed ↔ ∃ cs, WellFormed cs bs) ∧
      (∀ cs, WellFormed cs bs → Saw cs) ∧
      ((¬∃ cs, WellFormed cs bs) → ∃ cs front back, bs = front ++ back ∧
        LongestPadded cs front back ∧ 0 < back.length ∧
        outcome.result = .error (.truncated back.length) ∧ Saw cs) := by
  intro strict outcome Saw
  have hrest : s.rest = bs := by
    rw [hover.eq_ofBytes]
    rfl
  have hcount : s.remaining = s.rest.length := by
    rw [hover.eq_ofBytes]
    rfl
  obtain ⟨hresult, hstate⟩ := parse_of_proceed (p := strict) rfl rfl hproceed state s
  have hsaw : Saw (s.records.map Attribute.chunk) := ⟨s.records, rfl, hstate⟩
  -- a well-formed stream leaves nothing over, and that decides which of the two cases it is
  by_cases hlast : s.last.remaining ≤ 0
  · have hformed : WellFormed (s.records.map Attribute.chunk) bs := by
      rw [← hrest]
      exact Attributes.wellFormed_of_last hcount hlast
    have hfinish : strict.finish s.last = .ok .proceed := by
      rw [finish, if_neg]
      intro hfails
      omega
    refine ⟨⟨fun _ => ⟨_, hformed⟩, fun _ => hresult.trans hfinish⟩, ?_,
      fun hnone => absurd ⟨_, hformed⟩ hnone⟩
    intro cs hcs
    rw [← (Attributes.records_of_wellFormed hcs hrest hcount).1]
    exact hsaw
  · have hlast : 0 < s.last.remaining := Int.not_le.mp hlast
    have hnone : ∀ cs, ¬WellFormed cs bs := by
      intro cs hcs
      have hend := (Attributes.records_of_wellFormed hcs hrest hcount).2
      omega
    have hback : (s.last.rest.length : Int) = s.last.remaining := by
      have hlength := s.last.length_rest
      omega
    have hfinish : strict.finish s.last = .error (.truncated s.last.rest.length) := by
      rw [finish, if_pos ⟨rfl, hlast⟩, hback]
    obtain ⟨front, hsplit, hlongest⟩ := Attributes.longestPadded_of_last hcount hlast
    refine ⟨⟨fun hok => ?_, fun ⟨cs, hcs⟩ => absurd hcs (hnone cs)⟩,
      fun cs hcs => absurd hcs (hnone cs), fun _ => ?_⟩
    · rw [hfinish] at hresult
      cases hok.symm.trans hresult
    · exact ⟨_, front, s.last.rest, hrest ▸ hsplit, hlongest, by omega, hresult.trans hfinish, hsaw⟩

/-- Behind an extra header of six bytes: an attribute with other padding than zeros, and one whose
padding is cut. -/
theorem parse_strict_cut :
    let bs : Bytes := [5, 0, 1, 0, 7, 9, 9, 9, 6, 0, 2, 0x80, 1, 2, 3]
    let bytes := Header.encode { size := 39 } ++ [1, 2, 3, 4, 5, 6, 0, 0] ++ bs
    let record : Callback Attribute (List Chunk) := fun seen a => ⟨.proceed, seen ++ [a.chunk], []⟩
    ∃ m, Message.parse? bytes = some m ∧ m.payloadAt? 6 = some bs ∧
      (∀ state a, (record state a).result = .proceed) ∧
      let outcome := ({ unsupported := .abort, rejectTrailing := true } : Policy).parse record []
        (.ofMessage m 6)
      outcome.result = .ok .proceed ∧ outcome.state = [⟨1, [7]⟩, ⟨0x8002, [1, 2]⟩] := by
  intro bs bytes record
  let m : Message := ⟨bytes, by decide, by decide⟩
  have hpayload : m.payloadAt? 6 = some bs := by decide +kernel
  have hproceed : ∀ state a, (record state a).result = .proceed := fun _ _ => rfl
  have hformed : WellFormed [⟨1, [7]⟩, ⟨0x8002, [1, 2]⟩] bs :=
    @WellFormed.cons ⟨1, [7]⟩ _ [9, 9, 9] _ (by decide) (by decide)
      (@WellFormed.last ⟨0x8002, [1, 2]⟩ [3] (by decide) (by decide))
  obtain ⟨haccepts, hshows, _⟩ := parse_strict (.message hpayload) .abort hproceed []
  obtain ⟨seen, hseen, hstate⟩ := hshows _ hformed
  refine ⟨m, rfl, hpayload, hproceed, haccepts.mpr ⟨_, hformed⟩, hstate.trans ?_⟩
  show seen.foldl (fun shown a => shown ++ [a.chunk]) [] = _
  rw [List.foldl_append_eq_append, List.nil_append, ← List.flatMap_def, ← hseen]
  exact List.map_eq_flatMap.symm

end Policy

end Netlink
