import Netlink.Proofs.Attribute.Strict

/-!
# Parses as folds

What a parse under any policy does, told by recursion on the list of the attributes that the stream
holds. Main statement: `parse_eq_parseList`, on every policy and every callback, and what it comes
to for the policy that checks nothing and for one that skips the types above a maximum.
-/

namespace Netlink

theorem Verdict.isProceed_iff {v : Verdict} : v.isProceed = true ↔ v = .proceed := by
  cases v <;> simp [isProceed]

namespace Stream

variable {α σ β : Type} {step : σ → α → Outcome (Option β) σ} {state next : σ} {a : α}
  {events : List Event}

theorem visitList_of_step_none (h : step state a = ⟨none, next, events⟩) (later : List α) :
    visitList step state (a :: later) =
      ⟨(visitList step next later).result, (visitList step next later).state,
        events ++ (visitList step next later).events⟩ := by
  rw [visitList_cons_none (by rw [h]), h]

theorem visitList_of_step_some {result : β} (h : step state a = ⟨some result, next, events⟩)
    (later : List α) : visitList step state (a :: later) = ⟨some result, next, events⟩ := by
  rw [visitList_cons_some (by rw [h]), h]

end Stream

namespace Attributes

variable {σ : Type} {callback : Callback Attribute σ} {state : σ} {a : Attribute}

def walkList (callback : Callback Attribute σ) (state : σ) : List Attribute → Outcome Verdict σ
  | [] => ⟨.proceed, state, []⟩
  | a :: later =>
    let answer := callback state a
    if answer.result = .proceed then
      let rest := walkList callback answer.state later
      { rest with events := answer.events ++ rest.events }
    else answer

theorem walkList_cons_proceed (h : (callback state a).result = .proceed) (later : List Attribute) :
    walkList callback state (a :: later) =
      ⟨(walkList callback (callback state a).state later).result,
        (walkList callback (callback state a).state later).state,
        (callback state a).events ++
          (walkList callback (callback state a).state later).events⟩ := by
  rw [walkList, if_pos h]

theorem walkList_cons_other (h : (callback state a).result ≠ .proceed) (later : List Attribute) :
    walkList callback state (a :: later) = callback state a := by
  rw [walkList, if_neg h]

theorem walk_eq_walkList (callback : Callback Attribute σ) (state : σ) (s : Attributes) :
    s.walk callback state = walkList callback state s.records := by
  let step : σ → Attribute → Outcome (Option Verdict) σ := fun state a =>
    ⟨if (callback state a).result.isProceed then none else some (callback state a).result,
      (callback state a).state, (callback state a).events⟩
  have hlist (as : List Attribute) (state : σ) : walkList callback state as =
      ⟨(Stream.visitList step state as).result.getD .proceed,
        (Stream.visitList step state as).state, (Stream.visitList step state as).events⟩ := by
    induction as generalizing state with
    | nil => rfl
    | cons a later ih =>
        by_cases hanswer : (callback state a).result = .proceed
        · have hnone : (step state a).result = none := if_pos (Verdict.isProceed_iff.mpr hanswer)
          rw [walkList_cons_proceed hanswer, Stream.visitList_cons_none hnone, ih]
        · have hsome : (step state a).result = some (callback state a).result :=
            if_neg (mt Verdict.isProceed_iff.mp hanswer)
          rw [walkList_cons_other hanswer, Stream.visitList_cons_some hsome]
          rfl
  obtain ⟨hresult, hstate, hevents, _⟩ := Stream.visit_eq step state s
  rw [hlist, ← hresult, ← hstate, ← hevents]
  rfl

end Attributes

namespace Policy

variable {σ : Type}

def exceeded? (p : Policy) (a : Attribute) : Option UInt16 := p.maxType.filter (· < a.type)

def fault? (p : Policy) (a : Attribute) : Option AttributeError :=
  match p.kinds[a.type.toNat]? with
  | some (some kind) =>
    match a.validate kind with
    | .error e => some e
    | .ok () => none
  | some none | none => none

/-- Takes the attributes in order: one above the maximum is skipped or ends the parse, one with a
faulty payload ends it, and any other is shown to `callback`, whose answer ends it if that is not
`proceed`. Behind the last one, `remaining` bytes are left of the stream. -/
def parseList (p : Policy) (callback : Callback Attribute σ) (remaining : Int) (state : σ) :
    List Attribute → Outcome (Except AttributeError Verdict) σ
  | [] =>
    if p.rejectTrailing ∧ 0 < remaining then ⟨.error (.truncated remaining), state, []⟩
    else ⟨.ok .proceed, state, []⟩
  | a :: later =>
    match p.exceeded? a, p.unsupported with
    | some maxType, .skip =>
      let rest := p.parseList callback remaining state later
      { rest with events := .attributeSkipped a.type maxType :: rest.events }
    | some maxType, .abort => ⟨.error (.unsupported a.type maxType), state, []⟩
    | none, _ =>
      match p.fault? a with
      | some e => ⟨.error e, state, []⟩
      | none =>
        let answer := callback state a
        if answer.result = .proceed then
          let rest := p.parseList callback remaining answer.state later
          { rest with events := answer.events ++ rest.events }
        else ⟨.ok answer.result, answer.state, answer.events⟩

variable {p : Policy} {callback : Callback Attribute σ} {state : σ} {a : Attribute}

/-! ## One attribute -/

theorem validateKinds_eq (p : Policy) (a : Attribute) :
    a.validateKinds p.kinds = match p.fault? a with
      | some e => .error e
      | none => .ok () := by
  rw [Attribute.validateKinds, fault?]
  rcases p.kinds[a.type.toNat]? with _ | _ | kind
  · rfl
  · rfl
  · cases hvalid : a.validate kind <;> simp only [Option.join_some, hvalid]

theorem deliver_of_fault {e : AttributeError} (h : p.fault? a = some e) :
    p.deliver callback state a = ⟨some (.error e), state, []⟩ := by
  rw [deliver, validateKinds_eq, h]

theorem deliver_of_shown (h : p.fault? a = none) :
    p.deliver callback state a =
      ⟨if (callback state a).result.isProceed then none else some (.ok (callback state a).result),
        (callback state a).state, (callback state a).events⟩ := by
  rw [deliver, validateKinds_eq, h]

theorem step_of_exceeded {maxType : UInt16} (h : p.exceeded? a = some maxType)
    (callback : Callback Attribute σ) (state : σ) :
    p.step callback state a = match p.unsupported with
      | .skip => ⟨none, state, [.attributeSkipped a.type maxType]⟩
      | .abort => ⟨some (.error (.unsupported a.type maxType)), state, []⟩ := by
  obtain ⟨hmax, habove⟩ := Option.filter_eq_some_iff.mp h
  have hrefused : a.validateType maxType = .error (.unsupported a.type maxType) :=
    if_pos (of_decide_eq_true habove)
  simp only [step, hmax, hrefused]
  cases p.unsupported <;> rfl

theorem step_of_not_exceeded (h : p.exceeded? a = none) (callback : Callback Attribute σ)
    (state : σ) : p.step callback state a = p.deliver callback state a := by
  rw [step]
  cases hmax : p.maxType with
  | none => rfl
  | some maxType =>
      have hbelow : ¬maxType < a.type := by
        simpa [exceeded?, hmax, Option.filter] using h
      have hpasses : a.validateType maxType = .ok () := if_neg hbelow
      simp only [hpasses]

/-! ## The whole parse -/

theorem visitList_eq_parseList (p : Policy) (callback : Callback Attribute σ) (t : Attributes)
    (state : σ) (as : List Attribute) :
    (⟨(Stream.visitList (p.step callback) state as).result.getD (p.finish t),
        (Stream.visitList (p.step callback) state as).state,
        (Stream.visitList (p.step callback) state as).events⟩ : Outcome _ σ) =
      p.parseList callback t.remaining state as := by
  induction as generalizing state with
  | nil =>
      rw [parseList]
      show (⟨p.finish t, state, []⟩ : Outcome _ σ) = _
      rw [finish]
      split <;> rfl
  | cons a later ih =>
      rw [parseList]
      -- the maximum comes before the payload, so a type above it may hold anything
      cases hexceeded : p.exceeded? a with
      | some maxType =>
          have hstep := step_of_exceeded hexceeded callback state
          cases hunsupported : p.unsupported with
          | skip =>
              rw [hunsupported] at hstep
              rw [Stream.visitList_of_step_none hstep, ← ih]
              rfl
          | abort =>
              rw [hunsupported] at hstep
              rw [Stream.visitList_of_step_some hstep]
              rfl
      | none =>
          have hstep := step_of_not_exceeded hexceeded callback state
          cases hfault : p.fault? a with
          | some e =>
              rw [deliver_of_fault hfault] at hstep
              rw [Stream.visitList_of_step_some hstep]
              rfl
          | none =>
              rw [deliver_of_shown hfault] at hstep
              by_cases hanswer : (callback state a).result = .proceed
              · rw [hanswer] at hstep
                rw [Stream.visitList_of_step_none hstep]
                simp only [if_pos hanswer, ← ih]
              · rw [if_neg (mt Verdict.isProceed_iff.mp hanswer)] at hstep
                rw [Stream.visitList_of_step_some hstep]
                simp only [if_neg hanswer]
                rfl

theorem parse_eq_of_records (p : Policy) (callback : Callback Attribute σ) (state : σ)
    (s : Attributes) :
    p.parse callback state s = p.parseList callback s.last.remaining state s.records :=
  (parse_eq_visitList p callback state s).trans (visitList_eq_parseList p callback s.last state _)

variable {as : List Attribute}

theorem parseList_of_passed (htrailing : p.rejectTrailing = false)
    (hexceeded : ∀ a ∈ as, p.exceeded? a = none) (hfault : ∀ a ∈ as, p.fault? a = none)
    (callback : Callback Attribute σ) (remaining : Int) (state : σ) :
    p.parseList callback remaining state as =
      ⟨.ok (Attributes.walkList callback state as).result,
        (Attributes.walkList callback state as).state,
        (Attributes.walkList callback state as).events⟩ := by
  induction as generalizing state with
  | nil =>
      rw [parseList, if_neg (by simp [htrailing])]
      rfl
  | cons a later ih =>
      rw [List.forall_mem_cons] at hexceeded hfault
      rw [parseList]
      simp only [hexceeded.1, hfault.1]
      by_cases hanswer : (callback state a).result = .proceed
      · rw [if_pos hanswer, Attributes.walkList_cons_proceed hanswer, ih hexceeded.2 hfault.2]
      · rw [if_neg hanswer, Attributes.walkList_cons_other hanswer]

/-- Where the types above a maximum are skipped and nothing else is checked, a parse of the list
answers and leaves the state as a walk of the other attributes does. -/
theorem parseList_of_skipped (htrailing : p.rejectTrailing = false)
    (hskip : p.unsupported = .skip) (hfault : ∀ a ∈ as, p.fault? a = none)
    (callback : Callback Attribute σ) (remaining : Int) (state : σ) :
    let kept := as.filter fun a => (p.exceeded? a).isNone
    (p.parseList callback remaining state as).result =
        .ok (Attributes.walkList callback state kept).result ∧
      (p.parseList callback remaining state as).state =
        (Attributes.walkList callback state kept).state := by
  induction as generalizing state with
  | nil =>
      rw [parseList, if_neg (by simp [htrailing])]
      exact ⟨rfl, rfl⟩
  | cons a later ih =>
      rw [List.forall_mem_cons] at hfault
      intro kept
      cases hexceeded : p.exceeded? a with
      | some maxType =>
          have hkept : kept = later.filter fun a => (p.exceeded? a).isNone :=
            List.filter_cons_of_neg (by simp [hexceeded])
          rw [hkept, parseList]
          simp only [hexceeded, hskip]
          exact ih hfault.2 state
      | none =>
          have hkept : kept = a :: later.filter fun a => (p.exceeded? a).isNone :=
            List.filter_cons_of_pos (by simp [hexceeded])
          rw [hkept, parseList]
          simp only [hexceeded, hfault.1]
          by_cases hanswer : (callback state a).result = .proceed
          · rw [if_pos hanswer, Attributes.walkList_cons_proceed hanswer]
            exact ih hfault.2 _
          · rw [if_neg hanswer, Attributes.walkList_cons_other hanswer]
            exact ⟨rfl, rfl⟩

/-- A parse is the fold over the attributes of the stream, under every policy and for every
callback. With no checks it is the plain walk, and where it skips the types above a maximum it
answers as a walk of the attributes up to the maximum, and leaves the same state. -/
theorem parse_eq_parseList (p : Policy) (callback : Callback Attribute σ) (state : σ)
    (s : Attributes) :
    let walked := s.walk callback state
    p.parse callback state s = p.parseList callback s.last.remaining state s.records ∧
      ({} : Policy).parse callback state s = ⟨.ok walked.result, walked.state, walked.events⟩ ∧
      walked = Attributes.walkList callback state s.records ∧
      ∀ maxType : UInt16,
        let skips : Policy := { maxType := some maxType, unsupported := .skip }
        let kept := s.records.filter fun a => Attribute.type a ≤ maxType
        (skips.parse callback state s).result =
            .ok (Attributes.walkList callback state kept).result ∧
          (skips.parse callback state s).state =
            (Attributes.walkList callback state kept).state := by
  intro walked
  refine ⟨parse_eq_of_records p callback state s, ?_,
    Attributes.walk_eq_walkList callback state s, ?_⟩
  · rw [parse_eq_of_records, show walked = _ from Attributes.walk_eq_walkList callback state s]
    exact parseList_of_passed rfl (fun _ _ => rfl) (fun _ _ => rfl) callback _ state
  · intro maxType skips kept
    have hkept : kept = s.records.filter fun a => (skips.exceeded? a).isNone := by
      refine List.filter_congr fun a _ => ?_
      by_cases habove : maxType < a.type
      · simp [skips, exceeded?, Option.filter, habove, UInt16.not_le.mpr habove]
      · simp [skips, exceeded?, Option.filter, habove, UInt16.not_lt.mp habove]
    rw [parse_eq_of_records, hkept]
    exact parseList_of_skipped rfl rfl (fun _ _ => rfl) callback _ state

end Policy

end Netlink
