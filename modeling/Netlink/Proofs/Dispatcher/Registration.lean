import Mathlib.Data.List.Basic
import Netlink.Proofs.Dispatcher.Cut

/-!
# Histories of registrations

A dispatcher is what its registrations made of it, one after the other. Only the last handler of
each control type counts, and data types are refused. Main statement: `observeAll_registrations`, by
which two histories with the same last handlers cannot be told apart, neither by their descriptions
nor by any number of runs.
-/

namespace Netlink

namespace Course

variable {σ : Type} {rs : List (Registration σ)} {type : UInt16} {index : Nat}
  {handler : Callback Message σ}

/-- The registration that `lastFor` finds is for the type, and no later one is. -/
theorem lastFor_eq_some (h : lastFor rs type = some (index, handler)) :
    rs[index]? = some ⟨type, handler⟩ ∧
      ∀ later r, index < later → rs[later]? = some r → r.type ≠ type := by
  induction rs using List.reverseRecOn with
  | nil => cases h
  | append_singleton rs last ih =>
      rw [lastFor_append] at h
      split at h
      · rename_i htype
        cases h
        subst htype
        refine ⟨List.getElem?_concat_length, fun later r hlater hr => ?_⟩
        have hlt := (List.getElem?_eq_some_iff.mp hr).1
        rw [List.length_append, List.length_singleton] at hlt
        omega
      · rename_i htype
        obtain ⟨hfound, hlast⟩ := ih h
        have hlt := (List.getElem?_eq_some_iff.mp hfound).1
        refine ⟨by rw [List.getElem?_append_left hlt, hfound], fun later r hlater hr => ?_⟩
        rw [List.getElem?_append] at hr
        split at hr
        · exact hlast later r hlater hr
        · have hmem := List.mem_singleton.mp (List.mem_of_getElem? hr)
          exact hmem ▸ htype

theorem isSome_lastFor : (lastFor rs type).isSome ↔ ∃ r ∈ rs, r.type = type := by
  induction rs using List.reverseRecOn with
  | nil => simp [lastFor]
  | append_singleton rs last ih =>
      rw [lastFor_append]
      split
      · rename_i htype
        simp [htype]
      · rename_i htype
        simp [ih, htype]

def SameHandlers (rs rs' : List (Registration σ)) : Prop :=
  ∀ type : UInt16, type.toNat < 16 →
    (lastFor rs type).map Prod.snd = (lastFor rs' type).map Prod.snd

end Course

def Callee.registration {σ : Type} (rs : List (Registration σ)) : Callee → Option (Registration σ)
  | .data => none
  | .handler index => rs[index]?

namespace Course

variable {σ : Type} {rs rs' : List (Registration σ)} {expected : Correlation}
  {data : Callback Message σ} {state : σ} {m m' : Message}

def resolve (rs : List (Registration σ)) (calls : List (Callee × Message)) :
    List (Option (Registration σ) × Message) :=
  calls.map fun call => (call.1.registration rs, call.2)

def told (rs : List (Registration σ)) (c : Course σ) :
    Dispatcher.Ending × σ × List (Option (Registration σ) × Message) :=
  (c.ending, c.state, resolve rs c.calls)

theorem handed_congr (h : SameHandlers rs rs') :
    (handed rs data state m).ending = (handed rs' data state m).ending ∧
      (handed rs data state m).state = (handed rs' data state m).state ∧
      resolve rs (handed rs data state m).calls = resolve rs' (handed rs' data state m).calls := by
  unfold handed
  split
  · exact ⟨rfl, rfl, rfl⟩
  · rename_i hcontrol
    have hsame := h m.header.type (Nat.lt_of_not_le hcontrol)
    cases hlast : lastFor rs m.header.type with
    | none =>
        rw [hlast, Option.map_none, eq_comm, Option.map_eq_none_iff] at hsame
        rw [hsame]
        exact ⟨rfl, rfl, rfl⟩
    | some found =>
        rw [hlast, Option.map_some, eq_comm, Option.map_eq_some_iff] at hsame
        obtain ⟨found', hlast', hhandler⟩ := hsame
        -- the handlers are the same, though their places in the two histories may differ
        obtain ⟨index, handler⟩ := found
        obtain ⟨index', handler'⟩ := found'
        cases hhandler
        rw [hlast']
        refine ⟨rfl, rfl, ?_⟩
        show [(rs[index]?, m)] = [(rs'[index']?, m)]
        rw [(lastFor_eq_some hlast).1, (lastFor_eq_some hlast').1]

theorem judge_congr (h : SameHandlers rs rs') (expected : Correlation) (data : Callback Message σ)
    (state : σ) (m : Message) :
    (judge expected rs data state m).ending = (judge expected rs' data state m).ending ∧
      (judge expected rs data state m).state = (judge expected rs' data state m).state ∧
      resolve rs (judge expected rs data state m).calls =
        resolve rs' (judge expected rs' data state m).calls := by
  unfold judge
  split
  · exact ⟨rfl, rfl, rfl⟩
  · split
    · exact ⟨rfl, rfl, rfl⟩
    · exact handed_congr h

theorem told_of_congr (h : SameHandlers rs rs') (state : σ) (messages : List Message) :
    told rs (of expected rs data state messages) =
      told rs' (of expected rs' data state messages) := by
  induction messages generalizing state with
  | nil => rfl
  | cons m later ih =>
      obtain ⟨hending, hstate, hcalls⟩ := judge_congr h expected data state m
      cases hjudged : (judge expected rs data state m).ending with
      | some ending =>
          rw [of_cons_some hjudged, of_cons_some (hending ▸ hjudged), told, told, hstate, hcalls]
      | none =>
          have hlater := ih (judge expected rs data state m).state
          rw [of_cons_none hjudged, of_cons_none (hending ▸ hjudged), ← hstate]
          simp only [told, resolve, List.map_append, Prod.mk.injEq] at hlater hcalls ⊢
          exact ⟨hlater.1, hlater.2.1, by rw [hcalls, hlater.2.2]⟩

/-- A handler is shown messages of its type only, and none after another took its place. -/
theorem judge_calls {index : Nat}
    (h : (.handler index, m) ∈ (judge expected rs data state m').calls) :
    m = m' ∧ ∃ handler, lastFor rs m.header.type = some (index, handler) := by
  unfold judge handed at h
  split at h
  · cases h
  · split at h
    · cases h
    · split at h
      · cases List.mem_singleton.mp h
      · split at h
        · rename_i found hfound
          cases List.mem_singleton.mp h
          exact ⟨rfl, _, hfound⟩
        · cases h

theorem of_calls {index : Nat} {messages : List Message}
    (h : (.handler index, m) ∈ (of expected rs data state messages).calls) :
    ∃ handler, lastFor rs m.header.type = some (index, handler) := by
  induction messages generalizing state with
  | nil => cases h
  | cons first later ih =>
      cases hjudged : (judge expected rs data state first).ending with
      | some ending =>
          rw [of_cons_some hjudged] at h
          exact (judge_calls h).2
      | none =>
          rw [of_cons_none hjudged] at h
          rcases List.mem_append.mp h with hhere | hlater
          · exact (judge_calls hhere).2
          · exact ih hlater

end Course

/-! ## Dispatchers -/

structure Receive (σ : Type) where
  data : Callback Message σ
  buffer : Bytes

namespace Dispatcher

variable {σ : Type} (expected : Correlation) {rs rs' : List (Registration σ)}

/-- One run after the other, each from the state that the one before left. -/
def observeAll (rs : List (Registration σ)) : σ → List (Receive σ) → List (Course σ)
  | _, [] => []
  | state, r :: later =>
    let seen := observe expected rs r.data state r.buffer
    seen :: observeAll rs seen.state later

theorem on_eq (d : Dispatcher σ) (r : Registration σ) :
    d.on r.type r.handler =
      if 16 ≤ r.type.toNat then .error (.notControl r.type) else .ok (d.register r) := by
  unfold register on
  split
  · rename_i hnone
    rw [if_pos (ofType?_eq_none_iff.mp hnone)]
  · rename_i control hcontrol
    rw [if_neg (Nat.not_le_of_lt (lt_of_ofType?_eq_some hcontrol))]

theorem register_of_data (d : Dispatcher σ) {r : Registration σ} (h : 16 ≤ r.type.toNat) :
    d.register r = d := by
  unfold register
  rw [on_eq, if_pos h]

theorem ofType?_control (control : ControlType) :
    ControlType.ofType? (.ofNat control.val) = some control := by
  have hcontrol := control.isLt
  rw [ofType?_eq_some_iff, UInt16.toNat_ofNat_of_lt' (Nat.lt_trans hcontrol (by decide))]

theorem withHandlers_congr (h : Course.SameHandlers rs rs') :
    withHandlers expected rs = withHandlers expected rs' := by
  have hhandlers : (withHandlers expected rs).handlers = (withHandlers expected rs').handlers := by
    funext control
    have htype := ofType?_control control
    rw [handlers_withHandlers expected rs htype, handlers_withHandlers expected rs' htype]
    exact h _ (lt_of_ofType?_eq_some htype)
  calc withHandlers expected rs
      = ⟨(withHandlers expected rs).expected, (withHandlers expected rs).handlers⟩ := rfl
    _ = ⟨(withHandlers expected rs').expected, (withHandlers expected rs').handlers⟩ := by
        rw [hhandlers, expected_withHandlers, expected_withHandlers]

theorem mem_overrides_iff {control : ControlType} :
    control ∈ (withHandlers expected rs).overrides ↔ ∃ r ∈ rs, r.type.toNat = control.val := by
  have htype := ofType?_control control
  unfold overrides
  rw [List.mem_filter, handlers_withHandlers expected rs htype, Option.isSome_map,
    Course.isSome_lastFor]
  simp only [List.mem_finRange, true_and, ← UInt16.toNat_inj, ofType?_eq_some_iff.mp htype]

theorem pairwise_overrides (d : Dispatcher σ) : d.overrides.Pairwise (· < ·) :=
  (List.pairwise_lt_finRange 16).filter _

/-! ## Descriptions -/

/-- Control types as a description lists them. -/
def listed (controls : List ControlType) : String :=
  ", ".intercalate (controls.map fun control => toString control.val)

def numeral (control : ControlType) : List Char := (toString control.val).toList

theorem numeral_injective : Function.Injective numeral := by
  unfold Function.Injective
  decide

theorem chars_numeral (control : ControlType) :
    numeral control ≠ [] ∧ ',' ∉ numeral control ∧ ' ' ∉ numeral control := by
  revert control
  decide

theorem filter_intercalate {ws : List (List Char)} (h : ∀ w ∈ ws, ' ' ∉ w) :
    ([',', ' '].intercalate ws).filter (· ≠ ' ') = [','].intercalate ws := by
  induction ws with
  | nil => rfl
  | cons w ws ih =>
      rw [List.forall_mem_cons] at h
      have hw : w.filter (· ≠ ' ') = w :=
        List.filter_eq_self.mpr fun c hc => decide_eq_true fun hblank => h.1 (hblank ▸ hc)
      cases ws with
      | nil => rw [List.intercalate_singleton, List.intercalate_singleton, hw]
      | cons v ws =>
          rw [List.intercalate_cons_cons, List.intercalate_cons_cons, List.filter_append,
            List.filter_append, hw, ih h.2]
          rfl

/-- The list is read back from its text, where it has any types. -/
theorem splitOn_listed {controls : List ControlType} (h : controls ≠ []) :
    ((listed controls).toList.filter (· ≠ ' ')).splitOn ',' = controls.map numeral := by
  have hchars : ∀ w ∈ controls.map numeral, ',' ∉ w ∧ ' ' ∉ w := by
    rw [List.forall_mem_map]
    exact fun control _ => (chars_numeral control).2
  have htext : (listed controls).toList = [',', ' '].intercalate (controls.map numeral) := by
    rw [listed, String.toList_intercalate, List.map_map]
    rfl
  rw [htext, filter_intercalate fun w hw => (hchars w hw).2]
  exact List.splitOn_intercalate ',' (fun w hw => (hchars w hw).1) (mt List.map_eq_nil_iff.mp h)

theorem listed_eq_empty_iff {controls : List ControlType} :
    listed controls = "" ↔ controls = [] := by
  constructor
  · intro h
    by_contra hne
    have hempty : [] ∈ controls.map numeral := by
      rw [← splitOn_listed hne, h]
      decide
    obtain ⟨control, _, hnil⟩ := List.mem_map.mp hempty
    exact (chars_numeral control).1 hnil
  · rintro rfl
    rfl

theorem listed_injective : Function.Injective listed := by
  intro cs ds h
  by_cases hcs : cs = []
  · rw [hcs] at h ⊢
    exact (listed_eq_empty_iff.mp h.symm).symm
  · have hds : ds ≠ [] := by
      rintro rfl
      exact hcs (listed_eq_empty_iff.mp h)
    have hwords := splitOn_listed hcs
    rw [h, splitOn_listed hds] at hwords
    exact (List.map_injective_iff.mpr numeral_injective hwords).symm

theorem describe_eq (d : Dispatcher σ) : d.describe =
    "Dispatcher \x7b config: DispatchConfig \x7b seq: " ++ toString d.expected.seq.toNat ++
      ", port_id: " ++ toString d.expected.port.toNat ++ " \x7d, overrides: [" ++
      listed d.overrides ++ "] \x7d" := by
  have hseq : "Dispatcher \x7b config: DispatchConfig \x7b seq: " =
      "Dispatcher \x7b config: DispatchConfig \x7b " ++ "seq: " := by decide +kernel
  have hport : ", port_id: " = ", " ++ "port_id: " := by decide +kernel
  unfold describe
  rw [hseq, hport, listed]
  simp only [String.append_assoc]

/-- With the same replies expected, a description tells which types have a handler. -/
theorem describe_eq_iff {d e : Dispatcher σ} (h : d.expected = e.expected) :
    d.describe = e.describe ↔ d.overrides = e.overrides := by
  rw [describe_eq, describe_eq, h, String.append_left_inj, String.append_right_inj]
  exact listed_injective.eq_iff

/-! ## Runs -/

theorem observeAll_congr (h : Course.SameHandlers rs rs') (state : σ)
    (receives : List (Receive σ)) :
    (observeAll expected rs state receives).map (Course.told rs) =
      (observeAll expected rs' state receives).map (Course.told rs') := by
  induction receives generalizing state with
  | nil => rfl
  | cons r later ih =>
      have htold : Course.told rs (observe expected rs r.data state r.buffer) =
          Course.told rs' (observe expected rs' r.data state r.buffer) := by
        rw [observe_eq_of, observe_eq_of]
        exact Course.told_of_congr h state _
      have hstate : (observe expected rs r.data state r.buffer).state =
          (observe expected rs' r.data state r.buffer).state := congrArg (·.2.1) htold
      rw [observeAll, observeAll, List.map_cons, List.map_cons, htold, ih, hstate]

/-- Histories of registrations that end with the same handlers for the control types make the same
dispatcher, whatever was replaced or refused in between. All runs after them end in the same way and
in the same state and call the same handlers with the same messages. The overrides are the control
types of the history in increasing order; the description lists them and differs where they do.
Every call goes to the last handler that was registered for the type of the message. -/
theorem observeAll_registrations (h : Course.SameHandlers rs rs') :
    let d := withHandlers expected rs
    let d' := withHandlers expected rs'
    (∀ (e : Dispatcher σ) (r : Registration σ),
      if 16 ≤ r.type.toNat then
        e.on r.type r.handler = .error (.notControl r.type) ∧ e.register r = e
      else e.on r.type r.handler = .ok (e.register r)) ∧
      (∀ state receives, (observeAll expected rs state receives).map (Course.told rs) =
        (observeAll expected rs' state receives).map (Course.told rs')) ∧
      d.overrides = d'.overrides ∧ d.describe = d'.describe ∧ d.overrides.Pairwise (· < ·) ∧
      (∀ control, control ∈ d.overrides ↔ ∃ r ∈ rs, r.type.toNat = control.val) ∧
      (d.describe =
        "Dispatcher \x7b config: DispatchConfig \x7b seq: " ++ toString expected.seq.toNat ++
          ", port_id: " ++ toString expected.port.toNat ++ " \x7d, overrides: [" ++
          listed d.overrides ++ "] \x7d") ∧
      (∀ e : Dispatcher σ, e.expected = expected →
        (e.describe = d.describe ↔ e.overrides = d.overrides)) ∧
      ∀ data state buffer index m,
        (.handler index, m) ∈ (observe expected rs data state buffer).calls →
        ∃ handler, rs[index]? = some ⟨m.header.type, handler⟩ ∧
          ∀ later r, index < later → rs[later]? = some r → r.type ≠ m.header.type := by
  intro d d'
  have hsame : d = d' := withHandlers_congr expected h
  have hexpected : d.expected = expected := expected_withHandlers expected rs
  have hdescribe := describe_eq d
  rw [hexpected] at hdescribe
  refine ⟨fun e r => ?_, observeAll_congr expected h, by rw [hsame], by rw [hsame],
    pairwise_overrides d, fun control => mem_overrides_iff expected, hdescribe,
    fun e he => describe_eq_iff (he.trans hexpected.symm), ?_⟩
  · rw [on_eq]
    split
    · rename_i hdata
      exact ⟨rfl, register_of_data e hdata⟩
    · rfl
  · intro data state buffer index m hcall
    rw [observe_eq_of] at hcall
    obtain ⟨handler, hlast⟩ := Course.of_calls hcall
    exact ⟨handler, Course.lastFor_eq_some hlast⟩

/-- The first handler for the type 3 is replaced and one for the type 16 refused; the other history
registers what is left in the other order. -/
theorem observeAll_registrations_replaced :
    let stops : Callback Message Nat := fun count _ => ⟨.stop, count + 1, []⟩
    let goes : Callback Message Nat := fun count _ => ⟨.proceed, count + 10, []⟩
    let rs : List (Registration Nat) := [⟨3, stops⟩, ⟨16, stops⟩, ⟨3, goes⟩, ⟨1, stops⟩]
    let rs' : List (Registration Nat) := [⟨1, stops⟩, ⟨3, goes⟩]
    let buffer := Header.encode { size := 16, type := 3 } ++ Header.encode { size := 16, type := 1 }
    let receives : List (Receive Nat) := [⟨stops, buffer⟩, ⟨goes, buffer⟩]
    Course.SameHandlers rs rs' ∧
      (observeAll {} rs 0 receives).map (Course.told rs) =
        (observeAll {} rs' 0 receives).map (Course.told rs') ∧
      (observeAll {} rs 0 receives).map Course.state = [11, 22] ∧
      (withHandlers {} rs').overrides = [1, 3] ∧
      (withHandlers {} rs).describe = "Dispatcher \x7b config: DispatchConfig \x7b " ++
        "seq: 0, port_id: 0 \x7d, overrides: [1, 3] \x7d" := by
  intro stops goes rs rs' buffer receives
  have hsame : Course.SameHandlers rs rs' := by
    intro type hcontrol
    by_cases hthree : type = 3
    · subst hthree; rfl
    · by_cases hone : type = 1
      · subst hone; rfl
      · have hdata : type ≠ 16 := by
          rintro rfl
          exact absurd hcontrol (by decide)
        simp [Course.lastFor, rs, rs', Ne.symm hthree, Ne.symm hone, Ne.symm hdata]
  obtain ⟨_, htold, hoverrides, _, _, _, hdescribe, _⟩ := observeAll_registrations {} hsame
  have hlisted : (withHandlers {} rs').overrides = [1, 3] := by decide +kernel
  rw [hoverrides, hlisted] at hdescribe
  exact ⟨hsame, htold 0 receives, by decide +kernel, hlisted, hdescribe.trans (by decide +kernel)⟩

end Dispatcher

end Netlink
