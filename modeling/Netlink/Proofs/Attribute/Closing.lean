import Netlink.Proofs.Attribute.Grammar
import Netlink.Proofs.Attribute.Writing
import Netlink.Proofs.Draft.Refusal
import Netlink.Proofs.Stream.Cut

/-!
# Nests that cannot be closed

A caller closes or drops every nest that it opened, innermost first, whatever is refused on the way.
A nest that outgrew its length field cannot be closed and is lost: its header keeps length zero
until a nest around it is dropped. Main statement: `run_attributes`, by which a reader finds
everything that was appended at top level if no nest is lost in the end, and stops at the first lost
nest otherwise.
-/

namespace Netlink

def Draft.attributes? (d : Draft) : Option Attributes :=
  d.message?.bind fun m => if m.bytes = d.bytes then some (.ofMessage m 0) else none

/-- A draft with the nests that its caller has opened and not yet ended or dropped. -/
structure Closing where
  draft : Draft
  /-- Nests lost at the innermost level, the latest first. -/
  lost : List Nest
  /-- The nests held, the innermost first, each with the nests lost before it at its own level. -/
  held : List (Nest × List Nest)
  /-- The attributes appended at top level, in order. -/
  appended : List Chunk

namespace Closing

/-- One call. A nest is ended or dropped only when it is the innermost one held. -/
inductive Step where
  | put (leaf : Leaf)
  | nestStart (type : UInt16)
  | nestEnd
  | nestCancel

/-- Takes down an attribute that was appended, if it stands at top level. -/
def note (w : Closing) (c : Chunk) : Closing :=
  { w with appended := if w.held.isEmpty then w.appended ++ [c] else w.appended }

/-- Makes a call. There is none to make where no nest is held. A refused call leaves the draft as it
is, and the nest that could not be ended or dropped is held no longer. -/
def act (w : Closing) : Step → Option Closing
  | .put leaf =>
    match leaf.appendTo w.draft with
    | .ok d => some ({ w with draft := d }.note ⟨leaf.rawType, leaf.payload⟩)
    | .error _ => some w
  | .nestStart type =>
    match w.draft.nestStart type with
    | .ok (nest, d) => some { w with draft := d, lost := [], held := (nest, w.lost) :: w.held }
    | .error _ => some w
  | .nestEnd =>
    match w.held with
    | [] => none
    | (nest, outer) :: held =>
      match w.draft.nestEnd nest with
      | .ok d =>
        some ({ w with draft := d, lost := outer, held }.note
          ⟨nest.type ||| Attribute.nestedFlag, w.draft.bytes.drop (nest.offset + 4)⟩)
      | .error _ => some { w with lost := w.lost ++ nest :: outer, held }
  | .nestCancel =>
    match w.held with
    | [] => none
    | (nest, outer) :: held =>
      match w.draft.nestCancel nest with
      | .ok d => some { w with draft := d, lost := outer, held }
      | .error _ => some { w with lost := w.lost ++ nest :: outer, held }

def run (start : Draft) (steps : List Step) : Option Closing := steps.foldlM act ⟨start, [], [], []⟩

end Closing

/-! ## Bytes behind the start -/

def Nest.opening (nest : Nest) : Bytes :=
  Draft.attributeHeader 0 (nest.type ||| Attribute.nestedFlag)

@[simp] theorem Nest.length_opening (nest : Nest) : nest.opening.length = 4 :=
  Draft.length_attributeHeader 0 _

/-- What stands inside an open nest is the end of the draft, and its length is aligned. -/
theorem Draft.Appended.inside {d e : Draft} {nest : Nest} {front back : Bytes}
    (h : Appended d (front ++ (nest.opening ++ back)) e)
    (hoffset : nest.offset = d.size + front.length) :
    e.bytes.drop (nest.offset + 4) = back ∧ back.length % 4 = 0 := by
  have hsplit : e.bytes = (e.header.encode ++ (d.payload ++ (front ++ nest.opening))) ++ back := by
    rw [e.bytes_eq, h.payload]
    simp only [List.append_assoc]
  have hfront : (e.header.encode ++ (d.payload ++ (front ++ nest.opening))).length =
      nest.offset + 4 := by
    have hsize := d.size_eq
    simp only [List.length_append, Header.length_encode, Nest.length_opening]
    omega
  constructor
  · rw [hsplit, List.drop_left' hfront]
  · have hlength := congrArg List.length hsplit
    have hwhole := e.aligned
    have hplace := nest.aligned
    rw [List.length_append, hfront] at hlength
    omega

theorem Padded.append {cs ds : List Chunk} {bs bs' : Bytes} (h : Padded cs bs)
    (h' : Padded ds bs') : Padded (cs ++ ds) (bs ++ bs') := by
  induction h with
  | nil => exact h'
  | cons fits pads later ih =>
      rw [List.append_assoc]
      exact .cons fits pads ih

theorem Padded.single (type : UInt16) {payload : Bytes}
    (h : 4 + payload.length ≤ Draft.maxAttributeSize) :
    Padded [⟨type, payload⟩] (Attribute.encode type payload).padded := by
  have hpads : (Bytes.zeros (roundUp (Attribute.encode type payload).length -
      (Attribute.encode type payload).length)).length = Chunk.gap ⟨type, payload⟩ := by
    rw [Bytes.length_zeros, Draft.length_encode_attribute]
    rfl
  have hcons := Padded.cons (c := ⟨type, payload⟩) (Nat.lt_succ_of_le h) hpads .nil
  rw [List.append_nil] at hcons
  exact hcons

namespace Closing

/-- The bytes at top level: attributes, and from the first lost nest on anything. The message has
`base` bytes before them. -/
inductive Level (base : Nat) (appended : List Chunk) : List Nest → Bytes → Prop
  | clean {bs : Bytes} (padded : Padded appended bs) : Level base appended [] bs
  | stuck {lost : List Nest} {nest : Nest} {cs : List Chunk} {front back : Bytes}
      (first : lost.getLast? = some nest) (padded : Padded cs front) (early : cs <+: appended)
      (offset : nest.offset = base + front.length) :
      Level base appended lost (front ++ (nest.opening ++ back))

/-- The bytes behind the start of a draft: a level, and behind it the nests held, each with
anything inside it. -/
inductive Stacked (base : Nat) (appended : List Chunk) :
    List Nest → List (Nest × List Nest) → Bytes → Prop
  | bottom {lost : List Nest} {bs : Bytes} (level : Level base appended lost bs) :
      Stacked base appended lost [] bs
  | nested {lost outer : List Nest} {held : List (Nest × List Nest)} {nest : Nest}
      {front back : Bytes} (outside : Stacked base appended outer held front)
      (offset : nest.offset = base + front.length) :
      Stacked base appended lost ((nest, outer) :: held) (front ++ (nest.opening ++ back))

variable {base : Nat} {appended : List Chunk} {lost outer : List Nest}
  {held : List (Nest × List Nest)} {nest : Nest} {front bs : Bytes}

theorem Stacked.put (h : Stacked base appended lost held bs) {c : Chunk} {more : Bytes}
    (hmore : Padded [c] more) :
    Stacked base (if held.isEmpty then appended ++ [c] else appended) lost held (bs ++ more) := by
  cases h with
  | bottom level =>
      refine .bottom ?_
      cases level with
      | clean padded => exact .clean (padded.append hmore)
      | stuck first padded early offset =>
          rw [List.append_assoc, List.append_assoc]
          exact .stuck first padded (early.trans (List.prefix_append _ _)) offset
  | nested outside offset =>
      rw [List.append_assoc, List.append_assoc]
      exact .nested outside offset

/-- A nest that is lost stays where it is, with the nests lost inside it and around it. -/
theorem Stacked.lose (h : Stacked base appended outer held front)
    (hoffset : nest.offset = base + front.length) (inside : List Nest) (back : Bytes) :
    Stacked base appended (inside ++ nest :: outer) held (front ++ (nest.opening ++ back)) := by
  cases h with
  | bottom level =>
      -- the first nest lost at top level stays the first, so only this one case makes a level stuck
      refine .bottom ?_
      cases level with
      | clean padded =>
          refine .stuck ?_ padded (List.prefix_refl _) hoffset
          rw [List.getLast?_append, List.getLast?_singleton]
          rfl
      | stuck first padded early offset =>
          rw [List.append_assoc, List.append_assoc]
          refine .stuck ?_ padded early offset
          rw [List.getLast?_append, List.getLast?_cons, first]
          rfl
  | nested outside offset =>
      rw [List.append_assoc, List.append_assoc]
      exact .nested outside offset

/-! ## One call -/

/-- What every call keeps: the nests that are lost and held have headers of length zero behind the
start, and nothing else there is in the way of a reader. -/
def Tracked (start : Draft) (w : Closing) : Prop :=
  ∃ bs, Draft.Appended start bs w.draft ∧ Stacked start.size w.appended w.lost w.held bs

variable {start : Draft} {w w' : Closing}

theorem tracked_start (hstart : start.Synced) : Tracked start ⟨start, [], [], []⟩ :=
  ⟨[], .refl hstart, .bottom (.clean .nil)⟩

theorem Tracked.put (h : Tracked start w) {leaf : Leaf} {d : Draft}
    (hput : leaf.appendTo w.draft = .ok d) :
    Tracked start ({ w with draft := d }.note ⟨leaf.rawType, leaf.payload⟩) := by
  obtain ⟨bs, happended, hstacked⟩ := h
  obtain ⟨hfits, hmore⟩ := Leaf.appendTo_ok hput
  exact ⟨_, happended.trans hmore, hstacked.put (.single leaf.rawType hfits)⟩

theorem Tracked.nestStart (h : Tracked start w) {type : UInt16} {nest : Nest} {d : Draft}
    (hstart : w.draft.nestStart type = .ok (nest, d)) :
    Tracked start { w with draft := d, lost := [], held := (nest, w.lost) :: w.held } := by
  obtain ⟨bs, happended, hstacked⟩ := h
  obtain ⟨rfl, hoffset, hmore⟩ := Draft.nestStart_ok hstart
  refine ⟨bs ++ (nest.opening ++ []), ?_, hstacked.nested (hoffset.trans happended.size)⟩
  rw [List.append_nil]
  exact happended.trans hmore

section Consumed

variable {nest : Nest} {outer : List Nest} {held : List (Nest × List Nest)} {d : Draft}

theorem Tracked.nestEnd (h : Tracked start w) (hheld : w.held = (nest, outer) :: held)
    (hend : w.draft.nestEnd nest = .ok d) :
    Tracked start ({ w with draft := d, lost := outer, held }.note
      ⟨nest.type ||| Attribute.nestedFlag, w.draft.bytes.drop (nest.offset + 4)⟩) := by
  obtain ⟨bs, happended, hstacked⟩ := h
  rw [hheld] at hstacked
  cases hstacked with
  | nested outside offset =>
      rename_i front back
      obtain ⟨hfits, hclosed⟩ := happended.nestEnd offset hend
      obtain ⟨hinside, hlength⟩ := happended.inside offset
      have haligned :
          (Attribute.encode (nest.type ||| Attribute.nestedFlag) back).length % 4 = 0 := by
        rw [Draft.length_encode_attribute]
        omega
      have hone := Padded.single (nest.type ||| Attribute.nestedFlag) hfits
      rw [Bytes.padded_of_mod haligned] at hone
      rw [hinside]
      exact ⟨_, hclosed, outside.put hone⟩

theorem Tracked.lose (h : Tracked start w) (hheld : w.held = (nest, outer) :: held) :
    Tracked start { w with lost := w.lost ++ nest :: outer, held } := by
  obtain ⟨bs, happended, hstacked⟩ := h
  rw [hheld] at hstacked
  cases hstacked with
  | nested outside offset => exact ⟨_, happended, outside.lose offset w.lost _⟩

theorem Tracked.nestCancel (h : Tracked start w) (hheld : w.held = (nest, outer) :: held) :
    ∃ d, w.draft.nestCancel nest = .ok d ∧
      Tracked start { w with draft := d, lost := outer, held } := by
  obtain ⟨bs, happended, hstacked⟩ := h
  rw [hheld] at hstacked
  cases hstacked with
  | nested outside offset =>
      rename_i front back
      have hsize := happended.size
      rw [List.length_append] at hsize
      have hreach : nest.offset ≤ w.draft.size := by omega
      obtain ⟨d, hcancel⟩ := Draft.nestCancel_of_le hreach
      have hkept := happended.truncate offset (Draft.nestCancel_ok hcancel)
      exact ⟨d, hcancel, front, hkept, outside⟩

end Consumed

theorem Tracked.act (h : Tracked start w) {step : Step} (hact : w.act step = some w') :
    Tracked start w' := by
  cases step with
  | put leaf =>
      rw [Closing.act] at hact
      split at hact
      · rename_i d hput
        cases hact
        exact h.put hput
      · cases hact
        exact h
  | nestStart type =>
      rw [Closing.act] at hact
      split at hact
      · rename_i nest d hstart
        cases hact
        exact h.nestStart hstart
      · cases hact
        exact h
  | nestEnd =>
      rw [Closing.act] at hact
      split at hact
      · cases hact
      · rename_i nest outer held hheld
        split at hact
        · rename_i d hend
          cases hact
          exact h.nestEnd hheld hend
        · cases hact
          exact h.lose hheld
  | nestCancel =>
      rw [Closing.act] at hact
      split at hact
      · cases hact
      · rename_i nest outer held hheld
        obtain ⟨d, hcancel, hkept⟩ := h.nestCancel hheld
        rw [hcancel] at hact
        cases hact
        exact hkept

theorem Tracked.foldlM (h : Tracked start w) {steps : List Step}
    (hrun : steps.foldlM Closing.act w = some w') : Tracked start w' := by
  induction steps generalizing w with
  | nil =>
      cases hrun
      exact h
  | cons step steps ih =>
      rw [List.foldlM_cons] at hrun
      obtain ⟨w₁, hact, hlater⟩ := Option.bind_eq_some_iff.mp hrun
      exact ih (h.act hact) hlater

theorem tracked_run (hstart : start.Synced) {steps : List Step} (hrun : run start steps = some w) :
    Tracked start w := (tracked_start hstart).foldlM hrun

end Closing

/-! ## Reading -/

namespace Attributes

variable {s : Attributes} {cs : List Chunk} {front back : Bytes}

theorem records_of_padded (h : Padded cs front) (hrest : s.rest = front ++ back)
    (hcount : s.remaining = s.rest.length) :
    s.records.map Attribute.chunk =
        cs ++ (Stream.ofBytes back : Attributes).records.map Attribute.chunk ∧
      s.last.remaining = (Stream.ofBytes back : Attributes).last.remaining := by
  induction h generalizing s with
  | nil =>
      have hsame : s.rest = (Stream.ofBytes back : Attributes).rest := hrest
      have hlast := Stream.last_remaining_congr hsame
      have hstart : (Stream.ofBytes back : Attributes).remaining = back.length := rfl
      rw [List.nil_append] at hrest
      rw [hcount, hrest, hstart] at hlast
      refine ⟨?_, by omega⟩
      rw [Stream.records_congr hsame, List.nil_append]
  | cons fits pads later ih =>
      rw [List.append_assoc] at hrest
      obtain ⟨a, hfirst, hchunk, hbehind, hleft⟩ := first?_of_padded fits pads hrest hcount
      obtain ⟨hlater, hend⟩ := ih hbehind hleft
      rw [Stream.records_of_first? hfirst, Stream.last_of_first? hfirst, List.map_cons, hchunk,
        hlater]
      exact ⟨rfl, hend⟩

/-- A reader cannot pass the header of an open nest. -/
theorem first?_opening (nest : Nest) (back : Bytes) :
    Record.first? (L := .attr) (nest.opening ++ back) = none := by
  rw [Record.first?_eq_none_iff]
  left
  have hlength : Layout.attr.declared (nest.opening ++ back) = 0 := by
    rw [Layout.declared, Nest.opening, Draft.attributeHeader, List.append_assoc,
      List.take_left' (Bytes.length_encodeLE 2 0), Bytes.decodeLE_encodeLE]
    rfl
  rw [hlength]
  exact Layout.attr.headerSize_pos

end Attributes

namespace Draft

variable {d : Draft} {s : Attributes}

theorem attributes?_of_synced (hd : d.Synced) :
    ∃ s, d.attributes? = some s ∧ s.rest = d.payload ∧ s.remaining = s.rest.length := by
  refine ⟨.ofMessage (d.toMessage hd) 0, ?_, rfl, ?_⟩
  · rw [attributes?, d.message?_eq hd]
    exact if_pos rfl
  · show (d.payload.length : Int) - 0 = d.payload.length
    omega

theorem synced_of_attributes? (h : d.attributes? = some s) : d.Synced := by
  obtain ⟨m, _, hwhole⟩ := Option.bind_eq_some_iff.mp h
  split at hwhole
  · rename_i hbytes
    rw [Synced, header, Header.toNat_size_decode, ← hbytes, m.declared_eq, hbytes]
    rfl
  · cases hwhole

end Draft

namespace Closing

variable {start : Draft} {before : Attributes} {steps : List Step} {w : Closing}

/-- Behind what a reader found at the start stand the attributes of the level, and whatever is
left over stands behind them. -/
theorem read_level {bs : Bytes} (hstart : start.attributes? = some before)
    (hclean : before.last.remaining = 0) (happended : Draft.Appended start bs w.draft)
    {cs : List Chunk} {front back : Bytes} (hpadded : Padded cs front) (hbs : bs = front ++ back)
    (hnone : Record.first? (L := .attr) back = none) :
    ∃ after, w.draft.attributes? = some after ∧
      after.records.map Attribute.chunk = before.records.map Attribute.chunk ++ cs ∧
      after.last.remaining = back.length := by
  obtain ⟨s, hs, hsrest, _⟩ := Draft.attributes?_of_synced (Draft.synced_of_attributes? hstart)
  obtain ⟨after, hafter, hrest, hcount⟩ := Draft.attributes?_of_synced happended.synced
  have hbefore : before.rest = start.payload := by
    rw [hstart] at hs
    cases hs
    exact hsrest
  have haligned : before.rest.length % 4 = 0 := by
    have hsize := start.size_eq
    have hwhole : start.size % 4 = 0 := start.aligned
    rw [hbefore]
    omega
  -- the start is aligned, so the level stands right behind what was read there
  have hlonger : after.rest = before.rest.padded ++ bs := by
    rw [Bytes.padded_of_mod haligned, hrest, hbefore, happended.payload]
  obtain ⟨hlevel, hend⟩ := Attributes.records_of_padded (s := .ofBytes bs) hpadded hbs rfl
  have hrecords := Stream.records_padded_append (Int.le_of_eq hclean) hlonger
  have hlast := Stream.last_remaining_padded_append (Int.le_of_eq hclean) hlonger
  have hover : (Stream.ofBytes back : Attributes).remaining = back.length := rfl
  rw [Stream.records_of_none (s := .ofBytes back) hnone, List.map_nil, List.append_nil] at hlevel
  rw [Stream.last_of_none (s := .ofBytes back) hnone] at hend
  refine ⟨after, hafter, ?_, by omega⟩
  rw [hrecords, List.map_append, hlevel]

/-- When every nest was ended or dropped, or given up where that was refused, a reader goes through
the whole message if and only if no nest is lost. It finds the attributes that were there before and
then those appended at top level, all of them or, where nests are lost, the ones before the first of
these, whose offset is where it stops. -/
theorem run_attributes (hstart : start.attributes? = some before)
    (hclean : before.last.remaining = 0) (hrun : run start steps = some w)
    (hconsumed : w.held = []) :
    ∃ after, w.draft.attributes? = some after ∧
      (after.last.remaining = 0 ↔ w.lost = []) ∧
      (w.lost = [] → after.records.map Attribute.chunk =
        before.records.map Attribute.chunk ++ w.appended) ∧
      ∀ nest, w.lost.getLast? = some nest →
        after.last.remaining = w.draft.size - nest.offset ∧ ∃ early, early <+: w.appended ∧
          after.records.map Attribute.chunk = before.records.map Attribute.chunk ++ early := by
  -- with no nest held, all that was appended is one level
  obtain ⟨bs, happended, hstacked⟩ := tracked_run (Draft.synced_of_attributes? hstart) hrun
  rw [hconsumed] at hstacked
  cases hstacked with
  | bottom level =>
      generalize hlost : w.lost = lost at level
      cases level with
      | clean padded =>
          obtain ⟨after, hafter, hrecords, hend⟩ := read_level hstart hclean happended padded
            (List.append_nil bs).symm (Record.first?_of_nil rfl)
          refine ⟨after, hafter, iff_of_true hend rfl, fun _ => hrecords, ?_⟩
          intro nest hfirst
          cases hfirst
      | stuck first padded early offset =>
          rename_i nest cs front back
          obtain ⟨after, hafter, hrecords, hend⟩ := read_level hstart hclean happended padded rfl
            (Attributes.first?_opening nest back)
          have hsize := happended.size
          rw [List.length_append] at hsize
          rw [List.length_append, Nest.length_opening] at hsize hend
          have hsome : lost ≠ [] := by
            rintro rfl
            cases first
          refine ⟨after, hafter, iff_of_false (by omega) hsome, fun hnil => absurd hnil hsome, ?_⟩
          intro other hother
          rw [first] at hother
          cases hother
          exact ⟨by omega, cs, early, hrecords⟩

/-- Two nests and four leaves, of which one is refused. The nest inside the other one is dropped. -/
theorem run_attributes_dropped :
    let steps : List Step := [.put (.u8 1 5), .put (.filled 2 (-1) id), .nestStart 3, .nestStart 4,
      .put (.flag 5), .nestCancel, .put (.be16 6 7), .nestEnd]
    ∃ before w after, (Draft.start []).attributes? = some before ∧ before.last.remaining = 0 ∧
      run (.start []) steps = some w ∧ w.held = [] ∧ w.draft.attributes? = some after ∧
      after.last.remaining = 0 ∧ after.records.map Attribute.chunk =
        [⟨1, [5]⟩, ⟨0x8003, [6, 0, 6, 0x40, 0, 7, 0, 0]⟩] := by
  intro steps
  obtain ⟨before, hbefore, hempty, hcount⟩ := Draft.attributes?_of_synced (Draft.synced_start [])
  rw [Draft.payload_start] at hempty
  have hclean := Stream.last_remaining_of_nil hempty hcount
  have hnone := Stream.records_of_none (Record.first?_of_nil (L := .attr) hempty)
  obtain ⟨w, hrun, hfinal⟩ := Option.map_eq_some_iff.mp
    (show (run (.start []) steps).map (fun w => (w.held, w.lost, w.appended)) =
      some ([], [], [⟨1, [5]⟩, ⟨0x8003, [6, 0, 6, 0x40, 0, 7, 0, 0]⟩]) by decide +kernel)
  obtain ⟨hheld, hrest⟩ := Prod.mk.inj hfinal
  obtain ⟨hlost, happended⟩ := Prod.mk.inj hrest
  obtain ⟨after, hafter, hend, hfound, _⟩ := run_attributes hbefore hclean hrun hheld
  refine ⟨before, w, after, hbefore, hclean, hrun, hheld, hafter, hend.mpr hlost, ?_⟩
  rw [hfound hlost, hnone, happended]
  rfl

theorem run_of_outgrown {payload : Bytes} (hpayload : payload.length = 65528) :
    ∃ w after, run (.start []) [.nestStart 7, .put (.bytes 1 payload), .nestEnd, .put (.flag 2)] =
        some w ∧ w.held = [] ∧ w.appended = [⟨2, []⟩] ∧ w.draft.attributes? = some after ∧
      after.last.remaining ≠ 0 ∧ after.records = [] := by
  obtain ⟨⟨nest, d₁⟩, hstart⟩ := isOk_iff.mp
    ((Draft.isOk_nestStart (.start []) 7).mpr (by decide))
  obtain ⟨htype, hoffset, hopened⟩ := Draft.nestStart_ok hstart
  have hsize₁ : d₁.size = 20 := hopened.size
  have hlength : (Leaf.bytes 1 payload).payload.length = 65528 := hpayload
  obtain ⟨d₂, hput⟩ := isOk_iff.mp ((Leaf.isOk_appendTo (.bytes 1 payload) d₁).mpr
    ⟨by rw [hlength]; decide, by rw [hlength, hsize₁]; decide⟩)
  have hfilled := (Leaf.appendTo_ok hput).2
  have hsize₂ : d₂.size = 65552 := by
    rw [hfilled.size, hsize₁, Bytes.length_padded, Draft.length_encode_attribute, hlength]
    rfl
  obtain ⟨e, hend⟩ : ∃ e, d₂.nestEnd nest = .error e := by
    have hrefused := d₂.isOk_nestEnd nest
    rw [hsize₂, hoffset] at hrefused
    cases hresult : d₂.nestEnd nest with
    | error e => exact ⟨e, rfl⟩
    | ok d =>
        rw [hresult] at hrefused
        exact absurd (hrefused.mp rfl).2 (by decide)
  obtain ⟨d₃, hflag⟩ := isOk_iff.mp ((Leaf.isOk_appendTo (.flag 2) d₂).mpr
    ⟨by decide, by rw [hsize₂]; decide⟩)
  have hrun : run (.start []) [.nestStart 7, .put (.bytes 1 payload), .nestEnd, .put (.flag 2)] =
      some ⟨d₃, [nest], [], [⟨2, []⟩]⟩ := by
    simp only [run, List.foldlM_cons, List.foldlM_nil, act, hstart, hput, hend, hflag,
      Option.bind_eq_bind, Option.bind_some, note]
    rfl
  have hwhole := hopened.trans (hfilled.trans (Leaf.appendTo_ok hflag).2)
  obtain ⟨after, hafter, hrest, hleft⟩ := Draft.attributes?_of_synced hwhole.synced
  obtain ⟨more, hopening⟩ : ∃ more, after.rest = nest.opening ++ more := by
    rw [hrest, hwhole.payload, Draft.payload_start, Nest.opening, htype]
    exact ⟨_, rfl⟩
  have hstuck : Record.first? (L := .attr) after.rest = none := by
    rw [hopening]
    exact Attributes.first?_opening nest more
  refine ⟨_, after, hrun, rfl, rfl, hafter, ?_, ?_⟩
  · rw [Stream.last_of_none hstuck, hleft, hopening, List.length_append, Nest.length_opening]
    omega
  · exact Stream.records_of_none hstuck

theorem run_outgrown :
    let steps : List Step := [.nestStart 7, .put (.bytes 1 (Bytes.zeros 65528)), .nestEnd,
      .put (.flag 2)]
    ∃ before w after, (Draft.start []).attributes? = some before ∧ before.last.remaining = 0 ∧
      run (.start []) steps = some w ∧ w.held = [] ∧ w.appended = [⟨2, []⟩] ∧
      w.draft.attributes? = some after ∧ after.last.remaining ≠ 0 ∧ after.records = [] := by
  intro steps
  obtain ⟨before, hbefore, hempty, hcount⟩ := Draft.attributes?_of_synced (Draft.synced_start [])
  rw [Draft.payload_start] at hempty
  have hclean := Stream.last_remaining_of_nil hempty hcount
  obtain ⟨w, after, hfound⟩ := run_of_outgrown (Bytes.length_zeros 65528)
  exact ⟨before, w, after, hbefore, hclean, hfound⟩

end Closing

end Netlink
