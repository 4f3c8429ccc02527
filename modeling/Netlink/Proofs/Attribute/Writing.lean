import Netlink.Proofs.Attribute.Forest

/-!
# Writing forests

A `Writing` is a draft with a stack of open nests, and an `Outline` the forest that the calls on it
stand for, cut open at the nests that are not closed yet. The bytes behind the start of a writing
are the encoding of its outline, in which an open nest has a header of length zero. Main statement:
`descend_survivors`, by which a reader finds the attributes that were put and not dropped again.
-/

namespace Netlink

/-- One call on a draft. Open nests are counted from the innermost one. -/
inductive Call where
  | put (leaf : Leaf)
  | nestStart (type : UInt16)
  /-- Closes the innermost open nest. -/
  | nestEnd
  /-- Drops an open nest and those inside it. -/
  | nestCancel (index : Nat)

structure Writing where
  draft : Draft
  nests : List Nest
  /-- Each call with whether it succeeded. -/
  calls : List (Call × Bool)

namespace Writing

def next (w : Writing) (call : Call) (succeeded : Bool) (draft : Draft) (nests : List Nest) :
    Writing :=
  ⟨draft, nests, w.calls ++ [(call, succeeded)]⟩

/-- Makes a call. There is none to make where no such nest is open, and nothing goes on behind a
nest that cannot be closed. -/
def act (w : Writing) : Call → Option Writing
  | .put leaf =>
    match leaf.appendTo w.draft with
    | .ok d => some (w.next (.put leaf) true d w.nests)
    | .error _ => some (w.next (.put leaf) false w.draft w.nests)
  | .nestStart type =>
    match w.draft.nestStart type with
    | .ok (nest, d) => some (w.next (.nestStart type) true d (nest :: w.nests))
    | .error _ => some (w.next (.nestStart type) false w.draft w.nests)
  | .nestEnd =>
    match w.nests with
    | [] => none
    | nest :: outer =>
      match w.draft.nestEnd nest with
      | .ok d => some (w.next .nestEnd true d outer)
      | .error _ => none
  | .nestCancel index =>
    match w.nests.drop index with
    | [] => none
    | nest :: outer =>
      match w.draft.nestCancel nest with
      | .ok d => some (w.next (.nestCancel index) true d outer)
      | .error _ => some (w.next (.nestCancel index) false w.draft outer)

def run (start : Draft) (calls : List Call) : Option Writing := calls.foldlM act ⟨start, [], []⟩

end Writing

/-! ## Outlines -/

structure Frame where
  before : Forest
  type : UInt16

/-- A forest under construction: the attributes of the innermost level and the nests around it. -/
structure Outline where
  level : Forest
  frames : List Frame

namespace Outline

def act (o : Outline) (succeeded : Bool) : Call → Outline
  | .put leaf =>
    if succeeded then { o with level := o.level.append (.leaf leaf.rawType leaf.payload .nil) }
    else o
  | .nestStart type =>
    if succeeded then ⟨.nil, ⟨o.level, type ||| Attribute.nestedFlag⟩ :: o.frames⟩ else o
  | .nestEnd =>
    match o.frames with
    | [] => o
    | frame :: outer => ⟨frame.before.append (.nest frame.type o.level .nil), outer⟩
  | .nestCancel index =>
    match o.frames.drop index with
    | [] => o
    | frame :: outer => ⟨frame.before, outer⟩

def replay (calls : List (Call × Bool)) : Outline :=
  calls.foldl (fun o (call, succeeded) => o.act succeeded call) ⟨.nil, []⟩

def encodeFrames : List Frame → Bytes
  | [] => []
  | frame :: outer =>
    encodeFrames outer ++ (frame.before.encode ++ Draft.attributeHeader 0 frame.type)

def encode (o : Outline) : Bytes := encodeFrames o.frames ++ o.level.encode

structure Fits (o : Outline) : Prop where
  level : o.level.Fits
  frames : ∀ frame ∈ o.frames,
    frame.before.Fits ∧ frame.type &&& Attribute.nestedFlag ≠ 0

theorem encodeFrames_drop (frames : List Frame) (index : Nat) :
    ∃ back, encodeFrames frames = encodeFrames (frames.drop index) ++ back := by
  induction frames generalizing index with
  | nil => exact ⟨[], by rw [List.drop_nil, List.append_nil]⟩
  | cons frame outer ih =>
      cases index with
      | zero => exact ⟨[], (List.append_nil _).symm⟩
      | succ index =>
          obtain ⟨back, hback⟩ := ih index
          refine ⟨back ++ (frame.before.encode ++ Draft.attributeHeader 0 frame.type), ?_⟩
          rw [encodeFrames, hback, List.drop_succ_cons, List.append_assoc]

theorem encode_of_drop {o : Outline} {index : Nat} {frame : Frame} {outer : List Frame}
    (h : o.frames.drop index = frame :: outer) :
    ∃ back, o.encode = (encodeFrames outer ++ frame.before.encode) ++ back := by
  obtain ⟨back, hback⟩ := encodeFrames_drop o.frames index
  refine ⟨Draft.attributeHeader 0 frame.type ++ (back ++ o.level.encode), ?_⟩
  rw [encode, hback, h, encodeFrames]
  simp only [List.append_assoc]

end Outline

/-- The nests stand where the frames have their headers, in a forest that starts at `base`. -/
inductive Placed (base : Nat) : List Nest → List Frame → Prop where
  | nil : Placed base [] []
  | cons {nest : Nest} {frame : Frame} {nests : List Nest} {outer : List Frame}
      (offset : nest.offset = base + (Outline.encodeFrames outer ++ frame.before.encode).length)
      (placed : Placed base nests outer) : Placed base (nest :: nests) (frame :: outer)

theorem Placed.drop {base : Nat} {nests : List Nest} {frames : List Frame}
    (h : Placed base nests frames) (index : Nat) :
    Placed base (nests.drop index) (frames.drop index) := by
  induction h generalizing index with
  | nil =>
      rw [List.drop_nil, List.drop_nil]
      exact .nil
  | cons offset placed ih =>
      cases index with
      | zero => exact .cons offset placed
      | succ index => exact ih index

/-! ## Cutting back and closing -/

namespace Draft

theorem Appended.truncate {d e f : Draft} {front back : Bytes} (h : Appended d (front ++ back) e)
    {count : Nat} (hcount : count = d.size + front.length) (hf : e.truncate count = .ok f) :
    Appended d front f := by
  obtain ⟨_, hbefore, hheader, hpayload⟩ := truncate_ok hf
  have hsize := d.size_eq
  refine ⟨hbefore.trans h.before, ?_, ?_⟩
  · rw [hheader, h.header]
  · rw [hpayload, h.payload, ← List.append_assoc]
    apply List.take_left'
    rw [List.length_append]
    omega

theorem Appended.nestEnd {d e f : Draft} {front inside : Bytes} {type : UInt16} {nest : Nest}
    (h : Appended d (front ++ (attributeHeader 0 type ++ inside)) e)
    (hoffset : nest.offset = d.size + front.length) (hf : e.nestEnd nest = .ok f) :
    4 + inside.length ≤ maxAttributeSize ∧
      Appended d (front ++ Attribute.encode type inside) f := by
  obtain ⟨_, hmax, rfl⟩ := nestEnd_ok hf
  have hsize := h.size
  rw [List.length_append, List.length_append, length_attributeHeader] at hsize
  have hnest : e.size - nest.offset = 4 + inside.length := by omega
  rw [hnest] at hmax ⊢
  have hwritten := h.write hoffset (Bytes.encodeLE 2 (4 + inside.length)) (by simp)
  have hheader : (attributeHeader 0 type).overwrite 0 (Bytes.encodeLE 2 (4 + inside.length)) =
      attributeHeader (4 + inside.length) type := by
    exact Bytes.overwrite_middle [] (Bytes.encodeLE 2 0) (Bytes.encodeLE 2 type.toNat)
      (Bytes.encodeLE 2 (4 + inside.length)) (by simp)
  rw [hheader] at hwritten
  exact ⟨hmax, hwritten⟩

end Draft

/-! ## Flags of stored types -/

namespace Attribute

theorem or_and_flag (type other flag : UInt16) :
    (type ||| other) &&& flag = type &&& flag ||| other &&& flag :=
  UInt16.toBitVec_inj.mp BitVec.and_or_distrib_right

theorem nestedFlag_or (type : UInt16) : (type ||| nestedFlag) &&& nestedFlag ≠ 0 := by
  intro h
  rw [or_and_flag, UInt16.and_self, UInt16.or_eq_zero_iff] at h
  cases h.2

end Attribute

theorem Leaf.rawType_nestedFlag {leaf : Leaf} (h : leaf.type &&& Attribute.nestedFlag = 0) :
    leaf.rawType &&& Attribute.nestedFlag = 0 := by
  cases leaf with
  | be16 type _ | be32 type _ | be64 type _ =>
      have htype : type &&& Attribute.nestedFlag = 0 := h
      rw [rawType, Attribute.or_and_flag, htype, UInt16.zero_or]
      rfl
  | _ => exact h

/-! ## One call -/

namespace Outline

theorem replay_append (calls : List (Call × Bool)) (call : Call) (succeeded : Bool) :
    replay (calls ++ [(call, succeeded)]) = (replay calls).act succeeded call := by
  rw [replay, List.foldl_append]
  rfl

variable {start : Draft}

/-- The outline `o` is what `d` holds behind `start`, with its open nests in `nests`. -/
structure Written (start : Draft) (o : Outline) (d : Draft) (nests : List Nest) : Prop where
  appended : Draft.Appended start o.encode d
  placed : Placed start.size nests o.frames
  fits : o.Fits

variable {o : Outline} {d e : Draft} {nests outer : List Nest} {nest : Nest}

theorem Written.put (h : Written start o d nests) {leaf : Leaf}
    (hleaf : leaf.type &&& Attribute.nestedFlag = 0) (hput : leaf.appendTo d = .ok e) :
    Written start (o.act true (.put leaf)) e nests := by
  obtain ⟨hsize, happended⟩ := Leaf.appendTo_ok hput
  refine ⟨?_, h.placed, ?_, h.fits.frames⟩
  · have hencode : (o.act true (.put leaf)).encode =
        o.encode ++ (Attribute.encode leaf.rawType leaf.payload).padded := by
      simp only [act, encode, if_true, Forest.encode_append, Forest.encode, List.append_nil,
        List.append_assoc]
    rw [hencode]
    exact h.appended.trans happended
  · have hone : (Forest.leaf leaf.rawType leaf.payload .nil).Fits :=
      ⟨Leaf.rawType_nestedFlag hleaf, hsize, trivial⟩
    exact h.fits.level.append hone

theorem Written.nestStart (h : Written start o d nests) {type : UInt16}
    (hstart : d.nestStart type = .ok (nest, e)) :
    Written start (o.act true (.nestStart type)) e (nest :: nests) := by
  obtain ⟨_, hoffset, happended⟩ := Draft.nestStart_ok hstart
  refine ⟨?_, ?_, trivial, ?_⟩
  · have hencode : (o.act true (.nestStart type)).encode =
        o.encode ++ Draft.attributeHeader 0 (type ||| Attribute.nestedFlag) := by
      simp only [act, encode, if_true, encodeFrames, Forest.encode, List.append_nil,
        List.append_assoc]
    rw [hencode]
    exact h.appended.trans happended
  · refine .cons ?_ h.placed
    rw [hoffset]
    exact h.appended.size
  · intro frame hframe
    rcases List.mem_cons.mp hframe with rfl | hframe
    · exact ⟨h.fits.level, Attribute.nestedFlag_or type⟩
    · exact h.fits.frames frame hframe

theorem Written.nestEnd (h : Written start o d (nest :: outer)) (hend : d.nestEnd nest = .ok e)
    (succeeded : Bool) : Written start (o.act succeeded .nestEnd) e outer := by
  obtain ⟨level, frames⟩ := o
  obtain ⟨happended, hplaced, hlevel, hframes⟩ := h
  cases hplaced with
  | cons hoffset houter =>
      rename_i frame frames
      have hsplit : encode ⟨level, frame :: frames⟩ =
          (encodeFrames frames ++ frame.before.encode) ++
            (Draft.attributeHeader 0 frame.type ++ level.encode) := by
        simp only [encode, encodeFrames, List.append_assoc]
      rw [hsplit] at happended
      obtain ⟨hsize, hclosed⟩ := happended.nestEnd hoffset hend
      obtain ⟨hbefore, htype⟩ := hframes frame List.mem_cons_self
      refine ⟨?_, houter, ?_, ?_⟩
      · have hencode :=
          calc (act ⟨level, frame :: frames⟩ succeeded .nestEnd).encode
              = encodeFrames frames ++ (frame.before.append (.nest frame.type level .nil)).encode :=
                rfl
            _ = encodeFrames frames ++
                  (frame.before.encode ++ Attribute.encode frame.type level.encode) := by
                rw [Forest.encode_append, Forest.encode_nest, Forest.encode, List.append_nil]
            _ = (encodeFrames frames ++ frame.before.encode) ++
                  Attribute.encode frame.type level.encode := (List.append_assoc ..).symm
        rw [hencode]
        exact hclosed
      · have hone : (Forest.nest frame.type level .nil).Fits := ⟨htype, hsize, hlevel, trivial⟩
        exact hbefore.append hone
      · intro other hother
        exact hframes other (List.mem_cons_of_mem _ hother)

theorem Written.nestCancel (h : Written start o d nests) {index : Nat}
    (hopen : nests.drop index = nest :: outer) (succeeded : Bool) :
    ∃ e, d.nestCancel nest = .ok e ∧
      Written start (o.act succeeded (.nestCancel index)) e outer := by
  have hplaced := h.placed.drop index
  rw [hopen] at hplaced
  generalize hframes : o.frames.drop index = frames at hplaced
  cases hplaced with
  | cons hoffset houter =>
      rename_i frame frames
      -- the nests inside the dropped one are all in `back`
      obtain ⟨back, hsplit⟩ := encode_of_drop hframes
      have happended := h.appended
      have hsize := happended.size
      rw [hsplit] at happended hsize
      rw [List.length_append] at hsize
      have hreach : nest.offset ≤ d.size := by omega
      obtain ⟨e, hcancel⟩ := Draft.nestCancel_of_le hreach
      have hkept := happended.truncate hoffset (Draft.nestCancel_ok hcancel)
      have hact : o.act succeeded (.nestCancel index) = ⟨frame.before, frames⟩ := by
        rw [act, hframes]
      have hmem : ∀ other ∈ frame :: frames, other ∈ o.frames := by
        intro other hother
        rw [← hframes] at hother
        exact List.mem_of_mem_drop hother
      rw [hact]
      refine ⟨e, hcancel, hkept, houter, ?_, ?_⟩
      · exact (h.fits.frames frame (hmem frame List.mem_cons_self)).1
      · intro other hother
        exact h.fits.frames other (hmem other (List.mem_cons_of_mem _ hother))

end Outline

/-! ## Runs -/

namespace Writing

def survivors (w : Writing) : Forest := (Outline.replay w.calls).level

variable {start : Draft} {w w' : Writing}

def Faithful (start : Draft) (w : Writing) : Prop :=
  Outline.Written start (Outline.replay w.calls) w.draft w.nests

theorem faithful_start (hstart : start.Synced) : Faithful start ⟨start, [], []⟩ := by
  refine ⟨Draft.Appended.refl hstart, .nil, trivial, ?_⟩
  intro frame hframe
  cases hframe

theorem faithful_next {call : Call} {succeeded : Bool} {d : Draft} {nests : List Nest}
    (h : Outline.Written start ((Outline.replay w.calls).act succeeded call) d nests) :
    Faithful start (w.next call succeeded d nests) := by
  unfold Faithful next
  rw [Outline.replay_append]
  exact h

theorem Faithful.act (hw : Faithful start w) {call : Call}
    (hplain : ∀ leaf, call = .put leaf → leaf.type &&& Attribute.nestedFlag = 0)
    (hact : w.act call = some w') : Faithful start w' := by
  cases call with
  | put leaf =>
      rw [Writing.act] at hact
      split at hact
      · rename_i d hput
        cases hact
        exact faithful_next (Outline.Written.put hw (hplain leaf rfl) hput)
      · cases hact
        exact faithful_next hw
  | nestStart type =>
      rw [Writing.act] at hact
      split at hact
      · rename_i nest d hstart
        cases hact
        exact faithful_next (Outline.Written.nestStart hw hstart)
      · cases hact
        exact faithful_next hw
  | nestEnd =>
      rw [Writing.act] at hact
      split at hact
      · cases hact
      · rename_i nest outer hnests
        unfold Faithful at hw
        rw [hnests] at hw
        split at hact
        · rename_i d hend
          cases hact
          exact faithful_next (Outline.Written.nestEnd hw hend true)
        · cases hact
  | nestCancel index =>
      rw [Writing.act] at hact
      split at hact
      · cases hact
      · rename_i nest outer hopen
        -- a nest that is open can be dropped, so the refusal does not occur
        obtain ⟨d, hcancel, hwritten⟩ := Outline.Written.nestCancel hw hopen true
        rw [hcancel] at hact
        cases hact
        exact faithful_next hwritten

theorem calls_next (w : Writing) (call : Call) (succeeded : Bool) (draft : Draft)
    (nests : List Nest) :
    (w.next call succeeded draft nests).calls.map Prod.fst = w.calls.map Prod.fst ++ [call] := by
  rw [next, List.map_append]
  rfl

theorem calls_act {call : Call} (hact : w.act call = some w') :
    w'.calls.map Prod.fst = w.calls.map Prod.fst ++ [call] := by
  cases call with
  | put leaf =>
      rw [act] at hact
      split at hact <;> cases hact <;> exact calls_next ..
  | nestStart type =>
      rw [act] at hact
      split at hact <;> cases hact <;> exact calls_next ..
  | nestEnd =>
      rw [act] at hact
      split at hact
      · cases hact
      · split at hact <;> cases hact
        exact calls_next ..
  | nestCancel index =>
      rw [act] at hact
      split at hact
      · cases hact
      · split at hact <;> cases hact <;> exact calls_next ..

theorem faithful_foldlM (hw : Faithful start w) {calls : List Call}
    (hleaves : ∀ leaf, .put leaf ∈ calls → leaf.type &&& Attribute.nestedFlag = 0)
    (hrun : calls.foldlM act w = some w') :
    Faithful start w' ∧ w'.calls.map Prod.fst = w.calls.map Prod.fst ++ calls := by
  induction calls generalizing w with
  | nil =>
      cases hrun
      exact ⟨hw, (List.append_nil _).symm⟩
  | cons call calls ih =>
      rw [List.foldlM_cons] at hrun
      obtain ⟨w₁, hact, hlater⟩ := Option.bind_eq_some_iff.mp hrun
      have hplain : ∀ leaf, call = .put leaf → leaf.type &&& Attribute.nestedFlag = 0 := by
        rintro leaf rfl
        exact hleaves leaf List.mem_cons_self
      have hrest : ∀ leaf, .put leaf ∈ calls → leaf.type &&& Attribute.nestedFlag = 0 := by
        intro leaf hleaf
        exact hleaves leaf (List.mem_cons_of_mem _ hleaf)
      obtain ⟨hfaithful, hcalls⟩ := ih (hw.act hplain hact) hrest hlater
      refine ⟨hfaithful, ?_⟩
      rw [hcalls, calls_act hact, List.append_assoc]
      rfl

end Writing

namespace Draft

/-- A new draft, behind whose header a second one is put if any is asked for, with its size and
what is copied to the front of it. -/
def startWith (buffer : Bytes) : Option (UInt64 × Bytes) → Except DraftError Draft
  | none => .ok (start buffer)
  | some (size, data) => ((start buffer).extend size).map fun (region, d) => d.fill region data

def extraSize (extra : Option (UInt64 × Bytes)) : UInt64 := (extra.map Prod.fst).getD 0

theorem startWith_ok {buffer : Bytes} {extra : Option (UInt64 × Bytes)} {d : Draft}
    (h : startWith buffer extra = .ok d) :
    d.Synced ∧ d.payload.length = (align (extraSize extra)).toNat := by
  cases extra with
  | none =>
      cases h
      constructor
      · rw [Synced, header_start]
        rfl
      · rw [payload_start]
        rfl
  | some extra =>
      obtain ⟨size, data⟩ := extra
      rw [startWith] at h
      obtain ⟨⟨region, e⟩, hextend, rfl⟩ := eq_ok_of_map h
      obtain ⟨rfl, _, happended⟩ := extend_ok hextend
      have hplace : 16 ≤ (start buffer).size := (start buffer).headerSize_le
      show (e.write (start buffer).size _).Synced ∧
        (e.write (start buffer).size _).payload.length = (align size).toNat
      constructor
      · rw [Synced, header_write _ hplace, size_write]
        exact happended.synced
      · rw [payload_write _ hplace, Bytes.length_overwrite, happended.payload, payload_start,
          List.nil_append, Bytes.length_zeros]

end Draft

namespace Writing

/-- When a run of calls has closed every nest it opened or dropped it, the draft is a message, and
a reader that enters exactly the nests behind the extra header lists the survivors. -/
theorem descend_survivors {buffer : Bytes} {extra : Option (UInt64 × Bytes)} {start : Draft}
    {calls : List Call} {w : Writing} (hstart : Draft.startWith buffer extra = .ok start)
    (hrun : run start calls = some w)
    (hleaves : ∀ leaf, .put leaf ∈ calls → leaf.type &&& Attribute.nestedFlag = 0)
    (hclosed : w.nests = []) :
    w.calls.map Prod.fst = calls ∧
      ∃ m, Message.parse? w.draft.bytes = some m ∧ m.bytes = w.draft.bytes ∧
        let shown := ((Attributes.ofMessage m (Draft.extraSize extra)).descend
          Attribute.isNested 0).map Visit.entry
        shown = w.survivors.listing 0 ∧ ∀ f : Forest, shown = f.listing 0 → f = w.survivors := by
  obtain ⟨hsynced, hextra⟩ := Draft.startWith_ok hstart
  obtain ⟨⟨happended, hplaced, hfits⟩, hcalls⟩ :=
    faithful_foldlM (faithful_start hsynced) hleaves hrun
  have hframes : (Outline.replay w.calls).frames = [] := by
    rw [hclosed] at hplaced
    cases hframes : (Outline.replay w.calls).frames with
    | nil => rfl
    | cons frame frames => rw [hframes] at hplaced; cases hplaced
  have hpayload : w.draft.payload = start.payload ++ w.survivors.encode := by
    rw [happended.payload, Outline.encode, hframes]
    rfl
  have hrest : (Attributes.ofMessage (w.draft.toMessage happended.synced)
      (Draft.extraSize extra)).rest = w.survivors.encode := by
    show w.draft.payload.drop _ = _
    rw [hpayload, List.drop_left' hextra]
  have hremaining : (Attributes.ofMessage (w.draft.toMessage happended.synced)
      (Draft.extraSize extra)).remaining = w.survivors.encode.length := by
    have hlength := congrArg List.length hpayload
    have hsize := w.draft.size_eq
    have hmax := w.draft.length_le
    rw [List.length_append] at hlength
    rw [Draft.size] at hsize
    show (w.draft.payload.length : Int) - _ = _
    omega
  have hshown := Forest.descend_encode hfits.level hrest (hrest.symm ▸ hremaining) 0
  exact ⟨hcalls, w.draft.toMessage happended.synced, w.draft.message?_eq happended.synced, rfl,
    hshown, fun f hf => Forest.listing_inj (hf.symm.trans hshown)⟩

/-- Behind an extra header of six bytes: a nest in which one nest is dropped with what it holds, a
leaf is refused and two stay. -/
theorem descend_survivors_dropped :
    let calls : List Call := [.nestStart 1, .put (.u16 2 7), .nestStart 3, .put (.u8 4 9),
      .nestCancel 0, .put (.be32 5 1), .put (.filled 6 (-1) id), .nestEnd]
    ∃ start w m, Draft.startWith [1, 2, 3, 4, 5] (some (6, [9])) = .ok start ∧
      run start calls = some w ∧ w.nests = [] ∧ Message.parse? w.draft.bytes = some m ∧
      ((Attributes.ofMessage m 6).descend Attribute.isNested 0).map Visit.entry =
        [.nest 0 0x8001, .leaf 1 2 [7, 0], .leaf 1 0x4005 [0, 0, 0, 1], .ended 1 0,
          .ended 0 0] := by
  intro calls
  obtain ⟨start, hstart, hrun⟩ : ∃ start,
      Draft.startWith [1, 2, 3, 4, 5] (some (6, [9])) = .ok start ∧
        (run start calls).map (fun w => (w.nests, w.survivors.listing 0)) =
          some ([], [.nest 0 0x8001, .leaf 1 2 [7, 0], .leaf 1 0x4005 [0, 0, 0, 1], .ended 1 0,
            .ended 0 0]) := ⟨_, rfl, by decide +kernel⟩
  obtain ⟨w, hrun, hfinal⟩ := Option.map_eq_some_iff.mp hrun
  obtain ⟨hclosed, hlisting⟩ := Prod.mk.inj hfinal
  have hleaves : ∀ leaf, .put leaf ∈ calls → leaf.type &&& Attribute.nestedFlag = 0 := by
    intro leaf hleaf
    simp only [calls, List.mem_cons, Call.put.injEq, reduceCtorEq, List.not_mem_nil, or_false,
      false_or] at hleaf
    rcases hleaf with rfl | rfl | rfl | rfl <;> rfl
  obtain ⟨_, m, hparse, _, hread, _⟩ := descend_survivors hstart hrun hleaves hclosed
  exact ⟨start, w, m, hstart, hrun, hclosed, hparse, hread.trans hlisting⟩

end Writing

end Netlink
