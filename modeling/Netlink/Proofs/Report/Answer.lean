import Netlink.Proofs.Attribute.Number
import Netlink.Proofs.Attribute.Table
import Netlink.Proofs.Draft.Edit

/-!
# Answers that are read back

A peer answers a request with a report, behind which stands the payload of the request unless the
flags say that it was cut off, and then details. The reader calculates the place of the details
from the size in the header of the request. Main statement: `ofMessage?_answer`, by which it comes
to the place where they were written, whatever was echoed.
-/

namespace Netlink

theorem ofNat_decodeLE_encodeLE (value : UInt32) :
    UInt32.ofNat (Bytes.decodeLE (Bytes.encodeLE 4 value.toNat)) = value := by
  have hlt : value.toNat < 1 <<< (8 * 4) := value.toNat_lt
  rw [Bytes.decodeLE_encodeLE, Nat.mod_eq_of_lt hlt, UInt32.ofNat_toNat]

/-! ## The report -/

namespace Report

theorem ofMessage?_of_payload {m : Message} {r : Report} {rest : Bytes}
    (h : m.payload = r.encode ++ rest) : ofMessage? m = some r := by
  have hlong : size ≤ m.payload.length := by
    rw [h, List.length_append, length_encode_report]
    exact Nat.le_add_right _ _
  have hcode : m.payload.slice 0 4 = Bytes.encodeLE 4 r.error.toUInt32.toNat := by
    rw [h, encode, List.append_assoc, Bytes.slice, List.drop_zero]
    exact List.take_left' (Bytes.length_encodeLE 4 _)
  have hrequest : m.payload.slice 4 16 = r.request.encode ++ [] := by
    rw [h, encode, List.append_assoc, Bytes.slice,
      List.drop_left' (Bytes.length_encodeLE 4 _), List.append_nil]
    exact List.take_left' r.request.length_encode
  rw [ofMessage?, if_pos hlong, hcode, hrequest, ofNat_decodeLE_encodeLE, Header.decode_encode,
    Int32.toInt32_toUInt32]

end Report

/-! ## The details -/

namespace ExtendedAck

variable {ack : ExtendedAck} {s : Attributes}

theorem ofAttributes_of_records {text? offset? : Option Attribute}
    (hrecords : s.records = text?.toList ++ offset?.toList)
    (htext : ∀ a ∈ text?, a.type = textType) (hoffset : ∀ a ∈ offset?, a.type = offsetType) :
    ofAttributes s =
      { text := text?.bind fun a => a.getText.toOption
        offset := offset?.bind fun a => a.getU32.toOption } := by
  have hget : ∀ type, type ≤ offsetType → (Table.ofStream s offsetType).get? type =
      (offset?.toList.reverse ++ text?.toList.reverse).find? (·.type == type) := by
    intro type hle
    rw [Table.ofStream, Table.get?_ofList, if_pos hle, hrecords, List.reverse_append]
  have hne : (offsetType == textType) = false := rfl
  have hne' : (textType == offsetType) = false := rfl
  rw [ofAttributes, hget textType (by decide), hget offsetType (by decide)]
  cases text? with
  | none =>
      cases offset? with
      | none => rfl
      | some a => simp [hoffset a rfl, hne]
  | some a =>
      cases offset? with
      | none => simp [htext a rfl, hne']
      | some b => simp [htext a rfl, hoffset b rfl, hne]

theorem records_textAttribute {text : Option String} {rest : Bytes} (hfits : Fits text)
    (hrest : s.rest = textAttribute text ++ rest) :
    ∃ text? : Option Attribute,
      s.records = text?.toList ++ (Stream.ofBytes rest : Attributes).records ∧
        (∀ a ∈ text?, a.type = textType) ∧
        (text?.bind fun a => a.getText.toOption) = text.map untilZero := by
  cases text with
  | none =>
      refine ⟨none, Stream.records_congr hrest, ?_, rfl⟩
      intro a ha
      cases ha
  | some text =>
      have hsize := hfits text rfl
      refine ⟨some (Attribute.ofPayload textType (Bytes.ofText text ++ [0]) hsize), ?_, ?_, ?_⟩
      · exact Attributes.records_padded_encode hsize hrest
      · intro a ha
        cases ha
        exact Attribute.type_ofPayload _ _
      · have htext := Attribute.getText_of_terminated (Attribute.payload_ofPayload textType hsize)
        rw [Option.bind_some, htext]
        rfl

theorem records_offsetAttribute {offset : Option UInt32}
    (hrest : s.rest = offsetAttribute offset) :
    ∃ offset? : Option Attribute, s.records = offset?.toList ∧
      (∀ a ∈ offset?, a.type = offsetType) ∧
      (offset?.bind fun a => a.getU32.toOption) = offset := by
  cases offset with
  | none =>
      refine ⟨none, Attributes.records_of_nil hrest, ?_, rfl⟩
      intro a ha
      cases ha
  | some offset =>
      have hsize : 4 + (Bytes.encodeLE 4 offset.toNat).length ≤ Draft.maxAttributeSize := by
        rw [Bytes.length_encodeLE]
        decide
      refine ⟨some (Attribute.ofPayload offsetType _ hsize), ?_, ?_, ?_⟩
      · rw [Attributes.records_padded_encode hsize (hrest.trans (List.append_nil _).symm),
          Attributes.records_of_nil rfl]
        rfl
      · intro a ha
        cases ha
        exact Attribute.type_ofPayload _ _
      · have hvalue : (Attribute.ofPayload offsetType _ hsize).getU32 = .ok offset :=
          Number.get_of_payload (k := .u32) (Attribute.payload_ofPayload offsetType hsize)
        rw [Option.bind_some, hvalue]
        rfl

/-- The attributes that the details are written as are read as the details. -/
theorem ofAttributes_attributes (hfits : Fits ack.text) (hrest : s.rest = ack.attributes) :
    ofAttributes s = { text := ack.text.map untilZero, offset := ack.offset } := by
  obtain ⟨text?, hrecords, htext, hread⟩ := records_textAttribute hfits hrest
  obtain ⟨offset?, hlater, hoffset, hvalue⟩ :=
    records_offsetAttribute (s := .ofBytes (offsetAttribute ack.offset)) rfl
  rw [hlater] at hrecords
  rw [ofAttributes_of_records hrecords htext hoffset, hread, hvalue]

theorem toNat_align_start (flags : UInt16) (r : Report) :
    (align (.ofNat (start flags r))).toNat =
      20 + if MessageFlag.isSet flags MessageFlag.capped then 0
        else roundUp (r.request.size.toNat - 16) := by
  have hlt := r.request.size.toNat_lt
  have hstart : start flags r < 2 ^ 32 + 20 := by
    simp only [start, Report.size, Message.headerSize]
    split <;> omega
  rw [toNat_align_ofNat (by omega)]
  simp only [start, Report.size, Message.headerSize, roundUp]
  split <;> omega

end ExtendedAck

/-! ## The answer -/

namespace Draft

def edit? (d : Draft) (edits : List Edit) : Option Draft :=
  edits.foldlM (fun d edit => match edit.apply d with
    | (e, .ok _) => some e
    | (_, .error _) => none) d

theorem edit?_cons {d f : Draft} {edit : Edit} {edits : List Edit}
    (h : d.edit? (edit :: edits) = some f) :
    ∃ e, edit.apply d = (e, .ok ()) ∧ e.edit? edits = some f := by
  rw [edit?, List.foldlM_cons] at h
  obtain ⟨e, hedit, hlater⟩ := Option.bind_eq_some_iff.mp h
  split at hedit
  · rename_i made happly
    cases hedit
    exact ⟨e, happly, hlater⟩
  · cases hedit

theorem edit?_nil {d f : Draft} (h : d.edit? [] = some f) : f = d := by
  cases h
  rfl

theorem attempt_ok {ε : Type} {d e : Draft} {cause : ε → DispatchError} {result : Except ε Draft}
    (h : d.attempt cause result = (e, .ok ())) : result = .ok e := by
  cases result with
  | error refusal => cases h
  | ok made => cases h; rfl

end Draft

namespace Report

/-- What a peer does to a new draft to answer with a report and details. Unless `flags` say that it
is cut off, the payload of the request is echoed, which `echo` fills from the front. -/
def answer (r : Report) (flags : UInt16) (echo : Bytes) (ack : ExtendedAck) : List Edit :=
  [.putReport r, .setFlags flags] ++
    (if MessageFlag.isSet flags MessageFlag.capped then []
    else [.extend (.ofNat (r.request.size.toNat - Message.headerSize)) echo]) ++
    [.putExtendedAck ack]

variable {buffer echo : Bytes} {r : Report} {flags : UInt16} {ack : ExtendedAck} {d : Draft}

/-- The draft before the details: behind the report stands as much as the reader will skip. -/
theorem answer_before_details
    (hmade : (Draft.start buffer).edit? (r.answer flags echo ack) = some d) :
    ∃ (e : Draft) (echoed : Bytes), e.Synced ∧ e.header.flags = flags ∧
      e.payload = r.encode ++ echoed ∧
      (r.encode ++ echoed).length = (align (.ofNat (ExtendedAck.start flags r))).toNat ∧
      e.putExtendedAck ack = (d, .ok ()) := by
  simp only [answer, List.cons_append, List.nil_append] at hmade
  obtain ⟨d₁, hreport, hmade⟩ := Draft.edit?_cons hmade
  obtain ⟨d₂, hflags, hmade⟩ := Draft.edit?_cons hmade
  have hput : (Draft.start buffer).putReport r = (d₁, .ok ()) := hreport
  have happended := Draft.putReport_ok hput
  have hsynced : d₂.Synced := by
    have hedited := (Edit.setFlags flags).edited happended.synced
    rw [hflags] at hedited
    exact hedited.synced
  have hpayload : d₂.payload = r.encode := by
    cases hflags
    rw [Draft.payload_setFlags, happended.payload, Draft.payload_setType, Draft.payload_start]
    rfl
  have hset : d₂.header.flags = flags := by
    cases hflags
    rw [Draft.header_setFlags]
  have hstart := ExtendedAck.toNat_align_start flags r
  -- without an echo the reader skips the report alone, else as much as the request says it has
  by_cases hcapped : MessageFlag.isSet flags MessageFlag.capped = true
  · rw [if_pos hcapped] at hmade hstart
    obtain ⟨d₃, hdetails, hmade⟩ := Draft.edit?_cons hmade
    cases Draft.edit?_nil hmade
    refine ⟨d₂, [], hsynced, hset, ?_, ?_, hdetails⟩
    · rw [hpayload, List.append_nil]
    · rw [hstart, List.append_nil, length_encode_report, size]
  · rw [if_neg hcapped] at hmade hstart
    obtain ⟨d₃, hecho, hmade⟩ := Draft.edit?_cons hmade
    obtain ⟨d₄, hdetails, hmade⟩ := Draft.edit?_cons hmade
    cases Draft.edit?_nil hmade
    obtain ⟨echoed, hlength, hechoed⟩ := Draft.extend_fill_ok (Draft.attempt_ok hecho)
    refine ⟨d₃, echoed, hechoed.synced, ?_, ?_, ?_, hdetails⟩
    · rw [hechoed.header]
      exact hset
    · rw [hechoed.payload, hpayload]
    · have hlt := r.request.size.toNat_lt
      rw [Message.headerSize, toNat_align_ofNat (by omega)] at hlength
      rw [hstart, List.length_append, length_encode_report, size, hlength]

/-- An answer is read as the report and the details that were put, however long the echo between
them is and whatever it holds. The text comes back up to its first zero character, and the flags
are those that were set and the one that announces details. -/
theorem ofMessage?_answer
    (hmade : (Draft.start buffer).edit? (r.answer flags echo ack) = some d) :
    ∃ m, d.message? = some m ∧ Report.ofMessage? m = some r ∧
      ExtendedAck.ofMessage? m =
        some { text := ack.text.map untilZero, offset := ack.offset } ∧
      m.header.flags = flags ||| MessageFlag.ackDetails := by
  obtain ⟨e, echoed, he, hset, hpayload, hstart, hdetails⟩ := answer_before_details hmade
  obtain ⟨hfits, f, happended, rfl⟩ := Draft.putExtendedAck_ok he hdetails
  have hsynced : (f.setFlags (f.header.flags ||| MessageFlag.ackDetails)).Synced :=
    ((Edit.setFlags (f.header.flags ||| MessageFlag.ackDetails)).edited happended.synced).synced
  let m := (f.setFlags (f.header.flags ||| MessageFlag.ackDetails)).toMessage hsynced
  have hflags : m.header.flags = flags ||| MessageFlag.ackDetails := by
    show (f.setFlags (f.header.flags ||| MessageFlag.ackDetails)).header.flags = _
    rw [Draft.header_setFlags, happended.header]
    exact congrArg (· ||| MessageFlag.ackDetails) hset
  have hbytes : m.payload = (r.encode ++ echoed) ++ ack.attributes := by
    show (f.setFlags (f.header.flags ||| MessageFlag.ackDetails)).payload = _
    rw [Draft.payload_setFlags, happended.payload, hpayload]
  have hreport : Report.ofMessage? m = some r :=
    ofMessage?_of_payload (hbytes.trans (List.append_assoc ..))
  have hcapped : ExtendedAck.start m.header.flags r = ExtendedAck.start flags r := by
    have hother : MessageFlag.isSet MessageFlag.ackDetails MessageFlag.capped = false := rfl
    rw [hflags, ExtendedAck.start, ExtendedAck.start, MessageFlag.isSet_or, hother, Bool.or_false]
  have hannounced : MessageFlag.isSet m.header.flags MessageFlag.ackDetails = true := by
    have hself : MessageFlag.isSet MessageFlag.ackDetails MessageFlag.ackDetails = true := rfl
    rw [hflags, MessageFlag.isSet_or, hself, Bool.or_true]
  have hrest : (Attributes.ofMessage m (.ofNat (ExtendedAck.start m.header.flags r))).rest =
      ack.attributes := by
    show m.payload.drop _ = _
    rw [hcapped, hbytes]
    exact List.drop_left' hstart
  refine ⟨m, Draft.message?_eq _ hsynced, hreport, ?_, hflags⟩
  rw [ExtendedAck.ofMessage?, if_pos hannounced, hreport, Option.map_some,
    ExtendedAck.ofAttributes_attributes hfits hrest]

/-- An echo of five bytes that reads like an attribute, and a text with a zero character in it. -/
theorem ofMessage?_answer_unaligned :
    let r : Report := ⟨-22, { size := 21, type := 16, seq := 7 }⟩
    let ack : ExtendedAck := ⟨some "bad\x00field", some 20⟩
    ∃ d m, (Draft.start [7]).edit? (r.answer 2 [5, 0, 1, 0, 65] ack) = some d ∧
      d.message? = some m ∧ Report.ofMessage? m = some r ∧
      ExtendedAck.ofMessage? m = some ⟨some "bad", some 20⟩ ∧ m.header.flags = 0x202 := by
  intro r ack
  have hsome : ((Draft.start [7]).edit? (r.answer 2 [5, 0, 1, 0, 65] ack)).isSome = true := by
    decide +kernel
  obtain ⟨d, hmade⟩ := Option.isSome_iff_exists.mp hsome
  obtain ⟨m, hparse, hreport, hdetails, hflags⟩ := ofMessage?_answer hmade
  have htext : untilZero "bad\x00field" = "bad" := by decide +kernel
  refine ⟨d, m, hmade, hparse, hreport, ?_, hflags⟩
  rw [hdetails, Option.map_some, htext]

end Report

end Netlink
