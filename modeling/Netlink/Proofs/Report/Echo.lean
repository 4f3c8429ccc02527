import Netlink.Proofs.Attribute.Sites
import Netlink.Proofs.Report.Answer

/-!
# Echoes

An error message may repeat the payload of the request, and whoever made the request chose those
bytes. The details of the report stand behind the echo, whose end follows from the size that the
header of the request gives. Main statement: `ofMessage?_behind_echo`, by which nothing in front of
that end has a say in the details, and what they tell was read from attributes behind it.
-/

namespace Netlink

theorem eq_ok_of_toOption {ε α : Type} {result : Except ε α} {a : α}
    (h : result.toOption = some a) : result = .ok a := by
  cases result with
  | error e => cases h
  | ok b => cases h; rfl

theorem Message.toNat_size_header (m : Message) : m.header.size.toNat = m.size :=
  (Header.toNat_size_decode m.bytes).trans m.declared_eq

theorem Message.length_payload_congr {m m' : Message} (h : m.header = m'.header) :
    m.payload.length = m'.payload.length := by
  rw [m.length_payload, m'.length_payload, Record.payloadSize, Record.payloadSize,
    ← m.toNat_size_header, ← m'.toNat_size_header, h]

namespace Report

variable {m m' : Message} {r : Report}

def requestSize (m : Message) : Nat := Bytes.decodeLE (m.payload.slice 4 4)

/-- Where the echo ends in the payload of an error message. A capped report has none. -/
def echoEnd (m : Message) : Nat :=
  if MessageFlag.isSet m.header.flags MessageFlag.capped then 20
  else roundUp (20 + (requestSize m - 16))

theorem requestSize_of_ofMessage? (h : ofMessage? m = some r) :
    r.request.size.toNat = requestSize m := by
  unfold ofMessage? at h
  split at h
  · cases h
    show (Header.decode (m.payload.slice 4 16)).size.toNat = _
    rw [Header.toNat_size_decode]
    show Bytes.decodeLE (((m.payload.drop 4).take 16).take 4) = _
    rw [List.take_take]
    rfl
  · cases h

end Report

namespace ExtendedAck

variable {m m' : Message} {s t : Attributes} {ack : ExtendedAck}

theorem ofAttributes_congr (h : s.rest = t.rest) : ofAttributes s = ofAttributes t := by
  unfold ofAttributes
  rw [Table.ofStream, Table.ofStream, Stream.records_congr h]

theorem exists_placed_of_get? {maxType type : UInt16} {a : Attribute}
    (h : (Table.ofStream s maxType).get? type = some a) :
    a.type = type ∧ ∃ place, (place, a) ∈ s.placed := by
  refine ⟨Table.type_of_get?_ofList h, ?_⟩
  rw [Table.ofStream, Table.get?_ofList] at h
  split at h
  · have hmem := List.mem_reverse.mp (List.mem_of_find?_eq_some h)
    obtain ⟨n, hn⟩ := List.mem_iff_getElem?.mp hmem
    refine ⟨(s.after n).offset, List.mem_iff_getElem?.mpr ⟨n, ?_⟩⟩
    rw [Stream.placed, List.getElem?_mapIdx, hn]
    rfl
  · cases h

/-- Details are read from what the payload holds behind the echo. -/
theorem ofMessage?_eq (m : Message) :
    ofMessage? m =
      if MessageFlag.isSet m.header.flags MessageFlag.ackDetails ∧
          Report.size ≤ m.payload.length then
        some (ofAttributes (.ofBytes (m.payload.drop (Report.echoEnd m))))
      else none := by
  unfold ofMessage?
  by_cases hannounced : MessageFlag.isSet m.header.flags MessageFlag.ackDetails = true
  · cases hreport : Report.ofMessage? m with
    | none =>
        have hshort := Report.ofMessage?_eq_none_iff.mp hreport
        rw [if_pos hannounced, if_neg (fun h => Nat.not_le_of_lt hshort h.2)]
        rfl
    | some r =>
        have hlong : Report.size ≤ m.payload.length := by
          apply Nat.le_of_not_lt
          intro hshort
          rw [Report.ofMessage?_eq_none_iff.mpr hshort] at hreport
          cases hreport
        have hend : (align (.ofNat (start m.header.flags r))).toNat = Report.echoEnd m := by
          rw [toNat_align_start, Report.requestSize_of_ofMessage? hreport, Report.echoEnd]
          split
          · rfl
          · simp only [roundUp]
            omega
        rw [if_pos hannounced, if_pos ⟨hannounced, hlong⟩, Option.map_some]
        congr 1
        -- the streams count what is left in different ways, which the details do not depend on
        apply ofAttributes_congr
        show m.payload.drop _ = m.payload.drop _
        rw [hend]
  · rw [if_neg hannounced, if_neg (fun h => hannounced h.1)]

def BehindEcho (m : Message) (a : Attribute) : Prop :=
  ∃ place, Report.echoEnd m ≤ place ∧ place + a.size ≤ m.payload.length ∧
    a.bytes = m.payload.slice place a.size

theorem behindEcho_of_mem_placed {place : Nat × Attribute}
    (h : place ∈ (Stream.ofBytes (m.payload.drop (Report.echoEnd m)) : Attributes).placed) :
    BehindEcho m place.2 := by
  obtain ⟨hstop, hbytes⟩ := Stream.bytes_of_mem_placed h
  have hpos := place.2.size_pos
  have hrest : (Stream.ofBytes (m.payload.drop (Report.echoEnd m)) : Attributes).rest =
      m.payload.drop (Report.echoEnd m) := rfl
  have hoffset : (Stream.ofBytes (m.payload.drop (Report.echoEnd m)) : Attributes).offset = 0 := rfl
  rw [hrest, hoffset, List.length_drop] at hstop
  rw [hrest, hoffset, Nat.sub_zero, Bytes.slice, List.drop_drop] at hbytes
  exact ⟨Report.echoEnd m + place.1, Nat.le_add_right _ _, by omega, hbytes⟩

theorem behindEcho_of_ofMessage? (h : ofMessage? m = some ack) :
    (∀ text, ack.text = some text →
        ∃ a, BehindEcho m a ∧ a.type = textType ∧ a.getText = .ok text) ∧
      ∀ offset, ack.offset = some offset →
        ∃ a, BehindEcho m a ∧ a.type = offsetType ∧ a.getU32 = .ok offset := by
  rw [ofMessage?_eq] at h
  split at h
  · cases h
    constructor
    · intro text htext
      obtain ⟨a, hget, hread⟩ := Option.bind_eq_some_iff.mp htext
      obtain ⟨htype, place, hplace⟩ := exists_placed_of_get? hget
      exact ⟨a, behindEcho_of_mem_placed hplace, htype, eq_ok_of_toOption hread⟩
    · intro offset hoffset
      obtain ⟨a, hget, hread⟩ := Option.bind_eq_some_iff.mp hoffset
      obtain ⟨htype, place, hplace⟩ := exists_placed_of_get? hget
      exact ⟨a, behindEcho_of_mem_placed hplace, htype, eq_ok_of_toOption hread⟩
  · cases h

/-- An echo that reaches to the end of the payload, or would if there were more of it, leaves no
room for an attribute. -/
theorem eq_empty_of_echoEnd (h : ofMessage? m = some ack)
    (hfull : m.payload.length ≤ Report.echoEnd m) : ack = {} := by
  have hnone (a : Attribute) : ¬BehindEcho m a := by
    rintro ⟨place, hbehind, hstop, _⟩
    have hpos := a.size_pos
    omega
  obtain ⟨htext, hoffset⟩ := behindEcho_of_ofMessage? h
  obtain ⟨text, offset⟩ := ack
  congr 1
  · cases text with
    | none => rfl
    | some text =>
        obtain ⟨a, hbehind, _⟩ := htext text rfl
        exact absurd hbehind (hnone a)
  · cases offset with
    | none => rfl
    | some offset =>
        obtain ⟨a, hbehind, _⟩ := hoffset offset rfl
        exact absurd hbehind (hnone a)

/-- Two messages with the same header and the same size of the request have the same details if
their payloads agree behind the echo, whatever the codes, the rest of the header of the request and
the echoes are. What the details tell was read behind the echo, and nothing where no bytes are left
there, as for a size of the request that is larger than the message. -/
theorem ofMessage?_behind_echo (hheader : m.header = m'.header)
    (hrequest : Report.requestSize m = Report.requestSize m')
    (hbehind : m.payload.drop (Report.echoEnd m) = m'.payload.drop (Report.echoEnd m)) :
    ofMessage? m = ofMessage? m' ∧
      ∀ ack, ofMessage? m = some ack →
        (∀ text, ack.text = some text →
          ∃ a, BehindEcho m a ∧ a.type = textType ∧ a.getText = .ok text) ∧
        (∀ offset, ack.offset = some offset →
          ∃ a, BehindEcho m a ∧ a.type = offsetType ∧ a.getU32 = .ok offset) ∧
        (m.payload.length ≤ Report.echoEnd m → ack = {}) := by
  have hend : Report.echoEnd m = Report.echoEnd m' := by
    rw [Report.echoEnd, Report.echoEnd, hheader, hrequest]
  constructor
  · rw [ofMessage?_eq, ofMessage?_eq, ← hend, ← hheader, ← Message.length_payload_congr hheader,
      hbehind]
  · intro ack hack
    obtain ⟨htext, hoffset⟩ := behindEcho_of_ofMessage? hack
    exact ⟨htext, hoffset, eq_empty_of_echoEnd hack⟩

/-- An echo that reads like details of its own, and one of zeros behind another code and request. -/
theorem ofMessage?_behind_echo_forged :
    let details : Bytes := [7, 0, 1, 0, 111, 107, 0, 0]
    let forged : Bytes := [6, 0, 1, 0, 110, 111, 0, 0, 4, 0, 2, 0]
    let header := Header.encode { size := 56, type := 2, flags := 0x200 }
    let m : Message := ⟨header ++ Report.encode ⟨-22, { size := 27, type := 16, seq := 7 }⟩ ++
      forged ++ details, by decide, by decide⟩
    let m' : Message := ⟨header ++ Report.encode ⟨-1, { size := 27 }⟩ ++ Bytes.zeros 12 ++ details,
      by decide, by decide⟩
    m.header = m'.header ∧ Report.requestSize m = Report.requestSize m' ∧
      m.payload.drop (Report.echoEnd m) = m'.payload.drop (Report.echoEnd m) ∧
      m.payload ≠ m'.payload ∧ ofMessage? m = ofMessage? m' ∧
      ofMessage? m = some ⟨some "ok", none⟩ := by
  intro details forged header m m'
  have hheader : m.header = m'.header := by decide
  have hrequest : Report.requestSize m = Report.requestSize m' := by decide
  have hbehind : m.payload.drop (Report.echoEnd m) = m'.payload.drop (Report.echoEnd m) := by decide
  have hread : ofMessage? m = some ⟨some "ok", none⟩ := by decide +kernel
  obtain ⟨hsame, _⟩ := ofMessage?_behind_echo hheader hrequest hbehind
  exact ⟨hheader, hrequest, hbehind, by decide, hsame, hread⟩

end ExtendedAck

end Netlink
