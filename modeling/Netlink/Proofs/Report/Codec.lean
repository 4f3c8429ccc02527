import Netlink.Proofs.Report.Answer
import Netlink.Proofs.Report.Room

/-!
# Headers and reports in bytes

A header has sixteen bytes and a report twenty, a signed code and a header inside it. Writing and
reading undo each other at both levels, in both directions and whatever follows. Main statement:
`codecs_inverse`.
-/

namespace Netlink

namespace Header

variable {bs : Bytes} {h : Header}

theorem read?_encode_append (h : Header) (rest : Bytes) : read? (h.encode ++ rest) = some h := by
  have hlong : 16 ≤ (h.encode ++ rest).length := by
    rw [List.length_append, length_encode]
    exact Nat.le_add_right 16 _
  rw [read?, if_pos hlong, decode_encode]

theorem read?_eq_none_iff (bs : Bytes) : read? bs = none ↔ bs.length < 16 := by
  rw [read?, ite_eq_right_iff, ← Nat.not_le]
  constructor
  · intro hnone hlong
    cases hnone hlong
  · intro hshort hlong
    exact absurd hlong hshort

theorem encode_of_read? (hread : read? bs = some h) : h.encode = bs.take 16 := by
  rw [read?, Option.ite_none_right_eq_some, Option.some.injEq] at hread
  obtain ⟨hlong, rfl⟩ := hread
  exact encode_decode hlong

end Header

namespace Report

variable {m : Message} {r : Report}

theorem encode_of_ofMessage? (h : ofMessage? m = some r) : r.encode = m.payload.take size := by
  rw [ofMessage?, Option.ite_none_right_eq_some, Option.some.injEq] at h
  obtain ⟨hlong, rfl⟩ := h
  rw [size] at hlong
  have hcode : (m.payload.slice 0 4).length = 4 := by
    rw [Bytes.length_slice]
    omega
  have hheader : (m.payload.slice 4 16).length = 16 := by
    rw [Bytes.length_slice]
    omega
  have herror := Bytes.encodeLE_of_decodeLE hcode UInt32.toNat_ofNat'
  have hrequest := Header.encode_decode (Nat.le_of_eq hheader.symm)
  rw [List.take_of_length_le (Nat.le_of_eq hheader)] at hrequest
  rw [encode, UInt32.toUInt32_toInt32, herror, hrequest, Bytes.slice_append_slice]
  rfl

end Report

namespace Report

/-- A header is read from its own bytes whatever follows, and from any sixteen bytes as the header
that is written so. A report that is put on a message without payload is read from it; and from any
payload of twenty bytes one report is read, which put on a new message gives these bytes again. -/
theorem codecs_inverse :
    (∀ (h : Header) (rest : Bytes), Header.read? (h.encode ++ rest) = some h) ∧
      (∀ bs : Bytes, (Header.read? bs = none ↔ bs.length < 16) ∧
        ∀ h, Header.read? bs = some h → h.encode = bs.take 16) ∧
      (∀ (d : Draft) (r : Report), d.payload = [] → ∃ e m, d.putReport r = (e, .ok ()) ∧
        e.message? = some m ∧ m.type = MessageType.error ∧ ofMessage? m = some r) ∧
      ∀ m : Message,
        (m.payload.length < 20 → ofMessage? m = none) ∧
          (20 ≤ m.payload.length → ∃ r, ofMessage? m = some r ∧
            ∀ buffer, ∃ e, (Draft.start buffer).putReport r = (e, .ok ()) ∧
              e.payload = m.payload.take 20) := by
  refine ⟨Header.read?_encode_append, fun bs => ⟨Header.read?_eq_none_iff bs,
    fun h => Header.encode_of_read?⟩, fun d r hd => ?_, fun m => ⟨ofMessage?_eq_none_iff.mpr,
    fun hlong => ?_⟩⟩
  · obtain ⟨e, hput, hsynced, htype, hpayload⟩ := Draft.putReport_of_payload_nil hd r
    refine ⟨e, e.toMessage hsynced, hput, e.message?_eq hsynced, htype, ?_⟩
    exact ofMessage?_of_payload (hpayload.trans (List.append_nil _).symm)
  · have hsome : ofMessage? m ≠ none := by
      rw [ne_eq, ofMessage?_eq_none_iff]
      exact Nat.not_lt.mpr hlong
    obtain ⟨r, hread⟩ := Option.ne_none_iff_exists'.mp hsome
    refine ⟨r, hread, fun buffer => ?_⟩
    obtain ⟨e, hput, _, _, hpayload⟩ :=
      Draft.putReport_of_payload_nil (Draft.payload_start buffer) r
    exact ⟨e, hput, hpayload.trans (encode_of_ofMessage? hread)⟩

/-- The least code with a header of different bytes, put on a message that has a sequence number;
and a payload of one byte too many, whose first sixteen bytes are also read as a header. -/
theorem codecs_inverse_least :
    let d := (Draft.start [7, 7]).setSeq 5
    let r : Report := ⟨-2147483648, ⟨0x01020304, 0x0506, 0x0708, 0x090A0B0C, 0x0D0E0F10⟩⟩
    let bs : Bytes := [1, 2, 3, 4, 5, 6, 7, 8, 9, 10, 11, 12, 13, 14, 15, 16, 17, 18, 19, 200]
    let m : Message := ⟨Header.encode { size := 37 } ++ bs ++ [255], by decide, by decide⟩
    d.payload = [] ∧
      (∃ e m, d.putReport r = (e, .ok ()) ∧ e.message? = some m ∧ ofMessage? m = some r) ∧
      (∃ h, Header.read? bs = some h ∧ h.encode = bs.take 16) ∧
      ∃ r, ofMessage? m = some r ∧ ∃ e, (Draft.start [9]).putReport r = (e, .ok ()) ∧
        e.payload = bs := by
  intro d r bs m
  obtain ⟨_, hheader, hput, hread⟩ := codecs_inverse
  have hd : d.payload = [] := by
    rw [Draft.payload_setSeq, Draft.payload_start]
  obtain ⟨e, m', he, hm, _, hr⟩ := hput d r hd
  have hsome : Header.read? bs ≠ none := mt (hheader bs).1.mp (by decide)
  obtain ⟨h, hh⟩ := Option.ne_none_iff_exists'.mp hsome
  obtain ⟨r', hr', hagain⟩ := (hread m).2 (by decide)
  obtain ⟨f, hf, hpayload⟩ := hagain [9]
  exact ⟨hd, ⟨e, m', he, hm, hr⟩, ⟨h, hh, (hheader bs).2 h hh⟩, r', hr', f, hf,
    hpayload.trans (by decide)⟩

end Report

end Netlink
