import Netlink.Draft
import Netlink.Proofs.Bytes

/-!
# Header and payload of a draft

The bytes of a draft are its header and its payload, and every operation on drafts is described by
what it does to these two. Main statements: `bytes_eq`, the equations for each setter, `grow` and
`cut`, and `Appended`, which says of two drafts that one is the other with bytes appended.
-/

namespace Netlink

namespace Header

theorem encode_overwrite_size (h : Header) (size : UInt32) :
    h.encode.overwrite 0 (Bytes.encodeLE 4 size.toNat) = { h with size }.encode := by
  have hwrite := Bytes.overwrite_middle [] (Bytes.encodeLE 4 h.size.toNat)
    (Bytes.encodeLE 2 h.type.toNat ++ Bytes.encodeLE 2 h.flags.toNat ++
      Bytes.encodeLE 4 h.seq.toNat ++ Bytes.encodeLE 4 h.port.toNat)
    (Bytes.encodeLE 4 size.toNat) (by simp)
  simpa only [encode, List.length_nil, List.nil_append, List.append_assoc] using hwrite

theorem encode_overwrite_type (h : Header) (type : UInt16) :
    h.encode.overwrite 4 (Bytes.encodeLE 2 type.toNat) = { h with type }.encode := by
  have hwrite := Bytes.overwrite_middle (Bytes.encodeLE 4 h.size.toNat)
    (Bytes.encodeLE 2 h.type.toNat)
    (Bytes.encodeLE 2 h.flags.toNat ++ (Bytes.encodeLE 4 h.seq.toNat ++
      Bytes.encodeLE 4 h.port.toNat))
    (Bytes.encodeLE 2 type.toNat) (by simp)
  simpa only [encode, Bytes.length_encodeLE, List.append_assoc] using hwrite

theorem encode_overwrite_flags (h : Header) (flags : UInt16) :
    h.encode.overwrite 6 (Bytes.encodeLE 2 flags.toNat) = { h with flags }.encode := by
  have hwrite := Bytes.overwrite_middle
    (Bytes.encodeLE 4 h.size.toNat ++ Bytes.encodeLE 2 h.type.toNat)
    (Bytes.encodeLE 2 h.flags.toNat)
    (Bytes.encodeLE 4 h.seq.toNat ++ Bytes.encodeLE 4 h.port.toNat)
    (Bytes.encodeLE 2 flags.toNat) (by simp)
  simpa only [encode, List.length_append, Bytes.length_encodeLE, List.append_assoc] using hwrite

theorem encode_overwrite_seq (h : Header) (seq : UInt32) :
    h.encode.overwrite 8 (Bytes.encodeLE 4 seq.toNat) = { h with seq }.encode := by
  have hwrite := Bytes.overwrite_middle
    (Bytes.encodeLE 4 h.size.toNat ++ Bytes.encodeLE 2 h.type.toNat ++
      Bytes.encodeLE 2 h.flags.toNat)
    (Bytes.encodeLE 4 h.seq.toNat) (Bytes.encodeLE 4 h.port.toNat)
    (Bytes.encodeLE 4 seq.toNat) (by simp)
  simpa only [encode, List.length_append, Bytes.length_encodeLE, List.append_assoc] using hwrite

theorem encode_overwrite_port (h : Header) (port : UInt32) :
    h.encode.overwrite 12 (Bytes.encodeLE 4 port.toNat) = { h with port }.encode := by
  have hwrite := Bytes.overwrite_middle
    (Bytes.encodeLE 4 h.size.toNat ++ Bytes.encodeLE 2 h.type.toNat ++
      Bytes.encodeLE 2 h.flags.toNat ++ Bytes.encodeLE 4 h.seq.toNat)
    (Bytes.encodeLE 4 h.port.toNat) [] (Bytes.encodeLE 4 port.toNat) (by simp)
  simpa only [encode, List.length_append, Bytes.length_encodeLE, List.append_assoc,
    List.append_nil] using hwrite

theorem toNat_size_decode (bs : Bytes) :
    (decode bs).size.toNat = Layout.message.declared bs := by
  have hlt := Layout.message.declared_lt bs
  rw [Layout.declared] at hlt ⊢
  show (UInt32.ofNat (Bytes.decodeLE (bs.take 4))).toNat = _
  rw [UInt32.toNat_ofNat']
  exact Nat.mod_eq_of_lt hlt

end Header

namespace Draft

def payload (d : Draft) : Bytes := d.bytes.drop Message.headerSize

def Synced (d : Draft) : Prop := d.header.size.toNat = d.size

theorem bytes_eq (d : Draft) : d.bytes = d.header.encode ++ d.payload := by
  rw [header, Header.encode_decode d.headerSize_le, payload, Message.headerSize,
    List.take_append_drop]

theorem size_eq (d : Draft) : d.size = 16 + d.payload.length := by
  rw [size, d.bytes_eq, List.length_append, Header.length_encode]

theorem size_lt (d : Draft) : d.size < 2 ^ 32 := Nat.lt_succ_of_le d.length_le

theorem toNat_ofNat_size (d : Draft) : (UInt32.ofNat d.size).toNat = d.size := by
  rw [UInt32.toNat_ofNat']
  exact Nat.mod_eq_of_lt d.size_lt

theorem Synced.header_size {d : Draft} (h : d.Synced) : d.header.size = .ofNat d.size := by
  rw [Synced] at h
  rw [← h, UInt32.ofNat_toNat]

theorem header_of_bytes {d : Draft} {h : Header} {bs : Bytes} (hbytes : d.bytes = h.encode ++ bs) :
    d.header = h := by
  rw [header, hbytes, Header.decode_encode]

theorem payload_of_bytes {d : Draft} {h : Header} {bs : Bytes}
    (hbytes : d.bytes = h.encode ++ bs) : d.payload = bs := by
  rw [payload, hbytes]
  exact List.drop_left' h.length_encode

/-! ## Writing in place -/

section Write

variable (d : Draft) {offset : Nat} {data : Bytes}

theorem bytes_write_of_le (h : 16 ≤ offset) :
    (d.write offset data).bytes =
      d.header.encode ++ d.payload.overwrite (offset - 16) data := by
  have hbehind : d.header.encode.length ≤ offset := d.header.length_encode.symm ▸ h
  rw [bytes_write, d.bytes_eq, Bytes.overwrite_append_of_length_le hbehind, Header.length_encode]

theorem header_write (h : 16 ≤ offset) : (d.write offset data).header = d.header :=
  header_of_bytes (d.bytes_write_of_le h)

theorem payload_write (h : 16 ≤ offset) :
    (d.write offset data).payload = d.payload.overwrite (offset - 16) data :=
  payload_of_bytes (d.bytes_write_of_le h)

theorem bytes_write_field {h : Header} (hfits : offset + data.length ≤ 16)
    (hfield : d.header.encode.overwrite offset data = h.encode) :
    (d.write offset data).bytes = h.encode ++ d.payload := by
  rw [bytes_write, d.bytes_eq, Bytes.overwrite_append_of_le_length
    (by rw [Header.length_encode]; exact hfits), hfield]

end Write

/-! ## Setters -/

section Setters

variable (d : Draft)

theorem bytes_setLength :
    d.setLength.bytes = { d.header with size := .ofNat d.size }.encode ++ d.payload := by
  apply d.bytes_write_field (by simp)
  rw [← d.toNat_ofNat_size, UInt32.ofNat_toNat]
  exact d.header.encode_overwrite_size _

theorem bytes_setType (type : UInt16) :
    (d.setType type).bytes = { d.header with type }.encode ++ d.payload :=
  d.bytes_write_field (by simp) (d.header.encode_overwrite_type type)

@[simp] theorem header_setType (type : UInt16) :
    (d.setType type).header = { d.header with type } := header_of_bytes (d.bytes_setType type)

@[simp] theorem payload_setType (type : UInt16) : (d.setType type).payload = d.payload :=
  payload_of_bytes (d.bytes_setType type)

theorem bytes_setFlags (flags : UInt16) :
    (d.setFlags flags).bytes = { d.header with flags }.encode ++ d.payload :=
  d.bytes_write_field (by simp) (d.header.encode_overwrite_flags flags)

@[simp] theorem header_setFlags (flags : UInt16) :
    (d.setFlags flags).header = { d.header with flags } := header_of_bytes (d.bytes_setFlags flags)

@[simp] theorem payload_setFlags (flags : UInt16) : (d.setFlags flags).payload = d.payload :=
  payload_of_bytes (d.bytes_setFlags flags)

theorem bytes_setSeq (seq : UInt32) :
    (d.setSeq seq).bytes = { d.header with seq }.encode ++ d.payload :=
  d.bytes_write_field (by simp) (d.header.encode_overwrite_seq seq)

@[simp] theorem header_setSeq (seq : UInt32) : (d.setSeq seq).header = { d.header with seq } :=
  header_of_bytes (d.bytes_setSeq seq)

@[simp] theorem payload_setSeq (seq : UInt32) : (d.setSeq seq).payload = d.payload :=
  payload_of_bytes (d.bytes_setSeq seq)

theorem bytes_setPort (port : UInt32) :
    (d.setPort port).bytes = { d.header with port }.encode ++ d.payload :=
  d.bytes_write_field (by simp) (d.header.encode_overwrite_port port)

@[simp] theorem header_setPort (port : UInt32) : (d.setPort port).header = { d.header with port } :=
  header_of_bytes (d.bytes_setPort port)

@[simp] theorem payload_setPort (port : UInt32) : (d.setPort port).payload = d.payload :=
  payload_of_bytes (d.bytes_setPort port)

end Setters

/-! ## Changes of size -/

section Sizes

variable (d : Draft) {count : Nat}

theorem bytes_grow (haligned : count % 4 = 0) (hfits : d.size + count ≤ maxSize) :
    (d.grow count haligned hfits).bytes =
      { d.header with size := .ofNat (d.size + count) }.encode ++
        (d.payload ++ Bytes.zeros count) := by
  have hlonger : d.bytes ++ Bytes.zeros count =
      d.header.encode ++ (d.payload ++ Bytes.zeros count) := by
    rw [← List.append_assoc, ← d.bytes_eq]
  rw [grow, bytes_setLength, header_of_bytes hlonger, payload_of_bytes hlonger]
  simp only [size, List.length_append, Bytes.length_zeros]

theorem header_grow (haligned : count % 4 = 0) (hfits : d.size + count ≤ maxSize) :
    (d.grow count haligned hfits).header = { d.header with size := .ofNat (d.size + count) } :=
  header_of_bytes (d.bytes_grow haligned hfits)

theorem payload_grow (haligned : count % 4 = 0) (hfits : d.size + count ≤ maxSize) :
    (d.grow count haligned hfits).payload = d.payload ++ Bytes.zeros count :=
  payload_of_bytes (d.bytes_grow haligned hfits)

theorem bytes_cut (hheader : Message.headerSize ≤ count) (hfits : count ≤ d.size)
    (haligned : count % 4 = 0) :
    (d.cut count hheader hfits haligned).bytes =
      { d.header with size := .ofNat count }.encode ++ d.payload.take (count - 16) := by
  have hcount : 16 ≤ count := hheader
  have hshorter : d.bytes.take count = d.header.encode ++ d.payload.take (count - 16) := by
    rw [d.bytes_eq, List.take_append, Header.length_encode,
      List.take_of_length_le (by rw [Header.length_encode]; exact hcount)]
  have hsize : (d.bytes.take count).length = count := List.length_take_of_le hfits
  rw [cut, bytes_setLength, header_of_bytes hshorter, payload_of_bytes hshorter]
  simp only [size, hsize]

theorem header_cut (hheader : Message.headerSize ≤ count) (hfits : count ≤ d.size)
    (haligned : count % 4 = 0) :
    (d.cut count hheader hfits haligned).header = { d.header with size := .ofNat count } :=
  header_of_bytes (d.bytes_cut hheader hfits haligned)

theorem payload_cut (hheader : Message.headerSize ≤ count) (hfits : count ≤ d.size)
    (haligned : count % 4 = 0) :
    (d.cut count hheader hfits haligned).payload = d.payload.take (count - 16) :=
  payload_of_bytes (d.bytes_cut hheader hfits haligned)

end Sizes

/-! ## A new draft -/

theorem bytes_start (buffer : Bytes) :
    (start buffer).bytes = Header.encode { size := 16 } ++ [] := by
  rw [List.append_nil]
  rfl

@[simp] theorem header_start (buffer : Bytes) : (start buffer).header = { size := 16 } :=
  header_of_bytes (bytes_start buffer)

@[simp] theorem payload_start (buffer : Bytes) : (start buffer).payload = [] :=
  payload_of_bytes (bytes_start buffer)

theorem synced_start (buffer : Bytes) : (start buffer).Synced := by
  rw [Synced, header_start]
  rfl

/-! ## Appending -/

/-- `e` is `d` with `data` appended and the length field set. -/
structure Appended (d : Draft) (data : Bytes) (e : Draft) : Prop where
  before : e.before = d.before
  header : e.header = { d.header with size := .ofNat e.size }
  payload : e.payload = d.payload ++ data

namespace Appended

variable {d e : Draft} {data : Bytes}

theorem size (h : Appended d data e) : e.size = d.size + data.length := by
  rw [e.size_eq, d.size_eq, h.payload, List.length_append]
  omega

theorem synced (h : Appended d data e) : e.Synced := by
  rw [Synced, h.header]
  exact e.toNat_ofNat_size

theorem refl {d : Draft} (h : d.Synced) : Appended d [] d := by
  refine ⟨rfl, ?_, (List.append_nil _).symm⟩
  rw [← h.header_size]

theorem trans {f : Draft} {more : Bytes} (h : Appended d data e) (hmore : Appended e more f) :
    Appended d (data ++ more) f := by
  refine ⟨hmore.before.trans h.before, ?_, ?_⟩
  · rw [hmore.header, h.header]
  · rw [hmore.payload, h.payload, List.append_assoc]

theorem bytes (h : Appended d data e) :
    e.bytes = d.bytes.overwrite 0 (Bytes.encodeLE 4 e.size) ++ data := by
  have hfield := d.header.encode_overwrite_size (.ofNat e.size)
  rw [e.toNat_ofNat_size, ← h.header] at hfield
  rw [e.bytes_eq, h.payload, d.bytes_eq, Bytes.overwrite_append_of_le_length (by simp), hfield,
    List.append_assoc]

theorem contents {front middle back : Bytes} (h : Appended d (front ++ (middle ++ back)) e) :
    e.contents ⟨d.size + front.length, middle.length⟩ = middle := by
  have hfront : (d.bytes.overwrite 0 (Bytes.encodeLE 4 e.size) ++ front).length =
      d.size + front.length := by
    rw [List.length_append, Bytes.length_overwrite]
    rfl
  rw [Draft.contents, Bytes.slice, h.bytes, ← List.append_assoc, List.drop_left' hfront]
  exact List.take_left

theorem write {front old back : Bytes} (h : Appended d (front ++ (old ++ back)) e)
    {offset : Nat} (hoffset : offset = d.size + front.length) (new : Bytes)
    (hnew : new.length ≤ old.length) :
    Appended d (front ++ (old.overwrite 0 new ++ back)) (e.write offset new) := by
  have hsize := d.size_eq
  have hheader : 16 ≤ offset := by omega
  have hplace : offset - 16 = (d.payload ++ front).length := by
    rw [List.length_append]
    omega
  refine ⟨h.before, ?_, ?_⟩
  · rw [header_write e hheader, size_write]
    exact h.header
  · rw [payload_write e hheader, h.payload, hplace, ← List.append_assoc,
      Bytes.overwrite_append_of_length_le (Nat.le_refl _), Nat.sub_self,
      Bytes.overwrite_append_of_le_length (by omega), List.append_assoc]

theorem write_zeros {count : Nat} (h : Appended d (Bytes.zeros count) e) (new : Bytes)
    (hnew : new.length ≤ count) :
    Appended d (new ++ Bytes.zeros (count - new.length)) (e.write d.size new) := by
  rw [Bytes.zeros_eq_append hnew, ← List.nil_append (Bytes.zeros new.length ++ _)] at h
  have hwritten := h.write rfl new (Nat.le_of_eq (Bytes.length_zeros _).symm)
  rwa [Bytes.overwrite_zero_of_length_eq (Bytes.length_zeros _).symm, List.nil_append] at hwritten

end Appended

theorem appended_grow (d : Draft) {count : Nat} (haligned : count % 4 = 0)
    (hfits : d.size + count ≤ maxSize) :
    Appended d (Bytes.zeros count) (d.grow count haligned hfits) := by
  refine ⟨rfl, ?_, d.payload_grow haligned hfits⟩
  rw [d.header_grow haligned hfits, size_grow]

/-! ## The draft as a message -/

def toMessage (d : Draft) (hd : d.Synced) : Message where
  bytes := d.bytes
  headerSize_le := d.headerSize_le
  declared_eq := (Header.toNat_size_decode d.bytes).symm.trans hd

theorem message?_eq (d : Draft) (hd : d.Synced) : d.message? = some (d.toMessage hd) := by
  have hfirst := (d.toMessage hd).first?_append []
  rwa [List.append_nil] at hfirst

end Draft

end Netlink
