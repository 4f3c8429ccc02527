import Mathlib.Algebra.Group.Int.Defs
import Mathlib.Algebra.Group.Nat.Defs
import Netlink.Align

/-!
# Overwriting and padding

How an overwrite acts on a concatenation and on single bytes, and byte strings that are padded to
the boundary. The layouts of drafts and of streams are both calculated with these facts.
-/

namespace Netlink

theorem roundUp_le_roundUp {m n : Nat} (h : m ≤ n) : roundUp m ≤ roundUp n := by
  simp only [roundUp]
  omega

namespace Bytes

def padded (bs : Bytes) : Bytes := bs ++ zeros (roundUp bs.length - bs.length)

@[simp] theorem length_padded (bs : Bytes) : (padded bs).length = roundUp bs.length := by
  have hle := le_roundUp bs.length
  simp only [padded, List.length_append, length_zeros]
  omega

theorem padded_of_mod {bs : Bytes} (h : bs.length % 4 = 0) : padded bs = bs := by
  rw [padded, roundUp_of_mod h, Nat.sub_self]
  simp [zeros]

theorem zeros_eq_append {count total : Nat} (h : count ≤ total) :
    zeros total = zeros count ++ zeros (total - count) := by
  rw [zeros, zeros, zeros, List.replicate_append_replicate,
    Nat.add_sub_cancel' h]

theorem drop_padded (bs : Bytes) {count : Nat} (h : count % 4 = 0) :
    (padded bs).drop count = padded (bs.drop count) := by
  by_cases hle : count ≤ bs.length
  · have hpad : roundUp (bs.length - count) - (bs.length - count) =
        roundUp bs.length - bs.length := by
      simp only [roundUp]
      omega
    rw [padded, padded, List.drop_append_of_le_length hle, List.length_drop, hpad]
  · have hend : (padded bs).length ≤ count := by
      rw [length_padded, roundUp]
      omega
    rw [List.drop_eq_nil_of_le hend, List.drop_eq_nil_of_le (by omega)]
    rfl

theorem overwrite_append_of_length_le {front : Bytes} {offset : Nat} (h : front.length ≤ offset)
    (bs data : Bytes) :
    (front ++ bs).overwrite offset data = front ++ bs.overwrite (offset - front.length) data := by
  have hlength : (front ++ bs).length - offset = bs.length - (offset - front.length) := by
    rw [List.length_append]
    omega
  have hbehind : offset + data.length - front.length = offset - front.length + data.length := by
    omega
  rw [overwrite, overwrite, hlength, List.take_append, List.take_of_length_le h,
    List.drop_append, List.drop_eq_nil_of_le (Nat.le_trans h (Nat.le_add_right _ _)), hbehind]
  simp only [List.nil_append, List.append_assoc]

theorem overwrite_append_of_le_length {front data : Bytes} {offset : Nat}
    (h : offset + data.length ≤ front.length) (bs : Bytes) :
    (front ++ bs).overwrite offset data = front.overwrite offset data ++ bs := by
  have hoffset : offset ≤ front.length := by omega
  have hall : data.length ≤ front.length - offset := by omega
  have hall' : data.length ≤ (front ++ bs).length - offset := by
    rw [List.length_append]
    omega
  rw [overwrite, overwrite, List.take_append_of_le_length hoffset,
    List.drop_append_of_le_length h, List.take_of_length_le hall, List.take_of_length_le hall']
  simp only [List.append_assoc]

theorem overwrite_zero_of_length_eq {bs data : Bytes} (h : data.length = bs.length) :
    bs.overwrite 0 data = data := by
  have htake : data.take bs.length = data := List.take_of_length_le (Nat.le_of_eq h)
  simp [overwrite, h, htake]

theorem overwrite_middle (front old back data : Bytes) (h : data.length = old.length) :
    (front ++ (old ++ back)).overwrite front.length data = front ++ (data ++ back) := by
  rw [overwrite_append_of_length_le (Nat.le_refl _), Nat.sub_self,
    overwrite_append_of_le_length (by omega), overwrite_zero_of_length_eq h]

theorem getElem?_overwrite_of_outside {bs data : Bytes} {offset i : Nat}
    (h : i < offset ∨ offset + data.length ≤ i) : (bs.overwrite offset data)[i]? = bs[i]? := by
  by_cases hi : i < bs.length
  · unfold overwrite
    rcases h with hbefore | hbehind
    · have hfront : i < (bs.take offset).length := by
        rw [List.length_take]
        omega
      rw [List.append_assoc, List.getElem?_append_left hfront, List.getElem?_take_of_lt hbefore]
    · have hfront : (bs.take offset ++ data.take (bs.length - offset)).length =
          offset + data.length := by
        rw [List.length_append, List.length_take, List.length_take]
        omega
      rw [List.getElem?_append_right (by omega), hfront, List.getElem?_drop]
      congr 1
      omega
  · have hlong : (bs.overwrite offset data).length ≤ i := by
      rw [length_overwrite]
      omega
    rw [List.getElem?_eq_none hlong, List.getElem?_eq_none (by omega)]

end Bytes

end Netlink
