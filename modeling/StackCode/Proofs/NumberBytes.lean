import Mathlib
import StackCode.Text.Reader

/-!
# Numbers as bytes

A number below `256 ^ width` and its `width` bytes determine each other, in either order of the
bytes. So a number of known width can be cut off the front of a text in one way only.
-/

namespace StackCode.Proofs

open Text

/-! ### Cutting a text -/

lemma takeExact?_eq_some_iff {n : Nat} {t front rest : Text} :
    takeExact? n t = some (front, rest) ↔ t = front ++ rest ∧ front.length = n := by
  unfold takeExact?
  simp only [List.splitAt_eq]
  constructor
  · intro h
    split_ifs at h with hlen
    simp only [Option.some.injEq, Prod.mk.injEq] at h
    obtain ⟨rfl, rfl⟩ := h
    exact ⟨(List.take_append_drop n t).symm, hlen⟩
  · rintro ⟨rfl, rfl⟩
    simp

lemma takeExact?_append (front rest : Text) :
    takeExact? front.length (front ++ rest) = some (front, rest) :=
  takeExact?_eq_some_iff.mpr ⟨rfl, rfl⟩

/-! ### The lowest byte first -/

@[simp] lemma length_littleEndianBytes (width n : Nat) :
    (littleEndianBytes width n).length = width := by
  induction width generalizing n with
  | zero => rfl
  | succ width ih => rw [littleEndianBytes, List.length_cons, ih]

@[simp] lemma littleEndian_nil : littleEndian [] = 0 := rfl

@[simp] lemma littleEndian_cons (b : UInt8) (t : Text) :
    littleEndian (b :: t) = littleEndian t * 256 + b.toNat := rfl

lemma littleEndian_lt (t : Text) : littleEndian t < 256 ^ t.length := by
  induction t with
  | nil => simp
  | cons b t ih =>
    have hb := b.toNat_lt
    rw [littleEndian_cons, List.length_cons, pow_succ]
    omega

lemma littleEndian_littleEndianBytes {width n : Nat} (h : n < 256 ^ width) :
    littleEndian (littleEndianBytes width n) = n := by
  induction width generalizing n with
  | zero =>
    rw [pow_zero] at h
    rw [littleEndianBytes, littleEndian_nil]
    omega
  | succ width ih =>
    rw [pow_succ] at h
    have hrest : n / 256 < 256 ^ width := by omega
    have hbyte : n.toUInt8.toNat = n % 256 := UInt8.toNat_ofNat'
    rw [littleEndianBytes, littleEndian_cons, ih hrest, hbyte]
    omega

lemma littleEndianBytes_littleEndian (t : Text) :
    littleEndianBytes t.length (littleEndian t) = t := by
  induction t with
  | nil => rfl
  | cons b t ih =>
    have hb := b.toNat_lt
    have hrest : (littleEndian t * 256 + b.toNat) / 256 = littleEndian t := by omega
    have hbyte : (littleEndian t * 256 + b.toNat).toUInt8 = b := by
      apply UInt8.toNat_inj.mp
      rw [Nat.toUInt8, UInt8.toNat_ofNat']
      omega
    rw [littleEndian_cons, List.length_cons, littleEndianBytes, hrest, hbyte, ih]

/-! ### The highest byte first -/

lemma bigEndian_eq (t : Text) : bigEndian t = littleEndian t.reverse := by
  unfold bigEndian littleEndian
  rw [List.foldr_reverse]

@[simp] lemma length_bigEndianBytes (width n : Nat) : (bigEndianBytes width n).length = width := by
  rw [bigEndianBytes, List.length_reverse, length_littleEndianBytes]

lemma bigEndian_bigEndianBytes {width n : Nat} (h : n < 256 ^ width) :
    bigEndian (bigEndianBytes width n) = n := by
  rw [bigEndian_eq, bigEndianBytes, List.reverse_reverse, littleEndian_littleEndianBytes h]

/-- Numbers of one width in front of any texts: equal bytes mean equal numbers and equal rests. -/
lemma bigEndianBytes_append_inj {width n n' : Nat} {rest rest' : Text} (hn : n < 256 ^ width)
    (hn' : n' < 256 ^ width)
    (h : bigEndianBytes width n ++ rest = bigEndianBytes width n' ++ rest') :
    n = n' ∧ rest = rest' := by
  have hlen : (bigEndianBytes width n).length = (bigEndianBytes width n').length := by simp
  obtain ⟨hbytes, hrest⟩ := List.append_inj h hlen
  refine ⟨?_, hrest⟩
  rw [← bigEndian_bigEndianBytes hn, hbytes, bigEndian_bigEndianBytes hn']

end StackCode.Proofs
