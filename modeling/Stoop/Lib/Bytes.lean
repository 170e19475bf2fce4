import Mathlib

/-!
# Byte strings: numbers in them, slices and reads

A number of a fixed width lies in a byte string least byte first or last (`ByteOrder`). A slice or a number read
off a byte string too short for it is a fault of the program (`Fault`); a reader that comes to its end is not,
and says so (`readFull`).
-/

set_option autoImplicit false

namespace Stoop.Lib

abbrev Bytes := List UInt8

inductive ByteOrder
  | little
  | big
  deriving DecidableEq, Repr

namespace Bytes

/-! ## Numbers -/

/-- The bytes of a number, least first, and as many as are asked for. -/
def ofNat : Nat → Nat → Bytes
  | 0, _ => []
  | width + 1, n => UInt8.ofNat n :: ofNat width (n / 256)

def toNat : Bytes → Nat
  | [] => 0
  | b :: rest => b.toNat + 256 * toNat rest

@[simp] theorem length_ofNat (width n : Nat) : (ofNat width n).length = width := by
  induction width generalizing n with
  | zero => rfl
  | succ width ih => rw [ofNat, List.length_cons, ih]

theorem toNat_ofNat {width n : Nat} (h : n < 256 ^ width) : toNat (ofNat width n) = n := by
  induction width generalizing n with
  | zero => exact (Nat.lt_one_iff.mp h).symm
  | succ width ih =>
    have hrest : n / 256 < 256 ^ width := Nat.div_lt_of_lt_mul (by rwa [Nat.pow_succ'] at h)
    rw [ofNat, toNat, ih hrest, UInt8.toNat_ofNat']
    exact Nat.mod_add_div n 256

end Bytes

namespace ByteOrder

/-- A number as it lies in a byte string. -/
def number (order : ByteOrder) (width n : Nat) : Bytes :=
  match order with
  | little => Bytes.ofNat width n
  | big => (Bytes.ofNat width n).reverse

/-- The number a byte string is. -/
def toNat (order : ByteOrder) (b : Bytes) : Nat :=
  match order with
  | little => b.toNat
  | big => Bytes.toNat b.reverse

variable {order : ByteOrder} {width n : Nat}

@[simp] theorem length_number : (order.number width n).length = width := by
  cases order with
  | little => exact Bytes.length_ofNat _ _
  | big => rw [number, List.length_reverse, Bytes.length_ofNat]

theorem toNat_number (h : n < 256 ^ width) : order.toNat (order.number width n) = n := by
  cases order with
  | little => exact Bytes.toNat_ofNat h
  | big => rw [number, toNat, List.reverse_reverse, Bytes.toNat_ofNat h]

end ByteOrder

/-! ## Slices -/

/-- What a slice or an index that reaches out of its bytes does. -/
inductive Fault
  | outOfRange
  deriving DecidableEq, Repr

namespace Bytes

/-- `b[low:]`. -/
def sliceFrom (b : Bytes) (low : Nat) : Except Fault Bytes :=
  if low ≤ b.length then .ok (b.drop low) else .error .outOfRange

/-- `b[low:high]`. -/
def slice (b : Bytes) (low high : Nat) : Except Fault Bytes :=
  if low ≤ high ∧ high ≤ b.length then .ok ((b.drop low).take (high - low)) else .error .outOfRange

/-- `b[i]`. -/
def index (b : Bytes) (i : Nat) : Except Fault UInt8 :=
  match b[i]? with
  | some byte => .ok byte
  | none => .error .outOfRange

/-- The number at the start of a byte string. -/
def uint (order : ByteOrder) (width : Nat) (b : Bytes) : Except Fault Nat :=
  if width ≤ b.length then .ok (order.toNat (b.take width)) else .error .outOfRange

variable {b rest : Bytes} {low high i n width : Nat} {order : ByteOrder}

theorem sliceFrom_of_le (h : low ≤ b.length) : b.sliceFrom low = .ok (b.drop low) := if_pos h

theorem slice_of_le (h : low ≤ high) (h' : high ≤ b.length) :
    b.slice low high = .ok ((b.drop low).take (high - low)) := if_pos ⟨h, h'⟩

/-- The slice between two others. -/
theorem slice_append {before mid after : Bytes} (hlow : before.length = low) (hhigh : low + mid.length = high) :
    (before ++ (mid ++ after)).slice low high = .ok mid := by
  have hle : high ≤ (before ++ (mid ++ after)).length := by
    rw [List.length_append, List.length_append]
    omega
  rw [slice_of_le (by omega) hle, List.drop_left' hlow, List.take_left' (by omega)]

theorem index_append {before after : Bytes} {byte : UInt8} (h : before.length = i) :
    (before ++ byte :: after).index i = .ok byte := by
  subst h
  rw [index, List.getElem?_append_right (Nat.le_refl _), Nat.sub_self, List.getElem?_cons_zero]

theorem index_of_lt (h : i < b.length) : b.index i = .ok b[i] := by
  rw [index, List.getElem?_eq_getElem h]

theorem uint_of_le (h : width ≤ b.length) : uint order width b = .ok (order.toNat (b.take width)) := if_pos h

/-- A number written is the number read. -/
theorem uint_number (h : n < 256 ^ width) : uint order width (order.number width n ++ rest) = .ok n := by
  have hwidth : (order.number width n).length = width := ByteOrder.length_number
  have hle : width ≤ (order.number width n ++ rest).length := by
    rw [List.length_append, hwidth]
    exact Nat.le_add_right _ _
  rw [uint_of_le hle, List.take_left' hwidth, ByteOrder.toNat_number h]

@[simp] theorem ok_bind {α β : Type} (a : α) (f : α → Except Fault β) : (Except.ok a >>= f) = f a := rfl

/-- A number read from where there are bytes enough. -/
theorem uint_sliceFrom {β : Type} (f : Nat → Except Fault β) (h : low + width ≤ b.length) :
    (b.sliceFrom low >>= fun at_ => uint order width at_ >>= f) = f (order.toNat ((b.drop low).take width)) := by
  have hwidth : width ≤ (b.drop low).length := by
    rw [List.length_drop]
    omega
  rw [sliceFrom_of_le (by omega), ok_bind, uint_of_le hwidth, ok_bind]

/-- A number read from where it was written. -/
theorem uint_sliceFrom_number {β : Type} (f : Nat → Except Fault β)
    (h : b.drop low = order.number width n ++ rest) (hpos : 0 < width) (hn : n < 256 ^ width) :
    (b.sliceFrom low >>= fun at_ => uint order width at_ >>= f) = f n := by
  have hlength := congrArg List.length h
  rw [List.length_drop, List.length_append, ByteOrder.length_number] at hlength
  rw [uint_sliceFrom f (by omega), h, List.take_left' ByteOrder.length_number, ByteOrder.toNat_number hn]

/-! ## Readers -/

/-- A read of so many bytes, and what is left to read, where there are as many. -/
def readFull (n : Nat) (reader : Bytes) : Option (Bytes × Bytes) :=
  if n ≤ reader.length then some (reader.take n, reader.drop n) else none

theorem readFull_append (h : b.length = n) : readFull n (b ++ rest) = some (b, rest) := by
  have hle : n ≤ (b ++ rest).length := by
    rw [List.length_append, h]
    exact Nat.le_add_right _ _
  rw [readFull, if_pos hle, List.take_left' h, List.drop_left' h]

theorem length_of_readFull {reader : Bytes} (h : readFull n reader = some (b, rest)) : b.length = n := by
  obtain ⟨hle, ⟨⟩⟩ := Option.ite_none_right_eq_some.mp h
  exact List.length_take_of_le hle

end Bytes

end Stoop.Lib
