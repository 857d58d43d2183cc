import Ifconfigd.Lib.Bytes

/-!
# Arrays of pointers

An array of pointers as the bytes it occupies, for code that clears or copies part of
it byte by byte. Pointers have eight bytes, least significant first.
-/

namespace CLib

/-- `sizeof(char *)`. -/
def ptrSize : Nat := 8

/-- `array[i] = p`. -/
def storePtr (i p : Nat) (array : List Byte) : List Byte :=
  array.take (ptrSize * i) ++ toLittleEndian ptrSize p ++ array.drop (ptrSize * i + ptrSize)

/-- `array[i]`. -/
def loadPtr (i : Nat) (array : List Byte) : Nat :=
  ofLittleEndian ((array.drop (ptrSize * i)).take ptrSize)

/-- `bzero(array, n)`. -/
def bzero (n : Nat) (array : List Byte) : List Byte := List.replicate n 0 ++ array.drop n

theorem ofLittleEndian_replicate_zero (n : Nat) : ofLittleEndian (List.replicate n 0) = 0 := by
  induction n with
  | zero => rfl
  | succ n ih => simp [List.replicate_succ, ofLittleEndian, ih]

/-- A slot that was cleared as a whole is null. -/
theorem loadPtr_bzero {i n : Nat} (h : ptrSize * i + ptrSize ≤ n) (array : List Byte) :
    loadPtr i (bzero n array) = 0 := by
  have hslot : ((bzero n array).drop (ptrSize * i)).take ptrSize = List.replicate ptrSize 0 := by
    rw [bzero, List.drop_append_of_le_length (by simp; omega), List.drop_replicate,
      List.take_append_of_le_length (by simp; omega), List.take_replicate]
    congr 1
    omega
  rw [loadPtr, hslot, ofLittleEndian_replicate_zero]

/-- Storing a pointer leaves the slots before it as they were. -/
theorem loadPtr_storePtr_of_lt {i j : Nat} (h : i < j) (p : Nat) {array : List Byte}
    (hlen : ptrSize * j ≤ array.length) : loadPtr i (storePtr j p array) = loadPtr i array := by
  have hbound : ptrSize * i + ptrSize ≤ ptrSize * j := by
    have hmul := Nat.mul_le_mul_left ptrSize (Nat.succ_le_of_lt h)
    rwa [Nat.mul_succ] at hmul
  have htake : (array.take (ptrSize * j)).length = ptrSize * j := by simp [hlen]
  rw [loadPtr, storePtr, List.append_assoc, List.drop_append_of_le_length (by omega),
    List.take_append_of_le_length (by rw [List.length_drop, htake]; omega), List.drop_take,
    List.take_take, Nat.min_eq_left (by omega)]
  rfl

theorem storePtr_length {i : Nat} (p : Nat) {array : List Byte}
    (h : ptrSize * i + ptrSize ≤ array.length) : (storePtr i p array).length = array.length := by
  simp [storePtr]
  omega

theorem bzero_length {n : Nat} {array : List Byte} (h : n ≤ array.length) :
    (bzero n array).length = array.length := by
  simp [bzero]
  omega

end CLib
