import Mathlib.Data.List.GetD
import Mathlib.Data.List.TakeWhile
import Mathlib.Tactic.Ring

/-!
# Bytes, C strings and fixed-size fields

Memory is a sequence of bytes. A C string is what precedes the first NUL; the
structure `CStr` carries the absence of a NUL, so a string value that could not
come out of `strdup` cannot be built. A pointer is the memory read through it,
a function of the offset, because C code may read past the object the pointer
was made for.

Machine words appear in memory in little-endian order.
-/

namespace CLib

abbrev Byte := UInt8

/-- The bytes of an ASCII literal. -/
def asciiBytes (s : String) : List Byte := s.toList.map fun c => UInt8.ofNat c.toNat

/-- A C string: a byte sequence without NUL. -/
structure CStr where
  bytes : List Byte
  noNul : 0 ∉ bytes

namespace CStr

@[ext] theorem ext {s t : CStr} (h : s.bytes = t.bytes) : s = t := by
  cases s
  cases t
  cases h
  rfl

instance : DecidableEq CStr := fun s t =>
  decidable_of_iff (s.bytes = t.bytes) ⟨ext, fun h => by rw [h]⟩

/-- The string found at the start of `mem`: everything before the first NUL. -/
def read (mem : List Byte) : CStr where
  bytes := mem.takeWhile (· ≠ 0)
  noNul := fun h => by simpa using List.mem_takeWhile_imp h

/-- The string of an ASCII literal. -/
def lit (s : String) : CStr := read (asciiBytes s)

def length (s : CStr) : Nat := s.bytes.length

@[simp] theorem read_bytes (s : CStr) : read s.bytes = s := by
  apply ext
  simp only [read, ne_eq, decide_not]
  rw [List.takeWhile_eq_self_iff]
  intro b hb
  have hne : b ≠ 0 := fun h => s.noNul (h ▸ hb)
  simpa using hne

theorem read_of_noNul {mem : List Byte} (h : 0 ∉ mem) : (read mem).bytes = mem :=
  congrArg bytes (read_bytes ⟨mem, h⟩)

/-- `strlcpy` into a buffer of `n` bytes: the string cut to `n - 1` bytes. -/
def strlcpy (n : Nat) (s : CStr) : CStr where
  bytes := s.bytes.take (n - 1)
  noNul := fun h => s.noNul (List.mem_of_mem_take h)

theorem strlcpy_of_lt {n : Nat} {s : CStr} (h : s.length < n) : strlcpy n s = s :=
  ext (List.take_of_length_le (Nat.le_sub_one_of_lt h))

theorem strlcpy_eq_iff {n : Nat} (hn : 0 < n) {s : CStr} : strlcpy n s = s ↔ s.length < n := by
  refine ⟨fun h => ?_, strlcpy_of_lt⟩
  have hlength : (s.bytes.take (n - 1)).length = s.length := congrArg length h
  rw [List.length_take] at hlength
  omega

end CStr

/-! ## Fields and pointers -/

/-- `strncpy` into a field of `n` bytes: the string cut to `n` bytes, NUL-padded.
A string of `n` bytes or more leaves the field without a terminator. -/
def strncpy (n : Nat) (s : CStr) : List Byte :=
  s.bytes.take n ++ List.replicate (n - s.length) 0

@[simp] theorem strncpy_length (n : Nat) (s : CStr) : (strncpy n s).length = n := by
  simp only [strncpy, CStr.length, List.length_append, List.length_take, List.length_replicate]
  omega

theorem strncpy_getElem?_of_lt {n i : Nat} (s : CStr) (hn : i < n) (hi : i < s.length) :
    (strncpy n s)[i]? = s.bytes[i]? := by
  have htake : i < (s.bytes.take n).length := by
    rw [List.length_take]
    exact lt_min hn hi
  rw [strncpy, List.getElem?_append_left htake, List.getElem?_take_of_lt hn]

theorem strncpy_getElem?_of_ge {n i : Nat} (s : CStr) (hn : i < n) (hi : s.length ≤ i) :
    (strncpy n s)[i]? = some 0 := by
  have htake : (s.bytes.take n).length = s.length := by
    rw [List.length_take, CStr.length, Nat.min_eq_right]
    exact le_trans hi hn.le
  rw [strncpy, List.getElem?_append_right (by omega), htake, List.getElem?_replicate]
  rw [if_pos (by omega)]

/-- The memory behind a pointer to an object, which continues past its end. -/
def pointer (object : List Byte) (past : Nat → Byte) : Nat → Byte :=
  fun i => object[i]?.getD (past (i - object.length))

theorem pointer_of_getElem? {object : List Byte} {past : Nat → Byte} {i : Nat} {b : Byte}
    (h : object[i]? = some b) : pointer object past i = b := by
  rw [pointer, h, Option.getD_some]

theorem pointer_past {object : List Byte} (past : Nat → Byte) (i : Nat) :
    pointer object past (object.length + i) = past i := by
  rw [pointer, List.getElem?_eq_none (by omega), Option.getD_none, Nat.add_sub_cancel_left]

/-- `memcpy` of `n` bytes out of a pointer. -/
def memcpy (n : Nat) (p : Nat → Byte) : List Byte := (List.range n).map p

@[simp] theorem memcpy_length (n : Nat) (p : Nat → Byte) : (memcpy n p).length = n := by
  simp [memcpy]

theorem memcpy_getElem? {n i : Nat} (p : Nat → Byte) (h : i < n) :
    (memcpy n p)[i]? = some (p i) := by
  simp [memcpy, h]

/-- Whether `strncmp(p, q, n)` is zero. Neither pointer is read past the first
difference or a NUL common to both. -/
def strncmpZero : Nat → (Nat → Byte) → (Nat → Byte) → Bool
  | 0, _, _ => true
  | n + 1, p, q =>
      p 0 == q 0 && (p 0 == 0 || strncmpZero n (fun i => p (i + 1)) (fun i => q (i + 1)))

theorem strncmpZero_iff (n : Nat) (p q : Nat → Byte) :
    strncmpZero n p q = true ↔ ∀ i < n, (∀ j < i, p j ≠ 0) → p i = q i := by
  induction n generalizing p q with
  | zero => simp [strncmpZero]
  | succ n ih =>
      simp only [strncmpZero, Bool.and_eq_true, beq_iff_eq, Bool.or_eq_true, ih]
      constructor
      · rintro ⟨hhead, htail⟩ i hi hnz
        cases i with
        | zero => exact hhead
        | succ i =>
            have hp0 : p 0 ≠ 0 := hnz 0 (Nat.succ_pos i)
            have hrest := htail.resolve_left hp0
            exact hrest i (by omega) fun j hj => hnz (j + 1) (by omega)
      · intro h
        refine ⟨h 0 (Nat.succ_pos n) (by omega), ?_⟩
        by_cases hp0 : p 0 = 0
        · exact Or.inl hp0
        · refine Or.inr fun i hi hnz => h (i + 1) (by omega) fun j hj => ?_
          cases j with
          | zero => exact hp0
          | succ j => exact hnz j (by omega)

/-- A pointer sees the string `s`: its bytes and the NUL behind them, as far as the
first `n` bytes go. -/
def Sees (n : Nat) (p : Nat → Byte) (s : CStr) : Prop :=
  ∀ i < n, i ≤ s.length → p i = s.bytes.getD i 0

theorem CStr.getD_ne_zero (s : CStr) {i : Nat} (h : i < s.length) : s.bytes.getD i 0 ≠ 0 := by
  rw [List.getD_eq_getElem _ _ h]
  intro h0
  exact s.noNul (h0 ▸ List.getElem_mem h)

theorem CStr.getD_of_ge (s : CStr) {i : Nat} (h : s.length ≤ i) : s.bytes.getD i 0 = 0 :=
  List.getD_eq_default _ _ h

/-- A string that ends within the first `n` bytes is the only one seen there. -/
theorem Sees.eq {n : Nat} {p : Nat → Byte} {s t : CStr} (hs : Sees n p s) (ht : Sees n p t)
    (hn : s.length < n) : t = s := by
  have hle : t.length ≤ s.length := by
    by_contra hlt
    have hend := hs s.length hn (Nat.le_refl _)
    rw [ht s.length hn (by omega), s.getD_of_ge (Nat.le_refl _)] at hend
    exact t.getD_ne_zero (by omega) hend
  have hge : s.length ≤ t.length := by
    by_contra hlt
    have hend := ht t.length (by omega) (Nat.le_refl _)
    rw [hs t.length (by omega) (by omega), t.getD_of_ge (Nat.le_refl _)] at hend
    exact s.getD_ne_zero (by omega) hend
  apply CStr.ext
  apply List.ext_getElem (Nat.le_antisymm hle hge)
  intro i hi hi'
  have hbyte := (ht i (by simp only [CStr.length] at *; omega) (Nat.le_of_lt hi)).symm.trans
    (hs i (by simp only [CStr.length] at *; omega) (Nat.le_of_lt hi'))
  rwa [List.getD_eq_getElem _ _ hi, List.getD_eq_getElem _ _ hi'] at hbyte

theorem strncpy_getElem? {n i : Nat} (s : CStr) (hi : i < n) :
    (strncpy n s)[i]? = some (s.bytes.getD i 0) := by
  by_cases hlt : i < s.length
  · rw [strncpy_getElem?_of_lt s hi hlt, List.getD_eq_getElem _ _ hlt]
    exact List.getElem?_eq_getElem hlt
  · rw [strncpy_getElem?_of_ge s hi (by omega), s.getD_of_ge (by omega)]

theorem pointer_strncpy {n i : Nat} (s : CStr) (past : Nat → Byte) (hi : i < n) :
    pointer (strncpy n s) past i = s.bytes.getD i 0 :=
  pointer_of_getElem? (strncpy_getElem? s hi)

/-- Comparing a field filled by `strncpy` with a pointer asks whether the pointer sees
the string. -/
theorem strncmpZero_strncpy_iff (n : Nat) (s : CStr) (past p : Nat → Byte) :
    strncmpZero n (pointer (strncpy n s) past) p = true ↔ Sees n p s := by
  rw [strncmpZero_iff]
  constructor
  · intro h i hi hle
    rw [← h i hi, pointer_strncpy s past hi]
    intro j hj
    rw [pointer_strncpy s past (by omega)]
    exact s.getD_ne_zero (by omega)
  · intro h i hi hnz
    rw [pointer_strncpy s past hi]
    refine (h i hi ?_).symm
    by_contra hgt
    have hz := hnz s.length (by omega)
    rw [pointer_strncpy s past (by omega), s.getD_of_ge (Nat.le_refl _)] at hz
    exact hz rfl

/-- Next to a string that a pointer sees, it sees those with the same first bytes. -/
theorem sees_iff_strncpy_eq {k : Nat} {p : Nat → Byte} {m n : CStr} (hn : Sees k p n) :
    Sees k p m ↔ strncpy k m = strncpy k n := by
  have hbytes : strncpy k m = strncpy k n ↔ ∀ i < k, m.bytes.getD i 0 = n.bytes.getD i 0 := by
    constructor
    · intro h i hi
      have hget := congrArg (fun l : List Byte => l[i]?) h
      simpa only [strncpy_getElem? _ hi, Option.some.injEq] using hget
    · intro h
      apply List.ext_getElem?
      intro i
      by_cases hi : i < k
      · rw [strncpy_getElem? m hi, strncpy_getElem? n hi, h i hi]
      · rw [List.getElem?_eq_none (by simpa using hi), List.getElem?_eq_none (by simpa using hi)]
  rw [hbytes]
  constructor
  · intro hm i hi
    by_cases hshort : m.length < k
    · rw [hm.eq hn hshort]
    · by_cases hshort' : n.length < k
      · rw [hn.eq hm hshort']
      · rw [← hm i hi (by omega), ← hn i hi (by omega)]
  · intro h i hi him
    rw [h i hi]
    by_cases hin : i ≤ n.length
    · exact hn i hi hin
    · -- The string of `n` has ended before `i`, so that of `m` has too.
      have hend := h n.length (by omega)
      rw [n.getD_of_ge (Nat.le_refl _)] at hend
      exact absurd hend (m.getD_ne_zero (by omega))

/-! ## Little-endian words -/

/-- The `k` low-order bytes of `n`, least significant first. -/
def toLittleEndian : Nat → Nat → List Byte
  | 0, _ => []
  | k + 1, n => UInt8.ofNat n :: toLittleEndian k (n / 256)

/-- The number stored in little-endian order. -/
def ofLittleEndian : List Byte → Nat
  | [] => 0
  | b :: bs => b.toNat + 256 * ofLittleEndian bs

@[simp] theorem toLittleEndian_length (k n : Nat) : (toLittleEndian k n).length = k := by
  induction k generalizing n with
  | zero => rfl
  | succ k ih => simp [toLittleEndian, ih]

@[simp] theorem ofLittleEndian_toLittleEndian (k n : Nat) :
    ofLittleEndian (toLittleEndian k n) = n % 256 ^ k := by
  induction k generalizing n with
  | zero => simp [toLittleEndian, ofLittleEndian, Nat.mod_one]
  | succ k ih =>
      have hlow : (UInt8.ofNat n).toNat = n % 256 := UInt8.toNat_ofNat'
      have hpow : 256 ^ (k + 1) = 256 * 256 ^ k := pow_succ' 256 k
      rw [toLittleEndian, ofLittleEndian, ih, hlow, hpow, Nat.mod_mul]

theorem ofLittleEndian_lt (bs : List Byte) : ofLittleEndian bs < 256 ^ bs.length := by
  induction bs with
  | nil => simp [ofLittleEndian]
  | cons b bs ih =>
      have hb : b.toNat < 256 := b.toNat_lt
      rw [ofLittleEndian, List.length_cons, pow_succ']
      omega

end CLib
