import Ifconfigd.Gate.Globals

/-!
# Network ids and keys

`get_string` decodes the argument of `nwid`, `nwkey` and `wpakey` into a buffer of the
caller. The string is seen through a pointer, since a backslash at its end makes the
function go on behind the terminating NUL. The test against the capacity lets the
pointer reach the first byte behind the buffer.
-/

namespace Ifconfigd.Gate

open CLib Dialogue

/-! ## The functions -/

/-- `isxdigit` of an `unsigned char`. -/
def isxdigit (b : Byte) : Bool :=
  (48 ≤ b && b ≤ 57) || (65 ≤ b && b ≤ 70) || (97 ≤ b && b ≤ 102)

def tolower (b : Byte) : Byte := if 65 ≤ b && b ≤ 90 then b + 32 else b

def tohex (b : Byte) : Byte := if 48 ≤ b && b ≤ 57 then b - 48 else tolower b - 97 + 10

/-- `sep != NULL && strchr(sep, c) != NULL`, where `strchr` finds the terminating NUL, too. -/
def inSep (sep : Option CStr) (c : Byte) : Bool := sep.any fun s => c = 0 || s.bytes.contains c

/-- Memory from the buffer on, with the indexes written so far. -/
structure Buffer where
  bytes : Nat → Byte
  writes : List Nat

namespace Buffer

def write (b : Buffer) (i : Nat) (x : Byte) : Buffer :=
  ⟨Function.update b.bytes i x, i :: b.writes⟩

/-- Write some bytes one after the other. -/
def store (b : Buffer) (i : Nat) : List Byte → Buffer
  | [] => b
  | x :: xs => (b.write i x).store (i + 1) xs

def memset (b : Buffer) (i : Nat) (x : Byte) (n : Nat) : Buffer := b.store i (List.replicate n x)

end Buffer

/-- The loop of `get_string`, with `val` at offset `i` of the string and `p` at offset `p`
of the buffer. It ends with both, or with a warning. -/
def getStringLoop (val : Nat → Byte) (sep : Option CStr) (hexstr : Bool) (len i p : Nat)
    (buf : Buffer) : Except String (Nat × Nat) × Buffer :=
  if val i = 0 then (.ok (i, p), buf)
  else if inSep sep (val i) then (.ok (i + 1, p), buf)
  else if hexstr && (!isxdigit (val i) || !isxdigit (val (i + 1))) then
    (.error "bad hexadecimal digits", buf)
  else if len < p then
    (.error (if hexstr then "hexadecimal digits too long" else "strings too long"), buf)
  else if hexstr then
    getStringLoop val sep hexstr len (i + 2) (p + 1)
      (buf.write p (tohex (val i) <<< 4 ||| tohex (val (i + 1))))
  else if val i = 92 && inSep sep (val (i + 1)) then
    getStringLoop val sep hexstr len (i + 2) (p + 1) (buf.write p (val (i + 1)))
  else getStringLoop val sep hexstr len (i + 1) (p + 1) (buf.write p (val i))
  termination_by len + 1 - p

/-- What `get_string` leaves: the pointer it returns, as an offset into the string, and
`*lenp`. -/
structure Got where
  val : Option Nat
  len : Nat
  warning : Option String
  buf : Buffer

def hexPrefix (val : Nat → Byte) : Bool := val 0 = 48 && tolower (val 1) = 120

def getString (val : Nat → Byte) (sep : Option CStr) (buf : Buffer) (lenp : Nat) : Got :=
  let hexstr := hexPrefix val
  match getStringLoop val sep hexstr lenp (if hexstr then 2 else 0) 0 buf with
  | (.error text, buf) => ⟨none, lenp, some text, buf⟩
  | (.ok (i, len), buf) =>
      ⟨some i, len, none, if len < lenp then buf.memset len 0 (lenp - len) else buf⟩

/-- `IEEE80211_NWID_LEN` -/
def nwidLen : Nat := 32

/-- `SIOCS80211NWID` with a `struct ieee80211_nwid`, whose first byte is `i_len`. -/
def submitNwid (name : CStr) (len : Nat) (nwid : Nat → Byte) : Code Unit := do
  let _ ← ioctl .siocs80211nwid (name.strlcpy ifnamsiz)
    (.data (UInt8.ofNat len :: memcpy nwidLen nwid))
  pure ()

/-- The structure is on the stack: before the call `i_nwid` has any bytes. -/
def setifnwid (name : CStr) (val : Nat → Byte) (d : Int) (nwid : Nat → Byte) : Code Unit :=
  if d ≠ 0 then submitNwid name 0 fun _ => 0
  else
    let r := getString val none ⟨nwid, []⟩ nwidLen
    match r.val with
    | none => pure ()
    | some _ => submitNwid name r.len r.buf.bytes

/-! ## What is to be decoded -/

/-- The characters before the first unescaped separator, with escaped separators
unescaped. -/
def unescaped (sep : Byte → Bool) : List Byte → List Byte
  | [] => []
  | [c] => if sep c then [] else [c]
  | c :: d :: text =>
      if sep c then []
      else if c = 92 && sep d then d :: unescaped sep text
      else c :: unescaped sep (d :: text)

/-- The bytes that pairs of hexadecimal digits stand for. -/
def hexBytes : List Byte → Option (List Byte)
  | [] => some []
  | [_] => none
  | c :: d :: text =>
      if isxdigit c && isxdigit d then (hexBytes text).map ((tohex c <<< 4 ||| tohex d) :: ·)
      else none

/-- The separators of a set. -/
def separator (sep : Option CStr) (c : Byte) : Bool := sep.any fun s => s.bytes.contains c

def isHex (text : List Byte) : Bool := hexPrefix (pointer text fun _ => 0)

def decoded (sep : Option CStr) (v : CStr) : Option (List Byte) :=
  if isHex v.bytes then hexBytes ((v.bytes.drop 2).takeWhile fun c => !separator sep c)
  else some (unescaped (separator sep) v.bytes)

/-! ## The items of the text -/

/-- What is behind the items of a text: its end or a separator; characters that are no pair
of hexadecimal digits; a backslash that takes the NUL behind it for a separator. -/
inductive Behind
  | stop | bad | backslash
  deriving DecidableEq

/-- The bytes that the items at the beginning of the text stand for, and what is behind
them. An item is a pair of digits, an escaped separator or a character. -/
def items (sep : Option CStr) (hexstr : Bool) : List Byte → List Byte × Behind
  | [] => ([], .stop)
  | [c] =>
      if separator sep c then ([], .stop)
      else if hexstr then ([], .bad)
      else if c = 92 && sep.isSome then ([], .backslash)
      else ([c], .stop)
  | c :: d :: text =>
      if separator sep c then ([], .stop)
      else if hexstr then
        if isxdigit c && isxdigit d then
          ((tohex c <<< 4 ||| tohex d) :: (items sep hexstr text).1, (items sep hexstr text).2)
        else ([], .bad)
      else if c = 92 && separator sep d then
        (d :: (items sep hexstr text).1, (items sep hexstr text).2)
      else (c :: (items sep hexstr (d :: text)).1, (items sep hexstr (d :: text)).2)

section Items

variable {sep : Option CStr}

/-- Characters that are not hexadecimal digits: either all of the text was decoded, or a
backslash at its end is missing. -/
theorem unescaped_eq (text : List Byte) :
    unescaped (separator sep) text =
      (items sep false text).1 ++ if (items sep false text).2 = .backslash then [92] else [] := by
  fun_induction items sep false text with
  | case1 => rfl
  | case2 c hc => simp only [unescaped, if_pos hc]; rfl
  | case3 => contradiction
  | case4 c hc _ hslash =>
      rw [Bool.and_eq_true, decide_eq_true_eq] at hslash
      simp only [unescaped, if_neg hc]
      rw [hslash.1]
      rfl
  | case5 c hc _ hslash => simp only [unescaped, if_neg hc]; rfl
  | case6 c d text hc => simp only [unescaped, if_pos hc]; rfl
  | case7 => contradiction
  | case8 => contradiction
  | case9 c d text hc _ hslash ih => simp only [unescaped, if_neg hc, if_pos hslash, ih]; rfl
  | case10 c d text hc _ hslash ih => simp only [unescaped, if_neg hc, if_neg hslash, ih]; rfl

theorem items_ne_bad (text : List Byte) : (items sep false text).2 ≠ .bad := by
  fun_induction items sep false text with
  | case1 => nofun
  | case2 => nofun
  | case3 => contradiction
  | case4 => nofun
  | case5 => nofun
  | case6 => nofun
  | case7 => contradiction
  | case8 => contradiction
  | case9 c d text hc _ hslash ih => exact ih
  | case10 c d text hc _ hslash ih => exact ih

/-- Only an escape is read past the end of the string. -/
theorem items_ne_backslash {hexstr : Bool} (h : hexstr = true ∨ sep = none) (text : List Byte) :
    (items sep hexstr text).2 ≠ .backslash := by
  fun_induction items sep hexstr text with
  | case1 => nofun
  | case2 => nofun
  | case3 => nofun
  | case4 c _ hhex hslash =>
      rcases h with h | rfl
      · exact absurd h hhex
      · simp at hslash
  | case5 => nofun
  | case6 => nofun
  | case7 c d text _ _ _ ih => exact ih
  | case8 => nofun
  | case9 c d text _ _ _ ih => exact ih
  | case10 c d text _ _ _ ih => exact ih

/-- The digits taken for pairs. -/
def pairs (sep : Option CStr) (text : List Byte) : List Byte :=
  text.take (2 * (items sep true text).1.length)

/-- Digits are decoded up to the first separator if they end in pairs, unless that is one of
the digits taken. -/
theorem hexBytes_eq (text : List Byte) :
    hexBytes (text.takeWhile fun c => !separator sep c) =
      if (items sep true text).2 = .bad ∨ (pairs sep text).any (separator sep) = true then none
      else some (items sep true text).1 := by
  fun_induction items sep true text with
  | case1 => rfl
  | case2 c hc => simp [pairs, items, hc, hexBytes]
  | case3 c hc => simp [hc, hexBytes]
  | case4 => contradiction
  | case5 => contradiction
  | case6 c d text hc => simp [pairs, items, hc, hexBytes]
  | case7 c d text hc _ hpair ih =>
      have htake : pairs sep (c :: d :: text) = c :: d :: pairs sep text := by
        simp only [pairs, items, if_neg hc, if_pos hpair, if_true, List.length_cons, Nat.mul_add,
          Nat.mul_one, List.take_succ_cons]
      rw [Bool.not_eq_true] at hc
      rw [htake, List.any_cons, List.any_cons, hc, Bool.false_or]
      cases hd : separator sep d with
      | true => simp [hc, hd, hexBytes]
      | false =>
          have hwhile : (c :: d :: text).takeWhile (fun c => !separator sep c) =
              c :: d :: text.takeWhile fun c => !separator sep c := by
            simp [hc, hd]
          rw [hwhile, hexBytes, if_pos hpair, ih, Bool.false_or]
          split <;> rfl
  | case8 c d text hc _ hpair =>
      rw [Bool.not_eq_true] at hc
      cases hd : separator sep d with
      | true => simp [hc, hd, hexBytes]
      | false => simp [hc, hd, hexBytes, hpair]
  | case9 => contradiction
  | case10 => contradiction

theorem two_mul_length_items_le (text : List Byte) :
    2 * (items sep true text).1.length ≤ text.length := by
  fun_induction items sep true text with
  | case1 => simp
  | case2 => simp
  | case3 => simp
  | case4 => contradiction
  | case5 => contradiction
  | case6 => simp
  | case7 c d text hc _ hpair ih =>
      simp only [List.length_cons]
      omega
  | case8 => simp
  | case9 => contradiction
  | case10 => contradiction

end Items

/-! ## The buffer -/

namespace Buffer

theorem store_bytes (b : Buffer) (i : Nat) (xs : List Byte) (j : Nat) :
    (b.store i xs).bytes j = if i ≤ j ∧ j < i + xs.length then xs.getD (j - i) 0 else b.bytes j := by
  induction xs generalizing b i with
  | nil =>
      rw [if_neg (by simp only [List.length_nil]; omega)]
      rfl
  | cons x xs ih =>
      rw [store, ih, List.length_cons]
      by_cases hj : j = i
      · subst hj
        rw [if_neg (by omega), if_pos (by omega), Nat.sub_self]
        exact Function.update_self ..
      · have hupdate : (b.write i x).bytes j = b.bytes j := Function.update_of_ne hj ..
        rw [hupdate]
        by_cases hin : i + 1 ≤ j ∧ j < i + 1 + xs.length
        · rw [if_pos hin, if_pos (by omega), show j - i = j - (i + 1) + 1 by omega]
          rfl
        · rw [if_neg hin, if_neg (by omega)]

theorem mem_store_writes {b : Buffer} {i : Nat} {xs : List Byte} {j : Nat} :
    j ∈ (b.store i xs).writes ↔ i ≤ j ∧ j < i + xs.length ∨ j ∈ b.writes := by
  induction xs generalizing b i with
  | nil =>
      rw [List.length_nil, or_iff_right (show ¬(i ≤ j ∧ j < i + 0) by omega)]
      rfl
  | cons x xs ih =>
      rw [store, ih, write, List.mem_cons, List.length_cons, ← or_assoc]
      exact or_congr_left (by omega)

end Buffer

/-! ## The loop on a text -/

theorem inSep_of_ne {sep : Option CStr} {c : Byte} (h : c ≠ 0) : inSep sep c = separator sep c := by
  cases sep with
  | none => rfl
  | some s => simp [inSep, separator, h]

theorem inSep_nul (sep : Option CStr) : inSep sep 0 = sep.isSome := by
  cases sep <;> simp [inSep]

/-- The memory from offset `i` on is the text, its NUL, and anything. -/
def Holds (val : Nat → Byte) (i : Nat) (text : List Byte) : Prop :=
  0 ∉ text ∧ ∃ past, ∀ j, val (i + j) = pointer (text ++ [0]) past j

theorem Holds.nil {val : Nat → Byte} {i : Nat} (h : Holds val i []) : val i = 0 := by
  obtain ⟨-, past, hval⟩ := h
  exact (hval 0).trans rfl

theorem Holds.cons {val : Nat → Byte} {i : Nat} {c : Byte} {text : List Byte}
    (h : Holds val i (c :: text)) : val i = c ∧ c ≠ 0 ∧ Holds val (i + 1) text := by
  obtain ⟨hnul, past, hval⟩ := h
  rw [List.mem_cons, not_or] at hnul
  refine ⟨(hval 0).trans rfl, Ne.symm hnul.1, hnul.2, past, fun j => ?_⟩
  rw [Nat.add_assoc, hval, pointer, pointer, Nat.add_comm 1 j, List.cons_append,
    List.getElem?_cons_succ, List.length_cons, Nat.add_sub_add_right]

section Loop

variable {val : Nat → Byte} {sep : Option CStr} {hexstr : Bool} {len i p : Nat} {text bs : List Byte}
  {e : Behind} {b : Byte}

/-- The loop at a character that is no separator. -/
theorem loop_char {c : Byte} (hval : val i = c) (hc : c ≠ 0) (hsep : separator sep c = false)
    (buf : Buffer) :
    getStringLoop val sep hexstr len i p buf =
      if hexstr && (!isxdigit c || !isxdigit (val (i + 1))) then
        (.error "bad hexadecimal digits", buf)
      else if len < p then
        (.error (if hexstr then "hexadecimal digits too long" else "strings too long"), buf)
      else if hexstr then
        getStringLoop val sep hexstr len (i + 2) (p + 1)
          (buf.write p (tohex c <<< 4 ||| tohex (val (i + 1))))
      else if c = 92 && inSep sep (val (i + 1)) then
        getStringLoop val sep hexstr len (i + 2) (p + 1) (buf.write p (val (i + 1)))
      else getStringLoop val sep hexstr len (i + 1) (p + 1) (buf.write p c) := by
  rw [getStringLoop, hval, if_neg hc, inSep_of_ne hc, hsep, if_neg Bool.false_ne_true]

/-- One round of the loop takes one item. -/
theorem loop_item (h : Holds val i text) (hitems : items sep hexstr text = (b :: bs, e))
    (buf : Buffer) :
    ∃ k text', Holds val (i + k) text' ∧ items sep hexstr text' = (bs, e) ∧
      getStringLoop val sep hexstr len i p buf =
        if len < p then
          (.error (if hexstr then "hexadecimal digits too long" else "strings too long"), buf)
        else getStringLoop val sep hexstr len (i + k) (p + 1) (buf.write p b) := by
  match text with
  | [] => cases hitems
  | [c] =>
      obtain ⟨hval, hc, hrest⟩ := h.cons
      rw [items] at hitems
      split_ifs at hitems with hsep hhex hslash
      · cases hitems
      · cases hitems
      · cases hitems
      · cases hitems
        refine ⟨1, [], hrest, items.eq_1 sep hexstr, ?_⟩
        rw [loop_char hval hc (Bool.eq_false_iff.2 hsep), hrest.nil, inSep_nul]
        simp only [hhex, hslash, Bool.false_and, Bool.false_eq_true, if_false]
  | c :: d :: text =>
      obtain ⟨hval, hc, hrest⟩ := h.cons
      obtain ⟨hval', hd, hrest'⟩ := hrest.cons
      rw [items] at hitems
      split_ifs at hitems with hsep hhex hpair hslash
      · cases hitems
      · cases hitems
        refine ⟨2, text, hrest', rfl, ?_⟩
        rw [loop_char hval hc (Bool.eq_false_iff.2 hsep), hval']
        rw [Bool.and_eq_true] at hpair
        simp only [hhex, hpair.1, hpair.2, Bool.not_true, Bool.or_self, Bool.and_false,
          Bool.false_eq_true, if_false, if_true]
      · cases hitems
      · cases hitems
        refine ⟨2, text, hrest', rfl, ?_⟩
        rw [loop_char hval hc (Bool.eq_false_iff.2 hsep), hval', inSep_of_ne hd]
        simp only [hhex, hslash, Bool.false_and, Bool.false_eq_true, if_false, if_true]
      · cases hitems
        refine ⟨1, d :: text, hrest, rfl, ?_⟩
        rw [loop_char hval hc (Bool.eq_false_iff.2 hsep), hval', inSep_of_ne hd]
        simp only [hhex, hslash, Bool.false_and, Bool.false_eq_true, if_false]

/-- The loop takes the items one after the other, as long as there is room. -/
theorem loop_items (h : Holds val i text) (hitems : items sep hexstr text = (bs, e)) (hp : p ≤ len + 1)
    (buf : Buffer) :
    if p + bs.length ≤ len + 1 then
      ∃ i' rest, Holds val i' rest ∧ items sep hexstr rest = ([], e) ∧
        getStringLoop val sep hexstr len i p buf =
          getStringLoop val sep hexstr len i' (p + bs.length) (buf.store p bs)
    else ∃ warning, getStringLoop val sep hexstr len i p buf =
      (.error warning, buf.store p (bs.take (len + 1 - p))) := by
  induction bs generalizing i p text buf with
  | nil =>
      rw [List.length_nil, Nat.add_zero, if_pos hp]
      exact ⟨i, text, h, hitems, rfl⟩
  | cons b bs ih =>
      obtain ⟨k, text', h', hitems', hloop⟩ := @loop_item val sep hexstr len i p text bs e b h hitems buf
      rw [hloop]
      by_cases hfull : len < p
      · have hzero : len + 1 - p = 0 := by omega
        rw [if_pos hfull, if_neg (by rw [List.length_cons]; omega), hzero]
        exact ⟨_, rfl⟩
      · have hmore := ih h' hitems' (p := p + 1) (by omega) (buf.write p b)
        rw [if_neg hfull, List.length_cons]
        rw [show p + 1 + bs.length = p + (bs.length + 1) by omega] at hmore
        split at hmore
        · next hroom => rwa [if_pos hroom]
        · next hroom =>
            rw [if_neg hroom, show len + 1 - p = len + 1 - (p + 1) + 1 by omega]
            exact hmore

/-- The loop at the end of the items. -/
theorem loop_end (h : Holds val i text) (hitems : items sep hexstr text = ([], e)) (buf : Buffer) :
    e = .stop ∧ (∃ i', getStringLoop val sep hexstr len i p buf = (.ok (i', p), buf)) ∨
      e = .bad ∧ (∃ warning, getStringLoop val sep hexstr len i p buf = (.error warning, buf)) ∨
      e = .backslash ∧ getStringLoop val sep hexstr len i p buf =
        if len < p then (.error "strings too long", buf)
        else getStringLoop val sep hexstr len (i + 2) (p + 1) (buf.write p 0) := by
  match text with
  | [] =>
      cases hitems
      exact .inl ⟨rfl, i, by rw [getStringLoop, if_pos h.nil]⟩
  | [c] =>
      obtain ⟨hval, hc, hrest⟩ := h.cons
      rw [items] at hitems
      split_ifs at hitems with hsep hhex hslash
      · cases hitems
        exact .inl ⟨rfl, i + 1, by rw [getStringLoop, hval, if_neg hc, inSep_of_ne hc, if_pos hsep]⟩
      · cases hitems
        refine .inr (.inl ⟨rfl, "bad hexadecimal digits", ?_⟩)
        have hnul : isxdigit 0 = false := by decide
        rw [loop_char hval hc (Bool.eq_false_iff.2 hsep), hrest.nil, hnul, hhex, if_pos (by simp)]
      · cases hitems
        refine .inr (.inr ⟨rfl, ?_⟩)
        rw [loop_char hval hc (Bool.eq_false_iff.2 hsep), hrest.nil, inSep_nul]
        simp only [hhex, hslash, Bool.false_and, Bool.false_eq_true, if_false, if_true]
      · cases hitems
  | c :: d :: text =>
      obtain ⟨hval, hc, hrest⟩ := h.cons
      obtain ⟨hval', -⟩ := hrest.cons
      rw [items] at hitems
      split_ifs at hitems with hsep hhex hpair hslash
      · cases hitems
        exact .inl ⟨rfl, i + 1, by rw [getStringLoop, hval, if_neg hc, inSep_of_ne hc, if_pos hsep]⟩
      · cases hitems
      · cases hitems
        refine .inr (.inl ⟨rfl, "bad hexadecimal digits", ?_⟩)
        have hbad : (!isxdigit c || !isxdigit d) = true := by
          rw [← Bool.not_and, Bool.not_eq_true', Bool.eq_false_iff]
          exact hpair
        rw [loop_char hval hc (Bool.eq_false_iff.2 hsep), hval', hhex, hbad]
        rfl
      · cases hitems
      · cases hitems

/-- Whatever the memory is, the loop writes only from `p` on, and it is at the capacity when
it refuses a string without hexadecimal digits. -/
theorem loop_writes (buf : Buffer) (hp : p ≤ len ∨ len ∈ buf.writes) :
    (∀ j < p, (getStringLoop val sep false len i p buf).2.bytes j = buf.bytes j) ∧
      (len ∈ (getStringLoop val sep false len i p buf).2.writes ∨
        ∃ i' q, p ≤ q ∧ (getStringLoop val sep false len i p buf).1 = .ok (i', q)) := by
  have hnext (buf : Buffer) (x : Byte) (p : Nat) (hp : ¬len < p) :
      p + 1 ≤ len ∨ len ∈ (buf.write p x).writes := by
    rcases Nat.lt_or_eq_of_le (Nat.le_of_not_lt hp) with hlt | rfl
    · exact .inl hlt
    · exact .inr List.mem_cons_self
  -- A round writes at `p`, and the rest of the loop above it.
  have hround (buf : Buffer) (x : Byte) (p : Nat) {r : Except String (Nat × Nat) × Buffer}
      (h : (∀ j < p + 1, r.2.bytes j = (buf.write p x).bytes j) ∧
        (len ∈ r.2.writes ∨ ∃ i' q, p + 1 ≤ q ∧ r.1 = .ok (i', q))) :
      (∀ j < p, r.2.bytes j = buf.bytes j) ∧
        (len ∈ r.2.writes ∨ ∃ i' q, p ≤ q ∧ r.1 = .ok (i', q)) := by
    refine ⟨fun j hj => ?_, h.2.imp_right ?_⟩
    · rw [h.1 j (Nat.lt_succ_of_lt hj)]
      exact Function.update_of_ne (Nat.ne_of_lt hj) ..
    · rintro ⟨i', q, hq, hr⟩
      exact ⟨i', q, Nat.le_of_succ_le hq, hr⟩
  fun_induction getStringLoop val sep false len i p buf with
  | case1 i p buf _ => exact ⟨fun _ _ => rfl, .inr ⟨i, p, Nat.le_refl p, rfl⟩⟩
  | case2 i p buf _ _ => exact ⟨fun _ _ => rfl, .inr ⟨i + 1, p, Nat.le_refl p, rfl⟩⟩
  | case3 => contradiction
  | case4 i p buf _ _ _ hfull =>
      exact ⟨fun _ _ => rfl, .inl (hp.resolve_left (Nat.not_le_of_lt hfull))⟩
  | case5 => contradiction
  | case6 i p buf _ _ _ hroom _ _ ih => exact hround buf _ p (ih (hnext buf _ p hroom))
  | case7 i p buf _ _ _ hroom _ _ ih => exact hround buf _ p (ih (hnext buf _ p hroom))

end Loop

/-! ## Bounds and contents -/

/-- A string in memory. -/
def stringAt (v : CStr) (past : Nat → Byte) : Nat → Byte := pointer (v.bytes ++ [0]) past

/-- Nothing is written outside of the `n` bytes; and where a string is returned, they hold
the decoded bytes padded with zeros. -/
def Sound (sep : Option CStr) (v : CStr) (n : Nat) (r : Got) : Prop :=
  (∀ j ∈ r.buf.writes, j < n) ∧
    (r.val ≠ none → r.len ≤ n ∧ ∃ bytes, decoded sep v = some bytes ∧ r.len = bytes.length ∧
      ∀ j < n, r.buf.bytes j = bytes.getD j 0)

/-- The text behind the prefix, if there is one. -/
def payload (v : CStr) : List Byte := if isHex v.bytes then v.bytes.drop 2 else v.bytes

/-- The string has no more items than there is room, no backslash at its end escapes the
terminating NUL, and no separator is a digit of a pair that is taken. -/
def Fits (sep : Option CStr) (v : CStr) (n : Nat) : Prop :=
  (items sep (isHex v.bytes) (payload v)).1.length ≤ n ∧
    match (items sep (isHex v.bytes) (payload v)).2 with
    | .stop => isHex v.bytes = true → (pairs sep (payload v)).any (separator sep) = false
    | .bad => True
    | .backslash => False

theorem hexPrefix_stringAt (v : CStr) (past : Nat → Byte) :
    hexPrefix (stringAt v past) = isHex v.bytes := by
  rw [isHex, stringAt]
  generalize v.bytes = bytes
  match bytes with
  | [] => rfl
  | [_] => rfl
  | _ :: _ :: _ => rfl

theorem holds_stringAt (v : CStr) (past : Nat → Byte) :
    Holds (stringAt v past) (if isHex v.bytes then 2 else 0) (payload v) := by
  have hall : Holds (stringAt v past) 0 v.bytes :=
    ⟨v.noNul, past, fun j => by rw [Nat.zero_add]; rfl⟩
  rw [payload]
  split
  · next hhex =>
      generalize v.bytes = bytes at hall hhex
      match bytes with
      | [] => cases hhex
      | [c] =>
          rw [isHex, hexPrefix, Bool.and_eq_true] at hhex
          exact absurd hhex.2 (show ¬decide (tolower 0 = 120) = true by decide)
      | c :: d :: bytes => exact hall.cons.2.2.cons.2.2
  · exact hall

/-- The buffer after the decoded bytes and the padding. -/
theorem padded (buf : Nat → Byte) {bs : List Byte} {n : Nat} (h : bs.length ≤ n) :
    let b := Buffer.store ⟨buf, []⟩ 0 bs
    let b := if bs.length < n then b.memset bs.length 0 (n - bs.length) else b
    (∀ j ∈ b.writes, j < n) ∧ ∀ j < n, b.bytes j = bs.getD j 0 := by
  have hstored (j : Nat) (hj : j < bs.length) :
      (Buffer.store ⟨buf, []⟩ 0 bs).bytes j = bs.getD j 0 := by
    rw [Buffer.store_bytes, if_pos (by omega), Nat.sub_zero]
  have hwritten (j : Nat) (hj : j ∈ (Buffer.store ⟨buf, []⟩ 0 bs).writes) : j < bs.length := by
    rcases Buffer.mem_store_writes.1 hj with hj | hj
    · omega
    · cases hj
  simp only
  split
  · next hlt =>
      refine ⟨fun j hj => ?_, fun j hj => ?_⟩
      · rw [Buffer.memset, Buffer.mem_store_writes, List.length_replicate] at hj
        rcases hj with hj | hj
        · omega
        · exact Nat.lt_of_lt_of_le (hwritten j hj) h
      · rw [Buffer.memset, Buffer.store_bytes, List.length_replicate]
        split
        · next hin => simp [List.getD_eq_getElem?_getD, List.getElem?_eq_none hin.1]
        · exact hstored j (by omega)
  · next hge =>
      refine ⟨fun j hj => Nat.lt_of_lt_of_le (hwritten j hj) h, fun j hj => ?_⟩
      exact hstored j (Nat.lt_of_lt_of_le hj (Nat.le_of_not_lt hge))

section Sound

variable {sep : Option CStr} {v : CStr} {past buf : Nat → Byte} {n : Nat} {bs : List Byte} {e : Behind}

theorem getString_of_ok {i len : Nat} {b : Buffer}
    (h : getStringLoop (stringAt v past) sep (isHex v.bytes) n (if isHex v.bytes then 2 else 0) 0
      ⟨buf, []⟩ = (.ok (i, len), b)) :
    getString (stringAt v past) sep ⟨buf, []⟩ n =
      ⟨some i, len, none, if len < n then b.memset len 0 (n - len) else b⟩ := by
  simp only [getString, hexPrefix_stringAt, h]

theorem getString_of_error {warning : String} {b : Buffer}
    (h : getStringLoop (stringAt v past) sep (isHex v.bytes) n (if isHex v.bytes then 2 else 0) 0
      ⟨buf, []⟩ = (.error warning, b)) :
    getString (stringAt v past) sep ⟨buf, []⟩ n = ⟨none, n, some warning, b⟩ := by
  simp only [getString, hexPrefix_stringAt, h]

theorem decoded_eq (hitems : items sep (isHex v.bytes) (payload v) = (bs, e))
    (he : e ≠ .backslash) :
    decoded sep v =
      if e = .bad ∨ isHex v.bytes = true ∧ (pairs sep (payload v)).any (separator sep) = true then
        none
      else some bs := by
  rw [decoded, payload] at *
  cases hhex : isHex v.bytes with
  | true =>
      rw [hhex, if_pos rfl] at hitems
      simp only [if_true, true_and]
      rw [hexBytes_eq, hitems]
  | false =>
      rw [hhex, if_neg Bool.false_ne_true] at hitems
      have hplain := @unescaped_eq sep v.bytes
      have hbad := @items_ne_bad sep v.bytes
      rw [hitems, if_neg he, List.append_nil] at hplain
      rw [hitems] at hbad
      simp [hplain, hbad]

/-- Bytes behind the buffer are written if there are more items than room. -/
theorem not_sound_of_mem {r : Got} (h : n ∈ r.buf.writes) : ¬Sound sep v n r :=
  fun hsound => Nat.lt_irrefl n (hsound.1 n h)

/-- The items end where they should. -/
theorem sound_of_stop (hitems : items sep (isHex v.bytes) (payload v) = (bs, .stop))
    (hlen : bs.length ≤ n) {i : Nat} (h : getStringLoop (stringAt v past) sep (isHex v.bytes) n
      (if isHex v.bytes then 2 else 0) 0 ⟨buf, []⟩ =
        (.ok (i, bs.length), Buffer.store ⟨buf, []⟩ 0 bs)) :
    Sound sep v n (getString (stringAt v past) sep ⟨buf, []⟩ n) ↔
      (isHex v.bytes = true → (pairs sep (payload v)).any (separator sep) = false) := by
  obtain ⟨hwrites, hbytes⟩ := padded buf hlen
  rw [getString_of_ok h, Sound, decoded_eq hitems nofun]
  constructor
  · rintro ⟨-, hdecoded⟩ hhex
    obtain ⟨-, bytes, hsome, -⟩ := hdecoded (by simp)
    by_contra hany
    rw [if_pos (.inr ⟨hhex, Bool.eq_true_of_not_eq_false hany⟩)] at hsome
    cases hsome
  · intro hnone
    refine ⟨hwrites, fun _ => ⟨hlen, bs, if_neg ?_, rfl, hbytes⟩⟩
    rintro (hbad | ⟨hhex, hany⟩)
    · cases hbad
    · rw [hnone hhex] at hany
      cases hany

/-- A backslash at the end of the string: the NUL is stored, and the loop goes on behind
it. -/
theorem not_sound_of_backslash (hhex : isHex v.bytes = false)
    (hitems : items sep false v.bytes = (bs, .backslash)) (hlen : bs.length ≤ n) {i : Nat}
    (h : getStringLoop (stringAt v past) sep false n 0 0 ⟨buf, []⟩ =
      getStringLoop (stringAt v past) sep false n i (bs.length + 1)
        ((Buffer.store ⟨buf, []⟩ 0 bs).write bs.length 0)) :
    ¬Sound sep v n (getString (stringAt v past) sep ⟨buf, []⟩ n) := by
  set b := (Buffer.store ⟨buf, []⟩ 0 bs).write bs.length 0 with hb
  have hroom : bs.length + 1 ≤ n ∨ n ∈ b.writes := by
    rcases Nat.lt_or_eq_of_le hlen with hlt | heq
    · exact .inl hlt
    · exact .inr (heq ▸ List.mem_cons_self)
  obtain ⟨hbelow, hend⟩ := @loop_writes (stringAt v past) sep n i (bs.length + 1) b hroom
  have hloop : getStringLoop (stringAt v past) sep (isHex v.bytes) n
      (if isHex v.bytes then 2 else 0) 0 ⟨buf, []⟩ =
        getStringLoop (stringAt v past) sep false n i (bs.length + 1) b := by
    rw [hhex]
    exact h
  generalize getStringLoop (stringAt v past) sep false n i (bs.length + 1) b = r at *
  obtain ⟨r, b'⟩ := r
  rcases hend with hmem | ⟨i', q, hq, rfl⟩
  · refine not_sound_of_mem ?_
    cases r with
    | error warning =>
        rw [getString_of_error hloop]
        exact hmem
    | ok r =>
        rw [getString_of_ok hloop]
        simp only
        split
        · exact Buffer.mem_store_writes.2 (.inr hmem)
        · exact hmem
  · rintro ⟨-, hdecoded⟩
    rw [getString_of_ok hloop] at hdecoded
    obtain ⟨hle, bytes, hbytes, hlen', hbuf⟩ := hdecoded (by simp)
    have hplain := @unescaped_eq sep v.bytes
    rw [hitems, if_pos rfl] at hplain
    rw [decoded, hhex, if_neg Bool.false_ne_true, hplain, Option.some_inj] at hbytes
    have hlt : bs.length < n := Nat.lt_of_lt_of_le hq hle
    -- The byte at the backslash is the NUL, and neither the loop nor `memset` is below it.
    have hnul : b'.bytes bs.length = 0 := by
      rw [hbelow bs.length (Nat.lt_succ_self _), hb]
      exact Function.update_self ..
    have hkept : (if q < n then b'.memset q 0 (n - q) else b').bytes bs.length = 0 := by
      split
      · rw [Buffer.memset, Buffer.store_bytes, if_neg (by omega), hnul]
      · exact hnul
    have hslash := hbuf bs.length hlt
    rw [hkept, ← hbytes] at hslash
    simp at hslash

theorem sound_iff_fits :
    Sound sep v n (getString (stringAt v past) sep ⟨buf, []⟩ n) ↔ Fits sep v n := by
  obtain ⟨⟨bs, e⟩, hitems⟩ : ∃ r, items sep (isHex v.bytes) (payload v) = r := ⟨_, rfl⟩
  have hrun := @loop_items _ sep _ n _ 0 _ bs e (holds_stringAt v past) hitems (Nat.zero_le _) ⟨buf, []⟩
  rw [Nat.zero_add, Nat.sub_zero] at hrun
  rw [Fits, hitems]
  split at hrun
  · next hroom =>
      obtain ⟨i, rest, hrest, hrestItems, hloop⟩ := hrun
      rcases loop_end hrest hrestItems (Buffer.store ⟨buf, []⟩ 0 bs) with
        ⟨rfl, i', hend⟩ | ⟨rfl, warning, hend⟩ | ⟨rfl, hend⟩
      · rw [hend] at hloop
        by_cases hlen : bs.length ≤ n
        · rw [sound_of_stop hitems hlen hloop]
          exact (and_iff_right hlen).symm
        · refine iff_of_false (not_sound_of_mem ?_) (fun hfits => hlen hfits.1)
          rw [getString_of_ok hloop]
          simp only
          rw [if_neg (by omega)]
          exact Buffer.mem_store_writes.2 (.inl (by omega))
      · rw [hend] at hloop
        rw [getString_of_error hloop]
        constructor
        · intro hsound
          refine ⟨Nat.le_of_not_lt fun (hlt : n < bs.length) => ?_, trivial⟩
          exact not_sound_of_mem (Buffer.mem_store_writes.2 (.inl (by omega))) hsound
        · rintro ⟨hlen, -⟩
          refine ⟨fun j hj => ?_, fun hne => absurd rfl hne⟩
          rcases Buffer.mem_store_writes.1 hj with hj | hj
          · simp only at hlen
            omega
          · cases hj
      · have hhex : isHex v.bytes = false := by
          rw [Bool.eq_false_iff]
          intro hhex
          rw [hhex] at hitems
          exact items_ne_backslash (.inl rfl) _ (congrArg Prod.snd hitems)
        refine iff_of_false ?_ (fun hfits => hfits.2)
        rw [hend, hhex] at hloop
        rw [hhex, payload, hhex] at hitems
        by_cases hlen : bs.length ≤ n
        · rw [if_neg (Nat.not_lt.2 hlen)] at hloop
          exact not_sound_of_backslash hhex hitems hlen hloop
        · refine not_sound_of_mem ?_
          rw [if_pos (Nat.lt_of_not_le hlen)] at hloop
          rw [getString_of_error (by rw [hhex]; exact hloop)]
          exact Buffer.mem_store_writes.2 (.inl (by omega))
  · next hfull =>
      obtain ⟨warning, hloop⟩ := hrun
      refine iff_of_false (not_sound_of_mem ?_) (fun hfits => hfull (Nat.le_succ_of_le hfits.1))
      rw [getString_of_error hloop]
      refine Buffer.mem_store_writes.2 (.inl ?_)
      rw [List.length_take]
      omega

/-- Without separators the call returns as long as the last byte is at most one behind the
buffer. -/
theorem getString_returned (hitems : items none (isHex v.bytes) (payload v) = (bs, e)) :
    (getString (stringAt v past) none ⟨buf, []⟩ n).val = none ∧
        (e = .bad ∨ n + 1 < bs.length) ∨
      (∃ i, (getString (stringAt v past) none ⟨buf, []⟩ n).val = some i) ∧ e = .stop ∧
        bs.length ≤ n + 1 ∧ (getString (stringAt v past) none ⟨buf, []⟩ n).len = bs.length := by
  have hrun := @loop_items _ none _ n _ 0 _ bs e (holds_stringAt v past) hitems (Nat.zero_le _)
    ⟨buf, []⟩
  rw [Nat.zero_add] at hrun
  split at hrun
  · next hroom =>
      obtain ⟨i, rest, hrest, hrestItems, hloop⟩ := hrun
      rcases @loop_end _ none _ n i bs.length _ e hrest hrestItems (Buffer.store ⟨buf, []⟩ 0 bs) with
        ⟨rfl, i', hend⟩ | ⟨rfl, warning, hend⟩ | ⟨rfl, -⟩
      · rw [hend] at hloop
        rw [getString_of_ok hloop]
        exact .inr ⟨⟨_, rfl⟩, rfl, hroom, rfl⟩
      · rw [hend] at hloop
        rw [getString_of_error hloop]
        exact .inl ⟨rfl, .inl rfl⟩
      · exact absurd (congrArg Prod.snd hitems) (items_ne_backslash (.inr rfl) _)
  · next hfull =>
      obtain ⟨warning, hloop⟩ := hrun
      rw [getString_of_error hloop]
      exact .inl ⟨rfl, .inr (Nat.lt_of_not_le hfull)⟩

end Sound

/-- The ioctl carries an id of at most 32 bytes. -/
def IdFits (q : Ioctl) : Prop :=
  ∀ len bytes, q.payload = .data (len :: bytes) → len.toNat ≤ nwidLen

theorem submitNwid_keeps (name : CStr) (len : Nat) (nwid : Nat → Byte) :
    (submitNwid name len nwid).Keeps IdFits (fun _ => True) ↔ (UInt8.ofNat len).toNat ≤ nwidLen := by
  constructor
  · intro hkeeps
    exact hkeeps.1 (UInt8.ofNat len) (memcpy nwidLen nwid) rfl
  · intro hlen
    refine ⟨fun len' bytes hdata => ?_, fun _ => trivial⟩
    cases hdata
    exact hlen

theorem setifnwid_keeps_iff (name v past d nwid) :
    (setifnwid name (stringAt v past) d nwid).Keeps IdFits (fun _ => True) ↔
      (d = 0 → ∀ bytes, decoded none v = some bytes → bytes.length ≠ nwidLen + 1) := by
  obtain ⟨⟨bs, e⟩, hitems⟩ : ∃ r, items none (isHex v.bytes) (payload v) = r := ⟨_, rfl⟩
  have hnone (text : List Byte) : text.any (separator none) = false := by
    simp [separator]
  have hdecoded : decoded none v = if e = .bad then none else some bs := by
    have he : e ≠ .backslash := by
      have hne := @items_ne_backslash none (isHex v.bytes) (.inr rfl) (payload v)
      rwa [hitems] at hne
    rw [decoded_eq hitems he, hnone]
    simp
  rw [setifnwid, hdecoded]
  by_cases hd : d = 0
  · rw [if_neg (not_not.2 hd)]
    simp only [hd, true_implies]
    rcases @getString_returned v past nwid nwidLen bs e hitems with
      ⟨hval, hwhy⟩ | ⟨⟨i, hval⟩, rfl, hlen, hgot⟩
    · rw [hval]
      refine iff_of_true trivial ?_
      rintro bytes hbytes
      split at hbytes
      · cases hbytes
      · next hne =>
          cases hbytes
          exact Nat.ne_of_gt (hwhy.resolve_left hne)
    · rw [hval]
      simp only [submitNwid_keeps, hgot]
      rw [UInt8.toNat_ofNat_of_lt' (Nat.lt_of_le_of_lt hlen (by decide))]
      simp only [reduceCtorEq, if_false, Option.some_inj, forall_eq']
      omega
  · rw [if_pos hd]
    exact iff_of_true ((submitNwid_keeps ..).2 (by decide)) fun hzero => absurd hzero hd

/-- `get_string` keeps to its buffer and decodes the string exactly if it fits; and
`setifnwid` submits ids of at most 32 bytes except for one of 33. -/
theorem getString_sound_iff (v : CStr) (past : Nat → Byte) :
    (∀ sep n buf, Sound sep v n (getString (stringAt v past) sep ⟨buf, []⟩ n) ↔ Fits sep v n) ∧
    ∀ name d nwid, (setifnwid name (stringAt v past) d nwid).Keeps IdFits (fun _ => True) ↔
      (d = 0 → ∀ bytes, decoded none v = some bytes → bytes.length ≠ nwidLen + 1) :=
  ⟨fun _ _ _ => sound_iff_fits, fun name => setifnwid_keeps_iff name v past⟩

/-- An id of 33 characters is written one byte behind the buffer and submitted. -/
theorem getString_behind_buffer :
    ∃ v : CStr, decoded none v = some (List.replicate 33 97) ∧
      nwidLen ∈ (getString (stringAt v fun _ => 0) none ⟨fun _ => 0, []⟩ nwidLen).buf.writes ∧
      ((setifnwid (.lit "ath0") (stringAt v fun _ => 0) 0 fun _ => 0).run []).1 =
        [⟨.siocs80211nwid, .lit "ath0", .data (33 :: List.replicate 32 97)⟩] := by
  refine ⟨⟨List.replicate 33 97, by decide⟩, ?_, ?_, ?_⟩
  · decide +kernel
  · decide +kernel
  · decide +kernel

/-- The key of `setifwpakey` has its length checked before. -/
theorem fits_of_wpakey {v : CStr} (hlen : v.length = 2 + 2 * 32) (hhex : isHex v.bytes = true) :
    Fits none v 32 := by
  have hle := @two_mul_length_items_le none (v.bytes.drop 2)
  rw [List.length_drop] at hle
  rw [CStr.length] at hlen
  rw [Fits, payload, hhex, if_pos rfl]
  refine ⟨by omega, ?_⟩
  split
  · exact fun _ => by simp [separator]
  · trivial
  · next hslash => exact items_ne_backslash (.inl rfl) _ hslash

end Ifconfigd.Gate
