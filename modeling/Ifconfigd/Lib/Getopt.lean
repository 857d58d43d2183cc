import Ifconfigd.Lib.Bytes

/-!
# Options of a command line

`getopt` of the C library, as a program uses it that takes its options one by one until
there are no more, and gives up at the first one it does not know. The arguments are
those from `optind` on, and `place` is what is left of the argument being scanned.

An option written as a word of its own, with its argument in the word after it, is read
back: `readOptions_words`.
-/

namespace CLib.Getopt

/-- Whether an option takes an argument. -/
inductive Kind
  | plain
  | argument
  | optional
  deriving DecidableEq, Repr

/-- How the option string describes a letter: `strchr(options, optchar)` and the colons
behind it. -/
def kind (optstring : List Byte) (c : Byte) : Option Kind :=
  match optstring.dropWhile (· ≠ c) with
  | [] => none
  | _ :: 58 :: 58 :: _ => some .optional
  | _ :: 58 :: _ => some .argument
  | _ :: _ => some .plain

/-- The state between two calls. -/
structure Scan where
  place : List Byte
  args : List CStr

/-- What a call returns: -1, an option with `optarg`, or a question mark for a letter. -/
inductive Answer
  | done
  | option (c : Byte) (optarg : Option CStr)
  | bad (c : Byte)

/-- The state when the letter before `place` was the last one, or not. -/
def Scan.next (place : List Byte) (args : List CStr) : Scan :=
  ⟨place, if place = [] then args.tail else args⟩

/-- From the letter on. -/
def letter (optstring : List Byte) (c : Byte) (place : List Byte) (args : List CStr) :
    Answer × Scan :=
  match if c = 58 ∨ (c = 45 ∧ place ≠ []) then none else kind optstring c with
  | none => if c = 45 ∧ place = [] then (.done, ⟨[], args⟩) else (.bad c, .next place args)
  | some .plain => (.option c none, .next place args)
  | some takes =>
      if place ≠ [] then (.option c (some (.read place)), ⟨[], args.tail⟩)
      else if takes = .optional then (.option c none, ⟨[], args.tail⟩)
      else
        match args.tail with
        | [] => (.bad c, ⟨[], []⟩)
        | a :: rest => (.option c (some a), ⟨[], rest⟩)

/-- `getopt`. -/
def getopt (optstring : List Byte) (s : Scan) : Answer × Scan :=
  match s.place with
  | c :: place => letter optstring c place s.args
  | [] =>
      match s.args with
      | [] => (.done, s)
      | a :: rest =>
          match a.bytes with
          | 45 :: c :: place =>
              if c = 45 ∧ place = [] then (.done, ⟨[], rest⟩) else letter optstring c place s.args
          | [45] => if 45 ∈ optstring then letter optstring 45 [] s.args else (.done, s)
          | _ => (.done, s)

/-! ## The calls end -/

/-- The letters and words still to be scanned. -/
def size (args : List CStr) : Nat := (args.map fun a => a.length + 1).sum

def Scan.size (s : Scan) : Nat :=
  if s.place = [] then Getopt.size s.args else s.place.length + Getopt.size s.args.tail

theorem size_cons (a : CStr) (args : List CStr) : size (a :: args) = a.length + 1 + size args := by
  simp [size]

theorem size_tail_le (args : List CStr) : size args.tail ≤ size args := by
  cases args with
  | nil => exact le_rfl
  | cons a args => exact (Nat.le_add_left _ _).trans (size_cons a args).ge

theorem size_next (place : List Byte) (args : List CStr) :
    (Scan.next place args).size = place.length + size args.tail := by
  unfold Scan.next Scan.size
  split_ifs with h
  · simp [h]
  · rfl

theorem size_letter (optstring : List Byte) (c : Byte) (place : List Byte) (args : List CStr)
    (hdone : (letter optstring c place args).1 ≠ .done) :
    (letter optstring c place args).2.size ≤ place.length + size args.tail := by
  have htail : (⟨[], args.tail⟩ : Scan).size ≤ place.length + size args.tail :=
    Nat.le_add_left _ _
  revert hdone
  unfold letter
  split
  · split_ifs
    · exact fun hdone => absurd rfl hdone
    · exact fun _ => (size_next place args).le
  · exact fun _ => (size_next place args).le
  · split_ifs
    · exact fun _ => htail
    · exact fun _ => htail
    · split
      · exact fun _ => Nat.zero_le _
      · next a rest heq =>
          intro _
          rw [heq, size_cons]
          change size rest ≤ _
          omega

/-- A call that returns an option has scanned something. -/
theorem size_getopt (optstring : List Byte) (s : Scan)
    (hdone : (getopt optstring s).1 ≠ .done) : (getopt optstring s).2.size < s.size := by
  obtain ⟨place, args⟩ := s
  revert hdone
  unfold getopt
  cases place with
  | cons c place =>
      intro hdone
      refine (size_letter optstring c place args hdone).trans_lt ?_
      simp [Scan.size]
  | nil =>
      cases args with
      | nil => exact fun hdone => absurd rfl hdone
      | cons a rest =>
          dsimp only
          split
          · next c place hbytes =>
              split_ifs
              · exact fun hdone => absurd rfl hdone
              · intro hdone
                refine (size_letter optstring c place _ hdone).trans_lt ?_
                have hlen : a.length = place.length + 2 := congrArg List.length hbytes
                change place.length + size rest < size (a :: rest)
                rw [size_cons]
                omega
          · split_ifs
            · intro hdone
              refine (size_letter optstring 45 [] _ hdone).trans_lt ?_
              change 0 + size rest < size (a :: rest)
              rw [size_cons]
              omega
            · exact fun hdone => absurd rfl hdone
          · exact fun hdone => absurd rfl hdone

/-- The loop `while ((ch = getopt(...)) != -1)` of a program that leaves at a letter it
does not know: the options and the operands. -/
def readOptions (optstring : List Byte) (s : Scan) :
    Except Byte (List (Byte × Option CStr) × List CStr) :=
  match _h : getopt optstring s with
  | (.done, s') => .ok ([], s'.args)
  | (.bad c, _) => .error c
  | (.option c optarg, s') =>
      (readOptions optstring s').map fun r => ((c, optarg) :: r.1, r.2)
termination_by s.size
decreasing_by
  have hless := size_getopt optstring s (by rw [_h]; exact Answer.noConfusion)
  rw [_h] at hless
  exact hless

variable {optstring : List Byte} {s s' : Scan}

theorem readOptions_done (h : getopt optstring s = (.done, s')) :
    readOptions optstring s = .ok ([], s'.args) := by
  rw [readOptions]
  split <;> simp_all

theorem readOptions_bad {c : Byte} (h : getopt optstring s = (.bad c, s')) :
    readOptions optstring s = .error c := by
  rw [readOptions]
  split <;> simp_all

theorem readOptions_option {c : Byte} {optarg : Option CStr}
    (h : getopt optstring s = (.option c optarg, s')) :
    readOptions optstring s =
      (readOptions optstring s').map fun r => ((c, optarg) :: r.1, r.2) := by
  rw [readOptions]
  split <;> simp_all

/-! ## Reading back what was written -/

/-- The operands begin with a word that is none of options. -/
def Operands (args : List CStr) : Prop := ∀ a ∈ args.head?, a.bytes.head? ≠ some 45

theorem readOptions_operands {args : List CStr} (h : Operands args) :
    readOptions optstring ⟨[], args⟩ = .ok ([], args) := by
  apply @readOptions_done _ _ ⟨[], args⟩
  unfold getopt
  cases args with
  | nil => rfl
  | cons a rest =>
      have hfirst : a.bytes.head? ≠ some 45 := h a rfl
      dsimp only
      split
      · next hbytes => simp [hbytes] at hfirst
      · next hbytes => simp [hbytes] at hfirst
      · rfl

/-- The words for an option: its letter behind a dash, then its argument. -/
def words : Byte × Option CStr → List CStr
  | (c, none) => [.read [45, c]]
  | (c, some a) => [.read [45, c], a]

/-- The option string lets an option be written with this argument. -/
structure Allowed (optstring : List Byte) (o : Byte × Option CStr) : Prop where
  letter : o.1 ∉ [0, 45, 58]
  kind : kind optstring o.1 = some (if o.2.isSome then .argument else .plain)

theorem dash_bytes {c : Byte} (h : c ≠ 0) : (CStr.read [45, c]).bytes = [45, c] :=
  CStr.read_of_noNul (by simp [Ne.symm h])

theorem getopt_words {o : Byte × Option CStr} (h : Allowed optstring o) (args : List CStr) :
    getopt optstring ⟨[], words o ++ args⟩ = (.option o.1 o.2, ⟨[], args⟩) := by
  obtain ⟨c, optarg⟩ := o
  have hletter := h.letter
  simp only [List.mem_cons, List.not_mem_nil, or_false, not_or] at hletter
  obtain ⟨hnul, hdash, hcolon⟩ := hletter
  have hkind := h.kind
  cases optarg with
  | none =>
      simp only [Option.isSome_none, Bool.false_eq_true, ↓reduceIte] at hkind
      simp [getopt, words, dash_bytes hnul, letter, hdash, hcolon, hkind, Scan.next]
  | some a =>
      simp only [Option.isSome_some, ↓reduceIte] at hkind
      simp [getopt, words, dash_bytes hnul, letter, hdash, hcolon, hkind]

/-- Options written as words and followed by operands are read as these options and
operands. -/
theorem readOptions_words {opts : List (Byte × Option CStr)}
    (hopts : ∀ o ∈ opts, Allowed optstring o) {args : List CStr} (hargs : Operands args) :
    readOptions optstring ⟨[], opts.flatMap words ++ args⟩ = .ok (opts, args) := by
  induction opts with
  | nil => exact readOptions_operands hargs
  | cons o opts ih =>
      have hfirst : Allowed optstring o := hopts o List.mem_cons_self
      have hrest := ih fun o' ho' => hopts o' (List.mem_cons_of_mem o ho')
      rw [List.flatMap_cons, List.append_assoc, readOptions_option (getopt_words hfirst _), hrest]
      rfl

end CLib.Getopt
