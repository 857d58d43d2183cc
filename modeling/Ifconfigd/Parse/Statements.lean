import Ifconfigd.Lib.Yacc.Moves
import Ifconfigd.Parse.Invariants
import Ifconfigd.Parse.Print

/-!
# The parser on printed statements

How the parser gets over the lines of a printed configuration: which states it goes
through, found by evaluating its tables, and which actions it runs.

After the newline of a statement the parser is in one of a few places. Inside a block
there are two, before and after the first statement, since the first one is reduced by a
rule of its own.
-/

namespace Ifconfigd.Parse

open CLib Yacc

/-! ## The client as a source of tokens -/

/-- The actions that leave the lexer alone, as far as they succeed. -/
def act (fs : FileSystem) (n : Nat) (vs : List Val) (y : Yy) : Option (Val × Yy) :=
  if n ∈ [7, 15, 18] then none
  else
    match action fs n vs (defaultVal n vs) y with
    | .ok v y' => some (v, y')
    | _ => none

theorem act_of_action {fs : FileSystem} {n : Nat} {vs : List Val} {y y' : Yy} {v : Val}
    (hn : n ∉ [7, 15, 18]) (h : action fs n vs (defaultVal n vs) y = .ok v y') :
    act fs n vs y = some (v, y') := by
  rw [act, if_neg hn, h]

/-- A lexer to stand in for one that plays no role. -/
def noLex : Lex := (Globals.initial []).yy.lex

theorem action_of_act {fs : FileSystem} {n : Nat} {vs : List Val} {y s : Yy} {v : Val}
    (h : act fs n vs (y.withLex noLex) = some (v, s)) :
    action fs n vs (defaultVal n vs) y = .ok v (s.withLex y.lex) ∧ s.lex = noLex := by
  rw [act] at h
  split at h
  · cases h
  · next hn =>
      split at h
      · next w y' haction =>
          cases h
          have halike := action_alike noLex y.lex fs hn vs (defaultVal n vs) y
          rw [haction, show y.withLex y.lex = y from rfl] at halike
          cases hother : action fs n vs (defaultVal n vs) y <;> rw [hother] at halike
          all_goals cases halike
          exact ⟨congrArg _ ‹_›, ‹_›⟩
      · cases h

/-- The parser reads the tokens that the lexer returns, and its actions work on the rest
of the globals. -/
def source (fs : FileSystem) : Source (client fs) Yy where
  sem y := y.withLex noLex
  act := act fs
  reads y as := Lexes y.lex as
  lex h := ⟨h.1, h.2.1, h.2.2, rfl⟩
  action := by
    intro n vs y v s as hact hreads
    obtain ⟨haction, hlex⟩ := action_of_act hact
    refine ⟨s.withLex y.lex, haction, ?_, hreads, rfl⟩
    rw [← hlex]
    rfl

/-- The rules without an action. -/
def silentRules : List Nat :=
  [1, 2, 3, 4, 5, 6, 8, 9, 10, 11, 12, 17, 22, 23, 24, 25, 26, 29, 30, 31, 32, 33, 34, 38, 44, 45,
    46, 47, 48, 49, 57, 58, 59, 63, 64, 65, 66, 67, 68, 69, 70, 75, 76, 77, 78, 79, 80, 81, 82, 84]

theorem silent_of_mem {fs : FileSystem} {n : Nat} (hn : n ∈ silentRules) : Silent (act fs) n := by
  intro vs y
  have hother : ∀ n ∈ silentRules, n ∉ [7, 15, 18] := by decide
  have haction : action fs n vs (defaultVal n vs) y = .ok (defaultVal n vs) y := by
    unfold action
    split
    all_goals first
      | rfl
      | exact absurd hn (by decide)
  exact ⟨_, act_of_action (hother n hn) haction⟩

/-! ## Blocks of options -/

/-- The states of the parser in a block, and the rules it uses there: the states on the
stack from the keyword to the brace, top first; those after the empty lines, after a list
of options and after one more option; the rules that make a list of the first option and
add another one; and the options, each with the kind of its argument and the rules it is
reduced by. -/
structure Block where
  entry : List Nat
  optnl : Nat
  list : Nat
  option : Nat
  single : List Nat
  append : Nat
  options : List (Token × Token × List Nat)
  below : List (List Nat)

namespace Block

variable (b : Block) (below : List Nat)

/-- The place before the first option. -/
def first : Control := ⟨false, 26 :: b.entry ++ below⟩

/-- The place after an option. -/
def later : Control := ⟨false, 40 :: b.option :: b.list :: b.optnl :: b.entry ++ below⟩

def places : List Control := [b.first below, b.later below]

end Block

/-- The stack in a network block, up to the brace. -/
def inNetwork : List Nat := [24, 23, 21, 11, 1]

def staticOptions (n : Nat) : List (Token × Token × List Nat) :=
  [(.domainname, .string, [85, n]), (.domainnameservers, .string, [86, n]),
    (.inet, .string, [87, n]), (.netmask, .string, [88, n])]

def etherBlock : Block where
  entry := [45, 41, 37, 31]
  optnl := 48
  list := 50
  option := 83
  single := [33, 34]
  append := 32
  options := [(.priority, .number, [35]), (.interface, .string, [36]), (.dhcp, .yes, [13, 37]),
    (.dhcp, .no, [14, 37]), (.lladdr, .string, [39]), (.runup, .string, [40]),
    (.rundown, .string, [41])] ++ staticOptions 38
  below := [25 :: inNetwork, 27 :: 25 :: inNetwork]

def wlanBlock : Block where
  entry := [47, 42, 38, 32]
  optnl := 49
  list := 64
  option := 97
  single := [48, 49]
  append := 47
  options := [(.priority, .number, [50]), (.interface, .string, [51]), (.nwid, .string, [52]),
    (.channel, .number, [53]), (.bssid, .string, [54]), (.minsignal, .number, [55]),
    (.dhcp, .yes, [13, 56]), (.dhcp, .no, [14, 56]), (.runup, .string, [60]),
    (.rundown, .string, [61]), (.lladdr, .string, [62])] ++ staticOptions 57
  below := [25 :: inNetwork, 27 :: 25 :: inNetwork]

/-- The stacks below the keyword of a block inside a wireless section. -/
def inWireless : List (List Nat) :=
  wlanBlock.below.flatMap fun below =>
    [wlanBlock.optnl :: wlanBlock.entry ++ below,
      wlanBlock.list :: wlanBlock.optnl :: wlanBlock.entry ++ below]

def wpaBlock : Block where
  entry := [113, 108, 80]
  optnl := 116
  list := 118
  option := 130
  single := [69, 70]
  append := 68
  options := [(.wpakey, .string, [71]), (.wpagroupcipher, .string, [72]), (.wpaakms, .string, [73]),
    (.wpaciphers, .string, [74])]
  below := inWireless

def wepBlock : Block where
  entry := [115, 109, 81]
  optnl := 117
  list := 125
  option := 136
  single := [81, 82]
  append := 80
  options := [(.wepkey, .string, [83])]
  below := inWireless

def blocks : List Block := [etherBlock, wlanBlock, wpaBlock, wepBlock]

/-- The rules a block uses between its options. -/
theorem silent_of_block : ∀ b ∈ blocks, ∀ n ∈ [9, 8, 10, b.append] ++ b.single,
    n ∈ silentRules := by
  decide +kernel

theorem drive_option : ∀ b ∈ blocks, ∀ below ∈ b.below, ∀ o ∈ b.options,
    drive tables 20 (b.first below) [o.1, o.2.1, newline] =
        some (script [9, 8] [[], o.2.2 ++ b.single, []], b.later below) ∧
      drive tables 20 (b.later below) [o.1, o.2.1, newline] =
        some (script [9, 10, b.append] [[], o.2.2, []], b.later below) := by
  decide +kernel

section Options

variable {fs : FileSystem} {b : Block} {below : List Nat}

/-- An option whose rules take `y` to `y'`. -/
theorem over_option (hb : b ∈ blocks) (hbelow : below ∈ b.below) {depth : Nat} {a : Token}
    {arg : Lexeme} {rules : List Nat} (ho : (a, arg.token, rules) ∈ b.options) {y y' : Yy}
    (h : Does tables (act fs) arg.val rules y y') :
    (source fs).Over tables (b.places below) y (stmt depth a arg).tokens y' := by
  obtain ⟨hfirst, hlater⟩ := drive_option b hb below hbelow _ ho
  have hsilent (n : Nat) (hn : n ∈ [9, 8, 10, b.append] ++ b.single) : Silent (act fs) n :=
    silent_of_mem (silent_of_block b hb n hn)
  have hnil {o : Option Val} {y : Yy} : Does tables (act fs) o [] y y := .silent (by simp)
  intro k hk
  refine ⟨b.later below, by simp [Block.places], ?_⟩
  rcases List.mem_pair.1 hk with rfl | rfl
  · refine advances_of_script hfirst (fun n hn => hsilent n (by simp at hn ⊢; tauto)) ?_
    refine .cons hnil (.cons (h.append fun n hn => hsilent n ?_) (.cons hnil .nil))
    exact List.mem_append_right _ hn
  · refine advances_of_script hlater (fun n hn => hsilent n (by simp at hn ⊢; tauto)) ?_
    exact .cons hnil (.cons h (.cons hnil .nil))

end Options

/-! ## Blocks -/

/-- A place where a block may stand: the rules reduced before its keyword, the stack below
it, the rules reduced at its end, and the place after it. -/
structure Entry where
  place : Control
  pre : List Nat
  below : List Nat
  post : List Nat
  after : Control

/-- A kind of block: the tokens of its first line, the rules after each of them, and the
rules after the brace at its end, for an empty block and for one with options. -/
structure Kind where
  block : Block
  opening : List Token
  rules : List (List Nat)
  empty : List Nat
  full : List Nat

/-- The places in a network block: before a section, after the first one, and after
another one. -/
def netEntries : List Entry :=
  let after := ⟨false, 40 :: 35 :: 27 :: 25 :: inNetwork⟩
  [⟨⟨false, 26 :: inNetwork⟩, [9, 8], 25 :: inNetwork, [], ⟨false, 26 :: 28 :: 25 :: inNetwork⟩⟩,
    ⟨⟨false, 26 :: 28 :: 25 :: inNetwork⟩, [9, 8, 23], 27 :: 25 :: inNetwork, [], after⟩,
    ⟨after, [9, 10, 22], 27 :: 25 :: inNetwork, [], after⟩]

/-- The places in a wireless section. -/
def wlanEntries (below : List Nat) : List Entry :=
  let stack := wlanBlock.optnl :: wlanBlock.entry ++ below
  [⟨wlanBlock.first below, [9, 8], stack, wlanBlock.single, wlanBlock.later below⟩,
    ⟨wlanBlock.later below, [9, 10, wlanBlock.append], wlanBlock.list :: stack, [],
      wlanBlock.later below⟩]

def etherKind : Kind :=
  ⟨etherBlock, [.ethernetname, .string, lbrace, newline], [[], [27], [], []], [30, 28, 25],
    [29, 28, 25]⟩

def wlanKind : Kind :=
  ⟨wlanBlock, [.wirelessname, .string, lbrace, newline], [[], [42], [], []], [45, 43, 26],
    [44, 43, 26]⟩

def wpaKind : Kind := ⟨wpaBlock, [.wpa, lbrace, newline], [[63], [], []], [66, 64, 58], [65, 64, 58]⟩

def wepKind : Kind := ⟨wepBlock, [.wep, lbrace, newline], [[75], [], []], [78, 76, 59], [77, 76, 59]⟩

/-- The parser opens and closes a block of kind `d` at the entry `e`. -/
def Fit (d : Kind) (e : Entry) : Prop :=
  d.block ∈ blocks ∧ e.below ∈ d.block.below ∧ (∀ n ∈ e.pre ++ e.post, n ∈ silentRules) ∧
    drive tables 20 e.place d.opening = some (script e.pre d.rules, d.block.first e.below) ∧
    drive tables 20 (d.block.first e.below) [rbrace, newline] =
      some (script [9, 8] [d.empty ++ e.post, []], e.after) ∧
    drive tables 20 (d.block.later e.below) [rbrace, newline] =
      some (script [9, 10, d.block.append] [d.full ++ e.post, []], e.after)

deriving instance DecidableEq for Block

instance (d : Kind) (e : Entry) : Decidable (Fit d e) := inferInstanceAs (Decidable (_ ∧ _))

theorem fit_section : ∀ d ∈ [etherKind, wlanKind], ∀ e ∈ netEntries, Fit d e := by decide +kernel

theorem fit_inner : ∀ d ∈ [wpaKind, wepKind], ∀ below ∈ wlanBlock.below,
    ∀ e ∈ wlanEntries below, Fit d e := by
  decide +kernel

section Blocks

variable {fs : FileSystem}

theorem does_nil {o : Option Val} {y : Yy} : Does tables (act fs) o [] y y := .silent (by simp)

/-- A block: its first line takes `y` to `y₁`, its options `y₁` to `y₂`, and its end `y₂`
to `y₃`. -/
theorem over_block {d : Kind} {E : List Entry} (hE : ∀ e ∈ E, Fit d e)
    (hafter : ∀ e ∈ E, e.after ∈ E.map Entry.place) {y y₁ y₂ y₃ : Yy}
    {opening body : List (Token × Option Val)} (hopening : opening.map Prod.fst = d.opening)
    (hopen : Runs tables (act fs) (opening.map Prod.snd) d.rules y y₁)
    (hbody : ∀ below ∈ d.block.below,
      (source fs).Over tables (d.block.places below) y₁ body y₂)
    (hempty : Does tables (act fs) none d.empty y₂ y₃)
    (hfull : Does tables (act fs) none d.full y₂ y₃) :
    (source fs).Over tables (E.map Entry.place) y
      (opening ++ (body ++ [(rbrace, none), (newline, none)])) y₃ := by
  intro k hk
  obtain ⟨e, he, rfl⟩ := List.mem_map.1 hk
  obtain ⟨hblock, hbelow, hsilent, hstart, hend, hend'⟩ := hE e he
  have hpre (n : Nat) (hn : n ∈ e.pre ++ e.post) : Silent (act fs) n :=
    silent_of_mem (hsilent n hn)
  have hrules (n : Nat) (hn : n ∈ [9, 8, 10, d.block.append]) : Silent (act fs) n :=
    silent_of_mem (silent_of_block _ hblock n (List.mem_append_left _ hn))
  have hadv : (source fs).Advances tables e.place y opening (d.block.first e.below) y₁ :=
    advances_of_script (hopening ▸ hstart) (fun n hn => hpre n (List.mem_append_left _ hn)) hopen
  obtain ⟨k, hk, hadv'⟩ := hbody e.below hbelow (d.block.first e.below) (by simp [Block.places])
  refine ⟨e.after, hafter e he, hadv.trans (hadv'.trans ?_)⟩
  have hpost (n : Nat) (hn : n ∈ e.post) : Silent (act fs) n :=
    hpre n (List.mem_append_right _ hn)
  rcases List.mem_pair.1 hk with rfl | rfl
  · refine advances_of_script hend (fun n hn => hrules n (by simp at hn ⊢; tauto)) ?_
    exact .cons (hempty.append hpost) (.cons does_nil .nil)
  · refine advances_of_script hend' (fun n hn => hrules n (by simp at hn ⊢; tauto)) ?_
    exact .cons (hfull.append hpost) (.cons does_nil .nil)

end Blocks

end Ifconfigd.Parse
