import Ifconfigd.Gate.Globals

/-!
# The interface an ioctl names

`ifconfig_gate` copies its interface's name twice: into `ifr.ifr_name`, with the size of
that field, and into `name`, with `sizeof(iface)`, the size of a pointer. A name that
fills a pointer is cut in the second copy. As long as it is not, the two globals agree
whatever the handlers do, and every ioctl of a call names the interface it was given.
-/

namespace Ifconfigd.Gate

open CLib Dialogue Proc

section Named

/-- The ioctls of a program name the interface `name`, and so does `ifr` after it. -/
abbrev Named (name : CStr) (p : Code Globals) : Prop :=
  p.Keeps (·.name = name) (·.ifrName = name)

variable {world : World} {name : CStr} {g : Globals}

theorem follow_named (choose : List Answer → Nat → Choice) (pieces : List Piece)
    (given : List Answer) (h : g.ifrName = name) :
    Named name (follow choose name pieces given g) := by
  induction pieces generalizing given g with
  | nil => exact h
  | cons p rest ih =>
      unfold follow
      split
      · exact h
      · trivial
      · split
        · exact ih given h
        · exact h
      · split
        · exact keeps_query_bind h fun a => ih _ h
        · exact keeps_query_bind rfl fun a => ih _ rfl
        · exact keeps_query_bind rfl fun a => ih _ h

theorem setifflags_named (value : Int) (h : g.ifrName = name) :
    Named name (setifflags name value g) := by
  refine keeps_query_bind h fun a => ?_
  split
  · trivial
  · refine keeps_query_bind rfl fun b => ?_
    split
    · trivial
    · exact h

theorem setifxflags_named (value : Int) (h : g.ifrName = name) :
    Named name (setifxflags name value g) :=
  keeps_query_bind h fun _ => keeps_query_bind rfl fun _ => h

theorem onMemory_named (f : Memory → Option Memory) (h : g.ifrName = name) :
    Named name (onMemory f g) :=
  keeps_ofOption_bind fun _ _ => h

theorem initCurrentMedia_named (h : g.ifrName = name) :
    Named name (initCurrentMedia name g) := by
  have hgrab : Named name (grabMedia name g) := by
    unfold grabMedia
    split
    · exact h
    · refine keeps_query_bind rfl fun a => ?_
      split
      · trivial
      · exact h
  refine hgrab.bind fun g' hg' => ?_
  split
  · trivial
  · exact hg'

/-- The media commands look up the current media, check what came before and note what
they are given. -/
theorem media_named {α : Type} {stop : Globals → Prop} [DecidablePred stop]
    {value : Globals → Option α} {note : Globals → α → Globals} (h : g.ifrName = name)
    (hnote : ∀ g a, (note g a).ifrName = g.ifrName) :
    Named name (initCurrentMedia name g >>= fun g =>
      if stop g then .exit else ofOption (value g) >>= fun a => pure (note g a)) := by
  refine (initCurrentMedia_named h).bind fun g' hg' => ?_
  split
  · trivial
  · exact keeps_ofOption_bind fun a _ => (hnote g' a).trans hg'

theorem setvlantag_named (val : CStr) (h : g.ifrName = name) :
    Named name (setvlantag world val g) := by
  refine keeps_ofOption_bind fun tag _ => keeps_query_bind h fun a => ?_
  split
  · trivial
  · refine keeps_query_bind h fun b => ?_
    split
    · trivial
    · exact h

theorem setvlandev_named (val : CStr) (h : g.ifrName = name) :
    Named name (setvlandev world val g) := by
  refine keeps_query_bind h fun a => ?_
  split
  · trivial
  · refine keeps_ofOption_bind fun tag _ => keeps_query_bind h fun b => ?_
    split
    · trivial
    · exact h

theorem setifscan_named (h : g.ifrName = name) : Named name (setifscan g) := by
  unfold setifscan
  split
  · trivial
  · exact h

/-- Every handler names the interface in `name` if `ifr` does. -/
theorem func_named (af : Family) (handler : Handler) (arg : CStr) (param : Int)
    (h : g.ifrName = name) : Named name (func world af name handler arg param g) := by
  unfold func
  split
  case h_1 => exact setifflags_named param h
  case h_2 => exact setifxflags_named param h
  case h_10 | h_11 | h_12 | h_13 | h_14 => exact media_named h fun _ _ => rfl
  case h_15 => exact setvlantag_named arg h
  case h_16 => exact setvlandev_named arg h
  case h_17 => exact setifscan_named h
  case h_18 => exact follow_named _ _ _ h
  all_goals exact onMemory_named _ h

theorem round_named (af : Family) (c : Call) (h : g.ifrName = name) :
    Named name (round world af name g c) := by
  unfold round
  split
  · exact (func_named af _ _ _ h).bind fun _ hg => hg
  · trivial
  · exact follow_named _ _ _ h

theorem processMediaCommands_named (h : g.ifrName = name) :
    Named name (processMediaCommands name g) := by
  unfold processMediaCommands
  split
  · exact keeps_query_bind rfl fun _ => rfl
  · exact h

theorem deleteAddr_named (af : Option Family) (h : g.ifrName = name) :
    Named name (deleteAddr name af g) := by
  unfold deleteAddr
  split
  · refine keeps_ofOption_bind fun af _ => keeps_query_bind rfl fun a => ?_
    split
    · trivial
    · exact h
  · exact h

theorem addAddr_named (af : Option Family) (h : g.ifrName = name) :
    Named name (addAddr name af g) := by
  unfold addAddr
  split
  · refine keeps_ofOption_bind fun af _ => keeps_query_bind rfl fun a => ?_
    split
    · trivial
    · exact h
  · exact h

theorem getinfo_named : (getinfo world name name).Keeps (·.name = name) fun _ => True := by
  have hbridge : (isBridge name).Keeps (·.name = name) fun _ => True := by
    refine keeps_query_bind rfl fun a => ?_
    split
    · trivial
    · exact keeps_query_bind rfl fun _ => trivial
  unfold getinfo
  dsimp only
  split
  · refine keeps_query_bind rfl fun a => ?_
    split
    · trivial
    · refine keeps_query_bind rfl fun _ => keeps_query_bind rfl fun _ => hbridge.bind fun b _ => ?_
      split
      · exact keeps_query_bind rfl fun _ => trivial
      · exact keeps_query_bind rfl fun _ => keeps_query_bind rfl fun _ => trivial
  · trivial

/-- A call whose name fits into both globals names it in every ioctl. -/
theorem gateIoctls_named {size : Nat} {argv : List (Option CStr)} {iface : CStr} (m : Memory)
    (h : iface.length < size) :
    (gateIoctls world size argv iface m).Keeps (·.name = iface) fun _ => True := by
  unfold gateIoctls
  split
  · trivial
  · split
    · trivial
    next hlong _ =>
      rw [CStr.strlcpy_of_lt h, CStr.strlcpy_of_lt (Nat.lt_of_not_le hlong)]
      refine getinfo_named.bind fun _ _ => ?_
      refine Keeps.bind (Keeps.foldlM (fun c _ g hg => round_named _ c hg) rfl) fun g hg => ?_
      split
      · exact (processMediaCommands_named hg).bind fun g hg =>
          (deleteAddr_named _ hg).bind fun g hg => (addAddr_named _ hg).bind fun _ _ => trivial
      · trivial

end Named

/-- The ioctls of a call, up to the last answer. -/
def issued (world : World) (size : Nat) (argv : List (Option CStr)) (iface : CStr) (m : Memory)
    (answers : List Answer) : List Ioctl :=
  ((gateIoctls world size argv iface m).run answers).1

/-- `getinfo` returns at once for a group, and otherwise after an ioctl that fails. -/
theorem getinfo_returns (world : World) (name ifrName : CStr) :
    ∃ answers qs, ∀ more,
      (getinfo world name ifrName).run (answers ++ more) = (qs, .returned () more) := by
  by_cases hdigit : 48 ≤ name.bytes.getLast?.getD world.before ∧
      name.bytes.getLast?.getD world.before ≤ 57
  · refine ⟨[⟨some .other, 0, []⟩], [⟨.siocgifflags, ifrName, .none⟩], fun more => ?_⟩
    simp only [getinfo, if_pos hdigit]
    rfl
  · refine ⟨[], [], fun more => ?_⟩
    simp only [getinfo, if_neg hdigit]
    rfl

/-- The call for `up` makes one handler call. -/
theorem ifconfigGate_up {iface : CStr} (h : iface.length < ifnamsiz) :
    ifconfigGate false .never [some (.lit "up")] iface [] =
      ([.func .setifflags (some (.lit "up")) 1], .running) := by
  rw [ifconfigGate, if_neg (Nat.not_le_of_lt h)]
  decide +kernel

/-- With `up`, the flags are written to the interface in `name`. -/
theorem exists_issued_up (world : World) (size : Nat) {iface : CStr} (m : Memory)
    (h : iface.length < ifnamsiz) :
    ∃ answers, ∃ q ∈ issued world size [some (.lit "up")] iface m answers,
      q.name = iface.strlcpy size := by
  obtain ⟨answers, qs, hgetinfo⟩ :=
    getinfo_returns world (iface.strlcpy size) (iface.strlcpy ifnamsiz)
  refine ⟨answers ++ [⟨none, 0, []⟩],
    ⟨.siocsifflags, iface.strlcpy size, .flags (withBits 1 0)⟩, ?_, rfl⟩
  rw [issued, gateIoctls, if_neg (Nat.not_le_of_lt h), if_neg (by simp), ifconfigGate_up h]
  rw [run_bind_of_returned (hgetinfo _)]
  exact List.mem_append_right qs (List.mem_cons_of_mem _ List.mem_cons_self)

/-- The ioctls of the calls for an interface all name it exactly if the name is shorter
than a pointer. -/
theorem gate_names_iff (world : World) {size : Nat} (hsize : 0 < size) (m : Memory)
    {iface : CStr} (h : iface.length < ifnamsiz) :
    (∀ argv answers, ∀ q ∈ issued world size argv iface m answers, q.name = iface) ↔
      iface.length < size := by
  constructor
  · intro hnames
    obtain ⟨answers, q, hq, hname⟩ := exists_issued_up world size m h
    rw [← CStr.strlcpy_eq_iff hsize, ← hname]
    exact hnames _ answers q hq
  · intro hlt argv answers
    exact ((gateIoctls_named m hlt).run answers).1

/-- The ioctls for `em0` on a machine with pointers of four bytes. -/
theorem gate_names_iff_em0 :
    (CStr.lit "em0").length < 4 ∧
      ∀ argv answers, ∀ q ∈ issued .silent 4 argv (.lit "em0") .initial answers,
        q.name = .lit "em0" :=
  ⟨by decide, (gate_names_iff .silent (by decide) .initial (by decide)).2 (by decide)⟩

/-- The call `up` for `vether10`, on a machine that has this interface and `vether1`: the
flags are read from the one and written, with the bit for `up`, to the other. -/
theorem up_writes_to_vether1 :
    issued .silent 8 [some (.lit "up")] (.lit "vether10") .initial
        [⟨none, 0x8802, []⟩, ⟨none, 0, []⟩, ⟨none, 0, []⟩, ⟨none, 0x8843, []⟩,
          ⟨some .other, 0, []⟩, ⟨none, 1500, []⟩, ⟨none, 0, []⟩, ⟨none, 0x8802, []⟩] =
      [⟨.siocgifflags, .lit "vether10", .none⟩, ⟨.siocgifxflags, .lit "vether10", .none⟩,
        ⟨.siocgifmetric, .lit "vether10", .none⟩, ⟨.siocgifflags, .lit "vether1", .none⟩,
        ⟨.siocbrdgrts, .lit "vether1", .none⟩, ⟨.siocgifmtu, .lit "vether10", .none⟩,
        ⟨.siocgifrdomain, .lit "vether10", .none⟩, ⟨.siocgifflags, .lit "vether10", .none⟩,
        ⟨.siocsifflags, .lit "vether1", .flags 0x8803⟩] := by
  decide +kernel

end Ifconfigd.Gate
