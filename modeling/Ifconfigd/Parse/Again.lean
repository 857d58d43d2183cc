import Ifconfigd.Parse.Beside
import Ifconfigd.Parse.Clean

/-!
# Parsing again

A call of `parse_config` leaves its root file in the list of files, its macros in the
symbol table, its sections in the heap and its section pointers as they are. A later
call reads its own file on top of all that.
-/

namespace Ifconfigd.Parse

open CLib Yacc

/-! ## Parses side by side -/

/-- The actions find their pointers set. -/
theorem ready_of_reducing {fs : FileSystem} {y : Yy} {p : State Token Val Yy} {n : Nat}
    (hreach : Reaches tables (client fs) (.initial y) p) (hred : Reducing tables p n) :
    Ready n p.client := by
  have hmarked := options_marked
  simp only [Bool.and_eq_true] at hmarked
  obtain ⟨⟨⟨hether, hwireless⟩, hstatic⟩, hheader⟩ := hmarked
  refine ⟨fun hn => ?_, fun hn => ?_, fun hn => ?_, fun hn => ?_⟩
  · obtain ⟨r, -, i, -, -, hi⟩ :=
      inSection_of_marked (networkScope (feeds_client fs)) hheader hreach hred hn
    rw [hi]
    exact nofun
  · obtain ⟨r, -, i, s, -, -, -, -, hi, hs⟩ :=
      inSection_of_marked (ethernetScope (feeds_client fs)) hether hreach hred hn
    rw [hi, hs]
    exact ⟨nofun, nofun⟩
  · obtain ⟨r, -, i, w, s, -, -, -, -, hi, hw, -⟩ :=
      inSection_of_marked (wirelessScope (feeds_client fs)) hwireless hreach hred hn
    rw [hi, hw]
    exact ⟨nofun, nofun⟩
  · have hpath : Path Edge p.stack := hreach.path (sound Val) trivial
    obtain ⟨e, rest, hsuffix, hmark⟩ := exists_mark hstatic hpath hn hred.reduces
    rw [List.mem_pair] at hmark
    rcases hmark with hmark | hmark
    · obtain ⟨r, -, i, s, -, -, -, -, -, hs⟩ :=
        inSection_of_mark (ethernetScope (feeds_client fs)) hreach hsuffix hmark
      rw [hs]
      exact nofun
    · obtain ⟨r, -, i, w, s, -, -, -, -, -, -, hs, -⟩ :=
        inSection_of_mark (wirelessScope (feeds_client fs)) hreach hsuffix hmark
      rw [hs]
      exact nofun

/-- Nothing in a parse that begins in `p` depends on `K` files left open below its own or
on the macros `names` left in the table. -/
structure Independent (fs : FileSystem) (names : List CStr) (K : Nat) (p : State Token Val Yy) :
    Prop where
  lexes : ∀ q, Reaches tables (client fs) p q → Calls tables q →
    ¬Astray names q.client.lex.diags (yylex q.client.lex).2
  room : ∀ q, Reaches tables (client fs) p q → Reducing tables q 15 → ∀ limit ∈ fs.openMax,
    q.client.lex.files.length < limit → q.client.lex.files.length + K < limit

/-- The relation between the two parsers with a lookahead: a token that carries a value
has set it. -/
def BesideWith (names : List CStr) (K : Nat) (h₀ : Heap) (look : Option Token) (y z : Yy) : Prop :=
  Beside names K h₀ y z ∧ (look = some .string ∨ look = some .number → y.lex.val ≠ .none)

theorem LexEffect.val {fs : FileSystem} {n : Nat} {y y' : Yy} (h : LexEffect fs n y y') :
    y'.lex.val = y.lex.val := by
  cases h with
  | same hlex => rw [hlex]
  | report m hlex =>
      rw [hlex]
      rfl
  | grammarError _ hlex => rw [hlex]
  | «include» _ name nfile _ hlex =>
      rw [hlex]
      exact lungetc_holds (P := fun s => s.val = y.lex.val) (fun _ _ h => h) (fun _ _ h => h)
        (s := { y.lex with file := nfile, prev := y.lex.file :: y.lex.prev }) rfl _
  | varset _ nam val hlex => rw [hlex]

/-- The value of a reduced rule is the same in both, where it is read. -/
theorem sameValue_goto {n st : Nat} {vs ws : List Val} {v w : Val} (hn : n ∉ [13, 14, 16])
    (hvs : ∀ i < reads n, ws[i]? = vs[i]?)
    (h : Alternative (defaultVal n vs) (defaultVal n ws) v w) :
    SameValue (tables.goto n st) v w := by
  intro hv
  rcases h with ⟨rfl, rfl⟩ | h
  · have hmem := goto_valued hv
    obtain rfl : n = 17 := by
      simp only [List.mem_cons, List.not_mem_nil, or_false] at hmem hn
      omega
    have hget := hvs 0 (by decide)
    simp only [defaultVal, List.getD_eq_getElem?_getD]
    exact congrArg (fun o => Option.getD o Val.none) hget
  · exact h

theorem lockstep_beside {fs : FileSystem} {names : List CStr} {K : Nat} {h₀ : Heap} {y : Yy}
    (hind : Independent fs names K (.initial y)) :
    Lockstep tables (client fs) (client fs) SameValue (BesideWith names K h₀) (.initial y) where
  lex p z hreach hcalls h := by
    obtain ⟨h, -⟩ := h
    have hsim : AtopSim names K p.client.lex.diags [] p.client.lex z.lex :=
      ⟨h.lex, ⟨[], rfl⟩, by simp⟩
    obtain ⟨htoken, hatop⟩ := lexSim_atopSim.yylex hsim (hind.lexes p hreach hcalls)
    refine ⟨congrArg Token.clamp htoken, ⟨hatop.atop, h.heap, h.network, h.ether, h.wlan, h.wpa,
      h.staticonfig⟩, fun hlook => ?_⟩
    refine yylex_carries p.client.lex ?_
    change some (yylex p.client.lex).1.clamp = _ ∨ some (yylex p.client.lex).1.clamp = _ at hlook
    generalize (yylex p.client.lex).1 = a at hlook
    cases a <;> simp_all [Token.clamp]
  shift st a st' x z hshift h hv := by
    have hne := h.2 (by simpa using shift_valued hshift hv)
    exact h.1.lex.val.resolve_left hne
  shiftError st st' look x z hshift _ hv := absurd hv (shiftError_not_valued hshift)
  forget look x z h := ⟨h.1, by simp⟩
  action p stack z n hreach hred hstack h := by
    have hpath : Path Edge p.stack := hreach.path (sound Val) trivial
    have hvs : ∀ i < reads n, (stack.map Prod.snd)[i]? = (p.stack.map Prod.snd)[i]? :=
      fun i hi => read_values hpath hstack hred.reduces hi
    have heffect := action_lexEffect fs n (p.stack.map Prod.snd)
      (defaultVal n (p.stack.map Prod.snd)) p.client
    have hR : ∀ x z', Beside names K h₀ x z' → LexEffect fs n p.client x →
        BesideWith names K h₀ p.look x z' := by
      intro x z' hbeside he
      refine ⟨hbeside, ?_⟩
      rw [he.val]
      exact h.2
    have hfinal : ∀ v w : Val, SameValue tables.final v w := fun _ _ hv => absurd hv (by decide)
    by_cases hn : n ∈ [13, 14, 16]
    · exact (action_beside_value h.1 hn hvs).mono heffect
        (fun v w hw => ⟨hfinal v w, fun _ _ => hw⟩) hR
    · have hmatches := action_beside (v := defaultVal n (p.stack.map Prod.snd))
        (w := defaultVal n (stack.map Prod.snd)) h.1 hvs (ready_of_reducing hreach hred)
        fun h15 => hind.room p hreach (h15 ▸ hred)
      exact hmatches.mono heffect (fun v w hw => ⟨hfinal v w, fun _ => sameValue_goto hn hvs hw⟩) hR
  syntaxError look x z h :=
    ⟨⟨h.1.lex.yyerror _, h.1.heap, h.1.network, h.1.ether, h.1.wlan, h.1.wpa,
    h.1.staticonfig⟩, h.2⟩
  overflow look x z h := ⟨⟨h.1.lex.yyerror _, h.1.heap, h.1.network, h.1.ether, h.1.wlan, h.1.wpa,
    h.1.staticonfig⟩, h.2⟩

/-! ## The macros a parse leaves -/

/-- The table holds macros of configuration files only, each once. -/
def Unpersistent (y : Yy) : Prop :=
  (y.lex.symhead.map Sym.nam).Nodup ∧ ∀ sym ∈ y.lex.symhead, sym.persist = false

theorem client_keeps_unpersistent (fs : FileSystem) : (client fs).Keeps Unpersistent where
  lex y h := by
    have hsym : (yylex y.lex).2.symhead = y.lex.symhead :=
      (lexKeeps_symhead y.lex.symhead).yylex rfl
    rw [Unpersistent]
    change ((yylex y.lex).2.symhead.map Sym.nam).Nodup ∧ ∀ sym ∈ (yylex y.lex).2.symhead, _
    rw [hsym]
    exact h
  action n vs y h := by
    refine (action_lexEffect fs n vs (defaultVal n vs) y).mono fun z he => ?_
    cases he with
    | same hlex => rwa [Unpersistent, hlex]
    | report m hlex => rwa [Unpersistent, hlex]
    | grammarError _ hlex => rwa [Unpersistent, hlex]
    | «include» _ name nfile _ hlex =>
        have hsym : z.lex.symhead = y.lex.symhead := by
          rw [hlex]
          exact (lexKeeps_symhead y.lex.symhead).lungetc _ _ rfl
        rwa [Unpersistent, hsym]
    | varset _ nam val hlex =>
        rw [Unpersistent, hlex]
        refine ⟨nodup_symset h.1 val false, fun sym hsym => ?_⟩
        rcases mem_symset hsym with hold | rfl
        · exact h.2 sym hold
        · rfl
  syntaxError _ h := h
  overflow _ h := h

/-- A parse of a process that had no macros. -/
theorem unpersistent_of_parseConfig {fs : FileSystem} {fuel : Nat} {filename : CStr} {g : Globals}
    {conf : Option IfconfigdConf}
    (h : parseConfig fs fuel filename (.initial []) = some (.returned conf g)) :
    Unpersistent g.yy := by
  have hinit : ∀ file, Unpersistent ((Globals.initial []).start file) :=
    fun _ => ⟨List.nodup_nil, List.forall_mem_nil _⟩
  rw [parseConfig.eq_def] at h
  split at h
  · cases h
    exact ⟨List.nodup_nil, List.forall_mem_nil _⟩
  · next file hfile =>
      split at h
      · cases h
      · cases h
      · next status y hne hrun =>
          have hy : Unpersistent y := (client_keeps_unpersistent fs).run hrun (hinit file)
          simp only [finish, Option.some.injEq, Result.returned.injEq] at h
          obtain ⟨-, rfl⟩ := h
          have hsym : ((popfile y.lex).getD y.lex).symhead = y.lex.symhead := by
            simp only [popfile]
            split <;> rfl
          rw [Unpersistent]
          simp only [hsym]
          exact hy

/-! ## A parse after another -/

/-- What a call of `parse_config` returns: nothing yet, a crash, or its value. -/
def outcome : Option Result → Option (Option (Option IfconfigdConf))
  | none => none
  | some .crashed => some none
  | some (.returned conf _) => some (some conf)

/-- The earlier parse has used up its input. -/
structure ReadToEnd (g : Globals) : Prop where
  files : ∀ f ∈ g.files, f.rest = []
  pushback : g.yy.lex.pushback = []
  parsebuf : g.yy.lex.parsebuf = none

/-- A file that is read alone as if nothing had been left: it is not the standard input,
it can be opened, and its parse depends on no file and no macro that was left. -/
structure ReadsAlone (fs : FileSystem) (filename : CStr) (g : Globals) : Prop where
  file : filename ≠ CStr.lit "-"
  room : ∀ limit ∈ fs.openMax, 0 < limit → g.files.length < limit
  independent : ∀ file, pushfile fs [] filename false = some file →
    Independent fs (g.yy.lex.symhead.map Sym.nam) g.files.length
      (.initial ((Globals.initial []).start file))

section Again

variable {fs : FileSystem} {filename : CStr} {g : Globals}

/-- The two parses begin side by side. -/
theorem beside_start (hread : ReadToEnd g) (herrors : ∀ f ∈ g.files, f.errors = 0)
    (hsym : Unpersistent g.yy) (file : File) :
    Beside (g.yy.lex.symhead.map Sym.nam) g.files.length g.yy.heap
      ((Globals.initial []).start file) (g.start file) where
  lex := by
    refine ⟨⟨g.files.length, Nat.le_refl _, ?_⟩, hread.parsebuf, hread.pushback, ⟨?_, ?_, ?_, ?_⟩,
      .inl rfl⟩
    · change file.data :: g.files.map File.data = file.data :: List.replicate _ _
      congr 1
      refine List.eq_replicate_iff.2 ⟨List.length_map _, fun b hb => ?_⟩
      obtain ⟨f, hf, rfl⟩ := List.mem_map.1 hb
      rw [File.data, hread.files f hf, herrors f hf]
    · intro _ _ h
      cases h
    · intro nam sym _ hfind
      have hmem := List.mem_of_find?_eq_some hfind
      have hnam : sym.nam = nam := by simpa using List.find?_some hfind
      exact ⟨hnam ▸ List.mem_map_of_mem hmem, hsym.2 sym hmem⟩
    · exact List.nodup_nil
    · exact hsym.1
  heap := by simp [Globals.start, Globals.initial, Heap.after, Heap.empty, Conf.zero]
  network := fun _ h => by cases h
  ether := fun _ h => by cases h
  wlan := fun _ h => by cases h
  wpa := fun _ h => by cases h
  staticonfig := fun _ h => by cases h

/-- Parsers side by side return the same. -/
theorem finish_beside {names : List CStr} {K : Nat} {h₀ : Heap} {y z : Yy}
    (h : Beside names K h₀ y z) : outcome (some (finish z)) = outcome (some (finish y)) := by
  obtain ⟨k, -, hfiles⟩ := h.lex.files
  have herrors : z.lex.file.errors = y.lex.file.errors := by
    have hhead : z.lex.file.data = y.lex.file.data := by
      simp only [Lex.files, List.map_cons, List.cons_append, List.cons.injEq] at hfiles
      exact hfiles.1
    exact (Prod.mk.inj hhead).2
  simp only [finish, outcome, herrors, h.heap, Heap.read_after]

/-- After a parse that counted no error the result is the one of the file alone. -/
theorem outcome_after (hread : ReadToEnd g) (herrors : ∀ f ∈ g.files, f.errors = 0)
    (hsym : Unpersistent g.yy) (halone : ReadsAlone fs filename g) (fuel : Nat) :
    outcome (parseConfig fs fuel filename g) =
      outcome (parseConfig fs fuel filename (.initial [])) := by
  have hpush : pushfile fs g.files filename false = pushfile fs [] filename false :=
    pushfile_of_room (.inl halone.file) (Nat.zero_le _) halone.room
  rw [parseConfig.eq_def, parseConfig.eq_def, hpush,
    show (Globals.initial []).files = [] from rfl]
  cases hfile : pushfile fs [] filename false with
  | none => rfl
  | some file =>
      have hstart : Matches SameValue
          (BesideWith (g.yy.lex.symhead.map Sym.nam) g.files.length g.yy.heap)
          (.initial ((Globals.initial []).start file)) (.initial (g.start file)) :=
        ⟨.nil, rfl, rfl, rfl, beside_start hread herrors hsym file,
          fun hlook => by rcases hlook with h | h <;> cases h⟩
      have hrun := (lockstep_beside (halone.independent file hfile)).run .refl hstart fuel
      dsimp only
      rcases hrun with ⟨hnone, hnone'⟩ | ⟨status, y, z, look, hy, hz, h⟩
      · rw [hnone, hnone']
      · rw [hy, hz]
        cases status with
        | accept => exact finish_beside h.1
        | abort => exact finish_beside h.1
        | crash => rfl

end Again

/-! ## An empty file -/

section Empty

variable {s : Lex}

theorem popWhileEof_of_end {f : File} {prev : List File} (hrest : ∀ f ∈ prev, f.rest = []) :
    ∃ g, popWhileEof f prev = (eof, g, []) ∧ g.errors = f.errors + (prev.map File.errors).sum := by
  induction prev generalizing f with
  | nil => exact ⟨f, rfl, rfl⟩
  | cons p ps ih =>
      obtain ⟨g, hg, herrors⟩ :=
        @ih { p with errors := p.errors + f.errors } fun f hf => hrest f (.tail _ hf)
      refine ⟨g, ?_, ?_⟩
      · simp only [popWhileEof, hrest p (.head _)] at hg ⊢
        exact hg
      · simp only [herrors, List.map_cons, List.sum_cons]
        omega

/-- At the end of all files `yylex` returns the end of the input, and the errors of all
of them are counted in the last one. -/
theorem yylex_of_end (hbuf : s.parsebuf = none) (hpush : s.pushback = [])
    (hrest : ∀ f ∈ s.files, f.rest = []) :
    ∃ f lineno, yylex s = (.char 0, { s with file := f, prev := [], lineno }) ∧
      f.errors = s.errors := by
  obtain ⟨⟨name, rest, lineno, errors⟩, prev, parsebuf, pushback, symhead, vlineno, val, diags⟩ := s
  obtain rfl : parsebuf = none := hbuf
  obtain rfl : pushback = [] := hpush
  obtain rfl : rest = [] := hrest _ (.head _)
  obtain ⟨f, hf, herrors⟩ := @popWhileEof_of_end ⟨name, [], lineno, errors⟩ prev
    fun f hf => hrest f (.tail _ hf)
  have hget : lgetc 0 (⟨⟨name, [], lineno, errors⟩, prev, none, [], symhead, vlineno, val, diags⟩) =
      (eof, ⟨f, [], none, [], symhead, vlineno, val, diags⟩) := by
    simp only [lgetc, lgetcInput, getcJoined, joinLines, hf]
    rfl
  have hstart : lexStart
      (⟨⟨name, [], lineno, errors⟩, prev, none, [], symhead, vlineno, val, diags⟩) =
        (eof, ⟨f, [], none, [], symhead, f.lineno, val, diags⟩) := by
    rw [lexStart, skip.eq_def, hget]
    rfl
  refine ⟨f, f.lineno, ?_, herrors⟩
  have hmacro : ¬StartsMacro
      (⟨⟨name, [], lineno, errors⟩, prev, none, [], symhead, vlineno, val, diags⟩) := by
    rw [StartsMacro, hstart]
    exact fun h => absurd (show eof = ch '$' from h.1) (by decide)
  rw [yylex_of_token hmacro, hstart]
  rfl

end Empty

section EmptyFile

variable {fs : FileSystem} {y : Yy}

/-- The parser has reduced the empty list of statements and looks for the end. -/
def reduced (y : Yy) : State Token Val Yy := ⟨[(1, defaultVal 1 [])], none, 0, true, y⟩

theorem step_initial : step tables (client fs) (.initial y) = .run (reduced y) := rfl

theorem step_reduced :
    step tables (client fs) (reduced y) = .run (fetch (client fs) (reduced y)) := rfl

/-- With no input left the parser looks once for more and accepts. -/
theorem step_fetch_reduced (hlex : (yylex y.lex).1 = .char 0) :
    step tables (client fs) (fetch (client fs) (reduced y)) =
      .done .accept { y with lex := (yylex y.lex).2 } := by
  have hlook : fetch (client fs) (reduced y) =
      ⟨[(1, defaultVal 1 [])], some (.char 0), 0, true, { y with lex := (yylex y.lex).2 }⟩ := by
    simp only [fetch, reduced, client, hlex]
    rfl
  rw [hlook]
  rfl

theorem run_of_end (hlex : (yylex y.lex).1 = .char 0) (fuel : Nat) :
    run tables (client fs) (fuel + 3) (.initial y) =
      some (.accept, { y with lex := (yylex y.lex).2 }) := by
  rw [run, step_initial]
  dsimp only
  rw [run, step_reduced]
  dsimp only
  rw [run, step_fetch_reduced hlex]

theorem reaches_of_end (hlex : (yylex y.lex).1 = .char 0) {q : State Token Val Yy}
    (h : Reaches tables (client fs) (.initial y) q) :
    q = .initial y ∨ q = reduced y ∨ q = fetch (client fs) (reduced y) := by
  refine Reaches.invariant (P := fun q => q = .initial y ∨ q = reduced y ∨
    q = fetch (client fs) (reduced y)) ?_ h (.inl rfl)
  rintro p q (rfl | rfl | rfl) hstep
  · rw [step_initial] at hstep
    cases hstep
    exact .inr (.inl rfl)
  · rw [step_reduced] at hstep
    cases hstep
    exact .inr (.inr rfl)
  · rw [step_fetch_reduced hlex] at hstep
    cases hstep

/-- The parse of an empty file depends on nothing. -/
theorem independent_of_end {names : List CStr} {K : Nat} (hlex : (yylex y.lex).1 = .char 0)
    (hdiags : (yylex y.lex).2.diags = y.lex.diags) (hopen : fs.openMax = none) :
    Independent fs names K (.initial y) where
  lexes := by
    intro q hq hcalls
    rcases reaches_of_end hlex hq with rfl | rfl | rfl
    · exact absurd hcalls.2 (not_or.2 ⟨nofun, nofun⟩)
    · rintro ⟨ds, hds, hcase⟩
      obtain rfl : ds = [] := by simpa [reduced, hdiags] using hds
      simp at hcase
    · exact absurd hcalls.1 nofun
  room := by
    intro q _ _ limit hlimit
    rw [hopen] at hlimit
    cases hlimit

theorem pushfile_empty (files : List File) :
    pushfile (withInclude [] []) files (CStr.lit "f") false = some ⟨CStr.lit "f", [], 1, 0⟩ := by
  have hne : CStr.lit "f" ≠ CStr.lit "-" := by decide
  simp only [pushfile, hne, and_false, if_false, fopen, withInclude, Option.mem_def, reduceCtorEq,
    false_implies, implies_true, if_true]
  rfl

/-- An empty file is accepted exactly if no errors were left. -/
theorem outcome_empty {g : Globals} (hread : ReadToEnd g) :
    outcome (parseConfig (withInclude [] []) 3 (CStr.lit "f") g) =
      some (some (if (g.files.map File.errors).sum ≠ 0 then none
        else some (Heap.read { g.yy.heap with conf := Conf.zero }))) := by
  obtain ⟨f, lineno, hlex, herrors⟩ := @yylex_of_end (g.start ⟨CStr.lit "f", [], 1, 0⟩).lex
    hread.parsebuf hread.pushback (List.forall_mem_cons.2 ⟨rfl, hread.files⟩)
  have hsum : f.errors = (g.files.map File.errors).sum := herrors.trans (Nat.zero_add _)
  have hrun := @run_of_end (withInclude [] []) _ (congrArg Prod.fst hlex) 0
  rw [hlex] at hrun
  rw [parseConfig, pushfile_empty]
  dsimp only
  rw [hrun]
  simp only [outcome, finish, hsum]
  rfl

theorem readsAlone_empty (g : Globals) : ReadsAlone (withInclude [] []) (CStr.lit "f") g where
  file := by decide
  room := nofun
  independent := by
    intro file hfile
    rw [pushfile_empty] at hfile
    cases hfile
    obtain ⟨f, lineno, hlex, -⟩ :=
      @yylex_of_end ((Globals.initial []).start ⟨CStr.lit "f", [], 1, 0⟩).lex rfl rfl
        (List.forall_mem_cons.2 ⟨rfl, List.forall_mem_nil _⟩)
    exact independent_of_end (congrArg Prod.fst hlex) (by rw [hlex]) rfl

end EmptyFile

/-! ## Reading a file again -/

/-- Whether a call returned, with a value and globals that pass a test. -/
def returnedWith (test : Option IfconfigdConf → Globals → Bool) : Option Result → Bool
  | some (.returned conf g) => test conf g
  | _ => false

theorem exists_of_returnedWith {test : Option IfconfigdConf → Globals → Bool} {r : Option Result}
    (h : returnedWith test r = true) :
    ∃ conf g, r = some (.returned conf g) ∧ test conf g = true := by
  rw [returnedWith.eq_def] at h
  split at h
  · next conf g => exact ⟨conf, g, rfl, h⟩
  · cases h

end Ifconfigd.Parse
