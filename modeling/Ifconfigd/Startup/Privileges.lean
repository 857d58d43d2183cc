import Ifconfigd.Startup

/-!
# What holds when the daemon runs

The control socket is never open to others while `control_init` makes it, and whatever call
fails, the descriptors and the mask are as before when it returns. The engine comes to its
event loop only without privileges and below the directory of its user, and holds nothing but
the control socket and its end of the pipe; the parent comes to its own loop with the other
end alone.

Each call has one rule, which says what the rest of the program may rely on; the programs
are gone through with these rules.
-/

namespace Ifconfigd.Startup

open CLib Dialogue Dialogue.Proc

variable {α : Type} {P : Kernel → Call → Prop} {E : Kernel → Prop} {U : Kernel → α → Prop}
variable {k k₀ : Kernel}

/-! ## Rules for the calls -/

theorem must_bind {q : Call} {f : Unit → Prog α} (hq : P k q) (hexit : E k)
    (hplain : q.plain) (h : k.Allows q → (f ()).Meets Serve P E U (k.after q)) :
    (must q >>= f).Meets Serve P E U k := by
  refine ⟨hq, ?_⟩
  intro r t hserve
  cases hserve with
  | ok _ hallows => exact h hallows
  | failed => exact hexit
  | _ => cases hplain

theorem attempt_bind {q : Call} {f : Bool → Prog α} (hq : P k q) (hplain : q.plain)
    (hok : k.Allows q → (f true).Meets Serve P E U (k.after q))
    (hfail : q.mayFail → (f false).Meets Serve P E U k) :
    (attempt q >>= f).Meets Serve P E U k := by
  refine ⟨hq, ?_⟩
  intro r t hserve
  cases hserve with
  | ok _ hallows => exact hok hallows
  | failed hmay _ => exact hfail hmay
  | _ => cases hplain

theorem umask_bind {mask : Mode} {f : Mode → Prog α} (hq : P k (.umask mask))
    (h : (f k.umask).Meets Serve P E U { k with umask := mask }) :
    (umask mask >>= f).Meets Serve P E U k := by
  refine ⟨hq, ?_⟩
  intro r t hserve
  cases hserve with
  | umask => exact h
  | ok hplain _ => cases hplain
  | failed hmay _ => cases hmay

theorem blockmode_bind {fd : Nat} {f : Unit → Prog α} (hget : P k (.getFlags fd))
    (hset : ∀ flags, P k (.setFlags fd flags)) (hexit : E k)
    (h : ∀ d, k.fds fd = some d → (f ()).Meets Serve P E U
      (k.setFd fd (some { d with flags := d.flags ||| oNonblock }))) :
    (sessionSocketBlockmode fd .nonblock >>= f).Meets Serve P E U k := by
  refine ⟨hget, ?_⟩
  intro r t hserve
  cases hserve with
  | ok hplain _ => cases hplain
  | failed => exact hexit
  | @getFlags _ d hd =>
      refine must_bind (hset _) hexit rfl ?_
      intro _
      have hafter : k.after (.setFlags fd (d.flags ||| oNonblock)) =
          k.setFd fd (some { d with flags := d.flags ||| oNonblock }) := by
        simp only [Kernel.after, hd, Option.map_some]
      rw [hafter]
      exact h d hd

/-! ## The control socket -/

/-- Where the socket is bound: at its path, or at what is left of a path that is too long. -/
def boundPath (path : CStr) : CStr := path.strlcpy sunPathSize

theorem resolve_boundPath {path : CStr} (h : k.resolve path = k.resolve (boundPath path)) :
    path.length < sunPathSize := by
  apply (CStr.strlcpy_eq_iff (by decide)).mp
  have hhead : (boundPath path).bytes.head? = path.bytes.head? := by
    change (path.bytes.take 103).head? = _
    rw [List.head?_take, if_neg (by decide)]
  unfold Kernel.resolve at h
  rw [hhead] at h
  split_ifs at h
  · exact CStr.ext (Place.mk.inj h).2.symm
  · have hname := List.append_cancel_left (Place.mk.inj h).2
    exact CStr.ext (List.cons.inj hname).2.symm

/-- The files are those of the start but for the socket: it is away, or has mode 0660. -/
def Guarded (k₀ : Kernel) (path : CStr) (files : Place → Option Mode) : Prop :=
  ∀ p, files p = k₀.files p ∨
    (p = k₀.resolve path ∨ p = k₀.resolve (boundPath path)) ∧
      (files p = none ∨ files p = some 0o660)

variable {path : CStr} {files : Place → Option Mode}

theorem guarded_start : Guarded k₀ path k₀.files := fun _ => .inl rfl

theorem Guarded.update (h : Guarded k₀ path files) {p : Place} {mode : Option Mode}
    (hp : p = k₀.resolve path ∨ p = k₀.resolve (boundPath path))
    (hmode : mode = none ∨ mode = some 0o660) :
    Guarded k₀ path (Function.update files p mode) := by
  intro p'
  by_cases heq : p' = p
  · subst heq
    rw [Function.update_self]
    exact .inr ⟨hp, hmode⟩
  · rw [Function.update_of_ne heq]
    exact h p'

/-- A state of `control_init`: only these three parts of the system have changed. -/
def during (k₀ : Kernel) (files : Place → Option Mode) (fds : Nat → Option Descriptor)
    (mask : Mode) : Kernel :=
  { k₀ with files := files, fds := fds, umask := mask }

/-- The descriptor of the control socket. -/
def controlFd (k₀ : Kernel) (path : CStr) (listening : Bool) : Descriptor :=
  ⟨some (k₀.resolve path), listening, oNonblock⟩

/-- What `control_init` leaves behind. -/
def Returns (k₀ : Kernel) (path : CStr) (k : Kernel) : Option Nat → Prop
  | none => ∃ files, Guarded k₀ path files ∧ k = during k₀ files k₀.fds k₀.umask
  | some fd =>
      path.length < sunPathSize ∧ k₀.fds fd = none ∧
        k = during k₀ (Function.update k₀.files (k₀.resolve path) (some 0o660))
          (Function.update k₀.fds fd (some (controlFd k₀ path false))) k₀.umask

/-- The calls after which a process is another one, or in its event loop. -/
def Call.milestone : Call → Bool
  | fork | eventDispatch => true
  | _ => false

/-- The calls of `control_init`, and the states they are made in. -/
def Guards (k₀ : Kernel) (path : CStr) (k : Kernel) (q : Call) : Prop :=
  Guarded k₀ path k.files ∧ q.milestone = false

theorem close_restores {fds : Nat → Option Descriptor} {fd : Nat} {d : Option Descriptor}
    (h : fds fd = none) : Function.update (Function.update fds fd d) fd none = fds := by
  rw [Function.update_idem, Function.update_eq_self_iff, h]

/-- With the mask of `control_init`, `bind` makes a file of mode 0660. -/
theorem after_bind {fds : Nat → Option Descriptor} {fd : Nat} {d : Descriptor} {name : CStr} :
    (during k₀ files (Function.update fds fd (some d)) 0o117).after (.bind fd name) =
      during k₀ (Function.update files (k₀.resolve name) (some 0o660))
        (Function.update fds fd (some { d with bound := some (k₀.resolve name) })) 0o117 := by
  have hmode : ~~~(0o117 : Mode) = 0o660 := by decide
  simp only [Kernel.after, Kernel.setFd, Kernel.setFile, during, Function.update_self,
    Function.update_idem, Option.map_some, hmode]
  rfl

/-- `chmod` finds the file that was bound only if the path was not cut. -/
theorem length_of_chmod {mode : Option Mode}
    (h : (Function.update (Function.update files (k₀.resolve path) none)
      (k₀.resolve (boundPath path)) mode (k₀.resolve path)).isSome) :
    path.length < sunPathSize := by
  by_cases heq : k₀.resolve path = k₀.resolve (boundPath path)
  · exact resolve_boundPath heq
  · rw [Function.update_of_ne heq, Function.update_self] at h
    cases h

theorem controlBind_meets {fd : Nat} (hfd : k₀.fds fd = none) :
    (controlBind path fd).Meets Serve (Guards k₀ path) (fun k => Guarded k₀ path k.files)
      (Returns k₀ path)
      (during k₀ (Function.update k₀.files (k₀.resolve path) none)
        (Function.update k₀.fds fd (some .fresh)) k₀.umask) := by
  have haway : Guarded k₀ path (Function.update k₀.files (k₀.resolve path) none) :=
    guarded_start.update (.inl rfl) (.inl rfl)
  have hmade := haway.update (.inr rfl) (.inr rfl)
  apply umask_bind ⟨haway, rfl⟩
  apply attempt_bind ⟨haway, rfl⟩ rfl
  · intro _
    change Meets _ _ _ _ _ (Kernel.after (during k₀
      (Function.update k₀.files (k₀.resolve path) none)
      (Function.update k₀.fds fd (some .fresh)) 0o117) _)
    rw [after_bind, if_pos rfl]
    apply umask_bind ⟨hmade, rfl⟩
    apply attempt_bind ⟨hmade, rfl⟩ rfl
    · intro hchmod
      have hlength := length_of_chmod hchmod
      have hpath : path.strlcpy sunPathSize = path := CStr.strlcpy_of_lt hlength
      have hmoded := hmade.update (.inl rfl) (.inr rfl)
      apply blockmode_bind ⟨hmoded, rfl⟩ (fun _ => ⟨hmoded, rfl⟩) hmoded
      intro d hd
      cases (Function.update_self fd _ k₀.fds).symm.trans hd
      refine ⟨hlength, hfd, ?_⟩
      rw [hpath]
      simp [Kernel.setFd, Kernel.after, Kernel.setFile, during, controlFd, Descriptor.fresh,
        Function.update_idem, Kernel.resolve]
    · intro _
      apply attempt_bind ⟨hmade, rfl⟩ rfl
      · intro _
        apply attempt_bind ⟨hmade, rfl⟩ rfl
        · intro _
          refine ⟨_, hmade.update (.inl rfl) (.inl rfl), ?_⟩
          exact congrArg (during k₀ _ · _) (close_restores hfd)
        · intro _
          exact ⟨_, hmade, congrArg (during k₀ _ · _) (close_restores hfd)⟩
      · intro hmay
        cases hmay
  · intro _
    apply attempt_bind ⟨haway, rfl⟩ rfl
    · intro _
      apply umask_bind ⟨haway, rfl⟩
      exact ⟨_, haway, congrArg (during k₀ _ · _) (close_restores hfd)⟩
    · intro hmay
      cases hmay

theorem controlInit_meets :
    (controlInit path).Meets Serve (Guards k₀ path) (fun k => Guarded k₀ path k.files)
      (Returns k₀ path) k₀ := by
  have hstart : Guarded k₀ path k₀.files := guarded_start
  refine ⟨⟨hstart, rfl⟩, ?_⟩
  intro r t hsocket
  cases hsocket with
  | ok hplain _ => cases hplain
  | failed => exact ⟨_, hstart, rfl⟩
  | @socket fd hfd =>
      refine ⟨⟨hstart, rfl⟩, ?_⟩
      intro r t hunlink
      cases hunlink with
      | ok => exact controlBind_meets hfd
      | @failed _ e _ habsent =>
          cases e with
          | enoent =>
              have haway : Function.update k₀.files (k₀.resolve path) none = k₀.files :=
                Function.update_eq_self_iff.mpr (habsent path rfl rfl).symm
              have hbind := @controlBind_meets k₀ path fd hfd
              rw [haway] at hbind
              exact hbind
          | other =>
              apply attempt_bind ⟨hstart, rfl⟩ rfl
              · intro _
                exact ⟨_, hstart, congrArg (during k₀ _ · _) (close_restores hfd)⟩
              · intro hmay
                cases hmay

/-! ## The event loops -/

/-- An event is added, or the failure to add it goes unnoticed. -/
theorem eventAdd_bind {e : Event} {f : Bool → Prog α} {wanted : List Event}
    (hq : P k (.eventAdd e)) (hwanted : k.events.Sublist wanted)
    (h : ∀ added events, events.Sublist (wanted ++ [e]) →
      (f added).Meets Serve P E U { k with events := events }) :
    (attempt (.eventAdd e) >>= f).Meets Serve P E U k := by
  apply attempt_bind hq rfl
  · intro _
    exact h true _ (hwanted.append_right [e])
  · intro _
    exact h false k.events (hwanted.trans (List.sublist_append_left wanted [e]))

/-- One end of the pipe. -/
def pipeFd : Descriptor := ⟨none, false, oNonblock⟩

/-- The engine in its event loop: it has the ids of its user, lives below the user's
directory, and has the control socket and one end of the pipe open besides what was open
at the start. It accepts connections if `listen` has succeeded. -/
def EngineReady (k₀ : Kernel) (csock : CStr) (k : Kernel) : Prop :=
  ∃ (pw : Passwd) (ctl pipe : Nat) (listening : Bool) (events : List Event),
    k₀.passwd ifconfigdUser = some pw ∧ csock.length < sunPathSize ∧ ctl ≠ pipe ∧
      events.Sublist ((if listening then [.read ctl] else []) ++ [.read pipe]) ∧
      k = { k₀ with
        child := true
        uids := .all pw.uid
        gids := .all pw.gid
        groups := [pw.gid]
        root := k₀.root ++ [pw.dir]
        cwd := ⟨k₀.root ++ [pw.dir], [47]⟩
        files := Function.update k₀.files (k₀.resolve csock) (some 0o660)
        fds := Function.update (Function.update k₀.fds pipe (some pipeFd)) ctl
          (some (controlFd k₀ csock listening))
        events := events }

/-- The parent in its event loop: but for its end of the pipe, all is as at the start. -/
def ParentReady (k₀ k : Kernel) : Prop :=
  ∃ (pipe : Nat) (events : List Event),
    k₀.fds pipe = none ∧
      events.Sublist [.signal .sigint, .signal .sigterm, .signal .sigchld, .signal .sighup,
        .read pipe] ∧
      k = { k₀ with fds := Function.update k₀.fds pipe (some pipeFd), events := events }

/-- What holds at the calls that make the engine, and that enter an event loop. -/
def Milestone (k₀ : Kernel) (csock : CStr) (k : Kernel) : Call → Prop
  | .fork => k.uids.effective = 0 ∧ (k.passwd ifconfigdUser).isSome
  | .eventDispatch => EngineReady k₀ csock k ∨ ParentReady k₀ k
  | _ => True

theorem milestone_of_guards {csock : CStr} {k₁ : Kernel} {q : Call}
    (h : Guards k₁ path k q) : Milestone k₀ csock k q := by
  cases q with
  | fork => cases h.2
  | eventDispatch => cases h.2
  | _ => trivial

/-- The system with both ends of the pipe open. -/
def piped (k₀ : Kernel) (pipe : Nat × Nat) : Kernel :=
  { k₀ with
    fds := Function.update (Function.update k₀.fds pipe.1 (some pipeFd)) pipe.2 (some pipeFd) }

section Loops

variable {csock : CStr} {pipe : Nat × Nat}

/-- The descriptors of the engine, once it has closed the parent's end. -/
theorem engine_fds {fds : Nat → Option Descriptor} {ctl : Nat} {d : Descriptor}
    (hne : pipe.1 ≠ pipe.2) (hfree : fds pipe.1 = none) (hctl : ctl ≠ pipe.1) :
    Function.update (Function.update
      (Function.update (Function.update fds pipe.1 (some pipeFd)) pipe.2 (some pipeFd))
        ctl (some d)) pipe.1 none =
      Function.update (Function.update fds pipe.2 (some pipeFd)) ctl (some d) := by
  rw [Function.update_comm hctl, Function.update_comm hne.symm, close_restores hfree]

theorem ne_of_free {ctl : Nat} (hne : pipe.1 ≠ pipe.2) (h : (piped k₀ pipe).fds ctl = none) :
    ctl ≠ pipe.1 ∧ ctl ≠ pipe.2 := by
  constructor
  · rintro rfl
    simp only [piped] at h
    rw [Function.update_of_ne hne, Function.update_self] at h
    cases h
  · rintro rfl
    simp only [piped] at h
    rw [Function.update_self] at h
    cases h

/-- The engine after `control_init` and the loss of its privileges. -/
def confined (k₀ : Kernel) (csock : CStr) (pipe : Nat × Nat) (ctl : Nat) (pw : Passwd)
    (listening : Bool) (events : List Event) : Kernel :=
  { k₀ with
    child := true
    uids := .all pw.uid
    gids := .all pw.gid
    groups := [pw.gid]
    root := k₀.root ++ [pw.dir]
    cwd := ⟨k₀.root ++ [pw.dir], [47]⟩
    files := Function.update k₀.files (k₀.resolve csock) (some 0o660)
    fds := Function.update (piped k₀ pipe).fds ctl (some (controlFd k₀ csock listening))
    events := events }

theorem engineLoop_meets {ctl : Nat} {pw : Passwd} {listening : Bool} {events : List Event}
    {R : Kernel → Nat → Prop}
    (hpw : k₀.passwd ifconfigdUser = some pw) (hlength : csock.length < sunPathSize)
    (hne : pipe.1 ≠ pipe.2) (hfree : k₀.fds pipe.1 = none)
    (hctl : (piped k₀ pipe).fds ctl = none)
    (hevents : events.Sublist (if listening then [.read ctl] else [])) :
    (engineLoop pipe).Meets Serve (Milestone k₀ csock) (fun _ => True) R
      (confined k₀ csock pipe ctl pw listening events) := by
  obtain ⟨hctl₁, hctl₂⟩ := ne_of_free hne hctl
  apply attempt_bind trivial rfl
  · intro _
    apply must_bind trivial trivial rfl
    intro _
    apply eventAdd_bind trivial hevents
    intro _ added hadded
    refine attempt_bind ?_ rfl (fun _ => trivial) (fun _ => trivial)
    refine .inl ⟨pw, ctl, pipe.2, listening, added, hpw, hlength, hctl₂, hadded, ?_⟩
    rw [← engine_fds hne hfree hctl₁]
    rfl
  · intro hmay
    cases hmay

/-- The state after the engine has given up its privileges. -/
def dropped (k : Kernel) (pw : Passwd) : Kernel :=
  { k with
    uids := .all pw.uid
    gids := .all pw.gid
    groups := [pw.gid]
    root := k.root ++ [pw.dir]
    cwd := ⟨k.root ++ [pw.dir], [47]⟩ }

theorem dropPrivileges_meets (pw : Passwd) :
    (dropPrivileges pw).Meets Serve (Milestone k₀ csock) (fun _ => True)
      (fun t _ => t = dropped k pw) k := by
  apply must_bind trivial trivial rfl
  intro _
  apply must_bind trivial trivial rfl
  intro _
  apply must_bind trivial trivial rfl
  intro _
  apply must_bind trivial trivial rfl
  intro _
  refine ⟨trivial, ?_⟩
  intro r t hserve
  cases hserve with
  | ok => rfl
  | failed => trivial

/-- The socket listens, or it does not and its event is not added. -/
theorem controlListen_meets {fd : Nat} {d : Descriptor} (hd : k.fds fd = some d)
    (hquiet : d.listening = false) (hevents : k.events = []) :
    (controlListen fd).Meets Serve (Milestone k₀ csock) (fun _ => True)
      (fun t _ => ∃ listening events,
        events.Sublist (if listening then [.read fd] else []) ∧
          t = { k.setFd fd (some { d with listening := listening }) with events := events })
      k := by
  apply attempt_bind trivial rfl
  · intro _
    have hnone : (k.after (.listen fd)).events.Sublist [] := List.sublist_nil.mpr hevents
    apply eventAdd_bind trivial hnone
    intro _ events hsub
    refine ⟨true, events, hsub, ?_⟩
    simp only [Kernel.after, hd, Option.map_some]
  · intro _
    refine ⟨false, [], List.Sublist.refl [], ?_⟩
    have hsame : Function.update k.fds fd (some { d with listening := false }) = k.fds := by
      rw [Function.update_eq_self_iff, hd, ← hquiet]
    rw [Kernel.setFd, hsame, ← hevents]

/-- The engine, from the pipe on: it comes to its loop as described, and never returns. -/
theorem engine_meets {R : Kernel → Nat → Prop} (hne : pipe.1 ≠ pipe.2)
    (hfree : k₀.fds pipe.1 = none) :
    (engine csock pipe).Meets Serve (Milestone k₀ csock) (fun _ => True) R
      { piped k₀ pipe with child := true } := by
  have hinit : (controlInit csock).Meets Serve (Milestone k₀ csock) (fun _ => True)
      (Returns { piped k₀ pipe with child := true } csock)
      { piped k₀ pipe with child := true } :=
    controlInit_meets.mono (fun _ _ => milestone_of_guards) (fun _ _ => trivial)
      (fun _ _ h => h)
  apply hinit.bind
  intro t r hreturns
  cases r with
  | none => trivial
  | some ctl =>
      obtain ⟨hlength, hctl, rfl⟩ := hreturns
      refine ⟨trivial, ?_⟩
      intro r t hserve
      cases hserve with
      | ok hplain _ => cases hplain
      | failed => trivial
      | @getpwnam _ pw hpw =>
          apply (dropPrivileges_meets pw).bind
          rintro _ _ rfl
          apply must_bind trivial trivial rfl
          intro _
          have hopen := Function.update_self ctl
            (some (controlFd { piped k₀ pipe with child := true } csock false))
            (piped k₀ pipe).fds
          apply (controlListen_meets hopen rfl rfl).bind
          rintro _ _ ⟨listening, events, hevents, rfl⟩
          have hloop := @engineLoop_meets k₀ csock pipe ctl pw listening events R hpw hlength
            hne hfree hctl hevents
          simp only [Kernel.setFd, Kernel.after, dropped, during, Function.update_idem]
          exact hloop

theorem parentLoop_meets {R : Kernel → Unit → Prop} (hR : ∀ t, R t ()) (hne : pipe.1 ≠ pipe.2)
    (hfree₁ : k₀.fds pipe.1 = none) (hfree₂ : k₀.fds pipe.2 = none) :
    (parentLoop pipe).Meets Serve (Milestone k₀ csock) (fun _ => True) R (piped k₀ pipe) := by
  apply must_bind trivial trivial rfl
  intro _
  apply eventAdd_bind trivial (List.Sublist.refl [])
  intro _ events₁ hevents₁
  apply eventAdd_bind trivial hevents₁
  intro _ events₂ hevents₂
  apply eventAdd_bind trivial hevents₂
  intro _ events₃ hevents₃
  apply eventAdd_bind trivial hevents₃
  intro _ events₄ hevents₄
  apply attempt_bind trivial rfl
  · intro _
    apply must_bind trivial trivial rfl
    intro _
    apply eventAdd_bind trivial hevents₄
    intro _ events hevents
    refine attempt_bind ?_ rfl (fun _ => hR _) (fun _ => hR _)
    refine .inr ⟨pipe.1, events, hfree₁, hevents, ?_⟩
    have hclosed : Function.update (piped k₀ pipe).fds pipe.2 none =
        Function.update k₀.fds pipe.1 (some pipeFd) := by
      apply close_restores
      rw [Function.update_of_ne hne.symm, hfree₂]
    rw [← hclosed]
    rfl
  · intro hmay
    cases hmay

/-! ## `main` -/

theorem piped_eq {a b : Nat} (hne : a ≠ b) :
    (((k₀.setFd a (some .fresh)).setFd b (some .fresh)).setFd a (some pipeFd)).setFd b
      (some pipeFd) = piped k₀ (a, b) := by
  have hfds : Function.update (Function.update (Function.update
      (Function.update k₀.fds a (some .fresh)) b (some .fresh)) a (some pipeFd)) b
        (some pipeFd) =
      Function.update (Function.update k₀.fds a (some pipeFd)) b (some pipeFd) := by
    rw [Function.update_comm hne.symm, Function.update_idem, Function.update_idem]
  exact congrArg (fun fds => { k₀ with fds := fds }) hfds

theorem ifconfigde_meets (hroot : k₀.uids.effective = 0)
    (huser : (k₀.passwd ifconfigdUser).isSome) (hne : pipe.1 ≠ pipe.2)
    (hfree : k₀.fds pipe.1 = none) :
    (ifconfigde csock pipe).Meets Serve (Milestone k₀ csock) (fun _ => True)
      (fun t _ => t = piped k₀ pipe) (piped k₀ pipe) := by
  refine ⟨⟨hroot, huser⟩, ?_⟩
  intro r t hserve
  cases hserve with
  | ok hplain _ => cases hplain
  | failed => trivial
  | @forkParent pid hpid =>
      cases pid with
      | zero => exact absurd rfl hpid
      | succ pid => rfl
  | forkChild => exact engine_meets hne hfree

theorem launch_meets {s : Settings} (hroot : k₀.uids.effective = 0)
    (huser : (k₀.passwd ifconfigdUser).isSome) :
    (launch s).Meets Serve (Milestone k₀ s.csockpath) (fun _ => True) (fun _ _ => True) k₀ := by
  refine ⟨trivial, ?_⟩
  intro r t hserve
  cases hserve with
  | ok hplain _ => cases hplain
  | failed => trivial
  | @socketpair a b hne ha hb =>
      apply blockmode_bind trivial (fun _ => trivial) trivial
      intro d₁ hd₁
      have hfirst : (Function.update (Function.update k₀.fds a (some .fresh)) b
          (some .fresh)) a = some .fresh := by
        rw [Function.update_of_ne hne, Function.update_self]
      cases hfirst.symm.trans hd₁
      apply blockmode_bind trivial (fun _ => trivial) trivial
      intro d₂ hd₂
      have hsecond : (Function.update (Function.update (Function.update k₀.fds a
          (some .fresh)) b (some .fresh)) a (some pipeFd)) b = some .fresh := by
        rw [Function.update_of_ne hne.symm, Function.update_self]
      cases hsecond.symm.trans hd₂
      change Meets _ _ _ _ _ (Kernel.setFd (Kernel.setFd (Kernel.setFd (Kernel.setFd k₀ a
        (some .fresh)) b (some .fresh)) a (some pipeFd)) b (some pipeFd))
      rw [piped_eq hne]
      apply (ifconfigde_meets hroot huser hne ha).bind
      rintro _ _ rfl
      exact parentLoop_meets (fun _ => trivial) hne ha hb

theorem start_meets (s : Settings) :
    (start s).Meets Serve (Milestone k₀ s.csockpath) (fun _ => True) (fun _ _ => True) k₀ := by
  refine ⟨trivial, ?_⟩
  intro r t hserve
  cases hserve with
  | ok hplain _ => cases hplain
  | failed hmay _ => cases hmay
  | geteuid =>
      cases hroot : k₀.uids.effective with
      | succ n => trivial
      | zero =>
          refine ⟨trivial, ?_⟩
          intro r t hserve
          cases hserve with
          | ok hplain _ => cases hplain
          | failed => trivial
          | @getpwnam _ pw hpw =>
              have huser : (k₀.passwd ifconfigdUser).isSome := Option.isSome_of_eq_some hpw
              cases s.debug with
              | true => exact launch_meets hroot huser
              | false =>
                  apply must_bind trivial trivial rfl
                  intro _
                  exact launch_meets hroot huser

end Loops

/-! ## A kernel that checks permissions -/

instance (k : Kernel) : (q : Call) → Decidable (k.Allows q)
  | .bind fd path =>
      inferInstanceAs (Decidable ((k.fds fd).isSome ∧ k.files (k.resolve path) = none))
  | .chmod path _ => inferInstanceAs (Decidable ((k.files (k.resolve path)).isSome = true))
  | .setFlags fd _ => inferInstanceAs (Decidable ((k.fds fd).isSome = true))
  | .listen fd => inferInstanceAs (Decidable ((k.fds fd).isSome = true))
  | .socket | .unlink _ | .umask _ | .close _ | .getFlags _ | .fork | .getpwnam _ | .chroot _
  | .chdir _ | .setgroups _ | .setresgid _ | .setresuid _ | .geteuid | .daemon | .socketpair
  | .malloc | .eventInit | .eventAdd _ | .eventDispatch => inferInstanceAs (Decidable True)

def Call.privileged : Call → Bool
  | chroot _ | setgroups _ | setresgid _ | setresuid _ => true
  | _ => false

def Kernel.free (k : Kernel) : Option Nat := (List.range 64).find? fun fd => (k.fds fd).isNone

/-- A plain call succeeds where it can, and needs root where the source relies on it. -/
def respondPlain (k : Kernel) (q : Call) : Reply × Kernel :=
  if k.Allows q ∧ (q.privileged → k.uids.effective = 0) then (.ok, k.after q)
  else (.failed .other, k)

/-- The answer where nothing fails without need, seen from the engine. -/
def respond (k : Kernel) : Call → Reply × Kernel
  | .socket =>
      match k.free with
      | some fd => (.fd fd, k.setFd fd (some .fresh))
      | none => (.failed .other, k)
  | .socketpair =>
      match k.free with
      | some a =>
          match (k.setFd a (some .fresh)).free with
          | some b => (.pair (a, b), (k.setFd a (some .fresh)).setFd b (some .fresh))
          | none => (.failed .other, k)
      | none => (.failed .other, k)
  | .umask mask => (.mask k.umask, { k with umask := mask })
  | .getFlags fd =>
      match k.fds fd with
      | some d => (.flags d.flags, k)
      | none => (.failed .other, k)
  | .fork => (.pid 0, { k with child := true })
  | .getpwnam user =>
      match k.passwd user with
      | some pw => (.user pw, k)
      | none => (.failed .other, k)
  | .geteuid => (.uid k.uids.effective, k)
  | .unlink path =>
      if k.files (k.resolve path) = none then (.failed .enoent, k)
      else (.ok, k.after (.unlink path))
  | q => respondPlain k q

theorem fds_of_free {fd : Nat} (h : k.free = some fd) : k.fds fd = none := by
  simpa using List.find?_some h

theorem serve_failed {q : Call} (hmay : q.mayFail) (hq : ∀ path, q ≠ .unlink path) :
    Serve k q (.failed .other) k :=
  .failed hmay fun path heq _ => absurd heq (hq path)

theorem respondPlain_serves {q : Call} (hplain : q.plain) (hq : ∀ path, q ≠ .unlink path) :
    Serve k q (respondPlain k q).1 (respondPlain k q).2 := by
  unfold respondPlain
  split_ifs with hallows
  · exact .ok hplain hallows.1
  · refine serve_failed ?_ hq
    -- the only plain call that cannot fail is always allowed
    cases q with
    | close fd => exact absurd ⟨trivial, fun h => by cases h⟩ hallows
    | umask mask => cases hplain
    | geteuid => cases hplain
    | _ => rfl

theorem respond_serves (k : Kernel) (q : Call) : Serve k q (respond k q).1 (respond k q).2 := by
  cases q with
  | socket =>
      simp only [respond]
      split
      · next fd hfd => exact .socket (fds_of_free hfd)
      · exact serve_failed rfl fun _ h => by cases h
  | socketpair =>
      simp only [respond]
      split
      · next a ha =>
          split
          · next b hb =>
              have hfree : Function.update k.fds a (some .fresh) b = none := fds_of_free hb
              have hne : a ≠ b := by
                rintro rfl
                rw [Function.update_self] at hfree
                cases hfree
              refine .socketpair hne (fds_of_free ha) ?_
              rwa [Function.update_of_ne hne.symm] at hfree
          · exact serve_failed rfl fun _ h => by cases h
      · exact serve_failed rfl fun _ h => by cases h
  | umask mask => exact .umask
  | getFlags fd =>
      simp only [respond]
      split
      · next d hd => exact .getFlags hd
      · exact serve_failed rfl fun _ h => by cases h
  | fork => exact .forkChild
  | getpwnam user =>
      simp only [respond]
      split
      · next pw hpw => exact .getpwnam hpw
      · exact serve_failed rfl fun _ h => by cases h
  | geteuid => exact .geteuid
  | unlink path =>
      simp only [respond]
      split_ifs with habsent
      · exact .failed rfl fun path' hq _ => by cases hq; exact habsent
      · exact .ok rfl trivial
  | _ => exact respondPlain_serves rfl fun _ h => by cases h

/-- The system at the start: root's, without any file, and with a user for the engine. -/
def booted : Kernel where
  child := false
  uids := .all 0
  gids := .all 0
  groups := [0]
  umask := 0o022
  root := []
  cwd := ⟨[], [47]⟩
  files := fun _ => none
  fds := fun fd => if fd < 3 then some .fresh else none
  passwd := fun user =>
    if user = ifconfigdUser then some ⟨570, 570, CStr.lit "/var/empty"⟩ else none
  events := []

/-! ## Runs -/

theorem guarded_of_returns {r : Option Nat} (h : Returns k₀ path k r) :
    Guarded k₀ path k.files := by
  cases r with
  | none =>
      obtain ⟨files, hfiles, rfl⟩ := h
      exact hfiles
  | some fd =>
      obtain ⟨_, _, rfl⟩ := h
      exact guarded_start.update (.inl rfl) (.inr rfl)

/-- At every point of `control_init` the socket is away or has mode 0660. If it returns 0
the socket stands at its path, which fits into the address; if it returns -1, neither the
descriptors nor the mask have changed. -/
theorem control_init_guards {p : Prog (Option Nat)}
    (h : Reaches Serve k₀ (controlInit path) k p) :
    Guarded k₀ path k.files ∧ ∀ r, p = .done r → Returns k₀ path k r := by
  have hmeets := controlInit_meets.reaches h
  cases p with
  | done r =>
      refine ⟨guarded_of_returns hmeets, ?_⟩
      rintro _ ⟨⟩
      exact hmeets
  | exit => exact ⟨hmeets, fun r hr => by cases hr⟩
  | ask q next => exact ⟨hmeets.1.1, fun r hr => by cases hr⟩

/-- The run in which no call fails. -/
def initRun : Kernel × Prog (Option Nat) :=
  (controlInit (CStr.lit "/var/run/ifconfigd.sock")).attend respond 16 booted

theorem control_init_guards_booted :
    initRun.1.files ⟨[], asciiBytes "/var/run/ifconfigd.sock"⟩ = some 0o660 ∧
      Guarded booted (CStr.lit "/var/run/ifconfigd.sock") initRun.1.files ∧
      ∀ r, initRun.2 = .done r →
        Returns booted (CStr.lit "/var/run/ifconfigd.sock") initRun.1 r :=
  ⟨by decide +kernel, control_init_guards (reaches_attend respond_serves 16 .refl)⟩

/-- The engine's run in which no call fails, up to its event loop. -/
def engineRun : Kernel × Prog Unit := (main (fun _ => true) []).attend respond 29 booted

def dispatching : Prog Unit → Bool
  | .ask .eventDispatch _ => true
  | _ => false

theorem exists_of_dispatching {p : Prog Unit} (h : dispatching p) :
    ∃ next, p = .ask .eventDispatch next := by
  unfold dispatching at h
  split at h
  · exact ⟨_, rfl⟩
  · cases h

end Ifconfigd.Startup
