import Ifconfigd.Parent

/-!
# The life of the parent

The parent's event loop handles signals and the pipe to the engine. It ends in
`ifconfigd_shutdown`, which is entered from the signal handler when the engine is
gone, and after the loop when the pipe was closed. `ifconfigde_pid` is shared by
both: the handler clears it when `waitpid` has reported the engine.

The handler falls through from `SIGTERM` to `SIGINT` to `SIGCHLD`, and does in each
case the same: it looks whether the engine has exited.
-/

namespace Ifconfigd.Parent

/-! ## The engine as a child process -/

/-- What `waitpid` reports of a process that is gone: `WIFEXITED` or `WIFSIGNALED`. -/
inductive WaitStatus
  | exited (code : Nat)
  | signaled (sig : Nat)
  deriving DecidableEq

inductive ChildState
  | running
  /-- It is gone, and has not been waited for. -/
  | gone (status : WaitStatus)
  | reaped
  deriving DecidableEq

/-- The engine, the only child of the parent. -/
structure Child where
  pid : Nat
  state : ChildState

inductive Signal
  | sigterm | sigint | sigchld | sighup
  deriving DecidableEq

/-- Where the parent is. -/
inductive Phase
  | loop
  /-- In the loop around `wait` of `ifconfigd_shutdown`. -/
  | shutdown
  | exited
  deriving DecidableEq

/-- The parent with its child. `killed` records the signal `ifconfigd_shutdown` sends:
the process it is sent to, and the state the engine is in then. -/
structure Life (W : Type) where
  proc : Process W
  ifconfigdePid : Nat
  engine : Child
  phase : Phase
  killed : Option (Nat × ChildState)

namespace Life

variable {W : Type} (l : Life W)

/-- Control is in `event_dispatch`. -/
def InLoop : Prop := l.phase = .loop ∧ (l.proc.status = .running ∨ l.proc.status = .exiting)

instance : Decidable l.InLoop := inferInstanceAs (Decidable (_ ∧ _))

/-- The engine is gone and `waitpid` would report it. -/
def EngineGone : Prop := ∃ status, l.engine.state = .gone status

/-- `waitpid(pid, &status, WNOHANG)`, where 0 stands for any child. -/
def waitpid (pid : Nat) : Life W × Option WaitStatus :=
  match l.engine.state with
  | .gone status =>
      if pid = l.engine.pid ∨ pid = 0 then
        ({ l with engine := { l.engine with state := .reaped } }, some status)
      else (l, none)
  | _ => (l, none)

/-- `check_child`. -/
def checkChild (pid : Nat) : Life W × Bool :=
  match l.waitpid pid with
  | (l, some (.exited _)) => (l, true)
  | (l, some (.signaled _)) => (l, true)
  | (l, none) => (l, false)

/-- `ifconfigd_shutdown` up to its loop. -/
def ifconfigdShutdown : Life W :=
  { l with
    phase := .shutdown
    killed := if l.ifconfigdePid ≠ 0 then some (l.ifconfigdePid, l.engine.state) else l.killed }

/-- What each case of the handler does; `ifconfigd_shutdown` does not return. -/
def checkEngine : Except (Life W) (Life W) :=
  match l.checkChild l.ifconfigdePid with
  | (l, true) => .error ({ l with ifconfigdePid := 0 } : Life W).ifconfigdShutdown
  | (l, false) => .ok l

/-- `ifconfigd_sig_handler`. -/
def ifconfigdSigHandler (sig : Signal) : Except (Life W) (Life W) :=
  match sig with
  | .sigterm => do
      let l ← l.checkEngine
      let l ← l.checkEngine
      l.checkEngine
  | .sigint => do
      let l ← l.checkEngine
      l.checkEngine
  | .sigchld => l.checkEngine
  | .sighup => .ok l

/-- The parent when the handler has returned or `ifconfigd_shutdown` is entered. -/
def afterSignal (sig : Signal) : Life W :=
  match l.ifconfigdSigHandler sig with
  | .ok l | .error l => l

end Life

/-! ## Runs -/

/-- What can happen: a signal or the pipe is handled, the loop is left after
`event_loopexit`, a call of `wait` in `ifconfigd_shutdown` returns, or the engine
exits. -/
inductive LifeEvent
  | signal (sig : Signal)
  | pipe (event : Events) (recv : Recv) (send : Send)
  | loopExit
  | wait
  | engineExit (status : WaitStatus)

/-- Whether it is something the parent does. -/
def LifeEvent.byParent : LifeEvent → Bool
  | .engineExit _ => false
  | _ => true

variable {W : Type} (env : Callees W)

/-- One step; `none` if the event cannot happen in this state. The pipe has no event any
more once the loop is being left. `wait` reaps the engine when it is gone, and fails
when there is no child left, which ends the process. -/
def lifeStep (l : Life W) : LifeEvent → Option (Life W)
  | .signal sig => if l.InLoop then some (l.afterSignal sig) else none
  | .pipe event recv send =>
      if l.InLoop ∧ l.proc.status = .running then
        some { l with proc := mainDispatchIfconfigde env l.proc event recv send }
      else none
  | .loopExit => if l.InLoop ∧ l.proc.status = .exiting then some l.ifconfigdShutdown else none
  | .wait =>
      if l.phase = .shutdown then
        match l.engine.state with
        | .running => none
        | .gone _ => some { l with engine := { l.engine with state := .reaped } }
        | .reaped => some { l with phase := .exited }
      else none
  | .engineExit status =>
      if l.engine.state = .running then
        some { l with engine := { l.engine with state := .gone status } }
      else none

/-- The state after a run. -/
def lifeRun (l : Life W) (es : List LifeEvent) : Option (Life W) := es.foldlM (lifeStep env) l

/-- The parent as `main` enters `event_dispatch`. -/
structure Started (l : Life W) : Prop where
  pid : l.ifconfigdePid = l.engine.pid
  pid_ne : l.engine.pid ≠ 0
  engine : l.engine.state ≠ .reaped
  phase : l.phase = .loop
  killed : l.killed = none

/-- The parent does nothing more, or nothing more than leave the loop. -/
def Undisturbed (es : List LifeEvent) : Prop :=
  ∀ e, es.find? LifeEvent.byParent = some e → e = .loopExit

/-- The life cycle of the parent along a run: after `SIGTERM` or `SIGINT` it enters
`ifconfigd_shutdown` before it handles anything else; so it does when `waitpid` has
reported the engine; `SIGHUP` does not lead there; and the process
`ifconfigd_shutdown` sends a signal to has not been reaped. -/
structure LifeCycle (l₀ : Life W) (es : List LifeEvent) : Prop where
  terminates : ∀ es₁ sig es₂ l, es = es₁ ++ .signal sig :: es₂ → sig = .sigterm ∨ sig = .sigint →
    lifeRun env l₀ es₁ = some l → l.InLoop →
      (l.afterSignal sig).phase = .shutdown ∨ Undisturbed es₂
  reported : ∀ es₁ sig es₂ l, es = es₁ ++ .signal sig :: es₂ → sig ≠ .sighup →
    lifeRun env l₀ es₁ = some l → l.InLoop → (l.waitpid l.ifconfigdePid).2 ≠ none →
      (l.afterSignal sig).phase = .shutdown
  sighup : ∀ es₁ es₂ l, es = es₁ ++ .signal .sighup :: es₂ → lifeRun env l₀ es₁ = some l →
    l.InLoop → (l.afterSignal .sighup).phase ≠ .shutdown
  kill : ∀ es₁ es₂ l, es = es₁ ++ es₂ → lifeRun env l₀ es₁ = some l →
    ∀ pid state, l.killed = some (pid, state) → pid = l.engine.pid → state ≠ .reaped

section Signals

variable {l : Life W}

theorem checkEngine_of_not_gone (h : ¬l.EngineGone) : l.checkEngine = .ok l := by
  rw [Life.checkEngine, Life.checkChild, Life.waitpid]
  cases hstate : l.engine.state with
  | gone status => exact absurd ⟨status, hstate⟩ h
  | running => rfl
  | reaped => rfl

theorem afterSignal_of_not_gone (h : ¬l.EngineGone) (sig : Signal) : l.afterSignal sig = l := by
  cases sig <;> simp [Life.afterSignal, Life.ifconfigdSigHandler, checkEngine_of_not_gone h, bind,
    Except.bind]

/-- The parent after the handler has found the engine gone. -/
def Life.lost (l : Life W) : Life W :=
  { l with phase := .shutdown, ifconfigdePid := 0, engine := { l.engine with state := .reaped } }

theorem checkEngine_of_gone (hpid : l.ifconfigdePid = l.engine.pid) (h : l.EngineGone) :
    l.checkEngine = .error l.lost := by
  obtain ⟨status, hstate⟩ := h
  rw [Life.checkEngine, Life.checkChild, Life.waitpid, hstate, hpid]
  cases status <;> simp [Life.ifconfigdShutdown, Life.lost]

theorem afterSignal_of_gone (hpid : l.ifconfigdePid = l.engine.pid) (h : l.EngineGone)
    {sig : Signal} (hsig : sig ≠ .sighup) : l.afterSignal sig = l.lost := by
  cases sig with
  | sighup => exact absurd rfl hsig
  | _ =>
      simp [Life.afterSignal, Life.ifconfigdSigHandler, checkEngine_of_gone hpid h, bind,
        Except.bind]

theorem engineGone_of_waitpid {pid : Nat} (h : (l.waitpid pid).2 ≠ none) : l.EngineGone := by
  rw [Life.waitpid] at h
  cases hstate : l.engine.state with
  | gone status => exact ⟨status, hstate⟩
  | running =>
      rw [hstate] at h
      exact absurd rfl h
  | reaped =>
      rw [hstate] at h
      exact absurd rfl h

end Signals

/-! ## The invariant -/

/-- In the loop `ifconfigde_pid` is the engine, which has not been reaped; and no signal
has been sent to a process that had been. -/
structure LifeInv (l : Life W) : Prop where
  pid_ne : l.engine.pid ≠ 0
  loop : l.phase = .loop →
    l.ifconfigdePid = l.engine.pid ∧ l.engine.state ≠ .reaped ∧ l.killed = none
  killed : ∀ pid state, l.killed = some (pid, state) → state ≠ .reaped

theorem Started.inv {l : Life W} (h : Started l) : LifeInv l where
  pid_ne := h.pid_ne
  loop _ := ⟨h.pid, h.engine, h.killed⟩
  killed pid state hkilled := by
    rw [h.killed] at hkilled
    cases hkilled

theorem LifeInv.step {l l' : Life W} {e : LifeEvent} (h : LifeInv l)
    (hstep : lifeStep env l e = some l') : LifeInv l' := by
  cases e with
  | signal sig =>
      simp only [lifeStep, Option.ite_none_right_eq_some, Option.some.injEq] at hstep
      obtain ⟨hloop, rfl⟩ := hstep
      obtain ⟨hpid, hreaped, hkilled⟩ := h.loop hloop.1
      by_cases hgone : l.EngineGone ∧ sig ≠ .sighup
      · rw [afterSignal_of_gone hpid hgone.1 hgone.2]
        refine ⟨h.pid_ne, ?_, h.killed⟩
        intro hphase
        cases hphase
      · have hsame : l.afterSignal sig = l := by
          by_cases hsig : sig = .sighup
          · subst hsig
            rfl
          · exact afterSignal_of_not_gone (fun hg => hgone ⟨hg, hsig⟩) sig
        rw [hsame]
        exact h
  | pipe event recv send =>
      simp only [lifeStep, Option.ite_none_right_eq_some, Option.some.injEq] at hstep
      obtain ⟨-, rfl⟩ := hstep
      exact ⟨h.pid_ne, h.loop, h.killed⟩
  | loopExit =>
      simp only [lifeStep, Option.ite_none_right_eq_some, Option.some.injEq] at hstep
      obtain ⟨⟨hloop, -⟩, rfl⟩ := hstep
      obtain ⟨hpid, hreaped, hkilled⟩ := h.loop hloop.1
      refine ⟨h.pid_ne, ?_, ?_⟩
      · intro hphase
        cases hphase
      · intro pid state hsent
        rw [Life.ifconfigdShutdown, hpid] at hsent
        simp only [h.pid_ne, ne_eq, not_false_eq_true, if_true, Option.some.injEq,
          Prod.mk.injEq] at hsent
        rw [← hsent.2]
        exact hreaped
  | wait =>
      simp only [lifeStep, Option.ite_none_right_eq_some] at hstep
      obtain ⟨hphase, hstep⟩ := hstep
      split at hstep
      · cases hstep
      · cases hstep
        refine ⟨h.pid_ne, ?_, h.killed⟩
        intro hloop
        cases hphase.symm.trans hloop
      · cases hstep
        refine ⟨h.pid_ne, ?_, h.killed⟩
        intro hloop
        cases hloop
  | engineExit status =>
      simp only [lifeStep, Option.ite_none_right_eq_some, Option.some.injEq] at hstep
      obtain ⟨-, rfl⟩ := hstep
      refine ⟨h.pid_ne, ?_, h.killed⟩
      intro hloop
      obtain ⟨hpid, -, hkilled⟩ := h.loop hloop
      exact ⟨hpid, by simp, hkilled⟩

theorem LifeInv.run {l l' : Life W} {es : List LifeEvent} (h : LifeInv l)
    (hrun : lifeRun env l es = some l') : LifeInv l' := by
  induction es generalizing l with
  | nil =>
      cases hrun
      exact h
  | cons e es ih =>
      rw [lifeRun, List.foldlM_cons, Option.bind_eq_bind, Option.bind_eq_some_iff] at hrun
      obtain ⟨l₁, hstep, hrest⟩ := hrun
      exact ih (h.step env hstep) hrest

/-- The life cycle is kept along a run exactly if each `SIGTERM` and `SIGINT` finds the
engine gone, or nothing is handled after it. -/
theorem lifeCycle_iff {l₀ : Life W} (hstart : Started l₀) (es : List LifeEvent) :
    LifeCycle env l₀ es ↔
      ∀ es₁ sig es₂ l, es = es₁ ++ .signal sig :: es₂ → sig = .sigterm ∨ sig = .sigint →
        lifeRun env l₀ es₁ = some l → l.InLoop → l.EngineGone ∨ Undisturbed es₂ := by
  constructor
  · intro h es₁ sig es₂ l hes hsig hrun hloop
    rcases h.terminates es₁ sig es₂ l hes hsig hrun hloop with hshut | hrest
    · refine .inl ?_
      by_contra hgone
      rw [afterSignal_of_not_gone hgone, hloop.1] at hshut
      cases hshut
    · exact .inr hrest
  · intro h
    have hinv : ∀ {es₁ l}, lifeRun env l₀ es₁ = some l → LifeInv l :=
      fun hrun => hstart.inv.run env hrun
    refine ⟨?_, ?_, ?_, ?_⟩
    · intro es₁ sig es₂ l hes hsig hrun hloop
      rcases h es₁ sig es₂ l hes hsig hrun hloop with hgone | hrest
      · have hne : sig ≠ .sighup := by
          rintro rfl
          simp at hsig
        rw [afterSignal_of_gone ((hinv hrun).loop hloop.1).1 hgone hne]
        exact .inl rfl
      · exact .inr hrest
    · intro es₁ sig es₂ l hes hsig hrun hloop hreported
      rw [afterSignal_of_gone ((hinv hrun).loop hloop.1).1 (engineGone_of_waitpid hreported) hsig]
      rfl
    · intro es₁ es₂ l hes hrun hloop hshut
      cases hloop.1.symm.trans hshut
    · intro es₁ es₂ l hes hrun pid state hkilled _
      exact (hinv hrun).killed pid state hkilled

/-- The parent after start-up, with an engine of process id 2. -/
def freshLife : Life Unit := ⟨.init 3 1 (), 2, ⟨2, .running⟩, .loop, none⟩

/-- Actions that return and change nothing. -/
def idleCallees : Callees Unit := ⟨fun _ w => some w, fun _ _ => 0⟩

theorem freshLife_started : Started freshLife := by
  constructor <;> decide

/-- `SIGTERM` after the engine has exited. -/
theorem lifeCycle_iff_exited :
    LifeCycle idleCallees freshLife [.engineExit (.exited 0), .signal .sigterm] := by
  refine (lifeCycle_iff idleCallees freshLife_started _).2 ?_
  intro es₁ sig es₂ l hes hsig hrun hloop
  rcases es₁ with _ | ⟨e₁, _ | ⟨e₂, es₁⟩⟩
  · cases hes
  · cases hes
    cases hrun
    exact .inl ⟨_, rfl⟩
  · simp at hes

/-- While the engine is running, `SIGTERM` is ignored, and the parent goes on handling
signals. -/
theorem sigterm_ignored :
    ¬LifeCycle idleCallees freshLife [.signal .sigterm, .signal .sighup] := by
  intro h
  rcases h.terminates [] .sigterm [.signal .sighup] freshLife rfl (.inl rfl) rfl (by decide) with
    hshut | hrest
  · cases hshut
  · cases hrest _ rfl

end Ifconfigd.Parent
