import Ifconfigd.Gate.Loop

/-!
# Calls of `ifconfig_gate`

The callers of `ifconfig_gate` build an argument vector of pointers, some of which
can be null, and pass its length. The loop reads a null pointer as a missing
argument where a command takes one, and through it where it looks for a command.

Handlers, and the ioctls for the media and the addresses after the loop, may end
the process. Which of them do is left to an environment.
-/

namespace Ifconfigd.Gate

open CLib

/-- What has become of the process. -/
inductive Process
  | running
  /-- It called `errx` in `ifconfig_gate` itself. -/
  | errx
  /-- A handler, or the work after the loop, ended it. -/
  | exited
  /-- It read through a null pointer. -/
  | crashed
  /-- It runs another program. -/
  | replaced
  deriving DecidableEq

/-- What ends the process, given the handler calls so far: the last handler call, or
the ioctls after the loop. -/
structure Env where
  exits : Exits
  fails : List Call → Bool

/-- The environment in which nothing ends the process. -/
def Env.never : Env := ⟨Gate.never, fun _ => false⟩

/-- `IFNAMSIZ`. -/
def ifnamsiz : Nat := 16

/-- The arguments before the first null pointer. -/
def wordsOf : List (Option CStr) → List CStr
  | some word :: rest => word :: wordsOf rest
  | none :: _ => []
  | [] => []

/-- `ifconfig_gate` with `argc` the length of the vector, after the calls `hist`. The
loop gets past the last word only to look for another command. -/
def ifconfigGate (inet6 : Bool) (env : Env) (argv : List (Option CStr)) (iface : CStr)
    (hist : List Call) : List Call × Process :=
  if ifnamsiz ≤ iface.length then (hist, .errx)
  else
    let t := gateLoop (gateCmds inet6) env.exits (dropAf inet6 (wordsOf argv)) hist
    match t.ending with
    | .finished =>
        if (wordsOf argv).length < argv.length then (t.calls, .crashed)
        else if env.fails t.calls then (t.calls, .exited)
        else (t.calls, .running)
    | .exited => (t.calls, .exited)
    | _ => (t.calls, .errx)

/-- Calls of `ifconfig_gate` one after the other, as long as they return. -/
def ifconfigGates (inet6 : Bool) (env : Env) (iface : CStr) :
    List (List (Option CStr)) → List Call → List Call × Process
  | [], hist => (hist, .running)
  | argv :: rest, hist =>
      match ifconfigGate inet6 env argv iface hist with
      | (hist, .running) => ifconfigGates inet6 env iface rest hist
      | stopped => stopped

/-- Handler calls one after the other, as long as they return. -/
def performAll (exits : Exits) : List Call → List Call → (List Call → Trace) → Trace
  | hist, [], rest => rest hist
  | hist, c :: calls, rest => perform exits hist c fun hist => performAll exits hist calls rest

theorem performAll_append (exits : Exits) (hist calls more : List Call)
    (rest : List Call → Trace) :
    performAll exits hist (calls ++ more) rest =
      performAll exits hist calls fun hist => performAll exits hist more rest := by
  induction calls generalizing hist with
  | nil => rfl
  | cons c calls ih => exact congrArg (perform exits hist c) (funext ih)

theorem performAll_never (hist calls : List Call) (rest : List Call → Trace) :
    performAll never hist calls rest = rest (hist ++ calls) := by
  induction calls generalizing hist with
  | nil => rw [performAll, List.append_nil]
  | cons c calls ih => rw [performAll, perform_never, ih, List.append_assoc, List.singleton_append]

/-- The calls out of a list that are made. -/
def made (exits : Exits) (hist : List Call) : List Call → List Call
  | [] => hist
  | c :: calls => if exits (hist ++ [c]) then hist ++ [c] else made exits (hist ++ [c]) calls

theorem performAll_calls (exits : Exits) (hist calls : List Call) (e : Ending) :
    (performAll exits hist calls fun hist => ⟨hist, e⟩).calls = made exits hist calls := by
  induction calls generalizing hist with
  | nil => rfl
  | cons c calls ih =>
      rw [performAll, perform, made]
      split
      · rfl
      · exact ih _

/-- No call is taken back. -/
theorem ifconfigGate_hist (inet6 : Bool) (env : Env) (argv : List (Option CStr)) (iface : CStr)
    (hist : List Call) : ∃ more, (ifconfigGate inet6 env argv iface hist).1 = hist ++ more := by
  rw [ifconfigGate]
  split
  · exact ⟨[], (List.append_nil hist).symm⟩
  · obtain ⟨more, hmore⟩ :=
      gateLoop_hist (gateCmds inet6) env.exits (dropAf inet6 (wordsOf argv)) hist
    refine ⟨more, ?_⟩
    rw [← hmore]
    dsimp only
    split
    · split
      · rfl
      · split <;> rfl
    · rfl
    · rfl

end Ifconfigd.Gate
