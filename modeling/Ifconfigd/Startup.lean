import Mathlib.Logic.Function.Basic
import Ifconfigd.Lib.Getopt
import Ifconfigd.Lib.Served
import Ifconfigd.Parent.LifeCycle

/-!
# Starting the daemon

`main` reads its options and the configuration, forks the engine and enters its event loop.
The engine creates the control socket, gives up its privileges and enters an event loop of
its own. This module models both up to their loops, as programs whose questions are the
calls of the system and of the event library, together with the state that these calls
change.

Every call that can fail may fail at any time, and a call that succeeds does so without a
check of permissions: what is proved does not depend on the kernel's own checks. No other
process changes the files meanwhile, and two names are the same file only if they are equal.
-/

namespace Ifconfigd.Startup

open CLib Dialogue

/-! ## The system -/

/-- The values of `errno` that are told apart. -/
inductive Errno
  | enoent
  | other
  deriving DecidableEq, Repr

/-- The permission bits of a file. -/
abbrev Mode := BitVec 9

structure Passwd where
  uid : Nat
  gid : Nat
  dir : CStr

/-- The real, effective and saved id. -/
structure Ids where
  real : Nat
  effective : Nat
  saved : Nat
  deriving DecidableEq

def Ids.all (n : Nat) : Ids := ⟨n, n, n⟩

/-- A file name below a root directory, the one that these calls of `chroot` lead to. -/
structure Place where
  root : List CStr
  name : List Byte
  deriving DecidableEq

structure Descriptor where
  bound : Option Place
  listening : Bool
  flags : BitVec 32
  deriving DecidableEq

def Descriptor.fresh : Descriptor := ⟨none, false, 0⟩

inductive Event
  | read (fd : Nat)
  | signal (s : Parent.Signal)
  deriving DecidableEq

/-- The system as one process sees it. -/
structure Kernel where
  /-- The process is the one that `fork` made. -/
  child : Bool
  uids : Ids
  gids : Ids
  groups : List Nat
  umask : Mode
  root : List CStr
  cwd : Place
  files : Place → Option Mode
  fds : Nat → Option Descriptor
  passwd : CStr → Option Passwd
  /-- The events added since `event_init`. -/
  events : List Event

inductive Call
  | socket
  | unlink (path : CStr)
  | umask (mask : Mode)
  | bind (fd : Nat) (path : CStr)
  | chmod (path : CStr) (mode : Mode)
  | close (fd : Nat)
  | getFlags (fd : Nat)
  | setFlags (fd : Nat) (flags : BitVec 32)
  | listen (fd : Nat)
  | fork
  | getpwnam (user : CStr)
  | chroot (dir : CStr)
  | chdir (dir : CStr)
  | setgroups (groups : List Nat)
  | setresgid (gids : Ids)
  | setresuid (uids : Ids)
  | geteuid
  | daemon
  | socketpair
  | malloc
  | eventInit
  | eventAdd (e : Event)
  | eventDispatch
  deriving DecidableEq

inductive Reply
  | ok
  | failed (errno : Errno)
  | fd (fd : Nat)
  | pair (fds : Nat × Nat)
  | mask (old : Mode)
  | flags (flags : BitVec 32)
  | pid (pid : Nat)
  | user (pw : Passwd)
  | uid (uid : Nat)

/-- The calls that only succeed or fail. -/
def Call.plain : Call → Bool
  | socket | umask _ | getFlags _ | fork | getpwnam _ | geteuid | socketpair => false
  | _ => true

/-- `umask`, `geteuid` and `close` always do their work. -/
def Call.mayFail : Call → Bool
  | umask _ | geteuid | close _ => false
  | _ => true

namespace Kernel

variable (k : Kernel)

def resolve (path : CStr) : Place :=
  if path.bytes.head? = some 47 then ⟨k.root, path.bytes⟩
  else ⟨k.cwd.root, k.cwd.name ++ 47 :: path.bytes⟩

def setFile (path : CStr) (mode : Option Mode) : Kernel :=
  { k with files := Function.update k.files (k.resolve path) mode }

def setFd (fd : Nat) (d : Option Descriptor) : Kernel :=
  { k with fds := Function.update k.fds fd d }

/-- What has to hold where a plain call succeeds. -/
def Allows : Call → Prop
  | .bind fd path => (k.fds fd).isSome ∧ k.files (k.resolve path) = none
  | .chmod path _ => (k.files (k.resolve path)).isSome
  | .setFlags fd _ => (k.fds fd).isSome
  | .listen fd => (k.fds fd).isSome
  | _ => True

/-- The state after a plain call that succeeds. -/
def after : Call → Kernel
  | .unlink path => k.setFile path none
  | .bind fd path =>
      -- a socket is created with all permissions but those of the mask
      (k.setFile path (some (~~~k.umask))).setFd fd
        ((k.fds fd).map fun d => { d with bound := some (k.resolve path) })
  | .chmod path mode => k.setFile path (some mode)
  | .close fd => k.setFd fd none
  | .setFlags fd flags => k.setFd fd ((k.fds fd).map fun d => { d with flags := flags })
  | .listen fd => k.setFd fd ((k.fds fd).map fun d => { d with listening := true })
  | .chroot dir => { k with root := k.root ++ [dir] }
  | .chdir dir => { k with cwd := k.resolve dir }
  | .setgroups groups => { k with groups := groups }
  | .setresgid gids => { k with gids := gids }
  | .setresuid uids => { k with uids := uids }
  | .eventInit => { k with events := [] }
  | .eventAdd e => { k with events := k.events ++ [e] }
  | _ => k

end Kernel

/-- The kernel can answer a call like this, and be in this state then. -/
inductive Serve (k : Kernel) : Call → Reply → Kernel → Prop
  | ok {q : Call} (hq : q.plain) (h : k.Allows q) : Serve k q .ok (k.after q)
  | failed {q : Call} {e : Errno} (hq : q.mayFail)
      (habsent : ∀ path, q = .unlink path → e = .enoent → k.files (k.resolve path) = none) :
      Serve k q (.failed e) k
  | socket {fd : Nat} (hfd : k.fds fd = none) :
      Serve k .socket (.fd fd) (k.setFd fd (some .fresh))
  | umask {mask : Mode} : Serve k (.umask mask) (.mask k.umask) { k with umask := mask }
  | getFlags {fd : Nat} {d : Descriptor} (hd : k.fds fd = some d) :
      Serve k (.getFlags fd) (.flags d.flags) k
  | forkParent {pid : Nat} (hpid : pid ≠ 0) : Serve k .fork (.pid pid) k
  | forkChild : Serve k .fork (.pid 0) { k with child := true }
  | getpwnam {user : CStr} {pw : Passwd} (hpw : k.passwd user = some pw) :
      Serve k (.getpwnam user) (.user pw) k
  | geteuid : Serve k .geteuid (.uid k.uids.effective) k
  | socketpair {a b : Nat} (hne : a ≠ b) (ha : k.fds a = none) (hb : k.fds b = none) :
      Serve k .socketpair (.pair (a, b)) ((k.setFd a (some .fresh)).setFd b (some .fresh))

/-! ## The programs -/

abbrev Prog := Proc Call Reply

/-- A call whose failure is fatal. -/
def must (q : Call) : Prog Unit :=
  .ask q fun
    | .ok => .done ()
    | _ => .exit

/-- Whether a call succeeds. -/
def attempt (q : Call) : Prog Bool :=
  .ask q fun
    | .ok => .done true
    | _ => .done false

/-- `umask`, with the mask there was before. -/
def umask (mask : Mode) : Prog Mode :=
  .ask (.umask mask) fun
    | .mask old => .done old
    | _ => .exit

/-- `O_NONBLOCK`. -/
def oNonblock : BitVec 32 := 0x0004

inductive Blockmodes
  | normal
  | nonblock

/-- `session_socket_blockmode`. -/
def sessionSocketBlockmode (fd : Nat) (bm : Blockmodes) : Prog Unit :=
  .ask (.getFlags fd) fun
    | .flags flags =>
        match bm with
        | .nonblock => must (.setFlags fd (flags ||| oNonblock))
        | .normal => must (.setFlags fd (flags &&& ~~~oNonblock))
    | _ => .exit

/-- `sizeof(sun.sun_path)`. -/
def sunPathSize : Nat := 104

/-- `control_init` from `umask` on. -/
def controlBind (path : CStr) (fd : Nat) : Prog (Option Nat) := do
  let oldUmask ← umask 0o117
  if ← attempt (.bind fd (path.strlcpy sunPathSize)) then
    let _ ← umask oldUmask
    if ← attempt (.chmod path 0o660) then
      sessionSocketBlockmode fd .nonblock
      pure (some fd)
    else
      let _ ← attempt (.close fd)
      let _ ← attempt (.unlink path)
      pure none
  else
    let _ ← attempt (.close fd)
    let _ ← umask oldUmask
    pure none

/-- `control_init`: the descriptor it puts into `control_state`, none if it returns -1. -/
def controlInit (path : CStr) : Prog (Option Nat) :=
  .ask .socket fun
    | .fd fd =>
        .ask (.unlink path) fun
          | .failed .other => do
              let _ ← attempt (.close fd)
              pure none
          | _ => controlBind path fd
    | _ => .done none

/-- `control_listen`, whose result the engine does not look at. -/
def controlListen (fd : Nat) : Prog Unit := do
  if ← attempt (.listen fd) then
    let _ ← attempt (.eventAdd (.read fd))

/-- `IFCONFIGD_USER`. -/
def ifconfigdUser : CStr := CStr.lit "_ifconfigd"

/-- The engine gives up its privileges. -/
def dropPrivileges (pw : Passwd) : Prog Unit := do
  must (.chroot pw.dir)
  must (.chdir (CStr.lit "/"))
  must (.setgroups [pw.gid])
  must (.setresgid (.all pw.gid))
  must (.setresuid (.all pw.uid))

/-- The engine from its end of the pipe on. -/
def engineLoop (pipe : Nat × Nat) : Prog Nat := do
  let _ ← attempt (.close pipe.1)
  must .malloc
  let _ ← attempt (.eventAdd (.read pipe.2))
  let _ ← attempt .eventDispatch
  .exit

/-- The child in `ifconfigde`. -/
def engine (csock : CStr) (pipe : Nat × Nat) : Prog Nat := do
  match ← controlInit csock with
  | none => .exit
  | some fd =>
      .ask (.getpwnam ifconfigdUser) fun
        | .user pw => do
            dropPrivileges pw
            must .eventInit
            controlListen fd
            engineLoop pipe
        | _ => .exit

/-- `ifconfigde`, with the pid it returns in the parent. -/
def ifconfigde (csock : CStr) (pipe : Nat × Nat) : Prog Nat :=
  .ask .fork fun
    | .pid 0 => engine csock pipe
    | .pid pid => .done pid
    | _ => .exit

/-- `main` from the return of `ifconfigde` to the end of its event loop. -/
def parentLoop (pipe : Nat × Nat) : Prog Unit := do
  must .eventInit
  let _ ← attempt (.eventAdd (.signal .sigint))
  let _ ← attempt (.eventAdd (.signal .sigterm))
  let _ ← attempt (.eventAdd (.signal .sigchld))
  let _ ← attempt (.eventAdd (.signal .sighup))
  let _ ← attempt (.close pipe.2)
  must .malloc
  let _ ← attempt (.eventAdd (.read pipe.1))
  let _ ← attempt .eventDispatch
  pure ()

/-- What the options set; nothing reads `verbose`. -/
structure Settings where
  debug : Bool
  csockpath : CStr
  conffile : CStr

/-- The option string `vds:f:`. -/
def optstring : List Byte := asciiBytes "vds:f:"

/-- The `switch` over an option. -/
def Settings.option (s : Settings) (o : Byte × Option CStr) : Settings :=
  if o.1 = 100 then { s with debug := true }
  else if o.1 = 115 then { s with csockpath := o.2.getD s.csockpath }
  else if o.1 = 102 then { s with conffile := o.2.getD s.conffile }
  else s

def settings (opts : List (Byte × Option CStr)) : Settings :=
  opts.foldl Settings.option
    ⟨false, CStr.lit "/var/run/ifconfigd.sock", CStr.lit "/etc/ifconfigd.conf"⟩

/-- `main` from `socketpair` on. -/
def launch (s : Settings) : Prog Unit :=
  .ask .socketpair fun
    | .pair pipe => do
        sessionSocketBlockmode pipe.1 .nonblock
        sessionSocketBlockmode pipe.2 .nonblock
        let _ ← ifconfigde s.csockpath pipe
        parentLoop pipe
    | _ => .exit

/-- `main` once the configuration is read. -/
def start (s : Settings) : Prog Unit :=
  .ask .geteuid fun
    | .uid 0 =>
        .ask (.getpwnam ifconfigdUser) fun
          | .user _ => do
              if ¬s.debug then must .daemon
              launch s
          | _ => .exit
    | _ => .exit

/-- `main`, without the name of the program; `accepts` says for which files `parse_config`
returns a configuration. -/
def main (accepts : CStr → Bool) (argv : List CStr) : Prog Unit :=
  match Getopt.readOptions optstring ⟨[], argv⟩ with
  | .error _ => .exit
  | .ok (opts, _) => if accepts (settings opts).conffile then start (settings opts) else .exit

end Ifconfigd.Startup
