import Mathlib.Logic.Function.Basic
import AsioServer.Ref.Json

/-!
# Heartbeats of processes (`_public.cpp`: `CSEM`, `CPActive`)

Any number of processes keep their heartbeats in a table in shared memory, each by
an object of its own. A step is what one process does between two points where
another can come in between: a system call, a look at one record, the write of one.
`init` and `AddPInfo` are taken apart into these steps, with what a system call
answers where it may fail; `P` blocks while the semaphore is zero.

A process may be gone at any point. Then the system gives back what it has taken
from the semaphore (`SEM_UNDO`), and its record stays. A pid is that of one process
at a time and may be used again later. The text of `pname` is the string in its
array, and a call is given its time where it asks for it.
-/

namespace AsioServer

/-- `MAXNUMP`. -/
def maxNump : Nat := 1000

/-- `st_procinfo`. -/
structure StProcinfo where
  pid : Int
  pname : Bytes
  timeout : Int
  atime : Int

/-- A record after `memset`. -/
def StProcinfo.zero : StProcinfo := ⟨0, [], 0, 0⟩

/-- Where a process stands in `AddPInfo`. -/
inductive ActivePc where
  /-- In no call. -/
  | idle
  /-- `CSEM::init`: `semget`, `semget` with `IPC_CREAT|IPC_EXCL`, `semget` again, `semctl`. -/
  | semget
  | semCreate
  | semAgain
  | semctl
  | shmget
  /-- The scan for the own pid. -/
  | scan (ii : Nat)
  | p
  /-- The scan for a free place. -/
  | find (ii : Nat)
  | write (pos : Nat)
  | v (ret : Bool)
  deriving DecidableEq

/-- What the end of a process gives back to the semaphore. -/
def ActivePc.undo : ActivePc → Nat
  | .find _ | .write _ | .v _ => 1
  | .idle | .semget | .semCreate | .semAgain | .semctl | .shmget | .scan _ | .p => 0

/-- A process with its `CPActive`. -/
structure ActiveProc where
  pc : ActivePc
  /-- `m_semid` is not -1. -/
  mSem : Bool
  /-- `m_pos`, if it is not -1. -/
  mPos : Option Nat
  stprocinfo : StProcinfo
  /-- What the last call of `AddPInfo` has returned. -/
  returned : Option Bool

namespace ActiveProc

/-- `CPActive()`. -/
def new : ActiveProc := ⟨.idle, false, none, .zero, none⟩

def goto (a : ActiveProc) (pc : ActivePc) : ActiveProc := { a with pc := pc }

def ret (a : ActiveProc) (res : Bool) : ActiveProc :=
  { a with pc := .idle, returned := some res }

/-- The next step of `AddPInfo`, on the semaphore and the table. `ok` is whether a system call
succeeds that may fail, and `now` what `time` answers. -/
def next (sem : Option Nat) (shm : Nat → StProcinfo) (a : ActiveProc) (ok : Bool) (now : Int) :
    Option (Option Nat × (Nat → StProcinfo) × ActiveProc) :=
  match a.pc with
  | .idle => none
  | .semget =>
      if ok then
        match sem with
        | some _ => some (sem, shm, { a with mSem := true, pc := .shmget })
        | none => some (sem, shm, a.goto .semCreate)
      else some (sem, shm, a.ret false)
  | .semCreate =>
      if ok then
        match sem with
        | some _ => some (sem, shm, a.goto .semAgain)
        | none => some (some 0, shm, { a with mSem := true, pc := .semctl })
      else some (sem, shm, a.ret false)
  | .semAgain =>
      if ok ∧ sem.isSome then some (sem, shm, { a with mSem := true, pc := .shmget })
      else some (sem, shm, a.ret false)
  | .semctl =>
      if ok then some (some 1, shm, a.goto .shmget) else some (sem, shm, a.ret false)
  | .shmget =>
      if ok then
        some (sem, shm, { a with stprocinfo := { a.stprocinfo with atime := now }, pc := .scan 0 })
      else some (sem, shm, a.ret false)
  | .scan ii =>
      if ii < maxNump then
        if (shm ii).pid = a.stprocinfo.pid then some (sem, shm, { a with mPos := some ii, pc := .p })
        else some (sem, shm, a.goto (.scan (ii + 1)))
      else some (sem, shm, a.goto .p)
  | .p =>
      match sem with
      | some (value + 1) =>
          match a.mPos with
          | none => some (some value, shm, a.goto (.find 0))
          | some pos => some (some value, shm, a.goto (.write pos))
      | _ => none
  | .find ii =>
      if ii < maxNump then
        if (shm ii).pid = 0 then some (sem, shm, { a with mPos := some ii, pc := .write ii })
        else some (sem, shm, a.goto (.find (ii + 1)))
      else some (sem, shm, a.goto (.v false))
  | .write pos => some (sem, Function.update shm pos a.stprocinfo, a.goto (.v true))
  | .v res => some (sem.map (· + 1), shm, a.ret res)

end ActiveProc

/-- The semaphore, once it exists, the table, and the processes by their pids. -/
structure ActiveState where
  sem : Option Nat
  shm : Nat → StProcinfo
  procs : Int → Option ActiveProc

/-- What a process does. -/
inductive ActiveOp where
  | addPInfo (timeout : Int) (pname : Option Bytes)
  /-- The next step of a call of `AddPInfo`. -/
  | next (ok : Bool) (now : Int)
  | uptATime (now : Int)
  /-- `~CPActive`. -/
  | destroy
  | crash

inductive ActiveEvent where
  | start (pid : Int)
  | run (pid : Int) (op : ActiveOp)

namespace ActiveState

/-- Before the first process, with whatever earlier ones have left in the table. -/
def start (shm : Nat → StProcinfo) : ActiveState := ⟨none, shm, fun _ => none⟩

def set (s : ActiveState) (pid : Int) (a : Option ActiveProc) : ActiveState :=
  { s with procs := Function.update s.procs pid a }

/-- A step of a process. -/
def opStep (s : ActiveState) (pid : Int) (a : ActiveProc) : ActiveOp → Option ActiveState
  | .addPInfo timeout pname =>
      if a.pc = .idle then
        if a.mPos.isSome then some (s.set pid (some (a.ret true)))
        else if a.mSem then some (s.set pid (some (a.ret false)))
        else
          let pname := ((pname.map cStr).getD []).take 50
          some (s.set pid
            (some { a with pc := .semget, stprocinfo := ⟨pid, pname, timeout, 0⟩ }))
      else none
  | .next ok now =>
      match a.next s.sem s.shm ok now with
      | none => none
      | some (sem, shm, a) => some ({ s with sem := sem, shm := shm }.set pid (some a))
  | .uptATime now =>
      if a.pc = .idle then
        match a.mPos with
        | none => some s
        | some pos =>
            some { s with shm := Function.update s.shm pos { s.shm pos with atime := now } }
      else none
  | .destroy =>
      if a.pc = .idle then
        match a.mPos with
        | none => some (s.set pid none)
        | some pos => some ({ s with shm := Function.update s.shm pos .zero }.set pid none)
      else none
  | .crash => some ({ s with sem := s.sem.map (· + a.pc.undo) }.set pid none)

end ActiveState

def activeStep (s : ActiveState) : ActiveEvent → Option ActiveState
  | .start pid =>
      if 0 < pid ∧ s.procs pid = none then some (s.set pid (some .new)) else none
  | .run pid op =>
      match s.procs pid with
      | none => none
      | some a => s.opStep pid a op

end AsioServer
