import Mathlib.Logic.Function.Basic
import AsioServer.Ref.CServer
import AsioServer.Ref.MsgNode

/-!
# The logic queue (`LogicSystem.h`, `LogicSystem.cpp`)

Any number of threads post messages, one worker dispatches them, and the
destructor stops it. A step is what one thread does between two points where
another can come in between: taking `_mutex`, a test or a change of the data it
guards, releasing it, notifying, being woken. `wait` releases the mutex and
blocks in one step; a blocked worker is woken by a `notify_one`, or without one
(spuriously), and takes the mutex again before it goes on. A `notify_one` with
nobody blocked is lost.

The dispatch code stands twice in `DealMsg`, once in the loop and once in the
loop that empties the queue after `_b_stop`, and twice in `workerStep`. The
callbacks themselves are one step each here: they run with the mutex held and
return.
-/

namespace AsioServer

structure LogicNode where
  session : Uuid
  recvnode : RecvNode

/-- A message with an empty payload. -/
def emptyNode (session : Uuid) (msgId : Int) : LogicNode where
  session := session
  recvnode :=
    { curLen := 0
      totalLen := 0
      data := [some 0]
      total_nonneg := by decide
      alloc := by decide
      msgId := msgId }

inductive CallBack where
  | helloWord
  | register
  | login
  | logout
  | addFriend
  | oneChat
  | joinGroup
  | createGroup
  | groupChat
  deriving DecidableEq, Repr

/-- `RegisterCallBacks`: the pairs in the order of the calls of `insert`. -/
def registerCallBacks : List (Int × CallBack) :=
  [(msgHelloWord, .helloWord),
    (msgRegister, .register),
    (msgLogin, .login),
    (msgLogout, .logout),
    (msgAddFriend, .addFriend),
    (msgOneChat, .oneChat),
    (msgJoinGroup, .joinGroup),
    (msgCreateGroup, .createGroup),
    (msgGroupChat, .groupChat)]

/-- `_fun_callbacks.find`: a map keeps the first pair inserted under a key. -/
def findCallBack (msgId : Int) : Option CallBack := registerCallBacks.lookup msgId

/-! ## Threads -/

inductive Thread where
  | worker
  | poster (i : Nat)
  deriving DecidableEq

/-- Where a thread stands in `PostMsgToQue`. `pushed` remembers whether the
queue has one element. -/
inductive PosterPc where
  | idle
  | lock (msg : LogicNode)
  | push (msg : LogicNode)
  | pushed (first : Bool)
  | notify

/-- Where the worker stands in `DealMsg`. -/
inductive WorkerPc where
  | lock
  | test
  | wait
  | blocked
  | woken
  | decide
  | dispatch
  | pop
  | unlock
  | drain
  | drainPop
  | done
  deriving DecidableEq

inductive DestructorPc where
  | running
  | notify
  | join
  | joined
  deriving DecidableEq

/-- `pushed` and `popped` are the messages that entered and left the queue,
`calls` the callbacks that were called, all of them in order. -/
structure LogicState where
  owner : Option Thread
  msgQue : List LogicNode
  bStop : Bool
  worker : WorkerPc
  posters : Nat → PosterPc
  destructor : DestructorPc
  fault : Option Fault
  pushed : List LogicNode
  popped : List LogicNode
  calls : List (CallBack × LogicNode)

def LogicState.setPoster (s : LogicState) (i : Nat) (pc : PosterPc) : LogicState :=
  { s with posters := Function.update s.posters i pc }

/-- `_consume.notify_one()`. -/
def LogicState.notifyOne (s : LogicState) : LogicState :=
  { s with worker := if s.worker = .blocked then .woken else s.worker }

/-- `_msg_que.pop()`, and where the worker goes on. -/
def LogicState.popFront (s : LogicState) (pc : WorkerPc) : LogicState :=
  match s.msgQue with
  | [] => { s with fault := some .outOfBounds }
  | msg :: rest => { s with msgQue := rest, popped := s.popped ++ [msg], worker := pc }

/-- `PostMsgToQue`, from the point `i` has reached. -/
def posterStep (s : LogicState) (i : Nat) : Option LogicState :=
  match s.posters i with
  | .idle => none
  | .lock msg =>
      if s.owner = none then some ({ s with owner := some (.poster i) }.setPoster i (.push msg))
      else none
  | .push msg =>
      let msgQue := s.msgQue ++ [msg]
      some ({ s with msgQue := msgQue, pushed := s.pushed ++ [msg] }.setPoster i
        (.pushed (msgQue.length == 1)))
  | .pushed first =>
      some ({ s with owner := none }.setPoster i (if first then .notify else .idle))
  | .notify => some (s.notifyOne.setPoster i .idle)

/-- `DealMsg`, from the point the worker has reached. -/
def workerStep (s : LogicState) : Option LogicState :=
  match s.worker with
  | .lock =>
      if s.owner = none then some { s with owner := some .worker, worker := .test } else none
  | .test =>
      if s.msgQue.isEmpty && !s.bStop then some { s with worker := .wait }
      else some { s with worker := .decide }
  | .wait => some { s with owner := none, worker := .blocked }
  | .blocked => none
  | .woken =>
      if s.owner = none then some { s with owner := some .worker, worker := .test } else none
  | .decide => some { s with worker := if s.bStop then .drain else .dispatch }
  | .dispatch =>
      match s.msgQue.head? with
      | none => some { s with fault := some .outOfBounds }
      | some msg =>
          match findCallBack msg.recvnode.msgId with
          | none => some (s.popFront .unlock)
          | some callBack => some { s with calls := s.calls ++ [(callBack, msg)], worker := .pop }
  | .pop => some (s.popFront .unlock)
  | .unlock => some { s with owner := none, worker := .lock }
  | .drain =>
      match s.msgQue.head? with
      | none => some { s with owner := none, worker := .done }
      | some msg =>
          match findCallBack msg.recvnode.msgId with
          | none => some (s.popFront .drain)
          | some callBack =>
              some { s with calls := s.calls ++ [(callBack, msg)], worker := .drainPop }
  | .drainPop => some (s.popFront .drain)
  | .done => none

/-- `~LogicSystem`. `_b_stop` is set without the mutex. -/
def destructorStep (s : LogicState) : Option LogicState :=
  match s.destructor with
  | .running => some { s with bStop := true, destructor := .notify }
  | .notify => some { s.notifyOne with destructor := .join }
  | .join => if s.worker = .done then some { s with destructor := .joined } else none
  | .joined => none

inductive LogicAction where
  /-- Thread `i` calls `PostMsgToQue`. -/
  | post (i : Nat) (msg : LogicNode)
  | poster (i : Nat)
  | worker
  | spuriousWakeUp
  | destructor

def logicStep (s : LogicState) : LogicAction → Option LogicState
  | .post i msg =>
      match s.posters i with
      | .idle => some (s.setPoster i (.lock msg))
      | _ => none
  | .poster i => posterStep s i
  | .worker => workerStep s
  | .spuriousWakeUp => if s.worker = .blocked then some { s with worker := .woken } else none
  | .destructor => destructorStep s

/-- The constructor. -/
def LogicState.start : LogicState :=
  { owner := none
    msgQue := []
    bStop := false
    worker := .lock
    posters := fun _ => .idle
    destructor := .running
    fault := none
    pushed := []
    popped := []
    calls := [] }

end AsioServer
