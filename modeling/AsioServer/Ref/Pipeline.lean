import AsioServer.Ref.LogicSystem

/-!
# From the sockets to the worker and back (`CServer.cpp`, `CSession.cpp`, `LogicSystem.cpp`)

The threads of the pool, the logic queue and its worker as one system. A step is
one handler, or one message that the worker takes from the queue: its callback
runs with the mutex held that every post needs, so nothing is posted while it
does. `HandleAccept` is two steps, since the session it has started can be read
from before it is entered in the map.

Of a session are kept, beside the object, whether a read is outstanding and the
node whose `async_write` is. An exception that leaves a callback, and an access
that is undefined, end the run.

`opened`, `received`, `taken` and `written` remember what has happened: the
sessions made, the bytes they were delivered, the messages taken from the queue
and the nodes that were written.
-/

namespace AsioServer

structure Pipeline where
  world : World
  reading : Uuid → Bool
  writing : Uuid → Option SendNode
  accepting : Option Uuid
  msgQue : List LogicNode
  opened : List Uuid
  received : Uuid → Bytes
  taken : List LogicNode
  written : Uuid → List SendNode

def Pipeline.start (db : Db) : Pipeline where
  world := .start db
  reading := fun _ => false
  writing := fun _ => none
  accepting := none
  msgQue := []
  opened := []
  received := fun _ => []
  taken := []
  written := fun _ => []

inductive PipelineEvent where
  /-- `HandleAccept` starts a session, whose uuid is new. -/
  | start (u : Uuid)
  /-- And enters it in the map. -/
  | enter
  | delivery (u : Uuid) (chunk : Bytes)
  | readError (u : Uuid)
  | written (u : Uuid)
  | writeError (u : Uuid)
  | dispatch (env : Nat → Outcome)

/-- A completed read of `u`: what it posts goes to the end of the queue. -/
def Pipeline.afterRead (p : Pipeline) (u : Uuid) (bytes : Bytes) (call : ReadCall) : Pipeline :=
  { p with
    world :=
      { p.world with
        server := call.server
        session := Function.update p.world.session u call.session }
    reading := Function.update p.reading u (decide (call.armed ≠ 0))
    received := Function.update p.received u (p.received u ++ bytes)
    msgQue := p.msgQue ++ call.posted.map fun node => ⟨u, node⟩ }

/-- The writes a callback starts: a `Send` writes its node at once if the queue was
empty. -/
def started (w w' : World) (writing : Uuid → Option SendNode) (u : Uuid) : Option SendNode :=
  if (w.session u).sendQue = [] then (w'.session u).sendQue.head? else writing u

def pipelineStep (lib : JsonLib) (p : Pipeline) : PipelineEvent → Option Pipeline
  | .start u =>
      if p.accepting = none ∧ u ∉ p.opened then
        let call := (CSession.new u).start p.world.server
        some
          { p.afterRead u [] call with
            accepting := some u
            opened := u :: p.opened }
      else none
  | .enter =>
      match p.accepting with
      | none => none
      | some u =>
          some
            { p with
              world := { p.world with server := p.world.server.insert u }
              accepting := none }
  | .delivery u chunk =>
      if p.reading u = true ∧ chunk ≠ [] ∧ chunk.length ≤ maxLength then
        match (p.world.session u).handleRead p.world.server false chunk with
        | none => none
        | some call =>
            if call.fault.all Fault.isException then some (p.afterRead u chunk call) else none
      else none
  | .readError u =>
      if p.reading u = true then
        ((p.world.session u).handleRead p.world.server true []).map (p.afterRead u [])
      else none
  | .written u =>
      match p.writing u with
      | none => none
      | some node =>
          match (p.world.session u).handleWritten with
          | .error _ => none
          | .ok call =>
              some
                { p with
                  world :=
                    { p.world with session := Function.update p.world.session u call.session }
                  writing := Function.update p.writing u call.wrote
                  written := Function.update p.written u (p.written u ++ [node]) }
  | .writeError u =>
      match p.writing u with
      | none => none
      | some _ =>
          let (session, server) := (p.world.session u).handleWriteFailed p.world.server
          some
            { p with
              world :=
                { p.world with
                  server := server
                  session := Function.update p.world.session u session }
              writing := Function.update p.writing u none }
  | .dispatch env =>
      match p.msgQue with
      | [] => none
      | msgNode :: _ =>
          match dealMsg lib env p.world p.msgQue with
          | .error _ => none
          | .ok (world, msgQue) =>
              some
                { p with
                  world := world
                  writing := started p.world world p.writing
                  msgQue := msgQue
                  taken := p.taken ++ [msgNode] }

end AsioServer
