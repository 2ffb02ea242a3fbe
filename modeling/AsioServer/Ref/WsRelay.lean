import AsioServer.Ref.WsReceiver

/-!
# The relay (`front/websocket-server.js`)

Each browser has a `ws` and a `tcpClient` of its own: whole messages of the one are
written to the other, and what the other reads is sent as it comes. What `ws`
itself does with the events of its receiver is `ws/lib/websocket.js`. Neither
object has a listener for `error`, so an error of either ends the process, and all
browsers with it.

The closing handshake is modelled up to the close frames: when the browser's socket
is ended and destroyed is left to the network. A `net.Socket` that was ended by the
other side ends its own side too and is destroyed when all it has taken is out, or
with an error when more is written before that.

An error that was made waits for the end of the callback it was made in. Only the
microtasks of the callback come before it, and no event of another socket.
-/

namespace AsioServer.Ws

/-- `readyState`, when the connection is established. Nothing here tells `CLOSED` from
`CLOSING`. -/
inductive ReadyState where
  | OPEN
  | CLOSING
  deriving DecidableEq

/-- The socket to the server: in use, ended by the server, destroyed, closed. -/
inductive TcpState where
  | connected
  | ended
  | destroyed
  | closed
  deriving DecidableEq

/-- What `wss.on('connection')` sets up for a browser. -/
structure Bridge where
  input : Input
  sender : Sender
  readyState : ReadyState
  /-- The browser's socket has ended or was closed. -/
  gone : Bool
  tcp : TcpState
  /-- What was written to `tcpClient`. -/
  toServer : Bytes
  /-- What was written to the browser's socket. -/
  toBrowser : Bytes
  /-- An error the receiver has yet to emit. -/
  failed : Option WsError
  /-- And one of `tcpClient` (`EPIPE`). -/
  broken : Bool
  /-- An exception nobody catches. -/
  uncaught : Bool

def Bridge.new : Bridge :=
  { input := .new
    sender := ⟨true⟩
    readyState := .OPEN
    gone := false
    tcp := .connected
    toServer := []
    toBrowser := []
    failed := none
    broken := false
    uncaught := false }

/-- `ws.send`, `ws.pong`: a server does not mask. After `close` nothing is sent
(`sendAfterClose`). -/
def Bridge.call (b : Bridge) (call : SendCall) : Bridge :=
  match b.readyState with
  | .CLOSING => b
  | .OPEN =>
      match b.sender.call none call with
      | .ok (sender, framed) => { b with sender := sender, toBrowser := b.toBrowser ++ framed }
      | .error _ => { b with uncaught := true }

/-- `ws.close(code, data)`. -/
def Bridge.close (b : Bridge) (code : Option Nat) (data : Bytes) : Bridge :=
  { b.call (.close code data) with readyState := .CLOSING }

/-- `tcpClient.write(message)`. After the end of the other side it is `writeAfterFIN`, which
destroys the socket with an error; what is destroyed drops what it is given. -/
def Bridge.write (b : Bridge) (data : Bytes) : Bridge :=
  match b.tcp with
  | .connected => { b with toServer := b.toServer ++ data }
  | .ended => { b with tcp := .destroyed, broken := true }
  | .destroyed | .closed => b

/-- The listeners of the receiver, with those of the relay. A message is a `Buffer`. -/
def Bridge.onEvent (b : Bridge) : WsEvent → Bridge
  | .message data _ => b.write data
  | .ping data => b.call (.pong data)
  | .pong _ => b
  | .conclude code reason => b.close (if code = 1005 then none else some code) reason
  | .failure (.error e) => { b with failed := some e }
  | .failure (.thrown _) => { b with uncaught := true }

inductive BridgeEvent where
  /-- The browser's socket reads a chunk, or a microtask of its receiver runs. -/
  | browser (e : InputStep)
  /-- The receiver emits its error. -/
  | receiverOnError
  /-- The browser's socket ends, fails or is closed. -/
  | gone
  | tcpData (data : Bytes)
  | tcpEnd
  /-- All that was written is out, and the socket is destroyed. -/
  | tcpFinish
  | tcpClose
  | tcpError

/-- A chunk comes in a callback of its own, when the microtasks of the one before have run. -/
def Bridge.takes (b : Bridge) : InputStep → Bool
  | .data _ => !b.gone && b.input.receiver.deferred.isNone
  | .task => true

/-- After an exception nothing happens any more. -/
def Bridge.step (o : ReceiverOptions) (b : Bridge) (e : BridgeEvent) : Option Bridge :=
  if b.uncaught then none
  else match e with
  | .browser e =>
      if b.takes e then
        (b.input.step o e).map fun (input, out) =>
          out.foldl Bridge.onEvent { b with input := input }
      else none
  | .receiverOnError =>
      b.failed.map fun e =>
        { b.close (some e.statusCode) [] with failed := none, uncaught := true }
  | .gone => some { b with gone := true, readyState := .CLOSING }
  | .tcpData data => if b.tcp = .connected then some (b.call (.send data true true)) else none
  | .tcpEnd => if b.tcp = .connected then some { b with tcp := .ended } else none
  | .tcpFinish => if b.tcp = .ended then some { b with tcp := .destroyed } else none
  | .tcpClose => if b.tcp = .destroyed then some ({ b with tcp := .closed }.close none []) else none
  | .tcpError =>
      if b.broken ∨ b.tcp = .connected ∨ b.tcp = .ended then some { b with uncaught := true }
      else none

/-- An error is on its way. -/
def Bridge.failing (b : Bridge) : Bool := b.failed.isSome || b.broken

/-- What still happens then: the microtasks, and the error itself. -/
def Bridge.urgent (b : Bridge) : BridgeEvent → Bool
  | .browser .task => true
  | .receiverOnError => true
  | .tcpError => b.broken
  | _ => false

/-- The process, with the browsers in the order in which they came. -/
structure RelayState where
  bridges : List Bridge
  running : Bool

def RelayState.new : RelayState := ⟨[], true⟩

def RelayState.failing (s : RelayState) : Bool := s.bridges.any Bridge.failing

inductive RelayEvent where
  | connection
  | on (i : Nat) (e : BridgeEvent)

def RelayState.step (o : ReceiverOptions) (s : RelayState) : RelayEvent → Option RelayState
  | .connection =>
      if s.running && !s.failing then some { s with bridges := s.bridges ++ [.new] } else none
  | .on i e =>
      if s.running then do
        let b ← s.bridges[i]?
        if s.failing && !b.urgent e then none
        else
          let b ← b.step o e
          some ⟨s.bridges.set i b, !b.uncaught⟩
      else none

end AsioServer.Ws
