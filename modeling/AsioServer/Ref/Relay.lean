import AsioServer.Lib.Utf8
import AsioServer.Ref.Memory

/-!
# The relay and the page (`front/websocket-server.js`, `front/index.html`)

The relay sends what a `data` event of its TCP socket holds as one WebSocket
message, whatever part of the stream that is, and the page reads each message as
one frame.
-/

namespace AsioServer

/-- What the page's script can throw: a read behind the end of a `DataView`. -/
inductive ScriptError where
  | rangeError
  deriving DecidableEq

/-- The object `parseMessage` returns. The content is given by its code points. -/
structure ParsedMessage where
  id : Nat
  len : Nat
  content : List Nat
  deriving DecidableEq

/-- `tcpClient.on('data')`: one more message on the WebSocket. -/
def onData (ws : List Bytes) (data : Bytes) : List Bytes := ws ++ [data]

/-- The messages the relay has sent after these events. -/
def relay (events : List Bytes) : List Bytes := events.foldl onData []

/-- `view.getUint16(offset, false)`. -/
def getUint16 (view : Bytes) (offset : Nat) : Except ScriptError Nat :=
  match view[offset]?, view[offset + 1]? with
  | some b₀, some b₁ => .ok (beNat b₀ b₁)
  | _, _ => .error .rangeError

def parseMessage (data : Bytes) : Except ScriptError ParsedMessage := do
  let id ← getUint16 data 0
  let len ← getUint16 data 2
  return { id := id, len := len, content := Utf8.text (data.drop 4) }

/-- `ws.onmessage`, for each message. -/
def page (messages : List Bytes) : List (Except ScriptError ParsedMessage) :=
  messages.map parseMessage

example : page [[0x03, 0xE9, 0x00, 0x02, 0x68, 0x69], [0x03]] =
    [.ok ⟨1001, 2, [0x68, 0x69]⟩, .error .rangeError] := by
  decide

theorem foldl_onData (ws events : List Bytes) : events.foldl onData ws = ws ++ events := by
  induction events generalizing ws with
  | nil => exact (List.append_nil ws).symm
  | cons data events ih =>
      rw [List.foldl_cons, ih, onData, List.append_assoc, List.singleton_append]

theorem relay_eq (events : List Bytes) : relay events = events := by
  rw [relay, foldl_onData, List.nil_append]

/-- A message shows its header and the text behind it. -/
theorem parseMessage_cons (a b c d : UInt8) (body : Bytes) :
    parseMessage (a :: b :: c :: d :: body) = .ok ⟨beNat a b, beNat c d, Utf8.text body⟩ := rfl

/-- Without a whole header, the read of the one field or of the other throws. -/
theorem parseMessage_inv {data : Bytes} {m : ParsedMessage} (h : parseMessage data = .ok m) :
    ∃ a b c d body, data = a :: b :: c :: d :: body ∧
      m = ⟨beNat a b, beNat c d, Utf8.text body⟩ := by
  rcases data with _ | ⟨a, _ | ⟨b, _ | ⟨c, _ | ⟨d, body⟩⟩⟩⟩
  case cons.cons.cons.cons =>
    rw [parseMessage_cons] at h
    exact ⟨a, b, c, d, body, rfl, (Except.ok.inj h).symm⟩
  all_goals cases h

end AsioServer
