import Mathlib.Tactic.Ring
import AsioServer.Ref.Json

/-!
# Frames of the WebSocket library (`ws/lib/validation.js`, `buffer-util.js`, `sender.js`)

`front/websocket-server.js` talks to the browsers through the library that lies
in `front/node_modules/ws`. A `Buffer` is a list of bytes. The extension of the
library is left out: the relay does not switch it on, and then neither the sender
nor the receiver has one.
-/

namespace AsioServer.Ws

/-- What the functions of the library throw. -/
inductive Thrown where
  | typeError
  | rangeError
  deriving DecidableEq

/-! ## `validation.js` -/

/-- Is a status code allowed in a close frame? -/
def isValidStatusCode (code : Nat) : Bool :=
  (1000 ≤ code && code ≤ 1014 && code != 1004 && code != 1005 && code != 1006) ||
    (3000 ≤ code && code ≤ 4999)

/-- `_isValidUTF8`, on what is left of the buffer behind `i`. -/
def isValidUTF8 : Bytes → Bool
  | [] => true
  | b₀ :: rest =>
      if b₀ &&& 0x80 = 0 then isValidUTF8 rest
      else if b₀ &&& 0xe0 = 0xc0 then
        match rest with
        | b₁ :: rest =>
            if b₁ &&& 0xc0 ≠ 0x80 ∨ b₀ &&& 0xfe = 0xc0 then false else isValidUTF8 rest
        | _ => false
      else if b₀ &&& 0xf0 = 0xe0 then
        match rest with
        | b₁ :: b₂ :: rest =>
            if b₁ &&& 0xc0 ≠ 0x80 ∨ b₂ &&& 0xc0 ≠ 0x80 ∨ (b₀ = 0xe0 ∧ b₁ &&& 0xe0 = 0x80) ∨
                (b₀ = 0xed ∧ b₁ &&& 0xe0 = 0xa0) then false
            else isValidUTF8 rest
        | _ => false
      else if b₀ &&& 0xf8 = 0xf0 then
        match rest with
        | b₁ :: b₂ :: b₃ :: rest =>
            if b₁ &&& 0xc0 ≠ 0x80 ∨ b₂ &&& 0xc0 ≠ 0x80 ∨ b₃ &&& 0xc0 ≠ 0x80 ∨
                (b₀ = 0xf0 ∧ b₁ &&& 0xf0 = 0x80) ∨ (b₀ = 0xf4 ∧ 0x8f < b₁) ∨ 0xf4 < b₀ then false
            else isValidUTF8 rest
        | _ => false
      else false

/-- The function that is exported: `buffer.isUtf8` of Node, where there is one, for all but
short buffers. -/
def checkUTF8 (isUtf8 : Option (Bytes → Bool)) (buf : Bytes) : Bool :=
  match isUtf8 with
  | some isUtf8 => if buf.length < 24 then isValidUTF8 buf else isUtf8 buf
  | none => isValidUTF8 buf

/-! ## `buffer-util.js` -/

/-- `concat(list, totalLength)`. A `target.set` that does not fit throws. -/
def concat (list : List Bytes) (totalLength : Nat) : Except Thrown Bytes :=
  match list with
  | [] => .ok []
  | [buf] => .ok buf
  | list => if list.flatten.length ≤ totalLength then .ok list.flatten else .error .rangeError

/-- The buffer is large enough. -/
theorem concat_ok {list : List Bytes} {totalLength : Nat} (h : list.flatten.length ≤ totalLength) :
    concat list totalLength = .ok list.flatten := by
  unfold concat
  split
  · rfl
  · simp
  · exact if_pos h

/-- A masking key. -/
structure Mask where
  b₀ : UInt8
  b₁ : UInt8
  b₂ : UInt8
  b₃ : UInt8
  deriving DecidableEq

/-- `mask[i & 3]`. -/
def Mask.at (mask : Mask) (i : Nat) : UInt8 :=
  match i % 4 with
  | 0 => mask.b₀
  | 1 => mask.b₁
  | 2 => mask.b₂
  | _ => mask.b₃

def Mask.bytes (mask : Mask) : Bytes := [mask.b₀, mask.b₁, mask.b₂, mask.b₃]

/-- `_mask` and `_unmask`. -/
def applyMask (data : Bytes) (mask : Mask) : Bytes := data.mapIdx fun i b => b ^^^ mask.at i

/-- `(mask[0] | mask[1] | mask[2] | mask[3]) === 0`. -/
def Mask.isZero (mask : Mask) : Bool := mask.b₀ ||| mask.b₁ ||| mask.b₂ ||| mask.b₃ = 0

/-! ## `sender.js` -/

/-- The options of `Sender.frame`; the masking key that `generateMask` fills in. -/
structure FrameOptions where
  fin : Bool
  mask : Option Mask
  opcode : UInt8

/-- `writeUIntBE(n, offset, size)`, for a number that fits. -/
def uintBE : Nat → Nat → Bytes
  | 0, _ => []
  | size + 1, n => UInt8.ofNat (n / 256 ^ size % 256) :: uintBE size n

/-- The second byte of a frame, without its mask bit, and the length behind it. -/
def frameLength (dataLength : Nat) : Except Thrown (UInt8 × Bytes) :=
  if 65536 ≤ dataLength then
    if dataLength < 281474976710656 then .ok (127, 0 :: 0 :: uintBE 6 dataLength)
    else .error .rangeError
  else if 125 < dataLength then .ok (126, uintBE 2 dataLength)
  else .ok (UInt8.ofNat dataLength, [])

/-- `Sender.frame(data, options)`: the buffers, one behind the other. -/
def frame (data : Bytes) (options : FrameOptions) : Except Thrown Bytes := do
  let (payloadLength, extended) ← frameLength data.length
  let first := if options.fin then options.opcode ||| 0x80 else options.opcode
  match options.mask with
  | none => return first :: payloadLength :: extended ++ data
  | some mask =>
      let target := first :: (payloadLength ||| 0x80) :: extended ++ mask.bytes
      if mask.isZero then return target ++ data
      else return target ++ applyMask data mask

/-- `close(code, data, mask)`, with a code or without one. -/
def close (code : Option Nat) (data : Bytes) (mask : Option Mask) : Except Thrown Bytes := do
  let buf ←
    match code with
    | none => pure []
    | some code =>
        if !isValidStatusCode code then .error .typeError
        else if data = [] then pure (uintBE 2 code)
        else if 123 < data.length then .error .rangeError
        else pure (uintBE 2 code ++ data)
  frame buf { fin := true, mask := mask, opcode := 0x08 }

/-- The bodies of `ping` and `pong`, which differ in the opcode. -/
def control (opcode : UInt8) (data : Bytes) (mask : Option Mask) : Except Thrown Bytes :=
  if 125 < data.length then .error .rangeError
  else frame data { fin := true, mask := mask, opcode := opcode }

def ping := control 0x09
def pong := control 0x0a

/-- The `Sender`: is the next fragment the first of a message? -/
structure Sender where
  firstFragment : Bool
  deriving DecidableEq

/-- The options of `send`. -/
structure SendOptions where
  binary : Bool
  fin : Bool
  mask : Option Mask

/-- `send(data, options)`. -/
def Sender.send (sender : Sender) (data : Bytes) (options : SendOptions) :
    Except Thrown (Sender × Bytes) := do
  let opcode := if sender.firstFragment then (if options.binary then 2 else 1) else 0
  let framed ← frame data { fin := options.fin, mask := options.mask, opcode := opcode }
  return ({ firstFragment := options.fin }, framed)

/-- A call of one of the sender's functions. -/
inductive SendCall where
  | send (data : Bytes) (binary fin : Bool)
  | ping (data : Bytes)
  | pong (data : Bytes)
  | close (code : Option Nat) (data : Bytes)

/-- What is written for a call, masked with a key or not. -/
def Sender.call (sender : Sender) (mask : Option Mask) : SendCall → Except Thrown (Sender × Bytes)
  | .send data binary fin => sender.send data ⟨binary, fin, mask⟩
  | .ping data => (Ws.ping data mask).map (sender, ·)
  | .pong data => (Ws.pong data mask).map (sender, ·)
  | .close code data => (Ws.close code data mask).map (sender, ·)

/-- What is written for call after call. -/
def Sender.calls (sender : Sender) : List (SendCall × Option Mask) → Except Thrown Bytes
  | [] => .ok []
  | (call, mask) :: calls => do
      let (sender, framed) ← sender.call mask call
      let rest ← sender.calls calls
      return framed ++ rest

end AsioServer.Ws
