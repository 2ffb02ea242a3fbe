import AsioServer.Ref.Const
import AsioServer.Ref.Json

/-!
# The peers of the server (`client.cpp`, `index.html`)

The C++ client fills a zeroed buffer of `MAX_LENGTH` bytes and writes the first
of them to the socket; its reading thread takes a head and a body from the
stream until a read throws, which at the end of the stream it does. The page
builds an `ArrayBuffer` through a `DataView`, whose `setUint16` takes a number
modulo 2^16 and stores it in network order when its last argument is false.
-/

namespace AsioServer

def clientHeadLength : Nat := 2
def clientHeadTotal : Nat := 4

/-- `memcpy` into an initialised buffer. -/
def copyInto (buffer : Bytes) (off : Nat) (src : Bytes) : Except Fault Bytes :=
  if off + src.length ≤ buffer.length then
    .ok (buffer.take off ++ src ++ buffer.drop (off + src.length))
  else .error .outOfBounds

/-- The send path of `main`: what is written to the socket. `msgid` and the
length are ints of which the first two bytes are copied. -/
def clientSend (msgid : Int) (request : Bytes) : Except Fault Bytes := do
  let sendData := List.replicate maxLength 0
  let sendData ← copyInto sendData 0 (storeShort (hostToNetworkShort msgid))
  let sendData ← copyInto sendData clientHeadLength
    (storeShort (hostToNetworkShort request.length))
  let sendData ← copyInto sendData clientHeadTotal request
  readData sendData 0 (request.length + clientHeadTotal)

/-! ## The reading thread -/

/-- `read(sock, buffer(..., n))`: `n` bytes of the stream, or an exception. -/
def netRead (n : Nat) (stream : Bytes) : Option (Bytes × Bytes) :=
  if n ≤ stream.length then some (stream.take n, stream.drop n) else none

/-- An `int` of which only the first two bytes were written. -/
def loadHalf (upper : Int) (b₀ b₁ : UInt8) : Int :=
  b₀.toNat + 256 * b₁.toNat + 65536 * upper

/-- What the thread prints of one message: the id, the bytes of the body, and
the styled text of what they parse to. -/
structure Printed where
  msgid : Int
  msg : Bytes
  response : Bytes

/-- `buffer(msg, msglen)`: no more than the array holds. -/
def msgBuffer (msglen : Int) : Nat := min maxLength (sizeT msglen)

/-- One round of `read_thread`, with what it leaves of the stream; `none` when a
read throws. `upper` is what the stack held where `msgid` is not written. -/
def readMessage (lib : JsonLib) (upper : Int) (stream : Bytes) : Option (Printed × Bytes) :=
  match netRead clientHeadTotal stream with
  | some ([a, b, c, d], rest) =>
      let msglen := short (networkToHostShort (loadShort c d))
      let msgid := networkToHostShort (loadHalf upper a b)
      (netRead (msgBuffer msglen) rest).map fun (msg, rest) =>
        ({ msgid := msgid
           msg := msg
           response := lib.toStyledString (lib.parse msg).2 }, rest)
  | _ => none

/-- `read_thread`. `none` says that the rounds granted were not enough. -/
def readThread (lib : JsonLib) (upper : Nat → Int) : Nat → Bytes → Option (List Printed)
  | 0, _ => none
  | rounds + 1, stream =>
      match readMessage lib (upper rounds) stream with
      | some (printed, rest) => (readThread lib upper rounds rest).map (printed :: ·)
      | none => some []

/-! ## The page -/

def isLead (c : UInt16) : Bool := 0xD800 ≤ c && c ≤ 0xDBFF
def isTrail (c : UInt16) : Bool := 0xDC00 ≤ c && c ≤ 0xDFFF

/-- The UTF-8 bytes of a code point. -/
def utf8 (c : Nat) : Bytes :=
  if c < 0x80 then [UInt8.ofNat c]
  else if c < 0x800 then [UInt8.ofNat (0xC0 + c / 64), UInt8.ofNat (0x80 + c % 64)]
  else if c < 0x10000 then
    [UInt8.ofNat (0xE0 + c / 4096), UInt8.ofNat (0x80 + c / 64 % 64),
      UInt8.ofNat (0x80 + c % 64)]
  else
    [UInt8.ofNat (0xF0 + c / 262144), UInt8.ofNat (0x80 + c / 4096 % 64),
      UInt8.ofNat (0x80 + c / 64 % 64), UInt8.ofNat (0x80 + c % 64)]

/-- A code unit outside a pair: a surrogate is replaced. -/
def lone (c : UInt16) : Nat := if isLead c || isTrail c then 0xFFFD else c.toNat

/-- `new TextEncoder().encode(dataString)`, on the code units of the string. -/
def textEncode : List UInt16 → Bytes
  | [] => []
  | [c] => utf8 (lone c)
  | c :: d :: rest =>
      if isLead c && isTrail d then
        utf8 (0x10000 + (c.toNat - 0xD800) * 1024 + (d.toNat - 0xDC00)) ++ textEncode rest
      else utf8 (lone c) ++ textEncode (d :: rest)

/-- `view.setUint16(off, x, false)`; outside the buffer a `RangeError`. -/
def setUint16 (buffer : Bytes) (off : Nat) (x : Int) : Except Fault Bytes :=
  copyInto buffer off (beBytes x)

/-- `createMessage(id, dataString)`. -/
def createMessage (id : Int) (dataString : List UInt16) : Except Fault Bytes := do
  let dataBuffer := textEncode dataString
  let len := dataBuffer.length
  let buffer := List.replicate (4 + len) 0
  let buffer ← setUint16 buffer 0 id
  let buffer ← setUint16 buffer 2 len
  copyInto buffer 4 dataBuffer

end AsioServer
