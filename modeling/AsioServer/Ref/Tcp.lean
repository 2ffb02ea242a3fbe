import AsioServer.Ref.Peers

/-!
# Messages over a socket (`_public.cpp`: `TcpRead`, `TcpWrite`, `Readn`, `Writen`)

A message is its length, four bytes in network order, and its bytes. The loops
count in `int`, and the lengths they are called with are `size_t`, so a length
goes through both conversions. `TBuffer` lies on the stack, which is taken to
hold it; for a length that is no array's it has no cell at all.

What `recv` finds is a list of segments. A call returns one, or as much of it as
was asked for, and an empty segment is a call that returns 0 or -1; so is the
end of the list. `send` takes as much as there is room for, and no room is a
call that returns 0 or -1.
-/

namespace AsioServer

/-! ## Integers of four bytes -/

/-- An integer stored in an `int`. -/
def int (x : Int) : Int := x.bmod 4294967296

theorem int_eq {x : Int} (h₁ : -2147483648 ≤ x) (h₂ : x < 2147483648) : int x = x :=
  Int.bmod_eq_of_le (by omega) (by omega)

/-- From an `int` to a `size_t` and back. -/
theorem int_sizeT {x : Int} (h₁ : -2147483648 ≤ x) (h₂ : x < 2147483648) : int (sizeT x) = x := by
  have hmod : (sizeT x : Int) % 4294967296 = x % 4294967296 := by
    unfold sizeT
    omega
  calc int (sizeT x) = ((sizeT x : Int) % 4294967296).bmod 4294967296 := (Int.emod_bmod _ _).symm
    _ = (x % 4294967296).bmod 4294967296 := by rw [hmod]
    _ = int x := Int.emod_bmod _ _
    _ = x := int_eq h₁ h₂

/-- Four bytes in network order. -/
def beWord (a b c d : UInt8) : Nat :=
  16777216 * a.toNat + 65536 * b.toNat + 256 * c.toNat + d.toNat

theorem beWord_lt (a b c d : UInt8) : beWord a b c d < 4294967296 := by
  have ha := a.toNat_lt
  have hb := b.toNat_lt
  have hc := c.toNat_lt
  have hd := d.toNat_lt
  unfold beWord
  omega

/-- The four bytes of an `int` as they lie in memory. -/
def storeInt (x : Int) : Bytes :=
  let w := (x % 4294967296).toNat
  [UInt8.ofNat (w % 256), UInt8.ofNat (w / 256 % 256), UInt8.ofNat (w / 65536 % 256),
    UInt8.ofNat (w / 16777216)]

/-- The `int` that lies in these cells. -/
def loadInt (cells : Cells) : Except Fault Int :=
  match cells with
  | [some a, some b, some c, some d] => .ok (int (beWord d c b a))
  | _ => .error .indeterminate

/-- `ntohl`: the four bytes change places. -/
def ntohl (x : Int) : Int :=
  let w := (x % 4294967296).toNat
  (w % 256 * 16777216 + w / 256 % 256 * 65536 + w / 65536 % 256 * 256 + w / 16777216 : Nat)

def htonl (x : Int) : Int := ntohl x

/-! ## Sockets -/

/-- A connected socket, as the process at one end sees it. -/
structure Sock where
  /-- What the calls of `recv` find. -/
  inbox : List Bytes
  /-- How much the calls of `send` take. -/
  rooms : Nat → Nat
  /-- What has been sent. -/
  sent : Bytes
  /-- What `poll` returns for a timeout in milliseconds. -/
  poll : Int → Int

/-- `recv(sockfd, ..., len, 0)`: the bytes that came, none for a result that is
not positive. -/
def Sock.recv (s : Sock) (len : Nat) : Bytes × Sock :=
  match s.inbox with
  | [] => ([], s)
  | chunk :: inbox =>
      (chunk.take len,
        { s with inbox := if chunk.length ≤ len then inbox else chunk.drop len :: inbox })

/-- `send(sockfd, ...)`: how many of the bytes offered were taken. -/
def Sock.send (s : Sock) (offered : Bytes) : Nat × Sock :=
  let nwritten := min (s.rooms 0) offered.length
  (nwritten,
    { s with
      rooms := fun i => s.rooms (i + 1)
      sent := s.sent ++ offered.take nwritten })

/-- What `Readn` leaves: its result, the buffer and the socket. -/
structure Readn where
  ret : Bool
  buffer : Cells
  sock : Sock

/-- The loop of `Readn`. -/
def readnLoop (s : Sock) (buffer : Cells) (idx : Nat) (nLeft : Int) : Except Fault Readn :=
  if _ : 0 < nLeft then
    let nread := (s.recv nLeft.toNat).1.length
    if _ : nread = 0 then .ok ⟨false, buffer, (s.recv nLeft.toNat).2⟩
    else if idx + nread ≤ buffer.length then
      readnLoop (s.recv nLeft.toNat).2 (buffer.overwrite idx (s.recv nLeft.toNat).1)
        (idx + nread) (nLeft - nread)
    else .error .outOfBounds
  else .ok ⟨true, buffer, s⟩
termination_by nLeft.toNat

/-- `Readn(sockfd, buffer, n)`. -/
def readn (s : Sock) (buffer : Cells) (n : Nat) : Except Fault Readn :=
  readnLoop s buffer 0 (int n)

/-- The loop of `Writen`. -/
def writenLoop (s : Sock) (buffer : Bytes) (idx : Nat) (nLeft : Int) :
    Except Fault (Bool × Sock) :=
  if _ : 0 < nLeft then
    match readData buffer idx nLeft.toNat with
    | .error f => .error f
    | .ok offered =>
        let nwritten := (s.send offered).1
        if _ : nwritten = 0 then .ok (false, (s.send offered).2)
        else writenLoop (s.send offered).2 buffer (idx + nwritten) (nLeft - nwritten)
  else .ok (true, s)
termination_by nLeft.toNat

/-- `Writen(sockfd, buffer, n)`. -/
def writen (s : Sock) (buffer : Bytes) (n : Nat) : Except Fault (Bool × Sock) :=
  writenLoop s buffer 0 (int n)

/-! ## Messages -/

/-- What a call of `TcpRead` leaves its caller. -/
structure TcpRead where
  ret : Bool
  ibuflen : Int
  buffer : Cells
  deriving DecidableEq

/-- `TcpRead(sockfd, buffer, &ibuflen, itimeout)`. -/
def tcpRead (sockfd : Int) (s : Sock) (buffer : Cells) (ibuflen itimeout : Int) :
    Except Fault (TcpRead × Sock) :=
  if sockfd = -1 then .ok (⟨false, ibuflen, buffer⟩, s)
  else if 0 < itimeout ∧ s.poll (int (itimeout * 1000)) ≤ 0 then
    .ok (⟨false, ibuflen, buffer⟩, s)
  else if itimeout = -1 ∧ s.poll 0 ≤ 0 then .ok (⟨false, ibuflen, buffer⟩, s)
  else do
    let head ← readn s ((storeInt 0).map some) 4
    let ibuflen ← loadInt head.buffer
    if head.ret = false then return (⟨false, ibuflen, buffer⟩, head.sock)
    else
      let ibuflen := int (ntohl ibuflen)
      let body ← readn head.sock buffer (sizeT ibuflen)
      return (⟨body.ret, ibuflen, body.buffer⟩, body.sock)

def strlen (buffer : Bytes) : Except Fault Nat :=
  if 0 ∈ buffer then .ok (cStr buffer).length else .error .outOfBounds

/-- `TcpWrite(sockfd, buffer, ibuflen)`. -/
def tcpWrite (sockfd : Int) (s : Sock) (buffer : Bytes) (ibuflen : Int) :
    Except Fault (Bool × Sock) :=
  if sockfd = -1 then .ok (false, s)
  else do
    let ilen ← if ibuflen = 0 then (do return int (← strlen buffer)) else pure ibuflen
    let ilenn := int (htonl ilen)
    let tBuffer := List.replicate (int (ilen + 4)).toNat 0
    let tBuffer ← copyInto tBuffer 0 (storeInt ilenn)
    let src ← readData buffer 0 (sizeT ilen)
    let tBuffer ← copyInto tBuffer 4 src
    writen s tBuffer (sizeT (int (ilen + 4)))

/-- One call of `TcpWrite` for each message. -/
def tcpWrites (sockfd : Int) (s : Sock) : List Bytes → Except Fault (List Bool × Sock)
  | [] => .ok ([], s)
  | msg :: msgs => do
      let (ret, s) ← tcpWrite sockfd s msg msg.length
      let (rets, s) ← tcpWrites sockfd s msgs
      return (ret :: rets, s)

/-- One call of `TcpRead` for each pair of variables of the caller. -/
def tcpReads (sockfd : Int) (s : Sock) (itimeout : Int) :
    List (Int × Cells) → Except Fault (List TcpRead × Sock)
  | [] => .ok ([], s)
  | (ibuflen, buffer) :: vars => do
      let (read, s) ← tcpRead sockfd s buffer ibuflen itimeout
      let (reads, s) ← tcpReads sockfd s itimeout vars
      return (read :: reads, s)

end AsioServer
