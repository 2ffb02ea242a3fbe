import AsioServer.Ref.Ws

/-!
# The receiver of the WebSocket library (`ws/lib/receiver.js`)

The receiver is written the chunks of a socket and keeps what it has not
consumed as a list of buffers. Each round of its loop consumes what one part of a
frame needs, or stops because it is not there yet. An event that may not be
emitted at once is left to a microtask, and the loop stands still until that has
run; the next chunks wait in the `Writable` that the receiver is.

Of a `Writable` what decides is modelled: it hands on the chunks that wait when
`_write` has called back without an error. After a call back with one it hands on
none, but when that came while it was handing them on, it goes on with the next.
The error itself is emitted later, which is left to the users of the receiver.
-/

namespace AsioServer.Ws

/-- The options of the constructor. -/
structure ReceiverOptions where
  allowSynchronousEvents : Bool
  isServer : Bool
  maxPayload : Nat
  skipUTF8Validation : Bool
  isUtf8 : Option (Bytes → Bool)

/-- The options of a `WebSocketServer` that is given a port only, as the relay's is. -/
def ReceiverOptions.server (isUtf8 : Option (Bytes → Bool)) : ReceiverOptions :=
  { allowSynchronousEvents := false
    isServer := true
    maxPayload := 100 * 1024 * 1024
    skipUTF8Validation := false
    isUtf8 := isUtf8 }

/-- What `createError` makes. -/
structure WsError where
  message : Bytes
  statusCode : Nat
  code : Bytes
  deriving DecidableEq

/-- With the default prefix. -/
def WsError.frame (message : Bytes) (statusCode : Nat) (code : Bytes) : WsError :=
  ⟨ascii "Invalid WebSocket frame: " ++ message, statusCode, code⟩

/-- How a round can fail: it calls back with an error, or throws. -/
inductive Failure where
  | error (e : WsError)
  | thrown (e : Thrown)
  deriving DecidableEq

inductive WsEvent where
  | message (data : Bytes) (isBinary : Bool)
  | ping (data : Bytes)
  | pong (data : Bytes)
  | conclude (code : Nat) (reason : Bytes)
  /-- `_write` calls back with an error, or throws. -/
  | failure (f : Failure)
  deriving DecidableEq

inductive ReceiverState where
  | getInfo
  | getPayloadLength16
  | getPayloadLength64
  | getMask
  | getData
  | deferEvent
  deriving DecidableEq

/-- The fields about the frame and the message. -/
structure Parsing where
  payloadLength : Nat
  mask : Mask
  fragmented : Nat
  masked : Bool
  fin : Bool
  opcode : Nat
  totalPayloadLength : Nat
  messageLength : Nat
  fragments : List Bytes
  deriving DecidableEq

/-- The key is not there before the first mask is read. -/
def Parsing.new : Parsing :=
  { payloadLength := 0
    mask := ⟨0, 0, 0, 0⟩
    fragmented := 0
    masked := false
    fin := false
    opcode := 0
    totalPayloadLength := 0
    messageLength := 0
    fragments := [] }

/-! ## What is made of the bytes consumed -/

/-- `haveLength`: the state that follows. -/
def Parsing.haveLength (o : ReceiverOptions) (p : Parsing) :
    Parsing × Except Failure ReceiverState :=
  let next : ReceiverState := if p.masked then .getMask else .getData
  if p.payloadLength ≠ 0 ∧ p.opcode < 0x08 then
    let p := { p with totalPayloadLength := p.totalPayloadLength + p.payloadLength }
    if o.maxPayload < p.totalPayloadLength ∧ 0 < o.maxPayload then
      (p, .error (.error ⟨ascii "Max payload size exceeded", 1009,
        ascii "WS_ERR_UNSUPPORTED_MESSAGE_LENGTH"⟩))
    else (p, .ok next)
  else (p, .ok next)

def invalidOpcode (opcode : Nat) : Failure :=
  .error (.frame (ascii "invalid opcode " ++ decimal opcode) 1002
    (ascii "WS_ERR_INVALID_OPCODE"))

/-- The end of `getInfo`, where the opcode is settled. -/
def Parsing.haveOpcode (o : ReceiverOptions) (b₁ : UInt8) (p : Parsing) :
    Parsing × Except Failure ReceiverState :=
  let p := { p with
    fragmented := if !p.fin && p.fragmented = 0 then p.opcode else p.fragmented
    masked := b₁ &&& 0x80 = 0x80 }
  if o.isServer && !p.masked then
    (p, .error (.error (.frame (ascii "MASK must be set") 1002 (ascii "WS_ERR_EXPECTED_MASK"))))
  else if !o.isServer && p.masked then
    (p, .error (.error (.frame (ascii "MASK must be clear") 1002
      (ascii "WS_ERR_UNEXPECTED_MASK"))))
  else if p.payloadLength = 126 then (p, .ok .getPayloadLength16)
  else if p.payloadLength = 127 then (p, .ok .getPayloadLength64)
  else p.haveLength o

/-- `getInfo`, from its two bytes on. Without the extension no frame may be compressed. -/
def Parsing.info (o : ReceiverOptions) (b₀ b₁ : UInt8) (p : Parsing) :
    Parsing × Except Failure ReceiverState :=
  if b₀ &&& 0x30 ≠ 0 then
    (p, .error (.error (.frame (ascii "RSV2 and RSV3 must be clear") 1002
      (ascii "WS_ERR_UNEXPECTED_RSV_2_3"))))
  else if b₀ &&& 0x40 = 0x40 then
    (p, .error (.error (.frame (ascii "RSV1 must be clear") 1002
      (ascii "WS_ERR_UNEXPECTED_RSV_1"))))
  else
    let p := { p with
      fin := b₀ &&& 0x80 = 0x80
      opcode := (b₀ &&& 0x0f).toNat
      payloadLength := (b₁ &&& 0x7f).toNat }
    if p.opcode = 0x00 then
      if p.fragmented = 0 then (p, .error (invalidOpcode 0))
      else Parsing.haveOpcode o b₁ { p with opcode := p.fragmented }
    else if p.opcode = 0x01 ∨ p.opcode = 0x02 then
      if p.fragmented ≠ 0 then (p, .error (invalidOpcode p.opcode))
      else p.haveOpcode o b₁
    else if 0x07 < p.opcode ∧ p.opcode < 0x0b then
      if !p.fin then
        (p, .error (.error (.frame (ascii "FIN must be set") 1002 (ascii "WS_ERR_EXPECTED_FIN"))))
      else if 0x7d < p.payloadLength ∨ (p.opcode = 0x08 ∧ p.payloadLength = 1) then
        (p, .error (.error (.frame (ascii "invalid payload length " ++ decimal p.payloadLength) 1002
          (ascii "WS_ERR_INVALID_CONTROL_PAYLOAD_LENGTH"))))
      else p.haveOpcode o b₁
    else (p, .error (invalidOpcode p.opcode))

/-- `readUInt16BE(0)`, `readUInt32BE(0)`. -/
def readUIntBE (buf : Bytes) : Nat := buf.foldl (fun n b => 256 * n + b.toNat) 0

/-- `getPayloadLength16`, from its bytes on. -/
def Parsing.length16 (o : ReceiverOptions) (buf : Bytes) (p : Parsing) :
    Parsing × Except Failure ReceiverState :=
  Parsing.haveLength o { p with payloadLength := readUIntBE buf }

/-- `getPayloadLength64`, from its bytes on. -/
def Parsing.length64 (o : ReceiverOptions) (buf : Bytes) (p : Parsing) :
    Parsing × Except Failure ReceiverState :=
  let num := readUIntBE (buf.take 4)
  if 2097151 < num then
    (p, .error (.error ⟨ascii "Unsupported WebSocket frame: payload length > 2^53 - 1", 1009,
      ascii "WS_ERR_UNSUPPORTED_DATA_PAYLOAD_LENGTH"⟩))
  else
    Parsing.haveLength o { p with
      payloadLength := num * 4294967296 + readUIntBE (buf.drop 4) }

/-- The key of four bytes. -/
def Mask.ofBytes : Bytes → Mask
  | [b₀, b₁, b₂, b₃] => ⟨b₀, b₁, b₂, b₃⟩
  | _ => ⟨0, 0, 0, 0⟩

def invalidUTF8 : Failure :=
  .error (.frame (ascii "invalid UTF-8 sequence") 1007 (ascii "WS_ERR_INVALID_UTF8"))

/-- `dataMessage`: the event, if the message is complete. -/
def Parsing.dataMessage (o : ReceiverOptions) (p : Parsing) :
    Parsing × Except Failure (Option WsEvent) :=
  if !p.fin then (p, .ok none)
  else
    let done := { p with
      totalPayloadLength := 0
      messageLength := 0
      fragmented := 0
      fragments := [] }
    match concat p.fragments p.messageLength with
    | .error e => (done, .error (.thrown e))
    | .ok data =>
        if p.opcode = 2 then (done, .ok (some (.message data true)))
        else if !o.skipUTF8Validation && !checkUTF8 o.isUtf8 data then (done, .error invalidUTF8)
        else (done, .ok (some (.message data false)))

/-- `controlMessage`. -/
def Parsing.controlMessage (o : ReceiverOptions) (data : Bytes) (p : Parsing) :
    Except Failure WsEvent :=
  if p.opcode = 0x08 then
    if data = [] then .ok (.conclude 1005 [])
    else
      let code := readUIntBE (data.take 2)
      if !isValidStatusCode code then
        .error (.error (.frame (ascii "invalid status code " ++ decimal code) 1002
          (ascii "WS_ERR_INVALID_CLOSE_CODE")))
      else if !o.skipUTF8Validation && !checkUTF8 o.isUtf8 (data.drop 2) then .error invalidUTF8
      else .ok (.conclude code (data.drop 2))
  else .ok (if p.opcode = 0x09 then .ping data else .pong data)

/-- `getData`, from the payload on. -/
def Parsing.data (o : ReceiverOptions) (buf : Bytes) (p : Parsing) :
    Parsing × Except Failure (Option WsEvent) :=
  let data := if p.masked && !p.mask.isZero then applyMask buf p.mask else buf
  if 0x07 < p.opcode then (p, (p.controlMessage o data).map some)
  else if data = [] then p.dataMessage o
  else
    Parsing.dataMessage o { p with
      messageLength := p.totalPayloadLength
      fragments := p.fragments ++ [data] }

/-! ## The buffers and the loop -/

structure Receiver extends Parsing where
  bufferedBytes : Nat
  buffers : List Bytes
  errored : Bool
  loop : Bool
  state : ReceiverState
  /-- The event a microtask will emit. -/
  deferred : Option WsEvent

def Receiver.new : Receiver :=
  { Parsing.new with
    bufferedBytes := 0
    buffers := []
    errored := false
    loop := false
    state := .getInfo
    deferred := none }

/-- The bytes `consume(n)` takes from the buffers, and the buffers it leaves. -/
def takeBuffers (n : Nat) : List Bytes → Bytes × List Bytes
  | [] => ([], [])
  | buf :: buffers =>
      if n < buf.length then (buf.take n, buf.drop n :: buffers)
      else if n = buf.length then (buf, buffers)
      else
        let (dst, buffers) := takeBuffers (n - buf.length) buffers
        (buf ++ dst, buffers)

/-- `consume(n)`. -/
def Receiver.consume (n : Nat) (r : Receiver) : Bytes × Receiver :=
  let (buf, buffers) := takeBuffers n r.buffers
  (buf, { r with bufferedBytes := r.bufferedBytes - n, buffers := buffers })

/-- `createError` and the call back with it. -/
def Receiver.fail (r : Receiver) (f : Failure) : Receiver × List WsEvent :=
  ({ r with loop := false, errored := true }, [.failure f])

/-- A part of the header that needs `n` bytes. -/
def Receiver.header (n : Nat) (after : Bytes → Parsing → Parsing × Except Failure ReceiverState)
    (r : Receiver) : Receiver × List WsEvent :=
  if r.bufferedBytes < n then ({ r with loop := false }, [])
  else
    let (buf, r) := r.consume n
    match after buf r.toParsing with
    | (p, .error f) => Receiver.fail { r with toParsing := p } f
    | (p, .ok state) => ({ r with toParsing := p, state := state }, [])

/-- `getInfo`. -/
def Receiver.getInfo (o : ReceiverOptions) : Receiver → Receiver × List WsEvent :=
  Receiver.header 2 fun buf p => p.info o (buf.getD 0 0) (buf.getD 1 0)

def Receiver.getPayloadLength16 (o : ReceiverOptions) : Receiver → Receiver × List WsEvent :=
  Receiver.header 2 (Parsing.length16 o)

def Receiver.getPayloadLength64 (o : ReceiverOptions) : Receiver → Receiver × List WsEvent :=
  Receiver.header 8 (Parsing.length64 o)

def Receiver.getMask : Receiver → Receiver × List WsEvent :=
  Receiver.header 4 fun buf p => ({ p with mask := .ofBytes buf }, .ok .getData)

/-- What becomes of an event: `conclude` is emitted, and the others are where that may be done
at once. -/
def Receiver.emit (o : ReceiverOptions) (r : Receiver) : WsEvent → Receiver × List WsEvent
  | .conclude code reason => ({ r with loop := false, state := .getInfo }, [.conclude code reason])
  | event =>
      if o.allowSynchronousEvents then ({ r with state := .getInfo }, [event])
      else ({ r with state := .deferEvent, deferred := some event }, [])

/-- `getData`. -/
def Receiver.getData (o : ReceiverOptions) (r : Receiver) : Receiver × List WsEvent :=
  if r.payloadLength ≠ 0 ∧ r.bufferedBytes < r.payloadLength then ({ r with loop := false }, [])
  else
    let (buf, r) := if r.payloadLength = 0 then ([], r) else r.consume r.payloadLength
    match r.toParsing.data o buf with
    | (p, .error f) => Receiver.fail { r with toParsing := p } f
    | (p, .ok none) => ({ r with toParsing := p, state := .getInfo }, [])
    | (p, .ok (some event)) => Receiver.emit o { r with toParsing := p } event

/-- The body of the loop. -/
def Receiver.round (o : ReceiverOptions) (r : Receiver) : Receiver × List WsEvent :=
  match r.state with
  | .getInfo => r.getInfo o
  | .getPayloadLength16 => r.getPayloadLength16 o
  | .getPayloadLength64 => r.getPayloadLength64 o
  | .getMask => r.getMask
  | .getData => r.getData o
  | .deferEvent => ({ r with loop := false }, [])

/-- What is left to do: bytes to consume, and payloads to handle. -/
def Receiver.work (r : Receiver) : Nat :=
  2 * r.bufferedBytes + if r.state = .getData then 1 else 0

theorem Receiver.consume_bufferedBytes (n : Nat) (r : Receiver) :
    (r.consume n).2.bufferedBytes = r.bufferedBytes - n := rfl

theorem Receiver.work_le (r : Receiver) : r.work ≤ 2 * r.bufferedBytes + 1 := by
  unfold Receiver.work
  split <;> omega

theorem Receiver.header_lt {n : Nat} (hn : 2 ≤ n)
    {after : Bytes → Parsing → Parsing × Except Failure ReceiverState} {r : Receiver}
    (h : (r.header n after).1.loop = true) : (r.header n after).1.work < r.work := by
  unfold Receiver.header at h ⊢
  split at h
  · cases h
  · next hlt =>
      rw [if_neg hlt]
      dsimp only at h ⊢
      split at h
      · cases h
      · next p state hafter =>
          have hwork := Receiver.work_le
            { (r.consume n).2 with toParsing := p, state := state }
          have hbytes := Receiver.consume_bufferedBytes n r
          have hr : 2 * r.bufferedBytes ≤ r.work := Nat.le_add_right _ _
          dsimp only at hwork ⊢
          omega

theorem Receiver.emit_work (o : ReceiverOptions) (r : Receiver) (event : WsEvent) :
    (r.emit o event).1.work = 2 * r.bufferedBytes := by
  unfold Receiver.emit
  split
  · rfl
  · split <;> rfl

theorem Receiver.getData_lt {o : ReceiverOptions} {r : Receiver} (hr : r.state = .getData)
    (h : (r.getData o).1.loop = true) : (r.getData o).1.work < r.work := by
  have hwork : r.work = 2 * r.bufferedBytes + 1 := by rw [Receiver.work, if_pos hr]
  unfold Receiver.getData at h ⊢
  split at h
  · cases h
  · next hthere =>
      rw [if_neg hthere]
      have hbytes : (if r.payloadLength = 0 then (([] : Bytes), r)
          else r.consume r.payloadLength).2.bufferedBytes ≤ r.bufferedBytes := by
        split
        · exact Nat.le_refl _
        · exact Nat.sub_le _ _
      dsimp only at h ⊢
      split at h
      · cases h
      · next p hdata =>
          rw [hwork]
          show 2 * _ + 0 < _
          dsimp only
          omega
      · next p event hdata =>
          rw [hwork, Receiver.emit_work]
          dsimp only
          omega

/-- A round after which the loop goes on has done some of it. -/
theorem Receiver.round_lt {o : ReceiverOptions} {r : Receiver}
    (h : (r.round o).1.loop = true) : (r.round o).1.work < r.work := by
  unfold Receiver.round at h ⊢
  split at h
  · exact Receiver.header_lt (Nat.le_refl 2) h
  · exact Receiver.header_lt (Nat.le_refl 2) h
  · exact Receiver.header_lt (by decide) h
  · exact Receiver.header_lt (by decide) h
  · next hr => exact Receiver.getData_lt hr h
  · cases h

/-- `do ... while (this._loop)`. -/
def Receiver.rounds (o : ReceiverOptions) (r : Receiver) : Receiver × List WsEvent :=
  if _h : (r.round o).1.loop = true then
    let (r', out) := Receiver.rounds o (r.round o).1
    (r', (r.round o).2 ++ out)
  else r.round o
termination_by r.work
decreasing_by exact Receiver.round_lt _h

/-- `startLoop`. -/
def Receiver.startLoop (o : ReceiverOptions) (r : Receiver) : Receiver × List WsEvent :=
  Receiver.rounds o { r with loop := true }

/-- How `_write` calls back: without an error, with one, or not yet. -/
inductive Callback where
  | done
  | failed
  | waits
  deriving DecidableEq

def WsEvent.isError : WsEvent → Bool
  | .failure (.error _) => true
  | _ => false

/-- What a call of `startLoop` that leaves the receiver so and emits these events has done with
its callback. With `_errored` set it is called with an error or not at all. -/
def Receiver.callback (r : Receiver) (out : List WsEvent) : Callback :=
  if out.any WsEvent.isError then .failed
  else if r.state = .deferEvent ∨ r.errored then .waits
  else .done

/-- `_write(chunk)`. -/
def Receiver.write (o : ReceiverOptions) (r : Receiver) (chunk : Bytes) :
    Receiver × List WsEvent × Callback :=
  if r.opcode = 0x08 ∧ r.state = .getInfo then (r, [], .done)
  else
    let (r, out) := Receiver.startLoop o { r with
      bufferedBytes := r.bufferedBytes + chunk.length
      buffers := r.buffers ++ [chunk] }
    (r, out, r.callback out)

/-! ## The stream -/

/-- The receiver as a `Writable`: the chunks that wait, whether a call back is awaited or one came
with an error, and whether the socket's `data` events still reach it. -/
structure Input where
  receiver : Receiver
  queue : List Bytes
  writing : Bool
  errored : Bool
  listening : Bool

def Input.new : Input := ⟨.new, [], false, false, true⟩

/-- `onwrite`, but for the chunks that wait. -/
def Input.onwrite (s : Input) : Callback → Input
  | .done => { s with writing := false }
  | .failed => { s with writing := false, errored := true }
  | .waits => { s with writing := true }

/-- `doWrite`. -/
def Input.doWrite (o : ReceiverOptions) (s : Input) (chunk : Bytes) : Input × List WsEvent :=
  let (r, out, callback) := s.receiver.write o chunk
  ({ s with receiver := r }.onwrite callback, out)

/-- `clearBuffer`, with these chunks: it goes on as long as no call back is awaited. -/
def Input.clearBuffer (o : ReceiverOptions) : List Bytes → Input → Input × List WsEvent
  | [], s => ({ s with queue := [] }, [])
  | chunk :: queue, s =>
      let (s, out) := s.doWrite o chunk
      if s.writing then ({ s with queue := queue }, out)
      else
        let (s, out') := clearBuffer o queue s
        (s, out ++ out')

/-- After `conclude` nobody listens to the socket any more. -/
def WsEvent.isConclude : WsEvent → Bool
  | .conclude _ _ => true
  | _ => false

def Input.heard (s : Input) (out : List WsEvent) : Input :=
  { s with listening := s.listening && !out.any WsEvent.isConclude }

inductive InputStep where
  | data (chunk : Bytes)
  | task

/-- A `data` event of the socket, and the microtask. What the socket reads when nobody listens
any more is lost. -/
def Input.step (o : ReceiverOptions) (s : Input) : InputStep → Option (Input × List WsEvent)
  | .data chunk =>
      if !s.listening then some (s, [])
      else if s.writing ∨ s.errored then some ({ s with queue := s.queue ++ [chunk] }, [])
      else
        let (s, out) := s.doWrite o chunk
        some (s.heard out, out)
  | .task =>
      s.receiver.deferred.map fun event =>
        let (r, out) := Receiver.startLoop o { s.receiver with
          state := .getInfo
          deferred := none }
        let s := { s with receiver := r }.onwrite (r.callback out)
        let (s, out') := if r.callback out = .done then s.clearBuffer o s.queue else (s, [])
        let out := event :: out ++ out'
        (s.heard out, out)

end AsioServer.Ws
