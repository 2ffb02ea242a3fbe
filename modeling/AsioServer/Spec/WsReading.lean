import AsioServer.Lib.Puller
import AsioServer.Ref.WsReceiver

/-!
# Reading frames from one stream

What the receiver is for: the bytes of a connection, as one stream, are read part
by part, and an event follows as soon as the last byte of its frame is there. No
chunk, buffer or microtask is left in it.
-/

namespace AsioServer.Ws

def WsEvent.isFailure : WsEvent → Bool
  | .failure _ => true
  | _ => false

/-- Nothing is read after `conclude` or a failure. -/
def WsEvent.isLast (e : WsEvent) : Bool := e.isConclude || e.isFailure

/-- The part that is read next; none after `conclude` or an error. -/
structure Reading where
  part : Option ReceiverState
  parsing : Parsing

def Reading.new : Reading := ⟨some .getInfo, .new⟩

def Reading.need (s : Reading) : Option Nat :=
  match s.part with
  | some .getInfo => some 2
  | some .getPayloadLength16 => some 2
  | some .getPayloadLength64 => some 8
  | some .getMask => some 4
  | some .getData => some s.parsing.payloadLength
  | _ => none

/-- What follows a part of the header. -/
def Reading.afterHeader : Parsing × Except Failure ReceiverState → Reading × List WsEvent
  | (p, .ok state) => (⟨some state, p⟩, [])
  | (p, .error f) => (⟨none, p⟩, [.failure f])

/-- And a payload. -/
def Reading.afterData : Parsing × Except Failure (Option WsEvent) → Reading × List WsEvent
  | (p, .ok none) => (⟨some .getInfo, p⟩, [])
  | (p, .ok (some event)) => (⟨if event.isLast then none else some .getInfo, p⟩, [event])
  | (p, .error f) => (⟨none, p⟩, [.failure f])

def Reading.next (o : ReceiverOptions) (s : Reading) (buf : Bytes) : Reading × List WsEvent :=
  match s.part with
  | some .getInfo => Reading.afterHeader (s.parsing.info o (buf.getD 0 0) (buf.getD 1 0))
  | some .getPayloadLength16 => Reading.afterHeader (s.parsing.length16 o buf)
  | some .getPayloadLength64 => Reading.afterHeader (s.parsing.length64 o buf)
  | some .getMask => Reading.afterHeader ({ s.parsing with mask := .ofBytes buf }, .ok .getData)
  | some .getData => Reading.afterData (s.parsing.data o buf)
  | _ => (s, [])

/-- An empty payload is the only part that needs nothing, and a header follows it. -/
def Reading.rank (s : Reading) : Nat := if s.part = some .getData then 1 else 0

theorem Reading.next_data_rank (r : Parsing × Except Failure (Option WsEvent)) :
    (Reading.afterData r).1.rank = 0 := by
  obtain ⟨p, (f | _ | event)⟩ := r
  · rfl
  · rfl
  · show (if (if event.isLast then none else some ReceiverState.getInfo) = some .getData then 1
      else 0) = 0
    cases event.isLast <;> rfl

def reading (o : ReceiverOptions) : Puller Reading UInt8 WsEvent where
  need := Reading.need
  next := Reading.next o
  rank := Reading.rank
  rank_lt := by
    intro s hneed
    obtain ⟨part, p⟩ := s
    match part, hneed with
    | some .getData, _ =>
        show (Reading.afterData _).1.rank < 1
        rw [Reading.next_data_rank]
        decide

/-- The events of a stream. -/
def events (o : ReceiverOptions) (stream : Bytes) : List WsEvent :=
  ((reading o).run .new stream).out

/-! ## What a failure leaves -/

/-- The events up to the first failure, and this one. -/
def upToFailure : List WsEvent → List WsEvent
  | [] => []
  | e :: es => if e.isFailure then [e] else e :: upToFailure es

theorem upToFailure_append {es : List WsEvent} (h : es.any WsEvent.isFailure = false)
    (es' : List WsEvent) : upToFailure (es ++ es') = es ++ upToFailure es' := by
  induction es with
  | nil => rfl
  | cons e es ih =>
      rw [List.any_cons, Bool.or_eq_false_iff] at h
      rw [List.cons_append, upToFailure, if_neg (by rw [h.1]; decide), ih h.2, List.cons_append]

theorem upToFailure_self {es : List WsEvent} (h : es.any WsEvent.isFailure = false) :
    upToFailure es = es := by
  have hall := upToFailure_append h []
  rwa [List.append_nil, upToFailure, List.append_nil] at hall

/-- After a failure it does not matter what follows. -/
theorem upToFailure_failed {es : List WsEvent} (h : es.any WsEvent.isFailure = true)
    (es' : List WsEvent) : upToFailure (es ++ es') = upToFailure es := by
  induction es with
  | nil => cases h
  | cons e es ih =>
      rw [List.cons_append, upToFailure, upToFailure]
      split
      · rfl
      · next he =>
          have hgood : e.isFailure = false := Bool.not_eq_true _ ▸ he
          rw [List.any_cons, hgood, Bool.false_or] at h
          rw [ih h]

theorem upToFailure_any (es : List WsEvent) :
    (upToFailure es).any WsEvent.isFailure = es.any WsEvent.isFailure := by
  induction es with
  | nil => rfl
  | cons e es ih =>
      rw [upToFailure, List.any_cons]
      split
      · next he => rw [List.any_cons, he, Bool.true_or, Bool.true_or]
      · rw [List.any_cons, ih]

/-- Where nothing follows a last event. -/
theorem upToFailure_last {es : List WsEvent}
    (h : ∀ before e after, es = before ++ e :: after → e.isLast = true → after = []) :
    upToFailure es = es := by
  induction es with
  | nil => rfl
  | cons e es ih =>
      rw [upToFailure]
      split
      · next he => rw [h [] e es rfl (by rw [WsEvent.isLast, he, Bool.or_true])]
      · rw [ih fun before e' after hes => h (e :: before) e' after (by rw [hes, List.cons_append])]

/-! ## What is sent

The fragments of a message are sent one by one, and control frames may stand
between them. -/

/-- A message of which this much was sent, and whether it is binary. -/
abbrev Unfinished := Option (Bool × Bytes)

/-- With one more fragment. The first says what the message is. -/
def Unfinished.grow (u : Unfinished) (data : Bytes) (binary : Bool) : Bool × Bytes :=
  match u with
  | none => (binary, data)
  | some (binary, sent) => (binary, sent ++ data)

/-- The events that follow from the calls of a sender. -/
def delivered : Unfinished → List SendCall → List WsEvent
  | _, [] => []
  | u, .send data binary fin :: calls =>
      let (binary, sent) := u.grow data binary
      if fin then .message sent binary :: delivered none calls
      else delivered (some (binary, sent)) calls
  | u, .ping data :: calls => .ping data :: delivered u calls
  | u, .pong data :: calls => .pong data :: delivered u calls
  | _, .close none _ :: _ => [.conclude 1005 []]
  | _, .close (some code) data :: _ => [.conclude code data]

theorem delivered_any (u : Unfinished) (calls : List SendCall) :
    (delivered u calls).any WsEvent.isFailure = false := by
  fun_induction delivered u calls with
  | case1 => rfl
  | case2 u data binary calls binary' sent _ ih => exact ih
  | case3 u data binary fin calls binary' sent _ _ ih => exact ih
  | case4 u data calls ih => exact ih
  | case5 u data calls ih => exact ih
  | case6 => rfl
  | case7 => rfl

/-- What a receiver asks of a text. -/
def ReceiverOptions.Text (o : ReceiverOptions) (s : Bytes) : Prop :=
  o.skipUTF8Validation = true ∨ checkUTF8 o.isUtf8 s = true

theorem ReceiverOptions.text_iff {o : ReceiverOptions} {s : Bytes} :
    o.Text s ↔ ¬ (!o.skipUTF8Validation && !checkUTF8 o.isUtf8 s) = true := by
  rw [Text]
  cases o.skipUTF8Validation <;> simp

/-- What it asks of the length of a message. -/
def ReceiverOptions.Fits (o : ReceiverOptions) (s : Bytes) : Prop :=
  o.maxPayload = 0 ∨ s.length ≤ o.maxPayload

/-- The calls ask nothing of the receiver that it refuses. -/
def Acceptable (o : ReceiverOptions) : Unfinished → List SendCall → Prop
  | _, [] => True
  | u, .send data binary fin :: calls =>
      o.Fits (u.grow data binary).2 ∧
        (if fin then
          ((u.grow data binary).1 = false → o.Text (u.grow data binary).2) ∧
            Acceptable o none calls
        else Acceptable o (some (u.grow data binary)) calls)
  | u, .ping _ :: calls => Acceptable o u calls
  | u, .pong _ :: calls => Acceptable o u calls
  | _, .close none _ :: _ => True
  | _, .close (some _) data :: _ => o.Text data

end AsioServer.Ws
