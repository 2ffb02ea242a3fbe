import Mathlib.Data.List.Induction
import AsioServer.Proofs.WsFrames
import AsioServer.Proofs.WsSound
import AsioServer.Ref.WsRelay

/-!
# What the relay passes on

Browsers do not mix: what has become of each is a run of its own over what
happened to it (`bridge_run`). On the way up the relay writes the payloads of the
browser's messages. On the way down a browser that reads frames sees the chunks of
its server's stream, one message each, with an answer to each of its pings between
them, and behind them one close frame at most. Both follow from what one event of
a bridge keeps (`Bridge.Says`).
-/

namespace AsioServer.Ws

/-! ## One browser of many -/

/-- What happened to the browser that came as number `i`. -/
def bridgeEvents (i : Nat) (steps : List RelayEvent) : List BridgeEvent :=
  steps.filterMap fun
    | .connection => none
    | .on j e => if j = i then some e else none

theorem bridgeEvents_snoc (i : Nat) (steps : List RelayEvent) (e : RelayEvent) :
    bridgeEvents i (steps ++ [e]) = bridgeEvents i steps ++ bridgeEvents i [e] :=
  List.filterMap_append

/-- What a step does: one more bridge, or one step of one, which is urgent where an error is on its
way. -/
theorem relayStep_inv {o : ReceiverOptions} {s s' : RelayState} {e : RelayEvent}
    (h : s.step o e = some s') :
    s.running = true ∧
      ((e = .connection ∧ s.failing = false ∧ s' = { s with bridges := s.bridges ++ [.new] }) ∨
        ∃ i event b b', e = .on i event ∧ s.bridges[i]? = some b ∧ b.step o event = some b' ∧
          s' = ⟨s.bridges.set i b', !b'.uncaught⟩ ∧
          (s.failing = true → b.urgent event = true)) := by
  unfold RelayState.step at h
  cases hrun : s.running with
  | false =>
      rw [hrun] at h
      cases e <;> cases h
  | true =>
      rw [hrun] at h
      refine ⟨rfl, ?_⟩
      cases e with
      | connection =>
          dsimp only at h
          split at h
          · next hcalm => exact Or.inl ⟨rfl, by simpa using hcalm, (Option.some.inj h).symm⟩
          · cases h
      | on i event =>
          obtain ⟨b, hb, h⟩ := Option.bind_eq_some_iff.mp h
          split at h
          · cases h
          next hurgent =>
          obtain ⟨b', hb', h⟩ := Option.bind_eq_some_iff.mp h
          refine Or.inr ⟨i, event, b, b', rfl, hb, hb', (Option.some.inj h).symm, fun hfails => ?_⟩
          simpa [hfails] using hurgent

theorem bridge_run {o : ReceiverOptions} {steps : List RelayEvent} :
    ∀ {s : RelayState}, Machine.exec (RelayState.step o) .new steps = some s → ∀ i,
      Machine.exec (Bridge.step o) .new (bridgeEvents i steps) =
        some (s.bridges[i]?.getD .new) := by
  induction steps using List.reverseRecOn with
  | nil =>
      intro s h i
      cases h
      rfl
  | append_singleton steps e ih =>
      intro s' h i
      obtain ⟨s, hs, hstep⟩ := Machine.exec_snoc.mp h
      have hbefore := ih hs i
      rw [bridgeEvents_snoc]
      obtain ⟨-, ⟨rfl, -, rfl⟩ | ⟨j, event, b, b', rfl, hb, hb', rfl, -⟩⟩ := relayStep_inv hstep
      · have hsame : (s.bridges ++ [Bridge.new])[i]?.getD .new = s.bridges[i]?.getD .new := by
          rcases Nat.lt_trichotomy i s.bridges.length with hlt | rfl | hgt
          · rw [List.getElem?_append_left hlt]
          · simp
          · rw [List.getElem?_eq_none (by simp; omega), List.getElem?_eq_none (by omega)]
        rw [hsame, ← hbefore]
        exact congrArg (Machine.exec (Bridge.step o) .new) (List.append_nil _)
      · by_cases hij : j = i
        · subst hij
          have hlt : j < s.bridges.length := (List.getElem?_eq_some_iff.mp hb).1
          have hnow : bridgeEvents j [.on j event] = [event] := by simp [bridgeEvents]
          rw [hnow, Machine.exec_snoc]
          refine ⟨b, ?_, ?_⟩
          · rw [hbefore, hb]
            rfl
          · rw [hb', List.getElem?_set_self hlt]
            rfl
        · have hnow : bridgeEvents i [.on j event] = [] := by simp [bridgeEvents, hij]
          rw [hnow, List.append_nil, hbefore, List.getElem?_set_ne hij]

/-! ## What is said to a browser -/

/-- A browser reads what is sent to it as a client of the library would, without a limit of its
own, and takes for a text what the relay takes for one. -/
structure ReceiverOptions.Client (o c : ReceiverOptions) : Prop where
  isServer : c.isServer = false
  maxPayload : c.maxPayload = 0
  text : ∀ s, o.Text s → c.Text s

def WsEvent.message? : WsEvent → Option Bytes
  | .message data _ => some data
  | _ => none

def WsEvent.ping? : WsEvent → Option Bytes
  | .ping data => some data
  | _ => none

def WsEvent.pong? : WsEvent → Option Bytes
  | .pong data => some data
  | _ => none

/-- What a browser can see. -/
def WsEvent.Answer : WsEvent → Prop
  | .message _ isBinary => isBinary = true
  | .pong _ => True
  | .conclude _ _ => True
  | _ => False

theorem run_nothing (c : ReceiverOptions) (part : Option ReceiverState) (q : Parsing)
    (h : part = none ∨ part = some .getInfo) :
    (reading c).run ⟨part, q⟩ [] = ⟨⟨part, q⟩, [], []⟩ := by
  refine Puller.run_idle fun n hn => ?_
  rcases h with rfl | rfl
  · cases hn
  · cases hn
    decide

/-- So far all frames are whole, none of them a close frame. -/
structure Opened (c : ReceiverOptions) (sender : Sender) (bytes : Bytes) : Prop where
  sender : sender = ⟨true⟩
  reader : ∃ q, Between none q ∧
    (reading c).run .new bytes = ⟨⟨some .getInfo, q⟩, [], events c bytes⟩

theorem events_nil (c : ReceiverOptions) : events c [] = [] :=
  congrArg Puller.Pulled.out (run_nothing c _ .new (Or.inr rfl))

theorem opened_new (c : ReceiverOptions) : Opened c ⟨true⟩ [] := by
  refine ⟨rfl, .new, .new, ?_⟩
  rw [events_nil]
  exact run_nothing c _ .new (Or.inr rfl)

/-- A call that the browser sees as an event. -/
def Seen (c : ReceiverOptions) (call : SendCall) (event : WsEvent) : Prop :=
  ∃ framed, Sender.call ⟨true⟩ none call = .ok (⟨true⟩, framed) ∧
    ∀ q, Between none q → ∃ q', Between none q' ∧
      (reading c).run ⟨some .getInfo, q⟩ framed =
        ⟨⟨if event.isLast then none else some .getInfo, q'⟩, [], [event]⟩

theorem seen_send {o c : ReceiverOptions} (hc : o.Client c) {data framed : Bytes}
    {sender : Sender} (h : Sender.call ⟨true⟩ none (.send data true true) = .ok (sender, framed)) :
    Seen c (.send data true true) (.message data true) := by
  have hsender : sender = ⟨true⟩ := (send_ok h).2
  subst hsender
  refine ⟨framed, h, fun q hq => ?_⟩
  obtain ⟨q', hq', -, hread⟩ := send_read (o := c) hq h hc.isServer.symm (Or.inl hc.maxPayload)
    (fun _ hb => by cases hb) []
  refine ⟨q', hq', ?_⟩
  rw [List.append_nil, run_nothing c _ q' (Or.inr rfl)] at hread
  exact hread

theorem seen_control {o c : ReceiverOptions} (hc : o.Client c) {call : SendCall}
    {event : WsEvent} {opcode : UInt8} {buf framed : Bytes}
    (hcall : Sender.call ⟨true⟩ none call = .ok (⟨true⟩, framed))
    (hframe : frame buf ⟨true, none, opcode⟩ = .ok framed)
    (hop : opcode = 8 ∨ opcode = 9 ∨ opcode = 10) (hle : buf.length ≤ 125)
    (hclose : opcode = 8 → buf.length ≠ 1)
    (hevent : ∀ q : Parsing, q.opcode = opcode.toNat → q.controlMessage c buf = .ok event) :
    Seen c call event := by
  refine ⟨framed, hcall, fun q hq => ?_⟩
  obtain ⟨q', hq', hread⟩ := control_read (o := c) hq hframe hop hc.isServer.symm hle hclose hevent
    []
  refine ⟨q', hq', ?_⟩
  rw [List.append_nil, run_nothing] at hread
  · exact hread
  · cases event.isLast
    · exact Or.inr rfl
    · exact Or.inl rfl

theorem frame_short {data : Bytes} (h : data.length ≤ 125) (options : FrameOptions) :
    ∃ framed, frame data options = .ok framed := by
  have hlength : frameLength data.length = .ok (UInt8.ofNat data.length, []) := by
    unfold frameLength
    rw [if_neg (by omega), if_neg (by omega)]
  unfold frame
  rw [hlength]
  obtain ⟨fin, mask, opcode⟩ := options
  cases mask with
  | none => exact ⟨_, rfl⟩
  | some mask =>
      dsimp only [bind, Except.bind]
      split
      · exact ⟨_, rfl⟩
      · exact ⟨_, rfl⟩

theorem seen_pong {o c : ReceiverOptions} (hc : o.Client c) {data : Bytes}
    (hle : data.length ≤ 125) : Seen c (.pong data) (.pong data) := by
  obtain ⟨framed, hframe⟩ := frame_short hle ⟨true, none, 10⟩
  have hpong : pong data none = .ok framed := by
    unfold pong control
    rw [if_neg (Nat.not_lt.mpr hle)]
    exact hframe
  refine seen_control hc ?_ hframe (Or.inr (Or.inr rfl)) hle (fun h8 => absurd h8 (by decide))
    fun _ hop => pong_event hop
  show (pong data none).map _ = _
  rw [hpong]
  rfl

/-- A close frame: without a code, or with one that may be sent. -/
theorem seen_close {o c : ReceiverOptions} (hc : o.Client c) {code : Option Nat} {data : Bytes}
    (h : ∀ n ∈ code, isValidStatusCode n = true ∧ data.length ≤ 123 ∧ c.Text data) :
    ∃ event, Seen c (.close code data) event ∧ ∃ n reason, event = .conclude n reason := by
  have hsent : ∀ {framed : Bytes}, close code data none = .ok framed →
      Sender.call ⟨true⟩ none (.close code data) = .ok (⟨true⟩, framed) := fun hclose => by
    show (close code data none).map _ = _
    rw [hclose]
    rfl
  cases code with
  | none =>
      obtain ⟨framed, hframe⟩ := frame_short (show ([] : Bytes).length ≤ 125 by decide)
        ⟨true, none, 8⟩
      exact ⟨_, seen_control hc (hsent hframe) hframe (Or.inl rfl) (by decide) (fun _ => by decide)
        fun _ hop => no_code_event hop, _, _, rfl⟩
  | some n =>
      obtain ⟨hvalid, hle, htext⟩ := h n rfl
      have hlen : (uintBE 2 n ++ data).length = 2 + data.length := by
        rw [List.length_append, length_uintBE]
      have hbuf : (uintBE 2 n ++ data).length ≤ 125 := by omega
      obtain ⟨framed, hframe⟩ := frame_short hbuf ⟨true, none, 8⟩
      have hclose : close (some n) data none = .ok framed := by
        unfold close
        simp only [hvalid, Bool.not_true, Bool.false_eq_true, if_false]
        split
        · next hempty =>
            rw [hempty, List.append_nil] at hframe
            exact hframe
        · rw [if_neg (Nat.not_lt.mpr hle)]
          exact hframe
      exact ⟨_, seen_control hc (hsent hclose) hframe (Or.inl rfl) hbuf (fun _ => by omega)
        fun _ hop => close_event hop hvalid htext, _, _, rfl⟩

/-- One more frame is one more event. -/
theorem Opened.call {c : ReceiverOptions} {b : Bridge} (h : Opened c b.sender b.toBrowser)
    (hopen : b.readyState = .OPEN) {call : SendCall} {event : WsEvent} (hseen : Seen c call event) :
    ∃ framed, b.call call = { b with sender := ⟨true⟩, toBrowser := b.toBrowser ++ framed } ∧
      events c (b.toBrowser ++ framed) = events c b.toBrowser ++ [event] ∧
      (event.isLast = false → Opened c ⟨true⟩ (b.toBrowser ++ framed)) := by
  obtain ⟨framed, hcall, hread⟩ := hseen
  obtain ⟨q, hq, hrun⟩ := h.reader
  obtain ⟨q', hq', hnext⟩ := hread q hq
  have hlater : (reading c).run .new (b.toBrowser ++ framed) =
      ⟨⟨if event.isLast then none else some .getInfo, q'⟩, [],
        events c b.toBrowser ++ [event]⟩ := by
    rw [Puller.run_append, hrun]
    dsimp only
    rw [List.nil_append, hnext]
    rfl
  have hevents : events c (b.toBrowser ++ framed) = events c b.toBrowser ++ [event] :=
    congrArg Puller.Pulled.out hlater
  refine ⟨framed, ?_, hevents, fun hlast => ⟨rfl, q', hq', ?_⟩⟩
  · unfold Bridge.call
    rw [hopen, h.sender, hcall]
  · rw [hevents, hlater, hlast]
    rfl

/-- What a browser sees of the chunks of its server's stream and of the answers to its pings. -/
structure Down (c : ReceiverOptions) (chunks pings : List Bytes) (b : Bridge) : Prop where
  messages : (events c b.toBrowser).filterMap WsEvent.message? <+: chunks
  pongs : (events c b.toBrowser).filterMap WsEvent.pong? <+: pings
  answers : ∀ e ∈ events c b.toBrowser, e.Answer
  opened : b.readyState = .OPEN → Opened c b.sender b.toBrowser
  all : b.readyState = .OPEN → b.uncaught = false →
    (events c b.toBrowser).filterMap WsEvent.message? = chunks ∧
      (events c b.toBrowser).filterMap WsEvent.pong? = pings

theorem down_new (c : ReceiverOptions) : Down c [] [] .new := by
  have hnone : events c Bridge.new.toBrowser = [] := events_nil c
  constructor
  case opened => exact fun _ => opened_new c
  all_goals simp [hnone]

/-- What a browser can know of is left alone. -/
structure Unsaid (b b' : Bridge) : Prop where
  sender : b'.sender = b.sender
  readyState : b'.readyState = b.readyState
  toBrowser : b'.toBrowser = b.toBrowser
  uncaught : b'.uncaught = b.uncaught

theorem Down.frame {c : ReceiverOptions} {chunks pings : List Bytes} {b b' : Bridge}
    (h : Down c chunks pings b) (hsame : Unsaid b b') : Down c chunks pings b' := by
  obtain ⟨hsender, hready, hbrowser, huncaught⟩ := hsame
  constructor
  case messages => exact hbrowser ▸ h.messages
  case pongs => exact hbrowser ▸ h.pongs
  case answers => exact hbrowser ▸ h.answers
  case opened =>
    rw [hsender, hready, hbrowser]
    exact h.opened
  case all =>
    rw [hready, hbrowser, huncaught]
    exact h.all

/-- With more to answer, where nothing is sent any more. -/
theorem Down.more {c : ReceiverOptions} {chunks pings : List Bytes} {b : Bridge}
    (h : Down c chunks pings b) (hclosing : b.readyState = .OPEN → b.uncaught = true)
    (chunks' pings' : List Bytes) : Down c (chunks ++ chunks') (pings ++ pings') b where
  messages := h.messages.trans (List.prefix_append _ _)
  pongs := h.pongs.trans (List.prefix_append _ _)
  answers := h.answers
  opened := h.opened
  all := fun hopen hcaught => by
    rw [hclosing hopen] at hcaught
    cases hcaught

theorem Bridge.call_closing {b : Bridge} (h : b.readyState = .CLOSING) (call : SendCall) :
    b.call call = b := by
  unfold Bridge.call
  rw [h]

theorem Down.say {c : ReceiverOptions} {chunks pings : List Bytes} {b : Bridge}
    (h : Down c chunks pings b) (hready : b.readyState = .OPEN) (hcaught : b.uncaught = false)
    {call : SendCall} {event : WsEvent} (hseen : Seen c call event) (hanswer : event.Answer) :
    (event.isLast = false →
        Down c (chunks ++ event.message?.toList) (pings ++ event.pong?.toList) (b.call call)) ∧
      Down c (chunks ++ event.message?.toList) (pings ++ event.pong?.toList)
        { b.call call with readyState := .CLOSING } ∧
      (b.call call).uncaught = false := by
  obtain ⟨hmessages, hpongs⟩ := h.all hready hcaught
  obtain ⟨framed, hnow, hevents, hstill⟩ := (h.opened hready).call hready hseen
  have hmessages' : (events c (b.toBrowser ++ framed)).filterMap WsEvent.message? =
      chunks ++ event.message?.toList := by
    rw [hevents, List.filterMap_append, hmessages]
    cases event <;> rfl
  have hpongs' : (events c (b.toBrowser ++ framed)).filterMap WsEvent.pong? =
      pings ++ event.pong?.toList := by
    rw [hevents, List.filterMap_append, hpongs]
    cases event <;> rfl
  have hanswers : ∀ e ∈ events c (b.toBrowser ++ framed), e.Answer := by
    intro e he
    rw [hevents] at he
    rcases List.mem_append.mp he with he | he
    · exact h.answers e he
    · rw [List.mem_singleton.mp he]
      exact hanswer
  rw [hnow]
  refine ⟨fun hlast => ⟨hmessages' ▸ List.prefix_refl _, hpongs' ▸ List.prefix_refl _, hanswers,
    fun _ => hstill hlast, fun _ _ => ⟨hmessages', hpongs'⟩⟩, ⟨hmessages' ▸ List.prefix_refl _,
    hpongs' ▸ List.prefix_refl _, hanswers, fun hopen => ?_, fun hopen => ?_⟩, hcaught⟩
  · cases hopen
  · cases hopen

theorem Down.closing {c : ReceiverOptions} {chunks pings : List Bytes} {b : Bridge}
    (h : Down c chunks pings b) (hready : b.readyState = .CLOSING) (chunks' pings' : List Bytes) :
    Down c (chunks ++ chunks') (pings ++ pings') b :=
  h.more (fun hopen => by rw [hready] at hopen; cases hopen) chunks' pings'

theorem Down.send {o c : ReceiverOptions} (hc : o.Client c) {chunks pings : List Bytes}
    {b : Bridge} (h : Down c chunks pings b) (hcaught : b.uncaught = false) (data : Bytes) :
    Down c (chunks ++ [data]) pings (b.call (.send data true true)) := by
  rw [← List.append_nil pings]
  cases hready : b.readyState with
  | CLOSING =>
      rw [Bridge.call_closing hready]
      exact h.closing hready _ _
  | OPEN =>
      cases hcall : Sender.call ⟨true⟩ none (.send data true true) with
      | ok sent => exact (h.say hready hcaught (seen_send hc hcall) rfl).1 rfl
      | error e =>
          have hnow : b.call (.send data true true) = { b with uncaught := true } := by
            unfold Bridge.call
            rw [hready, (h.opened hready).sender, hcall]
          rw [hnow]
          refine Down.more (b := { b with uncaught := true })
            ⟨h.messages, h.pongs, h.answers, h.opened, fun _ hfalse => ?_⟩ (fun _ => rfl) _ _
          cases hfalse

theorem Down.pong {o c : ReceiverOptions} (hc : o.Client c) {chunks pings : List Bytes}
    {b : Bridge} (h : Down c chunks pings b) (hcaught : b.uncaught = false) {data : Bytes}
    (hle : data.length ≤ 125) :
    Down c chunks (pings ++ [data]) (b.call (.pong data)) ∧
      (b.call (.pong data)).uncaught = false := by
  rw [← List.append_nil chunks]
  cases hready : b.readyState with
  | CLOSING =>
      rw [Bridge.call_closing hready]
      exact ⟨h.closing hready _ _, hcaught⟩
  | OPEN =>
      obtain ⟨hsaid, -, hcaught'⟩ := h.say hready hcaught (seen_pong hc hle) trivial
      exact ⟨hsaid rfl, hcaught'⟩

theorem Down.close {o c : ReceiverOptions} (hc : o.Client c) {chunks pings : List Bytes}
    {b : Bridge} (h : Down c chunks pings b) (hcaught : b.uncaught = false) {code : Option Nat}
    {data : Bytes} (hcode : ∀ n ∈ code, isValidStatusCode n = true ∧ data.length ≤ 123 ∧
      c.Text data) :
    Down c chunks pings (b.close code data) ∧ (b.close code data).uncaught = false := by
  unfold Bridge.close
  cases hready : b.readyState with
  | CLOSING =>
      rw [Bridge.call_closing hready]
      refine ⟨⟨h.messages, h.pongs, h.answers, fun hopen => ?_, fun hopen => ?_⟩, hcaught⟩
      · cases hopen
      · cases hopen
  | OPEN =>
      obtain ⟨event, hseen, n, reason, rfl⟩ := seen_close hc hcode
      obtain ⟨-, hsaid, hcaught'⟩ := h.say hready hcaught hseen trivial
      rw [← List.append_nil chunks, ← List.append_nil pings]
      exact ⟨hsaid, hcaught'⟩

/-! ## What is said to the server -/

structure Up (emitted : List WsEvent) (b : Bridge) : Prop where
  written : b.toServer <+: (emitted.filterMap WsEvent.message?).flatten
  all : b.tcp = .connected → b.toServer = (emitted.filterMap WsEvent.message?).flatten

/-- One more event, which may be a message. -/
theorem Up.more {emitted : List WsEvent} {b : Bridge} (h : Up emitted b) (e : WsEvent)
    (hquiet : e.message? = none ∨ b.tcp ≠ .connected) : Up (emitted ++ [e]) b := by
  rcases hquiet with hnone | htcp
  · have hsame : (emitted ++ [e]).filterMap WsEvent.message? =
        emitted.filterMap WsEvent.message? := by
      simp [List.filterMap_append, hnone]
    exact ⟨hsame ▸ h.written, fun htcp => hsame ▸ h.all htcp⟩
  · refine ⟨h.written.trans ?_, fun hconnected => absurd hconnected htcp⟩
    rw [List.filterMap_append, List.flatten_append]
    exact List.prefix_append _ _

theorem Up.frame {emitted : List WsEvent} {b b' : Bridge} (h : Up emitted b)
    (htcp : b'.tcp = b.tcp) (hserver : b'.toServer = b.toServer) : Up emitted b' :=
  ⟨hserver ▸ h.written, fun hconnected => hserver ▸ h.all (htcp ▸ hconnected)⟩

/-- A message is written as long as the server takes any. -/
theorem Up.write {emitted : List WsEvent} {b : Bridge} (h : Up emitted b) (data : Bytes)
    (isBinary : Bool) : Up (emitted ++ [.message data isBinary]) (b.write data) := by
  unfold Bridge.write
  split
  · next htcp =>
      have hmessages : ((emitted ++ [WsEvent.message data isBinary]).filterMap
          WsEvent.message?).flatten = b.toServer ++ data := by
        rw [List.filterMap_append, List.flatten_append, ← h.all htcp]
        exact congrArg (b.toServer ++ ·) (List.append_nil data)
      exact ⟨hmessages ▸ List.prefix_refl _, fun _ => hmessages.symm⟩
  · next htcp =>
      have hmore := h.more (.message data isBinary) (Or.inr (by rw [htcp]; decide))
      exact ⟨hmore.written, fun hconnected => by cases hconnected⟩
  · next htcp => exact h.more _ (Or.inr (by rw [htcp]; decide))
  · next htcp => exact h.more _ (Or.inr (by rw [htcp]; decide))

/-- What writing to the server leaves alone. -/
theorem Bridge.write_unsaid (b : Bridge) (data : Bytes) :
    Unsaid b (b.write data) ∧ (b.write data).input = b.input ∧
      (b.write data).failed = b.failed := by
  unfold Bridge.write
  split <;> exact ⟨⟨rfl, rfl, rfl, rfl⟩, rfl, rfl⟩

/-- What sending leaves alone. -/
structure Aside (b b' : Bridge) : Prop where
  input : b'.input = b.input
  tcp : b'.tcp = b.tcp
  toServer : b'.toServer = b.toServer
  failed : b'.failed = b.failed
  broken : b'.broken = b.broken

theorem Bridge.call_aside (b : Bridge) (call : SendCall) : Aside b (b.call call) := by
  unfold Bridge.call
  split
  · exact ⟨rfl, rfl, rfl, rfl, rfl⟩
  · split
    · exact ⟨rfl, rfl, rfl, rfl, rfl⟩
    · exact ⟨rfl, rfl, rfl, rfl, rfl⟩

theorem Bridge.close_aside (b : Bridge) (code : Option Nat) (data : Bytes) :
    Aside b (b.close code data) :=
  have h := b.call_aside (.close code data)
  ⟨h.input, h.tcp, h.toServer, h.failed, h.broken⟩

/-! ## What a bridge keeps -/

/-- After these events of its receiver. -/
structure Bridge.Says (c : ReceiverOptions) (chunks : List Bytes) (emitted : List WsEvent)
    (b : Bridge) : Prop where
  up : Up emitted b
  down : Down c chunks (emitted.filterMap WsEvent.ping?) b
  caught : b.uncaught = false
  known : ∀ e ∈ b.failed, e.statusCode ∈ [1002, 1007, 1009]

theorem onEvent_says {o c : ReceiverOptions} (hc : o.Client c) {chunks : List Bytes}
    {emitted : List WsEvent} {b : Bridge} (h : b.Says c chunks emitted) {e : WsEvent}
    (hsound : e.Sound o) :
    (b.onEvent e).Says c chunks (emitted ++ [e]) ∧ (b.onEvent e).input = b.input := by
  obtain ⟨hup, hdown, hcaught, hknown⟩ := h
  have hpings : (emitted ++ [e]).filterMap WsEvent.ping? =
      emitted.filterMap WsEvent.ping? ++ e.ping?.toList := by
    rw [List.filterMap_append]
    cases e <;> rfl
  cases e with
  | message data isBinary =>
      replace hpings := hpings.trans (List.append_nil _)
      obtain ⟨hunsaid, hinput, hfailed⟩ := b.write_unsaid data
      refine ⟨⟨hup.write data isBinary, ?_, hunsaid.uncaught.trans hcaught, fun e he => ?_⟩, hinput⟩
      · rw [hpings]
        exact hdown.frame hunsaid
      · exact hknown e (hfailed ▸ he)
  | ping data =>
      have haside := b.call_aside (.pong data)
      obtain ⟨hpong, hcaught'⟩ := hdown.pong hc hcaught (show data.length ≤ 125 from hsound)
      refine ⟨⟨(hup.more _ (Or.inl rfl)).frame haside.tcp haside.toServer, ?_, hcaught', ?_⟩,
        haside.input⟩
      · rw [hpings]
        exact hpong
      · intro e he
        exact hknown e (haside.failed ▸ he)
  | pong data =>
      replace hpings := hpings.trans (List.append_nil _)
      exact ⟨⟨hup.more _ (Or.inl rfl), hpings ▸ hdown, hcaught, hknown⟩, rfl⟩
  | conclude code reason =>
      replace hpings := hpings.trans (List.append_nil _)
      have haside := b.close_aside (if code = 1005 then none else some code) reason
      have hcode : ∀ n ∈ (if code = 1005 then none else some code), isValidStatusCode n = true ∧
          reason.length ≤ 123 ∧ c.Text reason := by
        intro n hn
        split at hn
        · cases hn
        · next hne =>
            cases hn
            rcases hsound with ⟨h1005, -⟩ | ⟨hvalid, hle, htext⟩
            · exact absurd h1005 hne
            · exact ⟨hvalid, hle, hc.text reason htext⟩
      obtain ⟨hclose, hcaught'⟩ := hdown.close hc hcaught hcode
      refine ⟨⟨(hup.more _ (Or.inl rfl)).frame haside.tcp haside.toServer, ?_, hcaught', ?_⟩,
        haside.input⟩
      · rw [hpings]
        exact hclose
      · intro e he
        exact hknown e (haside.failed ▸ he)
  | failure f =>
      replace hpings := hpings.trans (List.append_nil _)
      obtain ⟨e, rfl, hcode⟩ := hsound
      have hup' := hup.more (.failure (.error e)) (Or.inl rfl)
      refine ⟨⟨⟨hup'.written, hup'.all⟩, ?_, hcaught, fun e' he' => ?_⟩, rfl⟩
      · rw [hpings]
        exact hdown.frame ⟨rfl, rfl, rfl, rfl⟩
      · cases he'
        exact hcode

theorem onEvents_says {o c : ReceiverOptions} (hc : o.Client c) {chunks : List Bytes}
    (out : List WsEvent) :
    ∀ {emitted : List WsEvent} {b : Bridge}, b.Says c chunks emitted → (∀ e ∈ out, e.Sound o) →
      (out.foldl Bridge.onEvent b).Says c chunks (emitted ++ out) ∧
        (out.foldl Bridge.onEvent b).input = b.input := by
  induction out with
  | nil =>
      intro emitted b h _
      rw [List.append_nil]
      exact ⟨h, rfl⟩
  | cons e out ih =>
      intro emitted b h hsound
      rw [List.forall_mem_cons] at hsound
      obtain ⟨hone, hinput⟩ := onEvent_says hc h hsound.1
      obtain ⟨hall, hinput'⟩ := ih hone hsound.2
      rw [List.append_assoc] at hall
      exact ⟨hall, hinput'.trans hinput⟩

/-! ## A bridge's run -/

/-- The bytes of the browser. -/
def browserBytes (es : List BridgeEvent) : Bytes :=
  es.flatMap fun
    | .browser e => e.bytes
    | _ => []

/-- The chunks of the server's stream. -/
def serverChunks (es : List BridgeEvent) : List Bytes :=
  es.filterMap fun
    | .tcpData data => some data
    | _ => none

/-- All that is known of a bridge after these events. -/
structure Bridge.Kept (o c : ReceiverOptions) (es : List BridgeEvent) (b : Bridge)
    (emitted : List WsEvent) : Prop where
  flow : Inflow.Reads o ⟨b.input, browserBytes es, emitted⟩ ∧
    Inflow.Tidy ⟨b.input, browserBytes es, emitted⟩
  up : Up emitted b
  down : Down c (serverChunks es) (emitted.filterMap WsEvent.ping?) b
  known : ∀ e ∈ b.failed, e.statusCode ∈ [1002, 1007, 1009]

theorem Inflow.Reads.sound {o : ReceiverOptions} {s : Inflow} (h : s.Reads o) (htidy : s.Tidy) :
    ∀ e ∈ s.emitted, e.Sound o := by
  rw [← htidy.emitted]
  exact (sound_of_begins h.emitted_begins).1

/-- The codes of the receiver's errors may be sent. -/
theorem known_code (c : ReceiverOptions) {code : Nat} (h : code ∈ [1002, 1007, 1009]) :
    ∀ n ∈ some code, isValidStatusCode n = true ∧ ([] : Bytes).length ≤ 123 ∧ c.Text [] := by
  rintro n ⟨rfl⟩
  have hempty : checkUTF8 c.isUtf8 [] = true := by
    unfold checkUTF8
    cases c.isUtf8 <;> rfl
  refine ⟨?_, Nat.zero_le _, Or.inr hempty⟩
  simp only [List.mem_cons, List.not_mem_nil, or_false] at h
  rcases h with rfl | rfl | rfl <;> decide

theorem no_code (c : ReceiverOptions) (data : Bytes) :
    ∀ n ∈ (none : Option Nat), isValidStatusCode n = true ∧ data.length ≤ 123 ∧ c.Text data :=
  fun n hn => by cases hn

/-- What ends the process: an error nobody listens to, or a chunk too long for a frame. -/
def BridgeEvent.Fatal (b : Bridge) : BridgeEvent → Prop
  | .receiverOnError => True
  | .tcpError => True
  | .tcpData data => b.readyState = .OPEN ∧ 281474976710656 ≤ data.length
  | _ => False

theorem frame_error_iff (data : Bytes) (options : FrameOptions) :
    (∃ e, frame data options = .error e) ↔ 281474976710656 ≤ data.length := by
  have hlength : (∃ e, frameLength data.length = .error e) ↔ 281474976710656 ≤ data.length := by
    unfold frameLength
    split
    · split
      · simp
        omega
      · simp
        omega
    · split
      · simp
        omega
      · simp
        omega
  rw [← hlength]
  cases h : frameLength data.length with
  | error e =>
      refine iff_of_true ⟨e, ?_⟩ ⟨e, rfl⟩
      unfold frame
      rw [h]
      rfl
  | ok pair =>
      refine iff_of_false ?_ (by simp)
      rintro ⟨e, he⟩
      obtain ⟨fin, mask, opcode⟩ := options
      unfold frame at he
      rw [h] at he
      cases mask with
      | none => cases he
      | some mask =>
          dsimp only [bind, Except.bind] at he
          split at he
          · cases he
          · cases he

theorem send_uncaught {b : Bridge} (hcaught : b.uncaught = false)
    (hsender : b.readyState = .OPEN → b.sender = ⟨true⟩) (data : Bytes) :
    (b.call (.send data true true)).uncaught = true ↔
      BridgeEvent.Fatal (b.call (.send data true true)) (.tcpData data) := by
  unfold Bridge.call
  cases hready : b.readyState with
  | CLOSING =>
      dsimp only
      rw [hcaught]
      refine iff_of_false (by decide) ?_
      rintro ⟨hopen, -⟩
      rw [hready] at hopen
      cases hopen
  | OPEN =>
      dsimp only
      rw [hsender hready]
      have hframe := frame_error_iff data ⟨true, none, 2⟩
      cases hsent : frame data ⟨true, none, 2⟩ with
      | error e =>
          have hcall : Sender.call ⟨true⟩ none (.send data true true) = .error e := by
            show (frame data ⟨true, none, 2⟩ >>= _) = _
            rw [hsent]
            rfl
          rw [hcall]
          exact iff_of_true rfl ⟨rfl, hframe.mp ⟨e, hsent⟩⟩
      | ok framed =>
          have hcall : Sender.call ⟨true⟩ none (.send data true true) = .ok (⟨true⟩, framed) := by
            show (frame data ⟨true, none, 2⟩ >>= _) = _
            rw [hsent]
            rfl
          rw [hcall]
          refine iff_of_false (by simp [hcaught]) ?_
          rintro ⟨-, hlong⟩
          obtain ⟨e, he⟩ := hframe.mpr hlong
          rw [hsent] at he
          cases he

/-- A bridge hands its receiver no chunk while a microtask is waiting. -/
theorem takes_prompt {b : Bridge} {e : InputStep} (h : b.takes e = true) (arrived : Bytes)
    (emitted : List WsEvent) : Prompt ⟨b.input, arrived, emitted⟩ e := by
  cases e with
  | data chunk => exact Option.isNone_iff_eq_none.mp ((Bool.and_eq_true _ _).mp h).2
  | task => trivial

/-- An event that brings nothing from the browser's socket. -/
theorem Bridge.Kept.quiet {o c : ReceiverOptions} {es : List BridgeEvent} {b b' : Bridge}
    {emitted : List WsEvent} (h : b.Kept o c es emitted) {e : BridgeEvent}
    (hnone : browserBytes [e] = []) (hinput : b'.input = b.input) (hup : Up emitted b')
    (hdown : Down c (serverChunks es ++ serverChunks [e]) (emitted.filterMap WsEvent.ping?) b')
    (hknown : ∀ e ∈ b'.failed, e.statusCode ∈ [1002, 1007, 1009]) :
    b'.Kept o c (es ++ [e]) emitted := by
  have hbytes : browserBytes (es ++ [e]) = browserBytes es := by
    rw [browserBytes, List.flatMap_append]
    exact (congrArg (browserBytes es ++ ·) hnone).trans (List.append_nil _)
  have hchunks : serverChunks (es ++ [e]) = serverChunks es ++ serverChunks [e] :=
    List.filterMap_append
  refine ⟨?_, hup, hchunks ▸ hdown, hknown⟩
  rw [hbytes, hinput]
  exact h.flow

/-- A chunk or a microtask of the browser's socket. -/
theorem Bridge.Kept.browser {o c : ReceiverOptions} {es : List BridgeEvent} {b : Bridge}
    {emitted : List WsEvent} (hc : o.Client c) (h : b.Kept o c es emitted)
    (hcaught : b.uncaught = false) {e : InputStep} (htakes : b.takes e = true) {input : Input}
    {out : List WsEvent} (hin : b.input.step o e = some (input, out)) :
    Bridge.Kept o c (es ++ [.browser e]) (out.foldl Bridge.onEvent { b with input := input })
        (emitted ++ out) ∧
      (out.foldl Bridge.onEvent { b with input := input }).uncaught = false := by
  have hstep : Inflow.step o ⟨b.input, browserBytes es, emitted⟩ e =
      some ⟨input, browserBytes es ++ e.bytes, emitted ++ out⟩ := by
    unfold Inflow.step
    rw [hin]
    rfl
  have hreads := h.flow.1.step hstep
  have htidy := h.flow.2.step h.flow.1 (takes_prompt htakes _ _) hstep
  have hsays : Bridge.Says c (serverChunks es) emitted { b with input := input } :=
    ⟨⟨h.up.written, h.up.all⟩, h.down.frame ⟨rfl, rfl, rfl, rfl⟩, hcaught, h.known⟩
  obtain ⟨hlater, hinput⟩ := onEvents_says hc out hsays fun e he =>
    hreads.sound htidy e (List.mem_append_right _ he)
  have hbytes : browserBytes (es ++ [.browser e]) = browserBytes es ++ e.bytes := by
    rw [browserBytes, List.flatMap_append]
    exact congrArg (browserBytes es ++ ·) (List.append_nil _)
  have hchunks : serverChunks (es ++ [.browser e]) = serverChunks es := by
    rw [serverChunks, List.filterMap_append]
    exact List.append_nil _
  refine ⟨⟨?_, hlater.up, ?_, hlater.known⟩, hlater.caught⟩
  · rw [hbytes, hinput]
    exact ⟨hreads, htidy⟩
  · rw [hchunks]
    exact hlater.down

theorem Bridge.step_kept {o c : ReceiverOptions} (hc : o.Client c) {es : List BridgeEvent}
    {b b' : Bridge} {emitted : List WsEvent} (h : b.Kept o c es emitted) {e : BridgeEvent}
    (hstep : b.step o e = some b') :
    (∃ emitted', b'.Kept o c (es ++ [e]) emitted') ∧ (b'.uncaught = true ↔ e.Fatal b') := by
  have hchunks : Down c (serverChunks es ++ []) (emitted.filterMap WsEvent.ping?) b :=
    (List.append_nil (serverChunks es)).symm ▸ h.down
  unfold Bridge.step at hstep
  split at hstep
  · cases hstep
  next huncaught =>
  have hcaught : b.uncaught = false := Bool.not_eq_true _ ▸ huncaught
  cases e with
  | browser e =>
      dsimp only at hstep
      split at hstep
      · next htakes =>
          obtain ⟨⟨input, out⟩, hin, rfl⟩ := Option.map_eq_some_iff.mp hstep
          obtain ⟨hkept, hstill⟩ := h.browser hc hcaught htakes hin
          exact ⟨⟨_, hkept⟩, iff_of_false (by simp [hstill]) id⟩
      · cases hstep
  | receiverOnError =>
      obtain ⟨e, he, rfl⟩ := Option.map_eq_some_iff.mp hstep
      have haside := b.close_aside (some e.statusCode) []
      obtain ⟨hclose, -⟩ := hchunks.close hc hcaught (known_code c (h.known e he))
      exact ⟨⟨_, h.quiet rfl haside.input (h.up.frame haside.tcp haside.toServer)
        ⟨hclose.messages, hclose.pongs, hclose.answers, hclose.opened, fun _ hfalse => by
          cases hfalse⟩ fun e' he' => by cases he'⟩, iff_of_true rfl trivial⟩
  | gone =>
      cases hstep
      exact ⟨⟨_, h.quiet rfl rfl ⟨h.up.written, h.up.all⟩
        ⟨hchunks.messages, hchunks.pongs, hchunks.answers, fun hopen => (by cases hopen),
          fun hopen => (by cases hopen)⟩ h.known⟩, iff_of_false huncaught id⟩
  | tcpData data =>
      dsimp only at hstep
      split at hstep
      · cases hstep
        have haside := b.call_aside (.send data true true)
        exact ⟨⟨_, h.quiet rfl haside.input (h.up.frame haside.tcp haside.toServer)
          (h.down.send hc hcaught data) fun e he => h.known e (haside.failed ▸ he)⟩,
          send_uncaught hcaught (fun hopen => (h.down.opened hopen).sender) data⟩
      · cases hstep
  | tcpEnd | tcpFinish =>
      dsimp only at hstep
      split at hstep
      · cases hstep
        exact ⟨⟨_, h.quiet rfl rfl ⟨h.up.written, fun htcp => by cases htcp⟩
          (hchunks.frame ⟨rfl, rfl, rfl, rfl⟩) h.known⟩, iff_of_false huncaught id⟩
      · cases hstep
  | tcpClose =>
      dsimp only at hstep
      split at hstep
      · cases hstep
        have haside := Bridge.close_aside { b with tcp := .closed } none []
        have hclosed : Down c (serverChunks es ++ []) (emitted.filterMap WsEvent.ping?)
            { b with tcp := .closed } := hchunks.frame ⟨rfl, rfl, rfl, rfl⟩
        obtain ⟨hclose, hstill⟩ := hclosed.close hc hcaught (no_code c [])
        have hup : Up emitted { b with tcp := .closed } :=
          ⟨h.up.written, fun htcp => by cases htcp⟩
        exact ⟨⟨_, h.quiet rfl haside.input (hup.frame haside.tcp haside.toServer) hclose
          fun e he => h.known e (haside.failed ▸ he)⟩, iff_of_false (by simp [hstill]) id⟩
      · cases hstep
  | tcpError =>
      dsimp only at hstep
      split at hstep
      · cases hstep
        exact ⟨⟨_, h.quiet rfl rfl ⟨h.up.written, h.up.all⟩
          ⟨hchunks.messages, hchunks.pongs, hchunks.answers, hchunks.opened, fun _ hfalse => by
            cases hfalse⟩ h.known⟩, iff_of_true rfl trivial⟩
      · cases hstep

theorem Bridge.new_kept (o c : ReceiverOptions) : Bridge.new.Kept o c [] [] where
  flow := ⟨Inflow.new_reads o, Inflow.new_tidy⟩
  up := ⟨List.prefix_refl _, fun _ => rfl⟩
  down := down_new c
  known := fun e he => by cases he

theorem bridge_kept {o c : ReceiverOptions} (hc : o.Client c) {es : List BridgeEvent} :
    ∀ {b : Bridge}, Machine.exec (Bridge.step o) .new es = some b →
      ∃ emitted, b.Kept o c es emitted := by
  induction es using List.reverseRecOn with
  | nil =>
      intro b h
      cases h
      exact ⟨[], Bridge.new_kept o c⟩
  | append_singleton es e ih =>
      intro b' h
      obtain ⟨b, hb, hstep⟩ := Machine.exec_snoc.mp h
      obtain ⟨emitted, hkept⟩ := ih hb
      exact (Bridge.step_kept hc hkept hstep).1

/-- A client that differs from the relay in its role only. -/
theorem client_of (o : ReceiverOptions) :
    o.Client { o with isServer := false, maxPayload := 0 } :=
  ⟨rfl, rfl, fun _ h => h⟩

theorem relay_bridge_kept {o c : ReceiverOptions} (hc : o.Client c) {steps : List RelayEvent}
    {s : RelayState} (hrun : Machine.exec (RelayState.step o) .new steps = some s) {i : Nat}
    {b : Bridge} (hb : s.bridges[i]? = some b) :
    ∃ emitted, b.Kept o c (bridgeEvents i steps) emitted := by
  have hbridge := bridge_run hrun i
  rw [hb] at hbridge
  exact bridge_kept hc hbridge

theorem Bridge.Kept.begins {o c : ReceiverOptions} {es : List BridgeEvent} {b : Bridge}
    {emitted : List WsEvent} (h : b.Kept o c es emitted) :
    emitted <+: events o (browserBytes es) := by
  have hbegins := h.flow.1.emitted_begins
  rwa [h.flow.2.emitted] at hbegins

theorem Bridge.Kept.written {o c : ReceiverOptions} {es : List BridgeEvent} {b : Bridge}
    {emitted : List WsEvent} (h : b.Kept o c es emitted) :
    b.toServer <+: ((events o (browserBytes es)).filterMap WsEvent.message?).flatten := by
  obtain ⟨rest, hrest⟩ := h.begins
  refine h.up.written.trans ?_
  rw [← hrest, List.filterMap_append, List.flatten_append]
  exact List.prefix_append _ _

theorem Bridge.Kept.written_all {o c : ReceiverOptions} {es : List BridgeEvent} {b : Bridge}
    {emitted : List WsEvent} (h : b.Kept o c es emitted) (htcp : b.tcp = .connected)
    (hquiet : b.input.step o .task = none) :
    b.toServer = ((events o (browserBytes es)).filterMap WsEvent.message?).flatten := by
  have hall : emitted = events o (browserBytes es) :=
    h.flow.2.emitted.symm.trans (h.flow.1.emitted_all hquiet)
  rw [h.up.all htcp, hall]

/-- What the relay writes to the server for a browser are the payloads of that browser's messages,
in order and nothing else, whatever happens to the others: all of them, unless one still waits for
its microtask, until the server ends the connection. -/
theorem relay_upstream (o : ReceiverOptions) (steps : List RelayEvent) (s : RelayState)
    (hrun : Machine.exec (RelayState.step o) .new steps = some s) (i : Nat) (b : Bridge)
    (hb : s.bridges[i]? = some b) :
    let messages := (events o (browserBytes (bridgeEvents i steps))).filterMap WsEvent.message?
    b.toServer <+: messages.flatten ∧
      (b.tcp = .connected → b.input.step o .task = none → b.toServer = messages.flatten) := by
  obtain ⟨emitted, hkept⟩ := relay_bridge_kept (client_of o) hrun hb
  exact ⟨hkept.written, hkept.written_all⟩

/-- Two browsers: the one sends a message, the other a ping, and the server of the other speaks in
between. At the end the first browser's server closes. -/
def twoBrowsers : List RelayEvent :=
  [.connection, .connection, .on 0 (.browser (.data [0x82, 0x82, 0, 0, 0])),
    .on 1 (.browser (.data [0x89, 0x81, 0, 0, 0, 0, 7])), .on 0 (.browser (.data [0, 0x68, 0x69])),
    .on 1 (.tcpData [1, 2]), .on 1 (.browser .task), .on 0 (.browser .task), .on 0 .tcpEnd,
    .on 0 .tcpFinish, .on 0 .tcpClose]

theorem twoBrowsers_run {α : Type} (i : Nat) (f : Bridge → α) (a : α)
    (h : ((Machine.exec (RelayState.step (.server none)) .new twoBrowsers).bind
      fun s => s.bridges[i]?).map f = some a) :
    ∃ s b, Machine.exec (RelayState.step (.server none)) .new twoBrowsers = some s ∧
      s.bridges[i]? = some b ∧ f b = a := by
  obtain ⟨b, hb, hf⟩ := Option.map_eq_some_iff.mp h
  obtain ⟨s, hs, hb⟩ := Option.bind_eq_some_iff.mp hb
  exact ⟨s, b, hs, hb, hf⟩

theorem relay_upstream_two :
    ∃ s b, Machine.exec (RelayState.step (.server none)) .new twoBrowsers = some s ∧
      s.bridges[0]? = some b ∧ b.toServer = ascii "hi" ∧
      b.toServer <+: ((events (.server none) (browserBytes (bridgeEvents 0 twoBrowsers))).filterMap
        WsEvent.message?).flatten := by
  obtain ⟨s, b, hs, hb, hserver⟩ := twoBrowsers_run 0 Bridge.toServer (ascii "hi")
    (by decide +kernel)
  exact ⟨s, b, hs, hb, hserver, (relay_upstream (.server none) twoBrowsers s hs 0 b hb).1⟩

/-- What a browser sees of the relay are the chunks of its own server's stream, each as one
message, and an answer to each of its pings, in order, and behind them one close frame at most. -/
theorem relay_downstream (o c : ReceiverOptions) (hc : o.Client c) (steps : List RelayEvent)
    (s : RelayState) (hrun : Machine.exec (RelayState.step o) .new steps = some s) (i : Nat)
    (b : Bridge) (hb : s.bridges[i]? = some b) :
    let seen := events c b.toBrowser
    let pings := (events o (browserBytes (bridgeEvents i steps))).filterMap WsEvent.ping?
    seen.filterMap WsEvent.message? <+: serverChunks (bridgeEvents i steps) ∧
      seen.filterMap WsEvent.pong? <+: pings ∧
      (∀ e ∈ seen, e.Answer) ∧
      (∀ before e after, seen = before ++ e :: after → e.isLast = true → after = []) ∧
      (b.readyState = .OPEN → b.uncaught = false →
        seen.filterMap WsEvent.message? = serverChunks (bridgeEvents i steps)) := by
  intro seen pings
  obtain ⟨emitted, hkept⟩ := relay_bridge_kept hc hrun hb
  refine ⟨hkept.down.messages, ?_, hkept.down.answers, ?_, fun hopen hcaught =>
    (hkept.down.all hopen hcaught).1⟩
  · exact hkept.down.pongs.trans (hkept.begins.filterMap _)
  · exact fun before e after h hlast =>
      Puller.out_last (fun s xs before e after => next_last) h hlast

theorem relay_downstream_two :
    ∃ s b, Machine.exec (RelayState.step (.server none)) .new twoBrowsers = some s ∧
      s.bridges[1]? = some b ∧ b.toBrowser = [0x82, 2, 1, 2, 0x8a, 1, 7] ∧
      (events { (ReceiverOptions.server none) with isServer := false, maxPayload := 0 }
        b.toBrowser).filterMap WsEvent.message? <+:
          serverChunks (bridgeEvents 1 twoBrowsers) := by
  obtain ⟨s, b, hs, hb, hbrowser⟩ := twoBrowsers_run 1 Bridge.toBrowser
    [0x82, 2, 1, 2, 0x8a, 1, 7] (by decide +kernel)
  exact ⟨s, b, hs, hb, hbrowser, (relay_downstream (.server none) _ (client_of _) twoBrowsers s hs 1
    b hb).1⟩

/-! ## The end of the process -/

/-- As long as the process runs, no bridge has an exception. -/
theorem relay_caught {o : ReceiverOptions} {steps : List RelayEvent} {s : RelayState}
    (hrun : Machine.exec (RelayState.step o) .new steps = some s) :
    s.running = true → ∀ b ∈ s.bridges, b.uncaught = false := by
  refine Machine.exec_invariant
    (I := fun s : RelayState => s.running = true → ∀ b ∈ s.bridges, b.uncaught = false) ?_ ?_ hrun
  · intro s e s' h hstep hrunning b hb
    obtain ⟨hbefore, ⟨-, -, rfl⟩ | ⟨i, event, b₀, b', -, -, -, rfl, -⟩⟩ := relayStep_inv hstep
    · rcases List.mem_append.mp hb with hb | hb
      · exact h hbefore b hb
      · rw [List.mem_singleton.mp hb]
        rfl
    · rcases List.mem_or_eq_of_mem_set hb with hb | rfl
      · exact h hbefore b hb
      · simpa using hrunning
  · intro _ b hb
    cases hb

/-- The error that is on its way can be emitted. -/
theorem Bridge.failing_ends {b : Bridge} (h : b.failing = true) (hcaught : b.uncaught = false)
    (o : ReceiverOptions) :
    ∃ e b', b.urgent e = true ∧ b.step o e = some b' ∧ b'.uncaught = true := by
  unfold Bridge.failing at h
  rw [Bool.or_eq_true] at h
  unfold Bridge.step
  rw [hcaught]
  rcases h with h | h
  · obtain ⟨e, he⟩ := Option.isSome_iff_exists.mp h
    refine ⟨.receiverOnError,
      { b.close (some e.statusCode) [] with failed := none, uncaught := true }, rfl, ?_, rfl⟩
    dsimp only
    rw [he]
    rfl
  · exact ⟨.tcpError, { b with uncaught := true }, h, if_pos (Or.inl h), rfl⟩

/-- And after an urgent event that is no microtask there is no other. -/
theorem Bridge.urgent_ends {o : ReceiverOptions} {b b' : Bridge} {e : BridgeEvent}
    (h : b.urgent e = true) (hstep : b.step o e = some b') :
    e = .browser .task ∨ b'.uncaught = true := by
  unfold Bridge.step at hstep
  split at hstep
  · cases hstep
  cases e with
  | browser e =>
      cases e with
      | data chunk => cases h
      | task => exact Or.inl rfl
  | receiverOnError =>
      obtain ⟨e, -, rfl⟩ := Option.map_eq_some_iff.mp hstep
      exact Or.inr rfl
  | tcpError =>
      dsimp only at hstep
      split at hstep
      · cases hstep
        exact Or.inr rfl
      · cases hstep
  | _ => cases h

/-- Only messages are written. -/
theorem onEvent_aside (b : Bridge) {e : WsEvent} (h : e.message? = none) :
    (b.onEvent e).tcp = b.tcp ∧ (b.onEvent e).broken = b.broken := by
  cases e with
  | message data isBinary => cases h
  | ping data => exact ⟨(b.call_aside _).tcp, (b.call_aside _).broken⟩
  | pong data => exact ⟨rfl, rfl⟩
  | conclude code reason => exact ⟨(b.close_aside _ _).tcp, (b.close_aside _ _).broken⟩
  | failure f => cases f <;> exact ⟨rfl, rfl⟩

/-- And once it is broken it stays so. -/
theorem onEvent_broken {b : Bridge} (h : b.broken = true) (e : WsEvent) :
    (b.onEvent e).broken = true := by
  cases hdata : e.message? with
  | none => exact (onEvent_aside b hdata).2.trans h
  | some data =>
      cases e with
      | message data isBinary =>
          show (b.write data).broken = true
          unfold Bridge.write
          split <;> first | exact h | rfl
      | _ => cases hdata

theorem onEvents_broken (out : List WsEvent) :
    ∀ {b : Bridge}, b.broken = true → (out.foldl Bridge.onEvent b).broken = true := by
  induction out with
  | nil => exact fun h => h
  | cons e out ih => exact fun h => ih (onEvent_broken h e)

/-- A message for a server that has ended its stream breaks the connection. -/
theorem onEvents_breaks {out : List WsEvent} {data : Bytes} {isBinary : Bool}
    (he : .message data isBinary ∈ out) :
    ∀ {b : Bridge}, b.tcp = .ended → (out.foldl Bridge.onEvent b).broken = true := by
  induction out with
  | nil => cases he
  | cons e out ih =>
      intro b htcp
      cases hdata : e.message? with
      | none =>
          rcases List.mem_cons.mp he with rfl | he
          · cases hdata
          · exact ih he ((onEvent_aside b hdata).1.trans htcp)
      | some data =>
          cases e with
          | message data isBinary =>
              have hbroken : (b.onEvent (.message data isBinary)).broken = true := by
                show (b.write data).broken = true
                unfold Bridge.write
                rw [htcp]
              exact onEvents_broken out hbroken
          | _ => cases hdata

/-- What ends the process is the last thing that happens. -/
theorem relay_fatal {o : ReceiverOptions} {steps : List RelayEvent} {s : RelayState}
    (hrun : Machine.exec (RelayState.step o) .new steps = some s) :
    s.running = false ↔ ∃ before i e b, steps = before ++ [.on i e] ∧ s.bridges[i]? = some b ∧
      e.Fatal b := by
  induction steps using List.reverseRecOn with
  | nil =>
      cases hrun
      refine iff_of_false (by decide) ?_
      rintro ⟨before, i, e, b, hnil, -⟩
      cases before <;> cases hnil
  | append_singleton steps event _ =>
      obtain ⟨s₀, hs₀, hstep⟩ := Machine.exec_snoc.mp hrun
      obtain ⟨hrunning, ⟨rfl, -, rfl⟩ | ⟨i, e, b, b', rfl, hb, hb', rfl, -⟩⟩ :=
        relayStep_inv hstep
      · refine iff_of_false (by simp [hrunning]) ?_
        rintro ⟨before, i, e, b, hlast, -⟩
        cases (List.append_inj' hlast rfl).2
      · obtain ⟨emitted, hkept⟩ := relay_bridge_kept (client_of o) hs₀ hb
        have hfatal := (Bridge.step_kept (client_of o) hkept hb').2
        have hnow : (s₀.bridges.set i b')[i]? = some b' :=
          List.getElem?_set_self (List.getElem?_eq_some_iff.mp hb).1
        refine Iff.trans (by simp) (hfatal.trans ⟨fun h => ⟨steps, i, e, b', rfl, hnow, h⟩, ?_⟩)
        rintro ⟨before, i', e', b'', hlast, hb'', h⟩
        cases (List.append_inj' hlast rfl).2
        rw [hnow] at hb''
        cases hb''
        exact h

/-- The process ends when a socket to the server fails or the receiver of some browser has an error
to report, and at no other time, but for a chunk of 2^48 bytes: the listeners never throw. Once
such an error is made nothing else happens any more but microtasks, and a message for a server that
has ended its stream makes one. -/
theorem relay_ends (o : ReceiverOptions) (steps : List RelayEvent) (s : RelayState)
    (hrun : Machine.exec (RelayState.step o) .new steps = some s) :
    (s.running = false ↔ ∃ before i e b, steps = before ++ [.on i e] ∧ s.bridges[i]? = some b ∧
      e.Fatal b) ∧
    (s.running = true → s.failing = true →
      (∃ e s', s.step o e = some s' ∧ s'.running = false) ∧
      ∀ e s', s.step o e = some s' → s'.running = true → ∃ i, e = .on i (.browser .task)) ∧
    ∀ i b e s' input out data isBinary, s.bridges[i]? = some b → b.tcp = .ended →
      b.input.step o e = some (input, out) → .message data isBinary ∈ out →
      s.step o (.on i (.browser e)) = some s' → s'.running = true ∧ s'.failing = true := by
  refine ⟨relay_fatal hrun, fun hrunning hfailing => ⟨?_, fun e s' hstep hrunning' => ?_⟩, ?_⟩
  · obtain ⟨b, hb, hfails⟩ := List.any_eq_true.mp hfailing
    obtain ⟨i, hi⟩ := List.mem_iff_getElem?.mp hb
    obtain ⟨e, b', hurgent, hb', hends⟩ :=
      b.failing_ends hfails (relay_caught hrun hrunning b hb) o
    refine ⟨.on i e, ⟨s.bridges.set i b', !b'.uncaught⟩, ?_, by simp [hends]⟩
    unfold RelayState.step
    simp [hrunning, hi, hurgent, hb']
  · obtain ⟨-, ⟨-, hcalm, -⟩ | ⟨i, event, b, b', rfl, -, hb', rfl, hurgent⟩⟩ := relayStep_inv hstep
    · rw [hfailing] at hcalm
      cases hcalm
    · rcases Bridge.urgent_ends (hurgent hfailing) hb' with rfl | hends
      · exact ⟨i, rfl⟩
      · rw [hends] at hrunning'
        cases hrunning'
  · intro i b e s' input out data isBinary hb htcp hin hmessage hstep
    obtain ⟨-, ⟨hconnection, -⟩ | ⟨j, event, b₀, b', hevent, hb₀, hb', rfl, -⟩⟩ :=
      relayStep_inv hstep
    · cases hconnection
    cases hevent
    rw [hb] at hb₀
    cases hb₀
    obtain ⟨emitted, hkept⟩ := relay_bridge_kept (client_of o) hrun hb
    have hcaught : b'.uncaught = false :=
      Bool.not_eq_true _ ▸ mt (Bridge.step_kept (client_of o) hkept hb').2.mp id
    have hbroken : b'.broken = true := by
      unfold Bridge.step at hb'
      split at hb'
      · cases hb'
      dsimp only at hb'
      split at hb'
      · rw [hin] at hb'
        cases hb'
        exact onEvents_breaks hmessage htcp
      · cases hb'
    refine ⟨by simp [hcaught], List.any_eq_true.mpr ⟨b', ?_, by simp [Bridge.failing, hbroken]⟩⟩
    exact List.mem_iff_getElem?.mpr
      ⟨i, List.getElem?_set_self (List.getElem?_eq_some_iff.mp hb).1⟩

/-- A message that comes behind the end of the server's stream. -/
def afterEnd : List RelayEvent :=
  [.connection, .on 0 .tcpEnd, .on 0 (.browser (.data [0x82, 0x82, 0, 0, 0, 0, 0x68, 0x69])),
    .on 0 (.browser .task)]

theorem relay_ends_broken :
    ∃ s, Machine.exec (RelayState.step (.server none)) .new afterEnd = some s ∧
      s.running = true ∧
      (¬ ∃ before i e b, afterEnd = before ++ [.on i e] ∧ s.bridges[i]? = some b ∧ e.Fatal b) ∧
      (∃ e s', s.step (.server none) e = some s' ∧ s'.running = false) ∧
      ∀ e s', s.step (.server none) e = some s' → s'.running = true →
        ∃ i, e = .on i (.browser .task) := by
  have hstate : (Machine.exec (RelayState.step (.server none)) .new afterEnd).map
      (fun s => (s.running, s.failing)) = some (true, true) := by decide +kernel
  obtain ⟨s, hs, hboth⟩ := Option.map_eq_some_iff.mp hstate
  obtain ⟨hrunning, hfailing⟩ := Prod.mk.inj hboth
  obtain ⟨hends, hsoon, -⟩ := relay_ends (.server none) afterEnd s hs
  refine ⟨s, hs, hrunning, fun hfatal => ?_, hsoon hrunning hfailing⟩
  rw [hends.mpr hfatal] at hrunning
  cases hrunning

end AsioServer.Ws
