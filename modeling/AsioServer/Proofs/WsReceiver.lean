import AsioServer.Lib.Machine
import AsioServer.Spec.WsReading

/-!
# The receiver reads one stream

Chunks, buffers, the loop and the microtasks against `Spec/WsReading`. A receiver
shows where the reader stands (`Receiver.view`), and what is to come of it is the
event it has put off and what the reader makes of the bytes it keeps
(`Receiver.future`). A round is one step of the reader, or finds it starved; no
call changes what is to come but by what it emits.
-/

namespace AsioServer.Ws

/-- `_opcode === 0x08 && _state == GET_INFO`. -/
def Receiver.Concluded (r : Receiver) : Prop := r.opcode = 0x08 ∧ r.state = .getInfo

instance (r : Receiver) : Decidable r.Concluded := inferInstanceAs (Decidable (_ ∧ _))

/-- Where the reader stands. -/
def Receiver.view (r : Receiver) : Reading where
  part :=
    if r.errored = true ∨ r.Concluded then none
    else some (if r.state = .deferEvent then .getInfo else r.state)
  parsing := r.toParsing

/-- What is to come if these bytes follow. -/
def Receiver.future (o : ReceiverOptions) (r : Receiver) (more : Bytes) : List WsEvent :=
  r.deferred.toList ++ ((reading o).run r.view (r.buffers.flatten ++ more)).out

structure Receiver.Sane (r : Receiver) : Prop where
  bytes : r.bufferedBytes = r.buffers.flatten.length
  deferred : r.state = .deferEvent ↔ r.deferred.isSome
  waits : ∀ event, r.deferred = some event →
    r.errored = false ∧ r.opcode ≠ 0x08 ∧ event.isLast = false

/-- Nothing is put off. -/
theorem Receiver.Sane.quiet {r : Receiver} (hbytes : r.bufferedBytes = r.buffers.flatten.length)
    (hstate : r.state ≠ .deferEvent) (hnone : r.deferred = none) : r.Sane where
  bytes := hbytes
  deferred := iff_of_false hstate (by rw [hnone]; decide)
  waits := fun event he => by
    rw [hnone] at he
    cases he

theorem Receiver.Sane.none_iff {r : Receiver} (h : r.Sane) :
    r.deferred = none ↔ r.state ≠ .deferEvent := by
  rw [Ne, h.deferred, Bool.not_eq_true, Option.isSome_eq_false_iff, Option.isNone_iff_eq_none]

theorem Receiver.new_sane : Receiver.new.Sane := .quiet rfl (by decide) rfl

/-! ## The buffers -/

theorem takeBuffers_eq {n : Nat} {buffers : List Bytes} (h : n ≤ buffers.flatten.length) :
    (takeBuffers n buffers).1 = buffers.flatten.take n ∧
      (takeBuffers n buffers).2.flatten = buffers.flatten.drop n := by
  induction buffers generalizing n with
  | nil =>
      rw [Nat.le_zero.mp h]
      exact ⟨rfl, rfl⟩
  | cons buf buffers ih =>
      rw [List.flatten_cons, List.length_append] at h
      rw [takeBuffers, List.flatten_cons]
      split
      · next hlt =>
          rw [List.take_append_of_le_length hlt.le, List.drop_append_of_le_length hlt.le]
          exact ⟨rfl, List.flatten_cons⟩
      · next hge =>
          split
          · next heq =>
              subst heq
              exact ⟨List.take_left.symm, List.drop_left.symm⟩
          · next hne =>
              obtain ⟨htaken, hleft⟩ := ih (show n - buf.length ≤ buffers.flatten.length by omega)
              rw [List.take_append, List.drop_append, List.take_of_length_le (by omega),
                List.drop_eq_nil_of_le (by omega), ← htaken, ← hleft]
              exact ⟨rfl, rfl⟩

theorem Receiver.Sane.consume {r : Receiver} (h : r.Sane) {n : Nat}
    (hn : n ≤ r.buffers.flatten.length) :
    (r.consume n).1 = r.buffers.flatten.take n ∧
      (r.consume n).2.buffers.flatten = r.buffers.flatten.drop n ∧
      (r.consume n).2.bufferedBytes = (r.consume n).2.buffers.flatten.length := by
  obtain ⟨htaken, hleft⟩ := takeBuffers_eq hn
  refine ⟨htaken, hleft, ?_⟩
  show r.bufferedBytes - n = (takeBuffers n r.buffers).2.flatten.length
  rw [hleft, List.length_drop, h.bytes]

/-! ## What follows a part -/

theorem haveLength_state {o : ReceiverOptions} {p p' : Parsing} {state : ReceiverState}
    (h : p.haveLength o = (p', .ok state)) : state = .getMask ∨ state = .getData := by
  unfold Parsing.haveLength at h
  have hnext : ∀ {q : Parsing}, ((q, .ok (if p.masked then .getMask else .getData)) :
      Parsing × Except Failure ReceiverState) = (p', .ok state) →
      state = .getMask ∨ state = .getData := by
    intro q hq
    rw [← Except.ok.inj (Prod.mk.inj hq).2]
    split
    · exact Or.inl rfl
    · exact Or.inr rfl
  dsimp only at h
  split at h
  · split at h
    · cases h
    · exact hnext h
  · exact hnext h

/-- The parts behind the first two bytes. -/
def ReceiverState.Later (state : ReceiverState) : Prop := state ≠ .getInfo ∧ state ≠ .deferEvent

theorem haveLength_later {o : ReceiverOptions} {p p' : Parsing} {state : ReceiverState}
    (h : p.haveLength o = (p', .ok state)) : state.Later := by
  rcases haveLength_state h with rfl | rfl <;> exact ⟨by decide, by decide⟩

theorem haveOpcode_later {o : ReceiverOptions} {b₁ : UInt8} {p p' : Parsing}
    {state : ReceiverState} (h : p.haveOpcode o b₁ = (p', .ok state)) : state.Later := by
  unfold Parsing.haveOpcode at h
  dsimp only at h
  split at h
  · cases h
  split at h
  · cases h
  split at h
  · cases h
    exact ⟨by decide, by decide⟩
  split at h
  · cases h
    exact ⟨by decide, by decide⟩
  · exact haveLength_later h

theorem info_later {o : ReceiverOptions} {b₀ b₁ : UInt8} {p p' : Parsing} {state : ReceiverState}
    (h : p.info o b₀ b₁ = (p', .ok state)) : state.Later := by
  unfold Parsing.info at h
  dsimp only at h
  split at h
  · cases h
  split at h
  · cases h
  split at h
  · split at h
    · cases h
    · exact haveOpcode_later h
  split at h
  · split at h
    · cases h
    · exact haveOpcode_later h
  split at h
  · split at h
    · cases h
    split at h
    · cases h
    · exact haveOpcode_later h
  · cases h

theorem length64_later {o : ReceiverOptions} {buf : Bytes} {p p' : Parsing}
    {state : ReceiverState} (h : p.length64 o buf = (p', .ok state)) : state.Later := by
  unfold Parsing.length64 at h
  dsimp only at h
  split at h
  · cases h
  · exact haveLength_later h

theorem dataMessage_ok {o : ReceiverOptions} {p p' : Parsing} {event : Option WsEvent}
    (h : p.dataMessage o = (p', .ok event)) :
    p'.opcode = p.opcode ∧ ∀ e, event = some e → ∃ data isBinary, e = .message data isBinary := by
  unfold Parsing.dataMessage at h
  split at h
  · cases h
    exact ⟨rfl, fun e he => by cases he⟩
  · split at h
    · cases h
    · split at h
      · cases h
        exact ⟨rfl, fun e he => ⟨_, _, (Option.some.inj he).symm⟩⟩
      · split at h
        · cases h
        · cases h
          exact ⟨rfl, fun e he => ⟨_, _, (Option.some.inj he).symm⟩⟩

/-- Only a close frame concludes. -/
theorem controlMessage_ok {o : ReceiverOptions} {data : Bytes} {p : Parsing} {event : WsEvent}
    (h : p.controlMessage o data = .ok event) :
    (p.opcode = 0x08 ∧ ∃ code reason, event = .conclude code reason) ∨
      (p.opcode ≠ 0x08 ∧ (event = .ping data ∨ event = .pong data)) := by
  unfold Parsing.controlMessage at h
  split at h
  · next hop =>
      refine Or.inl ⟨hop, ?_⟩
      split at h
      · exact ⟨_, _, (Except.ok.inj h).symm⟩
      · dsimp only at h
        split at h
        · cases h
        split at h
        · cases h
        · exact ⟨_, _, (Except.ok.inj h).symm⟩
  · next hop =>
      refine Or.inr ⟨hop, ?_⟩
      rw [← Except.ok.inj h]
      split
      · exact Or.inl rfl
      · exact Or.inr rfl

theorem data_ok {o : ReceiverOptions} {buf : Bytes} {p p' : Parsing} {event : Option WsEvent}
    (h : p.data o buf = (p', .ok event)) :
    p'.opcode = p.opcode ∧
      ((p.opcode = 0x08 ∧ ∃ code reason, event = some (.conclude code reason)) ∨
        (p.opcode ≠ 0x08 ∧ ∀ e, event = some e → e.isLast = false)) := by
  have hmessage : ∀ {q : Parsing}, q.opcode = p.opcode → ¬ 0x07 < p.opcode →
      q.dataMessage o = (p', .ok event) → p'.opcode = p.opcode ∧ p.opcode ≠ 0x08 ∧
        ∀ e, event = some e → e.isLast = false := by
    intro q hq hop hdata
    obtain ⟨hsame, hevent⟩ := dataMessage_ok hdata
    refine ⟨hsame.trans hq, by omega, fun e he => ?_⟩
    obtain ⟨data, isBinary, rfl⟩ := hevent e he
    rfl
  unfold Parsing.data at h
  dsimp only at h
  generalize (if (p.masked && !p.mask.isZero) = true then applyMask buf p.mask else buf) = got at h
  split at h
  · cases hcontrol : p.controlMessage o got with
    | error f =>
        rw [hcontrol] at h
        cases h
    | ok e =>
        rw [hcontrol] at h
        cases h
        refine ⟨rfl, (controlMessage_ok hcontrol).imp ?_ ?_⟩
        · rintro ⟨hop, code, reason, rfl⟩
          exact ⟨hop, code, reason, rfl⟩
        · rintro ⟨hop, hevent⟩
          refine ⟨hop, fun e' he' => ?_⟩
          cases he'
          rcases hevent with rfl | rfl <;> rfl
  · next hop =>
      split at h
      · obtain ⟨hsame, hlast⟩ := hmessage rfl hop h
        exact ⟨hsame, Or.inr hlast⟩
      · have hsame := hmessage ?_ hop h
        · exact ⟨hsame.1, Or.inr hsame.2⟩
        · rfl

/-! ## The last event -/

theorem afterHeader_last {r : Parsing × Except Failure ReceiverState} {before after : List WsEvent}
    {e : WsEvent} (h : (Reading.afterHeader r).2 = before ++ e :: after) :
    after = [] ∧ (Reading.afterHeader r).1.part = none := by
  obtain ⟨p, f | state⟩ := r
  · rcases before with _ | ⟨e', before⟩
    · exact ⟨(List.cons.inj h).2.symm, rfl⟩
    · cases before <;> cases (List.cons.inj h).2
  · cases before <;> cases h

theorem afterData_last {r : Parsing × Except Failure (Option WsEvent)}
    {before after : List WsEvent} {e : WsEvent}
    (h : (Reading.afterData r).2 = before ++ e :: after) (hlast : e.isLast = true) :
    after = [] ∧ (Reading.afterData r).1.part = none := by
  obtain ⟨p, f | _ | event⟩ := r
  · rcases before with _ | ⟨e', before⟩
    · exact ⟨(List.cons.inj h).2.symm, rfl⟩
    · cases before <;> cases (List.cons.inj h).2
  · cases before <;> cases h
  · rcases before with _ | ⟨e', before⟩
    · obtain ⟨rfl, rfl⟩ := List.cons.inj h
      exact ⟨rfl, if_pos hlast⟩
    · cases before <;> cases (List.cons.inj h).2

theorem next_last {o : ReceiverOptions} {s : Reading} {buf : Bytes} {before after : List WsEvent}
    {e : WsEvent} (hneed : (reading o).need s = some buf.length)
    (h : ((reading o).next s buf).2 = before ++ e :: after) (hlast : e.isLast = true) :
    after = [] ∧ (reading o).need ((reading o).next s buf).1 = none := by
  have hstopped : ∀ {t : Reading}, t.part = none → (reading o).need t = none := by
    rintro ⟨part, p⟩ rfl
    rfl
  obtain ⟨part, p⟩ := s
  match part, hneed with
  | some .getInfo, _ => exact (afterHeader_last h).imp id hstopped
  | some .getPayloadLength16, _ => exact (afterHeader_last h).imp id hstopped
  | some .getPayloadLength64, _ => exact (afterHeader_last h).imp id hstopped
  | some .getMask, _ => exact (afterHeader_last h).imp id hstopped
  | some .getData, _ => exact (afterData_last h hlast).imp id hstopped

/-- Behind a last event a stream gives nothing. -/
theorem run_last {o : ReceiverOptions} {s : Reading} {xs : Bytes} {before after : List WsEvent}
    {e : WsEvent} (h : ((reading o).run s xs).out = before ++ e :: after)
    (hlast : e.isLast = true) :
    after = [] :=
  Puller.out_last (fun _ _ _ _ _ => next_last) h hlast

/-! ## One round -/

/-- What a round does: it finds the reader starved, or takes one step of it. -/
inductive Round (o : ReceiverOptions) (r : Receiver) : Receiver × List WsEvent → Prop
  | starved (idle : (reading o).Idle r.view r.buffers.flatten) :
      Round o r ({ r with loop := false }, [])
  | moved {r' : Receiver} {out : List WsEvent} {n : Nat} (sane : r'.Sane)
      (need : (reading o).need r.view = some n) (le : n ≤ r.buffers.flatten.length)
      (next : (reading o).next r.view (r.buffers.flatten.take n) =
        (r'.view, out ++ r'.deferred.toList))
      (left : r'.buffers.flatten = r.buffers.flatten.drop n)
      (loop : r'.loop = true → r.loop = true ∧ r'.view.part ≠ none)
      (stays : r'.loop = false → r.loop = true → r'.view.part = none)
      (last : r'.view.part = none ↔ out.any WsEvent.isLast = true)
      (errored : r'.errored = out.any WsEvent.isFailure) : Round o r (r', out)

theorem view_live {r : Receiver} (h : r.errored = false) (hc : ¬ r.Concluded) :
    r.view = ⟨some (if r.state = .deferEvent then .getInfo else r.state), r.toParsing⟩ := by
  unfold Receiver.view
  rw [if_neg]
  rintro (he | hcc)
  · rw [h] at he
    cases he
  · exact hc hcc

theorem live_of_part {r : Receiver} (h : r.view.part ≠ none) :
    r.errored = false ∧ ¬ r.Concluded := by
  refine ⟨Bool.eq_false_iff.mpr fun he => h (if_pos (Or.inl he)), fun hc => h (if_pos (Or.inr hc))⟩

/-- An event that waits is not the last. -/
theorem Receiver.Sane.none_of_stopped {r : Receiver} (h : r.Sane) (hpart : r.view.part = none) :
    r.deferred = none := by
  cases hd : r.deferred with
  | none => rfl
  | some event =>
      obtain ⟨herrored, hop, -⟩ := h.waits event hd
      rw [view_live herrored fun hc => hop hc.1] at hpart
      cases hpart

/-- A round after which the reader goes on. -/
theorem Round.onward {o : ReceiverOptions} {r r' : Receiver} {out : List WsEvent} {n : Nat}
    {state : ReceiverState} {p : Parsing} (hsane : r'.Sane)
    (hneed : (reading o).need r.view = some n)
    (hle : n ≤ r.buffers.flatten.length) (hview : r'.view = ⟨some state, p⟩)
    (hnext : (reading o).next r.view (r.buffers.flatten.take n) =
      (⟨some state, p⟩, out ++ r'.deferred.toList))
    (hleft : r'.buffers.flatten = r.buffers.flatten.drop n) (hloop : r'.loop = r.loop)
    (hlast : out.any WsEvent.isLast = false) (herrored : r'.errored = false) :
    Round o r (r', out) := by
  have hpart : r'.view.part ≠ none := by
    rw [hview]
    exact Option.some_ne_none _
  have hclean : out.any WsEvent.isFailure = false := by
    rw [List.any_eq_false] at hlast ⊢
    exact fun e he hfails => hlast e he (by rw [WsEvent.isLast, hfails, Bool.or_true])
  refine .moved hsane hneed hle (hview ▸ hnext) hleft (fun h => ⟨hloop ▸ h, hpart⟩)
    (fun h h' => ?_) (iff_of_false hpart (by rw [hlast]; decide)) (herrored.trans hclean.symm)
  rw [hloop, h'] at h
  cases h

theorem header_round {o : ReceiverOptions} {r : Receiver} (hsane : r.Sane)
    (hlive : r.view.part ≠ none) (hstate : r.state ≠ .deferEvent) {n : Nat}
    {after : Bytes → Parsing → Parsing × Except Failure ReceiverState}
    (hneed : (reading o).need r.view = some n)
    (hnext : ∀ buf, (reading o).next r.view buf = Reading.afterHeader (after buf r.toParsing))
    (hlater : ∀ buf p state, after buf r.toParsing = (p, .ok state) → state.Later) :
    Round o r (r.header n after) := by
  obtain ⟨herrored, hconcluded⟩ := live_of_part hlive
  have hnone : r.deferred = none := hsane.none_iff.mpr hstate
  unfold Receiver.header
  by_cases hlt : r.bufferedBytes < n
  · rw [if_pos hlt]
    refine .starved fun m hm => ?_
    obtain rfl : n = m := Option.some.inj (hneed.symm.trans hm)
    exact hsane.bytes ▸ hlt
  · have hle : n ≤ r.buffers.flatten.length := hsane.bytes ▸ Nat.not_lt.mp hlt
    obtain ⟨htaken, hleft, hbytes⟩ := hsane.consume hle
    rw [if_neg hlt]
    dsimp only
    rw [htaken, show (r.consume n).2.toParsing = r.toParsing from rfl]
    cases hafter : after (r.buffers.flatten.take n) r.toParsing with
    | mk p res =>
        cases res with
        | error f =>
            refine .moved (.quiet hbytes hstate hnone) hneed hle ?_ hleft (fun h => by cases h)
              (fun _ _ => rfl) (iff_of_true rfl rfl) rfl
            rw [hnext, hafter]
            show (_, [WsEvent.failure f]) = (_, [WsEvent.failure f] ++ r.deferred.toList)
            rw [hnone]
            rfl
        | ok state =>
            obtain ⟨hinfo, hdefer⟩ := hlater _ _ _ hafter
            have hview : Receiver.view
                { (r.consume n).2 with toParsing := p, state := state } = ⟨some state, p⟩ := by
              rw [view_live (r := { (r.consume n).2 with toParsing := p, state := state })
                herrored (fun h => hinfo h.2)]
              exact congrArg (Reading.mk · p) (congrArg some (if_neg hdefer))
            refine .onward (.quiet hbytes hdefer hnone) hneed hle hview ?_ hleft rfl rfl herrored
            rw [hnext, hafter]
            show (_, []) = (_, [] ++ r.deferred.toList)
            rw [hnone]
            rfl

/-- Where the event of a payload is emitted or put off. -/
theorem emit_round {o : ReceiverOptions} {r q : Receiver} {n : Nat} {event : WsEvent}
    (herrored : q.errored = false) (hnone : q.deferred = none)
    (hbytes : q.bufferedBytes = q.buffers.flatten.length)
    (hlast : (q.opcode = 0x08 ∧ ∃ code reason, event = .conclude code reason) ∨
      (q.opcode ≠ 0x08 ∧ event.isLast = false))
    (hneed : (reading o).need r.view = some n) (hle : n ≤ r.buffers.flatten.length)
    (hnext : (reading o).next r.view (r.buffers.flatten.take n) =
      (⟨if event.isLast then none else some .getInfo, q.toParsing⟩, [event]))
    (hleft : q.buffers.flatten = r.buffers.flatten.drop n) (hloop : q.loop = r.loop) :
    Round o r (q.emit o event) := by
  have hinfo : ReceiverState.getInfo ≠ .deferEvent := by decide
  rcases hlast with ⟨hop, code, reason, rfl⟩ | ⟨hop, hlast⟩
  · have hstop : Receiver.view { q with loop := false, state := .getInfo } =
        ⟨none, q.toParsing⟩ := congrArg (Reading.mk · q.toParsing) (if_pos (Or.inr ⟨hop, rfl⟩))
    refine .moved (.quiet hbytes hinfo hnone) hneed hle ?_ hleft
      (fun h => by cases h) (fun _ _ => congrArg Reading.part hstop)
      (iff_of_true (congrArg Reading.part hstop) rfl) herrored
    · rw [hnext, hstop]
      show (_, [WsEvent.conclude code reason]) = (_, [_] ++ q.deferred.toList)
      rw [hnone]
      rfl
  · have hemit : q.emit o event =
        if o.allowSynchronousEvents then ({ q with state := .getInfo }, [event])
        else ({ q with state := .deferEvent, deferred := some event }, []) := by
      cases event with
      | conclude code reason => cases hlast
      | _ => rfl
    have hlive : ∀ (state : ReceiverState) (deferred : Option WsEvent),
        Receiver.view { q with state := state, deferred := deferred } =
          ⟨some (if state = .deferEvent then .getInfo else state), q.toParsing⟩ :=
      fun state deferred => view_live (r := { q with state := state, deferred := deferred })
        herrored (fun h => hop h.1)
    rw [hlast] at hnext
    rw [hemit]
    cases o.allowSynchronousEvents with
    | true =>
        refine .onward (.quiet hbytes hinfo hnone) hneed hle (hlive .getInfo q.deferred) ?_
          hleft hloop
          (by rw [List.any_cons, hlast]; rfl) herrored
        rw [hnext]
        show (_, [event]) = (_, [event] ++ q.deferred.toList)
        rw [hnone]
        rfl
    | false =>
        have hwaits : ∀ e, some event = some e →
            q.errored = false ∧ q.opcode ≠ 0x08 ∧ e.isLast = false := fun e he => by
          cases he
          exact ⟨herrored, hop, hlast⟩
        exact .onward ⟨hbytes, iff_of_true rfl rfl, hwaits⟩ hneed hle
          (hlive .deferEvent (some event)) hnext hleft hloop rfl herrored

/-- An empty payload takes nothing. -/
theorem Receiver.Sane.payload {r : Receiver} (hsane : r.Sane)
    (hle : r.payloadLength ≤ r.buffers.flatten.length) :
    ∃ r' : Receiver,
      (if r.payloadLength = 0 then (([] : Bytes), r) else r.consume r.payloadLength) =
        (r.buffers.flatten.take r.payloadLength, r') ∧
      (r'.toParsing = r.toParsing ∧ r'.errored = r.errored ∧ r'.loop = r.loop ∧
        r'.deferred = r.deferred ∧ r'.state = r.state) ∧
      r'.bufferedBytes = r'.buffers.flatten.length ∧
      r'.buffers.flatten = r.buffers.flatten.drop r.payloadLength := by
  by_cases hzero : r.payloadLength = 0
  · rw [if_pos hzero, hzero]
    exact ⟨r, rfl, ⟨rfl, rfl, rfl, rfl, rfl⟩, hsane.bytes, rfl⟩
  · obtain ⟨htaken, hleft, hbytes⟩ := hsane.consume hle
    rw [if_neg hzero]
    exact ⟨(r.consume r.payloadLength).2, Prod.ext htaken rfl, ⟨rfl, rfl, rfl, rfl, rfl⟩, hbytes,
      hleft⟩

theorem getData_round {o : ReceiverOptions} {r : Receiver} (hsane : r.Sane)
    (hlive : r.view.part ≠ none) (hstate : r.state = .getData) : Round o r (r.getData o) := by
  obtain ⟨herrored, hconcluded⟩ := live_of_part hlive
  have hnone : r.deferred = none := hsane.none_iff.mpr (by rw [hstate]; decide)
  have hview : r.view = ⟨some .getData, r.toParsing⟩ := by
    rw [view_live herrored hconcluded, hstate]
    rfl
  have hneed : (reading o).need r.view = some r.payloadLength := by
    rw [hview]
    rfl
  have hnext : ∀ buf, (reading o).next r.view buf = Reading.afterData (r.toParsing.data o buf) :=
    fun buf => by
      rw [hview]
      rfl
  unfold Receiver.getData
  by_cases hstarved : r.payloadLength ≠ 0 ∧ r.bufferedBytes < r.payloadLength
  · rw [if_pos hstarved]
    refine .starved fun m hm => ?_
    obtain rfl : r.payloadLength = m := Option.some.inj (hneed.symm.trans hm)
    exact hsane.bytes ▸ hstarved.2
  · rw [if_neg hstarved]
    have hle : r.payloadLength ≤ r.buffers.flatten.length := by
      have hbytes := hsane.bytes
      omega
    obtain ⟨r₁, hr₁, ⟨hparsing, herr, hloop, hdef, hst⟩, hbytes, hleft⟩ := hsane.payload hle
    have hnotDeferred : r₁.state ≠ .deferEvent := by
      rw [hst, hstate]
      decide
    rw [hr₁]
    dsimp only
    rw [hparsing]
    have hstep := hnext (r.buffers.flatten.take r.payloadLength)
    cases hdata : r.toParsing.data o (r.buffers.flatten.take r.payloadLength) with
    | mk p res =>
        rw [hdata] at hstep
        match res, hdata, hstep with
        | .error f, hdata, hstep =>
            refine .moved (.quiet hbytes hnotDeferred (hdef.trans hnone)) hneed hle ?_ hleft
              (fun h => by cases h) (fun _ _ => rfl) (iff_of_true rfl rfl) rfl
            rw [hstep]
            show (_, [WsEvent.failure f]) = (_, [WsEvent.failure f] ++ r₁.deferred.toList)
            rw [hdef, hnone]
            rfl
        | .ok none, hdata, hstep =>
            obtain ⟨hop, hcases⟩ := data_ok hdata
            have hne : p.opcode ≠ 0x08 := by
              rw [hop]
              rcases hcases with ⟨-, code, reason, he⟩ | ⟨hne, -⟩
              · cases he
              · exact hne
            have hshown : Receiver.view { r₁ with toParsing := p, state := .getInfo } =
                ⟨some .getInfo, p⟩ :=
              view_live (r := { r₁ with toParsing := p, state := .getInfo })
                (herr.trans herrored) (fun h => hne h.1)
            refine .onward (.quiet hbytes (show ReceiverState.getInfo ≠ .deferEvent by decide)
              (hdef.trans hnone)) hneed hle hshown ?_ hleft hloop rfl (herr.trans herrored)
            rw [hstep]
            show (_, []) = (_, [] ++ r₁.deferred.toList)
            rw [hdef, hnone]
            rfl
        | .ok (some event), hdata, hstep =>
            obtain ⟨hop, hcases⟩ := data_ok hdata
            refine emit_round (q := { r₁ with toParsing := p }) (herr.trans herrored)
              (hdef.trans hnone) hbytes ?_ hneed hle hstep hleft hloop
            rw [← hop] at hcases
            refine hcases.imp ?_ ?_
            · rintro ⟨h, code, reason, he⟩
              exact ⟨h, code, reason, Option.some.inj he⟩
            · exact fun h => ⟨h.1, h.2 event rfl⟩

theorem round_reads {o : ReceiverOptions} {r : Receiver} (hsane : r.Sane)
    (hlive : r.view.part ≠ none) (hstate : r.state ≠ .deferEvent) : Round o r (r.round o) := by
  obtain ⟨herrored, hconcluded⟩ := live_of_part hlive
  have hview : r.view = ⟨some r.state, r.toParsing⟩ := by
    rw [view_live herrored hconcluded, if_neg hstate]
  unfold Receiver.round
  cases hpart : r.state with
  | getInfo =>
      rw [hpart] at hview
      exact header_round hsane hlive hstate (by rw [hview]; rfl) (fun buf => by rw [hview]; rfl)
        fun buf p state => info_later
  | getPayloadLength16 =>
      rw [hpart] at hview
      exact header_round hsane hlive hstate (by rw [hview]; rfl) (fun buf => by rw [hview]; rfl)
        fun buf p state => haveLength_later
  | getPayloadLength64 =>
      rw [hpart] at hview
      exact header_round hsane hlive hstate (by rw [hview]; rfl) (fun buf => by rw [hview]; rfl)
        fun buf p state => length64_later
  | getMask =>
      rw [hpart] at hview
      refine header_round hsane hlive hstate (by rw [hview]; rfl) (fun buf => by rw [hview]; rfl)
        fun buf p state h => ?_
      cases h
      exact ⟨by decide, by decide⟩
  | getData => exact getData_round hsane hlive hpart
  | deferEvent => exact absurd hpart hstate

/-! ## The loop -/

/-- A call that takes these bytes, emits `out` and leaves the receiver so: nothing else of what
is to come has changed, and where nothing is put off the reader can go no further. -/
structure Called (o : ReceiverOptions) (r : Receiver) (xs : Bytes) (r' : Receiver)
    (out : List WsEvent) : Prop where
  sane : r'.Sane
  future : ∀ more, r.future o (xs ++ more) = out ++ r'.future o more
  idle : r'.deferred = none → (reading o).Idle r'.view r'.buffers.flatten
  last : r.view.part ≠ none → (r'.view.part = none ↔ out.any WsEvent.isLast = true)
  stopped : r.view.part = none → r'.view.part = none
  errored : r.errored = false → r'.errored = out.any WsEvent.isFailure

theorem future_stopped {o : ReceiverOptions} {r : Receiver} (h : r.view.part = none)
    (hd : r.deferred = none) (more : Bytes) : r.future o more = [] := by
  have hneed : (reading o).need r.view = none := by
    show Reading.need r.view = none
    rw [Reading.need, h]
  unfold Receiver.future
  rw [Puller.run_idle (Puller.idle_of_none hneed _), hd]
  rfl

theorem Round.future_eq {o : ReceiverOptions} {r r' : Receiver} {out : List WsEvent} {n : Nat}
    (hd : r.deferred = none) (hneed : (reading o).need r.view = some n)
    (hle : n ≤ r.buffers.flatten.length)
    (hnext : (reading o).next r.view (r.buffers.flatten.take n) =
      (r'.view, out ++ r'.deferred.toList))
    (hleft : r'.buffers.flatten = r.buffers.flatten.drop n) (more : Bytes) :
    r.future o more = out ++ r'.future o more := by
  unfold Receiver.future
  rw [Puller.run_next hneed (Nat.le_trans hle (by simp)), List.take_append_of_le_length hle,
    List.drop_append_of_le_length hle, hnext, hleft, hd, Puller.Pulled.prepend_out,
    List.append_assoc]
  rfl

/-- Where an event is put off the loop stops, with everything to come. -/
theorem called_deferred {o : ReceiverOptions} {r : Receiver} (hsane : r.Sane)
    (hstate : r.state = .deferEvent) : Called o r [] { r with loop := false } [] where
  sane := ⟨hsane.bytes, hsane.deferred, hsane.waits⟩
  future := fun _ => rfl
  idle := fun hnone => absurd hstate (hsane.none_iff.mp hnone)
  last := fun h => iff_of_false h (by decide)
  stopped := id
  errored := id

theorem rounds_called {o : ReceiverOptions} {r : Receiver} (hsane : r.Sane)
    (hlive : r.view.part ≠ none) (hloop : r.loop = true) :
    Called o r [] (r.rounds o).1 (r.rounds o).2 := by
  induction r using Receiver.rounds.induct o with
  | case1 r hgo r₁ out₁ hrec ih =>
      have hstate : r.state ≠ .deferEvent := fun hdefer => by
        rw [Receiver.round, hdefer] at hgo
        cases hgo
      have hd : r.deferred = none := hsane.none_iff.mpr hstate
      rw [Receiver.rounds, dif_pos hgo, hrec]
      rw [hrec] at ih
      have hround := round_reads (o := o) hsane hlive hstate
      generalize hres : r.round o = res at hround hgo ih ⊢
      cases hround with
      | starved => cases hgo
      | @moved r' out n sane need le next left loop stays last errored =>
          obtain ⟨-, hlive'⟩ := loop hgo
          have hcalled := ih sane hlive' hgo
          have hgood := (live_of_part hlive').1
          refine ⟨hcalled.sane, fun more => ?_, hcalled.idle, fun _ => ?_,
            fun h => absurd h hlive, fun _ => ?_⟩
          · rw [List.nil_append, Round.future_eq hd need le next left]
            exact (congrArg (out ++ ·) (hcalled.future more)).trans (List.append_assoc ..).symm
          · have hnot : out.any WsEvent.isLast = false :=
              Bool.not_eq_true _ ▸ mt last.mpr hlive'
            rw [List.any_append, hnot, Bool.false_or]
            exact hcalled.last hlive'
          · rw [List.any_append, ← errored, hgood, Bool.false_or]
            exact hcalled.errored hgood
  | case2 r hstop =>
      rw [Receiver.rounds, dif_neg hstop]
      by_cases hstate : r.state = .deferEvent
      · have hround : r.round o = ({ r with loop := false }, []) := by
          rw [Receiver.round, hstate]
        rw [hround]
        exact called_deferred hsane hstate
      · have hd : r.deferred = none := hsane.none_iff.mpr hstate
        have hround := round_reads (o := o) hsane hlive hstate
        generalize hres : r.round o = res at hround hstop ⊢
        cases hround with
        | starved idle =>
            exact ⟨⟨hsane.bytes, hsane.deferred, hsane.waits⟩, fun _ => rfl,
              fun _ => idle, fun h => iff_of_false h Bool.false_ne_true, id, id⟩
        | @moved r' out n sane need le next left loop stays last errored =>
            have hnone := stays (Bool.not_eq_true _ ▸ hstop) hloop
            refine ⟨sane, Round.future_eq hd need le next left, fun _ => ?_, fun _ => last,
              fun h => absurd h hlive, fun _ => errored⟩
            exact Puller.idle_of_none (show Reading.need r'.view = none by
              rw [Reading.need, hnone]) _

theorem startLoop_called {o : ReceiverOptions} {r : Receiver} (hsane : r.Sane)
    (hlive : r.view.part ≠ none) :
    Called o r [] (r.startLoop o).1 (r.startLoop o).2 := by
  have hsane' : Receiver.Sane { r with loop := true } :=
    ⟨hsane.bytes, hsane.deferred, hsane.waits⟩
  have hcalled := rounds_called (o := o) hsane' hlive rfl
  exact ⟨hcalled.sane, hcalled.future, hcalled.idle, hcalled.last, hcalled.stopped,
    hcalled.errored⟩

/-! ## Chunks -/

theorem not_error {out : List WsEvent} (h : out.any WsEvent.isFailure = false) :
    out.any WsEvent.isError = false := by
  refine List.any_eq_false.mpr fun e he herror => List.any_eq_false.mp h e he ?_
  cases e with
  | failure f => rfl
  | _ => cases herror

/-- A receiver that has not failed before calls back, unless it puts an event off. -/
theorem callback_done_iff {r : Receiver} {out : List WsEvent}
    (h : r.errored = out.any WsEvent.isFailure) :
    r.callback out = .done ↔ out.any WsEvent.isFailure = false ∧ r.state ≠ .deferEvent := by
  unfold Receiver.callback
  rw [h]
  cases hclean : out.any WsEvent.isFailure with
  | false =>
      rw [not_error hclean, if_neg (by decide)]
      by_cases hdefer : r.state = .deferEvent
      · rw [if_pos (Or.inl hdefer)]
        exact iff_of_false (by decide) fun hboth => hboth.2 hdefer
      · rw [if_neg fun hor => hor.elim hdefer (by decide)]
        exact iff_of_true rfl ⟨rfl, hdefer⟩
  | true =>
      refine iff_of_false (fun hdone => ?_) fun hboth => by cases hboth.1
      split at hdone
      · cases hdone
      · rw [if_pos (Or.inr rfl)] at hdone
        cases hdone

theorem write_called {o : ReceiverOptions} {r : Receiver} (hsane : r.Sane)
    (hstate : r.state ≠ .deferEvent) (herrored : r.errored = false) (chunk : Bytes) :
    Called o r chunk (r.write o chunk).1 (r.write o chunk).2.1 ∧
      (r.write o chunk).2.2 = (r.write o chunk).1.callback (r.write o chunk).2.1 := by
  have hd : r.deferred = none := hsane.none_iff.mpr hstate
  by_cases hconcluded : r.Concluded
  · have hpart : r.view.part = none := if_pos (Or.inr hconcluded)
    rw [show r.write o chunk = (r, [], .done) from if_pos hconcluded]
    refine ⟨⟨hsane, fun more => ?_, fun _ => ?_, fun h => absurd hpart h, id, id⟩, ?_⟩
    · rw [future_stopped hpart hd, future_stopped hpart hd]
      rfl
    · exact Puller.idle_of_none (show Reading.need r.view = none by rw [Reading.need, hpart]) _
    · exact ((callback_done_iff (show r.errored = ([] : List WsEvent).any _ from herrored)).mpr
        ⟨rfl, hstate⟩).symm
  · generalize hgrown : ({ r with
      bufferedBytes := r.bufferedBytes + chunk.length
      buffers := r.buffers ++ [chunk] } : Receiver) = grown
    have hwrite : r.write o chunk = ((grown.startLoop o).1, (grown.startLoop o).2,
        (grown.startLoop o).1.callback (grown.startLoop o).2) := by
      rw [← hgrown]
      exact if_neg hconcluded
    have hview : grown.view = r.view := by
      rw [← hgrown]
      rfl
    have hflat : grown.buffers.flatten = r.buffers.flatten ++ chunk := by
      rw [← hgrown]
      simp
    have hsane' : grown.Sane := by
      rw [← hgrown]
      refine ⟨?_, hsane.deferred, hsane.waits⟩
      simp [hsane.bytes]
    have hlive : grown.view.part ≠ none := by
      rw [hview, view_live herrored hconcluded]
      exact Option.some_ne_none _
    have hcalled := startLoop_called (o := o) hsane' hlive
    rw [hwrite]
    refine ⟨⟨hcalled.sane, fun more => ?_, hcalled.idle, fun _ => hcalled.last hlive,
      fun h => absurd (hview ▸ h) hlive, fun _ => hcalled.errored (live_of_part hlive).1⟩, rfl⟩
    rw [← hcalled.future more, Receiver.future, Receiver.future, hview, hflat, List.append_assoc,
      ← hgrown]
    rfl

/-- A failure is the last of what is emitted, and of what was to come. -/
theorem Called.failed {o : ReceiverOptions} {r r' : Receiver} {xs : Bytes} {out : List WsEvent}
    (h : Called o r xs r' out) (hnone : r.deferred = none) (herr : r'.errored = true) :
    upToFailure out = out ∧ ∀ more, r.future o (xs ++ more) = out := by
  have hpart : r'.view.part = none := if_pos (Or.inl herr)
  have hd := h.sane.none_of_stopped hpart
  have hfuture : ∀ more, r.future o (xs ++ more) = out := fun more => by
    rw [h.future, future_stopped hpart hd, List.append_nil]
  refine ⟨upToFailure_last fun before e after hout hlast => ?_, hfuture⟩
  have hrun := hfuture []
  rw [Receiver.future, hnone, hout] at hrun
  exact run_last hrun hlast

/-! ## The stream -/

/-- The stream between two calls, as long as nothing has failed. -/
structure Input.Settled (o : ReceiverOptions) (s : Input) : Prop where
  receiver : s.receiver.Sane
  good : s.receiver.errored = false ∧ s.errored = false
  writing : s.writing = true ↔ s.receiver.state = .deferEvent
  idle : s.receiver.deferred = none →
    s.queue = [] ∧ (reading o).Idle s.receiver.view s.receiver.buffers.flatten

def Input.future (o : ReceiverOptions) (s : Input) (more : Bytes) : List WsEvent :=
  s.receiver.future o (s.queue.flatten ++ more)

/-- These bytes have been read: what is emitted is what was to come, or as much of it as there is
where it fails. -/
structure Fed (o : ReceiverOptions) (r : Receiver) (xs : Bytes) (s : Input)
    (out : List WsEvent) : Prop where
  settled : out.any WsEvent.isFailure = false → s.Settled o
  future : out.any WsEvent.isFailure = false →
    ∀ more, r.future o (xs ++ more) = out ++ s.future o more
  last : out.any WsEvent.isFailure = false → r.view.part ≠ none →
    (s.receiver.view.part = none ↔ out.any WsEvent.isLast = true)
  stopped : out.any WsEvent.isFailure = false → r.view.part = none → s.receiver.view.part = none
  failed : out.any WsEvent.isFailure = true → ∀ more, r.future o (xs ++ more) = upToFailure out

/-- What a call back leaves of the stream. -/
structure WriteDone (o : ReceiverOptions) (r : Receiver) (xs : Bytes) (s s' : Input)
    (out : List WsEvent) : Prop where
  called : Called o r xs s'.receiver out
  queue : s'.queue = s.queue
  listening : s'.listening = s.listening
  good : out.any WsEvent.isFailure = false →
    s'.errored = s.errored ∧ (s'.writing = true ↔ s'.receiver.state = .deferEvent)
  busy : out.any WsEvent.isFailure = true → s'.writing = true ∨ s'.errored = true

theorem Called.written {o : ReceiverOptions} {r r' : Receiver} {xs : Bytes} {out : List WsEvent}
    (h : Called o r xs r' out) (herrored : r.errored = false) (s : Input) :
    WriteDone o r xs s (Input.onwrite { s with receiver := r' } (r'.callback out)) out := by
  have hdone := callback_done_iff (h.errored herrored)
  cases hcallback : r'.callback out with
  | done =>
      obtain ⟨hclean, hdefer⟩ := hdone.mp hcallback
      refine ⟨h, rfl, rfl, fun _ => ⟨rfl, iff_of_false Bool.false_ne_true hdefer⟩, fun hfails => ?_⟩
      rw [hclean] at hfails
      cases hfails
  | failed =>
      refine ⟨h, rfl, rfl, fun hclean => ?_, fun _ => Or.inr rfl⟩
      unfold Receiver.callback at hcallback
      rw [not_error hclean, if_neg (by decide)] at hcallback
      split at hcallback <;> cases hcallback
  | waits =>
      refine ⟨h, rfl, rfl, fun hclean => ⟨rfl, iff_of_true rfl ?_⟩, fun _ => Or.inl rfl⟩
      by_contra hdefer
      rw [hdone.mpr ⟨hclean, hdefer⟩] at hcallback
      cases hcallback

theorem doWrite_written {o : ReceiverOptions} {s : Input} (hsane : s.receiver.Sane)
    (hstate : s.receiver.state ≠ .deferEvent) (herrored : s.receiver.errored = false)
    (chunk : Bytes) :
    WriteDone o s.receiver chunk s (s.doWrite o chunk).1 (s.doWrite o chunk).2 := by
  obtain ⟨hcalled, hcallback⟩ := write_called (o := o) hsane hstate herrored chunk
  unfold Input.doWrite
  dsimp only
  rw [hcallback]
  exact hcalled.written herrored s

/-- With the chunks that are left in the queue. -/
theorem WriteDone.fed {o : ReceiverOptions} {r : Receiver} {xs : Bytes} {s s' : Input}
    {out : List WsEvent} (h : WriteDone o r xs s s' out) (hnone : r.deferred = none)
    (hgood : r.errored = false ∧ s.errored = false) {queue : List Bytes}
    (hqueue : out.any WsEvent.isFailure = false → s'.receiver.deferred = none → queue = []) :
    Fed o r (xs ++ queue.flatten) { s' with queue := queue } out where
  settled := fun hclean => {
    receiver := h.called.sane
    good := ⟨(h.called.errored hgood.1).trans hclean, (h.good hclean).1.trans hgood.2⟩
    writing := (h.good hclean).2
    idle := fun hd => ⟨hqueue hclean hd, h.called.idle hd⟩ }
  future := fun _ more => by
    rw [List.append_assoc, h.called.future]
    rfl
  last := fun _ => h.called.last
  stopped := fun _ => h.called.stopped
  failed := fun hfails more => by
    obtain ⟨hself, hall⟩ := h.called.failed hnone ((h.called.errored hgood.1).trans hfails)
    rw [List.append_assoc, hall, hself]

theorem Called.fed_trans {o : ReceiverOptions} {r r₁ : Receiver} {s : Input} {xs ys : Bytes}
    {out₁ out₂ : List WsEvent} (h₁ : Called o r xs r₁ out₁)
    (hclean : out₁.any WsEvent.isFailure = false) (h₂ : Fed o r₁ ys s out₂) :
    Fed o r (xs ++ ys) s (out₁ ++ out₂) := by
  have hsame : (out₁ ++ out₂).any WsEvent.isFailure = out₂.any WsEvent.isFailure := by
    rw [List.any_append, hclean, Bool.false_or]
  constructor
  case settled => exact fun hall => h₂.settled (hsame ▸ hall)
  case future =>
    intro hall more
    rw [List.append_assoc, h₁.future, h₂.future (hsame ▸ hall), List.append_assoc]
  case last =>
    intro hall hlive
    rw [List.any_append]
    by_cases hpart : r₁.view.part = none
    · rw [(h₁.last hlive).mp hpart, Bool.true_or]
      exact iff_of_true (h₂.stopped (hsame ▸ hall) hpart) rfl
    · have hnot : out₁.any WsEvent.isLast = false :=
        Bool.not_eq_true _ ▸ mt (h₁.last hlive).mpr hpart
      rw [hnot, Bool.false_or]
      exact h₂.last (hsame ▸ hall) hpart
  case stopped => exact fun hall hpart => h₂.stopped (hsame ▸ hall) (h₁.stopped hpart)
  case failed =>
    intro hall more
    rw [List.append_assoc, h₁.future, h₂.failed (hsame ▸ hall), upToFailure_append hclean]

/-- After a failure the chunks that follow change nothing that counts. -/
theorem Called.fed_failed {o : ReceiverOptions} {r r₁ : Receiver} {xs : Bytes}
    {out₁ : List WsEvent} (h : Called o r xs r₁ out₁) (hnone : r.deferred = none)
    (herrored : r.errored = false) (hfails : out₁.any WsEvent.isFailure = true) (ys : Bytes)
    (s : Input) (out₂ : List WsEvent) : Fed o r (xs ++ ys) s (out₁ ++ out₂) := by
  have hall : (out₁ ++ out₂).any WsEvent.isFailure = true := by
    rw [List.any_append, hfails, Bool.true_or]
  obtain ⟨hself, hfuture⟩ := h.failed hnone ((h.errored herrored).trans hfails)
  constructor
  case failed =>
    intro _ more
    rw [List.append_assoc, hfuture, upToFailure_failed hfails, hself]
  all_goals exact fun hclean => by rw [hall] at hclean; cases hclean

theorem clearBuffer_fed {o : ReceiverOptions} (queue : List Bytes) {s : Input}
    (hsane : s.receiver.Sane) (hstate : s.receiver.state ≠ .deferEvent)
    (hgood : s.receiver.errored = false ∧ s.errored = false) (hwriting : s.writing = false)
    (hidle : (reading o).Idle s.receiver.view s.receiver.buffers.flatten) :
    Fed o s.receiver queue.flatten (s.clearBuffer o queue).1 (s.clearBuffer o queue).2 := by
  induction queue generalizing s with
  | nil =>
      constructor
      case settled =>
        exact fun _ => ⟨hsane, hgood, iff_of_false (by simp [hwriting, Input.clearBuffer]) hstate,
          fun _ => ⟨rfl, hidle⟩⟩
      case future => exact fun _ _ => rfl
      case last => exact fun _ h => iff_of_false h Bool.false_ne_true
      case stopped => exact fun _ => id
      case failed => exact fun h => by cases h
  | cons chunk queue ih =>
      have hnone : s.receiver.deferred = none := hsane.none_iff.mpr hstate
      have hwritten := doWrite_written (o := o) hsane hstate hgood.1 chunk
      rw [Input.clearBuffer, List.flatten_cons]
      generalize s.doWrite o chunk = res at hwritten ⊢
      obtain ⟨s₁, out₁⟩ := res
      dsimp only at hwritten ⊢
      split
      · next hwaits =>
          refine hwritten.fed hnone hgood fun hclean hd => ?_
          exact absurd ((hwritten.good hclean).2.mp hwaits) (hwritten.called.sane.none_iff.mp hd)
      · next hgoes =>
          have herrored := hwritten.called.errored hgood.1
          cases hclean : out₁.any WsEvent.isFailure with
          | false =>
              obtain ⟨herr, hdefer⟩ := hwritten.good hclean
              have hstate₁ : s₁.receiver.state ≠ .deferEvent := fun h => hgoes (hdefer.mpr h)
              exact hwritten.called.fed_trans hclean (ih hwritten.called.sane hstate₁
                ⟨herrored.trans hclean, herr.trans hgood.2⟩ (Bool.not_eq_true _ ▸ hgoes)
                (hwritten.called.idle (hwritten.called.sane.none_iff.mpr hstate₁)))
          | true => exact hwritten.called.fed_failed hnone hgood.1 hclean _ _ _

theorem onwrite_listening (s : Input) (callback : Callback) :
    (s.onwrite callback).listening = s.listening := by
  cases callback <;> rfl

theorem clearBuffer_listening (o : ReceiverOptions) (queue : List Bytes) (s : Input) :
    (s.clearBuffer o queue).1.listening = s.listening := by
  induction queue generalizing s with
  | nil => rfl
  | cons chunk queue ih =>
      have hone : (s.doWrite o chunk).1.listening = s.listening := onwrite_listening _ _
      rw [Input.clearBuffer]
      dsimp only
      split
      · exact hone
      · exact (ih _).trans hone

theorem onwrite_receiver (s : Input) (callback : Callback) :
    (s.onwrite callback).receiver = s.receiver := by
  cases callback <;> rfl

/-- A call that calls back without an error lets the queue through. -/
theorem WriteDone.clear {o : ReceiverOptions} {r : Receiver} {s s₁ s₂ : Input}
    {out out' : List WsEvent} (h : WriteDone o r [] s s₁ out) (hnone : r.deferred = none)
    (hgood : r.errored = false ∧ s.errored = false)
    (hclear : (if s₁.receiver.callback out = .done then s₁.clearBuffer o s₁.queue
      else (s₁, [])) = (s₂, out')) :
    s₂.listening = s.listening ∧ Fed o r s.queue.flatten s₂ (out ++ out') := by
  have herrored := h.called.errored hgood.1
  have hdone := callback_done_iff herrored
  rw [← h.queue]
  by_cases hcallback : s₁.receiver.callback out = .done
  · rw [if_pos hcallback] at hclear
    obtain ⟨hclean, hdefer⟩ := hdone.mp hcallback
    obtain ⟨herr, hwriting⟩ := h.good hclean
    have hlistening := clearBuffer_listening o s₁.queue s₁
    have hfed := clearBuffer_fed (o := o) s₁.queue h.called.sane hdefer
      ⟨herrored.trans hclean, herr.trans hgood.2⟩
      (Bool.eq_false_iff.mpr fun hwaits => hdefer (hwriting.mp hwaits))
      (h.called.idle (h.called.sane.none_iff.mpr hdefer))
    rw [hclear] at hlistening hfed
    exact ⟨hlistening.trans h.listening, h.called.fed_trans hclean hfed⟩
  · rw [if_neg hcallback] at hclear
    cases hclear
    rw [List.append_nil]
    exact ⟨h.listening, h.fed hnone hgood fun hclean hd =>
      absurd (hdone.mpr ⟨hclean, h.called.sane.none_iff.mp hd⟩) hcallback⟩

/-! ## Step by step -/

structure Input.Sane (o : ReceiverOptions) (s : Input) : Prop extends s.Settled o where
  listening : s.listening = true ↔ s.receiver.view.part ≠ none

def InputStep.bytes : InputStep → Bytes
  | .data chunk => chunk
  | .task => []

theorem Input.new_sane (o : ReceiverOptions) : Input.new.Sane o where
  receiver := Receiver.new_sane
  good := ⟨rfl, rfl⟩
  writing := by decide
  idle := fun _ => ⟨rfl, fun n hn => by cases hn; decide⟩
  listening := iff_of_true rfl (by decide)

theorem any_isLast {out : List WsEvent} (h : out.any WsEvent.isFailure = false) :
    out.any WsEvent.isLast = out.any WsEvent.isConclude := by
  induction out with
  | nil => rfl
  | cons e out ih =>
      rw [List.any_cons, Bool.or_eq_false_iff] at h
      rw [List.any_cons, List.any_cons, ih h.2, WsEvent.isLast, h.1, Bool.or_false]

theorem Fed.heard {o : ReceiverOptions} {r : Receiver} {xs : Bytes} {s : Input}
    {out : List WsEvent} (h : Fed o r xs s out) (hclean : out.any WsEvent.isFailure = false)
    (hlive : r.view.part ≠ none) (hlistening : s.listening = true) : (s.heard out).Sane o where
  toSettled :=
    have hs := h.settled hclean
    ⟨hs.receiver, hs.good, hs.writing, hs.idle⟩
  listening := by
    show (s.listening && !out.any WsEvent.isConclude) = true ↔ s.receiver.view.part ≠ none
    rw [Ne, h.last hclean hlive, hlistening, any_isLast hclean]
    simp

/-- The microtask finds the receiver where the reader stands. -/
theorem resumed {r : Receiver} (hsane : r.Sane) {event : WsEvent} (hd : r.deferred = some event) :
    Receiver.Sane { r with state := .getInfo, deferred := none } ∧
      Receiver.view { r with state := .getInfo, deferred := none } = r.view ∧
      r.view.part ≠ none := by
  obtain ⟨herrored, hop, -⟩ := hsane.waits event hd
  have hstate : r.state = .deferEvent := hsane.deferred.mpr (by rw [hd]; rfl)
  have hview : r.view = ⟨some .getInfo, r.toParsing⟩ := by
    rw [view_live herrored fun h => hop h.1, hstate]
    rfl
  refine ⟨.quiet hsane.bytes (show ReceiverState.getInfo ≠ .deferEvent by decide) rfl, ?_, ?_⟩
  · rw [hview]
    exact view_live (r := { r with state := .getInfo, deferred := none }) herrored
      fun h => hop h.1
  · rw [hview]
    exact Option.some_ne_none _

/-- What a step emits is what was to come, or as much of it as there is where it fails. -/
structure Input.Told (o : ReceiverOptions) (s : Input) (bytes : Bytes) (s' : Input)
    (out : List WsEvent) : Prop where
  sane : out.any WsEvent.isFailure = false → s'.Sane o
  future : out.any WsEvent.isFailure = false →
    ∀ more, s.future o (bytes ++ more) = out ++ s'.future o more
  failed : out.any WsEvent.isFailure = true →
    ∀ more, s.future o (bytes ++ more) = upToFailure out

/-- What nobody listens to. -/
theorem Input.Sane.unheard {o : ReceiverOptions} {s : Input} (hsane : s.Sane o)
    (hlisten : s.listening = false) (chunk : Bytes) : s.Told o chunk s [] := by
  have hpart : s.receiver.view.part = none := by
    by_contra hne
    rw [hsane.listening.mpr hne] at hlisten
    cases hlisten
  have hd := hsane.receiver.none_of_stopped hpart
  refine ⟨fun _ => hsane, fun _ more => ?_, fun hfails => by cases hfails⟩
  unfold Input.future
  rw [future_stopped hpart hd, future_stopped hpart hd]
  rfl

/-- A chunk that waits for the microtask. -/
theorem Input.Sane.waits {o : ReceiverOptions} {s : Input} (hsane : s.Sane o)
    (hlisten : s.listening = true) (hdefer : s.receiver.state = .deferEvent) (chunk : Bytes) :
    s.Told o chunk { s with queue := s.queue ++ [chunk] } [] := by
  refine ⟨fun _ => ⟨⟨hsane.receiver, hsane.good, hsane.writing, fun hnone => ?_⟩, ?_⟩,
    fun _ more => ?_, fun hfails => by cases hfails⟩
  · exact absurd hdefer (hsane.receiver.none_iff.mp hnone)
  · exact iff_of_true hlisten (hsane.listening.mp hlisten)
  · show s.receiver.future o (s.queue.flatten ++ (chunk ++ more)) =
      s.receiver.future o ((s.queue ++ [chunk]).flatten ++ more)
    simp

/-- A chunk that is written. -/
theorem Input.Sane.written {o : ReceiverOptions} {s s' : Input} (hsane : s.Sane o)
    (hlisten : s.listening = true) (hdefer : s.receiver.state ≠ .deferEvent) {chunk : Bytes}
    {out : List WsEvent} (h : s.doWrite o chunk = (s', out)) :
    s.Told o chunk (s'.heard out) out := by
  have hnone : s.receiver.deferred = none := hsane.receiver.none_iff.mpr hdefer
  obtain ⟨hqueue, -⟩ := hsane.idle hnone
  have hwritten := doWrite_written (o := o) hsane.receiver hdefer hsane.good.1 chunk
  rw [h] at hwritten
  have hfed : Fed o s.receiver (chunk ++ s'.queue.flatten) s' out :=
    hwritten.fed hnone hsane.good fun _ _ => hwritten.queue.trans hqueue
  rw [hwritten.queue, hqueue, List.flatten_nil, List.append_nil] at hfed
  refine ⟨fun hclean => hfed.heard hclean (hsane.listening.mp hlisten)
    (hwritten.listening.trans hlisten), fun hclean more => ?_, fun hfails more => ?_⟩
  · rw [Input.future, hqueue, List.flatten_nil, List.nil_append]
    exact hfed.future hclean more
  · rw [Input.future, hqueue, List.flatten_nil, List.nil_append]
    exact hfed.failed hfails more

/-- The microtask emits the event that waits, and goes on. -/
theorem Input.Sane.task {o : ReceiverOptions} {s s' : Input} (hsane : s.Sane o)
    {out : List WsEvent} (h : s.step o .task = some (s', out)) : s.Told o [] s' out := by
  obtain ⟨event, hd, hstep⟩ := Option.map_eq_some_iff.mp h
  obtain ⟨hsane₁, hview₁, hlive⟩ := resumed hsane.receiver hd
  obtain ⟨herrored, -, hlast⟩ := hsane.receiver.waits event hd
  have hlisten := hsane.listening.mpr hlive
  have hcalled := startLoop_called (o := o) hsane₁ (hview₁ ▸ hlive)
  have hfirst : ∀ more, s.receiver.future o more = event ::
      Receiver.future o { s.receiver with state := .getInfo, deferred := none } more := by
    intro more
    unfold Receiver.future
    rw [hview₁, hd]
    rfl
  dsimp only at hstep
  generalize Receiver.startLoop o { s.receiver with
    state := .getInfo, deferred := none } = res at hcalled hstep
  obtain ⟨r₁, out₁⟩ := res
  dsimp only at hcalled hstep
  have hwritten := hcalled.written herrored s
  obtain ⟨s₁, hs₁⟩ : ∃ s₁, s₁ = Input.onwrite { s with receiver := r₁ } (r₁.callback out₁) :=
    ⟨_, rfl⟩
  rw [← hs₁] at hstep hwritten
  obtain rfl : s₁.receiver = r₁ := hs₁ ▸ onwrite_receiver _ _
  generalize hclear : (if s₁.receiver.callback out₁ = .done then s₁.clearBuffer o s₁.queue
    else (s₁, [])) = cleared at hstep
  obtain ⟨s₂, out₂⟩ := cleared
  obtain ⟨hlistening, hfed⟩ := hwritten.clear rfl ⟨herrored, hsane.good.2⟩ hclear
  cases hstep
  have hgood : event.isConclude = false ∧ event.isFailure = false := Bool.or_eq_false_iff.mp hlast
  have hsame : (event :: (out₁ ++ out₂)).any WsEvent.isFailure =
      (out₁ ++ out₂).any WsEvent.isFailure := by
    rw [List.any_cons, hgood.2, Bool.false_or]
  have hheard : s₂.heard (event :: (out₁ ++ out₂)) = s₂.heard (out₁ ++ out₂) := by
    rw [Input.heard, Input.heard, List.any_cons, hgood.1, Bool.false_or]
  rw [List.cons_append, hheard]
  refine ⟨fun hclean => ?_, fun hclean more => ?_, fun hfails more => ?_⟩
  · exact hfed.heard (hsame ▸ hclean) (hview₁ ▸ hlive) (hlistening.trans hlisten)
  · rw [Input.future, hfirst, List.nil_append, hfed.future (hsame ▸ hclean)]
    rfl
  · rw [Input.future, hfirst, List.nil_append, hfed.failed (hsame ▸ hfails), upToFailure,
      if_neg (by rw [hgood.2]; decide)]

theorem Input.step_told {o : ReceiverOptions} {s s' : Input} {e : InputStep}
    {out : List WsEvent} (hsane : s.Sane o) (h : s.step o e = some (s', out)) :
    s.Told o e.bytes s' out := by
  cases e with
  | data chunk =>
      rw [Input.step] at h
      cases hlisten : s.listening with
      | false =>
          rw [hlisten, if_pos (by decide)] at h
          cases h
          exact hsane.unheard hlisten chunk
      | true =>
          rw [if_neg (by rw [hlisten]; decide)] at h
          by_cases hdefer : s.receiver.state = .deferEvent
          · rw [if_pos (Or.inl (hsane.writing.mpr hdefer))] at h
            cases h
            exact hsane.waits hlisten hdefer chunk
          · have hidle : ¬ (s.writing = true ∨ s.errored = true) := by
              rw [hsane.writing, hsane.good.2]
              exact fun hor => hor.elim hdefer Bool.false_ne_true
            rw [if_neg hidle] at h
            generalize hres : s.doWrite o chunk = res at h
            cases h
            exact hsane.written hlisten hdefer hres
  | task => exact hsane.task h

/-- A connection's input with its history. -/
structure Inflow where
  input : Input
  arrived : Bytes
  emitted : List WsEvent

def Inflow.new : Inflow := ⟨.new, [], []⟩

def Inflow.step (o : ReceiverOptions) (s : Inflow) (e : InputStep) : Option Inflow :=
  (s.input.step o e).map fun (input, out) => ⟨input, s.arrived ++ e.bytes, s.emitted ++ out⟩

/-- What has been emitted and what is to come, against the bytes so far. -/
structure Inflow.Reads (o : ReceiverOptions) (s : Inflow) : Prop where
  live : s.emitted.any WsEvent.isFailure = false →
    s.input.Sane o ∧ ∀ more, events o (s.arrived ++ more) = s.emitted ++ s.input.future o more
  failed : s.emitted.any WsEvent.isFailure = true →
    ∀ more, events o (s.arrived ++ more) = upToFailure s.emitted

theorem Inflow.Reads.step {o : ReceiverOptions} {s s' : Inflow} {e : InputStep} (h : s.Reads o)
    (hstep : s.step o e = some s') : s'.Reads o := by
  obtain ⟨⟨input, out⟩, hin, rfl⟩ := Option.map_eq_some_iff.mp hstep
  cases hbefore : s.emitted.any WsEvent.isFailure with
  | false =>
      obtain ⟨hsane, hfuture⟩ := h.live hbefore
      have htold := Input.step_told hsane hin
      have hsame : (s.emitted ++ out).any WsEvent.isFailure = out.any WsEvent.isFailure := by
        rw [List.any_append, hbefore, Bool.false_or]
      refine ⟨fun hclean => ?_, fun hfails more => ?_⟩
      · refine ⟨htold.sane (hsame ▸ hclean), fun more => ?_⟩
        rw [List.append_assoc, hfuture, htold.future (hsame ▸ hclean), List.append_assoc]
      · rw [List.append_assoc, hfuture, htold.failed (hsame ▸ hfails),
          upToFailure_append hbefore]
  | true =>
      have hall : (s.emitted ++ out).any WsEvent.isFailure = true := by
        rw [List.any_append, hbefore, Bool.true_or]
      refine ⟨fun hclean => ?_, fun _ more => ?_⟩
      · rw [hall] at hclean
        cases hclean
      · rw [List.append_assoc, h.failed hbefore, upToFailure_failed hbefore]

theorem Inflow.new_reads (o : ReceiverOptions) : Inflow.new.Reads o :=
  ⟨fun _ => ⟨Input.new_sane o, fun _ => rfl⟩, fun h => by cases h⟩

theorem inflow_reads {o : ReceiverOptions} {steps : List InputStep} {s : Inflow}
    (h : Machine.exec (Inflow.step o) .new steps = some s) : s.Reads o :=
  Machine.exec_invariant (I := Inflow.Reads o) (fun _ _ _ hs hstep => hs.step hstep)
    (Inflow.new_reads o) h

theorem Inflow.Reads.emitted_begins {o : ReceiverOptions} {s : Inflow} (h : s.Reads o) :
    upToFailure s.emitted <+: events o s.arrived := by
  rw [← List.append_nil s.arrived]
  cases hfails : s.emitted.any WsEvent.isFailure with
  | false =>
      rw [(h.live hfails).2, upToFailure_self hfails]
      exact List.prefix_append _ _
  | true => exact ⟨[], (List.append_nil _).trans (h.failed hfails []).symm⟩

/-- Where the bytes fail nowhere, nothing that is emitted is left out. -/
theorem Inflow.Reads.emitted_clean {o : ReceiverOptions} {s : Inflow} (h : s.Reads o)
    (hclean : (events o s.arrived).any WsEvent.isFailure = false) :
    upToFailure s.emitted = s.emitted := by
  obtain ⟨rest, hrest⟩ := h.emitted_begins
  rw [← hrest, List.any_append, Bool.or_eq_false_iff, upToFailure_any] at hclean
  exact upToFailure_self hclean.1

/-- Where no microtask is waiting, nothing is to come without more bytes. -/
theorem Inflow.Reads.emitted_all {o : ReceiverOptions} {s : Inflow} (h : s.Reads o)
    (hquiet : s.input.step o .task = none) : upToFailure s.emitted = events o s.arrived := by
  rw [← List.append_nil s.arrived]
  cases hfails : s.emitted.any WsEvent.isFailure with
  | true => rw [h.failed hfails]
  | false =>
      obtain ⟨hsane, hfuture⟩ := h.live hfails
      have hd : s.input.receiver.deferred = none := Option.map_eq_none_iff.mp hquiet
      obtain ⟨hqueue, hidle⟩ := hsane.idle hd
      rw [upToFailure_self hfails, hfuture, Input.future, Receiver.future, hqueue, hd,
        List.flatten_nil, List.append_nil, List.append_nil, Puller.run_idle hidle]
      exact (List.append_nil _).symm

/-! ## Chunk by chunk

The events of a socket come one by one, and the microtasks of one have run when the next comes. -/

/-- No chunk arrives while a microtask is waiting. -/
def Prompt (s : Inflow) : InputStep → Prop
  | .data _ => s.input.receiver.deferred = none
  | .task => True

/-- Then no chunk waits, and none is read after a failure. -/
structure Inflow.Tidy (s : Inflow) : Prop where
  queue : s.emitted.any WsEvent.isFailure = false → s.input.queue = []
  failed : s.emitted.any WsEvent.isFailure = true →
    s.input.receiver.deferred = none ∧ (s.input.writing = true ∨ s.input.errored = true)
  emitted : upToFailure s.emitted = s.emitted

theorem Inflow.new_tidy : Inflow.new.Tidy := ⟨fun _ => rfl, (fun h => by cases h), rfl⟩

theorem clearBuffer_empty (o : ReceiverOptions) {s : Input} (h : s.queue = []) :
    s.clearBuffer o s.queue = (s, []) := by
  rw [h, Input.clearBuffer, ← h]

/-- What one call emits comes behind events without a failure. -/
theorem WriteDone.tidy {o : ReceiverOptions} {r : Receiver} {xs : Bytes} {s s' : Input}
    {out : List WsEvent} (h : WriteDone o r xs s s' out) (hnone : r.deferred = none)
    (herrored : r.errored = false) (hqueue : s.queue = []) {before : List WsEvent}
    (hbefore : before.any WsEvent.isFailure = false) (listening : Bool) (arrived : Bytes) :
    Inflow.Tidy ⟨{ s' with listening := listening }, arrived, before ++ out⟩ := by
  have hsame : (before ++ out).any WsEvent.isFailure = out.any WsEvent.isFailure := by
    rw [List.any_append, hbefore, Bool.false_or]
  refine ⟨fun _ => h.queue.trans hqueue, fun hfails => ?_, ?_⟩
  · have hout : out.any WsEvent.isFailure = true := hsame ▸ hfails
    have hend : s'.receiver.errored = true := (h.called.errored herrored).trans hout
    exact ⟨h.called.sane.none_of_stopped (if_pos (Or.inl hend)), h.busy hout⟩
  · show upToFailure (before ++ out) = before ++ out
    rw [upToFailure_append hbefore]
    cases hout : out.any WsEvent.isFailure with
    | false => rw [upToFailure_self hout]
    | true => rw [(h.called.failed hnone ((h.called.errored herrored).trans hout)).1]

theorem Inflow.Tidy.step {o : ReceiverOptions} {s s' : Inflow} {e : InputStep} (h : s.Tidy)
    (hreads : s.Reads o) (hprompt : Prompt s e) (hstep : s.step o e = some s') : s'.Tidy := by
  obtain ⟨⟨input, out⟩, hin, rfl⟩ := Option.map_eq_some_iff.mp hstep
  change Inflow.Tidy ⟨input, s.arrived ++ e.bytes, s.emitted ++ out⟩
  cases hbefore : s.emitted.any WsEvent.isFailure with
  | true =>
      obtain ⟨hnone, hbusy⟩ := h.failed hbefore
      cases e with
      | data chunk =>
          rw [Input.step] at hin
          split at hin
          · cases hin
            rw [List.append_nil]
            exact ⟨h.queue, h.failed, h.emitted⟩
          · cases hin
            rw [List.append_nil]
            refine ⟨fun hclean => ?_, h.failed, h.emitted⟩
            rw [hbefore] at hclean
            cases hclean
      | task =>
          rw [Input.step, hnone] at hin
          cases hin
  | false =>
      obtain ⟨hsane, -⟩ := hreads.live hbefore
      have hqueue := h.queue hbefore
      cases e with
      | data chunk =>
          have hdefer : s.input.receiver.state ≠ .deferEvent := hsane.receiver.none_iff.mp hprompt
          rw [Input.step] at hin
          split at hin
          · cases hin
            rw [List.append_nil]
            exact ⟨h.queue, h.failed, h.emitted⟩
          · have hidle : ¬ (s.input.writing = true ∨ s.input.errored = true) := by
              rw [hsane.writing, hsane.good.2]
              exact fun hor => hor.elim hdefer Bool.false_ne_true
            rw [if_neg hidle] at hin
            cases hin
            exact (doWrite_written hsane.receiver hdefer hsane.good.1 chunk).tidy hprompt
              hsane.good.1 hqueue hbefore _ _
      | task =>
          obtain ⟨event, hd, hrun⟩ := Option.map_eq_some_iff.mp hin
          obtain ⟨hsane₁, hview₁, hlive⟩ := resumed hsane.receiver hd
          obtain ⟨herrored, -, hlast⟩ := hsane.receiver.waits event hd
          have hwritten := (startLoop_called (o := o) hsane₁ (hview₁ ▸ hlive)).written herrored
            s.input
          have hcalm : (s.emitted ++ [event]).any WsEvent.isFailure = false := by
            rw [List.any_append, hbefore, List.any_cons, (Bool.or_eq_false_iff.mp hlast).2]
            rfl
          have hclear := clearBuffer_empty o (hwritten.queue.trans hqueue)
          dsimp only at hrun
          rw [hclear, ite_self] at hrun
          cases hrun
          have htidy := hwritten.tidy rfl herrored hqueue hcalm
          rw [List.append_nil, ← List.singleton_append, ← List.append_assoc]
          exact htidy _ _

theorem inflow_tidy {o : ReceiverOptions} {steps : List InputStep} {s : Inflow}
    (h : Machine.exec (Inflow.step o) .new steps = some s)
    (hprompt : Machine.Meets (Inflow.step o) Prompt .new steps) : s.Tidy := by
  have halways := Machine.always_of_meets (I := fun s => s.Reads o ∧ s.Tidy) (P := Inflow.Tidy)
    (fun _ _ _ hs hC hstep => ⟨hs.1.step hstep, hs.2.step hs.1 hC hstep⟩) (fun _ hs => hs.2)
    ⟨Inflow.new_reads o, Inflow.new_tidy⟩ hprompt
  exact Machine.always_iff.mp halways steps [] s (List.append_nil _).symm h

/-- However a stream is cut into chunks, and whenever the microtasks run between them, the events
emitted up to the first failure are those of the stream, in order; and all of them, unless one
still waits for its microtask. Nothing comes behind the failure if no chunk overtakes a
microtask. -/
theorem receiver_reads_stream (o : ReceiverOptions) (steps : List InputStep) (s : Inflow)
    (h : Machine.exec (Inflow.step o) .new steps = some s) :
    upToFailure s.emitted <+: events o s.arrived ∧
      (s.input.step o .task = none → upToFailure s.emitted = events o s.arrived) ∧
      (Machine.Meets (Inflow.step o) Prompt .new steps → upToFailure s.emitted = s.emitted) :=
  ⟨(inflow_reads h).emitted_begins, (inflow_reads h).emitted_all,
    fun hprompt => (inflow_tidy h hprompt).emitted⟩

/-- A text cut across its key, a frame that is none, and a text that overtakes the error. -/
theorem receiver_reads_cut_stream :
    let steps : List InputStep :=
      [.data [0x81, 0x82, 1, 2, 3], .data [4, 0x69, 0x6b], .data [0xC1, 0x80],
        .data [0x81, 0x81, 0, 0, 0, 0, 0x62], .task, .task]
    let error : Failure :=
      .error (.frame (ascii "RSV1 must be clear") 1002 (ascii "WS_ERR_UNEXPECTED_RSV_1"))
    ∃ s, Machine.exec (Inflow.step (.server none)) .new steps = some s ∧
      s.emitted = [.message (ascii "hi") false, .failure error, .message (ascii "b") false] ∧
      upToFailure s.emitted <+: events (.server none) s.arrived ∧
      (s.input.step (.server none) .task = none →
        upToFailure s.emitted = events (.server none) s.arrived) ∧
      (Machine.Meets (Inflow.step (.server none)) Prompt .new steps →
        upToFailure s.emitted = s.emitted) := by
  intro steps error
  have hemitted : (Machine.exec (Inflow.step (.server none)) .new steps).map Inflow.emitted =
      some [.message (ascii "hi") false, .failure error, .message (ascii "b") false] := by
    decide +kernel
  obtain ⟨s, hs, hevents⟩ := Option.map_eq_some_iff.mp hemitted
  exact ⟨s, hs, hevents, receiver_reads_stream (.server none) steps s hs⟩

end AsioServer.Ws
