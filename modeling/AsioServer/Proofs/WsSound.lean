import AsioServer.Proofs.WsReceiver

/-!
# What a receiver can emit

Whatever arrives, a message that is emitted is no longer than the options allow and
a text is one, a control frame is short, and a failure is an error with a status
code: the buffer of `concat` is always large enough. The bookkeeping behind it is
one invariant of the reader (`Reading.Kept`), and it holds of a connection's whole
input because its events are the reader's.
-/

namespace AsioServer.Ws

/-- What a listener may rely on. -/
def WsEvent.Sound (o : ReceiverOptions) : WsEvent → Prop
  | .message data isBinary => o.Fits data ∧ (isBinary = false → o.Text data)
  | .ping data => data.length ≤ 125
  | .pong data => data.length ≤ 125
  | .conclude code reason => (code = 1005 ∧ reason = []) ∨
      (isValidStatusCode code = true ∧ reason.length ≤ 123 ∧ o.Text reason)
  | .failure f => ∃ e, f = .error e ∧ e.statusCode ∈ [1002, 1007, 1009]

/-! ## The bookkeeping -/

def ReceiverOptions.Within (o : ReceiverOptions) (length : Nat) : Prop :=
  o.maxPayload = 0 ∨ length ≤ o.maxPayload

/-- The lengths of a message, between two frames. -/
structure Parsing.Kept (o : ReceiverOptions) (p : Parsing) : Prop where
  messageLength : p.messageLength = p.fragments.flatten.length
  total : p.totalPayloadLength = p.messageLength
  within : o.Within p.totalPayloadLength
  fragmented : p.fragmented < 0x08

/-- What a control frame may be. -/
def Parsing.Short (p : Parsing) : Prop :=
  p.fin = true ∧ p.payloadLength ≤ 125 ∧ (p.opcode = 0x08 → p.payloadLength ≠ 1)

/-- The lengths when the payload is all that is missing. -/
structure Parsing.Begun (o : ReceiverOptions) (p : Parsing) : Prop where
  messageLength : p.messageLength = p.fragments.flatten.length
  total : p.totalPayloadLength =
    if p.opcode < 0x08 then p.messageLength + p.payloadLength else p.messageLength
  within : o.Within p.totalPayloadLength
  fragmented : p.fragmented < 0x08
  control : ¬ p.opcode < 0x08 → p.Short

/-- The lengths in front of each part. -/
def Parsing.At (o : ReceiverOptions) (p : Parsing) : ReceiverState → Prop
  | .getMask | .getData => p.Begun o
  | .getPayloadLength16 | .getPayloadLength64 => p.Kept o ∧ p.opcode < 0x08
  | _ => p.Kept o

def Failure.Known (f : Failure) : Prop := ∃ e, f = .error e ∧ e.statusCode ∈ [1002, 1007, 1009]

/-- What a part of the header leaves. -/
def HeaderKept (o : ReceiverOptions) : Parsing × Except Failure ReceiverState → Prop
  | (p, .ok state) => p.At o state
  | (_, .error f) => f.Known

/-- What a payload leaves. -/
def DataKept (o : ReceiverOptions) : Parsing × Except Failure (Option WsEvent) → Prop
  | (p, .ok event) => (∀ e, event = some e → e.Sound o) ∧
      ((∃ e, event = some e ∧ e.isLast = true) ∨ p.Kept o)
  | (_, .error f) => f.Known

theorem known_of_code {e : WsError} (h : e.statusCode ∈ [1002, 1007, 1009]) :
    Failure.Known (.error e) := ⟨e, rfl, h⟩

theorem known_frame {message code : Bytes} :
    Failure.Known (.error (.frame message 1002 code)) := ⟨_, rfl, List.mem_cons_self ..⟩

theorem haveLength_kept {o : ReceiverOptions} {p : Parsing} (h : p.Kept o)
    (hcontrol : ¬ p.opcode < 0x08 → p.Short) : HeaderKept o (p.haveLength o) := by
  have hnext : ∀ {q : Parsing}, q.Begun o →
      HeaderKept o (q, .ok (if p.masked then .getMask else .getData)) := by
    intro q hq
    cases p.masked <;> exact hq
  unfold Parsing.haveLength
  dsimp only
  split
  · next hdata =>
      split
      · exact known_of_code (by decide)
      · next hfits =>
          refine hnext ⟨h.messageLength, ?_, ?_, h.fragmented, hcontrol⟩
          · show p.totalPayloadLength + p.payloadLength = _
            rw [if_pos hdata.2, h.total]
          · show o.maxPayload = 0 ∨ p.totalPayloadLength + p.payloadLength ≤ o.maxPayload
            omega
  · next hnone =>
      refine hnext ⟨h.messageLength, ?_, h.within, h.fragmented, hcontrol⟩
      rw [h.total]
      split
      · next hop =>
          have hzero : p.payloadLength = 0 := by
            by_contra hne
            exact hnone ⟨hne, hop⟩
          omega
      · rfl

theorem haveOpcode_kept {o : ReceiverOptions} {p : Parsing} (b₁ : UInt8) (h : p.Kept o)
    (hcontrol : ¬ p.opcode < 0x08 → p.Short) : HeaderKept o (p.haveOpcode o b₁) := by
  have hlong : ¬ p.payloadLength ≤ 125 → p.opcode < 0x08 := fun hlt => by
    by_contra hop
    exact hlt (hcontrol hop).2.1
  have hfragmented : (if !p.fin && p.fragmented = 0 then p.opcode else p.fragmented) < 0x08 := by
    split
    · next hmore =>
        by_contra hop
        rw [(hcontrol hop).1] at hmore
        cases hmore
    · exact h.fragmented
  unfold Parsing.haveOpcode
  dsimp only
  split
  · exact known_frame
  split
  · exact known_frame
  split
  · next h126 => exact ⟨⟨h.messageLength, h.total, h.within, hfragmented⟩, hlong (by omega)⟩
  split
  · next h127 => exact ⟨⟨h.messageLength, h.total, h.within, hfragmented⟩, hlong (by omega)⟩
  · exact haveLength_kept ⟨h.messageLength, h.total, h.within, hfragmented⟩ hcontrol

theorem info_kept {o : ReceiverOptions} {p : Parsing} (b₀ b₁ : UInt8) (h : p.Kept o) :
    HeaderKept o (p.info o b₀ b₁) := by
  unfold Parsing.info
  dsimp only
  split
  · exact known_frame
  split
  · exact known_frame
  split
  · split
    · exact known_frame
    · exact haveOpcode_kept b₁ ⟨h.messageLength, h.total, h.within, h.fragmented⟩
        fun hop => absurd h.fragmented hop
  split
  · next hdata =>
      split
      · exact known_frame
      · refine haveOpcode_kept b₁ ⟨h.messageLength, h.total, h.within, h.fragmented⟩
          fun hop => absurd ?_ hop
        dsimp only
        omega
  split
  · next hcontrol =>
      split
      · exact known_frame
      next hfin =>
      split
      · exact known_frame
      · next hshort =>
          refine haveOpcode_kept b₁ ⟨h.messageLength, h.total, h.within, h.fragmented⟩ fun _ => ?_
          unfold Parsing.Short
          dsimp only
          simp only [Bool.not_eq_true', Bool.not_eq_false] at hfin
          exact ⟨hfin, by omega, fun hop => by omega⟩
  · exact known_frame

theorem length16_kept {o : ReceiverOptions} {p : Parsing} (buf : Bytes) (h : p.Kept o)
    (hop : p.opcode < 0x08) : HeaderKept o (p.length16 o buf) :=
  haveLength_kept ⟨h.messageLength, h.total, h.within, h.fragmented⟩ fun hno => absurd hop hno

theorem length64_kept {o : ReceiverOptions} {p : Parsing} (buf : Bytes) (h : p.Kept o)
    (hop : p.opcode < 0x08) : HeaderKept o (p.length64 o buf) := by
  unfold Parsing.length64
  dsimp only
  split
  · exact known_of_code (by decide)
  · exact haveLength_kept ⟨h.messageLength, h.total, h.within, h.fragmented⟩
      fun hno => absurd hop hno

/-! ## Payloads -/

theorem dataMessage_kept {o : ReceiverOptions} {p : Parsing} (h : p.Kept o) :
    DataKept o (p.dataMessage o) := by
  have hfits : o.Fits p.fragments.flatten := by
    have hlength := h.within
    rw [h.total, h.messageLength] at hlength
    exact hlength
  have hdone : Parsing.Kept o { p with
      totalPayloadLength := 0
      messageLength := 0
      fragmented := 0
      fragments := [] } := ⟨rfl, rfl, Or.inr (Nat.zero_le _), Nat.succ_pos 7⟩
  unfold Parsing.dataMessage
  dsimp only
  split
  · exact ⟨fun e he => (by cases he), Or.inr h⟩
  rw [concat_ok h.messageLength.ge]
  dsimp only
  split
  · refine ⟨fun e he => ?_, Or.inr hdone⟩
    cases he
    exact ⟨hfits, fun hb => by cases hb⟩
  split
  · exact known_of_code (by decide)
  · next hcheck =>
      refine ⟨fun e he => ?_, Or.inr hdone⟩
      cases he
      exact ⟨hfits, fun _ => ReceiverOptions.text_iff.mpr hcheck⟩


theorem controlMessage_kept {o : ReceiverOptions} {p : Parsing} {data : Bytes}
    (hshort : p.Short) (hlen : data.length = p.payloadLength) (hkept : p.Kept o) :
    DataKept o (p, (p.controlMessage o data).map some) := by
  obtain ⟨-, hle, hclose⟩ := hshort
  unfold Parsing.controlMessage
  dsimp only
  split
  · next hop =>
      split
      · refine ⟨fun e he => ?_, Or.inl ⟨_, rfl, rfl⟩⟩
        cases he
        exact Or.inl ⟨rfl, rfl⟩
      split
      · exact known_frame
      next hvalid =>
      split
      · exact known_of_code (by decide)
      · next hcheck =>
          refine ⟨fun e he => ?_, Or.inl ⟨_, rfl, rfl⟩⟩
          cases he
          refine Or.inr ⟨by simpa using hvalid, ?_, ReceiverOptions.text_iff.mpr hcheck⟩
          rw [List.length_drop]
          omega
  · refine ⟨fun e he => ?_, Or.inr hkept⟩
    cases he
    split
    · exact hlen.trans_le hle
    · exact hlen.trans_le hle

theorem data_kept {o : ReceiverOptions} {p : Parsing} {buf : Bytes} (h : p.Begun o)
    (hlen : buf.length = p.payloadLength) : DataKept o (p.data o buf) := by
  unfold Parsing.data
  dsimp only
  generalize hgot : (if (p.masked && !p.mask.isZero) = true then applyMask buf p.mask else buf) =
    got
  have hlen : got.length = p.payloadLength := by
    rw [← hgot]
    split
    · exact List.length_mapIdx.trans hlen
    · exact hlen
  have htotal := h.total
  split
  · next hop =>
      have hcontrol : ¬ p.opcode < 0x08 := by omega
      rw [if_neg hcontrol] at htotal
      exact controlMessage_kept (h.control hcontrol) hlen
        ⟨h.messageLength, htotal, h.within, h.fragmented⟩
  next hop =>
  rw [if_pos (by omega)] at htotal
  split
  · next hempty =>
      rw [hempty] at hlen
      exact dataMessage_kept ⟨h.messageLength, htotal.trans (by rw [← hlen]; rfl), h.within,
        h.fragmented⟩
  · refine dataMessage_kept ⟨?_, rfl, h.within, h.fragmented⟩
    show p.totalPayloadLength = (p.fragments ++ [got]).flatten.length
    rw [htotal, h.messageLength, List.flatten_append, List.length_append, List.flatten_singleton,
      hlen]

/-! ## Whatever arrives -/

def Reading.Kept (o : ReceiverOptions) (s : Reading) : Prop := ∀ part ∈ s.part, s.parsing.At o part

theorem afterHeader_kept {o : ReceiverOptions} {r : Parsing × Except Failure ReceiverState}
    (h : HeaderKept o r) :
    (Reading.afterHeader r).1.Kept o ∧ ∀ e ∈ (Reading.afterHeader r).2, e.Sound o := by
  obtain ⟨p, f | state⟩ := r
  · refine ⟨fun part hpart => (by cases hpart), fun e he => ?_⟩
    rw [List.mem_singleton.mp he]
    exact h
  · refine ⟨fun part hpart => ?_, fun e he => (by cases he)⟩
    cases hpart
    exact h

theorem afterData_kept {o : ReceiverOptions} {r : Parsing × Except Failure (Option WsEvent)}
    (h : DataKept o r) :
    (Reading.afterData r).1.Kept o ∧ ∀ e ∈ (Reading.afterData r).2, e.Sound o := by
  obtain ⟨p, f | _ | event⟩ := r
  · refine ⟨fun part hpart => (by cases hpart), fun e he => ?_⟩
    rw [List.mem_singleton.mp he]
    exact h
  · refine ⟨fun part hpart => ?_, fun e he => (by cases he)⟩
    cases hpart
    rcases h.2 with ⟨e, he, -⟩ | hkept
    · cases he
    · exact hkept
  · refine ⟨fun part hpart => ?_, fun e he => ?_⟩
    · rcases h.2 with ⟨e, he, hlast⟩ | hkept
      · cases he
        change part ∈ (if event.isLast then none else some ReceiverState.getInfo) at hpart
        rw [if_pos hlast] at hpart
        cases hpart
      · change part ∈ (if event.isLast then none else some ReceiverState.getInfo) at hpart
        split at hpart
        · cases hpart
        · cases hpart
          exact hkept
    · rw [List.mem_singleton.mp he]
      exact h.1 event rfl

theorem next_kept {o : ReceiverOptions} {s : Reading} {buf : Bytes} (h : s.Kept o)
    (hneed : (reading o).need s = some buf.length) :
    ((reading o).next s buf).1.Kept o ∧ ∀ e ∈ ((reading o).next s buf).2, e.Sound o := by
  obtain ⟨part, p⟩ := s
  match part, hneed with
  | some .getInfo, _ => exact afterHeader_kept (info_kept _ _ (h _ rfl))
  | some .getPayloadLength16, _ =>
      obtain ⟨hkept, hop⟩ := h _ rfl
      exact afterHeader_kept (length16_kept buf hkept hop)
  | some .getPayloadLength64, _ =>
      obtain ⟨hkept, hop⟩ := h _ rfl
      exact afterHeader_kept (length64_kept buf hkept hop)
  | some .getMask, _ =>
      have hbegun : p.Begun o := h _ rfl
      exact afterHeader_kept ⟨hbegun.messageLength, hbegun.total, hbegun.within,
        hbegun.fragmented, hbegun.control⟩
  | some .getData, hneed => exact afterData_kept (data_kept (h _ rfl) (Option.some.inj hneed).symm)

theorem new_kept (o : ReceiverOptions) : Reading.new.Kept o := by
  intro part hpart
  cases hpart
  exact ⟨rfl, rfl, Or.inr (Nat.zero_le _), by decide⟩

theorem events_sound (o : ReceiverOptions) (stream : Bytes) :
    ∀ e ∈ events o stream, e.Sound o :=
  (Puller.run_invariant (fun _ _ => next_kept) (new_kept o) stream).2

/-- What is emitted begins as the events of a stream, and none follows its last one. -/
theorem sound_of_begins {o : ReceiverOptions} {stream : Bytes} {es : List WsEvent}
    (h : es <+: events o stream) :
    (∀ e ∈ es, e.Sound o) ∧
      ∀ before e after, es = before ++ e :: after → e.isLast = true → after = [] := by
  obtain ⟨rest, hrest⟩ := h
  refine ⟨fun e he => ?_, fun before e after hsplit hlast => ?_⟩
  · refine events_sound o stream e ?_
    rw [← hrest]
    exact List.mem_append_left rest he
  · rw [hsplit, List.append_assoc, List.cons_append] at hrest
    exact (List.append_eq_nil_iff.mp (Puller.out_last
      (fun s xs before e after => next_last) hrest.symm hlast)).1

/-- Whatever bytes arrive in whatever chunks, what is emitted up to the first failure is sound, and
nothing is emitted after a close frame; nor after a failure, if no chunk overtakes a microtask. -/
theorem emitted_sound (o : ReceiverOptions) (steps : List InputStep) (s : Inflow)
    (h : Machine.exec (Inflow.step o) .new steps = some s) :
    ((∀ e ∈ upToFailure s.emitted, e.Sound o) ∧
      ∀ before e after, upToFailure s.emitted = before ++ e :: after → e.isLast = true →
        after = []) ∧
    (Machine.Meets (Inflow.step o) Prompt .new steps →
      (∀ e ∈ s.emitted, e.Sound o) ∧
        ∀ before e after, s.emitted = before ++ e :: after → e.isLast = true → after = []) := by
  have hsound := sound_of_begins (inflow_reads h).emitted_begins
  refine ⟨hsound, fun hprompt => ?_⟩
  rw [(inflow_tidy h hprompt).emitted] at hsound
  exact hsound

/-- A text whose bytes are none, in two chunks, and a frame behind it. -/
theorem emitted_sound_refused :
    let steps : List InputStep :=
      [.data [0x81, 0x81, 0, 0], .data [0, 0, 0xFF, 0x89, 0x80, 0, 0, 0, 0]]
    ∃ s, Machine.exec (Inflow.step (.server none)) .new steps = some s ∧
      s.emitted = [.failure invalidUTF8] ∧
      (∀ e ∈ s.emitted, e.Sound (.server none)) ∧
      ∀ before e after, s.emitted = before ++ e :: after → e.isLast = true → after = [] := by
  intro steps
  have hemitted : (Machine.exec (Inflow.step (.server none)) .new steps).map Inflow.emitted =
      some [.failure invalidUTF8] := by decide +kernel
  obtain ⟨s, hs, hfailure⟩ := Option.map_eq_some_iff.mp hemitted
  have hfirst : (Inflow.step (.server none) .new (.data [0x81, 0x81, 0, 0])).map
      (fun t => t.input.receiver.deferred) = some none := by decide +kernel
  have hprompt : Machine.Meets (Inflow.step (.server none)) Prompt .new steps := by
    intro t ht
    rw [ht] at hfirst
    exact ⟨rfl, fun u hu => ⟨Option.some.inj hfirst, trivial⟩⟩
  exact ⟨s, hs, hfailure, (emitted_sound (.server none) steps s hs).2 hprompt⟩

end AsioServer.Ws
