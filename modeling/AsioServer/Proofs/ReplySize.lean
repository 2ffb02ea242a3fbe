import AsioServer.Proofs.Outgoing

/-!
# The size of what is sent

A client reads a frame into a buffer of `maxLength` bytes without looking at the
length. The server takes payloads of at most that size and forwards a chat as
it is, and the responses it makes up itself are short. `HelloWordCallBack` is
the one callback that sends client data back longer than it came in, so whether
a message makes the server queue a frame over the limit is a question about its
answer alone (`frames_fit_iff`).
-/

namespace AsioServer

/-- What was queued between two states fits the buffer of a client. -/
def FramesFit (w w' : World) : Prop :=
  ∀ u, ∃ nodes, (w'.session u).sendQue = (w.session u).sendQue ++ nodes ∧
    ∀ node ∈ nodes, node.totalLen ≤ headTotalLen + maxLength

/-- An answer to hello-word is dropped, or is no longer than a payload may be. -/
def HelloFits (lib : JsonLib) (w : World) (session : Uuid) (msgId : Int) (msgData : Bytes) :
    Prop :=
  findCallBack msgId = some .helloWord → ∀ text, HelloAnswer lib msgData text →
    maxSendque < (w.session session).sendQue.length ∨ short text.length ≤ maxLength

/-- The size of a node is that of its header and its payload. -/
theorem SendNode.new_total {msg : Bytes} {msgId : Int} {node : SendNode}
    (h : SendNode.new (msg ++ [0]) (short msg.length) msgId = .ok node) :
    node.totalLen = short msg.length + headTotalLen := by
  have hbounds := short_bounds msg.length
  obtain ⟨h₀, hmax, hmsg⟩ := SendNode.new_inv h hbounds.1 hbounds.2
  obtain ⟨node', hnew, -, htotal, -⟩ := SendNode.new_ok (msg ++ [0]) msgId h₀ hmax hmsg
  obtain rfl : node = node' := Except.ok.inj (h.symm.trans hnew)
  exact htotal

/-- Calls with short texts queue short frames. -/
theorem Pushes.fit {w w' : World} {sents : List Sent} (h : Pushes w w' sents)
    (hlen : ∀ s ∈ sents, s.text.length ≤ maxLength) : FramesFit w w' := by
  intro u
  obtain ⟨nodes, hque, hnodes⟩ := (h.takes u).nodes
  refine ⟨nodes, hque, fun node hnode => ?_⟩
  obtain ⟨s, hs, hnew⟩ := hnodes node hnode
  have hs := hlen s (List.mem_filter.mp hs).1
  have hmax := maxLength_eq
  have hshort : short s.text.length = s.text.length := short_eq (by omega) (by omega)
  rw [SendNode.new_total hnew, hshort]
  omega

/-- A reply fits exactly when it is dropped or its length, as a short, does. -/
theorem Pushes.reply_fit_iff {lib : JsonLib} {w w' : World} {session : Uuid} {msgId : Int}
    {r : Json} (h : Pushes w w' [.reply lib session msgId r]) :
    FramesFit w w' ↔ maxSendque < (w.session session).sendQue.length ∨
      short (lib.toStyledString r).length ≤ maxLength := by
  have hself := h.takes session
  rw [List.filter_cons_of_pos (by simp [Sent.reply]), List.filter_nil] at hself
  have hothers : ∀ u, u ≠ session → (w'.session u).sendQue = (w.session u).sendQue := by
    intro u hu
    refine h.kept fun s hs heq => hu ?_
    rw [List.mem_singleton.mp hs] at heq
    exact heq.symm
  have hiff : FramesFit w w' ↔ ∃ nodes,
      (w'.session session).sendQue = (w.session session).sendQue ++ nodes ∧
        ∀ node ∈ nodes, node.totalLen ≤ headTotalLen + maxLength := by
    refine ⟨fun hfit => hfit session, fun hnodes u => ?_⟩
    by_cases hu : u = session
    · rw [hu]
      exact hnodes
    · exact ⟨[], by rw [hothers u hu, List.append_nil], by simp⟩
  rw [hiff]
  generalize (w'.session session).sendQue = que' at hself
  cases hself with
  | full full rest =>
      rw [rest.none]
      exact iff_of_true ⟨[], by simp, by simp⟩ (Or.inl full)
  | @queued _ _ _ _ node room build rest =>
      have htotal : node.totalLen = short (lib.toStyledString r).length + headTotalLen :=
        SendNode.new_total build
      rw [rest.none]
      constructor
      · rintro ⟨nodes, hque, hnodes⟩
        obtain rfl := List.append_cancel_left hque
        have hnode := hnodes node List.mem_cons_self
        rw [htotal] at hnode
        exact Or.inr (by omega)
      · rintro (full | hshort)
        · exact absurd full (by omega)
        · refine ⟨[node], rfl, fun n hn => ?_⟩
          rw [List.mem_singleton.mp hn, htotal]
          omega

theorem text_plain {lib : JsonLib} (hlib : lib.StylesPlain) {session : Uuid} {msgId : Int}
    {r : Json} (hr : r.plainObj = true) :
    (Sent.reply lib session msgId r).text.length ≤ maxLength :=
  (hlib r hr).trans (by decide)

theorem text_fixed {lib : JsonLib} (hlib : lib.StylesPlain) {session : Uuid} {msgId : Int}
    {r : Json} (hr : r ∈ fixedResponses) :
    (Sent.reply lib session msgId r).text.length ≤ maxLength :=
  text_plain hlib (fixedResponses_plain r hr)

/-- There is one answer to hello-word. -/
theorem HelloAnswer.unique {lib : JsonLib} {msgData text text' : Bytes}
    (h : HelloAnswer lib msgData text) (h' : HelloAnswer lib msgData text') : text = text' := by
  obtain ⟨hdata, hroot, rfl⟩ := h
  obtain ⟨hdata', hroot', rfl⟩ := h'
  obtain rfl := Except.ok.inj (hdata.symm.trans hdata')
  obtain rfl := Except.ok.inj (hroot.symm.trans hroot')
  rfl

/-- A payload with a text in it, and the library that reads it. -/
def dataText (data : Bytes) : Bytes := ascii "\x7b\"data\":\"" ++ data ++ ascii "\"\x7d"

def dataScene (data : Bytes) : JsonLib :=
  .flat [(dataText data, .obj [(ascii "data", .str data)])]

theorem length_dataText (data : Bytes) : (dataText data).length = data.length + 11 := by
  simp only [dataText, List.length_append, length_ascii]
  show 9 + data.length + 2 = _
  omega

theorem dataScene_parse (data : Bytes) :
    ((dataScene data).parse (dataText data)).2 = .obj [(ascii "data", .str data)] :=
  flat_parse _ _

theorem dataScene_answer {data text : Bytes}
    (h : HelloAnswer (dataScene data) (dataText data) text) : text.length = data.length + 54 := by
  obtain ⟨hdata, hroot, rfl⟩ := h
  rw [dataScene_parse] at hdata hroot
  have hfield : (Json.obj [(ascii "data", .str data)]).field "data" = .ok data := rfl
  obtain rfl := Except.ok.inj (hfield.symm.trans hdata)
  obtain rfl := Except.ok.inj hroot
  show (styledFlat (.obj [(ascii "data",
    .str (ascii "server has received msg, msg data is " ++ data))])).length = _
  simp only [styledFlat, List.map_singleton, List.intercalate_singleton, flatMember, flatValue,
    List.length_append, length_ascii]
  show 2 + (2 + 4 + 4 + (1 + (37 + data.length) + 1)) + 3 = _
  omega

/-- What a message that can be received makes the server queue fits the buffer
of a client, on whatever session, exactly when the answer to a hello-word is
dropped or is not too long. -/
theorem frames_fit_iff (lib : JsonLib) (hlib : lib.StylesPlain) (env : Nat → Outcome)
    (w w' : World) (session : Uuid) (msgId : Int) (msgData : Bytes)
    (hlen : msgData.length ≤ maxLength)
    (h : w.process lib env session msgId msgData = .ok w') :
    FramesFit w w' ↔ HelloFits lib w session msgId msgData := by
  obtain ⟨sents, hpushes, hout⟩ := process_outgoing h
  have hother : findCallBack msgId ≠ some .helloWord →
      (∀ s ∈ sents, s.text.length ≤ maxLength) →
      (FramesFit w w' ↔ HelloFits lib w session msgId msgData) := fun hfind hshort =>
    iff_of_true (hpushes.fit hshort) fun hello => absurd hello hfind
  cases hout with
  | silent hello chat => exact hother hello (by simp)
  | plain hello chat plain => exact hother hello (by simpa using text_plain hlib plain)
  | refused find | unheard find =>
      exact hother (by simp [find]) (by simpa using text_fixed hlib (by simp [fixedResponses]))
  | forwarded find =>
      have hreply : (Sent.reply lib session msgId
          (response codeOneChatSuccess "msg" "one chat success")).text.length ≤ maxLength :=
        text_fixed hlib (by simp [fixedResponses])
      exact hother (by simp [find]) (by simpa using ⟨hlen, hreply⟩)
  | @hello r find answer =>
      rw [hpushes.reply_fit_iff]
      constructor
      · intro hfit _ text htext
        rw [htext.unique answer]
        exact hfit
      · exact fun hfits => hfits find _ answer

/-- A hello-word of two letters is answered. -/
theorem frames_fit_iff_hi :
    ∃ w', (World.start (.empty id)).process (dataScene (ascii "hi")) (fun _ => .good 1) .first
        msgHelloWord (dataText (ascii "hi")) = .ok w' ∧
      (w'.session .first).sendQue.length = 1 ∧ FramesFit (.start (.empty id)) w' := by
  obtain ⟨w', hw', hone⟩ : ∃ w', (World.start (.empty id)).process (dataScene (ascii "hi"))
      (fun _ => .good 1) .first msgHelloWord (dataText (ascii "hi")) = .ok w' ∧
      (w'.session .first).sendQue.length = 1 := ⟨_, rfl, rfl⟩
  refine ⟨w', hw', hone, (frames_fit_iff (dataScene (ascii "hi")) (flat_stylesPlain _)
    (fun _ => .good 1) (.start (.empty id)) w' .first msgHelloWord (dataText (ascii "hi"))
    (by decide) hw').mpr fun _ text hanswer => Or.inr ?_⟩
  rw [dataScene_answer hanswer]
  decide

/-! ## Long answers -/

/-- A library that keeps text makes a long answer of a long text. -/
theorem HelloAnswer.length_ge {lib : JsonLib} (hkeeps : lib.KeepsText) {msgData text data : Bytes}
    {members : List (Bytes × Json)} (h : HelloAnswer lib msgData text)
    (hparse : (lib.parse msgData).2 = .obj members)
    (hmember : members.lookup (ascii "data") = some (.str data)) (hplain : plainText data = true) :
    37 + data.length ≤ text.length := by
  obtain ⟨hdata, hroot, rfl⟩ := h
  rw [hparse] at hdata hroot
  have hfield : (Json.obj members).field "data" = .ok data := by
    show ((members.lookup (ascii "data")).getD .null).asString = .ok data
    rw [hmember]
    rfl
  obtain rfl := Except.ok.inj (hfield.symm.trans hdata)
  obtain rfl := Except.ok.inj hroot
  have hfront : plainText (ascii "server has received msg, msg data is ") = true := by decide
  have hwhole : plainText (ascii "server has received msg, msg data is " ++ data) = true := by
    rw [plainText, List.all_append, Bool.and_eq_true]
    exact ⟨hfront, hplain⟩
  have hinfix := hkeeps _ (ascii "data") _
    (List.mem_append_right (members.filter fun m => m.1 != ascii "data")
      (List.mem_singleton_self _)) hwhole
  have hle := hinfix.length_le
  rw [List.length_append] at hle
  exact hle

/-- So every hello-word with a plain text of more than 2011 bytes is answered by
a frame that is too long, if it is answered at all. -/
theorem long_not_fit {lib : JsonLib} (hkeeps : lib.KeepsText)
    {env : Nat → Outcome} {w w' : World} {session : Uuid} {msgId : Int} {msgData text data : Bytes}
    {members : List (Bytes × Json)} (h : w.process lib env session msgId msgData = .ok w')
    (hfind : findCallBack msgId = some .helloWord)
    (hroom : (w.session session).sendQue.length ≤ maxSendque)
    (hanswer : HelloAnswer lib msgData text) (hmax : text.length ≤ sendMax)
    (hparse : (lib.parse msgData).2 = .obj members)
    (hmember : members.lookup (ascii "data") = some (.str data)) (hplain : plainText data = true)
    (hlong : 2011 < data.length) : ¬ FramesFit w w' := by
  have hge := hanswer.length_ge hkeeps hparse hmember hplain
  have hshort : short text.length = text.length := by
    unfold sendMax at hmax
    exact short_eq (by omega) (by omega)
  intro hfit
  obtain ⟨sents, hpushes, hout⟩ := process_outgoing h
  cases hout with
  | silent hello | plain hello => exact hello hfind
  | refused find | unheard find | forwarded find =>
      rw [hfind] at find
      cases find
  | hello find answer =>
      rcases hpushes.reply_fit_iff.mp hfit with hfull | hfits
      · omega
      · rw [answer.unique hanswer, hshort, maxLength_eq] at hfits
        omega

/-- A text of 2030 letters. -/
def longData : Bytes := List.replicate 2030 97

/-- The payload is within the limit, and the answer is not. -/
theorem frames_not_fit :
    ¬ ∀ (lib : JsonLib) (env : Nat → Outcome) (w w' : World) (session : Uuid) (msgId : Int)
      (msgData : Bytes), lib.StylesPlain → lib.KeepsText → msgData.length ≤ maxLength →
      w.process lib env session msgId msgData = .ok w' → FramesFit w w' := by
  intro hall
  have hlong : longData.length = 2030 := List.length_replicate
  have hplain : plainText longData = true := by
    rw [plainText, List.all_eq_true]
    intro c hc
    rw [List.eq_of_mem_replicate hc]
    decide
  generalize longData = data at hlong hplain
  have hlen : (dataText data).length ≤ maxLength := by
    rw [length_dataText, hlong]
    decide
  obtain ⟨text, hanswer⟩ : ∃ text, HelloAnswer (dataScene data) (dataText data) text :=
    ⟨_, .intro (by rw [dataScene_parse]; rfl) (by rw [dataScene_parse]; rfl) rfl⟩
  have htext := dataScene_answer hanswer
  have hmax : (text.length : Int) ≤ sendMax := by
    unfold sendMax
    omega
  obtain ⟨w', hw'⟩ : ∃ w', (World.start (.empty id)).process (dataScene data)
      (fun _ => .good 1) .first msgHelloWord (dataText data) = .ok w' := by
    have hsurvives : Survives (dataScene data) (fun _ => .good 1) (.start (.empty id)) .first
        (dataText data) .helloWord := by
      refine ⟨?_, fun _ _ hdata hroot => ?_⟩
      · rw [dataScene_parse]
        rfl
      · rw [HelloAnswer.unique (.intro hdata hroot rfl) hanswer]
        refine Or.inr ?_
        rw [short_eq (by omega) (by omega)]
        exact ⟨by omega, hmax⟩
    exact helloWordCallBack_isOk.mpr hsurvives
  exact long_not_fit (flat_keepsText _) hw' rfl (by decide) hanswer hmax (dataScene_parse data) rfl
    hplain (by omega) (hall (dataScene data) (fun _ => .good 1) (.start (.empty id)) w' .first
      msgHelloWord (dataText data) (flat_stylesPlain _) (flat_keepsText _) hlen hw')

end AsioServer
