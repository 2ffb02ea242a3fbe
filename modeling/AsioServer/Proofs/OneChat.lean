import AsioServer.Proofs.Replies
import AsioServer.Proofs.ReplySize

/-!
# One-to-one chat

A chat is to be answered by what happened to it: a success if its payload went
to the queue of the session that the row of the user it is for names, a failure
and nothing else otherwise. The callback looks at the state of the row and at
nothing that comes after it: it replies with success also when the uuid names
no session, and `Send` drops a payload, or the reply itself, without telling
it. `chat_reported_iff` says when the answer is the right one.
-/

namespace AsioServer

/-- The calls made between two states are these, and each of them queued its
frame, once, and nothing else was queued. -/
structure Delivers (w w' : World) (sents : List Sent) : Prop where
  calls : w.replies w' = sents
  queued : ∀ u, (w'.session u).frames =
    (w.session u).frames ++ (sents.filter fun s => s.session = u).map Sent.frame

/-- A chat for a user is answered once, by what happened to it. -/
inductive ChatReported (w w' : World) (session : Uuid) (msgId : Int) (msgData : Bytes)
    (toid : Int) : Prop where
  | success {reply : Sent} {row : UserRow} {toSession : Uuid} (sender : reply.session = session)
      (code : reply.code = some codeOneChatSuccess) (find : w.db.users.find toid = some row)
      (uuid : row.uuid = some toSession.text)
      (delivers : Delivers w w' [⟨toSession, msgId, none, msgData⟩, reply])
  | failed {reply : Sent} (sender : reply.session = session)
      (code : reply.code = some codeOneChatFailed) (delivers : Delivers w w' [reply])

/-- When it is: a user who is read as online is to have a session in the map
under the uuid of the row, and the queues room for what is sent. -/
structure ChatDelivers (o : Outcome) (w : World) (session : Uuid) (toid : Int) : Prop where
  online : ∀ row, ReadsOnline o w.db toid row →
    ∃ toSession ∈ w.server.sessions, row.uuid = some toSession.text ∧
      (w.session toSession).sendQue.length ≤ maxSendque ∧
      (w.session session).sendQue.length + (if toSession = session then 1 else 0) ≤ maxSendque
  offline : (∀ row, ¬ ReadsOnline o w.db toid row) →
    (w.session session).sendQue.length ≤ maxSendque

/-! ## Recipients -/

theorem getSession_eq_some {server : CServer} {text : Bytes} {u : Uuid} :
    server.getSession text = some u ↔ text = u.text ∧ u ∈ server.sessions := by
  unfold CServer.getSession
  constructor
  · intro h
    split at h
    · split at h
      · next hmem =>
          cases h
          exact ⟨rfl, hmem⟩
      · cases h
    · cases h
  · rintro ⟨rfl, hmem⟩
    rw [dif_pos ⟨u.length_eq, u.nulFree⟩, if_pos hmem]

/-- The uuid of a session is read from its row as it was written. -/
theorem recipient_of_uuid {o : Outcome} {server : CServer} {row : UserRow} {u : Uuid}
    (huuid : row.uuid = some u.text) :
    recipient o server row = if u ∈ server.sessions then some u else none := by
  have hlen := u.length_eq
  rw [recipient, huuid, fetchString_some (by omega) u.nulFree]
  unfold CServer.getSession
  rw [dif_pos ⟨u.length_eq, u.nulFree⟩]

/-! ## Room -/

/-- Short calls are all delivered exactly when there is room for them. -/
theorem Pushes.delivers_iff {w w' : World} {sents : List Sent} (h : Pushes w w' sents)
    (hlen : ∀ s ∈ sents, s.text.length ≤ maxLength) :
    Delivers w w' sents ↔
      ∀ u, HasRoom (w.session u).sendQue (sents.filter fun s => s.session = u).length := by
  have hqueue : ∀ u, (w'.session u).frames = (w.session u).frames ++
      (sents.filter fun s => s.session = u).map Sent.frame ↔
        HasRoom (w.session u).sendQue (sents.filter fun s => s.session = u).length := fun u =>
    (h.takes u).frames_eq_iff fun s hs => hlen s (List.mem_filter.mp hs).1
  exact ⟨fun hd u => (hqueue u).mp (hd.queued u),
    fun hroom => ⟨replies_eq h.log, fun u => (hqueue u).mpr (hroom u)⟩⟩

/-- Other calls than those made are not delivered. -/
theorem Pushes.delivers_eq {w w' : World} {sents sents' : List Sent} (h : Pushes w w' sents)
    (hd : Delivers w w' sents') : sents = sents' :=
  (replies_eq h.log).symm.trans hd.calls

theorem hasRoom_one {w : World} {s : Sent} :
    (∀ u, HasRoom (w.session u).sendQue ([s].filter fun s => s.session = u).length) ↔
      (w.session s.session).sendQue.length ≤ maxSendque := by
  unfold HasRoom
  constructor
  · intro h
    have hself := h s.session
    simp at hself
    omega
  · intro h u
    by_cases hu : s.session = u
    · subst hu
      simp
      omega
    · simp [hu]

/-- A payload, and a reply behind it. -/
theorem hasRoom_two {w : World} {s t : Sent} :
    (∀ u, HasRoom (w.session u).sendQue ([s, t].filter fun s => s.session = u).length) ↔
      (w.session s.session).sendQue.length ≤ maxSendque ∧
        (w.session t.session).sendQue.length + (if s.session = t.session then 1 else 0) ≤
          maxSendque := by
  unfold HasRoom
  by_cases hst : s.session = t.session
  · rw [if_pos hst, hst]
    constructor
    · intro h
      have hself := h t.session
      simp [hst] at hself
      omega
    · rintro ⟨-, h⟩ u
      by_cases hu : t.session = u
      · subst hu
        simp [hst]
        omega
      · simp [hst, hu]
  · rw [if_neg hst]
    constructor
    · intro h
      have hs := h s.session
      have ht := h t.session
      simp [hst, Ne.symm hst] at hs ht
      omega
    · rintro ⟨hs, ht⟩ u
      by_cases hsu : s.session = u
      · subst hsu
        have hts : ¬ t.session = s.session := fun heq => hst heq.symm
        simp [hts]
        omega
      · by_cases htu : t.session = u
        · subst htu
          simp [hst]
          omega
        · simp [hsu, htu]

/-! ## Chats -/

section

variable {lib : JsonLib} {env : Nat → Outcome} {w w' : World} {session : Uuid} {msgId : Int}
  {msgData : Bytes} {toid : Int} {row : UserRow}

/-- A chat for a user who is not read as online. -/
theorem refused_reported_iff (hlib : lib.StylesPlain)
    (hpushes : Pushes w w'
      [.reply lib session msgId (response codeOneChatFailed "msg" "one chat failed")])
    (hoffline : ¬ ∃ row, ReadsOnline (env 0) w.db toid row) :
    ChatReported w w' session msgId msgData toid ↔ ChatDelivers (env 0) w session toid := by
  have hdelivers := (hpushes.delivers_iff (by
    simpa using text_fixed hlib (by simp [fixedResponses]))).trans hasRoom_one
  have hcode := code_response lib session msgId codeOneChatFailed "msg" "one chat failed"
  constructor
  · intro hrep
    refine ⟨fun row hrow => absurd ⟨row, hrow⟩ hoffline, fun _ => ?_⟩
    cases hrep with
    | success _ _ _ _ delivers => cases hpushes.delivers_eq delivers
    | failed _ _ delivers =>
        cases hpushes.delivers_eq delivers
        exact hdelivers.mp delivers
  · intro hcond
    exact .failed rfl hcode
      (hdelivers.mpr (hcond.offline fun row hrow => hoffline ⟨row, hrow⟩))

/-- A chat for a user who is read as online and whose uuid names no session: a
success is reported that did not take place. -/
theorem unheard_reported_iff
    (hpushes : Pushes w w'
      [.reply lib session msgId (response codeOneChatSuccess "msg" "one chat success")])
    (honline : ReadsOnline (env 0) w.db toid row)
    (hnobody : recipient (env 0) w.server row = none) :
    ChatReported w w' session msgId msgData toid ↔ ChatDelivers (env 0) w session toid := by
  have hcode := code_response lib session msgId codeOneChatSuccess "msg" "one chat success"
  refine iff_of_false (fun hrep => ?_) fun hcond => ?_
  · cases hrep with
    | success _ _ _ _ delivers => cases hpushes.delivers_eq delivers
    | failed _ code delivers =>
        cases hpushes.delivers_eq delivers
        rw [hcode] at code
        exact absurd code (by decide)
  · obtain ⟨toSession, hmem, huuid, -⟩ := hcond.online row honline
    rw [recipient_of_uuid huuid, if_pos hmem] at hnobody
    cases hnobody

/-- A chat that is forwarded. -/
theorem forwarded_reported_iff (hlib : lib.StylesPlain) (hlen : msgData.length ≤ maxLength)
    {toSession : Uuid}
    (hpushes : Pushes w w' [⟨toSession, msgId, none, msgData⟩,
      .reply lib session msgId (response codeOneChatSuccess "msg" "one chat success")])
    (honline : ReadsOnline (env 0) w.db toid row)
    (hsomebody : recipient (env 0) w.server row = some toSession) :
    ChatReported w w' session msgId msgData toid ↔ ChatDelivers (env 0) w session toid := by
  have hreply : (Sent.reply lib session msgId
      (response codeOneChatSuccess "msg" "one chat success")).text.length ≤ maxLength :=
    text_fixed hlib (by simp [fixedResponses])
  have hdelivers := (hpushes.delivers_iff (by simpa using ⟨hlen, hreply⟩)).trans hasRoom_two
  have hcode := code_response lib session msgId codeOneChatSuccess "msg" "one chat success"
  have hmem := (getSession_eq_some.mp hsomebody).2
  constructor
  · intro hrep
    refine ⟨fun row' hrow' => ?_, fun hoffline => absurd honline (hoffline row)⟩
    obtain rfl := honline.unique hrow'
    cases hrep with
    | success _ _ find uuid delivers =>
        cases hpushes.delivers_eq delivers
        obtain rfl := Option.some.inj (honline.find.symm.trans find)
        exact ⟨toSession, hmem, uuid, hdelivers.mp delivers⟩
    | failed _ _ delivers => cases hpushes.delivers_eq delivers
  · intro hcond
    obtain ⟨toSession', hmem', huuid, hroom⟩ := hcond.online row honline
    rw [recipient_of_uuid huuid, if_pos hmem'] at hsomebody
    obtain rfl := Option.some.inj hsomebody
    exact .success rfl hcode honline.find huuid (hdelivers.mpr hroom)

end

/-- Every chat for a numeric id returns, and it is answered by what happened to
it exactly when the user is not read as online or has a session under the uuid
of the row, and there is room for what is sent. -/
theorem chat_reported_iff (lib : JsonLib) (hlib : lib.StylesPlain) (env : Nat → Outcome)
    (w : World) (session : Uuid) (msgId : Int) (msgData : Bytes) (toid : Int)
    (hfind : findCallBack msgId = some .oneChat) (hlen : msgData.length ≤ maxLength)
    (htoid : (lib.parse msgData).2.idField "toid" = .ok toid) :
    (∃ w', w.process lib env session msgId msgData = .ok w' ∧
      ChatReported w w' session msgId msgData toid) ↔ ChatDelivers (env 0) w session toid := by
  obtain ⟨w', hw'⟩ : ∃ w', w.process lib env session msgId msgData = .ok w' := by
    rw [process_isOk hlib hlen]
    intro callBack hcallBack
    obtain rfl := Option.some.inj (hfind.symm.trans hcallBack)
    exact ⟨toid, htoid⟩
  have hreported : ChatReported w w' session msgId msgData toid ↔
      ChatDelivers (env 0) w session toid := by
    obtain ⟨sents, hpushes, hout⟩ := process_outgoing hw'
    cases hout with
    | silent hello chat | plain hello chat => exact absurd hfind chat
    | hello find =>
        rw [hfind] at find
        cases find
    | refused find idField offline =>
        obtain rfl := Except.ok.inj (htoid.symm.trans idField)
        exact refused_reported_iff hlib hpushes offline
    | unheard find idField online nobody =>
        obtain rfl := Except.ok.inj (htoid.symm.trans idField)
        exact unheard_reported_iff hpushes online nobody
    | forwarded find idField online somebody =>
        obtain rfl := Except.ok.inj (htoid.symm.trans idField)
        exact forwarded_reported_iff hlib hlen hpushes online somebody
  constructor
  · rintro ⟨w'', hw'', hrep⟩
    obtain rfl := Except.ok.inj (hw'.symm.trans hw'')
    exact hreported.mp hrep
  · exact fun hcond => ⟨w', hw', hreported.mpr hcond⟩

/-- A chat for user 1. -/
def chatText : Bytes := ascii "\x7b\"toid\":1\x7d"

def chatScene : JsonLib := .flat [(chatText, .obj [(ascii "toid", .int 1)])]

/-- The one user is offline. -/
theorem chat_reported_iff_offline :
    (∃ w', (World.start (.single amy)).process chatScene (fun _ => .good 1) .first msgOneChat
        chatText = .ok w' ∧
      ChatReported (.start (.single amy)) w' .first msgOneChat chatText 1) ↔
      ChatDelivers (.good 1) (.start (.single amy)) .first 1 :=
  chat_reported_iff chatScene (flat_stylesPlain _) (fun _ => .good 1) (.start (.single amy)) .first
    msgOneChat chatText 1 rfl (by decide) rfl

/-- The user of a session that is gone. -/
def amyGone : UserRow :=
  { amy with state := ascii "online", uuid := some (Uuid.second).text }

/-- A chat for her is reported as a success. -/
theorem chat_not_reported :
    ¬ ∀ (lib : JsonLib) (env : Nat → Outcome) (w : World) (session : Uuid) (msgId : Int)
      (msgData : Bytes) (toid : Int), lib.StylesPlain → findCallBack msgId = some .oneChat →
      msgData.length ≤ maxLength → (lib.parse msgData).2.idField "toid" = .ok toid →
      ∃ w', w.process lib env session msgId msgData = .ok w' ∧
        ChatReported w w' session msgId msgData toid := by
  intro hall
  obtain ⟨w', hw', hrep⟩ := hall chatScene (fun _ => .good 1) (.start (.single amyGone)) .first
    msgOneChat chatText 1 (flat_stylesPlain _) rfl (by decide) rfl
  obtain ⟨w'', hw'', hsent⟩ : ∃ w'', (World.start (.single amyGone)).process chatScene
      (fun _ => .good 1) .first msgOneChat chatText = .ok w'' ∧
        w''.sent = (World.start (.single amyGone)).sent ++ [.reply chatScene .first msgOneChat
          (response codeOneChatSuccess "msg" "one chat success")] := ⟨_, rfl, rfl⟩
  obtain rfl := Except.ok.inj (hw'.symm.trans hw'')
  have hcalls := replies_eq hsent
  cases hrep with
  | success _ _ _ _ delivers => cases hcalls.symm.trans delivers.calls
  | failed _ code delivers =>
      cases hcalls.symm.trans delivers.calls
      rw [code_response] at code
      exact absurd code (by decide)

end AsioServer
