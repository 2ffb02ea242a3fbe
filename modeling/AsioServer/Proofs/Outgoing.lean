import AsioServer.Proofs.SendQueue
import AsioServer.Proofs.WorkerFaults

/-!
# What a message sends

The other half of `process_ok`: the calls of `Send` a callback makes, and what
becomes of the send queues. A call that finds a full queue is dropped without a
word, so what a queue takes of the calls made to it (`Takes`) depends on how
long it is. `Outgoing` lists the calls of each callback, in order, with the
facts about the tables that led to them; `process_outgoing` puts both
together.
-/

namespace AsioServer

/-! ## Queues -/

/-- What a queue takes of the calls of `Send` made to it. -/
inductive Takes : List SendNode → List Sent → List SendNode → Prop where
  | nil {que : List SendNode} : Takes que [] que
  | full {que que' : List SendNode} {s : Sent} {sents : List Sent}
      (full : maxSendque < que.length) (rest : Takes que sents que') : Takes que (s :: sents) que'
  | queued {que que' : List SendNode} {s : Sent} {sents : List Sent} {node : SendNode}
      (room : que.length ≤ maxSendque)
      (build : SendNode.new (s.text ++ [0]) (short s.text.length) s.msgId = .ok node)
      (rest : Takes (que ++ [node]) sents que') : Takes que (s :: sents) que'

theorem Takes.append {que que₁ que₂ : List SendNode} {sents sents' : List Sent}
    (h₁ : Takes que sents que₁) (h₂ : Takes que₁ sents' que₂) :
    Takes que (sents ++ sents') que₂ := by
  induction h₁ with
  | nil => exact h₂
  | full full rest ih => exact .full full (ih h₂)
  | queued room build rest ih => exact .queued room build (ih h₂)

theorem Takes.none {que que' : List SendNode} (h : Takes que [] que') : que' = que := by
  cases h
  rfl

/-- A full queue takes nothing. -/
theorem Takes.of_full {que que' : List SendNode} {sents : List Sent} (h : Takes que sents que')
    (hfull : maxSendque < que.length) : que' = que := by
  induction h with
  | nil => rfl
  | full full rest ih => exact ih hfull
  | queued room build rest ih => omega

theorem Takes.length_le {que que' : List SendNode} {sents : List Sent}
    (h : Takes que sents que') : que'.length ≤ que.length + sents.length := by
  induction h with
  | nil => simp
  | full full rest ih => simp only [List.length_cons]; omega
  | queued room build rest ih =>
      simp only [List.length_append, List.length_cons, List.length_nil] at ih ⊢
      omega

/-- The nodes a queue took, behind those it had. -/
theorem Takes.nodes {que que' : List SendNode} {sents : List Sent} (h : Takes que sents que') :
    ∃ nodes, que' = que ++ nodes ∧ ∀ node ∈ nodes, ∃ s ∈ sents,
      SendNode.new (s.text ++ [0]) (short s.text.length) s.msgId = .ok node := by
  induction h with
  | nil => exact ⟨[], by simp, by simp⟩
  | full full rest ih =>
      obtain ⟨nodes, hque, hnodes⟩ := ih
      refine ⟨nodes, hque, fun node hnode => ?_⟩
      obtain ⟨s, hs, hnew⟩ := hnodes node hnode
      exact ⟨s, List.mem_cons_of_mem _ hs, hnew⟩
  | @queued _ _ s _ node room build rest ih =>
      obtain ⟨nodes, hque, hnodes⟩ := ih
      refine ⟨node :: nodes, by rw [hque, List.append_assoc]; rfl, fun n hn => ?_⟩
      rcases List.mem_cons.mp hn with rfl | hn
      · exact ⟨s, List.mem_cons_self, build⟩
      · obtain ⟨t, ht, hnew⟩ := hnodes n hn
        exact ⟨t, List.mem_cons_of_mem _ ht, hnew⟩

/-- A queue with room takes the first call made to it. -/
theorem Takes.ne_of_room {que que' : List SendNode} {s : Sent} {sents : List Sent}
    (h : Takes que (s :: sents) que') (hroom : que.length ≤ maxSendque) : que' ≠ que := by
  cases h with
  | full full rest => omega
  | queued room build rest =>
      obtain ⟨nodes, hque, -⟩ := rest.nodes
      intro heq
      rw [heq] at hque
      simpa using congrArg List.length hque

/-- Enough room for a number of calls. -/
def HasRoom (que : List SendNode) (calls : Nat) : Prop :=
  calls = 0 ∨ que.length + calls ≤ maxSendque + 1

/-- A queue takes all calls made to it exactly when it has room for them. -/
theorem Takes.length_eq_iff {que que' : List SendNode} {sents : List Sent}
    (h : Takes que sents que') :
    que'.length = que.length + sents.length ↔ HasRoom que sents.length := by
  unfold HasRoom
  induction h with
  | nil => simp
  | full full rest ih =>
      have hle := rest.length_le
      simp only [List.length_cons]
      omega
  | queued room build rest ih =>
      simp only [List.length_append, List.length_cons, List.length_nil] at ih ⊢
      omega

/-! ## Frames -/

/-- The frame of a call of `Send`. -/
def Sent.frame (s : Sent) : Bytes := encode (s.msgId, s.text)

/-- What waits to be written. -/
def CSession.frames (s : CSession) : List Bytes := s.sendQue.map SendNode.frame

theorem Sent.frame_eq {s : Sent} {node : SendNode} (hlen : s.text.length ≤ maxLength)
    (h : SendNode.new (s.text ++ [0]) (short s.text.length) s.msgId = .ok node) :
    node.frame = s.frame := by
  have hmax := maxLength_eq
  obtain ⟨node', hnew, hframe⟩ := send_frame s.text s.msgId (by unfold sendMax; omega)
  obtain rfl : node = node' := Except.ok.inj (h.symm.trans hnew)
  exact hframe

/-- Short texts are queued as their frames, if there is room for all. -/
theorem Takes.frames_eq_iff {que que' : List SendNode} {sents : List Sent}
    (hlen : ∀ s ∈ sents, s.text.length ≤ maxLength) (h : Takes que sents que') :
    que'.map SendNode.frame = que.map SendNode.frame ++ sents.map Sent.frame ↔
      HasRoom que sents.length := by
  rw [← h.length_eq_iff]
  constructor
  · intro hframes
    simpa using congrArg List.length hframes
  · intro hall
    induction h with
    | nil => simp
    | full full rest ih =>
        have hle := rest.length_le
        simp only [List.length_cons] at hall
        omega
    | @queued que que' s sents node room build rest ih =>
        have htail := ih (fun t ht => hlen t (List.mem_cons_of_mem _ ht)) (by
          simp only [List.length_append, List.length_cons, List.length_nil] at hall ⊢
          omega)
        rw [htail, List.map_append, List.map_singleton, List.map_cons, List.append_assoc,
          Sent.frame_eq (hlen s List.mem_cons_self) build]
        rfl

/-! ## Worlds -/

/-- The calls made between two states, and what the queues took of them. -/
structure Pushes (w w' : World) (sents : List Sent) : Prop where
  log : w'.sent = w.sent ++ sents
  takes : ∀ u, Takes (w.session u).sendQue (sents.filter fun s => s.session = u)
    (w'.session u).sendQue

theorem Pushes.refl (w : World) : Pushes w w [] := ⟨(List.append_nil _).symm, fun _ => .nil⟩

theorem Pushes.trans {w w₁ w₂ : World} {sents sents' : List Sent} (h₁ : Pushes w w₁ sents)
    (h₂ : Pushes w₁ w₂ sents') : Pushes w w₂ (sents ++ sents') := by
  refine ⟨by rw [h₂.log, h₁.log, List.append_assoc], fun u => ?_⟩
  rw [List.filter_append]
  exact (h₁.takes u).append (h₂.takes u)

/-- A session that no call is made to keeps its queue. -/
theorem Pushes.kept {w w' : World} {sents : List Sent} (h : Pushes w w' sents) {u : Uuid}
    (hu : ∀ s ∈ sents, s.session ≠ u) : (w'.session u).sendQue = (w.session u).sendQue := by
  have hnone : sents.filter (fun s => s.session = u) = [] :=
    List.filter_eq_nil_iff.mpr fun s hs => by simpa using hu s hs
  have htakes := h.takes u
  rw [hnone] at htakes
  exact htakes.none

theorem send_pushes {w w' : World} {target : Uuid} {text : Bytes} {msgId : Int}
    {r : Option Json} (h : w.send target text msgId r = .ok w') :
    Pushes w w' [⟨target, msgId, r, text⟩] := by
  obtain ⟨call, hcall, h⟩ := bind_eq_ok.mp h
  cases h
  refine ⟨rfl, fun u => ?_⟩
  show Takes _ _ (Function.update w.session target call.session u).sendQue
  by_cases hu : u = target
  · subst hu
    rw [Function.update_self, List.filter_cons_of_pos (by simp), List.filter_nil]
    rcases Nat.lt_or_ge maxSendque (w.session u).sendQue.length with hfull | hroom
    · rw [CSession.send, CSession.enqueue_full hfull] at hcall
      cases hcall
      exact .full hfull .nil
    · cases hnode : SendNode.new (text ++ [0]) (short text.length) msgId with
      | ok node =>
          rw [CSession.send, CSession.enqueue_ok hroom hnode] at hcall
          cases hcall
          exact .queued hroom hnode .nil
      | error f =>
          rw [CSession.send, CSession.enqueue_error hroom hnode] at hcall
          cases hcall
  · rw [Function.update_of_ne hu, List.filter_cons_of_neg (by simpa using fun heq => hu heq.symm),
      List.filter_nil]
    exact .nil

theorem reply_pushes {lib : JsonLib} {w w' : World} {session : Uuid} {msgId : Int} {r : Json}
    (h : w.reply lib session msgId r = .ok w') : Pushes w w' [.reply lib session msgId r] :=
  send_pushes h

/-! ## Chats -/

/-- A query that finds a row and reads its state as online. -/
structure ReadsOnline (o : Outcome) (db : Db) (toid : Int) (row : UserRow) : Prop where
  connect : o.connect = true
  execute : o.execute = true
  fetch : o.fetch = true
  find : db.users.find toid = some row
  id : toid ≠ -1
  state : fetchString 10 (o.stack 4) (some row.state) = ascii "online"

theorem ReadsOnline.queried {o : Outcome} {db : Db} {toid : Int} {row : UserRow}
    (h : ReadsOnline o db toid row) : queried o db toid = User.fetched o.stack row := by
  rw [AsioServer.queried, h.connect, h.execute, h.fetch, h.find]
  rfl

theorem ReadsOnline.unique {o : Outcome} {db : Db} {toid : Int} {row row' : UserRow}
    (h : ReadsOnline o db toid row) (h' : ReadsOnline o db toid row') : row = row' :=
  Option.some.inj (h.find.symm.trans h'.find)

/-- What the chat callback tests of the user it queried. -/
theorem readsOnline_iff {o : Outcome} {db : Db} {toid : Int} :
    (∃ row, ReadsOnline o db toid row) ↔
      (queried o db toid).id ≠ -1 ∧ (queried o db toid).state = ascii "online" := by
  constructor
  · rintro ⟨row, h⟩
    rw [h.queried]
    refine ⟨?_, h.state⟩
    show row.id ≠ -1
    rw [(Table.find_eq_some.mp h.find).2]
    exact h.id
  · rintro ⟨hid, hstate⟩
    obtain ⟨row, hrow, huser⟩ := queried_found hid
    have hcalls : (o.connect && o.execute && o.fetch) = true := by
      by_contra hno
      rw [queried, if_neg hno] at hid
      exact hid rfl
    simp only [Bool.and_eq_true] at hcalls
    rw [huser] at hid hstate
    refine ⟨row, hcalls.1.1, hcalls.1.2, hcalls.2, hrow, ?_, hstate⟩
    rw [← (Table.find_eq_some.mp hrow).2]
    exact hid

/-- The session a chat is forwarded to: the one under the text that the fetch
leaves of the uuid. -/
def recipient (o : Outcome) (server : CServer) (row : UserRow) : Option Uuid :=
  server.getSession (fetchString 50 (o.stack 5) row.uuid)

/-! ## Calls -/

section

variable (lib : JsonLib) (env : Nat → Outcome) (w : World) (session : Uuid) (msgId : Int)
  (msgData : Bytes)

/-- The styled form of the object that `HelloWordCallBack` sends back. -/
inductive HelloAnswer (text : Bytes) : Prop where
  | intro {data : Bytes} {root : Json} (field : (lib.parse msgData).2.field "data" = .ok data)
      (set : (lib.parse msgData).2.setMember (ascii "data")
        (.str (ascii "server has received msg, msg data is " ++ data)) = .ok root)
      (styled : text = lib.toStyledString root) : HelloAnswer text

/-- The calls of `Send` a message can lead to. -/
inductive Outgoing : List Sent → Prop where
  | silent (hello : findCallBack msgId ≠ some .helloWord)
      (chat : findCallBack msgId ≠ some .oneChat) : Outgoing []
  | plain {r : Json} (hello : findCallBack msgId ≠ some .helloWord)
      (chat : findCallBack msgId ≠ some .oneChat) (plain : r.plainObj = true) :
      Outgoing [.reply lib session msgId r]
  | hello {r : Json} (find : findCallBack msgId = some .helloWord)
      (answer : HelloAnswer lib msgData (lib.toStyledString r)) :
      Outgoing [.reply lib session msgId r]
  | refused {toid : Int} (find : findCallBack msgId = some .oneChat)
      (idField : (lib.parse msgData).2.idField "toid" = .ok toid)
      (offline : ¬ ∃ row, ReadsOnline (env 0) w.db toid row) :
      Outgoing [.reply lib session msgId (response codeOneChatFailed "msg" "one chat failed")]
  | unheard {toid : Int} {row : UserRow} (find : findCallBack msgId = some .oneChat)
      (idField : (lib.parse msgData).2.idField "toid" = .ok toid)
      (online : ReadsOnline (env 0) w.db toid row)
      (nobody : recipient (env 0) w.server row = none) :
      Outgoing [.reply lib session msgId (response codeOneChatSuccess "msg" "one chat success")]
  | forwarded {toid : Int} {row : UserRow} {toSession : Uuid}
      (find : findCallBack msgId = some .oneChat)
      (idField : (lib.parse msgData).2.idField "toid" = .ok toid)
      (online : ReadsOnline (env 0) w.db toid row)
      (somebody : recipient (env 0) w.server row = some toSession) :
      Outgoing [⟨toSession, msgId, none, msgData⟩,
        .reply lib session msgId (response codeOneChatSuccess "msg" "one chat success")]

variable {lib env w session msgId msgData}
variable {w' : World}

theorem registerCallBack_outgoing (hfind : findCallBack msgId = some .register)
    (h : registerCallBack lib env w session msgId msgData = .ok w') :
    ∃ sents, Pushes w w' sents ∧ Outgoing lib env w session msgId msgData sents := by
  obtain ⟨username, password, db', done, -, -, htrans, hreply⟩ := registerCallBack_inv h
  have hpushes := reply_pushes hreply
  exact ⟨_, ⟨hpushes.log, hpushes.takes⟩,
    .plain (by simp [hfind]) (by simp [hfind]) (registerResponse_plain htrans)⟩

/-- A reply that says the same whatever the request was, to a request that is
neither hello-word nor chat. -/
theorem fixed_outgoing {r : Json} (db : Db) {callBack : CallBack}
    (hfind : findCallBack msgId = some callBack)
    (hother : callBack ≠ .helloWord ∧ callBack ≠ .oneChat) (hr : r ∈ fixedResponses)
    (h : World.reply lib { w with db := db } session msgId r = .ok w') :
    ∃ sents, Pushes w w' sents ∧ Outgoing lib env w session msgId msgData sents := by
  have hpushes := reply_pushes h
  exact ⟨_, ⟨hpushes.log, hpushes.takes⟩, .plain (by simpa [hfind] using hother.1)
    (by simpa [hfind] using hother.2) (fixedResponses_plain r hr)⟩

theorem loginCallBack_outgoing (hfind : findCallBack msgId = some .login)
    (h : loginCallBack lib env w session msgId msgData = .ok w') :
    ∃ sents, Pushes w w' sents ∧ Outgoing lib env w session msgId msgData sents := by
  obtain ⟨id, username, password, -, -, -, hcases⟩ := loginCallBack_inv h
  rcases hcases with ⟨-, hreply⟩ | ⟨-, db', done, -, hreply⟩
  · exact fixed_outgoing w.db hfind (by simp) (by simp [fixedResponses]) hreply
  · exact fixed_outgoing db' hfind (by simp) (by simp [fixedResponses]) hreply

theorem addFriendCallBack_outgoing (hfind : findCallBack msgId = some .addFriend)
    (h : addFriendCallBack lib env w session msgId msgData = .ok w') :
    ∃ sents, Pushes w w' sents ∧ Outgoing lib env w session msgId msgData sents := by
  obtain ⟨userid, friendid, db', done, -, -, -, hreply⟩ := addFriendCallBack_inv h
  exact fixed_outgoing db' hfind (by simp) (by cases done <;> simp [fixedResponses]) hreply

theorem groupCallBack_outgoing {callBack : CallBack} {code : Int} {text : String}
    (hfind : findCallBack msgId = some callBack)
    (hother : callBack ≠ .helloWord ∧ callBack ≠ .oneChat)
    (hfixed : response code "data" text ∈ fixedResponses)
    (h : groupCallBack lib w session msgId msgData code text = .ok w') :
    ∃ sents, Pushes w w' sents ∧ Outgoing lib env w session msgId msgData sents := by
  exact fixed_outgoing w.db hfind hother hfixed (groupCallBack_inv h).2

theorem helloWordCallBack_outgoing (hfind : findCallBack msgId = some .helloWord)
    (h : helloWordCallBack lib w session msgId msgData = .ok w') :
    ∃ sents, Pushes w w' sents ∧ Outgoing lib env w session msgId msgData sents := by
  obtain ⟨data, root, hdata, hroot, hreply⟩ := helloWordCallBack_inv h
  exact ⟨_, reply_pushes hreply, .hello hfind (.intro hdata hroot rfl)⟩

theorem oneChatCallBack_outgoing (hfind : findCallBack msgId = some .oneChat)
    (h : oneChatCallBack lib env w session msgId msgData = .ok w') :
    ∃ sents, Pushes w w' sents ∧ Outgoing lib env w session msgId msgData sents := by
  obtain ⟨toid, htoid, hcases⟩ := oneChatCallBack_inv h
  rcases hcases with ⟨hoffline, hreply⟩ | ⟨hfound, hcases⟩
  · exact ⟨_, reply_pushes hreply,
      .refused hfind htoid fun honline => hoffline (readsOnline_iff.mp honline)⟩
  · obtain ⟨row, hrow⟩ := readsOnline_iff.mpr hfound
    have hrecipient : w.server.getSession (queried (env 0) w.db toid).uuid =
        recipient (env 0) w.server row := by
      rw [hrow.queried]
      rfl
    rw [hrecipient] at hcases
    rcases hcases with ⟨hto, hreply⟩ | ⟨toSession, w₁, hto, hforward, hreply⟩
    · exact ⟨_, reply_pushes hreply, .unheard hfind htoid hrow hto⟩
    · exact ⟨_, (send_pushes hforward).trans (reply_pushes hreply),
        .forwarded hfind htoid hrow hto⟩

/-- The calls of a message whose callback returned, and what the queues took of
them. -/
theorem process_outgoing (h : w.process lib env session msgId msgData = .ok w') :
    ∃ sents, Pushes w w' sents ∧ Outgoing lib env w session msgId msgData sents := by
  rw [World.process] at h
  cases hfind : findCallBack msgId with
  | none =>
      rw [hfind] at h
      cases h
      exact ⟨[], .refl w, .silent (by simp [hfind]) (by simp [hfind])⟩
  | some callBack =>
      rw [hfind] at h
      cases callBack with
      | register => exact registerCallBack_outgoing hfind h
      | login => exact loginCallBack_outgoing hfind h
      | logout =>
          obtain ⟨id, db', done, -, -, rfl⟩ := logoutCallBack_inv h
          exact ⟨[], ⟨(Pushes.refl w).log, (Pushes.refl w).takes⟩,
            .silent (by simp [hfind]) (by simp [hfind])⟩
      | addFriend => exact addFriendCallBack_outgoing hfind h
      | helloWord => exact helloWordCallBack_outgoing hfind h
      | oneChat => exact oneChatCallBack_outgoing hfind h
      | joinGroup =>
          exact groupCallBack_outgoing hfind (by simp) (by simp [fixedResponses]) h
      | createGroup =>
          exact groupCallBack_outgoing hfind (by simp) (by simp [fixedResponses]) h
      | groupChat =>
          obtain rfl := groupChatCallBack_ok h
          exact ⟨[], .refl w', .silent (by simp [hfind]) (by simp [hfind])⟩

end

end AsioServer
