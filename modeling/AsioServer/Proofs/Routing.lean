import AsioServer.Proofs.Delivered
import AsioServer.Proofs.Logins

/-!
# Where a chat goes

The history of registrations, logins and logouts is kept beside the pipeline, as
beside the worker, and read off the same messages and replies. In every state
reached it says where a chat goes: to the session of the last login to the
account it is for, if nothing else has happened to that account since and the
session is in the map, and to nobody otherwise. What the sender is told depends
on the history alone.
-/

namespace AsioServer

/-! ## The history -/

/-- What a step adds to the history. -/
def pipelineMark (lib : JsonLib) (p p' : Pipeline) : PipelineEvent → Option Mark
  | .dispatch env =>
      match p.msgQue with
      | [] => none
      | n :: _ =>
          match n.recvnode.message with
          | .ok (msgId, msgData) =>
              mark lib ⟨env, n.session, msgId, msgData⟩ (p.world.replies p'.world)
          | .error _ => none
  | _ => none

theorem pipelineMark_dispatch {lib : JsonLib} {p p' : Pipeline} {env : Nat → Outcome}
    {n : LogicNode} {rest : List LogicNode} {msg : Message} (hfront : p.msgQue = n :: rest)
    (hmsg : n.recvnode.message = .ok msg) :
    pipelineMark lib p p' (.dispatch env) =
      mark lib ⟨env, n.session, msg.1, msg.2⟩ (p.world.replies p'.world) := by
  simp [pipelineMark, hfront, hmsg]

/-- The pipeline with its history. -/
def markedStep (lib : JsonLib) (s : Pipeline × List Mark) (e : PipelineEvent) :
    Option (Pipeline × List Mark) :=
  (pipelineStep lib s.1 e).map fun p => (p, s.2 ++ (pipelineMark lib s.1 p e).toList)

/-- MySQL succeeds whenever a message is processed. -/
def MysqlSucceeds : PipelineEvent → Prop
  | .dispatch env => ∀ i, (env i).Succeeds
  | _ => True

/-- The ids of the rows are those an AUTO_INCREMENT column gives. -/
def PositiveIds (db : Db) : Prop := ∀ id, (db.users.find id).isSome → 0 < id

structure Marked (s : Pipeline × List Mark) : Prop where
  inOrder : InOrder s.1
  recorded : Recorded (s.1.world, s.2)
  positive : PositiveIds s.1.world.db

theorem Processed.positive {lib : JsonLib} {env : Nat → Outcome} {db db' : Db} {session : Uuid}
    {msgId : Int} {msgData : Bytes} {sent : List Sent}
    (h : Processed lib env db session msgId msgData db' sent) (hdb : PositiveIds db) :
    PositiveIds db' := by
  intro id hid
  have hrow := h.row id
  generalize hnow : db'.users.find id = now at hrow hid
  generalize hold : db.users.find id = old at hrow
  cases hrow with
  | kept => exact hdb id (by rw [hold]; exact hid)
  | online => exact hdb id (by rw [hold]; rfl)
  | offline => exact hdb id (by rw [hold]; rfl)
  | added find state uuid =>
      cases h with
      | other register => exact absurd find register
      | loginRefused found | login found | logout found | addFriend found =>
          rw [find] at found
          cases found
      | register found name pass insert =>
          rcases insertPrepare_db insert with rfl | hins
          · rw [hold] at hnow
            cases hnow
          · obtain ⟨row, hrowId, -, -, -, -, hrows, hpos, -⟩ := insertUser_eq_some hins
            rw [Table.find_insert hrows, hrowId] at hnow
            split at hnow
            · next heq => rw [heq]; exact hpos
            · rw [hold] at hnow; cases hnow

/-- The history is about the tables alone. -/
theorem Recorded.of_db {w w' : World} {marks : List Mark} (h : Recorded (w, marks))
    (hdb : w'.db = w.db) : Recorded (w', marks) := by
  intro hnul
  obtain ⟨accounts, hrun, hstands⟩ := h hnul
  refine ⟨accounts, hrun, ?_⟩
  rw [hdb]
  exact hstands

/-- A handler leaves the tables and the history. -/
theorem Marked.handled {lib : JsonLib} {p p' : Pipeline} {marks : List Mark} {e : PipelineEvent}
    (h : Marked (p, marks)) (hstep : PipelineStep lib p e p') (hdb : p'.world.db = p.world.db)
    (hmark : pipelineMark lib p p' e = none) :
    Marked (p', marks ++ (pipelineMark lib p p' e).toList) where
  inOrder := pipelineStep_inOrder h.inOrder hstep
  recorded := by
    rw [hmark, Option.toList_none, List.append_nil]
    exact h.recorded.of_db hdb
  positive := by
    show PositiveIds p'.world.db
    rw [hdb]
    exact h.positive

theorem markedStep_marked {lib : JsonLib} {s s' : Pipeline × List Mark} {e : PipelineEvent}
    (h : Marked s) (hdb : MysqlSucceeds e) (hstep : markedStep lib s e = some s') : Marked s' := by
  obtain ⟨p, marks⟩ := s
  obtain ⟨p', hp, rfl⟩ := Option.map_eq_some_iff.mp hstep
  have hinv := pipelineStep_inv hp
  show Marked (p', marks ++ (pipelineMark lib p p' e).toList)
  cases hinv with
  | start idle fresh => exact h.handled (.start idle fresh) rfl rfl
  | enter accepting => exact h.handled (.enter accepting) rfl rfl
  | delivery reading chunked returns defined =>
      exact h.handled (.delivery reading chunked returns defined) rfl rfl
  | readError reading => exact h.handled (.readError reading) rfl rfl
  | written writing returns => exact h.handled (.written writing returns) rfl rfl
  | writeError writing => exact h.handled (.writeError writing) rfl rfl
  | @dispatch env n rest msgQue world front dealt =>
      obtain ⟨-, ⟨msgId, msgData⟩, hmsg, hproc⟩ := h.inOrder.dealt front dealt
      have hjob : jobStep lib p.world ⟨env, n.session, msgId, msgData⟩ = some world :=
        jobStep_eq_some.mpr hproc
      obtain ⟨-, sent, -, hprocessed⟩ := process_ok hproc
      refine ⟨pipelineStep_inOrder h.inOrder (.dispatch front dealt), ?_,
        hprocessed.positive h.positive⟩
      have hhistory : historyStep lib (p.world, marks) ⟨env, n.session, msgId, msgData⟩ =
          some (world, marks ++
            (mark lib ⟨env, n.session, msgId, msgData⟩ (p.world.replies world)).toList) := by
        rw [historyStep, hjob]
        rfl
      have hrecorded := historyStep_recorded h.recorded (by exact hdb) hhistory
      show Recorded (world, marks ++ (pipelineMark lib p _ (.dispatch env)).toList)
      rw [pipelineMark_dispatch front hmsg]
      exact hrecorded

theorem start_marked (collation : Bytes → Bytes) : Marked (.start (.empty collation), []) :=
  ⟨start_inOrder _, start_recorded rfl, fun _ h => by cases h⟩

/-! ## Chats -/

/-- The calls a chat leads to, by who holds the account it is for. -/
def chatSends (lib : JsonLib) (session : Uuid) (server : CServer) (payload : Bytes) :
    Option Uuid → List Sent
  | none =>
      [.reply lib session msgOneChat (response codeOneChatFailed "msg" "one chat failed")]
  | some holder =>
      (if holder ∈ server.sessions then [⟨holder, msgOneChat, none, payload⟩] else []) ++
        [.reply lib session msgOneChat (response codeOneChatSuccess "msg" "one chat success")]

/-- A row that stands for a free account is not read as online. -/
theorem RowAccount.not_online {o : Outcome} {db : Db} {toid : Int} {row : UserRow}
    {a : Accounts.Account (Bytes × Bytes) Uuid} (h : RowAccount (some row) (some a))
    (hfree : a.owner = .none) : ¬ ReadsOnline o db toid row := by
  intro honline
  cases h with
  | offline name pass state uuid =>
      have hread := honline.state
      rw [state, fetchString_some (by decide) (by decide)] at hread
      exact absurd hread (by decide)
  | online name pass state uuid => cases hfree

/-- Where the calls of a chat go, on tables that stand for the accounts. -/
theorem Outgoing.routed {lib : JsonLib} {env : Nat → Outcome} {w : World} {session : Uuid}
    {payload : Bytes} {sents : List Sent} {toid : Int}
    {accounts : Int → Option (Accounts.Account (Bytes × Bytes) Uuid)}
    (h : Outgoing lib env w session msgOneChat payload sents) (hstands : Stands w.db accounts)
    (hpositive : PositiveIds w.db) (henv : (env 0).Succeeds)
    (htoid : (lib.parse payload).2.idField "toid" = .ok toid) :
    sents =
      chatSends lib session w.server payload ((accounts toid).bind Accounts.Account.owner) := by
  have hfind : findCallBack msgOneChat = some .oneChat := rfl
  have hacc := hstands toid
  -- an online row is the one of an account with an owner
  have honline : ∀ row, ReadsOnline (env 0) w.db toid row → ∃ owner,
      (accounts toid).bind Accounts.Account.owner = some owner ∧ row.uuid = some owner.text := by
    intro row hrow
    rw [hrow.find] at hacc
    cases hrowAcc : accounts toid with
    | none => rw [hrowAcc] at hacc; cases hacc
    | some a =>
        rw [hrowAcc] at hacc
        cases howner : a.owner with
        | none => exact absurd hrow (hacc.not_online howner)
        | some owner =>
            cases hacc with
            | offline => cases howner
            | online name pass state uuid => exact ⟨_, rfl, uuid⟩
  cases h with
  | silent hello chat => exact absurd hfind chat
  | plain hello chat plain => exact absurd hfind chat
  | hello find => cases find
  | @refused toid' find idField offline =>
      obtain rfl := Except.ok.inj (idField.symm.trans htoid)
      have hnobody : (accounts toid').bind Accounts.Account.owner = none := by
        by_contra hheld
        generalize hrow : w.db.users.find toid' = found at hacc
        generalize accounts toid' = account at hacc hheld
        cases hacc with
        | none => exact hheld rfl
        | offline => exact hheld rfl
        | online name pass state uuid =>
            have hpos : 0 < toid' := hpositive toid' (by rw [hrow]; rfl)
            refine offline ⟨_, henv.connect, henv.execute, henv.fetch, hrow, by omega, ?_⟩
            rw [state, fetchString_some (by decide) (by decide)]
      rw [hnobody]
      rfl
  | @unheard toid' row find idField online nobody =>
      obtain rfl := Except.ok.inj (idField.symm.trans htoid)
      obtain ⟨owner, howner, huuid⟩ := honline row online
      rw [recipient_of_uuid huuid] at nobody
      have hout : owner ∉ w.server.sessions := fun hmem => by simp [hmem] at nobody
      rw [howner, chatSends, if_neg hout, List.nil_append]
  | @forwarded toid' row toSession find idField online somebody =>
      obtain rfl := Except.ok.inj (idField.symm.trans htoid)
      obtain ⟨owner, howner, huuid⟩ := honline row online
      rw [recipient_of_uuid huuid] at somebody
      split at somebody
      · next hmem =>
          obtain rfl := Option.some.inj somebody
          rw [howner, chatSends, if_pos hmem]
          rfl
      · cases somebody

/-- In every run a chat goes to the session that holds the account it is for, if that
session is in the map, and to nobody else; and whether the sender is told of a success depends
only on whether some session holds the account. -/
theorem chat_routed (lib : JsonLib) (collation : Bytes → Bytes) (events : List PipelineEvent)
    (hdb : ∀ e ∈ events, MysqlSucceeds e) (p : Pipeline) (marks : List Mark)
    (hrun : Machine.exec (markedStep lib) (.start (.empty collation), []) events =
      some (p, marks))
    (hnul : NulFree marks) (env : Nat → Outcome) (henv : (env 0).Succeeds) (n : LogicNode)
    (hfront : p.msgQue.head? = some n) (payload : Bytes)
    (hmsg : n.recvnode.message = .ok (msgOneChat, payload)) (toid : Int)
    (htoid : (lib.parse payload).2.idField "toid" = .ok toid) (p' : Pipeline)
    (hstep : pipelineStep lib p (.dispatch env) = some p') :
    p'.world.sent = p.world.sent ++
      chatSends lib n.session p.world.server payload (Accounts.holder toid marks) := by
  have hmarked : Marked (p, marks) :=
    Machine.exec_invariant_of (I := Marked) (L := MysqlSucceeds)
      (fun _ _ _ h hdb hstep => markedStep_marked h hdb hstep) (start_marked collation) hdb hrun
  obtain ⟨accounts, hhistory, hstands⟩ := hmarked.recorded hnul
  cases pipelineStep_inv hstep with
  | @dispatch _ first rest msgQue world front dealt =>
      obtain rfl : first = n := by
        rw [front] at hfront
        exact Option.some.inj hfront
      obtain ⟨-, msg, hmsg', hproc⟩ := hmarked.inOrder.dealt front dealt
      obtain rfl := Except.ok.inj (hmsg.symm.trans hmsg')
      obtain ⟨sents, hpushes, hout⟩ := process_outgoing hproc
      rw [Accounts.holder_eq hhistory, ← hout.routed hstands hmarked.positive henv htoid]
      exact hpushes.log

/-- The texts of `scene`, and a chat for the user 1. -/
def routingScene : JsonLib := .flat
  [(registerText, .obj [(ascii "password", .str (ascii "pw")),
      (ascii "username", .str (ascii "amy"))]),
    (loginText, .obj [(ascii "id", .int 1), (ascii "password", .str (ascii "pw")),
      (ascii "username", .str (ascii "amy"))]),
    (chatText, .obj [(ascii "toid", .int 1)])]

/-- One session registers a user and logs in, and another sends that user a chat. -/
def chatted : List PipelineEvent :=
  [.start .first, .enter, .start .second, .enter,
    .delivery .first (encode (msgRegister, registerText)),
    .delivery .first (encode (msgLogin, loginText)),
    .delivery .second (encode (msgOneChat, chatText)),
    .dispatch fun _ => .good 1, .dispatch fun _ => .good 1]

theorem chat_routed_chatted :
    ∃ s p', Machine.exec (markedStep routingScene) (.start (.empty id), []) chatted = some s ∧
      pipelineStep routingScene s.1 (.dispatch fun _ => .good 1) = some p' ∧
      p'.world.sent = s.1.world.sent ++
        [⟨.first, msgOneChat, none, chatText⟩,
          .reply routingScene .second msgOneChat
            (response codeOneChatSuccess "msg" "one chat success")] := by
  obtain ⟨s, p', n, hrun, hstep, hfront, hsession, hmsg, hserver, hmarks⟩ : ∃ s p' n,
      Machine.exec (markedStep routingScene) (.start (.empty id), []) chatted = some s ∧
      pipelineStep routingScene s.1 (.dispatch fun _ => .good 1) = some p' ∧
      s.1.msgQue.head? = some n ∧ n.session = .second ∧
      n.recvnode.message = .ok (msgOneChat, chatText) ∧
      .first ∈ s.1.world.server.sessions ∧ s.2 = twoLoginsMarks :=
    ⟨_, _, _, rfl, rfl, rfl, rfl, by decide +kernel, by decide, rfl⟩
  obtain ⟨p, marks⟩ := s
  have hgood : ∀ e ∈ chatted, MysqlSucceeds e := by
    simp [chatted, MysqlSucceeds, good_succeeds]
  have hnul : NulFree marks := by
    rw [show marks = twoLoginsMarks from hmarks]
    intro id username password hmem
    simp only [twoLoginsMarks, List.mem_cons, List.not_mem_nil, or_false, reduceCtorEq,
      Accounts.Event.registered.injEq, Prod.mk.injEq] at hmem
    rw [hmem.2.1, hmem.2.2]
    decide
  have hsent := chat_routed routingScene id chatted hgood p marks hrun hnul (fun _ => .good 1)
    (good_succeeds 1) n hfront chatText hmsg 1 rfl p' hstep
  have hholder : Accounts.holder 1 marks = some .first := by
    rw [show marks = twoLoginsMarks from hmarks]
    rfl
  rw [hholder, chatSends, if_pos hserver, hsession] at hsent
  exact ⟨(p, marks), p', hrun, hstep, hsent⟩

end AsioServer
