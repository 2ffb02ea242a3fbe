import Mathlib.Data.List.Forall2
import AsioServer.Ref.Tcp
import AsioServer.Proofs.Codec

/-!
# `TcpWrite` and `TcpRead` undo each other

Both loops move a part of what is left at a time and stop when nothing is left,
so a loop that returns `true` has moved exactly as many bytes as it was asked
for, however the socket cut them. A whole message is then its length word and
its bytes, and messages follow each other without a gap.
-/

namespace AsioServer

/-! ## The length word -/

theorem beWord_digits (a b c d : UInt8) :
    beWord a b c d % 256 = d.toNat ∧ beWord a b c d / 256 % 256 = c.toNat ∧
      beWord a b c d / 65536 % 256 = b.toNat ∧ beWord a b c d / 16777216 = a.toNat := by
  have ha := a.toNat_lt
  have hb := b.toNat_lt
  have hc := c.toNat_lt
  have hd := d.toNat_lt
  unfold beWord
  omega

theorem beWord_emod (a b c d : UInt8) :
    ((beWord a b c d : Int) % 4294967296).toNat = beWord a b c d := by
  have hlt := beWord_lt a b c d
  omega

theorem exists_beWord {n : Nat} (h : n < 4294967296) : ∃ a b c d, beWord a b c d = n := by
  refine ⟨.ofNat (n / 16777216), .ofNat (n / 65536), .ofNat (n / 256), .ofNat n, ?_⟩
  unfold beWord
  simp only [UInt8.toNat_ofNat']
  omega

theorem length_storeInt (x : Int) : (storeInt x).length = 4 := rfl

theorem ntohl_int (x : Int) : ntohl (int x) = ntohl x := by
  have hmod : int x % 4294967296 = x % 4294967296 := Int.bmod_emod
  rw [ntohl, ntohl, hmod]

theorem ntohl_beWord (a b c d : UInt8) : ntohl (beWord a b c d) = beWord d c b a := by
  obtain ⟨hd, hc, hb, ha⟩ := beWord_digits a b c d
  rw [ntohl, beWord_emod]
  simp only [hd, hc, hb, ha]
  unfold beWord
  omega

theorem storeInt_htonl (a b c d : UInt8) :
    storeInt (int (htonl (beWord a b c d))) = [a, b, c, d] := by
  have hmod : int (beWord d c b a) % 4294967296 = (beWord d c b a : Int) % 4294967296 :=
    Int.bmod_emod
  obtain ⟨ha, hb, hc, hd⟩ := beWord_digits d c b a
  rw [htonl, ntohl_beWord, storeInt, hmod, beWord_emod]
  simp only [ha, hb, hc, hd, UInt8.ofNat_toNat]

/-! ## `Readn` -/

theorem Cells.overwrite_nil (cells : Cells) (off : Nat) : cells.overwrite off [] = cells := by
  rw [overwrite, List.map_nil, List.append_nil]
  exact List.take_append_drop off cells

theorem Cells.overwrite_append {cells : Cells} {off : Nat} {src src' : Bytes}
    (h : off ≤ cells.length) :
    (cells.overwrite off src).overwrite (off + src.length) src' =
      cells.overwrite off (src ++ src') := by
  have hfront : (cells.take off ++ src.map some).length = off + src.length := by
    rw [List.length_append, List.length_take, List.length_map, Nat.min_eq_left h]
  have htake : (cells.overwrite off src).take (off + src.length) =
      cells.take off ++ src.map some := by
    rw [overwrite, ← hfront, List.take_left]
  have hdrop : (cells.overwrite off src).drop (off + src.length + src'.length) =
      cells.drop (off + (src ++ src').length) := by
    rw [overwrite, ← List.drop_drop, ← hfront, List.drop_left, List.drop_drop, hfront,
      List.length_append, Nat.add_assoc]
  rw [overwrite, htake, hdrop, overwrite, List.map_append, List.append_assoc (cells.take off)]

/-- The bytes that come in before a call of `recv` fails. -/
def Sock.arriving (s : Sock) : Bytes := (s.inbox.takeWhile fun chunk => !chunk.isEmpty).flatten

/-- What a socket is after `got` has been received from it. -/
structure Sock.Took (s : Sock) (got : Bytes) (s' : Sock) : Prop where
  arriving : s.arriving = got ++ s'.arriving
  stream : s.inbox.flatten = got ++ s'.inbox.flatten
  whole : (∀ chunk ∈ s.inbox, chunk ≠ []) → ∀ chunk ∈ s'.inbox, chunk ≠ []

theorem Sock.Took.refl (s : Sock) : s.Took [] s := ⟨rfl, rfl, id⟩

theorem Sock.Took.trans {s s' s'' : Sock} {got got' : Bytes} (h : s.Took got s')
    (h' : s'.Took got' s'') : s.Took (got ++ got') s'' where
  arriving := by rw [h.arriving, h'.arriving, List.append_assoc]
  stream := by rw [h.stream, h'.stream, List.append_assoc]
  whole hall := h'.whole (h.whole hall)

theorem arriving_cons {s : Sock} {chunk : Bytes} {inbox : List Bytes}
    (hs : s.inbox = chunk :: inbox) (hne : chunk ≠ []) :
    s.arriving = chunk ++ (inbox.takeWhile fun chunk => !chunk.isEmpty).flatten := by
  have hfull : (!chunk.isEmpty) = true := by
    rw [List.isEmpty_eq_false_iff.mpr hne]
    rfl
  rw [Sock.arriving, hs,
    List.takeWhile_cons_of_pos (p := fun chunk : Bytes => !chunk.isEmpty) hfull,
    List.flatten_cons]

theorem recv_none {s : Sock} {n : Nat} (hn : 0 < n) (h : (s.recv n).1.length = 0) :
    s.arriving = [] := by
  rw [List.length_eq_zero_iff] at h
  unfold Sock.recv at h
  split at h
  · next hs =>
      rw [Sock.arriving, hs]
      rfl
  · next chunk inbox hs =>
      have hchunk : chunk = [] := (List.take_eq_nil_iff.mp h).resolve_left (by omega)
      rw [Sock.arriving, hs, hchunk]
      rfl

theorem recv_took {s : Sock} {n : Nat} (h : (s.recv n).1.length ≠ 0) :
    (s.recv n).1.length ≤ n ∧ s.Took (s.recv n).1 (s.recv n).2 := by
  unfold Sock.recv at h ⊢
  split at h
  · exact absurd rfl h
  · next chunk inbox hs =>
      have hne : chunk ≠ [] := fun hnil => h (by rw [hnil, List.take_nil]; rfl)
      refine ⟨List.length_take_le n chunk, ?_⟩
      by_cases hle : chunk.length ≤ n
      · simp only [if_pos hle, List.take_of_length_le hle]
        refine ⟨arriving_cons hs hne, ?_, ?_⟩
        · rw [hs, List.flatten_cons]
        · rw [hs]
          exact fun hall => (List.forall_mem_cons.mp hall).2
      · have hdrop : chunk.drop n ≠ [] := fun hnil => hle (List.drop_eq_nil_iff.mp hnil)
        simp only [if_neg hle]
        refine ⟨?_, ?_, ?_⟩
        · rw [arriving_cons hs hne, arriving_cons rfl hdrop, ← List.append_assoc,
            List.take_append_drop]
        · rw [hs, List.flatten_cons, List.flatten_cons, ← List.append_assoc,
            List.take_append_drop]
        · rw [hs]
          exact fun hall => List.forall_mem_cons.mpr ⟨hdrop, (List.forall_mem_cons.mp hall).2⟩

theorem readnLoop_done {s : Sock} {buffer : Cells} {idx : Nat} {nLeft : Int} (h : nLeft ≤ 0) :
    readnLoop s buffer idx nLeft = .ok ⟨true, buffer, s⟩ := by
  rw [readnLoop, dif_neg (by omega)]

/-- A loop that returns `true` has put as many bytes into the buffer as were left. -/
theorem readnLoop_inv {s : Sock} {buffer : Cells} {idx : Nat} {nLeft : Int} {r : Readn}
    (h : readnLoop s buffer idx nLeft = .ok r) (hret : r.ret = true) (hleft : 0 ≤ nLeft)
    (hidx : idx ≤ buffer.length) :
    ∃ got, (got.length : Int) = nLeft ∧ s.Took got r.sock ∧
      r.buffer = buffer.overwrite idx got := by
  fun_induction readnLoop s buffer idx nLeft with
  | case1 s buffer idx nLeft hpos nread hzero =>
      cases h
      cases hret
  | case2 s buffer idx nLeft hpos nread hread hfit ih =>
      obtain ⟨hle, htook⟩ := recv_took hread
      obtain ⟨got, hgot, hrest, hbuffer⟩ := ih h (by omega)
        (by rw [Cells.length_overwrite hfit]; exact hfit)
      refine ⟨_ ++ got, ?_, htook.trans hrest, ?_⟩
      · rw [List.length_append]
        omega
      · rw [hbuffer, Cells.overwrite_append (by omega)]
  | case3 => cases h
  | case4 s buffer idx nLeft hdone =>
      cases h
      exact ⟨[], by rw [List.length_nil]; omega, Sock.Took.refl s, (Cells.overwrite_nil _ _).symm⟩

/-- If enough bytes arrive and the buffer holds them, the loop returns `true`. -/
theorem readnLoop_ok {s : Sock} {buffer : Cells} {idx : Nat} {nLeft : Int}
    (harrive : nLeft ≤ s.arriving.length) (hfit : idx + nLeft ≤ buffer.length) :
    ∃ r, readnLoop s buffer idx nLeft = .ok r ∧ r.ret = true := by
  fun_induction readnLoop s buffer idx nLeft with
  | case1 s buffer idx nLeft hpos nread hzero =>
      rw [recv_none (by omega) hzero, List.length_nil] at harrive
      omega
  | case2 s buffer idx nLeft hpos nread hread hfit' ih =>
      obtain ⟨hle, htook⟩ := recv_took hread
      rw [htook.arriving, List.length_append] at harrive
      exact ih (by omega) (by rw [Cells.length_overwrite hfit']; omega)
  | case3 s buffer idx nLeft hpos nread hread hfull =>
      obtain ⟨hle, -⟩ := recv_took hread
      omega
  | case4 s buffer idx nLeft hdone => exact ⟨_, rfl, rfl⟩

theorem Cells.overwrite_zero (cells : Cells) (src : Bytes) :
    cells.overwrite 0 src = src.map some ++ cells.drop src.length := by
  rw [overwrite, List.take_zero, List.nil_append, Nat.zero_add]

theorem readn_inv {s : Sock} {buffer : Cells} {n : Nat} {r : Readn} (hn : n < 2147483648)
    (h : readn s buffer n = .ok r) (hret : r.ret = true) :
    ∃ got, got.length = n ∧ s.Took got r.sock ∧ r.buffer = got.map some ++ buffer.drop n := by
  have hint : int n = n := int_eq (by omega) (by omega)
  rw [readn, hint] at h
  obtain ⟨got, hgot, htook, hbuffer⟩ := readnLoop_inv h hret (by omega) (by omega)
  have hlen : got.length = n := Int.ofNat.inj hgot
  rw [Cells.overwrite_zero, hlen] at hbuffer
  exact ⟨got, hlen, htook, hbuffer⟩

theorem readn_ok {s : Sock} {buffer : Cells} {n : Nat} (hn : n < 2147483648)
    (harrive : n ≤ s.arriving.length) (hfit : n ≤ buffer.length) :
    ∃ r got, readn s buffer n = .ok r ∧ r.ret = true ∧ got.length = n ∧ s.Took got r.sock ∧
      r.buffer = got.map some ++ buffer.drop n := by
  have hint : int n = n := int_eq (by omega) (by omega)
  have hloop : ∃ r, readn s buffer n = .ok r ∧ r.ret = true := by
    rw [readn, hint]
    exact readnLoop_ok (by omega) (by omega)
  obtain ⟨r, hr, hret⟩ := hloop
  obtain ⟨got, hgot, htook, hbuffer⟩ := readn_inv hn hr hret
  exact ⟨r, got, hr, hret, hgot, htook, hbuffer⟩

/-! ## `TcpRead` -/

/-- The call gets as far as the first `recv`. -/
def Polled (sockfd : Int) (s : Sock) (itimeout : Int) : Prop :=
  sockfd ≠ -1 ∧ ¬ (0 < itimeout ∧ s.poll (int (itimeout * 1000)) ≤ 0) ∧
    ¬ (itimeout = -1 ∧ s.poll 0 ≤ 0)

/-- Once the length word is in, the call is the `Readn` of what it says. -/
theorem tcpRead_header {sockfd : Int} {s : Sock} (buffer : Cells) (ibuflen : Int) {itimeout : Int}
    (hpoll : Polled sockfd s itimeout) {a b c d : UInt8} {rest : Bytes}
    (harrive : s.arriving = a :: b :: c :: d :: rest) :
    ∃ s', s.Took [a, b, c, d] s' ∧ tcpRead sockfd s buffer ibuflen itimeout =
      (readn s' buffer (sizeT (int (beWord a b c d)))).map fun body =>
        (⟨body.ret, int (beWord a b c d), body.buffer⟩, body.sock) := by
  obtain ⟨hsock, hwait, hnowait⟩ := hpoll
  have hfour : 4 ≤ s.arriving.length := by
    rw [harrive]
    simp only [List.length_cons]
    omega
  have hword : ((storeInt 0).map some).length = 4 := by
    rw [List.length_map]
    exact length_storeInt 0
  obtain ⟨head, got, hhead, hret, hgot, htook, hcells⟩ :=
    readn_ok (by decide) hfour (Nat.le_of_eq hword.symm)
  have hheader : got = [a, b, c, d] := by
    have hfront := htook.arriving
    rw [harrive] at hfront
    exact (List.append_inj (show got ++ _ = [a, b, c, d] ++ rest from hfront.symm) hgot).1
  rw [hheader] at htook hcells
  rw [List.drop_of_length_le (Nat.le_of_eq hword), List.append_nil] at hcells
  refine ⟨head.sock, htook, ?_⟩
  have hload : loadInt head.buffer = .ok (int (beWord d c b a)) := by
    rw [hcells]
    rfl
  have hnotfalse : head.ret ≠ false := by
    rw [hret]
    exact Bool.noConfusion
  have hlength : ntohl (int (beWord d c b a)) = beWord a b c d := by
    rw [ntohl_int, ntohl_beWord]
  rw [tcpRead, if_neg hsock, if_neg hwait, if_neg hnowait, ok_bind hhead, ok_bind hload,
    if_neg hnotfalse, hlength]
  dsimp only
  cases readn head.sock buffer (sizeT (int (beWord a b c d))) <;> rfl

/-! ## `Writen` -/

/-- What a socket is after `out` has been sent over it. -/
structure Sock.Gave (s : Sock) (out : Bytes) (s' : Sock) : Prop where
  sent : s'.sent = s.sent ++ out
  rooms : (∀ i, 0 < s.rooms i) → ∀ i, 0 < s'.rooms i

theorem Sock.Gave.refl (s : Sock) : s.Gave [] s := ⟨(List.append_nil s.sent).symm, id⟩

theorem Sock.Gave.trans {s s' s'' : Sock} {out out' : Bytes} (h : s.Gave out s')
    (h' : s'.Gave out' s'') : s.Gave (out ++ out') s'' where
  sent := by rw [h'.sent, h.sent, List.append_assoc]
  rooms hall := h'.rooms (h.rooms hall)

theorem send_gave (s : Sock) (offered : Bytes) :
    s.Gave (offered.take (s.send offered).1) (s.send offered).2 :=
  ⟨rfl, fun hall i => hall (i + 1)⟩

/-- If every call of `send` takes something, the loop sends all that is left. -/
theorem writenLoop_ok {s : Sock} {buffer : Bytes} {idx : Nat} {nLeft : Int}
    (hrooms : ∀ i, 0 < s.rooms i) (hfit : idx + nLeft ≤ buffer.length) :
    ∃ s', writenLoop s buffer idx nLeft = .ok (true, s') ∧
      s.Gave ((buffer.drop idx).take nLeft.toNat) s' := by
  fun_induction writenLoop s buffer idx nLeft with
  | case1 s idx nLeft hpos f hread =>
      rw [readData_ok (by omega)] at hread
      cases hread
  | case2 s idx nLeft hpos offered hread nwritten hzero =>
      rw [readData_ok (by omega)] at hread
      cases hread
      have hroom := hrooms 0
      simp only [nwritten, Sock.send, List.length_take, List.length_drop] at hzero
      omega
  | case3 s idx nLeft hpos offered hread nwritten hwritten ih =>
      rw [readData_ok (by omega)] at hread
      cases hread
      have hle : nwritten ≤ nLeft.toNat := by
        simp only [nwritten, Sock.send, List.length_take]
        omega
      obtain ⟨s', hloop, hgave⟩ := ih (fun i => hrooms (i + 1)) (by omega)
      refine ⟨s', hloop, ?_⟩
      have hleft : nLeft.toNat = nwritten + (nLeft - nwritten).toNat := by omega
      have hcut : (buffer.drop idx).take nLeft.toNat =
          ((buffer.drop idx).take nLeft.toNat).take nwritten ++
            (buffer.drop (idx + nwritten)).take (nLeft - nwritten).toNat := by
        rw [List.take_take, Nat.min_eq_left hle, hleft, List.take_add, List.drop_drop]
      rw [hcut]
      exact (send_gave s _).trans hgave
  | case4 s idx nLeft hdone =>
      have hnone : nLeft.toNat = 0 := by omega
      rw [hnone, List.take_zero]
      exact ⟨s, rfl, Sock.Gave.refl s⟩

/-! ## Messages -/

/-- What `TcpWrite` sends for a message. -/
def packet (msg : Bytes) : Bytes := storeInt (int (htonl msg.length)) ++ msg

theorem packet_cons {msg : Bytes} (h : msg.length < 4294967296) :
    ∃ a b c d, packet msg = a :: b :: c :: d :: msg ∧ beWord a b c d = msg.length := by
  obtain ⟨a, b, c, d, hword⟩ := exists_beWord h
  exact ⟨a, b, c, d, by rw [packet, ← hword, storeInt_htonl]; rfl, hword⟩

/-- A message for which `TcpWrite` gets a length, at most 2^31 - 5, from its caller. -/
def Writable (msg : Bytes) : Prop := 1 ≤ msg.length ∧ msg.length ≤ 2147483643

theorem copyInto_packet (msg : Bytes) :
    ∃ b, copyInto (List.replicate (4 + msg.length) 0) 0 (storeInt (int (htonl msg.length))) =
        .ok b ∧ copyInto b 4 msg = .ok (packet msg) := by
  have hword : (storeInt (int (htonl msg.length))).length = 4 := length_storeInt _
  have hpacket : (packet msg).length = 4 + msg.length := by
    rw [packet, List.length_append, hword]
  have hsize : (List.replicate (4 + msg.length) (0 : UInt8)).length = 4 + msg.length :=
    List.length_replicate
  obtain ⟨b₁, h₁, hlen₁, htake₁⟩ :=
    copyInto_behind (storeInt (int (htonl msg.length)))
      (show (List.replicate (4 + msg.length) 0).take ([] : Bytes).length = [] from rfl)
      (by rw [List.length_nil]; omega)
  rw [List.nil_append] at htake₁
  obtain ⟨b₂, h₂, hlen₂, htake₂⟩ := copyInto_behind msg htake₁ (by omega)
  have hwhole : b₂ = packet msg := by
    rw [← packet, hpacket, ← hsize, ← hlen₁, ← hlen₂, List.take_length] at htake₂
    exact htake₂
  rw [hwhole, hword] at h₂
  exact ⟨b₁, h₁, h₂⟩

theorem tcpWrite_ok {sockfd : Int} {s : Sock} {msg : Bytes} (hsock : sockfd ≠ -1)
    (hmsg : Writable msg) (hrooms : ∀ i, 0 < s.rooms i) :
    ∃ s', tcpWrite sockfd s msg msg.length = .ok (true, s') ∧ s.Gave (packet msg) s' := by
  obtain ⟨hone, hmax⟩ := hmsg
  have hsize : int ((msg.length : Int) + 4) = ((4 + msg.length : Nat) : Int) := by
    rw [int_eq (by omega) (by omega)]
    omega
  have hint : int ((4 + msg.length : Nat) : Int) = ((4 + msg.length : Nat) : Int) :=
    int_eq (by omega) (by omega)
  have hpacket : (packet msg).length = 4 + msg.length := by
    rw [packet, List.length_append, length_storeInt]
  have hloop : ∃ s', writenLoop s (packet msg) 0 ((4 + msg.length : Nat) : Int) = .ok (true, s') ∧
      s.Gave (((packet msg).drop 0).take ((4 + msg.length : Nat) : Int).toNat) s' :=
    writenLoop_ok hrooms (by omega)
  obtain ⟨s', hloop, hgave⟩ := hloop
  rw [List.drop_zero, Int.toNat_natCast, ← hpacket, List.take_length] at hgave
  refine ⟨s', ?_, hgave⟩
  have hwriten : writen s (packet msg) (4 + msg.length) = .ok (true, s') := by
    rw [writen, hint, hloop]
  obtain ⟨b, hhead, hbody⟩ := copyInto_packet msg
  have hsource : readData msg 0 (sizeT msg.length) = .ok msg := by
    rw [sizeT_natCast (by omega), readData_ok (by omega), List.drop_zero, List.take_length]
  rw [tcpWrite, if_neg hsock, if_neg (by omega), pure_bind]
  dsimp only
  rw [hsize, Int.toNat_natCast, ok_bind hhead, ok_bind hsource, ok_bind hbody,
    sizeT_natCast (by omega), hwriten]

theorem tcpWrites_ok {sockfd : Int} {s : Sock} {msgs : List Bytes} (hsock : sockfd ≠ -1)
    (hmsgs : ∀ msg ∈ msgs, Writable msg) (hrooms : ∀ i, 0 < s.rooms i) :
    ∃ s', tcpWrites sockfd s msgs = .ok (msgs.map fun _ => true, s') ∧
      s.Gave (msgs.map packet).flatten s' := by
  induction msgs generalizing s with
  | nil => exact ⟨s, rfl, Sock.Gave.refl s⟩
  | cons msg msgs ih =>
      obtain ⟨hmsg, hmsgs⟩ := List.forall_mem_cons.mp hmsgs
      obtain ⟨s', hwrite, hgave⟩ := tcpWrite_ok hsock hmsg hrooms
      obtain ⟨s'', hwrites, hgaves⟩ := ih hmsgs (hgave.rooms hrooms)
      refine ⟨s'', ?_, ?_⟩
      · rw [tcpWrites, ok_bind hwrite]
        dsimp only
        rw [ok_bind hwrites]
        rfl
      · rw [List.map_cons, List.flatten_cons]
        exact hgave.trans hgaves

/-- What a call leaves its caller when it has read the message into the buffer. -/
def delivered (msg : Bytes) (var : Int × Cells) : TcpRead :=
  ⟨true, msg.length, msg.map some ++ var.2.drop msg.length⟩

theorem tcpRead_ok {sockfd : Int} {s : Sock} {buffer : Cells} (ibuflen : Int) {itimeout : Int}
    {msg rest : Bytes} (hpoll : Polled sockfd s itimeout) (hmsg : Writable msg)
    (harrive : s.arriving = packet msg ++ rest) (hfit : msg.length ≤ buffer.length) :
    ∃ s', tcpRead sockfd s buffer ibuflen itimeout = .ok (delivered msg (ibuflen, buffer), s') ∧
      s.Took (packet msg) s' := by
  have hmax := hmsg.2
  obtain ⟨a, b, c, d, hpacket, hword⟩ :=
    packet_cons (show msg.length < 4294967296 by omega)
  rw [hpacket] at harrive
  obtain ⟨s₁, htook, hread⟩ := tcpRead_header buffer ibuflen hpoll harrive
  have hint : int (beWord a b c d) = msg.length := by
    rw [hword]
    exact int_eq (by omega) (by omega)
  have hbody : s₁.arriving = msg ++ rest := by
    have hfront := htook.arriving
    rw [harrive] at hfront
    exact (List.append_cancel_left (show [a, b, c, d] ++ (msg ++ rest) = _ from hfront)).symm
  obtain ⟨r, got, hr, hret, hgot, htook', hbuffer⟩ :=
    readn_ok (show msg.length < 2147483648 by omega)
      (by rw [hbody, List.length_append]; omega) hfit
  have hsame : got = msg := by
    have hfront := htook'.arriving
    rw [hbody] at hfront
    exact (List.append_inj hfront.symm hgot).1
  rw [hsame] at htook' hbuffer
  refine ⟨r.sock, ?_, ?_⟩
  · rw [hread, hint, sizeT_natCast (by omega), hr, delivered, ← hret, ← hbuffer]
    rfl
  · rw [hpacket]
    exact htook.trans htook'

/-- The variables of the caller have room for the messages. -/
abbrev Fits (msgs : List Bytes) (vars : List (Int × Cells)) : Prop :=
  List.Forall₂ (fun msg var => msg.length ≤ var.2.length) msgs vars

theorem tcpReads_ok {sockfd : Int} {s : Sock} {msgs : List Bytes} {vars : List (Int × Cells)}
    {rest : Bytes} (hsock : sockfd ≠ -1) (hmsgs : ∀ msg ∈ msgs, Writable msg)
    (hfits : Fits msgs vars) (harrive : s.arriving = (msgs.map packet).flatten ++ rest) :
    ∃ s', tcpReads sockfd s 0 vars = .ok (List.zipWith delivered msgs vars, s') ∧
      s.Took (msgs.map packet).flatten s' := by
  induction hfits generalizing s with
  | nil => exact ⟨s, rfl, Sock.Took.refl s⟩
  | @cons msg var msgs vars hfit hfits ih =>
      obtain ⟨hmsg, hmsgs⟩ := List.forall_mem_cons.mp hmsgs
      rw [List.map_cons, List.flatten_cons, List.append_assoc] at harrive
      have hpoll : Polled sockfd s 0 := ⟨hsock, by omega, by omega⟩
      obtain ⟨s', hread, htook⟩ := tcpRead_ok var.1 hpoll hmsg harrive hfit
      have hrest : s'.arriving = (msgs.map packet).flatten ++ rest := by
        have hfront := htook.arriving
        rw [harrive] at hfront
        exact (List.append_cancel_left hfront).symm
      obtain ⟨s'', hreads, htooks⟩ := ih hmsgs hrest
      refine ⟨s'', ?_, ?_⟩
      · rw [tcpReads, ok_bind hread]
        dsimp only
        rw [ok_bind hreads]
        rfl
      · rw [List.map_cons, List.flatten_cons]
        exact htook.trans htooks

theorem arriving_of_whole {s : Sock} (h : ∀ chunk ∈ s.inbox, chunk ≠ []) :
    s.arriving = s.inbox.flatten := by
  have hall : (s.inbox.takeWhile fun chunk => !chunk.isEmpty) = s.inbox := by
    rw [List.takeWhile_eq_self_iff]
    intro chunk hchunk
    rw [List.isEmpty_eq_false_iff.mpr (h chunk hchunk)]
    rfl
  rw [Sock.arriving, hall]

/-- Messages written to one end of a connection are read at the other, whatever
the calls of `send` take and however the stream is cut for those of `recv`. -/
theorem tcpRead_tcpWrite {writer reader : Int} (hwriter : writer ≠ -1) (hreader : reader ≠ -1)
    (s : Sock) (hrooms : ∀ i, 0 < s.rooms i) (msgs : List Bytes)
    (hmsgs : ∀ msg ∈ msgs, Writable msg) :
    ∃ s' stream, tcpWrites writer s msgs = .ok (msgs.map fun _ => true, s') ∧
      s'.sent = s.sent ++ stream ∧
      ∀ (t : Sock) (vars : List (Int × Cells)), t.inbox.flatten = stream →
        (∀ chunk ∈ t.inbox, chunk ≠ []) → Fits msgs vars →
        ∃ t', tcpReads reader t 0 vars = .ok (List.zipWith delivered msgs vars, t') ∧
          t'.inbox = [] := by
  obtain ⟨s', hwrites, hgave⟩ := tcpWrites_ok hwriter hmsgs hrooms
  refine ⟨s', _, hwrites, hgave.sent, ?_⟩
  intro t vars hstream hwhole hfits
  have harrive : t.arriving = (msgs.map packet).flatten ++ [] := by
    rw [arriving_of_whole hwhole, hstream, List.append_nil]
  obtain ⟨t', hreads, htook⟩ := tcpReads_ok hreader hmsgs hfits harrive
  refine ⟨t', hreads, ?_⟩
  have hleft : t'.inbox.flatten = [] := by
    have h := htook.stream
    rw [hstream] at h
    exact List.self_eq_append_right.mp h
  rw [List.flatten_eq_nil_iff] at hleft
  rw [List.eq_nil_iff_forall_not_mem]
  exact fun chunk hchunk => htook.whole hwhole chunk hchunk (hleft chunk hchunk)

/-- Every call moves one byte. -/
theorem tcpRead_tcpWrite_bytewise :
    ∃ s' stream, tcpWrites 3 ⟨[], fun _ => 1, [], fun _ => 1⟩ [ascii "a", ascii "bc"] =
        .ok ([true, true], s') ∧ s'.sent = stream ∧
      ∃ t', tcpReads 4 ⟨stream.map fun b => [b], fun _ => 1, [], fun _ => 1⟩ 0
          [(0, [none, none]), (0, [none, none])] =
        .ok ([⟨true, 1, [some 97, none]⟩, ⟨true, 2, [some 98, some 99]⟩], t') ∧
        t'.inbox = [] := by
  obtain ⟨s', stream, hwrites, hsent, hreads⟩ :=
    tcpRead_tcpWrite (show (3 : Int) ≠ -1 by decide) (show (4 : Int) ≠ -1 by decide)
      ⟨[], fun _ => 1, [], fun _ => 1⟩ (fun _ => Nat.one_pos) [ascii "a", ascii "bc"]
      (by unfold Writable; decide)
  refine ⟨s', stream, hwrites, hsent, hreads _ _ ?_ ?_ ?_⟩
  · rw [← List.flatMap_def]
    exact List.flatMap_singleton' stream
  · intro chunk hchunk
    obtain ⟨b, -, rfl⟩ := List.mem_map.mp hchunk
    exact List.cons_ne_nil b []
  · exact .cons (by decide) (.cons (by decide) .nil)

end AsioServer
