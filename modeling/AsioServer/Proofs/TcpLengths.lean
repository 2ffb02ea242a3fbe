import AsioServer.Proofs.TcpMessages

/-!
# The lengths `TcpRead` believes

The length word of the peer becomes an `int`, then a `size_t`, then the `int`
that `Readn` counts down. From 2147483648 on it is negative there, so the loop
has nothing to do, and `TcpRead` reports a message of negative length without
having read a byte of it. A smaller length is believed too: nobody compares it
with the caller's buffer, and the bytes that come go behind its end. For any
other length it reports what it has read.
-/

namespace AsioServer

/-- The call returns; and if it returns `true`, the length is that of the stream, and so many
bytes behind it are in the buffer and gone from the stream. -/
def ReportsRead (s : Sock) (buffer : Cells) (result : Except Fault (TcpRead × Sock)) : Prop :=
  ∃ call s', result = .ok (call, s') ∧ (call.ret = true →
    0 ≤ call.ibuflen ∧ ∃ a b c d body,
      s.inbox.flatten = a :: b :: c :: d :: body ++ s'.inbox.flatten ∧
      call.ibuflen = beWord a b c d ∧ (body.length : Int) = call.ibuflen ∧
      call.buffer = body.map some ++ buffer.drop body.length)

/-- The call gets to the length word, all of it arrives, and its first bit is set. -/
def HugeLength (sockfd : Int) (s : Sock) (itimeout : Int) : Prop :=
  Polled sockfd s itimeout ∧
    ∃ a b c d rest, s.arriving = a :: b :: c :: d :: rest ∧ 2147483648 ≤ beWord a b c d

/-- If the call gets to the length word and all of it arrives, its first bit is not set, and the
buffer holds what comes of the message. -/
def LengthFits (sockfd : Int) (s : Sock) (buffer : Cells) (itimeout : Int) : Prop :=
  Polled sockfd s itimeout → ∀ a b c d rest, s.arriving = a :: b :: c :: d :: rest →
    beWord a b c d < 2147483648 ∧ min (beWord a b c d) rest.length ≤ buffer.length

theorem int_beWord_huge {a b c d : UInt8} (h : 2147483648 ≤ beWord a b c d) :
    int (beWord a b c d) = beWord a b c d - 4294967296 := by
  have hlt := beWord_lt a b c d
  have hmod := Int.bmod_emod (x := (beWord a b c d : Int)) (m := 4294967296)
  have hlo := Int.le_bmod (x := (beWord a b c d : Int)) (m := 4294967296) (by decide)
  have hhi := Int.bmod_lt (x := (beWord a b c d : Int)) (m := 4294967296) (by decide)
  unfold int
  omega

/-- The second `Readn` is over before it begins. -/
theorem tcpRead_huge {sockfd : Int} {s : Sock} (buffer : Cells) (ibuflen : Int) {itimeout : Int}
    (h : HugeLength sockfd s itimeout) :
    ∃ call s', tcpRead sockfd s buffer ibuflen itimeout = .ok (call, s') ∧ call.ret = true ∧
      call.ibuflen < 0 := by
  obtain ⟨hpoll, a, b, c, d, rest, harrive, hword⟩ := h
  obtain ⟨s', -, hread⟩ := tcpRead_header buffer ibuflen hpoll harrive
  have hlt := beWord_lt a b c d
  have hint := int_beWord_huge hword
  have hback : int (sizeT (int (beWord a b c d))) = int (beWord a b c d) :=
    int_sizeT (by omega) (by omega)
  have hnone : readn s' buffer (sizeT (int (beWord a b c d))) = .ok ⟨true, buffer, s'⟩ := by
    rw [readn, hback, readnLoop_done (by omega)]
  rw [hnone] at hread
  exact ⟨_, s', hread, rfl, by dsimp only; omega⟩

/-! ## Whether the call returns -/

/-- The loop stays in the buffer exactly when the buffer holds what it is to read, or what comes
of it. -/
theorem readnLoop_returns_iff {s : Sock} {buffer : Cells} {idx : Nat} {nLeft : Int}
    (hidx : idx ≤ buffer.length) :
    (∃ r, readnLoop s buffer idx nLeft = .ok r) ↔
      (idx : Int) + min nLeft s.arriving.length ≤ buffer.length := by
  fun_induction readnLoop s buffer idx nLeft with
  | case1 s buffer idx nLeft hpos nread hzero =>
      rw [recv_none (by omega) hzero, List.length_nil]
      exact iff_of_true ⟨_, rfl⟩ (by omega)
  | case2 s buffer idx nLeft hpos nread hread hfit ih =>
      obtain ⟨hle, htook⟩ := recv_took hread
      rw [ih (by rw [Cells.length_overwrite hfit]; exact hfit), Cells.length_overwrite hfit,
        htook.arriving, List.length_append]
      omega
  | case3 s buffer idx nLeft hpos nread hread hfull =>
      obtain ⟨hle, htook⟩ := recv_took hread
      rw [htook.arriving, List.length_append]
      refine iff_of_false ?_ (by omega)
      rintro ⟨r, hr⟩
      cases hr
  | case4 s buffer idx nLeft hdone => exact iff_of_true ⟨_, rfl⟩ (by omega)

/-- Bytes are read over bytes. -/
theorem readnLoop_bytes {s : Sock} {buffer : Cells} {idx n : Nat} {nLeft : Int} {r : Readn}
    (hbytes : ∃ bytes : Bytes, buffer = bytes.map some ∧ bytes.length = n)
    (h : readnLoop s buffer idx nLeft = .ok r) :
    ∃ bytes : Bytes, r.buffer = bytes.map some ∧ bytes.length = n := by
  fun_induction readnLoop s buffer idx nLeft with
  | case1 s buffer idx nLeft hpos nread hzero =>
      cases h
      exact hbytes
  | case2 s buffer idx nLeft hpos nread hread hfit ih =>
      obtain ⟨bytes, hbuffer, hlen⟩ := hbytes
      refine ih ⟨bytes.take idx ++ (s.recv nLeft.toNat).1 ++
        bytes.drop (idx + (s.recv nLeft.toNat).1.length), ?_, ?_⟩ h
      · rw [hbuffer, Cells.overwrite, List.map_append, List.map_append, List.map_take,
          List.map_drop]
      · rw [hbuffer, List.length_map] at hfit
        simp only [List.length_append, List.length_take, List.length_drop]
        omega
  | case3 => cases h
  | case4 s buffer idx nLeft hdone =>
      cases h
      exact hbytes

/-- Without a length word the call returns `false`. -/
theorem tcpRead_short {sockfd : Int} {s : Sock} (buffer : Cells) (ibuflen : Int) {itimeout : Int}
    (h : ¬ (Polled sockfd s itimeout ∧ 4 ≤ s.arriving.length)) :
    ∃ call s', tcpRead sockfd s buffer ibuflen itimeout = .ok (call, s') ∧ call.ret = false := by
  unfold tcpRead
  split
  · exact ⟨_, _, rfl, rfl⟩
  · next hsock =>
    split
    · exact ⟨_, _, rfl, rfl⟩
    · next hwait =>
      split
      · exact ⟨_, _, rfl, rfl⟩
      · next hnowait =>
        have hfour : int ((4 : Nat) : Int) = 4 := int_eq (by decide) (by decide)
        have hword : ((storeInt 0).map some).length = 4 := by
          rw [List.length_map]
          exact length_storeInt 0
        obtain ⟨head, hloop⟩ : ∃ head, readnLoop s ((storeInt 0).map some) 0 4 = .ok head := by
          rw [readnLoop_returns_iff (Nat.zero_le _), hword]
          omega
        have hhead : readn s ((storeInt 0).map some) 4 = .ok head := by rw [readn, hfour, hloop]
        have hret : head.ret = false := by
          refine Bool.eq_false_iff.mpr fun htrue => h ⟨⟨hsock, hwait, hnowait⟩, ?_⟩
          obtain ⟨got, hgot, htook, -⟩ := readn_inv (by decide) hhead htrue
          rw [htook.arriving, List.length_append]
          omega
        obtain ⟨bytes, hcells, hlen⟩ :=
          readnLoop_bytes ⟨storeInt 0, rfl, length_storeInt 0⟩ hloop
        obtain ⟨a, b, c, d, rfl⟩ := List.length_eq_four.mp hlen
        obtain ⟨len, hload⟩ : ∃ len, loadInt head.buffer = .ok len := ⟨_, by rw [hcells]; rfl⟩
        rw [ok_bind hhead, ok_bind hload, if_pos hret]
        exact ⟨_, _, rfl, rfl⟩

/-- `TcpRead` reports what it has read exactly when the length word, if it comes
to one, is below 2147483648 and the buffer holds what comes of the message. -/
theorem tcpRead_reports_iff (sockfd : Int) (s : Sock) (buffer : Cells) (ibuflen itimeout : Int) :
    ReportsRead s buffer (tcpRead sockfd s buffer ibuflen itimeout) ↔
      LengthFits sockfd s buffer itimeout := by
  have hreturns : ∀ (s' : Sock) {n : Nat}, n < 2147483648 →
      ((∃ r, readn s' buffer n = .ok r) ↔ min n s'.arriving.length ≤ buffer.length) := by
    intro s' n hn
    rw [readn, int_eq (by omega) (by omega), readnLoop_returns_iff (Nat.zero_le _)]
    omega
  constructor
  · rintro ⟨call, s', hread, hreports⟩ hpoll a b c d rest harrive
    have hword : beWord a b c d < 2147483648 := by
      refine Nat.lt_of_not_le fun hword => ?_
      obtain ⟨call', s'', hread', hret, hneg⟩ :=
        tcpRead_huge buffer ibuflen ⟨hpoll, a, b, c, d, rest, harrive, hword⟩
      rw [hread] at hread'
      cases hread'
      have hnonneg := (hreports hret).1
      omega
    obtain ⟨s₁, htook, hbody⟩ := tcpRead_header buffer ibuflen hpoll harrive
    have hrest : s₁.arriving = rest :=
      (List.append_cancel_left
        (show [a, b, c, d] ++ rest = _ from harrive.symm.trans htook.arriving)).symm
    rw [int_eq (by omega) (by omega), sizeT_natCast (by omega)] at hbody
    refine ⟨hword, hrest ▸ (hreturns s₁ hword).mp ?_⟩
    cases hr : readn s₁ buffer (beWord a b c d) with
    | ok r => exact ⟨r, rfl⟩
    | error f =>
        rw [hr, hread] at hbody
        cases hbody
  · intro hfits
    by_cases hheader : Polled sockfd s itimeout ∧ 4 ≤ s.arriving.length
    · obtain ⟨hpoll, hfour⟩ := hheader
      obtain ⟨a, b, c, d, rest, harrive⟩ :
          ∃ a b c d rest, s.arriving = a :: b :: c :: d :: rest := by
        obtain ⟨a, b, c, d, hhead⟩ := List.length_eq_four.mp (List.length_take_of_le hfour)
        have hcut := List.take_append_drop 4 s.arriving
        rw [hhead] at hcut
        exact ⟨a, b, c, d, s.arriving.drop 4, hcut.symm⟩
      obtain ⟨hword, hroom⟩ := hfits hpoll a b c d rest harrive
      obtain ⟨s₁, htook, hbody⟩ := tcpRead_header buffer ibuflen hpoll harrive
      have hrest : s₁.arriving = rest :=
        (List.append_cancel_left
          (show [a, b, c, d] ++ rest = _ from harrive.symm.trans htook.arriving)).symm
      have hint : int (beWord a b c d) = beWord a b c d := int_eq (by omega) (by omega)
      obtain ⟨r, hr⟩ := (hreturns s₁ hword).mpr (hrest ▸ hroom)
      rw [hint, sizeT_natCast (by omega), hr] at hbody
      refine ⟨_, _, hbody, fun hret => ?_⟩
      obtain ⟨got, hgot, htook', hbuffer⟩ := readn_inv hword hr hret
      refine ⟨Int.natCast_nonneg _, a, b, c, d, got, ?_, rfl, congrArg Int.ofNat hgot, ?_⟩
      · exact (htook.trans htook').stream
      · rw [hgot]
        exact hbuffer
    · obtain ⟨call, s', hread, hret⟩ := tcpRead_short buffer ibuflen hheader
      refine ⟨call, s', hread, fun htrue => ?_⟩
      rw [hret] at htrue
      cases htrue

/-- The length 2147483648, and nothing behind it. -/
theorem tcpRead_not_reported :
    ¬ ∀ (sockfd : Int) (s : Sock) (buffer : Cells) (ibuflen itimeout : Int),
      ReportsRead s buffer (tcpRead sockfd s buffer ibuflen itimeout) := by
  intro hall
  have hhuge : HugeLength 3 ⟨[[0x80, 0, 0, 0]], fun _ => 1, [], fun _ => 1⟩ 0 :=
    ⟨by unfold Polled; decide, 0x80, 0, 0, 0, [], rfl, by decide⟩
  obtain ⟨call, s', hread, hret, hneg⟩ := tcpRead_huge (List.replicate 16 none) 0 hhuge
  obtain ⟨call', s'', hread', hreports⟩ := hall _ _ _ _ _
  rw [hread] at hread'
  cases hread'
  have hnonneg := (hreports hret).1
  omega

end AsioServer
