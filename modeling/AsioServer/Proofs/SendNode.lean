import AsioServer.Ref.MsgNode
import AsioServer.Spec.Decoder

/-!
# What the constructor of `SendNode` builds

The size of the node is a short, `max_len + HEAD_TOTAL_LEN`, so it is the frame
and not the payload whose length must fit: `sendMax` bytes are the most a node
takes. Up to there the node is the frame of the payload; for every other short
the constructor throws or leaves one of its arrays.
-/

namespace AsioServer

/-- The longest payload whose frame length is a short. -/
def sendMax : Int := 32763

theorem MsgNode.new_inv {maxLen : Int} {n : MsgNode} (h : MsgNode.new maxLen = .ok n) :
    0 ≤ maxLen ∧ n.totalLen = maxLen := by
  unfold MsgNode.new at h
  split at h
  · cases h
  · split at h
    · cases h
    · cases h
      exact ⟨by omega, rfl⟩

theorem MsgNode.memcpy_inv {n n' : MsgNode} {off : Int} {src : Bytes}
    (h : n.memcpy off src = .ok n') :
    off + src.length ≤ n.totalLen + 1 ∧ n'.totalLen = n.totalLen := by
  have halloc := n.alloc
  unfold MsgNode.memcpy at h
  split at h
  · cases h
    exact ⟨by omega, rfl⟩
  · cases h

theorem readData_inv {data src : Bytes} {off len : Nat}
    (h : readData data off len = .ok src) :
    off + len ≤ data.length ∧ src = (data.drop off).take len := by
  unfold readData at h
  split at h
  · cases h
    exact ⟨by assumption, rfl⟩
  · cases h

theorem reduceOption_map_some {α : Type} (xs : List α) :
    (xs.map some).reduceOption = xs := by
  show (xs.map some).filterMap id = xs
  rw [List.filterMap_map]
  exact List.filterMap_some

/-- A payload that fits gives its frame. -/
theorem SendNode.new_ok (msg : Bytes) {maxLen : Int} (id : Int) (h₀ : 0 ≤ maxLen)
    (hmax : maxLen ≤ sendMax) (hmsg : maxLen ≤ msg.length) :
    ∃ node, SendNode.new msg maxLen id = .ok node ∧ node.msgId = id ∧
      node.totalLen = maxLen + headTotalLen ∧
      node.frame = beBytes id ++ beBytes maxLen ++ msg.take maxLen.toNat := by
  unfold sendMax at hmax
  have hhead : (headTotalLen : Int) = 4 := rfl
  have hshort : short (maxLen + headTotalLen) = maxLen + headTotalLen :=
    short_eq (by omega) (by omega)
  obtain ⟨len, rfl⟩ := Int.eq_ofNat_of_zero_le h₀
  have hsize : sizeT len = len := sizeT_natCast (by omega)
  obtain ⟨n₀, hnew, htotal₀, hholds⟩ :=
    MsgNode.new_ok (show 0 ≤ (len : Int) + headTotalLen by omega)
  have hid : (beBytes id).length = 2 := rfl
  have hlen : (beBytes (len : Int)).length = 2 := rfl
  obtain ⟨n₁, h₁, htotal₁, -, hdata₁⟩ :=
    MsgNode.memcpy_ok (beBytes id) hholds.data
      (by rw [htotal₀, hid, List.length_nil]; omega)
  rw [List.nil_append] at hdata₁
  obtain ⟨n₂, h₂, htotal₂, -, hdata₂⟩ :=
    MsgNode.memcpy_ok (beBytes len) hdata₁
      (by rw [htotal₁, htotal₀, hid, hlen]; omega)
  have htake : (msg.take len).length = len := by
    rw [List.length_take]
    omega
  have hhdr : (beBytes id ++ beBytes (len : Int)).length = 4 := rfl
  obtain ⟨n₃, h₃, htotal₃, -, hdata₃⟩ :=
    MsgNode.memcpy_ok (msg.take len) hdata₂
      (by rw [htotal₂, htotal₁, htotal₀, hhdr, htake]; omega)
  refine ⟨{ n₃ with msgId := id }, ?_, rfl, ?_, ?_⟩
  · rw [SendNode.new, hshort, storeShort_hostToNetworkShort,
      storeShort_hostToNetworkShort, hsize]
    refine bind_ok hnew (bind_ok h₁ (bind_ok h₂ ?_))
    exact bind_ok (readData_ok (by omega)) (bind_ok h₃ rfl)
  · show n₃.totalLen = _
    rw [htotal₃, htotal₂, htotal₁, htotal₀]
  · have hfull : n₃.totalLen.toNat =
        (beBytes id ++ beBytes (len : Int) ++ msg.take len).length := by
      rw [htotal₃, htotal₂, htotal₁, htotal₀, List.length_append, hhdr, htake]
      omega
    show (n₃.data.take n₃.totalLen.toNat).reduceOption = _
    rw [hfull, hdata₃, reduceOption_map_some, Int.toNat_natCast]

/-- And no other short does. -/
theorem SendNode.new_inv {msg : Bytes} {maxLen id : Int} {node : SendNode}
    (h : SendNode.new msg maxLen id = .ok node) (h₁ : -32768 ≤ maxLen)
    (h₂ : maxLen < 32768) :
    0 ≤ maxLen ∧ maxLen ≤ sendMax ∧ maxLen ≤ msg.length := by
  unfold SendNode.new at h
  obtain ⟨n₀, hn₀, h⟩ := bind_eq_ok.mp h
  obtain ⟨n₁, hn₁, h⟩ := bind_eq_ok.mp h
  obtain ⟨n₂, hn₂, h⟩ := bind_eq_ok.mp h
  obtain ⟨src, hsrc, h⟩ := bind_eq_ok.mp h
  obtain ⟨n₃, hn₃, -⟩ := bind_eq_ok.mp h
  obtain ⟨hnonneg, htotal₀⟩ := MsgNode.new_inv hn₀
  obtain ⟨-, htotal₁⟩ := MsgNode.memcpy_inv hn₁
  obtain ⟨-, htotal₂⟩ := MsgNode.memcpy_inv hn₂
  obtain ⟨hread, rfl⟩ := readData_inv hsrc
  obtain ⟨hfit, -⟩ := MsgNode.memcpy_inv hn₃
  rw [htotal₂, htotal₁, htotal₀, List.drop_zero, List.length_take] at hfit
  have hmod := short_emod (maxLen + headTotalLen)
  have hbounds := short_bounds (maxLen + headTotalLen)
  have hhead : headTotalLen = 4 := rfl
  rw [hhead] at hmod hbounds hfit hnonneg
  unfold sizeT at hread hfit
  unfold sendMax
  omega

end AsioServer
