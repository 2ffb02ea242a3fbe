import AsioServer.Ref.Memory
import AsioServer.Ref.Const

/-!
# Message nodes (`MsgNode.h`, `MsgNode.cpp`)

A node owns an array one byte longer than its `_total_len`, and a node whose
array has another size, or a negative length, cannot be built: `MsgNode.new`
is where a negative `max_len` shows. `new char[_total_len + 1]` throws for a
negative size; for `-1` the size is zero, and the store of the terminator in
front of the empty array is undefined.
-/

namespace AsioServer

structure MsgNode where
  curLen : Int
  totalLen : Int
  data : Cells
  total_nonneg : 0 ≤ totalLen
  alloc : (data.length : Int) = totalLen + 1
  deriving DecidableEq

/-- `MsgNode(short max_len)`. -/
def MsgNode.new (maxLen : Int) : Except Fault MsgNode :=
  if maxLen + 1 < 0 then .error .badArrayNewLength
  else if h : maxLen < 0 then .error .outOfBounds
  else .ok
    { curLen := 0
      totalLen := maxLen
      data := List.replicate maxLen.toNat none ++ [some 0]
      total_nonneg := by omega
      alloc := by simp; omega }

/-- `Clear()`: the first `_total_len` bytes are zeroed. -/
def MsgNode.clear (n : MsgNode) : MsgNode :=
  { n with
    curLen := 0
    data := List.replicate n.totalLen.toNat (some 0) ++ n.data.drop n.totalLen.toNat
    alloc := by
      have h₁ := n.total_nonneg
      have h₂ := n.alloc
      simp only [List.length_append, List.length_replicate, List.length_drop]
      omega }

/-- `memcpy(_data + off, src, ...)`. -/
def MsgNode.memcpy (n : MsgNode) (off : Int) (src : Bytes) : Except Fault MsgNode :=
  if h : 0 ≤ off ∧ off + src.length ≤ n.data.length then
    .ok
      { n with
        data := n.data.overwrite off.toNat src
        alloc := by rw [Cells.length_overwrite (by omega)]; exact n.alloc }
  else .error .outOfBounds

/-- `memcpy(_data + _cur_len, data + copy_len, len)`, from the received bytes. -/
def MsgNode.fill (n : MsgNode) (data : Bytes) (copyLen : Nat) (len : Int) :
    Except Fault MsgNode := do
  let src ← readData data copyLen (sizeT len)
  n.memcpy n.curLen src

/-- `_cur_len += len`. -/
def MsgNode.advance (n : MsgNode) (len : Int) : MsgNode :=
  { n with curLen := short (n.curLen + len) }

/-- `_data[_total_len] = '\0'`. -/
def MsgNode.terminate (n : MsgNode) : MsgNode :=
  { n with
    data := n.data.set n.totalLen.toNat (some 0)
    alloc := by rw [List.length_set]; exact n.alloc }

/-- `memcpy(&x, _data + off, 2)` into a short `x`. -/
def MsgNode.loadShort (n : MsgNode) (off : Nat) : Except Fault Int :=
  match n.data[off]?, n.data[off + 1]? with
  | some (some b₀), some (some b₁) => .ok (AsioServer.loadShort b₀ b₁)
  | some _, some _ => .error .indeterminate
  | _, _ => .error .outOfBounds

/-- `std::string(_data, _cur_len)`. -/
def MsgNode.str (n : MsgNode) : Except Fault Bytes :=
  if sizeT n.curLen ≤ n.data.length then
    match (n.data.take (sizeT n.curLen)).mapM id with
    | some bytes => .ok bytes
    | none => .error .indeterminate
  else .error .outOfBounds

structure RecvNode extends MsgNode where
  msgId : Int
  deriving DecidableEq

/-- `RecvNode(short max_len, short id)`. -/
def RecvNode.new (maxLen id : Int) : Except Fault RecvNode := do
  let node ← MsgNode.new maxLen
  return { node with msgId := id }

/-- What the logic system takes from a posted node: the id, and the string of
the bytes up to `_cur_len`. -/
def RecvNode.message (n : RecvNode) : Except Fault (Int × Bytes) := do
  let bytes ← n.str
  return (n.msgId, bytes)

structure SendNode extends MsgNode where
  msgId : Int
  deriving DecidableEq

/-- `SendNode(const char* msg, short max_len, short id)`. `msg` is the memory
the pointer leads to; `max_len + HEAD_TOTAL_LEN` is an `int` that becomes the
`short` the base class takes. -/
def SendNode.new (msg : Bytes) (maxLen id : Int) : Except Fault SendNode := do
  let node ← MsgNode.new (short (maxLen + headTotalLen))
  let node ← node.memcpy 0 (storeShort (hostToNetworkShort id))
  let node ← node.memcpy headIdLen (storeShort (hostToNetworkShort maxLen))
  let src ← readData msg 0 (sizeT maxLen)
  let node ← node.memcpy headTotalLen src
  return { node with msgId := id }

/-- The bytes `async_write` sends of a node, `_total_len` of them. -/
def SendNode.frame (n : SendNode) : Bytes :=
  (n.data.take n.totalLen.toNat).reduceOption

/-! ## What a node holds -/

/-- The node has taken in exactly `bytes` so far. -/
structure MsgNode.Holds (n : MsgNode) (bytes : Bytes) : Prop where
  cur : n.curLen = bytes.length
  data : n.data.take bytes.length = bytes.map some

theorem MsgNode.new_ok {maxLen : Int} (h : 0 ≤ maxLen) :
    ∃ n, MsgNode.new maxLen = .ok n ∧ n.totalLen = maxLen ∧ n.Holds [] := by
  unfold MsgNode.new
  rw [if_neg (by omega), dif_neg (by omega)]
  exact ⟨_, rfl, rfl, rfl, rfl⟩

/-- A negative length is the only one a node is not built for. -/
theorem MsgNode.new_error {maxLen : Int} (h : maxLen < 0) :
    ∃ f, MsgNode.new maxLen = .error f := by
  unfold MsgNode.new
  by_cases hneg : maxLen + 1 < 0
  · exact ⟨.badArrayNewLength, if_pos hneg⟩
  · exact ⟨.outOfBounds, by rw [if_neg hneg, dif_pos h]⟩

theorem RecvNode.new_ok {maxLen : Int} (id : Int) (h : 0 ≤ maxLen) :
    ∃ n, RecvNode.new maxLen id = .ok n ∧ n.totalLen = maxLen ∧ n.msgId = id ∧
      n.Holds [] := by
  obtain ⟨n, hn, htotal, hholds⟩ := MsgNode.new_ok h
  exact ⟨{ n with msgId := id }, by rw [RecvNode.new, hn]; rfl, htotal, rfl, hholds⟩

theorem RecvNode.new_error {maxLen : Int} (id : Int) (h : maxLen < 0) :
    ∃ f, RecvNode.new maxLen id = .error f := by
  obtain ⟨f, hf⟩ := MsgNode.new_error h
  exact ⟨f, by rw [RecvNode.new, hf]; rfl⟩

theorem MsgNode.clear_holds (n : MsgNode) : n.clear.Holds [] := ⟨rfl, rfl⟩

theorem MsgNode.memcpy_ok {n : MsgNode} {held : Bytes} (src : Bytes)
    (hheld : n.data.take held.length = held.map some)
    (hfit : held.length + src.length ≤ n.totalLen + 1) :
    ∃ n', n.memcpy held.length src = .ok n' ∧ n'.totalLen = n.totalLen ∧
      n'.curLen = n.curLen ∧
      n'.data.take (held ++ src).length = (held ++ src).map some := by
  have halloc := n.alloc
  unfold MsgNode.memcpy
  rw [dif_pos (by omega)]
  refine ⟨_, rfl, rfl, rfl, ?_⟩
  show (n.data.overwrite (held.length : Int).toNat src).take (held ++ src).length = _
  rw [Int.toNat_natCast, List.length_append]
  exact Cells.take_overwrite hheld

/-- Received bytes copied behind those the node already holds. -/
theorem MsgNode.fill_ok {n : MsgNode} {held data : Bytes} {copyLen len : Nat}
    (hn : n.Holds held) (hdata : copyLen + len ≤ data.length)
    (hlen : len < 18446744073709551616)
    (hfit : held.length + len ≤ n.totalLen + 1) :
    ∃ n', n.fill data copyLen len = .ok n' ∧ n'.totalLen = n.totalLen ∧
      n'.curLen = n.curLen ∧
      n'.data.take (held.length + len) =
        (held ++ (data.drop copyLen).take len).map some := by
  have hsrc : ((data.drop copyLen).take len).length = len := by
    rw [List.length_take, List.length_drop]
    omega
  have hfit' : (held.length : Int) + ((data.drop copyLen).take len).length
      ≤ n.totalLen + 1 := by omega
  obtain ⟨n', h', htotal, hcur, hdata'⟩ := MsgNode.memcpy_ok _ hn.data hfit'
  refine ⟨n', ?_, htotal, hcur, by rwa [List.length_append, hsrc] at hdata'⟩
  unfold MsgNode.fill
  rw [sizeT_natCast hlen, readData_ok hdata, hn.cur]
  exact h'

/-- And with `_cur_len` moved on behind them. -/
theorem MsgNode.advance_holds {n : MsgNode} {held src : Bytes} {len : Nat}
    (hcur : n.curLen = held.length) (hlen : src.length = len)
    (hfit : held.length + len < 32768)
    (hdata : n.data.take (held.length + len) = (held ++ src).map some) :
    (n.advance len).Holds (held ++ src) := by
  constructor
  · show short (n.curLen + len) = _
    rw [hcur, short_eq (by omega) (by omega), List.length_append]
    omega
  · show n.data.take _ = _
    rwa [List.length_append, hlen]

theorem MsgNode.terminate_holds {n : MsgNode} {bytes : Bytes}
    (h : n.Holds bytes) (hfit : (bytes.length : Int) ≤ n.totalLen) :
    n.terminate.Holds bytes := by
  refine ⟨h.cur, ?_⟩
  show (n.data.set n.totalLen.toNat (some 0)).take bytes.length = _
  rw [List.take_set_of_le (by omega)]
  exact h.data

/-- A held byte read back. -/
theorem MsgNode.getElem?_of_take {n : MsgNode} {bytes : Bytes} {i : Nat} {b : UInt8}
    (h : n.data.take bytes.length = bytes.map some) (hb : bytes[i]? = some b) :
    n.data[i]? = some (some b) := by
  have hi : i < bytes.length := (List.getElem?_eq_some_iff.mp hb).1
  rw [← List.getElem?_take_of_lt hi, h, List.getElem?_map, hb]
  rfl

theorem MsgNode.loadShort_ok {n : MsgNode} {bytes : Bytes} {off : Nat} {b₀ b₁ : UInt8}
    (h : n.data.take bytes.length = bytes.map some)
    (h₀ : bytes[off]? = some b₀) (h₁ : bytes[off + 1]? = some b₁) :
    n.loadShort off = .ok (AsioServer.loadShort b₀ b₁) := by
  unfold MsgNode.loadShort
  rw [MsgNode.getElem?_of_take h h₀, MsgNode.getElem?_of_take h h₁]

theorem mapM_id_map_some {α : Type} (xs : List α) :
    (xs.map some).mapM id = some xs := by
  induction xs with
  | nil => rfl
  | cons x xs ih => simp [List.mapM_cons, ih]

/-- The string read from a node is what it holds. -/
theorem MsgNode.str_ok {n : MsgNode} {bytes : Bytes} (h : n.Holds bytes)
    (hfit : (bytes.length : Int) ≤ n.totalLen) (hlen : bytes.length < 65536) :
    n.str = .ok bytes := by
  have halloc := n.alloc
  unfold MsgNode.str
  rw [h.cur, sizeT_natCast (by omega), if_pos (by omega), h.data, mapM_id_map_some]

end AsioServer
