import AsioServer.Proofs.WsReceiver

/-!
# What a sender frames is what a receiver reads

A frame is read part by part: its two bytes, the length behind them, the key, the
payload (`frame_read`). Between two frames the reader holds the fragments of the
message that is not complete, and the sender knows whether there is one
(`Between`); so each call is read as what it was, and a list of calls as the
events that follow from it (`sent_received`).
-/

namespace AsioServer.Ws

/-! ## Bytes -/

/-- The first byte of a frame. -/
def firstByte (fin : Bool) (opcode : UInt8) : UInt8 := if fin then opcode ||| 0x80 else opcode

theorem firstByte_bits (fin : Bool) {opcode : UInt8} (h : opcode.toNat < 16) :
    firstByte fin opcode &&& 0x30 = 0 ∧ firstByte fin opcode &&& 0x40 ≠ 0x40 ∧
      (firstByte fin opcode &&& 0x80 = 0x80 ↔ fin = true) ∧
      (firstByte fin opcode &&& 0x0f).toNat = opcode.toNat := by
  have hall : ∀ n : Fin 256, n.val < 16 → ∀ fin : Bool,
      firstByte fin (UInt8.ofNat n) &&& 0x30 = 0 ∧
        firstByte fin (UInt8.ofNat n) &&& 0x40 ≠ 0x40 ∧
        (firstByte fin (UInt8.ofNat n) &&& 0x80 = 0x80 ↔ fin = true) ∧
        (firstByte fin (UInt8.ofNat n) &&& 0x0f).toNat = n.val := by decide +kernel
  have hop := hall ⟨opcode.toNat, opcode.toNat_lt⟩ h fin
  rwa [UInt8.ofNat_toNat] at hop

/-- The second byte of a frame. -/
def secondByte (masked : Bool) (length : UInt8) : UInt8 :=
  if masked then length ||| 0x80 else length

theorem secondByte_bits (masked : Bool) {length : UInt8} (h : length.toNat < 128) :
    (secondByte masked length &&& 0x80 = 0x80 ↔ masked = true) ∧
      (secondByte masked length &&& 0x7f).toNat = length.toNat := by
  have hall : ∀ n : Fin 256, n.val < 128 → ∀ masked : Bool,
      (secondByte masked (UInt8.ofNat n) &&& 0x80 = 0x80 ↔ masked = true) ∧
        (secondByte masked (UInt8.ofNat n) &&& 0x7f).toNat = n.val := by decide +kernel
  have hlen := hall ⟨length.toNat, length.toNat_lt⟩ h masked
  rwa [UInt8.ofNat_toNat] at hlen

theorem length_uintBE (size n : Nat) : (uintBE size n).length = size := by
  induction size with
  | zero => rfl
  | succ size ih => rw [uintBE, List.length_cons, ih]

theorem foldl_readUIntBE (start : Nat) (buf : Bytes) :
    buf.foldl (fun n b => 256 * n + b.toNat) start =
      start * 256 ^ buf.length + readUIntBE buf := by
  unfold readUIntBE
  induction buf generalizing start with
  | nil => simp
  | cons b buf ih =>
      rw [List.foldl_cons, List.foldl_cons, ih, ih (256 * 0 + b.toNat), List.length_cons,
        Nat.pow_succ]
      ring

theorem readUIntBE_append (buf buf' : Bytes) :
    readUIntBE (buf ++ buf') = readUIntBE buf * 256 ^ buf'.length + readUIntBE buf' := by
  rw [readUIntBE, List.foldl_append, foldl_readUIntBE]
  rfl

theorem readUIntBE_uintBE (size n : Nat) : readUIntBE (uintBE size n) = n % 256 ^ size := by
  induction size with
  | zero => rw [Nat.pow_zero, Nat.mod_one]; rfl
  | succ size ih =>
      have hbyte : (UInt8.ofNat (n / 256 ^ size % 256)).toNat = n / 256 ^ size % 256 :=
        Nat.mod_eq_of_lt (Nat.mod_lt _ (by decide))
      rw [uintBE, readUIntBE, List.foldl_cons, foldl_readUIntBE, ih, length_uintBE, hbyte,
        Nat.mod_pow_succ]
      ring

theorem applyMask_applyMask (data : Bytes) (mask : Mask) :
    applyMask (applyMask data mask) mask = data := by
  unfold applyMask
  refine List.ext_getElem? fun i => ?_
  rw [List.getElem?_mapIdx, List.getElem?_mapIdx]
  cases data[i]? with
  | none => rfl
  | some b => rw [Option.map_some, Option.map_some, UInt8.xor_assoc, UInt8.xor_self, UInt8.xor_zero]

theorem length_applyMask (data : Bytes) (mask : Mask) :
    (applyMask data mask).length = data.length :=
  List.length_mapIdx

/-! ## One frame -/

/-- The fields when the header of a frame has been read. -/
def Parsing.framed (p : Parsing) (fin : Bool) (opcode : Nat) (mask : Option Mask)
    (length : Nat) : Parsing :=
  { p with
    payloadLength := length
    mask := mask.getD p.mask
    fragmented := if !fin && p.fragmented = 0 then opcode else p.fragmented
    masked := mask.isSome
    fin := fin
    opcode := opcode
    totalPayloadLength :=
      if opcode < 0x08 then p.totalPayloadLength + length else p.totalPayloadLength }

/-- A frame that `getInfo` lets pass between these fragments, and the opcode it stands for. -/
inductive Passes (p : Parsing) (fin : Bool) (length : Nat) : UInt8 → Nat → Prop
  | next (h : p.fragmented ≠ 0) : Passes p fin length 0 p.fragmented
  | first {opcode : UInt8} (h : opcode = 1 ∨ opcode = 2) (hnone : p.fragmented = 0) :
      Passes p fin length opcode opcode.toNat
  | control {opcode : UInt8} (h : opcode = 8 ∨ opcode = 9 ∨ opcode = 10) (hfin : fin = true)
      (hle : length ≤ 125) (hclose : opcode = 8 → length ≠ 1) :
      Passes p fin length opcode opcode.toNat

theorem Passes.info {p : Parsing} {fin : Bool} {length : Nat} {opcode : UInt8} {op : Nat}
    (h : Passes p fin length opcode op) (o : ReceiverOptions) (masked : Bool) {len7 : UInt8}
    (hlen7 : len7.toNat < 128) (hshort : length ≤ 125 → len7.toNat = length) :
    p.info o (firstByte fin opcode) (secondByte masked len7) =
      Parsing.haveOpcode o (secondByte masked len7)
        { p with fin := fin, opcode := op, payloadLength := len7.toNat } := by
  have hop : opcode.toNat < 16 := by
    cases h with
    | next => decide
    | first h => rcases h with rfl | rfl <;> decide
    | control h => rcases h with rfl | rfl | rfl <;> decide
  obtain ⟨hrsv, hrsv1, hfin, hopcode⟩ := firstByte_bits fin hop
  obtain ⟨-, hlen⟩ := secondByte_bits masked hlen7
  have hfin' : (decide (firstByte fin opcode &&& 0x80 = 0x80) : Bool) = fin := by
    rw [Bool.eq_iff_iff, decide_eq_true_iff]
    exact hfin
  unfold Parsing.info
  rw [if_neg (not_not.mpr hrsv), if_neg hrsv1, hopcode, hlen, hfin']
  dsimp only
  cases h with
  | next h => exact (if_pos rfl).trans (if_neg h)
  | first h hnone =>
      have hnz : opcode.toNat ≠ 0 := by rcases h with rfl | rfl <;> decide
      have hdata : opcode.toNat = 1 ∨ opcode.toNat = 2 := by rcases h with rfl | rfl <;> decide
      rw [if_neg hnz, if_pos hdata, if_neg (not_not.mpr hnone)]
  | control h hf hle hclose =>
      have hnz : opcode.toNat ≠ 0 := by rcases h with rfl | rfl | rfl <;> decide
      have hdata : ¬ (opcode.toNat = 1 ∨ opcode.toNat = 2) := by
        rcases h with rfl | rfl | rfl <;> decide
      have hrange : 0x07 < opcode.toNat ∧ opcode.toNat < 0x0b := by
        rcases h with rfl | rfl | rfl <;> decide
      have hlength : ¬ (0x7d < len7.toNat ∨ (opcode.toNat = 0x08 ∧ len7.toNat = 1)) := by
        rw [hshort hle]
        rintro (hlt | ⟨h8, h1⟩)
        · omega
        · refine hclose ?_ h1
          rcases h with rfl | rfl | rfl
          · rfl
          · exact absurd h8 (by decide)
          · exact absurd h8 (by decide)
      rw [if_neg hnz, if_neg hdata, if_pos hrange, if_neg (by rw [hf]; decide), if_neg hlength]

/-- The length of a message is checked where a fragment of it begins. -/
def ReceiverOptions.Admits (o : ReceiverOptions) (p : Parsing) (op length : Nat) : Prop :=
  op < 0x08 → o.maxPayload = 0 ∨ p.totalPayloadLength + length ≤ o.maxPayload

theorem haveLength_admitted {o : ReceiverOptions} {p : Parsing}
    (h : o.Admits p p.opcode p.payloadLength) :
    p.haveLength o = ({ p with
      totalPayloadLength := if p.opcode < 0x08 then p.totalPayloadLength + p.payloadLength
        else p.totalPayloadLength },
      .ok (if p.masked then .getMask else .getData)) := by
  unfold Parsing.haveLength
  dsimp only
  by_cases hop : p.opcode < 0x08
  · rw [if_pos hop]
    by_cases hzero : p.payloadLength = 0
    · have hsame : p.totalPayloadLength + p.payloadLength = p.totalPayloadLength := by omega
      rw [if_neg fun hne => hne.1 hzero, hsame]
    · have hfits :
          ¬ (o.maxPayload < p.totalPayloadLength + p.payloadLength ∧ 0 < o.maxPayload) := by
        rintro ⟨hlt, hpos⟩
        rcases h hop with hno | hle <;> omega
      rw [if_pos ⟨hzero, hop⟩, if_neg hfits]
  · rw [if_neg hop, if_neg fun hne => hop hne.2]

/-- The forms of a length. -/
theorem frameLength_ok {length : Nat} {len7 : UInt8} {ext : Bytes}
    (h : frameLength length = .ok (len7, ext)) :
    (len7 = 127 ∧ ext.length = 8 ∧ readUIntBE ext = length ∧ 125 < length ∧
        length < 281474976710656) ∨
      (len7 = 126 ∧ ext.length = 2 ∧ readUIntBE ext = length ∧ 125 < length) ∨
      (len7.toNat = length ∧ ext = [] ∧ length ≤ 125) := by
  unfold frameLength at h
  split at h
  · next hlong =>
      split at h
      · next hlt =>
          cases h
          refine Or.inl ⟨rfl, by simp [length_uintBE], ?_, by omega, hlt⟩
          show readUIntBE ([0, 0] ++ uintBE 6 length) = length
          rw [readUIntBE_append, readUIntBE_uintBE, Nat.mod_eq_of_lt (hlt.trans_le (by decide))]
          simp [readUIntBE]
      · cases h
  · next hlt =>
      split at h
      · next hbig =>
          cases h
          refine Or.inr (Or.inl ⟨rfl, length_uintBE 2 length, ?_, hbig⟩)
          rw [readUIntBE_uintBE, Nat.mod_eq_of_lt (by omega)]
      · next hsmall =>
          cases h
          refine Or.inr (Or.inr ⟨?_, rfl, Nat.not_lt.mp hsmall⟩)
          exact Nat.mod_eq_of_lt (by omega)

/-- Eight bytes, as two numbers of four. -/
theorem length64_eq {o : ReceiverOptions} {buf : Bytes} (hlen : buf.length = 8)
    (hsmall : readUIntBE buf < 281474976710656) (p : Parsing) :
    p.length64 o buf = Parsing.haveLength o { p with payloadLength := readUIntBE buf } := by
  have hsplit :
      readUIntBE (buf.take 4) * 4294967296 + readUIntBE (buf.drop 4) = readUIntBE buf := by
    have happend := readUIntBE_append (buf.take 4) (buf.drop 4)
    rw [List.take_append_drop, List.length_drop, hlen] at happend
    exact happend.symm
  unfold Parsing.length64
  dsimp only
  rw [if_neg (by omega), ← hsplit]

/-- The fields when the length of a payload is known. -/
def Parsing.sized (p : Parsing) (fin : Bool) (opcode : Nat) (masked : Bool) (length : Nat) :
    Parsing :=
  { p.framed fin opcode none length with masked := masked }

/-- A header is read up to the key, or where there is none up to the payload. -/
theorem header_read {o : ReceiverOptions} {p : Parsing} {fin : Bool} {opcode : UInt8} {op : Nat}
    {length : Nat} (hpass : Passes p fin length opcode op) (hadmitted : o.Admits p op length)
    {len7 : UInt8} {ext : Bytes} (hlength : frameLength length = .ok (len7, ext)) (rest : Bytes) :
    (reading o).run ⟨some .getInfo, p⟩
        ([firstByte fin opcode, secondByte o.isServer len7] ++ (ext ++ rest)) =
      (reading o).run ⟨some (if o.isServer then .getMask else .getData),
        p.sized fin op o.isServer length⟩ rest := by
  have hforms := frameLength_ok hlength
  have hlen7 : len7.toNat < 128 := by
    rcases hforms with ⟨rfl, -⟩ | ⟨rfl, -⟩ | ⟨h, -, hle⟩
    · decide
    · decide
    · omega
  have hshort : length ≤ 125 → len7.toNat = length := fun hle => by
    rcases hforms with ⟨-, -, -, hlt, -⟩ | ⟨-, -, -, hlt⟩ | ⟨h, -, -⟩
    · omega
    · omega
    · exact h
  obtain ⟨hmask, -⟩ := secondByte_bits o.isServer hlen7
  have hmask' : (decide (secondByte o.isServer len7 &&& 0x80 = 0x80) : Bool) = o.isServer := by
    rw [Bool.eq_iff_iff, decide_eq_true_iff]
    exact hmask
  -- the header with the seven bits as its length
  generalize hbegun : ({ p.sized fin op o.isServer len7.toNat with
    totalPayloadLength := p.totalPayloadLength } : Parsing) = begun
  have hinfo : Parsing.info o (firstByte fin opcode) (secondByte o.isServer len7) p =
      if len7.toNat = 126 then (begun, .ok .getPayloadLength16)
      else if len7.toNat = 127 then (begun, .ok .getPayloadLength64)
      else begun.haveLength o := by
    rw [hpass.info o o.isServer hlen7 hshort, ← hbegun]
    unfold Parsing.haveOpcode
    rw [hmask']
    dsimp only
    cases o.isServer <;> rfl
  have hknown : Parsing.haveLength o { begun with payloadLength := length } =
      (p.sized fin op o.isServer length, .ok (if o.isServer then .getMask else .getData)) := by
    rw [← hbegun]
    exact haveLength_admitted (p := { p.sized fin op o.isServer length with
      totalPayloadLength := p.totalPayloadLength }) hadmitted
  have hfirst : (reading o).next ⟨some .getInfo, p⟩
      [firstByte fin opcode, secondByte o.isServer len7] = Reading.afterHeader
        (p.info o (firstByte fin opcode) (secondByte o.isServer len7)) := rfl
  rcases hforms with ⟨rfl, hext, hread, -, hbound⟩ | ⟨rfl, hext, hread, -⟩ | ⟨h7, rfl, hle⟩
  · rw [hinfo, if_neg (by decide), if_pos (by decide)] at hfirst
    have hsecond : (reading o).next ⟨some .getPayloadLength64, begun⟩ ext =
        (⟨some (if o.isServer then .getMask else .getData), p.sized fin op o.isServer length⟩,
          []) := by
      show Reading.afterHeader (begun.length64 o ext) = _
      rw [length64_eq hext (hread ▸ hbound), hread, hknown]
      rfl
    rw [Puller.run_cons rfl hfirst, Puller.run_cons (congrArg some hext.symm) hsecond]
    rfl
  · rw [hinfo, if_pos (by decide)] at hfirst
    have hsecond : (reading o).next ⟨some .getPayloadLength16, begun⟩ ext =
        (⟨some (if o.isServer then .getMask else .getData), p.sized fin op o.isServer length⟩,
          []) := by
      show Reading.afterHeader (begun.length16 o ext) = _
      rw [Parsing.length16, hread, hknown]
      rfl
    rw [Puller.run_cons rfl hfirst, Puller.run_cons (congrArg some hext.symm) hsecond]
    rfl
  · have hsame : begun = { begun with payloadLength := length } := by
      rw [← hbegun, ← h7]
      rfl
    rw [hinfo, if_neg (by omega), if_neg (by omega), hsame, hknown] at hfirst
    rw [Puller.run_cons rfl hfirst]
    rfl

/-- The payload of a frame as it is sent. -/
def wirePayload (mask : Option Mask) (data : Bytes) : Bytes :=
  match mask with
  | none => data
  | some mask => if mask.isZero then data else applyMask data mask

/-- The key in front of it. -/
def wireKey (mask : Option Mask) : Bytes :=
  match mask with
  | none => []
  | some mask => mask.bytes

theorem length_wirePayload (mask : Option Mask) (data : Bytes) :
    (wirePayload mask data).length = data.length := by
  cases mask with
  | none => rfl
  | some mask =>
      show (if mask.isZero then data else applyMask data mask).length = data.length
      split
      · rfl
      · exact length_applyMask data mask

theorem frame_ok {data : Bytes} {options : FrameOptions} {framed : Bytes}
    (h : frame data options = .ok framed) :
    ∃ len7 ext, frameLength data.length = .ok (len7, ext) ∧
      framed = [firstByte options.fin options.opcode, secondByte options.mask.isSome len7] ++
        (ext ++ (wireKey options.mask ++ wirePayload options.mask data)) := by
  unfold frame at h
  cases hlength : frameLength data.length with
  | error e =>
      rw [hlength] at h
      cases h
  | ok pair =>
      obtain ⟨len7, ext⟩ := pair
      refine ⟨len7, ext, rfl, ?_⟩
      rw [hlength] at h
      obtain ⟨fin, mask, opcode⟩ := options
      cases mask with
      | none =>
          cases h
          simp [firstByte, secondByte, wireKey, wirePayload]
      | some mask =>
          unfold wirePayload
          dsimp only [bind, Except.bind] at h ⊢
          split at h
          · next hzero =>
              cases h
              rw [if_pos hzero]
              simp [firstByte, secondByte, wireKey]
          · next hzero =>
              cases h
              rw [if_neg hzero]
              simp [firstByte, secondByte, wireKey]

/-- `getData`, from the unmasked payload on. -/
def Parsing.payload (o : ReceiverOptions) (data : Bytes) (p : Parsing) :
    Parsing × Except Failure (Option WsEvent) :=
  if 0x07 < p.opcode then (p, (p.controlMessage o data).map some)
  else if data = [] then p.dataMessage o
  else
    Parsing.dataMessage o { p with
      messageLength := p.totalPayloadLength
      fragments := p.fragments ++ [data] }

theorem data_eq (o : ReceiverOptions) (buf : Bytes) (p : Parsing) :
    p.data o buf =
      p.payload o (if p.masked && !p.mask.isZero then applyMask buf p.mask else buf) := rfl

theorem data_wirePayload (o : ReceiverOptions) (p : Parsing) (fin : Bool) (op : Nat)
    (mask : Option Mask) (data : Bytes) :
    (p.framed fin op mask data.length).data o (wirePayload mask data) =
      (p.framed fin op mask data.length).payload o data := by
  cases mask with
  | none => rfl
  | some mask =>
      have hplain : (if (true && !mask.isZero) = true then
          applyMask (wirePayload (some mask) data) mask else wirePayload (some mask) data) =
          data := by
        unfold wirePayload
        dsimp only
        cases mask.isZero with
        | true => rfl
        | false => exact applyMask_applyMask data mask
      rw [data_eq]
      exact congrArg (fun got => Parsing.payload o got _) hplain

/-- A frame is read as its payload, whatever the key. -/
theorem frame_read {o : ReceiverOptions} {p : Parsing} {options : FrameOptions} {op : Nat}
    {data framed : Bytes} (hframe : frame data options = .ok framed)
    (hmask : options.mask.isSome = o.isServer)
    (hpass : Passes p options.fin data.length options.opcode op)
    (hadmitted : o.Admits p op data.length) (rest : Bytes) :
    (reading o).run ⟨some .getInfo, p⟩ (framed ++ rest) =
      ((reading o).run (Reading.afterData
        ((p.framed options.fin op options.mask data.length).payload o data)).1 rest).prepend
          (Reading.afterData
            ((p.framed options.fin op options.mask data.length).payload o data)).2 := by
  obtain ⟨len7, ext, hlength, rfl⟩ := frame_ok hframe
  have hdata : ∀ rest, (reading o).run ⟨some .getData,
      p.framed options.fin op options.mask data.length⟩
        (wirePayload options.mask data ++ rest) =
      ((reading o).run (Reading.afterData
        ((p.framed options.fin op options.mask data.length).payload o data)).1 rest).prepend
          (Reading.afterData
            ((p.framed options.fin op options.mask data.length).payload o data)).2 := by
    intro rest
    have hneed : (reading o).need ⟨some .getData,
        p.framed options.fin op options.mask data.length⟩ =
          some (wirePayload options.mask data).length := by
      rw [length_wirePayload]
      rfl
    refine Puller.run_cons hneed ?_ rest
    rw [← data_wirePayload]
    rfl
  rw [hmask, List.append_assoc, List.append_assoc, header_read hpass hadmitted hlength,
    List.append_assoc, ← hdata rest]
  cases hopt : options.mask with
  | none =>
      rw [hopt] at hmask
      rw [← hmask]
      rfl
  | some mask =>
      rw [hopt] at hmask
      rw [← hmask]
      exact Puller.run_cons rfl rfl _

/-! ## Between two frames -/

/-- The opcode of a message. -/
def dataOpcode (binary : Bool) : Nat := if binary then 2 else 1

/-- The reader holds what was sent of a message, and nothing else. -/
structure Between (u : Unfinished) (p : Parsing) : Prop where
  fragmented : p.fragmented = (u.map fun m => dataOpcode m.1).getD 0
  fragments : p.fragments.flatten = (u.map Prod.snd).getD []
  messageLength : p.messageLength = p.fragments.flatten.length
  total : p.totalPayloadLength = p.messageLength

theorem Between.new : Between none .new := ⟨rfl, rfl, rfl, rfl⟩

/-- A fragment joins those before it. -/
theorem payload_data {o : ReceiverOptions} {u : Unfinished} {p : Parsing} (h : Between u p)
    (fin : Bool) {op : Nat} (hop : op < 0x08) (mask : Option Mask) (data : Bytes) (binary : Bool) :
    ∃ q : Parsing, (p.framed fin op mask data.length).payload o data = q.dataMessage o ∧
      q.fin = fin ∧ q.opcode = op ∧
      q.fragmented = (if !fin && p.fragmented = 0 then op else p.fragmented) ∧
      q.fragments.flatten = (u.grow data binary).2 ∧
      q.messageLength = q.fragments.flatten.length ∧ q.totalPayloadLength = q.messageLength := by
  have hgrow : (u.grow data binary).2 = p.fragments.flatten ++ data := by
    rw [h.fragments]
    cases u <;> rfl
  have htotal : (p.framed fin op mask data.length).totalPayloadLength =
      p.fragments.flatten.length + data.length := by
    show (if op < 0x08 then p.totalPayloadLength + data.length else p.totalPayloadLength) = _
    rw [if_pos hop, h.total, h.messageLength]
  have hdata : ¬ 0x07 < (p.framed fin op mask data.length).opcode :=
    Nat.not_lt.mpr (Nat.le_of_lt_succ hop)
  unfold Parsing.payload
  rw [if_neg hdata]
  by_cases hempty : data = []
  · rw [if_pos hempty]
    refine ⟨_, rfl, rfl, rfl, rfl, ?_, h.messageLength, ?_⟩
    · rw [hgrow, hempty, List.append_nil]
      rfl
    · rw [htotal, hempty]
      exact h.messageLength.symm
  · rw [if_neg hempty]
    refine ⟨_, rfl, rfl, rfl, rfl, ?_, ?_, rfl⟩
    · rw [hgrow]
      simp [Parsing.framed]
    · rw [htotal]
      simp [Parsing.framed]

/-- The opcode the sender gives a fragment passes. -/
theorem Between.passes {u : Unfinished} {p : Parsing} (h : Between u p) (fin binary : Bool)
    (data : Bytes) :
    Passes p fin data.length
      (if u.isNone then (if binary then 2 else 1) else 0)
      (dataOpcode (u.grow data binary).1) := by
  cases u with
  | none =>
      have hnone : p.fragmented = 0 := h.fragmented
      cases binary with
      | true => exact .first (Or.inr rfl) hnone
      | false => exact .first (Or.inl rfl) hnone
  | some m =>
      have hsome : p.fragmented = dataOpcode m.1 := h.fragmented
      have hne : p.fragmented ≠ 0 := by
        rw [hsome]
        cases m.1 <;> decide
      have hpass : Passes p fin data.length 0 p.fragmented := .next hne
      rwa [hsome] at hpass

theorem dataOpcode_lt (binary : Bool) : dataOpcode binary < 0x08 := by
  cases binary <;> decide

/-- A message that is not complete gives no event. -/
theorem dataMessage_more {o : ReceiverOptions} {q : Parsing} (hfin : q.fin = false) :
    q.dataMessage o = (q, .ok none) := by
  unfold Parsing.dataMessage
  rw [if_pos (by rw [hfin]; rfl)]

/-- A complete one is emitted. -/
theorem dataMessage_last {o : ReceiverOptions} {q : Parsing} {binary : Bool} (hfin : q.fin = true)
    (hop : q.opcode = dataOpcode binary)
    (hlength : q.messageLength = q.fragments.flatten.length)
    (htext : binary = false → o.Text q.fragments.flatten) :
    q.dataMessage o = ({ q with
        totalPayloadLength := 0
        messageLength := 0
        fragmented := 0
        fragments := [] }, .ok (some (.message q.fragments.flatten binary))) := by
  unfold Parsing.dataMessage
  rw [if_neg (by rw [hfin]; decide), concat_ok hlength.ge]
  dsimp only
  cases binary with
  | true => rw [if_pos (show q.opcode = 2 from hop)]
  | false =>
      have htextual : q.opcode ≠ 2 := by
        rw [hop]
        decide
      rw [if_neg htextual, if_neg (ReceiverOptions.text_iff.mp (htext rfl))]

theorem send_ok {sender sender' : Sender} {data framed : Bytes} {options : SendOptions}
    (h : sender.send data options = .ok (sender', framed)) :
    frame data ⟨options.fin, options.mask,
        if sender.firstFragment then (if options.binary then 2 else 1) else 0⟩ = .ok framed ∧
      sender' = ⟨options.fin⟩ := by
  obtain ⟨framed', hframe, hpair⟩ := bind_eq_ok.mp h
  cases hpair
  exact ⟨hframe, rfl⟩

/-- A `send` is read. -/
theorem send_read {o : ReceiverOptions} {u : Unfinished} {p : Parsing} (h : Between u p)
    {data framed : Bytes} {binary fin : Bool} {mask : Option Mask} {sender' : Sender}
    (hsend : Sender.send ⟨u.isNone⟩ data ⟨binary, fin, mask⟩ = .ok (sender', framed))
    (hmask : mask.isSome = o.isServer) (hfits : o.Fits (u.grow data binary).2)
    (htext : fin = true → (u.grow data binary).1 = false → o.Text (u.grow data binary).2)
    (rest : Bytes) :
    ∃ q, Between (if fin then none else some (u.grow data binary)) q ∧
      sender' = ⟨fin⟩ ∧
      (reading o).run ⟨some .getInfo, p⟩ (framed ++ rest) =
        ((reading o).run ⟨some .getInfo, q⟩ rest).prepend
          (if fin then [.message (u.grow data binary).2 (u.grow data binary).1] else []) := by
  obtain ⟨hframe, rfl⟩ := send_ok hsend
  have hgrow : (u.grow data binary).2.length = p.totalPayloadLength + data.length := by
    rw [h.total, h.messageLength, h.fragments]
    cases u with
    | none => simp [Unfinished.grow]
    | some m => simp [Unfinished.grow]
  have hadmitted : o.Admits p (dataOpcode (u.grow data binary).1) data.length := fun _ =>
    hfits.imp id fun hle => hgrow ▸ hle
  have hread := frame_read hframe hmask (h.passes fin binary data) hadmitted rest
  obtain ⟨q, hpayload, hfin, hop, hfragmented, hfragments, hlength, htotal⟩ :=
    payload_data (o := o) h fin (dataOpcode_lt (u.grow data binary).1) mask data binary
  rw [hread, hpayload]
  cases fin with
  | true =>
      rw [dataMessage_last hfin hop hlength fun hb => hfragments ▸ htext rfl hb]
      rw [hfragments]
      exact ⟨{ q with
        totalPayloadLength := 0
        messageLength := 0
        fragmented := 0
        fragments := [] }, ⟨rfl, rfl, rfl, rfl⟩, rfl, rfl⟩
  | false =>
      rw [dataMessage_more hfin]
      refine ⟨q, ⟨?_, hfragments, hlength, htotal⟩, rfl, rfl⟩
      rw [hfragmented]
      cases u with
      | none => exact if_pos (by simp [show p.fragmented = 0 from h.fragmented])
      | some m =>
          have hsome : p.fragmented = dataOpcode m.1 := h.fragmented
          rw [hsome]
          cases m with
          | mk b sent => cases b <;> rfl

/-! ## Control frames -/

/-- A control frame leaves the message as it is. -/
theorem control_read {o : ReceiverOptions} {u : Unfinished} {p : Parsing} (h : Between u p)
    {opcode : UInt8} {mask : Option Mask} {data framed : Bytes} {event : WsEvent}
    (hframe : frame data ⟨true, mask, opcode⟩ = .ok framed)
    (hop : opcode = 8 ∨ opcode = 9 ∨ opcode = 10) (hmask : mask.isSome = o.isServer)
    (hle : data.length ≤ 125) (hclose : opcode = 8 → data.length ≠ 1)
    (hevent : ∀ q : Parsing, q.opcode = opcode.toNat → q.controlMessage o data = .ok event)
    (rest : Bytes) :
    ∃ q, Between u q ∧
      (reading o).run ⟨some .getInfo, p⟩ (framed ++ rest) =
        ((reading o).run ⟨if event.isLast then none else some .getInfo, q⟩ rest).prepend
          [event] := by
  have hhigh : 0x07 < opcode.toNat := by
    rcases hop with rfl | rfl | rfl <;> decide
  have hadmitted : o.Admits p opcode.toNat data.length := fun hlow => by omega
  have hpass : Passes p true data.length opcode opcode.toNat := .control hop rfl hle hclose
  have hpayload : (p.framed true opcode.toNat mask data.length).payload o data =
      (p.framed true opcode.toNat mask data.length, .ok (some event)) := by
    have hcontrol := hevent (p.framed true opcode.toNat mask data.length) rfl
    unfold Parsing.payload
    rw [hcontrol]
    exact if_pos hhigh
  refine ⟨p.framed true opcode.toNat mask data.length, ?_, ?_⟩
  · have htotal : (p.framed true opcode.toNat mask data.length).totalPayloadLength =
        p.totalPayloadLength := if_neg (by omega)
    exact ⟨h.fragmented, h.fragments, h.messageLength, htotal.trans h.total⟩
  · have hread := frame_read hframe hmask hpass hadmitted rest
    rw [hpayload] at hread
    exact hread

theorem control_ok {opcode : UInt8} {data framed : Bytes} {mask : Option Mask}
    (h : control opcode data mask = .ok framed) :
    frame data ⟨true, mask, opcode⟩ = .ok framed ∧ data.length ≤ 125 := by
  unfold control at h
  split at h
  · cases h
  · next hle => exact ⟨h, Nat.not_lt.mp hle⟩

theorem valid_lt {code : Nat} (h : isValidStatusCode code = true) : code < 65536 := by
  simp only [isValidStatusCode, Bool.or_eq_true, Bool.and_eq_true, decide_eq_true_eq] at h
  omega

/-- The payload of a close frame. -/
theorem close_ok {code : Option Nat} {data framed : Bytes} {mask : Option Mask}
    (h : close code data mask = .ok framed) :
    ∃ buf, frame buf ⟨true, mask, 8⟩ = .ok framed ∧
      ((code = none ∧ buf = []) ∨
        ∃ c, code = some c ∧ isValidStatusCode c = true ∧ data.length ≤ 123 ∧
          buf = uintBE 2 c ++ data) := by
  unfold close at h
  cases code with
  | none => exact ⟨[], h, Or.inl ⟨rfl, rfl⟩⟩
  | some c =>
      cases hvalid : isValidStatusCode c with
      | false => simp [hvalid, bind, Except.bind] at h
      | true =>
          simp only [hvalid, Bool.not_true, Bool.false_eq_true, if_false] at h
          split at h
          · next hempty =>
              refine ⟨uintBE 2 c, h, Or.inr ⟨c, rfl, hvalid, ?_⟩⟩
              simp [hempty]
          · split at h
            · cases h
            · next hle => exact ⟨_, h, Or.inr ⟨c, rfl, hvalid, Nat.not_lt.mp hle, rfl⟩⟩

theorem ping_event {o : ReceiverOptions} {q : Parsing} (hop : q.opcode = 9) {data : Bytes} :
    q.controlMessage o data = .ok (.ping data) := by
  unfold Parsing.controlMessage
  rw [hop]
  rfl

theorem pong_event {o : ReceiverOptions} {q : Parsing} (hop : q.opcode = 10) {data : Bytes} :
    q.controlMessage o data = .ok (.pong data) := by
  unfold Parsing.controlMessage
  rw [hop]
  rfl

theorem no_code_event {o : ReceiverOptions} {q : Parsing} (hop : q.opcode = 8) :
    q.controlMessage o [] = .ok (.conclude 1005 []) := by
  unfold Parsing.controlMessage
  rw [hop]
  rfl

theorem close_event {o : ReceiverOptions} {q : Parsing} (hop : q.opcode = 8) {code : Nat}
    (hvalid : isValidStatusCode code = true) {data : Bytes} (htext : o.Text data) :
    q.controlMessage o (uintBE 2 code ++ data) = .ok (.conclude code data) := by
  have hlen : (uintBE 2 code).length = 2 := length_uintBE 2 code
  have hne : uintBE 2 code ++ data ≠ [] := fun h => by
    rw [(List.append_eq_nil_iff.mp h).1] at hlen
    cases hlen
  have hcode : readUIntBE ((uintBE 2 code ++ data).take 2) = code := by
    rw [List.take_left' hlen, readUIntBE_uintBE]
    exact Nat.mod_eq_of_lt (valid_lt hvalid)
  unfold Parsing.controlMessage
  rw [if_pos hop, if_neg hne]
  dsimp only
  rw [hcode, List.drop_left' hlen, if_neg (by simp [hvalid]),
    if_neg (ReceiverOptions.text_iff.mp htext)]

/-! ## Call after call -/

/-- Nothing is read when there is nothing to read. -/
theorem read_nothing (o : ReceiverOptions) (p : Parsing) :
    ((reading o).run ⟨some .getInfo, p⟩ []).out = [] := by
  rw [Puller.run_idle]
  rintro n ⟨rfl⟩
  decide

/-- Nothing is read after the last event. -/
theorem read_no_more (o : ReceiverOptions) (p : Parsing) (rest : Bytes) :
    ((reading o).run ⟨none, p⟩ rest).out = [] := by
  rw [Puller.run_idle (Puller.idle_of_none rfl rest)]

theorem same_sender_ok {x : Except Thrown Bytes} {sender sender' : Sender} {framed : Bytes}
    (h : x.map (sender, ·) = .ok (sender', framed)) : x = .ok framed ∧ sender' = sender := by
  cases x with
  | error e => cases h
  | ok framed' =>
      cases h
      exact ⟨rfl, rfl⟩

/-- The frames of the calls, read between two frames. -/
theorem calls_read {o : ReceiverOptions} {calls : List (SendCall × Option Mask)} :
    ∀ {u : Unfinished} {p : Parsing} {bytes : Bytes}, Between u p →
      Sender.calls ⟨u.isNone⟩ calls = .ok bytes → (∀ c ∈ calls, c.2.isSome = o.isServer) →
      Acceptable o u (calls.map Prod.fst) →
      ((reading o).run ⟨some .getInfo, p⟩ bytes).out = delivered u (calls.map Prod.fst) := by
  induction calls with
  | nil =>
      intro u p bytes _ hcalls _ _
      cases hcalls
      exact read_nothing o p
  | cons c calls ih =>
      intro u p bytes h hcalls hmasks hacc
      obtain ⟨call, mask⟩ := c
      obtain ⟨⟨sender, framed⟩, hcall, hcalls⟩ := bind_eq_ok.mp hcalls
      obtain ⟨rest, hrest, hbytes⟩ := bind_eq_ok.mp hcalls
      cases hbytes
      have hmask : mask.isSome = o.isServer := hmasks _ (List.mem_cons_self ..)
      have hlater : ∀ c ∈ calls, c.2.isSome = o.isServer := fun c hc =>
        hmasks c (List.mem_cons_of_mem _ hc)
      cases call with
      | send data binary fin =>
          obtain ⟨hfits, hacc⟩ := hacc
          have htext : fin = true → (u.grow data binary).1 = false →
              o.Text (u.grow data binary).2 := fun hfin => by
            rw [if_pos hfin] at hacc
            exact hacc.1
          obtain ⟨q, hq, rfl, hread⟩ := send_read h hcall hmask hfits htext rest
          rw [hread, Puller.Pulled.prepend_out]
          cases fin with
          | true => exact congrArg (WsEvent.message _ _ :: ·) (ih hq hrest hlater hacc.2)
          | false => exact ih hq hrest hlater hacc
      | ping data =>
          obtain ⟨hping, rfl⟩ := same_sender_ok hcall
          obtain ⟨hframe, hle⟩ := control_ok hping
          obtain ⟨q, hq, hread⟩ := control_read h hframe (Or.inr (Or.inl rfl)) hmask hle
            (fun h8 => absurd h8 (by decide)) (fun _ hop => ping_event hop) rest
          rw [hread, Puller.Pulled.prepend_out]
          exact congrArg (WsEvent.ping data :: ·) (ih hq hrest hlater hacc)
      | pong data =>
          obtain ⟨hpong, rfl⟩ := same_sender_ok hcall
          obtain ⟨hframe, hle⟩ := control_ok hpong
          obtain ⟨q, hq, hread⟩ := control_read h hframe (Or.inr (Or.inr rfl)) hmask hle
            (fun h8 => absurd h8 (by decide)) (fun _ hop => pong_event hop) rest
          rw [hread, Puller.Pulled.prepend_out]
          exact congrArg (WsEvent.pong data :: ·) (ih hq hrest hlater hacc)
      | close code data =>
          obtain ⟨hclose, -⟩ := same_sender_ok hcall
          obtain ⟨buf, hframe, ⟨rfl, rfl⟩ | ⟨c, rfl, hvalid, hle, rfl⟩⟩ := close_ok hclose
          · obtain ⟨q, hq, hread⟩ := control_read h hframe (Or.inl rfl) hmask (Nat.zero_le _)
              (fun _ => Nat.zero_ne_one) (fun _ hop => no_code_event hop) rest
            rw [hread, Puller.Pulled.prepend_out]
            exact congrArg (WsEvent.conclude 1005 [] :: ·) (read_no_more o q rest)
          · have hlen : (uintBE 2 c ++ data).length = 2 + data.length := by
              rw [List.length_append, length_uintBE]
            obtain ⟨q, hq, hread⟩ := control_read h hframe (Or.inl rfl) hmask (by omega)
              (fun _ => by omega) (fun _ hop => close_event hop hvalid hacc) rest
            rw [hread, Puller.Pulled.prepend_out]
            exact congrArg (WsEvent.conclude c data :: ·) (read_no_more o q rest)

/-- However the frames of the calls are cut into chunks on their way, the receiver's events are
those that follow from the calls, in order: whole messages with the control frames between
them. -/
theorem sent_received (o : ReceiverOptions) (calls : List (SendCall × Option Mask))
    (bytes : Bytes) (steps : List InputStep) (s : Inflow)
    (hsent : Sender.calls ⟨true⟩ calls = .ok bytes)
    (hmasks : ∀ c ∈ calls, c.2.isSome = o.isServer)
    (haccept : Acceptable o none (calls.map Prod.fst))
    (hrun : Machine.exec (Inflow.step o) .new steps = some s) (harrived : s.arrived <+: bytes) :
    s.emitted <+: delivered none (calls.map Prod.fst) ∧
      (s.arrived = bytes → s.input.step o .task = none →
        s.emitted = delivered none (calls.map Prod.fst)) := by
  have hread : events o bytes = delivered none (calls.map Prod.fst) :=
    calls_read .new hsent hmasks haccept
  have hreads := inflow_reads hrun
  have hbegins : events o s.arrived <+: delivered none (calls.map Prod.fst) := by
    obtain ⟨more, rfl⟩ := harrived
    rw [← hread]
    exact Puller.out_begins _ _ _
  have hclean : (events o s.arrived).any WsEvent.isFailure = false := by
    obtain ⟨rest, hrest⟩ := hbegins
    have hall := delivered_any none (calls.map Prod.fst)
    rw [← hrest, List.any_append, Bool.or_eq_false_iff] at hall
    exact hall.1
  rw [← hreads.emitted_clean hclean]
  refine ⟨hreads.emitted_begins.trans hbegins, fun hall hquiet => ?_⟩
  rw [hreads.emitted_all hquiet, hall, hread]

/-- A text in two fragments, with a ping between them, in two chunks. -/
theorem sent_received_fragments :
    let o : ReceiverOptions := .server none
    let calls : List (SendCall × Option Mask) :=
      [(.send (ascii "h") false false, some ⟨1, 2, 3, 4⟩), (.ping [], some ⟨0, 0, 0, 0⟩),
        (.send (ascii "i") true true, some ⟨1, 2, 3, 4⟩)]
    let steps : List InputStep :=
      [.data [0x01, 0x81, 1, 2, 3], .data [4, 0x69, 0x89, 0x80, 0, 0, 0, 0, 0x80, 0x81, 1, 2, 3],
        .task, .data [4, 0x68], .task]
    ∃ bytes s, Sender.calls ⟨true⟩ calls = .ok bytes ∧
      Machine.exec (Inflow.step o) .new steps = some s ∧ s.arrived = bytes ∧
      s.emitted <+: delivered none (calls.map Prod.fst) ∧
      (s.input.step o .task = none → s.emitted = [.ping [], .message (ascii "hi") false]) := by
  intro o calls steps
  let bytes : Bytes := [0x01, 0x81, 1, 2, 3, 4, 0x69, 0x89, 0x80, 0, 0, 0, 0, 0x80, 0x81, 1, 2, 3,
    4, 0x68]
  have hcalls : Sender.calls ⟨true⟩ calls = .ok bytes := by decide +kernel
  have harrived : (Machine.exec (Inflow.step o) .new steps).map Inflow.arrived = some bytes := by
    decide +kernel
  have haccept : Acceptable o none (calls.map Prod.fst) :=
    ⟨Or.inr (by decide), Or.inr (by decide), fun _ => Or.inr (by decide), trivial⟩
  obtain ⟨s, hs, hbytes⟩ := Option.map_eq_some_iff.mp harrived
  have hsent := sent_received o calls bytes steps s hcalls (by decide) haccept hs
    (hbytes ▸ List.prefix_refl _)
  exact ⟨bytes, s, hcalls, hs, hbytes, hsent.1, hsent.2 hbytes⟩

end AsioServer.Ws
