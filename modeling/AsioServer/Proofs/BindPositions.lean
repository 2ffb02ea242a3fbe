import AsioServer.Ref.Binding

/-!
# The position given to a binding

Every one of the sixteen functions records an error for a position outside its
bounds, and none of them stops there. So a position above the number of
parameters is bound and reported as a success as long as it is one of the 256 of
the array, and any other illegal one is written to outside the array. Position
256 is legal and bound; the error is recorded for it all the same.
-/

namespace AsioServer

/-- The functions that bind an input, with what they are given. -/
inductive BindIn where
  | int (value : Address)
  | long (value : Address)
  | unsignedInt (value : Address)
  | unsignedLong (value : Address)
  | chars (value : Address) (len : UInt32)
  | lob (buffer size : Address)
  | float (value : Address)
  | double (value : Address)

def BindIn.call : BindIn → Sqlstatement → UInt32 → Except Fault (Sqlstatement × Int)
  | .int value => Sqlstatement.bindinInt value
  | .long value => Sqlstatement.bindinLong value
  | .unsignedInt value => Sqlstatement.bindinUnsignedInt value
  | .unsignedLong value => Sqlstatement.bindinUnsignedLong value
  | .chars value len => Sqlstatement.bindinChars value len
  | .lob buffer size => Sqlstatement.bindinlob buffer size
  | .float value => Sqlstatement.bindinFloat value
  | .double value => Sqlstatement.bindinDouble value

/-- What it writes into a slot. -/
def BindIn.write : BindIn → Fin maxParams → MysqlBind → MysqlBind
  | .int value, _, b => { b with bufferType := .long, buffer := value }
  | .long value, _, b => { b with bufferType := .longlong, buffer := value }
  | .unsignedInt value, _, b => { b with bufferType := .long, buffer := value }
  | .unsignedLong value, _, b => { b with bufferType := .longlong, buffer := value }
  | .chars value _, i, b =>
      { b with bufferType := .varString, buffer := value, length := .paramsInLength i,
               isNull := some i }
  | .lob buffer size, i, b =>
      { b with bufferType := .blob, buffer := buffer, length := .size size, isNull := some i }
  | .float value, _, b => { b with bufferType := .float, buffer := value }
  | .double value, _, b => { b with bufferType := .double, buffer := value }

theorem BindIn.call_eq (b : BindIn) : b.call = Sqlstatement.bindinWith b.write := by
  cases b <;> rfl

/-- The functions that bind an output. -/
inductive BindOut where
  | int (value : Address)
  | long (value : Address)
  | unsignedInt (value : Address)
  | unsignedLong (value : Address)
  | chars (value : Address) (len : UInt32)
  | lob (buffer : Address) (buffersize : UInt64) (size : Address)
  | float (value : Address)
  | double (value : Address)

def BindOut.call : BindOut → Sqlstatement → UInt32 → Except Fault (Sqlstatement × Int)
  | .int value => Sqlstatement.bindoutInt value
  | .long value => Sqlstatement.bindoutLong value
  | .unsignedInt value => Sqlstatement.bindoutUnsignedInt value
  | .unsignedLong value => Sqlstatement.bindoutUnsignedLong value
  | .chars value len => Sqlstatement.bindoutChars value len
  | .lob buffer buffersize size => Sqlstatement.bindoutlob buffer buffersize size
  | .float value => Sqlstatement.bindoutFloat value
  | .double value => Sqlstatement.bindoutDouble value

def BindOut.write : BindOut → MysqlBind → MysqlBind
  | .int value, b => { b with bufferType := .long, buffer := value }
  | .long value, b => { b with bufferType := .longlong, buffer := value }
  | .unsignedInt value, b => { b with bufferType := .long, buffer := value }
  | .unsignedLong value, b => { b with bufferType := .longlong, buffer := value }
  | .chars value len, b =>
      { b with bufferType := .varString, buffer := value, bufferLength := len.toNat }
  | .lob buffer buffersize size, b =>
      { b with bufferType := .blob, length := .size size, buffer := buffer,
               bufferLength := buffersize.toNat }
  | .float value, b => { b with bufferType := .float, buffer := value }
  | .double value, b => { b with bufferType := .double, buffer := value }

theorem BindOut.call_eq (b : BindOut) : b.call = Sqlstatement.bindoutWith b.write := by
  cases b <;> rfl

inductive Overload where
  | input (b : BindIn)
  | output (b : BindOut)

def Overload.call : Overload → Sqlstatement → UInt32 → Except Fault (Sqlstatement × Int)
  | .input b => b.call
  | .output b => b.call

/-- How many positions the statement has. -/
def Overload.count (st : Sqlstatement) : Overload → Nat
  | .input _ => st.mHandle.paramCount
  | .output _ => st.mHandle.fieldCount

/-- The positions of the statement that are in the array. -/
def Legal (st : Sqlstatement) (o : Overload) (position : UInt32) : Prop :=
  1 ≤ position.toNat ∧ position.toNat ≤ o.count st ∧ position.toNat ≤ maxParams

/-- The call fails and leaves what is bound. -/
def Refuses (st : Sqlstatement) (o : Overload) (position : UInt32) : Prop :=
  ∃ st' rc, o.call st position = .ok (st', rc) ∧ rc ≠ 0 ∧ st'.paramsIn = st.paramsIn ∧
    st'.paramsOut = st.paramsOut ∧ st'.paramsInIsNull = st.paramsInIsNull ∧
    st'.maxbindin = st.maxbindin

/-- Nothing else has changed but the error record. -/
def OnlySlot (st st' : Sqlstatement) (i : Fin maxParams) : Overload → Prop
  | .input _ => ∃ b, st' = { st with
      paramsIn := Function.update st.paramsIn i b
      maxbindin := max st.maxbindin (i.val + 1)
      mCda := st'.mCda }
  | .output _ => ∃ b, st' = { st with
      paramsOut := Function.update st.paramsOut i b
      mCda := st'.mCda }

/-- The call returns 0 and changes only the slot of its position. -/
def Binds (st : Sqlstatement) (o : Overload) (position : UInt32) : Prop :=
  ∃ st', o.call st position = .ok (st', 0) ∧
    ∃ i : Fin maxParams, i.val + 1 = position.toNat ∧ OnlySlot st st' i o

/-- The error record after a call. -/
def cdaAfter (st : Sqlstatement) (o : Overload) (position : UInt32) : Cda :=
  (st.checkPosition position (o.count st)).mCda

theorem slot_eq {position : UInt32} (hpos : 1 ≤ position.toNat) (hle : position.toNat ≤ maxParams) :
    ∃ i : Fin maxParams, i.val + 1 = position.toNat ∧ slot position = .ok i := by
  have hsub : (position - 1).toNat = position.toNat - 1 :=
    UInt32.toNat_sub_of_le _ _ (UInt32.le_iff_toNat_le.mpr hpos)
  have hlt : (position - 1).toNat < maxParams := by
    unfold maxParams at hle ⊢
    omega
  refine ⟨⟨(position - 1).toNat, hlt⟩, ?_, ?_⟩
  · show (position - 1).toNat + 1 = _
    omega
  · unfold slot
    rw [dif_pos hlt]

/-! ## One call -/

theorem checkPosition_eq (st : Sqlstatement) (position : UInt32) (count : Nat) :
    st.checkPosition position count =
      { st with mCda := (st.checkPosition position count).mCda } := by
  unfold Sqlstatement.checkPosition
  split <;> rfl

/-- What a binding in a slot of the array leaves. -/
theorem bindinWith_eq {write : Fin maxParams → MysqlBind → MysqlBind} {st : Sqlstatement}
    {position : UInt32} {i : Fin maxParams} (hopen : st.mState = true)
    (hslot : slot position = .ok i) :
    Sqlstatement.bindinWith write st position =
      .ok ({ st with
        paramsIn := Function.update st.paramsIn i (write i (st.paramsIn i))
        maxbindin := if st.maxbindin < position.toNat then position.toNat else st.maxbindin
        mCda := (st.checkPosition position st.mHandle.paramCount).mCda }, 0) := by
  rw [Sqlstatement.bindinWith, if_neg (by rw [hopen]; decide), hslot, checkPosition_eq]
  rfl

/-- A statement that is open reports a success whenever it returns. -/
theorem Overload.call_rc {o : Overload} {st st' : Sqlstatement} {position : UInt32} {rc : Int}
    (hopen : st.mState = true) (h : o.call st position = .ok (st', rc)) : rc = 0 := by
  cases o with
  | input b =>
      rw [Overload.call, b.call_eq, Sqlstatement.bindinWith, hopen] at h
      obtain ⟨i, -, hst'⟩ := map_eq_ok.mp h
      exact (Prod.mk.inj hst').2.symm
  | output b =>
      rw [Overload.call, b.call_eq, Sqlstatement.bindoutWith, hopen] at h
      obtain ⟨i, -, hst'⟩ := map_eq_ok.mp h
      exact (Prod.mk.inj hst').2.symm

/-- A legal position is bound, and the check leaves what it records. -/
theorem Overload.call_legal {o : Overload} {st : Sqlstatement} {position : UInt32}
    (hopen : st.mState = true) (h : Legal st o position) :
    ∃ st', o.call st position = .ok (st', 0) ∧ st'.mCda = cdaAfter st o position ∧
      ∃ i : Fin maxParams, i.val + 1 = position.toNat ∧ OnlySlot st st' i o := by
  obtain ⟨hpos, -, hle⟩ := h
  obtain ⟨i, hi, hslot⟩ := slot_eq hpos hle
  cases o with
  | input b =>
      rw [Overload.call, b.call_eq, bindinWith_eq hopen hslot]
      refine ⟨_, rfl, rfl, i, hi, b.write i (st.paramsIn i), ?_⟩
      have hmax : (if st.maxbindin < position.toNat then position.toNat else st.maxbindin) =
          max st.maxbindin (i.val + 1) := by
        rw [hi]
        split <;> omega
      rw [← hmax]
  | output b =>
      rw [Overload.call, b.call_eq, Sqlstatement.bindoutWith, hopen]
      dsimp only [Bool.not_true]
      rw [hslot, checkPosition_eq]
      exact ⟨_, rfl, rfl, i, hi, b.write (st.paramsOut i), rfl⟩

theorem cdaAfter_legal {o : Overload} {st : Sqlstatement} {position : UInt32}
    (h : Legal st o position) :
    cdaAfter st o position =
      if position.toNat = maxParams then
        { st.mCda with rc := -1, message := ascii "array bound." }
      else st.mCda := by
  obtain ⟨hpos, hcount, hle⟩ := h
  have hone : ¬ position < 1 := by
    rw [UInt32.lt_iff_toNat_lt]
    exact Nat.not_lt.mpr hpos
  unfold cdaAfter Sqlstatement.checkPosition
  by_cases hmax : position.toNat = maxParams
  · rw [if_pos (Or.inr (Or.inl hmax.ge)), if_pos hmax]
  · rw [if_neg hmax, if_neg]
    rintro (h | h | h)
    · exact hone h
    · omega
    · omega

/-- Every function that binds does what its check is for exactly when the
position is legal. A legal one leaves the error record as it was, except that
the last slot of the array counts as an error. -/
theorem binding_checks_iff (o : Overload) (st : Sqlstatement) (hopen : st.mState = true)
    (position : UInt32) :
    (((¬ Legal st o position → Refuses st o position) ∧
        (Legal st o position → Binds st o position)) ↔ Legal st o position) ∧
      (Legal st o position → ∀ st', o.call st position = .ok (st', 0) →
        st'.mCda = if position.toNat = maxParams then
          { st.mCda with rc := -1, message := ascii "array bound." } else st.mCda) := by
  refine ⟨⟨fun h => ?_, fun h => ⟨fun hnot => absurd h hnot, fun _ => ?_⟩⟩, fun h st' hcall => ?_⟩
  · by_contra hnot
    obtain ⟨st', rc, hcall, hrc, -⟩ := h.1 hnot
    exact hrc (Overload.call_rc hopen hcall)
  · obtain ⟨st', hcall, -, hslot⟩ := Overload.call_legal hopen h
    exact ⟨st', hcall, hslot⟩
  · obtain ⟨st'', hcall', hcda, -⟩ := Overload.call_legal hopen h
    rw [hcall] at hcall'
    rw [(Prod.mk.inj (Except.ok.inj hcall')).1, hcda, cdaAfter_legal h]

/-- Nothing bound yet, in a statement with so many parameters. -/
def freshStatement (paramCount : Nat) : Sqlstatement where
  mState := true
  mHandle := .prepared paramCount 0
  paramsIn := fun _ => .zero
  paramsInLength := fun _ => 0
  paramsInIsNull := fun _ => false
  maxbindin := 0
  paramsOut := fun _ => .zero
  mCda := .zero
  mCda1 := .zero
  mSqltype := 1
  mSql := []

theorem binding_checks_iff_first :
    (((¬ Legal (freshStatement 1) (.input (.int 8)) 1 →
          Refuses (freshStatement 1) (.input (.int 8)) 1) ∧
        (Legal (freshStatement 1) (.input (.int 8)) 1 →
          Binds (freshStatement 1) (.input (.int 8)) 1)) ↔
        Legal (freshStatement 1) (.input (.int 8)) 1) ∧
      (Legal (freshStatement 1) (.input (.int 8)) 1 → ∀ st',
        (Overload.input (.int 8)).call (freshStatement 1) 1 = .ok (st', 0) →
        st'.mCda = if (1 : UInt32).toNat = maxParams then
          { (freshStatement 1).mCda with rc := -1, message := ascii "array bound." }
          else (freshStatement 1).mCda) :=
  binding_checks_iff (.input (.int 8)) (freshStatement 1) rfl 1

/-- The second position of a statement with one parameter. -/
theorem binding_not_checked :
    ¬ ∀ (o : Overload) (st : Sqlstatement) (position : UInt32), st.mState = true →
      (¬ Legal st o position → Refuses st o position) ∧
        (Legal st o position → Binds st o position) := by
  intro hall
  obtain ⟨st', rc, hcall, hrc, -⟩ := (hall (.input (.int 8)) (freshStatement 1) 2 rfl).1
    fun h => absurd h.2.1 (by decide)
  exact hrc (Overload.call_rc rfl hcall)

end AsioServer
