import Mathlib.Logic.Function.Basic
import AsioServer.Ref.SqlText

/-!
# Bound variables (`sqlstatement` of `_mysql.h`, `_mysql.cpp`)

`prepare`, the sixteen functions that bind a variable to a position, and
`execute`. A statement keeps an array of 256 descriptions for the input and one
for the output, and MySQL is handed the addresses in them: what a variable holds
is read when the statement is executed, so `execute` gets the memory as it is
then. `mysql_stmt_bind_param` copies the descriptions, the number of parameters
of them, and MySQL gives the `j`-th question mark what the `j`-th describes.

An address is a number and 0 is the null pointer; the caller's variables are not
there. Positions are `unsigned int`, so the index of position 0 is the largest
of that type. Of `m_conn` only the error record and the row count are written,
which nothing here reads; they are left out, as is `m_cda.rpc` after a fetch.
-/

namespace AsioServer

/-- `enum_field_types`. What `memset` leaves is the first. -/
inductive FieldType where
  | decimal
  | long
  | float
  | double
  | longlong
  | varString
  | blob
  deriving DecidableEq

abbrev Address := Nat

/-- The bytes from an address on. -/
abbrev Variables := Address → Bytes

/-- Where a length stands: nowhere, in `params_in_length`, or in a variable of
the caller. -/
inductive LengthAddress where
  | null
  | paramsInLength (i : Fin maxParams)
  | size (address : Address)
  deriving DecidableEq

/-- `MYSQL_BIND`. `is_null` is null or leads into `params_in_is_null`. -/
structure MysqlBind where
  bufferType : FieldType
  buffer : Address
  bufferLength : Nat
  length : LengthAddress
  isNull : Option (Fin maxParams)
  deriving DecidableEq

/-- What `memset` leaves. -/
def MysqlBind.zero : MysqlBind := ⟨.decimal, 0, 0, .null, none⟩

/-- `CDA_DEF`. -/
structure Cda where
  rc : Int
  rpc : Nat
  message : Bytes
  deriving DecidableEq

def Cda.zero : Cda := ⟨0, 0, []⟩

/-- What is read of `MYSQL_STMT`, and the descriptions bound to it. -/
structure MysqlStmt where
  paramCount : Nat
  fieldCount : Nat
  bindParamDone : Bool
  bindResultDone : Bool
  params : List MysqlBind
  results : List MysqlBind

structure Sqlstatement where
  mState : Bool
  mHandle : MysqlStmt
  paramsIn : Fin maxParams → MysqlBind
  paramsInLength : Fin maxParams → Nat
  paramsInIsNull : Fin maxParams → Bool
  maxbindin : Nat
  paramsOut : Fin maxParams → MysqlBind
  mCda : Cda
  mCda1 : Cda
  mSqltype : Nat
  mSql : Bytes

/-! ## The client library -/

/-- `mysql_stmt_errno` and `mysql_stmt_error` after a call that failed. -/
structure MysqlError where
  errno : Int
  error : Bytes
  failed : errno ≠ 0

/-- What arrives for one question mark. -/
inductive Received where
  | null
  | data (type : FieldType) (bytes : Bytes)
  deriving DecidableEq

/-- `prepare` answers with the numbers of parameters and of fields, `execute`
with the number of rows; the other two succeed or fail. -/
structure MysqlLib where
  prepare : Bytes → Except MysqlError (Nat × Nat)
  bindParam : List MysqlBind → Option MysqlError
  bindResult : List MysqlBind → Option MysqlError
  execute : Bytes → List Received → Except MysqlError Nat

/-! ## `prepare` -/

/-- The exit of every function when `m_state` is 0. -/
def Sqlstatement.notOpen (st : Sqlstatement) : Sqlstatement :=
  { st with mCda := { st.mCda with rc := -1, message := ascii "cursor not open.\n" } }

/-- `err_report`. -/
def Sqlstatement.errReport (st : Sqlstatement) (e : MysqlError) : Sqlstatement :=
  if st.mState then
    { st with mCda := { st.mCda with
        rc := e.errno
        message := (decimal e.errno ++ ascii "," ++ cStr e.error).take 1999 } }
  else st.notOpen

/-- `MY__ToUpper`, for one character. -/
def myToUpper (c : UInt8) : UInt8 := if 97 ≤ c && c ≤ 122 then c - 32 else c

/-- `m_sqltype`: 0 for a text that begins with `select`. -/
def sqltype (sql : Bytes) : Nat :=
  if ascii "SELECT" <+: ((sql.take 30).map myToUpper).dropWhile (· == 32) then 0 else 1

/-- `mysql_stmt_prepare` leaves a statement that nothing is bound to. -/
def MysqlStmt.prepared (paramCount fieldCount : Nat) : MysqlStmt :=
  ⟨paramCount, fieldCount, false, false, [], []⟩

/-- What `prepare` leaves when MySQL takes the text. -/
def Sqlstatement.prepared (st : Sqlstatement) (sql : Bytes) (counts : Nat × Nat) : Sqlstatement :=
  { st with
    mSql := sql
    mHandle := .prepared counts.1 counts.2
    mSqltype := sqltype sql
    paramsIn := fun _ => .zero
    paramsOut := fun _ => .zero
    maxbindin := 0 }

/-- What `prepare` leaves when MySQL refuses the text. -/
def Sqlstatement.refused (st : Sqlstatement) (sql : Bytes) (e : MysqlError) : Sqlstatement :=
  let st := Sqlstatement.errReport { st with mSql := sql } e
  { st with mCda1 := st.mCda }

/-- `prepare(fmt, ...)`: the statement and what is returned. -/
def Sqlstatement.prepare (mysql : MysqlLib) (st : Sqlstatement) (fmt : Bytes) (args : List Arg) :
    Except Fault (Sqlstatement × Int) :=
  let st := { st with mCda := .zero }
  if !st.mState then .ok (st.notOpen, -1)
  else do
    let sql ← Sqlstatement.formatPrepare fmt args
    let sql ← translate sql
    match mysql.prepare sql with
    | .error e => .ok (st.refused sql e, (st.refused sql e).mCda.rc)
    | .ok counts => .ok (st.prepared sql counts, 0)

/-! ## Binding -/

/-- The check of the position. It records the error, and the call goes on. -/
def Sqlstatement.checkPosition (st : Sqlstatement) (position : UInt32) (count : Nat) :
    Sqlstatement :=
  if position < 1 ∨ maxParams ≤ position.toNat ∨ count < position.toNat then
    { st with mCda := { st.mCda with rc := -1, message := ascii "array bound." } }
  else st

/-- `position-1`, as an index into one of the arrays. -/
def slot (position : UInt32) : Except Fault (Fin maxParams) :=
  if h : (position - 1).toNat < maxParams then .ok ⟨(position - 1).toNat, h⟩
  else .error .outOfBounds

/-- The bodies of `bindin` and `bindinlob`, which differ in what they write. -/
def Sqlstatement.bindinWith (write : Fin maxParams → MysqlBind → MysqlBind) (st : Sqlstatement)
    (position : UInt32) : Except Fault (Sqlstatement × Int) :=
  if !st.mState then .ok (st.notOpen, -1)
  else
    let st := st.checkPosition position st.mHandle.paramCount
    (slot position).map fun i =>
      ({ st with
          paramsIn := Function.update st.paramsIn i (write i (st.paramsIn i))
          maxbindin := if st.maxbindin < position.toNat then position.toNat else st.maxbindin }, 0)

/-- `bindin(position, int*)`. -/
def Sqlstatement.bindinInt (value : Address) :=
  Sqlstatement.bindinWith fun _ b => { b with bufferType := .long, buffer := value }

/-- `bindin(position, long*)`. -/
def Sqlstatement.bindinLong (value : Address) :=
  Sqlstatement.bindinWith fun _ b => { b with bufferType := .longlong, buffer := value }

/-- `bindin(position, unsigned int*)`. -/
def Sqlstatement.bindinUnsignedInt (value : Address) :=
  Sqlstatement.bindinWith fun _ b => { b with bufferType := .long, buffer := value }

/-- `bindin(position, unsigned long*)`. -/
def Sqlstatement.bindinUnsignedLong (value : Address) :=
  Sqlstatement.bindinWith fun _ b => { b with bufferType := .longlong, buffer := value }

/-- `bindin(position, char*, len)`, which does not read `len`. -/
def Sqlstatement.bindinChars (value : Address) (_len : UInt32) :=
  Sqlstatement.bindinWith fun i b =>
    { b with bufferType := .varString, buffer := value, length := .paramsInLength i,
             isNull := some i }

def Sqlstatement.bindinlob (buffer size : Address) :=
  Sqlstatement.bindinWith fun i b =>
    { b with bufferType := .blob, buffer := buffer, length := .size size, isNull := some i }

/-- `bindin(position, float*)`. -/
def Sqlstatement.bindinFloat (value : Address) :=
  Sqlstatement.bindinWith fun _ b => { b with bufferType := .float, buffer := value }

/-- `bindin(position, double*)`. -/
def Sqlstatement.bindinDouble (value : Address) :=
  Sqlstatement.bindinWith fun _ b => { b with bufferType := .double, buffer := value }

/-- The bodies of `bindout` and `bindoutlob`. -/
def Sqlstatement.bindoutWith (write : MysqlBind → MysqlBind) (st : Sqlstatement)
    (position : UInt32) : Except Fault (Sqlstatement × Int) :=
  if !st.mState then .ok (st.notOpen, -1)
  else
    let st := st.checkPosition position st.mHandle.fieldCount
    (slot position).map fun i =>
      ({ st with paramsOut := Function.update st.paramsOut i (write (st.paramsOut i)) }, 0)

/-- `bindout(position, int*)`. -/
def Sqlstatement.bindoutInt (value : Address) :=
  Sqlstatement.bindoutWith fun b => { b with bufferType := .long, buffer := value }

/-- `bindout(position, long*)`. -/
def Sqlstatement.bindoutLong (value : Address) :=
  Sqlstatement.bindoutWith fun b => { b with bufferType := .longlong, buffer := value }

/-- `bindout(position, unsigned int*)`. -/
def Sqlstatement.bindoutUnsignedInt (value : Address) :=
  Sqlstatement.bindoutWith fun b => { b with bufferType := .long, buffer := value }

/-- `bindout(position, unsigned long*)`. -/
def Sqlstatement.bindoutUnsignedLong (value : Address) :=
  Sqlstatement.bindoutWith fun b => { b with bufferType := .longlong, buffer := value }

/-- `bindout(position, char*, len)`. -/
def Sqlstatement.bindoutChars (value : Address) (len : UInt32) :=
  Sqlstatement.bindoutWith fun b =>
    { b with bufferType := .varString, buffer := value, bufferLength := len.toNat }

def Sqlstatement.bindoutlob (buffer : Address) (buffersize : UInt64) (size : Address) :=
  Sqlstatement.bindoutWith fun b =>
    { b with bufferType := .blob, length := .size size, buffer := buffer,
             bufferLength := buffersize.toNat }

/-- `bindout(position, float*)`. -/
def Sqlstatement.bindoutFloat (value : Address) :=
  Sqlstatement.bindoutWith fun b => { b with bufferType := .float, buffer := value }

/-- `bindout(position, double*)`. -/
def Sqlstatement.bindoutDouble (value : Address) :=
  Sqlstatement.bindoutWith fun b => { b with bufferType := .double, buffer := value }

/-! ## `execute` -/

/-- Little-endian. -/
def leNat : Bytes → Nat
  | [] => 0
  | b :: bs => b.toNat + 256 * leNat bs

/-- `*length`; without such an address MySQL takes `buffer_length`. -/
def Sqlstatement.loadLength (vars : Variables) (st : Sqlstatement) (b : MysqlBind) : Nat :=
  match b.length with
  | .null => b.bufferLength
  | .paramsInLength i => st.paramsInLength i
  | .size address => leNat ((vars address).take 8)

/-- `params_in_is_null[ii]` after the loop. Each round reads and writes the
entries of its own index. -/
def Sqlstatement.isNullAfter (vars : Variables) (st : Sqlstatement) (ii : Fin maxParams) : Bool :=
  if ii.val < st.maxbindin then
    match (st.paramsIn ii).bufferType with
    | .varString => (cStr (vars (st.paramsIn ii).buffer)).length == 0
    | .blob => st.loadLength vars (st.paramsIn ii) == 0
    | _ => st.paramsInIsNull ii
  else st.paramsInIsNull ii

/-- `params_in_length[ii]` after the loop. -/
def Sqlstatement.lengthAfter (vars : Variables) (st : Sqlstatement) (ii : Fin maxParams) : Nat :=
  if ii.val < st.maxbindin ∧ (st.paramsIn ii).bufferType = .varString ∧
      (cStr (vars (st.paramsIn ii).buffer)).length ≠ 0 then
    (cStr (vars (st.paramsIn ii).buffer)).length
  else st.paramsInLength ii

/-- The loop over the strings and blobs that may be empty. -/
def Sqlstatement.markNulls (vars : Variables) (st : Sqlstatement) : Sqlstatement :=
  { st with paramsInIsNull := st.isNullAfter vars, paramsInLength := st.lengthAfter vars }

/-- What MySQL takes from a description when the statement is executed. -/
def Sqlstatement.send (vars : Variables) (st : Sqlstatement) (b : MysqlBind) : Received :=
  if (b.isNull.map st.paramsInIsNull).getD false then .null
  else
    match b.bufferType with
    | .long | .float => .data b.bufferType ((vars b.buffer).take 4)
    | .longlong | .double => .data b.bufferType ((vars b.buffer).take 8)
    | .decimal | .varString | .blob =>
        .data b.bufferType ((vars b.buffer).take (st.loadLength vars b))

/-- The first descriptions of an array. -/
def firstBinds (binds : Fin maxParams → MysqlBind) (count : Nat) : Except Fault (List MysqlBind) :=
  if count ≤ maxParams then .ok ((List.ofFn binds).take count) else .error .outOfBounds

/-- `mysql_stmt_bind_param`, if there are parameters that nothing is bound to;
and the error if it fails. -/
def Sqlstatement.bindParam (mysql : MysqlLib) (st : Sqlstatement) :
    Except Fault (Sqlstatement × Option MysqlError) :=
  if 0 < st.mHandle.paramCount ∧ !st.mHandle.bindParamDone then
    (firstBinds st.paramsIn st.mHandle.paramCount).map fun binds =>
      match mysql.bindParam binds with
      | some e => (st, some e)
      | none =>
          ({ st with mHandle := { st.mHandle with bindParamDone := true, params := binds } }, none)
  else .ok (st, none)

/-- `mysql_stmt_bind_result`, likewise. -/
def Sqlstatement.bindResult (mysql : MysqlLib) (st : Sqlstatement) :
    Except Fault (Sqlstatement × Option MysqlError) :=
  if 0 < st.mHandle.fieldCount ∧ !st.mHandle.bindResultDone then
    (firstBinds st.paramsOut st.mHandle.fieldCount).map fun binds =>
      match mysql.bindResult binds with
      | some e => (st, some e)
      | none =>
          ({ st with mHandle := { st.mHandle with bindResultDone := true, results := binds } }, none)
  else .ok (st, none)

/-- What a call of `execute` leaves, returns, and has handed to MySQL. -/
structure Executed where
  statement : Sqlstatement
  rc : Int
  received : Option (List Received)

/-- The exit when a call of the library fails. -/
def Sqlstatement.failed (st : Sqlstatement) (e : MysqlError) (received : Option (List Received)) :
    Executed :=
  ⟨st.errReport e, (st.errReport e).mCda.rc, received⟩

/-- The last part: the statement is executed with everything bound. -/
def Sqlstatement.run (mysql : MysqlLib) (vars : Variables) (st : Sqlstatement) : Executed :=
  let st := st.markNulls vars
  let received := st.mHandle.params.map (st.send vars)
  match mysql.execute st.mSql received with
  | .error e =>
      let st := st.errReport e
      let st := if st.mCda.rc = 1243 then { st with mCda := st.mCda1 } else st
      ⟨st, st.mCda.rc, some received⟩
  | .ok rows =>
      let st := if st.mSqltype = 1 then { st with mCda := { st.mCda with rpc := rows } } else st
      ⟨st, 0, some received⟩

def Sqlstatement.execute (mysql : MysqlLib) (vars : Variables) (st : Sqlstatement) :
    Except Fault Executed :=
  let st := { st with mCda := .zero }
  if !st.mState then .ok ⟨st.notOpen, -1, none⟩
  else
    (st.bindParam mysql).bind fun bound =>
      match bound.2 with
      | some e => .ok (bound.1.failed e none)
      | none =>
          (bound.1.bindResult mysql).map fun done =>
            match done.2 with
            | some e => done.1.failed e none
            | none => done.1.run mysql vars

end AsioServer
