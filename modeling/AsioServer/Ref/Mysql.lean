import AsioServer.Ref.Memory

/-!
# The connection object (`_mysql.h`, `_mysql.cpp`)

`connection` with its two members `m_state` and `m_conn`, and every call of the
MySQL client library it makes, in order. `Connection` of `Ref/Database` is what
this object is to the functions of the model classes; here it is the object
itself, under any sequence of its member functions.

A handle is a number, and the library never gives one out twice; a null pointer
is no handle. `Answers` says what the library answers during one member
function, which calls each of the library's functions at most once, except
those that read out an error. The error record `m_cda`, the login parameters
and the texts of statements decide nothing here and are left out.
-/

namespace AsioServer.Mysql

abbrev Handle := Nat

/-- The functions that take a handle and leave it open. -/
inductive Fn where
  | realConnect
  | autocommit
  | setCharacterSet
  | commit
  | rollback
  | errno
  | error
  | stmtPrepare
  | stmtBindParam
  | stmtBindResult
  | stmtExecute
  | stmtErrno
  | stmtError
  deriving DecidableEq, Repr

/-- A call of the library. `mysql_init` and `mysql_stmt_init` return a handle
or null. -/
inductive Call where
  | init (result : Option Handle)
  | stmtInit (conn result : Option Handle)
  | on (fn : Fn) (handle : Option Handle)
  | close (handle : Option Handle)
  | stmtClose (handle : Option Handle)
  deriving DecidableEq, Repr

/-- Which calls succeed, and whether the statement has parameters and a
result. -/
structure Answers where
  init : Bool
  realConnect : Bool
  autocommit : Bool
  stmtInit : Bool
  stmtPrepare : Bool
  hasParams : Bool
  stmtBindParam : Bool
  hasFields : Bool
  stmtBindResult : Bool
  stmtExecute : Bool
  commit : Bool
  rollback : Bool

/-- All calls succeed. -/
def Answers.good : Answers where
  init := true
  realConnect := true
  autocommit := true
  stmtInit := true
  stmtPrepare := true
  hasParams := false
  stmtBindParam := true
  hasFields := false
  stmtBindResult := true
  stmtExecute := true
  commit := true
  rollback := true

/-- `next` is the handle the library gives out next. -/
structure Connection where
  mState : Bool
  mConn : Option Handle
  calls : List Call
  next : Handle

/-- The constructor. -/
def Connection.new : Connection where
  mState := false
  mConn := none
  calls := []
  next := 0

def Connection.record (c : Connection) (call : Call) : Connection :=
  { c with calls := c.calls ++ [call] }

/-- A call with `m_conn`. -/
def Connection.on (c : Connection) (fn : Fn) : Connection := c.record (.on fn c.mConn)

/-- `err_report`. -/
def Connection.errReport (c : Connection) : Connection :=
  if c.mState then (c.on .errno).on .error else c

/-- The exit `connecttodb`, `rollback` and `commit` take when a call fails: the
error is read out, the handle closed and forgotten. -/
def Connection.closeOnError (c : Connection) : Connection :=
  { ((c.on .errno).on .error).record (.close c.mConn) with mConn := none }

/-! ## Statements of the connection's own (`sqlstatement`) -/

structure Statement where
  mState : Bool
  mHandle : Option Handle

/-- `connect`, from the constructor. When `mysql_stmt_init` fails, `err_report`
finds `m_state` at 0 and calls nothing. -/
def Statement.connect (o : Answers) (c : Connection) : Statement × Connection :=
  if !c.mState then (⟨false, none⟩, c)
  else if o.stmtInit then
    (⟨true, some c.next⟩,
      { c.record (.stmtInit c.mConn (some c.next)) with next := c.next + 1 })
  else (⟨false, none⟩, c.record (.stmtInit c.mConn none))

/-- A call with `m_handle`. -/
def Statement.on (s : Statement) (c : Connection) (fn : Fn) : Connection :=
  c.record (.on fn s.mHandle)

/-- `err_report`, which also has the connection read out its error. -/
def Statement.errReport (s : Statement) (c : Connection) : Connection :=
  if s.mState then (s.on (s.on c .stmtErrno) .stmtError).errReport else c

/-- `prepare`; the value says whether it returns 0. -/
def Statement.prepare (o : Answers) (s : Statement) (c : Connection) : Connection × Bool :=
  if !s.mState then (c, false)
  else
    let c := s.on c .stmtPrepare
    if o.stmtPrepare then (c, true) else (s.errReport c, false)

/-- One of the calls of `execute`: made if it is needed, and after a failure
only the error is read out. -/
def Statement.attempt (s : Statement) (needed answer : Bool) (fn : Fn) :
    Connection × Bool → Connection × Bool
  | (c, true) =>
      if needed then
        if answer then (s.on c fn, true) else (s.errReport (s.on c fn), false)
      else (c, true)
  | (c, false) => (c, false)

/-- `execute()`. -/
def Statement.execute (o : Answers) (s : Statement) (c : Connection) : Connection × Bool :=
  if !s.mState then (c, false)
  else
    s.attempt true o.stmtExecute .stmtExecute
      (s.attempt o.hasFields o.stmtBindResult .stmtBindResult
        (s.attempt o.hasParams o.stmtBindParam .stmtBindParam (c, true)))

/-- `execute(fmt, ...)`. -/
def Statement.executeText (o : Answers) (s : Statement) (c : Connection) : Connection × Bool :=
  let (c, prepared) := s.prepare o c
  if prepared then s.execute o c else (c, false)

/-- `disconnect`, from the destructor. -/
def Statement.disconnect (s : Statement) (c : Connection) : Connection :=
  if s.mState then c.record (.stmtClose s.mHandle) else c

/-! ## Member functions

The values say whether the function returns 0. -/

/-- `execute(fmt, ...)`. -/
def Connection.execute (o : Answers) (c : Connection) : Connection × Bool :=
  let (stmt, c) := Statement.connect o c
  let (c, ok) := stmt.executeText o c
  (stmt.disconnect c, ok)

/-- `mysql_init(NULL)`, assigned to `m_conn`. -/
def Connection.init (o : Answers) (c : Connection) : Connection :=
  if o.init then
    { c.record (.init (some c.next)) with mConn := some c.next, next := c.next + 1 }
  else { c.record (.init none) with mConn := none }

/-- `connecttodb`. `charset` says whether a character set is named. -/
def Connection.connecttodb (o : Answers) (charset : Bool) (c : Connection) : Connection × Bool :=
  if c.mState then (c, true)
  else
    let c := c.init o
    if c.mConn = none then (c, false)
    else
      let c := c.on .realConnect
      if !o.realConnect then (c.closeOnError, false)
      else
        let c := c.on .autocommit
        if !o.autocommit then (c.closeOnError, false)
        else
          let c := if charset then c.on .setCharacterSet else c
          let c := { c with mState := true }
          ((c.execute o).1, true)

/-- `rollback`. -/
def Connection.rollback (o : Answers) (c : Connection) : Connection × Bool :=
  if !c.mState then (c, false)
  else
    let c := c.on .rollback
    if o.rollback then (c, true) else (c.closeOnError, false)

/-- `commit`. -/
def Connection.commit (o : Answers) (c : Connection) : Connection × Bool :=
  if !c.mState then (c, false)
  else
    let c := c.on .commit
    if o.commit then (c, true) else (c.closeOnError, false)

/-- `disconnect`. -/
def Connection.disconnect (o : Answers) (c : Connection) : Connection × Bool :=
  if !c.mState then (c, false)
  else
    let (c, _) := c.rollback o
    let c := c.record (.close c.mConn)
    ({ c with mConn := none, mState := false }, true)

/-! ## Runs -/

inductive Event where
  | connecttodb (o : Answers) (charset : Bool)
  | execute (o : Answers)
  | commit (o : Answers)
  | rollback (o : Answers)
  | disconnect (o : Answers)
  /-- The destructor. -/
  | destroy (o : Answers)

/-- An object, until it is destroyed. -/
structure Object where
  conn : Connection
  destroyed : Bool

def Object.new : Object := ⟨.new, false⟩

def objectStep (s : Object) (e : Event) : Option Object :=
  if s.destroyed then none
  else
    match e with
    | .connecttodb o charset => some { s with conn := (s.conn.connecttodb o charset).1 }
    | .execute o => some { s with conn := (s.conn.execute o).1 }
    | .commit o => some { s with conn := (s.conn.commit o).1 }
    | .rollback o => some { s with conn := (s.conn.rollback o).1 }
    | .disconnect o => some { s with conn := (s.conn.disconnect o).1 }
    | .destroy o => some ⟨(s.conn.disconnect o).1, true⟩

end AsioServer.Mysql
