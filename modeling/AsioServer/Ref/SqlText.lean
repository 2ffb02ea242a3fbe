import AsioServer.Lib.Replace
import AsioServer.Ref.Printf

/-!
# The text of a statement (`_mysql.h`, `_mysql.cpp`)

What becomes of the text of a statement between the caller and
`mysql_stmt_prepare`. `connection::execute` formats it and hands the result to
`sqlstatement::execute` as a format, which formats it and hands the result to
`prepare` as a format, which formats it once more and then translates it in
place: the numbered parameters of Oracle become question marks, and some of its
names and date formats those of MySQL.

A text is what stands in an array before its NUL. `m_sql` is an array of 10241
bytes, and `MY__UpdateStr` assembles each replacement in one of its own, whose
size it takes from the length the text had at first. `MY__UpdateStr` is only
called with `bloop` false.
-/

namespace AsioServer

/-- The size given to `vsnprintf` for the text of a statement. -/
def sqlSize : Nat := 10240

/-- `sizeof(m_sql)`. -/
def mSqlSize : Nat := 10241

/-- `MAXPARAMS`. -/
def maxParams : Nat := 256

/-! ## Formatting -/

/-- `prepare(fmt, ...)`: `m_sql` before it is translated. -/
def Sqlstatement.formatPrepare (fmt : Bytes) (args : List Arg) : Except Fault Bytes :=
  vsnprintf sqlSize fmt args

/-- `sqlstatement::execute(fmt, ...)`, with `prepare(strtmpsql)`. -/
def Sqlstatement.formatExecute (fmt : Bytes) (args : List Arg) : Except Fault Bytes := do
  let strtmpsql ← vsnprintf sqlSize fmt args
  Sqlstatement.formatPrepare strtmpsql []

/-- `connection::execute(fmt, ...)`, with `stmt.execute(m_sql)`. -/
def Connection.formatExecute (fmt : Bytes) (args : List Arg) : Except Fault Bytes := do
  let mSql ← vsnprintf sqlSize fmt args
  Sqlstatement.formatExecute mSql []

/-! ## Translation -/

/-- `strstr`: what stands in front of the first occurrence and behind it. -/
def strstr (str pat : Bytes) : Option (Bytes × Bytes) := Replace.first pat str

/-- The loop of `MY__UpdateStr`. `strStart` points behind `head`, and `room` is
the size of the smaller array. -/
def updateLoop (room : Nat) (str1 str2 : Bytes) : Nat → Bytes → Bytes → Except Fault Bytes
  | 0, head, tail => .ok (head ++ tail)
  | rounds + 1, head, tail =>
      match strstr tail str1 with
      | none => .ok (head ++ tail)
      | some (before, behind) =>
          if (head ++ before ++ str2 ++ behind).length < room then
            updateLoop room str1 str2 rounds (head ++ before ++ str2) behind
          else .error .outOfBounds

/-- `MY__UpdateStr(str, str1, str2, false)`, on an array of `size` bytes. -/
def updateStr (size : Nat) (str str1 str2 : Bytes) : Except Fault Bytes :=
  if str = [] then .ok str
  else updateLoop (min size (max 1000 (str.length * 10))) str1 str2 str.length [] str

example : updateStr 64 (ascii ":1:12,:1") (ascii ":1") (ascii "?") = .ok (ascii "??2,?") := by
  decide

/-- `snprintf(strtmp,10,":%d",ii)`. -/
def parameter (ii : Nat) : Except Fault Bytes := vsnprintf 10 (ascii ":%d") [.int ii]

/-- The loop that replaces `:ii`, down from this number. -/
def placeholdersFrom : Nat → Bytes → Except Fault Bytes
  | 0, sql => .ok sql
  | ii + 1, sql => do
      let strtmp ← parameter (ii + 1)
      let sql ← updateStr mSqlSize sql strtmp (ascii "?")
      placeholdersFrom ii sql

def placeholders (sql : Bytes) : Except Fault Bytes := placeholdersFrom maxParams sql

/-- A replacement made only where another text does not stand yet. -/
def updateUnless (sql guard str1 str2 : Bytes) : Except Fault Bytes :=
  if (strstr sql guard).isNone then updateStr mSqlSize sql str1 str2 else .ok sql

/-- The names and date formats of Oracle. -/
def oracleNames (sql : Bytes) : Except Fault Bytes := do
  let sql ← updateUnless sql (ascii "str_to_date") (ascii "to_date") (ascii "str_to_date")
  let sql ← updateStr mSqlSize sql (ascii "to_char") (ascii "date_format")
  let sql ← updateStr mSqlSize sql (ascii "yyyy-mm-dd hh24:mi:ss") (ascii "%Y-%m-%d %H:%i:%s")
  let sql ← updateStr mSqlSize sql (ascii "yyyymmddhh24miss") (ascii "%Y%m%d%H%i%s")
  updateUnless sql (ascii "sysdate()") (ascii "sysdate") (ascii "sysdate()")

/-- The text handed to `mysql_stmt_prepare`. -/
def translate (sql : Bytes) : Except Fault Bytes := do
  let sql ← placeholders sql
  oracleNames sql

end AsioServer
