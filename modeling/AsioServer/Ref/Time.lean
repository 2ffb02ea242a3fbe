import AsioServer.Lib.Calendar
import AsioServer.Ref.Strings

/-!
# Times (`_public.cpp`: `PickNumber`, `strtotime`, `timetostr`, `AddTime`)

`mktime` and `localtime` are those of a process whose time zone is UTC. `mktime`
carries what lies outside the range of a field, and `localtime` has no result for
a year an `int` has no room for.
-/

namespace AsioServer

/-- `struct tm`, as far as it is used: the year from 1900 and the month from 0 on. -/
structure Tm where
  tmYear : Int
  tmMon : Int
  tmMday : Int
  tmHour : Int
  tmMin : Int
  tmSec : Int
  deriving DecidableEq

namespace Libc

/-- The first of January 1970. -/
def epoch : Int := 719528

/-- `mktime`. -/
def mktime (tm : Tm) : Int :=
  (Calendar.dayOf (tm.tmYear + 1900 + tm.tmMon / 12) (tm.tmMon % 12).toNat tm.tmMday - epoch) * 86400 +
    tm.tmHour * 3600 + tm.tmMin * 60 + tm.tmSec

/-- `localtime`. -/
def localtime (timer : Int) : Option Tm :=
  let date := Calendar.ofDay (timer / 86400 + epoch)
  let secs := timer % 86400
  if InInt (date.year - 1900) then
    some ⟨date.year - 1900, date.month, date.day, secs / 3600, secs / 60 % 60, secs % 60⟩
  else none

example : localtime (mktime ⟨124, 1, 29, 23, 59, 60⟩) = some ⟨124, 2, 1, 0, 0, 0⟩ := by
  decide +kernel

end Libc

namespace Public

/-! ## From a text -/

/-- The characters `PickNumber` takes. -/
def picks (bsigned bdot : Bool) (c : UInt8) : Bool :=
  (bsigned && (c == 43 || c == 45)) || (bdot && c == 46) || isDigit c

/-- `PickNumber(src, dest, bsigned, bdot)`. -/
def pickNumber (src dest : Bytes) (bsigned bdot : Bool) : Except Fault Bytes := do
  let strtemp ← deleteLRChar (cStr src) 32
  let ilen := int strtemp.length
  copyInto dest 0 ((strtemp.take ilen.toNat).filter (picks bsigned bdot) ++ [0])

/-- The number `n` characters of `strtime` stand for, by way of an array of their own. -/
def timeField (strtime : Bytes) (off n : Nat) : Except Fault Int := do
  let array ← Libc.strncpy (List.replicate (n + 1) 0) 0 (strtime.drop off) n
  return Libc.atoi array

/-- `strtotime(stime)` where `mktime` may be that of any time zone. -/
def strtotimeWith (mktime : Tm → Int) (stime : Bytes) : Except Fault Int := do
  let strtime ← pickNumber stime (List.replicate 21 0) false false
  let len ← strlen strtime
  if len ≠ 14 then return -1
  else
    let yyyy ← timeField strtime 0 4
    let mm ← timeField strtime 4 2
    let dd ← timeField strtime 6 2
    let hh ← timeField strtime 8 2
    let mi ← timeField strtime 10 2
    let ss ← timeField strtime 12 2
    return mktime ⟨yyyy - 1900, mm - 1, dd, hh, mi, ss⟩

/-- `strtotime(stime)`, in UTC. -/
def strtotime (stime : Bytes) : Except Fault Int := strtotimeWith Libc.mktime stime

/-! ## To a text -/

/-- The conversion `%0<width>u`. -/
def unsigned0 (width : Nat) (x : Int) : Bytes :=
  let digits := decimal (x % 4294967296)
  List.replicate (width - digits.length) 48 ++ digits

/-- The formats of `timetostr`: the size given to `snprintf` and the whole text. -/
def timeText (sttm : Tm) (fmt : Option Bytes) : Option (Nat × Bytes) :=
  let yyyy := unsigned0 4 (sttm.tmYear + 1900)
  let mm := unsigned0 2 (sttm.tmMon + 1)
  let dd := unsigned0 2 sttm.tmMday
  let hh := unsigned0 2 sttm.tmHour
  let mi := unsigned0 2 sttm.tmMin
  let ss := unsigned0 2 sttm.tmSec
  let full := yyyy ++ 45 :: mm ++ 45 :: dd ++ 32 :: hh ++ 58 :: mi ++ 58 :: ss
  match fmt.map cStr with
  | none => some (20, full)
  | some fmt =>
      if fmt = ascii "yyyy-mm-dd hh24:mi:ss" then some (20, full)
      else if fmt = ascii "yyyy-mm-dd hh24:mi" then
        some (17, yyyy ++ 45 :: mm ++ 45 :: dd ++ 32 :: hh ++ 58 :: mi)
      else if fmt = ascii "yyyy-mm-dd hh24" then
        some (14, yyyy ++ 45 :: mm ++ 45 :: dd ++ 32 :: hh)
      else if fmt = ascii "yyyy-mm-dd" then some (11, yyyy ++ 45 :: mm ++ 45 :: dd)
      else if fmt = ascii "yyyy-mm" then some (8, yyyy ++ 45 :: mm)
      else if fmt = ascii "yyyymmddhh24miss" then some (15, yyyy ++ mm ++ dd ++ hh ++ mi ++ ss)
      else if fmt = ascii "yyyymmddhh24mi" then some (13, yyyy ++ mm ++ dd ++ hh ++ mi)
      else if fmt = ascii "yyyymmddhh24" then some (11, yyyy ++ mm ++ dd ++ hh)
      else if fmt = ascii "yyyymmdd" then some (9, yyyy ++ mm ++ dd)
      else if fmt = ascii "hh24miss" then some (7, hh ++ mi ++ ss)
      else if fmt = ascii "hh24mi" then some (5, hh ++ mi)
      else if fmt = ascii "hh24" then some (3, hh)
      else if fmt = ascii "mi" then some (3, mi)
      else none

/-- `timetostr(ltime, stime, fmt)`. -/
def timetostr (ltime : Int) (stime : Bytes) (fmt : Option Bytes) : Except Fault Bytes := do
  let stime ← copyInto stime 0 [0]
  match Libc.localtime ltime with
  | none => .error .nullPointer
  | some sttm =>
      match timeText sttm fmt with
      | none => return stime
      | some (size, text) => copyInto stime 0 (text.take (size - 1) ++ [0])

/-- `AddTime(in_stime, out_stime, timetvl, fmt)`: its result and the array of `out_stime`, which
may be that of `in_stime`: nothing is written before all is read. -/
def addTime (inStime outStime : Bytes) (timetvl : Int) (fmt : Option Bytes) :
    Except Fault (Bool × Bytes) := do
  let timer ← strtotime inStime
  let outStime ← copyInto outStime 0 [0]
  if timer = -1 then return (false, outStime)
  else
    let outStime ← timetostr (timer + timetvl) outStime fmt
    return (true, outStime)

end Public

end AsioServer
