import Mathlib.Algebra.Ring.Int.Defs
import AsioServer.Ref.Strings

/-!
# Login parameters (`_mysql.h`: `LOGINENV`, `_mysql.cpp`: `setdbopt`)

`m_env` is the memory of its members, one behind the other, with a byte behind the
last that belongs to none. An array member is not held apart from the next one: a
copy that is too long goes on there. One that goes beyond `m_env` is an access
outside it.
-/

namespace AsioServer.Mysql

/-- A member of `LOGINENV`: where it begins and how many bytes it has. -/
structure Member where
  offset : Nat
  size : Nat

namespace LoginEnv

def ip : Member := ⟨0, 32⟩

def port : Member := ⟨32, 4⟩

def user : Member := ⟨36, 32⟩

def pass : Member := ⟨68, 32⟩

def dbname : Member := ⟨100, 51⟩

/-- `sizeof(LOGINENV)`. -/
def size : Nat := 152

end LoginEnv

/-- What a member holds. -/
def Member.bytes (m : Member) (env : Bytes) : Bytes := (env.drop m.offset).take m.size

/-- The bytes of an `int`, the lowest first. -/
def intBytes (x : Int) : Bytes :=
  [0, 8, 16, 24].map fun k => UInt8.ofNat (x / 2 ^ k % 256).toNat

/-- The `int` some bytes stand for. -/
def bytesInt (bs : Bytes) : Int :=
  let value : Nat := bs.foldr (fun c n => c.toNat + 256 * n) 0
  int value

/-- A step of `setdbopt`, which the source writes out for each of four members: what stands in
front of the next comma is copied, and `bpos` moves behind it. -/
def cutField (m : Member) (env bpos : Bytes) : Except Fault (Bytes × Option Bytes) :=
  match strstr bpos (ascii ",") with
  | none => .ok (env, none)
  | some (text, rest) => do
      let env ← Libc.strncpy env m.offset bpos text.length
      return (env, some rest)

/-- The steps for some members. Without a comma the function returns. -/
def cutFields : List Member → Bytes → Bytes → Except Fault (Bytes × Option Bytes)
  | [], env, bpos => .ok (env, some bpos)
  | m :: ms, env, bpos => do
      match ← cutField m env bpos with
      | (env, none) => return (env, none)
      | (env, some bpos) => cutFields ms env bpos

open LoginEnv in
/-- `setdbopt(connstr)`: what `m_env` holds afterwards. -/
def setdbopt (mEnv connstr : Bytes) : Except Fault Bytes := do
  let env ← Libc.memset mEnv size
  match ← cutFields [ip, user, pass, dbname] env (cStr connstr) with
  | (env, none) => return env
  | (env, some bpos) => copyInto env port.offset (intBytes (Libc.atoi bpos))

end AsioServer.Mysql
