import Mathlib.Data.List.TakeWhile
import AsioServer.Ref.Memory

/-!
# JSON values (`json/json.h`) and `std::stoi`

What the sources use of `Json::Value`: subscripts with a string, `asString`,
assignment to a member. A number with a fraction or an exponent carries the
text that `asString` gives of it. Reading and writing of JSON text belong to
the library, whose sources are not part of the repository: a `JsonLib` is any
pair of functions in their place. `parse` has a result for every text, the
success flag and whatever it left in `root`.
-/

namespace AsioServer

inductive Json where
  | null
  | bool (b : Bool)
  | int (i : Int)
  | real (text : Bytes)
  | str (s : Bytes)
  | arr (elements : List Json)
  | obj (members : List (Bytes × Json))

structure JsonLib where
  parse : Bytes → Bool × Json
  toStyledString : Json → Bytes

/-- The decimal representation. -/
def decimal (i : Int) : Bytes := ascii (toString i)

/-- `value[key].` A missing member is null, and so is every member of null. -/
def Json.member (key : Bytes) : Json → Except Fault Json
  | .null => .ok .null
  | .obj members => .ok ((members.lookup key).getD .null)
  | _ => .error .jsonLogic

/-- `value[key] = v`. -/
def Json.setMember (value : Json) (key : Bytes) (v : Json) : Except Fault Json :=
  match value with
  | .null => .ok (.obj [(key, v)])
  | .obj members => .ok (.obj ((members.filter fun m => m.1 != key) ++ [(key, v)]))
  | _ => .error .jsonLogic

def Json.asString : Json → Except Fault Bytes
  | .null => .ok []
  | .bool b => .ok (if b then ascii "true" else ascii "false")
  | .int i => .ok (decimal i)
  | .real text => .ok text
  | .str s => .ok s
  | .arr _ | .obj _ => .error .jsonLogic

/-- `value[key].asString()`. -/
def Json.field (key : String) (v : Json) : Except Fault Bytes := do
  let member ← v.member (ascii key)
  member.asString

/-! ## Numbers in strings -/

/-- What a function that takes a `const char*` sees of a string. -/
def cStr (s : Bytes) : Bytes := s.takeWhile (· != 0)

theorem cStr_of_nulFree {s : Bytes} (h : 0 ∉ s) : cStr s = s := by
  rw [cStr, List.takeWhile_eq_self_iff]
  intro c hc
  have hne : c ≠ 0 := fun h0 => h (h0 ▸ hc)
  simpa using hne

theorem nul_notMem_cStr (s : Bytes) : 0 ∉ cStr s :=
  fun hmem => absurd (List.mem_takeWhile_imp hmem) (by decide)

theorem cStr_eq_iff {s : Bytes} : cStr s = s ↔ 0 ∉ s :=
  ⟨fun h => h ▸ nul_notMem_cStr s, cStr_of_nulFree⟩

def isSpace (c : UInt8) : Bool := c == 32 || (9 ≤ c && c ≤ 13)

def isDigit (c : UInt8) : Bool := 48 ≤ c && c ≤ 57

/-- The number a run of digits stands for. -/
def digitsValue (ds : Bytes) : Nat := ds.foldl (fun n c => 10 * n + (c.toNat - 48)) 0

/-- The sign of a number and what follows it. -/
def takeSign : Bytes → Int × Bytes
  | 45 :: rest => (-1, rest)
  | 43 :: rest => (1, rest)
  | s => (1, s)

/-- `std::stoi`: white space, a sign, digits, and whatever follows. -/
def stoi (s : Bytes) : Except Fault Int :=
  let (sign, rest) := takeSign ((cStr s).dropWhile isSpace)
  let digits := rest.takeWhile isDigit
  if digits.isEmpty then .error .invalidArgument
  else
    let value := sign * digitsValue digits
    if value < -2147483648 ∨ 2147483647 < value then .error .outOfRange else .ok value

example : stoi (ascii " -17x") = .ok (-17) := by decide

end AsioServer
