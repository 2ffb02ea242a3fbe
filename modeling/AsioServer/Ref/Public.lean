import AsioServer.Lib.Replace
import AsioServer.Ref.Tcp

/-!
# Matching names (`_public.cpp`: `MatchStr`, `SplitToCmd`, `ToUpper`)

The strings are `std::string`s, looked at through `c_str()` by the C functions.
Positions are `int`s: one that is not found is `npos`, which becomes -1, and so
would a length from 2147483648 on become negative. A pointer in front of the
string is an access outside it.
-/

namespace AsioServer

/-- `'*'` and `','`. -/
def star : UInt8 := 42
def comma : UInt8 := 44

/-- `std::string::npos`. -/
def npos : Nat := 18446744073709551615

/-- `s.find(pat, pos)`. -/
def find (s pat : Bytes) (pos : Nat) : Nat :=
  if pos ≤ s.length then
    match Replace.first pat (s.drop pos) with
    | some (before, _) => pos + before.length
    | none => npos
  else npos

/-- `s.substr(pos, n)`. -/
def substr (s : Bytes) (pos n : Nat) : Except Fault Bytes :=
  if pos ≤ s.length then .ok ((s.drop pos).take n) else .error .outOfRange

def upper (c : UInt8) : UInt8 := if 97 ≤ c ∧ c ≤ 122 then c - 32 else c

/-- `ToUpper(char *str)`: the loop over the first `istrlen` bytes. -/
def toUpperChars (str : Bytes) : Bytes :=
  let istrlen := int str.length
  (str.take istrlen.toNat).map upper ++ str.drop istrlen.toNat

/-- `ToUpper(string &str)`, by way of a C string. -/
def toUpper (str : Bytes) : Bytes :=
  if str = [] then str else toUpperChars (cStr str)

/-- The loop of `SplitToCmd(buffer, sepstr)`. A round takes at least a separator
away, so there are at most as many as there are bytes. -/
def splitLoop (sepstr : UInt8) : Nat → Bytes → Except Fault (List Bytes)
  | 0, srcstr => .ok [srcstr]
  | rounds + 1, srcstr =>
      let iPOS := int (find srcstr [sepstr] 0)
      if 0 ≤ iPOS then do
        let field ← substr srcstr 0 (sizeT iPOS)
        let iPOS := int (iPOS + 1)
        let srcstr ← substr srcstr (sizeT iPOS) (srcstr.length - sizeT iPOS)
        let fields ← splitLoop sepstr rounds srcstr
        return field :: fields
      else .ok [srcstr]

/-- `m_vCmdStr` after `SplitToCmd(buffer, sepstr)`, for a separator of one character. -/
def splitToCmd (buffer : Bytes) (sepstr : UInt8) : Except Fault (List Bytes) :=
  splitLoop sepstr buffer.length buffer

/-- Is `strncmp(s.c_str(), t.c_str(), n)` zero? -/
def strncmpEq (s t : Bytes) (n : Nat) : Bool := (cStr s).take n == (cStr t).take n

/-- Is `strcmp(s.c_str() + s.size() - t.size(), t.c_str())` zero? -/
def strcmpEndEq (s t : Bytes) : Except Fault Bool :=
  if t.length ≤ s.length then .ok (cStr (s.drop (s.length - t.length)) == cStr t)
  else .error .outOfBounds

/-- The loop over the pieces of a pattern, from the `jj`-th on. -/
def matchPieces (strFileName : Bytes) (jj : Nat) (iPOS1 : Int) : List Bytes → Except Fault Bool
  | [] => .ok true
  | piece :: pieces =>
      if jj = 0 ∧ ¬ strncmpEq strFileName piece piece.length then .ok false
      else do
        let ends ← if pieces = [] then strcmpEndEq strFileName piece else pure true
        if ends = false then return false
        else
          let iPOS2 := int (find strFileName piece (sizeT iPOS1))
          if iPOS2 < 0 then return false
          else matchPieces strFileName (jj + 1) (int (iPOS2 + piece.length)) pieces

/-- The loop over the patterns. -/
def matchPatterns (strFileName : Bytes) : List Bytes → Except Fault Bool
  | [] => .ok false
  | pattern :: patterns =>
      if pattern = [] then matchPatterns strFileName patterns
      else do
        let pieces ← splitToCmd pattern star
        let found ← matchPieces strFileName 0 0 pieces
        if found then return true else matchPatterns strFileName patterns

/-- `MatchStr(str, rules)`. -/
def matchStr (str rules : Bytes) : Except Fault Bool :=
  if rules = [] then .ok false
  else if rules = [star] then .ok true
  else do
    let patterns ← splitToCmd (toUpper rules) comma
    matchPatterns (toUpper str) patterns

end AsioServer
