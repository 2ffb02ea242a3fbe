import AsioServer.Ref.Public
import AsioServer.Ref.Strings

/-!
# `CCmdStr` (`_public.cpp`)

`SplitToCmd` for a separator of any length. A field whose spaces are cut off
goes through an array on the stack, as a C string.
-/

namespace AsioServer

structure CCmdStr where
  mVCmdStr : List Bytes

def CCmdStr.clear (_ : CCmdStr) : CCmdStr := ⟨[]⟩

def CCmdStr.pushBack (cmd : CCmdStr) (substr : Bytes) : CCmdStr := ⟨cmd.mVCmdStr ++ [substr]⟩

namespace CmdStr

/-- `substr` as it is stored. -/
def stored (substr : Bytes) (bdelspace : Bool) : Except Fault Bytes :=
  if bdelspace then do
    let size := substr.length + 1
    let str ← Public.strcpy (List.replicate size 0) size substr
    Public.deleteLRChar (cStr str) 32
  else .ok substr

/-- What a round stores and what is left of `srcstr`, with the separator found at `iPOS`. -/
def cutField (srcstr sepstr : Bytes) (bdelspace : Bool) (iPOS : Int) :
    Except Fault (Bytes × Bytes) := do
  let field ← substr srcstr 0 (sizeT iPOS)
  let field ← stored field bdelspace
  let iPOS := int (iPOS + sepstr.length)
  let srcstr ← substr srcstr (sizeT iPOS) (srcstr.length - sizeT iPOS)
  return (field, srcstr)

/-- A round of the loop of `SplitToCmd`, and what follows it. -/
def splitRound (sepstr : Bytes) (bdelspace : Bool) (s : CCmdStr × Bytes) :
    (CCmdStr × Bytes) ⊕ Except Fault CCmdStr :=
  let iPOS := int (find s.2 sepstr 0)
  if 0 ≤ iPOS then
    match cutField s.2 sepstr bdelspace iPOS with
    | .error f => .inr (.error f)
    | .ok (field, srcstr) => .inl (s.1.pushBack field, srcstr)
  else .inr ((stored s.2 bdelspace).map s.1.pushBack)

end CmdStr

/-- `SplitToCmd(buffer, sepstr, bdelspace)`. `none` says that the rounds granted
were not enough. -/
def CCmdStr.splitToCmd (rounds : Nat) (cmd : CCmdStr) (buffer sepstr : Bytes) (bdelspace : Bool) :
    Option (Except Fault CCmdStr) :=
  Loop.run (CmdStr.splitRound sepstr bdelspace) rounds (cmd.clear, buffer)

end AsioServer
