import AsioServer.Lib.Loop
import AsioServer.Ref.SqlText
import AsioServer.Ref.Tcp

/-!
# Strings in arrays (`_public.cpp`)

`STRCPY` and its family, the routines that cut characters off a string, and
`UpdateStr`. The names in capitals are those of the C library otherwise, so each
stands here under that name in a namespace of its own: `Libc.strcpy` is
`strcpy` and `Public.strcpy` is `STRCPY`.

An array is the list of its bytes, and a string in it ends at the first NUL. A
source is given by the memory a pointer leads to, of which only the string is
looked at. No pointer is null. A copy that does not fit its array is an access
outside it. Arrays on the stack are taken to be there, whatever their size.
-/

namespace AsioServer

/-- What an `int` has room for. -/
def InInt (x : Int) : Prop := -2147483648 ≤ x ∧ x < 2147483648

instance (x : Int) : Decidable (InInt x) := inferInstanceAs (Decidable (_ ∧ _))

/-! ## The C library -/

namespace Libc

/-- `memset(dest, 0, n)`. -/
def memset (dest : Bytes) (n : Nat) : Except Fault Bytes :=
  if n ≤ dest.length then .ok (List.replicate n 0 ++ dest.drop n) else .error .outOfBounds

/-- `strcpy(dest, src)`. -/
def strcpy (dest src : Bytes) : Except Fault Bytes := copyInto dest 0 (cStr src ++ [0])

/-- `strncpy(dest + off, src, n)`: zeros behind a string that is shorter, and no
terminator behind one that is not. -/
def strncpy (dest : Bytes) (off : Nat) (src : Bytes) (n : Nat) : Except Fault Bytes :=
  if off + n ≤ dest.length then
    copyInto dest off ((cStr src).take n ++ List.replicate (n - (cStr src).length) 0)
  else .error .outOfBounds

/-- `strcat(dest, src)`. -/
def strcat (dest src : Bytes) : Except Fault Bytes := do
  copyInto dest (← strlen dest) (cStr src ++ [0])

/-- `strncat(dest, src, n)`. -/
def strncat (dest src : Bytes) (n : Nat) : Except Fault Bytes := do
  copyInto dest (← strlen dest) ((cStr src).take n ++ [0])

/-- `atoi(s)`: what `strtol` makes of it, cut to an `int`. -/
def atoi (s : Bytes) : Int :=
  let (sign, rest) := takeSign ((cStr s).dropWhile isSpace)
  let value := sign * digitsValue (rest.takeWhile isDigit)
  int (max (-9223372036854775808) (min 9223372036854775807 value))

/-- The string that begins at an offset of an array. -/
def string (array : Bytes) (off : Nat) : Except Fault Bytes :=
  if 0 ∈ array.drop off then .ok (cStr (array.drop off)) else .error .outOfBounds

end Libc

/-! ## The bounded family -/

namespace Public

/-- `STRCPY(dest, destlen, src)`. -/
def strcpy (dest : Bytes) (destlen : Nat) (src : Bytes) : Except Fault Bytes := do
  let dest ← Libc.memset dest destlen
  if (cStr src).length > sizeT (destlen - 1) then Libc.strncpy dest 0 src (sizeT (destlen - 1))
  else Libc.strcpy dest src

/-- `STRNCPY(dest, destlen, src, n)`. -/
def strncpy (dest : Bytes) (destlen : Nat) (src : Bytes) (n : Nat) : Except Fault Bytes := do
  let dest ← Libc.memset dest destlen
  if n > sizeT (destlen - 1) then Libc.strncpy dest 0 src (sizeT (destlen - 1))
  else Libc.strncpy dest 0 src n

/-- `STRCAT(dest, destlen, src)`. What is left is counted in an `unsigned int`. -/
def strcat (dest : Bytes) (destlen : Nat) (src : Bytes) : Except Fault Bytes := do
  let left := sizeT (destlen - 1 - (← strlen dest)) % 4294967296
  if (cStr src).length > left then
    let dest ← Libc.strncat dest src left
    copyInto dest (sizeT (destlen - 1)) [0]
  else Libc.strcat dest src

/-- `STRNCAT(dest, destlen, src, n)`. -/
def strncat (dest : Bytes) (destlen : Nat) (src : Bytes) (n : Nat) : Except Fault Bytes := do
  let left := sizeT (destlen - 1 - (← strlen dest))
  if n > left then
    let dest ← Libc.strncat dest src left
    copyInto dest (sizeT (destlen - 1)) [0]
  else Libc.strncat dest src n

/-! ## Characters cut off -/

/-- The loop of `DeleteLChar` over the characters of `strTemp` from `iTemp` on. -/
def skipLoop (chr : UInt8) : Bytes → Int → Except Fault Int
  | [], _ => .error .outOfBounds
  | c :: strTemp, iTemp =>
      if iTemp < 0 then .error .outOfBounds
      else if c = chr then skipLoop chr strTemp (int (iTemp + 1))
      else .ok iTemp

/-- `DeleteLChar(str, chr)`: the string it leaves in `str`. -/
def deleteLChar (str : Bytes) (chr : UInt8) : Except Fault Bytes :=
  if str = [] then .ok str
  else do
    let iTemp ← skipLoop chr (str ++ [0]) 0
    return cStr ((str ++ [0]).drop iTemp.toNat)

/-- The loop of `DeleteRChar`, with `istrlen` as far as it is positive. -/
def cutLoop (chr : UInt8) : Nat → Bytes → Bytes
  | 0, str => str
  | istrlen + 1, str => if str[istrlen]? ≠ some chr then str else cutLoop chr istrlen (str.take istrlen)

/-- `DeleteRChar(str, chr)`. -/
def deleteRChar (str : Bytes) (chr : UInt8) : Bytes := cutLoop chr (int str.length).toNat str

/-- `DeleteLRChar(str, chr)`. -/
def deleteLRChar (str : Bytes) (chr : UInt8) : Except Fault Bytes := do
  let str ← deleteLChar str chr
  return deleteRChar str chr

example : deleteLRChar (ascii "  a b ") 32 = .ok (ascii "a b") := by decide

/-! ## `UpdateStr` -/

/-- `ilen`, the size of `strTemp`. -/
def ilen (str : Bytes) : Nat :=
  let ilen := int (10 * str.length)
  if ilen < 1000 then 1000 else ilen.toNat

/-- `str` after the replacement of what stands at `strPos`. -/
def replaced (ilen : Nat) (str str1 str2 : Bytes) (strPos : Nat) : Except Fault Bytes := do
  let strTemp ← strncpy (List.replicate ilen 0) ilen str strPos
  let strTemp ← strcat strTemp ilen str2
  let strTemp ← strcat strTemp ilen (str.drop (strPos + str1.length))
  Libc.strcpy str strTemp

/-- A round of the loop: the array of `str` and the offset of `strStart`. -/
def updateRound (ilen : Nat) (str1 str2 : Bytes) (bloop : Bool) (s : Bytes × Nat) :
    (Bytes × Nat) ⊕ Except Fault Bytes :=
  let strStart := if bloop then 0 else s.2
  match Libc.string s.1 strStart with
  | .error f => .inr (.error f)
  | .ok text =>
      match strstr text str1 with
      | none => .inr (.ok s.1)
      | some (before, _) =>
          let strPos := strStart + before.length
          match replaced ilen s.1 str1 str2 strPos with
          | .error f => .inr (.error f)
          | .ok str => .inl (str, strPos + str2.length)

/-- `UpdateStr(str, str1, str2, bloop)`: the array of `str` it leaves. `none` says
that the rounds granted were not enough. -/
def updateStr (rounds : Nat) (str str1 str2 : Bytes) (bloop : Bool) :
    Option (Except Fault Bytes) :=
  if cStr str = [] then some (.ok str)
  else if bloop && (strstr str2 str1).isSome then some (.ok str)
  else Loop.run (updateRound (ilen (cStr str)) str1 str2 bloop) rounds (str, 0)

end Public

end AsioServer
