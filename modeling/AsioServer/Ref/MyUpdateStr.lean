import AsioServer.Ref.Strings

/-!
# `MY__UpdateStr` on an array (`_mysql.cpp`)

The same function as `UpdateStr`, but for the calls it puts a text together with: those
of the C library, which take no size. The loop is the same, and `editRound` is a round
of it for any way of putting the text together.
-/

namespace AsioServer

/-- A round of the loop of `UpdateStr` and of `MY__UpdateStr`, which replaces what stands at a
place by `edit`: the array of `str` and the offset of `strStart`. -/
def editRound (edit : Bytes → Nat → Except Fault Bytes) (str1 str2 : Bytes) (bloop : Bool)
    (s : Bytes × Nat) : (Bytes × Nat) ⊕ Except Fault Bytes :=
  let strStart := if bloop then 0 else s.2
  match Libc.string s.1 strStart with
  | .error f => .inr (.error f)
  | .ok text =>
      match strstr text str1 with
      | none => .inr (.ok s.1)
      | some (before, _) =>
          let strPos := strStart + before.length
          match edit s.1 strPos with
          | .error f => .inr (.error f)
          | .ok str => .inl (str, strPos + str2.length)

theorem Public.updateRound_eq (ilen : Nat) (str1 str2 : Bytes) (bloop : Bool) :
    Public.updateRound ilen str1 str2 bloop =
      editRound (fun str => Public.replaced ilen str str1 str2) str1 str2 bloop := rfl

namespace Mysql

/-- `str` after the replacement of what stands at `strPos`. -/
def replaced (ilen : Nat) (str str1 str2 : Bytes) (strPos : Nat) : Except Fault Bytes := do
  let strTemp ← Libc.strncpy (List.replicate ilen 0) 0 str strPos
  let strTemp ← Libc.strcat strTemp str2
  let strTemp ← Libc.strcat strTemp (str.drop (strPos + str1.length))
  Libc.strcpy str strTemp

/-- `MY__UpdateStr(str, str1, str2, bloop)`: the array of `str` it leaves. `none` says that the
rounds granted were not enough. -/
def myUpdateStr (rounds : Nat) (str str1 str2 : Bytes) (bloop : Bool) :
    Option (Except Fault Bytes) :=
  if cStr str = [] then some (.ok str)
  else if bloop && (strstr str2 str1).isSome then some (.ok str)
  else
    let edit := fun array => replaced (Public.ilen (cStr str)) array str1 str2
    Loop.run (editRound edit str1 str2 bloop) rounds (str, 0)

example : myUpdateStr 3 (ascii "aXbX" ++ List.replicate 5 0) (ascii "X") (ascii "XX") false =
    some (.ok (ascii "aXXbXX" ++ [0, 0, 0])) := by decide +kernel

end Mysql

end AsioServer
