import AsioServer.Lib.Lines
import AsioServer.Ref.Strings

/-!
# Lines of a file (`_public.cpp`: `FGETS`)

A stream is what is left to be read of its file, and reading does not fail before
there is nothing left. An `int` that overflows is not defined, and counts as an
access outside the array.
-/

namespace AsioServer

/-- `fgets(s, size, stream)`: the array if something was read, and the stream. -/
def Libc.fgets (s : Bytes) (size : Int) (stream : Bytes) : Except Fault (Option Bytes × Bytes) :=
  if size ≤ 0 ∨ (size ≠ 1 ∧ stream = []) then .ok (none, stream)
  else do
    let line := Lines.piece 10 (size - 1).toNat stream
    let s ← copyInto s 0 (line ++ [0])
    return (some s, stream.drop line.length)

namespace Public

/-- A round of the loop of `FGETS`, from `buffer` and the stream. -/
def fgetsRound (readsize : Int) (endbz : Option Bytes) (s : Bytes × Bytes) :
    Except Fault ((Bytes × Bytes) ⊕ (Bool × Bytes × Bytes)) := do
  let (strline, fp) ← Libc.fgets (List.replicate (readsize + 1).toNat 0) readsize s.2
  match strline with
  | none => return .inr (false, s.1, fp)
  | some strline =>
      -- to keep `buffer` from overflowing, when `strline` has been read
      if (← strlen s.1) + (← strlen strline) ≥ (readsize % 4294967296).toNat then
        return .inr (false, s.1, fp)
      else
        let buffer ← Libc.strcat s.1 strline
        match endbz with
        | none => return .inr (true, buffer, fp)
        | some endbz =>
            if (strstr (cStr strline) (cStr endbz)).isSome then return .inr (true, buffer, fp)
            else return .inl (buffer, fp)

/-- `FGETS(fp, buffer, readsize, endbz)`: its result, the array of `buffer` and the stream. `none`
says that the rounds granted were not enough. -/
def fgets (rounds : Nat) (fp buffer : Bytes) (readsize : Int) (endbz : Option Bytes) :
    Option (Except Fault (Bool × Bytes × Bytes)) :=
  if ¬ InInt (readsize + 1) then some (.error .outOfBounds)
  else
    match Libc.memset buffer (sizeT (readsize + 1)) with
    | .error f => some (.error f)
    | .ok buffer => Loop.run (Loop.orFail (fgetsRound readsize endbz)) rounds (buffer, fp)

example : fgets 2 (ascii "a\nb<end>c") (List.replicate 11 1) 10 (some (ascii "<end>")) =
    some (.ok (true, ascii "a\nb<end>c" ++ [0, 0], [])) := by decide

end Public

end AsioServer
