import AsioServer.Ref.Dir

/-!
# Files (`_public.cpp`: `FileSize`, `REMOVE`, `RENAME`, `COPY`)

The files are their contents by name. What a system call answers is given: to a
`read` how many bytes it has read, from how many bytes on and of how many asked
for, and to a `write` how many it has taken. An `int` that overflows is not
defined, and counts as an access outside the array. The times `COPY` gives the
new file are left out.
-/

namespace AsioServer

abbrev Files := Bytes → Option Bytes

namespace Public

/-- `FileSize(filename)`. -/
def fileSize (content : Option Bytes) : Int :=
  match content with
  | none => -1
  | some content => int content.length

/-- What the system calls answer when a file is renamed or removed. -/
structure NameCalls where
  sys : System
  /-- `access(path, R_OK) == 0`. -/
  readable : Bytes → Bool
  /-- Does the attempt succeed? -/
  attempt : Nat → Bool

/-- `REMOVE(filename, times)`. -/
def remove (calls : NameCalls) (filename : Bytes) (times : Nat) : Bool :=
  calls.readable filename && (List.range times).any calls.attempt

/-- `RENAME(srcfilename, dstfilename, times)`. -/
def rename (calls : NameCalls) (srcfilename dstfilename : Bytes) (times : Nat) : Bool :=
  calls.readable srcfilename && mkDir calls.sys dstfilename true &&
    (List.range times).any calls.attempt

/-- The files after `rename` has succeeded. -/
def moved (files : Files) (src dst : Bytes) : Files :=
  if src = dst then files else Function.update (Function.update files dst (files src)) src none

/-! ## `COPY` -/

/-- What the system calls answer during a copy. -/
structure CopyCalls where
  sys : System
  openSrc : Bool
  openDst : Bool
  read : (round offset onread : Nat) → Int
  write : (round bytes : Nat) → Int
  forRename : NameCalls
  forRemove : NameCalls

/-- What the copy loop has in its variables, in the file offset and in the new file. -/
structure CopyState where
  round : Nat
  totalBytes : Int
  offset : Nat
  copied : Bytes

def CopyState.init : CopyState := ⟨0, 0, 0, []⟩

/-- `onread`, as `read` receives it. -/
def onread (iFileSize totalBytes : Int) : Nat :=
  if 5000 < iFileSize - totalBytes then 5000 else sizeT (iFileSize - totalBytes)

/-- A round of the copy loop. It leaves with the content of the new file. -/
def copyRound (read : Nat → Nat → Nat → Int) (write : Nat → Nat → Int) (source : Bytes)
    (iFileSize : Int) (s : CopyState) : CopyState ⊕ Except Fault Bytes :=
  if ¬ InInt (iFileSize - s.totalBytes) then .inr (.error .outOfBounds)
  else
    let bytes := read s.round s.offset (onread iFileSize s.totalBytes)
    if 5000 < bytes then .inr (.error .outOfBounds)
    else
      let buffer := (source.drop s.offset).take bytes.toNat
      let taken := if 0 < bytes then (write s.round bytes.toNat).toNat else 0
      let copied := s.copied ++ buffer.take taken
      let totalBytes := s.totalBytes + bytes
      if ¬ InInt totalBytes then .inr (.error .outOfBounds)
      else if totalBytes = iFileSize then .inr (.ok copied)
      else .inl ⟨s.round + 1, totalBytes, s.offset + bytes.toNat, copied⟩

/-- `COPY(srcfilename, dstfilename)`: its result and the files. `none` says that the rounds
granted were not enough. -/
def copy (rounds : Nat) (calls : CopyCalls) (files : Files) (srcfilename dstfilename : Bytes) :
    Option (Except Fault (Bool × Files)) :=
  if mkDir calls.sys dstfilename true = false then some (.ok (false, files))
  else
    match snprintf 301 300 (ascii "%s.tmp") [.str dstfilename] with
    | .error f => some (.error f)
    | .ok strdstfilenametmp =>
        match files srcfilename with
        | none => some (.ok (false, files))
        | some source =>
            if calls.openSrc = false then some (.ok (false, files))
            else if calls.openDst = false then some (.ok (false, files))
            else
              let iFileSize := fileSize (files srcfilename)
              match Loop.run (copyRound calls.read calls.write source iFileSize) rounds .init with
              | none => none
              | some (.error f) => some (.error f)
              | some (.ok copied) =>
                  let files := Function.update files strdstfilenametmp (some copied)
                  if rename calls.forRename strdstfilenametmp dstfilename 1 then
                    some (.ok (true, moved files strdstfilenametmp dstfilename))
                  else if remove calls.forRemove strdstfilenametmp 1 then
                    some (.ok (false, Function.update files strdstfilenametmp none))
                  else some (.ok (false, files))

end Public

end AsioServer
