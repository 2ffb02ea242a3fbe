import AsioServer.Ref.Xml

/-!
# `CFile` (`_public.cpp`)

The names are the strings in the two arrays of 301 bytes. What `fopen` (with the
`MKDIR` in front of it), `rename` and `remove` answer is given. A stream
remembers the name it was opened by and the operation, and an object the calls of
`remove` and `rename` it has made with a name in `m_filenametmp`. Without one
`rename` and `remove` fail.
-/

namespace AsioServer

structure Stream where
  path : Bytes
  forRename : Bool

/-- A call for the temporary file, with the stream that was open when the operation began. -/
inductive TmpCall where
  | remove (tmp : Bytes) (fp : Stream)
  | rename (tmp filename : Bytes) (fp : Stream)

structure CFile where
  mFp : Option Stream
  mFilename : Bytes
  mFilenametmp : Bytes
  calls : List TmpCall
  destroyed : Bool

namespace CFile

/-- `CFile()`. -/
def init : CFile := ⟨none, [], [], [], false⟩

def record (f : CFile) (call : TmpCall) : CFile := { f with calls := f.calls ++ [call] }

/-- `Close()`. -/
def close (f : CFile) : CFile :=
  match f.mFp with
  | none => f
  | some fp =>
      let f := { f with mFp := none, mFilename := [] }
      let f := if f.mFilenametmp ≠ [] then f.record (.remove f.mFilenametmp fp) else f
      { f with mFilenametmp := [] }

/-- `CloseAndRemove()`, with what `remove` answers. -/
def closeAndRemove (f : CFile) (removed : Bool) : Bool × CFile :=
  match f.mFp with
  | none => (true, f)
  | some _ =>
      let f := { f with mFp := none }
      if removed = false then (false, { f with mFilename := [] })
      else (true, { f with mFilename := [], mFilenametmp := [] })

/-- `Open(filename, openmode, bEnBuffer)`, with what `FOPEN` answers. -/
def openFile (f : CFile) (filename : Bytes) (opened : Bool) : Bool × CFile :=
  let f := f.close
  if opened = false then (false, { f with mFp := none })
  else (true, { f with mFp := some ⟨cStr filename, false⟩, mFilename := (cStr filename).take 300 })

/-- `OpenForRename(filename, openmode, bEnBuffer)`, with what `FOPEN` answers. -/
def openForRename (f : CFile) (filename : Bytes) (opened : Bool) : Except Fault (Bool × CFile) := do
  let f := { f.close with mFilename := (cStr filename).take 300 }
  let tmp ← Public.snprintf 301 300 (ascii "%s.tmp") [.str f.mFilename]
  let f := { f with mFilenametmp := tmp }
  if opened = false then return (false, { f with mFp := none })
  else return (true, { f with mFp := some ⟨tmp, true⟩ })

/-- `CloseAndRename()`, with what `rename` answers. -/
def closeAndRename (f : CFile) (renamed : Bool) : Bool × CFile :=
  match f.mFp with
  | none => (false, f)
  | some fp =>
      let f := { f with mFp := none }
      if f.mFilenametmp = [] then (false, { f with mFilename := [] })
      else
        let f := f.record (.rename f.mFilenametmp f.mFilename fp)
        let f := if renamed then f else f.record (.remove f.mFilenametmp fp)
        (renamed, { f with mFilename := [], mFilenametmp := [] })

end CFile

/-- An operation, with what the system calls it makes answer. -/
inductive FileOp where
  | openFile (filename : Bytes) (opened : Bool)
  | openForRename (filename : Bytes) (opened : Bool)
  | close
  | closeAndRename (renamed : Bool)
  | closeAndRemove (removed : Bool)
  | destroy

/-- An object that is gone takes no more operations. -/
def CFile.step (f : CFile) (op : FileOp) : Option CFile :=
  if f.destroyed then none
  else
    match op with
    | .openFile filename opened => some (f.openFile filename opened).2
    | .openForRename filename opened =>
        match f.openForRename filename opened with
        | .ok res => some res.2
        | .error _ => none
    | .close => some f.close
    | .closeAndRename renamed => some (f.closeAndRename renamed).2
    | .closeAndRemove removed => some (f.closeAndRemove removed).2
    | .destroy => some { f.close with destroyed := true }

end AsioServer
