import AsioServer.Ref.Public
import AsioServer.Ref.Xml

/-!
# Directories (`_public.cpp`: `MKDIR`, `CDir`)

The system calls are given by what they answer: `readdir` the names of a
directory in some order, with those that begin with a dot among them, and `stat`
the kind of what a path leads to. A `stat` that fails leaves the structure as it
was, which has no value before the first success.
-/

namespace AsioServer

/-- `st_mode`, as far as it says what a path leads to. -/
inductive Mode where
  | directory
  | regular
  | special
  deriving DecidableEq

/-- What the system calls answer. -/
structure System where
  /-- `access(path, F_OK) == 0`. -/
  access : Bytes → Bool
  /-- `mkdir(path, 0755) == 0`. -/
  mkdir : Bytes → Bool
  /-- `opendir` and the names `readdir` gives. -/
  opendir : Bytes → Option (List Bytes)
  stat : Bytes → Option Mode

namespace Public

/-- The paths in front of the slashes of `filename`, but for a leading one. -/
def parents (filename : Bytes) : List Bytes :=
  ((List.range filename.length).filter fun ii => 1 ≤ ii ∧ filename[ii]? = some 47).map fun ii =>
    (filename.take ii).take 300

/-- `MKDIR(filename, bisfilename)`. -/
def mkDir (sys : System) (filename : Bytes) (bisfilename : Bool) : Bool :=
  (parents filename).all (fun strPathName => sys.access strPathName || sys.mkdir strPathName) &&
    (bisfilename || sys.access filename || sys.mkdir filename)

end Public

namespace CDir

open Public

/-- `strTempFileName`: the path of an entry. -/
def tempFileName (dirName dName : Bytes) : Option (Except Fault Bytes) :=
  match snprintf 3001 300 (ascii "%s//%s") [.str dirName, .str dName] with
  | .error f => some (.error f)
  | .ok str =>
      let array := str ++ List.replicate (3001 - str.length) 0
      -- a round takes a byte away
      (Public.updateStr (str.length + 1) array (ascii "//") (ascii "/") true).map (·.map cStr)

/-- What does not change during a search. -/
structure Search where
  sys : System
  inMatchStr : Bytes
  inMaxCount : Nat
  bAndChild : Bool

/-- A call of `_OpenDir` for a directory, from the names found before. -/
abbrev Visit := Bytes → List Bytes → Option (Except Fault (Bool × List Bytes))

/-- The loop of `_OpenDir` over what `readdir` still gives. -/
def readdirLoop (q : Search) (child : Visit) (dirName : Bytes) :
    List Bytes → Option Mode → List Bytes → Option (Except Fault (Bool × List Bytes))
  | [], _, names => some (.ok (true, names))
  | dName :: rest, filestat, names =>
      if dName.head? = some 46 then readdirLoop q child dirName rest filestat names
      else
        match tempFileName dirName dName with
        | none => none
        | some (.error f) => some (.error f)
        | some (.ok path) =>
            match (q.sys.stat path).or filestat with
            | none => some (.error .indeterminate)
            | some .directory =>
                if q.bAndChild then
                  match child path names with
                  | some (.ok (true, names)) =>
                      readdirLoop q child dirName rest (some .directory) names
                  | failed => failed
                else readdirLoop q child dirName rest (some .directory) names
            | some mode =>
                match matchStr dName (cStr q.inMatchStr) with
                | .error f => some (.error f)
                | .ok false => readdirLoop q child dirName rest (some mode) names
                | .ok true =>
                    let names := names ++ [path]
                    if q.inMaxCount ≤ names.length then some (.ok (true, names))
                    else readdirLoop q child dirName rest (some mode) names

/-- `_OpenDir`, for a tree of at most so many levels. -/
def visit (q : Search) : Nat → Visit
  | 0, _, _ => none
  | levels + 1, dirName, names =>
      match q.sys.opendir dirName with
      | none => some (.ok (false, names))
      | some entries => readdirLoop q (visit q levels) dirName entries none names

/-- `OpenDir`: its result and `m_vFileName`. `none` says that the tree has more levels. -/
def openDir (q : Search) (levels : Nat) (inDirName : Bytes) (bSort : Bool) :
    Option (Except Fault (Bool × List Bytes)) :=
  if mkDir q.sys inDirName false = false then some (.ok (false, []))
  else
    match visit q levels inDirName [] with
    | some (.ok (bRet, names)) =>
        some (.ok (bRet, if bSort then names.mergeSort fun a b => decide (a ≤ b) else names))
    | failed => failed

end CDir

end AsioServer
