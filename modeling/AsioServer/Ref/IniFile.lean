import AsioServer.Ref.Fgets

/-!
# `CIniFile` (`_public.cpp`)

`LoadFile` gathers what `FGETS` reads from the file in `m_xmlbuffer`. Whether the file
can be opened is given, and with it what is in it.
-/

namespace AsioServer

namespace CIniFile

/-- A round of the loop of `LoadFile`, from `m_xmlbuffer` and the stream: what the loop leaves
in `m_xmlbuffer`, unless `FGETS` has not ended after the rounds granted to it. -/
def loadRound (rounds : Nat) (s : Bytes × Bytes) :
    (Bytes × Bytes) ⊕ Option (Except Fault Bytes) :=
  let (mXmlbuffer, stream) := s
  let strLine := List.replicate 501 0
  match Public.fgets rounds stream strLine 500 none with
  | none => .inr none
  | some (.error f) => .inr (some (.error f))
  | some (.ok (false, _, _)) => .inr (some (.ok mXmlbuffer))
  | some (.ok (true, strLine, stream)) => .inl (mXmlbuffer ++ cStr strLine, stream)

/-- `LoadFile(filename)`: its result and `m_xmlbuffer`. `file` is what is in the file, if it can
be opened. `none` says that the rounds granted were not enough. -/
def loadFile (rounds : Nat) (file : Option Bytes) : Option (Except Fault (Bool × Bytes)) :=
  match file with
  | none => some (.ok (false, []))
  | some content =>
      match Loop.run (loadRound rounds) rounds ([], content) with
      | none => none
      | some none => none
      | some (some (.error f)) => some (.error f)
      | some (some (.ok mXmlbuffer)) =>
          if mXmlbuffer.length < 10 then some (.ok (false, mXmlbuffer))
          else some (.ok (true, mXmlbuffer))

end CIniFile

end AsioServer
