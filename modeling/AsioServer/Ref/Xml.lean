import AsioServer.Ref.Strings

/-!
# Fields of a text (`_public.cpp`: `SNPRINTF`, `GetXMLBuffer`)

The tags are put together in arrays of 51 bytes, of which `SNPRINTF` fills 49.
Pointers into the text are offsets, and one in front of it or behind its
terminator is an access outside it. `m_ValueLen` is a difference of pointers cut
to an `int`.
-/

namespace AsioServer.Public

/-- `SNPRINTF(dest, destlen, n, fmt, ...)`: the string it leaves in `dest`. -/
def snprintf (destlen n : Nat) (fmt : Bytes) (args : List Arg) : Except Fault Bytes :=
  vsnprintf (if n > destlen then destlen else n) fmt args

/-- The string at an offset of the text. -/
def textAt (text : Bytes) (off : Int) : Except Fault Bytes :=
  if 0 ≤ off ∧ off ≤ text.length then .ok (text.drop off.toNat) else .error .outOfBounds

/-- `value[i] = 0`. -/
def terminate (value : Bytes) (i : Int) : Except Fault Bytes :=
  if 0 ≤ i then copyInto value i.toNat [0] else .error .outOfBounds

/-- `DeleteLRChar(value, ' ')` in the array. What is cut off becomes zeros. -/
def trimValue (value : Bytes) : Except Fault Bytes := do
  let text ← deleteLRChar (cStr value) 32
  copyInto value 0 (text ++ List.replicate ((cStr value).length + 1 - text.length) 0)

/-- `value` when the search begins. -/
def cleared (value : Bytes) (ilen : Int) : Except Fault Bytes :=
  if 0 < ilen then Libc.memset value (sizeT (int (ilen + 1))) else .ok value

/-- How many bytes are copied, with so many between the two tags found. -/
def copyLen (between : Nat) (mNameLen ilen : Int) : Int :=
  let mValueLen := int (between - mNameLen - 2)
  if mValueLen ≤ ilen ∨ ilen = 0 then mValueLen else ilen

/-- What is done once both tags are found. -/
def copyValue (value src : Bytes) (len : Int) : Except Fault Bytes := do
  let value ← Libc.strncpy value 0 src (sizeT len)
  let value ← terminate value len
  trimValue value

/-- `GetXMLBuffer(xmlbuffer, fieldname, value, ilen)`: its result and the array. -/
def getXMLBuffer (xmlbuffer fieldname value : Bytes) (ilen : Int) :
    Except Fault (Bool × Bytes) := do
  let value ← cleared value ilen
  let mNameLen := int fieldname.length
  let mSFieldName ← snprintf 51 50 (ascii "<%s>") [.str fieldname]
  let mEFieldName ← snprintf 51 50 (ascii "</%s>") [.str fieldname]
  match strstr xmlbuffer mSFieldName with
  | none => return (false, value)
  | some (start, _) =>
      match strstr (xmlbuffer.drop start.length) mEFieldName with
      | none => return (false, value)
      | some (between, _) =>
          let src ← textAt xmlbuffer (start.length + mNameLen + 2)
          let value ← copyValue value src (copyLen between.length mNameLen ilen)
          return (true, value)

end AsioServer.Public
