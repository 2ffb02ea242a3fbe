import Mathlib.Data.Finset.Basic
import AsioServer.Ref.Memory

/-!
# The session map (`CServer.h`, `CServer.cpp`)

`_sessions` maps the uuid of a session to the session. A session never changes
its uuid and is entered under it, so the keys say everything there is to know
about the map.
-/

namespace AsioServer

/-- `boost::uuids::to_string` of a session's uuid: 36 characters. -/
structure Uuid where
  text : Bytes
  length_eq : text.length = 36
  nulFree : 0 ∉ text
  deriving DecidableEq

theorem Uuid.ext {u v : Uuid} (h : u.text = v.text) : u = v := by
  cases u; cases v; simpa using h

/-- The text that repeats one small letter. -/
def Uuid.letter (i : Fin 26) : Uuid where
  text := List.replicate 36 (UInt8.ofNat (97 + i))
  length_eq := List.length_replicate
  nulFree := by
    intro hmem
    have h := congrArg UInt8.toNat (List.eq_of_mem_replicate hmem)
    rw [UInt8.toNat_ofNat_of_lt' (by simp [UInt8.size]; omega)] at h
    exact absurd h (by simp; omega)

/-! The uuids of two sessions. -/

def Uuid.first : Uuid := .letter 0

def Uuid.second : Uuid := .letter 1

structure CServer where
  sessions : Finset Uuid
  deriving DecidableEq

/-- `ClearSession(uuid)`. -/
def CServer.clearSession (server : CServer) (uuid : Uuid) : CServer :=
  { sessions := server.sessions.erase uuid }

/-- `_sessions.insert(make_pair(uuid, session))`. -/
def CServer.insert (server : CServer) (uuid : Uuid) : CServer :=
  { sessions := Insert.insert uuid server.sessions }

/-- `GetSession(uuid)`: the session entered under a string, or null. -/
def CServer.getSession (server : CServer) (uuid : Bytes) : Option Uuid :=
  if h : uuid.length = 36 ∧ 0 ∉ uuid then
    if ⟨uuid, h.1, h.2⟩ ∈ server.sessions then some ⟨uuid, h.1, h.2⟩ else none
  else none

@[simp] theorem CServer.mem_clearSession {server : CServer} {u v : Uuid} :
    u ∈ (server.clearSession v).sessions ↔ u ≠ v ∧ u ∈ server.sessions :=
  Finset.mem_erase

@[simp] theorem CServer.mem_insert {server : CServer} {u v : Uuid} :
    u ∈ (server.insert v).sessions ↔ u = v ∨ u ∈ server.sessions :=
  Finset.mem_insert

end AsioServer
