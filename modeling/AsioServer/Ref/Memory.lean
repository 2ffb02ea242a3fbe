import Mathlib.Data.List.Basic
import Mathlib.Tactic.Common

/-!
# Bytes, machine integers and faults

What the C++ sources compute with, on the little-endian host they are built
for. A `short` is an integer cut to sixteen bits at every store; a conversion
to `size_t` wraps a negative number; the two bytes a `memcpy` puts into a
`short` are its low byte first. Memory obtained from `new char[n]` holds
nothing yet, so a cell is an optional byte and reading an empty one is a fault
like leaving the array.

Faults come in two kinds. An exception leaves the function that raised it and
is seen by whoever catches it. Undefined behaviour is seen by nobody: a call
that ends so has no result the program can rely on.
-/

namespace AsioServer

abbrev Bytes := List UInt8

/-- The bytes of a string literal of the sources, all of them ASCII. -/
def ascii (s : String) : Bytes := s.toList.map Char.toUInt8

/-- A literal by its characters, which are quicker to evaluate than the literal. -/
theorem ascii_ofList (cs : List Char) : ascii (String.ofList cs) = cs.map Char.toUInt8 := by
  rw [ascii, String.toList_ofList]

/-- How a call can end other than by returning. -/
inductive Fault where
  /-- `std::bad_array_new_length`: `new char[n]` with a negative `n`. -/
  | badArrayNewLength
  /-- `std::invalid_argument` from `std::stoi`. -/
  | invalidArgument
  /-- `std::out_of_range` from `std::stoi`. -/
  | outOfRange
  /-- `Json::LogicError`. -/
  | jsonLogic
  /-- Undefined: an access outside the array. -/
  | outOfBounds
  /-- Undefined: a byte is used that was never written. -/
  | indeterminate
  /-- Undefined: a null pointer is followed. -/
  | nullPointer
  deriving DecidableEq, Repr

/-- Is the fault an exception, that a handler can catch? -/
def Fault.isException : Fault → Bool
  | .badArrayNewLength | .invalidArgument | .outOfRange | .jsonLogic => true
  | .outOfBounds | .indeterminate | .nullPointer => false

/-- A step of a computation that returned. -/
theorem bind_eq_ok {ε α β : Type} {x : Except ε α} {f : α → Except ε β}
    {b : β} : (x >>= f) = .ok b ↔ ∃ a, x = .ok a ∧ f a = .ok b := by
  cases x <;> simp [bind, Except.bind]

/-- And of one that failed. -/
theorem bind_eq_error {α β : Type} {x : Except Fault α} {g : α → Except Fault β} {f : Fault} :
    (x >>= g) = .error f ↔ x = .error f ∨ ∃ a, x = .ok a ∧ g a = .error f := by
  cases x <;> simp [bind, Except.bind]

theorem bind_ok {α β : Type} {x : Except Fault α} {f : α → Except Fault β} {a : α} {b : β}
    (hx : x = .ok a) (hf : f a = .ok b) : (x >>= f) = .ok b :=
  bind_eq_ok.mpr ⟨a, hx, hf⟩

theorem ok_bind {α β : Type} {x : Except Fault α} {a : α} (h : x = .ok a)
    (f : α → Except Fault β) : (x >>= f) = f a := by
  rw [h]
  rfl

/-! ## Integers -/

/-- An integer stored in a `short`. -/
def short (x : Int) : Int := x.bmod 65536

/-- An integer converted to `size_t`. -/
def sizeT (x : Int) : Nat := (x % 18446744073709551616).toNat

theorem short_eq {x : Int} (h₁ : -32768 ≤ x) (h₂ : x < 32768) : short x = x :=
  Int.bmod_eq_of_le (by omega) (by omega)

theorem short_bounds (x : Int) : -32768 ≤ short x ∧ short x < 32768 := by
  have h₁ := Int.le_bmod (x := x) (m := 65536) (by decide)
  have h₂ := Int.bmod_lt (x := x) (m := 65536) (by decide)
  unfold short
  omega

theorem short_emod (x : Int) : short x % 65536 = x % 65536 := Int.bmod_emod

theorem sizeT_natCast {n : Nat} (h : n < 18446744073709551616) :
    sizeT n = n := by
  unfold sizeT
  omega

/-- The short that `memcpy` makes of two bytes. -/
def loadShort (b₀ b₁ : UInt8) : Int := short (b₀.toNat + 256 * b₁.toNat)

/-- The two bytes that `memcpy` takes from an integer. -/
def storeShort (x : Int) : Bytes :=
  [UInt8.ofNat ((x % 65536).toNat % 256), UInt8.ofNat ((x % 65536).toNat / 256)]

/-- `socket_ops::network_to_host_short`, on an unsigned 16-bit argument. -/
def networkToHostShort (x : Int) : Int :=
  ((x % 65536).toNat % 256 * 256 + (x % 65536).toNat / 256 : Nat)

/-- `socket_ops::host_to_network_short`: the same exchange of two bytes. -/
def hostToNetworkShort (x : Int) : Int := networkToHostShort x

/-- Two bytes in network order. -/
def beNat (b₀ b₁ : UInt8) : Nat := 256 * b₀.toNat + b₁.toNat

theorem beNat_lt (b₀ b₁ : UInt8) : beNat b₀ b₁ < 65536 := by
  have h₀ := b₀.toNat_lt
  have h₁ := b₁.toNat_lt
  unfold beNat
  omega

theorem networkToHostShort_loadShort (b₀ b₁ : UInt8) :
    networkToHostShort (loadShort b₀ b₁) = beNat b₀ b₁ := by
  have h₀ := b₀.toNat_lt
  have h₁ := b₁.toNat_lt
  unfold networkToHostShort loadShort
  rw [short_emod]
  unfold beNat
  omega

/-- The two bytes of an integer in network order. -/
def beBytes (x : Int) : Bytes :=
  [UInt8.ofNat ((x % 65536).toNat / 256), UInt8.ofNat ((x % 65536).toNat % 256)]

theorem storeShort_hostToNetworkShort (x : Int) :
    storeShort (hostToNetworkShort x) = beBytes x := by
  have h : (networkToHostShort x % 65536).toNat
      = (x % 65536).toNat % 256 * 256 + (x % 65536).toNat / 256 := by
    unfold networkToHostShort
    omega
  unfold storeShort hostToNetworkShort beBytes
  rw [h, List.cons.injEq, List.cons.injEq]
  exact ⟨congrArg UInt8.ofNat (by omega), congrArg UInt8.ofNat (by omega), rfl⟩

theorem beNat_beBytes (x : Int) {b₀ b₁ : UInt8} (h : beBytes x = [b₀, b₁]) :
    (beNat b₀ b₁ : Int) = x % 65536 := by
  simp only [beBytes, List.cons.injEq, and_true] at h
  obtain ⟨rfl, rfl⟩ := h
  unfold beNat
  rw [UInt8.toNat_ofNat_of_lt' (by simp [UInt8.size]; omega),
    UInt8.toNat_ofNat_of_lt' (by simp [UInt8.size]; omega)]
  omega

/-! ## Arrays -/

/-- An array of `char`, some of it not yet written. -/
abbrev Cells := List (Option UInt8)

/-- `memcpy` into an array, at an offset where the bytes fit. -/
def Cells.overwrite (cells : Cells) (off : Nat) (src : Bytes) : Cells :=
  cells.take off ++ src.map some ++ cells.drop (off + src.length)

theorem Cells.length_overwrite {cells : Cells} {off : Nat} {src : Bytes}
    (h : off + src.length ≤ cells.length) :
    (cells.overwrite off src).length = cells.length := by
  simp only [overwrite, List.length_append, List.length_take, List.length_map,
    List.length_drop]
  omega

/-- Bytes copied right behind those already there. -/
theorem Cells.take_overwrite {cells : Cells} {held src : Bytes}
    (hheld : cells.take held.length = held.map some) :
    (cells.overwrite held.length src).take (held.length + src.length) =
      (held ++ src).map some := by
  rw [overwrite, hheld, ← List.map_append, List.take_append_of_le_length]
  · rw [List.take_of_length_le]
    simp
  · simp

/-- The source of a `memcpy`: `len` bytes of an array, from an offset on. -/
def readData (data : Bytes) (off len : Nat) : Except Fault Bytes :=
  if off + len ≤ data.length then .ok ((data.drop off).take len)
  else .error .outOfBounds

theorem readData_ok {data : Bytes} {off len : Nat}
    (h : off + len ≤ data.length) :
    readData data off len = .ok ((data.drop off).take len) := if_pos h

end AsioServer
