import AsioServer.Proofs.Strings

/-!
# The bounded string family against the unbounded one

Each of the four functions leaves what the function of the C library with its name
would have left in an array without an end, cut to what its own array has room for. So
calls on one array can follow each other in any order, once it holds a string.
-/

namespace AsioServer

/-- A call of `STRCPY`, `STRNCPY`, `STRCAT` or `STRNCAT`, but for the array. -/
inductive StringCall where
  | strcpy (src : Bytes)
  | strncpy (src : Bytes) (n : Nat)
  | strcat (src : Bytes)
  | strncat (src : Bytes) (n : Nat)
  deriving Repr, DecidableEq

namespace StringCall

def run (destlen : Nat) (dest : Bytes) : StringCall → Except Fault Bytes
  | strcpy src => Public.strcpy dest destlen src
  | strncpy src n => Public.strncpy dest destlen src n
  | strcat src => Public.strcat dest destlen src
  | strncat src n => Public.strncat dest destlen src n

/-- Does the call go on from the string in the array? -/
def appends : StringCall → Bool
  | strcpy _ => false
  | strncpy _ _ => false
  | strcat _ => true
  | strncat _ _ => true

/-- What there is after the call where there is room for everything. -/
def text (s : Bytes) : StringCall → Bytes
  | strcpy src => cStr src
  | strncpy src n => (cStr src).take n
  | strcat src => s ++ cStr src
  | strncat src n => s ++ (cStr src).take n

/-- What there is after the call in an array of `destlen` bytes. -/
def cut (destlen : Nat) (s : Bytes) (call : StringCall) : Bytes :=
  (call.text s).take (destlen - 1)

variable {destlen : Nat} {dest s : Bytes}

theorem run_holds (hpos : 1 ≤ destlen) (hle : destlen ≤ 4294967296) (hlen : dest.length = destlen)
    (call : StringCall) (h : call.appends = true → Holds dest s) :
    ∃ dest', call.run destlen dest = .ok dest' ∧ dest'.length = destlen ∧
      Holds dest' (cut destlen s call) := by
  have hdest := Nat.le_of_eq hlen.symm
  cases call with
  | strcpy src =>
      have hcall := Public.strcpy_holds src hpos hdest (by omega)
      rwa [hlen] at hcall
  | strncpy src n =>
      have hcall := Public.strncpy_holds src n hpos hdest (by omega)
      rwa [hlen] at hcall
  | strcat src =>
      have hholds := h rfl
      have hcall := Public.strcat_holds src hholds (hlen ▸ hholds.length_lt) hdest hle
      rwa [hlen] at hcall
  | strncat src n =>
      have hholds := h rfl
      have hcall := Public.strncat_holds src n hholds (hlen ▸ hholds.length_lt) hdest (by omega)
      rwa [hlen] at hcall

/-- One call after the other. -/
theorem runs_hold (hpos : 1 ≤ destlen) (hle : destlen ≤ 4294967296) (hlen : dest.length = destlen)
    (h : Holds dest s) (calls : List StringCall) :
    ∃ dest', calls.foldlM (run destlen) dest = .ok dest' ∧ dest'.length = destlen ∧
      Holds dest' (calls.foldl (cut destlen) s) := by
  induction calls generalizing dest s with
  | nil => exact ⟨dest, rfl, hlen, h⟩
  | cons call calls ih =>
      obtain ⟨dest₁, hrun, hlen₁, hholds₁⟩ := run_holds hpos hle hlen call fun _ => h
      rw [List.foldlM_cons, ok_bind hrun, List.foldl_cons]
      exact ih hlen₁ hholds₁

end StringCall

/-- Each call leaves the unbounded text, cut to the array, and so do calls in a row. If
the first of them does not append, the array need not hold a string before. -/
theorem bounded_strings {destlen : Nat} (hpos : 1 ≤ destlen) (hle : destlen ≤ 4294967296)
    {dest : Bytes} (hlen : dest.length = destlen) (call : StringCall) {s : Bytes}
    (h : call.appends = true → Holds dest s) :
    (∃ dest', call.run destlen dest = .ok dest' ∧ dest'.length = destlen ∧
      Holds dest' ((call.text s).take (destlen - 1))) ∧
    ∀ calls : List StringCall, ∃ dest' t,
      (call :: calls).foldlM (StringCall.run destlen) dest = .ok dest' ∧ dest'.length = destlen ∧
      Holds dest' t ∧ t.length < destlen ∧
      t = calls.foldl (StringCall.cut destlen) ((call.text s).take (destlen - 1)) := by
  obtain ⟨dest₁, hrun, hlen₁, hholds₁⟩ := call.run_holds hpos hle hlen h
  refine ⟨⟨dest₁, hrun, hlen₁, hholds₁⟩, fun calls => ?_⟩
  obtain ⟨dest', hruns, hlen', hholds'⟩ := StringCall.runs_hold hpos hle hlen₁ hholds₁ calls
  refine ⟨dest', _, ?_, hlen', hholds', hlen' ▸ hholds'.length_lt, rfl⟩
  rw [List.foldlM_cons, ok_bind hrun, hruns]

theorem bounded_strings_path :
    ∃ dest' t, [.strcpy (ascii "/tmp/"), .strcat (ascii "a.xml"), .strncat (ascii ".bak") 2].foldlM
        (StringCall.run 12) (List.replicate 12 1) = .ok dest' ∧ dest'.length = 12 ∧
      Holds dest' t ∧ t.length < 12 ∧ t = ascii "/tmp/a.xml." :=
  (bounded_strings (s := []) (by decide) (by decide) rfl (.strcpy (ascii "/tmp/"))
    fun h => absurd h Bool.false_ne_true).2 [.strcat (ascii "a.xml"), .strncat (ascii ".bak") 2]

end AsioServer
