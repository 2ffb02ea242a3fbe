import Mathlib.Data.List.Nodup
import Mathlib.Data.List.Perm.Subperm
import AsioServer.Spec.Parameters

/-!
# Which parameters MySQL sees

What MySQL takes for a parameter of the translated text has been a question mark
or a number behind a colon in the text before, at a place where its lexer is not
inside a string, a quoted name or a comment (`SqlLexer.marks`). Numbers inside of
these are replaced as well, but nothing is bound to them.
-/

namespace AsioServer

namespace SqlLexer

variable (L : SqlLexer)

/-- What stands in front of a rest. -/
def markAt (q : L.State) (c : UInt8) (s : Bytes) : Option Tok :=
  if L.live q then
    if c = questionMark then some (.chr c)
    else if c = colon ∧ s.takeWhile isDigit ≠ [] then
      some (.param (digitsValue (s.takeWhile isDigit)))
    else none
  else none

def marksFrom : L.State → Bytes → List Tok
  | _, [] => []
  | q, c :: s => (L.markAt q c s).toList ++ marksFrom (L.step q c) s

/-- The question marks of a text and its numbers behind a colon, in their order, where they are
not in a string, a quoted name or a comment. -/
def marks (s : Bytes) : List Tok := L.marksFrom L.start s

example : mysqlLexer.marks (ascii "values('?',:12) -- :1") = [.param 12] := by decide

/-- Read from this state on, all such numbers are parameters, from 1 to `n` and without leading
zeros. -/
def ParamsFrom (n : Nat) (q : L.State) (s : Bytes) : Prop :=
  ∀ before rest, s = before ++ colon :: rest → L.live (L.run q before) = true →
    rest.takeWhile isDigit ≠ [] →
    ∃ k : Nat, 1 ≤ k ∧ k ≤ n ∧ rest.takeWhile isDigit = decimal k

def Params (n : Nat) (s : Bytes) : Prop := L.ParamsFrom n L.start s

variable {L}

theorem ParamsFrom.mono {m n : Nat} (hle : m ≤ n) {q : L.State} {s : Bytes}
    (h : L.ParamsFrom m q s) : L.ParamsFrom n q s := by
  intro before rest hs hlive hrun
  obtain ⟨k, hpos, hk, hdec⟩ := h before rest hs hlive hrun
  exact ⟨k, hpos, Nat.le_trans hk hle, hdec⟩

theorem ParamsFrom.nil {n : Nat} {q : L.State} : L.ParamsFrom n q [] :=
  fun before rest h => by cases before <;> cases h

theorem paramsFrom_cons {n : Nat} {q : L.State} {c : UInt8} {s : Bytes} :
    L.ParamsFrom n q (c :: s) ↔
      (c = colon → L.live q = true → s.takeWhile isDigit ≠ [] →
        ∃ k : Nat, 1 ≤ k ∧ k ≤ n ∧ s.takeWhile isDigit = decimal k) ∧
      L.ParamsFrom n (L.step q c) s := by
  constructor
  · intro h
    refine ⟨fun hc => ?_, fun before rest hs => ?_⟩
    · exact h [] s (by rw [hc, List.nil_append])
    · exact h (c :: before) rest (by rw [hs, List.cons_append])
  · rintro ⟨hfirst, hrest⟩ before rest hs
    cases before with
    | nil =>
        obtain ⟨hc, rfl⟩ := List.cons.inj hs
        exact hfirst hc
    | cons d before =>
        obtain ⟨rfl, hs'⟩ := List.cons.inj hs
        exact hrest before rest hs'

theorem ParamsFrom.drop {n : Nat} {q : L.State} {s t : Bytes} (h : L.ParamsFrom n q (s ++ t)) :
    L.ParamsFrom n (L.run q s) t := by
  intro before rest ht hlive
  refine h (s ++ before) rest (by rw [ht, List.append_assoc]) ?_
  rwa [run, List.foldl_append]

/-- What holds of all colons holds of those MySQL sees. -/
theorem params_of_paramText {n : Nat} {s : Bytes} (h : ParamText n s) : L.Params n s :=
  fun before rest hs _ => h before rest hs

/-- A text that uses the numbers up to `n` has as many marks. -/
theorem le_length_marks {n : Nat} {s : Bytes}
    (hused : ∀ k, 1 ≤ k → k ≤ n → Tok.param k ∈ L.marks s) : n ≤ (L.marks s).length := by
  have hnodup : ((List.range n).map fun k => Tok.param (k + 1)).Nodup :=
    List.Nodup.map (fun a b hab => Nat.succ.inj (Tok.param.inj hab)) List.nodup_range
  have hsub : ((List.range n).map fun k => Tok.param (k + 1)) ⊆ L.marks s := by
    intro t ht
    obtain ⟨k, hk, rfl⟩ := List.mem_map.mp ht
    exact hused (k + 1) (by omega) (List.mem_range.mp hk)
  have hle := (List.subperm_of_subset hnodup hsub).length_le
  rwa [List.length_map, List.length_range] at hle

end SqlLexer

end AsioServer
