import AsioServer.Proofs.Translation

/-!
# The parameters of a statement become question marks

The loop of `prepare` goes down from `MAXPARAMS`, so when it comes to `:k` every
number that `:k` only begins is gone: a parameter with a larger number is a
question mark, one with a smaller number still stands, and its digits end where
the text's do. `marked` is that text, and one replacement takes it one number
down.
-/

namespace AsioServer

/-! ## One number -/

/-- A parameter once all numbers above this one are replaced. -/
def Tok.marked (ii : Nat) : Tok → Bytes
  | .chr c => [c]
  | .param k => if ii < k then [questionMark] else colon :: decimal k

def marked (ii : Nat) (s : Bytes) : Bytes := (tokens s).flatMap (Tok.marked ii)

theorem marked_chr {c : UInt8} {s : Bytes} (h : c = colon → s.takeWhile isDigit = []) (ii : Nat) :
    marked ii (c :: s) = c :: marked ii s := by
  rw [marked, tokens_chr h]
  rfl

theorem marked_param {k : Nat} {rest : Bytes} (hrest : rest.takeWhile isDigit = []) (ii : Nat) :
    marked ii (colon :: (decimal k ++ rest)) = Tok.marked ii (.param k) ++ marked ii rest := by
  rw [marked, tokens_param hrest]
  rfl

/-- A digit is never what a parameter leaves. -/
theorem marked_digits {s : Bytes} (h : ParamText maxParams s) (hs : s.takeWhile isDigit = [])
    (ii : Nat) :
    (marked ii s).takeWhile isDigit = [] := by
  induction s, h using ParamText.induction with
  | nil => rfl
  | chr c s _ hc _ =>
      have hdigit : ¬ isDigit c := fun hd => by simp [List.takeWhile_cons_of_pos hd] at hs
      rw [marked_chr hc, List.takeWhile_cons_of_neg hdigit]
  | param k rest _ _ _ hrest _ =>
      rw [marked_param hrest]
      by_cases hk : ii < k
      · rw [Tok.marked, if_pos hk]
        rfl
      · rw [Tok.marked, if_neg hk]
        rfl

/-- Where a text goes on without a digit, a number begins it only by beginning
the number there. -/
theorem decimal_begins {m k : Nat} {rest : Bytes} (hrest : rest.takeWhile isDigit = [])
    (h : decimal m <+: decimal k ++ rest) : decimal m <+: decimal k := by
  obtain ⟨t, ht⟩ := h
  have hrun := congrArg (List.takeWhile isDigit) ht
  rw [List.takeWhile_append_of_pos fun c hc => isDigit_of_mem_decimal hc,
    takeWhile_digits (fun c hc => isDigit_of_mem_decimal hc) hrest] at hrun
  exact ⟨_, hrun⟩

theorem not_decimal_begins {m : Nat} {s : Bytes} (hs : s.takeWhile isDigit = []) :
    ¬ decimal m <+: s := by
  rintro ⟨t, rfl⟩
  rw [List.takeWhile_append_of_pos fun c hc => isDigit_of_mem_decimal hc] at hs
  exact decimal_ne_nil m (List.append_eq_nil_iff.mp hs).1

theorem colon_notMem_decimal (k : Nat) : colon ∉ decimal k := fun hmem =>
  absurd (isDigit_of_mem_decimal hmem) (by decide)

/-- Replacing one number takes the text one number down. -/
theorem all_marked {s : Bytes} (h : ParamText maxParams s) (ii : Nat) :
    Replace.all (colon :: decimal ((ii + 1 : Nat) : Int)) [questionMark] (marked (ii + 1) s) =
      marked ii s := by
  have hne : colon :: decimal ((ii + 1 : Nat) : Int) ≠ [] := List.cons_ne_nil _ _
  induction s, h using ParamText.induction with
  | nil => rfl
  | chr c s h hc ih =>
      rw [marked_chr hc, marked_chr hc, Replace.all_cons hne, ih]
      intro hpre
      -- A colon that starts an occurrence would have a digit behind it.
      obtain ⟨hcolon, hdigits⟩ := List.cons_prefix_cons.mp hpre
      exact not_decimal_begins (marked_digits h.tail (hc hcolon.symm) (ii + 1)) hdigits
  | param k rest h _ _ hrest ih =>
      rw [marked_param hrest, marked_param hrest]
      rcases Nat.lt_trichotomy k (ii + 1) with hlt | rfl | hgt
      · -- A smaller number stays: a larger one does not begin it.
        rw [Tok.marked, Tok.marked, if_neg (by omega), if_neg (by omega), List.cons_append,
          Replace.all_cons hne, Replace.all_skip (colon_notMem_decimal k), ih, List.cons_append]
        intro hpre
        have hdigits := (List.cons_prefix_cons.mp hpre).2
        have hle := le_of_decimal_begins
          (decimal_begins (marked_digits h.tail.drop hrest (ii + 1)) hdigits)
        omega
      · rw [Tok.marked, Tok.marked, if_neg (by omega), if_pos (by omega),
          Replace.all_append hne, ih]
      · rw [Tok.marked, Tok.marked, if_pos hgt, if_pos (by omega), List.singleton_append,
          Replace.all_cons hne, ih, List.singleton_append]
        intro hpre
        exact absurd (List.cons_prefix_cons.mp hpre).1 (by decide)

/-! ## The loop -/

theorem marked_length_le {s : Bytes} (h : ParamText maxParams s) (ii : Nat) :
    (marked ii s).length ≤ s.length := by
  induction s, h using ParamText.induction with
  | nil => exact Nat.le_refl _
  | chr c s _ hc ih =>
      rw [marked_chr hc, List.length_cons, List.length_cons]
      omega
  | param k rest _ _ _ hrest ih =>
      rw [marked_param hrest, Tok.marked]
      split <;> simp only [List.length_append, List.length_cons, List.length_nil] <;> omega

/-- The loop takes the text from any number down to none. -/
theorem placeholdersFrom_marked {s : Bytes} (h : ParamText maxParams s)
    (hlen : s.length < sqlSize) :
    ∀ ii ≤ maxParams, placeholdersFrom ii (marked ii s) = .ok (marked 0 s)
  | 0, _ => rfl
  | ii + 1, hii => by
      have hfits : (marked (ii + 1) s).length < mSqlSize := by
        have := marked_length_le h (ii + 1)
        unfold mSqlSize
        unfold sqlSize at hlen
        omega
      have hshort : [questionMark].length ≤ (colon :: decimal ((ii + 1 : Nat) : Int)).length :=
        Nat.le_add_left 1 _
      rw [placeholdersFrom_succ hii, updateStr_shrinks hshort hfits, all_marked h]
      exact placeholdersFrom_marked h hlen ii (by omega)

theorem marked_maxParams {s : Bytes} (h : ParamText maxParams s) : marked maxParams s = s := by
  induction s, h using ParamText.induction with
  | nil => rfl
  | chr c s _ hc ih => rw [marked_chr hc, ih]
  | param k rest _ _ hle hrest ih =>
      rw [marked_param hrest, Tok.marked, if_neg (by omega), ih, List.cons_append]

theorem marked_zero {s : Bytes} (h : ParamText maxParams s) :
    marked 0 s = (tokens s).map Tok.mark := by
  induction s, h using ParamText.induction with
  | nil => rfl
  | chr c s _ hc ih => rw [marked_chr hc, tokens_chr hc, ih, List.map_cons, Tok.mark]
  | param k rest _ hpos _ hrest ih =>
      rw [marked_param hrest, Tok.marked, if_pos (Nat.lt_of_succ_le hpos), tokens_param hrest, ih,
        List.map_cons, Tok.mark, List.singleton_append]

theorem placeholders_eq {s : Bytes} (h : ParamText maxParams s) (hlen : s.length < sqlSize) :
    placeholders s = .ok ((tokens s).map Tok.mark) := by
  have hloop := placeholdersFrom_marked h hlen maxParams (Nat.le_refl _)
  rwa [marked_maxParams h, marked_zero h] at hloop

/-- Each parameter has become one question mark and nothing else has changed;
where the text has no question mark of its own, they stand where the parameters
stood. -/
theorem placeholders_exact (s : Bytes) (hlen : s.length < sqlSize) (h : ParamText maxParams s) :
    (tokens s).flatMap Tok.text = s ∧ placeholders s = .ok ((tokens s).map Tok.mark) ∧
      (questionMark ∉ s → ∀ i : Nat, ((tokens s).map Tok.mark)[i]? = some questionMark ↔
        ∃ k, (tokens s)[i]? = some (.param k)) := by
  refine ⟨h.text, placeholders_eq h hlen, fun hown i => ?_⟩
  rw [List.getElem?_map, Option.map_eq_some_iff]
  constructor
  · rintro ⟨t, ht, hmark⟩
    cases t with
    | param k => exact ⟨k, ht⟩
    | chr c =>
        -- A question mark that is no parameter is one of the text.
        refine absurd ?_ hown
        rw [← h.text]
        refine List.mem_flatMap.mpr ⟨.chr c, List.mem_of_getElem? ht, ?_⟩
        rw [Tok.mark] at hmark
        rw [hmark]
        exact List.mem_singleton_self _
  · rintro ⟨k, ht⟩
    exact ⟨.param k, ht, rfl⟩

theorem placeholders_exact_two :
    (tokens (ascii ":1:12")).flatMap Tok.text = ascii ":1:12" ∧
      placeholders (ascii ":1:12") = .ok ((tokens (ascii ":1:12")).map Tok.mark) ∧
      (questionMark ∉ ascii ":1:12" → ∀ i : Nat,
        ((tokens (ascii ":1:12")).map Tok.mark)[i]? = some questionMark ↔
          ∃ k, (tokens (ascii ":1:12"))[i]? = some (.param k)) :=
  placeholders_exact (ascii ":1:12") (by decide)
    (.cons (fun _ _ => ⟨1, by decide, by decide, by decide⟩)
      (.cons (fun h => absurd h (by decide))
        (.cons (fun _ _ => ⟨12, by decide, by decide, by decide⟩)
          (.cons (fun h => absurd h (by decide)) (.cons (fun h => absurd h (by decide)) .nil)))))

end AsioServer
