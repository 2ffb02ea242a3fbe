import AsioServer.Lib.Wildcard
import AsioServer.Ref.Public

/-!
# What `MatchStr` accepts

For a pattern with a star the loop is the search for the leftmost places, and
it is right; but it looks at the end of the name before it knows that the last
piece fits into it, and reads in front of the name if it does not. For a pattern
without a star it asks whether the name starts and ends with it, which is also
true of a name that does both with room between or with an overlap.
-/

namespace AsioServer

open Wildcard (Matches rest)

/-! ## Strings an `int` can measure -/

/-- A string without a terminator in it, of a length that is an `int`. -/
structure Measured (s : Bytes) : Prop where
  nul : 0 ∉ s
  length_lt : s.length < 2147483648

theorem Measured.of_infix {s t : Bytes} (h : Measured s) (hin : t <:+: s) : Measured t :=
  ⟨fun hmem => h.nul (hin.subset hmem), Nat.lt_of_le_of_lt hin.length_le h.length_lt⟩

theorem upper_cases (c : UInt8) :
    upper c = c ∨ 97 ≤ c.toNat ∧ c.toNat ≤ 122 ∧ (upper c).toNat = c.toNat - 32 := by
  unfold upper
  split
  · next h =>
      have h₁ := UInt8.le_iff_toNat_le.mp h.1
      have h₂ := UInt8.le_iff_toNat_le.mp h.2
      refine Or.inr ⟨h₁, h₂, ?_⟩
      rw [UInt8.toNat_sub_of_le]
      · rfl
      · exact UInt8.le_iff_toNat_le.mpr (Nat.le_trans (by decide) h₁)
  · exact Or.inl rfl

theorem upper_eq_iff {sep : UInt8} (hsep : sep.toNat < 65) (c : UInt8) :
    upper c = sep ↔ c = sep := by
  constructor
  · intro h
    rcases upper_cases c with hsame | ⟨hlo, hhi, hval⟩
    · rw [← hsame, h]
    · rw [h] at hval
      omega
  · rintro rfl
    rcases upper_cases c with hsame | ⟨hlo, hhi, hval⟩
    · exact hsame
    · omega

theorem Measured.upper {s : Bytes} (h : Measured s) : Measured (s.map upper) where
  nul hmem := by
    obtain ⟨c, hc, hzero⟩ := List.mem_map.mp hmem
    rw [(upper_eq_iff (by decide) c).mp hzero] at hc
    exact h.nul hc
  length_lt := by
    rw [List.length_map]
    exact h.length_lt

theorem toUpper_eq {s : Bytes} (h : Measured s) : toUpper s = s.map upper := by
  unfold toUpper
  split
  · next hnil => rw [hnil]; rfl
  · have hlen := h.length_lt
    have hint : int s.length = s.length := int_eq (by omega) (by omega)
    rw [cStr_of_nulFree h.nul, toUpperChars, hint]
    rw [Int.toNat_natCast, List.take_length, List.drop_length, List.append_nil]

theorem int_npos : int npos = -1 := by decide

/-- A position that is found is the place of the leftmost occurrence. -/
theorem find_first {s pat before behind : Bytes} {pos : Nat} (hpos : pos ≤ s.length)
    (h : Replace.first pat (s.drop pos) = some (before, behind)) :
    find s pat pos = pos + before.length ∧
      find s pat pos + pat.length + behind.length = s.length ∧
      s.drop (find s pat pos + pat.length) = behind := by
  have hfind : find s pat pos = pos + before.length := by rw [find, if_pos hpos, h]
  obtain ⟨hcut, -⟩ := Replace.first_eq_some.mp h
  have hlen := congrArg List.length hcut
  simp only [List.length_drop, List.length_append] at hlen
  rw [hfind]
  refine ⟨rfl, by omega, ?_⟩
  rw [Nat.add_assoc, ← List.drop_drop, hcut, ← List.length_append, List.drop_left]

theorem find_none {s pat : Bytes} {pos : Nat} (h : Replace.first pat (s.drop pos) = none) :
    int (find s pat pos) = -1 := by
  have hfind : find s pat pos = npos := by
    rw [find, h]
    exact ite_self npos
  rw [hfind, int_npos]

/-! ## `SplitToCmd` -/

theorem first_sep {sep : UInt8} {s before behind : Bytes}
    (h : Replace.first [sep] s = some (before, behind)) :
    s = before ++ sep :: behind ∧ sep ∉ before := by
  obtain ⟨hs, hmin⟩ := Replace.first_eq_some.mp h
  rw [List.append_assoc, List.singleton_append] at hs
  refine ⟨hs, fun hmem => ?_⟩
  obtain ⟨a, b, hab⟩ := List.append_of_mem hmem
  have hle := hmin a (b ++ sep :: behind) (by rw [hs, hab]; simp only [List.append_assoc,
    List.cons_append, List.nil_append])
  rw [hab, List.length_append, List.length_cons] at hle
  omega

theorem splitLoop_eq {sep : UInt8} {rounds : Nat} {s : Bytes} (hs : s.length < 2147483648)
    (hrounds : s.length ≤ rounds) : splitLoop sep rounds s = .ok (s.splitOn sep) := by
  induction rounds generalizing s with
  | zero =>
      rw [List.eq_nil_of_length_eq_zero (Nat.le_zero.mp hrounds)]
      rfl
  | succ rounds ih =>
      cases hfirst : Replace.first [sep] s with
      | none =>
          have hnot : sep ∉ s := fun hmem => by
            obtain ⟨a, b, hs⟩ := List.append_of_mem hmem
            refine Replace.first_eq_none.mp hfirst ⟨a, b, ?_⟩
            rw [hs, List.append_assoc, List.singleton_append]
          have hfind : int (find s [sep] 0) = -1 := find_none hfirst
          rw [List.splitOn_eq_singleton hnot, splitLoop, hfind]
          rfl
      | some ab =>
          obtain ⟨before, behind⟩ := ab
          obtain ⟨hcut, hnot⟩ := first_sep hfirst
          obtain ⟨hfind, hlen, hdrop⟩ := find_first (Nat.zero_le s.length) hfirst
          rw [hfind, Nat.zero_add, List.length_singleton] at hlen hdrop
          have hpos : int (find s [sep] 0) = (before.length : Int) := by
            rw [hfind, Nat.zero_add]
            exact int_eq (by omega) (by omega)
          have hnext : int ((before.length : Int) + 1) = ((before.length + 1 : Nat) : Int) :=
            int_eq (by omega) (by omega)
          have hfield : substr s 0 (sizeT before.length) = .ok before := by
            rw [substr, if_pos (Nat.zero_le _), sizeT_natCast (by omega), List.drop_zero, hcut,
              List.take_left]
          have hrest : substr s (before.length + 1) (s.length - (before.length + 1)) =
              .ok behind := by
            rw [substr, if_pos (by omega), hdrop, List.take_of_length_le (by omega)]
          have hsplit : s.splitOn sep = before :: behind.splitOn sep := by
            rw [hcut, List.splitOn_append_cons_self_of_not_mem hnot]
          rw [splitLoop, hpos]
          dsimp only
          rw [if_pos (Int.natCast_nonneg _), ok_bind hfield, hnext, sizeT_natCast (by omega),
            ok_bind hrest, ok_bind (ih (by omega) (by omega)), hsplit]
          rfl

theorem splitToCmd_eq {s : Bytes} (h : Measured s) (sep : UInt8) :
    splitToCmd s sep = .ok (s.splitOn sep) := splitLoop_eq h.length_lt (Nat.le_refl _)

/-! ## The pieces of a pattern -/

theorem strncmpEq_iff {s t : Bytes} (hs : Measured s) (ht : Measured t) :
    strncmpEq s t t.length = true ↔ t <+: s := by
  rw [strncmpEq, cStr_of_nulFree hs.nul, cStr_of_nulFree ht.nul, List.take_length, beq_iff_eq,
    List.prefix_iff_eq_take]
  exact eq_comm

theorem strcmpEndEq_ok {s t : Bytes} (hs : Measured s) (ht : Measured t)
    (hle : t.length ≤ s.length) :
    ∃ b, strcmpEndEq s t = .ok b ∧ (b = true ↔ t <:+ s) := by
  refine ⟨_, if_pos hle, ?_⟩
  have hdrop : 0 ∉ s.drop (s.length - t.length) := fun hmem => hs.nul (List.mem_of_mem_drop hmem)
  rw [cStr_of_nulFree hdrop, cStr_of_nulFree ht.nul, beq_iff_eq, List.suffix_iff_eq_drop]
  exact eq_comm

theorem int_place {s : Bytes} (hs : Measured s) {pos : Nat} (h : pos ≤ s.length) :
    int pos = pos ∧ sizeT pos = pos := by
  have hlen := hs.length_lt
  exact ⟨int_eq (by omega) (by omega), sizeT_natCast (by omega)⟩

section Pieces

variable {s : Bytes} {jj pos : Nat}

/-- A piece that is not the first or the last; the last has to end the name too. -/
theorem matchPieces_cons (hs : Measured s) (hpos : pos ≤ s.length) (hjj : jj ≠ 0) (piece : Bytes)
    {pieces : List Bytes} (hpieces : pieces ≠ []) :
    matchPieces s jj pos (piece :: pieces) =
      if int (find s piece pos) < 0 then .ok false
      else matchPieces s (jj + 1) (int (int (find s piece pos) + piece.length)) pieces := by
  have hends : ¬ true = false := Bool.noConfusion
  rw [matchPieces, if_neg (fun h => hjj h.1), if_neg hpieces, pure_bind, (int_place hs hpos).2]
  generalize int (find s piece pos) = place
  dsimp only
  rw [if_neg hends]
  rfl

theorem matchPieces_last (hs : Measured s) (hpos : pos ≤ s.length) (hjj : jj ≠ 0) (piece : Bytes) :
    matchPieces s jj pos [piece] = do
      let ends ← strcmpEndEq s piece
      return ends && decide (0 ≤ int (find s piece pos)) := by
  rw [matchPieces, if_neg (fun h => hjj h.1), if_pos rfl, (int_place hs hpos).2]
  generalize int (find s piece pos) = place
  refine congrArg (strcmpEndEq s piece >>= ·) (funext fun ends => ?_)
  cases ends with
  | false => rfl
  | true =>
      have hends : ¬ true = false := Bool.noConfusion
      dsimp only
      rw [if_neg hends]
      by_cases hplace : place < 0
      · rw [if_pos hplace, decide_eq_false (by omega)]
        rfl
      · rw [if_neg hplace, decide_eq_true (by omega)]
        rfl

theorem find_place (hs : Measured s) (hpos : pos ≤ s.length) {piece before behind : Bytes}
    (hfirst : Replace.first piece (s.drop pos) = some (before, behind)) :
    ∃ next : Nat, 0 ≤ int (find s piece pos) ∧
      int (int (find s piece pos) + piece.length) = next ∧ next ≤ s.length ∧
      s.drop next = behind := by
  obtain ⟨-, hlen, hdrop⟩ := find_first hpos hfirst
  obtain ⟨hfind, -⟩ := int_place hs (show find s piece pos ≤ s.length by omega)
  have hnext : find s piece pos + piece.length ≤ s.length := by omega
  refine ⟨find s piece pos + piece.length, ?_, ?_, hnext, hdrop⟩
  · rw [hfind]
    exact Int.natCast_nonneg _
  · rw [hfind]
    exact (int_place hs hnext).1

/-- The search that leaves something gets as far as the pieces that follow. -/
theorem matchPieces_rest (hs : Measured s) {pieces tail : List Bytes} (htail : tail ≠ [])
    (hpos : pos ≤ s.length) (hjj : jj ≠ 0) {u : Bytes} (hrest : rest pieces (s.drop pos) = some u) :
    ∃ jj' pos' : Nat, jj' ≠ 0 ∧ pos' ≤ s.length ∧ s.drop pos' = u ∧
      matchPieces s jj pos (pieces ++ tail) = matchPieces s jj' pos' tail := by
  induction pieces generalizing jj pos with
  | nil => exact ⟨jj, pos, hjj, hpos, Option.some.inj hrest, rfl⟩
  | cons piece pieces ih =>
      have hmore : pieces ++ tail ≠ [] := fun h => htail (List.append_eq_nil_iff.mp h).2
      unfold rest at hrest
      split at hrest
      · cases hrest
      · next before behind hfirst =>
          obtain ⟨next, hnonneg, hnext, hle, hdrop⟩ := find_place hs hpos hfirst
          rw [← hdrop] at hrest
          obtain ⟨jj', pos', hjj', hpos', hu, hloop⟩ := ih hle (Nat.succ_ne_zero jj) hrest
          refine ⟨jj', pos', hjj', hpos', hu, ?_⟩
          rw [List.cons_append, matchPieces_cons hs hpos hjj piece hmore, if_neg (by omega), hnext,
            hloop]

theorem matchPieces_lost (hs : Measured s) {pieces tail : List Bytes} (htail : tail ≠ [])
    (hpos : pos ≤ s.length) (hjj : jj ≠ 0) (hrest : rest pieces (s.drop pos) = none) :
    matchPieces s jj pos (pieces ++ tail) = .ok false := by
  induction pieces generalizing jj pos with
  | nil => cases hrest
  | cons piece pieces ih =>
      have hmore : pieces ++ tail ≠ [] := fun h => htail (List.append_eq_nil_iff.mp h).2
      rw [List.cons_append, matchPieces_cons hs hpos hjj piece hmore]
      unfold rest at hrest
      split at hrest
      · next hfirst => rw [find_none hfirst, if_pos (by decide)]
      · next before behind hfirst =>
          obtain ⟨next, hnonneg, hnext, hle, hdrop⟩ := find_place hs hpos hfirst
          rw [← hdrop] at hrest
          rw [if_neg (by omega), hnext, ih hle (Nat.succ_ne_zero jj) hrest]

/-- The last piece ends the name, and is found: it ends what is left. -/
theorem matchPieces_end (hs : Measured s) (hpos : pos ≤ s.length) (hjj : jj ≠ 0) {last : Bytes}
    (hlast : Measured last) (hle : last.length ≤ s.length) :
    ∃ b, matchPieces s jj pos [last] = .ok b ∧ (b = true ↔ last <:+ s.drop pos) := by
  obtain ⟨ends, hends, hiff⟩ := strcmpEndEq_ok hs hlast hle
  have hfound : 0 ≤ int (find s last pos) ↔ last <:+: s.drop pos := by
    cases hfirst : Replace.first last (s.drop pos) with
    | none =>
        rw [find_none hfirst]
        exact ⟨fun h => absurd h (by decide), fun h => absurd h (Replace.first_eq_none.mp hfirst)⟩
    | some ab =>
        obtain ⟨before, behind⟩ := ab
        obtain ⟨next, hnonneg, -⟩ := find_place hs hpos hfirst
        exact ⟨fun _ => ⟨before, behind, (Replace.first_eq_some.mp hfirst).1.symm⟩,
          fun _ => hnonneg⟩
  refine ⟨_, by rw [matchPieces_last hs hpos hjj, hends]; rfl, ?_⟩
  rw [Bool.and_eq_true, decide_eq_true_eq, hiff, hfound]
  constructor
  · rintro ⟨hend, hin⟩
    exact List.suffix_of_suffix_length_le hend (List.drop_suffix pos s) hin.length_le
  · intro hend
    exact ⟨hend.trans (List.drop_suffix pos s), hend.isInfix⟩

theorem matchPieces_overrun (hs : Measured s) (hpos : pos ≤ s.length) (hjj : jj ≠ 0)
    {last : Bytes} (hlt : s.length < last.length) :
    matchPieces s jj pos [last] = .error .outOfBounds := by
  have hends : strcmpEndEq s last = .error .outOfBounds := if_neg (by omega)
  rw [matchPieces_last hs hpos hjj, hends]
  rfl

theorem matchPieces_refused (hs : Measured s) {piece : Bytes} (hpiece : Measured piece)
    (hnot : ¬ piece <+: s) (pieces : List Bytes) :
    matchPieces s 0 0 (piece :: pieces) = .ok false := by
  rw [matchPieces, if_pos ⟨rfl, fun h => hnot ((strncmpEq_iff hs hpiece).mp h)⟩]

theorem find_start (hs : Measured s) {piece t : Bytes} (hcut : s = piece ++ t) :
    ∃ next : Nat, 0 ≤ int (find s piece (sizeT 0)) ∧
      int (int (find s piece (sizeT 0)) + piece.length) = next ∧ next ≤ s.length ∧
      s.drop next = t := by
  have hzero : sizeT 0 = 0 := by decide
  have hfirst : Replace.first piece (s.drop 0) = some ([], t) := by
    rw [List.drop_zero, hcut, Replace.first_append]
  rw [hzero]
  exact find_place hs (Nat.zero_le _) hfirst

theorem matchPieces_first (hs : Measured s) {piece t : Bytes} (hpiece : Measured piece)
    (hcut : s = piece ++ t) {pieces : List Bytes} (hpieces : pieces ≠ []) :
    ∃ pos : Nat, pos ≤ s.length ∧ s.drop pos = t ∧
      matchPieces s 0 0 (piece :: pieces) = matchPieces s 1 pos pieces := by
  have hstart : strncmpEq s piece piece.length = true :=
    (strncmpEq_iff hs hpiece).mpr ⟨t, hcut.symm⟩
  obtain ⟨next, hnonneg, hnext, hle, hdrop⟩ := find_start hs hcut
  refine ⟨next, hle, hdrop, ?_⟩
  have hends : ¬ true = false := Bool.noConfusion
  rw [matchPieces, if_neg (fun h => h.2 hstart), if_neg hpieces, pure_bind]
  dsimp only
  rw [if_neg hends, if_neg (by omega), hnext]

theorem matchPieces_only (hs : Measured s) {piece : Bytes} (hpiece : Measured piece) :
    ∃ b, matchPieces s 0 0 [piece] = .ok b ∧ (b = true ↔ piece <+: s ∧ piece <:+ s) := by
  by_cases hprefix : piece <+: s
  · have hstart : strncmpEq s piece piece.length = true := (strncmpEq_iff hs hpiece).mpr hprefix
    obtain ⟨t, hcut⟩ := hprefix
    obtain ⟨ends, hends, hiff⟩ := strcmpEndEq_ok hs hpiece (List.IsPrefix.length_le ⟨t, hcut⟩)
    obtain ⟨next, hnonneg, -⟩ := find_start hs hcut.symm
    refine ⟨ends, ?_, hiff.trans ⟨fun h => ⟨⟨t, hcut⟩, h⟩, fun h => h.2⟩⟩
    rw [matchPieces, if_neg (fun h => h.2 hstart), if_pos rfl, ok_bind hends]
    cases ends with
    | false => rfl
    | true =>
        have htrue : ¬ true = false := Bool.noConfusion
        dsimp only
        rw [if_neg htrue, if_neg (by omega)]
        rfl
  · refine ⟨false, matchPieces_refused hs hpiece hprefix [], ?_⟩
    exact ⟨fun h => Bool.noConfusion h, fun h => absurd h.1 hprefix⟩

end Pieces

/-! ## Patterns -/

/-- The pattern stands for the whole name, letter for letter. -/
def StandsFor (pattern s : Bytes) : Prop := Matches star Eq pattern s

/-- A pattern without a star, and a name that is not it but starts and ends with it. -/
def Bordered (pattern s : Bytes) : Prop :=
  star ∉ pattern ∧ pattern ≠ s ∧ pattern <+: s ∧ pattern <:+ s

/-- A pattern whose last piece, behind a star, is longer than the name, and that
would stand for the name without it. -/
def Overruns (pattern s : Bytes) : Prop :=
  ∃ front last, pattern = front ++ star :: last ∧ star ∉ last ∧ s.length < last.length ∧
    StandsFor (front ++ [star]) s

theorem splitOn_front {front last : Bytes} (hlast : star ∉ last) {q : Bytes} {qs : List Bytes}
    (hfront : front.splitOn star = q :: qs) :
    (front ++ star :: last).splitOn star = q :: (qs ++ [last]) := by
  rw [List.splitOn_append_cons_self, hfront, List.splitOn_eq_singleton hlast]
  rfl

theorem stands_star {front last q t : Bytes} {qs : List Bytes} (hlast : star ∉ last)
    (hfront : front.splitOn star = q :: qs) :
    StandsFor (front ++ star :: last) (q ++ t) ↔ ∃ u, rest qs t = some u ∧ last <:+ u := by
  rw [StandsFor, Wildcard.matches_iff_rest (splitOn_front hlast hfront)]
  constructor
  · rintro ⟨t', u, ht, hrest, hend⟩
    rw [← List.append_cancel_left ht] at hrest
    exact ⟨u, hrest, hend⟩
  · rintro ⟨u, hrest, hend⟩
    exact ⟨t, u, rfl, hrest, hend⟩

theorem not_stands_star {front last s q : Bytes} {qs : List Bytes} (hlast : star ∉ last)
    (hfront : front.splitOn star = q :: qs) (hnot : ¬ q <+: s) :
    ¬ StandsFor (front ++ star :: last) s := by
  rw [StandsFor, Wildcard.matches_iff_rest (splitOn_front hlast hfront)]
  rintro ⟨t, u, hs, -⟩
  exact hnot ⟨t, hs.symm⟩

/-- With a star in it: the loop leaves the name if the last piece is longer than
it and all the others are found, and else it is right. -/
theorem matchPieces_star {front last s : Bytes} (hs : Measured s)
    (hpattern : Measured (front ++ star :: last)) (hlast : star ∉ last) :
    (s.length < last.length ∧ StandsFor (front ++ [star]) s →
        matchPieces s 0 0 ((front ++ star :: last).splitOn star) = .error .outOfBounds) ∧
      (¬ (s.length < last.length ∧ StandsFor (front ++ [star]) s) →
        ∃ b, matchPieces s 0 0 ((front ++ star :: last).splitOn star) = .ok b ∧
          (b = true ↔ StandsFor (front ++ star :: last) s)) := by
  obtain ⟨q, qs, hfront⟩ := Wildcard.exists_splitOn star front
  have hnil : star ∉ ([] : Bytes) := List.not_mem_nil
  have hsplit := splitOn_front hlast hfront
  have hpieces : ∀ piece ∈ (front ++ star :: last).splitOn star, Measured piece :=
    fun piece hmem => hpattern.of_infix (Wildcard.infix_of_mem_splitOn hmem)
  rw [hsplit] at hpieces ⊢
  have hq : Measured q := hpieces q List.mem_cons_self
  have hlast' : Measured last :=
    hpieces last (List.mem_cons_of_mem q (List.mem_append_right qs List.mem_cons_self))
  by_cases hprefix : q <+: s
  · obtain ⟨t, rfl⟩ := hprefix
    obtain ⟨pos, hpos, hdrop, hloop⟩ :=
      matchPieces_first hs hq rfl (List.append_ne_nil_of_right_ne_nil qs (List.cons_ne_nil last []))
    rw [stands_star hnil hfront, stands_star hlast hfront, hloop]
    cases hrest : rest qs t with
    | none =>
        rw [← hdrop] at hrest
        rw [matchPieces_lost hs (List.cons_ne_nil last []) hpos Nat.one_ne_zero hrest]
        refine ⟨?_, fun _ => ⟨false, rfl, fun h => Bool.noConfusion h, ?_⟩⟩
        · rintro ⟨-, u, hu, -⟩
          cases hu
        · rintro ⟨u, hu, -⟩
          cases hu
    | some u =>
        rw [← hdrop] at hrest
        obtain ⟨jj', pos', hjj', hpos', hu, hloop'⟩ :=
          matchPieces_rest hs (List.cons_ne_nil last []) hpos Nat.one_ne_zero hrest
        rw [hloop']
        constructor
        · rintro ⟨hlt, -⟩
          exact matchPieces_overrun hs hpos' hjj' hlt
        · intro hnot
          have hle : last.length ≤ (q ++ t).length :=
            Nat.le_of_not_lt fun hlt => hnot ⟨hlt, u, rfl, List.nil_suffix⟩
          obtain ⟨b, hb, hiff⟩ := matchPieces_end hs hpos' hjj' hlast' hle
          rw [hu] at hiff
          refine ⟨b, hb, hiff.trans ⟨fun h => ⟨u, rfl, h⟩, ?_⟩⟩
          rintro ⟨u', hu', h⟩
          cases hu'
          exact h
  · rw [matchPieces_refused hs hq hprefix]
    refine ⟨fun h => absurd h.2 (not_stands_star hnil hfront hprefix), fun _ => ⟨false, rfl, ?_⟩⟩
    exact ⟨fun h => Bool.noConfusion h,
      fun h => absurd h (not_stands_star hlast hfront hprefix)⟩

/-- What the loop makes of a pattern, whichever it is. -/
theorem matchPieces_pattern {pattern s : Bytes} (hs : Measured s) (hpattern : Measured pattern) :
    (Overruns pattern s → ∃ f, matchPieces s 0 0 (pattern.splitOn star) = .error f) ∧
      (¬ Overruns pattern s → ∃ b, matchPieces s 0 0 (pattern.splitOn star) = .ok b ∧
        (b = true ↔ StandsFor pattern s ∨ Bordered pattern s)) := by
  by_cases hstar : star ∈ pattern
  · constructor
    · rintro ⟨front, last, rfl, hlast, hlt, hstands⟩
      exact ⟨_, (matchPieces_star hs hpattern hlast).1 ⟨hlt, hstands⟩⟩
    · intro hnot
      obtain ⟨front, last, rfl, hlast⟩ := Wildcard.exists_last hstar
      obtain ⟨b, hb, hiff⟩ := (matchPieces_star hs hpattern hlast).2 fun h =>
        hnot ⟨front, last, rfl, hlast, h.1, h.2⟩
      exact ⟨b, hb, hiff.trans ⟨Or.inl, fun h => h.resolve_right fun h => h.1 hstar⟩⟩
  · rw [List.splitOn_eq_singleton hstar]
    obtain ⟨b, hb, hiff⟩ := matchPieces_only hs hpattern
    constructor
    · rintro ⟨front, last, rfl, -⟩
      exact absurd (List.mem_append_right front List.mem_cons_self) hstar
    · refine fun _ => ⟨b, hb, hiff.trans ?_⟩
      rw [StandsFor, Wildcard.matches_iff_eq hstar]
      constructor
      · rintro ⟨hpre, hsuf⟩
        by_cases heq : pattern = s
        · exact Or.inl heq
        · exact Or.inr ⟨hstar, heq, hpre, hsuf⟩
      · rintro (rfl | ⟨-, -, hpre, hsuf⟩)
        · exact ⟨List.prefix_refl pattern, List.suffix_refl pattern⟩
        · exact ⟨hpre, hsuf⟩

/-! ## Rules -/

/-- A pattern the loop takes. -/
def Taken (pattern s : Bytes) : Prop := pattern ≠ [] ∧ (StandsFor pattern s ∨ Bordered pattern s)

/-- No pattern in front of one that overruns the name is taken. -/
def ReachesOverrun (patterns : List Bytes) (s : Bytes) : Prop :=
  ∃ front pattern behind, patterns = front ++ pattern :: behind ∧ Overruns pattern s ∧
    ∀ earlier ∈ front, ¬ Taken earlier s

theorem reachesOverrun_cons_iff {pattern s : Bytes} {patterns : List Bytes} :
    ReachesOverrun (pattern :: patterns) s ↔
      Overruns pattern s ∨ ¬ Taken pattern s ∧ ReachesOverrun patterns s := by
  constructor
  · rintro ⟨front, p, behind, hcut, hover, hfront⟩
    cases front with
    | nil =>
        cases hcut
        exact Or.inl hover
    | cons first front =>
        cases hcut
        obtain ⟨hfirst, hfront⟩ := List.forall_mem_cons.mp hfront
        exact Or.inr ⟨hfirst, front, p, behind, rfl, hover, hfront⟩
  · rintro (hover | ⟨hnot, front, p, behind, rfl, hover, hfront⟩)
    · exact ⟨[], pattern, patterns, rfl, hover, fun _ h => by cases h⟩
    · exact ⟨pattern :: front, p, behind, rfl, hover, List.forall_mem_cons.mpr ⟨hnot, hfront⟩⟩

theorem not_overruns_nil (s : Bytes) : ¬ Overruns [] s := by
  rintro ⟨front, last, hcut, -⟩
  exact List.append_ne_nil_of_right_ne_nil front (List.cons_ne_nil star last) hcut.symm

theorem matchPatterns_spec {s : Bytes} {patterns : List Bytes} (hs : Measured s)
    (hall : ∀ pattern ∈ patterns, Measured pattern) :
    (ReachesOverrun patterns s → ∃ f, matchPatterns s patterns = .error f) ∧
      (¬ ReachesOverrun patterns s → ∃ b, matchPatterns s patterns = .ok b ∧
        (b = true ↔ ∃ pattern ∈ patterns, Taken pattern s)) := by
  induction patterns with
  | nil =>
      constructor
      · rintro ⟨front, pattern, behind, hcut, -⟩
        exact absurd hcut.symm (List.append_ne_nil_of_right_ne_nil front (List.cons_ne_nil _ _))
      · refine fun _ => ⟨false, rfl, fun h => Bool.noConfusion h, ?_⟩
        rintro ⟨pattern, hmem, -⟩
        cases hmem
  | cons pattern patterns ih =>
      obtain ⟨hpattern, hall⟩ := List.forall_mem_cons.mp hall
      have hrest := ih hall
      rw [reachesOverrun_cons_iff]
      simp only [List.exists_mem_cons_iff]
      by_cases hnil : pattern = []
      · rw [hnil, matchPatterns, if_pos rfl, iff_false_intro (not_overruns_nil s), false_or]
        have hnot : ¬ Taken [] s := fun h => h.1 rfl
        rw [iff_true_intro hnot, iff_false_intro hnot, true_and, false_or]
        exact hrest
      · obtain ⟨hover, hok⟩ := matchPieces_pattern hs hpattern
        rw [matchPatterns, if_neg hnil, ok_bind (splitToCmd_eq hpattern star)]
        by_cases h : Overruns pattern s
        · obtain ⟨f, hf⟩ := hover h
          rw [hf]
          exact ⟨fun _ => ⟨f, rfl⟩, fun hnot => absurd (Or.inl h) hnot⟩
        · obtain ⟨b, hb, hiff⟩ := hok h
          have htaken : b = true ↔ Taken pattern s :=
            hiff.trans ⟨fun h => ⟨hnil, h⟩, fun h => h.2⟩
          rw [ok_bind hb, iff_false_intro h, false_or]
          cases b with
          | true =>
              have htaken : Taken pattern s := htaken.mp rfl
              exact ⟨fun h => absurd htaken h.1,
                fun _ => ⟨true, rfl, fun _ => Or.inl htaken, fun _ => rfl⟩⟩
          | false =>
              have hnot : ¬ Taken pattern s := fun h => Bool.noConfusion (htaken.mpr h)
              rw [iff_true_intro hnot, iff_false_intro hnot, true_and, false_or]
              exact hrest

theorem taken_star (s : Bytes) : Taken [star] s := by
  have hall := Matches.star s (Matches.nil : Matches star Eq [] ([] : Bytes))
  rw [List.append_nil] at hall
  exact ⟨List.cons_ne_nil star [], Or.inl hall⟩

theorem not_overruns_star (s : Bytes) : ¬ Overruns [star] s := by
  rintro ⟨front, last, hcut, -, hlt, -⟩
  cases front with
  | nil =>
      cases hcut
      exact absurd hlt (Nat.not_lt_zero _)
  | cons c front =>
      have hrest := (List.cons.inj hcut).2
      exact List.append_ne_nil_of_right_ne_nil front (List.cons_ne_nil star last) hrest.symm

/-- The patterns of the rules, as `MatchStr` compares them. -/
def upperPatterns (rules : Bytes) : List Bytes := (rules.map upper).splitOn comma

theorem upperPatterns_measured {rules : Bytes} (h : Measured rules) :
    ∀ pattern ∈ upperPatterns rules, Measured pattern :=
  fun _ hmem => h.upper.of_infix (Wildcard.infix_of_mem_splitOn hmem)

theorem matchStr_spec {str rules : Bytes} (hstr : Measured str) (hrules : Measured rules) :
    (ReachesOverrun (upperPatterns rules) (str.map upper) →
        ∃ f, matchStr str rules = .error f) ∧
      (¬ ReachesOverrun (upperPatterns rules) (str.map upper) →
        ∃ b, matchStr str rules = .ok b ∧
          (b = true ↔ ∃ pattern ∈ upperPatterns rules, Taken pattern (str.map upper))) := by
  have hspec := matchPatterns_spec hstr.upper (upperPatterns_measured hrules)
  unfold matchStr
  split
  · next hnil =>
      -- the one pattern there is would have been skipped
      rw [hnil] at hspec ⊢
      exact hspec
  split
  · next hstar =>
      have hone : upperPatterns rules = [[star]] := by
        rw [hstar]
        decide
      have htaken := taken_star (str.map upper)
      rw [hone, reachesOverrun_cons_iff]
      refine ⟨fun h => ?_, fun _ => ⟨true, rfl, fun _ => ⟨_, List.mem_singleton_self _, htaken⟩,
        fun _ => rfl⟩⟩
      rcases h with hover | ⟨hnot, -⟩
      · exact absurd hover (not_overruns_star _)
      · exact absurd htaken hnot
  · rw [toUpper_eq hrules, toUpper_eq hstr, ok_bind (splitToCmd_eq hrules.upper comma)]
    exact hspec

/-! ## The language of the rules -/

/-- Two characters that differ in nothing but the case of a letter. -/
def SameLetter (c d : UInt8) : Prop := upper c = upper d

/-- Some pattern between the commas, not an empty one, stands for the whole name. -/
def Accepts (str rules : Bytes) : Prop :=
  ∃ pattern ∈ rules.splitOn comma, pattern ≠ [] ∧ Matches star SameLetter pattern str

/-- The answer is that of the language, and there is one: no read outside the name. -/
def AnswersRight (str rules : Bytes) : Prop :=
  ∃ b, matchStr str rules = .ok b ∧ (b = true ↔ Accepts str rules)

theorem accepts_iff (str rules : Bytes) :
    Accepts str rules ↔
      ∃ pattern ∈ upperPatterns rules, pattern ≠ [] ∧ StandsFor pattern (str.map upper) := by
  have hstar := upper_eq_iff (show star.toNat < 65 by decide)
  have hcomma := upper_eq_iff (show comma.toNat < 65 by decide)
  have hletters : ∀ pattern : Bytes, Matches star SameLetter pattern str ↔
      StandsFor (pattern.map upper) (str.map upper) := fun _ => Wildcard.matches_map_iff hstar
  rw [upperPatterns, Wildcard.splitOn_map hcomma]
  constructor
  · rintro ⟨pattern, hmem, hne, hstands⟩
    exact ⟨pattern.map upper, List.mem_map_of_mem hmem,
      fun h => hne (List.map_eq_nil_iff.mp h), (hletters pattern).mp hstands⟩
  · rintro ⟨_, hmem, hne, hstands⟩
    obtain ⟨pattern, hpattern, rfl⟩ := List.mem_map.mp hmem
    exact ⟨pattern, hpattern, fun h => hne (List.map_eq_nil_iff.mpr h),
      (hletters pattern).mpr hstands⟩

/-- Where the two slips do not decide: the loop comes to no pattern that overruns
the name, and where it takes a border for the name, some pattern stands for it. -/
def SlipsDoNotDecide (str rules : Bytes) : Prop :=
  ¬ ReachesOverrun (upperPatterns rules) (str.map upper) ∧
    ((∃ pattern ∈ upperPatterns rules, pattern ≠ [] ∧ Bordered pattern (str.map upper)) →
      Accepts str rules)

/-- `MatchStr` accepts the language of the rules, and reads nothing but the name,
exactly where the slips do not decide. -/
theorem matchStr_answers_iff {str rules : Bytes} (hstr : Measured str) (hrules : Measured rules) :
    AnswersRight str rules ↔ SlipsDoNotDecide str rules := by
  obtain ⟨hover, hok⟩ := matchStr_spec hstr hrules
  have htaken : (∃ pattern ∈ upperPatterns rules, Taken pattern (str.map upper)) ↔
      Accepts str rules ∨ ∃ pattern ∈ upperPatterns rules, pattern ≠ [] ∧
        Bordered pattern (str.map upper) := by
    rw [accepts_iff]
    simp only [Taken, and_or_left, exists_or]
  constructor
  · rintro ⟨b, hb, hiff⟩
    have hnot : ¬ ReachesOverrun (upperPatterns rules) (str.map upper) := fun h => by
      obtain ⟨f, hf⟩ := hover h
      rw [hb] at hf
      cases hf
    obtain ⟨b', hb', htrue⟩ := hok hnot
    rw [hb] at hb'
    cases hb'
    exact ⟨hnot, fun hborder => hiff.mp (htrue.mpr (htaken.mpr (Or.inr hborder)))⟩
  · rintro ⟨hnot, hborder⟩
    obtain ⟨b, hb, htrue⟩ := hok hnot
    refine ⟨b, hb, htrue.trans (htaken.trans ⟨fun h => ?_, Or.inl⟩)⟩
    exact h.elim id hborder

theorem matchStr_answers_iff_source :
    AnswersRight (ascii "main.cpp") (ascii "*.h,*.cpp") := by
  have hpatterns : upperPatterns (ascii "*.h,*.cpp") = [ascii "*.H", ascii "*.CPP"] := by decide
  refine (matchStr_answers_iff ⟨by decide, by decide⟩ ⟨by decide, by decide⟩).mpr ⟨?_, ?_⟩
  · rintro ⟨front, pattern, behind, hcut, ⟨first, last, rfl, -, hlt, -⟩, -⟩
    -- no pattern is as long as the name
    have hshort : ∀ pattern ∈ [ascii "*.H", ascii "*.CPP"], pattern.length ≤ 5 := by decide
    have hlen := hshort (first ++ star :: last) (by
      rw [← hpatterns, hcut]
      exact List.mem_append_right front List.mem_cons_self)
    have hname : ((ascii "main.cpp").map upper).length = 8 := by decide
    rw [List.length_append, List.length_cons] at hlen
    omega
  · rintro ⟨pattern, hmem, -, hnostar, -⟩
    have hstar : ∀ pattern ∈ [ascii "*.H", ascii "*.CPP"], star ∈ pattern := by decide
    rw [hpatterns] at hmem
    exact absurd (hstar pattern hmem) hnostar

/-- A name that starts and ends with the pattern. -/
theorem border_not_accepted :
    ¬ ∀ str rules : Bytes, 0 ∉ str → 0 ∉ rules → AnswersRight str rules := by
  intro hall
  obtain ⟨b, hb, hiff⟩ := hall (ascii "aa") (ascii "a") (by decide) (by decide)
  have htrue : matchStr (ascii "aa") (ascii "a") = .ok true := by decide
  rw [htrue] at hb
  cases hb
  obtain ⟨pattern, hmem, -, hstands⟩ := (accepts_iff _ _).mp (hiff.mp rfl)
  have hpatterns : upperPatterns (ascii "a") = [ascii "A"] := by decide
  rw [hpatterns, List.mem_singleton] at hmem
  rw [hmem, StandsFor, Wildcard.matches_iff_eq (by decide)] at hstands
  exact absurd hstands (by decide)

/-! ## Names an `int` cannot measure -/

theorem toUpper_long {s : Bytes} (hnul : 0 ∉ s) (hlo : 2147483648 ≤ s.length)
    (hhi : s.length < 4294967296) : toUpper s = s := by
  have hint : (int s.length).toNat = 0 := by
    have hmod := Int.bmod_emod (x := (s.length : Int)) (m := 4294967296)
    have hlt := Int.bmod_lt (x := (s.length : Int)) (m := 4294967296) (by decide)
    have hge := Int.le_bmod (x := (s.length : Int)) (m := 4294967296) (by decide)
    unfold int
    omega
  unfold toUpper
  split
  · rfl
  · rw [cStr_of_nulFree hnul, toUpperChars, hint]
    rfl

theorem upper_ne {c sep : UInt8} (hsep : sep.toNat < 65) (hc : upper c ≠ c) : upper c ≠ sep := by
  intro h
  have hsame := (upper_eq_iff hsep c).mp h
  rw [← hsame] at h
  exact hc h

/-- A name of such a length keeps its case; so each that starts with a small letter
is refused by a rule that stands for it. -/
theorem long_name_refused {c : UInt8} {t : Bytes} (hc : upper c ≠ c) (hnul : 0 ∉ c :: t)
    (hlo : 2147483648 ≤ (c :: t).length) (hhi : (c :: t).length < 4294967296) :
    Accepts (c :: t) [c, star] ∧ matchStr (c :: t) [c, star] = .ok false := by
  have hstar : upper c ≠ star := upper_ne (by decide) hc
  have hcomma : upper c ≠ comma := upper_ne (by decide) hc
  have hzero : upper c ≠ 0 := upper_ne (by decide) hc
  have hrules : Measured [c, star] := by
    refine ⟨fun hmem => ?_, show 2 < 2147483648 by decide⟩
    rcases List.mem_cons.mp hmem with hc0 | hmem
    · exact hnul (hc0 ▸ List.mem_cons_self)
    · exact absurd (List.mem_singleton.mp hmem) (by decide)
  have hpattern : Measured [upper c, star] := hrules.upper
  have hpatterns : [upper c, star].splitOn comma = [[upper c, star]] := by
    refine List.splitOn_eq_singleton fun hmem => ?_
    rcases List.mem_cons.mp hmem with h | hmem
    · exact hcomma h.symm
    · exact absurd (List.mem_singleton.mp hmem) (by decide)
  constructor
  · rw [accepts_iff, upperPatterns]
    refine ⟨[upper c, star], ?_, List.cons_ne_nil _ _, ?_⟩
    · show _ ∈ [upper c, star].splitOn comma
      rw [hpatterns]
      exact List.mem_singleton_self _
    · have hall := Matches.star (t.map upper) (Matches.nil : Matches star Eq [] ([] : Bytes))
      rw [List.append_nil] at hall
      exact .cons hstar rfl hall
  · have hstart : strncmpEq (c :: t) [upper c] 1 = false := by
      rw [strncmpEq, cStr_of_nulFree hnul, cStr_of_nulFree fun hmem =>
        hzero (List.mem_singleton.mp hmem).symm]
      exact beq_false_of_ne fun h => hc (List.cons.inj h).1.symm
    have hpieces : [upper c, star].splitOn star = [[upper c], []] := by
      have hnot : star ∉ [upper c] := fun hmem => hstar (List.mem_singleton.mp hmem).symm
      exact List.splitOn_append_cons_self_of_not_mem hnot []
    have hrefused : matchPieces (c :: t) 0 0 [[upper c], []] = .ok false := by
      rw [matchPieces, if_pos ⟨rfl, by rw [List.length_singleton, hstart]; exact Bool.noConfusion⟩]
    rw [matchStr, if_neg (List.cons_ne_nil c _), if_neg (fun h => by cases h), toUpper_eq hrules,
      toUpper_long hnul hlo hhi]
    have hsplit : splitToCmd [upper c, star] comma = .ok [[upper c, star]] := by
      rw [splitToCmd_eq hpattern, hpatterns]
    rw [show [c, star].map upper = [upper c, star] from rfl, ok_bind hsplit, matchPatterns,
      if_neg (List.cons_ne_nil _ _), ok_bind (splitToCmd_eq hpattern star), hpieces,
      ok_bind hrefused]
    rfl

end AsioServer
