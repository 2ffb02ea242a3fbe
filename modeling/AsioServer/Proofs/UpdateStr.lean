import AsioServer.Lib.Rewrite
import AsioServer.Proofs.Strings
import AsioServer.Ref.MyUpdateStr

/-!
# What `UpdateStr` leaves when it goes round again

With `bloop` the loop looks for the old text from the start of the string, so a
round is a step of rewriting with one rule, cut to the size of `strTemp`. A rule
that does not lengthen comes to an end. One that does may not, though the new
text does not contain the old one: then the string grows until it no longer fits
in `strTemp`, and what does not fit is lost.
-/

namespace AsioServer

open Rewrite (steps)

section

variable {edit : Bytes → Nat → Except Fault Bytes} {str text str1 str2 : Bytes} {bloop : Bool}
  {k : Nat}

theorem editRound_none (htext : Libc.string str (if bloop then 0 else k) = .ok text)
    (hnot : ¬ str1 <:+: text) : editRound edit str1 str2 bloop (str, k) = .inr (.ok str) := by
  have hfirst : strstr text str1 = none := Replace.first_eq_none.mpr hnot
  unfold editRound
  dsimp only
  rw [htext]
  dsimp only
  rw [hfirst]

/-- A round that finds an occurrence is what becomes of the replacement. -/
theorem editRound_some (htext : Libc.string str (if bloop then 0 else k) = .ok text)
    {a b : Bytes} (hfirst : Replace.first str1 text = some (a, b)) :
    editRound edit str1 str2 bloop (str, k) =
      match edit str ((if bloop then 0 else k) + a.length) with
      | .error f => .inr (.error f)
      | .ok str' => .inl (str', (if bloop then 0 else k) + a.length + str2.length) := by
  have hfound : strstr text str1 = some (a, b) := hfirst
  cases hedit : edit str ((if bloop then 0 else k) + a.length) with
  | error f | ok str' =>
      unfold editRound
      dsimp only
      rw [htext]
      dsimp only
      rw [hfound]
      dsimp only
      rw [hedit]

end

namespace Public

section Rounds

variable {ilen : Nat} {str s str1 str2 : Bytes} {k : Nat}

theorem updateRound_absent (h : Holds str s) (hnot : ¬ str1 <:+: s) :
    updateRound ilen str1 str2 true (str, k) = .inr (.ok str) := by
  have htext : Libc.string str 0 = .ok s := Holds.string (a := []) h
  rw [updateRound_eq]
  exact editRound_none htext hnot

/-- A round is a step of the rule, as far as there is room. -/
theorem updateRound_first (hpos : 1 ≤ ilen) (hlt : ilen ≤ 4294967296) (hroom : ilen ≤ str.length)
    (h : Holds str s) (hnul : 0 ∉ str2) {a b : Bytes}
    (hfirst : Replace.first str1 s = some (a, b)) :
    ∃ str' k', updateRound ilen str1 str2 true (str, k) = .inl (str', k') ∧
      str'.length = str.length ∧ Holds str' ((a ++ str2 ++ b).take (ilen - 1)) := by
  have htext : Libc.string str 0 = .ok s := Holds.string (a := []) h
  have hcut := (Replace.first_eq_some.mp hfirst).1
  have hfit : ((a ++ str2 ++ b).take (ilen - 1)).length < str.length := by
    rw [List.length_take]
    omega
  obtain ⟨str', hreplaced, hlen, hholds⟩ := replaced_holds hpos hlt hfit (hcut ▸ h) hnul
  refine ⟨str', a.length + str2.length, ?_, hlen, hholds⟩
  rw [updateRound_eq]
  refine (editRound_some htext hfirst).trans ?_
  rw [if_pos rfl, Nat.zero_add, hreplaced]

/-- As long as every text has room, the loop makes all the steps of the rule. -/
theorem loop_steps (hpos : 1 ≤ ilen) (hlt : ilen ≤ 4294967296) (hroom : ilen ≤ str.length)
    (hnul : 0 ∉ str2) (h : Holds str s) {n : Nat} (hend : ¬ str1 <:+: steps str1 str2 n s)
    (hfit : ∀ m < n, (steps str1 str2 (m + 1) s).length < ilen) :
    ∃ str', Loop.Leaves (updateRound ilen str1 str2 true) (str, k) (.ok str') ∧
      Holds str' (steps str1 str2 n s) := by
  induction n generalizing str s k with
  | zero =>
      refine ⟨str, (Loop.leaves_leave (updateRound_absent h hend)).mpr rfl, ?_⟩
      exact h
  | succ n ih =>
      cases hfirst : Replace.first str1 s with
      | none =>
          have hnot := Replace.first_eq_none.mp hfirst
          refine ⟨str, (Loop.leaves_leave (updateRound_absent h hnot)).mpr rfl, ?_⟩
          rw [Rewrite.steps_of_absent hnot]
          exact h
      | some ab =>
          obtain ⟨a, b⟩ := ab
          obtain ⟨str', k', hround, hlen, hholds⟩ :=
            updateRound_first (k := k) hpos hlt hroom h hnul hfirst
          have hshort := hfit 0 (Nat.zero_lt_succ n)
          rw [Rewrite.steps_first hfirst] at hshort
          rw [List.take_of_length_le (show (a ++ str2 ++ b).length ≤ ilen - 1 by
            rw [steps] at hshort; omega)] at hholds
          rw [Rewrite.steps_first hfirst] at hend ⊢
          obtain ⟨final, hleaves, hfinal⟩ := ih (hlen ▸ hroom) hholds hend fun m hm => by
            rw [← Rewrite.steps_first hfirst]
            exact hfit (m + 1) (Nat.succ_lt_succ hm)
          exact ⟨final, (Loop.leaves_again hround).mpr hleaves, hfinal⟩

/-- What is kept once the text fits in `strTemp`: it does so, and if the rule does
not lengthen, nothing more is cut. -/
def Within (ilen : Nat) (str1 str2 s : Bytes) (st : Bytes × Nat) : Prop :=
  ilen ≤ st.1.length ∧ ∃ t, Holds st.1 t ∧ t.length < ilen ∧
    (str2.length ≤ str1.length → ∃ n, t = steps str1 str2 n s)

theorem Within.round (hpos : 1 ≤ ilen) (hlt : ilen ≤ 4294967296) (hnul : 0 ∉ str2)
    {st st' : Bytes × Nat} (h : Within ilen str1 str2 s st)
    (hround : updateRound ilen str1 str2 true st = .inl st') : Within ilen str1 str2 s st' := by
  obtain ⟨mem, i⟩ := st
  obtain ⟨hroom, t, hholds, htlen, hsteps⟩ := h
  have hmem : ilen ≤ mem.length := hroom
  cases hfirst : Replace.first str1 t with
  | none =>
      rw [updateRound_absent hholds (Replace.first_eq_none.mp hfirst)] at hround
      cases hround
  | some ab =>
      obtain ⟨a, b⟩ := ab
      obtain ⟨mem', k', hround', hlen, hholds'⟩ :=
        updateRound_first (k := i) hpos hlt hmem hholds hnul hfirst
      rw [hround'] at hround
      cases hround
      refine ⟨hlen ▸ hmem, _, hholds', by rw [List.length_take]; omega, fun hle => ?_⟩
      obtain ⟨n, hn⟩ := hsteps hle
      have hlonger := Rewrite.length_first str2 hfirst
      refine ⟨n + 1, ?_⟩
      rw [Rewrite.steps_add, ← hn, Rewrite.steps_first hfirst, steps,
        List.take_of_length_le (by omega)]

theorem Within.result (hpos : 1 ≤ ilen) (hlt : ilen ≤ 4294967296) (hnul : 0 ∉ str2)
    {st : Bytes × Nat} (h : Within ilen str1 str2 s st) {r : Except Fault Bytes}
    (hleaves : Loop.Leaves (updateRound ilen str1 str2 true) st r) :
    ∃ str' t, r = .ok str' ∧ Holds str' t ∧ t.length < ilen ∧
      (str2.length ≤ str1.length → ∃ n, t = steps str1 str2 n s) := by
  obtain ⟨⟨mem, i⟩, ⟨hroom, t, hholds, htlen, hsteps⟩, hlast⟩ :=
    hleaves.rule (fun _ _ hI hround => Within.round hpos hlt hnul hI hround) h
  cases hfirst : Replace.first str1 t with
  | none =>
      rw [updateRound_absent hholds (Replace.first_eq_none.mp hfirst)] at hlast
      cases hlast
      exact ⟨mem, t, rfl, hholds, htlen, hsteps⟩
  | some ab =>
      obtain ⟨a, b⟩ := ab
      obtain ⟨mem', k', hround, -⟩ :=
        updateRound_first (k := i) hpos hlt hroom hholds hnul hfirst
      rw [hround] at hlast
      cases hlast

end Rounds

/-! ## The whole call -/

/-- The call ends, and what it leaves is made of the string by replacing leftmost
occurrences, until there is none, with nothing cut off. -/
def ReplacesWhole (str str1 str2 : Bytes) : Prop :=
  ∃ rounds str', updateStr rounds str str1 str2 true = some (.ok str') ∧
    (∃ n, cStr str' = steps str1 str2 n (cStr str)) ∧ ¬ str1 <:+: cStr str'

/-- There is nothing to replace; or the rule does not lengthen, and the text after
the first replacement fits in `strTemp` or loses only what would be replaced
anyway; or it lengthens, and there is nothing left to replace before the text
has grown to the size of `strTemp`. -/
def FitsWhole (s str1 str2 : Bytes) : Prop :=
  ¬ str1 <:+: s ∨
    (str2.length ≤ str1.length ∧
      ((steps str1 str2 1 s).length < ilen s ∨
        ∃ n m, steps str1 str2 n ((steps str1 str2 1 s).take (ilen s - 1)) = steps str1 str2 m s ∧
          ¬ str1 <:+: steps str1 str2 m s)) ∨
    (str1.length < str2.length ∧
      ∃ n, s.length + n * (str2.length - str1.length) < ilen s ∧ ¬ str1 <:+: steps str1 str2 n s)

section Call

variable {str s str1 str2 : Bytes}

/-- The guard lets the call pass. -/
theorem updateStr_eq_run (h : Holds str s) (hin : str1 <:+: s) (hne : str1 ≠ [])
    (hguard : ¬ str1 <:+: str2) (rounds : Nat) :
    updateStr rounds str str1 str2 true =
      Loop.run (updateRound (ilen s) str1 str2 true) rounds (str, 0) := by
  have hs : s ≠ [] := by
    rintro rfl
    exact hne (List.infix_nil.mp hin)
  have hfirst : strstr str2 str1 = none := Replace.first_eq_none.mpr hguard
  unfold updateStr
  rw [h.cStr, if_neg hs, hfirst, if_neg (by decide)]

theorem replacesWhole_iff_leaves (h : Holds str s) (hin : str1 <:+: s) (hne : str1 ≠ [])
    (hguard : ¬ str1 <:+: str2) :
    ReplacesWhole str str1 str2 ↔
      ∃ str', Loop.Leaves (updateRound (ilen s) str1 str2 true) (str, 0) (.ok str') ∧
        (∃ n, cStr str' = steps str1 str2 n s) ∧ ¬ str1 <:+: cStr str' := by
  unfold ReplacesWhole
  rw [h.cStr]
  constructor
  · rintro ⟨rounds, str', hcall, hresult⟩
    rw [updateStr_eq_run h hin hne hguard] at hcall
    exact ⟨str', ⟨rounds, hcall⟩, hresult⟩
  · rintro ⟨str', ⟨rounds, hcall⟩, hresult⟩
    refine ⟨rounds, str', ?_, hresult⟩
    rw [updateStr_eq_run h hin hne hguard]
    exact hcall

theorem replacesWhole_absent (h : Holds str s) (hnot : ¬ str1 <:+: s) :
    ReplacesWhole str str1 str2 := by
  unfold ReplacesWhole
  rw [h.cStr]
  have hresult : (∃ n, s = steps str1 str2 n s) ∧ ¬ str1 <:+: s := ⟨⟨0, rfl⟩, hnot⟩
  refine ⟨1, str, ?_, by rw [h.cStr]; exact hresult⟩
  unfold updateStr
  split
  · rfl
  · split
    · rfl
    · exact Loop.run_leave (updateRound_absent h hnot) 0

/-- A rule that lengthens, after some of so many steps. -/
theorem length_steps_le_add {n m : Nat} (hlt : str1.length < str2.length) (hmn : m ≤ n) :
    (steps str1 str2 m s).length ≤ s.length + n * (str2.length - str1.length) := by
  obtain ⟨k, hkm, -, hlen⟩ := Rewrite.exists_count str1 str2 m s
  have hk : k * (str2.length - str1.length) ≤ n * (str2.length - str1.length) :=
    Nat.mul_le_mul_right _ (Nat.le_trans hkm hmn)
  rw [Nat.mul_sub] at hk
  have hle : k * str1.length ≤ k * str2.length := Nat.mul_le_mul_left k (Nat.le_of_lt hlt)
  omega

theorem replacesWhole_of_room {n : Nat} (h : Holds str s) (hin : str1 <:+: s) (hne : str1 ≠ [])
    (hguard : ¬ str1 <:+: str2) (hnul : 0 ∉ str2) (hroom : ilen s ≤ str.length)
    (hend : ¬ str1 <:+: steps str1 str2 n s)
    (hfit : ∀ m < n, (steps str1 str2 (m + 1) s).length < ilen s) :
    ReplacesWhole str str1 str2 := by
  have hbounds := ilen_bounds s
  obtain ⟨str', hleaves, hholds⟩ :=
    loop_steps (k := 0) (by omega) (by omega) hroom hnul h hend hfit
  rw [replacesWhole_iff_leaves h hin hne hguard]
  refine ⟨str', hleaves, ?_⟩
  rw [hholds.cStr]
  exact ⟨⟨n, rfl⟩, hend⟩

/-- What the first round leaves, and the loop after it. -/
theorem leaves_after_first (h : Holds str s) (hnul : 0 ∉ str2) (hroom : ilen s ≤ str.length)
    {a b : Bytes} (hfirst : Replace.first str1 s = some (a, b)) {r : Except Fault Bytes}
    (hleaves : Loop.Leaves (updateRound (ilen s) str1 str2 true) (str, 0) r) :
    ∃ str' t, r = .ok str' ∧ Holds str' t ∧ t.length < ilen s ∧
      (str2.length ≤ str1.length →
        ∃ n, t = steps str1 str2 n ((a ++ str2 ++ b).take (ilen s - 1))) := by
  have hbounds := ilen_bounds s
  obtain ⟨str₁, k₁, hround, hlen₁, hholds₁⟩ :=
    updateRound_first (k := 0) (by omega) (by omega) hroom h hnul hfirst
  have hwithin : Within (ilen s) str1 str2 ((a ++ str2 ++ b).take (ilen s - 1)) (str₁, k₁) :=
    ⟨hlen₁ ▸ hroom, _, hholds₁, by rw [List.length_take]; omega, fun _ => ⟨0, rfl⟩⟩
  exact hwithin.result (by omega) (by omega) hnul ((Loop.leaves_again hround).mp hleaves)

theorem replacesWhole_of_cut (h : Holds str s) (hin : str1 <:+: s) (hne : str1 ≠ [])
    (hguard : ¬ str1 <:+: str2) (hnul : 0 ∉ str2) (hroom : ilen s ≤ str.length)
    (hle : str2.length ≤ str1.length) {n m : Nat}
    (hsame : steps str1 str2 n ((steps str1 str2 1 s).take (ilen s - 1)) = steps str1 str2 m s)
    (hend : ¬ str1 <:+: steps str1 str2 m s) : ReplacesWhole str str1 str2 := by
  have hbounds := ilen_bounds s
  obtain ⟨a, b, hfirst⟩ := Replace.first_isSome hin
  obtain ⟨str₁, k₁, hround, hlen₁, hholds₁⟩ :=
    updateRound_first (k := 0) (by omega) (by omega) hroom h hnul hfirst
  rw [Rewrite.steps_first hfirst, steps] at hsame
  rw [← hsame] at hend
  obtain ⟨str', hleaves, hholds⟩ :=
    loop_steps (k := k₁) (by omega) (by omega) (hlen₁ ▸ hroom) hnul hholds₁ hend fun i _ => by
      have hshorter := Rewrite.length_steps_le hle (i + 1) ((a ++ str2 ++ b).take (ilen s - 1))
      rw [List.length_take] at hshorter
      omega
  rw [replacesWhole_iff_leaves h hin hne hguard]
  refine ⟨str', (Loop.leaves_again hround).mpr hleaves, ?_⟩
  rw [hholds.cStr]
  exact ⟨⟨m, hsame⟩, hend⟩

end Call

theorem updateStr_whole_iff {str s str1 str2 : Bytes} (h : Holds str s) (hne : str1 ≠ [])
    (hnul : 0 ∉ str2) (hguard : ¬ str1 <:+: str2) (hroom : ilen s ≤ str.length) :
    ReplacesWhole str str1 str2 ↔ FitsWhole s str1 str2 := by
  have hold : str1 ≠ str2 := fun heq => hguard (heq ▸ List.infix_refl str1)
  by_cases hin : str1 <:+: s
  · obtain ⟨a, b, hfirst⟩ := Replace.first_isSome hin
    have hone : steps str1 str2 1 s = a ++ str2 ++ b := Rewrite.steps_first hfirst 0
    constructor
    · intro hwhole
      obtain ⟨str', hleaves, ⟨n, hn⟩, hend⟩ :=
        (replacesWhole_iff_leaves h hin hne hguard).mp hwhole
      obtain ⟨str'', t, hstr, hholds, htlen, hsteps⟩ :=
        leaves_after_first h hnul hroom hfirst hleaves
      cases hstr
      rw [hholds.cStr] at hn hend
      rcases Nat.lt_or_ge str1.length str2.length with hlt | hle
      · obtain ⟨m, -, hsame, hlen⟩ := Rewrite.exists_count str1 str2 n s
        have hmul : m * str1.length ≤ m * str2.length := Nat.mul_le_mul_left m (Nat.le_of_lt hlt)
        rw [← hn] at hsame hlen
        refine Or.inr (Or.inr ⟨hlt, m, ?_, hsame ▸ hend⟩)
        rw [Nat.mul_sub]
        omega
      · obtain ⟨k, hk⟩ := hsteps hle
        refine Or.inr (Or.inl ⟨hle, Or.inr ⟨k, n, ?_, hn ▸ hend⟩⟩)
        rw [hone, ← hk, hn]
    · rintro (hnot | ⟨hle, hcut⟩ | ⟨hlt, n, hfit, hend⟩)
      · exact absurd hin hnot
      · rcases hcut with hshort | ⟨n, m, hsame, hend⟩
        · obtain ⟨n, hend⟩ := Rewrite.steps_end hle hold s
          refine replacesWhole_of_room h hin hne hguard hnul hroom hend fun m _ => ?_
          have hshorter := Rewrite.length_steps_le hle m (a ++ str2 ++ b)
          rw [hone] at hshort
          rw [Rewrite.steps_first hfirst]
          omega
        · exact replacesWhole_of_cut h hin hne hguard hnul hroom hle hsame hend
      · refine replacesWhole_of_room h hin hne hguard hnul hroom hend fun m hm => ?_
        have hlen := length_steps_le_add (s := s) hlt (show m + 1 ≤ n from hm)
        omega
  · exact iff_of_true (replacesWhole_absent h hin) (Or.inl hin)

theorem updateStr_whole_iff_path :
    Holds (ascii "a//b" ++ 0 :: List.replicate 995 0) (ascii "a//b") ∧
      ReplacesWhole (ascii "a//b" ++ 0 :: List.replicate 995 0) (ascii "//") (ascii "/") := by
  have h : Holds (ascii "a//b" ++ 0 :: List.replicate 995 0) (ascii "a//b") :=
    ⟨by decide, _, rfl⟩
  have hguard : ¬ ascii "//" <:+: ascii "/" := Replace.first_eq_none.mp (by decide)
  refine ⟨h, (updateStr_whole_iff h (by decide) (by decide) hguard ?_).mpr ?_⟩
  · rw [List.length_append, List.length_cons, List.length_replicate]
    decide
  · exact Or.inr (Or.inl ⟨by decide, Or.inl (by decide)⟩)

theorem ab_bbaa_not_whole :
    Holds (ascii "aab" ++ 0 :: List.replicate 996 0) (ascii "aab") ∧
      ¬ ascii "ab" <:+: ascii "bbaa" ∧
      ¬ ReplacesWhole (ascii "aab" ++ 0 :: List.replicate 996 0) (ascii "ab") (ascii "bbaa") := by
  have h : Holds (ascii "aab" ++ 0 :: List.replicate 996 0) (ascii "aab") :=
    ⟨by decide, _, rfl⟩
  refine ⟨h, Replace.first_eq_none.mp (by decide), ?_⟩
  rintro ⟨rounds, str', -, ⟨n, hn⟩, hend⟩
  rw [hn, h.cStr] at hend
  exact hend (Rewrite.endless (show (97 : UInt8) ≠ 98 by decide) n 0 0).1

end Public

end AsioServer
