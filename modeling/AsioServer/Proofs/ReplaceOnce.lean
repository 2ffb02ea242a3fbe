import AsioServer.Lib.Replace
import AsioServer.Proofs.Strings
import AsioServer.Proofs.Translation
import AsioServer.Proofs.UpdateStr

/-!
# One pass of `UpdateStr` and of `MY__UpdateStr`

Without `bloop` the loop goes on behind what it has put into the string. So the string
is always a part that is finished and one that has not been looked at, and what comes
of it is the finished part and the rest with all its occurrences replaced. A text on
the way is no longer than the one before it or the last one, so it takes room in
`strTemp` for the first and the last of those that are put together there. The size of
`strTemp` is ten times the length of the string, taken as an `int`.
-/

namespace AsioServer

/-! ## The loop -/

/-- A replacement is right if there is room for the new text, in `strTemp` and in `str`. -/
def Edits (edit : Bytes → Nat → Except Fault Bytes) (room : Nat) (str1 str2 : Bytes) : Prop :=
  ∀ {str a b : Bytes}, Holds str (a ++ str1 ++ b) → (a ++ str2 ++ b).length < room →
    (a ++ str2 ++ b).length < str.length → ∃ str', edit str a.length = .ok str' ∧
      str'.length = str.length ∧ Holds str' (a ++ str2 ++ b)

section

variable {edit : Bytes → Nat → Except Fault Bytes} {room : Nat} {str str1 str2 head tail : Bytes}

theorem editRound_absent (h : Holds str (head ++ tail)) (hnot : ¬ str1 <:+: tail) :
    editRound edit str1 str2 false (str, head.length) = .inr (.ok str) :=
  editRound_none h.string hnot

theorem editRound_first (h : Holds str (head ++ tail)) {a b : Bytes}
    (hfirst : Replace.first str1 tail = some (a, b)) :
    editRound edit str1 str2 false (str, head.length) =
      match edit str (head ++ a).length with
      | .error f => .inr (.error f)
      | .ok str' => .inl (str', (head ++ a ++ str2).length) := by
  refine (editRound_some h.string hfirst).trans ?_
  rw [if_neg Bool.false_ne_true, ← List.length_append]
  cases edit str (head ++ a).length with
  | error f => rfl
  | ok str' => exact congrArg (fun off => Sum.inl (str', off)) List.length_append.symm

/-- A round the loop ends with has found nothing, or a fault. -/
theorem editRound_ok {str' : Bytes} (h : Holds str (head ++ tail))
    (hround : editRound edit str1 str2 false (str, head.length) = .inr (.ok str')) :
    str' = str ∧ ¬ str1 <:+: tail := by
  cases hfirst : Replace.first str1 tail with
  | none =>
      have hnot := Replace.first_eq_none.mp hfirst
      rw [editRound_absent h hnot] at hround
      cases hround
      exact ⟨rfl, hnot⟩
  | some ab =>
      rw [editRound_first h hfirst] at hround
      split at hround <;> cases hround

/-- From a finished part and a rest. Each text fits if the next one and the last one do. -/
theorem editLoop_all (hedit : Edits edit room str1 str2) (hne : str1 ≠ [])
    (h : Holds str (head ++ tail))
    (hnext : ∀ {a b}, Replace.first str1 tail = some (a, b) →
      (head ++ a ++ str2 ++ b).length < room)
    (hend : str1 <:+: tail → (head ++ Replace.all str1 str2 tail).length < room)
    (hroom : (head ++ Replace.all str1 str2 tail).length < str.length) :
    ∃ str', Loop.Leaves (editRound edit str1 str2 false) (str, head.length) (.ok str') ∧
      Holds str' (head ++ Replace.all str1 str2 tail) := by
  induction hn : tail.length using Nat.strongRecOn generalizing str head tail with
  | _ n ih =>
      cases hfirst : Replace.first str1 tail with
      | none =>
          have hnot := Replace.first_eq_none.mp hfirst
          rw [Replace.all_of_absent hnot]
          exact ⟨str, (Loop.leaves_leave (editRound_absent h hnot)).mpr rfl, h⟩
      | some ab =>
          obtain ⟨a, b⟩ := ab
          have hcut := (Replace.first_eq_some.mp hfirst).1
          have hpos := List.length_pos_iff.mpr hne
          have hmost : (a ++ str2 ++ b).length ≤
              max tail.length (Replace.all str1 str2 tail).length :=
            Replace.length_first_le hne hfirst
          have hlt := h.length_lt
          have hend := hend ⟨a, b, hcut.symm⟩
          have hnow := hnext hfirst
          rw [Replace.all_of_first hne hfirst] at hend hroom hmost ⊢
          have hcutlen := congrArg List.length hcut
          simp only [List.length_append] at hnow hend hroom hmost hcutlen hlt
          have hheld : Holds str (head ++ a ++ str1 ++ b) := by
            rw [hcut] at h
            simpa only [List.append_assoc] using h
          obtain ⟨str₁, hstr₁, hlen₁, hholds₁⟩ :=
            hedit hheld (hnext hfirst) (by simp only [List.length_append]; omega)
          have hround : editRound edit str1 str2 false (str, head.length) =
              .inl (str₁, (head ++ a ++ str2).length) := by
            rw [editRound_first h hfirst, hstr₁]
          have hnext₁ : ∀ {a' b'}, Replace.first str1 b = some (a', b') →
              (head ++ a ++ str2 ++ a' ++ str2 ++ b').length < room := fun {a' b'} hfirst' => by
            have hmost' : (a' ++ str2 ++ b').length ≤
                max b.length (Replace.all str1 str2 b).length :=
              Replace.length_first_le hne hfirst'
            simp only [List.length_append] at hmost' ⊢
            omega
          obtain ⟨str', hleaves, hholds⟩ := ih b.length (by omega) hholds₁ hnext₁
            (fun _ => by simp only [List.length_append]; omega)
            (by simp only [List.length_append]; omega) rfl
          refine ⟨str', (Loop.leaves_again hround).mpr hleaves, ?_⟩
          simpa only [List.append_assoc] using hholds

end

/-! ## The two ways of putting a text together -/

section

variable {ilen : Nat} {str str' a b str1 str2 : Bytes}

theorem Public.edits (hpos : 1 ≤ ilen) (hlt : ilen ≤ 4294967296) (hnul : 0 ∉ str2) :
    Edits (fun str => Public.replaced ilen str str1 str2) ilen str1 str2 := by
  intro str a b h hfit hroom
  have htake : (a ++ str2 ++ b).take (ilen - 1) = a ++ str2 ++ b :=
    List.take_of_length_le (by omega)
  have hreplaced := Public.replaced_holds hpos hlt (by rw [htake]; exact hroom) h hnul
  rw [htake] at hreplaced
  exact hreplaced

namespace Mysql

theorem edits (hnul : 0 ∉ str2) :
    Edits (fun str => replaced ilen str str1 str2) ilen str1 str2 := by
  intro str a b h hfit hroom
  obtain ⟨hfront, hbehind⟩ := Public.replaced_parts h
  simp only [List.length_append] at hfit
  have hzeros := @Libc.strncpy_zeros [] str ilen a.length (by omega)
  rw [List.append_nil, List.length_replicate, hfront] at hzeros
  obtain ⟨t₁, ht₁, hlen₁, hholds₁⟩ := hzeros
  have hstr2 := cStr_of_nulFree hnul
  obtain ⟨t₂, ht₂, hlen₂, hholds₂⟩ :=
    Libc.strcat_holds hholds₁ (show a.length + (cStr str2).length < t₁.length by rw [hstr2]; omega)
  rw [hstr2] at hholds₂
  have hroom₃ : (a ++ str2).length + (cStr (str.drop (a.length + str1.length))).length <
      t₂.length := by
    rw [hbehind, List.length_append]
    omega
  obtain ⟨t₃, ht₃, hlen₃, hholds₃⟩ := Libc.strcat_holds hholds₂ hroom₃
  rw [hbehind] at hholds₃
  obtain ⟨str', hcopy, hlen, hholds⟩ :=
    Libc.strcpy_holds (show (cStr t₃).length < str.length by rwa [hholds₃.cStr])
  rw [hholds₃.cStr] at hholds
  refine ⟨str', ?_, hlen, hholds⟩
  dsimp only
  rw [replaced, ok_bind ht₁, ok_bind ht₂, ok_bind ht₃, hcopy]

/-- A replacement that does not end in a fault had room in `strTemp`. -/
theorem replaced_inv (h : Holds str (a ++ str1 ++ b)) (hnul : 0 ∉ str2)
    (hok : replaced ilen str str1 str2 a.length = .ok str') :
    (a ++ str2 ++ b).length < ilen ∧ Holds str' (a ++ str2 ++ b) := by
  obtain ⟨hfront, hbehind⟩ := Public.replaced_parts h
  obtain ⟨t₁, ht₁, hok⟩ := bind_eq_ok.mp hok
  obtain ⟨t₂, ht₂, hok⟩ := bind_eq_ok.mp hok
  obtain ⟨t₃, ht₃, hok⟩ := bind_eq_ok.mp hok
  obtain ⟨hlen₁, hfront₁⟩ := Libc.strncpy_zeros_inv ht₁
  obtain ⟨hlen₂, hholds₂⟩ := Libc.strcat_inv ht₂
  obtain ⟨hlen₃, hholds₃⟩ := Libc.strcat_inv ht₃
  rw [hfront₁, hfront, cStr_of_nulFree hnul] at hholds₂
  rw [hholds₂.cStr, hbehind] at hholds₃
  have hlt := hholds₃.length_lt
  rw [hlen₃, hlen₂, hlen₁] at hlt
  have hcopy := Libc.strcpy_inv hok
  rw [hholds₃.cStr] at hcopy
  exact ⟨hlt, hcopy⟩

/-- A fault is an access outside an array. -/
theorem replaced_fault {ilen : Nat} {str str1 str2 : Bytes} {strPos : Nat} {f : Fault}
    (h : replaced ilen str str1 str2 strPos = .error f) : f = .outOfBounds := by
  rcases bind_eq_error.mp h with h | ⟨t₁, -, h⟩
  · exact Libc.strncpy_fault h
  rcases bind_eq_error.mp h with h | ⟨t₂, -, h⟩
  · exact Libc.strcat_fault h
  rcases bind_eq_error.mp h with h | ⟨t₃, -, h⟩
  · exact Libc.strcat_fault h
  · exact copyInto_fault h

theorem replaced_length {ilen : Nat} {str str1 str2 str' : Bytes} {strPos : Nat}
    (h : replaced ilen str str1 str2 strPos = .ok str') : str'.length = str.length := by
  obtain ⟨t₁, -, h⟩ := bind_eq_ok.mp h
  obtain ⟨t₂, -, h⟩ := bind_eq_ok.mp h
  obtain ⟨t₃, -, h⟩ := bind_eq_ok.mp h
  exact (copyInto_length h).1

/-- A replacement whose text does not fit ends in a fault. -/
theorem replaced_long {ilen : Nat} {str a b str1 str2 : Bytes} (h : Holds str (a ++ str1 ++ b))
    (hnul : 0 ∉ str2) (hlong : ¬ (a ++ str2 ++ b).length < min str.length ilen) :
    replaced ilen str str1 str2 a.length = .error .outOfBounds := by
  cases hreplaced : replaced ilen str str1 str2 a.length with
  | ok str' =>
      obtain ⟨hlt, hholds⟩ := replaced_inv h hnul hreplaced
      have hlen := replaced_length hreplaced
      have hroom := hholds.length_lt
      omega
  | error f => rw [replaced_fault hreplaced]

/-- What a round that goes on has found and left. -/
theorem round_inv {head tail : Bytes} {st : Bytes × Nat} (h : Holds str (head ++ tail))
    (hnul : 0 ∉ str2)
    (hround : editRound (fun str => replaced ilen str str1 str2) str1 str2 false
      (str, head.length) = .inl st) :
    ∃ a b, Replace.first str1 tail = some (a, b) ∧ st.2 = (head ++ a ++ str2).length ∧
      Holds st.1 (head ++ a ++ str2 ++ b) ∧ (head ++ a ++ str2 ++ b).length < ilen := by
  cases hfirst : Replace.first str1 tail with
  | none =>
      rw [editRound_absent h (Replace.first_eq_none.mp hfirst)] at hround
      cases hround
  | some ab =>
      obtain ⟨a, b⟩ := ab
      rw [editRound_first h hfirst] at hround
      have hheld : Holds str (head ++ a ++ str1 ++ b) := by
        rw [(Replace.first_eq_some.mp hfirst).1] at h
        simpa only [List.append_assoc] using h
      split at hround
      · cases hround
      · next hok =>
          cases hround
          obtain ⟨hlt, hholds⟩ := replaced_inv hheld hnul hok
          exact ⟨a, b, rfl, rfl, hholds, hlt⟩

/-- The string is a finished part and a rest, which fit in `strTemp`. -/
def Parts (ilen : Nat) (st : Bytes × Nat) : Prop :=
  ∃ head tail, st.2 = head.length ∧ Holds st.1 (head ++ tail) ∧ (head ++ tail).length < ilen

/-- What a loop that ends without a fault leaves fits in `strTemp`. -/
theorem Parts.result {st : Bytes × Nat} (hparts : Parts ilen st) (hnul : 0 ∉ str2)
    (hleaves : Loop.Leaves (editRound (fun str => replaced ilen str str1 str2) str1 str2 false)
      st (.ok str')) :
    ∃ t, Holds str' t ∧ t.length < ilen := by
  obtain ⟨⟨str₁, off⟩, ⟨head, tail, hoff, hholds, hlt⟩, hlast⟩ :=
    hleaves.rule (I := Parts ilen) (fun ⟨array, _⟩ st' ⟨head, tail, hoff, hholds, _⟩ hround => by
      cases hoff
      obtain ⟨a, b, -, hoff', hholds', hlt'⟩ := round_inv hholds hnul hround
      exact ⟨_, b, hoff', hholds', hlt'⟩) hparts
  cases hoff
  obtain ⟨rfl, -⟩ := editRound_ok hholds hlast
  exact ⟨head ++ tail, hholds, hlt⟩

end Mysql

end

/-! ## The whole call -/

/-- The call ends, and this is the string it leaves. -/
def LeavesString (call : Nat → Option (Except Fault Bytes)) (out : Bytes) : Prop :=
  ∃ rounds str', call rounds = some (.ok str') ∧ Holds str' out

/-- If there is something to replace, `strTemp` has room for the text after the first
replacement and for the last one. -/
def FitsOnce (s str1 str2 : Bytes) : Prop :=
  str1 <:+: s → s.length - str1.length + str2.length < Public.ilen s ∧
    (Replace.all str1 str2 s).length < Public.ilen s

section

variable {edit : Bytes → Nat → Except Fault Bytes} {str s str1 str2 out : Bytes}

/-- A call goes round unless the string is empty, which the loop would leave as it is. -/
theorem leavesString_iff {call : Nat → Option (Except Fault Bytes)} (h : Holds str s)
    (hne : str1 ≠ [])
    (hcall : ∀ rounds, call rounds =
      if s = [] then some (.ok str)
      else Loop.run (editRound edit str1 str2 false) rounds (str, 0)) :
    LeavesString call out ↔
      ∃ str', Loop.Leaves (editRound edit str1 str2 false) (str, 0) (.ok str') ∧
        Holds str' out := by
  unfold LeavesString
  by_cases hs : s = []
  · have hnot : ¬ str1 <:+: s := by
      rw [hs, List.infix_nil]
      exact hne
    have hround : editRound edit str1 str2 false (str, 0) = .inr (.ok str) :=
      editRound_absent (show Holds str ([] ++ s) from h) hnot
    simp only [hcall, if_pos hs, Option.some.injEq, exists_const]
    refine exists_congr fun str' => and_congr_left fun _ => ?_
    rw [Loop.leaves_leave hround, eq_comm]
  · simp only [hcall, if_neg hs]
    exact ⟨fun ⟨rounds, str', hrun, hholds⟩ => ⟨str', ⟨rounds, hrun⟩, hholds⟩,
      fun ⟨str', ⟨rounds, hrun⟩, hholds⟩ => ⟨rounds, str', hrun, hholds⟩⟩

theorem updateStr_leaves_iff (h : Holds str s) (hne : str1 ≠ []) :
    LeavesString (fun rounds => Public.updateStr rounds str str1 str2 false) out ↔
      ∃ str', Loop.Leaves (editRound (fun array => Public.replaced (Public.ilen s) array str1 str2)
        str1 str2 false) (str, 0) (.ok str') ∧ Holds str' out := by
  refine leavesString_iff h hne fun rounds => ?_
  dsimp only [Public.updateStr]
  rw [h.cStr, Bool.false_and, if_neg Bool.false_ne_true, Public.updateRound_eq]

theorem myUpdateStr_leaves_iff (h : Holds str s) (hne : str1 ≠ []) :
    LeavesString (fun rounds => Mysql.myUpdateStr rounds str str1 str2 false) out ↔
      ∃ str', Loop.Leaves (editRound (fun array => Mysql.replaced (Public.ilen s) array str1 str2)
        str1 str2 false) (str, 0) (.ok str') ∧ Holds str' out := by
  refine leavesString_iff h hne fun rounds => ?_
  dsimp only [Mysql.myUpdateStr]
  rw [h.cStr, Bool.false_and, if_neg Bool.false_ne_true]

/-- The loop, with room for the texts on the way. -/
theorem FitsOnce.loop (hfits : FitsOnce s str1 str2) (h : Holds str s) (hne : str1 ≠ [])
    (hroom : (Replace.all str1 str2 s).length < str.length)
    (hedit : Edits edit (Public.ilen s) str1 str2) :
    ∃ str', Loop.Leaves (editRound edit str1 str2 false) (str, 0) (.ok str') ∧
      Holds str' (Replace.all str1 str2 s) := by
  refine editLoop_all hedit hne (show Holds str ([] ++ s) from h) (fun {a b} hfirst => ?_)
    (fun hin => (hfits hin).2) hroom
  have hcut := (Replace.first_eq_some.mp hfirst).1
  have hlen := congrArg List.length hcut
  have hnow := (hfits ⟨a, b, hcut.symm⟩).1
  simp only [List.length_append, List.length_nil] at hlen ⊢
  omega

/-- `MY__UpdateStr` writes past the end of `strTemp` unless there is room. -/
theorem fits_of_myUpdateStr (h : Holds str s) (hne : str1 ≠ []) (hnul : 0 ∉ str2)
    (hleaves : LeavesString (fun rounds => Mysql.myUpdateStr rounds str str1 str2 false)
      (Replace.all str1 str2 s)) : FitsOnce s str1 str2 := by
  intro hin
  obtain ⟨str', hleaves, hout⟩ := (myUpdateStr_leaves_iff h hne).mp hleaves
  cases hround : editRound (fun array => Mysql.replaced (Public.ilen s) array str1 str2)
      str1 str2 false (str, 0) with
  | inr r =>
      cases (Loop.leaves_leave hround).mp hleaves
      exact absurd hin (editRound_ok (show Holds str ([] ++ s) from h) hround).2
  | inl st =>
      obtain ⟨a, b, hfirst, hoff, hholds, hlt⟩ :=
        Mysql.round_inv (show Holds str ([] ++ s) from h) hnul hround
      have hlen := congrArg List.length (Replace.first_eq_some.mp hfirst).1
      obtain ⟨t, ht, htlt⟩ := Mysql.Parts.result ⟨_, b, hoff, hholds, hlt⟩ hnul
        ((Loop.leaves_again hround).mp hleaves)
      rw [← ht.cStr, hout.cStr] at htlt
      simp only [List.length_append, List.length_nil] at hlen hlt
      exact ⟨by omega, htlt⟩

/-- Both calls make one pass of replacements exactly if `strTemp` has room for the text
after the first replacement and for the last one. -/
theorem updateStr_once_iff (h : Holds str s) (hne : str1 ≠ []) (hnul : 0 ∉ str2)
    (hroom : (Replace.all str1 str2 s).length < str.length) :
    LeavesString (fun rounds => Mysql.myUpdateStr rounds str str1 str2 false)
        (Replace.all str1 str2 s) ∧
      LeavesString (fun rounds => Public.updateStr rounds str str1 str2 false)
        (Replace.all str1 str2 s) ↔
      FitsOnce s str1 str2 := by
  have hbounds := Public.ilen_bounds s
  constructor
  · rintro ⟨hmine, -⟩
    exact fits_of_myUpdateStr h hne hnul hmine
  · intro hfits
    rw [myUpdateStr_leaves_iff h hne, updateStr_leaves_iff h hne]
    exact ⟨hfits.loop h hne hroom (Mysql.edits hnul),
      hfits.loop h hne hroom (Public.edits (by omega) (by omega) hnul)⟩

theorem updateStr_once_iff_twice :
    Holds (ascii "aXbX" ++ List.replicate 5 0) (ascii "aXbX") ∧
      LeavesString (fun rounds => Mysql.myUpdateStr rounds (ascii "aXbX" ++ List.replicate 5 0)
        (ascii "X") (ascii "XX") false) (ascii "aXXbXX") ∧
      LeavesString (fun rounds => Public.updateStr rounds (ascii "aXbX" ++ List.replicate 5 0)
        (ascii "X") (ascii "XX") false) (ascii "aXXbXX") := by
  have h : Holds (ascii "aXbX" ++ List.replicate 5 0) (ascii "aXbX") := ⟨by decide, _, rfl⟩
  have hall : Replace.all (ascii "X") (ascii "XX") (ascii "aXbX") = ascii "aXXbXX" := by decide
  have honce := @updateStr_once_iff _ _ (ascii "X") (ascii "XX") h (by decide) (by decide)
    (by decide)
  rw [hall] at honce
  exact ⟨h, honce.mpr fun _ => by decide⟩

theorem Public.ilen_eq (hint : 10 * s.length < 2147483648) :
    Public.ilen s = max 1000 (10 * s.length) := by
  have hlen : int (10 * s.length) = 10 * s.length := int_eq (by omega) (by omega)
  unfold Public.ilen
  dsimp only
  rw [hlen]
  split <;> omega

/-- As long as the size of `strTemp` is an `int`, it takes room for the result only. -/
theorem fitsOnce_of_int (hint : 10 * s.length < 2147483648) (hne : str1 ≠ [])
    (hlt : (Replace.all str1 str2 s).length < max 1000 (10 * s.length)) :
    FitsOnce s str1 str2 := by
  intro hin
  obtain ⟨a, b, hfirst⟩ := Replace.first_isSome hin
  have hmost : (a ++ str2 ++ b).length ≤ max s.length (Replace.all str1 str2 s).length :=
    Replace.length_first_le hne hfirst
  have hlen := congrArg List.length (Replace.first_eq_some.mp hfirst).1
  have hpos := List.length_pos_iff.mpr hne
  rw [Public.ilen_eq hint]
  simp only [List.length_append] at hmost hlen
  exact ⟨by omega, hlt⟩

/-- A long string whose first character is taken away. -/
theorem not_fitsOnce_of_wrap {c d : UInt8} (hcd : c ≠ d) {n : Nat} (hn : 1000 ≤ n)
    (hilen : Public.ilen (c :: List.replicate n d) = 1000) :
    Replace.all [c] [] (c :: List.replicate n d) = List.replicate n d ∧
      ¬ FitsOnce (c :: List.replicate n d) [c] [] := by
  have habsent : ¬ [c] <:+: List.replicate n d := fun hin =>
    hcd (List.eq_of_mem_replicate (hin.subset (List.mem_singleton.mpr rfl)))
  have hall : Replace.all [c] [] (c :: List.replicate n d) = List.replicate n d := by
    rw [show c :: List.replicate n d = [c] ++ List.replicate n d from rfl,
      Replace.all_append (List.cons_ne_nil c []), Replace.all_of_absent habsent, List.nil_append]
  refine ⟨hall, fun hfits => ?_⟩
  have hlt := (hfits (List.prefix_append [c] (List.replicate n d)).isInfix).2
  rw [hall, hilen, List.length_replicate] at hlt
  omega

end

/-! ## Texts -/

section

variable {array str1 str2 head tail : Bytes} {ilen : Nat}

theorem absent_leaves {edit : Bytes → Nat → Except Fault Bytes} (h : Holds array (head ++ tail))
    (hnot : ¬ str1 <:+: tail) :
    ∃ array', Loop.Leaves (editRound edit str1 str2 false) (array, head.length) (.ok array') ∧
      Holds array' (head ++ tail) :=
  ⟨array, (Loop.leaves_leave (editRound_absent h hnot)).mpr rfl, h⟩

/-- In an array that holds the text the loop does what the loop over the text does. -/
theorem updateLoop_leaves (hne : str1 ≠ []) (hnul : 0 ∉ str2) {rounds : Nat}
    (hrounds : tail.length ≤ rounds) (h : Holds array (head ++ tail)) :
    let round := editRound (fun str => Mysql.replaced ilen str str1 str2) str1 str2 false
    match updateLoop (min array.length ilen) str1 str2 rounds head tail with
    | .ok out => ∃ array', Loop.Leaves round (array, head.length) (.ok array') ∧ Holds array' out
    | .error f => Loop.Leaves round (array, head.length) (.error f) := by
  intro round
  induction rounds generalizing array head tail with
  | zero =>
      refine absent_leaves h fun hin => hne ?_
      rw [List.eq_nil_of_length_eq_zero (Nat.le_zero.mp hrounds)] at hin
      exact List.infix_nil.mp hin
  | succ rounds ih =>
      unfold updateLoop
      rw [strstr]
      cases hfirst : Replace.first str1 tail with
      | none => exact absent_leaves h (Replace.first_eq_none.mp hfirst)
      | some ab =>
          obtain ⟨a, b⟩ := ab
          have hcut := (Replace.first_eq_some.mp hfirst).1
          have hlen := congrArg List.length hcut
          have hpos := List.length_pos_iff.mpr hne
          simp only [List.length_append] at hlen
          have hheld : Holds array (head ++ a ++ str1 ++ b) := by
            rw [hcut] at h
            simpa only [List.append_assoc] using h
          have hround : round (array, head.length) = _ := editRound_first h hfirst
          dsimp only at hround ⊢
          by_cases hfits : (head ++ a ++ str2 ++ b).length < min array.length ilen
          · have hedits : Edits (fun str => Mysql.replaced ilen str str1 str2) ilen str1 str2 :=
              Mysql.edits hnul
            obtain ⟨array', hok, hlen', hholds⟩ := hedits hheld (by omega) (by omega)
            dsimp only at hok
            rw [hok] at hround
            have hrest := ih (by omega) hholds
            rw [hlen'] at hrest
            rw [if_pos hfits]
            cases hrun : updateLoop (min array.length ilen) str1 str2 rounds (head ++ a ++ str2) b
              with
            | ok out =>
                rw [hrun] at hrest
                obtain ⟨array'', hleaves, hout⟩ := hrest
                exact ⟨array'', (Loop.leaves_again hround).mpr hleaves, hout⟩
            | error f =>
                rw [hrun] at hrest
                exact (Loop.leaves_again hround).mpr hrest
          · rw [Mysql.replaced_long hheld hnul hfits] at hround
            rw [if_neg hfits]
            exact (Loop.leaves_leave hround).mpr rfl

end

/-- The array of a text: what `MY__UpdateStr` is taken to make of the text, faults included. -/
theorem myUpdateStr_of_text {array str str1 str2 : Bytes} (h : Holds array str)
    (hint : 10 * str.length < 2147483648) (hne : str1 ≠ []) (hnul : 0 ∉ str2) :
    match updateStr array.length str str1 str2 with
    | .ok out => LeavesString (fun rounds => Mysql.myUpdateStr rounds array str1 str2 false) out
    | .error f => ∃ rounds, Mysql.myUpdateStr rounds array str1 str2 false = some (.error f) := by
  have hilen : Public.ilen str = max 1000 (str.length * 10) := by
    rw [Public.ilen_eq hint, Nat.mul_comm]
  by_cases hstr : str = []
  · have hin : ¬ str1 <:+: str := by
      rw [hstr, List.infix_nil]
      exact hne
    rw [updateStr, if_pos hstr]
    exact (myUpdateStr_leaves_iff h hne).mpr
      (absent_leaves (show Holds array ([] ++ str) from h) hin)
  · have hloop := @updateLoop_leaves array str1 str2 [] str (Public.ilen str) hne hnul str.length
      (Nat.le_refl _) h
    rw [updateStr, if_neg hstr, ← hilen]
    revert hloop
    split
    · exact (myUpdateStr_leaves_iff h hne).mpr
    · rintro ⟨rounds, hrun⟩
      refine ⟨rounds, ?_⟩
      dsimp only [Mysql.myUpdateStr]
      rw [h.cStr, if_neg hstr, Bool.false_and, if_neg Bool.false_ne_true]
      exact hrun

/-! ## A size that wraps -/

/-- Ten times the length of this string is more than an `int` has room for. -/
def tenfoldWraps : Bytes := 98 :: List.replicate 214748364 97

theorem tenfoldWraps_not_once :
    Holds (tenfoldWraps ++ [0]) tenfoldWraps ∧
      (Replace.all [98] [] tenfoldWraps).length < max 1000 (10 * tenfoldWraps.length) ∧
      (Replace.all [98] [] tenfoldWraps).length < (tenfoldWraps ++ [0]).length ∧
      ¬ LeavesString
        (fun rounds => Mysql.myUpdateStr rounds (tenfoldWraps ++ [0]) [98] [] false)
        (Replace.all [98] [] tenfoldWraps) := by
  have hlen : tenfoldWraps.length = 214748365 := by
    rw [tenfoldWraps, List.length_cons, List.length_replicate]
  have hilen : Public.ilen tenfoldWraps = 1000 := by
    rw [Public.ilen, hlen]
    rfl
  obtain ⟨hall, hnot⟩ := not_fitsOnce_of_wrap (show (98 : UInt8) ≠ 97 by decide)
    (show 1000 ≤ 214748364 by omega) hilen
  have hresult : (Replace.all [98] [] tenfoldWraps).length = 214748364 := by
    rw [tenfoldWraps, hall, List.length_replicate]
  have h : Holds (tenfoldWraps ++ [0]) tenfoldWraps := by
    refine ⟨fun hmem => ?_, [], rfl⟩
    rcases List.mem_cons.mp hmem with h0 | h0
    · exact absurd h0 (by decide)
    · exact absurd (List.eq_of_mem_replicate h0) (by decide)
  refine ⟨h, by rw [hresult, hlen]; omega, ?_, fun hleaves => ?_⟩
  · rw [hresult, List.length_append, hlen]
    omega
  · exact hnot (fits_of_myUpdateStr h (by decide) (by decide) hleaves)

end AsioServer
