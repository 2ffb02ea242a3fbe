import AsioServer.Lib.Split
import AsioServer.Proofs.MatchStr
import AsioServer.Proofs.Strings
import AsioServer.Ref.CmdStr

/-!
# What `SplitToCmd` leaves in `m_vCmdStr`

The pieces of the buffer, as long as the places are those an `int` can hold. A
separator that begins or ends from 2147483648 on is not found, or what is cut off
is too short: then less is taken away than is stored, and joined again the fields
are longer than the buffer.
-/

namespace AsioServer

open Split (Pieces Splits)

namespace CmdStr

variable {s sepstr : Bytes} {bdelspace : Bool}

/-! ## Rounds -/

theorem stored_trim {s : Bytes} (hnul : 0 ∉ s) (h : s.length < 2147483648) :
    stored s true = .ok (Public.trim 32 s) := by
  obtain ⟨str, hcopy, -, hholds⟩ :=
    Public.strcpy_holds s (show 1 ≤ s.length + 1 by omega)
      (Nat.le_of_eq (List.length_replicate (a := (0 : UInt8))).symm) (by omega)
  rw [cStr_of_nulFree hnul, Nat.add_sub_cancel, List.take_length] at hholds
  refine (ok_bind hcopy _).trans ?_
  rw [hholds.cStr, Public.deleteLRChar_eq (by decide) hnul h]

theorem splitRound_last (cmd : CCmdStr) (h : ¬ sepstr <:+: s) :
    splitRound sepstr bdelspace (cmd, s) = .inr ((stored s bdelspace).map cmd.pushBack) := by
  have hfind : int (find s sepstr 0) = -1 :=
    find_none (by rw [List.drop_zero]; exact Replace.first_eq_none.mpr h)
  unfold splitRound
  dsimp only
  rw [hfind, if_neg (by decide)]

theorem splitRound_piece (cmd : CCmdStr) {a b f : Bytes}
    (hfirst : Replace.first sepstr s = some (a, b))
    (hshort : a.length + sepstr.length < 2147483648) (hstored : stored a bdelspace = .ok f) :
    splitRound sepstr bdelspace (cmd, s) = .inl (cmd.pushBack f, b) := by
  obtain ⟨hfind, hlen, hdrop⟩ :=
    find_first (Nat.zero_le s.length) (show Replace.first sepstr (s.drop 0) = _ from hfirst)
  rw [hfind, Nat.zero_add] at hlen hdrop
  have hpos : int (find s sepstr 0) = (a.length : Int) := by
    rw [hfind, Nat.zero_add]
    exact int_eq (by omega) (by omega)
  have hnext : int ((a.length : Int) + sepstr.length) = ((a.length + sepstr.length : Nat) : Int) :=
    int_eq (by omega) (by omega)
  have hcut := (Replace.first_eq_some.mp hfirst).1
  have hfield : substr s 0 (sizeT a.length) = .ok a := by
    rw [substr, if_pos (Nat.zero_le _), sizeT_natCast (by omega), List.drop_zero, hcut,
      List.append_assoc, List.take_left]
  have hrest : substr s (a.length + sepstr.length) (s.length - (a.length + sepstr.length)) =
      .ok b := by
    rw [substr, if_pos (by omega), hdrop, List.take_of_length_le (by omega)]
  have hround : cutField s sepstr bdelspace a.length = .ok (f, b) := by
    rw [cutField, ok_bind hfield, ok_bind hstored]
    dsimp only
    rw [hnext, sizeT_natCast (by omega), ok_bind hrest]
    rfl
  unfold splitRound
  dsimp only
  rw [hpos, if_pos (Int.natCast_nonneg _), hround]

theorem leaves_of_short (cmd : CCmdStr) {ps : List Bytes} (h : Splits sepstr s ps)
    (hshort : ∀ p ∈ ps.dropLast, p.length + sepstr.length < 2147483648) {f : Bytes → Bytes}
    (hstored : ∀ p ∈ ps, stored p bdelspace = .ok (f p)) :
    Loop.Leaves (splitRound sepstr bdelspace) (cmd, s) (.ok ⟨cmd.mVCmdStr ++ ps.map f⟩) := by
  induction h generalizing cmd with
  | @last s hnot =>
      have hlast := hstored s (List.mem_singleton_self s)
      refine (Loop.leaves_leave (splitRound_last cmd hnot)).mpr ?_
      rw [hlast]
      rfl
  | @piece s a b ps hfirst hrest ih =>
      rw [List.dropLast_cons_of_ne_nil hrest.ne_nil, List.forall_mem_cons] at hshort
      rw [List.forall_mem_cons] at hstored
      have hround := splitRound_piece cmd hfirst hshort.1 hstored.1
      refine (Loop.leaves_again hround).mpr ?_
      have hleaves := ih (cmd.pushBack (f a)) hshort.2 hstored.2
      rw [CCmdStr.pushBack] at hleaves
      rw [List.map_cons, ← List.singleton_append, ← List.append_assoc]
      exact hleaves

/-! ## What is stored and what is taken away -/

/-- At least as much is stored, with its separators, as has been taken away, and
just as much only if all the places were in order. -/
structure Tight (buffer sepstr : Bytes) (st : CCmdStr × Bytes) : Prop where
  le : st.2.length ≤ buffer.length
  enough : buffer.length ≤
    (st.1.mVCmdStr.map fun q => q.length + sepstr.length).sum + st.2.length
  short : buffer.length =
      (st.1.mVCmdStr.map fun q => q.length + sepstr.length).sum + st.2.length →
    ∀ q ∈ st.1.mVCmdStr, q.length + sepstr.length < 2147483648

theorem substr_inv {s t : Bytes} {pos n : Nat} (h : substr s pos n = .ok t) :
    pos ≤ s.length ∧ t = (s.drop pos).take n := by
  unfold substr at h
  split at h
  · next hle =>
      cases h
      exact ⟨hle, rfl⟩
  · cases h

theorem find_le {s pat : Bytes} (h : 0 ≤ int (find s pat 0)) : find s pat 0 ≤ s.length := by
  cases hfirst : Replace.first pat (s.drop 0) with
  | none =>
      rw [find_none hfirst] at h
      exact absurd h (by decide)
  | some ab =>
      obtain ⟨before, behind⟩ := ab
      have hlen := (find_first (Nat.zero_le s.length) hfirst).2.1
      omega

/-- What is stored stood in front, and no more than it and the separator is taken away. -/
theorem cutField_inv {iPOS : Int} (hpos : 0 ≤ iPOS) (hlt : iPOS < 2147483648)
    (hs : s.length < 9223372036854775808) {field srcstr : Bytes}
    (h : cutField s sepstr false iPOS = .ok (field, srcstr)) :
    field = s.take iPOS.toNat ∧ ∃ n, srcstr = s.drop n ∧ n ≤ s.length ∧
      n ≤ iPOS.toNat + sepstr.length ∧
      (n = iPOS.toNat + sepstr.length → iPOS.toNat + sepstr.length < 2147483648) := by
  obtain ⟨field₁, hfield, h⟩ := bind_eq_ok.mp h
  obtain ⟨field₂, hstored, h⟩ := bind_eq_ok.mp h
  obtain ⟨rest, hrest, h⟩ := bind_eq_ok.mp h
  cases hstored
  cases h
  have hk : sizeT iPOS = iPOS.toNat := by
    unfold sizeT
    omega
  obtain ⟨-, rfl⟩ := substr_inv hfield
  obtain ⟨hle, rfl⟩ := substr_inv hrest
  rw [hk, List.drop_zero]
  -- a negative place, as a `size_t`, is behind the end
  have hnonneg : 0 ≤ int (iPOS + sepstr.length) := by
    refine Int.not_lt.mp fun hneg => ?_
    have hge := Int.le_bmod (x := iPOS + sepstr.length) (m := 4294967296) (by decide)
    unfold sizeT at hle
    unfold int at hle hneg
    omega
  have hcast : ((iPOS.toNat + sepstr.length : Nat) : Int) = iPOS + sepstr.length := by omega
  rw [← hcast] at hnonneg hle ⊢
  obtain ⟨hint, hbound⟩ := int_natCast_le (iPOS.toNat + sepstr.length)
  have hn : sizeT (int ((iPOS.toNat + sepstr.length : Nat) : Int)) =
      (int ((iPOS.toNat + sepstr.length : Nat) : Int)).toNat := by
    unfold sizeT
    omega
  refine ⟨rfl, _, ?_, hle, ?_, ?_⟩
  · rw [List.take_of_length_le (by rw [List.length_drop])]
  · rw [hn]
    omega
  · rw [hn]
    omega

theorem Tight.push {cmd : CCmdStr} {buffer q : Bytes} (h : Tight buffer sepstr (cmd, s)) {n : Nat}
    (hn : n ≤ s.length) (hmost : n ≤ q.length + sepstr.length)
    (hexact : n = q.length + sepstr.length → q.length + sepstr.length < 2147483648) :
    Tight buffer sepstr (cmd.pushBack q, s.drop n) := by
  have hle : s.length ≤ buffer.length := h.le
  have henough : buffer.length ≤
      (cmd.mVCmdStr.map fun q => q.length + sepstr.length).sum + s.length := h.enough
  have hshort : buffer.length =
      (cmd.mVCmdStr.map fun q => q.length + sepstr.length).sum + s.length →
        ∀ q ∈ cmd.mVCmdStr, q.length + sepstr.length < 2147483648 := h.short
  have hsum : ((cmd.pushBack q).mVCmdStr.map fun q => q.length + sepstr.length).sum =
      (cmd.mVCmdStr.map fun q => q.length + sepstr.length).sum + (q.length + sepstr.length) := by
    rw [CCmdStr.pushBack, List.map_append, List.sum_append, List.map_singleton, List.sum_singleton]
  refine ⟨?_, ?_, ?_⟩
  · dsimp only
    rw [List.length_drop]
    omega
  · dsimp only
    rw [hsum, List.length_drop]
    omega
  · dsimp only
    rw [hsum, List.length_drop]
    intro heq p hp
    rw [CCmdStr.pushBack, List.mem_append, List.mem_singleton] at hp
    rcases hp with hp | rfl
    · exact hshort (by omega) p hp
    · exact hexact (by omega)

theorem Tight.round {buffer : Bytes} (hmax : buffer.length < 9223372036854775808)
    {st st' : CCmdStr × Bytes} (h : Tight buffer sepstr st)
    (hround : splitRound sepstr false st = .inl st') : Tight buffer sepstr st' := by
  obtain ⟨cmd, s⟩ := st
  have hs : s.length < 9223372036854775808 := Nat.lt_of_le_of_lt h.le hmax
  unfold splitRound at hround
  dsimp only at hround
  split at hround
  · next hpos =>
      split at hround
      · cases hround
      · next field srcstr hcut =>
          obtain ⟨hint, hlt⟩ := int_natCast_le (find s sepstr 0)
          have hfind := find_le hpos
          obtain ⟨hstored, n, hrest, hn, hmost, hexact⟩ := cutField_inv hpos hlt hs hcut
          have hfield : field.length = (int (find s sepstr 0)).toNat := by
            rw [hstored, List.length_take]
            omega
          rw [← hfield] at hmost hexact
          rw [← Sum.inl.inj hround, hrest]
          exact h.push hn hmost hexact
  · cases hround

theorem Tight.result {buffer : Bytes} (hmax : buffer.length < 9223372036854775808)
    {st : CCmdStr × Bytes} (h : Tight buffer sepstr st) {ps : List Bytes}
    (hleaves : Loop.Leaves (splitRound sepstr false) st (.ok ⟨ps⟩))
    (hjoined : sepstr.intercalate ps = buffer) :
    ∀ p ∈ ps.dropLast, p.length + sepstr.length < 2147483648 := by
  obtain ⟨⟨cmd, s⟩, htight, hlast⟩ :=
    hleaves.rule (fun _ _ hI hround => Tight.round hmax hI hround) h
  unfold splitRound at hlast
  dsimp only at hlast
  split at hlast
  · split at hlast <;> cases hlast
  · cases hlast
    have hlen := Split.length_intercalate sepstr cmd.mVCmdStr s
    rw [List.dropLast_concat]
    rw [hjoined] at hlen
    exact htight.short hlen

/-! ## A separator of one character -/

/-- What is cut off at a separator of one character, and what follows it. -/
theorem cutField_bind {α : Type} (s : Bytes) (sep : UInt8) (iPOS : Int)
    (follow : Bytes × Bytes → Except Fault α) :
    (cutField s [sep] false iPOS >>= follow) =
      substr s 0 (sizeT iPOS) >>= fun field =>
        substr s (sizeT (int (iPOS + 1))) (s.length - sizeT (int (iPOS + 1))) >>= fun srcstr =>
          follow (field, srcstr) := by
  have hone : (([sep].length : Nat) : Int) = 1 := rfl
  unfold cutField
  rw [hone]
  generalize int (iPOS + 1) = behind
  cases substr s 0 (sizeT iPOS) with
  | error f => rfl
  | ok field =>
      show (substr s (sizeT behind) (s.length - sizeT behind) >>= _) >>= _ =
        substr s (sizeT behind) (s.length - sizeT behind) >>= _
      cases substr s (sizeT behind) (s.length - sizeT behind) <;> rfl

theorem splitLoop_succ (sep : UInt8) (rounds : Nat) (s : Bytes) :
    splitLoop sep (rounds + 1) s =
      if 0 ≤ int (find s [sep] 0) then
        cutField s [sep] false (int (find s [sep] 0)) >>= fun cut =>
          splitLoop sep rounds cut.2 >>= fun fields => pure (cut.1 :: fields)
      else .ok [s] := by
  rw [splitLoop]
  split
  · rw [cutField_bind]
  · rfl

/-- A field that is cut off takes its separator with it. -/
theorem cutField_shorter {s : Bytes} {sep : UInt8} {cut : Bytes × Bytes}
    (hpos : 0 ≤ int (find s [sep] 0))
    (h : cutField s [sep] false (int (find s [sep] 0)) = .ok cut) :
    cut.2.length < s.length := by
  obtain ⟨-, hlt⟩ := int_natCast_le (find s [sep] 0)
  generalize int (find s [sep] 0) = iPOS at hpos hlt h
  obtain ⟨field₁, hfield, h⟩ := bind_eq_ok.mp h
  obtain ⟨field₂, hstored, h⟩ := bind_eq_ok.mp h
  obtain ⟨srcstr, hrest, h⟩ := bind_eq_ok.mp h
  cases h
  obtain ⟨hle, rfl⟩ := substr_inv hrest
  have hbehind : 1 ≤ sizeT (int (iPOS + [sep].length)) := by
    show 1 ≤ sizeT (int (iPOS + 1))
    by_cases hlast : iPOS = 2147483647
    · rw [hlast]
      decide
    · rw [int_eq (by omega) (by omega)]
      unfold sizeT
      omega
  rw [List.length_take, List.length_drop]
  omega

/-- With a separator of one character: what `splitLoop` makes of the rest, pushed back behind what
is there. -/
theorem splitLoop_leaves {sep : UInt8} {rounds : Nat} {s : Bytes} (hrounds : s.length ≤ rounds)
    (cmd : CCmdStr) :
    Loop.Leaves (splitRound [sep] false) (cmd, s)
      ((splitLoop sep rounds s).map fun fields => ⟨cmd.mVCmdStr ++ fields⟩) := by
  induction rounds generalizing cmd s with
  | zero =>
      rw [List.eq_nil_of_length_eq_zero (Nat.le_zero.mp hrounds)]
      exact (Loop.leaves_leave (splitRound_last cmd (by simp))).mpr rfl
  | succ rounds ih =>
      rw [splitLoop_succ]
      by_cases hpos : 0 ≤ int (find s [sep] 0)
      · rw [if_pos hpos]
        cases hcut : cutField s [sep] false (int (find s [sep] 0)) with
        | error f =>
            have hround : splitRound [sep] false (cmd, s) = .inr (.error f) := by
              unfold splitRound
              dsimp only
              rw [if_pos hpos, hcut]
            exact (Loop.leaves_leave hround).mpr rfl
        | ok cut =>
            have hround : splitRound [sep] false (cmd, s) = .inl (cmd.pushBack cut.1, cut.2) := by
              unfold splitRound
              dsimp only
              rw [if_pos hpos, hcut]
            have hshorter := cutField_shorter hpos hcut
            have hrest := ih (s := cut.2) (by omega) (cmd.pushBack cut.1)
            refine (Loop.leaves_again hround).mpr ?_
            rw [ok_bind rfl]
            generalize splitLoop sep rounds cut.2 = fields at hrest ⊢
            cases fields with
            | error f => exact hrest
            | ok fields =>
                change Loop.Leaves _ _
                  (Except.ok (CCmdStr.mk (cmd.mVCmdStr ++ [cut.1] ++ fields))) at hrest
                rw [List.append_assoc] at hrest
                exact hrest
      · have hround : splitRound [sep] false (cmd, s) = .inr (.ok (cmd.pushBack s)) := by
          unfold splitRound
          dsimp only
          rw [if_neg hpos]
          rfl
        rw [if_neg hpos]
        exact (Loop.leaves_leave hround).mpr rfl

end CmdStr

/-! ## The whole call -/

/-- With a separator of one character a call leaves what `splitToCmd` says, faults included. -/
theorem splitToCmd_one (cmd : CCmdStr) (buffer : Bytes) (sep : UInt8) :
    ∃ rounds, cmd.splitToCmd rounds buffer [sep] false =
      some ((splitToCmd buffer sep).map CCmdStr.mk) :=
  CmdStr.splitLoop_leaves (Nat.le_refl buffer.length) cmd.clear

/-- The call ends with the pieces of the buffer, the only ones there are. -/
def SplitsRight (cmd : CCmdStr) (buffer sepstr : Bytes) (bdelspace : Bool) : Prop :=
  ∃ ps, Pieces sepstr buffer ps ∧ (∀ qs, Pieces sepstr buffer qs → qs = ps) ∧
    ∃ rounds, cmd.splitToCmd rounds buffer sepstr bdelspace =
      some (.ok ⟨if bdelspace then ps.map (Public.trim 32) else ps⟩)

/-- Every separator ends before 2147483648, counted from the piece in front of it. -/
def ShortPieces (buffer sepstr : Bytes) : Prop :=
  ∀ ps, Pieces sepstr buffer ps → ∀ p ∈ ps.dropLast, p.length + sepstr.length < 2147483648

theorem splitToCmd_pieces_iff (cmd : CCmdStr) {buffer sepstr : Bytes} (hnul : 0 ∉ buffer)
    (hsep : sepstr ≠ []) (hmax : buffer.length < 9223372036854775808) :
    (SplitsRight cmd buffer sepstr false ↔ ShortPieces buffer sepstr) ∧
      (ShortPieces buffer sepstr →
        (∀ ps, Pieces sepstr buffer ps → ∀ p ∈ ps, p.length < 2147483648) →
          SplitsRight cmd buffer sepstr true) := by
  obtain ⟨ps, hsplits⟩ := Split.exists_splits hsep buffer
  have hpieces := hsplits.pieces hsep
  have hunique : ∀ qs, Pieces sepstr buffer qs → qs = ps := fun qs h => h.unique hpieces
  refine ⟨⟨?_, fun hshort => ?_⟩, fun hshort hlast => ?_⟩
  · rintro ⟨qs, hqs, -, rounds, hcall⟩ ps' hps' p hp
    rw [hps'.unique hqs] at hp
    have htight : CmdStr.Tight buffer sepstr (cmd.clear, buffer) :=
      { le := Nat.le_refl _
        enough := by rw [CCmdStr.clear, List.map_nil, List.sum_nil, Nat.zero_add]
        short := fun _ q hq => by cases hq }
    exact htight.result hmax ⟨rounds, hcall⟩ hqs.joined p hp
  · obtain ⟨rounds, hcall⟩ := CmdStr.leaves_of_short cmd.clear hsplits
      (hshort ps hpieces) fun p _ => (rfl : CmdStr.stored p false = .ok p)
    rw [List.map_id'] at hcall
    exact ⟨ps, hpieces, hunique, rounds, hcall⟩
  · have hstored : ∀ p ∈ ps, CmdStr.stored p true = .ok (Public.trim 32 p) := fun p hp =>
      CmdStr.stored_trim (fun hmem => hnul ((hsplits.part p hp).subset hmem))
        (hlast ps hpieces p hp)
    obtain ⟨rounds, hcall⟩ :=
      CmdStr.leaves_of_short cmd.clear hsplits (hshort ps hpieces) hstored
    exact ⟨ps, hpieces, hunique, rounds, hcall⟩

theorem shortPieces_of_length {buffer sepstr : Bytes}
    (h : buffer.length + sepstr.length < 2147483648) : ShortPieces buffer sepstr := by
  intro ps hps p hp
  have hle := (hps.splits.part p (List.dropLast_subset ps hp)).length_le
  omega

theorem splitToCmd_pieces_iff_blanks :
    SplitsRight ⟨[ascii "old"]⟩ (ascii "a  aa aaa") (ascii "aa") false ∧
      SplitsRight ⟨[ascii "old"]⟩ (ascii "a  aa aaa") (ascii "aa") true := by
  have hshort : ShortPieces (ascii "a  aa aaa") (ascii "aa") := shortPieces_of_length (by decide)
  have hboth := splitToCmd_pieces_iff ⟨[ascii "old"]⟩
    (show 0 ∉ ascii "a  aa aaa" by decide) (show ascii "aa" ≠ [] by decide) (by decide)
  refine ⟨hboth.1.mpr hshort, hboth.2 hshort fun ps hps p hp => ?_⟩
  have hle := (hps.splits.part p hp).length_le
  have hlen : (ascii "a  aa aaa").length = 9 := rfl
  omega

/-- A separator that begins where an `int` is negative. -/
theorem split_far_off {n : Nat} (hn : int n < 0) (cmd : CCmdStr) {x sep : UInt8} (hne : x ≠ sep) :
    ¬ SplitsRight cmd (List.replicate n x ++ [sep]) [sep] false := by
  rintro ⟨ps, hps, -, rounds, hcall⟩
  have hskip : sep ∉ List.replicate n x := fun hmem =>
    hne (List.eq_of_mem_replicate hmem).symm
  have hfirst : Replace.first [sep] (List.replicate n x ++ [sep]) =
      some (List.replicate n x, []) := by
    have hself : Replace.first [sep] [sep] = some ([], []) := Replace.first_append [sep] []
    rw [Replace.first_skip hskip, hself, Option.map_some]
    simp
  have hfind : find (List.replicate n x ++ [sep]) [sep] 0 = n := by
    have h := (find_first (Nat.zero_le _) (show Replace.first [sep]
      ((List.replicate n x ++ [sep]).drop 0) = _ from hfirst)).1
    rw [h, List.length_replicate, Nat.zero_add]
  have hround : CmdStr.splitRound [sep] false (cmd.clear, List.replicate n x ++ [sep]) =
      .inr (.ok (cmd.clear.pushBack (List.replicate n x ++ [sep]))) := by
    unfold CmdStr.splitRound
    dsimp only
    rw [hfind, if_neg (by omega)]
    rfl
  have hresult := (Loop.leaves_leave hround).mp ⟨rounds, hcall⟩
  cases hresult
  refine hps.absent (List.replicate n x ++ [sep]) (List.mem_singleton_self _) ?_
  exact List.infix_append_right

theorem comma_far_off :
    ¬ SplitsRight ⟨[]⟩ (List.replicate 2147483648 97 ++ [comma]) [comma] false :=
  split_far_off (by decide) ⟨[]⟩ (by decide)

end AsioServer
