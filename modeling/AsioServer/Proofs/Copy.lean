import AsioServer.Proofs.Paths
import AsioServer.Ref.File

/-!
# What `COPY` copies, and when its loop ends

The loop counts what it has read. With reads that give some part of what is left
it ends when the count is the size, if that is not negative as an `int`, and the
copy is the file if no `write` has taken less than it was given and the size has
not been cut. With any other answers the loop ends only if the count happens to
meet the size.
-/

namespace AsioServer.Public

/-! ## Reads that give a part -/

/-- A read of a file of so many bytes gives some of what is asked for and left. -/
def ReadsPart (read : Nat → Nat → Nat → Int) (n : Nat) : Prop :=
  ∀ round offset asked, 0 ≤ read round offset asked ∧
    read round offset asked ≤ (min asked (n - offset) : Nat) ∧
      (0 < min asked (n - offset) → 0 < read round offset asked)

/-- A write takes some of what it is given, or fails. -/
def WritesPart (write : Nat → Nat → Int) : Prop :=
  ∀ round bytes, -1 ≤ write round bytes ∧ write round bytes ≤ bytes

/-- How much has been read after so many rounds. -/
def progress (read : Nat → Nat → Nat → Int) (size : Int) : Nat → Nat
  | 0 => 0
  | i + 1 =>
      progress read size i + (read i (progress read size i) (onread size (progress read size i))).toNat

/-- The write of a round takes all that has been read. -/
def Takes (read : Nat → Nat → Nat → Int) (write : Nat → Nat → Int) (size : Int) (i : Nat) : Prop :=
  let bytes := progress read size (i + 1) - progress read size i
  0 < bytes → write i bytes = bytes

section

variable {read : Nat → Nat → Nat → Int} {write : Nat → Nat → Int} {source : Bytes} {size : Int}

/-- A round in which nothing overflows. -/
theorem copyRound_eq (write : Nat → Nat → Int) (source : Bytes) {s : CopyState} {b : Nat}
    (hrest : InInt (size - s.totalBytes))
    (hread : read s.round s.offset (onread size s.totalBytes) = b) (hbuffer : b ≤ 5000)
    (htotal : InInt (s.totalBytes + b)) {taken : Nat}
    (htaken : taken = if 0 < b then (write s.round b).toNat else 0) :
    copyRound read write source size s =
      if s.totalBytes + b = size then
        .inr (.ok (s.copied ++ ((source.drop s.offset).take b).take taken))
      else .inl ⟨s.round + 1, s.totalBytes + b, s.offset + b,
        s.copied ++ ((source.drop s.offset).take b).take taken⟩ := by
  unfold copyRound
  rw [if_neg (not_not.mpr hrest)]
  dsimp only
  rw [hread, if_neg (show ¬ (5000 : Int) < b by omega), if_neg (not_not.mpr htotal),
    Int.toNat_natCast, htaken]
  simp only [Int.natCast_pos]

/-- What holds at the start of every round. -/
structure Copying (read : Nat → Nat → Nat → Int) (write : Nat → Nat → Int) (source : Bytes)
    (size : Int) (s : CopyState) : Prop where
  total : s.totalBytes = s.offset
  offset : s.offset = progress read size s.round
  le : s.offset ≤ source.length
  before : (s.offset : Int) < size ∨ (s.offset = 0 ∧ size = 0)
  whole : (∀ i < s.round, Takes read write size i) → s.copied = source.take s.offset
  short : ¬ (∀ i < s.round, Takes read write size i) → s.copied.length < s.offset

theorem copying_init (h : 0 ≤ size) : Copying read write source size .init where
  total := rfl
  offset := rfl
  le := Nat.zero_le _
  before := by
    show ((0 : Nat) : Int) < size ∨ ((0 : Nat) = 0 ∧ size = 0)
    omega
  whole _ := rfl
  short h := absurd (fun i hi => absurd hi (Nat.not_lt_zero i)) h

/-- A round asks for no more than the array holds and the file is said to have left. -/
theorem onread_part {total : Nat} (hint : InInt size) (hle : (total : Int) ≤ size) :
    onread size total ≤ 5000 ∧ (onread size total : Int) ≤ size - total ∧
      ((total : Int) < size → 0 < onread size total) := by
  have hrange : -2147483648 ≤ size ∧ size < 2147483648 := hint
  unfold onread
  split
  · omega
  · unfold sizeT
    omega

/-- What a round reads. -/
theorem Copying.reads (hint : InInt size) (hle : size ≤ source.length)
    (hread : ReadsPart read source.length) {s : CopyState}
    (h : Copying read write source size s) :
    ∃ b : Nat, read s.round s.offset (onread size s.totalBytes) = b ∧ b ≤ 5000 ∧
      ((s.offset + b : Nat) : Int) ≤ size ∧ (0 < b ∨ size = 0) ∧
      progress read size (s.round + 1) = s.offset + b := by
  have hbefore := h.before
  have hasked := onread_part hint (show (s.offset : Int) ≤ size by omega)
  rw [← h.total] at hasked
  obtain ⟨hpos, hmost, hsome⟩ := hread s.round s.offset (onread size s.totalBytes)
  obtain ⟨b, hb⟩ := Int.eq_ofNat_of_zero_le hpos
  rw [hb] at hmost hsome
  have hprogress : progress read size (s.round + 1) = s.offset + b := by
    rw [progress, ← h.offset, ← h.total, hb, Int.toNat_natCast]
  have htotal := h.total
  exact ⟨b, hb, by omega, by omega, by omega, hprogress⟩

/-- What the write of a round takes. -/
theorem Copying.takes (hwrite : WritesPart write) {s : CopyState}
    (h : Copying read write source size s) {b : Nat}
    (hprogress : progress read size (s.round + 1) = s.offset + b) :
    ∃ taken ≤ b, taken = (if 0 < b then (write s.round b).toNat else 0) ∧
      (Takes read write size s.round ↔ taken = b) := by
  have hdiff : progress read size (s.round + 1) - progress read size s.round = b := by
    rw [hprogress, ← h.offset]
    omega
  obtain ⟨hfails, hmost⟩ := hwrite s.round b
  refine ⟨_, ?_, rfl, ?_⟩
  · split <;> omega
  · unfold Takes
    dsimp only
    rw [hdiff]
    split <;> omega

/-- A round copies what it reads as far as the write takes it. -/
theorem Copying.step (hint : InInt size) (hle : size ≤ source.length)
    (hread : ReadsPart read source.length) (hwrite : WritesPart write) {s : CopyState}
    (h : Copying read write source size s) :
    ∃ (b : Nat) (copied : Bytes),
      copyRound read write source size s =
        (if ((s.offset + b : Nat) : Int) = size then .inr (.ok copied)
          else .inl ⟨s.round + 1, (s.offset + b : Nat), s.offset + b, copied⟩) ∧
      s.offset + b = progress read size (s.round + 1) ∧ ((s.offset + b : Nat) : Int) ≤ size ∧
      (0 < b ∨ size = 0) ∧
      ((∀ i < s.round + 1, Takes read write size i) → copied = source.take (s.offset + b)) ∧
      (¬ (∀ i < s.round + 1, Takes read write size i) → copied.length < s.offset + b) := by
  obtain ⟨b, hb, hbuffer, hmost, hsome, hprogress⟩ := h.reads hint hle hread
  obtain ⟨taken, htaken_le, htaken, htakes⟩ := h.takes hwrite hprogress
  have hrange : -2147483648 ≤ size ∧ size < 2147483648 := hint
  have hround := copyRound_eq write source
    (show InInt (size - s.totalBytes) by rw [h.total]; unfold InInt; omega) hb hbuffer
    (show InInt (s.totalBytes + b) by rw [h.total]; unfold InInt; omega) htaken
  rw [h.total] at hround
  have hlen : ((source.drop s.offset).take b).length = b := by
    rw [List.length_take, List.length_drop]
    omega
  refine ⟨b, _, hround, hprogress.symm, hmost, hsome, fun hall => ?_, fun hnot => ?_⟩
  · have htook := htakes.mp (hall s.round (Nat.lt_succ_self _))
    rw [h.whole fun i hi => hall i (Nat.lt_succ_of_lt hi), htook,
      List.take_of_length_le (Nat.le_of_eq hlen), List.take_add]
  · rw [List.length_append, List.length_take, hlen]
    by_cases hold : ∀ i < s.round, Takes read write size i
    · have hnow : taken ≠ b := fun htook => hnot fun i hi => by
        rcases Nat.lt_succ_iff_lt_or_eq.mp hi with hlt | rfl
        · exact hold i hlt
        · exact htakes.mpr htook
      rw [h.whole hold, List.length_take]
      omega
    · have hshort := h.short hold
      omega

/-- After the end nothing is read. -/
theorem progress_end (hread : ReadsPart read source.length) {n : Nat}
    (h : progress read size n = source.length) {i : Nat} (hi : n ≤ i) :
    progress read size i = source.length := by
  induction i, hi using Nat.le_induction with
  | base => exact h
  | succ i hi ih =>
      obtain ⟨hpos, hmost, -⟩ := hread i source.length (onread size source.length)
      rw [progress, ih]
      omega

/-- A size that is not negative: the loop ends, and the copy is the file if nothing was lost. -/
theorem copyLoop_ends (hint : InInt size) (hpos : 0 ≤ size) (hle : size ≤ source.length)
    (hread : ReadsPart read source.length) (hwrite : WritesPart write) :
    ∃ copied, Loop.Leaves (copyRound read write source size) .init (.ok copied) ∧
      (copied = source ↔ size = source.length ∧ ∀ i, Takes read write size i) := by
  have hnext : ∀ s s', Copying read write source size s →
      copyRound read write source size s = .inl s' →
        Copying read write source size s' ∧
          source.length - s'.offset < source.length - s.offset := by
    intro s s' hs hround
    obtain ⟨b, copied, heq, hprogress, hmost, hsome, hwhole, hshort⟩ :=
      hs.step hint hle hread hwrite
    rw [heq] at hround
    split at hround
    · cases hround
    · next hne =>
        cases hround
        have hbefore := hs.before
        have hoffset := hs.le
        refine ⟨⟨rfl, hprogress, ?_, ?_, hwhole, hshort⟩, ?_⟩ <;> dsimp only <;> omega
  obtain ⟨r, hr⟩ := Loop.exists_leaves (fun s => source.length - s.offset) hnext (copying_init hpos)
  obtain ⟨s, hs, hlast⟩ := hr.rule (fun s s' hI h => (hnext s s' hI h).1) (copying_init hpos)
  obtain ⟨b, copied, heq, hprogress, hmost, hsome, hwhole, hshort⟩ := hs.step hint hle hread hwrite
  rw [heq] at hlast
  split at hlast
  · next hend =>
      cases hlast
      refine ⟨copied, hr, fun hsame => ?_, fun ⟨hlen, hall⟩ => ?_⟩
      · have hfull : ∀ i < s.round + 1, Takes read write size i := by
          by_contra hnot
          have hlt := hshort hnot
          rw [hsame] at hlt
          omega
        have hcopied := hwhole hfull
        rw [hsame] at hcopied
        have hlen := congrArg List.length hcopied
        rw [List.length_take] at hlen
        refine ⟨by omega, fun i => ?_⟩
        by_cases hi : i < s.round + 1
        · exact hfull i hi
        · have hdone : progress read size (s.round + 1) = source.length := by
            rw [← hprogress]
            omega
          unfold Takes
          dsimp only
          rw [progress_end hread hdone (show s.round + 1 ≤ i + 1 by omega),
            progress_end hread hdone (show s.round + 1 ≤ i by omega)]
          omega
      · rw [hwhole fun i _ => hall i]
        exact List.take_of_length_le (by omega)
  · cases hlast

/-- Nothing but what is read is counted. -/
def Counting (s : CopyState) : Prop := s.totalBytes = s.offset ∧ s.offset < 2147483648

/-- With a negative size a round overflows, or it reads something and counts it. -/
theorem Counting.step (write : Nat → Nat → Int) (hneg : size < 0)
    (hlong : 2147483648 ≤ source.length) (hread : ReadsPart read source.length) {s : CopyState}
    (h : Counting s) :
    (∃ f, copyRound read write source size s = .inr (.error f)) ∨
      ∃ s', copyRound read write source size s = .inl s' ∧ Counting s' ∧
        source.length - s'.offset < source.length - s.offset := by
  obtain ⟨hcount, hsmall⟩ := h
  by_cases hrest : InInt (size - s.totalBytes)
  · obtain ⟨hpos, hmost, hsome⟩ := hread s.round s.offset (onread size s.totalBytes)
    have hasked : 0 < onread size s.totalBytes := by
      have hlow : -2147483648 ≤ size - s.totalBytes := hrest.1
      unfold onread sizeT
      split <;> omega
    obtain ⟨b, hb⟩ := Int.eq_ofNat_of_zero_le hpos
    rw [hb] at hmost hsome
    by_cases hbuffer : b ≤ 5000
    · by_cases htotal : InInt (s.totalBytes + b)
      · have hlt : s.totalBytes + b < 2147483648 := htotal.2
        have hround := copyRound_eq write source hrest hb hbuffer htotal rfl
        refine Or.inr ⟨_, hround.trans (if_neg (by omega)), ⟨?_, ?_⟩, ?_⟩ <;> dsimp only <;> omega
      · refine Or.inl ⟨.outOfBounds, ?_⟩
        unfold copyRound
        rw [if_neg (not_not.mpr hrest)]
        dsimp only
        rw [hb, if_neg (show ¬ (5000 : Int) < b by omega), if_pos htotal]
    · refine Or.inl ⟨.outOfBounds, ?_⟩
      unfold copyRound
      rw [if_neg (not_not.mpr hrest)]
      dsimp only
      rw [hb, if_pos (show (5000 : Int) < b by omega)]
  · exact Or.inl ⟨.outOfBounds, if_pos hrest⟩

/-- A size that is negative as an `int`: as much is asked for as a `size_t` can hold, and the
loop ends in an overflow, of the array or of an `int`. -/
theorem copyLoop_overflows (write : Nat → Nat → Int) (hneg : size < 0)
    (hlong : 2147483648 ≤ source.length)
    (hread : ReadsPart read source.length) :
    ∃ f, Loop.Leaves (copyRound read write source size) .init (.error f) := by
  have hnext : ∀ s s' : CopyState, Counting s →
      copyRound read write source size s = .inl s' →
        Counting s' ∧
          source.length - s'.offset < source.length - s.offset := by
    intro s s' hs h
    rcases hs.step write hneg hlong hread with ⟨f, hf⟩ | ⟨s'', hs'', hkeep⟩
    · rw [hf] at h
      cases h
    · rw [hs''] at h
      cases h
      exact hkeep
  have hinit : Counting .init := ⟨rfl, by decide⟩
  obtain ⟨r, hr⟩ := Loop.exists_leaves (fun s => source.length - s.offset) hnext hinit
  obtain ⟨s, hs, hlast⟩ := hr.rule (fun s s' hI h => (hnext s s' hI h).1) hinit
  rcases hs.step write hneg hlong hread with ⟨f, hf⟩ | ⟨s', hs', -⟩
  · rw [hf] at hlast
    cases hlast
    exact ⟨f, hr⟩
  · rw [hs'] at hlast
    cases hlast

end

/-! ## The whole call -/

/-- Whatever the files, a call that ends says that the copy was made only if it was, and keeps
the destination if it says that it was not. -/
def CopiesRight (calls : CopyCalls) (srcfilename dstfilename source : Bytes) : Prop :=
  ∀ files : Files, files srcfilename = some source → ∀ rounds r,
    copy rounds calls files srcfilename dstfilename = some r →
      ∃ ret files', r = .ok (ret, files') ∧ (ret = true → files' dstfilename = some source) ∧
        (ret = false → files dstfilename ≠ none → files' dstfilename = files dstfilename)

/-- The copy loop is not reached; or the new file can be renamed, the size is one an `int` has
room for and every write takes what it is given; or it cannot, the size is at least not
negative as an `int` and the name of the new file is not that of the destination. -/
def CopySafe (calls : CopyCalls) (dstfilename source : Bytes) : Prop :=
  mkDir calls.sys dstfilename true = true → calls.openSrc = true → calls.openDst = true →
    if rename calls.forRename (tmpName dstfilename) dstfilename 1 then
      source.length < 2147483648 ∧ ∀ i, Takes calls.read calls.write source.length i
    else 0 ≤ int source.length ∧ dstfilename.length ≠ 299

section

variable {calls : CopyCalls} {files : Files} {srcfilename dstfilename source : Bytes}

/-- A call that does not reach the loop changes nothing. -/
theorem copy_early (hsrc : files srcfilename = some source) (hnul : 0 ∉ dstfilename)
    (h : ¬ (mkDir calls.sys dstfilename true = true ∧ calls.openSrc = true ∧ calls.openDst = true))
    (rounds : Nat) :
    copy rounds calls files srcfilename dstfilename = some (.ok (false, files)) := by
  unfold copy
  rw [snprintf_tmp, cStr_of_nulFree hnul, hsrc]
  dsimp only
  cases hmk : mkDir calls.sys dstfilename true with
  | false => rw [if_pos rfl]
  | true =>
      rw [if_neg (by decide)]
      cases hopenSrc : calls.openSrc with
      | false => rw [if_pos rfl]
      | true =>
          rw [if_neg (by decide)]
          cases hopenDst : calls.openDst with
          | false => rw [if_pos rfl]
          | true => exact absurd ⟨hmk, hopenSrc, hopenDst⟩ h

/-- What follows the loop. -/
def published (calls : CopyCalls) (files : Files) (dstfilename : Bytes) :
    Except Fault Bytes → Except Fault (Bool × Files)
  | .error f => .error f
  | .ok copied =>
      let files := Function.update files (tmpName dstfilename) (some copied)
      if rename calls.forRename (tmpName dstfilename) dstfilename 1 then
        .ok (true, moved files (tmpName dstfilename) dstfilename)
      else if remove calls.forRemove (tmpName dstfilename) 1 then
        .ok (false, Function.update files (tmpName dstfilename) none)
      else .ok (false, files)

theorem copy_reached (hsrc : files srcfilename = some source) (hnul : 0 ∉ dstfilename)
    (hmk : mkDir calls.sys dstfilename true = true) (hopenSrc : calls.openSrc = true)
    (hopenDst : calls.openDst = true) (rounds : Nat) :
    copy rounds calls files srcfilename dstfilename =
      (Loop.run (copyRound calls.read calls.write source (int source.length)) rounds .init).map
        (published calls files dstfilename) := by
  unfold copy
  rw [snprintf_tmp, cStr_of_nulFree hnul, hsrc, hmk, hopenSrc, hopenDst, if_neg (by decide)]
  dsimp only
  rw [if_neg (by decide), if_neg (by decide), fileSize]
  cases Loop.run (copyRound calls.read calls.write source (int source.length)) rounds .init with
  | none => rfl
  | some r =>
      cases r with
      | error f => rfl
      | ok copied =>
          rw [Option.map_some, published]
          dsimp only
          split
          · rfl
          · split <;> rfl

/-- What the files are once the loop has ended, with the new file renamed. -/
theorem published_true (files : Files)
    (h : rename calls.forRename (tmpName dstfilename) dstfilename 1 = true) (copied : Bytes) :
    ∃ files', published calls files dstfilename (.ok copied) = .ok (true, files') ∧
      files' dstfilename = some copied := by
  refine ⟨_, if_pos h, ?_⟩
  unfold moved
  split
  · next heq => rw [heq, Function.update_self]
  · next hne =>
      rw [Function.update_of_ne (Ne.symm hne), Function.update_self, Function.update_self]

theorem published_false (files : Files)
    (h : rename calls.forRename (tmpName dstfilename) dstfilename 1 = false) (copied : Bytes) :
    ∃ files', published calls files dstfilename (.ok copied) = .ok (false, files') ∧
      (tmpName dstfilename ≠ dstfilename → files' dstfilename = files dstfilename) ∧
      (tmpName dstfilename = dstfilename →
        files' dstfilename = none ∨ files' dstfilename = some copied) := by
  unfold published
  dsimp only
  rw [h, if_neg (by decide)]
  split
  · refine ⟨_, rfl, fun hne => ?_, fun heq => Or.inl ?_⟩
    · rw [Function.update_of_ne (Ne.symm hne), Function.update_of_ne (Ne.symm hne)]
    · rw [heq, Function.update_self]
  · refine ⟨_, rfl, fun hne => ?_, fun heq => Or.inr ?_⟩
    · rw [Function.update_of_ne (Ne.symm hne)]
    · rw [heq, Function.update_self]

/-- What a call has returned is right for the files before it. -/
def Right (files : Files) (dstfilename source : Bytes) (r : Except Fault (Bool × Files)) : Prop :=
  ∃ ret files', r = .ok (ret, files') ∧ (ret = true → files' dstfilename = some source) ∧
    (ret = false → files dstfilename ≠ none → files' dstfilename = files dstfilename)

/-- Once the loop is reached, all is decided by what it leaves with. -/
theorem copiesRight_of_leaves (hnul : 0 ∉ dstfilename)
    (hmk : mkDir calls.sys dstfilename true = true) (hopenSrc : calls.openSrc = true)
    (hopenDst : calls.openDst = true) {r : Except Fault Bytes}
    (h : Loop.Leaves (copyRound calls.read calls.write source (int source.length)) .init r) :
    CopiesRight calls srcfilename dstfilename source ↔ ∀ files : Files,
      files srcfilename = some source →
        Right files dstfilename source (published calls files dstfilename r) := by
  constructor
  · intro hcopies files hfiles
    obtain ⟨rounds, hrun⟩ := h
    refine hcopies files hfiles rounds _ ?_
    rw [copy_reached hfiles hnul hmk hopenSrc hopenDst, hrun, Option.map_some]
  · intro hright files hfiles rounds r' hcopy
    rw [copy_reached hfiles hnul hmk hopenSrc hopenDst] at hcopy
    obtain ⟨result, hrun, rfl⟩ := Option.map_eq_some_iff.mp hcopy
    rw [Loop.Leaves.unique ⟨rounds, hrun⟩ h]
    exact hright files hfiles

/-- A new file that can be renamed must be the copy. -/
theorem right_published_true (hsource : files srcfilename = some source)
    (h : rename calls.forRename (tmpName dstfilename) dstfilename 1 = true) (copied : Bytes) :
    (∀ files : Files, files srcfilename = some source →
      Right files dstfilename source (published calls files dstfilename (.ok copied))) ↔
        copied = source := by
  constructor
  · intro hright
    obtain ⟨files', hpub, hdst⟩ := published_true files h copied
    obtain ⟨ret, files'', hr, htrue, -⟩ := hright files hsource
    rw [hpub] at hr
    cases hr
    rw [htrue rfl, Option.some.injEq] at hdst
    exact hdst.symm
  · rintro rfl files -
    obtain ⟨files', hpub, hdst⟩ := published_true files h copied
    exact ⟨true, files', hpub, fun _ => hdst, nofun⟩

/-- One that cannot must not have been the destination. -/
theorem right_published_false (hsrc : srcfilename ≠ tmpName dstfilename)
    (h : rename calls.forRename (tmpName dstfilename) dstfilename 1 = false) (copied : Bytes) :
    (∀ files : Files, files srcfilename = some source →
      Right files dstfilename source (published calls files dstfilename (.ok copied))) ↔
        dstfilename.length ≠ 299 := by
  constructor
  · intro hright hlen
    have htmp := tmpName_eq_iff.mpr hlen
    -- a destination that held something else
    obtain ⟨files, hfiles, hold⟩ : ∃ files : Files, files srcfilename = some source ∧
        files dstfilename = some (copied ++ [0]) := by
      refine ⟨Function.update (fun _ => some source) dstfilename (some (copied ++ [0])),
        ?_, Function.update_self _ _ _⟩
      rw [Function.update_of_ne (htmp ▸ hsrc)]
    obtain ⟨files', hpub, -, hdst⟩ := published_false files h copied
    obtain ⟨ret, files'', hr, -, hfalse⟩ := hright files hfiles
    rw [hpub] at hr
    cases hr
    have hkept := hfalse rfl (by rw [hold]; exact Option.some_ne_none _)
    rw [hold] at hkept
    rcases hdst htmp with hnone | hsome
    · rw [hnone] at hkept
      cases hkept
    · rw [hsome, Option.some.injEq] at hkept
      have hlonger := congrArg List.length hkept
      rw [List.length_append, List.length_singleton] at hlonger
      omega
  · intro hlen files _
    obtain ⟨files', hpub, hdst, -⟩ := published_false files h copied
    exact ⟨false, files', hpub, nofun, fun _ _ => hdst fun heq => hlen (tmpName_eq_iff.mp heq)⟩

end

theorem copy_right_iff {calls : CopyCalls} {srcfilename dstfilename source : Bytes}
    (hnul : 0 ∉ dstfilename) (hsrc : srcfilename ≠ tmpName dstfilename)
    (hread : ReadsPart calls.read source.length) (hwrite : WritesPart calls.write) :
    CopiesRight calls srcfilename dstfilename source ↔ CopySafe calls dstfilename source := by
  obtain ⟨files, hfiles⟩ : ∃ files : Files, files srcfilename = some source :=
    ⟨fun _ => some source, rfl⟩
  by_cases hreached : mkDir calls.sys dstfilename true = true ∧ calls.openSrc = true ∧
      calls.openDst = true
  · obtain ⟨hmk, hopenSrc, hopenDst⟩ := hreached
    have hint := int_natCast_le source.length
    have hlow : -2147483648 ≤ int source.length := Int.le_bmod (by decide)
    have hsafe : CopySafe calls dstfilename source ↔
        if rename calls.forRename (tmpName dstfilename) dstfilename 1 then
          source.length < 2147483648 ∧ ∀ i, Takes calls.read calls.write source.length i
        else 0 ≤ int source.length ∧ dstfilename.length ≠ 299 :=
      ⟨fun h => h hmk hopenSrc hopenDst, fun h _ _ _ => h⟩
    rw [hsafe]
    by_cases hneg : int source.length < 0
    · -- The loop has no end that is defined.
      have hlong : 2147483648 ≤ source.length := by
        refine Nat.not_lt.mp fun hlt => ?_
        rw [int_eq (by omega) (by omega)] at hneg
        omega
      obtain ⟨f, hleaves⟩ := copyLoop_overflows calls.write hneg hlong hread
      rw [copiesRight_of_leaves hnul hmk hopenSrc hopenDst hleaves]
      refine iff_of_false (fun h => ?_) ?_
      · obtain ⟨ret, files', hr, -⟩ := h files hfiles
        cases hr
      · split <;> omega
    · obtain ⟨copied, hleaves, hcopied⟩ :=
        copyLoop_ends (show InInt (int source.length) from ⟨hlow, hint.2⟩) (by omega) hint.1 hread
          hwrite
      rw [copiesRight_of_leaves hnul hmk hopenSrc hopenDst hleaves]
      cases hren : rename calls.forRename (tmpName dstfilename) dstfilename 1 with
      | true =>
          rw [if_pos rfl, right_published_true hfiles hren, hcopied]
          constructor
          · rintro ⟨hlen, htakes⟩
            rw [hlen] at htakes
            exact ⟨by omega, htakes⟩
          · rintro ⟨hshort, htakes⟩
            rw [int_eq (by omega) (by omega)]
            exact ⟨rfl, htakes⟩
      | false =>
          rw [if_neg (by decide), right_published_false hsrc hren]
          exact ⟨fun hlen => ⟨by omega, hlen⟩, And.right⟩
  · refine iff_of_true (fun files hfiles rounds r hr => ?_) fun hmk hopenSrc hopenDst => ?_
    · rw [copy_early hfiles hnul hreached] at hr
      cases hr
      exact ⟨false, files, rfl, nofun, fun _ _ => rfl⟩
    · exact absurd ⟨hmk, hopenSrc, hopenDst⟩ hreached

/-- Calls that succeed, with reads that give all there is. -/
def wholeReads (n : Nat) (write : Nat → Nat → Int) : CopyCalls :=
  let sys : System := ⟨fun _ => true, fun _ => true, fun _ => none, fun _ => none⟩
  { sys
    openSrc := true
    openDst := true
    read := fun _ offset asked => (min asked (n - offset) : Nat)
    write
    forRename := ⟨sys, fun _ => true, fun _ => true⟩
    forRemove := ⟨sys, fun _ => true, fun _ => true⟩ }

theorem wholeReads_part (n : Nat) (write : Nat → Nat → Int) :
    ReadsPart (wholeReads n write).read n := fun _ _ _ =>
  ⟨Int.natCast_nonneg _, Int.le_refl _, Int.natCast_pos.mpr⟩

theorem copy_right_iff_two_bytes :
    CopiesRight (wholeReads 2 fun _ bytes => bytes) (ascii "/s") (ascii "/d") (ascii "ab") := by
  refine (copy_right_iff (by decide) (by decide) (wholeReads_part 2 _) fun _ bytes => ?_).mpr ?_
  · show -1 ≤ (bytes : Int) ∧ (bytes : Int) ≤ bytes
    omega
  · intro _ _ _
    exact ⟨by decide, fun _ _ => rfl⟩

/-- No write takes anything, as on a full disk. -/
theorem full_disk_copied :
    ReadsPart (wholeReads 2 fun _ _ => -1).read 2 ∧
      WritesPart (wholeReads 2 fun _ _ => -1).write ∧
      ¬ CopiesRight (wholeReads 2 fun _ _ => -1) (ascii "/s") (ascii "/d") (ascii "ab") := by
  refine ⟨wholeReads_part 2 _, fun _ bytes => ?_, fun h => ?_⟩
  · show (-1 : Int) ≤ -1 ∧ (-1 : Int) ≤ bytes
    omega
  · have hrun : Loop.run (copyRound (wholeReads 2 fun _ _ => -1).read
        (wholeReads 2 fun _ _ => -1).write (ascii "ab") (int (ascii "ab").length)) 1 .init =
          some (.ok []) := by
      decide
    have hcall := @copy_reached (wholeReads 2 fun _ _ => -1) (fun _ => some (ascii "ab"))
      (ascii "/s") (ascii "/d") _ rfl (by decide) (by decide) rfl rfl 1
    rw [hrun, Option.map_some] at hcall
    obtain ⟨files', hpub, hdst⟩ := published_true (fun _ => some (ascii "ab"))
      (show rename (wholeReads 2 fun _ _ => -1).forRename (tmpName (ascii "/d")) (ascii "/d") 1 = true
        by decide) []
    obtain ⟨ret, files'', hr, htrue, -⟩ := h _ rfl 1 _ hcall
    rw [hpub] at hr
    cases hr
    rw [htrue rfl] at hdst
    cases hdst

end AsioServer.Public
