import AsioServer.Proofs.Strings
import AsioServer.Ref.Fgets

/-!
# Records read by `FGETS`

Without a marker every call returns what one `fgets` reads. With one it gathers
lines until one of them contains it. What is gathered goes on to be the record as
long as it fits, for a line that fits is read at once; a record that does not fit
has been read when this is found out, and is gone.
-/

namespace AsioServer

namespace Public

/-! ## One round -/

/-- The record ends with this line. -/
def endsBy (endbz : Option Bytes) (line : Bytes) : Bool :=
  match endbz with
  | none => true
  | some endbz => decide (cStr endbz <:+: line)

/-- The state of the loop: `buffer` holds what has been gathered, and there is room for more. -/
structure Gathered (readsize : Int) (acc : Bytes) (s : Bytes × Bytes) : Prop where
  text : Holds s.1 acc
  room : readsize + 1 ≤ s.1.length
  short : acc.length < readsize
  nul : 0 ∉ s.2

section

variable {readsize : Int} {acc l : Bytes} {ls : List Bytes} {s : Bytes × Bytes}

theorem readsize_eq (h2 : 2 ≤ readsize) (hint : InInt (readsize + 1)) :
    (readsize % 4294967296).toNat = readsize.toNat := by
  unfold InInt at hint
  omega

theorem fgets_end (endbz : Option Bytes) (h2 : 2 ≤ readsize) (h : s.2 = []) :
    fgetsRound readsize endbz s = .ok (.inr (false, s)) := by
  have hread : Libc.fgets (List.replicate (readsize + 1).toNat 0) readsize s.2 =
      .ok (none, s.2) := if_pos (.inr ⟨by omega, h⟩)
  rw [fgetsRound, ok_bind hread]
  rfl

/-- What `fgets` reads of the first line. -/
theorem fgets_line (h2 : 2 ≤ readsize) (hnul : 0 ∉ s.2) (h : Lines.lines 10 s.2 = l :: ls) :
    ∃ strline, Libc.fgets (List.replicate (readsize + 1).toNat 0) readsize s.2 =
        .ok (some strline, s.2.drop (l.take (readsize - 1).toNat).length) ∧
      Holds strline (l.take (readsize - 1).toNat) := by
  have hpiece := (Lines.lines_piece h (n := (readsize - 1).toNat) (by omega)).1
  have hline := (Lines.lines_cons h).1
  have hne : s.2 ≠ [] := fun hnil => by
    rw [hnil] at h
    cases h
  have hmem : 0 ∉ l.take (readsize - 1).toNat := fun h0 => hnul (by
    rw [hline]
    exact List.mem_append_left _ (List.mem_of_mem_take h0))
  have hfit : (l.take (readsize - 1).toNat).length <
      (List.replicate (readsize + 1).toNat (0 : UInt8)).length := by
    rw [List.length_take, List.length_replicate]
    omega
  obtain ⟨strline, hcopy, -, hholds⟩ := copyInto_front hmem hfit
  refine ⟨strline, ?_, hholds⟩
  have hgo : ¬ (readsize ≤ 0 ∨ readsize ≠ 1 ∧ s.2 = []) := fun hstop =>
    hstop.elim (by omega) fun hend => hne hend.2
  rw [Libc.fgets, if_neg hgo, hpiece]
  exact ok_bind hcopy _

/-- What has been read does not fit. -/
theorem fgetsRound_full (endbz : Option Bytes) (h2 : 2 ≤ readsize) (hint : InInt (readsize + 1))
    (hs : Gathered readsize acc s) (h : Lines.lines 10 s.2 = l :: ls)
    (hlong : readsize ≤ acc.length + (l.take (readsize - 1).toNat).length) :
    fgetsRound readsize endbz s =
      .ok (.inr (false, s.1, s.2.drop (l.take (readsize - 1).toNat).length)) := by
  obtain ⟨strline, hread, hholds⟩ := fgets_line h2 hs.nul h
  rw [fgetsRound, ok_bind hread]
  dsimp only
  rw [ok_bind hs.text.strlen, ok_bind hholds.strlen, readsize_eq h2 hint, if_pos (by omega)]
  rfl

/-- What has been read goes behind what was gathered. -/
theorem fgetsRound_fits (endbz : Option Bytes) (h2 : 2 ≤ readsize) (hint : InInt (readsize + 1))
    (hs : Gathered readsize acc s) (h : Lines.lines 10 s.2 = l :: ls)
    (hshort : acc.length + (l.take (readsize - 1).toNat).length < readsize) :
    ∃ buffer, Gathered readsize (acc ++ l.take (readsize - 1).toNat)
        (buffer, s.2.drop (l.take (readsize - 1).toNat).length) ∧
      fgetsRound readsize endbz s =
        .ok (if endsBy endbz (l.take (readsize - 1).toNat) then
          .inr (true, buffer, s.2.drop (l.take (readsize - 1).toNat).length)
        else .inl (buffer, s.2.drop (l.take (readsize - 1).toNat).length)) := by
  obtain ⟨strline, hread, hholds⟩ := fgets_line h2 hs.nul h
  have hroom := hs.room
  obtain ⟨buffer, hcopy, hlen, hbuffer⟩ :=
    copyInto_holds hs.text.take (nul_notMem_append hs.text.1 hholds.1) (by omega)
  have hcat : Libc.strcat s.1 strline = .ok buffer := by
    rw [Libc.strcat, ok_bind hs.text.strlen, hholds.cStr, hcopy]
  refine ⟨buffer, ⟨hbuffer, by rw [hlen]; exact hs.room, by rw [List.length_append]; omega,
    fun h0 => hs.nul (List.mem_of_mem_drop h0)⟩, ?_⟩
  rw [fgetsRound, ok_bind hread]
  dsimp only
  rw [ok_bind hs.text.strlen, ok_bind hholds.strlen, readsize_eq h2 hint, if_neg (by omega),
    ok_bind hcat]
  cases endbz with
  | none => rfl
  | some endbz =>
      have hfound : (strstr (cStr strline) (cStr endbz)).isSome =
          endsBy (some endbz) (l.take (readsize - 1).toNat) := by
        rw [hholds.cStr, endsBy, Bool.eq_iff_iff, decide_eq_true_eq, Option.isSome_iff_ne_none,
          Ne, strstr, Replace.first_eq_none, not_not]
      dsimp only
      rw [hfound]
      split <;> rfl

/-- Something has been read. -/
theorem rest_lt (h2 : 2 ≤ readsize) (h : Lines.lines 10 s.2 = l :: ls) :
    (s.2.drop (l.take (readsize - 1).toNat).length).length < s.2.length := by
  have hl := List.length_pos_iff.mpr (Lines.lines_ne_nil (h ▸ List.mem_cons_self))
  have hline := congrArg List.length (Lines.lines_cons h).1
  rw [List.length_append] at hline
  rw [List.length_drop, List.length_take]
  omega

/-- A round that does not leave reads something. -/
theorem fgetsRound_again {endbz : Option Bytes} (h2 : 2 ≤ readsize) (hint : InInt (readsize + 1))
    (hs : Gathered readsize acc s) {s' : Bytes × Bytes}
    (h : fgetsRound readsize endbz s = .ok (.inl s')) :
    (∃ acc', Gathered readsize acc' s') ∧ s'.2.length < s.2.length := by
  cases hls : Lines.lines 10 s.2 with
  | nil =>
      rw [fgets_end endbz h2 (Lines.eq_nil_of_lines hls)] at h
      cases h
  | cons l ls =>
      by_cases hlong : readsize ≤ acc.length + (l.take (readsize - 1).toNat).length
      · rw [fgetsRound_full endbz h2 hint hs hls hlong] at h
        cases h
      · obtain ⟨buffer, hnext, hround⟩ :=
          fgetsRound_fits endbz h2 hint hs hls (by omega)
        rw [hround] at h
        split at h
        · cases h
        · cases h
          exact ⟨⟨_, hnext⟩, rest_lt h2 hls⟩

/-! ## A whole call -/

/-- A record that fits is returned. -/
theorem fgetsLoop_record (h2 : 2 ≤ readsize) (hint : InInt (readsize + 1)) {e : Bytes}
    {r : Bytes} {rs : List Bytes} (hs : Gathered readsize acc s)
    (h : Lines.records (endsBy (some e)) acc (Lines.lines 10 s.2) = r :: rs)
    (hr : r.length < readsize) :
    ∃ buffer fp, Loop.Leaves (Loop.orFail (fgetsRound readsize (some e))) s
        (.ok (true, buffer, fp)) ∧
      Holds buffer r ∧ fp <:+ s.2 ∧
      Lines.records (endsBy (some e)) [] (Lines.lines 10 fp) = rs := by
  induction hls : Lines.lines 10 s.2 generalizing acc s with
  | nil =>
      rw [hls] at h
      cases h
  | cons l ls ih =>
      rw [hls, Lines.records] at h
      have hfit : acc.length + l.length < readsize := by
        split at h
        · cases h
          rw [List.length_append] at hr
          omega
        · have hle := Lines.le_of_records h
          rw [List.length_append] at hle
          omega
      have hwhole : l.take (readsize - 1).toNat = l := List.take_of_length_le (by omega)
      have hrest := (Lines.lines_piece hls (n := (readsize - 1).toNat) (by omega)).2
      obtain ⟨buffer, hnext, hround⟩ := fgetsRound_fits (some e) h2 hint hs hls
        (by rw [hwhole]; omega)
      rw [hwhole] at hnext hround hrest
      rw [if_pos (by omega)] at hrest
      cases hends : endsBy (some e) l with
      | true =>
          rw [hends] at h hround
          cases h
          exact ⟨buffer, _, (Loop.leaves_leave (Loop.orFail_leave.mpr hround)).mpr rfl,
            hnext.text, List.drop_suffix _ _, by rw [hrest]⟩
      | false =>
          rw [hends] at h hround
          obtain ⟨buffer', fp, hleaves, hholds, hsuffix, hrs⟩ :=
            ih hnext (by rw [hrest]; exact h) hrest
          exact ⟨buffer', fp, (Loop.leaves_again (Loop.orFail_again.mpr hround)).mpr hleaves, hholds,
            hsuffix.trans (List.drop_suffix _ _), hrs⟩

theorem endsBy_part {e l' : Bytes} (h : endsBy (some e) l = false) (hin : l' <:+: l) :
    endsBy (some e) l' = false := by
  have hnot : ¬ cStr e <:+: l := of_decide_eq_false h
  exact decide_eq_false fun h' => hnot (h'.trans hin)

/-- Without a record in what is left the call fails, and no record comes to be. -/
theorem fgetsLoop_none (h2 : 2 ≤ readsize) (hint : InInt (readsize + 1)) {e : Bytes}
    (hs : Gathered readsize acc s)
    (h : ∀ l ∈ Lines.lines 10 s.2, endsBy (some e) l = false) :
    ∃ buffer fp, Loop.Leaves (Loop.orFail (fgetsRound readsize (some e))) s
        (.ok (false, buffer, fp)) ∧
      fp <:+ s.2 ∧ ∀ l ∈ Lines.lines 10 fp, endsBy (some e) l = false := by
  induction hn : s.2.length using Nat.strongRecOn generalizing acc s with
  | _ n ih =>
      cases hls : Lines.lines 10 s.2 with
      | nil =>
          have hround := fgets_end (some e) h2 (Lines.eq_nil_of_lines hls)
          exact ⟨s.1, s.2, (Loop.leaves_leave (Loop.orFail_leave.mpr hround)).mpr rfl,
            List.suffix_refl _, h⟩
      | cons l ls =>
          rw [hls, List.forall_mem_cons] at h
          have hends := endsBy_part h.1 (List.take_prefix (readsize - 1).toNat l).isInfix
          have hrest : ∀ l' ∈ Lines.lines 10 (s.2.drop (l.take (readsize - 1).toNat).length),
              endsBy (some e) l' = false := by
            rw [(Lines.lines_piece hls (by omega)).2]
            split
            · exact h.2
            · exact List.forall_mem_cons.mpr
                ⟨endsBy_part h.1 (List.drop_suffix (readsize - 1).toNat l).isInfix, h.2⟩
          by_cases hlong : readsize ≤ acc.length + (l.take (readsize - 1).toNat).length
          · have hround := fgetsRound_full (some e) h2 hint hs hls hlong
            exact ⟨s.1, _, (Loop.leaves_leave (Loop.orFail_leave.mpr hround)).mpr rfl,
              List.drop_suffix _ _, hrest⟩
          · obtain ⟨buffer, hnext, hround⟩ :=
              fgetsRound_fits (some e) h2 hint hs hls (by omega)
            rw [hends] at hround
            obtain ⟨buffer', fp, hleaves, hsuffix, hnone⟩ :=
              ih _ (by rw [← hn]; exact rest_lt h2 hls) hnext hrest rfl
            exact ⟨buffer', fp, (Loop.leaves_again (Loop.orFail_again.mpr hround)).mpr hleaves,
              hsuffix.trans (List.drop_suffix _ _), hnone⟩

/-- The loop begins with an empty `buffer`, and every call leaves it. -/
theorem fgets_begin (endbz : Option Bytes) (h2 : 2 ≤ readsize) (hint : InInt (readsize + 1))
    {fp buffer : Bytes} (hnul : 0 ∉ fp) (hroom : readsize + 1 ≤ buffer.length) :
    ∃ buffer₀, Gathered readsize [] (buffer₀, fp) ∧ ∀ {rounds : Nat}, fp.length < rounds → ∀ {r},
      Loop.Leaves (Loop.orFail (fgetsRound readsize endbz)) (buffer₀, fp) r →
        fgets rounds fp buffer readsize endbz = some r := by
  have hsize : sizeT (readsize + 1) = (readsize + 1).toNat := by
    unfold InInt at hint
    unfold sizeT
    omega
  obtain ⟨hset, hlen⟩ :=
    Libc.memset_eq (show (readsize + 1).toNat ≤ buffer.length by omega)
  rw [← hsize] at hset hlen
  have hempty : Gathered readsize [] (List.replicate (sizeT (readsize + 1)) 0 ++
      buffer.drop (sizeT (readsize + 1)), fp) :=
    ⟨holds_zeros List.not_mem_nil (by omega) _, by dsimp only; omega,
      by rw [List.length_nil]; omega, hnul⟩
  refine ⟨_, hempty, fun hrounds r hleaves => ?_⟩
  rw [fgets, if_neg (not_not.mpr hint), hset]
  exact hleaves.run (I := fun s => ∃ acc, Gathered readsize acc s) (fun s => s.2.length)
    (fun s s' ⟨acc, hs⟩ h => fgetsRound_again h2 hint hs (Loop.orFail_again.mp h)) ⟨[], hempty⟩
    hrounds

end

/-! ## Calls on one stream -/

/-- The complete records of a text: its lines, the long ones in parts, or what goes up to the
lines with the marker. -/
def fileRecords (readsize : Int) (endbz : Option Bytes) (content : Bytes) : List Bytes :=
  match endbz with
  | none => (Lines.lines 10 content).flatMap (Lines.chunks (readsize - 1).toNat)
  | some endbz => Lines.records (endsBy (some endbz)) [] (Lines.lines 10 content)

/-- What calls one after the other return, each with a `buffer` of its own: the string in it,
or nothing where the call returns false. -/
def fgetsAll (rounds : Nat) (readsize : Int) (endbz : Option Bytes) :
    List Bytes → Bytes → Option (Except Fault (List (Option Bytes)))
  | [], _ => some (.ok [])
  | buffer :: buffers, fp =>
      match fgets rounds fp buffer readsize endbz with
      | none => none
      | some (.error f) => some (.error f)
      | some (.ok (res, buffer, fp)) =>
          (fgetsAll rounds readsize endbz buffers fp).map fun rest =>
            rest.map ((if res then some (cStr buffer) else none) :: ·)

/-- What so many calls are to return: the records, and nothing when there is none left. -/
def returned : Nat → List Bytes → List (Option Bytes)
  | 0, _ => []
  | n + 1, [] => none :: returned n []
  | n + 1, r :: rs => some r :: returned n rs

/-- However many calls are made, they return the records one after the other, and false from
the first call on for which there is none left. -/
def ReturnsRecords (readsize : Int) (endbz : Option Bytes) (content : Bytes) : Prop :=
  ∃ rounds, ∀ buffers : List Bytes, (∀ buffer ∈ buffers, readsize + 1 ≤ buffer.length) →
    fgetsAll rounds readsize endbz buffers content =
      some (.ok (returned buffers.length (fileRecords readsize endbz content)))

section

variable {readsize : Int} {endbz : Option Bytes} {fp buffer : Bytes} {rounds : Nat}

theorem fileRecords_line (h2 : 2 ≤ readsize) {l : Bytes} {ls : List Bytes}
    (h : Lines.lines 10 fp = l :: ls) :
    fileRecords readsize none fp = l.take (readsize - 1).toNat ::
      fileRecords readsize none (fp.drop (l.take (readsize - 1).toNat).length) := by
  have hpos : 0 < (readsize - 1).toNat := by omega
  have hl : l ≠ [] := Lines.lines_ne_nil (h ▸ List.mem_cons_self)
  have hrest := (Lines.lines_piece h hpos).2
  rw [fileRecords, fileRecords, h, List.flatMap_cons, Lines.chunks_cons hl hpos, hrest,
    List.cons_append]
  split
  · next hle => rw [List.drop_of_length_le hle, Lines.chunks_nil, List.nil_append]
  · rw [List.flatMap_cons]

/-- A call returns the first record and leaves the others. -/
theorem fgets_record (h2 : 2 ≤ readsize) (hint : InInt (readsize + 1)) (hnul : 0 ∉ fp)
    (hroom : readsize + 1 ≤ buffer.length) (hrounds : fp.length < rounds) {r : Bytes}
    {rs : List Bytes} (h : fileRecords readsize endbz fp = r :: rs) (hr : r.length < readsize) :
    ∃ buffer' fp', fgets rounds fp buffer readsize endbz = some (.ok (true, buffer', fp')) ∧
      cStr buffer' = r ∧ fp' <:+ fp ∧ fileRecords readsize endbz fp' = rs := by
  obtain ⟨buffer₀, hbegin, hcall⟩ := fgets_begin endbz h2 hint hnul hroom
  cases endbz with
  | some e =>
      obtain ⟨buffer', fp', hleaves, hholds, hsuffix, hrs⟩ :=
        fgetsLoop_record h2 hint hbegin h hr
      exact ⟨buffer', fp', hcall hrounds hleaves, hholds.cStr, hsuffix, hrs⟩
  | none =>
      cases hls : Lines.lines 10 fp with
      | nil =>
          rw [fileRecords, hls] at h
          cases h
      | cons l ls =>
          rw [fileRecords_line h2 hls] at h
          obtain ⟨buffer', hnext, hround⟩ := fgetsRound_fits none h2 hint hbegin hls
            (by rw [List.length_nil, List.length_take]; omega)
          have hleaves := (Loop.leaves_leave (Loop.orFail_leave.mpr hround)).mpr rfl
          refine ⟨buffer', _, hcall hrounds hleaves, ?_, List.drop_suffix _ _, (List.cons.inj h).2⟩
          rw [hnext.text.cStr, List.nil_append, (List.cons.inj h).1]

/-- Without a record a call fails. -/
theorem fgets_none (h2 : 2 ≤ readsize) (hint : InInt (readsize + 1)) (hnul : 0 ∉ fp)
    (hroom : readsize + 1 ≤ buffer.length) (hrounds : fp.length < rounds)
    (h : fileRecords readsize endbz fp = []) :
    ∃ buffer' fp', fgets rounds fp buffer readsize endbz = some (.ok (false, buffer', fp')) ∧
      fp' <:+ fp ∧ fileRecords readsize endbz fp' = [] := by
  obtain ⟨buffer₀, hbegin, hcall⟩ := fgets_begin endbz h2 hint hnul hroom
  cases endbz with
  | some e =>
      obtain ⟨buffer', fp', hleaves, hsuffix, hnone⟩ :=
        fgetsLoop_none h2 hint hbegin (Lines.records_eq_nil.mp h)
      exact ⟨buffer', fp', hcall hrounds hleaves, hsuffix, Lines.records_eq_nil.mpr hnone⟩
  | none =>
      cases hls : Lines.lines 10 fp with
      | nil =>
          have hround := fgets_end none (s := (buffer₀, fp)) h2
            (Lines.eq_nil_of_lines hls)
          exact ⟨buffer₀, fp, hcall hrounds
            ((Loop.leaves_leave (Loop.orFail_leave.mpr hround)).mpr rfl), List.suffix_refl _, h⟩
      | cons l ls =>
          rw [fileRecords_line h2 hls] at h
          cases h

theorem fgetsAll_records (h2 : 2 ≤ readsize) (hint : InInt (readsize + 1)) (hnul : 0 ∉ fp)
    (hrounds : fp.length < rounds) (hfit : ∀ r ∈ fileRecords readsize endbz fp, r.length < readsize)
    {buffers : List Bytes} (hroom : ∀ buffer ∈ buffers, readsize + 1 ≤ buffer.length) :
    fgetsAll rounds readsize endbz buffers fp =
      some (.ok (returned buffers.length (fileRecords readsize endbz fp))) := by
  induction buffers generalizing fp with
  | nil => rfl
  | cons buffer buffers ih =>
      rw [List.forall_mem_cons] at hroom
      have hnext : ∀ {fp' : Bytes}, fp' <:+ fp → 0 ∉ fp' ∧ fp'.length < rounds := fun hsuffix =>
        ⟨fun h0 => hnul (hsuffix.subset h0), Nat.lt_of_le_of_lt hsuffix.length_le hrounds⟩
      rw [fgetsAll]
      cases hrecords : fileRecords readsize endbz fp with
      | nil =>
          obtain ⟨buffer', fp', hcall, hsuffix, hnone⟩ :=
            fgets_none h2 hint hnul hroom.1 hrounds hrecords
          obtain ⟨hnul', hrounds'⟩ := hnext hsuffix
          have hrest := ih hnul' hrounds' (by rw [hnone]; exact List.forall_mem_nil _) hroom.2
          rw [hnone] at hrest
          rw [hcall]
          dsimp only
          rw [hrest]
          rfl
      | cons r rs =>
          rw [hrecords, List.forall_mem_cons] at hfit
          obtain ⟨buffer', fp', hcall, htext, hsuffix, hrs⟩ :=
            fgets_record h2 hint hnul hroom.1 hrounds hrecords hfit.1
          obtain ⟨hnul', hrounds'⟩ := hnext hsuffix
          have hrest := ih hnul' hrounds' (by rw [hrs]; exact hfit.2) hroom.2
          rw [hrs] at hrest
          rw [hcall]
          dsimp only
          rw [hrest, if_pos rfl, htext]
          rfl

/-- A text that a call returns is shorter than `readsize`. -/
theorem fgetsRound_short (h2 : 2 ≤ readsize) (hint : InInt (readsize + 1)) {s : Bytes × Bytes}
    {buffer fp : Bytes} (h : fgetsRound readsize endbz s = .ok (.inr (true, buffer, fp))) :
    (cStr buffer).length < readsize := by
  obtain ⟨⟨strline, fp₁⟩, -, h⟩ := bind_eq_ok.mp h
  cases strline with
  | none => cases h
  | some strline =>
      obtain ⟨n, hn, h⟩ := bind_eq_ok.mp h
      obtain ⟨m, hm, h⟩ := bind_eq_ok.mp h
      split at h
      · cases h
      · next hshort =>
          obtain ⟨buffer₁, hcat, h⟩ := bind_eq_ok.mp h
          have hsum := (Libc.strcat_inv hcat).2.cStr
          have hbuffer : buffer₁ = buffer := by
            cases endbz with
            | none =>
                cases h
                rfl
            | some e =>
                dsimp only at h
                split at h
                · cases h
                  rfl
                · cases h
          rw [(holds_of_strlen hn).2, (holds_of_strlen hm).2, readsize_eq h2 hint] at hshort
          rw [← hbuffer, hsum, List.length_append]
          omega

theorem fgetsAll_short (h2 : 2 ≤ readsize) (hint : InInt (readsize + 1)) {buffers : List Bytes}
    {results : List (Option Bytes)} {r : Bytes}
    (h : fgetsAll rounds readsize endbz buffers fp = some (.ok results)) (hr : some r ∈ results) :
    r.length < readsize := by
  induction buffers generalizing fp results with
  | nil =>
      cases h
      exact absurd hr List.not_mem_nil
  | cons buffer buffers ih =>
      rw [fgetsAll] at h
      split at h
      · cases h
      · cases h
      · next res buffer' fp' hcall =>
          obtain ⟨rest, hrest, h⟩ := Option.map_eq_some_iff.mp h
          cases rest with
          | error f => cases h
          | ok rest =>
              cases h
              rcases List.mem_cons.mp hr with hhead | htail
              · cases res with
                | false => cases hhead
                | true =>
                    rw [if_pos rfl] at hhead
                    rw [Option.some.inj hhead]
                    unfold fgets at hcall
                    rw [if_neg (not_not.mpr hint)] at hcall
                    split at hcall
                    · cases hcall
                    · have hleaves : Loop.Leaves (Loop.orFail (fgetsRound readsize endbz)) _ _ :=
                        ⟨rounds, hcall⟩
                      obtain ⟨s, -, hlast⟩ :=
                        hleaves.rule (I := fun _ => True) (fun _ _ _ _ => trivial) trivial
                      exact fgetsRound_short h2 hint (Loop.orFail_leave.mp hlast)
              · exact ih hrest htail

theorem some_mem_returned {r : Bytes} {rs : List Bytes} (h : r ∈ rs) :
    some r ∈ returned rs.length rs := by
  induction rs with
  | nil => exact absurd h List.not_mem_nil
  | cons r' rs ih =>
      rcases List.mem_cons.mp h with rfl | hmem
      · exact List.mem_cons_self
      · exact List.mem_cons_of_mem _ (ih hmem)

/-- Only a buffer that has room for one byte more can be asked for. -/
theorem fgetsAll_overflow (h : ¬ InInt (readsize + 1)) (buffer : Bytes) :
    fgetsAll rounds readsize endbz [buffer] fp = some (.error .outOfBounds) := by
  have hcall : fgets rounds fp buffer readsize endbz = some (.error .outOfBounds) := if_pos h
  rw [fgetsAll, hcall]

theorem returnsRecords_iff (h2 : 2 ≤ readsize) (hnul : 0 ∉ fp) :
    ReturnsRecords readsize endbz fp ↔
      InInt (readsize + 1) ∧ ∀ r ∈ fileRecords readsize endbz fp, r.length < readsize := by
  have hroom : ∀ n, ∀ buffer ∈ List.replicate n (List.replicate (readsize + 1).toNat (0 : UInt8)),
      readsize + 1 ≤ buffer.length := fun n buffer hmem => by
    rw [List.eq_of_mem_replicate hmem, List.length_replicate]
    omega
  constructor
  · rintro ⟨rounds, h⟩
    have hint : InInt (readsize + 1) := by
      by_contra hnot
      have hone := h _ (hroom 1)
      rw [List.replicate_one, fgetsAll_overflow hnot] at hone
      cases hone
    refine ⟨hint, fun r hr => ?_⟩
    have hall := h _ (hroom (fileRecords readsize endbz fp).length)
    rw [List.length_replicate] at hall
    exact fgetsAll_short h2 hint hall (some_mem_returned hr)
  · rintro ⟨hint, hfit⟩
    exact ⟨fp.length + 1, fun buffers hbuffers =>
      fgetsAll_records h2 hint hnul (Nat.lt_succ_self _) hfit hbuffers⟩

/-- Without a marker the parts of the lines are the whole text. -/
theorem fileRecords_none_flatten (h2 : 2 ≤ readsize) (content : Bytes) :
    (fileRecords readsize none content).flatten = content := by
  have hline : List.flatten ∘ Lines.chunks (readsize - 1).toNat = (id : Bytes → Bytes) :=
    funext fun l => Lines.chunks_flatten (by omega) l
  rw [fileRecords, List.flatMap_def, List.flatten_flatten, List.map_map, hline, List.map_id,
    Lines.lines_flatten]

theorem fileRecords_none_lt (h2 : 2 ≤ readsize) {content r : Bytes}
    (hr : r ∈ fileRecords readsize none content) : r.length < readsize := by
  obtain ⟨l, -, hmem⟩ := List.mem_flatMap.mp hr
  have hle := Lines.length_le_of_mem_chunks hmem
  omega

/-- The records are the text up to the end of the last one. -/
theorem fileRecords_flatten (h2 : 2 ≤ readsize) (endbz : Option Bytes) (content : Bytes) :
    ∃ behind, content = (fileRecords readsize endbz content).flatten ++ behind ∧
      fileRecords readsize endbz behind = [] := by
  cases endbz with
  | none =>
      refine ⟨[], ?_, rfl⟩
      rw [fileRecords_none_flatten h2, List.append_nil]
  | some e =>
      obtain ⟨front, behind, hlines, hflat, hnone⟩ :=
        Lines.records_flatten (endsBy (some e)) (Lines.lines 10 content)
      refine ⟨behind.flatten, ?_, ?_⟩
      · rw [fileRecords, hflat, ← List.flatten_append, ← hlines, Lines.lines_flatten]
      · rw [fileRecords, Lines.lines_flatten_suffix hlines]
        exact hnone

end

/-- `FGETS` returns what it should exactly if no record is too long for it. Without a marker
none is. -/
theorem fgets_returns_iff {readsize : Int} {endbz : Option Bytes} {content : Bytes}
    (h2 : 2 ≤ readsize) (hint : InInt readsize) (hnul : 0 ∉ content) :
    (ReturnsRecords readsize endbz content ↔ readsize ≠ 2147483647 ∧
      (endbz = none ∨ ∀ r ∈ fileRecords readsize endbz content, r.length < readsize)) ∧
    ∃ behind, content = (fileRecords readsize endbz content).flatten ++ behind ∧
      fileRecords readsize endbz behind = [] := by
  have hroom : InInt (readsize + 1) ↔ readsize ≠ 2147483647 := by
    unfold InInt at hint ⊢
    omega
  have hparts : endbz = none → ∀ r ∈ fileRecords readsize endbz content, r.length < readsize := by
    rintro rfl r hr
    exact fileRecords_none_lt h2 hr
  refine ⟨?_, fileRecords_flatten h2 endbz content⟩
  rw [returnsRecords_iff h2 hnul, hroom]
  exact and_congr_right fun _ => ⟨.inr, fun h => h.elim hparts id⟩

theorem fgets_returns_iff_two_records :
    ReturnsRecords 10 (some (ascii "<e>")) (ascii "a\nb<e>\nc<e>") :=
  (fgets_returns_iff (by decide) (by decide) (by decide)).1.mpr ⟨by decide, .inr (by decide)⟩

/-- A record of three lines does not fit: it is gone, and the one behind it is still there. -/
theorem long_record_dropped :
    fileRecords 10 (some (ascii "<e>")) (ascii "one\ntwo\n<e>\nx<e>\n") =
        [ascii "one\ntwo\n<e>\n", ascii "x<e>\n"] ∧
      fgetsAll 4 10 (some (ascii "<e>")) [List.replicate 11 0, List.replicate 11 0]
        (ascii "one\ntwo\n<e>\nx<e>\n") = some (.ok [none, some (ascii "x<e>\n")]) ∧
      ¬ ReturnsRecords 10 (some (ascii "<e>")) (ascii "one\ntwo\n<e>\nx<e>\n") := by
  refine ⟨by decide, by decide, fun h => ?_⟩
  have hfit := (returnsRecords_iff (by decide) (by decide)).mp h
  exact absurd hfit.2 (by decide)

end Public

end AsioServer
