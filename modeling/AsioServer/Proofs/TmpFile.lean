import AsioServer.Lib.Machine
import AsioServer.Proofs.Paths
import AsioServer.Ref.CFile

/-!
# The temporary file of a `CFile`

Every operation begins by giving up what is open, and as long as the name in
`m_filenametmp` is that of the open stream it is given up with it. Two exits leave
the name behind: that of `OpenForRename` when the file cannot be opened, and that
of `CloseAndRemove` when the file cannot be removed. An operation that follows
acts on the name as if it were its own.
-/

namespace AsioServer

/-- The call is for the file that was open, opened by `OpenForRename`. -/
def TmpCall.Own : TmpCall → Prop
  | .remove tmp fp => fp = ⟨tmp, true⟩
  | .rename tmp _ fp => fp = ⟨tmp, true⟩

/-- A name in `m_filenametmp` is that of the open stream, and every call was for such a name. -/
structure CFile.OwnsTmp (f : CFile) : Prop where
  owned : f.mFilenametmp ≠ [] → f.mFp = some ⟨f.mFilenametmp, true⟩
  calls : ∀ call ∈ f.calls, call.Own

/-- A file opened by `OpenForRename` has its name in `m_filenametmp`. -/
def CFile.Named (f : CFile) : Prop := ∀ fp, f.mFp = some fp → fp.forRename = true → f.mFilenametmp ≠ []

/-- `OpenForRename` opens its file, and `CloseAndRemove` removes one that it has opened. -/
def CFile.Succeeds (f : CFile) : FileOp → Prop
  | .openForRename _ opened => opened = true
  | .closeAndRemove removed => removed = true ∨ ∀ fp, f.mFp = some fp → fp.forRename = false
  | .openFile _ _ | .close | .closeAndRename _ | .destroy => True

namespace CFile

theorem own_append {f : CFile} (h : f.OwnsTmp) {calls : List TmpCall}
    (hcalls : ∀ call ∈ calls, call.Own) : ∀ call ∈ f.calls ++ calls, call.Own := fun call hcall =>
  (List.mem_append.mp hcall).elim (h.calls call) (hcalls call)

theorem OwnsTmp.unnamed {f : CFile} (h : f.OwnsTmp) (hfp : f.mFp = none) :
    f.mFilenametmp = [] := by
  by_contra hne
  have howned := h.owned hne
  rw [hfp] at howned
  cases howned

/-- After `Close` nothing is open and no name is left, and if there was one it was its own. -/
theorem close_spec {f : CFile} (h : f.OwnsTmp) :
    f.close.mFp = none ∧ f.close.mFilenametmp = [] ∧ (∀ call ∈ f.close.calls, call.Own) := by
  unfold close
  cases hfp : f.mFp with
  | none => exact ⟨hfp, h.unnamed hfp, h.calls⟩
  | some fp =>
      refine ⟨?_, rfl, ?_⟩
      · dsimp only
        split <;> rfl
      · dsimp only
        split
        · next hne =>
            refine own_append h (List.forall_mem_singleton.mpr ?_)
            have howned := h.owned hne
            rw [hfp] at howned
            exact Option.some.inj howned
        · exact h.calls

theorem openForRename_eq (f : CFile) (filename : Bytes) (opened : Bool) :
    ∃ tmp, tmp ≠ [] ∧ f.openForRename filename opened = .ok (opened,
      { f.close with
        mFilename := (cStr filename).take 300
        mFilenametmp := tmp
        mFp := if opened then some ⟨tmp, true⟩ else none }) := by
  refine ⟨Public.tmpName (cStr ((cStr filename).take 300)), fun hnil => ?_, ?_⟩
  · have hlen := Public.tmpName_length (cStr ((cStr filename).take 300))
    rw [hnil, List.length_nil] at hlen
    omega
  · unfold openForRename
    rw [ok_bind (Public.snprintf_tmp _)]
    cases opened <;> rfl

/-- What `CloseAndRename` leaves. -/
theorem closeAndRename_spec {f : CFile} (h : f.OwnsTmp) (renamed : Bool) :
    (f.closeAndRename renamed).2.mFp = none ∧ (f.closeAndRename renamed).2.mFilenametmp = [] ∧
      ∀ call ∈ (f.closeAndRename renamed).2.calls, call.Own := by
  unfold closeAndRename
  cases hfp : f.mFp with
  | none => exact ⟨hfp, h.unnamed hfp, h.calls⟩
  | some fp =>
      dsimp only
      split
      · next hnil => exact ⟨rfl, hnil, h.calls⟩
      · next hne =>
          have howned := h.owned hne
          rw [hfp] at howned
          have hfp' := Option.some.inj howned
          have hrename : ∀ call ∈ f.calls ++ [.rename f.mFilenametmp f.mFilename fp], call.Own :=
            own_append h (List.forall_mem_singleton.mpr hfp')
          cases renamed with
          | true => exact ⟨rfl, rfl, hrename⟩
          | false =>
              refine ⟨rfl, rfl, fun call hcall => ?_⟩
              rcases List.mem_append.mp hcall with hcall | hcall
              · exact hrename call hcall
              · rw [List.mem_singleton.mp hcall]
                exact hfp'

/-- `CloseAndRemove` keeps the property unless it cannot remove what `OpenForRename` has opened. -/
theorem closeAndRemove_iff {f : CFile} (hnamed : f.Named) (h : f.OwnsTmp) (removed : Bool) :
    (f.closeAndRemove removed).2.OwnsTmp ↔ f.Succeeds (.closeAndRemove removed) := by
  unfold closeAndRemove Succeeds
  cases hfp : f.mFp with
  | none => exact iff_of_true h (Or.inr nofun)
  | some fp =>
      cases removed with
      | true => exact iff_of_true ⟨fun hne => absurd rfl hne, h.calls⟩ (Or.inl rfl)
      | false =>
          cases hrename : fp.forRename with
          | true =>
              refine iff_of_false (fun howns => ?_) fun hsucceeds => ?_
              · cases howns.owned (hnamed fp hfp hrename)
              · rcases hsucceeds with htrue | hnot
                · cases htrue
                · rw [hnot fp rfl] at hrename
                  cases hrename
          | false =>
              -- what is open was opened by `Open`, and there is no name to leave behind
              refine iff_of_true ⟨fun hne => ?_, h.calls⟩ (Or.inr fun fp' hfp' => ?_)
              · have howned := h.owned hne
                rw [hfp] at howned
                rw [Option.some.inj howned] at hrename
                cases hrename
              · rw [← Option.some.inj hfp']
                exact hrename

/-- What a step leaves. -/
theorem step_inv {f f' : CFile} {op : FileOp} (h : f.step op = some f') :
    match op with
    | .openFile filename opened => f' = (f.openFile filename opened).2
    | .openForRename filename opened => ∃ tmp, tmp ≠ [] ∧ f' =
        { f.close with
          mFilename := (cStr filename).take 300
          mFilenametmp := tmp
          mFp := if opened then some ⟨tmp, true⟩ else none }
    | .close => f' = f.close
    | .closeAndRename renamed => f' = (f.closeAndRename renamed).2
    | .closeAndRemove removed => f' = (f.closeAndRemove removed).2
    | .destroy => f' = { f.close with destroyed := true } := by
  unfold step at h
  split at h
  · cases h
  · cases op with
    | openForRename filename opened =>
        obtain ⟨tmp, hne, heq⟩ := openForRename_eq f filename opened
        dsimp only at h
        rw [heq] at h
        cases h
        exact ⟨tmp, hne, rfl⟩
    | openFile _ _ | close | closeAndRename _ | closeAndRemove _ | destroy =>
        cases h
        rfl

/-- A step keeps the property exactly if what it opens or removes can be opened or removed. -/
theorem ownsTmp_step {f f' : CFile} (hnamed : f.Named) (h : f.OwnsTmp) {op : FileOp}
    (hstep : f.step op = some f') : f'.OwnsTmp ↔ f.Succeeds op := by
  obtain ⟨-, hnil, hcalls⟩ := close_spec h
  have hempty : ∀ g : CFile, g.mFilenametmp = [] → (∀ call ∈ g.calls, call.Own) → g.OwnsTmp :=
    fun g hnil hcalls => ⟨fun hne => absurd hnil hne, hcalls⟩
  have hinv := step_inv hstep
  cases op with
  | openFile filename opened =>
      cases hinv
      refine iff_of_true (hempty _ ?_ ?_) trivial
      · unfold openFile
        dsimp only
        split <;> exact hnil
      · unfold openFile
        dsimp only
        split <;> exact hcalls
  | openForRename filename opened =>
      obtain ⟨tmp, hne, rfl⟩ := hinv
      cases opened with
      | true => exact iff_of_true ⟨fun _ => rfl, hcalls⟩ rfl
      | false =>
          refine iff_of_false (fun howns => ?_) Bool.false_ne_true
          cases howns.owned hne
  | close =>
      cases hinv
      exact iff_of_true (hempty _ hnil hcalls) trivial
  | closeAndRename renamed =>
      cases hinv
      obtain ⟨-, hnil', hcalls'⟩ := closeAndRename_spec h renamed
      exact iff_of_true (hempty _ hnil' hcalls') trivial
  | closeAndRemove removed =>
      cases hinv
      exact closeAndRemove_iff hnamed h removed
  | destroy =>
      cases hinv
      exact iff_of_true (hempty _ hnil hcalls) trivial

theorem named_step {f f' : CFile} (h : f.OwnsTmp) {op : FileOp}
    (hstep : f.step op = some f') : f'.Named := by
  have hnone : ∀ g : CFile, g.mFp = none → g.Named := fun g hg fp hfp => by
    rw [hg] at hfp
    cases hfp
  have hclose := (close_spec h).1
  have hinv := step_inv hstep
  cases op with
  | openFile filename opened =>
      cases hinv
      unfold openFile
      cases opened with
      | false => exact hnone _ rfl
      | true =>
          intro fp hfp hrename
          cases hfp
          cases hrename
  | openForRename filename opened =>
      obtain ⟨tmp, hne, rfl⟩ := hinv
      exact fun _ _ _ => hne
  | close =>
      cases hinv
      exact hnone _ hclose
  | closeAndRename renamed =>
      cases hinv
      exact hnone _ (closeAndRename_spec h renamed).1
  | closeAndRemove removed =>
      cases hinv
      unfold closeAndRemove
      cases hfp : f.mFp with
      | none => exact hnone _ hfp
      | some fp => cases removed <;> exact hnone _ rfl
  | destroy =>
      cases hinv
      exact hnone _ hclose

end CFile

theorem ownsTmp_always_iff (ops : List FileOp) :
    Machine.Always CFile.step CFile.OwnsTmp .init ops ↔
      Machine.Meets CFile.step CFile.Succeeds .init ops :=
  Machine.always_iff_meets (I := CFile.Named) (L := fun _ => True)
    (fun _ _ _ _ h _ _ hstep => CFile.named_step h hstep)
    (fun _ _ _ hnamed h _ hstep => CFile.ownsTmp_step hnamed h hstep)
    (fun _ hfp => nomatch hfp) ⟨fun hne => absurd rfl hne, List.forall_mem_nil _⟩
    fun _ _ => trivial

/-- A file that cannot be opened leaves its name, and closing another one removes it. -/
theorem other_tmp_removed :
    Machine.exec CFile.step .init
        [.openForRename (ascii "/a") false, .openFile (ascii "/b") true, .close] =
      some ⟨none, [], [], [.remove (ascii "/a.tmp") ⟨ascii "/b", false⟩], false⟩ ∧
      ¬ Machine.Always CFile.step CFile.OwnsTmp .init
        [.openForRename (ascii "/a") false, .openFile (ascii "/b") true, .close] := by
  have hrun : Machine.exec CFile.step .init
      [.openForRename (ascii "/a") false, .openFile (ascii "/b") true, .close] =
        some ⟨none, [], [], [.remove (ascii "/a.tmp") ⟨ascii "/b", false⟩], false⟩ := rfl
  refine ⟨hrun, fun h => ?_⟩
  have howns := Machine.always_iff.mp h _ [] _ (List.append_nil _).symm hrun
  have hown := howns.calls _ (List.mem_singleton_self _)
  cases hown

end AsioServer
