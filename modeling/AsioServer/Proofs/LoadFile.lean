import AsioServer.Proofs.Records
import AsioServer.Ref.IniFile

/-!
# `LoadFile` against the file

`FGETS` gets 500 bytes to read and an array of 501, so what one call reads is a line of no
more than 499, or the next 499 bytes of one, and fits in the array that was cleared for
it. So every round moves a part of the file to `m_xmlbuffer`, and none of it is lost.
-/

namespace AsioServer

namespace CIniFile

variable {rounds : Nat} {mXmlbuffer stream : Bytes}

/-- The array that `strLine` is, cleared. -/
theorem strLine_room : (500 : Int) + 1 ≤ (List.replicate 501 (0 : UInt8)).length := by
  rw [List.length_replicate]
  decide

theorem loadRound_end (hrounds : 0 < rounds) :
    loadRound rounds (mXmlbuffer, []) = .inr (some (.ok mXmlbuffer)) := by
  obtain ⟨strLine, stream, hcall, -, -⟩ :=
    Public.fgets_none (show (2 : Int) ≤ 500 by decide) (by decide) List.not_mem_nil
      strLine_room hrounds (show Public.fileRecords 500 none [] = [] from rfl)
  dsimp only [loadRound]
  rw [hcall]

/-- A round moves the next part of the file. -/
theorem loadRound_part (hnul : 0 ∉ stream) (hne : stream ≠ []) (hrounds : stream.length < rounds) :
    ∃ part rest, loadRound rounds (mXmlbuffer, stream) = .inl (mXmlbuffer ++ part, rest) ∧
      stream = part ++ rest ∧ part ≠ [] := by
  have h2 : (2 : Int) ≤ 500 := by decide
  cases hlines : Lines.lines 10 stream with
  | nil => exact absurd (Lines.eq_nil_of_lines hlines) hne
  | cons l ls =>
      have hl : l ≠ [] := Lines.lines_ne_nil (hlines ▸ List.mem_cons_self)
      have hparts := Public.fileRecords_line h2 hlines
      obtain ⟨strLine, rest, hcall, htext, -, hrest⟩ :=
        Public.fgets_record h2 (by decide) hnul strLine_room hrounds hparts
          (Public.fileRecords_none_lt h2 (hparts ▸ List.mem_cons_self))
      refine ⟨l.take ((500 : Int) - 1).toNat, rest, ?_, ?_, ?_⟩
      · dsimp only [loadRound]
        rw [hcall]
        dsimp only
        rw [htext]
      · rw [← Public.fileRecords_none_flatten h2 stream, hparts, List.flatten_cons, ← hrest,
          Public.fileRecords_none_flatten h2]
      · rw [ne_eq, List.take_eq_nil_iff, not_or]
        exact ⟨by decide, hl⟩

/-- The loop leaves all there is in the file behind what there is in `m_xmlbuffer`. -/
theorem loadLoop_eq {n : Nat} (hnul : 0 ∉ stream) (hrounds : stream.length < rounds)
    (hn : stream.length < n) :
    Loop.run (loadRound rounds) n (mXmlbuffer, stream) =
      some (some (.ok (mXmlbuffer ++ stream))) := by
  induction n generalizing mXmlbuffer stream with
  | zero => omega
  | succ n ih =>
      by_cases hstream : stream = []
      · rw [hstream, List.append_nil]
        exact Loop.run_leave (loadRound_end (by omega)) n
      · obtain ⟨part, rest, hround, rfl, hpart⟩ := loadRound_part hnul hstream hrounds
        have hpos := List.length_pos_iff.mpr hpart
        have hnul' : 0 ∉ rest := fun h0 => hnul (List.mem_append_right part h0)
        rw [List.length_append] at hrounds hn
        rw [Loop.run_again hround, ih hnul' (by omega) (by omega), List.append_assoc]

/-- The result, and `m_xmlbuffer`: what is in the file. -/
theorem loadFile_eq {content : Bytes} (hnul : 0 ∉ content) (hrounds : content.length < rounds) :
    loadFile rounds (some content) = some (.ok (decide (10 ≤ content.length), content)) := by
  dsimp only [loadFile]
  rw [loadLoop_eq hnul hrounds hrounds, List.nil_append]
  dsimp only
  split
  · rw [decide_eq_false (by omega)]
  · rw [decide_eq_true (by omega)]

theorem loadFile_content {content : Bytes} (hnul : 0 ∉ content) (hten : 10 ≤ content.length) :
    ∀ rounds > content.length, loadFile rounds (some content) = some (.ok (true, content)) := by
  intro rounds hrounds
  rw [loadFile_eq hnul hrounds, decide_eq_true hten]

theorem loadFile_content_line :
    loadFile 21 (some (ascii "<p>8000</p>
<a>b</a>")) =
      some (.ok (true, ascii "<p>8000</p>
<a>b</a>")) :=
  loadFile_content (by decide) (by decide) 21 (by decide)

end CIniFile

end AsioServer
