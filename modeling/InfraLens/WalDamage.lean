import InfraLens.WalRecovery

/-! Replay of a log whose first damage is at a given byte. A frame that ends early stops the
loop with what it has; a frame that is complete and fails its checksum stops it with an error,
and the entries already replayed are lost with it. -/
namespace InfraLens.WalFile
open LibBytes LibBufWriter Crc32

variable (crc : List UInt8 → UInt32)

/-- What can follow the valid frames of a log and not be one: a complete frame that fails its
checksum, with any bytes after it, or a frame that the file ends in. -/
inductive Damaged : List UInt8 → Prop where
  | mismatch (stored : UInt32) (e : WalEntry) (rest : List UInt8)
      (fits : e.data.length < 2 ^ 32) (wrong : crc (e.entryType :: e.data) ≠ stored) :
      Damaged (storedFrame stored e ++ rest)
  | incomplete (tail : List UInt8) (short : ¬ BeginsComplete tail) : Damaged tail

theorem recover_frames (es : List WalEntry) (tail : List UInt8)
    (hes : ∀ e ∈ es, e.data.length < 2 ^ 32) :
    recover crc (some (frames crc es ++ tail)) =
      recoverLoop crc (frames crc es ++ tail).length tail (frames crc es).length
        (es.rtakeWhile notCheckpoint) := by
  have h := recoverLoop_frames crc es tail (frames crc es ++ tail).length 0 [] hes (by simp)
  rw [foldl_replay, Nat.zero_add] at h
  exact h

/-- A complete frame that fails its checksum: replay returns the mismatch, and none of the
entries before it. -/
theorem recover_mismatch (es : List WalEntry) (hes : ∀ e ∈ es, e.data.length < 2 ^ 32)
    (stored : UInt32) (e : WalEntry) (he : e.data.length < 2 ^ 32)
    (hne : crc (e.entryType :: e.data) ≠ stored) (rest : List UInt8) :
    recover crc (some (frames crc es ++ (storedFrame stored e ++ rest))) =
      .error (.walCrcMismatch (frames crc es).length stored.toNat
        (crc (e.entryType :: e.data)).toNat) := by
  have hpos : 0 < (storedFrame stored e).length := by
    simp [storedFrame, frame_length, headerSize]
  rw [recover_frames crc es _ hes, recoverLoop_stored crc _ _ stored e rest _ he, if_pos hne]
  simp only [List.length_append]
  omega

/-- Valid frames and then damage: replay returns the entries of the valid frames after their last
checkpoint exactly when the damaged frame is incomplete. -/
theorem recover_damaged_iff (es : List WalEntry) (tail : List UInt8)
    (hes : ∀ e ∈ es, e.data.length < 2 ^ 32) (hdamaged : Damaged crc tail) :
    recover crc (some (frames crc es ++ tail)) = .ok (es.rtakeWhile notCheckpoint) ↔
      ¬ BeginsComplete tail := by
  cases hdamaged with
  | mismatch stored e rest fits wrong =>
    have hcomplete : BeginsComplete (storedFrame stored e ++ rest) :=
      ⟨stored, e, rest, fits, rfl⟩
    rw [recover_mismatch crc es hes stored e fits wrong rest]
    constructor
    · intro hok
      cases hok
    · intro hincomplete
      exact absurd hcomplete hincomplete
  | incomplete tail short =>
    refine iff_of_true ?_ short
    rw [recover_frames crc es tail hes]
    exact recoverLoop_incomplete crc tail short _ _ _

theorem beginsComplete_length (bytes : List UInt8) (h : BeginsComplete bytes) :
    headerSize ≤ bytes.length := by
  obtain ⟨stored, e, rest, -, hbytes⟩ := h
  rw [hbytes, storedFrame_eq, List.length_append, List.length_append, header_length]
  omega

/-- One entry, and a header cut after three bytes. -/
theorem recover_damaged_short :
    recover crc32 (some (frames crc32 [⟨entrySpan, [3]⟩] ++ [1, 2, 3])) =
      .ok [⟨entrySpan, [3]⟩] := by
  have hshort : ¬ BeginsComplete [1, 2, 3] := by
    intro h
    have hlen := beginsComplete_length _ h
    simp [headerSize] at hlen
  have h := recover_damaged_iff crc32 [⟨entrySpan, [3]⟩] [1, 2, 3] (by decide)
    (.incomplete _ hshort)
  rw [h.mpr hshort]
  decide

/-- One synced entry, and after it a frame of the right length whose one payload byte never
reached the disk: replay returns neither of them but an error. -/
theorem recover_loses_valid_entry :
    crc32 [entryLog, 0] ≠ crc32 [entryLog, 9] ∧
    recover crc32 (some (frames crc32 [⟨entrySpan, [3]⟩] ++
        storedFrame (crc32 [entryLog, 9]) ⟨entryLog, [0]⟩)) =
      .error (.walCrcMismatch 10 (crc32 [entryLog, 9]).toNat (crc32 [entryLog, 0]).toNat) := by
  have hne : crc32 [entryLog, 0] ≠ crc32 [entryLog, 9] := by decide +kernel
  have h := recover_mismatch crc32 [⟨entrySpan, [3]⟩] (by decide) (crc32 [entryLog, 9])
    ⟨entryLog, [0]⟩ (by decide) hne []
  rw [List.append_nil] at h
  exact ⟨hne, h⟩

end InfraLens.WalFile
