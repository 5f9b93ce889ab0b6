import InfraLens.WalRecovery
import InfraLens.LibRun
import InfraLens.Crc32

/-! Several handles on one log file: the engine's buffered handle, whose writes
reach the file one by one, and the handle `flush_immutable` opens for each
checkpoint. No lock is shared between them. -/
namespace InfraLens.WalHandles
open LibBytes LibBufWriter LibRun WalFile Crc32

variable (crc : List UInt8 → UInt32)

structure Log where
  file : List UInt8
  handle : Wal
  /-- Writes of the handle's current call that have not reached the file yet. -/
  pending : List (List UInt8)
  /-- History: the entries appended through the engine's handle, and the bytes
  this handle has put into the file. -/
  log : List WalEntry
  sent : List UInt8

inductive Action where
  | append (entryType : UInt8) (data : List UInt8)
  | sync
  | spill
  | checkpoint

/-- The engine opens its handle on a log that holds the frames of `es`. -/
def start (es : List WalEntry) : Log where
  file := frames crc es
  handle := Wal.open (frames crc es).length
  pending := []
  log := []
  sent := []

def step (s : Log) : Action → Option Log
  -- the engine's calls hold its lock: one starts when the one before has returned
  | .append t d => match s.pending with
    | [] => some { s with
        handle := (s.handle.append crc t d).1
        pending := (s.handle.append crc t d).2.1
        log := s.log ++ [⟨t, d⟩] }
    | _ :: _ => none
  | .sync => match s.pending with
    | [] => some { s with handle := s.handle.sync.1, pending := s.handle.sync.2 }
    | _ :: _ => none
  | .spill => match s.pending with
    | [] => none
    | c :: cs => some { s with file := s.file ++ c, sent := s.sent ++ c, pending := cs }
  -- `flush_immutable`: a fresh handle, one checkpoint, dropped again
  | .checkpoint => some { s with
      file := s.file ++ ((Wal.open s.file.length).checkpoint crc).2.flatten }

theorem open_checkpoint (len : Nat) :
    ((Wal.open len).checkpoint crc).2 = [frame crc checkpointEntry] := by
  have hh : (header crc ⟨entryCheckpoint, []⟩).length = 9 := header_length crc _
  have hne : header crc ⟨entryCheckpoint, []⟩ ≠ [] := by
    intro h
    rw [h] at hh
    contradiction
  simp [Wal.checkpoint, Wal.append, Wal.sync, Wal.open, BufWriter.withCapacity,
    BufWriter.writeAll, BufWriter.spare, BufWriter.flushBuf, hh, hne, frame, checkpointEntry]

/-- What the engine's handle has put into the file ends between two entries. -/
def AtBoundary (s : Log) : Prop := ∃ k, s.sent = frames crc (s.log.take k)

/-- Payloads fit the 32-bit length, and a checkpoint reaches the file only while
no entry of the engine's handle is there in part. -/
def Calm (s : Log) : Action → Prop
  | .append _ d => d.length < 2 ^ 32
  | .checkpoint => AtBoundary crc s
  | _ => True

/-- The file is whole frames up to the last checkpoint and what the engine's
handle has sent since. -/
structure Inv (s : Log) : Prop where
  short : ∀ e ∈ s.log, e.data.length < 2 ^ 32
  stream : s.sent ++ (s.pending.flatten ++ s.handle.writer.buf) = frames crc s.log
  split : ∃ es k mid, (∀ e ∈ es, e.data.length < 2 ^ 32) ∧ k ≤ s.log.length ∧
    s.file = frames crc es ++ mid ∧ s.sent = frames crc (s.log.take k) ++ mid

theorem inv_start (es : List WalEntry) (hes : ∀ e ∈ es, e.data.length < 2 ^ 32) :
    Inv crc (start crc es) where
  short := by simp [start]
  stream := by simp [start, Wal.open, BufWriter.withCapacity, frames]
  split := ⟨es, 0, [], hes, Nat.zero_le _, by simp [start], by simp [start, frames]⟩

theorem between_boundaries (es : List WalEntry) (j k : Nat) (mid : List UInt8)
    (h : frames crc (es.take k) = frames crc (es.take j) ++ mid) :
    ∃ fs, (∀ e ∈ fs, e ∈ es) ∧ mid = frames crc fs := by
  by_cases hjk : j ≤ k
  · refine ⟨(es.take k).drop j, ?_, ?_⟩
    · intro e he
      exact List.mem_of_mem_take (List.mem_of_mem_drop he)
    · have ht : es.take k = es.take j ++ (es.take k).drop j := by
        have hj : (es.take k).take j = es.take j := by rw [List.take_take, Nat.min_eq_left hjk]
        rw [← hj, List.take_append_drop]
      rw [ht, frames_append] at h
      exact (List.append_cancel_left h).symm
  · -- the later boundary is not behind the earlier one, so nothing lies between
    have hk : es.take j = es.take k ++ (es.take j).drop k := by
      have ht : (es.take j).take k = es.take k := by rw [List.take_take, Nat.min_eq_left (by omega)]
      rw [← ht, List.take_append_drop]
    rw [hk, frames_append, List.append_assoc] at h
    have hlen := congrArg List.length h
    simp only [List.length_append] at hlen
    have hm : mid = [] := List.eq_nil_of_length_eq_zero (by omega)
    exact ⟨[], by simp, by simp [hm, frames]⟩

theorem inv_append (s : Log) (ty : UInt8) (d : List UInt8) (hi : Inv crc s)
    (hd : d.length < 2 ^ 32) (hp : s.pending = []) :
    Inv crc { s with
      handle := (s.handle.append crc ty d).1
      pending := (s.handle.append crc ty d).2.1
      log := s.log ++ [⟨ty, d⟩] } := by
  obtain ⟨es, k, mid, hes, hk, hf, hs⟩ := hi.split
  have hst := hi.stream
  rw [hp] at hst
  refine ⟨?_, ?_, es, k, mid, hes, ?_, hf, ?_⟩
  · intro e he
    obtain he | he := List.mem_append.mp he
    · exact hi.short e he
    · rw [List.mem_singleton.mp he]
      exact hd
  · have ha := append_stream crc s.handle ty d
    simp only [List.flatten_nil, List.nil_append] at hst
    simp only
    rw [ha, ← List.append_assoc, hst, frames_append]
    simp [frames]
  · simp only [List.length_append]
    omega
  · simp only
    rw [List.take_append_of_le_length hk]
    exact hs

/-- A checkpoint between two entries: what was sent since the last one is whole frames, and
the next part of the file starts empty. -/
theorem inv_checkpoint (s : Log) (hi : Inv crc s) (hb : AtBoundary crc s) :
    Inv crc { s with file := s.file ++ frame crc checkpointEntry } := by
  obtain ⟨es, k, mid, hes, hk, hf, hs⟩ := hi.split
  obtain ⟨j, hj⟩ := hb
  obtain ⟨fs, hfs, hm⟩ := between_boundaries crc s.log k j mid (by rw [← hj, hs])
  refine ⟨hi.short, hi.stream, es ++ fs ++ [checkpointEntry], min j s.log.length, [], ?_, ?_,
    ?_, ?_⟩
  · intro e he
    obtain he | he := List.mem_append.mp he
    · obtain he | he := List.mem_append.mp he
      · exact hes e he
      · exact hi.short e (hfs e he)
    · rw [List.mem_singleton.mp he]
      exact Nat.two_pow_pos 32
  · exact Nat.min_le_right _ _
  · simp only [hf, hm, frames_append]
    simp [frames]
  · simp only [List.append_nil]
    rw [hj, List.take_eq_take_min]

theorem inv_step (s : Log) (a : Action) (t : Log) (hi : Inv crc s) (hok : Calm crc s a)
    (h : step crc s a = some t) : Inv crc t := by
  cases a with
  | append ty d =>
    cases hp : s.pending with
    | cons c cs => simp [step, hp] at h
    | nil =>
      simp only [step, hp, Option.some.injEq] at h
      subst h
      exact inv_append crc s ty d hi hok hp
  | sync =>
    cases hp : s.pending with
    | cons c cs => simp [step, hp] at h
    | nil =>
      simp only [step, hp, Option.some.injEq] at h
      subst h
      refine ⟨hi.short, ?_, hi.split⟩
      have hst := hi.stream
      rw [hp] at hst
      simp only
      rw [sync_stream]
      simpa using hst
  | spill =>
    cases hp : s.pending with
    | nil => simp [step, hp] at h
    | cons c cs =>
      simp only [step, hp, Option.some.injEq] at h
      subst h
      obtain ⟨es, k, mid, hes, hk, hf, hs⟩ := hi.split
      refine ⟨hi.short, ?_, es, k, mid ++ c, hes, hk, ?_, ?_⟩
      · have hst := hi.stream
        rw [hp] at hst
        simpa using hst
      · simp [hf]
      · simp [hs]
  | checkpoint =>
    simp only [step, Option.some.injEq, open_checkpoint, List.flatten_singleton] at h
    subst h
    exact inv_checkpoint crc s hi hok

theorem framed_of_inv (s : Log) (hi : Inv crc s) : ∃ es, Framed crc es s.file := by
  obtain ⟨es, k, mid, hes, hk, hf, hs⟩ := hi.split
  -- what was sent after the last checkpoint is a prefix of the entries after it
  have hpre : mid <+: frames crc (s.log.drop k) := by
    refine ⟨s.pending.flatten ++ s.handle.writer.buf, ?_⟩
    have hst := hi.stream
    have hlog : frames crc s.log = frames crc (s.log.take k) ++ frames crc (s.log.drop k) := by
      rw [← frames_append, List.take_append_drop]
    rw [hs, hlog, List.append_assoc] at hst
    exact List.append_cancel_left hst
  obtain ⟨hin, tail, ht, hc⟩ := framed_of_initial crc (s.log.drop k) mid
    (fun e he => hi.short e (List.mem_of_mem_drop he)) hpre
  refine ⟨es ++ framesInside mid.length (s.log.drop k), ?_, tail, ?_, hc⟩
  · intro e he
    obtain he | he := List.mem_append.mp he
    · exact hes e he
    · exact hin e he
  · rw [hf, frames_append, List.append_assoc, ← ht]

/-- In every run whose checkpoints find no entry of the engine's handle cut in
the file, the file is whole frames and at most one incomplete one, and replay
succeeds, in every state reached. -/
theorem framing_survives (es : List WalEntry) (hes : ∀ e ∈ es, e.data.length < 2 ^ 32)
    (acts : List Action) (s : Log)
    (hok : Along (step crc) (Calm crc) (start crc es) acts)
    (hrun : run (step crc) (start crc es) acts = some s) :
    (∃ fs, Framed crc fs s.file) ∧ ∃ entries, recover crc (some s.file) = .ok entries := by
  have hi := run_invariant (step crc) (Calm crc) (Inv crc) (inv_step crc) acts _ s
    (inv_start crc es hes) hok hrun
  obtain ⟨fs, hfs⟩ := framed_of_inv crc s hi
  exact ⟨⟨fs, hfs⟩, _, recover_framed crc fs s.file hfs⟩

theorem framing_survives_buffered : ∃ s,
    run (step crc32) (start crc32 [⟨entrySpan, [7]⟩]) [.append entryLog [1, 2, 3], .checkpoint] =
      some s ∧
    (∃ fs, Framed crc32 fs s.file) ∧ ∃ entries, recover crc32 (some s.file) = .ok entries := by
  have hok : Along (step crc32) (Calm crc32) (start crc32 [⟨entrySpan, [7]⟩])
      [.append entryLog [1, 2, 3], .checkpoint] := by
    refine ⟨by simp [Calm], fun t ht => ⟨⟨0, ?_⟩, fun _ _ => trivial⟩⟩
    cases ht
    rfl
  exact ⟨_, rfl, framing_survives crc32 [⟨entrySpan, [7]⟩] (by decide) _ _ hok rfl⟩

/-- An append whose payload reaches the buffer's capacity makes two writes: the
header alone, then the payload. -/
theorem open_append_large (len : Nat) (t : UInt8) (d : List UInt8) (hd : 256 * 1024 ≤ d.length) :
    ((Wal.open len).append crc t d).2.1 = [header crc ⟨t, d⟩, d] := by
  have hh : (header crc ⟨t, d⟩).length = 9 := header_length crc _
  have hne : header crc ⟨t, d⟩ ≠ [] := by
    intro h
    rw [h] at hh
    contradiction
  have h1 : ¬ d.length < 262135 := by omega
  have h2 : 262135 < d.length := by omega
  have h3 : 262144 ≤ d.length := by omega
  simp [Wal.append, Wal.open, BufWriter.withCapacity, BufWriter.writeAll, BufWriter.spare,
    BufWriter.flushBuf, hh, hne, -not_lt, h1, h2, h3]

/-- The damage in general: a checkpoint between the two writes of a large append
makes replay stop with a checksum mismatch, unless two checksums collide. -/
theorem recover_cut (t : UInt8) (d : List UInt8) (hd : d.length < 2 ^ 32)
    (hne : crc (t :: (frame crc checkpointEntry ++ d).take d.length) ≠ crc (t :: d)) :
    recover crc (some (header crc ⟨t, d⟩ ++ frame crc checkpointEntry ++ d)) =
      .error (.walCrcMismatch 0 (crc (t :: d)).toNat
        (crc (t :: (frame crc checkpointEntry ++ d).take d.length)).toNat) := by
  have hlen : ((frame crc checkpointEntry ++ d).take d.length).length = d.length := by simp
  -- the header stays, and the bytes after it up to its length are not its payload
  have hfile : header crc ⟨t, d⟩ ++ frame crc checkpointEntry ++ d =
      storedFrame (crc (t :: d)) ⟨t, (frame crc checkpointEntry ++ d).take d.length⟩ ++
        (frame crc checkpointEntry ++ d).drop d.length := by
    have hhead : header (fun _ => crc (t :: d))
        ⟨t, (frame crc checkpointEntry ++ d).take d.length⟩ = header crc ⟨t, d⟩ := by
      simp only [header, hlen]
    rw [storedFrame_eq, hhead, List.append_assoc, List.append_assoc, List.take_append_drop]
  rw [hfile, recover, recoverLoop_stored crc _ 0 _ _ _ [] (by rw [hlen]; exact hd)
    (by simp [storedFrame, frame_length, headerSize]), if_pos hne]

/-- A payload of `n` checkpoint frames one after the other and a last byte that
breaks the pattern. -/
def cutPayload (n : Nat) : List UInt8 :=
  (List.replicate n (frame crc32 checkpointEntry)).flatten ++ [1]

theorem cutPayload_length (n : Nat) : (cutPayload n).length = 9 * n + 1 := by
  simp [cutPayload, frame_length, headerSize, checkpointEntry, Nat.mul_comm]

theorem checkpoint_frame_crc32 :
    frame crc32 checkpointEntry = [0, 0, 0, 255, 0, 0, 0, 0, 255] := by
  decide +kernel

theorem cutPayload_shifted (n : Nat) :
    (frame crc32 checkpointEntry ++ cutPayload n).take (cutPayload n).length =
      (List.replicate n (frame crc32 checkpointEntry)).flatten ++ [0] := by
  have hcomm :
      frame crc32 checkpointEntry ++ (List.replicate n (frame crc32 checkpointEntry)).flatten =
      (List.replicate n (frame crc32 checkpointEntry)).flatten ++ frame crc32 checkpointEntry := by
    have h1 : (List.replicate (n+1) (frame crc32 checkpointEntry)).flatten =
        frame crc32 checkpointEntry ++
          (List.replicate n (frame crc32 checkpointEntry)).flatten := by
      rw [List.replicate_succ, List.flatten_cons]
    have h2 : (List.replicate (n+1) (frame crc32 checkpointEntry)).flatten =
        (List.replicate n (frame crc32 checkpointEntry)).flatten ++
          frame crc32 checkpointEntry := by
      rw [List.replicate_succ', List.flatten_append]
      simp
    rw [← h1, h2]
  have hl : (List.replicate n (frame crc32 checkpointEntry)).flatten.length = 9 * n := by
    simp [frame_length, headerSize, checkpointEntry, Nat.mul_comm]
  rw [cutPayload_length, cutPayload, ← List.append_assoc, hcomm, List.append_assoc,
    List.take_append, List.take_of_length_le (by omega), hl, show 9 * n + 1 - 9 * n = 1 by omega,
    checkpoint_frame_crc32]
  rfl

theorem cutPayload_crc32 (n : Nat) (t : UInt8) :
    crc32 (t :: (frame crc32 checkpointEntry ++ cutPayload n).take (cutPayload n).length) ≠
      crc32 (t :: cutPayload n) := by
  rw [cutPayload_shifted, cutPayload, ← List.cons_append, ← List.cons_append]
  intro h
  exact absurd (crc32_last _ 0 1 h) (by decide)

def cutRun (n : Nat) : List Action :=
  [.append entryLog (cutPayload n), .spill, .checkpoint, .spill]

theorem cutRun_reaches (n : Nat) (hn : 256 * 1024 ≤ 9 * n + 1) :
    ∃ s, run (step crc32) (start crc32 []) (cutRun n) = some s ∧
      s.file = header crc32 ⟨entryLog, cutPayload n⟩ ++ frame crc32 checkpointEntry ++
        cutPayload n := by
  have hl : 256 * 1024 ≤ (cutPayload n).length := by
    rw [cutPayload_length]
    exact hn
  have ha := open_append_large crc32 (frames crc32 []).length entryLog (cutPayload n) hl
  simp only [cutRun, run, step, start, ha, open_checkpoint]
  exact ⟨_, rfl, by simp [frames]⟩

theorem framing_broken_at (n : Nat) (hn : 256 * 1024 ≤ 9 * n + 1) (hlt : 9 * n + 1 < 2 ^ 32) :
    ∃ s, run (step crc32) (start crc32 []) (cutRun n) = some s ∧
      (∀ es, ¬ Framed crc32 es s.file) ∧ ∀ entries, recover crc32 (some s.file) ≠ .ok entries := by
  obtain ⟨s, hs, hf⟩ := cutRun_reaches n hn
  have hr := recover_cut crc32 entryLog (cutPayload n) (by rw [cutPayload_length]; exact hlt)
    (cutPayload_crc32 n entryLog)
  rw [← hf] at hr
  refine ⟨s, hs, ?_, ?_⟩
  · intro es hes
    rw [recover_framed crc32 es s.file hes] at hr
    cases hr
  · intro entries he
    rw [he] at hr
    cases hr

/-- A log payload of 256 KiB and a checkpoint that lands between its header and
its data leave a file that is not framed and that replay refuses. -/
theorem framing_broken : ∃ s, run (step crc32) (start crc32 []) (cutRun 29127) = some s ∧
    (∀ es, ¬ Framed crc32 es s.file) ∧ ∀ entries, recover crc32 (some s.file) ≠ .ok entries :=
  framing_broken_at 29127 (by norm_num) (by norm_num)
end InfraLens.WalHandles
