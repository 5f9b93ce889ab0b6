import InfraLens.WalFile
import InfraLens.Crc32
import Mathlib.Data.List.DropRight
import Mathlib.Data.List.GetD

/-! Replay of a log that is cut at any byte. The loop consumes a whole frame at a
time, so a cut costs the frame it falls into and nothing before it. -/
namespace InfraLens.WalFile
open LibBytes LibBufWriter Crc32

variable (crc : List UInt8 → UInt32)

/-! The header read back field by field. -/

@[simp] theorem header_length (e : WalEntry) : (header crc e).length = headerSize := by
  simp [header, headerSize]

theorem frame_length (e : WalEntry) : (frame crc e).length = headerSize + e.data.length := by
  simp [frame]

theorem header_crc (e : WalEntry) :
    fromLe ((header crc e).take 4) = (crc (e.entryType :: e.data)).toNat := by
  have ht : (header crc e).take 4 = leBytes 4 (crc (e.entryType :: e.data)).toNat := by
    simp [header, List.append_assoc]
  rw [ht]
  exact fromLe_leBytes_of_lt 4 _ (by simpa using (crc (e.entryType :: e.data)).toNat_lt)

theorem header_dataLen (e : WalEntry) (he : e.data.length < 2 ^ 32) :
    fromLe (((header crc e).drop 4).take 4) = e.data.length := by
  have hd : ((header crc e).drop 4).take 4 = leBytes 4 e.data.length := by
    simp [header, List.append_assoc]
  rw [hd]
  exact fromLe_leBytes_of_lt 4 _ (by simpa using he)

theorem header_entryType (e : WalEntry) : (header crc e).getD 8 0 = e.entryType := by
  simp [header, List.getD]

/-- Effect of one frame on the entries collected so far. -/
def replay (entries : List WalEntry) (e : WalEntry) : List WalEntry :=
  if e.entryType = entryCheckpoint then [] else entries ++ [e]

/-- A frame whose checksum field holds `stored`, right or wrong. -/
def storedFrame (stored : UInt32) (e : WalEntry) : List UInt8 := frame (fun _ => stored) e

theorem storedFrame_eq (stored : UInt32) (e : WalEntry) :
    storedFrame stored e = header (fun _ => stored) e ++ e.data := rfl

theorem recoverLoop_stored (len off : Nat) (stored : UInt32) (e : WalEntry)
    (rest : List UInt8) (acc : List WalEntry) (he : e.data.length < 2 ^ 32) (hoff : off < len) :
    recoverLoop crc len (storedFrame stored e ++ rest) off acc =
      if crc (e.entryType :: e.data) ≠ stored then
        .error (.walCrcMismatch off stored.toNat (crc (e.entryType :: e.data)).toNat)
      else recoverLoop crc len rest (off + (headerSize + e.data.length)) (replay acc e) := by
  have hh : readExact headerSize (storedFrame stored e ++ rest) =
      some (header (fun _ => stored) e, e.data ++ rest) := by
    rw [storedFrame_eq, List.append_assoc, ← header_length (fun _ => stored) e]
    exact readExact_append _ _
  have hd : readExact (fromLe (((header (fun _ => stored) e).drop 4).take 4)) (e.data ++ rest) =
      some (e.data, rest) := by
    rw [header_dataLen _ e he]
    exact readExact_append _ _
  rw [recoverLoop, if_neg (by omega)]
  split
  · rename_i h'; rw [hh] at h'; contradiction
  · rename_i h'
    rw [hh] at h'
    cases h'
    simp only
    split
    · rename_i h'; rw [hd] at h'; contradiction
    · rename_i h'
      rw [hd] at h'
      cases h'
      rw [header_entryType, header_crc, header_dataLen _ e he]
      simp only [ne_eq, UInt32.toNat_inj, replay]
      split
      · rfl
      · split <;> rfl

theorem recoverLoop_frame (len off : Nat) (e : WalEntry) (rest : List UInt8)
    (acc : List WalEntry) (he : e.data.length < 2 ^ 32) (hoff : off < len) :
    recoverLoop crc len (frame crc e ++ rest) off acc =
      recoverLoop crc len rest (off + (frame crc e).length) (replay acc e) := by
  have h := recoverLoop_stored crc len off (crc (e.entryType :: e.data)) e rest acc he hoff
  rw [if_neg (by simp), ← frame_length crc e] at h
  exact h

def frames (es : List WalEntry) : List UInt8 := es.flatMap (frame crc)

theorem frames_append (es fs : List WalEntry) :
    frames crc (es ++ fs) = frames crc es ++ frames crc fs := by
  simp [frames]

theorem recoverLoop_frames (es : List WalEntry) (tail : List UInt8) (len off : Nat)
    (acc : List WalEntry) (hes : ∀ e ∈ es, e.data.length < 2 ^ 32)
    (hlen : off + (frames crc es).length ≤ len) :
    recoverLoop crc len (frames crc es ++ tail) off acc =
      recoverLoop crc len tail (off + (frames crc es).length) (es.foldl replay acc) := by
  induction es generalizing off acc with
  | nil => simp [frames]
  | cons e es ih =>
    have hf : frames crc (e :: es) = frame crc e ++ frames crc es := by simp [frames]
    have hl : (frames crc (e :: es)).length = (frame crc e).length + (frames crc es).length := by
      rw [hf, List.length_append]
    have hpos : 0 < (frame crc e).length := by rw [frame_length]; simp [headerSize]
    rw [hf, List.append_assoc,
      recoverLoop_frame crc len off e _ acc (hes e (by simp)) (by omega),
      ih _ _ (fun x hx => hes x (List.mem_cons_of_mem e hx)) (by omega)]
    simp [Nat.add_assoc]

/-- A proper prefix of a frame: what a cut inside an entry leaves. -/
def Torn (tail : List UInt8) : Prop :=
  ∃ e : WalEntry, e.data.length < 2 ^ 32 ∧ tail <+: frame crc e ∧
    tail.length < (frame crc e).length

/-- The bytes begin with a complete frame, whatever its checksum. -/
def BeginsComplete (bytes : List UInt8) : Prop :=
  ∃ stored e rest, e.data.length < 2 ^ 32 ∧ bytes = storedFrame stored e ++ rest

theorem header_of_bytes (h data : List UInt8) (hlen : h.length = headerSize)
    (hdata : data.length = fromLe ((h.drop 4).take 4)) :
    header (fun _ => UInt32.ofNat (fromLe (h.take 4))) ⟨h.getD 8 0, data⟩ = h := by
  have h9 : h.length = 9 := hlen
  have hlt := fromLe_lt (h.take 4)
  rw [List.length_take, h9] at hlt
  have hcrc : leBytes 4 (UInt32.ofNat (fromLe (h.take 4))).toNat = h.take 4 := by
    rw [UInt32.toNat_ofNat_of_lt' (by simpa using hlt)]
    apply leBytes_fromLe
    simp [h9]
  have hsize : leBytes 4 data.length = (h.drop 4).take 4 := by
    rw [hdata]
    apply leBytes_fromLe
    simp [h9]
  have htype : h.drop 8 = [h.getD 8 0] := by
    have hend : h.drop (8 + 1) = [] := List.drop_of_length_le (by omega)
    rw [List.drop_eq_getElem_cons (by omega), List.getD_eq_getElem h 0 (by omega), hend]
  calc
    header (fun _ => UInt32.ofNat (fromLe (h.take 4))) ⟨h.getD 8 0, data⟩
      = h.take 4 ++ (h.drop 4).take 4 ++ h.drop 8 := by rw [header, hcrc, hsize, htype]
    _ = h.take 4 ++ ((h.drop 4).take 4 ++ (h.drop 4).drop 4) := by
        rw [List.append_assoc, List.drop_drop]
    _ = h := by rw [List.take_append_drop, List.take_append_drop]

/-- Whatever does not begin with a complete frame ends the loop quietly. -/
theorem recoverLoop_incomplete (tail : List UInt8) (h : ¬ BeginsComplete tail) (len off : Nat)
    (acc : List WalEntry) : recoverLoop crc len tail off acc = .ok acc := by
  rw [recoverLoop]
  split
  · rfl
  split
  · rfl
  rename_i head rest hhead
  obtain ⟨hlen, htail⟩ := readExact_eq_some _ _ _ _ hhead
  simp only
  split
  · rfl
  -- both reads succeeded, so the tail is the frame they read
  rename_i data more hdata
  obtain ⟨hsize, hrest⟩ := readExact_eq_some _ _ _ _ hdata
  have hlt := fromLe_lt ((head.drop 4).take 4)
  exfalso
  apply h
  refine ⟨UInt32.ofNat (fromLe (head.take 4)), ⟨head.getD 8 0, data⟩, more, ?_, ?_⟩
  · rw [hsize]
    simpa [hlen, headerSize] using hlt
  · rw [storedFrame_eq, header_of_bytes head data hlen hsize, htail, hrest, List.append_assoc]

/-- What a cut leaves of a frame has its header and less than its data, or not even that. -/
theorem not_beginsComplete_of_torn (tail : List UInt8) (h : Torn crc tail) :
    ¬ BeginsComplete tail := by
  obtain ⟨e, he, ⟨more, hmore⟩, hlt⟩ := h
  intro hcomplete
  obtain ⟨stored, e', rest, he', htail⟩ := hcomplete
  -- the two headers are the same nine bytes
  have hfront : storedFrame stored e' ++ (rest ++ more) = frame crc e := by
    rw [← List.append_assoc, ← htail, hmore]
  rw [storedFrame_eq, frame, List.append_assoc] at hfront
  have hheader := (List.append_inj hfront (by simp)).1
  have hdata : e'.data.length = e.data.length := by
    rw [← header_dataLen _ e' he', hheader, header_dataLen crc e he]
  rw [htail, List.length_append, storedFrame, frame_length, frame_length, hdata] at hlt
  omega

theorem recoverLoop_torn (tail : List UInt8) (h : Torn crc tail) (len off : Nat)
    (acc : List WalEntry) : recoverLoop crc len tail off acc = .ok acc :=
  recoverLoop_incomplete crc tail (not_beginsComplete_of_torn crc tail h) len off acc

/-- Whole frames followed by at most one incomplete frame. -/
def Framed (es : List WalEntry) (bytes : List UInt8) : Prop :=
  (∀ e ∈ es, e.data.length < 2 ^ 32) ∧
    ∃ tail, bytes = frames crc es ++ tail ∧ (tail = [] ∨ Torn crc tail)

theorem recover_framed (es : List WalEntry) (bytes : List UInt8) (h : Framed crc es bytes) :
    recover crc (some bytes) = .ok (es.foldl replay []) := by
  obtain ⟨hes, tail, hb, ht⟩ := h
  have hlen : bytes.length = (frames crc es).length + tail.length := by
    rw [hb, List.length_append]
  change recoverLoop crc bytes.length bytes 0 [] = _
  have hs := recoverLoop_frames crc es tail bytes.length 0 [] hes (by omega)
  rw [← hb] at hs
  rw [hs]
  obtain rfl | ht := ht
  · rw [recoverLoop, if_pos (by simp at hlen; omega)]
  · exact recoverLoop_torn crc tail ht _ _ _

/-! Cuts: which frames lie inside a prefix of the file. -/

/-- The entries whose frames lie wholly inside the first `k` bytes. -/
def framesInside : Nat → List WalEntry → List WalEntry
  | _, [] => []
  | k, e :: es =>
    if headerSize + e.data.length ≤ k then
      e :: framesInside (k - (headerSize + e.data.length)) es
    else []

theorem framesInside_subset (k : Nat) (es : List WalEntry) :
    ∀ e ∈ framesInside k es, e ∈ es := by
  induction es generalizing k with
  | nil => simp [framesInside]
  | cons a es ih =>
    intro e he
    rw [framesInside] at he
    split at he
    · obtain rfl | he := List.mem_cons.mp he
      · simp
      · exact List.mem_cons_of_mem a (ih _ e he)
    · simp at he

theorem framed_of_initial (es : List WalEntry) (bytes : List UInt8)
    (hes : ∀ e ∈ es, e.data.length < 2 ^ 32) (h : bytes <+: frames crc es) :
    Framed crc (framesInside bytes.length es) bytes := by
  refine ⟨fun e he => hes e (framesInside_subset _ es e he), ?_⟩
  induction es generalizing bytes with
  | nil =>
    have hb : bytes = [] := by simpa [frames] using h
    exact ⟨[], by simp [hb, framesInside, frames], Or.inl rfl⟩
  | cons e es ih =>
    have hf : frames crc (e :: es) = frame crc e ++ frames crc es := by simp [frames]
    obtain ⟨rest, hr⟩ := h
    rw [hf] at hr
    by_cases hk : (frame crc e).length ≤ bytes.length
    · -- the first frame is whole: split it off and recurse on what follows it
      obtain ⟨more, hm⟩ : ∃ more, bytes = frame crc e ++ more := by
        refine ⟨bytes.drop (frame crc e).length, ?_⟩
        have ht : bytes.take (frame crc e).length = frame crc e := by
          calc
            bytes.take (frame crc e).length = (bytes ++ rest).take (frame crc e).length :=
              (List.take_append_of_le_length hk).symm
            _ = frame crc e := by rw [hr, List.take_left]
        nth_rewrite 1 [← List.take_append_drop (frame crc e).length bytes]
        rw [ht]
      subst hm
      have hpre : more <+: frames crc es := by
        refine ⟨rest, ?_⟩
        rw [List.append_assoc] at hr
        exact List.append_cancel_left hr
      obtain ⟨tail, ht, hc⟩ := ih more (fun x hx => hes x (List.mem_cons_of_mem e hx)) hpre
      refine ⟨tail, ?_, hc⟩
      have hin : framesInside (frame crc e ++ more).length (e :: es) =
          e :: framesInside more.length es := by
        rw [framesInside, List.length_append, frame_length, if_pos (by omega)]
        congr 2
        omega
      rw [hin]
      nth_rewrite 1 [ht]
      simp [frames]
    · refine ⟨bytes, ?_, Or.inr ⟨e, hes e (by simp), ?_, by omega⟩⟩
      · rw [framesInside, if_neg (by rw [frame_length] at hk; omega)]
        simp [frames]
      · have hpre : bytes <+: frame crc e ++ frames crc es := ⟨rest, hr⟩
        exact List.prefix_of_prefix_length_le hpre (List.prefix_append _ _) (by omega)

def notCheckpoint (e : WalEntry) : Bool := decide (e.entryType ≠ entryCheckpoint)

theorem foldl_replay (es : List WalEntry) :
    es.foldl replay [] = es.rtakeWhile notCheckpoint := by
  induction es using List.reverseRecOn with
  | nil => simp
  | append_singleton es e ih =>
    rw [List.foldl_append, List.rtakeWhile_concat, ih]
    by_cases he : e.entryType = entryCheckpoint <;> simp [replay, notCheckpoint, he]

/-! The file one handle leaves behind. -/

inductive Call where
  | append (entryType : UInt8) (data : List UInt8)
  | checkpoint

def Call.entry : Call → WalEntry
  | .append t d => ⟨t, d⟩
  | .checkpoint => checkpointEntry

def Wal.call (w : Wal) : Call → Wal × List (List UInt8)
  | .append t d => ((w.append crc t d).1, (w.append crc t d).2.1)
  | .checkpoint => w.checkpoint crc

def Wal.calls (w : Wal) : List Call → Wal × List (List UInt8)
  | [] => (w, [])
  | c :: cs => (((w.call crc c).1.calls cs).1, (w.call crc c).2 ++ ((w.call crc c).1.calls cs).2)

/-- The file after the calls on a new log, with the handle's buffer flushed. -/
def walFile (cs : List Call) : List UInt8 :=
  let r := (Wal.open 0).calls crc cs
  (r.2 ++ r.1.sync.2).flatten

theorem append_stream (w : Wal) (t : UInt8) (d : List UInt8) :
    (w.append crc t d).2.1.flatten ++ (w.append crc t d).1.writer.buf =
      w.writer.buf ++ frame crc ⟨t, d⟩ := by
  have hh := writeAll_stream w.writer (header crc ⟨t, d⟩)
  have hd := writeAll_stream (w.writer.writeAll (header crc ⟨t, d⟩)).1 d
  simp only [Wal.append, List.flatten_append, List.append_assoc]
  rw [hd, ← List.append_assoc, hh, frame, List.append_assoc]

theorem sync_stream (w : Wal) : w.sync.2.flatten ++ w.sync.1.writer.buf = w.writer.buf := by
  simp [Wal.sync, flushBuf_flatten]

theorem call_stream (w : Wal) (c : Call) :
    (w.call crc c).2.flatten ++ (w.call crc c).1.writer.buf =
      w.writer.buf ++ frame crc c.entry := by
  cases c with
  | append t d => exact append_stream crc w t d
  | checkpoint =>
    have ha := append_stream crc w entryCheckpoint []
    have hs := sync_stream (w.append crc entryCheckpoint []).1
    simp only [Wal.call, Wal.checkpoint, List.flatten_append, List.append_assoc]
    rw [hs, ha]
    rfl

theorem calls_stream (w : Wal) (cs : List Call) :
    (w.calls crc cs).2.flatten ++ (w.calls crc cs).1.writer.buf =
      w.writer.buf ++ frames crc (cs.map Call.entry) := by
  induction cs generalizing w with
  | nil => simp [Wal.calls, frames]
  | cons c cs ih =>
    have hc := call_stream crc w c
    simp only [Wal.calls, List.flatten_append, List.append_assoc]
    rw [ih, ← List.append_assoc, hc]
    simp [frames]

theorem walFile_eq (cs : List Call) : walFile crc cs = frames crc (cs.map Call.entry) := by
  have hc := calls_stream crc (Wal.open 0) cs
  have hs := sync_stream ((Wal.open 0).calls crc cs).1
  simp only [Wal.sync, flushBuf_buf, List.append_nil] at hs
  simp only [walFile, List.flatten_append, Wal.sync]
  rw [hs, hc]
  simp [Wal.open, BufWriter.withCapacity]

/-- Appends carry a type of their own and a payload whose length fits 32 bits. -/
def Call.Valid : Call → Prop
  | .append t d => t ≠ entryCheckpoint ∧ d.length < 2 ^ 32
  | .checkpoint => True

/-- Whatever prefix of the log a crash leaves, replay returns the entries whose
frames are whole in it and follow the last whole checkpoint, in order. -/
theorem recover_prefix (cs : List Call) (hcs : ∀ c ∈ cs, c.Valid) (bytes : List UInt8)
    (hpre : bytes <+: walFile crc cs) :
    recover crc (some bytes) =
      .ok ((framesInside bytes.length (cs.map Call.entry)).rtakeWhile notCheckpoint) := by
  have hes : ∀ e ∈ cs.map Call.entry, e.data.length < 2 ^ 32 := by
    intro e he
    obtain ⟨c, hc, rfl⟩ := List.mem_map.mp he
    cases c with
    | append t d => exact (hcs _ hc).2
    | checkpoint => exact Nat.two_pow_pos 32
  rw [walFile_eq] at hpre
  rw [recover_framed crc _ bytes (framed_of_initial crc _ bytes hes hpre), foldl_replay]

def cutCalls : List Call :=
  [.append entryLog [1, 2], .checkpoint, .append entrySpan [3], .append entryMetric [4, 5, 6]]

/-- A cut inside the last of four frames, with CRC-32 as the checksum. -/
theorem recover_prefix_cut :
    recover crc32 (some ((walFile crc32 cutCalls).take 40)) = .ok [⟨entrySpan, [3]⟩] := by
  have hlen : ((walFile crc32 cutCalls).take 40).length = 40 := by
    simp [walFile_eq, frames, frame_length, cutCalls, Call.entry, headerSize, checkpointEntry]
  have hvalid : ∀ c ∈ cutCalls, c.Valid := by
    simp [cutCalls, Call.Valid, entryLog, entrySpan, entryMetric, entryCheckpoint]
  have h := recover_prefix crc32 cutCalls hvalid ((walFile crc32 cutCalls).take 40)
    (List.take_prefix _ _)
  rw [hlen] at h
  rw [h]
  decide

end InfraLens.WalFile
