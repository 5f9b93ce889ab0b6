import InfraLens.LibBufWriter

/-! The write-ahead log (wal.rs): entry format, the appending handle and replay.
The checksum crc32fast computes is a parameter. -/
namespace InfraLens.WalFile
open LibBytes LibBufWriter

def entryLog : UInt8 := 0x01
def entryMetric : UInt8 := 0x02
def entrySpan : UInt8 := 0x03
def entryCheckpoint : UInt8 := 0xFF

/-- crc32 (4), length (4), type (1). -/
def headerSize : Nat := 9

structure WalEntry where
  entryType : UInt8
  data : List UInt8
  deriving DecidableEq

inductive StorageError where
  | walCrcMismatch (offset expected actual : Nat)
  | closed
  deriving DecidableEq

variable (crc : List UInt8 → UInt32)

/-- The header `append` writes; the length is cut to 32 bits. -/
def header (e : WalEntry) : List UInt8 :=
  leBytes 4 (crc (e.entryType :: e.data)).toNat ++ leBytes 4 e.data.length ++ [e.entryType]

def frame (e : WalEntry) : List UInt8 := header crc e ++ e.data

def checkpointEntry : WalEntry := ⟨entryCheckpoint, []⟩

/-- An open handle: its buffered writer and the count of bytes written so far. -/
structure Wal where
  writer : BufWriter
  offset : Nat

/-- `Wal::open` on a file of the given length. -/
def Wal.open (len : Nat) : Wal := ⟨BufWriter.withCapacity (256 * 1024), len⟩

/-- `Wal::append`: the handle after it, the writes made to the file, and the
offset the call returns. -/
def Wal.append (w : Wal) (entryType : UInt8) (data : List UInt8) :
    Wal × List (List UInt8) × Nat :=
  let h := w.writer.writeAll (header crc ⟨entryType, data⟩)
  let d := h.1.writeAll data
  (⟨d.1, w.offset + (headerSize + data.length)⟩, h.2 ++ d.2, w.offset)

def Wal.sync (w : Wal) : Wal × List (List UInt8) :=
  (⟨w.writer.flushBuf.1, w.offset⟩, w.writer.flushBuf.2)

def Wal.checkpoint (w : Wal) : Wal × List (List UInt8) :=
  let a := w.append crc entryCheckpoint []
  (a.1.sync.1, a.2.1 ++ a.1.sync.2)

/-- The replay loop of `recover`: `rest` is what the reader has not consumed. -/
def recoverLoop (len : Nat) (rest : List UInt8) (offset : Nat) (entries : List WalEntry) :
    Except StorageError (List WalEntry) :=
  if offset ≥ len then .ok entries
  else match _hh : readExact headerSize rest with
    -- truncated in the header
    | none => .ok entries
    | some (header, rest1) =>
      let expectedCrc := fromLe (header.take 4)
      let dataLen := fromLe ((header.drop 4).take 4)
      let entryType := header.getD 8 0
      match hd : readExact dataLen rest1 with
      -- truncated in the data
      | none => .ok entries
      | some (data, rest2) =>
        let actualCrc := (crc (entryType :: data)).toNat
        if actualCrc ≠ expectedCrc then
          .error (.walCrcMismatch offset expectedCrc actualCrc)
        else if entryType = entryCheckpoint then
          recoverLoop len rest2 (offset + (headerSize + dataLen)) []
        else
          recoverLoop len rest2 (offset + (headerSize + dataLen)) (entries ++ [⟨entryType, data⟩])
termination_by rest.length
decreasing_by
  all_goals
    unfold readExact at _hh hd
    split at _hh
    · split at hd
      · cases _hh
        cases hd
        simp only [List.length_drop, headerSize] at *
        omega
      · contradiction
    · contradiction

def recover : Option (List UInt8) → Except StorageError (List WalEntry)
  | none => .ok []
  | some bytes => recoverLoop crc bytes.length bytes 0 []

end InfraLens.WalFile
