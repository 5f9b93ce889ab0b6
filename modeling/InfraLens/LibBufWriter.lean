import InfraLens.LibBytes

/-! A buffered writer over an append-only sink (std `BufWriter`): each operation
gives the writer after it and the writes it makes to the sink, in order. -/
namespace InfraLens.LibBufWriter

structure BufWriter where
  cap : Nat
  buf : List UInt8
  fits : buf.length ≤ cap

def BufWriter.withCapacity (cap : Nat) : BufWriter := ⟨cap, [], Nat.zero_le cap⟩

def BufWriter.spare (w : BufWriter) : Nat := w.cap - w.buf.length

/-- Spill the whole buffer; an empty buffer is not written. -/
def BufWriter.flushBuf (w : BufWriter) : BufWriter × List (List UInt8) :=
  (⟨w.cap, [], Nat.zero_le w.cap⟩, if w.buf = [] then [] else [w.buf])

theorem append_fits (w : BufWriter) (data : List UInt8) (h : data.length ≤ w.spare) :
    (w.buf ++ data).length ≤ w.cap := by
  have hf := w.fits
  simp only [BufWriter.spare] at h
  simp only [List.length_append]
  omega

/-- `write_all`: into the buffer while it stays short of full; otherwise spill
first when the data does not fit, and pass data of at least the capacity through. -/
def BufWriter.writeAll (w : BufWriter) (data : List UInt8) : BufWriter × List (List UInt8) :=
  if h : data.length < w.spare then
    (⟨w.cap, w.buf ++ data, append_fits w data (Nat.le_of_lt h)⟩, [])
  else if hs : w.spare < data.length then
    if hc : w.cap ≤ data.length then (w.flushBuf.1, w.flushBuf.2 ++ [data])
    else (⟨w.cap, data, Nat.le_of_not_le hc⟩, w.flushBuf.2)
  else
    if w.cap ≤ data.length then (w, [data])
    else (⟨w.cap, w.buf ++ data, append_fits w data (Nat.le_of_not_lt hs)⟩, [])

theorem flushBuf_flatten (w : BufWriter) : w.flushBuf.2.flatten = w.buf := by
  by_cases hb : w.buf = [] <;> simp [BufWriter.flushBuf, hb]

@[simp] theorem flushBuf_buf (w : BufWriter) : w.flushBuf.1.buf = [] := rfl

/-- Nothing is lost or reordered: what went out and what is buffered is what was
buffered before and the data. -/
theorem writeAll_stream (w : BufWriter) (data : List UInt8) :
    (w.writeAll data).2.flatten ++ (w.writeAll data).1.buf = w.buf ++ data := by
  unfold BufWriter.writeAll
  split
  · simp
  · split
    · split
      · simp [flushBuf_flatten]
      · simp [flushBuf_flatten]
    · split
      · rename_i h1 h2 h3
        have hf := w.fits
        -- the data fits an empty buffer exactly, so nothing was buffered before it
        have hb : w.buf = [] := by
          apply List.eq_nil_of_length_eq_zero
          simp only [BufWriter.spare] at h1 h2
          omega
        simp [hb]
      · simp

end InfraLens.LibBufWriter
