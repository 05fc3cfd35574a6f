import EchoServer.Lib.Overlay

/-!
# Buffer

The byte buffer of a connection: a vector with a reader index and a writer
index, the readable bytes between them and the writable area behind them.
The bounds on the two indices are fields of the structure, so no operation
can build a buffer that breaks them.

* `readable_append`, `readable_retrieve`, `readable_ensureWritableBytes`: on
  its readable bytes the buffer is a queue, whatever growing, sliding and
  resetting happens underneath;
* `readable_readFd`, `readable_readFd_eq_iff`: what a scattered read leaves in
  the buffer, and when it is what the kernel delivered.
-/

namespace EchoServer

open Overlay

abbrev Byte := UInt8

/-- `CheapPrepend`: the bytes kept free in front of the data. -/
def cheapPrepend : Nat := 8

/-- `InitialSize`: the default size of the data area. -/
def initialSize : Nat := 1024

/-- The size of `extraBuffer`, the stack area `readFd` reads into as well. -/
def extraBufferSize : Nat := 65536

structure Buffer where
  buffer : List Byte
  readerIndex : Nat
  writerIndex : Nat
  prepend_le_reader : cheapPrepend ≤ readerIndex
  reader_le_writer : readerIndex ≤ writerIndex
  writer_le_size : writerIndex ≤ buffer.length
deriving DecidableEq, Repr

/-- `vector::resize`: cut the vector or fill it up with zero bytes. -/
def resize (l : List Byte) (n : Nat) : List Byte :=
  l.take n ++ List.replicate (n - l.length) 0

@[simp] theorem length_resize (l : List Byte) (n : Nat) : (resize l n).length = n := by
  simp only [resize, List.length_append, List.length_take, List.length_replicate]
  omega

namespace Buffer

/-- `Buffer(size_t initialSize)`. -/
def new (initialSize : Nat) : Buffer where
  buffer := List.replicate (cheapPrepend + initialSize) 0
  readerIndex := cheapPrepend
  writerIndex := cheapPrepend
  prepend_le_reader := Nat.le_refl _
  reader_le_writer := Nat.le_refl _
  writer_le_size := by simp

def readableBytes (b : Buffer) : Nat := b.writerIndex - b.readerIndex

def writableBytes (b : Buffer) : Nat := b.buffer.length - b.writerIndex

def prependableBytes (b : Buffer) : Nat := b.readerIndex

/-- The bytes from `peek()` on, as many as are readable. -/
def readable (b : Buffer) : List Byte :=
  (b.buffer.drop b.readerIndex).take b.readableBytes

/-- The bytes from `beginWrite()` to the end of the vector. -/
def writable (b : Buffer) : List Byte :=
  b.buffer.drop b.writerIndex

@[simp] theorem length_readable (b : Buffer) : b.readable.length = b.readableBytes := by
  have h := b.writer_le_size
  simp only [readable, List.length_take, List.length_drop, readableBytes]
  omega

@[simp] theorem length_writable (b : Buffer) : b.writable.length = b.writableBytes := by
  simp only [writable, List.length_drop, writableBytes]

theorem readable_eq_nil_iff (b : Buffer) : b.readable = [] ↔ b.readableBytes = 0 := by
  rw [← List.length_eq_zero_iff, length_readable]

@[simp] theorem readable_new (n : Nat) : (new n).readable = [] := by
  simp [readable_eq_nil_iff, readableBytes, new]

/-! ## Retrieving -/

def retrieveAll (b : Buffer) : Buffer where
  buffer := b.buffer
  readerIndex := cheapPrepend
  writerIndex := cheapPrepend
  prepend_le_reader := Nat.le_refl _
  reader_le_writer := Nat.le_refl _
  writer_le_size := by
    have h₁ := b.prepend_le_reader
    have h₂ := b.reader_le_writer
    have h₃ := b.writer_le_size
    omega

/-- Advance the reader index; a length that covers all readable bytes resets
both indices instead. -/
def retrieve (b : Buffer) (len : Nat) : Buffer :=
  if h : len < b.readableBytes then
    { b with
      readerIndex := b.readerIndex + len
      prepend_le_reader := Nat.le_trans b.prepend_le_reader (Nat.le_add_right _ _)
      reader_le_writer := by
        simp only [readableBytes] at h
        omega }
  else
    b.retrieveAll

/-- `retrieveAsString(len)`: the string built from `peek()`, and the buffer
after retrieving as much. -/
def retrieveAsString (b : Buffer) (len : Nat) : List Byte × Buffer :=
  ((b.buffer.drop b.readerIndex).take len, b.retrieve len)

def retrieveAllAsString (b : Buffer) : List Byte × Buffer :=
  b.retrieveAsString b.readableBytes

@[simp] theorem readable_retrieveAll (b : Buffer) : b.retrieveAll.readable = [] := by
  simp [readable_eq_nil_iff, readableBytes, retrieveAll]

theorem readable_retrieve (b : Buffer) (len : Nat) :
    (b.retrieve len).readable = b.readable.drop len := by
  unfold retrieve
  split
  · -- the reader index moves inside the readable window
    simp only [readable, readableBytes, List.drop_take, List.drop_drop]
    congr 1
    omega
  · rename_i hlen
    rw [readable_retrieveAll, List.drop_of_length_le]
    rw [length_readable]
    omega

/-- The string handed out is the prefix that `retrieve` drops. -/
theorem retrieveAsString_fst (b : Buffer) {len : Nat} (h : len ≤ b.readableBytes) :
    (b.retrieveAsString len).1 = b.readable.take len := by
  simp only [retrieveAsString, readable, List.take_take, Nat.min_eq_left h]

theorem retrieveAllAsString_fst (b : Buffer) : b.retrieveAllAsString.1 = b.readable := by
  rw [retrieveAllAsString, retrieveAsString_fst b (Nat.le_refl _)]
  exact List.take_of_length_le (by simp)

theorem readable_retrieveAllAsString (b : Buffer) : b.retrieveAllAsString.2.readable = [] := by
  rw [retrieveAllAsString, retrieveAsString, readable_retrieve]
  exact List.drop_of_length_le (by simp)

/-! ## Making room and appending -/

/-- Grow the vector when the free bytes on both sides do not suffice,
otherwise slide the readable bytes down to the front. -/
def makeSpace (b : Buffer) (len : Nat) : Buffer :=
  if b.writableBytes + b.prependableBytes - cheapPrepend < len then
    { b with
      buffer := resize b.buffer (b.writerIndex + len)
      writer_le_size := by simp }
  else
    { buffer := overlay b.buffer cheapPrepend b.readable
      readerIndex := cheapPrepend
      writerIndex := cheapPrepend + b.readableBytes
      prepend_le_reader := Nat.le_refl _
      reader_le_writer := Nat.le_add_right _ _
      writer_le_size := by
        have h₁ := b.prepend_le_reader
        have h₂ := b.reader_le_writer
        have h₃ := b.writer_le_size
        rw [length_overlay (by simp only [length_readable, readableBytes]; omega)]
        simp only [readableBytes]
        omega }

def ensureWritableBytes (b : Buffer) (len : Nat) : Buffer :=
  if b.writableBytes < len then b.makeSpace len else b

theorem readable_makeSpace (b : Buffer) (len : Nat) :
    (b.makeSpace len).readable = b.readable := by
  have h₁ := b.prepend_le_reader
  have h₂ := b.reader_le_writer
  have h₃ := b.writer_le_size
  unfold makeSpace
  split
  · -- growing keeps every byte below the writer index
    simp only [readable, readableBytes, resize]
    rw [List.drop_append_of_le_length (by simp only [List.length_take]; omega)]
    rw [List.take_append_of_le_length
      (by simp only [List.length_drop, List.length_take]; omega)]
    rw [List.drop_take, List.take_take, Nat.min_eq_left (by omega)]
  · -- sliding copies exactly the readable bytes
    have hlen : cheapPrepend ≤ b.buffer.length := by
      omega
    rw [readable]
    simp only [readableBytes]
    rw [drop_overlay hlen]
    have hcount : cheapPrepend + (b.writerIndex - b.readerIndex) - cheapPrepend =
        b.readable.length := by
      simp only [length_readable, readableBytes]
      omega
    rw [hcount, List.take_left]

theorem writableBytes_makeSpace (b : Buffer) (len : Nat) :
    len ≤ (b.makeSpace len).writableBytes := by
  have h₁ := b.prepend_le_reader
  have h₂ := b.reader_le_writer
  have h₃ := b.writer_le_size
  unfold makeSpace
  split
  · simp only [writableBytes, length_resize]
    omega
  · rename_i hroom
    simp only [writableBytes]
    rw [length_overlay (by simp only [length_readable, readableBytes]; omega)]
    simp only [writableBytes, prependableBytes, readableBytes] at hroom ⊢
    omega

theorem readable_ensureWritableBytes (b : Buffer) (len : Nat) :
    (b.ensureWritableBytes len).readable = b.readable := by
  unfold ensureWritableBytes
  split
  · exact readable_makeSpace b len
  · rfl

theorem writableBytes_ensureWritableBytes (b : Buffer) (len : Nat) :
    len ≤ (b.ensureWritableBytes len).writableBytes := by
  unfold ensureWritableBytes
  split
  · exact writableBytes_makeSpace b len
  · omega

/-- Copy `data` behind the readable bytes, once there is room for it. -/
def append (b : Buffer) (data : List Byte) : Buffer :=
  { b.ensureWritableBytes data.length with
    buffer := overlay (b.ensureWritableBytes data.length).buffer
      (b.ensureWritableBytes data.length).writerIndex data
    writerIndex := (b.ensureWritableBytes data.length).writerIndex + data.length
    reader_le_writer := Nat.le_trans (b.ensureWritableBytes data.length).reader_le_writer
      (Nat.le_add_right _ _)
    writer_le_size := by
      have h₁ := writableBytes_ensureWritableBytes b data.length
      have h₂ := (b.ensureWritableBytes data.length).writer_le_size
      simp only [writableBytes] at h₁
      rw [length_overlay (by omega)]
      omega }

theorem readable_append (b : Buffer) (data : List Byte) :
    (b.append data).readable = b.readable ++ data := by
  have h₁ := (b.ensureWritableBytes data.length).reader_le_writer
  have h₂ := (b.ensureWritableBytes data.length).writer_le_size
  have hwin := window_overlay h₁ h₂ data
  rw [← readable_ensureWritableBytes b data.length]
  simpa [readable, readableBytes, append] using hwin

@[simp] theorem readableBytes_append (b : Buffer) (data : List Byte) :
    (b.append data).readableBytes = b.readableBytes + data.length := by
  rw [← length_readable, readable_append, List.length_append, length_readable]

/-! ## Reading from and writing to the socket -/

/-- The bytes the iovecs of `readFd` offer to `readv`: the writable area, and
`extraBuffer` behind it when the area is smaller than that. -/
def readFdCapacity (b : Buffer) : Nat :=
  if b.writableBytes < extraBufferSize then b.writableBytes + extraBufferSize
  else b.writableBytes

/-- `readv` filling the writable area first; the writer index stays. -/
def readvFill (b : Buffer) (chunk : List Byte) : Buffer :=
  { b with
    buffer := overlay b.buffer b.writerIndex (chunk.take b.writableBytes)
    writer_le_size := by
      have h := b.writer_le_size
      rw [length_overlay (by simp only [List.length_take, writableBytes]; omega)]
      exact h }

/-- `readFd` when `readv` delivers `chunk`: the first bytes go to the writable
area, the rest to `extraBuffer`. -/
def readFd (b : Buffer) (chunk : List Byte) : Buffer :=
  if h : chunk.length < b.writableBytes then
    { b.readvFill chunk with
      writerIndex := b.writerIndex + chunk.length
      reader_le_writer := Nat.le_trans b.reader_le_writer (Nat.le_add_right _ _)
      writer_le_size := by
        have hle := b.writer_le_size
        simp only [writableBytes] at h
        simp only [readvFill, writableBytes]
        rw [length_overlay (by simp only [List.length_take]; omega)]
        omega }
  else
    -- `extraBuffer`'s first `n - writable` bytes
    (b.readvFill chunk).append ((chunk.drop b.writableBytes).take
      (chunk.length - b.writableBytes))

/-- What `writeFd` passes to `write`: `beginWrite()` and `writableBytes()`. -/
def writeFdOffered (b : Buffer) : List Byte := b.writable

theorem readable_readvFill (b : Buffer) (chunk : List Byte) :
    (b.readvFill chunk).readable = b.readable := by
  have h₁ := b.reader_le_writer
  simp only [readable, readableBytes, readvFill]
  exact window_below b.writer_le_size (by omega)

/-- A chunk smaller than the writable area is taken whole; of a larger one
only what overflowed into `extraBuffer` becomes readable. -/
theorem readable_readFd (b : Buffer) (chunk : List Byte) :
    (b.readFd chunk).readable =
      if chunk.length < b.writableBytes then b.readable ++ chunk
      else b.readable ++ chunk.drop b.writableBytes := by
  unfold readFd
  split
  · rename_i hlt
    have hwin := window_overlay b.reader_le_writer b.writer_le_size chunk
    have htake : chunk.take b.writableBytes = chunk := List.take_of_length_le (by omega)
    simpa [readable, readableBytes, readvFill, htake] using hwin
  · rw [readable_append, readable_readvFill]
    congr 1
    exact List.take_of_length_le (by simp)

/-- The chunk is appended whole exactly when it leaves room in the writable
area or there was no such area. -/
theorem readable_readFd_eq_iff (b : Buffer) (chunk : List Byte) :
    (b.readFd chunk).readable = b.readable ++ chunk ↔
      chunk.length < b.writableBytes ∨ b.writableBytes = 0 := by
  rw [readable_readFd]
  split
  · rename_i hlt
    simp [hlt]
  · rename_i hge
    constructor
    · intro h
      right
      have hlen := congrArg List.length (List.append_cancel_left h)
      rw [List.length_drop] at hlen
      omega
    · rintro (hlt | hzero)
      · exact absurd hlt hge
      · simp [hzero]

end Buffer

end EchoServer
