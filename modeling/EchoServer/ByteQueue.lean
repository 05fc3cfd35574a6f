import EchoServer.Buffer
import EchoServer.FixedBuffer
import EchoServer.Lib.Runs

/-!
# Buffer is a byte queue

`RawBuffer` has the members of a `Buffer` and its operations as they are
computed: in `size_t`, where a difference wraps around below zero, with the
slide of `makeSpace` as a loop over overlapping bytes, and with no bound on the
indices given beforehand. It does what `Buffer`, which carries the bounds,
does (`raw_call`), and `Buffer` does what a list does (`readable_call`).

* `buffer_is_queue`: every run of operations whose sizes fit into `size_t`.
-/

namespace EchoServer

open Runs Overlay

/-- Addition in `size_t`. -/
def sizeAdd (a b : Nat) : Nat := (a + b) % 2 ^ 64

theorem sizeAdd_of_lt {a b : Nat} (h : a + b < 2 ^ 64) : sizeAdd a b = a + b :=
  Nat.mod_eq_of_lt h

/-- The members of `Buffer`. -/
structure RawBuffer where
  buffer : List Byte
  readerIndex : Nat
  writerIndex : Nat
deriving DecidableEq, Repr

/-- The calls of a user of the buffer. -/
inductive BufferOp where
  | append (data : List Byte)
  | ensureWritableBytes (len : Nat)
  | retrieve (len : Nat)
  | retrieveAll
  | retrieveAllAsString
  | retrieveAsString (len : Nat)
deriving DecidableEq, Repr

namespace RawBuffer

/-! ## Operations -/

def new (initialSize : Nat) : RawBuffer where
  buffer := List.replicate (sizeAdd cheapPrepend initialSize) 0
  readerIndex := cheapPrepend
  writerIndex := cheapPrepend

def readableBytes (b : RawBuffer) : Nat := sizeSub b.writerIndex b.readerIndex

def writableBytes (b : RawBuffer) : Nat := sizeSub b.buffer.length b.writerIndex

def prependableBytes (b : RawBuffer) : Nat := b.readerIndex

/-- What `makeSpace` compares with `len`. -/
def freeBytes (b : RawBuffer) : Nat :=
  sizeSub (sizeAdd b.writableBytes b.prependableBytes) cheapPrepend

/-- The string of `len` bytes from `peek()` on. -/
def peek (b : RawBuffer) (len : Nat) : List Byte := (b.buffer.drop b.readerIndex).take len

/-- The readable bytes. -/
def readable (b : RawBuffer) : List Byte := b.peek b.readableBytes

def retrieveAll (b : RawBuffer) : RawBuffer :=
  { b with readerIndex := cheapPrepend, writerIndex := cheapPrepend }

def retrieve (b : RawBuffer) (len : Nat) : RawBuffer :=
  if len < b.readableBytes then { b with readerIndex := sizeAdd b.readerIndex len }
  else b.retrieveAll

def retrieveAsString (b : RawBuffer) (len : Nat) : List Byte × RawBuffer :=
  (b.peek len, b.retrieve len)

def retrieveAllAsString (b : RawBuffer) : List Byte × RawBuffer :=
  b.retrieveAsString b.readableBytes

def makeSpace (b : RawBuffer) (len : Nat) : RawBuffer :=
  if b.freeBytes < len then { b with buffer := resize b.buffer (sizeAdd b.writerIndex len) }
  else
    { buffer := copyForward b.buffer b.readerIndex cheapPrepend
        (sizeSub b.writerIndex b.readerIndex)
      readerIndex := cheapPrepend
      writerIndex := sizeAdd cheapPrepend b.readableBytes }

def ensureWritableBytes (b : RawBuffer) (len : Nat) : RawBuffer :=
  if b.writableBytes < len then b.makeSpace len else b

def append (b : RawBuffer) (data : List Byte) : RawBuffer :=
  { b.ensureWritableBytes data.length with
    buffer := overlay (b.ensureWritableBytes data.length).buffer
      (b.ensureWritableBytes data.length).writerIndex data
    writerIndex := sizeAdd (b.ensureWritableBytes data.length).writerIndex data.length }

/-- What a call returns, and the buffer after it. -/
def call (b : RawBuffer) : BufferOp → List Byte × RawBuffer
  | .append data => ([], b.append data)
  | .ensureWritableBytes len => ([], b.ensureWritableBytes len)
  | .retrieve len => ([], b.retrieve len)
  | .retrieveAll => ([], b.retrieveAll)
  | .retrieveAllAsString => b.retrieveAllAsString
  | .retrieveAsString len => b.retrieveAsString len

def step (b : RawBuffer) (op : BufferOp) : RawBuffer := (b.call op).2

/-- The vector has to grow for `len` more bytes. -/
def Grows (b : RawBuffer) (len : Nat) : Prop :=
  b.buffer.length + b.readerIndex < b.writerIndex + cheapPrepend + len

/-- A size that the vector grows to fits into `size_t`, and no more bytes are
asked for than there are. -/
def Allowed (b : RawBuffer) : BufferOp → Prop
  | .append data => b.Grows data.length → b.writerIndex + data.length < 2 ^ 64
  | .ensureWritableBytes len => b.Grows len → b.writerIndex + len < 2 ^ 64
  | .retrieveAsString len => len ≤ b.readableBytes
  | _ => True

instance (b : RawBuffer) (op : BufferOp) : Decidable (b.Allowed op) := by
  cases op <;> unfold Allowed Grows <;> infer_instance

/-- The bounds on the indices, and that no difference wraps around. -/
structure InBounds (b : RawBuffer) : Prop where
  prepend_le_reader : cheapPrepend ≤ b.readerIndex
  reader_le_writer : b.readerIndex ≤ b.writerIndex
  writer_le_size : b.writerIndex ≤ b.buffer.length
  readableBytes : b.readerIndex + b.readableBytes = b.writerIndex
  writableBytes : b.writerIndex + b.writableBytes = b.buffer.length
  freeBytes : cheapPrepend + b.freeBytes = b.writableBytes + b.prependableBytes

end RawBuffer

/-! ## The queue -/

/-- The calls on a list of bytes that is taken from at the front. -/
def queueCall (q : List Byte) : BufferOp → List Byte × List Byte
  | .append data => ([], q ++ data)
  | .ensureWritableBytes _ => ([], q)
  | .retrieve len => ([], q.drop (min len q.length))
  | .retrieveAll => ([], [])
  | .retrieveAllAsString => (q, [])
  | .retrieveAsString len => (q.take len, q.drop len)

def queueStep (q : List Byte) (op : BufferOp) : List Byte := (queueCall q op).2

/-! ## The buffer that carries its bounds -/

namespace Buffer

/-- The members of the buffer. -/
def raw (b : Buffer) : RawBuffer := ⟨b.buffer, b.readerIndex, b.writerIndex⟩

def call (b : Buffer) : BufferOp → List Byte × Buffer
  | .append data => ([], b.append data)
  | .ensureWritableBytes len => ([], b.ensureWritableBytes len)
  | .retrieve len => ([], b.retrieve len)
  | .retrieveAll => ([], b.retrieveAll)
  | .retrieveAllAsString => b.retrieveAllAsString
  | .retrieveAsString len => b.retrieveAsString len

/-- The vector is no larger than `size_t` allows. -/
def Fits (b : Buffer) : Prop := b.buffer.length < 2 ^ 64

section
variable {b : Buffer}

theorem raw_readableBytes (h : b.Fits) : b.raw.readableBytes = b.readableBytes := by
  have h₂ := b.reader_le_writer
  have h₃ := b.writer_le_size
  exact sizeSub_of_le h₂ (Nat.lt_of_le_of_lt h₃ h)

theorem raw_writableBytes (h : b.Fits) : b.raw.writableBytes = b.writableBytes :=
  sizeSub_of_le b.writer_le_size h

theorem raw_freeBytes (h : b.Fits) :
    b.raw.freeBytes = b.writableBytes + b.prependableBytes - cheapPrepend := by
  have h₁ := b.prepend_le_reader
  have h₂ := b.reader_le_writer
  have h₃ := b.writer_le_size
  have hsum : b.writableBytes + b.prependableBytes < 2 ^ 64 := by
    simp only [Fits, writableBytes, prependableBytes] at *
    omega
  have hprependable : b.raw.prependableBytes = b.prependableBytes := rfl
  rw [RawBuffer.freeBytes, raw_writableBytes h, hprependable, sizeAdd_of_lt hsum]
  refine sizeSub_of_le ?_ hsum
  simp only [prependableBytes]
  omega

theorem raw_readable (h : b.Fits) : b.raw.readable = b.readable := by
  rw [RawBuffer.readable, raw_readableBytes h]
  rfl

theorem raw_inBounds (h : b.Fits) : b.raw.InBounds := by
  have h₁ := b.prepend_le_reader
  have h₂ := b.reader_le_writer
  have h₃ := b.writer_le_size
  refine ⟨h₁, h₂, h₃, ?_, ?_, ?_⟩
  · rw [raw_readableBytes h]
    exact Nat.add_sub_cancel' h₂
  · rw [raw_writableBytes h]
    exact Nat.add_sub_cancel' h₃
  · rw [raw_freeBytes h, raw_writableBytes h]
    show cheapPrepend + (b.writableBytes + b.readerIndex - cheapPrepend) =
      b.writableBytes + b.readerIndex
    omega

theorem raw_retrieve (h : b.Fits) (len : Nat) : (b.retrieve len).raw = b.raw.retrieve len := by
  have h₃ := b.writer_le_size
  rw [RawBuffer.retrieve, raw_readableBytes h, retrieve]
  by_cases hlen : len < b.readableBytes
  · have hsum : b.readerIndex + len < 2 ^ 64 := by
      simp only [Fits, readableBytes] at h hlen
      omega
    rw [dif_pos hlen, if_pos hlen]
    simp only [raw, sizeAdd_of_lt hsum]
  · rw [dif_neg hlen, if_neg hlen]
    rfl

theorem grows_iff (len : Nat) :
    b.raw.Grows len ↔ b.writableBytes + b.prependableBytes - cheapPrepend < len := by
  have h₁ := b.prepend_le_reader
  have h₃ := b.writer_le_size
  simp only [RawBuffer.Grows, raw, writableBytes, prependableBytes]
  omega

theorem raw_makeSpace (h : b.Fits) {len : Nat}
    (hlen : b.raw.Grows len → b.writerIndex + len < 2 ^ 64) :
    (b.makeSpace len).raw = b.raw.makeSpace len := by
  have h₁ := b.prepend_le_reader
  have h₂ := b.reader_le_writer
  have h₃ := b.writer_le_size
  rw [RawBuffer.makeSpace, raw_freeBytes h, makeSpace]
  by_cases hgrows : b.writableBytes + b.prependableBytes - cheapPrepend < len
  · rw [if_pos hgrows, if_pos hgrows]
    have hsum := hlen ((grows_iff len).mpr hgrows)
    simp only [raw, sizeAdd_of_lt hsum]
  · rw [if_neg hgrows, if_neg hgrows, raw_readableBytes h]
    have hcount : sizeSub b.raw.writerIndex b.raw.readerIndex = b.readableBytes :=
      raw_readableBytes h
    have hcopy : copyForward b.raw.buffer b.raw.readerIndex cheapPrepend b.readableBytes =
        overlay b.buffer cheapPrepend b.readable := by
      refine copyForward_eq_overlay h₁ ?_
      simp only [raw, readableBytes]
      omega
    have hsum : cheapPrepend + b.readableBytes < 2 ^ 64 := by
      simp only [Fits, readableBytes] at *
      omega
    rw [hcount, hcopy, sizeAdd_of_lt hsum]
    rfl

theorem raw_ensureWritableBytes (h : b.Fits) {len : Nat}
    (hlen : b.raw.Grows len → b.writerIndex + len < 2 ^ 64) :
    (b.ensureWritableBytes len).raw = b.raw.ensureWritableBytes len := by
  rw [RawBuffer.ensureWritableBytes, raw_writableBytes h, ensureWritableBytes]
  split
  · exact raw_makeSpace h hlen
  · rfl

theorem fits_ensureWritableBytes (h : b.Fits) {len : Nat}
    (hlen : b.raw.Grows len → b.writerIndex + len < 2 ^ 64) :
    (b.ensureWritableBytes len).Fits := by
  have h₁ := b.prepend_le_reader
  have h₂ := b.reader_le_writer
  have h₃ := b.writer_le_size
  unfold ensureWritableBytes makeSpace
  split
  · split
    · next hgrows =>
      simpa [Fits] using hlen ((grows_iff len).mpr hgrows)
    · rw [Fits, length_overlay (by simp only [length_readable, readableBytes]; omega)]
      exact h
  · exact h

theorem raw_append (h : b.Fits) {data : List Byte}
    (hlen : b.raw.Grows data.length → b.writerIndex + data.length < 2 ^ 64) :
    (b.append data).raw = b.raw.append data := by
  have hroom := writableBytes_ensureWritableBytes b data.length
  have hle := (b.ensureWritableBytes data.length).writer_le_size
  have hfits := fits_ensureWritableBytes h hlen
  have hsum : (b.ensureWritableBytes data.length).writerIndex + data.length < 2 ^ 64 := by
    simp only [Fits, writableBytes] at *
    omega
  rw [RawBuffer.append, ← raw_ensureWritableBytes h hlen]
  simp only [raw, append, sizeAdd_of_lt hsum]

theorem fits_append (h : b.Fits) {data : List Byte}
    (hlen : b.raw.Grows data.length → b.writerIndex + data.length < 2 ^ 64) :
    (b.append data).Fits := by
  have hroom := writableBytes_ensureWritableBytes b data.length
  have hle := (b.ensureWritableBytes data.length).writer_le_size
  have hsame : (b.append data).buffer.length = (b.ensureWritableBytes data.length).buffer.length := by
    simp only [append]
    refine length_overlay ?_
    simp only [writableBytes] at hroom
    omega
  rw [Fits, hsame]
  exact fits_ensureWritableBytes h hlen

theorem fits_retrieve (h : b.Fits) (len : Nat) : (b.retrieve len).Fits := by
  unfold retrieve
  split <;> exact h

/-- The raw buffer answers as the one with the bounds. -/
theorem raw_call (h : b.Fits) {op : BufferOp} (hop : b.raw.Allowed op) :
    (b.raw.call op).1 = (b.call op).1 ∧ (b.raw.call op).2 = (b.call op).2.raw ∧
      (b.call op).2.Fits := by
  cases op with
  | append data => exact ⟨rfl, (raw_append h hop).symm, fits_append h hop⟩
  | ensureWritableBytes len =>
    exact ⟨rfl, (raw_ensureWritableBytes h hop).symm, fits_ensureWritableBytes h hop⟩
  | retrieve len => exact ⟨rfl, (raw_retrieve h len).symm, fits_retrieve h len⟩
  | retrieveAll => exact ⟨rfl, rfl, h⟩
  | retrieveAllAsString =>
    simp only [RawBuffer.call, RawBuffer.retrieveAllAsString, raw_readableBytes h]
    exact ⟨rfl, (raw_retrieve h _).symm, fits_retrieve h _⟩
  | retrieveAsString len => exact ⟨rfl, (raw_retrieve h len).symm, fits_retrieve h len⟩

/-- On its readable bytes the buffer is the queue. -/
theorem readable_call (h : b.Fits) {op : BufferOp} (hop : b.raw.Allowed op) :
    (b.call op).1 = (queueCall b.readable op).1 ∧
      (b.call op).2.readable = queueStep b.readable op := by
  cases op with
  | append data => exact ⟨rfl, readable_append b data⟩
  | ensureWritableBytes len => exact ⟨rfl, readable_ensureWritableBytes b len⟩
  | retrieve len =>
    refine ⟨rfl, ?_⟩
    have hmin : b.readable.drop (min len b.readable.length) = b.readable.drop len := by
      rcases Nat.le_total len b.readable.length with hle | hge
      · rw [Nat.min_eq_left hle]
      · rw [Nat.min_eq_right hge, List.drop_length, List.drop_of_length_le hge]
    rw [queueStep, queueCall, hmin]
    exact readable_retrieve b len
  | retrieveAll => exact ⟨rfl, readable_retrieveAll b⟩
  | retrieveAllAsString =>
    exact ⟨retrieveAllAsString_fst b, readable_retrieveAllAsString b⟩
  | retrieveAsString len =>
    have hlen : len ≤ b.readableBytes := (raw_readableBytes h) ▸ hop
    exact ⟨retrieveAsString_fst b hlen, readable_retrieve b len⟩

end

end Buffer

/-! ## Runs -/

namespace RawBuffer

/-- The raw buffer is one that keeps the bounds, with `q` to be read from it. -/
def Holds (b : RawBuffer) (q : List Byte) : Prop :=
  ∃ c : Buffer, b = c.raw ∧ c.Fits ∧ c.readable = q

theorem Holds.inBounds {b : RawBuffer} {q : List Byte} (h : b.Holds q) : b.InBounds := by
  rcases h with ⟨c, rfl, hfits, _⟩
  exact c.raw_inBounds hfits

theorem Holds.readable {b : RawBuffer} {q : List Byte} (h : b.Holds q) : b.readable = q := by
  rcases h with ⟨c, rfl, hfits, hq⟩
  rw [Buffer.raw_readable hfits, hq]

theorem Holds.call {b : RawBuffer} {q : List Byte} (h : b.Holds q) {op : BufferOp}
    (hop : b.Allowed op) :
    (b.call op).1 = (queueCall q op).1 ∧ (b.step op).Holds (queueStep q op) := by
  rcases h with ⟨c, rfl, hfits, rfl⟩
  rcases Buffer.raw_call hfits hop with ⟨hanswer, hraw, hfits'⟩
  rcases Buffer.readable_call hfits hop with ⟨hqueue, hreadable⟩
  exact ⟨hanswer.trans hqueue, _, hraw, hfits', hreadable⟩

theorem holds_new {initialSize : Nat} (h : cheapPrepend + initialSize < 2 ^ 64) :
    (new initialSize).Holds [] := by
  refine ⟨Buffer.new initialSize, ?_, ?_, Buffer.readable_new initialSize⟩
  · rw [new, sizeAdd_of_lt h]
    rfl
  · simpa [Buffer.Fits, Buffer.new] using h

theorem holds_run {b : RawBuffer} {q : List Byte} (h : b.Holds q) {ops : List BufferOp}
    (hops : EachStep step b Allowed ops) : (run step b ops).Holds (run queueStep q ops) := by
  induction ops generalizing b q with
  | nil => exact h
  | cons op ops ih =>
    rcases eachStep_cons.mp hops with ⟨hop, hrest⟩
    exact ih (h.call hop).2 hrest

/-- After `ensureWritableBytes(len)` there is room for `len` bytes. -/
def MakesRoom (b : RawBuffer) (op : BufferOp) : Prop :=
  ∀ len, op = .ensureWritableBytes len →
    len ≤ (b.step op).writableBytes ∧ (b.step op).readable = b.readable

theorem Holds.makesRoom {b : RawBuffer} {q : List Byte} (h : b.Holds q) {op : BufferOp}
    (hop : b.Allowed op) : b.MakesRoom op := by
  rintro len rfl
  have hstep := (h.call hop).2
  refine ⟨?_, ?_⟩
  · rcases h with ⟨c, rfl, hfits, _⟩
    have hroom := c.writableBytes_ensureWritableBytes len
    rcases Buffer.raw_call hfits hop with ⟨_, hraw, hfits'⟩
    rw [step, hraw, Buffer.raw_writableBytes hfits']
    exact hroom
  · rw [hstep.readable, h.readable]
    rfl

/-- Over all uses in which no sum overflows `size_t`, the buffer stays in bounds, makes
the room it is asked for, and holds and returns what a queue of bytes would. -/
theorem buffer_is_queue {initialSize : Nat} (hsize : cheapPrepend + initialSize < 2 ^ 64)
    (ops : List BufferOp) (hops : EachStep step (new initialSize) Allowed ops) :
    Always step (new initialSize) InBounds ops ∧
      EachStep step (new initialSize) MakesRoom ops ∧
      ∀ pre, pre <+: ops → (run step (new initialSize) pre).readable = run queueStep [] pre ∧
        ∀ op, pre ++ [op] <+: ops →
          ((run step (new initialSize) pre).call op).1 = (queueCall (run queueStep [] pre) op).1 := by
  have hholds : ∀ pre, pre <+: ops →
      (run step (new initialSize) pre).Holds (run queueStep [] pre) :=
    fun pre hpre => holds_run (holds_new hsize) (hops.of_prefix hpre)
  refine ⟨?_, ?_, ?_⟩
  · intro pre hpre
    exact (hholds pre hpre).inBounds
  · intro pre op hpre
    exact (hholds pre ((List.prefix_append pre [op]).trans hpre)).makesRoom (hops pre op hpre)
  · intro pre hpre
    refine ⟨(hholds pre hpre).readable, fun op hop => ?_⟩
    exact ((hholds pre hpre).call (hops pre op hop)).1

/-- The vector grows, is read in part, slides and is emptied. -/
def sampleOps : List BufferOp :=
  [.append [1, 2, 3, 4], .retrieveAsString 3, .append [5, 6, 7], .ensureWritableBytes 6,
    .retrieve 100, .retrieveAllAsString]

theorem buffer_is_queue_sample :
    Always step (new 2) InBounds sampleOps ∧
      EachStep step (new 2) MakesRoom sampleOps ∧
      ∀ pre, pre <+: sampleOps → (run step (new 2) pre).readable = run queueStep [] pre ∧
        ∀ op, pre ++ [op] <+: sampleOps →
          ((run step (new 2) pre).call op).1 = (queueCall (run queueStep [] pre) op).1 :=
  buffer_is_queue (by decide) sampleOps (by decide)

end RawBuffer

end EchoServer
