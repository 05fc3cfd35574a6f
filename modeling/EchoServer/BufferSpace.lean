import Mathlib.Order.MinMax
import EchoServer.ByteQueue

/-!
# The space a buffer takes

The vector of a buffer grows only when the bytes to come do not fit beside those to
be read, and then by just these bytes behind the writer index. What has been read
in front of them is not used, so up to half of the vector may lie idle, but not more.

* `length_ensureWritableBytes_le`: how far one call lets the vector grow;
* `RawBuffer.readFd`, `raw_readFd`: `readFd` in `size_t`;
* `space_bounded`: the vector is never larger than twice what the buffer had to hold
  at one time, and no computation in `size_t` overflows.
-/

namespace EchoServer

open Runs Overlay

namespace Buffer

variable {b : Buffer}

/-- A vector that grows has less than `len + 8` idle bytes in front and behind. -/
theorem length_ensureWritableBytes_le (b : Buffer) (len : Nat) :
    (b.ensureWritableBytes len).buffer.length ≤
      max b.buffer.length (b.readableBytes + 2 * len + 7) := by
  have hprepend := b.prepend_le_reader
  have hreader := b.reader_le_writer
  have hwriter := b.writer_le_size
  have height : cheapPrepend = 8 := rfl
  unfold ensureWritableBytes makeSpace
  split
  · split
    · rename_i hgrows
      apply le_max_of_le_right
      simp only [length_resize]
      simp only [readableBytes, writableBytes, prependableBytes] at *
      omega
    · -- sliding keeps the vector
      apply le_max_of_le_left
      rw [length_overlay (by simp only [length_readable, readableBytes]; omega)]
  · exact Nat.le_max_left _ _

theorem length_append (b : Buffer) (data : List Byte) :
    (b.append data).buffer.length = (b.ensureWritableBytes data.length).buffer.length := by
  have hroom := writableBytes_ensureWritableBytes b data.length
  have hwriter := (b.ensureWritableBytes data.length).writer_le_size
  simp only [append]
  apply length_overlay
  simp only [writableBytes] at hroom
  omega

theorem length_retrieve (b : Buffer) (len : Nat) :
    (b.retrieve len).buffer.length = b.buffer.length := by
  unfold retrieve
  split
  · rfl
  · rfl

theorem length_readvFill (b : Buffer) (chunk : List Byte) :
    (b.readvFill chunk).buffer.length = b.buffer.length := by
  have hwriter := b.writer_le_size
  apply length_overlay
  rw [List.length_take, writableBytes]
  omega

theorem length_readFd_le (b : Buffer) (chunk : List Byte) :
    (b.readFd chunk).buffer.length ≤
      max b.buffer.length (b.readableBytes + 2 * chunk.length + 7) := by
  unfold readFd
  split
  · apply le_max_of_le_left
    exact Nat.le_of_eq (length_readvFill b chunk)
  · have hfilled : (b.readvFill chunk).readableBytes = b.readableBytes := rfl
    have hle := length_ensureWritableBytes_le (b.readvFill chunk) (chunk.length - b.writableBytes)
    have hmore : ((chunk.drop b.writableBytes).take (chunk.length - b.writableBytes)).length =
        chunk.length - b.writableBytes := by
      rw [List.length_take, List.length_drop, Nat.min_self]
    rw [length_readvFill, hfilled] at hle
    rw [length_append, hmore]
    omega

end Buffer

/-! ## Reading in size_t -/

namespace RawBuffer

/-- `readFd`, when `readv` delivers `chunk`. -/
def readFd (b : RawBuffer) (chunk : List Byte) : RawBuffer :=
  let filled :=
    { b with buffer := overlay b.buffer b.writerIndex (chunk.take b.writableBytes) }
  if chunk.length < b.writableBytes then
    { filled with writerIndex := sizeAdd b.writerIndex chunk.length }
  else
    filled.append ((chunk.drop b.writableBytes).take (sizeSub chunk.length b.writableBytes))

end RawBuffer

namespace Buffer

variable {b : Buffer}

theorem fits_readvFill (h : b.Fits) (chunk : List Byte) : (b.readvFill chunk).Fits := by
  rw [Fits, length_readvFill]
  exact h

theorem raw_readFd (h : b.Fits) {chunk : List Byte} (hchunk : chunk.length < 2 ^ 64)
    (hgrows : b.raw.Grows (chunk.length - b.writableBytes) →
      b.writerIndex + (chunk.length - b.writableBytes) < 2 ^ 64) :
    (b.readFd chunk).raw = b.raw.readFd chunk := by
  have hwriter := b.writer_le_size
  rw [RawBuffer.readFd, raw_writableBytes h, readFd]
  by_cases hlt : chunk.length < b.writableBytes
  · have hsum : b.writerIndex + chunk.length < 2 ^ 64 := by
      simp only [Fits, writableBytes] at h hlt
      omega
    rw [dif_pos hlt, if_pos hlt]
    show RawBuffer.mk _ _ _ = RawBuffer.mk _ _ _
    rw [show sizeAdd b.raw.writerIndex chunk.length = b.writerIndex + chunk.length from
      sizeAdd_of_lt hsum]
    rfl
  · rw [dif_neg hlt, if_neg hlt, sizeSub_of_le (Nat.not_lt.mp hlt) hchunk]
    have hmore : ((chunk.drop b.writableBytes).take (chunk.length - b.writableBytes)).length =
        chunk.length - b.writableBytes := by
      rw [List.length_take, List.length_drop, Nat.min_self]
    refine raw_append (fits_readvFill h chunk) ?_
    rw [hmore]
    intro hfilled
    apply hgrows
    simp only [RawBuffer.Grows, raw, length_readvFill] at hfilled ⊢
    exact hfilled

end Buffer

/-! ## Runs -/

/-- What is done with a buffer: calls of its user, and reads from the socket. -/
inductive BufferUse where
  | call (op : BufferOp)
  | readFd (chunk : List Byte)
deriving DecidableEq, Repr

namespace RawBuffer

def use (b : RawBuffer) : BufferUse → RawBuffer
  | .call op => b.step op
  | .readFd chunk => b.readFd chunk

/-- The buffer holds no more than `m` bytes, those asked for or to come included. -/
def Demands (m : Nat) (b : RawBuffer) : BufferUse → Prop
  | .call (.append data) => b.readableBytes + data.length ≤ m
  | .call (.ensureWritableBytes len) => b.readableBytes + len ≤ m
  | .call (.retrieveAsString len) => len ≤ b.readableBytes
  | .call _ => True
  | .readFd chunk => b.readableBytes + chunk.length ≤ m

instance (m : Nat) (b : RawBuffer) (u : BufferUse) : Decidable (b.Demands m u) := by
  unfold Demands
  split <;> infer_instance

/-- Every size that the vector grows to fits into `size_t`. -/
def NoOverflow (b : RawBuffer) : BufferUse → Prop
  | .call op => b.Allowed op
  | .readFd chunk => ¬ chunk.length < b.writableBytes →
      b.Grows (sizeSub chunk.length b.writableBytes) →
        b.writerIndex + sizeSub chunk.length b.writableBytes < 2 ^ 64

/-- A buffer that keeps its bounds, in a vector of at most `size` bytes. -/
def Within (size : Nat) (b : RawBuffer) : Prop :=
  ∃ c : Buffer, b = c.raw ∧ c.buffer.length ≤ size

section
variable {m size : Nat}

theorem fits_of_le (hsize : size < 2 ^ 64) {c : Buffer} (h : c.buffer.length ≤ size) : c.Fits :=
  Nat.lt_of_le_of_lt h hsize

/-- A size that is grown to stays below twice what has to be held. -/
theorem grown_le {c : Buffer} {len : Nat} (hlen : c.readableBytes + len ≤ m)
    (hgrows : c.raw.Grows len) : c.writerIndex + len ≤ 2 * m + 7 := by
  have hprepend := c.prepend_le_reader
  have hreader := c.reader_le_writer
  have hwriter := c.writer_le_size
  have height : cheapPrepend = 8 := rfl
  simp only [Grows, Buffer.raw, Buffer.readableBytes] at *
  omega

theorem Within.use {b : RawBuffer} (h : b.Within size) (hsize : size < 2 ^ 64)
    (hm : 2 * m + 7 ≤ size) {u : BufferUse} (hu : b.Demands m u) :
    b.NoOverflow u ∧ (b.use u).Within size := by
  rcases h with ⟨c, rfl, hle⟩
  have hfits := fits_of_le hsize hle
  have hreadable := Buffer.raw_readableBytes hfits
  have hgrown : ∀ len, c.readableBytes + len ≤ m → c.raw.Grows len →
      c.writerIndex + len < 2 ^ 64 := by
    intro len hlen hgrows
    have hgrownTo := grown_le hlen hgrows
    omega
  cases u with
  | call op =>
    have hallowed : c.raw.Allowed op := by
      cases op with
      | append data => exact hgrown data.length (hreadable ▸ hu)
      | ensureWritableBytes len => exact hgrown len (hreadable ▸ hu)
      | retrieveAsString len => exact hu
      | _ => trivial
    refine ⟨hallowed, (c.call op).2, (Buffer.raw_call hfits hallowed).2.1, ?_⟩
    cases op with
    | append data =>
      have hlen : c.readableBytes + data.length ≤ m := hreadable ▸ hu
      have hgrows := c.length_ensureWritableBytes_le data.length
      show (c.append data).buffer.length ≤ size
      rw [c.length_append data]
      omega
    | ensureWritableBytes len =>
      have hlen : c.readableBytes + len ≤ m := hreadable ▸ hu
      have hgrows := c.length_ensureWritableBytes_le len
      show (c.ensureWritableBytes len).buffer.length ≤ size
      omega
    | retrieveAll => exact hle
    | retrieve len | retrieveAsString len =>
      show (c.retrieve len).buffer.length ≤ size
      rw [c.length_retrieve len]
      exact hle
    | retrieveAllAsString =>
      show (c.retrieve c.readableBytes).buffer.length ≤ size
      rw [c.length_retrieve c.readableBytes]
      exact hle
  | readFd chunk =>
    have hlen : c.readableBytes + chunk.length ≤ m := hreadable ▸ hu
    have hchunk : chunk.length < 2 ^ 64 := by omega
    have hmore : c.raw.Grows (chunk.length - c.writableBytes) →
        c.writerIndex + (chunk.length - c.writableBytes) < 2 ^ 64 :=
      hgrown (chunk.length - c.writableBytes) (by omega)
    refine ⟨?_, c.readFd chunk, (Buffer.raw_readFd hfits hchunk hmore).symm, ?_⟩
    · intro hextra
      rw [Buffer.raw_writableBytes hfits] at hextra ⊢
      rw [sizeSub_of_le (Nat.not_lt.mp hextra) hchunk]
      exact hmore
    · have hgrows := c.length_readFd_le chunk
      omega

end

theorem new_within {n size : Nat} (hle : cheapPrepend + n ≤ size) (hsize : size < 2 ^ 64) :
    (new n).Within size := by
  refine ⟨Buffer.new n, ?_, ?_⟩
  · rw [new, sizeAdd_of_lt (Nat.lt_of_le_of_lt hle hsize)]
    rfl
  · simpa [Buffer.new] using hle

/-- A buffer that never has to hold more than `m` bytes at one time never takes more than
`2 * m + 7`, or what it started with; so below half of `size_t` nothing overflows. -/
theorem space_bounded {n m : Nat} (hn : cheapPrepend + n < 2 ^ 64) (hm : 2 * m + 7 < 2 ^ 64)
    (us : List BufferUse) (hus : EachStep use (new n) (Demands m) us) :
    EachStep use (new n) NoOverflow us ∧
      Always use (new n) (fun b => b.InBounds ∧
        b.buffer.length ≤ max (cheapPrepend + n) (2 * m + 7)) us := by
  have hsize : max (cheapPrepend + n) (2 * m + 7) < 2 ^ 64 := max_lt hn hm
  have hwithin : Always use (new n) (Within (max (cheapPrepend + n) (2 * m + 7))) us := by
    refine always_of_eachStep (new_within (Nat.le_max_left _ _) hsize) ?_ hus
    intro b u h hu
    exact (h.use hsize (Nat.le_max_right _ _) hu).2
  constructor
  · intro pre u hpre
    have h := hwithin pre ((List.prefix_append pre [u]).trans hpre)
    exact (h.use hsize (Nat.le_max_right _ _) (hus pre u hpre)).1
  · refine hwithin.mono ?_
    rintro b ⟨c, rfl, hle⟩
    exact ⟨c.raw_inBounds (fits_of_le hsize hle), hle⟩

/-- Four bytes at most are held, and the vector grows to 14. -/
def fullHalf : List BufferUse :=
  [.readFd [1, 2, 3], .call (.retrieve 2), .call (.append [4, 5, 6]), .call .retrieveAllAsString,
    .readFd [7]]

theorem space_bounded_full :
    EachStep use (new 0) NoOverflow fullHalf ∧
      Always use (new 0) (fun b => b.InBounds ∧
        b.buffer.length ≤ max (cheapPrepend + 0) (2 * 4 + 7)) fullHalf :=
  space_bounded (by decide) (by decide) fullHalf (by decide)

end RawBuffer

end EchoServer
