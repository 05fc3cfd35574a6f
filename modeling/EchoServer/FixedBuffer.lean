import Mathlib.Algebra.Group.Nat.Defs
import Mathlib.Data.List.Basic
import EchoServer.Buffer

/-!
# FixedBuffer

The fixed-size buffers of the log: an array of `bufferSize` bytes, a pointer to
the next free one and a length. `valid` computes in `size_t`.

* `WF`: the pointer and the length agree and stay inside the array;
* `content_append`: a valid `append` adds its bytes to the content, whatever
  the array held before;
* `valid_of_empty`: an empty buffer takes every shorter record.
-/

namespace EchoServer

/-- `largeBufferSize`. -/
def largeBufferSize : Nat := 4096 * 1000

structure FixedBuffer (bufferSize : Nat) where
  /-- The array `data_`. -/
  data : Nat → Byte
  /-- `cur_ - data_`. -/
  cur : Nat
  length : Nat

/-- `memcpy` to position `i`. -/
def memcpy (data : Nat → Byte) (i : Nat) (bytes : List Byte) : Nat → Byte := fun j =>
  if i ≤ j ∧ j < i + bytes.length then bytes.getD (j - i) 0 else data j

/-- Subtraction in `size_t`. -/
def sizeSub (a b : Nat) : Nat := (a + 2 ^ 64 - b) % 2 ^ 64

theorem sizeSub_of_le {a b : Nat} (hle : b ≤ a) (ha : a < 2 ^ 64) : sizeSub a b = a - b := by
  unfold sizeSub
  omega

namespace FixedBuffer

variable {bufferSize : Nat}

/-- The constructor, and `bzero`. -/
def new : FixedBuffer bufferSize where
  data := fun _ => 0
  cur := 0
  length := 0

def valid (b : FixedBuffer bufferSize) (len : Nat) : Bool :=
  decide (len < sizeSub bufferSize b.length)

def add (b : FixedBuffer bufferSize) (len : Nat) : FixedBuffer bufferSize :=
  { b with cur := b.cur + len, length := b.length + len }

def append (b : FixedBuffer bufferSize) (bytes : List Byte) : FixedBuffer bufferSize :=
  if b.valid bytes.length then { b with data := memcpy b.data b.cur bytes }.add bytes.length else b

def reset (b : FixedBuffer bufferSize) : FixedBuffer bufferSize :=
  { b with cur := 0, length := 0 }

/-- The bytes `data()` and `length()` delimit. -/
def content (b : FixedBuffer bufferSize) : List Byte := (List.range b.length).map b.data

/-- The pointer is where the length says, inside the array. -/
structure WF (b : FixedBuffer bufferSize) : Prop where
  cur : b.cur = b.length
  length : b.length < bufferSize

@[simp] theorem content_new : (new : FixedBuffer bufferSize).content = [] := rfl

@[simp] theorem content_reset (b : FixedBuffer bufferSize) : b.reset.content = [] := rfl

@[simp] theorem length_content (b : FixedBuffer bufferSize) : b.content.length = b.length := by
  simp [content]

theorem new_wf (hsize : 0 < bufferSize) : (new : FixedBuffer bufferSize).WF := ⟨rfl, hsize⟩

theorem WF.reset {b : FixedBuffer bufferSize} (h : b.WF) : b.reset.WF :=
  ⟨rfl, Nat.zero_lt_of_lt h.length⟩

theorem WF.valid_iff {b : FixedBuffer bufferSize} (h : b.WF) (hsize : bufferSize < 2 ^ 64)
    (len : Nat) : b.valid len = true ↔ b.length + len < bufferSize := by
  have hlt := h.length
  rw [valid, decide_eq_true_iff, sizeSub_of_le (Nat.le_of_lt hlt) hsize]
  omega

theorem WF.append {b : FixedBuffer bufferSize} (h : b.WF) (hsize : bufferSize < 2 ^ 64)
    (bytes : List Byte) : (b.append bytes).WF := by
  unfold FixedBuffer.append
  split
  · rename_i hvalid
    have hroom := (h.valid_iff hsize bytes.length).mp hvalid
    have hcur := h.cur
    constructor
    · show b.cur + bytes.length = b.length + bytes.length
      omega
    · exact hroom
  · exact h

/-- Reading what has just been copied. -/
theorem map_memcpy (data : Nat → Byte) (i : Nat) (bytes : List Byte) :
    (List.range bytes.length).map (fun j => memcpy data i bytes (i + j)) = bytes := by
  refine List.ext_getElem (by simp) ?_
  intro j hj hj'
  simp only [List.getElem_map, List.getElem_range, memcpy]
  rw [if_pos ⟨Nat.le_add_right i j, Nat.add_lt_add_left hj' i⟩, Nat.add_sub_cancel_left]
  simp [List.getD_eq_getElem?_getD, hj']

theorem content_append {b : FixedBuffer bufferSize} (h : b.WF) {bytes : List Byte}
    (hvalid : b.valid bytes.length = true) : (b.append bytes).content = b.content ++ bytes := by
  have hcur := h.cur
  have hbelow : ∀ j ∈ List.range b.length, memcpy b.data b.cur bytes j = b.data j := by
    intro j hj
    have hlt := List.mem_range.mp hj
    unfold memcpy
    rw [if_neg]
    omega
  have happend : (b.append bytes).content =
      (List.range (b.length + bytes.length)).map (memcpy b.data b.cur bytes) := by
    rw [append, if_pos hvalid]
    rfl
  rw [happend, List.range_add, List.map_append, List.map_map, List.map_congr_left hbelow]
  show b.content ++ _ = b.content ++ bytes
  rw [hcur]
  exact congrArg _ (map_memcpy b.data b.length bytes)

/-- An empty buffer has room for every record shorter than itself. -/
theorem valid_of_empty {b : FixedBuffer bufferSize} (h : b.WF) (hsize : bufferSize < 2 ^ 64)
    (hempty : b.length = 0) {len : Nat} (hlen : len < bufferSize) : b.valid len = true := by
  rw [h.valid_iff hsize]
  omega

end FixedBuffer

/-! ## The buffers of the log -/

/-- A `FixedBuffer<largeBufferSize>` as its own members leave it. -/
structure LargeBuffer extends FixedBuffer largeBufferSize where
  wf : toFixedBuffer.WF

namespace LargeBuffer

theorem size_lt : largeBufferSize < 2 ^ 64 := by decide

def new : LargeBuffer where
  toFixedBuffer := .new
  wf := FixedBuffer.new_wf (by decide)

def append (b : LargeBuffer) (bytes : List Byte) : LargeBuffer where
  toFixedBuffer := b.toFixedBuffer.append bytes
  wf := b.wf.append size_lt bytes

def reset (b : LargeBuffer) : LargeBuffer where
  toFixedBuffer := b.toFixedBuffer.reset
  wf := b.wf.reset

@[simp] theorem content_new : new.content = [] := rfl

@[simp] theorem content_reset (b : LargeBuffer) : b.reset.content = [] := rfl

theorem content_append {b : LargeBuffer} {bytes : List Byte}
    (hvalid : b.valid bytes.length = true) :
    (b.append bytes).content = b.content ++ bytes :=
  FixedBuffer.content_append b.wf hvalid

/-- An empty buffer takes every record. -/
theorem content_append_of_empty {b : LargeBuffer} (hempty : b.content = []) {bytes : List Byte}
    (hshort : bytes.length < largeBufferSize) : (b.append bytes).content = bytes := by
  have hlength : b.length = 0 := by
    rw [← b.toFixedBuffer.length_content, hempty]
    rfl
  have hvalid := FixedBuffer.valid_of_empty b.wf size_lt hlength hshort
  rw [content_append hvalid, hempty, List.nil_append]

end LargeBuffer

end EchoServer
