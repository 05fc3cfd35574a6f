import Mathlib.Algebra.Group.Int.Defs
import Mathlib.Algebra.Group.Nat.Defs
import EchoServer.FixedBuffer
import EchoServer.Lib.Decimal
import EchoServer.Lib.Runs

/-!
# LogStream

The stream a log record is put together in: a `FixedBuffer` of 4096 bytes and
the overloads of `operator<<`. Strings go through `append`. `formatInteger`
writes through the pointer `current()` instead: the digits from the last one on,
the sign and a NUL, and then it turns them round in place.

The offsets from `data_` at which anything is stored are recorded in `stores`.

* `content_formatInteger`: what `formatInteger` adds to the content;
* `insertions_atomic`: the buffer stays well-formed, no store is outside of it,
  and an insertion is added whole or not at all;
* `integer_faithful_iff`: every number but 0 is added as its decimal text.
-/

namespace EchoServer

open Runs Decimal

/-! ## Bytes and characters -/

def ascii (text : List Char) : List Byte := text.map fun c => UInt8.ofNat c.toNat

def chars (bytes : List Byte) : List Char := bytes.map fun b => Char.ofNat b.toNat

@[simp] theorem length_ascii (text : List Char) : (ascii text).length = text.length := by
  simp [ascii]

/-- One byte a character. -/
def IsAscii (text : List Char) : Prop := ∀ c ∈ text, c.toNat < 128

theorem IsAscii.append {text more : List Char} (h : IsAscii text) (h' : IsAscii more) :
    IsAscii (text ++ more) := by
  intro c hc
  rcases List.mem_append.mp hc with hc | hc
  · exact h c hc
  · exact h' c hc

theorem IsAscii.cons {c : Char} {text : List Char} (hc : c.toNat < 128) (h : IsAscii text) :
    IsAscii (c :: text) := by
  intro c' hc'
  rcases List.mem_cons.mp hc' with rfl | hc'
  · exact hc
  · exact h c' hc'

theorem IsAscii.leftpad {text : List Char} (h : IsAscii text) {c : Char} (hc : c.toNat < 128)
    (w : Nat) : IsAscii (text.leftpad w c) := by
  refine IsAscii.append ?_ h
  intro c' hc'
  rw [List.eq_of_mem_replicate hc']
  exact hc

theorem isAscii_toDigits (n : Nat) : IsAscii (Nat.toDigits 10 n) := by
  intro c hc
  have hdigit := Nat.isDigit_of_mem_toDigits (by decide) (by decide) hc
  simp only [Char.isDigit, Bool.and_eq_true, decide_eq_true_eq] at hdigit
  have hle : c.toNat ≤ 57 := UInt32.le_iff_toNat_le.mp hdigit.2
  omega

theorem isAscii_render (v : Int) : IsAscii (render v) := by
  by_cases hneg : v < 0
  · rw [render_of_neg hneg]
    exact (isAscii_toDigits _).cons (by decide)
  · rw [render_of_nonneg (by omega)]
    exact isAscii_toDigits _

theorem chars_ascii {text : List Char} (h : IsAscii text) : chars (ascii text) = text := by
  induction text with
  | nil => rfl
  | cons c text ih =>
    have hc : (UInt8.ofNat c.toNat).toNat = c.toNat := by
      have := h c (List.mem_cons_self ..)
      rw [UInt8.toNat_ofNat']
      omega
    have htail := ih fun c' hc' => h c' (List.mem_cons_of_mem _ hc')
    show Char.ofNat (UInt8.ofNat c.toNat).toNat :: chars (ascii text) = _
    rw [hc, htail, Char.ofNat_toNat]

/-! ## The integer types -/

/-- The types `operator<<` is overloaded for, with the widths of LP64. -/
inductive IntType where
  | short
  | unsignedShort
  | int
  | unsignedInt
  | long
  | unsignedLong
  | longLong
  | unsignedLongLong
deriving DecidableEq, Repr

namespace IntType

def signed : IntType → Bool
  | .short => true
  | .int => true
  | .long => true
  | .longLong => true
  | _ => false

def bits : IntType → Nat
  | .short => 16
  | .unsignedShort => 16
  | .int => 32
  | .unsignedInt => 32
  | _ => 64

def min (t : IntType) : Int := if t.signed then -2 ^ (t.bits - 1) else 0

def max (t : IntType) : Int := if t.signed then 2 ^ (t.bits - 1) - 1 else 2 ^ t.bits - 1

/-- The values of the type. -/
structure Value (t : IntType) where
  num : Int
  min_le : t.min ≤ num
  le_max : num ≤ t.max

theorem min_nonpos (t : IntType) : t.min ≤ 0 := by
  cases t <;> decide

theorem max_nonneg (t : IntType) : 0 ≤ t.max := by
  cases t <;> decide

/-- `num / 10`. -/
def Value.div10 {t : IntType} (v : t.Value) : t.Value where
  num := v.num.tdiv 10
  min_le := by
    have hmin := t.min_nonpos
    have hle := v.min_le
    rw [tdiv_eq]
    omega
  le_max := by
    have hmax := t.max_nonneg
    have hle := v.le_max
    rw [tdiv_eq]
    omega

end IntType

/-! ## The stream -/

/-- `smallBufferSize`. -/
def smallBufferSize : Nat := 4096

theorem smallBufferSize_lt : smallBufferSize < 2 ^ 64 := by decide

structure LogStream where
  buffer : FixedBuffer smallBufferSize
  /-- The offsets from `data_` at which something has been stored. -/
  stores : List Nat

/-- A `char*` into `data_`, and what has been stored through it. -/
structure Cursor where
  data : Nat → Byte
  cur : Nat
  stores : List Nat

namespace Cursor

/-- `*cur = b; cur++`. -/
def put (c : Cursor) (b : Byte) : Cursor where
  data := memcpy c.data c.cur [b]
  cur := c.cur + 1
  stores := c.stores ++ [c.cur]

end Cursor

namespace LogStream

def new : LogStream := ⟨.new, []⟩

def content (s : LogStream) : List Byte := s.buffer.content

/-- `buffer_.append`. -/
def append (s : LogStream) (bytes : List Byte) : LogStream where
  buffer := s.buffer.append bytes
  stores :=
    if s.buffer.valid bytes.length then s.stores ++ List.range' s.buffer.cur bytes.length
    else s.stores

def bufferReset (s : LogStream) : LogStream := { s with buffer := s.buffer.reset }

/-- `maxNumSize`. -/
def maxNumSize : Nat := 32

def digits : List Byte := ascii "9876543210123456789".toList

/-- `zero[remainder]`, where `zero` is `digits + 9`. -/
def zero (remainder : Int) : Byte := digits.getD (9 + remainder).toNat 0

/-- `while(num!=0)`. -/
def digitLoop {t : IntType} (c : Cursor) (num : t.Value) : Cursor :=
  if num.num = 0 then c else digitLoop (c.put (zero (num.num.tmod 10))) num.div10
termination_by num.num.natAbs
decreasing_by
  show (num.num.tdiv 10).natAbs < num.num.natAbs
  rw [tdiv_eq]
  omega

/-- `std::reverse`. -/
def reverse (data : Nat → Byte) (first last : Nat) : Nat → Byte := fun j =>
  if first ≤ j ∧ j < last then data (first + (last - 1 - j)) else data j

/-- The digits and the sign, the last digit first. -/
def putInteger {t : IntType} (c : Cursor) (num : t.Value) : Cursor :=
  if num.num < 0 then (digitLoop c num).put (UInt8.ofNat '-'.toNat) else digitLoop c num

def formatInteger {t : IntType} (s : LogStream) (num : t.Value) : LogStream :=
  if s.buffer.valid maxNumSize then
    let start := s.buffer.cur
    let c := putInteger ⟨s.buffer.data, start, s.stores⟩ num
    -- `*cur = '\0'`, which is not counted
    let data := memcpy c.data c.cur [0]
    { buffer := { s.buffer with data := reverse data start c.cur }.add (c.cur - start)
      stores := c.stores ++ [c.cur] ++ List.range' start (c.cur - start) }
  else s

end LogStream

/-- A pointer and a length. -/
structure GeneralTemplate where
  data : List Byte
  len : Nat
  len_le : len ≤ data.length

/-- The right operands of `operator<<`; a `float` is converted to `double`. -/
inductive Insertion where
  | bool (express : Bool)
  | integer {t : IntType} (number : t.Value)
  /-- `text` is what `%.12g` prints. -/
  | double (text : List Byte)
  | char (c : Byte)
  /-- `const char*` and `const unsigned char*`: the memory from there on. -/
  | cString (str : List Byte)
  | string (str : List Byte)
  | general (g : GeneralTemplate)

/-- What the insertion shows. -/
def Insertion.rendering : Insertion → List Byte
  | .bool express => ascii (if express then "true" else "false").toList
  | .integer number => ascii (render number.num)
  -- `snprintf` leaves at most 31 characters in its buffer
  | .double text => text.take 31
  | .char c => [c]
  | .cString str => str.takeWhile (· ≠ 0)
  | .string str => str
  | .general g => g.data.take g.len

namespace LogStream

/-- `operator<<`. -/
def insert (s : LogStream) : Insertion → LogStream
  | .bool express => s.append (ascii (if express then "true" else "false").toList)
  | .integer number => s.formatInteger number
  | .double text => s.append (text.take 31)
  | .char c => s.append [c]
  | .cString str => s.append (str.takeWhile (· ≠ 0))
  | .string str => s.append str
  | .general g => s.append (g.data.take g.len)

inductive Op where
  | insert (i : Insertion)
  | bufferReset

def step (s : LogStream) : Op → LogStream
  | .insert i => s.insert i
  | .bufferReset => s.bufferReset

/-! ## Stores through a pointer -/

end LogStream

namespace Cursor

/-- `put`, for several bytes. -/
def puts (c : Cursor) (bytes : List Byte) : Cursor where
  data := memcpy c.data c.cur bytes
  cur := c.cur + bytes.length
  stores := c.stores ++ List.range' c.cur bytes.length

theorem memcpy_nil (data : Nat → Byte) (i : Nat) : memcpy data i [] = data := by
  funext j
  have hnot : ¬ (i ≤ j ∧ j < i + ([] : List Byte).length) := by simp
  exact if_neg hnot

theorem memcpy_memcpy (data : Nat → Byte) (i : Nat) (bytes more : List Byte) :
    memcpy (memcpy data i bytes) (i + bytes.length) more = memcpy data i (bytes ++ more) := by
  funext j
  simp only [memcpy, List.length_append]
  by_cases hmore : i + bytes.length ≤ j ∧ j < i + bytes.length + more.length
  · have hall : i ≤ j ∧ j < i + (bytes.length + more.length) := by omega
    have hindex : j - i = bytes.length + (j - (i + bytes.length)) := by omega
    rw [if_pos hmore, if_pos hall, hindex]
    simp [List.getD_eq_getElem?_getD, List.getElem?_append_right]
  · rw [if_neg hmore]
    by_cases hbytes : i ≤ j ∧ j < i + bytes.length
    · have hall : i ≤ j ∧ j < i + (bytes.length + more.length) := by omega
      have hindex : j - i < bytes.length := by omega
      rw [if_pos hbytes, if_pos hall]
      simp [List.getD_eq_getElem?_getD, List.getElem?_append_left hindex]
    · have hnot : ¬ (i ≤ j ∧ j < i + (bytes.length + more.length)) := by omega
      rw [if_neg hbytes, if_neg hnot]

theorem puts_nil (c : Cursor) : c.puts [] = c := by
  simp [puts, memcpy_nil]

theorem puts_put (c : Cursor) (b : Byte) (bytes : List Byte) :
    (c.put b).puts bytes = c.puts (b :: bytes) := by
  have hdata := memcpy_memcpy c.data c.cur [b] bytes
  simp only [List.length_singleton, List.singleton_append] at hdata
  simp only [puts, put, hdata, Cursor.mk.injEq, true_and]
  constructor
  · simp only [List.length_cons]
    omega
  · simp [List.range'_succ]

theorem put_puts (c : Cursor) (bytes : List Byte) (b : Byte) :
    (c.puts bytes).put b = c.puts (bytes ++ [b]) := by
  have hdata := memcpy_memcpy c.data c.cur bytes [b]
  simp only [puts, put, hdata, Cursor.mk.injEq, true_and]
  constructor
  · simp only [List.length_append, List.length_singleton]
    omega
  · simp [List.range'_concat]

end Cursor

namespace LogStream

/-! ## The digits -/

theorem zero_eq : ∀ n : Nat, n < 10 → zero n = UInt8.ofNat n.digitChar.toNat ∧
    zero (-n) = UInt8.ofNat n.digitChar.toNat := by
  decide

/-- The table serves remainders of either sign. -/
theorem zero_tmod (v : Int) :
    zero (v.tmod 10) = UInt8.ofNat (v.natAbs % 10).digitChar.toNat := by
  have hdigit := zero_eq (v.natAbs % 10) (by omega)
  by_cases h : 0 ≤ v
  · have hmod : v.tmod 10 = ((v.natAbs % 10 : Nat) : Int) := by
      rw [tmod_eq, if_pos h]
      omega
    rw [hmod]
    exact hdigit.1
  · have hmod : v.tmod 10 = -((v.natAbs % 10 : Nat) : Int) := by
      rw [tmod_eq, if_neg h]
      omega
    rw [hmod]
    exact hdigit.2

/-- What the loop stores: the digits, the last one first, and nothing for 0. -/
def reversedDigits (n : Nat) : List Byte :=
  if n = 0 then [] else (ascii (Nat.toDigits 10 n)).reverse

theorem reversedDigits_eq {n : Nat} (h : n ≠ 0) :
    reversedDigits n = UInt8.ofNat (n % 10).digitChar.toNat :: reversedDigits (n / 10) := by
  by_cases hsmall : n < 10
  · have hdiv : n / 10 = 0 := by omega
    have hmod : n % 10 = n := by omega
    rw [reversedDigits, if_neg h, hdiv, hmod, Nat.toDigits_of_lt_base hsmall]
    rfl
  · have hdiv : n / 10 ≠ 0 := by omega
    rw [reversedDigits, if_neg h, reversedDigits, if_neg hdiv,
      Nat.toDigits_of_base_le (by decide) (by omega : 10 ≤ n)]
    simp [ascii]

theorem natAbs_tdiv_ten (v : Int) : (v.tdiv 10).natAbs = v.natAbs / 10 := by
  rw [tdiv_eq]
  omega

/-- The loop, by induction on the number that is left. -/
theorem digitLoop_eq {t : IntType} (c : Cursor) (num : t.Value) :
    digitLoop c num = c.puts (reversedDigits num.num.natAbs) := by
  induction c, num using digitLoop.induct with
  | case1 c num hzero =>
    rw [digitLoop, if_pos hzero, hzero]
    exact (Cursor.puts_nil c).symm
  | case2 c num hnonzero ih =>
    have hpos : num.num.natAbs ≠ 0 := by omega
    have hdiv : num.div10.num.natAbs = num.num.natAbs / 10 := natAbs_tdiv_ten num.num
    rw [digitLoop, if_neg hnonzero, ih, Cursor.puts_put, hdiv, zero_tmod,
      ← reversedDigits_eq hpos]

/-- What `formatInteger` adds: nothing for 0, as the loop is not entered. -/
def text (v : Int) : List Byte := if v = 0 then [] else ascii (render v)

theorem putInteger_eq {t : IntType} (c : Cursor) (num : t.Value) :
    putInteger c num = c.puts (text num.num).reverse := by
  unfold putInteger
  rw [digitLoop_eq]
  by_cases hneg : num.num < 0
  · have hne : num.num ≠ 0 := by omega
    have hpos : num.num.natAbs ≠ 0 := by omega
    rw [if_pos hneg, Cursor.put_puts, text, if_neg hne, render_of_neg hneg, reversedDigits,
      if_neg hpos]
    simp [ascii]
  · rw [if_neg hneg, reversedDigits, text]
    by_cases hzero : num.num = 0
    · simp [hzero]
    · have hpos : num.num.natAbs ≠ 0 := by omega
      rw [if_neg hpos, if_neg hzero, render_of_nonneg (by omega)]

/-- The longest texts are those of `LLONG_MIN` and `ULLONG_MAX`. -/
theorem length_render_le {t : IntType} (v : t.Value) : (render v.num).length ≤ 20 := by
  have hmin := v.min_le
  have hmax := v.le_max
  by_cases hneg : v.num < 0
  · have hlow : -2 ^ 63 ≤ t.min := by
      cases t <;> decide
    have hdigits : (Nat.toDigits 10 v.num.natAbs).length ≤ 19 := by
      rw [Nat.length_toDigits_le_iff (by decide) (by decide)]
      omega
    rw [render_of_neg hneg, List.length_cons]
    omega
  · have hhigh : t.max ≤ 2 ^ 64 - 1 := by
      cases t <;> decide
    rw [render_of_nonneg (by omega), Nat.length_toDigits_le_iff (by decide) (by decide)]
    omega

theorem length_text_le {t : IntType} (v : t.Value) : (text v.num).length ≤ 20 := by
  unfold text
  split
  · exact Nat.zero_le 20
  · rw [length_ascii]
    exact length_render_le v

/-! ## The room for a number -/

/-- `valid(32)` leaves room for the text and the NUL. -/
theorem room {s : LogStream} (h : s.buffer.WF) (hvalid : s.buffer.valid maxNumSize = true)
    {t : IntType} (num : t.Value) :
    s.buffer.length + (text num.num).length + 1 < smallBufferSize := by
  have hroom := (h.valid_iff smallBufferSize_lt maxNumSize).mp hvalid
  have hlength := length_text_le num
  unfold maxNumSize at hroom
  omega

theorem formatInteger_of_valid {s : LogStream} (hvalid : s.buffer.valid maxNumSize = true)
    {t : IntType} (num : t.Value) :
    s.formatInteger num =
      { buffer :=
          { s.buffer with
            data := reverse (memcpy (memcpy s.buffer.data s.buffer.cur (text num.num).reverse)
              (s.buffer.cur + (text num.num).length) [0]) s.buffer.cur
              (s.buffer.cur + (text num.num).length) }.add (text num.num).length
        stores := s.stores ++ List.range' s.buffer.cur (text num.num).length ++
          [s.buffer.cur + (text num.num).length] ++
          List.range' s.buffer.cur (text num.num).length } := by
  simp only [formatInteger, if_pos hvalid, putInteger_eq, Cursor.puts, List.length_reverse,
    Nat.add_sub_cancel_left]

theorem formatInteger_of_not_valid {s : LogStream}
    (hvalid : ¬ s.buffer.valid maxNumSize = true) {t : IntType} (num : t.Value) :
    s.formatInteger num = s := if_neg hvalid

/-- The bytes between the old content and the new end. -/
theorem content_add {b : FixedBuffer smallBufferSize} {data : Nat → Byte} {bytes : List Byte}
    (hbelow : ∀ j, j < b.length → data j = b.data j)
    (hnew : ∀ j (hj : j < bytes.length), data (b.length + j) = bytes[j]) :
    (({ b with data := data } : FixedBuffer smallBufferSize).add bytes.length).content =
      b.content ++ bytes := by
  have hcontent : (({ b with data := data } : FixedBuffer smallBufferSize).add
      bytes.length).content = (List.range (b.length + bytes.length)).map data := rfl
  have hold : (List.range b.length).map data = b.content := by
    refine List.map_congr_left ?_
    intro j hj
    exact hbelow j (List.mem_range.mp hj)
  rw [hcontent, List.range_add, List.map_append, List.map_map, hold]
  congr 1
  refine List.ext_getElem (by simp) ?_
  intro j hj hj'
  simpa using hnew j hj'

theorem content_formatInteger {s : LogStream} (h : s.buffer.WF)
    (hvalid : s.buffer.valid maxNumSize = true) {t : IntType} (num : t.Value) :
    (s.formatInteger num).content = s.content ++ text num.num := by
  have hcur := h.cur
  rw [formatInteger_of_valid hvalid, content, content]
  apply content_add
  · intro j hj
    have hreverse : ¬ (s.buffer.cur ≤ j ∧ j < s.buffer.cur + (text num.num).length) := by omega
    have hnul : ¬ (s.buffer.cur + (text num.num).length ≤ j ∧
        j < s.buffer.cur + (text num.num).length + ([0] : List Byte).length) := by omega
    have hdigits : ¬ (s.buffer.cur ≤ j ∧
        j < s.buffer.cur + (text num.num).reverse.length) := by omega
    rw [reverse, if_neg hreverse, memcpy, if_neg hnul, memcpy, if_neg hdigits]
  · intro j hj
    -- turning round what was stored the last digit first
    have hreverse : s.buffer.cur ≤ s.buffer.length + j ∧
        s.buffer.length + j < s.buffer.cur + (text num.num).length := by omega
    have hindex : s.buffer.cur + (s.buffer.cur + (text num.num).length - 1 -
        (s.buffer.length + j)) = s.buffer.cur + ((text num.num).length - 1 - j) := by omega
    have hnul : ¬ (s.buffer.cur + (text num.num).length ≤
        s.buffer.cur + ((text num.num).length - 1 - j) ∧
        s.buffer.cur + ((text num.num).length - 1 - j) <
          s.buffer.cur + (text num.num).length + ([0] : List Byte).length) := by omega
    have hdigits : s.buffer.cur ≤ s.buffer.cur + ((text num.num).length - 1 - j) ∧
        s.buffer.cur + ((text num.num).length - 1 - j) <
          s.buffer.cur + (text num.num).reverse.length := by
      rw [List.length_reverse]
      omega
    rw [reverse, if_pos hreverse, hindex, memcpy, if_neg hnul, memcpy, if_pos hdigits,
      Nat.add_sub_cancel_left]
    have hlast : (text num.num).length - 1 - j < (text num.num).reverse.length := by
      rw [List.length_reverse]
      omega
    rw [List.getD_eq_getElem?_getD, List.getElem?_eq_getElem hlast, Option.getD_some,
      List.getElem_reverse]
    congr 1
    omega

/-! ## In bounds, and whole or not at all -/

/-- The pointer and the length agree, `bufferSize - length_` does not wrap
around, and nothing has been stored outside of `data_`. -/
structure InBounds (s : LogStream) : Prop where
  wf : s.buffer.WF
  noWrap : sizeSub smallBufferSize s.buffer.length = smallBufferSize - s.buffer.length
  stores : ∀ i ∈ s.stores, i < smallBufferSize

/-- An insertion appends its whole rendering or leaves the content as it is. -/
def Atomic (s : LogStream) : Op → Prop
  | .insert i =>
    (s.insert i).content = s.content ++ i.rendering ∨ (s.insert i).content = s.content
  | .bufferReset => s.bufferReset.content = []

theorem inBounds_of {s : LogStream} (hwf : s.buffer.WF)
    (hstores : ∀ i ∈ s.stores, i < smallBufferSize) : s.InBounds :=
  ⟨hwf, sizeSub_of_le (Nat.le_of_lt hwf.length) smallBufferSize_lt, hstores⟩

theorem new_inBounds : new.InBounds :=
  inBounds_of (FixedBuffer.new_wf (by decide)) (fun _ h => absurd h (List.not_mem_nil))

theorem InBounds.append {s : LogStream} (h : s.InBounds) (bytes : List Byte) :
    (s.append bytes).InBounds := by
  refine inBounds_of (h.wf.append smallBufferSize_lt bytes) ?_
  intro i hi
  by_cases hvalid : s.buffer.valid bytes.length = true
  · have hroom := (h.wf.valid_iff smallBufferSize_lt bytes.length).mp hvalid
    have hcur := h.wf.cur
    have hstores : i ∈ s.stores ++ List.range' s.buffer.cur bytes.length := by
      simpa only [LogStream.append, if_pos hvalid] using hi
    rcases List.mem_append.mp hstores with hold | hnew
    · exact h.stores i hold
    · have hrange := List.mem_range'_1.mp hnew
      omega
  · have hsame : i ∈ s.stores := by
      simpa only [LogStream.append, if_neg hvalid] using hi
    exact h.stores i hsame

theorem content_append {s : LogStream} (h : s.InBounds) (bytes : List Byte) :
    (s.append bytes).content = s.content ++ bytes ∨ (s.append bytes).content = s.content := by
  by_cases hvalid : s.buffer.valid bytes.length = true
  · exact Or.inl (FixedBuffer.content_append h.wf hvalid)
  · right
    have hsame : s.buffer.append bytes = s.buffer := if_neg hvalid
    rw [content, LogStream.append, hsame]
    rfl

theorem InBounds.formatInteger {s : LogStream} (h : s.InBounds) {t : IntType} (num : t.Value) :
    (s.formatInteger num).InBounds := by
  by_cases hvalid : s.buffer.valid maxNumSize = true
  · have hroom := room h.wf hvalid num
    have hcur := h.wf.cur
    rw [formatInteger_of_valid hvalid]
    refine inBounds_of ⟨?_, ?_⟩ ?_
    · show s.buffer.cur + (text num.num).length = s.buffer.length + (text num.num).length
      omega
    · show s.buffer.length + (text num.num).length < smallBufferSize
      omega
    · intro i hi
      simp only [List.mem_append, List.mem_singleton, List.mem_range'_1] at hi
      rcases hi with ((hold | hdigits) | hnul) | hreverse
      · exact h.stores i hold
      · omega
      · omega
      · omega
  · rw [formatInteger_of_not_valid hvalid]
    exact h

theorem content_formatInteger_cases {s : LogStream} (h : s.InBounds) {t : IntType}
    (num : t.Value) :
    (s.formatInteger num).content = s.content ++ ascii (render num.num) ∨
      (s.formatInteger num).content = s.content := by
  by_cases hvalid : s.buffer.valid maxNumSize = true
  · rw [content_formatInteger h.wf hvalid, text]
    split
    · exact Or.inr (List.append_nil _)
    · exact Or.inl rfl
  · right
    rw [formatInteger_of_not_valid hvalid]

theorem InBounds.step {s : LogStream} (h : s.InBounds) (op : Op) : (s.step op).InBounds := by
  cases op with
  | insert i =>
    cases i with
    | integer number => exact h.formatInteger number
    | bool | double | char | cString | string | general => exact h.append _
  | bufferReset => exact inBounds_of h.wf.reset h.stores

theorem InBounds.atomic {s : LogStream} (h : s.InBounds) (op : Op) : s.Atomic op := by
  cases op with
  | insert i =>
    cases i with
    | integer number => exact content_formatInteger_cases h number
    | bool | double | char | cString | string | general => exact content_append h _
  | bufferReset => exact FixedBuffer.content_reset s.buffer

theorem run_inBounds (ops : List Op) : (run step new ops).InBounds :=
  run_invariant InBounds (fun _ op h => h.step op) new_inBounds ops

/-- After any insertions and resets the buffer is in bounds, and the next
insertion is added whole or not at all. -/
theorem insertions_atomic (ops : List Op) :
    Always step new InBounds ops ∧ EachStep step new Atomic ops := by
  constructor
  · intro pre _
    exact run_inBounds pre
  · intro pre op _
    exact (run_inBounds pre).atomic op

/-! ## Numbers -/

/-- The insertion of a number appends its decimal text; the text reads back as
the number, and no other number of the type is inserted as it. -/
structure Faithful (s : LogStream) {t : IntType} (v : t.Value) : Prop where
  canonical : (s.insert (.integer v)).content = s.content ++ ascii (render v.num)
  parsed : readInt (chars ((s.insert (.integer v)).content.drop s.content.length)) = some v.num
  distinct : ∀ w : t.Value, w.num ≠ v.num →
    (s.insert (.integer w)).content ≠ (s.insert (.integer v)).content

theorem chars_ascii_render (v : Int) : chars (ascii (render v)) = render v :=
  chars_ascii (isAscii_render v)

theorem text_injective {v w : Int} (h : text v = text w) : v = w := by
  have hne : ∀ u : Int, u ≠ 0 → text u ≠ [] := by
    intro u hu hnil
    have hread := readInt_render u
    rw [text, if_neg hu] at hnil
    rw [← chars_ascii_render u, hnil] at hread
    simp [chars, readInt, readNat] at hread
  by_cases hv : v = 0
  · by_contra hvw
    have hw : w ≠ 0 := fun hw => hvw (hv.trans hw.symm)
    rw [hv] at h
    exact hne w hw h.symm
  · by_cases hw : w = 0
    · rw [hw] at h
      exact absurd h (hne v hv)
    · rw [text, if_neg hv, text, if_neg hw] at h
      apply render_injective
      rw [← chars_ascii_render v, ← chars_ascii_render w, h]

/-- With room for a number, every value of every type is shown faithfully, but 0:
the loop that puts the digits down is not entered for it. -/
theorem integer_faithful_iff (ops : List Op) {t : IntType} (v : t.Value)
    (hvalid : (run step new ops).buffer.valid maxNumSize = true) :
    (run step new ops).Faithful v ↔ v.num ≠ 0 := by
  have hwf := (run_inBounds ops).wf
  generalize run step new ops = s at hvalid hwf
  have hinsert : ∀ w : t.Value, (s.insert (.integer w)).content = s.content ++ text w.num :=
    fun w => content_formatInteger hwf hvalid w
  constructor
  · intro h hzero
    have hcanonical := h.canonical
    rw [hinsert, hzero] at hcanonical
    exact absurd (List.append_cancel_left hcanonical) (by decide)
  · intro hne
    have htext : text v.num = ascii (render v.num) := if_neg hne
    constructor
    · rw [hinsert, htext]
    · rw [hinsert, List.drop_left, htext, chars_ascii_render]
      exact readInt_render v.num
    · intro w hw heq
      rw [hinsert, hinsert] at heq
      exact hw (text_injective (List.append_cancel_left heq))

/-- `INT_MIN`, whose negation is no `int`. -/
def intMin : IntType.int.Value := ⟨-2147483648, by decide, by decide⟩

theorem integer_faithful_iff_intMin : (run step new []).Faithful intMin ↔ intMin.num ≠ 0 :=
  integer_faithful_iff [] intMin (by decide)

/-- 0 leaves no trace in the log. -/
theorem zero_not_shown :
    ¬ (run step new []).Faithful (⟨0, by decide, by decide⟩ : IntType.int.Value) ∧
    (new.insert (.integer (⟨0, by decide, by decide⟩ : IntType.int.Value))).content = [] := by
  have hcontent :
      (new.insert (.integer (⟨0, by decide, by decide⟩ : IntType.int.Value))).content = [] :=
    content_formatInteger (FixedBuffer.new_wf (by decide)) (by decide) _
  refine ⟨?_, hcontent⟩
  intro h
  have hcanonical := h.canonical
  rw [run_nil, hcontent] at hcanonical
  exact absurd hcanonical (by decide)

end LogStream

end EchoServer
