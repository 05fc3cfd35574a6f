import EchoServer.FixedBuffer
import EchoServer.Lib.Runs

/-!
# AsyncLogging

Any number of threads hand records to `append`; the background thread takes
the buffers they fill, writes them to its `LogFile` and puts two of them back
into use; the owner starts, stops and destroys the object. What happens under
`mutex_` in `append` is one step. The background thread holds `mutex_` from the
end of its wait to the end of the iteration. A wait may end at any moment, as
`wait_for` may.

* `step_cases`: the enabled steps, one constructor each;
* `Inv`, `Inv.step`, `pool_never_exhausted`: no pointer is null where it is used,
  and a buffer that goes back into use is empty;
* `Owned`, `Owned.step`: the thread runs exactly when the owner has started it.
-/

namespace EchoServer

open Runs

namespace AsyncLogging

/-! ## State -/

/-- A `unique_ptr` to a buffer. -/
abbrev BufferPtr := Option LargeBuffer

/-- A record as `Logger` hands it over. -/
structure Record where
  bytes : List Byte
  short : bytes.length < largeBufferSize

/-- Where `threadFunc` stands. -/
inductive ThreadFunc where
  | notStarted
  | entering
  /-- Before `while(running_)`. -/
  | test
  | locking
  /-- In `wait_for`. -/
  | waiting
  | swapping
  /-- In the loop over `buffersToWrite`. -/
  | writing (rest : List BufferPtr)
  | recycling
  | flushing
  /-- Before the last `output.flush()`. -/
  | finalFlush
  | finished

/-- Where the owner stands. -/
inductive Owner where
  | created
  /-- In `start`, `running_` is set. -/
  | starting
  | started
  /-- In the destructor, `running_` was true. -/
  | stopping
  | dying
  /-- The members are destroyed. -/
  | gone
deriving DecidableEq, Repr

end AsyncLogging

open AsyncLogging in
structure AsyncLogging where
  running : Bool
  currentBuffer : BufferPtr
  nextBuffer : BufferPtr
  buffers : List BufferPtr
  /-- Locals of `threadFunc`. -/
  newBuffer1 : BufferPtr
  newBuffer2 : BufferPtr
  buffersToWrite : List BufferPtr
  thread : ThreadFunc
  owner : Owner
  /-- What `LogFile::append` has been given. -/
  written : List Byte
  /-- What had been written at the last `output.flush()`. -/
  flushed : List Byte
  /-- The records, in the order their appends took the lock. -/
  records : List Record
  /-- The record a thread has put down, while it has not returned. -/
  callers : Nat → Option Nat
  /-- A null pointer was used, or `back()` of an empty vector. -/
  crashed : Bool

namespace AsyncLogging

/-- The constructor. -/
def new : AsyncLogging where
  running := false
  currentBuffer := some LargeBuffer.new
  nextBuffer := some LargeBuffer.new
  buffers := []
  newBuffer1 := none
  newBuffer2 := none
  buffersToWrite := []
  thread := .notStarted
  owner := .created
  written := []
  flushed := []
  records := []
  callers := fun _ => none
  crashed := false

/-- The background thread holds `mutex_`. -/
def ThreadFunc.holdsMutex : ThreadFunc → Bool
  | .swapping => true
  | .writing _ => true
  | .recycling => true
  | .flushing => true
  | _ => false

/-- The buffers the loop has not come to. -/
def ThreadFunc.rest : ThreadFunc → List BufferPtr
  | .writing rest => rest
  | _ => []

theorem ThreadFunc.rest_of_free {t : ThreadFunc} (hfree : t.holdsMutex = false) : t.rest = [] := by
  cases t with
  | writing rest => simp [holdsMutex] at hfree
  | _ => rfl

/-- The destructor has not been entered. -/
def Owner.usable : Owner → Bool
  | .created => true
  | .starting => true
  | .started => true
  | _ => false

/-! ## Steps -/

/-- `append` under the lock. -/
def put (s : AsyncLogging) (data : List Byte) : AsyncLogging :=
  match s.currentBuffer with
  | none => { s with crashed := true }
  | some buffer =>
    if buffer.valid data.length then { s with currentBuffer := some (buffer.append data) }
    else
      { s with
        buffers := s.buffers ++ [some buffer]
        -- `nextBuffer_` is moved, or else a new buffer allocated
        currentBuffer := some ((s.nextBuffer.getD LargeBuffer.new).append data)
        nextBuffer := none }

/-- The locals of `threadFunc`. -/
def initLocals (s : AsyncLogging) : AsyncLogging :=
  { s with
    newBuffer1 := some LargeBuffer.new
    newBuffer2 := some LargeBuffer.new
    buffersToWrite := [] }

/-- `nextBuffer_` is refilled if it is null. -/
def refillNext (s : AsyncLogging) : AsyncLogging :=
  if s.nextBuffer.isNone then { s with nextBuffer := s.newBuffer2, newBuffer2 := none } else s

/-- From `buffers_.push_back` to `buffersToWrite.swap`. -/
def swap (s : AsyncLogging) : AsyncLogging :=
  let pushed := { s with
    buffers := s.buffers ++ [s.currentBuffer]
    currentBuffer := s.newBuffer1
    newBuffer1 := none }
  let refilled := pushed.refillNext
  { refilled with buffersToWrite := refilled.buffers, buffers := refilled.buffersToWrite }

/-- A null `newBuffer1` or `newBuffer2` is taken from the back of the vector;
`none` where the source would crash. -/
def refill (newBuffer : BufferPtr) (buffersToWrite : List BufferPtr) :
    Option (BufferPtr × List BufferPtr) :=
  match newBuffer with
  | some buffer => some (some buffer, buffersToWrite)
  | none =>
    match buffersToWrite.getLast? with
    | some (some buffer) => some (some buffer.reset, buffersToWrite.dropLast)
    | _ => none

/-- From `resize(2)` to `buffersToWrite.clear()`. -/
def recycle (s : AsyncLogging) : AsyncLogging :=
  let kept := if s.buffersToWrite.length > 2 then s.buffersToWrite.take 2 else s.buffersToWrite
  match refill s.newBuffer1 kept with
  | none => { s with crashed := true }
  | some (newBuffer1, left) =>
    -- `newBuffer2` is taken from what `newBuffer1` has left
    match refill s.newBuffer2 left with
    | none => { s with crashed := true }
    | some (newBuffer2, _) =>
      { s with newBuffer1 := newBuffer1, newBuffer2 := newBuffer2, buffersToWrite := [] }

/-- `callers` with one entry changed. -/
def setCaller (s : AsyncLogging) (tid : Nat) (record : Option Nat) : AsyncLogging :=
  { s with callers := fun t => if t = tid then record else s.callers t }

inductive Label where
  /-- A thread takes the lock and puts its record down. -/
  | append (tid : Nat) (r : Record)
  | appendReturn (tid : Nat)
  /-- `running_ = true`. Once only: a second `thread_.start()` would destroy a
  `std::thread` that is still joinable. -/
  | start
  /-- `thread_.start()`. -/
  | startThread
  | stop
  /-- The destructor tests `running_`. -/
  | dtor
  | dtorStop
  | dtorEnd
  /-- The thread enters `threadFunc`. -/
  | enter
  | test
  | lock
  /-- `wait_for` ends: notified, timed out, or spuriously. -/
  | wake
  | swap
  | write
  | recycle
  | flush
  /-- The last flush, and the return. -/
  | finish

def step (s : AsyncLogging) : Label → AsyncLogging
  | .append tid r =>
    -- `mutex_` is free, and the thread is not in an `append` already
    if s.thread.holdsMutex = false ∧ s.callers tid = none ∧ s.owner ≠ .gone then
      { s.put r.bytes with records := s.records ++ [r] }.setCaller tid (some s.records.length)
    else s
  | .appendReturn tid => s.setCaller tid none
  | .start => if s.owner = .created then { s with running := true, owner := .starting } else s
  | .startThread =>
    if s.owner = .starting then { s with owner := .started, thread := .entering } else s
  | .stop => if s.owner.usable = true then { s with running := false } else s
  | .dtor =>
    if s.owner = .created ∨ s.owner = .started then
      -- `if (running_) stop();`
      { s with owner := if s.running then .stopping else .dying }
    else s
  | .dtorStop =>
    if s.owner = .stopping then { s with running := false, owner := .dying } else s
  | .dtorEnd => if s.owner = .dying then { s with owner := .gone } else s
  | .enter =>
    match s.thread with
    | .entering => { s.initLocals with thread := .test }
    | _ => s
  | .test =>
    match s.thread with
    | .test => { s with thread := if s.running then .locking else .finalFlush }
    | _ => s
  | .lock =>
    match s.thread with
    -- `buffers_.empty()` is tested once, an `if` around `wait_for`
    | .locking => { s with thread := if s.buffers.isEmpty then .waiting else .swapping }
    | _ => s
  | .wake =>
    match s.thread with
    | .waiting => { s with thread := .swapping }
    | _ => s
  | .swap =>
    match s.thread with
    | .swapping => { s.swap with thread := .writing s.swap.buffersToWrite }
    | _ => s
  | .write =>
    match s.thread with
    | .writing [] => { s with thread := .recycling }
    | .writing (some buffer :: rest) =>
      { s with written := s.written ++ buffer.content, thread := .writing rest }
    -- `buffer->data()` of a null pointer
    | .writing (none :: _) => { s with crashed := true }
    | _ => s
  | .recycle =>
    match s.thread with
    | .recycling => { s.recycle with thread := .flushing }
    | _ => s
  | .flush =>
    match s.thread with
    | .flushing => { s with flushed := s.written, thread := .test }
    | _ => s
  | .finish =>
    match s.thread with
    | .finalFlush => { s with flushed := s.written, thread := .finished }
    | _ => s

/-- The enabled steps. -/
inductive Step (s : AsyncLogging) : Label → AsyncLogging → Prop where
  | append (tid : Nat) (r : Record) (hmutex : s.thread.holdsMutex = false)
      (hcaller : s.callers tid = none) (howner : s.owner ≠ .gone) :
      Step s (.append tid r)
        ({ s.put r.bytes with records := s.records ++ [r] }.setCaller tid (some s.records.length))
  | appendReturn (tid : Nat) : Step s (.appendReturn tid) (s.setCaller tid none)
  | start (howner : s.owner = .created) :
      Step s .start { s with running := true, owner := .starting }
  | startThread (howner : s.owner = .starting) :
      Step s .startThread { s with owner := .started, thread := .entering }
  | stop (howner : s.owner.usable = true) : Step s .stop { s with running := false }
  | dtor (howner : s.owner = .created ∨ s.owner = .started) :
      Step s .dtor { s with owner := if s.running then .stopping else .dying }
  | dtorStop (howner : s.owner = .stopping) :
      Step s .dtorStop { s with running := false, owner := .dying }
  | dtorEnd (howner : s.owner = .dying) : Step s .dtorEnd { s with owner := .gone }
  | enter (hthread : s.thread = .entering) : Step s .enter { s.initLocals with thread := .test }
  | testRunning (hthread : s.thread = .test) (hrunning : s.running = true) :
      Step s .test { s with thread := .locking }
  | testStopped (hthread : s.thread = .test) (hrunning : s.running = false) :
      Step s .test { s with thread := .finalFlush }
  | lockEmpty (hthread : s.thread = .locking) (hbuffers : s.buffers = []) :
      Step s .lock { s with thread := .waiting }
  | lockFull (hthread : s.thread = .locking) (hbuffers : s.buffers ≠ []) :
      Step s .lock { s with thread := .swapping }
  | wake (hthread : s.thread = .waiting) : Step s .wake { s with thread := .swapping }
  | swap (hthread : s.thread = .swapping) :
      Step s .swap { s.swap with thread := .writing s.swap.buffersToWrite }
  | writeEnd (hthread : s.thread = .writing []) : Step s .write { s with thread := .recycling }
  | write (buffer : LargeBuffer) (rest : List BufferPtr)
      (hthread : s.thread = .writing (some buffer :: rest)) :
      Step s .write { s with written := s.written ++ buffer.content, thread := .writing rest }
  | writeNull (rest : List BufferPtr) (hthread : s.thread = .writing (none :: rest)) :
      Step s .write { s with crashed := true }
  | recycle (hthread : s.thread = .recycling) :
      Step s .recycle { s.recycle with thread := .flushing }
  | flush (hthread : s.thread = .flushing) :
      Step s .flush { s with flushed := s.written, thread := .test }
  | finish (hthread : s.thread = .finalFlush) :
      Step s .finish { s with flushed := s.written, thread := .finished }

/-- A step is a stutter or one of the enabled steps. -/
theorem step_cases (s : AsyncLogging) (e : Label) : s.step e = s ∨ Step s e (s.step e) := by
  cases e with
  | append tid r =>
    simp only [step]
    split
    · rename_i h
      exact Or.inr (.append tid r h.1 h.2.1 h.2.2)
    · exact Or.inl rfl
  | appendReturn tid => exact Or.inr (.appendReturn tid)
  | start =>
    simp only [step]
    split
    · rename_i h
      exact Or.inr (.start h)
    · exact Or.inl rfl
  | startThread =>
    simp only [step]
    split
    · rename_i h
      exact Or.inr (.startThread h)
    · exact Or.inl rfl
  | stop =>
    simp only [step]
    split
    · rename_i h
      exact Or.inr (.stop h)
    · exact Or.inl rfl
  | dtor =>
    simp only [step]
    split
    · rename_i h
      exact Or.inr (.dtor h)
    · exact Or.inl rfl
  | dtorStop =>
    simp only [step]
    split
    · rename_i h
      exact Or.inr (.dtorStop h)
    · exact Or.inl rfl
  | dtorEnd =>
    simp only [step]
    split
    · rename_i h
      exact Or.inr (.dtorEnd h)
    · exact Or.inl rfl
  | enter =>
    simp only [step]
    split
    · rename_i h
      exact Or.inr (.enter h)
    · exact Or.inl rfl
  | test =>
    simp only [step]
    split
    · rename_i h
      right
      by_cases hrunning : s.running = true
      · rw [if_pos hrunning]
        exact .testRunning h hrunning
      · rw [if_neg hrunning]
        exact .testStopped h (by simpa using hrunning)
    · exact Or.inl rfl
  | lock =>
    simp only [step]
    split
    · rename_i h
      right
      by_cases hbuffers : s.buffers = []
      · rw [if_pos (by simpa using hbuffers)]
        exact .lockEmpty h hbuffers
      · rw [if_neg (by simpa using hbuffers)]
        exact .lockFull h hbuffers
    · exact Or.inl rfl
  | wake =>
    simp only [step]
    split
    · rename_i h
      exact Or.inr (.wake h)
    · exact Or.inl rfl
  | swap =>
    simp only [step]
    split
    · rename_i h
      exact Or.inr (.swap h)
    · exact Or.inl rfl
  | write =>
    simp only [step]
    split
    · rename_i h
      exact Or.inr (.writeEnd h)
    · rename_i buffer rest h
      exact Or.inr (.write buffer rest h)
    · rename_i rest h
      exact Or.inr (.writeNull rest h)
    · exact Or.inl rfl
  | recycle =>
    simp only [step]
    split
    · rename_i h
      exact Or.inr (.recycle h)
    · exact Or.inl rfl
  | flush =>
    simp only [step]
    split
    · rename_i h
      exact Or.inr (.flush h)
    · exact Or.inl rfl
  | finish =>
    simp only [step]
    split
    · rename_i h
      exact Or.inr (.finish h)
    · exact Or.inl rfl

theorem covers : Covers Step step := step_cases

/-! ## The pointers -/

/-- The bytes of a buffer; a null pointer has none. -/
def content : BufferPtr → List Byte
  | some buffer => buffer.content
  | none => []

def contents (ps : List BufferPtr) : List Byte := ps.flatMap content

@[simp] theorem contents_nil : contents [] = [] := rfl

@[simp] theorem contents_cons (p : BufferPtr) (ps : List BufferPtr) :
    contents (p :: ps) = content p ++ contents ps := rfl

@[simp] theorem contents_append (ps qs : List BufferPtr) :
    contents (ps ++ qs) = contents ps ++ contents qs := List.flatMap_append

/-- `buffersToWrite` between the swap and the recycling. -/
structure Taken (newBuffer2 : BufferPtr) (buffersToWrite : List BufferPtr) : Prop where
  notNull : ∀ p ∈ buffersToWrite, p.isSome = true
  notEmpty : buffersToWrite ≠ []
  two : newBuffer2 = none → 2 ≤ buffersToWrite.length

/-- The locals of `threadFunc`, at each of its points. -/
def Locals (newBuffer1 newBuffer2 : BufferPtr) (buffersToWrite : List BufferPtr) :
    ThreadFunc → Prop
  | .notStarted => True
  | .entering => True
  | .writing rest => Taken newBuffer2 buffersToWrite ∧ ∀ p ∈ rest, p.isSome = true
  | .recycling => Taken newBuffer2 buffersToWrite
  | _ => newBuffer1.isSome = true ∧ newBuffer2.isSome = true ∧ buffersToWrite = []

structure Inv (s : AsyncLogging) : Prop where
  crashed : s.crashed = false
  current : s.currentBuffer.isSome = true
  buffers : ∀ p ∈ s.buffers, p.isSome = true
  next : s.nextBuffer = none → s.buffers ≠ []
  nextEmpty : content s.nextBuffer = []
  newEmpty1 : content s.newBuffer1 = []
  newEmpty2 : content s.newBuffer2 = []
  locals : Locals s.newBuffer1 s.newBuffer2 s.buffersToWrite s.thread

theorem new_inv : new.Inv where
  crashed := rfl
  current := rfl
  buffers := by simp [new]
  next := by simp [new]
  nextEmpty := rfl
  newEmpty1 := rfl
  newEmpty2 := rfl
  locals := trivial

/-! ## append -/

/-- `append` adds its record to the content of `buffers_` and `currentBuffer_`. -/
theorem Inv.contents_put {s : AsyncLogging} (h : s.Inv) (r : Record) :
    contents ((s.put r.bytes).buffers ++ [(s.put r.bytes).currentBuffer]) =
      contents (s.buffers ++ [s.currentBuffer]) ++ r.bytes := by
  rcases Option.isSome_iff_exists.mp h.current with ⟨buffer, hcurrent⟩
  by_cases hvalid : buffer.valid r.bytes.length = true
  · have hput : s.put r.bytes = { s with currentBuffer := some (buffer.append r.bytes) } := by
      simp [put, hcurrent, hvalid]
    rw [hput, hcurrent]
    simp [content, LargeBuffer.content_append hvalid]
  · have hempty : (s.nextBuffer.getD LargeBuffer.new).content = [] := by
      cases hnext : s.nextBuffer with
      | none => rfl
      | some next =>
        have hnextEmpty := h.nextEmpty
        rw [hnext] at hnextEmpty
        exact hnextEmpty
    have happend := LargeBuffer.content_append_of_empty hempty r.short
    simp [put, hcurrent, hvalid, content, happend]

/-- A record goes whole into `currentBuffer_`, which is a new one if there was no room. -/
theorem Inv.put_cases {s : AsyncLogging} (h : s.Inv) (r : Record) :
    ((s.put r.bytes).buffers = s.buffers ∧
      content (s.put r.bytes).currentBuffer = content s.currentBuffer ++ r.bytes) ∨
    ((s.put r.bytes).buffers = s.buffers ++ [s.currentBuffer] ∧
      content (s.put r.bytes).currentBuffer = r.bytes) := by
  rcases Option.isSome_iff_exists.mp h.current with ⟨buffer, hcurrent⟩
  have hcontents := h.contents_put r
  by_cases hvalid : buffer.valid r.bytes.length = true
  · left
    have hbuffers : (s.put r.bytes).buffers = s.buffers := by
      simp [AsyncLogging.put, hcurrent, hvalid]
    rw [hbuffers] at hcontents
    exact ⟨hbuffers, by simpa using hcontents⟩
  · right
    have hbuffers : (s.put r.bytes).buffers = s.buffers ++ [s.currentBuffer] := by
      simp [AsyncLogging.put, hcurrent, hvalid]
    rw [hbuffers] at hcontents
    exact ⟨hbuffers, by simpa using hcontents⟩

theorem Inv.put {s : AsyncLogging} (h : s.Inv) (data : List Byte) : (s.put data).Inv := by
  rcases Option.isSome_iff_exists.mp h.current with ⟨buffer, hcurrent⟩
  by_cases hvalid : buffer.valid data.length = true
  · have hput : s.put data = { s with currentBuffer := some (buffer.append data) } := by
      simp [AsyncLogging.put, hcurrent, hvalid]
    rw [hput]
    exact { h with current := rfl }
  · -- the full buffer joins `buffers_`, so the vector is not empty at the swap
    have hput : s.put data = { s with
        buffers := s.buffers ++ [some buffer]
        currentBuffer := some ((s.nextBuffer.getD LargeBuffer.new).append data)
        nextBuffer := none } := by
      simp [AsyncLogging.put, hcurrent, hvalid]
    rw [hput]
    constructor
    · exact h.crashed
    · rfl
    · intro p hp
      rcases List.mem_append.mp hp with hold | hnew
      · exact h.buffers p hold
      · rw [List.mem_singleton.mp hnew]
        rfl
    · intro _
      show s.buffers ++ [some buffer] ≠ []
      simp
    · rfl
    · exact h.newEmpty1
    · exact h.newEmpty2
    · exact h.locals

/-! ## The background thread -/

/-- The bytes between the records and `LogFile::append`. -/
def unwritten (s : AsyncLogging) : List Byte :=
  contents s.thread.rest ++ contents (s.buffers ++ [s.currentBuffer])

theorem refillNext_eq (s : AsyncLogging) :
    s.refillNext = { s with
      nextBuffer := if s.nextBuffer.isNone then s.newBuffer2 else s.nextBuffer
      newBuffer2 := if s.nextBuffer.isNone then none else s.newBuffer2 } := by
  unfold refillNext
  split <;> rfl

/-- The swap takes everything and leaves empty buffers behind. -/
theorem swap_eq {s : AsyncLogging} (hempty : s.buffersToWrite = []) :
    s.swap = { s with
      buffers := []
      currentBuffer := s.newBuffer1
      nextBuffer := if s.nextBuffer.isNone then s.newBuffer2 else s.nextBuffer
      newBuffer1 := none
      newBuffer2 := if s.nextBuffer.isNone then none else s.newBuffer2
      buffersToWrite := s.buffers ++ [s.currentBuffer] } := by
  simp only [swap, refillNext_eq, hempty]

theorem Inv.swap {s : AsyncLogging} (h : s.Inv) (hthread : s.thread = .swapping) :
    ({ s.swap with thread := .writing s.swap.buffersToWrite } : AsyncLogging).Inv := by
  have hlocals := h.locals
  rw [hthread] at hlocals
  rcases hlocals with ⟨hnew1, hnew2, hempty⟩
  rw [swap_eq hempty]
  have hnotNull : ∀ p ∈ s.buffers ++ [s.currentBuffer], p.isSome = true := by
    intro p hp
    rcases List.mem_append.mp hp with hold | hnew
    · exact h.buffers p hold
    · rw [List.mem_singleton.mp hnew]
      exact h.current
  cases hnext : s.nextBuffer with
  -- `newBuffer2` goes to `nextBuffer_`: two buffers are there to recycle
  | none =>
    have htwo : 2 ≤ (s.buffers ++ [s.currentBuffer]).length := by
      have hpos := List.length_pos_iff.mpr (h.next hnext)
      rw [List.length_append, List.length_singleton]
      omega
    constructor
    · exact h.crashed
    · exact hnew1
    · simp
    · intro hnull
      have hnull' : s.newBuffer2 = none := hnull
      simp [hnull'] at hnew2
    · exact h.newEmpty2
    · rfl
    · rfl
    · exact ⟨⟨hnotNull, by simp, fun _ => htwo⟩, hnotNull⟩
  -- `newBuffer2` stays with the thread, one buffer is enough
  | some next =>
    have hnextEmpty := h.nextEmpty
    rw [hnext] at hnextEmpty
    constructor
    · exact h.crashed
    · exact hnew1
    · simp
    · simp
    · exact hnextEmpty
    · rfl
    · exact h.newEmpty2
    · refine ⟨⟨hnotNull, by simp, ?_⟩, hnotNull⟩
      intro hnull
      have hnull' : s.newBuffer2 = none := hnull
      simp [hnull'] at hnew2

theorem unwritten_swap {s : AsyncLogging} (h : s.Inv) (hthread : s.thread = .swapping) :
    ({ s.swap with thread := .writing s.swap.buffersToWrite } : AsyncLogging).unwritten =
      s.unwritten := by
  have hlocals := h.locals
  rw [hthread] at hlocals
  rw [swap_eq hlocals.2.2]
  simp [unwritten, hthread, ThreadFunc.rest, h.newEmpty1]

/-- What refilling takes from the back, and what it needs there. -/
theorem refill_spec {newBuffer : BufferPtr} {buffersToWrite : List BufferPtr}
    (hnotNull : ∀ p ∈ buffersToWrite, p.isSome = true)
    (hneed : newBuffer = none → buffersToWrite ≠ []) (hempty : content newBuffer = []) :
    ∃ p left, refill newBuffer buffersToWrite = some (p, left) ∧ p.isSome = true ∧
      content p = [] ∧ (∀ q ∈ left, q.isSome = true) ∧
      buffersToWrite.length ≤ left.length + 1 := by
  cases newBuffer with
  | some buffer =>
    exact ⟨some buffer, buffersToWrite, rfl, rfl, hempty, hnotNull, Nat.le_succ _⟩
  | none =>
    have hne := hneed rfl
    have hlast := hnotNull _ (List.getLast_mem hne)
    rcases Option.isSome_iff_exists.mp hlast with ⟨buffer, hbuffer⟩
    refine ⟨some buffer.reset, buffersToWrite.dropLast, ?_, rfl, rfl, ?_, ?_⟩
    · simp [refill, List.getLast?_eq_some_getLast hne, hbuffer]
    · intro q hq
      exact hnotNull q (List.dropLast_subset _ hq)
    · rw [List.length_dropLast]
      omega

/-- Two empty buffers come back, whatever was written. -/
theorem recycle_spec {s : AsyncLogging} (h : Taken s.newBuffer2 s.buffersToWrite)
    (hempty1 : content s.newBuffer1 = []) (hempty2 : content s.newBuffer2 = []) :
    ∃ p q, s.recycle = { s with newBuffer1 := p, newBuffer2 := q, buffersToWrite := [] } ∧
      p.isSome = true ∧ q.isSome = true ∧ content p = [] ∧ content q = [] := by
  have hkept : ∃ kept : List BufferPtr, (if s.buffersToWrite.length > 2 then
      s.buffersToWrite.take 2 else s.buffersToWrite) = kept ∧
      (∀ p ∈ kept, p.isSome = true) ∧ kept ≠ [] ∧ (s.newBuffer2 = none → 2 ≤ kept.length) := by
    refine ⟨_, rfl, ?_⟩
    split
    · rename_i hlong
      have hlength : (s.buffersToWrite.take 2).length = 2 := by
        rw [List.length_take]
        omega
      refine ⟨?_, ?_, ?_⟩
      · intro p hp
        exact h.notNull p (List.mem_of_mem_take hp)
      · apply List.ne_nil_of_length_pos
        omega
      · intro _
        omega
    · exact ⟨h.notNull, h.notEmpty, h.two⟩
  rcases hkept with ⟨kept, hkeptEq, hnotNull, hne, htwo⟩
  rcases refill_spec hnotNull (fun _ => hne) hempty1 with
    ⟨p, left, hrefill1, hp, hpempty, hleft, hlength⟩
  -- of two buffers the first refill has taken at most one
  have hneed : s.newBuffer2 = none → left ≠ [] := by
    intro hnull
    have := htwo hnull
    apply List.ne_nil_of_length_pos
    omega
  rcases refill_spec hleft hneed hempty2 with ⟨q, left', hrefill2, hq, hqempty, _, _⟩
  refine ⟨p, q, ?_, hp, hq, hpempty, hqempty⟩
  simp only [recycle, hkeptEq, hrefill1, hrefill2]

/-! ## Every step -/

/-- A step of `threadFunc` that only moves on. -/
theorem Inv.setThread {s : AsyncLogging} (h : s.Inv) {t : ThreadFunc}
    (hlocals : Locals s.newBuffer1 s.newBuffer2 s.buffersToWrite t) :
    ({ s with thread := t } : AsyncLogging).Inv := { h with locals := hlocals }

theorem Inv.step {s : AsyncLogging} (h : s.Inv) (e : Label) : (s.step e).Inv := by
  have hlocals := h.locals
  apply covers.elim h
  intro s' hstep
  cases hstep with
  | append tid r hmutex hcaller howner =>
    have hput := h.put r.bytes
    exact { hput with }
  | appendReturn | start | stop | dtor | dtorStop | dtorEnd => exact { h with }
  | startThread howner => exact { h with locals := trivial }
  | enter hthread => exact { h with newEmpty1 := rfl, newEmpty2 := rfl, locals := ⟨rfl, rfl, rfl⟩ }
  | testRunning hthread | testStopped hthread | lockEmpty hthread | lockFull hthread
  | wake hthread =>
    rw [hthread] at hlocals
    exact h.setThread hlocals
  | swap hthread => exact h.swap hthread
  | writeEnd hthread =>
    rw [hthread] at hlocals
    exact h.setThread hlocals.1
  | write buffer rest hthread =>
    rw [hthread] at hlocals
    rcases hlocals with ⟨htaken, hrest⟩
    exact { h with locals := ⟨htaken, fun p hp => hrest p (List.mem_cons_of_mem _ hp)⟩ }
  | writeNull rest hthread =>
    -- the loop meets no null pointer
    rw [hthread] at hlocals
    have hnull := hlocals.2 none (List.mem_cons_self ..)
    simp at hnull
  | recycle hthread =>
    rw [hthread] at hlocals
    rcases recycle_spec hlocals h.newEmpty1 h.newEmpty2 with
      ⟨p, q, hrecycle, hp, hq, hpempty, hqempty⟩
    rw [hrecycle]
    exact { h with newEmpty1 := hpempty, newEmpty2 := hqempty, locals := ⟨hp, hq, rfl⟩ }
  | flush hthread | finish hthread =>
    rw [hthread] at hlocals
    exact { h with locals := hlocals }

/-- Buffers are there where `append` and `threadFunc` take them for granted. -/
structure PoolIntact (s : AsyncLogging) : Prop where
  /-- While nobody is under `mutex_`. -/
  current : s.thread.holdsMutex = false → s.currentBuffer.isSome = true
  next : s.thread.holdsMutex = false → s.nextBuffer = none → s.buffers ≠ []
  /-- At the head of an iteration. -/
  locals : s.thread = .test ∨ s.thread = .locking →
    s.newBuffer1.isSome = true ∧ s.newBuffer2.isSome = true ∧ s.buffersToWrite = []
  neverNull : s.crashed = false

theorem Inv.poolIntact {s : AsyncLogging} (h : s.Inv) : s.PoolIntact := by
  constructor
  · intro _
    exact h.current
  · intro _
    exact h.next
  · intro hhead
    have hlocals := h.locals
    rcases hhead with hthread | hthread
    · rw [hthread] at hlocals
      exact hlocals
    · rw [hthread] at hlocals
      exact hlocals
  · exact h.crashed

/-- The pool of buffers is never exhausted. -/
theorem pool_never_exhausted (es : List Label) : Always step new PoolIntact es := by
  intro pre _
  have hinv : (run step new pre).Inv := run_invariant Inv (fun _ e h => h.step e) new_inv pre
  exact hinv.poolIntact

/-- The thread runs exactly when the owner has started it. -/
structure Owned (s : AsyncLogging) : Prop where
  unstarted : s.owner = .created ∨ s.owner = .starting → s.thread = .notStarted
  started : s.owner = .started ∨ s.owner = .stopping → s.thread ≠ .notStarted
  idle : s.owner = .created → s.running = false

theorem new_owned : new.Owned := ⟨fun _ => rfl, by simp [new], fun _ => rfl⟩

/-- A step from one point of `threadFunc` to another. -/
theorem Owned.move {s s' : AsyncLogging} (h : s.Owned) (howner : s'.owner = s.owner)
    (hrunning : s'.running = s.running) (hthread : s.thread ≠ .notStarted)
    (hthread' : s'.thread ≠ .notStarted) : s'.Owned := by
  constructor
  · intro hunstarted
    rw [howner] at hunstarted
    exact absurd (h.unstarted hunstarted) hthread
  · intro _
    exact hthread'
  · intro hcreated
    rw [howner] at hcreated
    rw [hrunning]
    exact h.idle hcreated

/-- What the operations on the buffers leave alone. -/
structure Apart (s s' : AsyncLogging) : Prop where
  running : s'.running = s.running
  thread : s'.thread = s.thread
  owner : s'.owner = s.owner
  written : s'.written = s.written
  flushed : s'.flushed = s.flushed
  records : s'.records = s.records
  callers : s'.callers = s.callers

theorem put_apart (s : AsyncLogging) (data : List Byte) : Apart s (s.put data) := by
  unfold put
  split
  · exact ⟨rfl, rfl, rfl, rfl, rfl, rfl, rfl⟩
  · split
    · exact ⟨rfl, rfl, rfl, rfl, rfl, rfl, rfl⟩
    · exact ⟨rfl, rfl, rfl, rfl, rfl, rfl, rfl⟩

theorem swap_apart (s : AsyncLogging) : Apart s s.swap := by
  simp only [swap, refillNext_eq]
  exact ⟨rfl, rfl, rfl, rfl, rfl, rfl, rfl⟩

theorem recycle_apart (s : AsyncLogging) : Apart s s.recycle := by
  simp only [recycle]
  generalize (if s.buffersToWrite.length > 2 then s.buffersToWrite.take 2
    else s.buffersToWrite) = kept
  split
  · exact ⟨rfl, rfl, rfl, rfl, rfl, rfl, rfl⟩
  · split
    · exact ⟨rfl, rfl, rfl, rfl, rfl, rfl, rfl⟩
    · exact ⟨rfl, rfl, rfl, rfl, rfl, rfl, rfl⟩

theorem Owned.step {s : AsyncLogging} (h : s.Owned) (e : Label) : (s.step e).Owned := by
  apply covers.elim h
  intro s' hstep
  cases hstep with
  | append tid r hmutex hcaller howner =>
    have hapart := s.put_apart r.bytes
    constructor
    · show (s.put r.bytes).owner = _ ∨ (s.put r.bytes).owner = _ → (s.put r.bytes).thread = _
      rw [hapart.owner, hapart.thread]
      exact h.unstarted
    · show (s.put r.bytes).owner = _ ∨ (s.put r.bytes).owner = _ → (s.put r.bytes).thread ≠ _
      rw [hapart.owner, hapart.thread]
      exact h.started
    · show (s.put r.bytes).owner = _ → (s.put r.bytes).running = _
      rw [hapart.owner, hapart.running]
      exact h.idle
  | appendReturn tid => exact ⟨h.unstarted, h.started, h.idle⟩
  | start howner => exact ⟨fun _ => h.unstarted (Or.inl howner), by simp, by simp⟩
  | startThread howner => exact ⟨by simp, by simp, by simp⟩
  | stop howner => exact ⟨h.unstarted, h.started, fun _ => rfl⟩
  -- the destructor calls `stop` only with `running_` set, so not before `start`
  | dtor howner =>
    by_cases hrunning : s.running = true
    · rw [if_pos hrunning]
      have hstarted : s.owner = .started := by
        rcases howner with hcreated | hstarted
        · have hidle := h.idle hcreated
          simp [hrunning] at hidle
        · exact hstarted
      exact ⟨by simp, fun _ => h.started (Or.inl hstarted), by simp⟩
    · rw [if_neg hrunning]
      exact ⟨by simp, by simp, by simp⟩
  | dtorStop howner | dtorEnd howner => exact ⟨by simp, by simp, by simp⟩
  | recycle hthread =>
    exact h.move s.recycle_apart.owner s.recycle_apart.running (by simp [hthread]) (by simp)
  | swap hthread =>
    exact h.move s.swap_apart.owner s.swap_apart.running (by simp [hthread]) (by simp)
  | enter hthread | testRunning hthread | testStopped hthread | lockEmpty hthread
  | lockFull hthread | wake hthread | writeEnd hthread | write _ _ hthread | flush hthread
  | finish hthread =>
    exact h.move rfl rfl (by simp [hthread]) (by simp)
  | writeNull rest hthread => exact h.move rfl rfl (by simp [hthread]) (by simp [hthread])

end AsyncLogging

end EchoServer
