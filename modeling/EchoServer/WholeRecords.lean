import EchoServer.LogOrder

/-!
# Whole records

A record never lies in two buffers: `append` puts it where it fits, and what is
swapped, written and recycled are buffers. So every call of `LogFile::append` is
given whole records, in the order of their appends.

* `Groups`: the records that lie in each buffer, and those of each call;
* `Holds.step`: every step moves groups as a whole.
-/

namespace EchoServer

namespace AsyncLogging

theorem bytesOf_append (rs rs' : List Record) : bytesOf (rs ++ rs') = bytesOf rs ++ bytesOf rs' :=
  List.flatMap_append

theorem bytesOf_flatten (groups : List (List Record)) :
    bytesOf groups.flatten = (groups.map bytesOf).flatten := by
  induction groups with
  | nil => rfl
  | cons group groups ih =>
    rw [List.flatten_cons, bytesOf_append, ih, List.map_cons, List.flatten_cons]

/-- The records of the buffers. -/
structure Groups where
  /-- Of each call of `LogFile::append`. -/
  written : List (List Record)
  /-- Of the buffers the loop has not come to. -/
  rest : List (List Record)
  /-- Of `buffers_`. -/
  buffers : List (List Record)
  /-- Of `currentBuffer_`. -/
  current : List Record

namespace Groups

def empty : Groups := ⟨[], [], [], []⟩

/-- The records that have not been written. -/
def pending (g : Groups) : List Record := g.rest.flatten ++ (g.buffers.flatten ++ g.current)

end Groups

/-- Every buffer holds the records of its group, one after the other. -/
structure Holds (s : AsyncLogging) (g : Groups) : Prop where
  records : g.written.flatten ++ g.pending = s.records
  rest : s.thread.rest.map content = g.rest.map bytesOf
  buffers : s.buffers.map content = g.buffers.map bytesOf
  current : content s.currentBuffer = bytesOf g.current

/-- What the step gives to `LogFile::append`. -/
def given (s : AsyncLogging) (e : Label) : List (List Byte) :=
  match e, s.thread with
  | .write, .writing (some buffer :: _) => [buffer.content]
  | _, _ => []

theorem given_of_not_write {s : AsyncLogging} {e : Label}
    (h : ¬ (e = .write ∧ ∃ buffer rest, s.thread = .writing (some buffer :: rest))) :
    s.given e = [] := by
  unfold given
  split
  · rename_i buffer rest hthread
    exact absurd ⟨rfl, buffer, rest, hthread⟩ h
  · rfl

theorem new_holds : new.Holds Groups.empty := ⟨rfl, rfl, rfl, rfl⟩

section
variable {s : AsyncLogging} {g : Groups}

theorem Holds.unwritten (h : s.Holds g) : s.unwritten = bytesOf g.pending := by
  have hcontents : ∀ ps : List BufferPtr, contents ps = (ps.map content).flatten :=
    fun ps => List.flatMap_def
  rw [AsyncLogging.unwritten, contents_append, hcontents s.thread.rest, hcontents s.buffers, h.rest,
    h.buffers, ← bytesOf_flatten, ← bytesOf_flatten, contents_cons, contents_nil, h.current,
    List.append_nil, Groups.pending, bytesOf_append, bytesOf_append]

/-- A step that moves no record. -/
theorem Holds.of_same (h : s.Holds g) {s' : AsyncLogging} (hrecords : s'.records = s.records)
    (hrest : s'.thread.rest = s.thread.rest) (hbuffers : s'.buffers = s.buffers)
    (hcurrent : s'.currentBuffer = s.currentBuffer) : s'.Holds g := by
  constructor
  · rw [hrecords]
    exact h.records
  · rw [hrest]
    exact h.rest
  · rw [hbuffers]
    exact h.buffers
  · rw [hcurrent]
    exact h.current

/-- The record goes behind those of `currentBuffer_`, or is the first of the next
buffer. -/
theorem Holds.put (h : s.Holds g) (hinv : s.Inv) (r : Record) :
    ∃ g' : Groups, ({ s.put r.bytes with records := s.records ++ [r] } : AsyncLogging).Holds g' ∧
      g'.written = g.written := by
  have hrest : (s.put r.bytes).thread.rest.map content = g.rest.map bytesOf := by
    rw [(s.put_apart r.bytes).thread]
    exact h.rest
  rcases hinv.put_cases r with ⟨hbuffers, hcontent⟩ | ⟨hbuffers, hcontent⟩
  · refine ⟨{ g with current := g.current ++ [r] }, ⟨?_, hrest, ?_, ?_⟩, rfl⟩
    · rw [← h.records]
      simp [Groups.pending]
    · show (s.put r.bytes).buffers.map content = _
      rw [hbuffers]
      exact h.buffers
    · show content (s.put r.bytes).currentBuffer = bytesOf (g.current ++ [r])
      rw [hcontent, h.current, bytesOf_concat]
  · refine ⟨{ g with buffers := g.buffers ++ [g.current], current := [r] },
      ⟨?_, hrest, ?_, ?_⟩, rfl⟩
    · rw [← h.records]
      simp [Groups.pending]
    · show (s.put r.bytes).buffers.map content = _
      rw [hbuffers, List.map_append, h.buffers, List.map_append, List.map_singleton,
        List.map_singleton, h.current]
    · show content (s.put r.bytes).currentBuffer = bytesOf [r]
      rw [hcontent]
      simp [bytesOf]

/-- `currentBuffer_` joins `buffers_`, and all of them are to be written. -/
theorem Holds.swap (h : s.Holds g) (hinv : s.Inv) (hthread : s.thread = .swapping) :
    ∃ g' : Groups, ({ s.swap with thread := .writing s.swap.buffersToWrite } :
      AsyncLogging).Holds g' ∧ g'.written = g.written := by
  have hlocals := hinv.locals
  have hrest := h.rest
  rw [hthread] at hlocals hrest
  have hnone : g.rest = [] := by simpa [ThreadFunc.rest] using hrest.symm
  rw [swap_eq hlocals.2.2]
  refine ⟨⟨g.written, g.buffers ++ [g.current], [], []⟩, ⟨?_, ?_, rfl, hinv.newEmpty1⟩, rfl⟩
  · rw [← h.records]
    simp [Groups.pending, hnone]
  · show (s.buffers ++ [s.currentBuffer]).map content = _
    rw [List.map_append, h.buffers, List.map_append, List.map_singleton, List.map_singleton,
      h.current]

/-- A buffer is written. -/
theorem Holds.write (h : s.Holds g) {buffer : LargeBuffer} {rest : List BufferPtr}
    (hthread : s.thread = .writing (some buffer :: rest)) :
    ∃ group : List Record, buffer.content = bytesOf group ∧ ∃ g' : Groups,
      ({ s with written := s.written ++ buffer.content, thread := .writing rest } :
        AsyncLogging).Holds g' ∧ g'.written = g.written ++ [group] := by
  have hrest := h.rest
  rw [hthread] at hrest
  rcases hgroups : g.rest with _ | ⟨group, groups⟩
  · simp [ThreadFunc.rest, hgroups] at hrest
  · rw [hgroups, ThreadFunc.rest, List.map_cons, List.map_cons, List.cons.injEq] at hrest
    refine ⟨group, hrest.1, ⟨g.written ++ [group], groups, g.buffers, g.current⟩,
      ⟨?_, hrest.2, h.buffers, h.current⟩, rfl⟩
    rw [← h.records]
    simp [Groups.pending, hgroups]

end

/-- Every step moves groups as a whole. -/
theorem Holds.step {s : AsyncLogging} {g : Groups} (h : s.Holds g) (hinv : s.Inv)
    (howned : s.Owned) (e : Label) :
    ∃ g' : Groups, (s.step e).Holds g' ∧ ∃ groups : List (List Record),
      g'.written = g.written ++ groups ∧ s.given e = groups.map bytesOf := by
  -- where nothing is given, nothing has been written
  have hnone : ∀ g' : Groups, (s.step e).Holds g' → g'.written = g.written → s.given e = [] →
      ∃ g' : Groups, (s.step e).Holds g' ∧ ∃ groups : List (List Record),
        g'.written = g.written ++ groups ∧ s.given e = groups.map bytesOf := by
    intro g' hholds hwritten hgiven
    exact ⟨g', hholds, [], by rw [hwritten, List.append_nil], hgiven⟩
  by_cases hwrite : e = .write ∧ ∃ buffer rest, s.thread = .writing (some buffer :: rest)
  · rcases hwrite with ⟨rfl, buffer, rest, hthread⟩
    have hstep : s.step .write =
        { s with written := s.written ++ buffer.content, thread := .writing rest } := by
      simp only [AsyncLogging.step, hthread]
    rcases h.write hthread with ⟨group, hcontent, g', hholds, hwritten⟩
    refine ⟨g', ?_, [group], hwritten, ?_⟩
    · rw [hstep]
      exact hholds
    · simp [given, hthread, hcontent]
  · have hgiven := given_of_not_write hwrite
    rcases s.step_cases e with hstutter | hstep
    · refine hnone g ?_ rfl hgiven
      rw [hstutter]
      exact h
    generalize s.step e = s' at hstep hnone
    cases hstep with
    | append tid r hmutex hcaller howner =>
      rcases h.put hinv r with ⟨g', hholds, hwritten⟩
      exact hnone g' (hholds.of_same rfl rfl rfl rfl) hwritten hgiven
    | swap hthread =>
      rcases h.swap hinv hthread with ⟨g', hholds, hwritten⟩
      exact hnone g' hholds hwritten hgiven
    | write buffer rest hthread => exact absurd ⟨rfl, buffer, rest, hthread⟩ hwrite
    | recycle hthread =>
      have hlocals := hinv.locals
      rw [hthread] at hlocals
      rcases recycle_spec hlocals hinv.newEmpty1 hinv.newEmpty2 with ⟨p, q, hrecycle, _⟩
      rw [hrecycle] at hnone ⊢
      exact hnone g (h.of_same rfl (by rw [hthread]; rfl) rfl rfl) rfl hgiven
    | startThread howner =>
      have hthread := howned.unstarted (Or.inr howner)
      exact hnone g (h.of_same rfl (by rw [hthread]; rfl) rfl rfl) rfl hgiven
    | appendReturn | start | stop | dtor | dtorStop | dtorEnd | writeNull =>
      exact hnone g (h.of_same rfl rfl rfl rfl) rfl hgiven
    | enter hthread | testRunning hthread | testStopped hthread | lockEmpty hthread
    | lockFull hthread | wake hthread | writeEnd hthread | flush hthread | finish hthread =>
      exact hnone g (h.of_same rfl (by rw [hthread]; rfl) rfl rfl) rfl hgiven

end AsyncLogging

end EchoServer
