import EchoServer.ConnName

/-!
# EventLoopThreadPool

The pool of io loops, and the choice of the loop of a new connection. The
constructor initialises `baseLoop_` with itself, so the member keeps whatever
was in its storage; only a pool without threads ever hands it out.

* `startNew_loops` and its companions: the pool after `start`;
* `calls_of_pos`: `next_` counts the calls modulo the number of loops;
* `roundRobin_iff`: the pool goes round its loops, and hands out the base loop
  it was given if it has threads or the storage held that loop by chance.
-/

namespace EchoServer

/-- `L` is the type of `EventLoop*`. -/
structure EventLoopThreadPool (L : Type u) where
  baseLoop : L
  name : List Char
  started : Bool
  numThreads : Int
  next : Nat
  /-- The names of the threads. -/
  threads : List (List Char)
  loops : List L
  /-- The loops that the `ThreadInitCallback` has been called with. -/
  initialised : List L
deriving DecidableEq

namespace EventLoopThreadPool

variable {L : Type u}

/-! ## Operations -/

/-- The constructor: `baseLoop_(baseLoop_)`, where `storage` is what the memory
of the member holds, and the parameter `baseLoop` is not read. -/
def new (storage _baseLoop : L) (name : List Char) : EventLoopThreadPool L where
  baseLoop := storage
  name := name
  started := false
  numThreads := 0
  next := 0
  threads := []
  loops := []
  initialised := []

def setThreadNum (p : EventLoopThreadPool L) (numThreads : Int) : EventLoopThreadPool L :=
  { p with numThreads := numThreads }

/-- The name `start` composes for the `i`-th thread, in a buffer of
`32 + name_.size()` bytes. -/
def threadName (name : List Char) (i : Nat) : List Char :=
  (name ++ decimal i).take (31 + name.length)

/-- One iteration of the loop in `start`; `startLoop` gives the loops that the
threads publish, each after its thread has called `cb`. -/
def startThread (startLoop : Nat → L) (cb : Bool) (p : EventLoopThreadPool L) (i : Nat) :
    EventLoopThreadPool L :=
  { p with
    threads := p.threads ++ [threadName p.name i]
    loops := p.loops ++ [startLoop i]
    initialised := if cb then p.initialised ++ [startLoop i] else p.initialised }

/-- `start`; `cb` says whether the callback is set. -/
def start (p : EventLoopThreadPool L) (startLoop : Nat → L) (cb : Bool) :
    EventLoopThreadPool L :=
  let p' := (List.range p.numThreads.toNat).foldl (startThread startLoop cb)
    { p with started := true }
  if p.numThreads = 0 ∧ cb = true then
    { p' with initialised := p'.initialised ++ [p'.baseLoop] }
  else p'

/-- `getNextLoop`, with `none` for an index outside `loops_`. -/
def getNextLoop (p : EventLoopThreadPool L) : Option L × EventLoopThreadPool L :=
  if p.loops.isEmpty then (some p.baseLoop, p)
  else
    (p.loops[p.next]?,
      { p with next := if p.loops.length ≤ p.next + 1 then 0 else p.next + 1 })

def getAllLoops (p : EventLoopThreadPool L) : List L :=
  if p.loops.isEmpty then [p.baseLoop] else p.loops

/-- The pool after `k` calls of `getNextLoop`. -/
def calls (p : EventLoopThreadPool L) : Nat → EventLoopThreadPool L
  | 0 => p
  | k + 1 => (p.calls k).getNextLoop.2

/-! ## The started pool -/

theorem startThreads_eq (startLoop : Nat → L) (cb : Bool) (p : EventLoopThreadPool L) (n : Nat) :
    (List.range n).foldl (startThread startLoop cb) p =
      { p with
        threads := p.threads ++ (List.range n).map (threadName p.name)
        loops := p.loops ++ (List.range n).map startLoop
        initialised :=
          p.initialised ++ if cb then (List.range n).map startLoop else [] } := by
  induction n with
  | zero => simp
  | succ n ih =>
    rw [List.range_succ, List.foldl_append, ih]
    cases cb with
    | false => simp [startThread]
    | true => simp [startThread]

/-- Construction, `setThreadNum` and `start`. -/
def startNew (storage baseLoop : L) (name : List Char) (n : Nat) (startLoop : Nat → L)
    (cb : Bool) : EventLoopThreadPool L :=
  ((new storage baseLoop name).setThreadNum n).start startLoop cb

section
variable {storage baseLoop : L} {name : List Char} {n : Nat} {startLoop : Nat → L} {cb : Bool}

theorem startNew_loops :
    (startNew storage baseLoop name n startLoop cb).loops = (List.range n).map startLoop := by
  simp only [startNew, start, setThreadNum, startThreads_eq, Int.toNat_natCast]
  split <;> rfl

theorem startNew_baseLoop : (startNew storage baseLoop name n startLoop cb).baseLoop = storage := by
  simp only [startNew, start, setThreadNum, startThreads_eq]
  split <;> rfl

theorem startNew_next : (startNew storage baseLoop name n startLoop cb).next = 0 := by
  simp only [startNew, start, setThreadNum, startThreads_eq]
  split <;> rfl

theorem startNew_initialised_zero :
    (startNew storage baseLoop name 0 startLoop cb).initialised = if cb then [storage] else [] := by
  cases cb with
  | false => rfl
  | true => rfl

end

/-! ## Calls -/

theorem getNextLoop_empty {p : EventLoopThreadPool L} (h : p.loops = []) :
    p.getNextLoop = (some p.baseLoop, p) := by
  rw [getNextLoop, if_pos (by simp [h])]

theorem getNextLoop_pos {p : EventLoopThreadPool L} (h : 0 < p.loops.length) :
    p.getNextLoop = (p.loops[p.next]?,
      { p with next := if p.loops.length ≤ p.next + 1 then 0 else p.next + 1 }) := by
  have hne : p.loops ≠ [] := List.ne_nil_of_length_pos h
  rw [getNextLoop, if_neg (by simpa using hne)]

/-- An index that wraps at `n` counts modulo `n`. -/
theorem wrap_mod {n : Nat} (hn : 0 < n) (k : Nat) :
    (if n ≤ k % n + 1 then 0 else k % n + 1) = (k + 1) % n := by
  have hlt : k % n < n := Nat.mod_lt k hn
  rw [← Nat.mod_add_mod]
  split
  · next hlast =>
    have heq : k % n + 1 = n := by omega
    rw [heq, Nat.mod_self]
  · next hmore => exact (Nat.mod_eq_of_lt (by omega)).symm

theorem calls_of_empty {p : EventLoopThreadPool L} (h : p.loops = []) (k : Nat) :
    p.calls k = p := by
  induction k with
  | zero => rfl
  | succ k ih => rw [calls, ih, getNextLoop_empty h]

theorem calls_of_pos {p : EventLoopThreadPool L} (h : 0 < p.loops.length) (hnext : p.next = 0)
    (k : Nat) : p.calls k = { p with next := k % p.loops.length } := by
  induction k with
  | zero =>
    rw [calls, Nat.zero_mod, ← hnext]
  | succ k ih =>
    have hpos : 0 < { p with next := k % p.loops.length }.loops.length := h
    rw [calls, ih, getNextLoop_pos hpos]
    simp only [wrap_mod h]

/-! ## Round robin -/

/-- What is expected of a pool that has been started with `n` threads. -/
structure RoundRobin (p : EventLoopThreadPool L) (baseLoop : L) (n : Nat) (cb : Bool) : Prop where
  length : p.loops.length = n
  loop : 0 < n → ∀ k, ∃ h : k % n < p.loops.length,
    (p.calls k).getNextLoop.1 = some p.loops[k % n]
  next : 0 < n → ∀ k, (p.calls k).next < p.loops.length
  base : n = 0 → ∀ k, (p.calls k).getNextLoop.1 = some baseLoop
  allLoops : n = 0 → p.getAllLoops = [baseLoop]
  callback : n = 0 → cb = true → p.initialised = [baseLoop]

/-- The calls of `getNextLoop` go round the loops if there are any; the pool without
threads gives the base loop only if `baseLoop_` held it before it was initialised. -/
theorem roundRobin_iff (storage baseLoop : L) (name : List Char) (n : Nat) (startLoop : Nat → L)
    (cb : Bool) :
    (startNew storage baseLoop name n startLoop cb).RoundRobin baseLoop n cb ↔
      0 < n ∨ storage = baseLoop := by
  have hlength : (startNew storage baseLoop name n startLoop cb).loops.length = n := by
    rw [startNew_loops, List.length_map, List.length_range]
  constructor
  · intro h
    rcases Nat.eq_zero_or_pos n with hzero | hpos
    · -- the first call already hands out what `storage` held
      have hfirst := h.base hzero 0
      rw [calls, getNextLoop_empty (List.eq_nil_of_length_eq_zero (hlength.trans hzero)),
        startNew_baseLoop] at hfirst
      exact Or.inr (Option.some.inj hfirst)
    · exact Or.inl hpos
  · intro h
    refine ⟨hlength, ?_, ?_, ?_, ?_, ?_⟩
    · intro hpos k
      have hlt : k % n < (startNew storage baseLoop name n startLoop cb).loops.length :=
        hlength.symm ▸ Nat.mod_lt k hpos
      refine ⟨hlt, ?_⟩
      rw [calls_of_pos (hlength.symm ▸ hpos) startNew_next, getNextLoop_pos (by simpa [hlength])]
      simp only [hlength, List.getElem?_eq_getElem hlt]
    · intro hpos k
      rw [calls_of_pos (hlength.symm ▸ hpos) startNew_next]
      simp only [hlength]
      exact Nat.mod_lt k hpos
    · rintro rfl k
      have hempty := List.eq_nil_of_length_eq_zero hlength
      have hbase : storage = baseLoop := h.resolve_left (Nat.lt_irrefl 0)
      rw [calls_of_empty hempty, getNextLoop_empty hempty, startNew_baseLoop, hbase]
    · rintro rfl
      have hbase : storage = baseLoop := h.resolve_left (Nat.lt_irrefl 0)
      rw [getAllLoops, if_pos (by simp [startNew_loops]), startNew_baseLoop, hbase]
    · rintro rfl rfl
      have hbase : storage = baseLoop := h.resolve_left (Nat.lt_irrefl 0)
      rw [startNew_initialised_zero, if_pos rfl, hbase]

/-- No threads, and memory that held a null pointer. -/
theorem roundRobin_fails_zero :
    (startNew none (some 1) [] 0 (fun _ => none) true).getAllLoops = [none] ∧
      ¬ (startNew none (some 1) [] 0 (fun _ => none) true).RoundRobin (some 1) 0 true := by
  refine ⟨by decide, ?_⟩
  intro h
  have hall := h.allLoops rfl
  exact absurd hall (by decide)

end EventLoopThreadPool

end EchoServer
