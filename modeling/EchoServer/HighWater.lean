import EchoServer.WriteComplete

/-!
# High-water notifications

`sendInLoop` compares the length it expects of `outputBuffer_` with
`highWaterMark_` before it appends. The expected length is the one the buffer
then has, the only other operation that touches the buffer takes bytes out of
it, and nothing is compared when nothing is appended.

* `sendInLoop_notifies`, `Subsides.notifies`: what one operation queues;
* `high_water_once`: the functors queued are the upward crossings of the mark.
-/

namespace EchoServer

open Runs Trace

/-- The functor for `highWaterMarkCallback_`, by the length it carries. -/
def Effect.highWater : Effect → Option Nat
  | .queueInLoop (.highWaterMarkCallback len) => some len
  | _ => none

namespace Conn

/-- How much is buffered. -/
def level (c : Conn) : Nat := c.tcp.outputBuffer.readableBytes

/-- The new length, if it goes from below the mark to the mark or above. -/
def upward (mark before after : Nat) : List Nat :=
  if before < mark ∧ mark ≤ after then [after] else []

/-- The length after the operation, if it crosses the mark. -/
def crossing (c : Conn) (op : Op) : List Nat := upward c.tcp.highWaterMark c.level (c.step op).level

theorem upward_of_le {mark before after : Nat} (h : after ≤ before) :
    upward mark before after = [] := by
  have hnot : ¬ (before < mark ∧ mark ≤ after) := by omega
  exact if_neg hnot

/-- The lengths carried by the functors queued so far. -/
def notified (c : Conn) : List Nat := c.trace.filterMap Effect.highWater

/-- The lengths carried by the functors that the operation queues. -/
def notifiedBy (c : Conn) (op : Op) : List Nat :=
  ((c.step op).trace.drop c.trace.length).filterMap Effect.highWater

/-! ## The mark and the callback stay set -/

theorem Moves.highWater {c d : Conn} (h : Moves c d) :
    d.tcp.highWaterMarkCallback = c.tcp.highWaterMarkCallback ∧
      d.tcp.highWaterMark = c.tcp.highWaterMark := by
  induction h with
  | refl => exact ⟨rfl, rfl⟩
  | emit _ _ ih => exact ih
  | setEvents _ _ ih => exact ih
  | setInputBuffer _ _ ih => exact ih
  | setOutputBuffer _ _ ih => exact ih
  | disconnecting _ ih => exact ih
  | queueShutdown _ _ ih => exact ih
  | notifyDown _ ih => exact ih

theorem step_highWater (c : Conn) (op : Op) :
    (c.step op).tcp.highWaterMarkCallback = c.tcp.highWaterMarkCallback ∧
      (c.step op).tcp.highWaterMark = c.tcp.highWaterMark := by
  cases op with
  | userCall u => exact (userCall_moves c u).highWater
  | sendInLoop data w => exact (sendInLoop_moves c data w).highWater
  | shutdownStore => exact ⟨rfl, rfl⟩
  | shutdownInLoop => exact (shutdownInLoop_moves c).highWater
  | part p a => exact (runPart_moves c p _).highWater
  | connectDestroyed saw =>
    cases saw with
    | true => exact (notifyDown_moves c []).highWater
    | false => exact ⟨rfl, rfl⟩

/-! ## Operations that only drain -/

/-- No functor is queued for the callback, and nothing is appended. -/
structure Subsides (c c' : Conn) : Prop where
  trace : Extends (fun e => e.highWater = none) c.trace c'.trace
  level : c'.level ≤ c.level

theorem Subsides.trans {c c' c'' : Conn} (h : Subsides c c') (h' : Subsides c' c'') : Subsides c c'' :=
  ⟨h.trace.trans h'.trace, Nat.le_trans h'.level h.level⟩

theorem Subsides.refl (c : Conn) : Subsides c c := ⟨Extends.refl _ _, Nat.le_refl _⟩

theorem subsides_of_trace {c c' : Conn} {Q : Effect → Prop} (h : Extends Q c.trace c'.trace)
    (hQ : ∀ e, Q e → e.highWater = none)
    (hbuffer : c'.tcp.outputBuffer = c.tcp.outputBuffer) : Subsides c c' := by
  refine ⟨h.mono hQ, ?_⟩
  rw [level, level, hbuffer]

/-- One effect, and the output buffer as it was. -/
theorem subsides_of_one {c c' : Conn} {e : Effect} (he : e.highWater = none)
    (htrace : c'.trace = c.trace ++ [e]) (hbuffer : c'.tcp.outputBuffer = c.tcp.outputBuffer) :
    Subsides c c' := by
  refine subsides_of_trace (Q := (· = e)) ?_ ?_ hbuffer
  · rw [htrace]
    apply Extends.one
    rfl
  · rintro _ rfl
    exact he

theorem emit_subsides (c : Conn) {e : Effect} (he : e.highWater = none) : Subsides c (c.emit e) :=
  subsides_of_one he rfl rfl

theorem setState_subsides (c : Conn) (s : StateE) : Subsides c (c.setState s) :=
  subsides_of_one (e := .setState s) rfl rfl rfl

theorem readInput_subsides (c : Conn) (chunk : List Byte) : Subsides c (c.readInput chunk) :=
  subsides_of_one (e := .received (chunk.take c.tcp.inputBuffer.readFdCapacity)) rfl rfl rfl

/-- The first part of `handleClose` and of `connectDestroyed`. -/
theorem notifyDown_subsides (c : Conn) :
    Subsides c (((c.setState .kDisconnected).disableAll).connectionCallback []) :=
  (setState_subsides c .kDisconnected).trans
    (subsides_of_one (e := .connectionCallback false) rfl rfl rfl)

theorem handleClose_subsides (c : Conn) : Subsides c (c.handleClose []) :=
  (notifyDown_subsides c).trans (emit_subsides _ rfl)

theorem handleRead_subsides (c : Conn) {a : Answers} (hmessage : a.onMessage = [])
    (hconnection : a.onConnection = []) : Subsides c (c.handleRead a) := by
  rcases handleRead_cases c a with ⟨chunk, heq⟩ | ⟨chunk, heq⟩ | ⟨e, heq⟩
  · rw [heq, hmessage]
    exact (readInput_subsides c chunk).trans (emit_subsides _ rfl)
  · rw [heq, hconnection]
    exact (readInput_subsides c chunk).trans (handleClose_subsides _)
  · rw [heq, hconnection]
    exact (emit_subsides c rfl).trans (handleClose_subsides _)

theorem readableBytes_retrieve_le (b : Buffer) (n : Nat) :
    (b.retrieve n).readableBytes ≤ b.readableBytes := by
  unfold Buffer.retrieve
  split
  · simp only [Buffer.readableBytes]
    omega
  · simp [Buffer.readableBytes, Buffer.retrieveAll]

theorem handleWrite_subsides (c : Conn) (w : WriteResult) : Subsides c (c.handleWrite w) := by
  refine ⟨(handleWrite_extends c w).mono ?_, ?_⟩
  · intro e he
    cases e with
    | queueInLoop f =>
      cases f with
      | writeCompleteCallback => rfl
      | _ => exact he.elim
    | _ => rfl
  · unfold handleWrite
    split
    · split
      · rw [level, afterWrite_outputBuffer]
        exact readableBytes_retrieve_le _ _
      · exact Nat.le_refl _
    · exact Nat.le_refl _

theorem runPart_subsides (c : Conn) (p : Part) {a : Answers} (hmessage : a.onMessage = [])
    (hconnection : a.onConnection = []) : Subsides c (c.runPart p a) := by
  cases p with
  | close =>
    rw [runPart, hconnection]
    exact handleClose_subsides c
  | error =>
    rcases handleError_eq c a.sockOpt a.onConnection with ⟨e, he⟩
    rw [runPart, he, hconnection]
    exact (emit_subsides c rfl).trans (handleClose_subsides _)
  | read => exact handleRead_subsides c hmessage hconnection
  | write => exact handleWrite_subsides c a.write

theorem shutdownInLoop_subsides (c : Conn) : Subsides c c.shutdownInLoop := by
  refine subsides_of_trace (shutdownInLoop_extends c) ?_ ?_
  · rintro e rfl
    rfl
  · rw [shutdownInLoop_tcp]

/-- Every operation but a `sendInLoop`. -/
theorem step_subsides {c : Conn} {op : Op} (h : c.sends op = none) : Subsides c (c.step op) := by
  cases op with
  | userCall u =>
    cases u with
    | send data w =>
      have hstate : ¬ c.tcp.state = .kConnected := by
        intro hstate
        simp [sends, hstate] at h
      have hsame : c.step (.userCall (.send data w)) = c := if_neg hstate
      rw [hsame]
      exact Subsides.refl c
    | shutdown =>
      by_cases hstate : c.tcp.state = .kConnected
      · have hstep : c.step (.userCall .shutdown) =
            (c.setState .kDisconnecting).queueInLoop .shutdownInLoop := if_pos hstate
        rw [hstep]
        exact (setState_subsides c _).trans (emit_subsides _ rfl)
      · have hsame : c.step (.userCall .shutdown) = c := if_neg hstate
        rw [hsame]
        exact Subsides.refl c
    | retrieve len =>
      exact subsides_of_one (e := .consumed (c.tcp.inputBuffer.readable.take len)) rfl rfl rfl
    | retrieveAll =>
      exact subsides_of_one (e := .consumed c.tcp.inputBuffer.readable) rfl rfl rfl
    | retrieveAllAsString =>
      exact subsides_of_one (e := .consumed c.tcp.inputBuffer.retrieveAllAsString.1) rfl rfl rfl
  | sendInLoop data w => simp [sends] at h
  | shutdownStore => exact setState_subsides c _
  | shutdownInLoop => exact shutdownInLoop_subsides c
  | part p a => exact runPart_subsides c p rfl rfl
  | connectDestroyed saw =>
    have hremove : ∀ d : Conn, Subsides d d.removeChannel := fun d =>
      subsides_of_one (e := .removeChannel) rfl rfl rfl
    cases saw with
    | true => exact (notifyDown_subsides c).trans (hremove _)
    | false => exact hremove c

theorem Subsides.notifies {c : Conn} {op : Op} (h : Subsides c (c.step op)) :
    c.notifiedBy op = c.crossing op := by
  rw [notifiedBy, h.trace.filterMap_drop (fun _ he => he), crossing, upward_of_le h.level]

/-! ## `sendInLoop` -/

/-- The direct write queues nothing for the callback, whatever it takes. -/
theorem tryDirectWrite_subsides (c : Conn) (data : List Byte) (w : WriteResult) :
    Subsides c (c.tryDirectWrite data w) := by
  have hwrite : Subsides c (c.emit (.write data w)) := emit_subsides c rfl
  unfold tryDirectWrite
  split
  · unfold directWrite
    split
    · split
      · exact hwrite.trans (emit_subsides _ rfl)
      · exact hwrite
    · exact hwrite
  · exact Subsides.refl c

/-- The predicted length is the length after the append. -/
theorem level_bufferOutput (c : Conn) (rest : List Byte) :
    (c.bufferOutput rest).level = c.level + rest.length := by
  rw [level, bufferOutput_outputBuffer, Buffer.readableBytes_append]
  rfl

theorem trace_bufferOutput {c : Conn} (hset : c.tcp.highWaterMarkCallback = true)
    (rest : List Byte) :
    (c.bufferOutput rest).trace = c.trace ++
      (upward c.tcp.highWaterMark c.level (c.bufferOutput rest).level).map
        (.queueInLoop <| .highWaterMarkCallback ·) := by
  rw [level_bufferOutput]
  unfold bufferOutput
  rw [ensureWriting_trace, setOutputBuffer_trace]
  by_cases hcrosses : c.level < c.tcp.highWaterMark ∧ c.tcp.highWaterMark ≤ c.level + rest.length
  · rw [upward, if_pos hcrosses, checkHighWater, if_pos ⟨hcrosses.2, hcrosses.1, hset⟩]
    rfl
  · rw [upward, if_neg hcrosses, checkHighWater, if_neg]
    · simp
    · rintro ⟨habove, hbelow, _⟩
      exact hcrosses ⟨hbelow, habove⟩

theorem filterMap_highWater (lens : List Nat) :
    (lens.map fun len => Effect.queueInLoop (.highWaterMarkCallback len)).filterMap
      Effect.highWater = lens := by
  induction lens with
  | nil => rfl
  | cons len lens ih => simpa [Effect.highWater] using ih

/-- `sendInLoop` queues a functor if it crosses the mark, with the length that
it leaves. -/
theorem sendInLoop_notifies {c : Conn} (hset : c.tcp.highWaterMarkCallback = true)
    (data : List Byte) (w : WriteResult) :
    ((c.sendInLoop data w).trace.drop c.trace.length).filterMap Effect.highWater =
      upward c.tcp.highWaterMark c.level (c.sendInLoop data w).level := by
  have hdirect := tryDirectWrite_subsides c data w
  have htcp := tryDirectWrite_tcp c data w
  have hlevel : (c.tryDirectWrite data w).level = c.level := by rw [level, level, htcp]
  by_cases hrest : c.leavesRest data w = true
  · have hsend : c.sendInLoop data w =
        (c.tryDirectWrite data w).bufferOutput (data.drop (c.nwrote data w)) := if_pos hrest
    rcases hdirect.trace with ⟨es, hes, hquiet⟩
    have hnone : es.filterMap Effect.highWater = [] := by
      rw [List.filterMap_eq_nil_iff]
      exact hquiet
    rw [hsend, trace_bufferOutput (by rw [htcp, hset]), hlevel, htcp, hes, List.append_assoc,
      List.drop_left, List.filterMap_append, hnone, List.nil_append, filterMap_highWater]
  · -- all was taken, or the data is dropped
    have hsend : c.sendInLoop data w = c.tryDirectWrite data w := if_neg hrest
    rw [hsend, hlevel, upward_of_le (Nat.le_refl _),
      hdirect.trace.filterMap_drop (fun _ he => he)]

theorem step_of_sends {c : Conn} {op : Op} {data : List Byte} {w : WriteResult}
    (h : c.sends op = some (data, w)) : c.step op = c.sendInLoop data w := by
  cases op with
  | userCall u =>
    cases u with
    | send data' w' =>
      by_cases hstate : c.tcp.state = .kConnected
      · simp only [sends, if_pos hstate, Option.some.injEq, Prod.mk.injEq] at h
        rw [← h.1, ← h.2]
        exact if_pos hstate
      · simp [sends, hstate] at h
    | _ => simp [sends] at h
  | sendInLoop data' w' =>
    simp only [sends, Option.some.injEq, Prod.mk.injEq] at h
    rw [← h.1, ← h.2]
    rfl
  | _ => simp [sends] at h

/-- The step lemma: an operation queues a functor if it crosses the mark. -/
theorem step_notifies {c : Conn} (hset : c.tcp.highWaterMarkCallback = true) (op : Op) :
    c.notifiedBy op = c.crossing op := by
  rcases hsends : c.sends op with _ | ⟨data, w⟩
  · exact (step_subsides hsends).notifies
  · rw [notifiedBy, crossing, step_of_sends hsends]
    exact sendInLoop_notifies hset data w

theorem step_extends (c : Conn) (op : Op) : Extends (fun _ => True) c.trace (c.step op).trace := by
  rcases hsends : c.sends op with _ | ⟨data, w⟩
  · exact (step_subsides hsends).trace.mono fun _ _ => trivial
  · rw [step_of_sends hsends]
    exact (sendInLoop_extends c data w).mono fun _ _ => trivial

/-- So the functors queued so far are those of the operations so far. -/
theorem notified_step (c : Conn) (op : Op) :
    (c.step op).notified = c.notified ++ c.notifiedBy op := by
  rcases step_extends c op with ⟨es, hes, _⟩
  rw [notified, notifiedBy, hes, List.drop_left, List.filterMap_append]
  rfl

/-- The callback is set, and the mark is the one set. -/
def Marked (mark : Nat) (c : Conn) : Prop :=
  c.tcp.highWaterMarkCallback = true ∧ c.tcp.highWaterMark = mark

theorem Marked.step {mark : Nat} {c : Conn} (h : Marked mark c) (op : Op) :
    Marked mark (c.step op) := by
  rcases step_highWater c op with ⟨hset, hmark⟩
  exact ⟨hset.trans h.1, hmark.trans h.2⟩

theorem Marked.run {mark : Nat} {c : Conn} (h : Marked mark c) (ops : List Op) :
    Marked mark (Runs.run Conn.step c ops) :=
  run_invariant (Marked mark) (fun _ op hc => hc.step op) h ops

/-- What crosses the mark has been below it. -/
theorem level_of_crossing {c : Conn} {op : Op} (h : c.crossing op ≠ []) :
    c.level < c.tcp.highWaterMark := by
  by_contra hbelow
  exact h (if_neg fun hcrosses => hbelow hcrosses.1)

end Conn

open Conn

/-- For every connection with the callback set and every sequence of its
operations: one operation queues a functor exactly when it takes the buffer from
below the mark to it or above, with the length it leaves; so the functors queued
are the crossings, in order; and from one to the next the buffer has been below
the mark. -/
theorem high_water_once (c : Conn) (hset : c.tcp.highWaterMarkCallback = true) (ops : List Op) :
    EachStep step c (fun c op => c.notifiedBy op = c.crossing op) ops ∧
    (run step c ops).notified = c.notified ++ collect step crossing c ops ∧
    ∀ pre op mid op', pre ++ op :: mid ++ [op'] <+: ops →
      (run step c pre).notifiedBy op ≠ [] → (run step c (pre ++ op :: mid)).notifiedBy op' ≠ [] →
      ∃ part, part <+: mid ∧ (run step c (pre ++ op :: part)).level < c.tcp.highWaterMark := by
  have hmarked : Marked c.tcp.highWaterMark c := ⟨hset, rfl⟩
  have hstep : ∀ d op, Marked c.tcp.highWaterMark d → d.notifiedBy op = d.crossing op := by
    intro d op hd
    exact step_notifies hd.1 op
  refine ⟨?_, ?_, ?_⟩
  · intro pre op _
    exact hstep _ op (hmarked.run pre)
  · refine log_run (Marked c.tcp.highWaterMark) (fun _ op hd => hd.step op) ?_ hmarked ops
    intro d op hd
    rw [notified_step, hstep d op hd]
  · intro pre op mid op' _ _ hlater
    have hlast : Marked c.tcp.highWaterMark (run step c (pre ++ op :: mid)) := hmarked.run _
    rw [hstep _ op' hlast] at hlater
    refine ⟨mid, List.prefix_refl mid, ?_⟩
    rw [← hlast.2]
    exact level_of_crossing hlater

/-- A partial direct write, a drain, and a second crossing. -/
def crossesTwice : List Op :=
  [.sendInLoop [1, 2, 3] (.ok 1), .part .write ⟨.ok [], .ok 2, .ok .eagain, [], []⟩,
    .sendInLoop [4, 5] (.err .eagain)]

theorem high_water_once_twice :
    EachStep step (upConn 1 7 true true 2 []) (fun c op => c.notifiedBy op = c.crossing op)
      crossesTwice ∧
    (run step (upConn 1 7 true true 2 []) crossesTwice).notified =
      (upConn 1 7 true true 2 []).notified ++
        collect step crossing (upConn 1 7 true true 2 []) crossesTwice ∧
    ∀ pre op mid op', pre ++ op :: mid ++ [op'] <+: crossesTwice →
      (run step (upConn 1 7 true true 2 []) pre).notifiedBy op ≠ [] →
      (run step (upConn 1 7 true true 2 []) (pre ++ op :: mid)).notifiedBy op' ≠ [] →
      ∃ part, part <+: mid ∧
        (run step (upConn 1 7 true true 2 []) (pre ++ op :: part)).level < 2 :=
  high_water_once (upConn 1 7 true true 2 []) rfl crossesTwice

end EchoServer
