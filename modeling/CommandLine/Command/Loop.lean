import CommandLine.Command.Parse
import Mathlib.Algebra.Group.Nat.Defs

/-! Reading a list of arguments in a loop.

An index runs over the arguments. One that puts off its decision is kept on a
stack, and taken from there behind the last argument, or as soon as one fails.
If its resolution takes tokens, the index is set back to it. So it is not the
index that tells how much there is left to do, but how often arguments may
still be read, for those that it runs over and for those on the stack.
-/

set_option autoImplicit false

namespace CommandLine

structure Pending (count : Nat) where
  index : Fin count
  signal : Signal
  context : Context
  snapshot : Nat

structure Progress (count : Nat) where
  context : Context
  cursor : Cursor
  pending : List (Pending count)
  visits : List Visit

/-- How often arguments may be read that start at `index`: each may have those behind it read
twice. -/
def readingsFrom (count index : Nat) : Nat :=
  2 ^ (count - index) - 1

theorem readingsFrom_eq {count index : Nat} (inside : index < count) :
    readingsFrom count index = 1 + 2 * readingsFrom count (index + 1) := by
  have next : count - index = count - (index + 1) + 1 := by omega
  have positive : 0 < 2 ^ (count - (index + 1)) := Nat.two_pow_pos _
  unfold readingsFrom
  rw [next, Nat.pow_succ]
  omega

def Pending.readings {count : Nat} : List (Pending count) → Nat
  | [] => 0
  | last :: previous => readingsFrom count (last.index + 1) + readings previous

def Resolution.stood (resolution : Resolution) (start : Cursor) : Cursor :=
  match resolution.outcome with
  | .ok _ => resolution.cursor
  | .error _ => resolution.cursor.restore start.position

section

variable (steps : List Step)

/-- Reads the argument at `index`, and tells how it failed. -/
def Progress.read (index : Fin steps.length) (progress : Progress steps.length) :
    Option ArgumentError × Progress steps.length :=
  let step := steps.get index
  let snapshot := progress.cursor.position
  let reading := step.read progress.context progress.cursor
  let visits :=
    progress.visits ++ [.read index step.name progress.context progress.cursor reading]
  match reading.outcome with
  | .ok _ => (none, ⟨reading.context, reading.cursor, progress.pending, visits⟩)
  | .error (.deferred signal) =>
    (none, ⟨reading.context, reading.cursor.restore snapshot,
      ⟨index, signal, reading.context, snapshot⟩ :: progress.pending, visits⟩)
  | .error (.error cause) =>
    (some cause, ⟨reading.context, reading.cursor.restore snapshot, progress.pending, visits⟩)

/-- Resolves what is pending once the argument at `index` has been read, the latest first. Reading
goes on behind the argument that is returned. -/
def resolvePending (index : Fin steps.length) (failure : Option ArgumentError)
    (context : Context) (cursor : Cursor) (visits : List Visit) :
    List (Pending steps.length) → Except ArgumentError (Fin steps.length) × Progress steps.length
  | [] =>
    (match failure with
      | some cause => .error cause
      | none => .ok index,
      ⟨context, cursor, [], visits⟩)
  | last :: previous =>
    if failure.isNone && index.val + 1 < steps.length then
      (.ok index, ⟨context, cursor, last :: previous, visits⟩)
    else
      let step := steps.get last.index
      let parsingFailed := failure.isSome || cursor.hasNext
      let start := if parsingFailed then cursor.restore last.snapshot else cursor
      let resolution := step.resolve last.context start last.signal parsingFailed
      let stood := resolution.stood start
      let consumed := stood.position != start.position
      let visits := visits ++
        [.resolved last.index step.name parsingFailed last.context start last.signal resolution]
      if start.hasNext && !consumed then
        resolvePending last.index (some last.signal.rootCause) resolution.context stood visits
          previous
      else
        match resolution.outcome with
        | .error cause =>
          resolvePending last.index (some cause) resolution.context stood visits previous
        | .ok _ =>
          if consumed then (.ok last.index, ⟨resolution.context, stood, previous, visits⟩)
          else
            resolvePending index failure (resolution.context.merge context)
              (stood.restore cursor.position) visits previous

variable {steps}

theorem Progress.readings_read_le (index : Fin steps.length) (progress : Progress steps.length) :
    Pending.readings (progress.read steps index).2.pending ≤
      readingsFrom steps.length (index + 1) + Pending.readings progress.pending := by
  unfold read
  dsimp only
  split
  next => exact Nat.le_add_left ..
  next => exact Nat.le_refl _
  next => exact Nat.le_add_left ..

/-- Wherever reading goes on from, it is paid for by an argument that is no longer pending. -/
theorem readings_resolvePending_le {index next : Fin steps.length}
    {failure : Option ArgumentError} {context : Context} {cursor : Cursor} {visits : List Visit}
    {pending : List (Pending steps.length)} {onward : Progress steps.length}
    (went : resolvePending steps index failure context cursor visits pending =
      (.ok next, onward)) :
    readingsFrom steps.length (next + 1) + Pending.readings onward.pending ≤
      readingsFrom steps.length (index + 1) + Pending.readings pending := by
  induction pending generalizing index failure context cursor visits with
  | nil =>
    cases failure with
    | some cause => cases went
    | none =>
      cases went
      exact Nat.le_refl _
  | cons last previous ih =>
    have less : readingsFrom steps.length (last.index + 1) + Pending.readings previous ≤
        readingsFrom steps.length (index + 1) + Pending.readings (last :: previous) := by
      rw [Pending.readings]
      exact Nat.le_add_left ..
    have fewer : readingsFrom steps.length (index + 1) + Pending.readings previous ≤
        readingsFrom steps.length (index + 1) + Pending.readings (last :: previous) := by
      rw [Pending.readings]
      omega
    unfold resolvePending at went
    split at went
    next =>
      cases went
      exact Nat.le_refl _
    next =>
      extract_lets _ _ _ _ _ consumed at went
      split at went
      next => exact Nat.le_trans (ih went) less
      next =>
        split at went
        next => exact Nat.le_trans (ih went) less
        next =>
          split at went
          next =>
            cases went
            exact less
          next => exact Nat.le_trans (ih went) fewer

variable (steps)

def loop (index : Nat) (progress : Progress steps.length) :
    Except ArgumentError Unit × Progress steps.length :=
  if inside : index < steps.length then
    let read := progress.read steps ⟨index, inside⟩
    match went : resolvePending steps ⟨index, inside⟩ read.1 read.2.context read.2.cursor
        read.2.visits read.2.pending with
    | (.error cause, stopped) => (.error cause, stopped)
    | (.ok next, onward) => loop (next + 1) onward
  else (.ok (), progress)
termination_by readingsFrom steps.length index + Pending.readings progress.pending
decreasing_by
  have twice := readingsFrom_eq inside
  have one : Pending.readings read.2.pending ≤ _ := progress.readings_read_le ⟨index, inside⟩
  have others := readings_resolvePending_le went
  dsimp only at *
  omega

end

def Command.parseInLoop {σ : Type} (command : Command σ) (input : Input σ) (cursor : Cursor) :
    Run :=
  let (verdict, progress) :=
    loop (command.arguments.map (·.step input)) 0 ⟨.empty, cursor, [], []⟩
  let result :=
    match verdict with
    | .error cause => .error cause
    | .ok () =>
      match command.leftover? progress.context progress.cursor with
      | some cause => .error cause
      | none => .ok progress.context
  ⟨result, progress.cursor, progress.visits⟩

end CommandLine
