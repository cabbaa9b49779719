/-
# The course of a reflection

Tools are called one after the other, and the first failure is the last call.
An `Attempt` is a call together with the error it fails with, if it fails, so a
list of attempts says which calls are made and which error comes out.  A step
that takes the course of some attempts makes these calls, up to the first that
fails, and no others; the rules for combining steps put courses one behind the
other.

Nothing is assumed of the tools.  Each answer is the one that the tool gives at
the site as it is when its turn comes.
-/

import InterfaceProbe.Proofs.Pipeline.Steps

namespace InterfaceProbe

/-- A call of a tool, with the error that ends the reflection if the call fails. -/
structure Attempt where
  call : ToolCall
  failure : Option ReflectError

/-- The calls of some attempts, up to the first that fails. -/
def callsMade (attempts : List Attempt) : List ToolCall :=
  (attempts.take (attempts.findIdx (·.failure.isSome) + 1)).map (·.call)

/-- The error of the first attempt that fails. -/
def firstFailure (attempts : List Attempt) : Option ReflectError :=
  attempts.findSome? (·.failure)

/-- The error that a call fails with, worded for its stage. -/
def failureOf {ε α : Type} (wording : ε → ReflectError) : Except ε α → Option ReflectError
  | .ok _ => none
  | .error error => some (wording error)

section Attempts

variable {attempts : List Attempt} {error : ReflectError}

theorem callsMade_cons_of_none {attempt : Attempt} (h : attempt.failure = none) :
    callsMade (attempt :: attempts) = attempt.call :: callsMade attempts := by
  simp [callsMade, List.findIdx_cons, h]

theorem callsMade_cons_of_some {attempt : Attempt} (h : attempt.failure = some error) :
    callsMade (attempt :: attempts) = [attempt.call] := by
  simp [callsMade, List.findIdx_cons, h]

theorem firstFailure_append_of_none {more : List Attempt} (h : firstFailure attempts = none) :
    firstFailure (attempts ++ more) = firstFailure more := by
  rw [firstFailure] at h
  rw [firstFailure, List.findSome?_append, h, Option.none_or, firstFailure]

theorem firstFailure_append_of_some (more : List Attempt) (h : firstFailure attempts = some error) :
    firstFailure (attempts ++ more) = some error := by
  rw [firstFailure] at h
  rw [firstFailure, List.findSome?_append, h, Option.some_or]

theorem callsMade_append_of_none (more : List Attempt) (h : firstFailure attempts = none) :
    callsMade (attempts ++ more) = callsMade attempts ++ callsMade more := by
  induction attempts with
  | nil => rfl
  | cons attempt rest ih =>
    cases hfailure : attempt.failure with
    | none =>
      rw [firstFailure, List.findSome?_cons, hfailure] at h
      rw [List.cons_append, callsMade_cons_of_none hfailure, callsMade_cons_of_none hfailure, ih h,
        List.cons_append]
    | some error =>
      rw [firstFailure, List.findSome?_cons, hfailure] at h
      cases h

theorem callsMade_append_of_some (more : List Attempt) (h : firstFailure attempts = some error) :
    callsMade (attempts ++ more) = callsMade attempts := by
  induction attempts with
  | nil => cases h
  | cons attempt rest ih =>
    cases hfailure : attempt.failure with
    | none =>
      rw [firstFailure, List.findSome?_cons, hfailure] at h
      rw [List.cons_append, callsMade_cons_of_none hfailure, callsMade_cons_of_none hfailure, ih h]
    | some other =>
      rw [List.cons_append, callsMade_cons_of_some hfailure, callsMade_cons_of_some hfailure]

end Attempts

namespace Reflection

variable {α β ε : Type} {step first : Reflection α} {next : α → Reflection β}
  {site middle after : Site} {attempts more : List Attempt} {value : α}
  {result : Except ReflectError α} {last : Except ReflectError β} {cleanUp : StateM Site Unit}

/-- The step makes the calls of the attempts in their order.  If one fails, it is the last call and
its error is the result; otherwise the step gives the given result and leaves the given site. -/
structure Course (step : Reflection α) (site : Site) (attempts : List Attempt)
    (result : Except ReflectError α) (after : Site) : Prop where
  succeeds : firstFailure attempts = none →
    step.carryOut site = (result, after) ∧ after.calls = site.calls ++ callsMade attempts
  fails : ∀ error, firstFailure attempts = some error →
    ∃ ended, step.carryOut site = (.error error, ended) ∧
      ended.calls = site.calls ++ callsMade attempts

/-- A step that makes one call. -/
theorem Course.single {attempt : Attempt}
    (h : step.carryOut site = (attempt.failure.elim result .error, after))
    (hcalls : after.calls = site.calls ++ [attempt.call]) :
    step.Course site [attempt] result after := by
  have hmade : callsMade [attempt] = [attempt.call] := by
    cases hfailure : attempt.failure with
    | none => exact callsMade_cons_of_none hfailure
    | some error => exact callsMade_cons_of_some hfailure
  have hfirst : firstFailure [attempt] = attempt.failure := by
    cases hfailure : attempt.failure <;> simp [firstFailure, hfailure]
  refine ⟨fun hnone => ?_, fun error hsome => ⟨after, ?_, hmade ▸ hcalls⟩⟩
  · rw [hfirst] at hnone
    rw [hnone] at h
    exact ⟨h, hmade ▸ hcalls⟩
  · rw [hfirst] at hsome
    rw [hsome] at h
    exact h

theorem Course.call {program : StateM Site (Except ε α)} {call : ToolCall} {answer : Except ε α}
    (wording : ε → ReflectError) (instead : α) (h : program.run site = (answer, after))
    (hcalls : after.calls = site.calls ++ [call]) :
    (of wording program).Course site [⟨call, failureOf wording answer⟩]
      (.ok (answer.toOption.getD instead)) after := by
  refine Course.single ?_ hcalls
  rw [carryOut_of, h]
  cases answer <;> rfl

theorem Course.bind (h : first.Course site attempts (.ok value) middle)
    (hnext : firstFailure attempts = none → (next value).Course middle more last after) :
    (first >>= next).Course site (attempts ++ more) last after := by
  cases hfailure : firstFailure attempts with
  | none =>
    obtain ⟨hfirst, hmiddle⟩ := h.succeeds hfailure
    have hmade := callsMade_append_of_none more hfailure
    constructor
    · intro hnone
      obtain ⟨hrest, hcalls⟩ := (hnext hfailure).succeeds (by
        rwa [firstFailure_append_of_none hfailure] at hnone)
      rw [carryOut_bind_of_ok hfirst, hcalls, hmiddle, hmade, List.append_assoc]
      exact ⟨hrest, rfl⟩
    · intro error hsome
      obtain ⟨ended, hrest, hcalls⟩ := (hnext hfailure).fails error (by
        rwa [firstFailure_append_of_none hfailure] at hsome)
      refine ⟨ended, by rw [carryOut_bind_of_ok hfirst, hrest], ?_⟩
      rw [hcalls, hmiddle, hmade, List.append_assoc]
  | some error =>
    obtain ⟨ended, hfirst, hcalls⟩ := h.fails error hfailure
    have hboth := firstFailure_append_of_some more hfailure
    constructor
    · intro hnone
      cases hboth.symm.trans hnone
    · intro other hother
      cases hboth.symm.trans hother
      rw [callsMade_append_of_some more hfailure]
      exact ⟨ended, carryOut_bind_of_error hfirst, hcalls⟩

theorem Course.orElseDo (h : step.Course site attempts (.ok value) after)
    (hclean : ∀ site, (cleanUp.run site).2.calls = site.calls) :
    (orElseDo step cleanUp).Course site attempts (.ok value) after where
  succeeds hnone := by
    obtain ⟨hstep, hcalls⟩ := h.succeeds hnone
    exact ⟨carryOut_orElseDo_of_ok hstep, hcalls⟩
  fails error hsome := by
    obtain ⟨ended, hstep, hcalls⟩ := h.fails error hsome
    exact ⟨_, carryOut_orElseDo_of_error hstep, (hclean ended).trans hcalls⟩

end Reflection

/-- The failure of a probe that was run. -/
def runFailure (program : PathName) : Except ExecutionError ProbeOutput → Option ReflectError
  | .error error => some (.exec program error)
  | .ok output =>
    match output.status with
    | .success => none
    | .failed => some (.exec program (.nonZeroExit output.exitCode))

/-- What a probe that was run printed. -/
def printedBy : Except ExecutionError ProbeOutput → Bytes
  | .error _ => []
  | .ok output => output.stdout

end InterfaceProbe
