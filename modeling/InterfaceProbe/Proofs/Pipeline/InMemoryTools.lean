/-
# In-memory tools in a reflection

The in-memory toolchain answers every question from its table and builds as it is
told to, so during one reflection it is a conduct of the tools, and what is known of
jobs is known of reflections with it.  A reflection that builds needs the values of
two settings, and fails where one of them is missing.
-/

import InterfaceProbe.Proofs.Pipeline.Building

namespace InterfaceProbe

open Reflection

/-- How a build of this behaviour goes. -/
def BuildBehaviour.conduct : BuildBehaviour → BuildConduct
  | .succeed => {}
  | .fail text => { result := fun workspace => .error (.buildFailed workspace text) }
  | .writeExecutable contents => { written := some contents }

namespace InMemoryToolchain

variable (toolchain : InMemoryToolchain) (outcome : Except ExecutionError ProbeOutput)

/-- What the toolchain and a runner with one outcome do during a reflection. -/
def conduct : ToolConduct where
  project := toolchain.query projectDirectoryKey
  suffix := toolchain.query executableSuffixKey
  build := toolchain.behaviour.conduct
  probe _ := outcome

theorem toOption_query (key : String) :
    (toolchain.query key).toOption = toolchain.values.lookup key := by
  rw [query]
  cases toolchain.values.lookup key <;> rfl

theorem lookup_settings_conduct :
    (toolchain.conduct outcome).settings.values.lookup projectDirectoryKey =
        some ((toolchain.values.lookup projectDirectoryKey).getD "") ∧
      (toolchain.conduct outcome).settings.values.lookup executableSuffixKey =
        some ((toolchain.values.lookup executableSuffixKey).getD "") := by
  rw [← toolchain.toOption_query projectDirectoryKey,
    ← toolchain.toOption_query executableSuffixKey]
  exact ⟨rfl, rfl⟩

theorem writeExecutable_settings_conduct (contents : String) :
    (toolchain.conduct outcome).settings.writeExecutable contents =
      toolchain.writeExecutable contents := by
  obtain ⟨hproject, hsuffix⟩ := toolchain.lookup_settings_conduct outcome
  funext workspace files start
  simp only [writeExecutable, executable, hproject, hsuffix, Option.getD_some]

theorem build_conduct (workspace : PathName) (site : Site) :
    (toolchain.conduct outcome).toolchain.build workspace site =
      toolchain.toToolchain.build workspace site := by
  have hbuild : (toolchain.conduct outcome).build = toolchain.behaviour.conduct := rfl
  change _ = toolchain.build workspace site
  cases hbehaviour : toolchain.behaviour with
  | writeExecutable contents =>
    rw [hbehaviour] at hbuild
    rw [ToolConduct.build_of_written (congrArg BuildConduct.written hbuild), hbuild,
      writeExecutable_settings_conduct, build_of_writes hbehaviour]
    cases (toolchain.writeExecutable contents workspace site.files site.directory).1 <;> rfl
  | _ =>
    rw [hbehaviour] at hbuild
    rw [ToolConduct.build_of_not_written (congrArg BuildConduct.written hbuild), hbuild]
    simp only [build, hbehaviour, BuildBehaviour.conduct]

theorem executable_conduct :
    (toolchain.conduct outcome).toolchain.executable = toolchain.toToolchain.executable := by
  funext workspace
  have hmake : (toolchain.conduct outcome).toolchain.make workspace =
      toolchain.toToolchain.make workspace := by
    funext site
    simp only [Toolchain.make, build_conduct]
  simp only [Toolchain.executable, hmake]
  rfl

end InMemoryToolchain

/-- The step fails wherever it is carried out. -/
def Reflection.Fails {α : Type} (step : Reflection α) : Prop :=
  step.Leaves (fun _ => True) (fun _ _ => False) (fun _ => True)

namespace Reflection

variable {α β : Type} {step first : Reflection α} {next : α → Reflection β}
  {cleanUp : StateM Site Unit}

theorem leaves_any (step : Reflection α) :
    step.Leaves (fun _ => True) (fun _ _ => True) (fun _ => True) := by
  intro site _
  cases hrun : step.carryOut site with
  | mk result after =>
    cases result with
    | ok value => exact .inl ⟨value, after, rfl, trivial⟩
    | error error => exact .inr ⟨error, after, rfl, trivial⟩

theorem Fails.bind (h : first.Fails) : (first >>= next).Fails :=
  Leaves.bind h fun _ _ => False.elim

/-- A step fails when what comes after its first part does. -/
theorem Fails.after (h : ∀ value, (next value).Fails) : (first >>= next).Fails :=
  first.leaves_any.bind h

theorem Fails.orElseDo (h : step.Fails) : (orElseDo step cleanUp).Fails :=
  Leaves.orElseDo h fun _ _ => trivial

end Reflection

theorem Reflector.fails_reflect {reflector : Reflector} {request : ProbeRequest}
    {options : ReflectOptions} (hoptions : options.source = .build false)
    (h : ∀ workspace, (reflector.toolchain.executable workspace).Fails) :
    (reflector.reflect request options).Fails := by
  have hbuild : (reflector.build (request.program reflector.config.modelImport)).Fails :=
    Fails.after fun workspace => (Fails.after fun _ => (h workspace).bind).orElseDo
  rw [reflect, hoptions]
  exact Fails.bind hbuild.bind

namespace InMemoryToolchain

variable {toolchain : InMemoryToolchain} {key : String}

theorem query_withoutValue (toolchain : InMemoryToolchain) (key : String) :
    (toolchain.withoutValue key).query key = .error (.queryFailed key "unknown key") := by
  have hnone : (toolchain.withoutValue key).values.lookup key = none := by
    rw [List.lookup_eq_none_iff]
    intro entry hentry
    have hne : entry.1 ≠ key := by simpa using (List.mem_filter.1 hentry).2
    exact bne_iff_ne.2 hne.symm
  rw [query, hnone]

theorem fails_executable (hkey : key = projectDirectoryKey ∨ key = executableSuffixKey)
    {error : ToolchainError} (hquery : toolchain.query key = .error error) (workspace : PathName) :
    (toolchain.toToolchain.executable workspace).Fails := by
  have hask : (Reflection.of .toolchainQuery (toolchain.toToolchain.ask key)).Fails :=
    leaves_of fun _ _ => .inr ⟨error, hquery, trivial⟩
  rcases hkey with rfl | rfl
  · exact hask.bind
  · exact Fails.after fun _ => hask.bind

end InMemoryToolchain

end InterfaceProbe
