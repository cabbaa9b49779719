/-
# Carrying out the steps of a reflection

A step of a reflection gives a result and leaves a site.  The module says for the
ways to combine steps, and for the steps that make and fill a workspace, what
they give and what they leave, so that a run can be followed one step at a time.
-/

import InterfaceProbe.Pipeline.Reflect
import InterfaceProbe.Proofs.Files.Changes

namespace InterfaceProbe

/-- What a step gives at a site, and the site afterwards. -/
def Reflection.carryOut {α : Type} (step : Reflection α) (site : Site) :
    Except ReflectError α × Site :=
  step.run.run site

namespace Reflection

variable {α β ε : Type} {first : Reflection α} {next : α → Reflection β} {site after : Site}
  {value : α} {error : ReflectError} {cleanUp : StateM Site Unit}

theorem carryOut_of_fst {result : Except ReflectError α} (h : (first.carryOut site).1 = result) :
    first.carryOut site = (result, (first.carryOut site).2) :=
  Prod.ext h rfl

@[simp] theorem carryOut_pure (value : α) (site : Site) :
    (pure value : Reflection α).carryOut site = (.ok value, site) := rfl

theorem carryOut_get (site : Site) : (get : Reflection Site).carryOut site = (.ok site, site) := rfl

theorem carryOut_lift (program : StateM Site α) (site : Site) :
    carryOut (liftM program) site = (.ok (program.run site).1, (program.run site).2) := rfl

theorem carryOut_bind_of_ok (h : first.carryOut site = (.ok value, after)) :
    (first >>= next).carryOut site = (next value).carryOut after := by
  rw [carryOut] at h
  rw [carryOut, ExceptT.run_bind, StateT.run_bind, h]
  rfl

theorem carryOut_bind_of_error (h : first.carryOut site = (.error error, after)) :
    (first >>= next).carryOut site = (.error error, after) := by
  rw [carryOut] at h
  rw [carryOut, ExceptT.run_bind, StateT.run_bind, h]
  rfl

theorem carryOut_of (wording : ε → ReflectError) (step : StateM Site (Except ε α)) (site : Site) :
    (of wording step).carryOut site = ((step.run site).1.mapError wording, (step.run site).2) := by
  rw [carryOut, of, ExceptT.run_mk, StateT.run_bind]
  cases step.run site with
  | mk result after => cases result <;> rfl

theorem carryOut_orElseDo_of_ok (h : first.carryOut site = (.ok value, after)) :
    (orElseDo first cleanUp).carryOut site = (.ok value, after) := by
  rw [carryOut] at h
  rw [carryOut, orElseDo, ExceptT.run_mk, StateT.run_bind, h]
  rfl

theorem carryOut_orElseDo_of_error (h : first.carryOut site = (.error error, after)) :
    (orElseDo first cleanUp).carryOut site = (.error error, (cleanUp.run after).2) := by
  rw [carryOut] at h
  rw [carryOut, orElseDo, ExceptT.run_mk, StateT.run_bind, h]
  rfl

end Reflection

/-- A change of the file tree is made in full, or the site stays as it is. -/
theorem Site.run_change (edit : Tree → Place → Except FileError Tree) (site : Site) :
    (change edit).run site =
      ((edit site.files site.directory).map fun _ => (),
        { site with files := (edit site.files site.directory).toOption.getD site.files }) := by
  simp only [change, StateT.run]
  cases edit site.files site.directory <;> rfl

namespace Site

@[simp] theorem run_discardFile (path : PathName) (site : Site) :
    (discardFile path).run site = ((), { site with
      files := (site.files.removeFile site.directory path).toOption.getD site.files }) := by
  simp only [discardFile, StateT.run_bind, run_change]
  rfl

@[simp] theorem run_discardDirectory (path : PathName) (site : Site) :
    (discardDirectory path).run site = ((), { site with
      files := (site.files.removeDirectory site.directory path).toOption.getD site.files }) := by
  simp only [discardDirectory, StateT.run_bind, run_change]
  rfl

end Site

namespace Workspace

open Reflection

variable {workDirectory workspace : PathName} {program : String} {site made ready : Site}
  {error : ReflectError}

theorem run_makeIn_succ (directory : PathName) (tries : Nat) (site : Site) :
    (makeIn directory (tries + 1)).run site =
      match site.files.makeDirectory site.directory (directory.join (name site.nextName)) with
      | .ok files => (.ok (directory.join (name site.nextName)),
          { site with files := files, nextName := site.nextName + 1 })
      | .error .alreadyExists =>
        (makeIn directory tries).run { site with nextName := site.nextName + 1 }
      | .error error => (.error (.at error (directory.join (name site.nextName))),
          { site with nextName := site.nextName + 1 }) := by
  simp only [makeIn, StateT.run_bind, StateT.run_get, StateT.run_modify, pure_bind, Site.run_change]
  cases site.files.makeDirectory site.directory (directory.join (name site.nextName)) with
  | ok files => rfl
  | error error => cases error <;> rfl

/-- Either a new workspace is made, under a name with a number, or nothing but the number of the
next name changes. -/
theorem run_makeIn_cases (directory : PathName) (tries : Nat) (site : Site) :
    (∃ number place, site.files.Names site.directory (directory.join (name number)) place ∧
      site.files.get? place = none ∧
        (makeIn directory tries).run site = (.ok (directory.join (name number)),
          { site with files := site.files.insert place .directory, nextName := number + 1 })) ∨
      ∃ error number,
        (makeIn directory tries).run site = (.error error, { site with nextName := number }) := by
  induction tries generalizing site with
  | zero => exact .inr ⟨_, site.nextName, rfl⟩
  | succ tries ih =>
    rw [run_makeIn_succ]
    split
    · next files hmake =>
      obtain ⟨place, hnames, hnode, rfl⟩ := Tree.makeDirectory_eq_ok_iff.1 hmake
      exact .inl ⟨site.nextName, place, hnames, hnode, rfl⟩
    · exact ih { site with nextName := site.nextName + 1 }
    · exact .inr ⟨_, _, rfl⟩

theorem carryOut_make (workDirectory : PathName) (site : Site) :
    (make workDirectory).carryOut site =
      (((makeIn (site.absolute workDirectory) maximalTries).run site).1.mapError
          (.workspace ("creating workspace in " ++ workDirectory)),
        ((makeIn (site.absolute workDirectory) maximalTries).run site).2) := by
  rw [make, carryOut_bind_of_ok (carryOut_get site), carryOut_of]

/-- Either the program is put into the workspace, or nothing changes. -/
theorem carryOut_put_cases (workspace : PathName) (program : String) (made : Site) :
    (∃ place, made.files.Names made.directory (workspace.join Program.fileName) place ∧
      PathName.endsInSlash (workspace.join Program.fileName) = false ∧
        made.files.get? place ≠ some .directory ∧
          (put workspace program).carryOut made =
            (.ok (), { made with
              files := made.files.insert place (.file (utf8 program) programMode) })) ∨
      ∃ error, (put workspace program).carryOut made = (.error error, made) := by
  simp only [put]
  cases hwrite : made.files.writeFile made.directory (PathName.join workspace Program.fileName)
      (utf8 program) with
  | error error =>
    right
    rw [carryOut_bind_of_error (by rw [carryOut_of, Site.run_change, hwrite]; rfl)]
    exact ⟨_, rfl⟩
  | ok written =>
    left
    obtain ⟨place, hnames, hslash, hnode, hmode⟩ :=
      Tree.exists_of_writeFile_setMode hwrite programMode
    refine ⟨place, hnames, hslash, hnode, ?_⟩
    rw [carryOut_bind_of_ok (by rw [carryOut_of, Site.run_change, hwrite]; rfl), carryOut_of,
      Site.run_change]
    dsimp only [Except.toOption, Option.getD]
    rw [hmode]
    rfl

end Workspace

namespace PreparedProbe

open Reflection

theorem run_discard_built (program workspace : PathName) (site : Site) :
    (discard (.built program workspace)).run site =
      (Site.discardDirectory workspace).run ((Site.discardFile program).run site).2 := by
  simp only [discard, StateT.run_bind]
  rfl

theorem carryOut_release_built (program workspace : PathName) (site : Site) :
    (release (.built program workspace)).carryOut site =
      (Workspace.remove workspace).carryOut ((Site.discardFile program).run site).2 := by
  rw [release, carryOut_bind_of_ok (carryOut_lift (Site.discardFile program) site)]

end PreparedProbe

end InterfaceProbe
