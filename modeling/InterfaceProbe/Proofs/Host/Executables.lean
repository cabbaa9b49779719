/-
# Where the build tool puts executables

The build tool is asked for the directory of the project and for the suffix of
executables.  Its answers count without the line feeds around them and are not changed
otherwise.  The path of the executable starts with the project's `bin`: of the
workspace only the last component matters, and the suffix follows on it as it is,
even where it has slashes, so no answer replaces what stands before it.

This is about the path as a text.  A suffix with steps that go up may lead out of
`bin` again.
-/

import InterfaceProbe.Host.Tools
import InterfaceProbe.Proofs.Files.LastComponents
import InterfaceProbe.Proofs.Files.Walking
import InterfaceProbe.Proofs.Json.StringLiteral
import InterfaceProbe.Proofs.Pipeline.Steps
import InterfaceProbe.Proofs.Text.Trimming

namespace InterfaceProbe

open PathName

section Paths

variable {left right : PathName} {workspace name suffix : String}

/-- What a path has between itself and what is put below it. -/
def PathName.gap (path : PathName) : String :=
  if path = "" ∨ path.endsInSlash = true then "" else "/"

theorem join_of_relative (left : PathName) (h : right.isAbsolute = false) :
    left.join right = left ++ (left.gap ++ right) := by
  have hsplit : (left.isEmpty || left.toList.getLast? == some '/') = true ↔
      left = "" ∨ left.endsInSlash = true := by
    rw [Bool.or_eq_true, String.isEmpty_iff]
    rfl
  rw [join, h, gap]
  by_cases hgap : left = "" ∨ left.endsInSlash = true
  · simp [hgap, hsplit.2 hgap]
  · have hclosed := mt hsplit.1 hgap
    simp [hgap, hclosed, String.append_assoc]

/-- What starts with a name is relative, whatever follows the name. -/
theorem isAbsolute_name_append (h : IsName name) (suffix : String) :
    isAbsolute (name ++ suffix) = false := by
  obtain ⟨c, rest, hlist⟩ := List.exists_cons_of_ne_nil (mt String.toList_eq_nil_iff.1 h.ne_empty)
  have hc : c ≠ '/' := by
    rintro rfl
    exact h.noSlash (hlist ▸ List.mem_cons_self)
  simp [isAbsolute, hlist, hc]

theorem resolveExecutable_eq (h : EndsIn workspace name) (project suffix : String) :
    resolveExecutable project workspace suffix =
      project ++ (gap project ++ ("bin/" ++ (name ++ suffix))) := by
  have hlast : (project ++ (gap project ++ "bin")).toList.getLast? = some 'n' := by
    rw [String.toList_append, String.toList_append, ← List.append_assoc,
      List.getLast?_append_of_ne_nil _ (by decide)]
    decide
  have hbin : gap (project ++ (gap project ++ "bin")) = "/" := by
    apply if_neg
    rintro (hempty | hslash)
    · rw [hempty] at hlast
      cases hlast
    · rw [endsInSlash, hlast] at hslash
      cases hslash
  rw [resolveExecutable, fileName?_eq_some_iff.2 h, Option.getD_some,
    join_of_relative project (by decide), join_of_relative _ (isAbsolute_name_append h.1 suffix),
    hbin]
  simp only [String.append_assoc]
  rfl

end Paths

section Answers

variable {gb : Gb} {host : Host} {site : Site} {key text project suffix : String}
  {response : Response}

theorem utf8?_utf8 (text : String) : utf8? (utf8 text) = some text :=
  fromUTF8?_toByteArray_eq_some_iff.2 rfl

/-- A successful answer counts without the line feeds around it. -/
theorem query_of_success (hstart : host.start site (gb.queryCommand key) = .ok response)
    (hending : response.ending.isSuccess = true) (htext : response.stdout = utf8 text) :
    gb.query host key site = .ok (withoutLineFeeds text) := by
  simp [Gb.query, hstart, hending, htext, utf8?_utf8]

/-- Asking records the question; the files are then as the tool left them. -/
theorem carryOut_ask_of_start (hstart : host.start site (gb.queryCommand key) = .ok response)
    (hvalue : gb.query host key site = .ok text) :
    (Reflection.of .toolchainQuery ((gb.toolchain host).ask key)).carryOut site =
      (.ok text, { site.record (.query key) with files := response.files }) := by
  -- calls are only recorded, so the tool starts as it does at the site itself
  have hrecorded : host.start (site.record (.query key)) (gb.queryCommand key) = .ok response :=
    hstart
  have hask : ((gb.toolchain host).ask key).run site = (gb.query host key site,
      { site.record (.query key) with
        files := host.filesAfter (site.record (.query key)) (gb.queryCommand key) }) := rfl
  rw [Reflection.carryOut_of, hask, hvalue, Host.filesAfter, hrecorded]
  rfl

/-- With both answers, a build that succeeds gives the path of the executable. -/
theorem executable_of_answers {projectAnswer suffixAnswer : Response}
    (hproject : host.start site (gb.queryCommand projectDirectoryKey) = .ok projectAnswer)
    (hprojectValue : gb.query host projectDirectoryKey site = .ok project)
    (hsuffix : host.start { site with files := projectAnswer.files }
      (gb.queryCommand executableSuffixKey) = .ok suffixAnswer)
    (hsuffixValue : gb.query host executableSuffixKey { site with files := projectAnswer.files } =
      .ok suffix) (workspace : PathName) :
    (((gb.toolchain host).executable workspace).carryOut site).1 =
      ((gb.build host workspace { site with files := suffixAnswer.files }).result.mapError
        ReflectError.build).map fun _ => resolveExecutable project workspace suffix := by
  let first : Site :=
    { site.record (.query projectDirectoryKey) with files := projectAnswer.files }
  let second : Site :=
    { first.record (.query executableSuffixKey) with files := suffixAnswer.files }
  have hfirst := carryOut_ask_of_start hproject hprojectValue
  have hsecond : (Reflection.of .toolchainQuery
      ((gb.toolchain host).ask executableSuffixKey)).carryOut first = (.ok suffix, second) :=
    carryOut_ask_of_start hsuffix hsuffixValue
  rw [Toolchain.executable, Reflection.carryOut_bind_of_ok hfirst,
    Reflection.carryOut_bind_of_ok hsecond]
  have hmake : ((Reflection.of ReflectError.build
      ((gb.toolchain host).make workspace)).carryOut second).1 =
        (gb.build host workspace { site with files := suffixAnswer.files }).result.mapError
          ReflectError.build := by
    rw [Reflection.carryOut_of]
    rfl
  have hbuild := Reflection.carryOut_of_fst hmake
  cases hresult : (gb.build host workspace { site with files := suffixAnswer.files }).result with
  | ok done =>
      rw [hresult] at hbuild
      rw [Reflection.carryOut_bind_of_ok hbuild]
      rfl
  | error error =>
      rw [hresult] at hbuild
      rw [Reflection.carryOut_bind_of_error hbuild]
      rfl

end Answers

/-- The path of an executable is the directory of the project, `bin`, the last component of the
workspace and the suffix, put together as texts.  What the tool prints gives the project and the
suffix, line feeds at its ends left out, and a build that succeeds gives that path; each call finds
the files as the one before left them.  Slashes, and dots behind them, at the end of the workspace
change nothing, and two workspaces have one executable only if they have the same last
component. -/
theorem executable_path_of_answers (gb : Gb) (host : Host) (site : Site)
    (projectAnswer suffixAnswer : Response) (projectText suffixText : String)
    (hproject : host.start site (gb.queryCommand projectDirectoryKey) = .ok projectAnswer)
    (hprojectEnding : projectAnswer.ending.isSuccess = true)
    (hprojectText : projectAnswer.stdout = utf8 projectText)
    (hsuffix : host.start { site with files := projectAnswer.files }
      (gb.queryCommand executableSuffixKey) = .ok suffixAnswer)
    (hsuffixEnding : suffixAnswer.ending.isSuccess = true)
    (hsuffixText : suffixAnswer.stdout = utf8 suffixText) :
    ∃ project suffix : String,
      Trimmed (· == '\n') projectText.toList project.toList ∧
      Trimmed (· == '\n') suffixText.toList suffix.toList ∧
      gb.query host projectDirectoryKey site = .ok project ∧
      gb.query host executableSuffixKey { site with files := projectAnswer.files } = .ok suffix ∧
      (∀ workspace, (((gb.toolchain host).executable workspace).carryOut site).1 =
        ((gb.build host workspace { site with files := suffixAnswer.files }).result.mapError
          ReflectError.build).map fun _ => resolveExecutable project workspace suffix) ∧
      (∀ workspace name, EndsIn workspace name →
        resolveExecutable project workspace suffix =
          project ++ ((if project = "" ∨ endsInSlash project = true then "" else "/") ++
            ("bin/" ++ (name ++ suffix)))) ∧
      (∀ workspace name, EndsIn workspace name →
        EndsIn (workspace ++ "/") name ∧ EndsIn (workspace ++ "/.") name) ∧
      (∀ workspace other name otherName, EndsIn workspace name → EndsIn other otherName →
        (resolveExecutable project workspace suffix = resolveExecutable project other suffix ↔
          name = otherName)) := by
  have hprojectValue := query_of_success hproject hprojectEnding hprojectText
  have hsuffixValue := query_of_success hsuffix hsuffixEnding hsuffixText
  refine ⟨withoutLineFeeds projectText, withoutLineFeeds suffixText,
    trimmed_withoutLineFeeds _, trimmed_withoutLineFeeds _, hprojectValue, hsuffixValue,
    executable_of_answers hproject hprojectValue hsuffix hsuffixValue,
    fun workspace name hname => ?_,
    fun workspace name hname => ⟨hname.append_slash, hname.append_dot⟩,
    fun workspace other name otherName hname hother => ?_⟩
  · exact resolveExecutable_eq hname _ _
  · rw [resolveExecutable_eq hname, resolveExecutable_eq hother]
    apply Iff.intro
    · intro h
      simpa only [String.append_right_inj, String.append_left_inj] using h
    · rintro rfl
      rfl

section Sample

/-- A host whose only program prints the path of a project when it is asked for that, and otherwise
a suffix that starts with a slash, with line feeds around both. -/
def printingHost : Host where
  programs _ := some fun arguments _ files =>
    { stdout := utf8 (if arguments = ["info", projectDirectoryKey] then "\n/project\n\n"
        else "/-linux\n")
      files := files }
  searchPath := ["/tools"]

/-- A site where the program is installed. -/
def siteWithTools : Site where
  files := ⟨[(["tools"], .directory), (["tools", "gb"], .file [] 0o755)]⟩

/-- What the program answers. -/
def printed (text : String) : Response := { stdout := utf8 text, files := siteWithTools.files }

theorem executable_path_of_answers_of_printing_host :
    (printingHost.start siteWithTools (Gb.queryCommand {} projectDirectoryKey) =
        .ok (printed "\n/project\n\n") ∧
      printingHost.start siteWithTools (Gb.queryCommand {} executableSuffixKey) =
        .ok (printed "/-linux\n") ∧
      EndsIn "/tmp/a//./" "a") ∧
    ∃ project suffix : String,
      Trimmed (· == '\n') "\n/project\n\n".toList project.toList ∧
      Trimmed (· == '\n') "/-linux\n".toList suffix.toList ∧
      Gb.query {} printingHost projectDirectoryKey siteWithTools = .ok project ∧
      Gb.query {} printingHost executableSuffixKey siteWithTools = .ok suffix ∧
      resolveExecutable project "/tmp/a//./" suffix = "/project/bin/a/-linux" := by
  have hname : EndsIn "/tmp/a//./" "a" := fileName?_eq_some_iff.1 (by decide)
  obtain ⟨project, suffix, hproject, hsuffix, hprojectValue, hsuffixValue, -, hpath, -⟩ :=
    executable_path_of_answers {} printingHost siteWithTools (printed "\n/project\n\n")
      (printed "/-linux\n") "\n/project\n\n" "/-linux\n" rfl rfl rfl rfl rfl rfl
  refine ⟨⟨rfl, rfl, hname⟩, project, suffix, hproject, hsuffix, hprojectValue, hsuffixValue, ?_⟩
  obtain rfl : project = "/project" :=
    String.toList_inj.1 ((trimmed_iff.1 hproject).symm.trans (by decide))
  obtain rfl : suffix = "/-linux" :=
    String.toList_inj.1 ((trimmed_iff.1 hsuffix).symm.trans (by decide))
  rw [hpath _ _ hname]
  decide

end Sample

end InterfaceProbe
