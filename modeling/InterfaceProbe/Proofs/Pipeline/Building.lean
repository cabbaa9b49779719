/-
# The site of a build

A step of a reflection has a contract: from a site with one property it leaves a
site with another, which may depend on whether the step fails.  Contracts of
steps that follow one another go together as the steps do.

The steps of a build are contracted in terms of the site that the build began at.
All they do to its files is what `Tree.Underway` allows, and the calls they add are
known one by one.  An executable that was written stands where it is going to be
run.  A build that fails may have written one as well, which stands at the same
place; nothing else was touched then.
-/

import InterfaceProbe.Proofs.Files.Remains
import InterfaceProbe.Proofs.Pipeline.Jobs

namespace InterfaceProbe

namespace Reflection

variable {α β ε : Type} {step first : Reflection α} {next : α → Reflection β}
  {before thrown : Site → Prop} {returned : α → Site → Prop} {wording : ε → ReflectError}
  {program : StateM Site (Except ε α)} {cleanUp : StateM Site Unit}

/-- From a site with the first property, the step leaves a site with the second if it gives a
value, and one with the third if it fails. -/
def Leaves (step : Reflection α) (before : Site → Prop) (returned : α → Site → Prop)
    (thrown : Site → Prop) : Prop :=
  ∀ site, before site →
    (∃ value after, step.carryOut site = (.ok value, after) ∧ returned value after) ∨
      ∃ error after, step.carryOut site = (.error error, after) ∧ thrown after

theorem leaves_pure {value : α} (h : ∀ site, before site → returned value site) :
    (pure value : Reflection α).Leaves before returned thrown :=
  fun site hbefore => .inl ⟨value, site, carryOut_pure value site, h site hbefore⟩

theorem Leaves.bind {returnedNext : β → Site → Prop} (hfirst : first.Leaves before returned thrown)
    (hnext : ∀ value, (next value).Leaves (returned value) returnedNext thrown) :
    (first >>= next).Leaves before returnedNext thrown := by
  intro site hbefore
  rcases hfirst site hbefore with ⟨value, middle, hrun, hmiddle⟩ | ⟨error, after, hrun, hthrown⟩
  · rw [carryOut_bind_of_ok hrun]
    exact hnext value middle hmiddle
  · rw [carryOut_bind_of_error hrun]
    exact .inr ⟨error, after, rfl, hthrown⟩

theorem Leaves.orElseDo {cleaned : Site → Prop} (h : step.Leaves before returned thrown)
    (hclean : ∀ site, thrown site → cleaned (cleanUp.run site).2) :
    (orElseDo step cleanUp).Leaves before returned cleaned := by
  intro site hbefore
  rcases h site hbefore with ⟨value, after, hrun, hreturned⟩ | ⟨error, after, hrun, hthrown⟩
  · exact .inl ⟨value, after, carryOut_orElseDo_of_ok hrun, hreturned⟩
  · exact .inr ⟨error, _, carryOut_orElseDo_of_error hrun, hclean after hthrown⟩

theorem leaves_of
    (h : ∀ site, before site →
      (∃ value, (program.run site).1 = .ok value ∧ returned value (program.run site).2) ∨
        ∃ error, (program.run site).1 = .error error ∧ thrown (program.run site).2) :
    (of wording program).Leaves before returned thrown := by
  intro site hbefore
  rw [carryOut_of]
  rcases h site hbefore with ⟨value, hvalue, hreturned⟩ | ⟨error, herror, hthrown⟩
  · exact .inl ⟨value, _, by rw [hvalue]; rfl, hreturned⟩
  · exact .inr ⟨wording error, _, by rw [herror]; rfl, hthrown⟩

theorem Leaves.returned_mono {returned' : α → Site → Prop}
    (h : step.Leaves before returned thrown)
    (hreturned : ∀ value site, returned value site → returned' value site) :
    step.Leaves before returned' thrown := by
  intro site hbefore
  rcases h site hbefore with ⟨value, after, hrun, hafter⟩ | hfailed
  · exact .inl ⟨value, after, hrun, hreturned value after hafter⟩
  · exact .inr hfailed

theorem Leaves.thrown_mono {thrown' : Site → Prop} (h : step.Leaves before returned thrown)
    (hthrown : ∀ site, thrown site → thrown' site) : step.Leaves before returned thrown' := by
  intro site hbefore
  rcases h site hbefore with hgiven | ⟨error, after, hrun, hafter⟩
  · exact .inl hgiven
  · exact .inr ⟨error, after, hrun, hthrown after hafter⟩

end Reflection

open Reflection

/-- A tree in which every entry is in a directory, and a directory there to start in. -/
structure Site.WellFormed (site : Site) : Prop where
  closed : site.files.Closed
  get?_directory : site.files.get? site.directory = some .directory

/-- A path for a workspace at which there is nothing yet. -/
structure Vacancy (workDirectory : PathName) (site : Site) (workspace : PathName)
    (place : Place) : Prop where
  path : ∃ number, workspace = (site.absolute workDirectory).join (Workspace.name number)
  names : site.files.Names site.directory workspace place
  get?_place : site.files.get? place = none

/-- A site during a build, with the calls that were made since it began. -/
structure Site.Building (site : Site) (workspace : Place) (way touched : Place → Prop)
    (made : List ToolCall) (during : Site) : Prop where
  directory : during.directory = site.directory
  calls : during.calls = site.calls ++ made
  files : site.files.Underway workspace way touched during.files

/-- The calls of a build, unless one of them fails. -/
def ToolCall.ofBuild (workspace : PathName) (source : Option String) : List ToolCall :=
  [.query projectDirectoryKey, .query executableSuffixKey, .build workspace source]

@[simp] theorem ToolCall.run_mem_ofBuild {program workspace : PathName} {source : Option String} :
    .run program ∈ ofBuild workspace source ↔ False := by
  simp [ofBuild]

@[simp] theorem ToolCall.build_mem_ofBuild {directory workspace : PathName}
    {seen source : Option String} :
    .build directory seen ∈ ofBuild workspace source ↔ directory = workspace ∧ seen = source := by
  simp [ofBuild]

/-- Nothing is touched. -/
def Place.untouched (_ : Place) : Prop := False

variable {site during : Site} {workDirectory workspace : PathName} {place : Place}
  {way touched : Place → Prop} {made : List ToolCall}

theorem Site.Building.get?_directory (h : site.Building place way touched made during)
    (hsite : site.WellFormed) : during.files.get? during.directory = some .directory := by
  rw [h.directory]
  exact h.files.keeps _ hsite.get?_directory

theorem Site.Building.record (h : site.Building place way touched made during) (call : ToolCall) :
    site.Building place way touched (made ++ [call]) (during.record call) where
  directory := h.directory
  calls := by rw [Site.record, h.calls, List.append_assoc]
  files := h.files

namespace Workspace

/-- Either the workspace is made, or no more than the number of the next name changes. -/
theorem leaves_make (workDirectory : PathName) (way : Place → Prop) (hsite : site.WellFormed) :
    (make workDirectory).Leaves (· = site)
      (fun workspace during => ∃ place, Vacancy workDirectory site workspace place ∧
        site.Building place way Place.untouched [] during)
      (fun after => ∃ number, after = { site with nextName := number }) := by
  rintro start rfl
  rw [carryOut_make]
  rcases run_makeIn_cases (start.absolute workDirectory) maximalTries start with
    ⟨number, place, hnames, hnone, hrun⟩ | ⟨error, number, hrun⟩
  · rw [hrun]
    refine .inl ⟨_, _, rfl, place, ⟨⟨number, rfl⟩, hnames, hnone⟩, ?_⟩
    exact ⟨rfl, (List.append_nil _).symm, Tree.Underway.begin hsite.closed
      (Tree.get?_startOf hsite.get?_directory _) hnames.2 hnone⟩
  · rw [hrun]
    exact .inr ⟨_, _, rfl, number, rfl⟩

/-- The program is put into the workspace and nowhere else. -/
theorem leaves_put (hsite : site.WellFormed) (hvacant : Vacancy workDirectory site workspace place)
    (program : String) (way touched : Place → Prop) (made : List ToolCall) :
    (put workspace program).Leaves (site.Building place way touched made)
      (fun _ during => site.Building place way touched made during)
      (site.Building place way touched made) := by
  intro during hduring
  rcases carryOut_put_cases workspace program during with
    ⟨target, hnames, -, hnode, hput⟩ | ⟨error, hput⟩
  · refine .inl ⟨(), _, hput, hduring.directory, hduring.calls, ?_⟩
    have hin : place <+: target := by
      rw [hnames.eq_ofPath, hduring.directory,
        Place.ofPath_join site.directory (by decide : PathName.isAbsolute Program.fileName = false),
        ← hvacant.names.eq_ofPath]
      exact ⟨[Program.fileName], rfl⟩
    exact hduring.files.insert (Tree.get?_startOf (hduring.get?_directory hsite) _) hnames.2 hnode
      (.inl hin) _
  · exact .inr ⟨error, during, hput, hduring⟩

end Workspace

namespace InMemoryToolchain

/-- The directories on the way to the executables are made, and then the executable is written, or
it is not. -/
theorem writeExecutable_cases (toolchain : InMemoryToolchain) (contents : String)
    (workspace : PathName) {files : Tree} {start : Place} (hclosed : files.Closed)
    (hstart : files.get? start = some .directory) :
    ∃ grown, Tree.Grown (Tree.startOf start toolchain.binDirectory)
        toolchain.binDirectory.components files grown ∧
      ((∃ error, toolchain.writeExecutable contents workspace files start = (.error error, grown)) ∨
        ∃ place, grown.Names start (toolchain.executable workspace) place ∧
          (toolchain.executable workspace).endsInSlash = false ∧
            grown.get? place ≠ some .directory ∧
              toolchain.writeExecutable contents workspace files start =
                (.ok (), grown.insert place (.file (utf8 contents) executableMode))) := by
  have hgrown := Tree.grown_makeDirectories hclosed hstart toolchain.binDirectory
  cases hway : files.makeDirectories start toolchain.binDirectory with
  | mk result grown =>
    rw [hway] at hgrown
    refine ⟨grown, hgrown, ?_⟩
    cases result with
    | error error => exact .inl ⟨error, writeExecutable_of_error hway⟩
    | ok =>
      rw [writeExecutable_of_ok hway]
      cases hwrite : grown.writeFile start (toolchain.executable workspace) (utf8 contents) with
      | error error => exact .inl ⟨error, install_of_error hwrite⟩
      | ok written =>
        obtain ⟨place, hnames, hslash, hnode, hmode⟩ :=
          Tree.exists_of_writeFile_setMode hwrite executableMode
        refine .inr ⟨place, hnames, hslash, hnode, ?_⟩
        rw [install_of_ok hwrite, hmode]
        rfl

end InMemoryToolchain

namespace ToolConduct

/-- The places on the way to the executables that a build writes. -/
def MakesWay (tools : ToolConduct) (directory place : Place) : Prop :=
  (∃ contents, tools.build.written = some contents) ∧
    Place.OnTheWay directory tools.settings.binDirectory place

/-- The executable that a build of the workspace writes before it fails, at the place at which it
writes it. -/
def Strands (tools : ToolConduct) (directory : Place) (workspace : PathName) (place : Place)
    (node : Node) : Prop :=
  (∃ error, tools.build.result workspace = .error error) ∧
    (∃ contents, tools.build.written = some contents ∧
      node = .file (utf8 contents) InMemoryToolchain.executableMode) ∧
    place = Place.ofPath directory (tools.settings.executable workspace)

/-- What a build of the workspace that failed has left in the tree. -/
def Stranded (tools : ToolConduct) (directory : Place) (workspace : PathName) (files : Tree)
    (place : Place) : Prop :=
  ∃ contents mode, files.get? place = some (.file contents mode) ∧
    tools.Strands directory workspace place (.file contents mode)

/-- A site at which the program in the workspace has been built.  All that was touched is where the
executable is expected, and what the build wrote is there. -/
structure Built (tools : ToolConduct) (site : Site) (workspace : PathName) (place : Place)
    (made : List ToolCall) (during : Site) : Prop where
  building : site.Building place (tools.MakesWay site.directory)
    (during.files.LeadsToFile site.directory (tools.settings.executable workspace)) made during
  written : ∀ contents, tools.build.written = some contents →
    during.files.contentsAt site.directory (tools.settings.executable workspace) =
      .ok (utf8 contents)

/-- A site at which the building of the program in the workspace has failed.  Nothing was touched
unless the build was called and wrote an executable before it failed. -/
structure Failed (tools : ToolConduct) (site : Site) (workspace : PathName) (place : Place)
    (made : List ToolCall) (during : Site) : Prop where
  calls : ∃ source, made <+: ToolCall.ofBuild workspace source
  building : site.Building place (tools.MakesWay site.directory)
    (fun other => (∃ source, .build workspace source ∈ made) ∧
      tools.Stranded site.directory workspace during.files other) made during

/-- A build that fails has touched nothing but the place of an executable that it wrote.  Otherwise
all that it touched is where the executable is expected, and what it wrote is there. -/
theorem build_cases (tools : ToolConduct) (workspace : PathName) {before : Tree} {directory : Place}
    (hdirectory : during.directory = directory)
    (hstart : during.files.get? directory = some .directory)
    (h : before.Underway place (tools.MakesWay directory) Place.untouched during.files) :
    (∃ error, (tools.toolchain.build workspace during).result = .error error ∧
      before.Underway place (tools.MakesWay directory)
        (tools.Stranded directory workspace (tools.toolchain.build workspace during).files)
        (tools.toolchain.build workspace during).files) ∨
    (tools.toolchain.build workspace during).result = .ok () ∧
      before.Underway place (tools.MakesWay directory)
        ((tools.toolchain.build workspace during).files.LeadsToFile directory
          (tools.settings.executable workspace)) (tools.toolchain.build workspace during).files ∧
      ∀ contents, tools.build.written = some contents →
        (tools.toolchain.build workspace during).files.contentsAt directory
          (tools.settings.executable workspace) = .ok (utf8 contents) := by
  subst hdirectory
  cases hcontents : tools.build.written with
  | none =>
    rw [build_of_not_written hcontents]
    dsimp only
    cases tools.build.result workspace with
    | error error => exact .inl ⟨error, rfl, h.mono fun _ => False.elim⟩
    | ok => exact .inr ⟨rfl, h.mono fun _ => False.elim, fun contents => by simp⟩
  | some contents =>
    obtain ⟨grown, hgrown, hcases⟩ := tools.settings.writeExecutable_cases contents workspace
      h.closed hstart
    have hduring := h.grown hgrown fun front hfront => ⟨⟨contents, hcontents⟩, front, hfront, rfl⟩
    rw [build_of_written hcontents]
    dsimp only
    rcases hcases with ⟨error, hwrite⟩ | ⟨target, hnames, hslash, hnode, hwrite⟩
    · rw [hwrite]
      exact .inl ⟨_, rfl, hduring.mono fun _ => False.elim⟩
    · have hfind := hnames.find_insert hslash hnode (utf8 contents) InMemoryToolchain.executableMode
      have honly : before.Underway place (tools.MakesWay during.directory)
          (fun other => other = target) grown := hduring.mono fun _ => False.elim
      have hwritten := honly.insert (Tree.get?_startOf (hgrown.keepsDirectories _ hstart) _)
        hnames.2 hnode (.inr rfl) (.file (utf8 contents) InMemoryToolchain.executableMode)
      rw [hwrite]
      -- What is written is there whether or not the build fails afterwards.
      cases hresult : tools.build.result workspace with
      | error error =>
        refine .inl ⟨error, rfl, hwritten.mono ?_⟩
        rintro other rfl
        refine ⟨_, _, ?_, ⟨error, hresult⟩, ⟨contents, hcontents, rfl⟩, hnames.eq_ofPath⟩
        rw [Tree.get?_insert, if_pos ⟨hnames.2.ne_nil, rfl⟩]
      | ok =>
        refine .inr ⟨rfl, hwritten.mono ?_, ?_⟩
        · rintro other rfl
          exact ⟨_, _, hfind⟩
        · rintro other hother
          cases hother
          exact Tree.contentsAt_eq_ok_iff.2 ⟨target, _, hfind⟩

variable {tools : ToolConduct}

theorem leaves_ask (tools : ToolConduct) (key : String) :
    (Reflection.of .toolchainQuery (tools.toolchain.ask key)).Leaves
      (site.Building place way touched made)
      (fun value during => tools.toolchain.query key during = .ok value ∧
        site.Building place way touched (made ++ [.query key]) during)
      (site.Building place way touched (made ++ [.query key])) := by
  apply leaves_of
  intro during hduring
  have hrecorded := hduring.record (.query key)
  cases hquery : tools.toolchain.query key (during.record (.query key)) with
  | ok value => exact .inl ⟨value, hquery, hquery, hrecorded⟩
  | error error => exact .inr ⟨error, hquery, hrecorded⟩

theorem Failed.of_untouched (source : Option String)
    (hmade : made <+: ToolCall.ofBuild workspace source)
    (h : site.Building place (tools.MakesWay site.directory) Place.untouched made during) :
    tools.Failed site workspace place made during :=
  ⟨⟨source, hmade⟩, h.directory, h.calls, h.files.mono fun _ => False.elim⟩

theorem leaves_make (tools : ToolConduct) (workspace : PathName) (hsite : site.WellFormed) :
    (Reflection.of .build (tools.toolchain.make workspace)).Leaves
      (site.Building place (tools.MakesWay site.directory) Place.untouched
        [.query projectDirectoryKey, .query executableSuffixKey])
      (fun _ during => ∃ source,
        tools.Built site workspace place (ToolCall.ofBuild workspace source) during)
      (fun during => ∃ made, tools.Failed site workspace place made during) := by
  apply leaves_of
  intro during hduring
  let source := during.text? (workspace.join Program.fileName)
  have hrecorded := hduring.record (.build workspace source)
  rcases tools.build_cases workspace hrecorded.directory
      (hrecorded.directory ▸ hrecorded.get?_directory hsite) hrecorded.files with
    ⟨error, hresult, hunderway⟩ | ⟨hresult, hunderway, hwritten⟩
  · have hcalled : .build workspace source ∈ ToolCall.ofBuild workspace source :=
      ToolCall.build_mem_ofBuild.2 ⟨rfl, rfl⟩
    exact .inr ⟨error, hresult, _, ⟨source, List.prefix_refl _⟩, hrecorded.directory,
      hrecorded.calls, hunderway.mono fun _ hother => ⟨⟨source, hcalled⟩, hother⟩⟩
  · exact .inl ⟨(), hresult, _, ⟨hrecorded.directory, hrecorded.calls, hunderway⟩, hwritten⟩

/-- The program is built, and it is found where the settings say. -/
theorem leaves_executable (tools : ToolConduct) (workspace : PathName) (hsite : site.WellFormed) :
    (tools.toolchain.executable workspace).Leaves
      (site.Building place (tools.MakesWay site.directory) Place.untouched [])
      (fun executable during => executable = tools.settings.executable workspace ∧
        ∃ source, tools.Built site workspace place (ToolCall.ofBuild workspace source) during)
      (fun during => ∃ made, tools.Failed site workspace place made during) := by
  rw [Toolchain.executable]
  refine ((tools.leaves_ask projectDirectoryKey).thrown_mono fun during hduring =>
    ⟨_, .of_untouched none ⟨_, rfl⟩ hduring⟩).bind fun project => ?_
  rintro asked ⟨hproject, hasked⟩
  refine ((tools.leaves_ask executableSuffixKey).thrown_mono fun during hduring =>
    ⟨_, .of_untouched none ⟨_, rfl⟩ hduring⟩).bind (fun suffix => ?_) asked hasked
  rintro ready ⟨hsuffix, hready⟩
  have hexecutable : resolveExecutable project workspace suffix =
      tools.settings.executable workspace := by
    have hproject : tools.project = .ok project := hproject
    have hsuffix : tools.suffix = .ok suffix := hsuffix
    rw [InMemoryToolchain.executable, settings, hproject, hsuffix]
    rfl
  refine (tools.leaves_make workspace hsite).bind (fun _ => ?_) ready hready
  rw [hexecutable]
  apply leaves_pure
  exact fun _ hduring => ⟨rfl, hduring⟩

end ToolConduct

end InterfaceProbe
