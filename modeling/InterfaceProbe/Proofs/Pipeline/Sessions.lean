/-
# Sessions

A session is a run over steps of many kinds: reflections, probes that are prepared,
held and let go, tools that are replaced, and disturbances of the site.  What holds at
all times is stated step by step and follows for every session by induction.

A session stays sound: the file tree is well formed, the directory of the session
stays where it is, in no workspace of a probe that is held, and a name is given to
one held probe at most.  So a reflection in the middle of a session is a job at a
well-formed site and leaves no more than jobs do.  A probe is held until what was
made for it is gone, and when a session is finished, nothing is left of those that
were held.  Being gone is said of the moment at which a probe is let go, since a
later step may put anything at a path.
-/

import InterfaceProbe.Pipeline.Session
import InterfaceProbe.Proofs.Pipeline.Discarding
import InterfaceProbe.Proofs.Pipeline.InMemoryTools
import Mathlib.Data.List.Nodup

namespace InterfaceProbe

open Reflection

namespace Session

variable {session : Session} {directory : Place}

/-- A reflection of the session as a job, with what its tools do as their conduct. -/
def job (session : Session) (request : ProbeRequest) (options : ReflectOptions) : Job :=
  ⟨request, options, session.toolchain.conduct session.runner⟩

/-- The site stands in the directory, which is in the workspace of no held probe, and no two probes
are held under one name. -/
structure Sound (session : Session) (directory : Place) : Prop where
  site : session.site.StandsIn directory
  excludes : ∀ entry ∈ session.held, entry.2.Excludes directory
  names : (session.held.map Prod.fst).Nodup

/-- What a reflection gives as the result of a step. -/
def resultOf : Except ReflectError ReflectOutcome → StepResult
  | .ok (.programOnly source) => .programOnly source
  | .ok (.package package) => .package package
  | .error error => .failed error

/-- The session after some steps. -/
def after (session : Session) (steps : List SessionStep) : Session :=
  steps.foldl (fun session step => (session.step step).2) session

section Reflecting

theorem prepare_job (session : Session) (request : ProbeRequest) (options : ReflectOptions) :
    session.reflector.prepare =
      ((session.job request options).reflector session.config).prepare := by
  funext request source
  simp only [Reflector.prepare, Reflector.build, reflector, Job.reflector, job,
    InMemoryToolchain.executable_conduct]

theorem reflect_job (session : Session) (request : ProbeRequest) (options : ReflectOptions) :
    session.reflector.reflect request options =
      ((session.job request options).reflector session.config).reflect request options := by
  rw [Reflector.reflect, Reflector.reflect, ← session.prepare_job]
  rfl

theorem act_of_carryOut {α : Type} {step : Reflection α} {result : Except ReflectError α}
    {after : Site} (h : step.carryOut session.site = (result, after)) :
    session.act step.run = (result, { session with site := after }) := by
  rw [carryOut] at h
  rw [act, h]

theorem attempt_eq {α : Type} (session : Session) (step : Reflection α)
    (result : α → StepResult) :
    session.attempt step result =
      (match (step.carryOut session.site).1 with
        | .ok value => result value
        | .error error => .failed error,
        { session with site := (step.carryOut session.site).2 }) := by
  cases hrun : step.carryOut session.site with
  | mk value after =>
    rw [attempt, act_of_carryOut hrun]
    cases value <;> rfl

/-- A reflection step is a job: it gives what the job gives and leaves what the job leaves. -/
theorem step_reflect (session : Session) (request : ProbeRequest) (options : ReflectOptions) :
    session.step (.reflect request options) =
      (resultOf ((session.job request options).carryOut session.config session.site).1,
        { session with
          site := ((session.job request options).carryOut session.config session.site).2 }) := by
  have hjob : (session.reflector.reflect request options).carryOut session.site =
      (session.job request options).carryOut session.config session.site := by
    rw [reflect_job]
    rfl
  rw [step, attempt_eq, hjob]
  cases ((session.job request options).carryOut session.config session.site).1 with
  | error error => rfl
  | ok outcome => cases outcome <;> rfl

end Reflecting

theorem snd_step_query (session : Session) (key : String) :
    (session.step (.query key)).2 = (session.act (session.toolchain.toToolchain.ask key)).2 := by
  rw [step]
  cases session.act (session.toolchain.toToolchain.ask key) with
  | mk result next => cases result <;> rfl

section Soundness

theorem Sound.withSite (h : session.Sound directory) {site : Site}
    (hsite : site.StandsIn directory) : Sound { session with site := site } directory :=
  ⟨hsite, h.excludes, h.names⟩

theorem Sound.act {α : Type} {action : StateM Site α} (h : session.Sound directory)
    (haction : Site.Steady directory action) : (session.act action).2.Sound directory :=
  h.withSite (haction _ h.site)

theorem Sound.attempt {α : Type} {step : Reflection α} (h : session.Sound directory)
    (hstep : Site.Steady directory step.run) (result : α → StepResult) :
    (session.attempt step result).2.Sound directory := by
  rw [attempt_eq]
  exact h.withSite (hstep _ h.site)

theorem Sound.letGo (h : session.Sound directory) (name : String) :
    (session.letGo name).Sound directory where
  site := h.site
  excludes entry hentry := h.excludes entry (List.mem_of_mem_filter hentry)
  names := h.names.sublist (List.filter_sublist.map Prod.fst)

theorem Sound.hold (h : session.Sound directory) (name : String) {probe : PreparedProbe}
    (hprobe : probe.Excludes directory) : (session.hold name probe).Sound directory where
  site := h.site
  excludes entry hentry := by
    rcases List.mem_cons.1 hentry with rfl | hentry
    · exact hprobe
    · exact (h.letGo name).excludes entry hentry
  names := by
    refine List.nodup_cons.2 ⟨?_, (h.letGo name).names⟩
    simp

theorem mem_held_of_lookup {name : String} {probe : PreparedProbe}
    (hheld : session.held.lookup name = some probe) : (name, probe) ∈ session.held := by
  obtain ⟨front, back, hentries, -⟩ := List.lookup_eq_some_iff.1 hheld
  rw [hentries]
  exact List.mem_append_right _ List.mem_cons_self

theorem Sound.excludes_of_lookup (h : session.Sound directory) {name : String}
    {probe : PreparedProbe} (hheld : session.held.lookup name = some probe) :
    probe.Excludes directory :=
  h.excludes (name, probe) (mem_held_of_lookup hheld)

theorem Sound.withHeld {name : String} {action : PreparedProbe → StepResult × Session}
    (h : session.Sound directory)
    (haction : ∀ probe, probe.Excludes directory → (action probe).2.Sound directory) :
    (session.withHeld name action).2.Sound directory := by
  rw [Session.withHeld]
  split
  · next probe hheld => exact haction probe (h.excludes_of_lookup hheld)
  · exact h

theorem Sound.disturbHeld {name : String} {action : PathName → PathName → StateM Site Unit}
    (h : session.Sound directory)
    (haction : ∀ program workspace, (PreparedProbe.built program workspace).Excludes directory →
      Site.Steady directory (action program workspace)) :
    (session.disturbHeld name action).2.Sound directory := by
  rw [Session.disturbHeld]
  split
  · next program workspace hheld =>
    exact h.act (haction program workspace (h.excludes_of_lookup hheld))
  · exact h

theorem steady_release {probe : PreparedProbe} (h : probe.Excludes directory) :
    Site.Steady directory probe.release.run := by
  intro site hsite
  have hdiscard := PreparedProbe.steady_discard h site hsite
  rwa [← probe.snd_carryOut_release] at hdiscard

theorem steady_makeWay (path : PathName) : Site.Steady directory (makeWay path) := by
  intro site hsite
  have hgrown := Tree.grown_makeDirectories hsite.wellFormed.closed hsite.wellFormed.get?_directory
    path
  exact hsite.changed hgrown.closed hgrown.keepsDirectories rfl

theorem steady_leaveFile (path : PathName) : Site.Steady directory (leaveFile path) := by
  intro site hsite
  rw [leaveFile, StateT.run_bind, Site.run_change]
  change Site.StandsIn { site with files := _ } directory
  cases hwrite : site.files.writeFile site.directory path (utf8 "x") with
  | error error => exact hsite
  | ok written =>
    obtain ⟨place, mode, hnames, -, hnode, rfl⟩ := Tree.exists_of_writeFile hwrite
    exact hsite.changed (hnames.2.closed_insert hsite.wellFormed.closed
      (Tree.get?_startOf hsite.wellFormed.get?_directory _) hnode _)
      (Tree.keepsDirectories_insert hnode) rfl

theorem steady_output (session : Session) (program : PathName) :
    Site.Steady directory (session.reflector.runner.output program).run := by
  intro site hsite
  change ((session.reflector.runner.output program).carryOut site).2.StandsIn directory
  rw [Runner.carryOut_output]
  exact hsite.changed hsite.wellFormed.closed (fun _ => id) rfl

theorem steady_job (job : Job) (config : BuildConfig) :
    Site.Steady directory ((job.reflector config).reflect job.request job.options).run := by
  intro site hsite
  obtain ⟨made, htidy, -⟩ := job.exists_tidy config hsite.wellFormed
  exact ⟨job.wellFormed_carryOut config hsite.wellFormed, htidy.directory.trans hsite.directory⟩

/-- A probe that was prepared has a workspace that was not there before, so the directory is not in
it. -/
theorem leaves_prepare (session : Session) (request : ProbeRequest) (source : ProbeSource) :
    (session.reflector.prepare request source).Leaves (·.StandsIn directory)
      (fun preparation during => during.StandsIn directory ∧
        ∀ probe, preparation = .ready probe → probe.Excludes directory)
      (·.StandsIn directory) := by
  cases source with
  | prebuilt program =>
    apply leaves_pure
    intro site hsite
    refine ⟨hsite, fun probe hprobe => ?_⟩
    cases hprobe
    exact nofun
  | build programOnly =>
    cases programOnly with
    | true =>
      apply leaves_pure
      exact fun site hsite => ⟨hsite, nofun⟩
    | false =>
      rw [session.prepare_job request {}]
      intro site hsite
      have hbuilds : (session.job request {}).Builds := rfl
      have hbuild := Job.leaves_build session.config hbuilds hsite.wellFormed
        (request.program session.config.modelImport) site rfl
      rcases hbuild with
        ⟨probe, during, hrun, workspace, place, seen, rfl, hvacant, hbuilt⟩ |
        ⟨error, after, hrun, made, -, htidy⟩
      · have hduring := hbuilt.building
        refine .inl ⟨_, during, carryOut_bind_of_ok hrun, hsite.changed hduring.files.closed
          hduring.files.keeps hduring.directory, fun probe hprobe => ?_⟩
        cases hprobe
        intro program other hother hin
        cases hother
        -- Nothing is below a place at which nothing is, but the directory is there.
        rw [← hsite.directory, ← hvacant.names.eq_ofPath] at hin
        cases (hsite.wellFormed.closed.get?_of_isPrefix hvacant.get?_place hin).symm.trans
          hsite.wellFormed.get?_directory
      · exact .inr ⟨error, after, carryOut_bind_of_error hrun, hsite.changed htidy.files.closed
          htidy.files.keeps htidy.directory⟩

theorem Sound.prepare (h : session.Sound directory) (name : String) (request : ProbeRequest)
    (source : ProbeSource) : (session.prepare name request source).2.Sound directory := by
  rcases session.leaves_prepare request source session.site h.site with
    ⟨preparation, after, hrun, hafter, hexcludes⟩ | ⟨error, after, hrun, hafter⟩
  · rw [Session.prepare, act_of_carryOut hrun]
    cases preparation with
    | programOnly source => exact h.withSite hafter
    | ready probe =>
      have hready := h.withSite hafter
      dsimp only
      split
      · next old hheld =>
        exact (hready.act (PreparedProbe.steady_discard (hready.excludes_of_lookup hheld))).hold
          name (hexcludes probe rfl)
      · exact hready.hold name (hexcludes probe rfl)
  · rw [Session.prepare, act_of_carryOut hrun]
    exact h.withSite hafter

theorem Sound.step (h : session.Sound directory) (step : SessionStep) :
    (session.step step).2.Sound directory := by
  have hsame : ∀ site : Site, site.files = session.site.files →
      site.directory = session.site.directory → site.StandsIn directory :=
    fun site hfiles hdirectory => h.site.changed (hfiles ▸ h.site.wellFormed.closed)
      (fun _ => hfiles ▸ id) hdirectory
  cases step with
  | configure config => exact ⟨h.site, h.excludes, h.names⟩
  | useToolchain toolchain => exact ⟨hsame _ rfl rfl, h.excludes, h.names⟩
  | useRunner outcome => exact ⟨hsame _ rfl rfl, h.excludes, h.names⟩
  | reflect request options =>
    rw [step_reflect]
    exact h.withSite (steady_job _ _ _ h.site)
  | prepare name request source => exact h.prepare name request source
  | release name =>
    exact h.withHeld fun probe hprobe => (h.letGo name).attempt (steady_release hprobe) _
  | discard name =>
    exact h.withHeld fun probe hprobe => (h.letGo name).act (PreparedProbe.steady_discard hprobe)
  | run name => exact h.withHeld fun probe _ => h.attempt (session.steady_output probe.program) _
  | runProgram program => exact h.attempt (session.steady_output program) _
  | sources => exact h
  | query key =>
    rw [snd_step_query]
    exact h.withSite (hsame _ rfl rfl)
  | removeWorkspace name =>
    exact h.disturbHeld fun program workspace hprobe =>
      Site.steady_discardDirectory (hprobe program workspace rfl)
  | fillWorkspace name =>
    exact h.disturbHeld fun _ _ _ => (steady_makeWay _).bind fun _ => steady_leaveFile _
  | replaceExecutable name =>
    exact h.disturbHeld fun program _ _ => (Site.steady_discardFile program).bind fun _ =>
      steady_makeWay program
  | touch path => exact h.act ((steady_makeWay _).bind fun _ => steady_leaveFile path)
  | rest => exact h

end Soundness

/-- What was held before is held still, or what was made for it is gone. -/
def HoldsOn (session next : Session) (directory : Place) : Prop :=
  ∀ entry ∈ session.held, entry ∈ next.held ∨ entry.2.Gone directory next.site.files

section Letting

variable {next : Session}

theorem holdsOn_of_eq (h : next.held = session.held) : session.HoldsOn next directory :=
  fun _ hentry => .inl (h ▸ hentry)

/-- The probe under a name is the only one that is let go. -/
theorem Sound.mem_letGo (h : session.Sound directory) {name : String} {probe : PreparedProbe}
    (hheld : session.held.lookup name = some probe) {entry : String × PreparedProbe}
    (hentry : entry ∈ session.held) : entry ∈ (session.letGo name).held ∨ entry.2 = probe := by
  by_cases hname : entry.1 = name
  · right
    rw [List.inj_on_of_nodup_map h.names hentry (mem_held_of_lookup hheld) hname]
  · exact .inl (List.mem_filter.2 ⟨hentry, by simpa using hname⟩)

theorem Sound.holdsOn_discard (h : session.Sound directory) {name : String} {probe : PreparedProbe}
    (hheld : session.held.lookup name = some probe) :
    session.HoldsOn ((session.letGo name).act probe.discard).2 directory := by
  intro entry hentry
  rcases h.mem_letGo hheld hentry with hkept | rfl
  · exact .inl hkept
  · exact .inr (PreparedProbe.gone_discard (h.excludes_of_lookup hheld) h.site.directory)

theorem Sound.holdsOn_prepare (h : session.Sound directory) (name : String) (request : ProbeRequest)
    (source : ProbeSource) :
    session.HoldsOn (session.prepare name request source).2 directory := by
  rcases session.leaves_prepare request source session.site h.site with
    ⟨preparation, after, hrun, hafter, -⟩ | ⟨error, after, hrun, -⟩
  · rw [Session.prepare, act_of_carryOut hrun]
    cases preparation with
    | programOnly source => exact holdsOn_of_eq rfl
    | ready probe =>
      have hready := h.withSite hafter
      dsimp only
      split
      · next old hheld =>
        intro entry hentry
        refine (hready.holdsOn_discard hheld entry hentry).imp_left fun hkept => ?_
        exact List.mem_cons_of_mem _ hkept
      · next hnone =>
        intro entry hentry
        refine .inl (List.mem_cons_of_mem _ (List.mem_filter.2 ⟨hentry, ?_⟩))
        have hne : name ≠ entry.1 := bne_iff_ne.1 (List.lookup_eq_none_iff.1 hnone entry hentry)
        simpa using hne.symm
  · rw [Session.prepare, act_of_carryOut hrun]
    exact holdsOn_of_eq rfl

theorem holdsOn_disturbHeld (session : Session) (name : String)
    (action : PathName → PathName → StateM Site Unit) :
    session.HoldsOn (session.disturbHeld name action).2 directory := by
  apply holdsOn_of_eq
  rw [disturbHeld]
  split <;> rfl

theorem Sound.holdsOn_step (h : session.Sound directory) (step : SessionStep) :
    session.HoldsOn (session.step step).2 directory := by
  cases step with
  | reflect request options =>
    rw [step_reflect]
    exact holdsOn_of_eq rfl
  | prepare name request source => exact h.holdsOn_prepare name request source
  | release name =>
    rw [Session.step, Session.withHeld]
    split
    · next probe hheld =>
      have hdiscard := h.holdsOn_discard hheld
      rw [attempt_eq, probe.snd_carryOut_release]
      exact hdiscard
    · exact holdsOn_of_eq rfl
  | discard name =>
    rw [Session.step, Session.withHeld]
    split
    · next probe hheld => exact h.holdsOn_discard hheld
    · exact holdsOn_of_eq rfl
  | run name =>
    rw [Session.step, Session.withHeld]
    split
    · rw [attempt_eq]
      exact holdsOn_of_eq rfl
    · exact holdsOn_of_eq rfl
  | runProgram program =>
    rw [Session.step, attempt_eq]
    exact holdsOn_of_eq rfl
  | query key =>
    rw [snd_step_query]
    exact holdsOn_of_eq rfl
  | removeWorkspace name => exact session.holdsOn_disturbHeld name _
  | fillWorkspace name => exact session.holdsOn_disturbHeld name _
  | replaceExecutable name => exact session.holdsOn_disturbHeld name _
  | _ => exact holdsOn_of_eq rfl

end Letting

section Runs

variable (session) (steps : List SessionStep)

theorem play_cons (step : SessionStep) :
    session.play (step :: steps) = session.step step :: (session.step step).2.play steps := rfl

theorem play_append (back : List SessionStep) :
    session.play (steps ++ back) = session.play steps ++ (session.after steps).play back := by
  induction steps generalizing session with
  | nil => rfl
  | cons step rest ih =>
    rw [List.cons_append, play_cons, play_cons, ih]
    rfl

variable {session}

theorem Sound.after (h : session.Sound directory) : (session.after steps).Sound directory := by
  induction steps generalizing session with
  | nil => exact h
  | cons step rest ih => exact ih (h.step step)

theorem after_reflections (session : Session) (requests : List (ProbeRequest × ReflectOptions)) :
    session.after (requests.map fun asked => .reflect asked.1 asked.2) =
      { session with
        site := session.config.siteAfter (requests.map fun asked => session.job asked.1 asked.2)
          session.site } := by
  induction requests generalizing session with
  | nil => rfl
  | cons asked rest ih =>
    rw [List.map_cons, Session.after, List.foldl_cons, step_reflect]
    exact ih _

theorem Sound.discards {entries : List (String × PreparedProbe)} (h : session.Sound directory)
    (hentries : ∀ entry ∈ entries, entry.2.Excludes directory) :
    ∃ last : Session, entries.foldl
        (fun session entry => (session.act entry.2.discard).2) session = last ∧
      last.Sound directory ∧ last.site.files.Within session.site.files ∧
        ∀ entry ∈ entries, entry.2.Gone directory last.site.files := by
  induction entries generalizing session with
  | nil => exact ⟨session, rfl, h, Tree.Within.refl _, nofun⟩
  | cons entry rest ih =>
    have hfirst := hentries entry List.mem_cons_self
    obtain ⟨last, hlast, hsound, hwithin, hgone⟩ := ih
      (h.act (PreparedProbe.steady_discard hfirst))
      fun other hother => hentries other (List.mem_cons_of_mem _ hother)
    refine ⟨last, hlast, hsound, hwithin.trans (entry.2.within_discard _), fun other hother => ?_⟩
    rcases List.mem_cons.1 hother with rfl | hother
    · exact (PreparedProbe.gone_discard hfirst h.site.directory).within hwithin
    · exact hgone other hother

/-- A session with no probes is sound from the start. -/
theorem sound_of_nothing_held (hsite : session.site.WellFormed) (hheld : session.held = []) :
    session.Sound session.site.directory where
  site := ⟨hsite, rfl⟩
  excludes := by
    rw [hheld]
    exact nofun
  names := by
    rw [hheld]
    exact List.nodup_nil

/-- Whatever happened before in a session, a reflection is a job there.  It gives what the job gives
with the tools that the session has then, leaves the site as tidy as the job does, and changes
nothing else of the session. -/
theorem play_reflect (h : session.Sound directory) (request : ProbeRequest)
    (options : ReflectOptions) {during : Session} (hduring : session.after steps = during)
    {result : Except ReflectError ReflectOutcome} {site : Site}
    (hjob : (during.job request options).carryOut during.config during.site = (result, site)) :
    session.play (steps ++ [.reflect request options]) =
        session.play steps ++ [(resultOf result, { during with site := site })] ∧
      ∃ made, (during.job request options).Tidy during.config during.site made site ∧
        ((during.job request options).Builds →
          (during.job request options).RunsWhatItBuilt during.config during.site made) := by
  subst hduring
  have hsound := h.after steps
  have htidy := ((session.after steps).job request options).exists_tidy (session.after steps).config
    hsound.site.wellFormed
  rw [hjob] at htidy
  refine ⟨?_, htidy⟩
  rw [play_append, play_cons, step_reflect, hjob]
  rfl

/-- A session of reflections leaves every entry as it was if each of them has room at the start. -/
theorem get?_after_reflections {requests : List (ProbeRequest × ReflectOptions)}
    (hsite : session.site.WellFormed)
    (hroom : ∀ asked ∈ requests,
      (session.job asked.1 asked.2).HasRoom session.config session.site) :
    (session.after (requests.map fun asked => .reflect asked.1 asked.2)).site.files.get? =
      session.site.files.get? := by
  rw [after_reflections]
  apply session.config.get?_siteAfter hsite
  intro job hjob
  obtain ⟨asked, hasked, rfl⟩ := List.mem_map.1 hjob
  exact hroom asked hasked

/-- After any steps, one more step lets a probe go only when what was made for it is gone. -/
theorem held_until_gone (h : session.Sound directory) (step : SessionStep) :
    (session.after steps).HoldsOn (session.after (steps ++ [step])) directory := by
  have hlast : session.after (steps ++ [step]) = ((session.after steps).step step).2 := by
    rw [Session.after, List.foldl_append]
    rfl
  rw [hlast]
  exact (h.after steps).holdsOn_step step

/-- A session in the prepared directories, with tools that build for the project there. -/
def preparedSession : Session where
  site := preparedDirectories
  toolchain := .ofProject "/project" (.writeExecutable "probe")
  runner := .error (.spawnFailed "no")
  config := { workDirectory := "/work" }

example : ((preparedSession.after [.prepare "first" readerRequest (.build false),
    .prepare "second" readerRequest (.build false), .discard "first"]).held.map Prod.fst) =
      ["second"] := by
  decide +kernel

/-- When a session is finished after any steps, nothing is left of the probes that it held. -/
theorem gone_after_finish (h : session.Sound directory) :
    (session.after steps).finish.Sound directory ∧
      ∀ entry ∈ (session.after steps).held,
        entry.2.Gone directory (session.after steps).finish.site.files := by
  have hsound := h.after steps
  obtain ⟨last, hlast, hfinished, -, hgone⟩ := hsound.discards hsound.excludes
  rw [finish, hlast]
  exact ⟨hfinished, hgone⟩

end Runs

theorem step_reflect_of_fails {request : ProbeRequest} {options : ReflectOptions}
    (h : (session.reflector.reflect request options).Fails) :
    ∃ error, (session.step (.reflect request options)).1 = .failed error := by
  rcases h session.site trivial with ⟨_, _, _, hfalse⟩ | ⟨error, after, hrun, -⟩
  · exact hfalse.elim
  · rw [step, attempt_eq, hrun]
    exact ⟨error, rfl⟩

/-- When a setting that a build asks for is taken away, every reflection that has to build
fails. -/
theorem reflect_withoutValue (session : Session) (request : ProbeRequest)
    {options : ReflectOptions} (hoptions : options.source = .build false) {key : String}
    (hkey : key = projectDirectoryKey ∨ key = executableSuffixKey) :
    ∃ error, ((session.step (.useToolchain (session.toolchain.withoutValue key))).2.step
      (.reflect request options)).1 = .failed error :=
  step_reflect_of_fails (Reflector.fails_reflect hoptions
    (InMemoryToolchain.fails_executable hkey (session.toolchain.query_withoutValue key)))

end Session

end InterfaceProbe
