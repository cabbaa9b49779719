/-
# Discarding probes

A probe that is discarded is gone: nothing is left of its workspace, and its
executable is no file any more.  Nothing is new afterwards, so what was gone before
is gone still.  The directory that a site stands in stays where it is as long as it
is not inside of the workspace.
-/

import InterfaceProbe.Proofs.Pipeline.Residue

namespace InterfaceProbe

/-- A well-formed site that starts in the directory. -/
structure Site.StandsIn (site : Site) (directory : Place) : Prop where
  wellFormed : site.WellFormed
  directory : site.directory = directory

/-- The program leaves a site that stands in the directory if it finds one. -/
def Site.Steady {α : Type} (directory : Place) (program : StateM Site α) : Prop :=
  ∀ site, site.StandsIn directory → (program.run site).2.StandsIn directory

namespace Site

variable {α β : Type} {directory : Place} {program : StateM Site α}

theorem Steady.bind {next : α → StateM Site β} (h : Steady directory program)
    (hnext : ∀ value, Steady directory (next value)) : Steady directory (program >>= next) :=
  fun site hsite => hnext _ _ (h site hsite)

theorem StandsIn.changed {site after : Site} (h : site.StandsIn directory)
    (hclosed : after.files.Closed) (hkeeps : site.files.KeepsDirectories after.files)
    (hdirectory : after.directory = site.directory) : after.StandsIn directory where
  wellFormed := ⟨hclosed, by
    rw [hdirectory]
    exact hkeeps _ h.wellFormed.get?_directory⟩
  directory := hdirectory.trans h.directory

theorem steady_discardFile (path : PathName) : Steady directory (discardFile path) := by
  intro site hsite
  rw [run_discardFile]
  cases hremove : site.files.removeFile site.directory path with
  | error error => exact hsite
  | ok removed =>
    obtain ⟨place, contents, mode, hfind, rfl⟩ := Tree.removeFile_eq_ok_iff.1 hremove
    have hnode : site.files.get? place ≠ some .directory := by
      rw [(Tree.find_eq_ok_iff.1 hfind).2.2.1]
      nofun
    exact hsite.changed (hsite.wellFormed.closed.erase hnode) (Tree.keepsDirectories_erase hnode)
      rfl

/-- A directory may go unless the site stands in it. -/
theorem steady_discardDirectory {path : PathName}
    (hout : ¬ Place.ofPath directory path <+: directory) :
    Steady directory (discardDirectory path) := by
  intro site hsite
  rw [run_discardDirectory]
  cases hremove : site.files.removeDirectory site.directory path with
  | error error => exact hsite
  | ok removed =>
    obtain ⟨place, hfind, rfl⟩ := Tree.removeDirectory_eq_ok_iff.1 hremove
    have hplace : place = Place.ofPath directory path := by
      rw [← hsite.directory]
      exact Tree.walk_of_follow (Tree.find_eq_ok_iff.1 hfind).2.1
    refine ⟨⟨hsite.wellFormed.closed.prune place, ?_⟩, hsite.directory⟩
    change (site.files.prune place).get? site.directory = _
    rw [Tree.get?_prune, if_neg]
    · exact hsite.wellFormed.get?_directory
    · rw [hplace, hsite.directory]
      exact fun hboth => hout hboth.2

end Site

namespace PreparedProbe

variable {probe : PreparedProbe} {directory : Place} {files files' : Tree}

/-- The directory is not in the workspace of the probe. -/
def Excludes (probe : PreparedProbe) (directory : Place) : Prop :=
  ∀ program workspace, probe = .built program workspace →
    ¬ Place.ofPath directory workspace <+: directory

/-- Nothing that was made for the probe is left: its workspace is no directory, and its executable
no file. -/
def Gone (probe : PreparedProbe) (directory : Place) (files : Tree) : Prop :=
  ∀ program workspace, probe = .built program workspace →
    (∀ place, files.find directory workspace ≠ .ok (place, .directory)) ∧
      ∀ contents, files.contentsAt directory program ≠ .ok contents

theorem Gone.within (h : probe.Gone directory files') (hwithin : files.Within files') :
    probe.Gone directory files := by
  intro program workspace hprobe
  obtain ⟨hworkspace, hprogram⟩ := h program workspace hprobe
  exact ⟨fun place hfind => hworkspace place (hwithin.find hfind),
    fun contents hread => hprogram contents (hwithin.contentsAt hread)⟩

theorem steady_discard (h : probe.Excludes directory) : Site.Steady directory probe.discard := by
  cases probe with
  | prebuilt program => exact fun site hsite => hsite
  | built program workspace =>
    exact (Site.steady_discardFile program).bind fun _ =>
      Site.steady_discardDirectory (h program workspace rfl)

theorem within_discard (probe : PreparedProbe) (site : Site) :
    (probe.discard.run site).2.files.Within site.files := by
  cases probe with
  | prebuilt program => exact Tree.Within.refl site.files
  | built program workspace =>
    rw [run_discard_built, Site.run_discardDirectory, Site.run_discardFile]
    exact (Tree.Within.removeDirectory _ _ workspace).trans (Tree.Within.removeFile _ _ program)

theorem gone_discard (h : probe.Excludes directory) {site : Site}
    (hdirectory : site.directory = directory) :
    probe.Gone directory (probe.discard.run site).2.files := by
  subst hdirectory
  rintro program workspace rfl
  have hroot : Place.ofPath site.directory workspace ≠ [] := by
    intro hroot
    apply h program workspace rfl
    rw [hroot]
    exact List.nil_prefix
  rw [run_discard_built, Site.run_discardDirectory, Site.run_discardFile]
  refine ⟨Tree.find_removeDirectory_ne_ok _ hroot, fun contents hread => ?_⟩
  exact Tree.contentsAt_removeFile_ne_ok site.files site.directory program contents
    ((Tree.Within.removeDirectory _ _ workspace).contentsAt hread)

end PreparedProbe

end InterfaceProbe
