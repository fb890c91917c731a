import Companion.Proofs.MadeDirectories
import Companion.Proofs.RunReport
import Mathlib.Data.List.Dedup
import Mathlib.Data.List.Perm.Basic

/-!
# Companions that take the place of others

Companions of one path are written one over the other. Each of them but the last is in one warning,
which is on the next one of its path (`perm_replacements`), and the file has the text of the last
(`read_last_of_writesAll`). So no text is lost without a warning (`generate_overwrites`).
-/

namespace Companion

namespace FileSystem

variable {before after : FileSystem} {path text : String} {place : Location}

theorem placeOf_eq_of_home_eq (h : after.home = before.home) (path : String) :
    after.placeOf path = before.placeOf path := by
  rw [placeOf, placeOf, startOf, startOf, h]

/-- What writing a companion does: its text is at the place of its path, and elsewhere everything is
as it was. -/
structure Written (before after : FileSystem) (path text : String) : Prop where
  grows : before.Grows after
  locate : after.locate path = .ok (before.placeOf path)
  text : after.entryAt? (before.placeOf path) = some (.text text)
  entry : ∀ place e, place ≠ before.placeOf path → before.entryAt? place = some e →
    after.entryAt? place = some e

/-- Writing a companion adds directories on the way to it, and then the file. -/
theorem exists_made_of_writes (h : Writes path text before after) :
    ∃ made, before.AddsDirectories made (before.OnWay path) ∧ made.write path text = .ok after := by
  obtain ⟨made, hnone, hsome, hwrite⟩ := h
  refine ⟨made, ?_, hwrite⟩
  rcases hp : Path.parent? path with _ | parent
  · rw [hnone hp]
    exact .refl before _
  · have hdirs := addsDirectories_makeDirectories before parent
    rw [hsome parent hp] at hdirs
    exact hdirs.mono fun _ => OnWay.of_parent? hp

theorem written_of_writes (h : Writes path text before after) :
    before.Written after path text := by
  obtain ⟨made, hadds, hwrite⟩ := exists_made_of_writes h
  have hmade := hadds.isExtension
  obtain ⟨hd, rfl, hlocate⟩ := write_eq_ok hwrite
  rw [placeOf_eq_of_home_eq hmade.home_eq] at hd hlocate ⊢
  refine ⟨hmade.grows.trans (grows_set hd _), hlocate, entryAt?_set_self hd _, fun l e hl he => ?_⟩
  rw [entryAt?_set_of_ne hl]
  exact hmade.entry l e he

theorem writesAll_append {cs ds : List (String × String)} (h : WritesAll (cs ++ ds) before after) :
    ∃ middle, WritesAll cs before middle ∧ WritesAll ds middle after := by
  induction cs generalizing before with
  | nil => exact ⟨before, rfl, h⟩
  | cons c cs ih =>
    obtain ⟨next, hnext, h⟩ := h
    obtain ⟨middle, hcs, hds⟩ := ih h
    exact ⟨middle, ⟨next, hnext, hcs⟩, hds⟩

/-- Writing companions leaves what is at the place of none of them. -/
theorem frame_of_writesAll {cs : List (String × String)} (h : WritesAll cs before after) :
    before.Grows after ∧ ∀ place e, (∀ c ∈ cs, place ≠ before.placeOf c.1) →
      before.entryAt? place = some e → after.entryAt? place = some e := by
  induction cs generalizing before with
  | nil =>
    obtain rfl : after = before := h
    exact ⟨.refl _, fun _ _ _ => id⟩
  | cons c cs ih =>
    obtain ⟨next, hnext, h⟩ := h
    have hwritten := written_of_writes hnext
    obtain ⟨hgrows, hframe⟩ := ih h
    refine ⟨hwritten.grows.trans hgrows, fun l e hl he => ?_⟩
    obtain ⟨hc, hcs⟩ := List.forall_mem_cons.1 hl
    refine hframe l e (fun d hd => ?_) (hwritten.entry l e hc he)
    rw [placeOf_eq_of_home_eq hwritten.grows.home_eq]
    exact hcs d hd

/-- A companion that was written is found under its path, whatever was written besides. -/
theorem locate_of_writesAll {cs : List (String × String)} {c : String × String}
    (h : WritesAll cs before after) (hc : c ∈ cs) :
    after.locate c.1 = .ok (before.placeOf c.1) := by
  obtain ⟨earlier, later, rfl⟩ := List.append_of_mem hc
  obtain ⟨middle, hearlier, next, hnext, hlater⟩ := writesAll_append h
  rw [← placeOf_eq_of_home_eq (frame_of_writesAll hearlier).1.home_eq]
  exact (frame_of_writesAll hlater).1.locate (written_of_writes hnext).locate

/-- After companions were written each place has the text of the last one of it. -/
theorem entryAt?_of_writesAll {cs ds : List (String × String)} {c : String × String}
    (h : WritesAll (cs ++ c :: ds) before after)
    (hds : ∀ d ∈ ds, before.placeOf d.1 ≠ before.placeOf c.1) :
    after.entryAt? (before.placeOf c.1) = some (.text c.2) := by
  obtain ⟨middle, hcs, next, hnext, hlater⟩ := writesAll_append h
  have hwritten := written_of_writes hnext
  have hhome := (frame_of_writesAll hcs).1.home_eq
  rw [← placeOf_eq_of_home_eq hhome]
  refine (frame_of_writesAll hlater).2 _ _ (fun d hd => ?_) hwritten.text
  rw [placeOf_eq_of_home_eq hwritten.grows.home_eq, placeOf_eq_of_home_eq hhome,
    placeOf_eq_of_home_eq hhome]
  exact (hds d hd).symm

/-- After companions were written each file has the text of the last one of its place. -/
theorem read_of_writesAll {cs ds : List (String × String)} {c : String × String}
    (h : WritesAll (cs ++ c :: ds) before after)
    (hds : ∀ d ∈ ds, before.placeOf d.1 ≠ before.placeOf c.1) : after.read c.1 = .ok c.2 :=
  read_of_locate (locate_of_writesAll h (by simp)) (entryAt?_of_writesAll h hds)

end FileSystem

def Diagnostic.Cause.isOverwrite : Diagnostic.Cause → Bool
  | .overwrites _ _ => true
  | _ => false

def Report.overwriteWarnings (r : Report) : List Diagnostic :=
  r.diagnostics.filter (·.cause.isOverwrite)

/-- The warning on a companion that takes the place of another. -/
def GeneratedFile.warning (replaced file : GeneratedFile) : Diagnostic :=
  ⟨file.variant, file.declaration, .overwrites file.path replaced.declaration⟩

/-- The companions with a later one of their path, each with the next such one. -/
def replacements : List GeneratedFile → List (GeneratedFile × GeneratedFile)
  | [] => []
  | file :: files =>
    ((files.find? fun next => Path.same next.path file.path).map (file, ·)).toList ++
      replacements files

def GeneratedFile.components (file : GeneratedFile) : List Path.Component :=
  Path.components file.path.toList

theorem same_eq (f g : GeneratedFile) :
    Path.same f.path g.path = (f.components == g.components) :=
  rfl

/-- A companion that comes last replaces the last one of its path, if there is one. -/
theorem replacements_concat (files : List GeneratedFile) (file : GeneratedFile) :
    (replacements (files ++ [file])).Perm (replacements files ++
      ((files.reverse.find? fun g => Path.same g.path file.path).map (·, file)).toList) := by
  induction files with
  | nil => simp [replacements]
  | cons g files ih =>
    simp only [same_eq, List.cons_append, replacements, List.find?_append, List.reverse_cons,
      List.find?_singleton, beq_iff_eq] at ih ⊢
    by_cases hs : g.components = file.components
    · simp only [hs, if_true]
      rcases hg : files.find? (fun next => next.components == file.components) with _ | next
      · -- no companion of the path comes between `g` and the last one
        have hlater : files.reverse.find? (fun g => g.components == file.components) = none := by
          simpa using hg
        simp only [hg, hlater, Option.none_or, Option.map_some, Option.map_none,
          Option.toList_some, Option.toList_none, List.append_nil, List.nil_append] at ih ⊢
        exact (ih.cons _).trans (List.perm_append_singleton _ _).symm
      · obtain ⟨last, hlast⟩ : ∃ last,
            files.reverse.find? (fun g => g.components == file.components) = some last := by
          rw [← Option.isSome_iff_exists, List.find?_isSome]
          have hnext := List.find?_some hg
          exact ⟨next, by simpa using List.mem_of_find?_eq_some hg, hnext⟩
        simp only [hg, hlast, Option.some_or, List.append_assoc] at ih ⊢
        exact ih.append_left _
    · simp only [hs, Ne.symm hs, if_false, Option.or_none, List.append_assoc]
      exact ih.append_left _

theorem length_replacements (files : List GeneratedFile) :
    (replacements files).length + (files.map GeneratedFile.components).dedup.length =
      files.length := by
  induction files with
  | nil => rfl
  | cons g files ih =>
    simp only [replacements, List.map_cons, List.length_append, List.length_cons, same_eq]
    rcases hg : files.find? (fun next => next.components == g.components) with _ | next
    · have hmem : g.components ∉ files.map GeneratedFile.components := by
        simpa using hg
      rw [List.dedup_cons_of_notMem hmem, List.length_cons, ← ih]
      simp only [hg, Option.map_none, Option.toList_none, List.length_nil]
      omega
    · have hmem : g.components ∈ files.map GeneratedFile.components :=
        List.mem_map.2 ⟨next, List.mem_of_find?_eq_some hg, by simpa using List.find?_some hg⟩
      rw [List.dedup_cons_of_mem hmem, ← ih]
      simp only [hg, Option.map_some, Option.toList_some, List.length_singleton]
      omega

theorem mem_replacements {later : List GeneratedFile} {file next : GeneratedFile}
    (h : later.find? (fun next => Path.same next.path file.path) = some next)
    (earlier : List GeneratedFile) :
    (file, next) ∈ replacements (earlier ++ file :: later) := by
  induction earlier with
  | nil => simp [replacements, h]
  | cons g earlier ih => exact List.mem_append_right _ ih

variable {render : Renderer} {s : Settings} {model : Model} {r : Report} {w w' : World}

theorem isOverwrite_of_mem_diagnostics {d : Declaration} {x : Diagnostic}
    (h : x ∈ (directPlan model s d).diagnostics) : x.cause.isOverwrite = false := by
  have htagging : ∀ x ∈ taggingDiagnostics s d, x.cause.isOverwrite = false := by
    unfold taggingDiagnostics
    split
    · simp
    · split_ifs <;> simp [Diagnostic.Cause.isOverwrite]
  obtain ⟨notes, he, hnotes, -⟩ := exists_diagnostics_directPlan model s d
  rw [he] at h
  rcases List.mem_append.1 h with h | h
  · exact htagging x h
  · obtain ⟨v, rfl⟩ := hnotes x h
    rfl

theorem overwrites_of_job_eq_some {p : Plan} {j : Job} (h : p.job = some j) (r : Report) :
    r.overwrites s p = ((r.generated.reverse.find? fun g =>
      Path.same g.path (j.file s).path).map (·.warning (j.file s))).toList := by
  rw [Report.overwrites, h]
  rfl

theorem filter_overwrites (r : Report) (p : Plan) :
    (r.overwrites s p).filter (·.cause.isOverwrite) = r.overwrites s p := by
  rw [List.filter_eq_self]
  rcases hj : p.job with _ | j
  · simp [Report.overwrites, hj]
  · rw [overwrites_of_job_eq_some hj]
    intro x hx
    obtain ⟨previous, -, rfl⟩ := Option.map_eq_some_iff.1 (Option.mem_toList.1 hx)
    rfl

theorem overwriteWarnings_enter (r : Report) (d : Declaration) :
    (r.enter s (directPlan model s d)).overwriteWarnings =
      r.overwriteWarnings ++ r.overwrites s (directPlan model s d) := by
  have hplan : (directPlan model s d).diagnostics.filter (·.cause.isOverwrite) = [] :=
    List.filter_eq_nil_iff.2 fun x hx => by simp [isOverwrite_of_mem_diagnostics hx]
  simp only [Report.overwriteWarnings, Report.enter, List.filter_append, hplan, filter_overwrites,
    List.nil_append]

/-- The warnings are those on the replacements among the companions. -/
theorem perm_replacements {ds : List Declaration}
    (h : r.overwriteWarnings.Perm ((replacements r.generated).map fun p => p.1.warning p.2)) :
    let r' := (ds.map (directPlan model s)).foldl (Report.enter s) r
    r'.overwriteWarnings.Perm ((replacements r'.generated).map fun p => p.1.warning p.2) := by
  induction ds generalizing r with
  | nil => exact h
  | cons d ds ih =>
    refine ih ?_
    rw [overwriteWarnings_enter]
    rcases hj : (directPlan model s d).job with _ | j
    · simpa [Report.overwrites, Report.enter, hj] using h
    · have hconcat := (replacements_concat r.generated (j.file s)).map fun p => p.1.warning p.2
      rw [List.map_append, Option.toList_map, List.map_map] at hconcat
      simp only [overwrites_of_job_eq_some hj, Report.enter, hj, Option.map_some,
        Option.toList_some, Option.toList_map]
      exact (h.append_right _).trans hconcat.symm

/-- No slash stands in what the output paths of a run are made of. -/
structure Settings.Slashless (s : Settings) (model : Model) : Prop where
  extension : '/' ∉ s.extension.toList
  package : ∀ d ∈ model.declarations, '/' ∉ d.package.toList
  companionName : ∀ d ∈ model.declarations, '/' ∉ d.companionName.toList

theorem below_path {j : Job} (hs : s.Slashless model)
    (hj : j ∈ (model.declarations.map (directPlan model s)).filterMap Plan.job) :
    Path.Below s.outputDir (j.path s) := by
  simp only [List.filterMap_map, List.mem_filterMap, Function.comp_apply] at hj
  obtain ⟨d, hd, hj⟩ := hj
  obtain ⟨v, hv, rfl⟩ := Option.map_eq_some_iff.1 hj
  have hne : d.companionName ≠ "" := by
    intro hn
    unfold plannedVariant? at hv
    split at hv
    · simp at hv
    · simp [hn] at hv
  exact Settings.below_outputPath (hs.package d hd) (hs.companionName d hd) hne
    (not_mem_companionName d) hs.extension

/-- Each file has the text of the last companion of its path. -/
theorem read_last {companions : List (Job × String)} {before after : FileSystem}
    (hb : ∀ c ∈ companions, Path.Below s.outputDir (c.1.path s))
    (h : WritesAll (companions.map fun c => (c.1.path s, c.2)) before after)
    {earlier later : List (Job × String)} {last : Job × String}
    (he : companions = earlier ++ last :: later)
    (hl : ∀ c ∈ later, Path.same (c.1.path s) (last.1.path s) = false) :
    after.read (last.1.path s) = .ok last.2 := by
  subst he
  rw [List.map_append, List.map_cons] at h
  refine FileSystem.read_of_writesAll (c := (last.1.path s, last.2)) h fun c hc hplace => ?_
  obtain ⟨k, hk, rfl⟩ := List.mem_map.1 hc
  have hpath : k.1.path s = last.1.path s :=
    FileSystem.eq_of_placeOf_eq before (hb k (by simp [hk])) (hb last (by simp)) hplace
  have hsame := hl k hk
  rw [hpath, Path.same, beq_self_eq_true] at hsame
  exact Bool.noConfusion hsame

/-- The file of a companion has the text of the last one of its path. -/
theorem exists_last {companions : List (Job × String)} {before after : FileSystem}
    (hb : ∀ c ∈ companions, Path.Below s.outputDir (c.1.path s))
    (h : WritesAll (companions.map fun c => (c.1.path s, c.2)) before after)
    {c : Job × String} (hc : c ∈ companions) :
    ∃ last, (companions.reverse.find? fun k => Path.same (k.1.path s) (c.1.path s)) = some last ∧
      after.read (c.1.path s) = .ok last.2 := by
  obtain ⟨last, hlast⟩ : ∃ last,
      (companions.reverse.find? fun k => Path.same (k.1.path s) (c.1.path s)) = some last := by
    rw [← Option.isSome_iff_exists, List.find?_isSome]
    exact ⟨c, by simpa using hc, by simp [Path.same]⟩
  refine ⟨last, hlast, ?_⟩
  obtain ⟨hsame, later, earlier, he, hl⟩ := List.find?_eq_some_iff_append.1 hlast
  rw [List.reverse_eq_iff, List.reverse_append, List.reverse_cons] at he
  have hmem : last ∈ companions := by simp [he]
  have hpath := Path.eq_of_same (hb last hmem) (hb c hc) hsame
  rw [← hpath]
  have hsplit : companions = earlier.reverse ++ last :: later.reverse := by simpa using he
  refine read_last hb h hsplit fun k hk => ?_
  rw [hpath]
  simpa using hl k (by simpa using hk)

end Companion
