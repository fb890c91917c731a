import Companion.Proofs.Bystanders
import Companion.Proofs.MadeDirectories

/-!
# Runs that stay in the output directory

A path beneath a directory goes on from it by names that neither stay nor lead up again. Writing
a companion under such a path changes nothing outside the directory, besides adding the directories
on the way to it (`staysIn_writeCompanion`), and so does a run all of whose companions have such
paths, whether it succeeds or fails (`staysIn_generate`).
-/

namespace Companion

namespace Path

/-- The path starts where the directory does and goes on from it, by names of which none but the
last can be dots. -/
def Beneath (directory path : String) : Prop :=
  isAbsolute path.toList = isAbsolute directory.toList ∧ ∃ names last,
    FileSystem.namesOf path = FileSystem.namesOf directory ++ (names ++ [last]) ∧
      ∀ name ∈ names, name ≠ ['.'] ∧ name ≠ ['.', '.']

theorem foldl_push_eq {texts : List (List Char)} (h : ∀ text ∈ texts, isAbsolute text = false)
    (directory : String) :
    let path := texts.foldl (fun path text => push path (String.ofList text)) directory
    isAbsolute path.toList = isAbsolute directory.toList ∧
      FileSystem.namesOf path = FileSystem.namesOf directory ++
        texts.flatMap fun text => FileSystem.namesOf (String.ofList text) := by
  induction texts generalizing directory with
  | nil => simp
  | cons text texts ih =>
    obtain ⟨htext, htexts⟩ := List.forall_mem_cons.1 h
    obtain ⟨habs, hnames⟩ := ih htexts (push directory (String.ofList text))
    refine ⟨habs.trans (isAbsolute_push directory htext), ?_⟩
    rw [List.foldl_cons, hnames, FileSystem.namesOf_push directory htext, List.flatMap_cons,
      List.append_assoc]

theorem mem_namesOf {text name : List Char} (h : name ∈ FileSystem.namesOf (String.ofList text)) :
    name ⊆ text := by
  rw [FileSystem.namesOf, String.toList_ofList] at h
  exact (not_mem_of_mem_splitOn (List.mem_filter.1 h).1).2

/-- The names of a text with an end that holds no slash: the end belongs to the last one. -/
theorem exists_namesOf_append (text : List Char) {suffix : List Char} (hne : suffix ≠ [])
    (h : '/' ∉ suffix) : ∃ names last,
      FileSystem.namesOf (String.ofList (text ++ suffix)) = names ++ [last] ∧
        ∀ name ∈ names, name ⊆ text := by
  have hlast (back : List Char) (hback : '/' ∉ back) :
      ((back ++ suffix).splitOn '/').filter (!·.isEmpty) = [back ++ suffix] := by
    have hslash : '/' ∉ back ++ suffix := by simp [hback, h]
    simp [List.splitOn_eq_singleton hslash, hne]
  by_cases hslash : '/' ∈ text
  · obtain ⟨back, front, hsplit, hback⟩ := List.eq_append_cons_of_mem (List.mem_reverse.2 hslash)
    have htext : text = front.reverse ++ '/' :: back.reverse := by
      rw [List.reverse_eq_iff.1 hsplit]
      simp
    refine ⟨FileSystem.namesOf (String.ofList front.reverse), back.reverse ++ suffix, ?_,
      fun name hname => List.Subset.trans (mem_namesOf hname) ?_⟩
    · rw [FileSystem.namesOf, FileSystem.namesOf, String.toList_ofList, String.toList_ofList, htext,
        List.append_assoc, List.cons_append, List.splitOn_append_cons_self, List.filter_append,
        hlast back.reverse (by simpa using hback)]
    · rw [htext]
      exact List.subset_append_left _ _
  · refine ⟨[], text ++ suffix, ?_, by simp⟩
    rw [FileSystem.namesOf, String.toList_ofList, hlast text hslash, List.nil_append]

end Path

theorem Settings.beneath_outputPath {s : Settings} {package className : String}
    (hrelative : ∀ text ∈ s.outputNames package className, Path.isAbsolute text = false)
    (hdot : '.' ∉ className.toList) (hx : '/' ∉ s.extension.toList) :
    Path.Beneath s.outputDir (s.outputPath package className) := by
  obtain ⟨habs, hnames⟩ := Path.foldl_push_eq hrelative s.outputDir
  rw [← outputPath_eq] at habs hnames
  obtain ⟨front, last, hlast, hfront⟩ :=
    Path.exists_namesOf_append className.toList (List.cons_ne_nil '.' s.extension.toList)
      (by simp [hx])
  have hfile : (className ++ "." ++ s.extension).toList =
      className.toList ++ '.' :: s.extension.toList := by simp
  set segments := (package.toList.splitOn '.').filter (!·.isEmpty)
  refine ⟨habs, segments.flatMap (fun text => FileSystem.namesOf (String.ofList text)) ++ front,
    last, ?_, fun name hname => ?_⟩
  · rw [hnames, outputNames, List.flatMap_append, List.flatMap_singleton, hfile, hlast,
      List.append_assoc]
  · have hdot' : '.' ∉ name := by
      rcases List.mem_append.1 hname with hname | hname
      · obtain ⟨segment, hsegment, hname⟩ := List.mem_flatMap.1 hname
        have hmem := (Path.not_mem_of_mem_splitOn (List.mem_filter.1 hsegment).1).1
        exact fun h => hmem (Path.mem_namesOf hname h)
      · exact fun h => hdot (hfront name hname h)
    constructor <;> rintro rfl <;> simp at hdot'

namespace FileSystem

variable {before middle after : FileSystem} {directory path text : String}

/-- Outside the directory everything is as it was, except that directories can be added on the way
to it. -/
structure Confined (directory : String) (before after : FileSystem) : Prop where
  home_eq : after.home = before.home
  entry : ∀ place, after.entryAt? place = before.entryAt? place ∨
    (∃ names, names ≠ [] ∧ place = before.placeOf directory ++ names) ∨
    before.entryAt? place = none ∧ after.entryAt? place = some .directory ∧
      before.OnWay directory place

theorem Confined.refl (directory : String) (fs : FileSystem) : Confined directory fs fs :=
  ⟨rfl, fun _ => .inl rfl⟩

theorem Confined.trans (h : Confined directory before middle)
    (h' : Confined directory middle after) : Confined directory before after := by
  refine ⟨h'.home_eq.trans h.home_eq, fun place => ?_⟩
  rcases h'.entry place with he' | ⟨names, hne, hplace⟩ | ⟨hnone', hdir', hway⟩
  · rw [he']
    exact h.entry place
  · rw [placeOf, startOf_congr h.home_eq rfl] at hplace
    exact .inr (.inl ⟨names, hne, hplace⟩)
  · rw [onWay_iff_of_home_eq h.home_eq] at hway
    rcases h.entry place with he | hbelow | ⟨-, hdir, -⟩
    · exact .inr (.inr ⟨he ▸ hnone', hdir', hway⟩)
    · exact .inr (.inl hbelow)
    · simp [hdir] at hnone'

theorem foldl_enter_append {start : Location} {names : List (List Char)}
    (h : ∀ name ∈ names, name ≠ ['.'] ∧ name ≠ ['.', '.']) :
    names.foldl enter start = start ++ names := by
  induction names generalizing start with
  | nil => simp
  | cons name names ih =>
    obtain ⟨⟨hhere, hup⟩, hnames⟩ := List.forall_mem_cons.1 h
    rw [List.foldl_cons, ih hnames, enter, if_neg hhere, if_neg hup, List.append_assoc]
    rfl

/-- The way to the directory above a path beneath a directory leads to that one first. -/
theorem onWay_of_beneath (h : Path.Beneath directory path) {parent : String}
    (hp : Path.parent? path = some parent) {place : Location} (hway : before.OnWay parent place) :
    before.OnWay directory place ∨
      ∃ names, names ≠ [] ∧ place = before.placeOf directory ++ names := by
  obtain ⟨habs, names, last, hnames, hdots⟩ := h
  obtain ⟨hparent, hprefix⟩ := Path.parent?_eq_some hp
  obtain ⟨front, hfront, rfl⟩ := hway
  have hstart : before.startOf parent = before.startOf directory :=
    startOf_congr rfl (hparent.trans habs)
  rw [hnames, ← List.append_assoc, List.dropLast_concat] at hprefix
  have hway := hfront.trans hprefix
  rcases List.prefix_or_prefix_of_prefix hway (List.prefix_append _ _) with hle | ⟨more, rfl⟩
  · exact .inl ⟨front, hle, by rw [hstart]⟩
  · have hmore : more <+: names := (List.prefix_append_right_inj _).1 hway
    rw [hstart, List.foldl_append, ← placeOf,
      foldl_enter_append fun name hname => hdots name (hmore.subset hname)]
    rcases more with _ | ⟨name, more⟩
    · rw [List.append_nil]
      exact .inl ⟨namesOf directory, List.prefix_rfl, rfl⟩
    · exact .inr ⟨name :: more, List.cons_ne_nil _ _, rfl⟩

theorem confined_makeDirectories (h : Path.Beneath directory path) {parent : String}
    (hp : Path.parent? path = some parent) (fs : FileSystem) :
    Confined directory fs (fs.makeDirectories parent).1 := by
  have hadds := addsDirectories_makeDirectories fs parent
  refine ⟨hadds.home_eq, fun place => ?_⟩
  rcases hadds.entry place with he | ⟨hnone, hdir, hway⟩
  · exact .inl he
  · rcases onWay_of_beneath h hp hway with hway | hbelow
    · exact .inr (.inr ⟨hnone, hdir, hway⟩)
    · exact .inr (.inl hbelow)

theorem confined_write (h : Path.Beneath directory path)
    (hw : before.write path text = .ok after) : Confined directory before after := by
  obtain ⟨habs, names, last, hnames, hdots⟩ := h
  obtain ⟨parent, name, hparent, -, -, rfl⟩ := exists_locateParent_of_write hw
  obtain ⟨checked, hchecked, hlast, -, -, hhere, hup, -⟩ := locateParent_eq_ok hparent
  obtain rfl : last = name := by
    rw [eq_of_checkedNames hchecked, hnames, ← List.append_assoc, List.getLast?_concat] at hlast
    exact Option.some.inj hlast
  have hall : ∀ name ∈ names ++ [last], name ≠ ['.'] ∧ name ≠ ['.', '.'] := by
    rintro name hname
    rcases List.mem_append.1 hname with hname | hname
    · exact hdots name hname
    · rw [List.mem_singleton.1 hname]
      exact ⟨hhere, hup⟩
  have hplace : before.placeOf path = before.placeOf directory ++ (names ++ [last]) := by
    rw [placeOf, hnames, List.foldl_append, startOf_congr rfl habs, ← placeOf,
      foldl_enter_append hall]
  rw [← placeOf_of_locateParent hparent]
  refine ⟨rfl, fun place => ?_⟩
  by_cases hne : place = before.placeOf path
  · exact .inr (.inl ⟨names ++ [last], by simp, hne.trans hplace⟩)
  · exact .inl (entryAt?_set_of_ne hne _)

end FileSystem

/-- However the run ends, outside the directory the files are as they were. -/
def Run.StaysIn {α : Type} (directory : String) (x : Run α) : Prop :=
  ∀ w, FileSystem.Confined directory w.files (endOf (x w)).files

namespace Run

variable {α β : Type} {directory path text : String} {x : Run α} {f : α → Run β}

theorem staysIn_of_files (h : ∀ w, (endOf (x w)).files = w.files) : StaysIn directory x := fun w =>
  h w ▸ .refl directory w.files

theorem StaysIn.bind (hx : StaysIn directory x) (hf : ∀ a, StaysIn directory (f a)) :
    StaysIn directory (x >>= f) := by
  intro w
  rcases endOf_bind (x := x) (f := f) w with he | ⟨a, he⟩
  · rw [he]
    exact hx w
  · rw [he]
    exact (hx w).trans (hf a _)

theorem staysIn_pure (a : α) : StaysIn directory (pure a) :=
  staysIn_of_files fun _ => rfl

theorem staysIn_report (events : List Log.Event) : StaysIn directory (report events) :=
  staysIn_of_files fun _ => rfl

theorem staysIn_ofExcept (e : Except Failure α) : StaysIn directory (ofExcept e) :=
  staysIn_of_files fun _ => by cases e <;> rfl

theorem staysIn_foldlM {γ : Type} {step : β → γ → Run β} {cs : List γ}
    (h : ∀ c ∈ cs, ∀ b, StaysIn directory (step b c)) (b : β) :
    StaysIn directory (cs.foldlM step b) := by
  induction cs generalizing b with
  | nil => exact staysIn_pure b
  | cons c cs ih =>
    obtain ⟨hc, hcs⟩ := List.forall_mem_cons.1 h
    rw [List.foldlM_cons]
    exact (hc b).bind fun b => ih hcs b

theorem files_makeDirectories (path : String) (w : World) :
    (endOf (makeDirectories path w)).files = (w.files.makeDirectories path).1 := by
  rw [makeDirectories, endOf_bind_of_ok (get_eq_ok w)]
  rcases w.files.makeDirectories path with ⟨files, _ | fault⟩
  · rfl
  · rfl

theorem files_write (path text : String) (w : World) :
    (endOf (write path text w)).files = (w.files.write path text).toOption.getD w.files := by
  rw [write, endOf_bind_of_ok (get_eq_ok w)]
  rcases w.files.write path text with fault | files
  · rfl
  · rfl

theorem staysIn_write (h : Path.Beneath directory path) : StaysIn directory (write path text) := by
  intro w
  rw [files_write]
  rcases hw : w.files.write path text with fault | files
  · exact .refl directory w.files
  · exact FileSystem.confined_write h hw

/-- Writing a companion stays in the directory, also where only a part of it can be done. -/
theorem staysIn_writeCompanion (h : Path.Beneath directory path) :
    StaysIn directory (writeCompanion path text) := by
  unfold writeCompanion
  rcases hp : Path.parent? path with _ | parent
  · exact (staysIn_pure ()).bind fun _ => staysIn_write h
  · have hdirectories : StaysIn directory (makeDirectories parent) := fun w => by
      rw [files_makeDirectories]
      exact FileSystem.confined_makeDirectories h hp w.files
    exact hdirectories.bind fun _ => staysIn_write h

end Run

variable {render : Renderer} {s : Settings} {model : Model} {r : Report} {d : Declaration} {j : Job}

/-- A job is for the declaration it is planned for and makes its companion, which has a name. -/
theorem eq_of_job_plan {index : NameIndex model} (h : (plan s d index).1.job = some j) :
    j.declaration = d ∧ j.className = d.companionName ∧ d.companionName ≠ "" := by
  unfold plan at h
  split at h
  · simp at h
  · simp at h
  · unfold planClassified at h
    rw [superclassName?_eq] at h
    by_cases hname : d.companionName = ""
    · simp [hname] at h
    · simp only [if_neg hname, Option.some.injEq] at h
      subst h
      exact ⟨rfl, rfl, hname⟩

theorem eq_of_job_directPlan (h : (directPlan model s d).job = some j) :
    j.declaration = d ∧ j.className = d.companionName ∧ d.companionName ≠ "" := by
  rw [← (plan_spec s d NameIndex.remembers_empty).1] at h
  exact eq_of_job_plan h

theorem staysIn_generateJob (h : Path.Beneath s.outputDir (j.path s)) :
    Run.StaysIn s.outputDir (generateJob render s j r) := by
  unfold generateJob
  refine (Run.staysIn_ofExcept _).bind fun text => ?_
  refine (Run.staysIn_report _).bind fun _ => ?_
  by_cases hdry : s.dryRun
  · rw [if_pos hdry]
    exact (Run.staysIn_pure ()).bind fun _ =>
      (Run.staysIn_report _).bind fun _ => Run.staysIn_pure _
  · rw [if_neg hdry]
    exact (Run.staysIn_writeCompanion h).bind fun _ =>
      (Run.staysIn_report _).bind fun _ => Run.staysIn_pure _

/-- A run whose companions all have paths beneath the output directory stays in it. -/
theorem staysIn_generate
    (h : ∀ d ∈ model.declarations, ∀ j, (directPlan model s d).job = some j →
      Path.Beneath s.outputDir (j.path s)) :
    Run.StaysIn s.outputDir (generate render s model) := by
  have hplan : ∀ p ∈ model.declarations.map (directPlan model s), ∀ r,
      Run.StaysIn s.outputDir (runPlan render s r p) := by
    intro p hp r
    obtain ⟨d, hd, rfl⟩ := List.mem_map.1 hp
    refine (Run.staysIn_report _).bind fun _ => ?_
    rcases hj : (directPlan model s d).job with _ | j
    · exact Run.staysIn_pure _
    · exact staysIn_generateJob (h d hd j hj)
  rw [generate_eq_foldlM]
  exact (Run.staysIn_foldlM hplan _).bind fun r =>
    (Run.staysIn_report _).bind fun _ => Run.staysIn_pure r

end Companion
