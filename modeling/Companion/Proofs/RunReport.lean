import Companion.Generation
import Companion.Proofs.PlanHistory
import Companion.Proofs.RunSteps
import Mathlib.Data.List.Forall2
import Mathlib.Data.List.Nodup

/-!
# What a run reports

A run that succeeds enters the direct plans of the declarations into its report, one after the other,
and writes the companions of their jobs (`generateAll_eq_ok`). So its report accounts for every
declaration: one that is planned for has one entry, one that is tagged and not planned for has one
error, and the diagnostics on a declaration are all in one place (`generate_accounts`).
-/

namespace Companion

/-- The entry of a job in the report of a run. -/
def Job.file (j : Job) (s : Settings) : GeneratedFile :=
  ⟨j.path s, j.declaration.qualifiedName, j.variant⟩

@[simp]
theorem Job.path_file (j : Job) (s : Settings) : (j.file s).path = j.path s :=
  rfl

/-- The warning on a plan whose companion takes the place of an earlier one. -/
def Report.overwrites (r : Report) (s : Settings) (p : Plan) : List Diagnostic :=
  (p.job.bind fun j => r.overwrite? j (j.path s)).toList

/-- The report after a plan. -/
def Report.enter (s : Settings) (r : Report) (p : Plan) : Report :=
  { r with
    generated := r.generated ++ (p.job.map (Job.file · s)).toList
    diagnostics := r.diagnostics ++ (p.diagnostics ++ r.overwrites s p) }

/-- Writing a companion takes the files from `before` to `after`: the directory of its path is made,
if the path has one, and then the file. -/
def Writes (path text : String) (before after : FileSystem) : Prop :=
  ∃ made, (Path.parent? path = none → made = before) ∧
    (∀ parent, Path.parent? path = some parent → before.makeDirectories parent = (made, none)) ∧
    made.write path text = .ok after

/-- Writing companions, given by their paths and texts, takes the files from one state to another. -/
def WritesAll : List (String × String) → FileSystem → FileSystem → Prop
  | [], before, after => after = before
  | c :: cs, before, after => ∃ next, Writes c.1 c.2 before next ∧ WritesAll cs next after

/-- A run with these jobs and their texts takes the files from one state to another: nothing is
written if it is dry. -/
def Leaves (s : Settings) (companions : List (Job × String)) (before after : FileSystem) : Prop :=
  if s.dryRun then after = before
  else WritesAll (companions.map fun c => (c.1.path s, c.2)) before after

variable {render : Renderer} {s : Settings} {model : Model} {r r' : Report} {w w' : World}

theorem leaves_cons {j : Job} {text : String} {companions : List (Job × String)}
    {before next after : FileSystem}
    (h : if s.dryRun then next = before else Writes (j.path s) text before next)
    (hs : Leaves s companions next after) : Leaves s ((j, text) :: companions) before after := by
  unfold Leaves at hs ⊢
  by_cases hd : s.dryRun
  · simp only [hd, if_true] at h hs ⊢
    rw [hs, h]
  · simp only [hd] at h hs ⊢
    exact ⟨next, h, hs⟩

theorem files_of_report {events : List Log.Event} {u : Unit}
    (h : Run.report events w = .ok u w') : w'.files = w.files := by
  rw [report_eq_ok, EStateM.Result.ok.injEq] at h
  rw [← h.2]

theorem makeDirectories_eq_ok {path : String} {u : Unit}
    (h : Run.makeDirectories path w = .ok u w') :
    w.files.makeDirectories path = (w'.files, none) := by
  obtain ⟨w₁, _, hget, h⟩ := bind_eq_ok.1 h
  obtain ⟨rfl, rfl⟩ : w = w₁ ∧ w = _ := by simpa [get_eq_ok] using hget
  rcases hm : w.files.makeDirectories path with ⟨files, _ | fault⟩
  · simp only [hm] at h
    obtain ⟨_, _, hmod, h⟩ := bind_eq_ok.1 h
    rw [modify_eq_ok, EStateM.Result.ok.injEq] at hmod
    rw [← (pure_eq_ok.1 h).2, ← hmod.2]
  · simp only [hm] at h
    obtain ⟨_, _, -, h⟩ := bind_eq_ok.1 h
    simp [throw_eq] at h

theorem write_eq_ok {path text : String} {u : Unit} (h : Run.write path text w = .ok u w') :
    w.files.write path text = .ok w'.files := by
  obtain ⟨w₁, _, hget, h⟩ := bind_eq_ok.1 h
  obtain ⟨rfl, rfl⟩ : w = w₁ ∧ w = _ := by simpa [get_eq_ok] using hget
  rcases hw : w.files.write path text with fault | files
  · simp [hw, throw_eq] at h
  · simp only [hw, modify_eq_ok, EStateM.Result.ok.injEq] at h
    rw [← h.2]

theorem writes_of_writeCompanion {path text : String} {u : Unit}
    (h : writeCompanion path text w = .ok u w') : Writes path text w.files w'.files := by
  unfold writeCompanion at h
  rcases hp : Path.parent? path with _ | parent
  · rw [hp] at h
    exact ⟨w.files, fun _ => rfl, by simp [hp], write_eq_ok h⟩
  · rw [hp] at h
    obtain ⟨_, w₁, hm, h⟩ := bind_eq_ok.1 h
    exact ⟨w₁.files, by simp [hp], by simpa [hp] using makeDirectories_eq_ok hm, write_eq_ok h⟩

/-- What a job does to the report and to the files. -/
theorem generateJob_eq_ok {j : Job} (h : generateJob render s j r w = .ok r' w') :
    ∃ text, render j.attributes = .ok text ∧
      r' = (r.note (r.overwrite? j (j.path s)).toList).add (j.file s) ∧
      if s.dryRun then w'.files = w.files else Writes (j.path s) text w.files w'.files := by
  obtain ⟨text, w₁, htext, h⟩ := bind_eq_ok.1 h
  obtain ⟨htext, hw₁⟩ := ofExcept_eq_ok.1 htext
  obtain ⟨_, w₂, hnote, h⟩ := bind_eq_ok.1 h
  have hfiles : w₂.files = w.files := by rw [files_of_report hnote, hw₁]
  refine ⟨text, htext, ?_⟩
  by_cases hd : s.dryRun
  · simp only [hd, if_true] at h ⊢
    obtain ⟨_, w₄, hevent, h⟩ := bind_eq_ok.1 h
    obtain ⟨rfl, rfl⟩ := pure_eq_ok.1 h
    exact ⟨rfl, by rw [files_of_report hevent, hfiles]⟩
  · simp only [hd] at h ⊢
    obtain ⟨_, w₃, hwrite, h⟩ := bind_eq_ok.1 h
    obtain ⟨_, w₄, hevent, h⟩ := bind_eq_ok.1 h
    obtain ⟨rfl, rfl⟩ := pure_eq_ok.1 h
    have hwrites := writes_of_writeCompanion hwrite
    rw [hfiles, ← files_of_report hevent] at hwrites
    exact ⟨rfl, hwrites⟩

theorem enter_of_job_eq_none {p : Plan} (h : p.job = none) : r.enter s p = r.note p.diagnostics := by
  simp [Report.enter, Report.note, Report.overwrites, h]

theorem enter_of_job_eq_some {p : Plan} {j : Job} (h : p.job = some j) :
    r.enter s p = ((r.note p.diagnostics).note
      ((r.note p.diagnostics).overwrite? j (j.path s)).toList).add (j.file s) := by
  simp [Report.enter, Report.note, Report.add, Report.overwrites, Report.overwrite?,
    Report.previous?, h, List.append_assoc]

/-- A run enters the direct plans into its report, and writes the companions of their jobs with the
texts that they are rendered to. -/
theorem generateAll_eq_ok {ds : List Declaration} {index : NameIndex model} {asked : List String}
    (hi : index.Remembers asked) (h : generateAll render s ds index r w = .ok r' w') :
    r' = (ds.map (directPlan model s)).foldl (Report.enter s) r ∧
      ∃ companions : List (Job × String),
        companions.map Prod.fst = (ds.map (directPlan model s)).filterMap Plan.job ∧
        (∀ c ∈ companions, render c.1.attributes = .ok c.2) ∧
        Leaves s companions w.files w'.files := by
  induction ds generalizing index asked r w with
  | nil =>
    obtain ⟨rfl, rfl⟩ := pure_eq_ok.1 h
    exact ⟨rfl, [], rfl, by simp, by simp [Leaves, WritesAll]⟩
  | cons d ds ih =>
    obtain ⟨hplan, hindex⟩ := plan_spec s d hi
    unfold generateAll at h
    rcases hp : plan s d index with ⟨p, index'⟩
    rw [hp] at h hplan hindex
    simp only at hplan hindex h
    obtain ⟨_, w₁, hevents, h⟩ := bind_eq_ok.1 h
    have hfiles : w₁.files = w.files := files_of_report hevents
    simp only [List.map_cons, List.foldl_cons, List.filterMap_cons, ← hplan]
    rcases hj : p.job with _ | j
    · simp only [hj, pure_bind] at h
      obtain ⟨hr, companions, hjobs, htexts, hleaves⟩ := ih hindex h
      rw [hfiles] at hleaves
      exact ⟨by rw [hr, enter_of_job_eq_none hj], companions, hjobs, htexts, hleaves⟩
    · simp only [hj] at h
      obtain ⟨r₁, w₂, hjob, h⟩ := bind_eq_ok.1 h
      obtain ⟨text, htext, hr₁, hwrite⟩ := generateJob_eq_ok hjob
      obtain ⟨hr, companions, hjobs, htexts, hleaves⟩ := ih hindex h
      rw [hfiles] at hwrite
      refine ⟨by rw [hr, hr₁, enter_of_job_eq_some hj], (j, text) :: companions, ?_, ?_, ?_⟩
      · rw [List.map_cons, hjobs]
      · rw [List.forall_mem_cons]
        exact ⟨htext, htexts⟩
      · exact leaves_cons hwrite hleaves

/-- What a run that succeeds reports and leaves. -/
theorem generate_eq_ok (h : generate render s model w = .ok r w') :
    r = (model.declarations.map (directPlan model s)).foldl (Report.enter s) (.start s) ∧
      ∃ companions : List (Job × String),
        companions.map Prod.fst =
          (model.declarations.map (directPlan model s)).filterMap Plan.job ∧
        (∀ c ∈ companions, render c.1.attributes = .ok c.2) ∧
        Leaves s companions w.files w'.files := by
  obtain ⟨r₁, w₁, hall, h⟩ := bind_eq_ok.1 h
  obtain ⟨_, w₂, hevent, h⟩ := bind_eq_ok.1 h
  obtain ⟨rfl, rfl⟩ := pure_eq_ok.1 h
  rw [files_of_report hevent]
  exact generateAll_eq_ok NameIndex.remembers_empty hall

def Declaration.file? (s : Settings) (d : Declaration) : Option GeneratedFile :=
  (plannedVariant? s d).map fun variant =>
    ⟨s.outputPath d.package d.companionName, d.qualifiedName, variant⟩

/-- The declaration is tagged for a variant, but nothing is planned for it. -/
def Declaration.Skipped (s : Settings) (d : Declaration) : Prop :=
  d.carriedVariants ≠ [] ∧ plannedVariant? s d = none

instance (s : Settings) (d : Declaration) : Decidable (d.Skipped s) :=
  inferInstanceAs (Decidable (_ ∧ _))

/-- These can be the diagnostics of a run on one declaration: they name it, there is one error among
them exactly if it is skipped, and there are none if it is not tagged. -/
structure Accounts (s : Settings) (d : Declaration) (diagnostics : List Diagnostic) : Prop where
  declaration_eq : ∀ x ∈ diagnostics, x.declaration = d.qualifiedName
  errors : (diagnostics.filter (·.severity = .error)).length = if d.Skipped s then 1 else 0
  untagged : d.carriedVariants = [] → diagnostics = []

theorem job_file?_directPlan (d : Declaration) :
    (directPlan model s d).job.map (Job.file · s) = d.file? s := by
  simp only [directPlan, Declaration.file?, Option.map_map]
  rfl

theorem eq_of_mem_partnerNotes {naming : Naming} {v : Variant} {d : Declaration} {x : Diagnostic}
    (h : .diagnostic x ∈ partnerNotes model naming v d) :
    x = ⟨v, d.qualifiedName, .unconventionalName (naming.subject d) naming.pattern⟩ := by
  unfold partnerNotes at h
  split_ifs at h
  · simp at h
  · split at h
    · simpa using h
    · split_ifs at h <;> simp at h

/-- The diagnostics of a direct plan: those on the tags and the superclass, and if something is
planned, those on a name outside the convention. -/
theorem exists_diagnostics_directPlan (model : Model) (s : Settings) (d : Declaration) :
    ∃ notes, (directPlan model s d).diagnostics = taggingDiagnostics s d ++ notes ∧
      (∀ x ∈ notes, ∃ v, x =
        ⟨v, d.qualifiedName, .unconventionalName (s.naming.subject d) s.naming.pattern⟩) ∧
      (plannedVariant? s d = none → notes = []) := by
  have hmap (xs : List Diagnostic) :
      (xs.map Note.diagnostic).filterMap Note.diagnostic? = xs := by
    rw [List.filterMap_map]
    exact List.filterMap_some
  simp only [Plan.diagnostics, directPlan, List.filterMap_append, hmap]
  rcases plannedVariant? s d with _ | v
  · exact ⟨[], rfl, by simp, fun _ => rfl⟩
  · refine ⟨_, rfl, fun x hx => ?_, by simp⟩
    obtain ⟨note, hnote, hx⟩ := List.mem_filterMap.1 hx
    obtain rfl : note = .diagnostic x := by
      cases note <;> simp_all [Note.diagnostic?]
    exact ⟨v, eq_of_mem_partnerNotes hnote⟩

theorem overwrites_warn {d : Declaration} {x : Diagnostic}
    (h : x ∈ r.overwrites s (directPlan model s d)) :
    x.declaration = d.qualifiedName ∧ x.severity = .warning := by
  simp only [Report.overwrites, Option.mem_toList, Option.bind_eq_some_iff, directPlan,
    Option.map_eq_some_iff, Report.overwrite?] at h
  obtain ⟨j, ⟨v, -, rfl⟩, previous, -, rfl⟩ := h
  exact ⟨rfl, rfl⟩

/-- The entries of the jobs of the direct plans are those of the declarations. -/
theorem map_file_of_jobs {ds : List Declaration} {companions : List (Job × String)}
    (h : companions.map Prod.fst = (ds.map (directPlan model s)).filterMap Plan.job) :
    companions.map (fun c => c.1.file s) = ds.filterMap (Declaration.file? s) := by
  have hmap : companions.map (fun c => c.1.file s) =
      (companions.map Prod.fst).map (Job.file · s) := by
    rw [List.map_map]
    rfl
  rw [hmap, h, List.filterMap_map, List.map_filterMap]
  exact List.filterMap_congr fun d _ => job_file?_directPlan d

/-- What a declaration adds to the diagnostics: those on its tags and its superclass, and warnings if
it is planned for. -/
theorem exists_warnings (model : Model) (s : Settings) (r : Report) (d : Declaration) : ∃ warnings,
    (directPlan model s d).diagnostics ++ r.overwrites s (directPlan model s d) =
        taggingDiagnostics s d ++ warnings ∧
      (∀ x ∈ warnings, x.declaration = d.qualifiedName ∧ x.severity = .warning) ∧
      (plannedVariant? s d = none → warnings = []) := by
  obtain ⟨notes, he, hnotes, hnil⟩ := exists_diagnostics_directPlan model s d
  refine ⟨_, by rw [he, List.append_assoc], fun x hx => ?_, fun hn => ?_⟩
  · rcases List.mem_append.1 hx with hx | hx
    · obtain ⟨v, rfl⟩ := hnotes x hx
      exact ⟨rfl, rfl⟩
    · exact overwrites_warn hx
  · simp [hn, hnil hn, Report.overwrites, directPlan]

theorem declaration_eq_of_mem_taggingDiagnostics (d : Declaration) :
    ∀ x ∈ taggingDiagnostics s d, x.declaration = d.qualifiedName := by
  unfold taggingDiagnostics
  split
  · simp
  · split_ifs <;> simp

theorem errors_taggingDiagnostics (d : Declaration) :
    ((taggingDiagnostics s d).filter (·.severity = .error)).length =
      if d.Skipped s then 1 else 0 := by
  rcases hc : d.carriedVariants with _ | ⟨v, others⟩
  · simp [taggingDiagnostics, Declaration.Skipped, hc]
  · by_cases hr : others ≠ [] ∧ s.policy = .reject
    · simp [taggingDiagnostics, Declaration.Skipped, plannedVariant?, hc, hr, Diagnostic.severity,
        Diagnostic.Cause.severity]
    · simp only [taggingDiagnostics, Declaration.Skipped, plannedVariant?, hc, if_neg hr]
      split_ifs <;> simp_all [Diagnostic.severity, Diagnostic.Cause.severity]

theorem accounts_enter (d : Declaration) :
    Accounts s d
      ((directPlan model s d).diagnostics ++ r.overwrites s (directPlan model s d)) := by
  obtain ⟨warnings, he, hw, hn⟩ := exists_warnings model s r d
  rw [he]
  refine ⟨fun x hx => ?_, ?_, fun hc => ?_⟩
  · rcases List.mem_append.1 hx with hx | hx
    · exact declaration_eq_of_mem_taggingDiagnostics d x hx
    · exact (hw x hx).1
  · have hnone : warnings.filter (·.severity = .error) = [] := by
      simp only [List.filter_eq_nil_iff, decide_eq_true_eq]
      exact fun x hx => by simp [(hw x hx).2]
    rw [List.filter_append, hnone, List.append_nil, errors_taggingDiagnostics]
  · simp [taggingDiagnostics, hc, hn (by simp [plannedVariant?, hc])]

/-- The report after declarations: the entries of those that are planned for, and the diagnostics on
each, in order. -/
theorem foldl_enter (model : Model) (s : Settings) (ds : List Declaration) (r : Report) :
    let r' := (ds.map (directPlan model s)).foldl (Report.enter s) r
    r'.generated = r.generated ++ ds.filterMap (Declaration.file? s) ∧
      ∃ groups, r'.diagnostics = r.diagnostics ++ groups.flatten ∧
        List.Forall₂ (Accounts s) ds groups := by
  induction ds generalizing r with
  | nil => exact ⟨by simp, [], by simp, .nil⟩
  | cons d ds ih =>
    obtain ⟨hgenerated, groups, hgroups, haccounts⟩ := ih (r.enter s (directPlan model s d))
    refine ⟨?_, ((directPlan model s d).diagnostics ++ r.overwrites s (directPlan model s d)) ::
      groups, ?_, .cons (accounts_enter d) haccounts⟩
    · rw [List.map_cons, List.foldl_cons, hgenerated, Report.enter, job_file?_directPlan]
      rcases hf : d.file? s with _ | file <;> simp [hf]
    · rw [List.map_cons, List.foldl_cons, hgroups, Report.enter]
      simp

/-- The errors among the diagnostics on declarations name those that are skipped. -/
theorem errors_flatten {ds : List Declaration} {groups : List (List Diagnostic)}
    (h : List.Forall₂ (Accounts s) ds groups) :
    (groups.flatten.filter (·.severity = .error)).map Diagnostic.declaration =
      (ds.filter (·.Skipped s)).map Declaration.qualifiedName := by
  induction h with
  | nil => rfl
  | @cons d group ds groups hd _ ih =>
    have herrors := hd.errors
    rw [List.flatten_cons, List.filter_append, List.map_append, ih]
    by_cases hs : d.Skipped s
    · rw [if_pos hs, List.length_eq_one_iff] at herrors
      obtain ⟨x, hx⟩ := herrors
      have hmem : x ∈ group := List.mem_of_mem_filter (hx ▸ List.mem_singleton_self x)
      rw [hx, List.filter_cons_of_pos (by simpa using hs)]
      simp [hd.declaration_eq x hmem]
    · rw [if_neg hs, List.length_eq_zero_iff] at herrors
      rw [herrors, List.filter_cons_of_neg (by simpa using hs)]
      rfl

/-- A declaration is not tagged, is skipped, or has an entry. -/
theorem file?_cases (s : Settings) (d : Declaration) :
    (d.carriedVariants = [] ∧ d.file? s = none ∧ ¬ d.Skipped s) ∨
      (d.carriedVariants ≠ [] ∧ d.file? s = none ∧ d.Skipped s) ∨
      d.carriedVariants ≠ [] ∧ (∃ file, d.file? s = some file ∧
        file.declaration = d.qualifiedName) ∧ ¬ d.Skipped s := by
  rcases hp : plannedVariant? s d with _ | v
  · by_cases hc : d.carriedVariants = []
    · exact .inl ⟨hc, by simp [Declaration.file?, hp], fun h => h.1 hc⟩
    · exact .inr (.inl ⟨hc, by simp [Declaration.file?, hp], hc, hp⟩)
  · have hc : d.carriedVariants ≠ [] := fun hc => by simp [plannedVariant?, hc] at hp
    refine .inr (.inr ⟨hc, ⟨⟨s.outputPath d.package d.companionName, d.qualifiedName, v⟩, ?_, rfl⟩,
      fun h => ?_⟩)
    · rw [Declaration.file?, hp, Option.map_some]
    · simp [h.2] at hp

theorem length_file?_add_length_skipped (ds : List Declaration) :
    (ds.filterMap (Declaration.file? s)).length + (ds.filter (·.Skipped s)).length =
      (ds.filter (·.carriedVariants ≠ [])).length := by
  induction ds with
  | nil => rfl
  | cons d ds ih =>
    rcases file?_cases s d with ⟨hc, hf, hs⟩ | ⟨hc, hf, hs⟩ | ⟨hc, ⟨file, hf, -⟩, hs⟩
    · rw [List.filterMap_cons_none hf, List.filter_cons_of_neg (by simpa using hs),
        List.filter_cons_of_neg (by simpa using hc), ih]
    · rw [List.filterMap_cons_none hf, List.filter_cons_of_pos (by simpa using hs),
        List.filter_cons_of_pos (by simpa using hc), List.length_cons, List.length_cons, ← ih]
      omega
    · rw [List.filterMap_cons_some hf, List.filter_cons_of_neg (by simpa using hs),
        List.filter_cons_of_pos (by simpa using hc), List.length_cons, List.length_cons, ← ih]
      omega

/-- No declaration has an entry and an error. -/
theorem declaration_ne_of_skipped {file : GeneratedFile} {name : String}
    (hf : file ∈ model.declarations.filterMap (Declaration.file? s))
    (hn : name ∈ (model.declarations.filter (·.Skipped s)).map Declaration.qualifiedName) :
    file.declaration ≠ name := by
  rintro rfl
  obtain ⟨d, hd, hf⟩ := List.mem_filterMap.1 hf
  obtain ⟨e, he, hn⟩ := List.mem_map.1 hn
  rw [List.mem_filter, decide_eq_true_eq] at he
  rcases file?_cases s d with ⟨-, hd', -⟩ | ⟨-, hd', -⟩ | ⟨-, ⟨file', hf', hq⟩, hs⟩
  · simp [hf] at hd'
  · simp [hf] at hd'
  · obtain rfl : file' = file := Option.some.inj (hf'.symm.trans hf)
    rw [hq] at hn
    obtain rfl : e = d := List.inj_on_of_nodup_map model.nodup he.1 hd hn
    exact hs he.2

/-- A run that succeeds accounts for every declaration: those that are planned for have one entry
each, those that are tagged besides have one error each, and both are in the order of the model, as
are the diagnostics on each declaration. Only what is entered is written. -/
theorem generate_accounts (h : generate render s model w = .ok r w') :
    r.generated = model.declarations.filterMap (Declaration.file? s) ∧
      r.skipped.map Diagnostic.declaration =
        (model.declarations.filter (·.Skipped s)).map Declaration.qualifiedName ∧
      (∃ groups, r.diagnostics = groups.flatten ∧
        List.Forall₂ (Accounts s) model.declarations groups) ∧
      (∃ texts, texts.length = r.generated.length ∧
        if s.dryRun then w'.files = w.files
        else WritesAll ((r.generated.map GeneratedFile.path).zip texts) w.files w'.files) ∧
      r.generated.length + r.skipped.length =
        (model.declarations.filter (·.carriedVariants ≠ [])).length ∧
      ∀ file ∈ r.generated, ∀ x ∈ r.skipped, file.declaration ≠ x.declaration := by
  obtain ⟨hr, companions, hjobs, -, hleaves⟩ := generate_eq_ok h
  obtain ⟨hgenerated, groups, hgroups, haccounts⟩ :=
    foldl_enter model s model.declarations (.start s)
  rw [← hr] at hgenerated hgroups
  simp only [Report.start, List.nil_append] at hgenerated hgroups
  have hskipped : r.skipped.map Diagnostic.declaration =
      (model.declarations.filter (·.Skipped s)).map Declaration.qualifiedName := by
    rw [Report.skipped, hgroups, errors_flatten haccounts]
  have hfiles := hgenerated.trans (map_file_of_jobs hjobs).symm
  refine ⟨hgenerated, hskipped, ⟨groups, hgroups, haccounts⟩, ⟨companions.map Prod.snd, ?_, ?_⟩,
    ?_, fun file hf x hx => ?_⟩
  · rw [hfiles, List.length_map, List.length_map]
  · have hzip : (r.generated.map GeneratedFile.path).zip (companions.map Prod.snd) =
        companions.map fun c => (c.1.path s, c.2) := by
      rw [hfiles, List.map_map, List.zip_map']
      rfl
    rw [hzip]
    exact hleaves
  · have hlength : r.skipped.length = (model.declarations.filter (·.Skipped s)).length := by
      simpa using congrArg List.length hskipped
    rw [hgenerated, hlength, length_file?_add_length_skipped]
  · exact declaration_ne_of_skipped (hgenerated ▸ hf) (hskipped ▸ List.mem_map_of_mem hx)

/-- Of three declarations one has a companion, one is skipped and one is not tagged. -/
theorem generate_accounts_three :
    let event : Tag := ⟨"event", "", [], List.nodup_nil⟩
    let model := Model.ofList
      [⟨"p", "AEvent", some ⟨"A", true⟩, [], [event], [], none⟩,
        ⟨"p", "BEvent", none, [], [event], [], none⟩, ⟨"p", "C", none, [], [], [], none⟩]
    let s : Settings := ⟨"out", "java", .default, .reject, false⟩
    let w : World := ⟨⟨[], []⟩, []⟩
    ∃ r w', generate (fun _ => .ok "class A {}") s model w = .ok r w' ∧
      r.generated = [⟨"out/p/A.java", "p.AEvent", .event⟩] ∧
      r.skipped.map Diagnostic.declaration = ["p.BEvent"] := by
  intro event model s w
  obtain ⟨r, w', h⟩ : ∃ r w', generate (fun _ => .ok "class A {}") s model w = .ok r w' :=
    exists_eq_ok_of_isSome (by decide +kernel)
  have haccounts := generate_accounts h
  exact ⟨r, w', h, haccounts.1.trans (by decide +kernel),
    haccounts.2.1.trans (by decide +kernel)⟩

end Companion
