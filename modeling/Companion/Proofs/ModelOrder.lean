import Companion.Proofs.Bystanders
import Companion.Proofs.Overwrites

/-!
# The order of a model

Declarations of distinct simple names are found wherever they stand (`firstNamed?_perm`), so their
plans do not depend on the order of the model (`directPlan_perm`). Companions of distinct places
leave the same files in whatever order they are written (`FileSystem.entryAt?_perm`). So two runs
over one model in two orders do the same and report it each in its order, unless a companion takes
the place of another (`generate_perm`).
-/

namespace Companion

namespace FileSystem

variable {before after after' : FileSystem} {cs ds : List (String × String)} {place : Location}

/-- Writing companions adds directories on the way to them, and changes nothing else besides their
places. -/
theorem entryAt?_of_writesAll_of_ne (h : WritesAll cs before after)
    (hne : ∀ c ∈ cs, place ≠ before.placeOf c.1) :
    after.entryAt? place = before.entryAt? place ∨
      before.entryAt? place = none ∧ after.entryAt? place = some .directory ∧
        ∃ c ∈ cs, before.OnWay c.1 place := by
  induction cs generalizing before with
  | nil =>
    obtain rfl : after = before := h
    exact .inl rfl
  | cons c cs ih =>
    obtain ⟨next, hnext, h⟩ := h
    obtain ⟨hc, hcs⟩ := List.forall_mem_cons.1 hne
    obtain ⟨made, hadds, hwrite⟩ := exists_made_of_writes hnext
    have hhome : next.home = before.home := (written_of_writes hnext).grows.home_eq
    have hentry : next.entryAt? place = made.entryAt? place := by
      obtain ⟨-, rfl, -⟩ := write_eq_ok hwrite
      rw [placeOf_eq_of_home_eq hadds.home_eq, entryAt?_set_of_ne hc]
    rcases ih h fun d hd => by rw [placeOf_eq_of_home_eq hhome]; exact hcs d hd with
      he | ⟨hnone, hdir, d, hd, hway⟩
    · rw [he, hentry]
      exact (hadds.entry place).imp_right fun ⟨hnone, hdir, hway⟩ =>
        ⟨hnone, hdir, c, List.mem_cons_self, hway⟩
    · refine .inr ⟨?_, hdir, d, List.mem_cons_of_mem _ hd, (onWay_iff_of_home_eq hhome).1 hway⟩
      rcases hadds.entry place with he | ⟨-, hd, -⟩
      · rw [← he, ← hentry, hnone]
      · simp [hentry, hd] at hnone

theorem entryAt?_of_mem (hn : (cs.map fun c => before.placeOf c.1).Nodup)
    (h : WritesAll cs before after) {c : String × String} (hc : c ∈ cs) :
    after.entryAt? (before.placeOf c.1) = some (.text c.2) := by
  obtain ⟨earlier, later, rfl⟩ := List.append_of_mem hc
  refine entryAt?_of_writesAll h fun d hd hplace => ?_
  rw [List.map_append, List.map_cons] at hn
  have hlater := (List.nodup_cons.1 hn.of_append_right).1
  exact hlater (hplace ▸ List.mem_map_of_mem hd)

/-- Companions of distinct places leave the same files in whatever order they are written. -/
theorem entryAt?_perm (hp : cs.Perm ds) (hn : (cs.map fun c => before.placeOf c.1).Nodup)
    (h : WritesAll cs before after) (h' : WritesAll ds before after') (place : Location) :
    after.entryAt? place = after'.entryAt? place := by
  by_cases hplace : ∃ c ∈ cs, place = before.placeOf c.1
  · obtain ⟨c, hc, rfl⟩ := hplace
    have hn' : (ds.map fun c => before.placeOf c.1).Nodup := (hp.map _).nodup_iff.1 hn
    rw [entryAt?_of_mem hn h hc, entryAt?_of_mem hn' h' (hp.mem_iff.1 hc)]
  · push Not at hplace
    -- A directory that one order adds is on the way to a companion, and so the other adds it too.
    have key {cs ds : List (String × String)} {after' : FileSystem} (hp : cs.Perm ds)
        (hne : ∀ c ∈ cs, place ≠ before.placeOf c.1) (h' : WritesAll ds before after')
        {c : String × String} (hc : c ∈ cs) (hway : before.OnWay c.1 place) :
        after'.entryAt? place = some .directory := by
      have hhome := (frame_of_writesAll h').1.home_eq
      have hdir := isDirectoryAt_of_locate (locate_of_writesAll h' (hp.mem_iff.1 hc))
        ((onWay_iff_of_home_eq hhome).2 hway)
        (by rw [placeOf_eq_of_home_eq hhome]; exact hne c hc)
      simpa [isDirectoryAt] using hdir
    have hplace' : ∀ c ∈ ds, place ≠ before.placeOf c.1 := fun c hc =>
      hplace c (hp.mem_iff.2 hc)
    rcases entryAt?_of_writesAll_of_ne h hplace with he | ⟨-, hdir, c, hc, hway⟩
    · rcases entryAt?_of_writesAll_of_ne h' hplace' with he' | ⟨-, hdir', c, hc, hway⟩
      · rw [he, he']
      · rw [hdir', key hp.symm hplace' h hc hway]
    · rw [hdir, key hp hplace h' hc hway]

end FileSystem

variable {render : Renderer} {s : Settings} {model model' : Model} {r r' : Report} {w w' : World}

theorem firstNamed?_eq_some_iff (hn : (model.declarations.map Declaration.name).Nodup)
    {name : String} {d : Declaration} :
    model.firstNamed? name = some d ↔ d ∈ model.declarations ∧ d.name = name := by
  constructor
  · intro h
    exact ⟨List.mem_of_find?_eq_some h, by simpa using List.find?_some h⟩
  · rintro ⟨hd, rfl⟩
    rcases hf : model.firstNamed? d.name with _ | e
    · simpa using List.find?_eq_none.1 hf d hd
    · have he : e.name = d.name := by simpa using List.find?_some hf
      rw [List.inj_on_of_nodup_map hn (List.mem_of_find?_eq_some hf) hd he]

/-- Declarations of distinct names are found wherever they stand. -/
theorem firstNamed?_perm (hp : model.declarations.Perm model'.declarations)
    (hn : (model.declarations.map Declaration.name).Nodup) (name : String) :
    model.firstNamed? name = model'.firstNamed? name := by
  have hn' : (model'.declarations.map Declaration.name).Nodup := (hp.map _).nodup_iff.1 hn
  refine Option.ext fun d => ?_
  rw [firstNamed?_eq_some_iff hn, firstNamed?_eq_some_iff hn', hp.mem_iff]

theorem directPlan_perm (hp : model.declarations.Perm model'.declarations)
    (hn : (model.declarations.map Declaration.name).Nodup) (s : Settings) :
    directPlan model s = directPlan model' s :=
  funext fun _ => directPlan_congr fun name _ => firstNamed?_perm hp hn name

/-- The report enters the plans of the declarations in their order, and nothing besides. -/
structure Report.Enters (s : Settings) (f : Declaration → Plan) (ds : List Declaration)
    (r : Report) : Prop where
  sourceRoot : r.sourceRoot = s.outputDir
  dryRun : r.dryRun = s.dryRun
  generated : r.generated = ds.filterMap fun d => (f d).job.map (Job.file · s)
  diagnostics : r.diagnostics = ds.flatMap fun d => (f d).diagnostics

/-- A companion takes the place of none if none of those before it has its path. -/
theorem overwrites_eq_nil {p : Plan}
    (h : ∀ f ∈ (p.job.map (Job.file · s)).toList, ∀ g ∈ r.generated,
      g.components ≠ f.components) : r.overwrites s p = [] := by
  rcases hj : p.job with _ | j
  · simp [Report.overwrites, hj]
  · have hnone : (r.generated.reverse.find? fun g => Path.same g.path (j.file s).path) = none := by
      refine List.find?_eq_none.2 fun g hg => ?_
      rw [same_eq, beq_iff_eq]
      exact h _ (by simp [hj]) g (List.mem_reverse.1 hg)
    rw [overwrites_of_job_eq_some hj, hnone]
    rfl

/-- Where no companion takes the place of another the diagnostics are those of the plans. -/
theorem diagnostics_foldl_enter {ds : List Declaration}
    (hn : ((r.generated ++ ds.filterMap (Declaration.file? s)).map
      GeneratedFile.components).Nodup) :
    ((ds.map (directPlan model s)).foldl (Report.enter s) r).diagnostics =
      r.diagnostics ++ ds.flatMap fun d => (directPlan model s d).diagnostics := by
  induction ds generalizing r with
  | nil => simp
  | cons d ds ih =>
    have hfiles : (d :: ds).filterMap (Declaration.file? s) =
        (d.file? s).toList ++ ds.filterMap (Declaration.file? s) := by
      rcases hf : d.file? s with _ | f <;> simp [hf]
    have hnone : r.overwrites s (directPlan model s d) = [] := by
      refine overwrites_eq_nil fun f hf g hg hsame => ?_
      rw [job_file?_directPlan] at hf
      rw [hfiles, List.map_append] at hn
      refine List.disjoint_of_nodup_append hn (List.mem_map_of_mem hg) (hsame ▸ ?_)
      exact List.mem_map_of_mem (List.mem_append_left _ hf)
    rw [List.map_cons, List.foldl_cons, ih]
    · simp [Report.enter, hnone]
    · rwa [Report.enter, job_file?_directPlan, List.append_assoc, ← hfiles]

def jobsOf (f : Declaration → Plan) (ds : List Declaration) : List Job :=
  (ds.map f).filterMap Plan.job

theorem map_file_jobsOf (model : Model) (s : Settings) (ds : List Declaration) :
    (jobsOf (directPlan model s) ds).map (Job.file · s) = ds.filterMap (Declaration.file? s) := by
  rw [jobsOf, List.filterMap_map, List.map_filterMap]
  exact List.filterMap_congr fun d _ => job_file?_directPlan d

/-- Output paths that are others as texts have other components. -/
theorem nodup_components (hs : s.Slashless model)
    (hn : ((model.declarations.filterMap (Declaration.file? s)).map GeneratedFile.path).Nodup) :
    ((model.declarations.filterMap (Declaration.file? s)).map GeneratedFile.components).Nodup := by
  have hbelow : ∀ f ∈ model.declarations.filterMap (Declaration.file? s),
      Path.Below s.outputDir f.path := by
    intro f hf
    rw [← map_file_jobsOf model] at hf
    obtain ⟨j, hj, rfl⟩ := List.mem_map.1 hf
    exact below_path hs hj
  refine hn.of_map.map_on fun f hf g hg hsame => List.inj_on_of_nodup_map hn hf hg ?_
  exact Path.eq_of_same (hbelow f hf) (hbelow g hg) (by rw [same_eq, hsame, beq_self_eq_true])

def Job.companion (render : Renderer) (s : Settings) (j : Job) : String × String :=
  (j.path s, (render j.attributes).toOption.getD "")

theorem map_companion {companions : List (Job × String)}
    (h : ∀ c ∈ companions, render c.1.attributes = .ok c.2) :
    companions.map (fun c => (c.1.path s, c.2)) =
      (companions.map Prod.fst).map (Job.companion render s) := by
  rw [List.map_map]
  exact List.map_congr_left fun c hc => by simp [Job.companion, h c hc, Except.toOption]

def Job.withText (render : Renderer) (j : Job) : Job × String :=
  (j, (render j.attributes).toOption.getD "")

/-- Companions are their jobs with the texts that these are rendered to. -/
theorem eq_map_withText {companions : List (Job × String)}
    (h : ∀ c ∈ companions, render c.1.attributes = .ok c.2) :
    companions = (companions.map Prod.fst).map (Job.withText render) := by
  rw [List.map_map]
  refine (List.map_id companions).symm.trans (List.map_congr_left fun c hc => ?_)
  simp [Job.withText, h c hc, Except.toOption]

/-- What a run that succeeds leaves: the companions of its jobs are written in their order. -/
theorem leaves_of_generate (h : generate render s model w = .ok r w') :
    (∀ j ∈ jobsOf (directPlan model s) model.declarations,
      ∃ text, render j.attributes = .ok text ∧ j.companion render s = (j.path s, text)) ∧
    if s.dryRun then w'.files = w.files
    else WritesAll ((jobsOf (directPlan model s) model.declarations).map (Job.companion render s))
      w.files w'.files := by
  obtain ⟨-, companions, hjobs, htexts, hleaves⟩ := generate_eq_ok h
  refine ⟨fun j hj => ?_, ?_⟩
  · rw [jobsOf, ← hjobs] at hj
    obtain ⟨c, hc, rfl⟩ := List.mem_map.1 hj
    exact ⟨c.2, htexts c hc, by simp [Job.companion, htexts c hc, Except.toOption]⟩
  · rw [Leaves, map_companion htexts, hjobs] at hleaves
    exact hleaves

theorem sourceRoot_dryRun_foldl_enter (ps : List Plan) (r : Report) :
    (ps.foldl (Report.enter s) r).sourceRoot = r.sourceRoot ∧
      (ps.foldl (Report.enter s) r).dryRun = r.dryRun := by
  induction ps generalizing r with
  | nil => exact ⟨rfl, rfl⟩
  | cons p ps ih => exact ih (r.enter s p)

theorem generated_eq (h : generate render s model w = .ok r w') :
    r.generated = model.declarations.filterMap (Declaration.file? s) := by
  rw [(generate_eq_ok h).1, (foldl_enter model s model.declarations (.start s)).1]
  rfl

/-- A run whose companions have paths of their own reports the plans and nothing besides. -/
theorem enters_of_generate (h : generate render s model w = .ok r w') (hs : s.Slashless model)
    (hn : (r.generated.map GeneratedFile.path).Nodup) :
    r.Enters s (directPlan model s) model.declarations := by
  have hgenerated := generated_eq h
  rw [hgenerated] at hn
  obtain ⟨rfl, -⟩ := generate_eq_ok h
  obtain ⟨hroot, hdry⟩ := sourceRoot_dryRun_foldl_enter (s := s)
    (model.declarations.map (directPlan model s)) (.start s)
  refine ⟨hroot, hdry, ?_, ?_⟩
  · simp only [hgenerated, job_file?_directPlan]
  · exact diagnostics_foldl_enter (r := .start s) (nodup_components hs hn)

/-- The places of companions with paths of their own are others. -/
theorem nodup_places (hs : s.Slashless model)
    (hn : ((model.declarations.filterMap (Declaration.file? s)).map GeneratedFile.path).Nodup)
    (fs : FileSystem) :
    (((jobsOf (directPlan model s) model.declarations).map (Job.companion render s)).map fun c =>
      fs.placeOf c.1).Nodup := by
  rw [← map_file_jobsOf model, List.map_map] at hn
  rw [List.map_map]
  exact hn.of_map.map_on fun j hj k hk hplace => List.inj_on_of_nodup_map hn hj hk
    (fs.eq_of_placeOf_eq (below_path hs hj) (below_path hs hk) hplace)

/-- A run whose companions have paths of their own leaves each with its text. -/
theorem read_of_generate (h : generate render s model w = .ok r w') (hs : s.Slashless model)
    (hn : (r.generated.map GeneratedFile.path).Nodup) {j : Job}
    (hj : j ∈ jobsOf (directPlan model s) model.declarations) :
    ∃ text, render j.attributes = .ok text ∧
      (s.dryRun = false → w'.files.read (j.path s) = .ok text) := by
  obtain ⟨htexts, hleaves⟩ := leaves_of_generate h
  obtain ⟨text, htext, hcompanion⟩ := htexts j hj
  refine ⟨text, htext, fun hdry => ?_⟩
  rw [hdry, if_neg Bool.false_ne_true] at hleaves
  rw [generated_eq h] at hn
  have hc : (j.path s, text) ∈
      (jobsOf (directPlan model s) model.declarations).map (Job.companion render s) := by
    rw [← hcompanion]
    exact List.mem_map_of_mem hj
  have hlocate := FileSystem.locate_of_writesAll hleaves hc
  have hentry := FileSystem.entryAt?_of_mem (nodup_places hs hn w.files) hleaves hc
  exact FileSystem.read_of_locate hlocate hentry

/-- The order of a model whose declarations have distinct simple names does not matter for the
plans. If no two companions have one path, it does not matter for the files either, and the reports
of two runs that succeed differ in the order only. -/
theorem generate_perm (hp : model.declarations.Perm model'.declarations)
    (hn : (model.declarations.map Declaration.name).Nodup) (s : Settings) :
    ∃ f : Declaration → Plan,
      (∀ ds, (planAll s ds (NameIndex.empty : NameIndex model)).1 = ds.map f ∧
        (planAll s ds (NameIndex.empty : NameIndex model')).1 = ds.map f) ∧
      ∀ render w w' w₁ w₂ r r', generate render s model w = .ok r w₁ →
        generate render s model' w' = .ok r' w₂ → s.Slashless model →
        (r.generated.map GeneratedFile.path).Nodup →
          r.Enters s f model.declarations ∧ r'.Enters s f model'.declarations ∧
          (∀ j ∈ jobsOf f model.declarations, ∃ text, render j.attributes = .ok text ∧
            (s.dryRun = false →
              w₁.files.read (j.path s) = .ok text ∧ w₂.files.read (j.path s) = .ok text)) ∧
          (w.files = w'.files → ∀ place, w₁.files.entryAt? place = w₂.files.entryAt? place) := by
  have hplan : directPlan model' s = directPlan model s := (directPlan_perm hp hn s).symm
  refine ⟨directPlan model s, fun ds => ⟨(planAll_eq_directPlans model s ds).1, ?_⟩, ?_⟩
  · rw [(planAll_eq_directPlans model' s ds).1, hplan]
  intro render w w' w₁ w₂ r r' h h' hs hpaths
  have hs' : s.Slashless model' := ⟨hs.extension, fun d hd => hs.package d (hp.mem_iff.2 hd),
    fun d hd => hs.companionName d (hp.mem_iff.2 hd)⟩
  have hpaths' : (r'.generated.map GeneratedFile.path).Nodup := by
    rw [generated_eq h']
    rw [generated_eq h] at hpaths
    exact ((hp.filterMap _).map _).nodup_iff.1 hpaths
  have hjobs : (jobsOf (directPlan model s) model.declarations).Perm
      (jobsOf (directPlan model s) model'.declarations) := (hp.map _).filterMap _
  refine ⟨enters_of_generate h hs hpaths, hplan ▸ enters_of_generate h' hs' hpaths', ?_, ?_⟩
  · intro j hj
    obtain ⟨text, htext, hread⟩ := read_of_generate h hs hpaths hj
    obtain ⟨text', htext', hread'⟩ := read_of_generate h' hs' hpaths' (j := j)
      (hplan ▸ hjobs.mem_iff.1 hj)
    obtain rfl : text = text' := by simpa [htext] using htext'
    exact ⟨text, htext, fun hdry => ⟨hread hdry, hread' hdry⟩⟩
  · intro hfiles place
    obtain ⟨-, hleaves⟩ := leaves_of_generate h
    obtain ⟨-, hleaves'⟩ := leaves_of_generate h'
    rw [hplan, ← hfiles] at hleaves'
    by_cases hdry : s.dryRun
    · rw [if_pos hdry] at hleaves hleaves'
      rw [hleaves, hleaves']
    · rw [if_neg hdry] at hleaves hleaves'
      exact FileSystem.entryAt?_perm (hjobs.map _)
        (nodup_places hs (generated_eq h ▸ hpaths) w.files) hleaves hleaves' place

/-- A request, its response and an event in two orders. -/
theorem generate_perm_three :
    let tag (name : String) : Tag := ⟨name, "", [], List.nodup_nil⟩
    let request : Declaration :=
      ⟨"p", "FooRequest", some ⟨"A", true⟩, [], [tag "request"], [], none⟩
    let response : Declaration :=
      ⟨"p", "FooResponse", some ⟨"B", true⟩, [], [tag "response"], [], none⟩
    let event : Declaration := ⟨"q", "Misnamed", some ⟨"A", true⟩, [], [tag "event"], [], none⟩
    let model := Model.ofList [request, response, event]
    let model' := Model.ofList [event, response, request]
    let s : Settings := ⟨"out", "java", .default, .firstWins, false⟩
    let render : Renderer := fun a => .ok (a.subclassName ++ " " ++ a.partnerClass.getD "")
    let w : World := ⟨⟨[], []⟩, []⟩
    ∃ r r' w₁ w₂, generate render s model w = .ok r w₁ ∧ generate render s model' w = .ok r' w₂ ∧
      r.generated.length = 3 ∧ r'.generated = r.generated.reverse ∧
      ∀ place, w₁.files.entryAt? place = w₂.files.entryAt? place := by
  intro tag request response event model model' s render w
  have hm : model.declarations = [request, response, event] := by decide +kernel
  have hm' : model'.declarations = [event, response, request] := by decide +kernel
  have hp : model.declarations.Perm model'.declarations := by
    rw [hm, hm']
    exact (List.reverse_perm [request, response, event]).symm
  obtain ⟨f, -, hruns⟩ := generate_perm hp (by decide +kernel) s
  obtain ⟨r, w₁, h⟩ : ∃ r w₁, generate render s model w = .ok r w₁ :=
    exists_eq_ok_of_isSome (by decide +kernel)
  obtain ⟨r', w₂, h'⟩ : ∃ r' w₂, generate render s model' w = .ok r' w₂ :=
    exists_eq_ok_of_isSome (by decide +kernel)
  have hs : s.Slashless model := ⟨by decide +kernel, by decide +kernel, by decide +kernel⟩
  have hpaths : (r.generated.map GeneratedFile.path).Nodup := by
    rw [generated_eq h]
    decide +kernel
  obtain ⟨hr, hr', -, hfiles⟩ := hruns render w w w₁ w₂ r r' h h' hs hpaths
  have hreverse : r'.generated = r.generated.reverse := by
    have hreversed : model'.declarations = model.declarations.reverse := by rw [hm, hm']; rfl
    rw [hr.generated, hr'.generated, hreversed, List.filterMap_reverse]
  refine ⟨r, r', w₁, w₂, h, h', ?_, hreverse, hfiles rfl⟩
  rw [generated_eq h]
  decide +kernel

end Companion
