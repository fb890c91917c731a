import Companion.Proofs.ModelOrder

/-!
# Declarations with several tags

Whether declarations that are tagged for several variants are rejected matters for these only: the
plan of any other declaration is the same (`directPlan_policy`). A rejected one is planned as an
error and nothing besides (`directPlan_of_rejected`), so a run that rejects generates what the run
that takes the first tag does, less the companions of these declarations
(`policies_differ_on_multiplyTagged`).
-/

namespace Companion

variable {render : Renderer} {s : Settings} {model : Model} {r r' : Report} {w w' w₁ w₁' : World}
  {d e : Declaration} {ds : List Declaration} {v : Variant} {others : List Variant}

/-- The declaration is tagged for several variants. -/
def Declaration.MultiplyTagged (d : Declaration) : Prop :=
  1 < d.carriedVariants.length

instance (d : Declaration) : Decidable d.MultiplyTagged :=
  inferInstanceAs (Decidable (_ < _))

/-- The declaration is tagged for variants of lower priority, too. -/
def Diagnostic.Cause.isAlsoTagged : Diagnostic.Cause → Bool
  | .alsoTagged _ _ => true
  | _ => false

theorem exists_of_multiplyTagged (h : d.MultiplyTagged) :
    ∃ v others, d.carriedVariants = v :: others ∧ others ≠ [] := by
  rcases hc : d.carriedVariants with _ | ⟨v, others⟩
  · simp [Declaration.MultiplyTagged, hc] at h
  · exact ⟨v, others, rfl, by rintro rfl; simp [Declaration.MultiplyTagged, hc] at h⟩

theorem others_eq_nil_of_not_multiplyTagged (h : ¬d.MultiplyTagged)
    (hc : d.carriedVariants = v :: others) : others = [] := by
  simpa [Declaration.MultiplyTagged, hc] using h

/-- The policy does not matter for declarations that are tagged for one variant or none. -/
theorem directPlan_policy (h : ¬d.MultiplyTagged) (policy : MultiTagPolicy) :
    directPlan model { s with policy := policy } d = directPlan model s d := by
  have hplanned : plannedVariant? { s with policy := policy } d = plannedVariant? s d := by
    unfold plannedVariant?
    split
    · rfl
    · rename_i hc
      simp [others_eq_nil_of_not_multiplyTagged h hc]
  have htagging : taggingDiagnostics { s with policy := policy } d = taggingDiagnostics s d := by
    unfold taggingDiagnostics
    split
    · rfl
    · rename_i hc
      simp [others_eq_nil_of_not_multiplyTagged h hc]
  simp only [directPlan, hplanned, htagging]

/-- A declaration that is rejected is an error and nothing besides. -/
theorem directPlan_of_rejected (hs : s.policy = .reject) (hc : d.carriedVariants = v :: others)
    (ho : others ≠ []) : directPlan model s d =
      ⟨none, [.diagnostic ⟨v, d.qualifiedName, .multipleVariants ⟨v :: others⟩⟩]⟩ := by
  simp [directPlan, plannedVariant?, taggingDiagnostics, hc, hs, ho]

/-- A declaration that is rejected is planned without any look-up. -/
theorem plan_of_rejected (hs : s.policy = .reject) (h : d.MultiplyTagged)
    (index : NameIndex model) : (plan s d index).2 = index := by
  obtain ⟨v, others, hc, ho⟩ := exists_of_multiplyTagged h
  rw [← map_fst_variantTags] at hc
  unfold plan classify
  rcases ht : d.variantTags with _ | ⟨⟨v', tag⟩, tags⟩
  · rfl
  · have htags : tags ≠ [] := by
      rintro rfl
      simp [ht, ho.symm] at hc
    simp [hs, htags]

/-- Of a declaration with several tags that is not rejected one warning says so. -/
theorem filter_isAlsoTagged_directPlan (hs : s.policy = .firstWins)
    (hc : d.carriedVariants = v :: others) (ho : others ≠ []) :
    (directPlan model s d).diagnostics.filter (·.cause.isAlsoTagged) =
      [⟨v, d.qualifiedName, .alsoTagged others v⟩] := by
  obtain ⟨notes, he, hnotes, -⟩ := exists_diagnostics_directPlan model s d
  have hnone : notes.filter (·.cause.isAlsoTagged) = [] := by
    refine List.filter_eq_nil_iff.2 fun x hx => ?_
    obtain ⟨v, rfl⟩ := hnotes x hx
    simp [Diagnostic.Cause.isAlsoTagged]
  have hpolicy : ¬(others ≠ [] ∧ s.policy = .reject) := by simp [hs]
  rw [he, List.filter_append, hnone, List.append_nil, taggingDiagnostics, hc]
  simp only [if_neg hpolicy, if_neg ho]
  split_ifs <;> simp [Diagnostic.Cause.isAlsoTagged]

theorem declaration_eq_of_mem_directPlan {x : Diagnostic}
    (h : x ∈ (directPlan model s d).diagnostics) : x.declaration = d.qualifiedName :=
  (accounts_enter (r := .start s) d).declaration_eq x (List.mem_append_left _ h)

theorem declaration_of_job_directPlan {j : Job} (h : (directPlan model s d).job = some j) :
    j.declaration = d := by
  obtain ⟨v, -, rfl⟩ := Option.map_eq_some_iff.1 h
  rfl

/-- The jobs of a run that rejects are those of the other run whose declarations have one tag. -/
theorem jobsOf_reject (model : Model) (s : Settings) (ds : List Declaration) :
    jobsOf (directPlan model { s with policy := .reject }) ds =
      (jobsOf (directPlan model { s with policy := .firstWins }) ds).filter
        fun j => ¬j.declaration.MultiplyTagged := by
  simp only [jobsOf, List.filterMap_map, List.filter_filterMap]
  refine List.filterMap_congr fun d _ => ?_
  simp only [Function.comp_apply]
  by_cases h : d.MultiplyTagged
  · obtain ⟨v, others, hc, ho⟩ := exists_of_multiplyTagged h
    rw [directPlan_of_rejected rfl hc ho, eq_comm, Option.filter_eq_none_iff]
    rintro j hj
    simp [declaration_of_job_directPlan hj, h]
  · rw [directPlan_policy h .reject, directPlan_policy h .firstWins]
    rcases hj : (directPlan model s d).job with _ | j
    · rfl
    · rw [Option.filter_some]
      simp [declaration_of_job_directPlan hj, h]

theorem filter_overwrites_eq_nil (r : Report) (p : Plan) :
    (r.overwrites s p).filter (!·.cause.isOverwrite) = [] := by
  rw [← filter_overwrites, List.filter_filter]
  simp

theorem filter_isAlsoTagged_overwrites (r : Report) (p : Plan) :
    (r.overwrites s p).filter (·.cause.isAlsoTagged) = [] := by
  rw [← filter_overwrites, List.filter_filter, List.filter_eq_nil_iff]
  intro x _
  rcases x with ⟨v, name, cause⟩
  cases cause <;> simp [Diagnostic.Cause.isAlsoTagged, Diagnostic.Cause.isOverwrite]

/-- Besides the overwrite warnings a run reports the diagnostics of the plans. -/
theorem filter_not_isOverwrite_foldl_enter (model : Model) (s : Settings) (ds : List Declaration)
    (r : Report) :
    ((ds.map (directPlan model s)).foldl (Report.enter s) r).diagnostics.filter
        (!·.cause.isOverwrite) =
      r.diagnostics.filter (!·.cause.isOverwrite) ++
        ds.flatMap fun d => (directPlan model s d).diagnostics := by
  induction ds generalizing r with
  | nil => simp
  | cons d ds ih =>
    have hplan : (directPlan model s d).diagnostics.filter (!·.cause.isOverwrite) =
        (directPlan model s d).diagnostics :=
      List.filter_eq_self.2 fun x hx => by simp [isOverwrite_of_mem_diagnostics hx]
    rw [List.map_cons, List.foldl_cons, ih, Report.enter, List.filter_append, List.filter_append,
      hplan, filter_overwrites_eq_nil, List.append_nil, List.flatMap_cons, List.append_assoc]

/-- Declarations of other names add nothing on this one. -/
theorem filter_declaration_foldl_enter {name : String}
    (h : name ∉ ds.map Declaration.qualifiedName) (r : Report) :
    ((ds.map (directPlan model s)).foldl (Report.enter s) r).diagnostics.filter
        (·.declaration = name) =
      r.diagnostics.filter (·.declaration = name) := by
  induction ds generalizing r with
  | nil => rfl
  | cons e ds ih =>
    rw [List.map_cons, List.mem_cons, not_or] at h
    have hnone : ((directPlan model s e).diagnostics ++
        r.overwrites s (directPlan model s e)).filter (·.declaration = name) = [] := by
      refine List.filter_eq_nil_iff.2 fun x hx => ?_
      rw [(accounts_enter e).declaration_eq x hx]
      simpa using Ne.symm h.1
    rw [List.map_cons, List.foldl_cons, ih h.2, Report.enter, List.filter_append, hnone,
      List.append_nil]

/-- What a run reports on a declaration: the diagnostics of its plan, and then at most an overwrite
warning. -/
theorem filter_declaration_of_generate (h : generate render s model w = .ok r w')
    (hd : d ∈ model.declarations) :
    ∃ r₀ : Report, r.diagnostics.filter (·.declaration = d.qualifiedName) =
      (directPlan model s d).diagnostics ++ r₀.overwrites s (directPlan model s d) := by
  obtain ⟨before, after, he⟩ := List.append_of_mem hd
  have hnodup := model.nodup
  rw [he, List.map_append, List.map_cons, List.nodup_append] at hnodup
  obtain ⟨-, hafter, hbefore⟩ := hnodup
  have hd' : d.qualifiedName ∉ before.map Declaration.qualifiedName := fun hmem =>
    hbefore _ hmem _ List.mem_cons_self rfl
  have hall (r₀ : Report) :
      ((directPlan model s d).diagnostics ++ r₀.overwrites s (directPlan model s d)).filter
        (·.declaration = d.qualifiedName) =
      (directPlan model s d).diagnostics ++ r₀.overwrites s (directPlan model s d) :=
    List.filter_eq_self.2 fun x hx => decide_eq_true ((accounts_enter d).declaration_eq x hx)
  refine ⟨(before.map (directPlan model s)).foldl (Report.enter s) (.start s), ?_⟩
  rw [(generate_eq_ok h).1, he, List.map_append, List.map_cons, List.foldl_append, List.foldl_cons,
    filter_declaration_foldl_enter (List.nodup_cons.1 hafter).1, Report.enter, List.filter_append,
    filter_declaration_foldl_enter hd', hall]
  rfl

/-- A diagnostic on a declaration that is not tagged for several variants, other than an overwrite
warning. -/
def Model.Unaffected (model : Model) (x : Diagnostic) : Prop :=
  x.cause.isOverwrite = false ∧
    ∀ d ∈ model.declarations, d.MultiplyTagged → x.declaration ≠ d.qualifiedName

instance (model : Model) (x : Diagnostic) : Decidable (model.Unaffected x) :=
  inferInstanceAs (Decidable (_ ∧ _))

theorem unaffected_iff {x : Diagnostic} (hd : d ∈ model.declarations)
    (hx : x ∈ (directPlan model s d).diagnostics) :
    model.Unaffected x ↔ ¬d.MultiplyTagged := by
  have hname := declaration_eq_of_mem_directPlan hx
  constructor
  · exact fun h hm => h.2 d hd hm hname
  · refine fun hm => ⟨isOverwrite_of_mem_diagnostics hx, fun e he hme hne => hm ?_⟩
    rwa [List.inj_on_of_nodup_map model.nodup hd he (hname.symm.trans hne)]

theorem filter_unaffected_of_generate (h : generate render s model w = .ok r w') :
    r.diagnostics.filter (model.Unaffected ·) = model.declarations.flatMap fun d =>
      if d.MultiplyTagged then [] else (directPlan model s d).diagnostics := by
  have hnot : r.diagnostics.filter (model.Unaffected ·) =
      (r.diagnostics.filter (!·.cause.isOverwrite)).filter (model.Unaffected ·) := by
    rw [List.filter_filter]
    refine List.filter_congr fun x _ => ?_
    by_cases hx : model.Unaffected x
    · simp [hx, hx.1]
    · simp [hx]
  rw [hnot, (generate_eq_ok h).1, filter_not_isOverwrite_foldl_enter, Report.start, List.filter_nil,
    List.nil_append, List.filter_flatMap]
  refine List.flatMap_congr fun d hd => ?_
  by_cases hm : d.MultiplyTagged
  · rw [if_pos hm, List.filter_eq_nil_iff]
    exact fun x hx => by simpa [unaffected_iff hd hx] using hm
  · rw [if_neg hm, List.filter_eq_self]
    exact fun x hx => by simpa [unaffected_iff hd hx] using hm

end Companion
