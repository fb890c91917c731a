import Companion.Planning
import Mathlib.Data.List.Dedup

/-!
# Plans do not depend on earlier plans

`directPlan` says what is to be generated for a declaration without any memory: each name is looked
for by a scan of the model that takes the first declaration of that name. An index that has seen
any look-ups answers as the scan does (`NameIndex.lookup_fst`), and what it remembers are the names
it was asked for, each once (`NameIndex.Remembers`). So a plan is the direct one whatever was
planned before, and the size of the index counts the distinct names that were asked for
(`planAll_eq_directPlans`).
-/

namespace Companion

/-- The variants that the declaration has a tag for, by priority. -/
def Declaration.carriedVariants (d : Declaration) : List Variant :=
  [Variant.event, .request, .response].filter fun v => d.tags.any (·.name == v.name)

/-- The companion's class: the last dotted part of the erased superclass, empty if there is none. -/
def Declaration.companionName (d : Declaration) : String :=
  match d.superclass with
  | none => ""
  | some type => type.simple

/-- The superclass of the companion: what the first tag of the variant asks for, trimmed, or the
default of the variant if that is empty or absent. -/
def companionSuperclass (variant : Variant) (d : Declaration) : String :=
  let tag := d.tags.find? (·.name == variant.name)
  let asked := tag.bind fun t => t.params.lookup "superclass"
  match asked with
  | none => variant.defaultSuperclass
  | some text =>
    if (Text.trimString text).isEmpty then variant.defaultSuperclass else Text.trimString text

/-- The name that a partner must have, for a variant that has partners and a name that follows the
convention. -/
def partnerName? (naming : Naming) (variant : Variant) (d : Declaration) : Option String :=
  match variant with
  | .event => none
  | .request => (naming.stem? (naming.subject d)).map (· ++ "Response")
  | .response => (naming.stem? (naming.subject d)).map (· ++ "Request")

/-- The notes on a partner that is not there. -/
def partnerNotes (model : Model) (naming : Naming) (variant : Variant) (d : Declaration) :
    List Note :=
  if variant = .event then []
  else
    match partnerName? naming variant d with
    | none =>
      [.diagnostic ⟨variant, d.qualifiedName,
        .unconventionalName (naming.subject d) naming.pattern⟩]
    | some expected =>
      if (model.firstNamed? expected).isSome then []
      else [.noPartner variant d.qualifiedName expected]

/-- The constructors as they stand, with each type replaced. -/
def repeatConstructors (replace : TypeRef → String) (cs : List Constructor) :
    List ConstructorDescriptor :=
  cs.map fun c => ⟨c.name, c.params.map fun p => ⟨replace p.type, p.name⟩⟩

/-- The partner's name for an unresolved type of one character, if there is a partner; any other
type as it is written. -/
def substituted (partner : Option Declaration) (type : TypeRef) : String :=
  match partner with
  | none => type.text
  | some p => if type.resolved = false ∧ type.text.length = 1 then p.qualifiedName else type.text

/-- The name of the declaration whose constructors a companion repeats besides its own. -/
def baseName? (variant : Variant) (d : Declaration) : Option String :=
  if variant = .event then none
  else some (String.ofList (TypeRef.simpleName (companionSuperclass variant d).toList))

/-- The job for a declaration that is generated for as that variant. -/
def directJob (model : Model) (naming : Naming) (variant : Variant) (d : Declaration) : Job :=
  let partner := (partnerName? naming variant d).bind model.firstNamed?
  let base := (baseName? variant d).bind model.firstNamed?
  { declaration := d
    variant := variant
    className := d.companionName
    superClass := companionSuperclass variant d
    partner := partner
    attributes := {
      variant := variant
      packageName := d.package
      className := d.companionName
      subclassName := d.name
      eventName := eventName d.name
      constructors := repeatConstructors TypeRef.text d.constructors
      superClass := companionSuperclass variant d
      superclassConstructors :=
        repeatConstructors (substituted partner) ((base.map Declaration.constructors).getD [])
      partnerClass := partner.map Declaration.name } }

/-- The variant that a declaration is planned as, unless it carries none, is rejected for carrying
several, or has no superclass. -/
def plannedVariant? (s : Settings) (d : Declaration) : Option Variant :=
  match d.carriedVariants with
  | [] => none
  | variant :: others =>
    if (others ≠ [] ∧ s.policy = .reject) ∨ d.companionName = "" then none else some variant

/-- The diagnostics on what a declaration is tagged with and on its superclass. -/
def taggingDiagnostics (s : Settings) (d : Declaration) : List Diagnostic :=
  match d.carriedVariants with
  | [] => []
  | variant :: others =>
    if others ≠ [] ∧ s.policy = .reject then
      [⟨variant, d.qualifiedName, .multipleVariants ⟨variant :: others⟩⟩]
    else
      (if others = [] then [] else [⟨variant, d.qualifiedName, .alsoTagged others variant⟩]) ++
        (if d.companionName = "" then [⟨variant, d.qualifiedName, .noSuperclass⟩] else [])

/-- The plan for a declaration, from the model, the settings and the declaration alone. -/
def directPlan (model : Model) (s : Settings) (d : Declaration) : Plan where
  job := (plannedVariant? s d).map fun variant => directJob model s.naming variant d
  notes := (taggingDiagnostics s d).map Note.diagnostic ++
    match plannedVariant? s d with
    | none => []
    | some variant => partnerNotes model s.naming variant d

/-- The names that the plan for a declaration asks for. -/
def askedNames (s : Settings) (d : Declaration) : List String :=
  match plannedVariant? s d with
  | none => []
  | some variant => (partnerName? s.naming variant d).toList ++ (baseName? variant d).toList

/-- The plans for declarations, made one after the other with one index. -/
def planAll {model : Model} (s : Settings) :
    List Declaration → NameIndex model → List Plan × NameIndex model
  | [], index => ([], index)
  | d :: ds, index =>
    let (p, index) := plan s d index
    let (ps, index) := planAll s ds index
    (p :: ps, index)

namespace NameIndex

variable {model : Model}

def names (index : NameIndex model) : List String :=
  index.entries.map Prod.fst

/-- The index has seen exactly these names, and each has one entry. -/
structure Remembers (index : NameIndex model) (asked : List String) : Prop where
  nodup : index.names.Nodup
  mem_iff : ∀ name, name ∈ index.names ↔ name ∈ asked

theorem remembers_empty : (empty : NameIndex model).Remembers [] :=
  ⟨by simp [names, empty], by simp [names, empty]⟩

theorem mem_of_lookup_eq_some {index : NameIndex model} {name : String} {position : Option Nat}
    (h : index.entries.lookup name = some position) : (name, position) ∈ index.entries := by
  obtain ⟨l₁, l₂, h, -⟩ := List.lookup_eq_some_iff.1 h
  simp [h]

theorem not_mem_names_of_lookup_eq_none {index : NameIndex model} {name : String}
    (h : index.entries.lookup name = none) : name ∉ index.names := by
  simp only [names, List.mem_map, not_exists, not_and]
  rintro e he rfl
  have := List.lookup_eq_none_iff.1 h e he
  simp at this

/-- An index answers as a scan of the model does. -/
theorem lookup_fst (index : NameIndex model) (name : String) :
    (index.lookup name).1 = model.firstNamed? name := by
  rw [← model.bind_get?_position?]
  unfold lookup
  split
  · rename_i position h
    rw [← index.sound _ (mem_of_lookup_eq_some h)]
  · rfl

theorem Remembers.lookup {index : NameIndex model} {asked : List String}
    (h : index.Remembers asked) (name : String) :
    (index.lookup name).2.Remembers (asked ++ [name]) := by
  unfold NameIndex.lookup
  split
  · rename_i found hf
    refine ⟨h.nodup, fun other => ?_⟩
    have hn : name ∈ index.names := List.mem_map_of_mem (f := Prod.fst) (mem_of_lookup_eq_some hf)
    simp only [h.mem_iff, List.mem_append, List.mem_singleton, iff_self_or]
    rintro rfl
    exact (h.mem_iff _).1 hn
  · rename_i hf
    refine ⟨List.nodup_cons.2 ⟨not_mem_names_of_lookup_eq_none hf, h.nodup⟩, fun other => ?_⟩
    have := h.mem_iff other
    simp only [names, List.map_cons, List.mem_cons, List.mem_append, List.not_mem_nil,
      or_false] at this ⊢
    rw [this, or_comm]

theorem Remembers.size_eq {index : NameIndex model} {asked : List String}
    (h : index.Remembers asked) : index.size = asked.dedup.length := by
  have hp : index.names.Perm asked.dedup :=
    (List.perm_ext_iff_of_nodup h.nodup (List.nodup_dedup _)).2 fun name => by
      rw [h.mem_iff, List.mem_dedup]
  rw [← hp.length_eq]
  simp [size, names]

end NameIndex

variable {model : Model}

theorem variantTags_eq (d : Declaration) :
    d.variantTags =
      d.carriedVariants.filterMap fun v => (d.tag? v.name).map fun tag => (v, tag) := by
  unfold Declaration.variantTags Declaration.carriedVariants Variant.all
  rw [List.filterMap_filter]
  congr 1
  funext v
  by_cases h : d.tags.any (·.name == v.name)
  · rw [if_pos h]
  · rw [if_neg h]
    have : d.tag? v.name = none := by
      rw [Declaration.tag?, List.find?_eq_none]
      simpa using h
    rw [this]
    rfl

theorem map_fst_variantTags (d : Declaration) : d.variantTags.map Prod.fst = d.carriedVariants := by
  rw [variantTags_eq, List.map_filterMap]
  rw [List.filterMap_congr (g := some), List.filterMap_some]
  intro v hv
  have h := (List.mem_filter.1 hv).2
  rcases ht : d.tag? v.name with _ | tag
  · simp only [Declaration.tag?, List.find?_eq_none] at ht
    simp only [List.any_eq_true] at h
    obtain ⟨tag, hm, he⟩ := h
    exact absurd he (ht tag hm)
  · rfl

theorem superclassName?_eq (d : Declaration) :
    d.superclassName? = if d.companionName = "" then none else some d.companionName := by
  unfold Declaration.superclassName? Declaration.companionName
  rcases d.superclass with _ | type
  · rfl
  · by_cases h : type.simple = ""
    · simp [h]
    · simp [h]

theorem effectiveSuperclass_eq {d : Declaration} {v : Variant} {tag : Tag} {ignored : List Variant}
    (h : d.tag? v.name = some tag) :
    (Classification.mk v tag ignored).effectiveSuperclass = companionSuperclass v d := by
  unfold Classification.effectiveSuperclass Classification.superclassOverride? companionSuperclass
  unfold Declaration.tag? at h
  simp only [h, Option.bind_some, Tag.param?]
  rcases tag.params.lookup "superclass" with _ | text
  · rfl
  · by_cases he : (Text.trimString text).isEmpty
    · simp [Option.filter, he]
    · simp [Option.filter, he]

theorem describeConstructors_eq (partner : Option Declaration) (d : Option Declaration) :
    describeConstructors partner d =
      repeatConstructors (substituted partner) ((d.map Declaration.constructors).getD []) := by
  have hr : ∀ type, (replacement? partner type).getD type.text = substituted partner type := by
    intro type
    unfold replacement? substituted
    rcases partner with _ | p
    · rfl
    · simp only [Bool.and_eq_true, Bool.not_eq_true', beq_iff_eq]
      split <;> rfl
  rcases d with _ | d
  · rfl
  · simp only [describeConstructors, repeatConstructors, Option.map_some, Option.getD_some]
    refine List.map_congr_left fun c _ => ?_
    simp only [Constructor.describe, Parameter.describe, hr]

/-- Resolving finds the first declaration of the partner's name, and looks for no other. -/
theorem resolvePartner_spec (naming : Naming) (v : Variant) (d : Declaration)
    {index : NameIndex model} {asked : List String} (h : index.Remembers asked) :
    ((resolvePartner naming v d index).1.outcome naming v d =
      ((partnerName? naming v d).bind model.firstNamed?, partnerNotes model naming v d)) ∧
    (resolvePartner naming v d index).2.Remembers (asked ++ (partnerName? naming v d).toList) := by
  have step (suffix : String) (stem : Option String) (hv : v ≠ .event)
      (hs : v.partnerSuffix? = some suffix) (hst : naming.stem? (naming.subject d) = stem)
      (hn : partnerName? naming v d = stem.map (· ++ suffix)) :
      ((resolvePartner naming v d index).1.outcome naming v d =
        ((partnerName? naming v d).bind model.firstNamed?, partnerNotes model naming v d)) ∧
      (resolvePartner naming v d index).2.Remembers
        (asked ++ (partnerName? naming v d).toList) := by
    simp only [resolvePartner, hs, hst, hn, partnerNotes, if_neg hv]
    rcases stem with _ | stem
    · simpa [PartnerLookup.outcome] using h
    · have hf := index.lookup_fst (stem ++ suffix)
      have hl := h.lookup (stem ++ suffix)
      rcases hx : index.lookup (stem ++ suffix) with ⟨found, index'⟩
      rw [hx] at hf hl
      rcases found with _ | partner
      · simpa [PartnerLookup.outcome, hx, ← hf] using hl
      · simpa [PartnerLookup.outcome, hx, ← hf] using hl
  cases v with
  | event => simpa [resolvePartner, Variant.partnerSuffix?, partnerName?, partnerNotes,
      PartnerLookup.outcome] using h
  | request => exact step "Response" _ (by simp) rfl rfl rfl
  | response => exact step "Request" _ (by simp) rfl rfl rfl

theorem baseDeclaration_spec (v : Variant) (d : Declaration) {index : NameIndex model}
    {asked : List String} (h : index.Remembers asked) :
    (baseDeclaration v (companionSuperclass v d) index).1 =
        (baseName? v d).bind model.firstNamed? ∧
      (baseDeclaration v (companionSuperclass v d) index).2.Remembers
        (asked ++ (baseName? v d).toList) := by
  have look (name : String) := And.intro (index.lookup_fst name) (h.lookup name)
  cases v with
  | event => exact ⟨rfl, by simpa [baseName?, baseDeclaration] using h⟩
  | request => simpa [baseName?, baseDeclaration] using look _
  | response => simpa [baseName?, baseDeclaration] using look _

theorem tag?_of_mem_variantTags {d : Declaration} {v : Variant} {tag : Tag}
    (h : (v, tag) ∈ d.variantTags) : d.tag? v.name = some tag := by
  obtain ⟨w, -, hw⟩ := List.mem_filterMap.1 h
  obtain ⟨t, ht, he⟩ := Option.map_eq_some_iff.1 hw
  simp only [Prod.mk.injEq] at he
  obtain ⟨rfl, rfl⟩ := he
  exact ht

/-- The plan for a declaration that is not rejected. -/
theorem planClassified_spec (s : Settings) {d : Declaration} {v : Variant} {tag : Tag}
    {others : List Variant} (hc : d.carriedVariants = v :: others) (ht : d.tag? v.name = some tag)
    (hr : ¬ (others ≠ [] ∧ s.policy = .reject)) {index : NameIndex model} {asked : List String}
    (h : index.Remembers asked) :
    (planClassified s ⟨v, tag, others⟩ d index).1 = directPlan model s d ∧
      (planClassified s ⟨v, tag, others⟩ d index).2.Remembers (asked ++ askedNames s d) := by
  have halso : (if others.isEmpty then ([] : List Note)
      else [.diagnostic ⟨v, d.qualifiedName, .alsoTagged others v⟩]) =
      (if others = [] then [] else [(⟨v, d.qualifiedName, .alsoTagged others v⟩ : Diagnostic)]).map
        Note.diagnostic := by
    cases others <;> rfl
  by_cases hn : d.companionName = ""
  · have hp : plannedVariant? s d = none := by simp [plannedVariant?, hc, hn]
    simp only [planClassified, superclassName?_eq, if_pos hn, halso, directPlan, askedNames, hp,
      taggingDiagnostics, hc, if_neg hr]
    exact ⟨by simp, by simpa using h⟩
  · have hp : plannedVariant? s d = some v := by
      simp only [plannedVariant?, hc, hn, hr, or_false, if_false]
    obtain ⟨ho, hm⟩ := resolvePartner_spec s.naming v d h
    obtain ⟨hb, hm'⟩ := baseDeclaration_spec v d hm
    simp only [planClassified, superclassName?_eq, if_neg hn, halso, directPlan, askedNames, hp,
      taggingDiagnostics, hc, if_neg hr, effectiveSuperclass_eq ht, ho, hb, describeConstructors_eq]
    refine ⟨?_, by simpa using hm'⟩
    simp [directJob, show substituted none = TypeRef.text from rfl]

/-- A plan made with an index is the direct one, and the index remembers what the plan asked for. -/
theorem plan_spec (s : Settings) (d : Declaration) {index : NameIndex model} {asked : List String}
    (h : index.Remembers asked) :
    (plan s d index).1 = directPlan model s d ∧
      (plan s d index).2.Remembers (asked ++ askedNames s d) := by
  have hc := map_fst_variantTags d
  unfold plan classify
  rcases ht : d.variantTags with _ | ⟨⟨v, tag⟩, others⟩
  · rw [ht] at hc
    have hp : plannedVariant? s d = none := by simp [plannedVariant?, ← hc]
    simp only [directPlan, askedNames, hp, taggingDiagnostics, ← hc]
    exact ⟨rfl, by simpa using h⟩
  · rw [ht, List.map_cons] at hc
    have htag := tag?_of_mem_variantTags (ht ▸ List.mem_cons_self : (v, tag) ∈ d.variantTags)
    by_cases hr : others.map Prod.fst ≠ [] ∧ s.policy = .reject
    · have ho : (others.isEmpty || decide (s.policy = .firstWins)) = false := by
        simpa [hr.2] using hr.1
      have hp : plannedVariant? s d = none := by
        simp only [plannedVariant?, ← hc]
        rw [if_pos (Or.inl hr)]
      simp only [ho, Bool.false_eq_true, if_false, directPlan, askedNames, hp, taggingDiagnostics,
        ← hc, if_pos hr]
      exact ⟨rfl, by simpa using h⟩
    · have ho : (others.isEmpty || decide (s.policy = .firstWins)) = true := by
        rcases hpol : s.policy
        · simp
        · simpa [hpol] using hr
      simp only [ho, if_true]
      exact planClassified_spec s hc.symm htag hr h

theorem planAll_spec (s : Settings) (ds : List Declaration) {index : NameIndex model}
    {asked : List String} (h : index.Remembers asked) :
    (planAll s ds index).1 = ds.map (directPlan model s) ∧
      (planAll s ds index).2.Remembers (asked ++ ds.flatMap (askedNames s)) := by
  induction ds generalizing index asked with
  | nil => exact ⟨rfl, by simpa [planAll] using h⟩
  | cons d ds ih =>
    obtain ⟨hp, hm⟩ := plan_spec s d h
    obtain ⟨hps, hms⟩ := ih hm
    refine ⟨by simp [planAll, hp, hps], ?_⟩
    simpa [planAll, List.append_assoc] using hms

/-- Plans made one after the other are the direct ones, whatever the declarations and their order,
and the index counts the distinct names that were asked for. -/
theorem planAll_eq_directPlans (model : Model) (s : Settings) (ds : List Declaration) :
    (planAll s ds (NameIndex.empty : NameIndex model)).1 = ds.map (directPlan model s) ∧
      (planAll s ds (NameIndex.empty : NameIndex model)).2.size =
        (ds.flatMap (askedNames s)).dedup.length := by
  have hempty : (NameIndex.empty : NameIndex model).Remembers [] := NameIndex.remembers_empty
  obtain ⟨hp, hm⟩ := planAll_spec s ds hempty
  exact ⟨hp, by simpa using hm.size_eq⟩

end Companion
