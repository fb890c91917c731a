import Companion.Proofs.ModelDump
import Companion.Proofs.RunReport

/-!
# Declarations that a run does not see

A run goes through the direct plans of the declarations and needs no index
(`generateAll_eq_foldlM`). Two runs are the same if their plans are, as far as they get
(`foldlM_map_congr`), and a plan depends on the model only through the answers to the names that it
asks for (`directPlan_congr`). So a declaration without variant tags whose name the run does not
look up changes nothing, wherever it stands (`generate_insert`).
-/

namespace Companion

variable {render : Renderer} {s : Settings} {model model' : Model} {r : Report} {w : World}
  {ds : List Declaration} {u d : Declaration}

def runPlan (render : Renderer) (s : Settings) (r : Report) (p : Plan) : Run Report := do
  Run.report p.events
  match p.job with
  | none => pure (r.note p.diagnostics)
  | some job => generateJob render s job (r.note p.diagnostics)

/-- A run needs no index: it goes through the direct plans. -/
theorem generateAll_eq_foldlM {index : NameIndex model} {asked : List String}
    (hi : index.Remembers asked) (r : Report) :
    generateAll render s ds index r =
      (ds.map (directPlan model s)).foldlM (runPlan render s) r := by
  induction ds generalizing index asked r with
  | nil => rfl
  | cons d ds ih =>
    obtain ⟨hplan, hindex⟩ := plan_spec s d hi
    rw [generateAll, List.map_cons, List.foldlM_cons, runPlan, ← hplan, bind_assoc]
    rcases hj : (plan s d index).1.job with _ | job
    · simp only [hj, pure_bind, ih hindex]
    · simp only [hj, ih hindex]

theorem generate_eq_foldlM (render : Renderer) (s : Settings) (model : Model) :
    generate render s model = (do
      let r ← (model.declarations.map (directPlan model s)).foldlM (runPlan render s) (.start s)
      Run.report [r.event]
      pure r) := by
  rw [generate, generateAll_eq_foldlM NameIndex.remembers_empty]

/-- Runs agree whose plans agree, as far as they get. -/
theorem foldlM_map_congr {f g : Declaration → Plan}
    (h : ∀ before d after, ds = before ++ d :: after →
      (∃ r' w', (before.map f).foldlM (runPlan render s) r w = .ok r' w') → f d = g d) :
    (ds.map f).foldlM (runPlan render s) r w = (ds.map g).foldlM (runPlan render s) r w := by
  induction ds generalizing r w with
  | nil => rfl
  | cons d ds ih =>
    have hd : f d = g d := h [] d ds rfl ⟨r, w, rfl⟩
    rw [List.map_cons, List.map_cons, List.foldlM_cons, List.foldlM_cons, ← hd]
    refine bind_congr_of_ok rfl fun r₁ w₁ hstep => ih fun before e after he hrun => ?_
    obtain ⟨r', w', hrun⟩ := hrun
    exact h (d :: before) e after (by rw [he]; rfl) ⟨r', w', bind_eq_ok.2 ⟨r₁, w₁, hstep, hrun⟩⟩

theorem report_nil : Run.report [] = pure () := by
  funext w
  rw [report_eq_ok, List.append_nil]
  rfl

theorem runPlan_empty (r : Report) : runPlan render s r ⟨none, []⟩ = pure r := by
  have hnote : r.note [] = r := by rw [Report.note, List.append_nil]
  rw [runPlan, Plan.events, Plan.diagnostics, List.map_nil, report_nil, List.filterMap_nil, hnote,
    pure_bind]

/-- A plan depends on the model through the answers to the names that it asks for. -/
theorem directPlan_congr
    (h : ∀ name ∈ askedNames s d, model.firstNamed? name = model'.firstNamed? name) :
    directPlan model s d = directPlan model' s d := by
  unfold directPlan
  rcases hv : plannedVariant? s d with _ | v
  · rfl
  · simp only [askedNames, hv, List.mem_append, Option.mem_toList] at h
    have hpartner : (partnerName? s.naming v d).bind model.firstNamed? =
        (partnerName? s.naming v d).bind model'.firstNamed? :=
      Option.bind_congr fun name hname => h name (.inl hname)
    have hbase : (baseName? v d).bind model.firstNamed? =
        (baseName? v d).bind model'.firstNamed? :=
      Option.bind_congr fun name hname => h name (.inr hname)
    have hjob : directJob model s.naming v d = directJob model' s.naming v d := by
      simp only [directJob, hpartner, hbase]
    have hnotes : partnerNotes model s.naming v d = partnerNotes model' s.naming v d := by
      unfold partnerNotes
      rcases hname : partnerName? s.naming v d with _ | name
      · rfl
      · simp only [h name (.inl hname)]
    simp only [Option.map_some, hjob, hnotes]

theorem firstNamed?_insert {before after : List Declaration} {name : String}
    (hm : model.declarations = before ++ after) (hm' : model'.declarations = before ++ u :: after)
    (hname : name ≠ u.name) : model'.firstNamed? name = model.firstNamed? name := by
  have hu : ¬(u.name == name) = true := by simpa using Ne.symm hname
  rw [Model.firstNamed?, Model.firstNamed?, hm, hm', List.find?_append, List.find?_append,
    List.find?_cons_of_neg (p := fun d : Declaration => d.name == name) hu]

/-- The run over the model looks the name up: it gets to a declaration after whose plan the index
has an answer for the name. -/
def LooksUp (render : Renderer) (s : Settings) (model : Model) (w : World) (name : String) : Prop :=
  ∃ before d after, model.declarations = before ++ d :: after ∧
    (∃ r w', generateAll render s before (NameIndex.empty : NameIndex model) (.start s) w =
      .ok r w') ∧
    name ∈ (planAll s (before ++ [d]) (NameIndex.empty : NameIndex model)).2.names

theorem mem_names_planAll (s : Settings) (ds : List Declaration) (name : String) :
    name ∈ (planAll s ds (NameIndex.empty : NameIndex model)).2.names ↔
      name ∈ ds.flatMap (askedNames s) := by
  have hempty : (NameIndex.empty : NameIndex model).Remembers [] := NameIndex.remembers_empty
  have hremembers := (planAll_spec s ds hempty).2
  rw [List.nil_append] at hremembers
  exact hremembers.mem_iff name

/-- A run looks up no names but those that the plans of its declarations ask for. -/
theorem LooksUp.mem_askedNames {name : String} (h : LooksUp render s model w name) :
    name ∈ model.declarations.flatMap (askedNames s) := by
  obtain ⟨before, d, after, hmodel, -, hname⟩ := h
  rw [mem_names_planAll] at hname
  rw [hmodel, List.append_cons, List.flatMap_append]
  exact List.mem_append_left _ hname

theorem directPlan_of_untagged (h : u.carriedVariants = []) :
    directPlan model s u = ⟨none, []⟩ := by
  simp [directPlan, plannedVariant?, taggingDiagnostics, h]

/-- A declaration without variant tags whose name the run does not look up leaves the run as it is,
with what it reports and writes and how it ends, wherever it is inserted. -/
theorem generate_insert {before after : List Declaration} (hu : u.carriedVariants = [])
    (hm : model.declarations = before ++ after)
    (hq : u.qualifiedName ∉ model.declarations.map Declaration.qualifiedName)
    (hn : ¬LooksUp render s model w u.name) :
    (Model.ofList (before ++ u :: after)).declarations = before ++ u :: after ∧
      generate render s (Model.ofList (before ++ u :: after)) w = generate render s model w := by
  have hnodup : ((before ++ u :: after).map Declaration.qualifiedName).Nodup := by
    have hmodel := model.nodup
    rw [hm, List.map_append] at hmodel hq
    rw [List.map_append, List.map_cons, List.nodup_middle, List.nodup_cons]
    exact ⟨hq, hmodel⟩
  let model' : Model := ⟨before ++ u :: after, hnodup⟩
  have hmodel' : Model.ofList (before ++ u :: after) = model' := model'.ofList_declarations
  have hplan (earlier : List Declaration) (d : Declaration) (later : List Declaration)
      (he : model.declarations = earlier ++ d :: later)
      (hrun : ∃ r' w', (earlier.map (directPlan model s)).foldlM (runPlan render s) (.start s) w =
        .ok r' w') : directPlan model s d = directPlan model' s d := by
    -- The run gets to the declaration, so it looks up what the plan asks for: the names are others.
    refine directPlan_congr fun name hname => (firstNamed?_insert hm rfl ?_).symm
    rintro rfl
    rw [← generateAll_eq_foldlM NameIndex.remembers_empty] at hrun
    refine hn ⟨earlier, d, later, he, hrun, ?_⟩
    rw [mem_names_planAll, List.flatMap_append, List.flatMap_singleton]
    exact List.mem_append_right _ hname
  have hruns :
      (model'.declarations.map (directPlan model' s)).foldlM (runPlan render s) (.start s) w =
        (model.declarations.map (directPlan model s)).foldlM (runPlan render s) (.start s) w := by
    have hskip :
        (model'.declarations.map (directPlan model' s)).foldlM (runPlan render s) (.start s) =
          (model.declarations.map (directPlan model' s)).foldlM (runPlan render s) (.start s) := by
      rw [hm, List.map_append, List.map_append, List.map_cons, directPlan_of_untagged hu,
        List.foldlM_append, List.foldlM_append]
      simp only [List.foldlM_cons, runPlan_empty, pure_bind]
    rw [hskip, foldlM_map_congr hplan]
  refine ⟨by rw [hmodel'], ?_⟩
  rw [hmodel', generate_eq_foldlM, generate_eq_foldlM]
  exact bind_congr_of_ok hruns fun _ _ _ => rfl

/-- A class before a request and its response leaves the run over them as it is. -/
theorem generate_insert_class :
    let request : Tag := ⟨"request", "", [], List.nodup_nil⟩
    let before : List Declaration := []
    let after : List Declaration := [
      ⟨"p", "FooRequest", some ⟨"Foo", true⟩, [], [request], [], none⟩,
      ⟨"p", "FooResponse", none, [], [], [], none⟩]
    let u : Declaration := ⟨"q", "Foo", none, [], [], [], none⟩
    let s : Settings := ⟨"out", "java", .default, .firstWins, false⟩
    let render : Renderer := fun a => .ok (a.partnerClass.getD "")
    let w : World := ⟨⟨[], []⟩, []⟩
    u.carriedVariants = [] ∧ ¬LooksUp render s (Model.ofList after) w u.name ∧
      generate render s (Model.ofList (before ++ u :: after)) w =
        generate render s (Model.ofList after) w := by
  intro request before after u s render w
  have hu : u.carriedVariants = [] := by decide +kernel
  have hn : ¬LooksUp render s (Model.ofList after) w u.name := fun h =>
    absurd h.mem_askedNames (by decide +kernel)
  have hm : (Model.ofList after).declarations = before ++ after := by decide +kernel
  exact ⟨hu, hn, (generate_insert hu hm (by decide +kernel) hn).2⟩

end Companion
