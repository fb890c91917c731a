import Companion.CommandLine.Execution
import Companion.Proofs.Containment
import Companion.Proofs.ModelOrder
import Companion.Proofs.StandardTemplates

/-!
# Runs that fail

What comes before a run only reads (`keepsFiles_load`, `keepsFiles_buildModel`). A run that fails
stops at a job, when the companions of the jobs before it were rendered and written
(`stopsAt_of_generate`): either this job cannot be rendered, and the files are those that the jobs
before it left, or its companion cannot be written, and then at most directories were added.
-/

namespace Companion

/-- However the run ends, the files are as they were. -/
def Run.KeepsFiles {α : Type} (x : Run α) : Prop :=
  ∀ w, (endOf (x w)).files = w.files

namespace Run

variable {α β : Type} {x : Run α} {f : α → Run β} {w w' : World}

theorem KeepsFiles.of_ok (h : KeepsFiles x) {a : α} (hx : x w = .ok a w') :
    w'.files = w.files := by
  rw [← h w, hx]
  rfl

theorem KeepsFiles.of_error (h : KeepsFiles x) {e : Failure} (hx : x w = .error e w') :
    w'.files = w.files := by
  rw [← h w, hx]
  rfl

theorem KeepsFiles.bind (hx : KeepsFiles x) (hf : ∀ a, KeepsFiles (f a)) :
    KeepsFiles (x >>= f) := by
  intro w
  rcases endOf_bind (x := x) (f := f) w with he | ⟨a, he⟩
  · rw [he, hx]
  · rw [he, hf, hx]

theorem keepsFiles_pure (a : α) : KeepsFiles (pure a) :=
  fun _ => rfl

theorem keepsFiles_get : KeepsFiles get :=
  fun _ => rfl

theorem keepsFiles_report (events : List Log.Event) : KeepsFiles (report events) :=
  fun _ => rfl

theorem keepsFiles_ofExcept (e : Except Failure α) : KeepsFiles (ofExcept e) :=
  fun _ => by cases e <;> rfl

theorem keepsFiles_read (path : String) : KeepsFiles (read path) :=
  keepsFiles_get.bind fun _ => keepsFiles_ofExcept _

theorem keepsFiles_mapM {γ : Type} {g : γ → Run β} (h : ∀ c, KeepsFiles (g c)) (cs : List γ) :
    KeepsFiles (cs.mapM g) := by
  induction cs with
  | nil => exact keepsFiles_pure []
  | cons c cs ih =>
    rw [List.mapM_cons]
    exact (h c).bind fun b => ih.bind fun bs => keepsFiles_pure _

end Run

open Run

theorem Templates.keepsFiles_textOf (directory : Option String) (v : Variant) :
    KeepsFiles (textOf directory v) := by
  unfold textOf
  split
  · exact keepsFiles_pure _
  · refine keepsFiles_get.bind fun w => ?_
    split_ifs
    · exact (keepsFiles_report _).bind fun _ => keepsFiles_read _
    · exact keepsFiles_pure _

theorem Templates.keepsFiles_load (directory : Option String) : KeepsFiles (load directory) :=
  (keepsFiles_mapM (fun v => (keepsFiles_textOf directory v).bind fun _ => keepsFiles_pure _)
    _).bind fun _ => keepsFiles_ofExcept _

theorem keepsFiles_scanSources (paths : List String) : KeepsFiles (scanSources paths) := by
  induction paths with
  | nil => exact keepsFiles_pure []
  | cons path paths ih =>
    have hscan : KeepsFiles (scanSource path) := (keepsFiles_read path).bind fun _ =>
      (keepsFiles_report _).bind fun _ => keepsFiles_ofExcept _
    exact hscan.bind fun _ => ih.bind fun _ => keepsFiles_pure _

theorem keepsFiles_loadModels (lines : Bool) (paths : List String) :
    KeepsFiles (loadModels lines paths) := by
  induction paths with
  | nil => exact keepsFiles_pure []
  | cons path paths ih =>
    have hload : KeepsFiles (loadModel lines path) := (keepsFiles_read path).bind fun _ =>
      (keepsFiles_ofExcept _).bind fun _ => keepsFiles_pure _
    exact hload.bind fun _ => ih.bind fun _ => keepsFiles_pure _

theorem keepsFiles_buildModel (i : Inputs) : KeepsFiles (buildModel i) :=
  keepsFiles_get.bind fun _ => (keepsFiles_ofExcept _).bind fun _ =>
    (keepsFiles_report _).bind fun _ => (keepsFiles_scanSources _).bind fun _ =>
      (keepsFiles_loadModels _ _).bind fun _ => (keepsFiles_report _).bind fun _ =>
        (keepsFiles_report _).bind fun _ => keepsFiles_pure _

/-- The companion cannot be written: there are no files that writing it takes these to. What was
done before the failure adds at most directories on the way to the companion. -/
structure WriteFails (path text : String) (f : Failure) (before after : FileSystem) : Prop where
  failure_eq : ∃ place fault, f = .write place fault
  not_writes : ∀ next, ¬Writes path text before next
  addsDirectories : before.AddsDirectories after (before.OnWay path)

variable {render : Renderer} {s : Settings} {model : Model} {r : Report} {w w' : World}
  {f : Failure}

theorem makeDirectories_eq_error {path : String} (h : Run.makeDirectories path w = .error f w') :
    ∃ fault, f = .write path fault ∧ w.files.makeDirectories path = (w'.files, some fault) := by
  unfold Run.makeDirectories at h
  rcases bind_eq_error.1 h with h | ⟨w₁, w₂, hget, h⟩
  · simp [get_eq_ok] at h
  obtain ⟨rfl, rfl⟩ : w = w₁ ∧ w = w₂ := by simpa [get_eq_ok] using hget
  rcases hm : w.files.makeDirectories path with ⟨files, _ | fault⟩
  · simp [hm, bind, EStateM.bind, modify_eq_ok, pure, EStateM.pure] at h
  · simp only [hm] at h
    rcases bind_eq_error.1 h with h | ⟨_, w₃, hmod, h⟩
    · simp [modify_eq_ok] at h
    · rw [modify_eq_ok, EStateM.Result.ok.injEq] at hmod
      rw [throw_eq, EStateM.Result.error.injEq] at h
      exact ⟨fault, h.1.symm, by rw [← h.2, ← hmod.2]⟩

theorem write_eq_error {path text : String} (h : Run.write path text w = .error f w') :
    ∃ fault, f = .write path fault ∧ w.files.write path text = .error fault ∧ w' = w := by
  unfold Run.write at h
  rcases bind_eq_error.1 h with h | ⟨w₁, w₂, hget, h⟩
  · simp [get_eq_ok] at h
  obtain ⟨rfl, rfl⟩ : w = w₁ ∧ w = w₂ := by simpa [get_eq_ok] using hget
  rcases hw : w.files.write path text with fault | files
  · simp only [hw, throw_eq, EStateM.Result.error.injEq] at h
    exact ⟨fault, h.1.symm, rfl, h.2.symm⟩
  · simp [hw, modify_eq_ok] at h

theorem writeFails_of_writeCompanion {path text : String}
    (h : writeCompanion path text w = .error f w') : WriteFails path text f w.files w'.files := by
  unfold writeCompanion at h
  rcases hp : Path.parent? path with _ | parent
  · rw [hp] at h
    obtain ⟨fault, rfl, hwrite, rfl⟩ := write_eq_error h
    refine ⟨⟨path, fault, rfl⟩, ?_, .refl _ _⟩
    rintro next ⟨made, hmade, -, hnext⟩
    rw [hmade hp, hwrite] at hnext
    simp at hnext
  · rw [hp] at h
    have hadds := FileSystem.addsDirectories_makeDirectories w.files parent
    rcases bind_eq_error.1 h with h | ⟨_, w₁, hmake, h⟩
    · obtain ⟨fault, rfl, hmake⟩ := makeDirectories_eq_error h
      refine ⟨⟨parent, fault, rfl⟩, ?_, ?_⟩
      · rintro next ⟨made, -, hmade, -⟩
        rw [hmade parent hp] at hmake
        simp at hmake
      · rw [hmake] at hadds
        exact hadds.mono fun _ => .of_parent? hp
    · have hmake := makeDirectories_eq_ok hmake
      obtain ⟨fault, rfl, hwrite, rfl⟩ := write_eq_error h
      refine ⟨⟨path, fault, rfl⟩, ?_, ?_⟩
      · rintro next ⟨made, -, hmade, hnext⟩
        obtain ⟨rfl, -⟩ := Prod.mk.inj ((hmade parent hp).symm.trans hmake)
        rw [hwrite] at hnext
        simp at hnext
      · rw [hmake] at hadds
        exact hadds.mono fun _ => .of_parent? hp

/-- The run comes to the job: the companions of those before it were rendered, and take the files
from one state to the other. -/
def Reaches (render : Renderer) (s : Settings) (jobs : List Job) (j : Job)
    (before after : FileSystem) : Prop :=
  ∃ companions later, jobs = companions.map Prod.fst ++ j :: later ∧
    (∀ c ∈ companions, render c.1.attributes = .ok c.2) ∧ Leaves s companions before after

/-- The run stops at the job because it cannot be rendered. -/
def StopsRendering (render : Renderer) (s : Settings) (jobs : List Job) (j : Job) (f : Failure)
    (before after : FileSystem) : Prop :=
  Reaches render s jobs j before after ∧ render j.attributes = .error f

/-- The run stops at the job because its companion cannot be written. -/
def StopsWriting (render : Renderer) (s : Settings) (jobs : List Job) (j : Job) (f : Failure)
    (before after : FileSystem) : Prop :=
  s.dryRun = false ∧ ∃ reached text, Reaches render s jobs j before reached ∧
    render j.attributes = .ok text ∧ WriteFails (j.path s) text f reached after

/-- The run stops at a job. -/
def StopsAt (render : Renderer) (s : Settings) (jobs : List Job) (f : Failure)
    (before after : FileSystem) : Prop :=
  ∃ j, StopsRendering render s jobs j f before after ∨ StopsWriting render s jobs j f before after

section Jobs

variable {jobs : List Job} {j k : Job} {before next after : FileSystem} {text : String}

theorem reaches_head (j : Job) (jobs : List Job) (files : FileSystem) :
    Reaches render s (j :: jobs) j files files :=
  ⟨[], jobs, rfl, by simp, by simp [Leaves, WritesAll]⟩

theorem Reaches.cons (h : Reaches render s jobs j next after) (hk : render k.attributes = .ok text)
    (hwrite : if s.dryRun then next = before else Writes (k.path s) text before next) :
    Reaches render s (k :: jobs) j before after := by
  obtain ⟨companions, later, rfl, htexts, hleaves⟩ := h
  exact ⟨(k, text) :: companions, later, rfl, List.forall_mem_cons.2 ⟨hk, htexts⟩,
    leaves_cons hwrite hleaves⟩

theorem StopsAt.cons (h : StopsAt render s jobs f next after) (hk : render k.attributes = .ok text)
    (hwrite : if s.dryRun then next = before else Writes (k.path s) text before next) :
    StopsAt render s (k :: jobs) f before after := by
  obtain ⟨j, ⟨hreaches, hj⟩ | ⟨hd, reached, text', hreaches, hj, hfails⟩⟩ := h
  · exact ⟨j, .inl ⟨hreaches.cons hk hwrite, hj⟩⟩
  · exact ⟨j, .inr ⟨hd, reached, text', hreaches.cons hk hwrite, hj, hfails⟩⟩

end Jobs

theorem generateJob_eq_error {j : Job} (h : generateJob render s j r w = .error f w') :
    (render j.attributes = .error f ∧ w'.files = w.files) ∨
      s.dryRun = false ∧ ∃ text, render j.attributes = .ok text ∧
        WriteFails (j.path s) text f w.files w'.files := by
  rcases bind_eq_error.1 h with hrender | ⟨text, w₁, hrender, hjob⟩
  · obtain ⟨hf, rfl⟩ := ofExcept_eq_error.1 hrender
    exact .inl ⟨hf, rfl⟩
  obtain ⟨htext, hw₁⟩ := ofExcept_eq_ok.1 hrender
  rcases bind_eq_error.1 hjob with h | ⟨_, w₂, hnote, h⟩
  · simp [report_eq_ok] at h
  have hfiles : w₂.files = w.files := by rw [files_of_report hnote, hw₁]
  by_cases hd : s.dryRun
  · simp [hd, report_eq_ok, bind, EStateM.bind, pure, EStateM.pure] at h
  · simp only [hd, Bool.false_eq_true, if_false] at h
    rcases bind_eq_error.1 h with h | ⟨_, w₃, -, h⟩
    · have hfails := writeFails_of_writeCompanion h
      rw [hfiles] at hfails
      exact .inr ⟨by simpa using hd, text, htext, hfails⟩
    · simp [report_eq_ok, bind, EStateM.bind, pure, EStateM.pure] at h

theorem stopsAt_of_generateJob {j : Job} (h : generateJob render s j r w = .error f w')
    (jobs : List Job) : StopsAt render s (j :: jobs) f w.files w'.files := by
  rcases generateJob_eq_error h with ⟨hf, hfiles⟩ | ⟨hd, text, htext, hfails⟩
  · rw [hfiles]
    exact ⟨j, .inl ⟨reaches_head j jobs w.files, hf⟩⟩
  · exact ⟨j, .inr ⟨hd, w.files, text, reaches_head j jobs w.files, htext, hfails⟩⟩

/-- A run through plans that fails stops at one of their jobs. -/
theorem stopsAt_of_foldlM {ps : List Plan} (h : ps.foldlM (runPlan render s) r w = .error f w') :
    StopsAt render s (ps.filterMap Plan.job) f w.files w'.files := by
  induction ps generalizing r w with
  | nil => simp [pure, EStateM.pure] at h
  | cons p ps ih =>
    rw [List.foldlM_cons] at h
    rcases bind_eq_error.1 h with hplan | ⟨r₁, w₁, hplan, hrest⟩
    · rcases bind_eq_error.1 hplan with hevents | ⟨_, w₁, hevents, hjob⟩
      · simp [report_eq_ok] at hevents
      rcases hj : p.job with _ | j
      · simp [hj, pure, EStateM.pure] at hjob
      · simp only [hj] at hjob
        rw [List.filterMap_cons_some hj, ← files_of_report hevents]
        exact stopsAt_of_generateJob hjob _
    · have hstops := ih hrest
      obtain ⟨_, w₂, hevents, hjob⟩ := bind_eq_ok.1 hplan
      rcases hj : p.job with _ | j
      · simp only [hj] at hjob
        obtain ⟨-, rfl⟩ := pure_eq_ok.1 hjob
        rwa [List.filterMap_cons_none hj, ← files_of_report hevents]
      · simp only [hj] at hjob
        obtain ⟨text, htext, -, hwrite⟩ := generateJob_eq_ok hjob
        rw [files_of_report hevents] at hwrite
        rw [List.filterMap_cons_some hj]
        exact hstops.cons htext hwrite

/-- A run that fails stops at one of its jobs. -/
theorem stopsAt_of_generate (h : generate render s model w = .error f w') :
    StopsAt render s (jobsOf (directPlan model s) model.declarations) f w.files w'.files := by
  rw [generate_eq_foldlM] at h
  rcases bind_eq_error.1 h with h | ⟨r, w₁, -, h⟩
  · exact stopsAt_of_foldlM h
  · simp [report_eq_ok, bind, EStateM.bind, pure, EStateM.pure] at h

/-- Where only directories were added the files are the same, and have the same content. -/
theorem WriteFails.entryAt?_eq_some_iff {path text : String} {before after : FileSystem}
    (h : WriteFails path text f before after) (place : Location) {e : Entry}
    (he : e ≠ .directory) : after.entryAt? place = some e ↔ before.entryAt? place = some e := by
  rcases h.addsDirectories.entry place with hsame | ⟨hnone, hdir, -⟩
  · rw [hsame]
  · simp [hnone, hdir, Ne.symm he]

namespace CommandLine

theorem during_eq_ok {α : Type} {failed : Failure → CommandFailure} {run : Run α} {a : α}
    (h : run w = .ok a w') : during failed run w = .ok a w' := by
  rw [during, h]

theorem during_eq_error {α : Type} (failed : Failure → CommandFailure) {run : Run α}
    (h : run w = .error f w') : during failed run w = .error (failed f) w' := by
  rw [during, h]

/-- Building the model of the inputs only reads. -/
theorem files_loadInputs (i : Inputs) (w : World) : (endOf (loadInputs i w)).files = w.files := by
  unfold loadInputs
  split_ifs
  · rfl
  · have hkeeps := keepsFiles_buildModel i w
    unfold during
    rcases hb : buildModel i w with ⟨m, w₁⟩ | ⟨f, w₁⟩ <;> rwa [hb] at hkeeps

variable {coloured : Bool} {o : GenerateOptions} {t : Templates} {w₁ w₂ w₃ : World}
  {e : CommandFailure}

theorem executeGenerate_of_settings (h : o.settings = .error f) :
    executeGenerate coloured o w = .error (.setup f) w :=
  bind_eq_error.2 (.inl (during_eq_error .setup (ofExcept_eq_error.2 ⟨h, rfl⟩)))

theorem during_settings (h : o.settings = .ok s) (w : World) :
    during .setup (Run.ofExcept o.settings) w = .ok s w :=
  during_eq_ok (ofExcept_eq_ok.2 ⟨h, rfl⟩)

theorem executeGenerate_of_load (hs : o.settings = .ok s)
    (h : Templates.load o.templates w = .error f w₁) :
    executeGenerate coloured o w = .error (.templates f) w₁ := by
  rw [executeGenerate, bind_of_ok (during_settings hs w)]
  exact bind_eq_error.2 (.inl (during_eq_error .templates h))

theorem executeGenerate_of_loadInputs (hs : o.settings = .ok s)
    (ht : Templates.load o.templates w = .ok t w₁) (h : loadInputs o.inputs w₁ = .error e w₂) :
    executeGenerate coloured o w = .error e w₂ := by
  rw [executeGenerate, bind_of_ok (during_settings hs w), bind_of_ok (during_eq_ok ht)]
  exact bind_eq_error.2 (.inl h)

theorem executeGenerate_of_generate (hs : o.settings = .ok s)
    (ht : Templates.load o.templates w = .ok t w₁) (hm : loadInputs o.inputs w₁ = .ok model w₂)
    (h : generate t.render s model w₂ = .error f w₃) :
    executeGenerate coloured o w = .error (.generation f) w₃ := by
  rw [executeGenerate, bind_of_ok (during_settings hs w), bind_of_ok (during_eq_ok ht),
    bind_of_ok hm]
  exact bind_eq_error.2 (.inl (during_eq_error .generation h))

/-- A command that fails leaves the files as they were, unless it is the run that fails. Then it
stops at a job: the companions of the jobs before it were rendered, and written in their order
unless the run is dry. If the job cannot be rendered that is all; if its companion cannot be written
the files have the same content as then. -/
theorem failure_leaves_earlier :
    (∀ coloured (o : GenerateOptions) w,
      (∀ f, o.settings = .error f → executeGenerate coloured o w = .error (.setup f) w) ∧
      ∀ s, o.settings = .ok s →
        (∀ f w₁, Templates.load o.templates w = .error f w₁ →
          executeGenerate coloured o w = .error (.templates f) w₁ ∧ w₁.files = w.files) ∧
        ∀ t w₁, Templates.load o.templates w = .ok t w₁ →
          (∀ e w₂, loadInputs o.inputs w₁ = .error e w₂ →
            executeGenerate coloured o w = .error e w₂ ∧ w₂.files = w.files) ∧
          ∀ model w₂, loadInputs o.inputs w₁ = .ok model w₂ → w₂.files = w.files ∧
            ∀ f w₃, generate t.render s model w₂ = .error f w₃ →
              executeGenerate coloured o w = .error (.generation f) w₃) ∧
    ∀ render s model w f w', generate render s model w = .error f w' →
      ∃ j, StopsRendering render s (jobsOf (directPlan model s) model.declarations) j f
          w.files w'.files ∨
        s.dryRun = false ∧ ∃ reached text,
          Reaches render s (jobsOf (directPlan model s) model.declarations) j w.files reached ∧
          render j.attributes = .ok text ∧ WriteFails (j.path s) text f reached w'.files ∧
          ∀ place e, e ≠ .directory →
            (w'.files.entryAt? place = some e ↔ reached.entryAt? place = some e) := by
  refine ⟨fun coloured o w => ⟨fun f => executeGenerate_of_settings, fun s hs => ⟨?_, ?_⟩⟩, ?_⟩
  · intro f w₁ ht
    exact ⟨executeGenerate_of_load hs ht, (Templates.keepsFiles_load _).of_error ht⟩
  · intro t w₁ ht
    have hfiles : w₁.files = w.files := (Templates.keepsFiles_load _).of_ok ht
    have hinputs := files_loadInputs o.inputs w₁
    refine ⟨fun e w₂ hm => ?_, fun model w₂ hm => ⟨?_, fun f w₃ => ?_⟩⟩
    · rw [hm, hfiles] at hinputs
      exact ⟨executeGenerate_of_loadInputs hs ht hm, hinputs⟩
    · rw [hm, hfiles] at hinputs
      exact hinputs
    · exact executeGenerate_of_generate hs ht hm
  · intro render s model w f w' h
    obtain ⟨j, hrender | ⟨hd, reached, text, hreaches, htext, hfails⟩⟩ := stopsAt_of_generate h
    · exact ⟨j, .inl hrender⟩
    · exact ⟨j, .inr ⟨hd, reached, text, hreaches, htext, hfails, fun place e he =>
        hfails.entryAt?_eq_some_iff place he⟩⟩

/-- Commands whose pattern has no group, whose template is no text, which have no input, and whose
companion has a file in the way, and runs over three events that stop at the last. -/
theorem failure_leaves_earlier_three :
    let o : GenerateOptions :=
      ⟨⟨[], [], false⟩, "out", "java", none, "(.*)Event", .subclass, false, false, false⟩
    let event (package name : String) : Declaration :=
      ⟨package, name ++ "Event", some ⟨name, true⟩, [],
        [⟨"event", "", [], List.nodup_nil⟩], [], none⟩
    let model := Model.ofList [event "p" "A", event "p" "B", event "q" "C"]
    let s : Settings := ⟨"out", "java", .default, .firstWins, false⟩
    let render (refused : String) : Renderer := fun a =>
      if a.subclassName = refused then .error (.render "event") else .ok a.subclassName
    let w : World := ⟨⟨[], [(["event.hbs".toList], .binary [255]), (["out".toList], .directory),
      (["out".toList, "q".toList], .text ""), (["m.json".toList], .text
        ("[\x7b\"package\": \"q\", \"name\": \"C\", \"superclass\": \"D\"," ++
          " \"tags\": [\x7b\"name\": \"event\"\x7d]\x7d]"))]⟩, []⟩
    let jobs := jobsOf (directPlan model s) model.declarations
    (∃ f, executeGenerate false { o with namingPattern := "Event" } w = .error (.setup f) w) ∧
      (∃ f w', executeGenerate false { o with templates := some "" } w = .error (.templates f) w' ∧
        w'.files = w.files) ∧
      (∃ w', executeGenerate false o w = .error .noInput w' ∧ w'.files = w.files) ∧
      (∃ f w', executeGenerate false { o with inputs := ⟨[], ["m.json"], false⟩ } w =
        .error (.generation f) w') ∧
      (∃ j f w', generate (render "CEvent") s model w = .error f w' ∧
        StopsRendering (render "CEvent") s jobs j f w.files w'.files) ∧
      ∃ j f w', generate (render "") s model w = .error f w' ∧
        StopsWriting (render "") s jobs j f w.files w'.files := by
  intro o event model s render w jobs
  obtain ⟨hcommands, hruns⟩ := failure_leaves_earlier
  obtain ⟨s', w', hs'⟩ : ∃ s' w', Run.ofExcept o.settings w = .ok s' w' :=
    exists_eq_ok_of_isSome (by decide +kernel)
  obtain ⟨hs, rfl⟩ := ofExcept_eq_ok.1 hs'
  obtain ⟨w₁, hw₁⟩ : ∃ w₁, Templates.load (some "") w = .error (.read "event.hbs" .notText) w₁ :=
    exists_eq_error_of_errorOf (by decide +kernel)
  refine ⟨⟨.naming (.noGroup "Event"), (hcommands false _ w).1 _ ?_⟩,
    ⟨_, w₁, ((hcommands false { o with templates := some "" } w).2 s' hs).1 _ _ hw₁⟩,
    ⟨w, (((hcommands false o w).2 s' hs).2 .standard w (load_none w)).1 _ _ rfl⟩, ?_, ?_, ?_⟩
  · obtain ⟨w', hw'⟩ : ∃ w', Run.ofExcept { o with namingPattern := "Event" }.settings w =
        .error (.naming (.noGroup "Event")) w' := exists_eq_error_of_errorOf (by decide +kernel)
    exact (ofExcept_eq_error.1 hw').1
  · obtain ⟨model, w₂, hm⟩ : ∃ model w₂, buildModel ⟨[], ["m.json"], false⟩ w = .ok model w₂ :=
      exists_eq_ok_of_isSome (by decide +kernel)
    have hrender : Templates.standard.render = fun a => .ok (String.ofList a.companion) :=
      funext render_standard
    obtain ⟨w₃, h⟩ : ∃ w₃, (do
        let s ← Run.ofExcept o.settings
        let model ← buildModel ⟨[], ["m.json"], false⟩
        generate (fun a => .ok (String.ofList a.companion)) s model) w =
          .error (.write "out/q" .exists) w₃ := exists_eq_error_of_errorOf (by decide +kernel)
    rw [bind_of_ok hs', bind_of_ok hm, ← hrender] at h
    obtain ⟨-, hset⟩ := hcommands false { o with inputs := ⟨[], ["m.json"], false⟩ } w
    obtain ⟨-, hloaded⟩ := hset s' hs
    obtain ⟨-, hbuilt⟩ := hloaded .standard w (load_none w)
    exact ⟨_, w₃, (hbuilt model w₂ (during_eq_ok hm)).2 _ _ h⟩
  · obtain ⟨w', h⟩ : ∃ w', generate (render "CEvent") s model w = .error (.render "event") w' :=
      exists_eq_error_of_errorOf (by decide +kernel)
    obtain ⟨j, hrender | ⟨_, _, _, _, _, hfails, _⟩⟩ := hruns (render "CEvent") s model w _ w' h
    · exact ⟨j, _, w', h, hrender⟩
    · obtain ⟨place, fault, hf⟩ := hfails.failure_eq
      simp at hf
  · obtain ⟨w', h⟩ : ∃ w', generate (render "") s model w =
        .error (.write "out/q" .exists) w' := exists_eq_error_of_errorOf (by decide +kernel)
    obtain ⟨j, ⟨-, hj⟩ | ⟨hd, reached, text, hreaches, htext, hfails, -⟩⟩ :=
      hruns (render "") s model w _ w' h
    · simp only [render] at hj
      split_ifs at hj
      simp at hj
    · exact ⟨j, _, w', h, hd, reached, text, hreaches, htext, hfails⟩

end CommandLine

end Companion
