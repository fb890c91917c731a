import Companion.Proofs.RunFailures

/-!
# Dry runs

A run is dry or writes; nothing else of it depends on that. Which job is the first that cannot be
rendered is a matter of the jobs and the renderer (`FirstRefused.unique`). A dry run stops there,
and so does a run that writes, unless it stops earlier at a companion that cannot be written
(`dry_run_predicts`).
-/

namespace Companion

variable {render : Renderer} {s : Settings} {model : Model} {r : Report} {w w' : World}
  {f f' : Failure} {jobs : List Job} {j j' : Job} {before after after' : FileSystem}

theorem writes_unique {path text : String} (h : Writes path text before after)
    (h' : Writes path text before after') : after = after' := by
  obtain ⟨made, hnone, hsome, hwrite⟩ := h
  obtain ⟨made', hnone', hsome', hwrite'⟩ := h'
  have hmade : made = made' := by
    rcases hp : Path.parent? path with _ | parent
    · rw [hnone hp, hnone' hp]
    · exact (Prod.mk.inj ((hsome parent hp).symm.trans (hsome' parent hp))).1
  rw [hmade, hwrite'] at hwrite
  exact (Except.ok.inj hwrite).symm

theorem writesAll_unique {cs : List (String × String)} (h : WritesAll cs before after)
    (h' : WritesAll cs before after') : after = after' := by
  induction cs generalizing before with
  | nil => exact h.trans h'.symm
  | cons c cs ih =>
    obtain ⟨next, hnext, h⟩ := h
    obtain ⟨next', hnext', h'⟩ := h'
    obtain rfl := writes_unique hnext hnext'
    exact ih h h'

/-- The job is the first one that the renderer refuses. -/
def FirstRefused (render : Renderer) (jobs : List Job) (j : Job) (f : Failure) : Prop :=
  ∃ earlier later, jobs = earlier ++ j :: later ∧
    (∀ k ∈ earlier, ∃ text, render k.attributes = .ok text) ∧ render j.attributes = .error f

/-- What a run that comes to a job has done: the renderer took all jobs before it, and a run that is
not dry has written their companions. -/
theorem exists_earlier_of_reaches (h : Reaches render s jobs j before after) :
    ∃ earlier later, jobs = earlier ++ j :: later ∧
      (∀ k ∈ earlier, ∃ text, render k.attributes = .ok text) ∧
      (s.dryRun = false → WritesAll (earlier.map (Job.companion render s)) before after) := by
  obtain ⟨companions, later, hjobs, htexts, hleaves⟩ := h
  refine ⟨companions.map Prod.fst, later, hjobs, fun k hk => ?_, fun hd => ?_⟩
  · obtain ⟨c, hc, rfl⟩ := List.mem_map.1 hk
    exact ⟨c.2, htexts c hc⟩
  · rw [Leaves, hd, if_neg Bool.false_ne_true, map_companion htexts] at hleaves
    exact hleaves

theorem StopsRendering.firstRefused (h : StopsRendering render s jobs j f before after) :
    FirstRefused render jobs j f := by
  obtain ⟨earlier, later, hjobs, htexts, -⟩ := exists_earlier_of_reaches h.1
  exact ⟨earlier, later, hjobs, htexts, h.2⟩

theorem FirstRefused.mem (h : FirstRefused render jobs j f) : j ∈ jobs := by
  obtain ⟨earlier, later, rfl, -⟩ := h
  simp

/-- A job whose predecessors are all taken by the renderer does not come after one that is
refused. -/
theorem append_eq_append_of_refused {earlier later earlier' later' : List Job}
    (h : earlier ++ j :: later = earlier' ++ j' :: later') (hj : render j.attributes = .error f)
    (htexts : ∀ k ∈ earlier', ∃ text, render k.attributes = .ok text) :
    (earlier' = earlier ∧ j' = j) ∨ ∃ rest, earlier = earlier' ++ j' :: rest := by
  rcases List.append_eq_append_iff.1 h with ⟨rest, rfl, hrest⟩ | ⟨rest, rfl, hrest⟩
  · rcases rest with _ | ⟨k, rest⟩
    · exact .inl ⟨by simp, (List.cons.inj hrest).1.symm⟩
    · obtain rfl := (List.cons.inj hrest).1
      obtain ⟨text, htext⟩ := htexts j (by simp)
      simp [hj] at htext
  · rcases rest with _ | ⟨k, rest⟩
    · exact .inl ⟨by simp, (List.cons.inj hrest).1⟩
    · obtain rfl := (List.cons.inj hrest).1
      exact .inr ⟨rest, rfl⟩

theorem FirstRefused.unique (h : FirstRefused render jobs j f)
    (h' : FirstRefused render jobs j' f') : j' = j ∧ f' = f := by
  obtain ⟨earlier, later, rfl, htexts, hj⟩ := h
  obtain ⟨earlier', later', hjobs, htexts', hj'⟩ := h'
  rcases append_eq_append_of_refused hjobs hj htexts' with ⟨-, rfl⟩ | ⟨rest, rfl⟩
  · exact ⟨rfl, Except.error.inj (hj'.symm.trans hj)⟩
  · obtain ⟨text, htext⟩ := htexts j' (by simp)
    simp [hj'] at htext

/-- A run that comes to a refused job stops at none before it. -/
theorem StopsWriting.not_reaches (h : StopsWriting render s jobs j' f' before after)
    (hj : render j.attributes = .error f) : ¬Reaches render s jobs j before after' := by
  intro hreaches
  obtain ⟨hd, reached, text, hreaches', htext, hfails⟩ := h
  obtain ⟨earlier, later, hjobs, htexts, hwrites⟩ := exists_earlier_of_reaches hreaches
  obtain ⟨earlier', later', hjobs', htexts', hwrites'⟩ := exists_earlier_of_reaches hreaches'
  rcases append_eq_append_of_refused (hjobs.symm.trans hjobs') hj htexts' with
    ⟨-, rfl⟩ | ⟨rest, rfl⟩
  · simp [hj] at htext
  · have hall := hwrites hd
    rw [List.map_append, List.map_cons] at hall
    obtain ⟨middle, hmiddle, next, hnext, -⟩ := FileSystem.writesAll_append hall
    obtain rfl := writesAll_unique hmiddle (hwrites' hd)
    have hcompanion : j'.companion render s = (j'.path s, text) := by
      simp [Job.companion, htext, Except.toOption]
    rw [hcompanion] at hnext
    exact hfails.not_writes next hnext

def FailsRendering (render : Renderer) (s : Settings) (model : Model) (w : World) (j : Job)
    (f : Failure) : Prop :=
  ∃ w', generate render s model w = .error f w' ∧
    StopsRendering render s (jobsOf (directPlan model s) model.declarations) j f w.files w'.files

/-- A run that succeeds has no job that is refused. -/
theorem not_firstRefused_of_generate (h : generate render s model w = .ok r w') :
    ¬FirstRefused render (jobsOf (directPlan model s) model.declarations) j f := by
  intro hrefused
  obtain ⟨text, htext, -⟩ := (leaves_of_generate h).1 j hrefused.mem
  obtain ⟨-, -, -, -, hj⟩ := hrefused
  simp [hj] at htext

/-- A run fails at the first job that is refused if it comes there. -/
theorem failsRendering_iff (w : World) : FailsRendering render s model w j f ↔
    FirstRefused render (jobsOf (directPlan model s) model.declarations) j f ∧
      ∃ reached, Reaches render s (jobsOf (directPlan model s) model.declarations) j
        w.files reached := by
  constructor
  · rintro ⟨w', -, hstops⟩
    exact ⟨hstops.firstRefused, w'.files, hstops.1⟩
  · rintro ⟨hrefused, reached, hreaches⟩
    rcases h : generate render s model w with ⟨r, w'⟩ | ⟨f', w'⟩
    · exact absurd hrefused (not_firstRefused_of_generate h)
    · obtain ⟨j', hstops | hstops⟩ := stopsAt_of_generate h
      · obtain ⟨rfl, rfl⟩ := hrefused.unique hstops.firstRefused
        exact ⟨w', h, hstops⟩
      · obtain ⟨-, -, -, -, hj⟩ := hrefused
        exact absurd hreaches (hstops.not_reaches hj)

/-- A dry run comes to the first job that is refused. -/
theorem FirstRefused.reaches (h : FirstRefused render jobs j f) (hd : s.dryRun = true)
    (files : FileSystem) : Reaches render s jobs j files files := by
  obtain ⟨earlier, later, rfl, htexts, -⟩ := h
  refine ⟨earlier.map (Job.withText render), later, ?_, fun c hc => ?_, ?_⟩
  · simp [Job.withText, Function.comp_def]
  · obtain ⟨k, hk, rfl⟩ := List.mem_map.1 hc
    obtain ⟨text, htext⟩ := htexts k hk
    simp [Job.withText, htext, Except.toOption]
  · rw [Leaves, if_pos hd]

/-- A dry run fails at the first job that is refused, whatever the files are. -/
theorem failsRendering_iff_of_dryRun (hd : s.dryRun = true) (w : World) :
    FailsRendering render s model w j f ↔
      FirstRefused render (jobsOf (directPlan model s) model.declarations) j f := by
  rw [failsRendering_iff, and_iff_left_iff_imp]
  exact fun h => ⟨w.files, h.reaches hd w.files⟩

/-- Whether the run is dry does not change what is entered into its report. -/
theorem foldl_enter_dryRun (ps : List Plan) (b : Bool) (r : Report) :
    ps.foldl (Report.enter { s with dryRun := b }) { r with dryRun := b } =
      { ps.foldl (Report.enter s) r with dryRun := b } := by
  induction ps generalizing r with
  | nil => rfl
  | cons p ps ih => exact ih (r.enter s p)

theorem report_dryRun (b : Bool) (h : generate render s model w = .ok r w')
    {r' : Report} {w₁ w₁' : World}
    (h' : generate render { s with dryRun := b } model w₁ = .ok r' w₁') :
    r' = { r with dryRun := b } := by
  rw [(generate_eq_ok h).1, (generate_eq_ok h').1]
  exact foldl_enter_dryRun _ b (.start s)

/-- A dry run changes no file, and what fails it is the renderer. It succeeds with the report of the
run that writes if that succeeds, from whatever files, and fails at the same job if that cannot
be rendered; a run that writes fails there exactly if the companions of the jobs before can be
written. -/
theorem dry_run_predicts (render : Renderer) (s : Settings) (model : Model) (w : World) :
    let jobs := jobsOf (directPlan model s) model.declarations
    let dry := { s with dryRun := true }
    let real := { s with dryRun := false }
    (endOf (generate render dry model w)).files = w.files ∧
      (∀ f w', generate render dry model w = .error f w' →
        ∃ j ∈ jobs, FailsRendering render dry model w j f) ∧
      ∀ w₁,
        (∀ r w', generate render real model w₁ = .ok r w' →
          ∃ w'', generate render dry model w = .ok { r with dryRun := true } w'') ∧
        ∀ j f, FailsRendering render real model w₁ j f ↔
          FailsRendering render dry model w j f ∧
            ∃ reached, Reaches render real jobs j w₁.files reached := by
  intro jobs dry real
  have hfails {f : Failure} {w' : World} (h : generate render dry model w = .error f w') :
      w'.files = w.files ∧ ∃ j ∈ jobs, FailsRendering render dry model w j f := by
    obtain ⟨j, hstops | ⟨hdry, -⟩⟩ := stopsAt_of_generate h
    · obtain ⟨⟨_, _, -, -, hleaves⟩, -⟩ := id hstops
      exact ⟨hleaves, j, hstops.firstRefused.mem, w', h, hstops⟩
    · simp [dry] at hdry
  refine ⟨?_, fun f w' h => (hfails h).2, fun w₁ => ⟨fun r w' h => ?_, fun j f => ?_⟩⟩
  · rcases h : generate render dry model w with ⟨r, w'⟩ | ⟨f, w'⟩
    · obtain ⟨-, _, -, -, hleaves⟩ := generate_eq_ok h
      exact hleaves
    · exact (hfails h).1
  · rcases h' : generate render dry model w with ⟨r', w''⟩ | ⟨f, w''⟩
    · exact ⟨w'', by rw [report_dryRun true h h']⟩
    · obtain ⟨-, j, -, hj⟩ := hfails h'
      have hrefused := (failsRendering_iff_of_dryRun rfl w).1 hj
      exact absurd hrefused (not_firstRefused_of_generate (s := real) h)
  · rw [failsRendering_iff_of_dryRun rfl w, failsRendering_iff]
    exact Iff.rfl

/-- Two runs over three events, one of which is refused by the renderer of the second run. -/
theorem dry_run_predicts_three :
    let event (package name : String) : Declaration :=
      ⟨package, name ++ "Event", some ⟨name, true⟩, [],
        [⟨"event", "", [], List.nodup_nil⟩], [], none⟩
    let model := Model.ofList [event "p" "A", event "p" "B", event "p.q" "C"]
    let s : Settings := ⟨"out", "java", .default, .firstWins, false⟩
    let dry := { s with dryRun := true }
    let real := { s with dryRun := false }
    let render (refused : String) : Renderer := fun a =>
      if a.subclassName = refused then .error (.render "event") else .ok a.subclassName
    let w : World := ⟨⟨[], []⟩, []⟩
    (∃ r w' w'', generate (render "") real model w = .ok r w' ∧
      generate (render "") dry model w = .ok { r with dryRun := true } w'' ∧
      r.generated.length = 3 ∧ w''.files = w.files) ∧
    ∃ j, FailsRendering (render "CEvent") real model w j (.render "event") ∧
      FailsRendering (render "CEvent") dry model w j (.render "event") := by
  intro event model s dry real render w
  constructor
  · obtain ⟨r, w', h⟩ : ∃ r w', generate (render "") real model w = .ok r w' :=
      exists_eq_ok_of_isSome (by decide +kernel)
    have hlength : r.generated.length = 3 := by
      rw [generated_eq h]
      decide +kernel
    obtain ⟨hfiles, -, hreal⟩ := dry_run_predicts (render "") s model w
    obtain ⟨w'', h'⟩ := (hreal w).1 r w' h
    rw [h'] at hfiles
    exact ⟨r, w', w'', h, h', hlength, hfiles⟩
  · obtain ⟨w', h⟩ : ∃ w', generate (render "CEvent") real model w = .error (.render "event") w' :=
      exists_eq_error_of_errorOf (by decide +kernel)
    obtain ⟨-, -, hreal⟩ := dry_run_predicts (render "CEvent") s model w
    obtain ⟨j, hstops | ⟨-, _, _, -, -, hfails⟩⟩ := stopsAt_of_generate h
    · exact ⟨j, ⟨w', h, hstops⟩, (((hreal w).2 j _).1 ⟨w', h, hstops⟩).1⟩
    · obtain ⟨_, _, hf⟩ := hfails.failure_eq
      simp at hf

end Companion
