import Companion.CommandLine.Execution
import Companion.Loading
import Companion.Proofs.DeclarationJson
import Companion.Proofs.FileWrite
import Companion.Proofs.RunSteps

/-!
# Models that were written are built again

Every declaration of a model names its source (`isSome_source_of_buildModel`), and a model keeps the
declarations that it is made of if their names are distinct already (`Model.ofList_declarations`).
So a model that is built from the text of another one is that one (`rebuilds_of_read`), and that is
the text that the command for models writes (`executeModel_eq_ok`).
-/

namespace Companion

/-- A declaration that is found has the package of its source, and a class name of it. -/
theorem exists_eq_declarationOf {source : Option String} {text : List Char} {d : Declaration}
    (h : .declared d ∈ Java.findings source text) : ∃ n header body,
      d = Java.declarationOf (String.ofList
        ((Java.findPackage? (Java.maskedText (Java.mask text))).getD [])) source n header body := by
  simp only [Java.findings, List.mem_map] at h
  obtain ⟨n, -, hn⟩ := h
  unfold Java.ClassName.read at hn
  dsimp only at hn
  split at hn
  · simp at hn
  · split_ifs at hn
    · split at hn
      · simp at hn
      · split_ifs at hn
        simp only [Java.Finding.declared.injEq] at hn
        exact ⟨n, _, _, hn.symm⟩
    · simp only [Java.Finding.declared.injEq] at hn
      exact ⟨n, _, _, hn.symm⟩

theorem source_of_mem_declarations {source : Option String} {text : List Char}
    {d : Declaration} (h : .declared d ∈ Java.findings source text) : d.source = source := by
  obtain ⟨n, header, body, rfl⟩ := exists_eq_declarationOf h
  rfl

theorem mem_findings_of_declarations {fs : List Java.Finding} {ds : List Declaration}
    (h : Java.declarations fs = .ok ds) {d : Declaration} (hd : d ∈ ds) : .declared d ∈ fs := by
  induction fs generalizing ds with
  | nil =>
    simp only [Java.declarations, Except.ok.injEq] at h
    simp [← h] at hd
  | cons f fs ih =>
    cases f with
    | declared e =>
      rcases hr : Java.declarations fs with x | es
      · simp [Java.declarations, hr, Except.map] at h
      · simp only [Java.declarations, hr, Except.map, Except.ok.injEq] at h
        rw [← h] at hd
        rcases List.mem_cons.1 hd with rfl | hd
        · exact List.mem_cons_self
        · exact List.mem_cons_of_mem _ (ih hr hd)
    | bodiless name => exact List.mem_cons_of_mem _ (ih h hd)
    | crossed name => simp [Java.declarations] at h

theorem isSome_source_of_scanSources {paths : List String} {ds : List Declaration}
    {w w' : World} (h : scanSources paths w = .ok ds w') : ∀ d ∈ ds, d.source.isSome := by
  induction paths generalizing ds w w' with
  | nil =>
    simp only [scanSources, pure, EStateM.pure, EStateM.Result.ok.injEq] at h
    simp [← h.1]
  | cons path paths ih =>
    obtain ⟨es, w₁, hes, h⟩ := bind_eq_ok.1 h
    obtain ⟨rest, w₂, hrest, h⟩ := bind_eq_ok.1 h
    simp only [pure, EStateM.pure, EStateM.Result.ok.injEq] at h
    obtain ⟨text, w₃, -, hes⟩ := bind_eq_ok.1 hes
    obtain ⟨_, w₄, -, hes⟩ := bind_eq_ok.1 hes
    obtain ⟨hes, -⟩ := ofExcept_eq_ok.1 hes
    intro d hd
    rw [← h.1] at hd
    rcases List.mem_append.1 hd with hd | hd
    · rcases hs : Java.scan (some path) text with x | fs
      · simp [hs, Except.mapError] at hes
      · simp only [hs, Except.mapError, Except.ok.injEq] at hes
        rw [← hes] at hd
        rw [source_of_mem_declarations (mem_findings_of_declarations hs hd)]
        rfl
    · exact ih hrest d hd

theorem isSome_source_of_loadModels {lines : Bool} {paths : List String} {ds : List Declaration}
    {w w' : World} (h : loadModels lines paths w = .ok ds w') : ∀ d ∈ ds, d.source.isSome := by
  induction paths generalizing ds w w' with
  | nil =>
    simp only [loadModels, pure, EStateM.pure, EStateM.Result.ok.injEq] at h
    simp [← h.1]
  | cons path paths ih =>
    obtain ⟨es, w₁, hes, h⟩ := bind_eq_ok.1 h
    obtain ⟨rest, w₂, hrest, h⟩ := bind_eq_ok.1 h
    simp only [pure, EStateM.pure, EStateM.Result.ok.injEq] at h
    obtain ⟨text, w₃, -, hes⟩ := bind_eq_ok.1 hes
    obtain ⟨fs, w₄, -, hes⟩ := bind_eq_ok.1 hes
    simp only [pure, EStateM.pure, EStateM.Result.ok.injEq] at hes
    intro d hd
    rw [← h.1, ← hes.1] at hd
    rcases List.mem_append.1 hd with hd | hd
    · obtain ⟨e, -, rfl⟩ := List.mem_map.1 hd
      cases hsrc : e.source <;> simp [Declaration.withSource, hsrc]
    · exact ih hrest d hd

theorem mem_of_mem_firstsFrom {seen : List String} {ds : List Declaration} {d : Declaration}
    (h : d ∈ firstsFrom seen ds) : d ∈ ds := by
  induction ds generalizing seen with
  | nil => simp [firstsFrom] at h
  | cons e ds ih =>
    unfold firstsFrom at h
    split_ifs at h
    · exact List.mem_cons_of_mem _ (ih h)
    · rcases List.mem_cons.1 h with rfl | h
      · exact List.mem_cons_self
      · exact List.mem_cons_of_mem _ (ih h)

/-- Every declaration of a model that was built names its source. -/
theorem isSome_source_of_buildModel {i : Inputs} {w w' : World} {m : Model}
    (h : buildModel i w = .ok m w') : ∀ d ∈ m.declarations, d.source.isSome := by
  obtain ⟨_, _, -, h⟩ := bind_eq_ok.1 h
  obtain ⟨_, _, -, h⟩ := bind_eq_ok.1 h
  obtain ⟨_, _, -, h⟩ := bind_eq_ok.1 h
  obtain ⟨scanned, _, hs, h⟩ := bind_eq_ok.1 h
  obtain ⟨loaded, _, hl, h⟩ := bind_eq_ok.1 h
  obtain ⟨_, _, -, h⟩ := bind_eq_ok.1 h
  obtain ⟨_, _, -, h⟩ := bind_eq_ok.1 h
  simp only [pure, EStateM.pure, EStateM.Result.ok.injEq] at h
  intro d hd
  rw [← h.1] at hd
  rcases List.mem_append.1 (mem_of_mem_firstsFrom hd) with hd | hd
  · exact isSome_source_of_scanSources hs d hd
  · exact isSome_source_of_loadModels hl d hd

theorem firstsFrom_eq_self {seen : List String} {ds : List Declaration}
    (hn : (ds.map Declaration.qualifiedName).Nodup) (hs : ∀ d ∈ ds, d.qualifiedName ∉ seen) :
    firstsFrom seen ds = ds := by
  induction ds generalizing seen with
  | nil => rfl
  | cons d ds ih =>
    simp only [List.map_cons, List.nodup_cons, List.mem_cons, forall_eq_or_imp] at hn hs
    have hrest : firstsFrom (d.qualifiedName :: seen) ds = ds := ih hn.2 fun e he => by
      simp only [List.mem_cons, not_or]
      exact ⟨fun heq => hn.1 (heq ▸ List.mem_map_of_mem he), hs.2 e he⟩
    simp [firstsFrom, hs.1, hrest]

theorem Model.ofList_declarations (m : Model) : Model.ofList m.declarations = m := by
  obtain ⟨ds, hn⟩ := m
  simp only [Model.ofList, firstsFrom_eq_self hn (by simp : ∀ d ∈ ds, d.qualifiedName ∉ [])]

/-- The text that models are written as. -/
def Model.dump (m : Model) : String :=
  (Declaration.listToJson m.declarations).pretty

/-- Building from that one model file gives the model and leaves the files as they are. -/
def Rebuilds (path : String) (w : World) (m : Model) : Prop :=
  ∃ w', buildModel ⟨[], [path], false⟩ w = .ok m w' ∧ w'.files = w.files

theorem withSource_of_isSome {d : Declaration} (h : d.source.isSome) (path : String) :
    d.withSource path = d := by
  obtain ⟨package, name, superclass, typeParameters, tags, constructors, source⟩ := d
  obtain ⟨source, rfl⟩ := Option.isSome_iff_exists.1 h
  rfl

theorem read_eq_ok {path text : String} {w : World} (h : w.files.read path = .ok text) :
    Run.read path w = .ok text w := by
  exact bind_eq_ok.2 ⟨w, w, get_eq_ok w, ofExcept_eq_ok.2 ⟨by rw [h]; rfl, rfl⟩⟩

theorem loadModel_eq_ok {path text : String} {lines : Bool} {w : World} {ds : List Declaration}
    (h : w.files.read path = .ok text) (hr : readModel lines text = .ok ds) :
    loadModel lines path w = .ok (ds.map (.withSource path)) w := by
  simp [loadModel, bind, EStateM.bind, read_eq_ok h, hr, Except.mapError, Run.ofExcept, pure,
    EStateM.pure]

theorem loadModel_eq_error {path text message : String} {lines : Bool} {w : World}
    (h : w.files.read path = .ok text) (hr : readModel lines text = .error message) :
    loadModel lines path w = .error (.model path message) w := by
  simp [loadModel, bind, EStateM.bind, read_eq_ok h, hr, Except.mapError, Run.ofExcept, throw_eq]

/-- A model whose declarations name their sources is built again from a file that starts with its
text. -/
theorem rebuilds_of_read {m : Model} (hm : ∀ d ∈ m.declarations, d.source.isSome) {path : String}
    {w : World} (rest : String) (h : w.files.read path = .ok (m.dump ++ rest)) :
    Rebuilds path w m := by
  have hsource : m.declarations.map (.withSource path) = m.declarations := by
    rw [List.map_congr_left (g := id) fun d hd => withSource_of_isSome (hm d hd) path, List.map_id]
  have hread : readModel false (m.dump ++ rest) = .ok m.declarations :=
    readText?_pretty m.declarations rest
  have hscan (w' : World) : scanSources [] w' = .ok [] w' := rfl
  have hload (w' : World) (hw : w'.files = w.files) :
      loadModels false [path] w' = .ok m.declarations w' := by
    have := loadModel_eq_ok (hw ▸ h : w'.files.read path = .ok (m.dump ++ rest)) hread
    simp [loadModels, bind, EStateM.bind, this, hsource, pure, EStateM.pure]
  have hdiscover : discover w.files [] = .ok [] := by
    simp [discover, dropRepeats, bind, Except.bind, pure, Except.pure]
  refine exists_bind_eq_ok (a := w) rfl (exists_bind_eq_ok (ofExcept_eq_ok.2 ⟨hdiscover, rfl⟩) ?_)
  refine exists_bind_eq_ok (report_eq_ok _ _) (exists_bind_eq_ok (hscan _) ?_)
  refine exists_bind_eq_ok (hload _ rfl) ?_
  refine exists_bind_eq_ok (report_eq_ok _ _) (exists_bind_eq_ok (report_eq_ok _ _) ?_)
  rw [List.nil_append, Model.ofList_declarations]
  exact ⟨_, rfl, rfl⟩

namespace CommandLine

theorem loadInputs_eq_ok {i : Inputs} {w w' : World} {m : Model} :
    loadInputs i w = .ok m w' ↔
      (i.sources ≠ [] ∨ i.models ≠ []) ∧ buildModel i w = .ok m w' := by
  unfold loadInputs
  split_ifs with hi
  · simp_all [throw_eq]
  · have hi' : i.sources ≠ [] ∨ i.models ≠ [] := by
      simpa [imp_iff_not_or] using hi
    simp only [hi', true_and, during]
    rcases buildModel i w with ⟨a, w₁⟩ | ⟨e, w₁⟩
    · simp
    · simp

/-- The command for models writes the text of the model to the standard output. -/
theorem executeModel_eq_ok {i : Inputs} {w w' : World} {m : Model}
    (hi : i.sources ≠ [] ∨ i.models ≠ []) (h : buildModel i w = .ok m w') (noOp : Bool) :
    executeModel ⟨i, none, noOp⟩ w = .ok ⟨m.dump ++ "\n", ""⟩ w' :=
  bind_eq_ok.2 ⟨m, w', loadInputs_eq_ok.2 ⟨hi, h⟩, rfl⟩

theorem read_of_writeModel {path json : String} {w w' : World} {u : Unit}
    (h : writeModel path json w = .ok u w') : w'.files.read path = .ok json := by
  have hwrite {w₁ : World} {write : World → Execution Unit}
      (hok : ∀ w files, w.files.write path json = .ok files →
        write w = modify fun w => { w with files })
      (herror : ∀ w fault, w.files.write path json = .error fault →
        write w = throw (.write path fault))
      (h : (get >>= write) w₁ = .ok u w') : w'.files.read path = .ok json := by
    obtain ⟨w₂, _, hget, h⟩ := bind_eq_ok.1 h
    rcases hw : w₂.files.write path json with f | files
    · simp [herror w₂ f hw, throw_eq] at h
    · simp only [hok w₂ files hw, modify_eq_ok, EStateM.Result.ok.injEq] at h
      rw [← h.2]
      exact FileSystem.read_of_write hw
  unfold writeModel at h
  rcases hp : Path.parent? path with _ | parent
  · rw [hp] at h
    exact hwrite (fun w files hw => by rw [hw]) (fun w fault hw => by rw [hw]) h
  · rw [hp] at h
    obtain ⟨w₁, _, -, h⟩ := bind_eq_ok.1 h
    rcases hd : w₁.files.makeDirectories parent with ⟨files, _ | fault⟩
    · simp only [hd] at h
      obtain ⟨_, _, -, h⟩ := bind_eq_ok.1 h
      exact hwrite (fun w files hw => by rw [hw]) (fun w fault hw => by rw [hw]) h
    · simp only [hd] at h
      obtain ⟨_, _, -, h⟩ := bind_eq_ok.1 h
      obtain ⟨_, _, hthrow, -⟩ := bind_eq_ok.1 h
      simp [throw_eq] at hthrow

/-- A model that is written to a file is built from that file again. -/
theorem rebuilds_of_executeModel {i : Inputs} {w w₁ w' : World} {m : Model} {path : String}
    {noOp : Bool} {out : Output} (hm : buildModel i w = .ok m w₁)
    (h : executeModel ⟨i, some path, noOp⟩ w = .ok out w') : Rebuilds path w' m := by
  obtain ⟨m', w₂, hload, h⟩ := bind_eq_ok.1 h
  obtain ⟨_, _, hwrite, h⟩ := bind_eq_ok.1 h
  obtain rfl : m' = m := by
    have := (loadInputs_eq_ok.1 hload).2
    simp_all
  simp only [pure, EStateM.pure, EStateM.Result.ok.injEq] at h
  rw [← h.2]
  refine rebuilds_of_read (isSome_source_of_buildModel hm) "" ?_
  rw [String.append_empty]
  exact read_of_writeModel hwrite

/-- Lists of declarations are read back from both layouts that they are written in. A model that was
built is built again from any file with the text that the command for models writes. -/
theorem declarations_round_trip :
    (∀ ds : List Declaration,
      Json.readText? Declaration.readAll (Declaration.listToJson ds).compress = .ok ds ∧
      Json.readText? Declaration.readAll (Declaration.listToJson ds).pretty = .ok ds) ∧
    ∀ (i : Inputs) (noOp : Bool) (w w₁ : World) (m : Model), buildModel i w = .ok m w₁ →
      (∀ d ∈ m.declarations, d.source.isSome) ∧
      (i.sources ≠ [] ∨ i.models ≠ [] →
        executeModel ⟨i, none, noOp⟩ w = .ok ⟨m.dump ++ "\n", ""⟩ w₁) ∧
      (∀ path w₂, w₂.files.read path = .ok (m.dump ++ "\n") → Rebuilds path w₂ m) ∧
      ∀ path out w₂, executeModel ⟨i, some path, noOp⟩ w = .ok out w₂ →
        Rebuilds path w₂ m := by
  refine ⟨fun ds => ⟨readText?_compress ds, ?_⟩, fun i noOp w w₁ m h => ?_⟩
  · have := readText?_pretty ds ""
    rwa [String.append_empty] at this
  · have hm := isSome_source_of_buildModel h
    refine ⟨hm, fun hi => executeModel_eq_ok hi h noOp, fun path w₂ hr => ?_,
      fun path out w₂ hx => ?_⟩
    · exact rebuilds_of_read hm "\n" hr
    · exact rebuilds_of_executeModel h hx

/-- The model in the file `m.json` is written to the standard output and to the file `copy.json`,
from which it is built again. -/
theorem declarations_round_trip_copy :
    let m := Model.ofList
      [⟨"", "É", some ⟨"A<T>", false⟩, ["T"], [⟨"event", "", [], by simp⟩], [], some "É.java"⟩]
    let w : World := ⟨⟨[['w']], [([['w'], "m.json".toList], .text m.dump)]⟩, []⟩
    ∃ w₁ w₂, buildModel ⟨[], ["m.json"], false⟩ w = .ok m w₁ ∧
      executeModel ⟨⟨[], ["m.json"], false⟩, none, false⟩ w = .ok ⟨m.dump ++ "\n", ""⟩ w₁ ∧
      executeModel ⟨⟨[], ["m.json"], false⟩, some "copy.json", false⟩ w = .ok ⟨"", ""⟩ w₂ ∧
      Rebuilds "copy.json" w₂ m := by
  intro m w
  obtain ⟨w₁, hbuild, hfiles⟩ : Rebuilds "m.json" w m := by
    refine rebuilds_of_read (fun d hd => ?_) "" ?_
    · simp_all [m, Model.ofList, firstsFrom]
    · rw [String.append_empty]
      rfl
  have hwrite : writeModel "copy.json" m.dump w₁ = .ok ()
      { w₁ with files := w.files.set [['w'], "copy.json".toList] (.text m.dump) } := by
    obtain ⟨files, log⟩ := w₁
    obtain rfl : files = w.files := hfiles
    rfl
  have hcopy : executeModel ⟨⟨[], ["m.json"], false⟩, some "copy.json", false⟩ w = .ok ⟨"", ""⟩ _ :=
    bind_eq_ok.2 ⟨m, w₁, loadInputs_eq_ok.2 ⟨by simp, hbuild⟩, bind_eq_ok.2 ⟨(), _, hwrite, rfl⟩⟩
  obtain ⟨-, hout, -, hrebuild⟩ :=
    declarations_round_trip.2 ⟨[], ["m.json"], false⟩ false w w₁ m hbuild
  exact ⟨w₁, _, hbuild, hout (by simp), hcopy, hrebuild _ _ _ hcopy⟩

end CommandLine

end Companion
