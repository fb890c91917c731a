import Companion.Loading
import Companion.Proofs.Containment

/-!
# Companions that leave the output directory

A model file can put slashes into packages and superclasses. A part of an output path that does not
start with one goes on from the output directory, by names and nothing that leads up or starts over
before the last one (`outputs_of_relative`). A part that starts with one starts over at the root:
the output path is that part and what follows it, whatever the output directory
(`outputs_of_rooted`). So a run stays in the output directory if no part starts with a slash
(`loaded_outputs`), and a model file can lead it elsewhere (`loaded_outputs_rooted`).
-/

namespace Companion

namespace Path

variable {c : Char} {text name : List Char}

theorem eq_of_ofPiece?_here {first : Bool} {piece : List Char}
    (h : Component.ofPiece? first piece = some .here) : first = true ∧ piece = ['.'] := by
  unfold Component.ofPiece? at h
  split_ifs at h with _ hdot hfirst
  · exact ⟨hfirst, hdot⟩
  · simp at h
  · simp at h

theorem ofPiece?_ne_root {first : Bool} {piece : List Char} :
    Component.ofPiece? first piece ≠ some .root := by
  unfold Component.ofPiece?
  split_ifs <;> simp

/-- A text that starts with neither a slash nor a dot goes on from wherever it is put. -/
theorem isRelative_cons (hslash : c ≠ '/') (hdot : c ≠ '.') (text : List Char) :
    IsRelative (c :: text) := by
  have habs : isAbsolute (c :: text) = false := by simp [isAbsolute, hslash]
  refine ⟨habs, fun h => ?_⟩
  rw [components_of_isAbsolute_eq_false habs, pieces, List.splitOn_cons_eq_if_modifyHead,
    if_neg (by simpa using hslash)] at h
  obtain ⟨⟨first, piece⟩, hpiece, hhere⟩ := List.mem_filterMap.1 h
  obtain ⟨rfl, rfl⟩ := eq_of_ofPiece?_here hhere
  rcases hs : text.splitOn '/' with _ | ⟨first, rest⟩
  · exact absurd hs (List.splitOn_ne_nil _ _)
  · rw [hs] at hpiece
    simp [Ne.symm hdot] at hpiece

theorem components_eq_namesOf (h : IsRelative text) :
    components text =
      (FileSystem.namesOf (String.ofList text)).filterMap (Component.ofPiece? false) := by
  rw [h.components_eq, FileSystem.namesOf, String.toList_ofList, List.filterMap_filter]
  refine List.filterMap_congr fun piece _ => ?_
  rcases piece with _ | ⟨c, cs⟩ <;> rfl

theorem eq_name_of_mem (hdot : '.' ∉ text) {names : List (List Char)}
    (hnames : ∀ name ∈ names, name ⊆ text) {x : Component}
    (hx : x ∈ names.filterMap (Component.ofPiece? false)) : ∃ name, x = .name name := by
  obtain ⟨name, hname, hx⟩ := List.mem_filterMap.1 hx
  have hdot' : '.' ∉ name := fun h => hdot (hnames name hname h)
  unfold Component.ofPiece? at hx
  split_ifs at hx with _ hhere _ hup
  · simp [hhere] at hdot'
  · simp [hup] at hdot'
  · exact ⟨name, (Option.some.inj hx).symm⟩

/-- A path that is pushed onto after a text that starts at the root does not depend on where it
started before. -/
theorem foldl_push_of_isAbsolute {front back : List (List Char)} (h : isAbsolute text = true)
    (directory : String) :
    (front ++ text :: back).foldl (fun path text => push path (String.ofList text)) directory =
      back.foldl (fun path text => push path (String.ofList text)) (String.ofList text) := by
  rw [List.foldl_append, List.foldl_cons, push, String.toList_ofList, h, Bool.true_or, if_pos rfl]

end Path

variable {render : Renderer} {s : Settings} {model : Model} {d : Declaration} {j : Job}
  {package className : String}

namespace Settings

theorem isRelative_of_mem_outputNames (hne : className ≠ "") (hdot : '.' ∉ className.toList)
    {text : List Char} (htext : text ∈ s.outputNames package className)
    (h : Path.isAbsolute text = false) : Path.IsRelative text := by
  obtain ⟨c, cs, rfl, hc⟩ : ∃ c cs, text = c :: cs ∧ c ≠ '.' := by
    rcases List.mem_append.1 htext with hmem | hmem
    · obtain ⟨hmem, hnil⟩ := List.mem_filter.1 hmem
      obtain ⟨c, cs, rfl⟩ := List.exists_cons_of_ne_nil (by simpa using hnil : text ≠ [])
      have hsplit := (Path.not_mem_of_mem_splitOn hmem).1
      exact ⟨c, cs, rfl, fun hc => hsplit (by simp [hc])⟩
    · obtain ⟨c, cs, hcs⟩ := List.exists_cons_of_ne_nil (by simpa using hne : className.toList ≠ [])
      refine ⟨c, cs ++ '.' :: s.extension.toList, ?_, fun hc => hdot (by simp [hcs, hc])⟩
      rw [List.mem_singleton.1 hmem]
      simp [hcs]
  exact Path.isRelative_cons (by rintro rfl; simp [Path.isAbsolute] at h) hc cs

theorem exists_components_outputNames (hdot : '.' ∉ className.toList)
    (hx : '/' ∉ s.extension.toList)
    (h : ∀ text ∈ s.outputNames package className, Path.IsRelative text) :
    ∃ before last, (s.outputNames package className).flatMap Path.components =
        before ++ (Path.Component.ofPiece? false last).toList ∧
      ∀ x ∈ before, ∃ name, x = .name name := by
  obtain ⟨front, last, hlast, hfront⟩ :=
    Path.exists_namesOf_append className.toList (List.cons_ne_nil '.' s.extension.toList)
      (by simp [hx])
  have hfile : (className ++ "." ++ s.extension).toList =
      className.toList ++ '.' :: s.extension.toList := by simp
  obtain ⟨hsegments, hrelative⟩ := List.forall_mem_append.1 h
  rw [List.forall_mem_singleton] at hrelative
  refine ⟨((package.toList.splitOn '.').filter (!·.isEmpty)).flatMap Path.components ++
    front.filterMap (Path.Component.ofPiece? false), last, ?_, fun x hx => ?_⟩
  · rw [outputNames, List.flatMap_append, List.flatMap_singleton,
      Path.components_eq_namesOf hrelative, hfile, hlast, List.filterMap_append, List.append_assoc]
    rcases ho : Path.Component.ofPiece? false last <;> simp [ho]
  · rcases List.mem_append.1 hx with hx | hx
    · obtain ⟨segment, hsegment, hx⟩ := List.mem_flatMap.1 hx
      have hmem := (Path.not_mem_of_mem_splitOn (List.mem_filter.1 hsegment).1).1
      rw [Path.components_eq_namesOf (hsegments segment hsegment)] at hx
      exact Path.eq_name_of_mem hmem (fun _ => Path.mem_namesOf) hx
    · exact Path.eq_name_of_mem hdot hfront hx

/-- Without a part that starts at the root an output path goes on from the output directory. Before
the last one all components that it adds are names. -/
theorem components_outputPath (hne : className ≠ "") (hdot : '.' ∉ className.toList)
    (hx : '/' ∉ s.extension.toList)
    (h : ∀ text ∈ s.outputNames package className, Path.isAbsolute text = false) :
    ∃ more, Path.components (s.outputPath package className).toList =
        Path.components s.outputDir.toList ++ more ∧
      more = (s.outputNames package className).flatMap Path.components ∧
      .root ∉ more ∧ .here ∉ more ∧ ∀ x ∈ more.dropLast, ∃ name, x = .name name := by
  have hrelative : ∀ text ∈ s.outputNames package className, Path.IsRelative text :=
    fun text htext => isRelative_of_mem_outputNames hne hdot htext (h text htext)
  refine ⟨_, ?_, rfl, ?_, ?_, ?_⟩
  · rw [outputPath_eq, Path.components_foldl_push_of_isRelative hrelative]
  · intro hmem
    obtain ⟨text, htext, hmem⟩ := List.mem_flatMap.1 hmem
    rw [(hrelative text htext).components_eq] at hmem
    obtain ⟨piece, -, hpiece⟩ := List.mem_filterMap.1 hmem
    exact Path.ofPiece?_ne_root hpiece
  · intro hmem
    obtain ⟨text, htext, hmem⟩ := List.mem_flatMap.1 hmem
    exact (hrelative text htext).here hmem
  · obtain ⟨before, last, he, hnames⟩ := exists_components_outputNames hdot hx hrelative
    rw [he]
    rcases Path.Component.ofPiece? false last with _ | x
    · simpa using fun x hx => hnames x (List.dropLast_subset _ hx)
    · simpa using hnames

end Settings

/-- Where companions go if the extension holds no slash. Unless a part of an output path starts at
the root, the path goes on from the output directory; a part that does makes it start over, so that
it has nothing of the output directory. A run without such a part changes nothing outside the
output directory, besides adding the directories on the way to it. -/
theorem loaded_outputs (hx : '/' ∉ s.extension.toList) :
    (∀ (model : Model) (index : NameIndex model) (d : Declaration) (j : Job),
      (plan s d index).1.job = some j →
        ((∀ text ∈ s.outputNames d.package j.className, Path.isAbsolute text = false) →
          ∃ more, Path.components (j.path s).toList = Path.components s.outputDir.toList ++ more ∧
            more = (s.outputNames d.package j.className).flatMap Path.components ∧
            .root ∉ more ∧ .here ∉ more ∧ ∀ x ∈ more.dropLast, ∃ name, x = .name name) ∧
        ∀ front text back, s.outputNames d.package j.className = front ++ text :: back →
          Path.isAbsolute text →
            j.path s = back.foldl (fun path text => Path.push path (String.ofList text))
              (String.ofList text)) ∧
    ∀ model : Model, (∀ d ∈ model.declarations, ∀ j,
      (plan s d (NameIndex.empty : NameIndex model)).1.job = some j →
        ∀ text ∈ s.outputNames d.package j.className, Path.isAbsolute text = false) →
      ∀ render, Run.StaysIn s.outputDir (generate render s model) := by
  refine ⟨fun model index d j h => ?_, fun model hmodel render => staysIn_generate ?_⟩
  · obtain ⟨rfl, hclass, hne⟩ := eq_of_job_plan h
    refine ⟨fun hrelative => ?_, fun front text back hnames htext => ?_⟩
    · rw [hclass] at hrelative ⊢
      rw [Job.path, hclass]
      exact Settings.components_outputPath hne (not_mem_companionName _) hx hrelative
    · rw [Job.path, Settings.outputPath_eq, hnames, Path.foldl_push_of_isAbsolute htext]
  · intro d hd j h
    obtain ⟨rfl, hclass, -⟩ := eq_of_job_directPlan h
    rw [← (plan_spec s _ NameIndex.remembers_empty).1] at h
    exact Settings.beneath_outputPath (hmodel _ hd j h) (hclass ▸ not_mem_companionName _) hx

/-- A package and a superclass with slashes inside. -/
theorem loaded_outputs_slashes :
    let s : Settings := ⟨"out", "java", .default, .firstWins, false⟩
    let event : Tag := ⟨"event", "", [], List.nodup_nil⟩
    let d : Declaration := ⟨"a/b.c", "A", some ⟨"B/C", true⟩, [], [event], [], none⟩
    let model := Model.ofList [d]
    (∃ j, (plan s d (NameIndex.empty : NameIndex model)).1.job = some j ∧
      Path.components (j.path s).toList =
        ["out".toList, "a".toList, "b".toList, "c".toList, "B".toList, "C.java".toList].map .name) ∧
      ∀ render, Run.StaysIn "out" (generate render s model) := by
  intro s event d model
  have hx : '/' ∉ s.extension.toList := by decide
  have hrelative : ∀ text ∈ s.outputNames d.package d.companionName,
      Path.isAbsolute text = false := by decide +kernel
  have hmodel : model.declarations = [d] := by decide +kernel
  obtain ⟨hpaths, hruns⟩ := loaded_outputs (s := s) hx
  obtain ⟨j, hj⟩ : ∃ j, (plan s d (NameIndex.empty : NameIndex model)).1.job = some j :=
    Option.isSome_iff_exists.1 (by decide +kernel)
  refine ⟨⟨j, hj, ?_⟩, hruns model fun e he k hk => ?_⟩
  · obtain ⟨more, hpath, hmore, -⟩ := (hpaths model _ d j hj).1
      ((eq_of_job_plan hj).2.1 ▸ hrelative)
    rw [hpath, hmore, (eq_of_job_plan hj).2.1]
    decide +kernel
  · rw [hmodel, List.mem_singleton] at he
    subst he
    rw [(eq_of_job_plan hk).2.1]
    exact hrelative

/-- A model file whose package starts with a slash: the companion is put below the root, outside the
output directory. -/
theorem loaded_outputs_rooted :
    let s : Settings := ⟨"out", "java", .default, .firstWins, false⟩
    let text := "[\x7b\"package\": \"/tmp/rooted\", \"name\": \"A\", \"superclass\": \"B\"," ++
      " \"tags\": [\x7b\"name\": \"event\"\x7d]\x7d]"
    let w : World := ⟨⟨["work".toList], [(["work".toList, "m.json".toList], .text text)]⟩, []⟩
    let render : Renderer := fun a => .ok a.subclassName
    let place := ["tmp".toList, "rooted".toList, "B.java".toList]
    ∃ ds r w', loadModel false "m.json" w = .ok ds w ∧
      generate render s (Model.ofList ds) w = .ok r w' ∧
      r.generated.map GeneratedFile.path = ["/tmp/rooted/B.java"] ∧
      w'.files.entryAt? place = some (.text "A") ∧
      ¬FileSystem.Confined s.outputDir w.files w'.files := by
  intro s text w render place
  let event : Tag := ⟨"event", "", [], List.nodup_nil⟩
  let d : Declaration :=
    ⟨"/tmp/rooted", "A", some ⟨"B", true⟩, [], [event], [], some "m.json"⟩
  have hload : loadModel false "m.json" w = .ok [d] w := eq_ok_of_okOf (by decide +kernel)
  obtain ⟨r, w', h, hr⟩ := exists_eq_ok_of_okOf (x := generate render s (Model.ofList [d]) w)
    (f := fun p => (p.1.generated.map GeneratedFile.path, p.2.files.entryAt? place))
    (b := (["/tmp/rooted/B.java"], some (.text "A"))) (by decide +kernel)
  obtain ⟨hpaths, hentry⟩ := Prod.mk.inj hr
  refine ⟨[d], r, w', hload, h, hpaths, hentry, fun hconfined => ?_⟩
  -- The file is new, is no directory and is not below the output directory, which is in the home.
  rcases hconfined.entry place with he | ⟨names, -, hplace⟩ | ⟨-, hdir, -⟩
  · rw [hentry] at he
    exact absurd he (by decide +kernel)
  · have hout : w.files.placeOf s.outputDir = ["work".toList, "out".toList] := by decide +kernel
    rw [hout] at hplace
    have hhead : "tmp".toList = "work".toList := (List.cons.inj hplace).1
    exact absurd hhead (by decide)
  · simp [hentry] at hdir

end Companion
