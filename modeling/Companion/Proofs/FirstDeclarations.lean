import Companion.Proofs.DiscoveredFiles
import Companion.Proofs.RunFailures
import Mathlib.Data.List.FinRange

/-!
# The first declaration of each name

Of the declarations of one qualified name a model keeps the first (`firstsFrom_eq`). What was seen
before takes from what is kept (`firstsFrom_append`), so a model of two sequences is that of the
first one and what the second one adds. A model is built from the declarations of its sources and
then of its model files (`buildModel_eq_ok_iff`), so whatever comes earlier there wins
(`first_declaration_wins`).
-/

namespace Companion

/-- No declaration before this one has its qualified name. -/
def IsFirst (ds : List Declaration) (i : Fin ds.length) : Prop :=
  ∀ j < i, ds[j].qualifiedName ≠ ds[i].qualifiedName

instance (ds : List Declaration) : DecidablePred (IsFirst ds) :=
  fun i => inferInstanceAs (Decidable (∀ j < i, _))

/-- The declarations that are the first of their qualified names, in order. -/
def firsts (ds : List Declaration) : List Declaration :=
  ((List.finRange ds.length).filter fun i => IsFirst ds i).map ds.get

/-- The first declaration of that qualified name. -/
def firstQualified? (name : String) (ds : List Declaration) : Option Declaration :=
  ds.find? (·.qualifiedName == name)

variable {seen seen' : List String} {ds es : List Declaration} {d : Declaration} {name : String}

theorem isFirst_succ (d : Declaration) (ds : List Declaration) (i : Fin ds.length) :
    IsFirst (d :: ds) i.succ ↔ d.qualifiedName ≠ ds[i].qualifiedName ∧ IsFirst ds i := by
  constructor
  · intro h
    refine ⟨h ⟨0, Nat.succ_pos _⟩ (Nat.succ_pos _), fun j hj => ?_⟩
    exact h j.succ (Fin.succ_lt_succ_iff.2 hj)
  · rintro ⟨hd, h⟩ j hj
    cases j using Fin.cases with
    | zero => exact hd
    | succ j => exact h j (Fin.succ_lt_succ_iff.1 hj)

/-- The declarations that are kept are the first of their names, less those seen before. -/
theorem firstsFrom_eq (seen : List String) (ds : List Declaration) :
    firstsFrom seen ds = ((List.finRange ds.length).filter fun i =>
      ds[i].qualifiedName ∉ seen ∧ IsFirst ds i).map ds.get := by
  induction ds generalizing seen with
  | nil => rfl
  | cons d ds ih =>
    have hhead : IsFirst (d :: ds) (0 : Fin (ds.length + 1)) :=
      fun j hj => absurd hj (Nat.not_lt_zero j)
    have htail (p : Fin (ds.length + 1) → Bool) :
        (((List.finRange ds.length).map Fin.succ).filter p).map (d :: ds).get =
          ((List.finRange ds.length).filter (p ∘ Fin.succ)).map ds.get := by
      rw [List.filter_map, List.map_map]
      rfl
    have hrange : List.finRange (d :: ds).length = 0 :: (List.finRange ds.length).map Fin.succ :=
      List.finRange_succ
    rw [firstsFrom, hrange, List.filter_cons]
    by_cases hd : d.qualifiedName ∈ seen
    · rw [if_pos (by simpa using hd), if_neg (by simp [hd]), htail, ih]
      congr 2
      funext i
      rw [Function.comp_apply, decide_eq_decide, isFirst_succ]
      refine and_congr_right fun hi => (and_iff_right ?_).symm
      rintro he
      exact hi (he ▸ hd)
    · rw [if_neg (by simpa using hd), if_pos (decide_eq_true ⟨hd, hhead⟩), List.map_cons, htail, ih]
      congr 3
      funext i
      rw [Function.comp_apply, decide_eq_decide, isFirst_succ, List.mem_cons, not_or, and_assoc]
      constructor
      · rintro ⟨hne, hi, hfirst⟩
        exact ⟨hi, Ne.symm hne, hfirst⟩
      · rintro ⟨hi, hne, hfirst⟩
        exact ⟨Ne.symm hne, hi, hfirst⟩

theorem declarations_ofList (ds : List Declaration) :
    (Model.ofList ds).declarations = firsts ds := by
  change firstsFrom [] ds = firsts ds
  rw [firstsFrom_eq, firsts]
  simp

theorem firstsFrom_congr (h : ∀ x, x ∈ seen ↔ x ∈ seen') (ds : List Declaration) :
    firstsFrom seen ds = firstsFrom seen' ds := by
  simp only [firstsFrom_eq, h]

/-- What was seen before takes from what is kept. -/
theorem firstsFrom_append (seen seen' : List String) (ds : List Declaration) :
    firstsFrom (seen ++ seen') ds =
      (firstsFrom seen' ds).filter fun d => d.qualifiedName ∉ seen := by
  simp only [firstsFrom_eq, List.filter_map, List.filter_filter, List.mem_append, not_or]
  congr 2
  funext i
  simp [and_assoc]

theorem firstsFrom_append_right (seen : List String) (ds es : List Declaration) :
    firstsFrom seen (ds ++ es) =
      firstsFrom seen ds ++ firstsFrom (ds.map Declaration.qualifiedName ++ seen) es := by
  induction ds generalizing seen with
  | nil => rfl
  | cons d ds ih =>
    rw [List.cons_append, firstsFrom, firstsFrom]
    split_ifs with hd
    · rw [ih]
      congr 1
      refine firstsFrom_congr (fun x => ?_) es
      have hmem : d.qualifiedName ∈ seen := by simpa using hd
      simp only [List.map_cons, List.cons_append, List.mem_append, List.mem_cons]
      constructor
      · exact .inr
      · rintro (rfl | hx)
        · exact .inr hmem
        · exact hx
    · rw [ih, List.cons_append]
      congr 2
      refine firstsFrom_congr (fun x => ?_) es
      simp only [List.map_cons, List.cons_append, List.mem_append, List.mem_cons]
      exact or_left_comm

theorem firsts_append (ds es : List Declaration) :
    firsts (ds ++ es) = firsts ds ++
      (firsts es).filter fun e => e.qualifiedName ∉ ds.map Declaration.qualifiedName := by
  simp only [← declarations_ofList]
  change firstsFrom [] (ds ++ es) = firstsFrom [] ds ++ (firstsFrom [] es).filter _
  rw [firstsFrom_append_right, firstsFrom_append]

theorem firsts_sublist (ds : List Declaration) : (firsts ds).Sublist ds := by
  have hall : (List.finRange ds.length).map ds.get = ds :=
    List.ofFn_eq_map.symm.trans (List.ofFn_get ds)
  have hkept := ((List.filter_sublist (l := List.finRange ds.length)
    (p := fun i => IsFirst ds i)).map ds.get)
  rwa [hall] at hkept

theorem firstQualified?_firstsFrom (h : name ∉ seen) (ds : List Declaration) :
    firstQualified? name (firstsFrom seen ds) = firstQualified? name ds := by
  induction ds generalizing seen with
  | nil => rfl
  | cons d ds ih =>
    rw [firstsFrom]
    by_cases hname : d.qualifiedName = name
    · subst hname
      rw [if_neg (by simpa using h), firstQualified?, firstQualified?,
        List.find?_cons_of_pos (by simp), List.find?_cons_of_pos (by simp)]
    · rw [firstQualified?, firstQualified?, List.find?_cons_of_neg (by simpa using hname)]
      split_ifs with hd
      · exact ih h
      · rw [List.find?_cons_of_neg (by simpa using hname)]
        exact ih (by simpa [Ne.symm hname] using h)

/-- The declaration of a name that is kept is the first one of that name. -/
theorem firstQualified?_firsts (name : String) (ds : List Declaration) :
    firstQualified? name (firsts ds) = firstQualified? name ds := by
  rw [← declarations_ofList]
  exact firstQualified?_firstsFrom List.not_mem_nil ds

theorem isSome_firstQualified? :
    (firstQualified? name ds).isSome ↔ name ∈ ds.map Declaration.qualifiedName := by
  simp [firstQualified?, List.find?_isSome, List.mem_map]

theorem mem_names_firsts :
    name ∈ (firsts ds).map Declaration.qualifiedName ↔ name ∈ ds.map Declaration.qualifiedName := by
  rw [← isSome_firstQualified?, firstQualified?_firsts, isSome_firstQualified?]

/-- The run only reads, and with these files it gives exactly the results that `p` holds of. -/
structure Run.Gives {α : Type} (x : Run α) (files : FileSystem) (p : α → Prop) : Prop where
  keeps : x.KeepsFiles
  iff : ∀ w a, w.files = files → ((∃ w', x w = .ok a w') ↔ p a)

namespace Run

variable {α β : Type} {x : Run α} {f : α → Run β} {files : FileSystem} {p : α → Prop}
  {q : α → β → Prop}

theorem Gives.bind (hx : x.Gives files p) (hf : ∀ a, (f a).Gives files (q a)) :
    (x >>= f).Gives files fun b => ∃ a, p a ∧ q a b where
  keeps := hx.keeps.bind fun a => (hf a).keeps
  iff w b hw := by
    simp only [bind_eq_ok]
    constructor
    · rintro ⟨w', a, w₁, hxa, hfa⟩
      have hw₁ : w₁.files = files := (hx.keeps.of_ok hxa).trans hw
      exact ⟨a, (hx.iff w a hw).1 ⟨w₁, hxa⟩, ((hf a).iff w₁ b hw₁).1 ⟨w', hfa⟩⟩
    · rintro ⟨a, ha, hb⟩
      obtain ⟨w₁, hxa⟩ := (hx.iff w a hw).2 ha
      obtain ⟨w', hfa⟩ := ((hf a).iff w₁ b ((hx.keeps.of_ok hxa).trans hw)).2 hb
      exact ⟨w', a, w₁, hxa, hfa⟩

theorem Gives.congr {p' : α → Prop} (hx : x.Gives files p) (h : ∀ a, p a ↔ p' a) :
    x.Gives files p' :=
  ⟨hx.keeps, fun w a hw => (hx.iff w a hw).trans (h a)⟩

theorem gives_pure (a : α) : (pure a : Run α).Gives files (· = a) where
  keeps := keepsFiles_pure a
  iff w b _ := by simp [pure_eq_ok, eq_comm]

theorem gives_ofExcept (e : Except Failure α) : (ofExcept e).Gives files (e = .ok ·) where
  keeps := keepsFiles_ofExcept e
  iff w a _ := by simp [ofExcept_eq_ok]

theorem gives_report (events : List Log.Event) : (report events).Gives files fun _ => True where
  keeps := keepsFiles_report events
  iff w a _ := by simp [report_eq_ok]

/-- What a run makes of the world it starts in depends on the files only. -/
theorem gives_get_bind {g : World → Run β} {r : β → Prop}
    (hkeeps : (get >>= g).KeepsFiles) (h : ∀ w, w.files = files → (g w).Gives files r) :
    (get >>= g).Gives files r where
  keeps := hkeeps
  iff w b hw := by
    have hstep : (get >>= g) w = g w w := bind_of_ok (get_eq_ok w)
    rw [hstep]
    exact (h w hw).iff w b hw

theorem gives_read (path : String) : (read path).Gives files (files.read path = .ok ·) := by
  refine gives_get_bind (keepsFiles_read path) fun w hw => ?_
  rw [hw]
  exact (gives_ofExcept _).congr fun t => Json.mapError_eq_ok

end Run

/-- The path is that of a source with these classes. -/
def FileSystem.Scans (fs : FileSystem) (path : String) (ds : List Declaration) : Prop :=
  ∃ text, fs.read path = .ok text ∧ Java.scan (some path) text = .ok ds

/-- The path is that of a model file with these declarations. -/
def FileSystem.Loads (fs : FileSystem) (lines : Bool) (path : String) (ds : List Declaration) :
    Prop :=
  ∃ text es, fs.read path = .ok text ∧ readModel lines text = .ok es ∧
    ds = es.map (.withSource path)

/-- The sources that the inputs stand for, in order, hold the one lists of declarations, and the
model files the other ones. -/
structure Inputs.Hold (i : Inputs) (fs : FileSystem) (scanned loaded : List (List Declaration)) :
    Prop where
  sources : ∃ paths, discover fs i.sources = .ok paths ∧ List.Forall₂ fs.Scans paths scanned
  models : List.Forall₂ (fs.Loads i.lines) i.models loaded

variable {files : FileSystem} {each : String → Run (List Declaration)}
  {all : List String → Run (List Declaration)} {holds : String → List Declaration → Prop}

/-- A run over paths gives what it gives for each of them, one after the other. -/
theorem gives_all (hnil : all [] = pure [])
    (hcons : ∀ path paths, all (path :: paths) = do
      let ds ← each path
      pure (ds ++ (← all paths)))
    (heach : ∀ path, (each path).Gives files (holds path)) (paths : List String) :
    (all paths).Gives files fun ds => ∃ lists, List.Forall₂ holds paths lists ∧
      ds = lists.flatten := by
  induction paths with
  | nil =>
    rw [hnil]
    refine (Run.gives_pure []).congr fun ds => ?_
    simp
  | cons path paths ih =>
    rw [hcons]
    refine ((heach path).bind fun ds => ih.bind fun es => Run.gives_pure _).congr fun all => ?_
    constructor
    · rintro ⟨ds, hds, es, ⟨lists, hlists, rfl⟩, rfl⟩
      exact ⟨ds :: lists, .cons hds hlists, rfl⟩
    · rintro ⟨_, _ | ⟨hds, hlists⟩, rfl⟩
      exact ⟨_, hds, _, ⟨_, hlists, rfl⟩, rfl⟩

theorem gives_scanSource (path : String) : (scanSource path).Gives files (files.Scans path) := by
  refine ((Run.gives_read path).bind fun text => (Run.gives_report _).bind fun _ =>
    Run.gives_ofExcept _).congr fun ds => ?_
  simp [FileSystem.Scans, Json.mapError_eq_ok]

theorem gives_loadModel (lines : Bool) (path : String) :
    (loadModel lines path).Gives files (files.Loads lines path) := by
  refine ((Run.gives_read path).bind fun text => (Run.gives_ofExcept _).bind fun es =>
    Run.gives_pure _).congr fun ds => ?_
  simp [FileSystem.Loads, Json.mapError_eq_ok]

theorem gives_buildModel (i : Inputs) : (buildModel i).Gives files fun m =>
    ∃ scanned loaded, i.Hold files scanned loaded ∧
      m = Model.ofList (scanned ++ loaded).flatten := by
  refine Run.gives_get_bind (keepsFiles_buildModel i) fun w hw => ?_
  rw [hw]
  refine ((Run.gives_ofExcept _).bind fun sources => (Run.gives_report _).bind fun _ =>
    (gives_all rfl (fun _ _ => rfl) gives_scanSource sources).bind fun scanned =>
      (gives_all rfl (fun _ _ => rfl) (gives_loadModel i.lines) i.models).bind fun loaded =>
        (Run.gives_report _).bind fun _ => (Run.gives_report _).bind fun _ =>
          Run.gives_pure _).congr fun m => ?_
  constructor
  · rintro ⟨paths, hpaths, -, -, _, ⟨scanned, hs, rfl⟩, _, ⟨loaded, hl, rfl⟩, -, -, -, -, rfl⟩
    exact ⟨scanned, loaded, ⟨⟨paths, hpaths, hs⟩, hl⟩, by rw [List.flatten_append]⟩
  · rintro ⟨scanned, loaded, ⟨⟨paths, hpaths, hs⟩, hl⟩, rfl⟩
    exact ⟨paths, hpaths, (), trivial, _, ⟨scanned, hs, rfl⟩, _, ⟨loaded, hl, rfl⟩, (), trivial,
      (), trivial, by rw [List.flatten_append]⟩

theorem buildModel_eq_ok_iff {i : Inputs} {w : World} {m : Model} :
    (∃ w', buildModel i w = .ok m w') ↔ ∃ scanned loaded, i.Hold w.files scanned loaded ∧
      m = Model.ofList (scanned ++ loaded).flatten :=
  (gives_buildModel i).iff w m rfl

/-- Names are told apart by their text, however it is parted into a package and a name. -/
theorem qualifiedName_eq {d e : Declaration} {p q : String} (hp : p ≠ "")
    (hd : d.package = p ++ "." ++ q) (he : e.package = p) (hname : e.name = q ++ "." ++ d.name) :
    d.qualifiedName = e.qualifiedName := by
  have hdne : d.package.isEmpty = false := by simp [hd]
  have hene : e.package.isEmpty = false := by simpa [he] using hp
  rw [Declaration.qualifiedName, Declaration.qualifiedName, hdne, hene, hd, he, hname]
  simp [String.append_assoc]

theorem firstQualified?_append_of_mem (h : d ∈ ds) (es : List Declaration) :
    firstQualified? d.qualifiedName (ds ++ es) = firstQualified? d.qualifiedName ds := by
  have hsome : (firstQualified? d.qualifiedName ds).isSome :=
    isSome_firstQualified?.2 (List.mem_map_of_mem h)
  have happend : firstQualified? d.qualifiedName (ds ++ es) =
      (firstQualified? d.qualifiedName ds).or (firstQualified? d.qualifiedName es) :=
    List.find?_append
  rw [happend, Option.or_of_isSome hsome]

/-- A model keeps the first declaration of each qualified name, in order: names are unique in it,
and none is missing. Taking the first ones again changes nothing, and of a second sequence those
are added whose names do not occur in the first one. A model is built exactly if the sources can be
found and scanned and the model files can be loaded, and then it keeps the first ones of what these
hold: of a name that is in a source, or in an earlier model file, no declaration of a later file is
kept. -/
theorem first_declaration_wins :
    (∀ ds, (Model.ofList ds).declarations = firsts ds ∧ (firsts ds).Sublist ds ∧
      ((firsts ds).map Declaration.qualifiedName).Nodup ∧
      (∀ name, name ∈ (firsts ds).map Declaration.qualifiedName ↔
        name ∈ ds.map Declaration.qualifiedName) ∧
      Model.ofList (Model.ofList ds).declarations = Model.ofList ds) ∧
    (∀ d e : Declaration, ∀ p q, p ≠ "" → d.package = p ++ "." ++ q → e.package = p →
      e.name = q ++ "." ++ d.name → d.qualifiedName = e.qualifiedName) ∧
    (∀ ds es, (Model.ofList (ds ++ es)).declarations = (Model.ofList ds).declarations ++
      (Model.ofList es).declarations.filter fun e =>
        e.qualifiedName ∉ ds.map Declaration.qualifiedName) ∧
    (∀ i w m, (∃ w', buildModel i w = .ok m w') ↔
      ∃ scanned loaded, i.Hold w.files scanned loaded ∧
        m.declarations = firsts (scanned ++ loaded).flatten) ∧
    ∀ i w m w' scanned loaded, buildModel i w = .ok m w' → i.Hold w.files scanned loaded →
      ∀ earlier later, scanned ++ loaded = earlier ++ later → ∀ d ∈ earlier.flatten,
        firstQualified? d.qualifiedName m.declarations =
          firstQualified? d.qualifiedName earlier.flatten := by
  refine ⟨fun ds => ⟨declarations_ofList ds, firsts_sublist ds, ?_, fun name => mem_names_firsts,
    Model.ofList_declarations _⟩, fun d e p q => qualifiedName_eq, fun ds es => ?_, fun i w m => ?_,
    fun i w m w' scanned loaded h hold earlier later hlists d hd => ?_⟩
  · rw [← declarations_ofList]
    exact (Model.ofList ds).nodup
  · simp only [declarations_ofList, firsts_append]
  · rw [buildModel_eq_ok_iff]
    constructor
    · rintro ⟨scanned, loaded, hold, rfl⟩
      exact ⟨scanned, loaded, hold, declarations_ofList _⟩
    · rintro ⟨scanned, loaded, hold, hm⟩
      refine ⟨scanned, loaded, hold, ?_⟩
      rw [← declarations_ofList] at hm
      rw [← Model.ofList_declarations m, hm, Model.ofList_declarations]
  · obtain ⟨w₁, hbuild⟩ := buildModel_eq_ok_iff.2 ⟨scanned, loaded, hold, rfl⟩
    obtain ⟨rfl, -⟩ := EStateM.Result.ok.inj (h.symm.trans hbuild)
    rw [declarations_ofList, firstQualified?_firsts, hlists, List.flatten_append,
      firstQualified?_append_of_mem hd]

/-- A class that a model file declares again, and a name that a later model file parts in another
way. -/
theorem first_declaration_wins_parted :
    let source := "package p.q;\nclass A extends X \x7b\x7d"
    let first := "[\x7b\"package\": \"p.q\", \"name\": \"A\"\x7d, " ++
      "\x7b\"package\": \"p.q\", \"name\": \"B\"\x7d]"
    let second := "[\x7b\"package\": \"p\", \"name\": \"q.B\"\x7d, \x7b\"name\": \"C\"\x7d]"
    let w : World := ⟨⟨[], [(["A.java".toList], .text source), (["m.json".toList], .text first),
      (["n.json".toList], .text second)]⟩, []⟩
    let a : Declaration := ⟨"p.q", "A", some ⟨"X", true⟩, [], [], [], some "A.java"⟩
    let a' : Declaration := ⟨"p.q", "A", none, [], [], [], some "m.json"⟩
    let b : Declaration := ⟨"p.q", "B", none, [], [], [], some "m.json"⟩
    let b' : Declaration := ⟨"p", "q.B", none, [], [], [], some "n.json"⟩
    let c : Declaration := ⟨"", "C", none, [], [], [], some "n.json"⟩
    b.qualifiedName = b'.qualifiedName ∧ ∃ m w',
      buildModel ⟨["A.java"], ["m.json", "n.json"], false⟩ w = .ok m w' ∧
        m.declarations = [a, b, c] ∧
        firstQualified? "p.q.A" m.declarations = firstQualified? "p.q.A" [a] ∧
        firstQualified? "p.q.B" m.declarations = firstQualified? "p.q.B" [a, a', b] := by
  intro source first second w a a' b b' c
  obtain ⟨-, hsplit, -, hbuild, hwins⟩ := first_declaration_wins
  have hold : (⟨["A.java"], ["m.json", "n.json"], false⟩ : Inputs).Hold w.files [[a]]
      [[a', b], [b', c]] := by
    refine ⟨⟨["A.java"], ?_, .cons ⟨source, ?_, ?_⟩ .nil⟩,
      .cons ⟨first, [{ a' with source := none }, { b with source := none }], ?_, ?_, rfl⟩
        (.cons ⟨second, [{ b' with source := none }, { c with source := none }], ?_, ?_, rfl⟩
          .nil)⟩
    · have hexpand : expandInput w.files "A.java" = .ok ["A.java"] := by decide +kernel
      refine discover_eq_ok.2 ⟨[["A.java"]], ?_, ?_⟩
      · simp [hexpand, bind, Except.bind, pure, Except.pure]
      · simp [sortPaths, dropRepeats]
    all_goals decide +kernel
  obtain ⟨w', hok⟩ := (hbuild _ w (Model.ofList [a, a', b, b', c])).2
    ⟨_, _, hold, declarations_ofList _⟩
  refine ⟨hsplit b b' "p" "q" (by decide) rfl rfl rfl, _, w', hok, by decide +kernel, ?_, ?_⟩
  · exact hwins _ w _ w' _ _ hok hold [[a]] [[a', b], [b', c]] rfl a (by simp)
  · exact hwins _ w _ w' _ _ hok hold [[a], [a', b]] [[b', c]] rfl b (by simp)

end Companion
