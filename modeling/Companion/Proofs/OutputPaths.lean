import Companion.Proofs.FileWrite
import Companion.Proofs.PlanHistory
import Mathlib.Data.List.TakeWhile

/-!
# Output paths

An output path goes down from the output directory by names, the parts of the package that are not
empty and the name of the file. If no slash stands in them, the path has the components of the
output directory and after these the names, and so it does with the places on the way
(`components_foldl_push`, `placeOf_foldl_push`). So two output paths that are the same are equal as
texts, and others name different places.
-/

namespace Companion

namespace Path

/-- The text leads one step down. -/
structure IsName (text : List Char) : Prop where
  ne_nil : text ≠ []
  slash : '/' ∉ text
  ne_here : text ≠ ['.']
  ne_up : text ≠ ['.', '.']

theorem IsName.isAbsolute_eq_false {text : List Char} (h : IsName text) :
    isAbsolute text = false := by
  obtain ⟨c, cs, rfl⟩ := List.exists_cons_of_ne_nil h.ne_nil
  have hc : c ≠ '/' := fun hc => h.slash (hc ▸ List.mem_cons_self)
  simp [isAbsolute, hc]

theorem not_mem_of_mem_splitOn {sep : Char} {text piece : List Char}
    (h : piece ∈ text.splitOn sep) : sep ∉ piece ∧ piece ⊆ text := by
  induction text generalizing piece with
  | nil =>
    rw [List.splitOn_nil, List.mem_singleton] at h
    simp [h]
  | cons c text ih =>
    rw [List.splitOn_cons_eq_if_modifyHead] at h
    rcases hs : text.splitOn sep with _ | ⟨first, rest⟩
    · exact absurd hs (List.splitOn_ne_nil _ _)
    · rw [hs] at h ih
      split_ifs at h with hc
      · rcases List.mem_cons.1 h with rfl | h
        · simp
        · exact ⟨(ih h).1, fun x hx => List.mem_cons_of_mem _ ((ih h).2 hx)⟩
      · rw [List.modifyHead_cons] at h
        rcases List.mem_cons.1 h with rfl | h
        · obtain ⟨hn, hsub⟩ := ih List.mem_cons_self
          have hne : sep ≠ c := fun he => hc (by simp [he])
          exact ⟨by simp [hne, hn], List.cons_subset_cons _ hsub⟩
        · have h := ih (List.mem_cons_of_mem _ h)
          exact ⟨h.1, fun x hx => List.mem_cons_of_mem _ (h.2 hx)⟩

theorem pieces_append_slash (p q : List Char) :
    pieces (p ++ '/' :: q) = pieces p ++ (q.splitOn '/').map fun piece => (false, piece) := by
  unfold pieces
  rw [List.splitOn_append_cons_self]
  rcases hs : p.splitOn '/' with _ | ⟨first, rest⟩
  · exact absurd hs (List.splitOn_ne_nil _ _)
  · simp

/-- The text goes on from wherever it is put: it starts neither at the root nor with a dot. -/
structure IsRelative (text : List Char) : Prop where
  isAbsolute_eq_false : isAbsolute text = false
  here : .here ∉ components text

theorem components_of_isAbsolute_eq_false {text : List Char} (h : isAbsolute text = false) :
    components text = (pieces text).filterMap fun p => Component.ofPiece? p.1 p.2 := by
  simp [components, h]

/-- It does not matter for a relative text whether anything stands before it. -/
theorem IsRelative.components_eq {text : List Char} (h : IsRelative text) :
    components text = (text.splitOn '/').filterMap (Component.ofPiece? false) := by
  have hhere := h.here
  rw [components_of_isAbsolute_eq_false h.isAbsolute_eq_false] at hhere ⊢
  unfold pieces at hhere ⊢
  rcases hs : text.splitOn '/' with _ | ⟨first, rest⟩
  · rfl
  · have hfirst : first ≠ ['.'] := by
      rintro rfl
      simp [hs, Component.ofPiece?] at hhere
    have hpiece : Component.ofPiece? true first = Component.ofPiece? false first := by
      simp [Component.ofPiece?, hfirst]
    simp only [List.filterMap_cons, List.filterMap_map, hpiece]
    rfl

theorem IsName.components_eq {name : List Char} (h : IsName name) :
    components name = [.name name] := by
  rw [components_of_isAbsolute_eq_false h.isAbsolute_eq_false, pieces,
    List.splitOn_eq_singleton h.slash]
  simp [Component.ofPiece?, h.ne_nil, h.ne_here, h.ne_up]

theorem IsName.isRelative {name : List Char} (h : IsName name) : IsRelative name :=
  ⟨h.isAbsolute_eq_false, by simp [h.components_eq]⟩

/-- How a path goes on with a text that is not absolute: after a slash that it ends in or that is
put there, unless it is empty. -/
theorem toList_push (path : String) {text : List Char} (h : isAbsolute text = false) :
    (path.toList = [] ∧ (push path (String.ofList text)).toList = text) ∨
      ∃ before, (push path (String.ofList text)).toList = before ++ '/' :: text ∧
        (path.toList = before ∧ before ≠ [] ∨ path.toList = before ++ ['/']) := by
  unfold push
  rw [String.toList_ofList, h, Bool.false_or]
  by_cases he : path.isEmpty
  · rw [if_pos he]
    exact .inl ⟨by simpa using he, String.toList_ofList⟩
  · have hne : path.toList ≠ [] := by simpa using he
    rw [if_neg he]
    by_cases hl : path.toList.getLast? = some '/'
    · obtain ⟨before, hb⟩ := List.getLast?_eq_some_iff.1 hl
      rw [if_pos hl]
      exact .inr ⟨before, by simp [hb], .inr hb⟩
    · rw [if_neg hl]
      exact .inr ⟨path.toList, by simp, .inl ⟨rfl, hne⟩⟩

theorem isAbsolute_push (path : String) {text : List Char} (h : isAbsolute text = false) :
    isAbsolute (push path (String.ofList text)).toList = isAbsolute path.toList := by
  rcases toList_push path h with ⟨he, hp⟩ | ⟨before, hp, ⟨he, hne⟩ | he⟩
  · rw [hp, he, h]
    rfl
  · obtain ⟨c, cs, rfl⟩ := List.exists_cons_of_ne_nil hne
    simp [hp, he, isAbsolute]
  · rw [hp, he]
    cases before <;> rfl

theorem components_push (path : String) {text : List Char} (h : IsRelative text) :
    components (push path (String.ofList text)).toList =
      components path.toList ++ components text := by
  have hpieces : ((text.splitOn '/').map fun piece => (false, piece)).filterMap
      (fun p => Component.ofPiece? p.1 p.2) = components text := by
    rw [h.components_eq, List.filterMap_map]
    rfl
  rcases toList_push path h.isAbsolute_eq_false with ⟨he, hp⟩ | ⟨before, hp, he⟩
  · rw [hp, he]
    rfl
  · have habs := isAbsolute_push path h.isAbsolute_eq_false
    have hpath : (pieces path.toList).filterMap (fun p => Component.ofPiece? p.1 p.2) =
        (pieces before).filterMap fun p => Component.ofPiece? p.1 p.2 := by
      rcases he with ⟨he, -⟩ | he
      · rw [he]
      · simp [he, pieces_append_slash, Component.ofPiece?]
    unfold components at hpieces ⊢
    rw [habs, hp, pieces_append_slash, List.filterMap_append, hpieces, hpath, List.append_assoc]

end Path

theorem FileSystem.namesOf_push (path : String) {text : List Char}
    (h : Path.isAbsolute text = false) :
    namesOf (Path.push path (String.ofList text)) =
      namesOf path ++ namesOf (String.ofList text) := by
  unfold namesOf
  rw [String.toList_ofList]
  rcases Path.toList_push path h with ⟨he, hp⟩ | ⟨before, hp, ⟨he, -⟩ | he⟩
  · simp [hp, he]
  · simp [hp, he, List.splitOn_append_cons_self]
  · simp [hp, he, List.splitOn_append_cons_self]

theorem Path.IsName.namesOf_eq {name : List Char} (h : IsName name) :
    FileSystem.namesOf (String.ofList name) = [name] := by
  simp [FileSystem.namesOf, List.splitOn_eq_singleton h.slash, h.ne_nil]

namespace Path

/-- The path goes down from a directory by names. -/
def Below (directory path : String) : Prop :=
  ∃ names : List (List Char), (∀ name ∈ names, IsName name) ∧
    path = names.foldl (fun path name => push path (String.ofList name)) directory

theorem components_foldl_push_of_isRelative {texts : List (List Char)}
    (h : ∀ text ∈ texts, IsRelative text) (directory : String) :
    components (texts.foldl (fun path text => push path (String.ofList text)) directory).toList =
      components directory.toList ++ texts.flatMap components := by
  induction texts generalizing directory with
  | nil => simp
  | cons text texts ih =>
    obtain ⟨htext, htexts⟩ := List.forall_mem_cons.1 h
    rw [List.foldl_cons, ih htexts, components_push _ htext, List.flatMap_cons, List.append_assoc]

theorem flatMap_components_eq {names : List (List Char)} (h : ∀ name ∈ names, IsName name) :
    names.flatMap components = names.map .name := by
  induction names with
  | nil => rfl
  | cons name names ih =>
    obtain ⟨hname, hnames⟩ := List.forall_mem_cons.1 h
    rw [List.flatMap_cons, hname.components_eq, ih hnames]
    rfl

theorem components_foldl_push {names : List (List Char)} (h : ∀ name ∈ names, IsName name)
    (directory : String) :
    components (names.foldl (fun path name => push path (String.ofList name)) directory).toList =
      components directory.toList ++ names.map .name := by
  rw [components_foldl_push_of_isRelative fun name hname => (h name hname).isRelative,
    flatMap_components_eq h]

/-- Two paths below a directory that are the same are equal. -/
theorem eq_of_same {directory p q : String} (hp : Below directory p) (hq : Below directory q)
    (h : same p q) : p = q := by
  obtain ⟨names, hnames, rfl⟩ := hp
  obtain ⟨names', hnames', rfl⟩ := hq
  rw [same, beq_iff_eq, components_foldl_push hnames, components_foldl_push hnames',
    List.append_cancel_left_eq] at h
  have hinj : Function.Injective Component.name := fun _ _ he => by simpa using he
  rw [List.map_injective_iff.2 hinj h]

end Path

namespace FileSystem

theorem placeOf_foldl_push (fs : FileSystem) {names : List (List Char)}
    (h : ∀ name ∈ names, Path.IsName name) (directory : String) :
    fs.placeOf (names.foldl (fun path name => Path.push path (String.ofList name)) directory) =
      fs.placeOf directory ++ names := by
  induction names generalizing directory with
  | nil => simp
  | cons name names ih =>
    obtain ⟨hname, hnames⟩ := List.forall_mem_cons.1 h
    have hpush : fs.placeOf (Path.push directory (String.ofList name)) =
        fs.placeOf directory ++ [name] := by
      rw [placeOf, namesOf_push _ hname.isAbsolute_eq_false, hname.namesOf_eq, startOf,
        Path.isAbsolute_push _ hname.isAbsolute_eq_false, List.foldl_append, List.foldl_cons,
        List.foldl_nil, enter, if_neg hname.ne_here, if_neg hname.ne_up]
      rfl
    rw [List.foldl_cons, ih hnames, hpush, List.append_assoc]
    rfl

/-- Two paths below a directory that name one place are equal. -/
theorem eq_of_placeOf_eq (fs : FileSystem) {directory p q : String} (hp : Path.Below directory p)
    (hq : Path.Below directory q) (h : fs.placeOf p = fs.placeOf q) : p = q := by
  obtain ⟨names, hnames, rfl⟩ := hp
  obtain ⟨names', hnames', rfl⟩ := hq
  rw [placeOf_foldl_push fs hnames, placeOf_foldl_push fs hnames',
    List.append_cancel_left_eq] at h
  rw [h]

end FileSystem

namespace Settings

variable {s : Settings} {package className : String}

/-- The names that lead from the output directory to a companion. -/
def outputNames (s : Settings) (package className : String) : List (List Char) :=
  (package.toList.splitOn '.').filter (!·.isEmpty) ++ [(className ++ "." ++ s.extension).toList]

theorem outputPath_eq (s : Settings) (package className : String) :
    s.outputPath package className = (s.outputNames package className).foldl
      (fun path name => Path.push path (String.ofList name)) s.outputDir := by
  rw [outputPath, outputNames, List.foldl_append, List.foldl_cons, List.foldl_nil,
    String.ofList_toList]

/-- Without slashes in a package, a class and the extension the names are such as lead a step down:
there is no dot in a part of a package, and none at the start of the name of a file. -/
theorem isName_of_mem_outputNames (hp : '/' ∉ package.toList) (hc : '/' ∉ className.toList)
    (hne : className ≠ "") (hdot : '.' ∉ className.toList) (hx : '/' ∉ s.extension.toList)
    {name : List Char} (h : name ∈ s.outputNames package className) : Path.IsName name := by
  rcases List.mem_append.1 h with h | h
  · obtain ⟨h, hnil⟩ := List.mem_filter.1 h
    obtain ⟨hdot, hsub⟩ := Path.not_mem_of_mem_splitOn h
    refine ⟨by simpa using hnil, fun hs => hp (hsub hs), ?_, ?_⟩
    · rintro rfl
      simp at hdot
    · rintro rfl
      simp at hdot
  · obtain ⟨c, cs, hcs⟩ := List.exists_cons_of_ne_nil (by simpa using hne : className.toList ≠ [])
    have hc' : c ≠ '.' := fun he => hdot (by simp [hcs, he])
    rw [List.mem_singleton, String.toList_append, String.toList_append] at h
    subst h
    refine ⟨by simp, by simp [hc, hx], ?_, ?_⟩
    · simp [hcs, hc']
    · simp [hcs, hc']

/-- Without slashes in these an output path is below the output directory. -/
theorem below_outputPath (hp : '/' ∉ package.toList) (hc : '/' ∉ className.toList)
    (hne : className ≠ "") (hdot : '.' ∉ className.toList) (hx : '/' ∉ s.extension.toList) :
    Path.Below s.outputDir (s.outputPath package className) :=
  ⟨_, fun _ => isName_of_mem_outputNames hp hc hne hdot hx, outputPath_eq s package className⟩

end Settings

theorem not_mem_companionName (d : Declaration) : '.' ∉ d.companionName.toList := by
  unfold Declaration.companionName
  split
  · simp
  · rename_i type
    simp only [TypeRef.simple, TypeRef.simpleName, String.toList_ofList, List.mem_reverse]
    exact fun h => by simpa using List.mem_takeWhile_imp h

end Companion
