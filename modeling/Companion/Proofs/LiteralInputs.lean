import Companion.Proofs.DiscoveredFiles
import Companion.Proofs.GlobPaths

/-!
# Literal inputs

An input that is the path of a file stands for the file if nothing in the path is taken for a
pattern, or for a character that stands for others. Any other path is searched for name by name, and
the file is among what is found exactly if each name matches itself (`discover_literal`): a class in
a name is one character of what it matches, so a name with a class and without stars does not
(`discover_class`).
-/

namespace Companion

open Glob (Token Pattern tokens counted MatchesItself)

variable {fs : FileSystem} {path found : String} {place : Location} {files : List String}
  {s : List Char} {ps : List (List Char)} {names : List (List Token)}

/-- The place that a component of a path leads to. -/
def Path.Component.enter (place : Location) : Path.Component → Location
  | root => []
  | here => place
  | up => place.dropLast
  | name s => place ++ [s]

theorem placeOf_eq_foldl_parts (fs : FileSystem) (path : String) :
    fs.placeOf path = (Path.parts path).foldl Path.Component.enter fs.home := by
  have hstep (place : Location) (p : Bool × List Char) :
      (if !p.2.isEmpty then FileSystem.enter place p.2 else place) =
        match Path.Component.ofPiece? p.1 p.2 with
        | some c => c.enter place
        | none => place := by
    obtain ⟨first, piece⟩ := p
    unfold Path.Component.ofPiece? FileSystem.enter
    rcases piece with _ | ⟨c, piece⟩
    · rfl
    · split_ifs <;> simp_all [Path.Component.enter]
  have hpieces (place : Location) : (FileSystem.namesOf path).foldl FileSystem.enter place =
      ((Path.pieces path.toList).filterMap fun p =>
        Path.Component.ofPiece? p.1 p.2).foldl Path.Component.enter place := by
    rw [FileSystem.namesOf, ← Path.map_snd_pieces, List.foldl_filter, List.foldl_map,
      List.foldl_filterMap]
    congr 1
    funext place p
    rw [hstep]
    cases Path.Component.ofPiece? p.1 p.2 <;> rfl
  rw [FileSystem.placeOf, hpieces, Path.parts, Path.components, FileSystem.startOf]
  by_cases habs : Path.isAbsolute path.toList
  · rw [if_pos habs, if_pos habs]
    rfl
  · rw [if_neg habs, if_neg habs]
    rfl

/-- Paths with the same components name one place. -/
theorem placeOf_eq_of_parts_eq {p q : String} (h : Path.parts p = Path.parts q) :
    fs.placeOf p = fs.placeOf q := by
  rw [placeOf_eq_foldl_parts, placeOf_eq_foldl_parts, h]

theorem FileSystem.placeOf_of_locate (h : fs.locate path = .ok place) :
    fs.placeOf path = place :=
  (eq_foldl_of_walk (locate_eq_ok.1 h).2.2.2.1).symm

theorem mapM_eq_ok_iff_forall₂ {ε α β : Type} {f : α → Except ε β} {xs : List α} {ys : List β} :
    xs.mapM f = .ok ys ↔ List.Forall₂ (fun x y => f x = .ok y) xs ys := by
  induction xs generalizing ys with
  | nil =>
    rw [List.forall₂_nil_left_iff]
    exact ⟨fun h => (Except.ok.inj h).symm, fun h => by rw [h]; rfl⟩
  | cons x xs ih =>
    rw [List.mapM_cons]
    simp only [Json.except_bind_eq_ok, ih]
    constructor
    · rintro ⟨y, hy, zs, hzs, heq⟩
      obtain rfl := Except.ok.inj heq
      exact .cons hy hzs
    · rintro (_ | ⟨hy, hys⟩)
      exact ⟨_, hy, _, hys, rfl⟩

/-- The last name of a text that does not end in a slash is not empty. -/
theorem getLast?_splitOn_ne (hne : s ≠ []) (hs : s.getLast? ≠ some '/') :
    (s.splitOn '/').getLast? ≠ some [] := by
  intro hlast
  obtain ⟨qs, hqs⟩ := List.getLast?_eq_some_iff.1 hlast
  have hend (qs : List (List Char)) (hne : qs ≠ []) :
      ∃ t, ['/'].intercalate (qs ++ [[]]) = t ++ ['/'] := by
    induction qs with
    | nil => exact absurd rfl hne
    | cons q qs ih =>
      rcases qs with _ | ⟨q', qs⟩
      · exact ⟨q, by simp [List.intercalate]⟩
      · obtain ⟨t, ht⟩ := ih (List.cons_ne_nil _ _)
        refine ⟨q ++ '/' :: t, ?_⟩
        rw [List.cons_append, List.cons_append, List.intercalate_cons_cons, ← List.cons_append, ht]
        simp
  have hjoin : ['/'].intercalate (s.splitOn '/') = s := List.intercalate_splitOn '/'
  rw [hqs] at hjoin
  by_cases hnil : qs = []
  · subst hnil
    exact hne (hjoin.symm.trans (by simp [List.intercalate]))
  · obtain ⟨t, ht⟩ := hend qs hnil
    rw [ht] at hjoin
    exact hs (by rw [← hjoin, List.getLast?_concat])

theorem bytesOf_splitOn (s : List Char) :
    Glob.bytesOf (s.splitOn '/') = Text.byteCount s + 1 := by
  have hjoin (ps : List (List Char)) (hne : ps ≠ []) :
      Glob.bytesOf ps = Text.byteCount (['/'].intercalate ps) + 1 := by
    induction ps with
    | nil => exact absurd rfl hne
    | cons p ps ih =>
      rcases ps with _ | ⟨q, ps⟩
      · simp [Glob.bytesOf]
      · have hslash : '/'.utf8Size = 1 := rfl
        rw [Glob.bytesOf, ih (List.cons_ne_nil _ _), List.intercalate_cons_cons,
          Text.byteCount_append, Text.byteCount_append, Text.byteCount_cons, Text.byteCount_nil,
          hslash]
        omega
  rw [hjoin _ (List.splitOn_ne_nil _ _), List.intercalate_splitOn]

/-- What a relative path of a file is made of. -/
structure FilePath (fs : FileSystem) (path : String) (place : Location) : Prop where
  locate : fs.locate path = .ok place
  file : fs.isDirectoryAt place = false
  relative : Path.isAbsolute path.toList = false
  ne : path.toList ≠ []
  slash : path.toList.getLast? ≠ some '/'

theorem exists_filePath (hrel : Path.isAbsolute path.toList = false) (hfile : fs.isFile path) :
    ∃ place, FilePath fs path place := by
  unfold FileSystem.isFile at hfile
  split at hfile
  · rename_i place hlocate
    rw [Bool.not_eq_true'] at hfile
    obtain ⟨-, hne, -, -, hslash⟩ := FileSystem.locate_eq_ok.1 hlocate
    refine ⟨place, hlocate, hfile, hrel, hne, fun hlast => ?_⟩
    rw [hslash (by rw [FileSystem.endsInSlash, hlast]; rfl)] at hfile
    cases hfile
  · cases hfile

theorem FilePath.ofText_eq_ok_iff (h : FilePath fs path place) {pattern : Pattern} :
    Pattern.ofText path = .ok pattern ↔ (∃ whole, tokens path.toList = .ok whole) ∧
      ∃ names, (path.toList.splitOn '/').mapM tokens = .ok names ∧
        pattern = ⟨false, names, false⟩ := by
  have hpieces : Glob.piecesOf path.toList = path.toList.splitOn '/' :=
    if_neg (getLast?_splitOn_ne h.ne h.slash)
  have hempty : path.toList.isEmpty = false := by simpa using h.ne
  have hslash : (path.toList.getLast? == some '/') = false := by simpa using h.slash
  unfold Pattern.ofText
  simp only [Json.except_bind_eq_ok, h.relative, Bool.false_eq_true, if_false, hpieces, hempty,
    hslash, Except.ok.injEq]
  constructor
  · rintro ⟨whole, hwhole, names, hnames, rfl⟩
    exact ⟨⟨whole, hwhole⟩, names, hnames, rfl⟩
  · rintro ⟨⟨whole, hwhole⟩, names, hnames, rfl⟩
    exact ⟨whole, hwhole, names, hnames, rfl⟩

theorem mem_paths_iff (hne : names ≠ []) (hnames : [.directories] ∉ names) :
    found ∈ (⟨false, names, false⟩ : Pattern).paths fs ↔
      ∃ texts, Glob.Leads fs names texts "." found := by
  have hfuel : names.length ≤ (names.length + 1) * (fs.entries.length + fs.home.length + 2) :=
    (Nat.le_succ _).trans (Nat.le_mul_of_pos_right _ (Nat.succ_pos _))
  exact Glob.mem_below_iff hne hnames hfuel

/-! ## What an input stands for -/

theorem FilePath.isDirectory_eq_false (h : FilePath fs path place) :
    fs.isDirectory path = false := by
  rw [FileSystem.isDirectory, h.locate]
  exact h.file

theorem FilePath.isFile_of_locate (h : FilePath fs path place)
    (hfound : fs.locate found = .ok place) : fs.isFile found := by
  rw [FileSystem.isFile, hfound]
  simp [h.file]

theorem FilePath.expandInput_of_not (h : FilePath fs path place)
    (hglob : looksLikeGlob path = false) : expandInput fs path = .ok [path] := by
  simp [expandInput, h.isDirectory_eq_false, h.isFile_of_locate h.locate, hglob]

theorem FilePath.expandInput_eq_ok_iff (h : FilePath fs path place) (hglob : looksLikeGlob path) :
    expandInput fs path = .ok files ↔ ∃ pattern, Pattern.ofText path = .ok pattern ∧
      (pattern.paths fs).filter fs.isFile = files ∧ files ≠ [] := by
  unfold expandInput globFiles
  rw [if_neg (by simp [h.isDirectory_eq_false]), if_pos hglob, Json.except_bind_eq_ok]
  rcases Pattern.ofText path with fault | pattern
  · simp
  · simp only [Except.ok.injEq, exists_eq_left', List.isEmpty_iff]
    split_ifs with hempty
    · refine iff_of_false (by simp) ?_
      rintro ⟨rfl, hne⟩
      exact hne hempty
    · rw [Except.ok.injEq]
      exact ⟨fun h => ⟨h, h ▸ hempty⟩, And.left⟩

theorem discover_singleton_eq_ok_iff {input : String} : discover fs [input] = .ok files ↔
    ∃ found, expandInput fs input = .ok found ∧ dropRepeats (sortPaths found) = files := by
  rw [discover_eq_ok]
  simp only [List.mapM_cons, List.mapM_nil, Json.except_bind_eq_ok]
  constructor
  · rintro ⟨lists, ⟨found, hfound, _, hnil, heq⟩, hfiles⟩
    obtain rfl := Except.ok.inj hnil
    obtain rfl := Except.ok.inj heq
    exact ⟨found, hfound, by simpa using hfiles⟩
  · rintro ⟨found, hfound, hfiles⟩
    exact ⟨[found], ⟨found, hfound, [], rfl, rfl⟩, by simpa using hfiles⟩

theorem mem_of_mem_dropRepeats {paths : List String} (h : found ∈ dropRepeats (sortPaths paths)) :
    found ∈ paths :=
  List.mem_mergeSort.1 ((dropRepeats_sublist _).mem h)

/-- A file that an input is expanded to is found under a path that is the same. -/
theorem exists_mem_dropRepeats {paths : List String} (h : found ∈ paths) :
    ∃ q ∈ dropRepeats (sortPaths paths), Path.parts q = Path.parts found := by
  have hmem : Path.parts found ∈ (sortPaths paths).map Path.parts :=
    List.mem_map_of_mem (List.mem_mergeSort.2 h)
  exact List.mem_map.1 ((mem_parts_dropRepeats _ _).2 hmem)

theorem discover_of_expandInput_singleton {input : String}
    (h : expandInput fs input = .ok [found]) : discover fs [input] = .ok [found] := by
  have hsort : sortPaths [found] = [found] := List.mergeSort_singleton _
  exact discover_singleton_eq_ok_iff.2 ⟨_, h, by rw [hsort, dropRepeats]⟩

/-- What is expanded to one path over and over is that path. -/
theorem discover_of_forall_eq {input : String} {paths : List String}
    (h : expandInput fs input = .ok paths) (hne : paths ≠ []) (hall : ∀ p ∈ paths, p = found) :
    discover fs [input] = .ok [found] := by
  have hdiscover := discover_singleton_eq_ok_iff.2 ⟨paths, h, rfl⟩
  have hpairwise := pairwise_of_discover hdiscover
  obtain ⟨p, hp⟩ := List.exists_mem_of_ne_nil _ hne
  obtain ⟨q, hq, -⟩ := exists_mem_dropRepeats hp
  have heq {q : String} (hq : q ∈ dropRepeats (sortPaths paths)) : q = found :=
    hall q (mem_of_mem_dropRepeats hq)
  rw [hdiscover]
  rcases hfiles : dropRepeats (sortPaths paths) with _ | ⟨a, _ | ⟨b, rest⟩⟩
  · rw [hfiles] at hq
    cases hq
  · have ha : a = found := heq (by rw [hfiles]; exact List.mem_cons_self)
    rw [ha]
  · -- Two paths in strict order are not both the one.
    have ha : a = found := heq (by rw [hfiles]; exact List.mem_cons_self)
    have hb : b = found := heq (by rw [hfiles]; exact List.mem_cons_of_mem _ List.mem_cons_self)
    rw [hfiles] at hpairwise
    have hlt := (List.pairwise_cons.1 hpairwise).1 b List.mem_cons_self
    rw [ha, hb] at hlt
    exact absurd rfl (Path.ne_of_lt hlt)

/-! ## Searching for a file -/

theorem forall₂_reads (hslash : ∀ p ∈ ps, '/' ∉ p) (hstars : ['*', '*'] ∉ ps)
    (h : List.Forall₂ (fun p ts => tokens p = .ok ts) ps names) :
    List.Forall₂ Glob.Reads ps names := by
  induction h with
  | nil => exact .nil
  | cons hp _ ih =>
    rw [List.forall_mem_cons] at hslash
    rw [List.mem_cons, not_or] at hstars
    refine .cons ?_ (ih hslash.2 hstars.2)
    exact ((Glob.tokens_eq_ok_iff hslash.1).1 hp).resolve_right fun h => hstars.1 h.1.symm

theorem ne_nil_of_forall₂_splitOn {r : List Char → List Token → Prop}
    (h : List.Forall₂ r (path.toList.splitOn '/') names) : names ≠ [] := by
  rintro rfl
  exact List.splitOn_ne_nil _ _ (List.forall₂_nil_right_iff.1 h)

theorem not_mem_of_forall₂_reads (h : List.Forall₂ Glob.Reads ps names) :
    [.directories] ∉ names := by
  induction h with
  | nil => simp
  | cons hp _ ih =>
    rw [List.mem_cons, not_or]
    exact ⟨fun heq => hp.ne_directories heq.symm, ih⟩

theorem exists_forall₂ {α β : Type} {r : α → β → Prop} {xs : List α} (h : ∀ x ∈ xs, ∃ y, r x y) :
    ∃ ys, List.Forall₂ r xs ys := by
  induction xs with
  | nil => exact ⟨[], .nil⟩
  | cons x xs ih =>
    rw [List.forall_mem_cons] at h
    obtain ⟨⟨y, hy⟩, hxs⟩ := h
    obtain ⟨ys, hys⟩ := ih hxs
    exact ⟨y :: ys, .cons hy hys⟩

theorem exists_of_mem_forall₂ {α β : Type} {r : α → β → Prop} {xs : List α} {ys : List β} {x : α}
    (h : List.Forall₂ r xs ys) (hx : x ∈ xs) : ∃ y, r x y := by
  induction h with
  | nil => cases hx
  | cons hy _ ih =>
    rcases List.mem_cons.1 hx with rfl | hx
    · exact ⟨_, hy⟩
    · exact ih hx

theorem isDirectoryAt_home (fs : FileSystem) : fs.isDirectoryAt fs.home := by
  simp [FileSystem.isDirectoryAt, FileSystem.entryAt?]

/-- The path does not start with dots and a doubled slash. -/
def Grounded (path : String) : Prop :=
  ((path.toList.splitOn '/').dropWhile (· == ['.'])).head? ≠ some []

theorem mem_namesOf_iff {name : List Char} :
    name ∈ FileSystem.namesOf path ↔ name ∈ path.toList.splitOn '/' ∧ name ≠ [] := by
  rw [FileSystem.namesOf, List.mem_filter]
  simp

theorem exists_readsBack (hstars : ['*', '*'] ∉ FileSystem.namesOf path)
    (h : ∀ name ∈ FileSystem.namesOf path, MatchesItself name) :
    ∃ names, List.Forall₂ Glob.ReadsBack (path.toList.splitOn '/') names := by
  refine exists_forall₂ fun p hp => ?_
  by_cases hne : p = []
  · subst hne
    exact ⟨[], .nil, by simp [Glob.isMatch]⟩
  · have hname := mem_namesOf_iff.2 ⟨hp, hne⟩
    obtain ⟨ts, hts, hmatch⟩ := h p hname
    refine ⟨ts, ?_, hmatch⟩
    exact ((Glob.tokens_eq_ok_iff (Path.not_mem_of_mem_splitOn hp).1).1 hts).resolve_right
      fun h => hstars (h.1 ▸ hname)

/-- A file whose names match themselves is found by a search for its path. -/
theorem FilePath.exists_found (h : FilePath fs path place)
    (hstars : ['*', '*'] ∉ FileSystem.namesOf path) (hgrounded : Grounded path)
    (hself : ∀ name ∈ FileSystem.namesOf path, MatchesItself name) :
    ∃ names found, Pattern.ofText path = .ok ⟨false, names, false⟩ ∧
      List.Forall₂ Glob.Reads (path.toList.splitOn '/') names ∧
      found ∈ (⟨false, names, false⟩ : Pattern).paths fs ∧ fs.locate found = .ok place := by
  obtain ⟨names, hnames⟩ := exists_readsBack hstars hself
  have hreads : List.Forall₂ Glob.Reads (path.toList.splitOn '/') names :=
    hnames.imp fun _ _ h => h.1
  obtain ⟨hnul, -, hsize, hwalk, -⟩ := FileSystem.locate_eq_ok.1 h.locate
  rw [FileSystem.startOf, h.relative] at hwalk
  have hbytes : Glob.baseSize "." + Glob.bytesOf (path.toList.splitOn '/') ≤
      FileSystem.maxPathBytes := by
    rw [bytesOf_splitOn, Text.byteCount_toList, Glob.baseSize, if_pos rfl]
    omega
  obtain ⟨found, hleads, hfound⟩ := Glob.exists_leads hnames
    (fun p hp => (Path.not_mem_of_mem_splitOn hp).1)
    (fun p hp hmem => hnul ((Path.not_mem_of_mem_splitOn hp).2 hmem))
    (getLast?_splitOn_ne h.ne h.slash) (.inr hgrounded) (Glob.led_dot fs (isDirectoryAt_home fs))
    hwalk hbytes
  refine ⟨names, found, ?_, hreads, ?_, hfound⟩
  · refine h.ofText_eq_ok_iff.2 ⟨?_, names, ?_, rfl⟩
    · have hwhole := Glob.exists_reads_intercalate fun p hp => exists_of_mem_forall₂ hreads hp
      rw [List.intercalate_splitOn] at hwhole
      obtain ⟨whole, hwhole⟩ := hwhole
      exact ⟨whole, hwhole.tokens⟩
    · exact mapM_eq_ok_iff_forall₂.2 (hreads.imp fun _ _ h => h.tokens)
  · exact (mem_paths_iff (ne_nil_of_forall₂_splitOn hreads)
      (not_mem_of_forall₂_reads hreads)).2 ⟨_, hleads⟩

/-- What is found at the place of a path is among what the path is expanded to. -/
theorem FilePath.expandInput_of_found (h : FilePath fs path place) (hglob : looksLikeGlob path)
    {pattern : Pattern} (hpattern : Pattern.ofText path = .ok pattern)
    (hfound : found ∈ pattern.paths fs) (hlocate : fs.locate found = .ok place) :
    expandInput fs path = .ok ((pattern.paths fs).filter fs.isFile) ∧
      found ∈ (pattern.paths fs).filter fs.isFile := by
  have hmem := List.mem_filter.2 ⟨hfound, h.isFile_of_locate hlocate⟩
  exact ⟨(h.expandInput_eq_ok_iff hglob).2 ⟨pattern, hpattern, rfl, List.ne_nil_of_mem hmem⟩, hmem⟩

/-- A file whose names match themselves is among what its path stands for. -/
theorem FilePath.exists_mem_discover (h : FilePath fs path place)
    (hstars : ['*', '*'] ∉ FileSystem.namesOf path) (hgrounded : Grounded path)
    (hself : ∀ name ∈ FileSystem.namesOf path, MatchesItself name) :
    ∃ files, discover fs [path] = .ok files ∧ ∃ q ∈ files, fs.locate q = .ok place := by
  rcases hglob : looksLikeGlob path with _ | _
  · exact ⟨[path], discover_of_expandInput_singleton (h.expandInput_of_not hglob), path,
      List.mem_cons_self, h.locate⟩
  · obtain ⟨names, found, hpattern, -, hfound, hlocate⟩ := h.exists_found hstars hgrounded hself
    obtain ⟨hexpand, hmem⟩ := h.expandInput_of_found hglob hpattern hfound hlocate
    obtain ⟨q, hq, hparts⟩ := exists_mem_dropRepeats hmem
    refine ⟨_, discover_singleton_eq_ok_iff.2 ⟨_, hexpand, rfl⟩, q, hq, ?_⟩
    have hfile : fs.isFile q := (List.mem_filter.1 (mem_of_mem_dropRepeats hq)).2
    have hplace : fs.placeOf q = place :=
      (placeOf_eq_of_parts_eq hparts).trans (FileSystem.placeOf_of_locate hlocate)
    unfold FileSystem.isFile at hfile
    split at hfile
    · rename_i goal hgoal
      rw [hgoal, ← hplace, FileSystem.placeOf_of_locate hgoal]
    · cases hfile

/-- The texts that a search goes through to the place of a path are the names of the path. -/
theorem FilePath.eq_of_leads (h : FilePath fs path place) (hfs : Glob.ProperNames fs)
    (hup : ['.', '.'] ∉ FileSystem.namesOf path)
    (hreads : List.Forall₂ Glob.Reads (path.toList.splitOn '/') names) {texts : List (List Char)}
    (hleads : Glob.Leads fs names texts "." found) (hfound : fs.locate found = .ok place) :
    texts = path.toList.splitOn '/' := by
  have hslash : ∀ p ∈ path.toList.splitOn '/', '/' ∉ p :=
    fun p hp => (Path.not_mem_of_mem_splitOn hp).1
  have hanswering := hleads.forall₂_answering hfs hreads hslash
  have htexts := Glob.not_mem_of_forall₂_answering hanswering hslash
  have hup' : ['.', '.'] ∉ (path.toList.splitOn '/').reverse := fun hmem =>
    hup (mem_namesOf_iff.2 ⟨List.mem_reverse.1 hmem, by simp⟩)
  have hdot : fs.placeOf "." = fs.home := Glob.placeOf_of_same (by decide +kernel)
  have hplace : (counted texts).foldl FileSystem.enter fs.home =
      (counted (path.toList.splitOn '/')).foldl FileSystem.enter fs.home := by
    have hgoal := hleads.placeOf_eq htexts
    rw [hdot, FileSystem.placeOf_of_locate hfound, ← FileSystem.placeOf_of_locate h.locate,
      FileSystem.placeOf, FileSystem.startOf, h.relative] at hgoal
    exact hgoal.symm
  rw [Glob.foldl_counted, Glob.foldl_counted] at hplace
  exact List.reverse_injective
    (Glob.eq_of_foldr_descend (List.forall₂_reverse_iff.2 hanswering) hup' hplace)

theorem not_mem_of_not_looksLikeGlob (h : looksLikeGlob path = false) {name : List Char}
    (hname : name ∈ FileSystem.namesOf path) : '[' ∉ name ∧ '*' ∉ name := by
  have hsub := (Path.not_mem_of_mem_splitOn (mem_namesOf_iff.1 hname).1).2
  have hall : ∀ c ∈ path.toList, ¬(c == '*' || c == '?' || c == '[' || c == '\x7b') :=
    List.any_eq_false.1 h
  exact ⟨fun hmem => hall _ (hsub hmem) (by decide), fun hmem => hall _ (hsub hmem) (by decide)⟩

theorem matchesItself_of_not_mem_star {name : List Char} (h : '[' ∉ name) (hs : '*' ∉ name) :
    MatchesItself name :=
  Glob.matchesItself_of_not_mem h fun hi => hs (hi.subset List.mem_cons_self)

/-- Where a search for a path finds its file, the names of the path match themselves. -/
theorem FilePath.matchesItself_of_mem_discover (h : FilePath fs path place)
    (hfs : Glob.ProperNames fs) (hstars : ['*', '*'] ∉ FileSystem.namesOf path)
    (hup : ['.', '.'] ∉ FileSystem.namesOf path) (hfiles : discover fs [path] = .ok files)
    (hfound : found ∈ files) (hlocate : fs.locate found = .ok place) :
    ∀ name ∈ FileSystem.namesOf path, MatchesItself name := by
  intro name hname
  rcases hglob : looksLikeGlob path with _ | _
  · obtain ⟨hclass, hstar⟩ := not_mem_of_not_looksLikeGlob hglob hname
    exact matchesItself_of_not_mem_star hclass hstar
  · obtain ⟨paths, hpaths, rfl⟩ := discover_singleton_eq_ok_iff.1 hfiles
    obtain ⟨pattern, hpattern, rfl, -⟩ := (h.expandInput_eq_ok_iff hglob).1 hpaths
    obtain ⟨-, names, hnames, rfl⟩ := h.ofText_eq_ok_iff.1 hpattern
    have htokens := mapM_eq_ok_iff_forall₂.1 hnames
    have hslash : ∀ p ∈ path.toList.splitOn '/', '/' ∉ p :=
      fun p hp => (Path.not_mem_of_mem_splitOn hp).1
    have hstars' : ['*', '*'] ∉ path.toList.splitOn '/' := fun hmem =>
      hstars (mem_namesOf_iff.2 ⟨hmem, by simp⟩)
    have hreads := forall₂_reads hslash hstars' htokens
    have hpath := (List.mem_filter.1 (mem_of_mem_dropRepeats hfound)).1
    obtain ⟨texts, hleads⟩ := (mem_paths_iff (ne_nil_of_forall₂_splitOn hreads)
      (not_mem_of_forall₂_reads hreads)).1 hpath
    have htexts := h.eq_of_leads hfs hup hreads hleads hlocate
    have hmatch : List.Forall₂ (fun p ts => tokens p = .ok ts ∧ Glob.isMatch ts p)
        (path.toList.splitOn '/') names :=
      List.Forall₂.mp (fun _ _ hp ht => ⟨hp, ht⟩) htokens (htexts ▸ hleads.forall₂_isMatch.flip)
    exact exists_of_mem_forall₂ hmatch (mem_namesOf_iff.1 hname).1

theorem exists_plainText? (h : List.Forall₂ Glob.Reads ps names)
    (hps : ∀ p ∈ ps, ∀ c ∈ p, Glob.isSpecial c = false) :
    ∀ ts ∈ names, ∃ text, Glob.plainText? ts = some text := by
  induction h with
  | nil => exact List.forall_mem_nil _
  | @cons p ts ps names hp _ ih =>
    rw [List.forall_mem_cons] at hps ⊢
    exact ⟨⟨p, by rw [hp.eq_map_char hps.1, Glob.plainText?_map_char]⟩, ih hps.2⟩

/-- A file stands for itself under a path without characters that stand for others. -/
theorem FilePath.discover_of_plain (h : FilePath fs path place) (hgrounded : Grounded path)
    (hplain : ∀ c ∈ path.toList, Glob.isSpecial c = false) :
    ∃ q, discover fs [path] = .ok [q] ∧ fs.locate q = .ok place := by
  have hname {p : List Char} (hp : p ∈ path.toList.splitOn '/') :
      ∀ c ∈ p, Glob.isSpecial c = false :=
    fun c hc => hplain c ((Path.not_mem_of_mem_splitOn hp).2 hc)
  have hself : ∀ name ∈ FileSystem.namesOf path, MatchesItself name := fun name hmem => by
    have hspecial := hname (mem_namesOf_iff.1 hmem).1
    exact matchesItself_of_not_mem_star (fun h => absurd (hspecial _ h) (by decide))
      fun h => absurd (hspecial _ h) (by decide)
  have hstars : ['*', '*'] ∉ FileSystem.namesOf path := fun hmem =>
    absurd (hname (mem_namesOf_iff.1 hmem).1 '*' List.mem_cons_self) (by decide)
  rcases hglob : looksLikeGlob path with _ | _
  · exact ⟨path, discover_of_expandInput_singleton (h.expandInput_of_not hglob), h.locate⟩
  · obtain ⟨names, found, hpattern, hreads, hfound, hlocate⟩ :=
      h.exists_found hstars hgrounded hself
    obtain ⟨hexpand, hmem⟩ := h.expandInput_of_found hglob hpattern hfound hlocate
    have htexts := exists_plainText? hreads fun p hp => hname hp
    have hpaths {q : String} : q ∈ (⟨false, names, false⟩ : Pattern).paths fs ↔
        ∃ texts, Glob.Leads fs names texts "." q :=
      mem_paths_iff (ne_nil_of_forall₂_splitOn hreads) (not_mem_of_forall₂_reads hreads)
    obtain ⟨texts, hleads⟩ := hpaths.1 hfound
    refine ⟨found, discover_of_forall_eq hexpand (List.ne_nil_of_mem hmem) fun q hq => ?_, hlocate⟩
    obtain ⟨texts', hleads'⟩ := hpaths.1 (List.mem_filter.1 hq).1
    exact hleads'.eq_of_plainText? hleads htexts

theorem not_mem_below_of_not_grounded (h : (ps.dropWhile (· == ['.'])).head? = some [])
    (hnames : List.Forall₂ (fun p ts => tokens p = .ok ts) ps names) (fuel : Nat) :
    found ∉ Glob.below fs false fuel names "." := by
  induction hnames generalizing fuel with
  | nil => cases h
  | @cons p ts ps names hp hps ih =>
    rcases fuel with _ | fuel
    · rw [Glob.below]
      exact List.not_mem_nil
    · by_cases hdot : p = ['.']
      · subst hdot
        have hreads : Glob.Reads ['.'] [.char '.'] := .char (by decide) .nil
        obtain rfl := Except.ok.inj (hreads.tokens.symm.trans hp)
        rw [Glob.mem_below_cons (by simp)]
        rintro ⟨text, next, hanswers, hfound⟩
        obtain ⟨-, rfl⟩ := hanswers.eq_child (p := ['.']) rfl
        have hne : names ≠ [] := by
          rintro rfl
          rw [List.forall₂_nil_right_iff.1 hps] at h
          cases h
        have hstay : Glob.child "." ['.'] = "." := by decide +kernel
        rw [if_neg hne, hstay] at hfound
        exact ih h fuel hfound
      · have hnil : p = [] := by
          rw [List.dropWhile_cons_of_neg (by simpa using hdot)] at h
          exact Option.some.inj h
        subst hnil
        obtain rfl := Except.ok.inj (Glob.Reads.nil.tokens.symm.trans hp)
        rw [Glob.mem_below_cons (by simp)]
        rintro ⟨text, next, hanswers, -⟩
        have hempty : Glob.child "." [] = "" := by decide +kernel
        have hgone : Glob.isThere fs "" = false := by
          rcases hlocate : fs.locate "" with fault | place
          · simp [Glob.isThere, hlocate]
          · exact absurd rfl (FileSystem.locate_eq_ok.1 hlocate).2.1
        cases hanswers with
        | plain ht hthere =>
          obtain rfl := Option.some.inj ht
          rw [if_neg (by decide), hempty, hgone] at hthere
          cases hthere
        | dots ht | name ht => cases ht

theorem FilePath.discover_ne_of_not_grounded (h : FilePath fs path place)
    (hgrounded : ¬Grounded path) (hglob : looksLikeGlob path) (files : List String) :
    discover fs [path] ≠ .ok files := by
  intro hfiles
  obtain ⟨paths, hpaths, -⟩ := discover_singleton_eq_ok_iff.1 hfiles
  obtain ⟨pattern, hpattern, rfl, hne⟩ := (h.expandInput_eq_ok_iff hglob).1 hpaths
  obtain ⟨-, names, hnames, rfl⟩ := h.ofText_eq_ok_iff.1 hpattern
  obtain ⟨q, hq⟩ := List.exists_mem_of_ne_nil _ hne
  exact not_mem_below_of_not_grounded (not_not.1 hgrounded) (mapM_eq_ok_iff_forall₂.1 hnames) _
    (List.mem_filter.1 hq).1

/-- What the relative path of a file stands for. If nothing in it is taken for a pattern, it is the
path; if no character in it stands for others, it is one path of the file. Otherwise the file is
found, with others or by itself, if each name of the path matches itself and, on a path that does
not go up, only then: so it is not found where a class is in a name without stars. Nothing is found
where the path looks like a pattern and starts with dots and a doubled slash. -/
theorem discover_literal (hrel : Path.isAbsolute path.toList = false) (hfile : fs.isFile path) :
    (looksLikeGlob path = false → discover fs [path] = .ok [path]) ∧
    (Grounded path → (∀ c ∈ path.toList, Glob.isSpecial c = false) →
      ∃ q, discover fs [path] = .ok [q] ∧ fs.locate q = fs.locate path) ∧
    (Grounded path → ['*', '*'] ∉ FileSystem.namesOf path →
      (∀ name ∈ FileSystem.namesOf path, MatchesItself name) →
      ∃ files, discover fs [path] = .ok files ∧ ∃ q ∈ files, fs.locate q = fs.locate path) ∧
    (Glob.ProperNames fs → ['*', '*'] ∉ FileSystem.namesOf path →
      ['.', '.'] ∉ FileSystem.namesOf path →
      ∀ files, discover fs [path] = .ok files → (∃ q ∈ files, fs.locate q = fs.locate path) →
        ∀ name ∈ FileSystem.namesOf path, MatchesItself name) ∧
    (¬Grounded path → looksLikeGlob path → ∀ files, discover fs [path] ≠ .ok files) ∧
    ∀ name ∈ FileSystem.namesOf path,
      ('[' ∉ name → ¬['*', '*'] <:+: name → MatchesItself name) ∧
      ('[' ∈ name → '*' ∉ name → ¬MatchesItself name) := by
  obtain ⟨place, h⟩ := exists_filePath hrel hfile
  rw [h.locate]
  refine ⟨fun hglob => ?_, h.discover_of_plain, fun hgrounded hstars hself => ?_,
    fun hfs hstars hup files hfiles hfound => ?_, h.discover_ne_of_not_grounded,
    fun name hname => ⟨Glob.matchesItself_of_not_mem, ?_⟩⟩
  · exact discover_of_expandInput_singleton (h.expandInput_of_not hglob)
  · exact h.exists_mem_discover hstars hgrounded hself
  · obtain ⟨q, hq, hlocate⟩ := hfound
    exact h.matchesItself_of_mem_discover hfs hstars hup hfiles hq hlocate
  · exact Glob.not_matchesItself_of_mem
      (Path.not_mem_of_mem_splitOn (mem_namesOf_iff.1 hname).1).1

def bracedTree : FileSystem :=
  ⟨[], [(["a\x7bb\x7d.java".toList], .text ""), (["ab.java".toList], .text "")]⟩

theorem properNames_bracedTree : Glob.ProperNames bracedTree where
  home := by simp [bracedTree]
  entries e he name hname := by
    obtain rfl | rfl : name = "a\x7bb\x7d.java".toList ∨ name = "ab.java".toList := by
      rw [bracedTree, List.mem_cons, List.mem_singleton] at he
      rcases he with rfl | rfl
      · exact .inl (List.mem_singleton.1 hname)
      · exact .inr (List.mem_singleton.1 hname)
    all_goals exact ⟨by decide, by decide, by decide, by decide⟩

theorem discover_literal_bracedTree :
    looksLikeGlob "./a\x7bb\x7d.java" = true ∧
    (∃ q, discover bracedTree ["./a\x7bb\x7d.java"] = .ok [q] ∧
      bracedTree.locate q = bracedTree.locate "./a\x7bb\x7d.java") ∧
    (∀ name ∈ FileSystem.namesOf "./a\x7bb\x7d.java", MatchesItself name) ∧
    ∀ files, discover bracedTree [".//a\x7bb\x7d.java"] ≠ .ok files := by
  have hgrounded : Grounded "./a\x7bb\x7d.java" := by
    unfold Grounded
    decide +kernel
  have hdoubled : ¬Grounded ".//a\x7bb\x7d.java" := by
    unfold Grounded
    decide +kernel
  obtain ⟨-, hplain, -, hself, -⟩ := @discover_literal bracedTree "./a\x7bb\x7d.java"
    (by decide +kernel) (by decide +kernel)
  obtain ⟨-, -, -, -, hnone, -⟩ := @discover_literal bracedTree ".//a\x7bb\x7d.java"
    (by decide +kernel) (by decide +kernel)
  obtain ⟨q, hq, hlocate⟩ := hplain hgrounded (by decide +kernel)
  exact ⟨by decide +kernel, ⟨q, hq, hlocate⟩,
    hself properNames_bracedTree (by decide +kernel) (by decide +kernel) [q] hq
      ⟨q, List.mem_singleton_self q, hlocate⟩,
    hnone hdoubled (by decide +kernel)⟩

/-- A pattern of one name that is not plain matches names in the directory that a search starts
from. -/
theorem paths_singleton {ts : List Token} (hts : ts ≠ [.directories])
    (hplain : Glob.plainText? ts = none) (hdots : Glob.matchedDots ts = [])
    (hdir : fs.isDirectory ".") : (⟨false, [ts], false⟩ : Pattern).paths fs =
      ((Glob.namesUnder fs ".").filter (Glob.isMatch ts)).map (Glob.child ".") := by
  have hvisit (names : List (List Char)) :
      (names.flatMap fun name => if !Glob.isMatch ts name then [] else [Glob.child "." name]) =
        (names.filter (Glob.isMatch ts)).map (Glob.child ".") := by
    induction names with
    | nil => rfl
    | cons name names ih =>
      rw [List.flatMap_cons, ih]
      by_cases hmatch : Glob.isMatch ts name <;> simp [hmatch]
  have hfuel : (1 + 1) * (fs.entries.length + fs.home.length + 2) =
      2 * (fs.entries.length + fs.home.length) + 3 + 1 := by omega
  unfold Pattern.paths
  simp only [List.length_singleton, hfuel, Bool.false_eq_true, if_false]
  rw [Glob.below, hplain, ← hvisit]
  simp [hdir, hdots, hts]

def bracketedTree : FileSystem :=
  ⟨[], [(["a[1].java".toList], .text "")]⟩

/-- Beside it one whose name has what stands between the brackets. -/
def classTree : FileSystem :=
  ⟨[], [(["a1.java".toList], .text ""), (["a[1].java".toList], .text "")]⟩

def bracketedTokens : List Token :=
  .char 'a' :: .within [.single '1'] :: ".java".toList.map .char

/-- Under a path with a class in it a file is not found, but another one is, or none. -/
theorem discover_class :
    bracketedTree.isFile "a[1].java" = true ∧
    discover bracketedTree ["a[1].java"] =
      .error (.input "a[1].java" "glob pattern matched no files") ∧
    classTree.isFile "a[1].java" = true ∧
    discover classTree ["a[1].java"] = .ok ["a1.java"] := by
  have hpattern : Pattern.ofText "a[1].java" = .ok ⟨false, [bracketedTokens], false⟩ := by
    decide +kernel
  have hglob : looksLikeGlob "a[1].java" = true := by decide +kernel
  have hmatch : Glob.isMatch bracketedTokens "a1.java".toList = true := by
    have htext : "a1.java".toList = ['a', '1', '.', 'j', 'a', 'v', 'a'] := rfl
    have hrest : ".java".toList = ['.', 'j', 'a', 'v', 'a'] := rfl
    simp [bracketedTokens, htext, hrest, Glob.isMatch, Glob.isMatch.matchesOne,
      Glob.Specifier.names]
  have hneg : ¬Glob.isMatch bracketedTokens "a[1].java".toList = true := by
    have htext : "a[1].java".toList = ['a', '[', '1', ']', '.', 'j', 'a', 'v', 'a'] := rfl
    simp [bracketedTokens, htext, Glob.isMatch, Glob.isMatch.matchesOne, Glob.Specifier.names]
  have hplain : Glob.plainText? bracketedTokens = none := by decide +kernel
  have hdots : Glob.matchedDots bracketedTokens = [] := by
    simp [Glob.matchedDots, bracketedTokens]
  have hchild : Glob.child "." "a1.java".toList = "a1.java" := by decide +kernel
  have hne : bracketedTokens ≠ [.directories] := by simp [bracketedTokens]
  refine ⟨by decide +kernel, ?_, by decide +kernel, ?_⟩
  · have hlocate : bracketedTree.locate "." = .ok [] := by decide +kernel
    have hin : bracketedTree.namesIn [] = ["a[1].java".toList] := by decide +kernel
    have hnames : Glob.namesUnder bracketedTree "." = ["a[1].java".toList] := by
      simp only [Glob.namesUnder, hlocate, hin, List.mergeSort_singleton]
    have hdirectory : bracketedTree.isDirectory "a[1].java" = false := by decide +kernel
    have hpaths : (⟨false, [bracketedTokens], false⟩ : Pattern).paths bracketedTree = [] := by
      rw [paths_singleton hne hplain hdots (by decide +kernel), hnames,
        List.filter_cons_of_neg hneg]
      rfl
    refine discover_singleton_eq_error.2 ?_
    simp [expandInput, globFiles, hpattern, hpaths, hdirectory, hglob, bind, Except.bind]
  · have hlocate : classTree.locate "." = .ok [] := by decide +kernel
    have hin : classTree.namesIn [] = ["a1.java".toList, "a[1].java".toList] := by decide +kernel
    have hnames : Glob.namesUnder classTree "." = ["a1.java".toList, "a[1].java".toList] := by
      simp only [Glob.namesUnder, hlocate, hin]
      exact List.mergeSort_of_pairwise (by decide +kernel)
    have hdirectory : classTree.isDirectory "a[1].java" = false := by decide +kernel
    have hfile : classTree.isFile "a1.java" = true := by decide +kernel
    have hpaths : (⟨false, [bracketedTokens], false⟩ : Pattern).paths classTree = ["a1.java"] := by
      rw [paths_singleton hne hplain hdots (by decide +kernel), hnames,
        List.filter_cons_of_pos hmatch, List.filter_cons_of_neg hneg, List.filter_nil,
        List.map_singleton, hchild]
    refine discover_of_expandInput_singleton ?_
    simp [expandInput, globFiles, hpattern, hpaths, hdirectory, hfile, hglob, bind, Except.bind]

end Companion
