import Companion.Proofs.GlobNames
import Companion.Proofs.MadeDirectories

/-!
# The search for a pattern

What matches a pattern is found name by name: in the directory that is reached so far something
answers the next name of the pattern (`Answers`). Without names that stand for directories the paths
found are exactly those that such steps lead to (`mem_below_iff`).
-/

namespace Companion

namespace FileSystem

/-- In a directory are the next name of the way to the home directory and the last names of the
entries there. -/
theorem mem_namesIn_iff {fs : FileSystem} {place : Location} {name : List Char} :
    name ∈ fs.namesIn place ↔
      (place.isPrefixOf fs.home ∧ ∃ rest, fs.home.drop place.length = name :: rest) ∨
      ∃ e ∈ fs.entries, e.1.dropLast = place ∧ e.1.getLast? = some name := by
  have hentries : name ∈ (fs.entries.filterMap fun e =>
      if e.1.dropLast = place then e.1.getLast? else none) ↔
      ∃ e ∈ fs.entries, e.1.dropLast = place ∧ e.1.getLast? = some name := by
    simp only [List.mem_filterMap, Option.ite_none_right_eq_some]
  rw [← hentries]
  unfold namesIn
  dsimp only
  rcases hdrop : fs.home.drop place.length with _ | ⟨next, rest⟩
  · simp
  · dsimp only
    split_ifs with hhome
    · by_cases hnext : name = next
      · simp [hnext, hhome]
      · have hnext' : next ≠ name := Ne.symm hnext
        simp [hnext, hnext']
    · simp [hhome]

end FileSystem

namespace Glob

variable {fs : FileSystem} {ts : List Token} {names : List (List Token)} {path found next : String}
  {text : List Char} {texts : List (List Char)} {fuel : Nat}

/-- What answers a name of a pattern under a path, and the path that it leads to. -/
inductive Answers (fs : FileSystem) (path : String) (ts : List Token) :
    List Char → String → Prop where
  | plain {text : List Char} (ht : plainText? ts = some text)
    (hthere : if text = ['.'] ∨ text = ['.', '.'] then fs.isDirectory path
      else isThere fs (child path text)) : Answers fs path ts text (child path text)
  | dots {dots : String} (ht : plainText? ts = none) (hpath : fs.isDirectory path)
    (hdots : dots ∈ matchedDots ts) : Answers fs path ts dots.toList (Path.push path dots)
  | name {name : List Char} (ht : plainText? ts = none) (hpath : fs.isDirectory path)
    (hname : name ∈ namesUnder fs path) (hmatch : isMatch ts name) :
    Answers fs path ts name (child path name)

/-- The texts answer the names of a pattern one after the other, from a path to the one found. -/
inductive Leads (fs : FileSystem) :
    List (List Token) → List (List Char) → String → String → Prop where
  | nil (path : String) : Leads fs [] [] path path
  | cons {ts : List Token} {names : List (List Token)} {text : List Char}
    {texts : List (List Char)} {path next found : String} (h : Answers fs path ts text next)
    (hrest : Leads fs names texts next found) :
    Leads fs (ts :: names) (text :: texts) path found

theorem mem_ifLast (names : List (List Token)) (p : String) :
    (found ∈ if names.isEmpty then (if !false || fs.isDirectory p then [p] else [])
      else below fs false fuel names p) ↔
    if names = [] then found = p else found ∈ below fs false fuel names p := by
  by_cases hn : names = [] <;> simp [hn]

/-- A plain name of a pattern is answered by itself. -/
theorem mem_below_of_plain (ht : plainText? ts = some text) :
    found ∈ below fs false (fuel + 1) (ts :: names) path ↔
      (if text = ['.'] ∨ text = ['.', '.'] then fs.isDirectory path
        else isThere fs (child path text)) ∧
      if names = [] then found = child path text
        else found ∈ below fs false fuel names (child path text) := by
  rw [below, ht]
  simp only [← mem_ifLast]
  split_ifs <;> simp_all

/-- Any other one is answered in a directory by the dots and the names there that match it. -/
theorem mem_below_of_not_plain (hts : ts ≠ [.directories]) (ht : plainText? ts = none) :
    found ∈ below fs false (fuel + 1) (ts :: names) path ↔ fs.isDirectory path ∧
      ((∃ dots ∈ matchedDots ts, if names = [] then found = Path.push path dots
        else found ∈ below fs false fuel names (Path.push path dots)) ∨
      ∃ name ∈ namesUnder fs path, isMatch ts name ∧ if names = [] then found = child path name
        else found ∈ below fs false fuel names (child path name)) := by
  have hvisit (name : List Char) :
      (found ∈ if !isMatch ts name then []
        else if names.isEmpty then
          (if !false || fs.isDirectory (child path name) then [child path name] else [])
        else below fs false fuel names (child path name)) ↔
      isMatch ts name ∧ if names = [] then found = child path name
        else found ∈ below fs false fuel names (child path name) := by
    by_cases hm : isMatch ts name <;> simp [hm, ← mem_ifLast]
  rw [below, ht]
  by_cases hpath : fs.isDirectory path
  · simp only [hpath, true_and, Bool.not_true, Bool.false_eq_true, if_false, hts, List.mem_append,
      List.mem_flatMap, mem_ifLast, hvisit]
  · simp only [hpath, Bool.not_false, if_true, List.not_mem_nil, Bool.false_eq_true, false_and]

theorem mem_below_cons (hts : ts ≠ [.directories]) :
    found ∈ below fs false (fuel + 1) (ts :: names) path ↔
      ∃ text next, Answers fs path ts text next ∧
        if names = [] then found = next else found ∈ below fs false fuel names next := by
  rcases ht : plainText? ts with _ | text
  · rw [mem_below_of_not_plain hts ht]
    constructor
    · rintro ⟨hpath, ⟨dots, hdots, hfound⟩ | ⟨name, hname, hmatch, hfound⟩⟩
      · exact ⟨_, _, .dots ht hpath hdots, hfound⟩
      · exact ⟨_, _, .name ht hpath hname hmatch, hfound⟩
    · rintro ⟨text, next, h, hfound⟩
      cases h with
      | plain h => simp [ht] at h
      | dots _ hpath hdots => exact ⟨hpath, .inl ⟨_, hdots, hfound⟩⟩
      | name _ hpath hname hmatch => exact ⟨hpath, .inr ⟨_, hname, hmatch, hfound⟩⟩
  · rw [mem_below_of_plain ht]
    constructor
    · rintro ⟨hthere, hfound⟩
      exact ⟨text, _, .plain ht (by split_ifs at hthere ⊢ <;> exact hthere), hfound⟩
    · rintro ⟨text', next, h, hfound⟩
      cases h with
      | plain h hthere =>
        obtain rfl := Option.some.inj (ht.symm.trans h)
        exact ⟨by split_ifs at hthere ⊢ <;> exact hthere, hfound⟩
      | dots h | name h => simp [ht] at h

/-- Where no name of a pattern stands for directories, the paths found are those that the names lead
to. -/
theorem mem_below_iff (hne : names ≠ []) (hnames : [.directories] ∉ names)
    (hfuel : names.length ≤ fuel) :
    found ∈ below fs false fuel names path ↔ ∃ texts, Leads fs names texts path found := by
  induction names generalizing fuel path with
  | nil => exact absurd rfl hne
  | cons ts names ih =>
    rw [List.mem_cons, not_or] at hnames
    obtain ⟨fuel, rfl⟩ : ∃ n, fuel = n + 1 := ⟨fuel - 1, by
      simp only [List.length_cons] at hfuel
      omega⟩
    have hrest (next : String) :
        (if names = [] then found = next else found ∈ below fs false fuel names next) ↔
          ∃ texts, Leads fs names texts next found := by
      by_cases hn : names = []
      · subst hn
        rw [if_pos rfl]
        constructor
        · rintro rfl
          exact ⟨[], .nil found⟩
        · rintro ⟨texts, h⟩
          cases h
          rfl
      · rw [if_neg hn]
        exact ih hn hnames.2 (Nat.le_of_succ_le_succ hfuel)
    rw [mem_below_cons (Ne.symm hnames.1)]
    simp only [hrest]
    constructor
    · rintro ⟨text, next, h, texts, hleads⟩
      exact ⟨text :: texts, .cons h hleads⟩
    · rintro ⟨texts, hleads⟩
      cases hleads with
      | cons h hleads => exact ⟨_, _, h, _, hleads⟩

theorem Answers.eq_child (h : Answers fs path ts text next) {p : List Char}
    (hts : plainText? ts = some p) : text = p ∧ next = child path p := by
  cases h with
  | plain ht _ =>
    obtain rfl := Option.some.inj (ht.symm.trans hts)
    exact ⟨rfl, rfl⟩
  | dots ht | name ht => simp [ht] at hts

/-- Plain names lead to one path. -/
theorem Leads.eq_of_plainText? {texts' : List (List Char)} {found' : String}
    (h : Leads fs names texts path found) (h' : Leads fs names texts' path found')
    (hplain : ∀ ts ∈ names, ∃ text, plainText? ts = some text) : found = found' := by
  induction h generalizing texts' with
  | nil =>
    cases h'
    rfl
  | cons hstep _ ih =>
    cases h' with
    | cons hstep' hrest' =>
      obtain ⟨⟨p, hp⟩, hplain⟩ := List.forall_mem_cons.1 hplain
      obtain ⟨-, rfl⟩ := hstep.eq_child hp
      obtain ⟨-, rfl⟩ := hstep'.eq_child hp
      exact ih hrest' hplain

/-- The names that lead somewhere. -/
def counted (texts : List (List Char)) : List (List Char) :=
  texts.filter (!·.isEmpty)

theorem counted_cons (text : List Char) (texts : List (List Char)) :
    counted (text :: texts) = counted [text] ++ counted texts := by
  rw [counted, counted, counted, ← List.filter_append]
  rfl

theorem isAbsolute_of_not_mem (h : '/' ∉ text) : Path.isAbsolute text = false := by
  cases text with
  | nil => rfl
  | cons c s =>
    simp only [List.mem_cons, not_or] at h
    simp [Path.isAbsolute, Ne.symm h.1]

theorem namesOf_ofList (h : '/' ∉ text) :
    FileSystem.namesOf (String.ofList text) = counted [text] := by
  rw [FileSystem.namesOf, String.toList_ofList, List.splitOn_eq_singleton h, counted]

theorem placeOf_push (fs : FileSystem) (path : String) (h : '/' ∉ text) :
    fs.placeOf (Path.push path (String.ofList text)) =
      (counted [text]).foldl FileSystem.enter (fs.placeOf path) := by
  have habs := isAbsolute_of_not_mem h
  rw [FileSystem.placeOf, FileSystem.namesOf_push _ habs, FileSystem.startOf,
    Path.isAbsolute_push _ habs, List.foldl_append, namesOf_ofList h]
  rfl

/-- A path that is the same as the dot is relative and has no other names than dots. -/
theorem relative_of_same (h : Path.same path ".") : Path.isAbsolute path.toList = false ∧
    ∀ name ∈ FileSystem.namesOf path, name = ['.'] := by
  have hcomponents : Path.components path.toList = [.here] := by
    have hdot : Path.components ".".toList = [.here] := by decide +kernel
    rw [← hdot]
    exact beq_iff_eq.1 h
  have habs : Path.isAbsolute path.toList = false := by
    rw [Path.components] at hcomponents
    by_contra hne
    rw [Bool.not_eq_false] at hne
    simp [hne] at hcomponents
  refine ⟨habs, fun name hname => ?_⟩
  obtain ⟨hsplit, hne⟩ := List.mem_filter.1 hname
  by_contra hdot
  obtain ⟨first, hpiece⟩ : ∃ first, (first, name) ∈ Path.pieces path.toList := by
    rw [← Path.map_snd_pieces] at hsplit
    obtain ⟨⟨first, name⟩, hmem, rfl⟩ := List.mem_map.1 hsplit
    exact ⟨first, hmem⟩
  rw [Path.components_of_isAbsolute_eq_false habs] at hcomponents
  have hhere {c : Path.Component} (hc : Path.Component.ofPiece? first name = some c) :
      c = .here := by
    have hmem : c ∈ [Path.Component.here] :=
      hcomponents ▸ List.mem_filterMap.2 ⟨_, hpiece, hc⟩
    exact List.mem_singleton.1 hmem
  have hne' : name.isEmpty = false := by simpa using hne
  unfold Path.Component.ofPiece? at hhere
  rw [if_neg (by simp [hne']), if_neg hdot] at hhere
  split_ifs at hhere
  · cases hhere rfl
  · cases hhere rfl

/-- Such a path stays where it starts. -/
theorem placeOf_of_same (h : Path.same path ".") : fs.placeOf path = fs.home := by
  obtain ⟨habs, hnames⟩ := relative_of_same h
  have hfold (names : List (List Char)) (h : ∀ name ∈ names, name = ['.']) :
      names.foldl FileSystem.enter fs.home = fs.home := by
    induction names with
    | nil => rfl
    | cons name names ih =>
      rw [List.forall_mem_cons] at h
      rw [List.foldl_cons, FileSystem.enter, if_pos h.1, ih h.2]
  rw [FileSystem.placeOf, FileSystem.startOf, habs]
  exact hfold _ hnames

theorem placeOf_child (fs : FileSystem) (path : String) (h : '/' ∉ text) :
    fs.placeOf (child path text) = (counted [text]).foldl FileSystem.enter (fs.placeOf path) := by
  unfold child
  by_cases hsame : Path.same path "."
  · rw [if_pos hsame, placeOf_of_same hsame, FileSystem.placeOf, FileSystem.startOf,
      String.toList_ofList, isAbsolute_of_not_mem h, namesOf_ofList h]
    rfl
  · rw [if_neg hsame]
    exact placeOf_push fs path h

/-- What a search goes through to a place adds up to the place. -/
theorem Leads.placeOf_eq (h : Leads fs names texts path found)
    (htexts : ∀ text ∈ texts, '/' ∉ text) :
    fs.placeOf found = (counted texts).foldl FileSystem.enter (fs.placeOf path) := by
  induction h with
  | nil => rfl
  | @cons ts names text texts path next found hstep _ ih =>
    obtain ⟨htext, htexts⟩ := List.forall_mem_cons.1 htexts
    have hnext : fs.placeOf next = (counted [text]).foldl FileSystem.enter (fs.placeOf path) := by
      cases hstep with
      | plain | name => exact placeOf_child fs path htext
      | dots =>
        rw [← placeOf_push fs path htext, String.ofList_toList]
    rw [ih htexts, counted_cons, List.foldl_append, hnext]

/-- Each name in the file system leads one step down. -/
structure ProperNames (fs : FileSystem) : Prop where
  home : ∀ name ∈ fs.home, Path.IsName name
  entries : ∀ e ∈ fs.entries, ∀ name ∈ e.1, Path.IsName name

def Answering (name text : List Char) : Prop :=
  text = name ∨ Path.IsName name ∧ (Path.IsName text ∨ text = ['.'] ∨ text = ['.', '.'])

theorem isName_of_mem_namesUnder (h : ProperNames fs) (hname : text ∈ namesUnder fs path) :
    Path.IsName text := by
  unfold namesUnder at hname
  split at hname
  · rw [List.mem_mergeSort, FileSystem.mem_namesIn_iff] at hname
    obtain ⟨-, rest, hdrop⟩ | ⟨e, he, -, hlast⟩ := hname
    · exact h.home _ (List.drop_subset _ _ (hdrop ▸ List.mem_cons_self))
    · exact h.entries e he _ (List.mem_of_getLast? hlast)
  · simp at hname

theorem isName_of_plainText?_eq_none {name : List Char} (h : Reads name ts) (hslash : '/' ∉ name)
    (hts : plainText? ts = none) : Path.IsName name := by
  have hspecial : ¬∀ c ∈ name, isSpecial c = false := fun hs => by
    rw [h.eq_map_char hs, plainText?_map_char] at hts
    cases hts
  refine ⟨?_, hslash, ?_, ?_⟩
  all_goals
    rintro rfl
    exact hspecial (by decide)

theorem Answers.answering (hfs : ProperNames fs) (h : Answers fs path ts text next)
    {name : List Char} (hname : Reads name ts) (hslash : '/' ∉ name) : Answering name text := by
  cases h with
  | plain ht _ => exact .inl (hname.eq_of_plainText? ht)
  | @dots dots ht _ hdots =>
    refine .inr ⟨isName_of_plainText?_eq_none hname hslash ht, .inr ?_⟩
    unfold matchedDots at hdots
    split_ifs at hdots
    · have hmem := List.mem_of_mem_filter hdots
      simp only [List.mem_cons, List.not_mem_nil, or_false] at hmem
      rcases hmem with rfl | rfl
      · exact .inr (by decide)
      · exact .inl (by decide)
    · cases hdots
  | name ht _ hunder _ =>
    exact .inr ⟨isName_of_plainText?_eq_none hname hslash ht,
      .inl (isName_of_mem_namesUnder hfs hunder)⟩

theorem Answers.isMatch (h : Answers fs path ts text next) : isMatch ts text := by
  cases h with
  | plain ht _ => exact (isMatch_of_plainText? ht).2 rfl
  | dots _ _ hdots =>
    unfold matchedDots at hdots
    split_ifs at hdots
    · exact (List.mem_filter.1 hdots).2
    · cases hdots
  | name _ _ _ hmatch => exact hmatch

theorem Leads.forall₂_isMatch (h : Leads fs names texts path found) :
    List.Forall₂ (fun ts text => isMatch ts text = true) names texts := by
  induction h with
  | nil => exact .nil
  | cons hstep _ ih => exact .cons hstep.isMatch ih

theorem Leads.forall₂_answering (hfs : ProperNames fs) (h : Leads fs names texts path found)
    {ps : List (List Char)} (hps : List.Forall₂ Reads ps names) (hslash : ∀ p ∈ ps, '/' ∉ p) :
    List.Forall₂ Answering ps texts := by
  induction h generalizing ps with
  | nil =>
    cases hps
    exact .nil
  | cons hstep _ ih =>
    cases hps with
    | cons hp hps =>
      rw [List.forall_mem_cons] at hslash
      exact .cons (hstep.answering hfs hp hslash.1) (ih hps hslash.2)

theorem not_mem_of_forall₂_answering {ps : List (List Char)}
    (h : List.Forall₂ Answering ps texts) (hslash : ∀ p ∈ ps, '/' ∉ p) :
    ∀ text ∈ texts, '/' ∉ text := by
  induction h with
  | nil => exact List.forall_mem_nil _
  | cons hstep _ ih =>
    rw [List.forall_mem_cons] at hslash ⊢
    refine ⟨?_, ih hslash.2⟩
    rcases hstep with rfl | ⟨-, h | rfl | rfl⟩
    · exact hslash.1
    · exact h.slash
    · decide
    · decide

/-- Goes on from a place, where an empty text stays there. -/
def descend (text : List Char) (place : Location) : Location :=
  if text = [] then place else FileSystem.enter place text

theorem foldl_counted (texts : List (List Char)) (place : Location) :
    (counted texts).foldl FileSystem.enter place = texts.reverse.foldr descend place := by
  rw [List.foldr_reverse, counted, List.foldl_filter]
  congr 1
  funext place text
  cases text <;> rfl

theorem descend_of_isName (h : Path.IsName text) (place : Location) :
    descend text place = place ++ [text] := by
  rw [descend, if_neg h.ne_nil, FileSystem.enter, if_neg h.ne_here, if_neg h.ne_up]

theorem length_descend_le {name : List Char} (h : Answering name text) (hup : name ≠ ['.', '.'])
    {place place' : Location} (hle : place'.length ≤ place.length) :
    (descend text place').length ≤ (descend name place).length := by
  rcases h with rfl | ⟨hname, htext | rfl | rfl⟩
  · unfold descend FileSystem.enter
    split_ifs <;> simp [hle]
  · rw [descend_of_isName hname, descend_of_isName htext, List.length_append, List.length_append]
    exact Nat.add_le_add_right hle 1
  · rw [descend_of_isName hname, List.length_append]
    exact hle.trans (Nat.le_add_right _ _)
  · rw [descend_of_isName hname, List.length_append]
    exact ((place'.dropLast_sublist).length_le.trans hle).trans (Nat.le_add_right _ _)

variable {ps : List (List Char)} {home : Location}

theorem length_foldr_descend_le (h : List.Forall₂ Answering ps texts) (hup : ['.', '.'] ∉ ps) :
    (texts.foldr descend home).length ≤ (ps.foldr descend home).length := by
  induction h with
  | nil => exact Nat.le_refl _
  | cons hstep _ ih =>
    rw [List.mem_cons, not_or] at hup
    exact length_descend_le hstep (Ne.symm hup.1) (ih hup.2)

/-- Only by its own names a search comes to the place of a path that does not go up. -/
theorem eq_of_foldr_descend (h : List.Forall₂ Answering ps texts) (hup : ['.', '.'] ∉ ps)
    (heq : texts.foldr descend home = ps.foldr descend home) : texts = ps := by
  induction h with
  | nil => rfl
  | @cons name text ps texts hstep hrest ih =>
    rw [List.mem_cons, not_or] at hup
    have hle : (texts.foldr descend home).length ≤ (ps.foldr descend home).length :=
      length_foldr_descend_le hrest hup.2
    rw [List.foldr_cons, List.foldr_cons] at heq
    rcases hstep with rfl | ⟨hname, htext | rfl | rfl⟩
    · have hsame : texts.foldr descend home = ps.foldr descend home := by
        unfold descend FileSystem.enter at heq
        split_ifs at heq with hnil hhere hdots
        · exact heq
        · exact heq
        · exact absurd hdots.symm hup.1
        · exact (List.append_inj' heq rfl).1
      rw [ih hup.2 hsame]
    · rw [descend_of_isName hname, descend_of_isName htext] at heq
      obtain ⟨hsame, hlast⟩ := List.append_inj' heq rfl
      rw [ih hup.2 hsame, (List.cons.inj hlast).1]
    · have hlength := congrArg List.length heq
      rw [descend_of_isName hname, List.length_append] at hlength
      have hstay : descend ['.'] (texts.foldr descend home) = texts.foldr descend home := rfl
      rw [hstay, List.length_singleton] at hlength
      omega
    · have hlength := congrArg List.length heq
      rw [descend_of_isName hname, List.length_append] at hlength
      have hback : descend ['.', '.'] (texts.foldr descend home) =
          (texts.foldr descend home).dropLast := rfl
      rw [hback, List.length_singleton, List.length_dropLast] at hlength
      omega

end Glob

end Companion
