import Companion.Proofs.GlobSteps
import Companion.Proofs.Slices

/-!
# Paths that a search for them finds

A path that is searched for as a pattern is found if each of its names matches itself: the search
comes to the place of the path by its own names (`exists_leads`). What it makes on the way is no
longer than the start of the path is, so nothing of it is too long (`Led`).
-/

namespace Companion

namespace FileSystem

variable {fs : FileSystem} {path : String} {place goal : Location} {name : List Char}

theorem locate_eq_ok : fs.locate path = .ok place ↔
    '\x00' ∉ path.toList ∧ path.toList ≠ [] ∧ path.utf8ByteSize < maxPathBytes ∧
      fs.walk (fs.startOf path) (namesOf path) = .ok place ∧
      (endsInSlash path → fs.isDirectoryAt place) := by
  have hnul : path.toList.contains '\x00' ↔ '\x00' ∈ path.toList := by simp
  have hempty : path.isEmpty ↔ path.toList = [] := by simp
  unfold locate checkedNames
  split_ifs with h₁ h₂ h₃
  · simp [hnul.1 h₁, bind, Except.bind]
  · simp [hempty.1 h₂, bind, Except.bind]
  · simp [Nat.not_lt.2 h₃, bind, Except.bind]
  · rcases hwalk : fs.walk (fs.startOf path) (namesOf path) with fault | goal
    · simp [bind, Except.bind, hwalk]
    · rw [hnul] at h₁
      rw [hempty] at h₂
      simp only [bind, Except.bind, hwalk, h₁, h₂, Nat.not_le.1 h₃, not_false_eq_true, ne_eq,
        true_and, Except.ok.injEq]
      split_ifs with hslash
      · simp only [Bool.and_eq_true, Bool.not_eq_true'] at hslash
        simp only [false_iff, not_and]
        rintro rfl h
        simp [h hslash.1] at hslash
      · simp only [Bool.and_eq_true, Bool.not_eq_true', not_and, Bool.not_eq_false] at hslash
        simp only [Except.ok.injEq]
        constructor
        · rintro rfl
          exact ⟨rfl, hslash⟩
        · exact fun h => h.1

theorem mem_namesIn (h : (fs.entryAt? (place ++ [name])).isSome) : name ∈ fs.namesIn place := by
  unfold entryAt? at h
  rw [mem_namesIn_iff]
  by_cases hprefix : (place ++ [name]).isPrefixOf fs.home
  · obtain ⟨rest, hrest⟩ := List.isPrefixOf_iff_prefix.1 hprefix
    rw [List.append_assoc] at hrest
    refine .inl ⟨List.isPrefixOf_iff_prefix.2 ⟨[name] ++ rest, hrest⟩, rest, ?_⟩
    rw [← hrest, List.drop_left]
    rfl
  · rw [if_neg hprefix] at h
    obtain ⟨e, he⟩ := Option.isSome_iff_exists.1 h
    obtain ⟨before, after, hentries, -⟩ := List.lookup_eq_some_iff.1 he
    refine .inr ⟨(place ++ [name], e), ?_, List.dropLast_concat, List.getLast?_concat⟩
    rw [hentries]
    exact List.mem_append_right _ List.mem_cons_self

end FileSystem

namespace Glob

open FileSystem (endsInSlash namesOf)

variable {fs : FileSystem} {path : String} {place next goal : Location} {p : List Char}
  {ps : List (List Char)} {ts : List Token} {names : List (List Token)}

theorem mem_namesUnder (hpath : fs.locate path = .ok place)
    (h : (fs.entryAt? (place ++ [p])).isSome) : p ∈ namesUnder fs path := by
  rw [namesUnder, hpath, List.mem_mergeSort]
  exact FileSystem.mem_namesIn h

/-- A relative path leads to a place, and only its size may keep it from being there. -/
structure Led (fs : FileSystem) (path : String) (place : Location) : Prop where
  nul : '\x00' ∉ path.toList
  ne : path.toList ≠ []
  relative : Path.isAbsolute path.toList = false
  walk : fs.walk fs.home (namesOf path) = .ok place
  slash : endsInSlash path → fs.isDirectoryAt place

theorem led_dot (fs : FileSystem) (h : fs.isDirectoryAt fs.home) : Led fs "." fs.home where
  nul := by decide
  ne := by decide
  relative := by decide
  walk := by
    have hnames : namesOf "." = [['.']] := by decide +kernel
    rw [hnames, FileSystem.walk, h]
    rfl
  slash := fun _ => h

theorem Led.locate (h : Led fs path place) (hsize : path.utf8ByteSize < FileSystem.maxPathBytes) :
    fs.locate path = .ok place := by
  rw [FileSystem.locate_eq_ok, FileSystem.startOf, h.relative]
  exact ⟨h.nul, h.ne, hsize, h.walk, h.slash⟩

theorem Led.child (h : Led fs path place) (hslash : '/' ∉ p) (hnul : '\x00' ∉ p)
    (hne : p ≠ [] ∨ ¬Path.same path ".") (hwalk : fs.walk place (counted [p]) = .ok next)
    (hdir : fs.isDirectoryAt place) : Led fs (child path p) next := by
  have habs := isAbsolute_of_not_mem hslash
  have hlast {before : List Char} (h : (before ++ '/' :: p).getLast? = some '/') : p = [] := by
    by_contra hp
    rw [List.getLast?_append_of_ne_nil _ (List.cons_ne_nil _ _), List.getLast?_cons,
      List.getLast?_eq_some_getLast hp] at h
    exact hslash (Option.some.inj h ▸ List.getLast_mem hp)
  unfold Glob.child
  by_cases hsame : Path.same path "."
  · have hp := hne.resolve_right (not_not.2 hsame)
    have hhome : place = fs.home := calc
      place = (FileSystem.namesOf path).foldl FileSystem.enter fs.home :=
        FileSystem.eq_foldl_of_walk h.walk
      _ = fs.placeOf path := by
        rw [FileSystem.placeOf, FileSystem.startOf, h.relative]
        rfl
      _ = fs.home := placeOf_of_same hsame
    subst hhome
    rw [if_pos hsame]
    refine ⟨?_, ?_, ?_, ?_, fun hend => ?_⟩
    · rwa [String.toList_ofList]
    · rwa [String.toList_ofList]
    · rwa [String.toList_ofList]
    · rwa [namesOf_ofList hslash]
    · rw [endsInSlash, String.toList_ofList, List.getLast?_eq_some_getLast hp, beq_iff_eq] at hend
      exact absurd (Option.some.inj hend ▸ List.getLast_mem hp) hslash
  · rw [if_neg hsame]
    obtain ⟨before, hpush, hbefore⟩ := (Path.toList_push path habs).resolve_left fun he => h.ne he.1
    have hsub : before ⊆ path.toList := by
      rcases hbefore with ⟨hb, -⟩ | hb
      · exact hb ▸ List.Subset.refl _
      · exact hb ▸ List.subset_append_left _ _
    refine ⟨?_, ?_, ?_, ?_, fun hend => ?_⟩
    · rw [hpush]
      simp only [List.mem_append, List.mem_cons, not_or]
      exact ⟨fun hmem => h.nul (hsub hmem), by decide, hnul⟩
    · simp [hpush]
    · rw [Path.isAbsolute_push path habs, h.relative]
    · rw [FileSystem.namesOf_push path habs, FileSystem.walk_append, h.walk, namesOf_ofList hslash]
      exact hwalk
    · rw [endsInSlash, hpush, beq_iff_eq] at hend
      obtain rfl := hlast hend
      obtain rfl := Except.ok.inj hwalk
      exact hdir

/-- The bytes that a path takes in front of a name. The start of a search takes none. -/
def baseSize (path : String) : Nat :=
  if path = "." then 0 else path.utf8ByteSize + 1

theorem utf8ByteSize_child_le (path : String) (p : List Char) :
    (child path p).utf8ByteSize ≤ baseSize path + Text.byteCount p := by
  have hsize : (String.ofList p).utf8ByteSize = Text.byteCount p := by
    rw [← Text.byteCount_toList, String.toList_ofList]
  have hpush : (Path.push path (String.ofList p)).utf8ByteSize ≤
      path.utf8ByteSize + 1 + Text.byteCount p := by
    have hone : "/".utf8ByteSize = 1 := by decide +kernel
    unfold Path.push
    split_ifs
    · omega
    · rw [String.utf8ByteSize_append]
      omega
    · rw [String.utf8ByteSize_append, String.utf8ByteSize_append]
      omega
  have hdot : Path.same "." "." := by decide +kernel
  unfold child baseSize
  split_ifs with hsame hpath hpath
  · omega
  · omega
  · exact absurd (hpath ▸ hdot) hsame
  · exact hpush

theorem baseSize_child_le (path : String) (p : List Char) :
    baseSize (child path p) ≤ baseSize path + (Text.byteCount p + 1) := by
  have hle := utf8ByteSize_child_le path p
  unfold baseSize at hle ⊢
  split_ifs at hle ⊢ <;> omega

theorem lt_of_baseSize_le (h : baseSize path ≤ FileSystem.maxPathBytes) :
    path.utf8ByteSize < FileSystem.maxPathBytes := by
  unfold baseSize at h
  split_ifs at h with hpath
  · subst hpath
    decide +kernel
  · omega

def bytesOf : List (List Char) → Nat
  | [] => 0
  | p :: ps => Text.byteCount p + 1 + bytesOf ps

/-- An empty name does not come behind dots alone: what is reached so far has a name, or the first
of the names that is not a dot is not empty. -/
def Anchored (path : String) (ps : List (List Char)) : Prop :=
  (∃ name ∈ namesOf path, name ≠ ['.']) ∨ (ps.dropWhile (· == ['.'])).head? ≠ some []

theorem Anchored.ne_nil (h : Anchored path (p :: ps)) : p ≠ [] ∨ ¬Path.same path "." := by
  rcases h with ⟨name, hname, hne⟩ | h
  · exact .inr fun hsame => hne ((relative_of_same hsame).2 name hname)
  · refine .inl ?_
    rintro rfl
    exact h rfl

theorem Anchored.child (h : Anchored path (p :: ps)) (hslash : '/' ∉ p) :
    Anchored (child path p) ps := by
  have habs := isAbsolute_of_not_mem hslash
  have hpush {name : List Char} (hname : name ∈ namesOf path ∨ name ∈ counted [p]) :
      name ∈ namesOf (Path.push path (String.ofList p)) := by
    rw [FileSystem.namesOf_push path habs, namesOf_ofList hslash]
    exact List.mem_append.2 hname
  rcases h with ⟨name, hname, hne⟩ | h
  · refine .inl ⟨name, ?_, hne⟩
    rw [Glob.child, if_neg fun hsame => hne ((relative_of_same hsame).2 name hname)]
    exact hpush (.inl hname)
  · by_cases hdot : p = ['.']
    · subst hdot
      exact .inr h
    · have hp : p ≠ [] := by
        rintro rfl
        exact h rfl
      have hcounted : p ∈ counted [p] := by simp [counted, hp]
      refine .inl ⟨p, ?_, hdot⟩
      unfold Glob.child
      split_ifs
      · rwa [namesOf_ofList hslash]
      · exact hpush (.inr hcounted)

/-- A pattern of a name that the name matches. -/
def ReadsBack (p : List Char) (ts : List Token) : Prop :=
  Reads p ts ∧ isMatch ts p

/-- From a directory on the way the next name of a path that is there answers itself. -/
theorem answers_self (hp : ReadsBack p ts) (hslash : '/' ∉ p) (hlocate : fs.locate path = .ok place)
    (hdir : fs.isDirectoryAt place) (hwalk : fs.walk place (counted [p]) = .ok next)
    (hchild : fs.locate (child path p) = .ok next) : Answers fs path ts p (child path p) := by
  have hpath : fs.isDirectory path := by
    rw [FileSystem.isDirectory, hlocate]
    exact hdir
  rcases ht : plainText? ts with _ | text
  · have hname := isName_of_plainText?_eq_none hp.1 hslash ht
    have hcounted : counted [p] = [p] := by simp [counted, hname.ne_nil]
    rw [hcounted, FileSystem.walk, if_neg hname.ne_here, if_neg hname.ne_up] at hwalk
    refine .name ht hpath (mem_namesUnder hlocate ?_) hp.2
    split_ifs at hwalk with h₁ h₂ h₃
    exact h₃
  · obtain rfl := hp.1.eq_of_plainText? ht
    refine .plain ht ?_
    split_ifs
    · exact hpath
    · rw [isThere, hchild]

/-- The names of a path that is there, each of which matches itself, lead to its place. -/
theorem exists_leads (hps : List.Forall₂ ReadsBack ps names) (hslash : ∀ p ∈ ps, '/' ∉ p)
    (hnul : ∀ p ∈ ps, '\x00' ∉ p) (hlast : ps.getLast? ≠ some []) (hanchored : Anchored path ps)
    (hpath : Led fs path place) (hwalk : fs.walk place (counted ps) = .ok goal)
    (hsize : baseSize path + bytesOf ps ≤ FileSystem.maxPathBytes) :
    ∃ found, Leads fs names ps path found ∧ fs.locate found = .ok goal := by
  induction hps generalizing path place with
  | nil =>
    obtain rfl := Except.ok.inj hwalk
    exact ⟨path, .nil path, hpath.locate (lt_of_baseSize_le hsize)⟩
  | @cons p ts ps names hp hps ih =>
    rw [List.forall_mem_cons] at hslash hnul
    have hbytes : bytesOf (p :: ps) = Text.byteCount p + 1 + bytesOf ps := rfl
    have hdir : fs.isDirectoryAt place := by
      obtain ⟨name, rest, hcounted⟩ : ∃ name rest, counted (p :: ps) = name :: rest := by
        refine List.exists_cons_of_ne_nil fun hnil => ?_
        obtain ⟨last, hmem⟩ : ∃ last, (p :: ps).getLast? = some last := by
          simp [List.getLast?_cons]
        refine hlast (hmem.trans (congrArg _ ?_))
        have hempty := List.filter_eq_nil_iff.1 hnil last (List.mem_of_getLast? hmem)
        simpa using hempty
      have hfirst : fs.walk place ([] ++ name :: rest) = .ok goal := by
        rw [List.nil_append, ← hcounted, hwalk]
      exact FileSystem.isDirectoryAt_of_walk hfirst
    rw [counted_cons, FileSystem.walk_append] at hwalk
    rcases hnext : fs.walk place (counted [p]) with fault | next
    · rw [hnext] at hwalk
      cases hwalk
    · rw [hnext] at hwalk
      have hchild := hpath.child hslash.1 hnul.1 hanchored.ne_nil hnext hdir
      have hbase := baseSize_child_le path p
      have hlocate : fs.locate (child path p) = .ok next :=
        hchild.locate (lt_of_baseSize_le (by omega))
      have hanswers := answers_self hp hslash.1 (hpath.locate (lt_of_baseSize_le (by omega))) hdir
        hnext hlocate
      have hlast' : ps.getLast? ≠ some [] := fun h => hlast (by
        rw [List.getLast?_cons, h]
        rfl)
      obtain ⟨found, hleads, hfound⟩ := ih hslash.2 hnul.2 hlast' (hanchored.child hslash.1) hchild
        hwalk (by omega)
      exact ⟨found, .cons hanswers hleads, hfound⟩

end Glob

end Companion
