import Companion.FileSystem.Basic
import Mathlib.Data.List.Basic
import Mathlib.Tactic.SplitIfs

/-!
# Reading what was written

A file that was written is there: reading under the same path gives the text (`read_of_write`). The
way to it is as before, because it leads through directories only and the new file takes the place
of none (`Grows.walk`).
-/

namespace Companion.FileSystem

theorem lookup_insert_self (place : Location) (e : Entry) (es : List (Location × Entry)) :
    (insert place e es).lookup place = some e := by
  induction es with
  | nil => simp [insert]
  | cons p es ih =>
    obtain ⟨l, old⟩ := p
    unfold insert
    split
    · rename_i h
      simp [h]
    · rename_i h
      have : (place == l) = false := by simpa using fun he => h he.symm
      simp [List.lookup_cons, this, ih]

theorem lookup_insert_of_ne {place other : Location} (h : other ≠ place) (e : Entry)
    (es : List (Location × Entry)) : (insert place e es).lookup other = es.lookup other := by
  induction es with
  | nil =>
    have : (other == place) = false := by simpa using h
    simp [insert, List.lookup_cons, this]
  | cons p es ih =>
    obtain ⟨l, old⟩ := p
    unfold insert
    split
    · rename_i hl
      subst hl
      have : (other == l) = false := by simpa using h
      simp [List.lookup_cons, this]
    · simp only [List.lookup_cons, ih]

variable {fs : FileSystem} {place : Location} {content : String}

theorem entryAt?_set_of_ne {other : Location} (h : other ≠ place) (e : Entry) :
    (fs.set place e).entryAt? other = fs.entryAt? other := by
  simp only [entryAt?, set, lookup_insert_of_ne h]

theorem entryAt?_set_self (h : fs.isDirectoryAt place = false) (e : Entry) :
    (fs.set place e).entryAt? place = some e := by
  rcases hp : place.isPrefixOf fs.home with _ | _
  · simp only [entryAt?, set, hp, Bool.false_eq_true, if_false, lookup_insert_self]
  · simp only [isDirectoryAt, entryAt?, hp, if_true] at h
    exact absurd h (by decide)

theorem isDirectoryAt_set_of_isDirectoryAt (h : fs.isDirectoryAt place = false) (e : Entry)
    {other : Location} (ho : fs.isDirectoryAt other) : (fs.set place e).isDirectoryAt other := by
  have hne : other ≠ place := by
    rintro rfl
    simp [ho] at h
  simpa [isDirectoryAt, entryAt?_set_of_ne hne] using ho

theorem isSome_entryAt?_set (e : Entry) {other : Location} (ho : (fs.entryAt? other).isSome) :
    ((fs.set place e).entryAt? other).isSome := by
  by_cases hne : other = place
  · subst hne
    unfold entryAt? set
    split
    · rfl
    · simp [lookup_insert_self]
  · rwa [entryAt?_set_of_ne hne]

/-- What was there is there, and directories still are directories. -/
structure Grows (before after : FileSystem) : Prop where
  home_eq : after.home = before.home
  isDirectoryAt : ∀ place, before.isDirectoryAt place → after.isDirectoryAt place
  isSome : ∀ place, (before.entryAt? place).isSome → (after.entryAt? place).isSome

theorem Grows.refl (fs : FileSystem) : fs.Grows fs :=
  ⟨rfl, fun _ => id, fun _ => id⟩

theorem Grows.trans {fs₁ fs₂ fs₃ : FileSystem} (h : fs₁.Grows fs₂) (h' : fs₂.Grows fs₃) :
    fs₁.Grows fs₃ :=
  ⟨h'.home_eq.trans h.home_eq, fun l hl => h'.isDirectoryAt l (h.isDirectoryAt l hl),
    fun l hl => h'.isSome l (h.isSome l hl)⟩

theorem grows_set (h : fs.isDirectoryAt place = false) (e : Entry) : fs.Grows (fs.set place e) :=
  ⟨rfl, fun _ => isDirectoryAt_set_of_isDirectoryAt h e, fun _ => isSome_entryAt?_set e⟩

/-- A way that leads somewhere still leads there. -/
theorem Grows.walk {after : FileSystem} (h : fs.Grows after) {start goal : Location}
    {names : List (List Char)} (hw : fs.walk start names = .ok goal) :
    after.walk start names = .ok goal := by
  induction names generalizing start with
  | nil => exact hw
  | cons name names ih =>
    unfold FileSystem.walk at hw ⊢
    by_cases hd : fs.isDirectoryAt start
    · simp only [hd, h.isDirectoryAt _ hd, Bool.not_true, Bool.false_eq_true, if_false] at hw ⊢
      by_cases hs : (fs.entryAt? (start ++ [name])).isSome
      · simp only [hs, h.isSome _ hs, if_true] at hw ⊢
        split_ifs at hw ⊢
        · exact ih hw
        · exact ih hw
        · exact ih hw
      · simp only [hs, Bool.false_eq_true, if_false] at hw
        split_ifs at hw ⊢
        · exact ih hw
        · exact ih hw
    · simp [hd] at hw

theorem walk_append (start : Location) (xs ys : List (List Char)) :
    fs.walk start (xs ++ ys) = (fs.walk start xs).bind fun place => fs.walk place ys := by
  induction xs generalizing start with
  | nil => rfl
  | cons name xs ih =>
    simp only [List.cons_append, walk]
    split_ifs
    · rfl
    · exact ih _
    · exact ih _
    · rfl
    · exact ih _
    · rfl

theorem eq_of_checkedNames {path : String} {names : List (List Char)}
    (h : checkedNames path = .ok names) : names = namesOf path := by
  unfold checkedNames at h
  split_ifs at h
  simp only [Except.ok.injEq] at h
  exact h.symm

/-- What the place of a path that can be written to is made of. -/
theorem locateParent_eq_ok {path : String} {parent : Location} {name : List Char}
    (h : fs.locateParent path = .ok (parent, some name)) :
    ∃ names, checkedNames path = .ok names ∧ names.getLast? = some name ∧
      fs.walk (fs.startOf path) names.dropLast = .ok parent ∧ fs.isDirectoryAt parent ∧
      name ≠ ['.'] ∧ name ≠ ['.', '.'] ∧ Text.byteCount name ≤ maxNameBytes := by
  unfold locateParent at h
  rcases hn : checkedNames path with f | names
  · simp [hn, bind, Except.bind] at h
  · rcases hl : names.getLast? with _ | last
    · simp [hn, hl, bind, Except.bind] at h
    · rcases hw : fs.walk (fs.startOf path) names.dropLast with f | place
      · simp [hn, hl, hw, bind, Except.bind] at h
      · simp only [hn, hl, hw, bind, Except.bind] at h
        split_ifs at h with h1 h2 h3
        · simp at h
        simp only [Except.ok.injEq, Prod.mk.injEq, Option.some.injEq] at h
        obtain ⟨rfl, rfl⟩ := h
        refine ⟨names, rfl, hl, hw, by simpa using h1, ?_, ?_, by omega⟩
        · exact fun he => h2 (.inl he)
        · exact fun he => h2 (.inr he)

/-- The location that a name leads to. -/
def enter (place : Location) (name : List Char) : Location :=
  if name = ['.'] then place
  else if name = ['.', '.'] then place.dropLast
  else place ++ [name]

/-- The location that a path names, whether or not there is something. -/
def placeOf (fs : FileSystem) (path : String) : Location :=
  (namesOf path).foldl enter (fs.startOf path)

theorem eq_foldl_of_walk {start goal : Location} {names : List (List Char)}
    (h : fs.walk start names = .ok goal) : goal = names.foldl enter start := by
  induction names generalizing start with
  | nil =>
    simp only [walk, Except.ok.injEq] at h
    exact h.symm
  | cons name names ih =>
    unfold walk at h
    rw [List.foldl_cons, enter]
    split_ifs at h ⊢
    · exact ih h
    · exact ih h
    · exact ih h

theorem placeOf_of_locateParent {path : String} {parent : Location} {name : List Char}
    (h : fs.locateParent path = .ok (parent, some name)) : fs.placeOf path = parent ++ [name] := by
  obtain ⟨names, hn, hl, hw, -, hhere, hup, -⟩ := locateParent_eq_ok h
  have hnames : names.dropLast ++ [name] = names := List.dropLast_append_getLast? name hl
  rw [placeOf, ← eq_of_checkedNames hn, ← hnames, List.foldl_append, ← eq_foldl_of_walk hw,
    List.foldl_cons, List.foldl_nil, enter, if_neg hhere, if_neg hup]

/-- Writing a file puts it into the directory of the path, where no directory is. -/
theorem exists_locateParent_of_write {path : String} {fs' : FileSystem}
    (h : fs.write path content = .ok fs') : ∃ parent name,
      fs.locateParent path = .ok (parent, some name) ∧ endsInSlash path = false ∧
        fs.isDirectoryAt (parent ++ [name]) = false ∧
        fs' = fs.set (parent ++ [name]) (.text content) := by
  unfold write at h
  rcases hp : fs.locateParent path with f | ⟨parent, name | name⟩
  · simp [hp, bind, Except.bind] at h
  · simp [hp, bind, Except.bind] at h
  · simp only [hp, bind, Except.bind] at h
    split_ifs at h with hd
    simp only [Except.ok.injEq] at h
    simp only [Bool.or_eq_true, not_or, Bool.not_eq_true] at hd
    exact ⟨parent, name, rfl, hd.1, hd.2, h.symm⟩

/-- What writing a file does: it is put at the place that the path names, where no directory is, and
the path leads there. -/
theorem write_eq_ok {path : String} {fs' : FileSystem} (h : fs.write path content = .ok fs') :
    fs.isDirectoryAt (fs.placeOf path) = false ∧
      fs' = fs.set (fs.placeOf path) (.text content) ∧
      fs'.locate path = .ok (fs.placeOf path) := by
  obtain ⟨parent, name, hp, hslash, hd, rfl⟩ := exists_locateParent_of_write h
  obtain ⟨names, hn, hl, hw, hpd, h1, h2, h3⟩ := locateParent_eq_ok hp
  have hnames : names.dropLast ++ [name] = names := List.dropLast_append_getLast? name hl
  rw [placeOf_of_locateParent hp]
  refine ⟨hd, rfl, ?_⟩
  set fs' := fs.set (parent ++ [name]) (.text content)
  have hentry : fs'.entryAt? (parent ++ [name]) = some (.text content) := entryAt?_set_self hd _
  have hlast : fs'.walk parent [name] = .ok (parent ++ [name]) := by
    have hpd' : fs'.isDirectoryAt parent := isDirectoryAt_set_of_isDirectoryAt hd _ hpd
    have h3' : ¬ maxNameBytes < Text.byteCount name := by omega
    simp [walk, hpd', h1, h2, h3', hentry]
  have hwalk : fs'.walk (fs'.startOf path) names = .ok (parent ++ [name]) := by
    rw [← hnames, walk_append, show fs'.startOf path = fs.startOf path from rfl,
      (grows_set hd _).walk hw]
    exact hlast
  simp [locate, hn, hwalk, hslash, bind, Except.bind]

theorem read_of_locate {path : String} (hl : fs.locate path = .ok place)
    (he : fs.entryAt? place = some (.text content)) : fs.read path = .ok content := by
  simp [read, hl, he, bind, Except.bind]

theorem read_of_write {path : String} {fs' : FileSystem} (h : fs.write path content = .ok fs') :
    fs'.read path = .ok content := by
  obtain ⟨hd, rfl, hl⟩ := write_eq_ok h
  exact read_of_locate hl (entryAt?_set_self hd _)

/-- A path that leads somewhere still leads there. -/
theorem Grows.locate {after : FileSystem} (h : fs.Grows after) {path : String}
    (hl : fs.locate path = .ok place) : after.locate path = .ok place := by
  unfold FileSystem.locate at hl ⊢
  rcases hn : checkedNames path with f | names
  · simp [hn, bind, Except.bind] at hl
  · rcases hw : fs.walk (fs.startOf path) names with f | goal
    · simp [hn, hw, bind, Except.bind] at hl
    · have hw' : after.walk (after.startOf path) names = .ok goal := by
        rw [startOf, h.home_eq]
        exact h.walk hw
      simp only [hn, hw, hw', bind, Except.bind] at hl ⊢
      by_cases hd : fs.isDirectoryAt goal
      · simpa [hd, h.isDirectoryAt _ hd] using hl
      · rcases hs : endsInSlash path with _ | _
        · simpa [hs] using hl
        · simp [hd, hs] at hl

/-- What was there is there as it was. -/
structure Extends (before after : FileSystem) : Prop where
  home_eq : after.home = before.home
  entry : ∀ place e, before.entryAt? place = some e → after.entryAt? place = some e

theorem Extends.grows {after : FileSystem} (h : fs.Extends after) : fs.Grows after := by
  refine ⟨h.home_eq, fun l hl => ?_, fun l hl => ?_⟩
  · rw [isDirectoryAt, beq_iff_eq] at hl ⊢
    exact h.entry l _ hl
  · obtain ⟨e, he⟩ := Option.isSome_iff_exists.1 hl
    rw [h.entry l e he]
    rfl

end Companion.FileSystem
