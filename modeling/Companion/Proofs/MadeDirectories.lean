import Companion.Proofs.FileWrite
import Companion.Proofs.OutputPaths

/-!
# Directories on the way

The path of a directory above goes through fewer names (`Path.parent?_eq_some`), so making the
directories above a file adds directories on the way to the file and nothing else
(`addsDirectories_makeDirectories`), whether or not all of them can be made. Whoever walks a way
finds directories on it (`isDirectoryAt_of_walk`).
-/

namespace Companion

namespace Path

theorem dropUncounted_suffix (ps : List (Bool × List Char)) : dropUncounted ps <:+ ps := by
  induction ps with
  | nil => exact List.suffix_rfl
  | cons p ps ih =>
    unfold dropUncounted
    split_ifs
    · exact ih.trans (List.suffix_cons p ps)
    · exact List.suffix_rfl

theorem ne_nil_of_dropUncounted {ps rest : List (Bool × List Char)} {p : Bool × List Char}
    (h : dropUncounted ps = p :: rest) : p.2 ≠ [] := by
  induction ps with
  | nil => simp [dropUncounted] at h
  | cons q ps ih =>
    unfold dropUncounted at h
    split_ifs at h with hq
    · exact ih h
    · simp only [List.cons.injEq] at h
      rintro he
      have hnil : q.2 = [] := by rw [← he, ← h.1]
      simp [Component.ofPiece?, hnil] at hq

theorem map_snd_pieces (text : List Char) : (pieces text).map Prod.snd = text.splitOn '/' := by
  unfold pieces
  rcases text.splitOn '/' with _ | ⟨first, rest⟩
  · rfl
  · rw [List.map_cons, List.map_map]
    exact congrArg _ (List.map_id rest)

/-- A joined text starts at the root exactly if its first piece is empty and not the only one. -/
theorem isAbsolute_intercalate {ps : List (List Char)} (h : ∀ p ∈ ps, '/' ∉ p) :
    isAbsolute (['/'].intercalate ps) = true ↔ ∃ p rest, ps = [] :: p :: rest := by
  rcases ps with _ | ⟨_ | ⟨c, cs⟩, _ | ⟨q, rest⟩⟩
  · simp [isAbsolute]
  · simp [isAbsolute]
  · simp [isAbsolute, List.intercalate, List.intersperse]
  · have hc : c ≠ '/' := fun hc => h _ List.mem_cons_self (hc ▸ List.mem_cons_self)
    simp [isAbsolute, List.intercalate, hc]
  · have hc : c ≠ '/' := fun hc => h _ List.mem_cons_self (hc ▸ List.mem_cons_self)
    simp [isAbsolute, List.intercalate, List.intersperse, hc]

/-- The path of a directory above is made of the pieces up to one that counts. -/
theorem exists_pieces_of_parent? {path parent : String} (h : parent? path = some parent) :
    ∃ kept rest, path.toList.splitOn '/' = kept ++ rest ∧ (∃ p ∈ rest, p ≠ []) ∧
      kept.getLast? ≠ some [] ∧
      parent = if kept.isEmpty then (if isAbsolute path.toList then "/" else "")
        else String.ofList (['/'].intercalate kept) := by
  unfold parent? at h
  dsimp only at h
  split at h
  · simp at h
  · rename_i p before hp
    obtain ⟨after, hafter⟩ := dropUncounted_suffix (pieces path.toList).reverse
    obtain ⟨dropped, hdropped⟩ := dropUncounted_suffix before
    rw [hp, ← hdropped, eq_comm, List.reverse_eq_iff] at hafter
    refine ⟨(dropUncounted before).reverse.map Prod.snd,
      dropped.reverse.map Prod.snd ++ p.2 :: after.reverse.map Prod.snd, ?_,
      ⟨p.2, by simp, ne_nil_of_dropUncounted hp⟩, ?_, ?_⟩
    · rw [← map_snd_pieces, hafter]
      simp
    · rcases hk : dropUncounted before with _ | ⟨k, ks⟩
      · simp
      · simpa using ne_nil_of_dropUncounted hk
    · split_ifs at h ⊢ <;> exact (Option.some.inj h).symm

/-- The path of a directory above starts where the path does, and goes through some of its names but
not the last one. -/
theorem parent?_eq_some {path parent : String} (h : parent? path = some parent) :
    isAbsolute parent.toList = isAbsolute path.toList ∧
      FileSystem.namesOf parent <+: (FileSystem.namesOf path).dropLast := by
  obtain ⟨kept, rest, hsplit, ⟨p, hp, hpne⟩, hlast, rfl⟩ := exists_pieces_of_parent? h
  have hslash : ∀ piece ∈ kept ++ rest, '/' ∉ piece := fun piece hpiece =>
    (not_mem_of_mem_splitOn (hsplit ▸ hpiece)).1
  rcases kept with _ | ⟨k, ks⟩
  · rcases isAbsolute path.toList with _ | _
    · exact ⟨rfl, List.nil_prefix⟩
    · exact ⟨rfl, List.nil_prefix⟩
  · have hslash' : ∀ piece ∈ k :: ks, '/' ∉ piece := fun piece hpiece =>
      hslash piece (List.mem_append_left _ hpiece)
    simp only [List.isEmpty_cons, Bool.false_eq_true, if_false, String.toList_ofList]
    refine ⟨?_, ?_⟩
    · have hpath : path.toList = ['/'].intercalate (k :: ks ++ rest) := by
        rw [← hsplit, List.intercalate_splitOn]
      rw [Bool.eq_iff_iff, hpath, isAbsolute_intercalate hslash', isAbsolute_intercalate hslash]
      rcases ks with _ | ⟨q, ks⟩
      · have hk : k ≠ [] := by simpa using hlast
        simp [hk]
      · simp
    · have hfilter : rest.filter (!·.isEmpty) ≠ [] := by
        simp only [ne_eq, List.filter_eq_nil_iff, not_forall]
        exact ⟨p, hp, by simpa using hpne⟩
      rw [FileSystem.namesOf, FileSystem.namesOf, String.toList_ofList, hsplit, List.filter_append,
        List.dropLast_append_of_ne_nil hfilter, List.splitOn_intercalate '/' hslash' (by simp)]
      exact List.prefix_append _ _

end Path

namespace FileSystem

variable {fs before after : FileSystem} {path : String} {place : Location}

/-- The location is on the way of the path, or at its end. -/
def OnWay (fs : FileSystem) (path : String) (place : Location) : Prop :=
  ∃ names, names <+: namesOf path ∧ place = names.foldl enter (fs.startOf path)

theorem startOf_congr (hhome : after.home = before.home) {p q : String}
    (habs : Path.isAbsolute p.toList = Path.isAbsolute q.toList) :
    after.startOf p = before.startOf q := by
  rw [startOf, startOf, hhome, habs]

theorem onWay_iff_of_home_eq (h : after.home = before.home) :
    after.OnWay path place ↔ before.OnWay path place := by
  rw [OnWay, OnWay, startOf_congr h rfl]

theorem OnWay.of_parent? {parent : String} (hp : Path.parent? path = some parent)
    (h : fs.OnWay parent place) : fs.OnWay path place := by
  obtain ⟨habs, hnames⟩ := Path.parent?_eq_some hp
  obtain ⟨names, hprefix, rfl⟩ := h
  exact ⟨names, hprefix.trans (hnames.trans (List.dropLast_prefix _)), by
    rw [startOf_congr rfl habs]⟩

/-- Whoever walks a way finds a directory wherever he goes on from. -/
theorem isDirectoryAt_of_walk {start goal : Location} {front back : List (List Char)}
    {name : List Char} (h : fs.walk start (front ++ name :: back) = .ok goal) :
    fs.isDirectoryAt (front.foldl enter start) := by
  rw [walk_append] at h
  rcases hf : fs.walk start front with f | middle
  · simp [hf, Except.bind] at h
  · rw [← eq_foldl_of_walk hf]
    simp only [hf, Except.bind, walk] at h
    split_ifs at h with hd <;> simpa using hd

/-- What is on the way to a path that leads somewhere, short of its end, is a directory. -/
theorem isDirectoryAt_of_locate {goal : Location} (h : fs.locate path = .ok goal)
    (hw : fs.OnWay path place) (hne : place ≠ fs.placeOf path) : fs.isDirectoryAt place := by
  obtain ⟨front, ⟨back, hback⟩, rfl⟩ := hw
  rcases back with _ | ⟨name, back⟩
  · rw [List.append_nil] at hback
    exact absurd (by rw [placeOf, hback]) hne
  · unfold locate at h
    rcases hn : checkedNames path with f | names
    · simp [hn, bind, Except.bind] at h
    · obtain rfl := eq_of_checkedNames hn
      rcases hwalk : fs.walk (fs.startOf path) (namesOf path) with f | end'
      · simp [hn, hwalk, bind, Except.bind] at h
      · rw [← hback] at hwalk
        exact isDirectoryAt_of_walk hwalk

/-- Only directories were added, at such locations. -/
structure AddsDirectories (before after : FileSystem) (p : Location → Prop) : Prop where
  home_eq : after.home = before.home
  entry : ∀ place, after.entryAt? place = before.entryAt? place ∨
    before.entryAt? place = none ∧ after.entryAt? place = some .directory ∧ p place

namespace AddsDirectories

variable {p q : Location → Prop}

theorem refl (fs : FileSystem) (p : Location → Prop) : fs.AddsDirectories fs p :=
  ⟨rfl, fun _ => .inl rfl⟩

theorem mono (h : before.AddsDirectories after p) (hpq : ∀ place, p place → q place) :
    before.AddsDirectories after q :=
  ⟨h.home_eq, fun place => (h.entry place).imp_right fun ⟨hn, hd, hp⟩ => ⟨hn, hd, hpq place hp⟩⟩

theorem trans {middle : FileSystem} (h : before.AddsDirectories middle p)
    (h' : middle.AddsDirectories after p) : before.AddsDirectories after p := by
  refine ⟨h'.home_eq.trans h.home_eq, fun place => ?_⟩
  rcases h'.entry place with he' | ⟨hn', hd', hp'⟩
  · rw [he']
    exact h.entry place
  · rcases h.entry place with he | ⟨-, hd, -⟩
    · exact .inr ⟨he.symm.trans hn', hd', hp'⟩
    · simp [hd] at hn'

theorem isExtension (h : before.AddsDirectories after p) : before.Extends after := by
  refine ⟨h.home_eq, fun place e he => ?_⟩
  rcases h.entry place with he' | ⟨hn, -, -⟩
  · rw [he', he]
  · simp [hn] at he

end AddsDirectories

theorem addsDirectories_of_makeDirectory (h : before.makeDirectory path = .ok after) :
    before.AddsDirectories after (before.OnWay path) := by
  unfold makeDirectory at h
  rcases hp : before.locateParent path with f | ⟨parent, name | name⟩
  · simp [hp, bind, Except.bind] at h
  · simp [hp, bind, Except.bind] at h
  · simp only [hp, bind, Except.bind] at h
    split_ifs at h with hs
    simp only [Except.ok.injEq] at h
    subst h
    rw [← placeOf_of_locateParent hp] at hs ⊢
    have hnone : before.entryAt? (before.placeOf path) = none := by simpa using hs
    refine ⟨rfl, fun place => ?_⟩
    by_cases hplace : place = before.placeOf path
    · subst hplace
      refine .inr ⟨hnone, entryAt?_set_self ?_ _, namesOf path, List.prefix_rfl, rfl⟩
      simp [isDirectoryAt, hnone]
    · exact .inl (entryAt?_set_of_ne hplace _)

theorem addsDirectories_made (fs : FileSystem) (path : String) :
    fs.AddsDirectories (makeDirectoriesFrom.made fs path).1 (fs.OnWay path) := by
  unfold makeDirectoriesFrom.made
  rcases hm : fs.makeDirectory path with f | fs'
  · exact .refl fs _
  · exact addsDirectories_of_makeDirectory hm

theorem addsDirectories_makeDirectoriesFrom (fuel : Nat) (fs : FileSystem) (path : String) :
    fs.AddsDirectories (makeDirectoriesFrom fuel fs path).1 (fs.OnWay path) := by
  induction fuel generalizing path with
  | zero => exact .refl fs _
  | succ fuel ih =>
    unfold makeDirectoriesFrom
    by_cases he : path.isEmpty
    · rw [if_pos he]
      exact .refl fs _
    · rw [if_neg he]
      rcases hm : fs.makeDirectory path with f | fs'
      · cases f with
        | notFound =>
          rcases hp : Path.parent? path with _ | parent
          · exact .refl fs _
          · have hparent := (ih parent).mono fun _ => OnWay.of_parent? hp
            rcases hf : makeDirectoriesFrom fuel fs parent with ⟨fs', _ | fault⟩
            · simp only [hf] at hparent ⊢
              refine hparent.trans ((addsDirectories_made fs' path).mono fun place => ?_)
              exact (onWay_iff_of_home_eq hparent.home_eq).1
            · simp only [hf] at hparent ⊢
              exact hparent
        | _ => exact .refl fs _
      · exact addsDirectories_of_makeDirectory hm

/-- Making directories adds directories on the way, also where it fails. -/
theorem addsDirectories_makeDirectories (fs : FileSystem) (path : String) :
    fs.AddsDirectories (fs.makeDirectories path).1 (fs.OnWay path) :=
  addsDirectories_makeDirectoriesFrom _ fs path

end FileSystem

end Companion
