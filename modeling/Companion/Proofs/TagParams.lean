import Companion.Java.DocTag
import Companion.Proofs.DeclarationJson
import Companion.Proofs.Keywords
import Mathlib.Data.List.Basic
import Mathlib.Data.List.Induction

/-!
# Parameters in tags

Where the value of a tag is a list of items `key="v"`, `key='v'` and `key=v`, its parameters are
those (`namedParams_itemized`). A key that is repeated has the place of its first item and the value
of its last (`params_tagOf_itemized`).
-/

namespace Companion.Java

open Text
open Unicode (isBlank)

variable {s t rest : List Char} {c : Char}

/-- How the value of an item is written. -/
inductive Quoting where
  | double | single | bare
  deriving DecidableEq, Repr

/-- The value can be written so. -/
def Quoting.Allows (v : List Char) : Quoting → Prop
  | double => '"' ∉ v
  | single => '\'' ∉ v
  | bare => v ≠ [] ∧ (∀ c ∈ v, isBlank c = false) ∧ v.head? ≠ some '"' ∧ v.head? ≠ some '\''

instance Quoting.decidableAllows (v : List Char) : (q : Quoting) → Decidable (q.Allows v)
  | double => inferInstanceAs (Decidable ('"' ∉ v))
  | single => inferInstanceAs (Decidable ('\'' ∉ v))
  | bare => inferInstanceAs (Decidable (v ≠ [] ∧ (∀ c ∈ v, isBlank c = false) ∧
      v.head? ≠ some '"' ∧ v.head? ≠ some '\''))

def Quoting.text (v : List Char) : Quoting → List Char
  | double => '"' :: (v ++ ['"'])
  | single => '\'' :: (v ++ ['\''])
  | bare => v

/-- A key with its value. -/
structure Item where
  key : List Char
  value : List Char
  quoting : Quoting
  ne : key ≠ []
  chars : ∀ c ∈ key, isKeyChar c
  allowed : quoting.Allows value

def Item.text (i : Item) : List Char :=
  i.key ++ '=' :: i.quoting.text i.value

/-- The text is the items one after the other, with white space between them. -/
inductive Itemized : List Item → List Char → Prop where
  | nil : Itemized [] []
  | single (i : Item) : Itemized [i] i.text
  | cons (i : Item) {g : List Char} {is : List Item} {s : List Char} (hne : g ≠ [])
    (hg : ∀ c ∈ g, isBlank c) (h : Itemized is s) :
    Itemized (i :: is) (i.text ++ (g ++ s))

/-- The text does not go on with what is read before it. -/
def Cut (rest : List Char) : Prop :=
  ∀ c ∈ rest.head?, isBlank c

theorem quotedValue?_append {q : Char} (h : q ∉ s) (rest : List Char) :
    quotedValue? q (q :: (s ++ q :: rest)) = some (s, rest) := by
  have hs : ∀ c ∈ s, c != q := fun c hc => by
    rw [bne_iff_ne]
    rintro rfl
    exact h hc
  simp only [quotedValue?, if_pos, List.dropWhile_append_of_pos hs,
    List.takeWhile_append_of_pos hs]
  simp

theorem quotedValue?_eq_none {q : Char} (h : s.head? ≠ some q) : quotedValue? q s = none := by
  rcases s with _ | ⟨c, s⟩
  · rfl
  · rw [quotedValue?, if_neg fun hc => h (by rw [hc]; rfl)]

theorem paramValue?_append {v : List Char} {q : Quoting} (h : q.Allows v) (hrest : Cut rest) :
    paramValue? (q.text v ++ rest) = some (v, rest) := by
  cases q with
  | double =>
    have htext : Quoting.double.text v ++ rest = '"' :: (v ++ '"' :: rest) := by
      simp [Quoting.text]
    rw [htext, paramValue?, quotedValue?_append h]
    rfl
  | single =>
    have htext : Quoting.single.text v ++ rest = '\'' :: (v ++ '\'' :: rest) := by
      simp [Quoting.text]
    rw [htext, paramValue?, quotedValue?_eq_none (by simp), quotedValue?_append h]
    rfl
  | bare =>
    obtain ⟨hne, hblank, hdouble, hsingle⟩ := h
    have hhead : (v ++ rest).head? = v.head? := List.head?_append_of_ne_nil _ hne
    have hpos : ∀ c ∈ v, !isBlank c := fun c hc => by simp [hblank c hc]
    have hstop : rest.takeWhile (!isBlank ·) = [] ∧ rest.dropWhile (!isBlank ·) = rest := by
      rcases rest with _ | ⟨c, rest⟩
      · exact ⟨rfl, rfl⟩
      · have hc : isBlank c := hrest c rfl
        simp [hc]
    have htake : (v ++ rest).takeWhile (!isBlank ·) = v := by
      rw [List.takeWhile_append_of_pos hpos, hstop.1, List.append_nil]
    have hdrop : (v ++ rest).dropWhile (!isBlank ·) = rest := by
      rw [List.dropWhile_append_of_pos hpos, hstop.2]
    rw [Quoting.text, paramValue?, quotedValue?_eq_none (hhead ▸ hdouble),
      quotedValue?_eq_none (hhead ▸ hsingle)]
    simp [htake, hdrop, hne]

theorem head?_text_append {v : List Char} {q : Quoting} (h : q.Allows v) (rest : List Char) :
    ∀ c ∈ (q.text v ++ rest).head?, isBlank c = false := by
  cases q with
  | bare =>
    intro c hc
    rw [Quoting.text, List.head?_append_of_ne_nil _ h.1] at hc
    exact h.2.1 c (List.mem_of_head? hc)
  | _ =>
    rintro c ⟨⟩
    decide

theorem namedParams_of_some {v r : List Char} (hc : isKeyChar c)
    (h : paramAfterKey? (s.dropWhile isKeyChar) = some (v, r)) :
    namedParams (c :: s) = (c :: s.takeWhile isKeyChar, v) :: namedParams r := by
  rw [namedParams, if_pos hc]
  dsimp only
  split
  · rename_i value after hsome
    rw [h] at hsome
    cases hsome
    rfl
  · rename_i hnone
    rw [h] at hnone
    cases hnone

/-- An item is read up to its end. -/
theorem namedParams_item (i : Item) (hrest : Cut rest) :
    namedParams (i.text ++ rest) = (i.key, i.value) :: namedParams rest := by
  obtain ⟨c, k, hk⟩ := List.exists_cons_of_ne_nil i.ne
  have hchars := i.chars
  rw [hk, List.forall_mem_cons] at hchars
  have htext : i.text ++ rest = c :: (k ++ '=' :: (i.quoting.text i.value ++ rest)) := by
    simp [Item.text, hk]
  have htake : (k ++ '=' :: (i.quoting.text i.value ++ rest)).takeWhile isKeyChar = k := by
    rw [List.takeWhile_append_of_pos hchars.2, List.takeWhile_cons_of_neg (by decide),
      List.append_nil]
  have hdrop : (k ++ '=' :: (i.quoting.text i.value ++ rest)).dropWhile isKeyChar =
      '=' :: (i.quoting.text i.value ++ rest) := by
    rw [List.dropWhile_append_of_pos hchars.2, List.dropWhile_cons_of_neg (by decide)]
  have hvalue : trimStart (i.quoting.text i.value ++ rest) = i.quoting.text i.value ++ rest :=
    trimStart_append_of_blank (s := []) (by simp) (head?_text_append i.allowed rest)
  have hafter : paramAfterKey? ('=' :: (i.quoting.text i.value ++ rest)) =
      some (i.value, rest) := by
    have hequals : trimStart ('=' :: (i.quoting.text i.value ++ rest)) =
        '=' :: (i.quoting.text i.value ++ rest) := List.dropWhile_cons_of_neg (by decide)
    rw [paramAfterKey?, hequals]
    simp only [hvalue, paramValue?_append i.allowed hrest]
  rw [htext, namedParams_of_some hchars.1 (hdrop ▸ hafter), htake, hk]

theorem namedParams_append_of_blank {g : List Char} (hg : ∀ c ∈ g, isBlank c) (s : List Char) :
    namedParams (g ++ s) = namedParams s := by
  induction g with
  | nil => rfl
  | cons c g ih =>
    obtain ⟨hblank, hg⟩ := List.forall_mem_cons.1 hg
    have hword := Unicode.isWordChar_of_isBlank hblank
    have hsigns : c ≠ '.' ∧ c ≠ '-' := by
      constructor <;>
      · rintro rfl
        exact absurd hblank (by decide)
    rw [List.cons_append, namedParams, if_neg (by simp [isKeyChar, hword, hsigns]), ih hg]

/-- The parameters named in a list of items are those of the items. -/
theorem namedParams_itemized {is : List Item} (h : Itemized is s) :
    namedParams s = is.map fun i => (i.key, i.value) := by
  induction h with
  | nil => rw [namedParams, List.map_nil]
  | single i =>
    have hitem : namedParams (i.text ++ []) = (i.key, i.value) :: namedParams [] :=
      namedParams_item i (by simp [Cut])
    rwa [List.append_nil, namedParams] at hitem
  | @cons i g is s hne hg h ih =>
    have hcut : Cut (g ++ s) := by
      intro c hc
      rw [List.head?_append_of_ne_nil _ hne] at hc
      exact hg c (List.mem_of_head? hc)
    rw [namedParams_item i hcut, namedParams_append_of_blank hg, ih, List.map_cons]

/-- Each key once, in the order in which they come first, with its last value. -/
def paramsOf (ps : List (String × String)) : List (String × String) :=
  (ps.map Prod.fst).eraseDups.filterMap fun k => (ps.reverse.lookup k).map (k, ·)

variable {ps : List (String × String)} {k : String}

theorem exists_lookup_reverse (h : k ∈ ps.map Prod.fst) : ∃ v, ps.reverse.lookup k = some v := by
  rw [← Option.isSome_iff_exists, List.lookup_isSome_iff]
  obtain ⟨p, hp, rfl⟩ := List.mem_map.1 h
  exact ⟨p, List.mem_reverse.2 hp, by simp⟩

theorem map_fst_paramsOf (ps : List (String × String)) :
    (paramsOf ps).map Prod.fst = (ps.map Prod.fst).eraseDups := by
  rw [paramsOf, List.map_filterMap]
  refine (List.filterMap_congr fun k hk => ?_).trans List.filterMap_some
  obtain ⟨v, hv⟩ := exists_lookup_reverse (List.mem_eraseDups.1 hk)
  simp [hv]

/-- A key that is there keeps its place. -/
theorem insertParam_of_mem (h : k ∈ ps.map Prod.fst) (hnodup : (ps.map Prod.fst).Nodup)
    (v : String) : Tag.insertParam k v ps = ps.map fun p => if p.1 = k then (k, v) else p := by
  induction ps with
  | nil => simp at h
  | cons p ps ih =>
    rw [List.map_cons, List.nodup_cons] at hnodup
    rw [Tag.insertParam, List.map_cons]
    by_cases hp : p.1 = k
    · have hrest : ∀ q ∈ ps, (if q.1 = k then (k, v) else q) = q := fun q hq =>
        if_neg fun hk : q.1 = k => hnodup.1 (hp.trans hk.symm ▸ List.mem_map_of_mem hq)
      rw [if_pos hp, if_pos hp, List.map_congr_left hrest, List.map_id', hp]
    · rw [if_neg hp, if_neg hp, ih ((List.mem_cons.1 h).resolve_left fun hk => hp hk.symm) hnodup.2]

theorem paramsOf_append_singleton (hnodup : ((paramsOf ps).map Prod.fst).Nodup) (k v : String) :
    paramsOf (ps ++ [(k, v)]) = Tag.insertParam k v (paramsOf ps) := by
  have hkeys := map_fst_paramsOf ps
  have hreverse : (ps ++ [(k, v)]).reverse = (k, v) :: ps.reverse := by simp
  have hlookup {l : String} (hl : l ≠ k) :
      (ps ++ [(k, v)]).reverse.lookup l = ps.reverse.lookup l := by
    rw [hreverse, List.lookup_cons, beq_eq_false_iff_ne.2 hl]
  have hlast : (ps ++ [(k, v)]).reverse.lookup k = some v := by
    rw [hreverse, List.lookup_cons_self]
  have hmap : (ps ++ [(k, v)]).map Prod.fst = ps.map Prod.fst ++ [k] := by simp
  by_cases hk : k ∈ ps.map Prod.fst
  · have hmem : k ∈ (paramsOf ps).map Prod.fst := by rwa [hkeys, List.mem_eraseDups]
    have hsame : ((ps.map Prod.fst) ++ [k]).eraseDups = (ps.map Prod.fst).eraseDups := by
      simp [List.eraseDups_append, List.removeAll, hk]
    rw [insertParam_of_mem hmem hnodup, paramsOf, paramsOf, hmap, hsame, List.map_filterMap]
    refine List.filterMap_congr fun l hl => ?_
    obtain ⟨w, hw⟩ := exists_lookup_reverse (List.mem_eraseDups.1 hl)
    by_cases hlk : l = k
    · subst hlk
      rw [hw, hlast, Option.map_some, Option.map_some, Option.map_some, if_pos rfl]
    · rw [hw, hlookup hlk, hw, Option.map_some, Option.map_some, if_neg hlk]
  · have hmem : k ∉ (paramsOf ps).map Prod.fst := by rwa [hkeys, List.mem_eraseDups]
    have hmore : ((ps.map Prod.fst) ++ [k]).eraseDups = (ps.map Prod.fst).eraseDups ++ [k] := by
      simp [List.eraseDups_append, List.removeAll, hk, List.eraseDups_cons]
    have hrest : (ps.map Prod.fst).eraseDups.filterMap
        (fun l => ((ps ++ [(k, v)]).reverse.lookup l).map (l, ·)) = paramsOf ps :=
      List.filterMap_congr fun l hl => by
        rw [hlookup]
        rintro rfl
        exact hk (List.mem_eraseDups.1 hl)
    rw [Tag.insertParam_append hmem, paramsOf, hmap, hmore, List.filterMap_append, hrest,
      List.filterMap_cons_some (by rw [hlast]; rfl), List.filterMap_nil]

/-- Parameters that are set one after the other have the place of the first and the value of the
last with their key. -/
theorem foldl_insert (ps : List (String × String)) :
    (ps.foldl (fun qs p => Tag.Params.insert p.1 p.2 qs) Tag.Params.empty).1 = paramsOf ps := by
  induction ps using List.reverseRecOn with
  | nil => rfl
  | append_singleton ps p ih =>
    have hnodup := (ps.foldl (fun qs p => Tag.Params.insert p.1 p.2 qs) Tag.Params.empty).2
    rw [ih] at hnodup
    rw [List.foldl_append, List.foldl_cons, List.foldl_nil, paramsOf_append_singleton hnodup]
    exact congrArg (Tag.insertParam p.1 p.2) ih

theorem params_tagOf (name value : List Char) :
    (tagOf name value).params =
      paramsOf ((namedParams value).map fun p => (String.ofList p.1, String.ofList p.2)) := by
  rw [← foldl_insert, List.foldl_map]
  rfl

/-- The parameters of a tag whose value is a list of items. -/
theorem params_tagOf_itemized {is : List Item} (h : Itemized is s) (name : List Char) :
    (tagOf name s).params =
      paramsOf (is.map fun i => (String.ofList i.key, String.ofList i.value)) := by
  rw [params_tagOf, namedParams_itemized h, List.map_map]
  rfl

end Companion.Java
