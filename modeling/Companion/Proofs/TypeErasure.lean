import Companion.Proofs.Containment
import Companion.Proofs.ParameterTokens

/-!
# The erasure of a type

A type names a class and the classes around it, and each may have type arguments (`Reference`). Its
erasure is read from the left and ends at the first type arguments, brackets or white space, so it
has the names up to there (`Reference.shown`, `erasure_of_reference`). It has all of them exactly if
only the innermost class has type arguments and no white space stands in front of its name; the
class that is generated for a declaration is then named after it. Otherwise it is named after an
enclosing class (`erasure_of_enclosing`).
-/

namespace Companion.Java

open Syntax (dropSuffixes_dots_of_ne endsErasure)
open Text
open Unicode (isBlank)

/-- Type arguments, from their opening bracket on. -/
structure Applied where
  lead : Blanks
  pieces : List Piece
  spells : Spells .arguments (pieces.map Piece.token)
  trail : Blanks

/-- A class that a type names, with its type arguments if it has any. -/
structure Named where
  name : Word
  gap : Blanks
  arguments : Option Applied

/-- A class and the dot behind it, with the white space behind that. -/
structure Enclosing extends Named where
  rest : Blanks

/-- A class or an array type. The type of a variadic parameter ends in dots. -/
structure Reference where
  outer : List Enclosing
  inner : Named
  arrays : List (Blanks × Blanks)
  variadic : Option Blanks

def Applied.text (a : Applied) : List Char :=
  '<' :: (a.lead.text ++ (written a.pieces ++ '>' :: a.trail.text))

/-- What stands behind the name of a class. -/
def Named.tail (n : Named) : List Char :=
  n.gap.text ++ (n.arguments.map Applied.text).getD []

def Enclosing.text (e : Enclosing) : List Char :=
  e.name.text ++ (e.tail ++ '.' :: e.rest.text)

/-- The name behind the dot follows the name before it at once. -/
def Enclosing.Joins (e : Enclosing) : Prop :=
  e.tail = [] ∧ e.rest.text = []

def variadicText : Option Blanks → List Char
  | none => []
  | some g => ['.', '.', '.'] ++ g.text

namespace Reference

/-- What stands behind the name of the innermost class. -/
def tail (r : Reference) : List Char :=
  r.inner.tail ++
    (r.arrays.flatMap (fun g => '[' :: (g.1.text ++ ']' :: g.2.text)) ++ variadicText r.variadic)

def text (r : Reference) : List Char :=
  r.outer.flatMap Enclosing.text ++ (r.inner.name.text ++ r.tail)

/-- The names of the classes, from the outermost to the innermost. -/
def names (r : Reference) : List (List Char) :=
  r.outer.map (·.name.text) ++ [r.inner.name.text]

/-- Each name follows the one before it at once, but for the dot. -/
def Joined (r : Reference) : Prop :=
  ∀ e ∈ r.outer, e.Joins

end Reference

/-- The dotted parts of a type up to the first type arguments or white space in it. -/
def shownFrom (inner : Word) : List Enclosing → List (List Char)
  | [] => [inner.text]
  | e :: es =>
    e.name.text :: if e.tail ≠ [] then [] else if e.rest.text ≠ [] then [[]] else shownFrom inner es

def Reference.shown (r : Reference) : List (List Char) :=
  shownFrom r.inner.name r.outer

variable {s t rest : List Char} {ps : List (List Char)} {n : Named} {w : Word} {es : List Enclosing}
  {r : Reference} {c : Char}

theorem join_cons_of_ne (h : ps ≠ []) (s : List Char) :
    join ['.'] (s :: ps) = s ++ '.' :: join ['.'] ps := by
  obtain ⟨p, ps, rfl⟩ := List.exists_cons_of_ne_nil h
  simp [join, List.intercalate]

theorem not_dot_of_mem_word (w : Word) : '.' ∉ w.text :=
  fun h => absurd (w.chars '.' h).2 (by decide)

/-- The last of dotted parts is what stands behind the last dot. -/
theorem takeWhile_reverse_join (h : ∀ p ∈ ps, '.' ∉ p) (hne : ps ≠ []) :
    ((join ['.'] ps).reverse.takeWhile (· != '.')).reverse = ps.getLast hne := by
  have hall {p : List Char} (hp : '.' ∉ p) : p.reverse.takeWhile (· != '.') = p.reverse :=
    List.takeWhile_eq_self_iff.2 fun c hc => by
      rw [bne_iff_ne]
      rintro rfl
      exact hp (List.mem_reverse.1 hc)
  induction ps with
  | nil => exact absurd rfl hne
  | cons p ps ih =>
    rw [List.forall_mem_cons] at h
    rcases ps with _ | ⟨q, ps⟩
    · have hjoin : join ['.'] [p] = p := by simp [join]
      rw [hjoin, hall h.1, List.reverse_reverse]
      rfl
    · have hstop (a b : List Char) :
          (a ++ '.' :: b).takeWhile (· != '.') = a.takeWhile (· != '.') := by
        rw [List.takeWhile_append]
        split_ifs with hlen
        · rw [List.takeWhile_cons_of_neg (by decide), List.append_nil,
            (List.takeWhile_prefix _).eq_of_length hlen]
        · rfl
      rw [List.getLast_cons (List.cons_ne_nil q ps), ← ih h.2 (List.cons_ne_nil q ps),
        join_cons_of_ne (List.cons_ne_nil q ps), List.reverse_append, List.reverse_cons,
        List.append_assoc, List.singleton_append, hstop]

theorem shownFrom_ne_nil (w : Word) (es : List Enclosing) : shownFrom w es ≠ [] := by
  cases es <;> simp [shownFrom]

theorem not_dot_of_mem_shownFrom : ∀ p ∈ shownFrom w es, '.' ∉ p := by
  induction es with
  | nil => exact List.forall_mem_singleton.2 (not_dot_of_mem_word w)
  | cons e es ih =>
    rw [shownFrom, List.forall_mem_cons]
    refine ⟨not_dot_of_mem_word e.name, ?_⟩
    split_ifs
    · exact List.forall_mem_nil _
    · exact List.forall_mem_singleton.2 List.not_mem_nil
    · exact ih

/-- All names are shown exactly if each follows the one before it at once. -/
theorem shownFrom_eq_iff :
    shownFrom w es = es.map (·.name.text) ++ [w.text] ↔ ∀ e ∈ es, e.Joins := by
  induction es with
  | nil => simp [shownFrom]
  | cons e es ih =>
    have hlast : es.map (·.name.text) ++ [w.text] ≠ [[]] := fun h => by
      have hmem : w.text ∈ [([] : List Char)] := h ▸ List.mem_append_right _ (by simp)
      exact w.ne (List.mem_singleton.1 hmem)
    rw [shownFrom, List.forall_mem_cons, List.map_cons, List.cons_append, List.cons.injEq,
      Enclosing.Joins, ← ih]
    split_ifs with htail hrest
    · simp [htail]
    · simp [hrest, hlast.symm]
    · simp [not_not.1 htail, not_not.1 hrest]

theorem Reference.shown_ne_nil (r : Reference) : r.shown ≠ [] :=
  shownFrom_ne_nil r.inner.name r.outer

theorem Reference.not_dot_of_mem_shown (r : Reference) : ∀ p ∈ r.shown, '.' ∉ p :=
  not_dot_of_mem_shownFrom

theorem Reference.shown_eq_iff (r : Reference) : r.shown = r.names ↔ r.Joined :=
  shownFrom_eq_iff

theorem takeWhile_word_append (w : Word) (rest : List Char) :
    (w.text ++ rest).takeWhile (!endsErasure ·) =
      w.text ++ rest.takeWhile (!endsErasure ·) := by
  refine List.takeWhile_append_of_pos fun c hc => ?_
  obtain ⟨hblank, hmark⟩ := w.chars c hc
  have hless : c ≠ '<' := fun h => absurd (h ▸ hmark) (by decide)
  have hleft : c ≠ '[' := fun h => absurd (h ▸ hmark) (by decide)
  simp [endsErasure, hblank, hless, hleft]

theorem takeWhile_blanks {g : Blanks} (h : g.text ≠ []) (rest : List Char) :
    (g.text ++ rest).takeWhile (!endsErasure ·) = [] := by
  obtain ⟨c, s, hs⟩ := List.exists_cons_of_ne_nil h
  have hc : isBlank c := g.blank c (hs ▸ List.mem_cons_self)
  rw [hs, List.cons_append, List.takeWhile_cons_of_neg]
  simp [endsErasure, hc]

theorem takeWhile_tail (h : n.tail ≠ []) (rest : List Char) :
    (n.tail ++ rest).takeWhile (!endsErasure ·) = [] := by
  unfold Named.tail at h ⊢
  by_cases hgap : n.gap.text = []
  · rw [hgap, List.nil_append] at h ⊢
    rcases hargs : n.arguments with _ | a
    · rw [hargs] at h
      exact absurd rfl h
    · rfl
  · rw [List.append_assoc]
    exact takeWhile_blanks hgap _

/-- Behind the innermost name the erasure only has the dots of a variadic parameter. -/
theorem Reference.takeWhile_tail (r : Reference) :
    r.tail.takeWhile (!endsErasure ·) = [] ∨
      r.tail.takeWhile (!endsErasure ·) = ['.', '.', '.'] := by
  have hdots (g : Blanks) : (['.', '.', '.'] ++ g.text).takeWhile (!endsErasure ·) =
      ['.', '.', '.'] := by
    rw [List.takeWhile_append_of_pos (by decide), List.append_right_eq_self]
    by_cases hg : g.text = []
    · rw [hg, List.takeWhile_nil]
    · rw [← List.append_nil g.text, takeWhile_blanks hg]
  unfold Reference.tail
  by_cases hinner : r.inner.tail = []
  · rw [hinner, List.nil_append]
    rcases r.arrays with _ | ⟨g, gs⟩
    · rcases r.variadic with _ | g
      · exact .inl rfl
      · exact .inr (hdots g)
    · exact .inl rfl
  · exact .inl (Java.takeWhile_tail hinner _)

/-- Up to its end the text shows the parts. -/
theorem takeWhile_text (w : Word) (es : List Enclosing) (rest : List Char) :
    (es.flatMap Enclosing.text ++ (w.text ++ rest)).takeWhile (!endsErasure ·) =
        join ['.'] (shownFrom w es) ∨
      (es.flatMap Enclosing.text ++ (w.text ++ rest)).takeWhile (!endsErasure ·) =
        join ['.'] (shownFrom w es) ++ rest.takeWhile (!endsErasure ·) := by
  have hsingle (s : List Char) : join ['.'] [s] = s := by simp [join]
  induction es with
  | nil => exact .inr (by rw [shownFrom, hsingle, List.flatMap_nil, List.nil_append,
      takeWhile_word_append])
  | cons e es ih =>
    have happend : (e :: es).flatMap Enclosing.text ++ (w.text ++ rest) = e.name.text ++ (e.tail ++
        ('.' :: e.rest.text ++ (es.flatMap Enclosing.text ++ (w.text ++ rest)))) := by
      simp [Enclosing.text]
    rw [happend, takeWhile_word_append, shownFrom]
    by_cases htail : e.tail = []
    · have hdot : ('.' :: e.rest.text ++
          (es.flatMap Enclosing.text ++ (w.text ++ rest))).takeWhile (!endsErasure ·) =
          '.' :: (e.rest.text ++
            (es.flatMap Enclosing.text ++ (w.text ++ rest))).takeWhile (!endsErasure ·) := rfl
      rw [if_neg (not_not.2 htail), htail, List.nil_append, hdot]
      by_cases hrest : e.rest.text = []
      · rw [if_neg (not_not.2 hrest), hrest, List.nil_append,
          join_cons_of_ne (shownFrom_ne_nil w es), List.append_assoc, List.cons_append]
        exact ih.imp (fun h => by rw [h]) (fun h => by rw [h])
      · rw [if_pos hrest, takeWhile_blanks hrest, join_cons_of_ne (by simp), hsingle]
        exact .inl rfl
    · rw [if_pos htail, Java.takeWhile_tail htail, List.append_nil, hsingle]
      exact .inl rfl

/-- The parts end in a character of a name, or in that and a dot. -/
theorem exists_append_join (w : Word) (es : List Enclosing) : ∃ u c, c ≠ '.' ∧
    (join ['.'] (shownFrom w es) = u ++ [c] ∨ join ['.'] (shownFrom w es) = u ++ [c, '.']) := by
  have hword (w : Word) : ∃ u c, c ≠ '.' ∧ w.text = u ++ [c] := by
    refine ⟨_, _, fun h => not_dot_of_mem_word w (h ▸ List.getLast_mem w.ne),
      (List.dropLast_append_getLast w.ne).symm⟩
  have hsingle (s : List Char) : join ['.'] [s] = s := by simp [join]
  induction es with
  | nil =>
    obtain ⟨u, c, hc, hu⟩ := hword w
    exact ⟨u, c, hc, .inl (by rw [shownFrom, hsingle, hu])⟩
  | cons e es ih =>
    obtain ⟨u, c, hc, hu⟩ := hword e.name
    rw [shownFrom]
    split_ifs
    · exact ⟨u, c, hc, .inl (by rw [hsingle, hu])⟩
    · refine ⟨u, c, hc, .inr ?_⟩
      rw [join_cons_of_ne (by simp), hsingle, hu, List.append_assoc]
      rfl
    · obtain ⟨v, d, hd, hv⟩ := ih
      refine ⟨e.name.text ++ '.' :: v, d, hd, ?_⟩
      rw [join_cons_of_ne (shownFrom_ne_nil w es)]
      exact hv.imp (fun h => by rw [h]; simp) (fun h => by rw [h]; simp)

theorem Reference.erase_text (r : Reference) : TypeRef.erase r.text = join ['.'] r.shown := by
  obtain ⟨u, c, hc, hu⟩ := exists_append_join r.inner.name r.outer
  obtain ⟨hkeep, hdrop⟩ := dropSuffixes_dots_of_ne hc hu
  rcases takeWhile_text r.inner.name r.outer r.tail with h | h
  · exact (congrArg _ h).trans hkeep
  · rcases r.takeWhile_tail with htail | htail
    · rw [htail, List.append_nil] at h
      exact (congrArg _ h).trans hkeep
    · rw [htail] at h
      exact (congrArg _ h).trans hdrop

theorem Reference.simpleName_text (r : Reference) :
    TypeRef.simpleName r.text = r.shown.getLast r.shown_ne_nil := by
  rw [TypeRef.simpleName, r.erase_text]
  exact takeWhile_reverse_join r.not_dot_of_mem_shown r.shown_ne_nil

/-- The erasure has all names exactly if each follows the one before it at once. -/
theorem Reference.join_shown_eq_iff (r : Reference) :
    join ['.'] r.shown = join ['.'] r.names ↔ r.Joined := by
  have hnames : ∀ p ∈ r.names, '.' ∉ p := by
    intro p hp
    rcases List.mem_append.1 hp with hp | hp
    · obtain ⟨e, -, rfl⟩ := List.mem_map.1 hp
      exact not_dot_of_mem_word e.name
    · rw [List.mem_singleton.1 hp]
      exact not_dot_of_mem_word r.inner.name
  rw [← r.shown_eq_iff]
  refine ⟨fun h => ?_, congrArg _⟩
  have hsplit := congrArg (List.splitOn '.') h
  rwa [join, join, List.splitOn_intercalate '.' r.not_dot_of_mem_shown r.shown_ne_nil,
    List.splitOn_intercalate '.' hnames (by simp [Reference.names])] at hsplit

/-- A classified declaration whose superclass has a name is planned. -/
theorem exists_job_plan {model : Model} {s : Settings} {d : Declaration} {index : NameIndex model}
    {k : Classification} (hk : classify s.policy d = .ok (some k)) (hd : d.companionName ≠ "") :
    ∃ j, (plan s d index).1.job = some j := by
  unfold plan planClassified
  rw [hk, superclassName?_eq, if_neg hd]
  exact ⟨_, rfl⟩

/-- The erasure of a type is the dotted names up to the first type arguments, brackets or white
space, and the simple name is the last of them, after which the companion of a declaration is named
that extends the type. -/
theorem erasure_of_reference (r : Reference) {t : TypeRef} (ht : t.text.toList = r.text) :
    t.erased.toList = join ['.'] r.shown ∧
    t.simple.toList = r.shown.getLast r.shown_ne_nil ∧
    (t.erased.toList = join ['.'] r.names ↔ r.Joined) ∧
    (r.Joined → t.simple.toList = r.inner.name.text) ∧
    ∀ (model : Model) (s : Settings) (d : Declaration) (index : NameIndex model),
      d.superclass = some t →
      (∀ j, (plan s d index).1.job = some j → j.className = t.simple) ∧
      (∀ k, classify s.policy d = .ok (some k) → r.Joined →
        ∃ j, (plan s d index).1.job = some j ∧ j.className.toList = r.inner.name.text) := by
  have herased : t.erased.toList = join ['.'] r.shown := by
    rw [TypeRef.erased, ht, r.erase_text, String.toList_ofList]
  have hsimple : t.simple.toList = r.shown.getLast r.shown_ne_nil := by
    rw [TypeRef.simple, ht, r.simpleName_text, String.toList_ofList]
  have hinner (h : r.Joined) : t.simple.toList = r.inner.name.text := by
    rw [hsimple, List.getLast_congr _ (by simp [Reference.names]) (r.shown_eq_iff.2 h)]
    exact List.getLast_append_singleton _
  refine ⟨herased, hsimple, ?_, hinner, fun model s d index hd => ?_⟩
  · rw [herased]
    exact r.join_shown_eq_iff
  · have hname : d.companionName = t.simple := by rw [Declaration.companionName, hd]
    have hjob (j : Job) (hj : (plan s d index).1.job = some j) : j.className = t.simple :=
      (eq_of_job_plan hj).2.1.trans hname
    refine ⟨hjob, fun k hk hjoined => ?_⟩
    have hne : d.companionName ≠ "" := by
      rw [hname]
      intro h
      refine r.inner.name.ne ?_
      rw [← hinner hjoined, h]
      rfl
    obtain ⟨j, hj⟩ := exists_job_plan hk hne
    exact ⟨j, hj, by rw [hjob j hj, hinner hjoined]⟩

def Named.bare (w : Word) : Named :=
  ⟨w, .none, none⟩

def Named.of (w argument : Word) : Named :=
  ⟨w, .none, some ⟨.none, [⟨.word argument, .none⟩], .one (.exact (.single (.raw (.word _)))),
    .none⟩⟩

def eventOf (type : String) : Declaration where
  package := "p"
  name := "A"
  superclass := some ⟨type, true⟩
  typeParameters := []
  tags := [⟨"event", "", [], List.nodup_nil⟩]
  constructors := []
  source := none

def Reference.applied : Reference where
  outer := [⟨.bare ⟨"com".toList, by decide, by decide, by decide⟩, .none⟩,
    ⟨.bare ⟨"x".toList, by decide, by decide, by decide⟩, .none⟩]
  inner := .of ⟨"Bar".toList, by decide, by decide, by decide⟩
    ⟨"T".toList, by decide, by decide, by decide⟩
  arrays := []
  variadic := none

theorem erasure_of_reference_applied :
    (⟨"com.x.Bar<T>", true⟩ : TypeRef).erased = "com.x.Bar" ∧
    ∃ j, (plan .default (eventOf "com.x.Bar<T>") (NameIndex.empty : NameIndex (.ofList []))).1.job =
      some j ∧ j.className = "Bar" := by
  have htext : (⟨"com.x.Bar<T>", true⟩ : TypeRef).text.toList = Reference.applied.text := by decide
  have hjoined : Reference.applied.Joined := by
    unfold Reference.Joined Enclosing.Joins
    decide
  obtain ⟨-, -, herased, -, hplan⟩ := erasure_of_reference Reference.applied htext
  obtain ⟨-, hjob⟩ := hplan (.ofList []) .default (eventOf "com.x.Bar<T>") .empty rfl
  obtain ⟨j, hj, hname⟩ := hjob ⟨.event, ⟨"event", "", [], List.nodup_nil⟩, []⟩ rfl hjoined
  exact ⟨String.toList_inj.1 ((herased.2 hjoined).trans (by decide)), j, hj,
    String.toList_inj.1 (hname.trans (by decide))⟩

def Reference.enclosed : Reference where
  outer := [⟨.bare ⟨"a".toList, by decide, by decide, by decide⟩, .none⟩,
    ⟨.of ⟨"Outer".toList, by decide, by decide, by decide⟩
      ⟨"T".toList, by decide, by decide, by decide⟩, .none⟩]
  inner := .of ⟨"Inner".toList, by decide, by decide, by decide⟩
    ⟨"U".toList, by decide, by decide, by decide⟩
  arrays := []
  variadic := none

/-- A type in a class with type arguments is erased to that class. -/
theorem erasure_of_enclosing :
    Reference.enclosed.text = "a.Outer<T>.Inner<U>".toList ∧
    join ['.'] Reference.enclosed.names = "a.Outer.Inner".toList ∧
    Reference.enclosed.inner.name.text = "Inner".toList ∧
    (⟨"a.Outer<T>.Inner<U>", true⟩ : TypeRef).erased = "a.Outer" ∧
    (⟨"a.Outer<T>.Inner<U>", true⟩ : TypeRef).simple = "Outer" ∧
    (plan .default (eventOf "a.Outer<T>.Inner<U>")
      (NameIndex.empty : NameIndex (.ofList []))).1.job.map Job.className = some "Outer" := by
  refine ⟨?_, ?_, ?_, ?_, ?_, ?_⟩ <;> decide +kernel

end Companion.Java
