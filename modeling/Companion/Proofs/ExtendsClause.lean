import Companion.Proofs.CompanionScan

/-!
# Superclasses of companions

The superclass of a companion is written as the tag asks for it, with a type argument behind it for
every event and for every message with a partner. The clause is a class type if no type arguments
stand there already, or if none are added (`extends_of_plan`).
-/

namespace Companion

namespace Java.Syntax

open Text
open Unicode (isBlank)

variable {s t : List Char}

/-- No list of type arguments opens where another one closes. -/
def ClosesOnce (s : List Char) : Prop :=
  s.IsChain fun c d => ¬(c = '>' ∧ d = '<')

instance (s : List Char) : Decidable (ClosesOnce s) :=
  inferInstanceAs (Decidable (s.IsChain fun c d => ¬(c = '>' ∧ d = '<')))

theorem ClosesOnce.append (hs : ClosesOnce s) (ht : ClosesOnce t)
    (h : (∀ c ∈ s.getLast?, c ≠ '>') ∨ ∀ d ∈ t.head?, d ≠ '<') : ClosesOnce (s ++ t) := by
  refine List.IsChain.append hs ht fun c hc d hd hcd => ?_
  rcases h with h | h
  · exact h c hc hcd.1
  · exact h d hd hcd.2

theorem closesOnce_of_not_mem (h : '>' ∉ s) : ClosesOnce s := by
  induction s with
  | nil => exact List.isChain_nil
  | cons c s ih =>
    simp only [List.mem_cons, not_or] at h
    exact List.isChain_cons.2 ⟨fun d _ hcd => h.1 hcd.1.symm, ih h.2⟩

theorem Ident.closesOnce (i : Ident) : ClosesOnce i.text :=
  closesOnce_of_not_mem fun hmem => absurd (i.isLetterOrDigit _ hmem) (by decide)

theorem closesOnce_listed {ps : List (List Char)} (h : ∀ s ∈ ps, ClosesOnce s) :
    ClosesOnce (listed ps) := by
  induction ps with
  | nil => exact List.isChain_nil
  | cons p ps ih =>
    obtain ⟨hp, hps⟩ := List.forall_mem_cons.1 h
    rcases ps with _ | ⟨q, ps⟩
    · simpa [listed, join] using hp
    · rw [listed_cons_cons]
      have hsep : ClosesOnce [',', ' '] := closesOnce_of_not_mem (by decide)
      exact hp.append (hsep.append (ih hps) (.inl (by decide))) (.inr (by simp))

theorem closesOnce_angled {ps : List (List Char)} (hs : ClosesOnce s)
    (hlast : ∀ c ∈ s.getLast?, c ≠ '>') (h : ∀ s ∈ ps, ClosesOnce s) :
    ClosesOnce (s ++ angled ps) := by
  have hopen : ClosesOnce ['<'] := closesOnce_of_not_mem (by decide)
  have hclose : ClosesOnce ['>'] := List.isChain_singleton _
  unfold angled
  split_ifs
  · rwa [List.append_nil]
  · exact hs.append (hopen.append ((closesOnce_listed h).append hclose (.inr (by decide)))
      (.inl (by decide))) (.inl hlast)

theorem Ident.ne_close (i : Ident) : ∀ c ∈ i.text.getLast?, c ≠ '>' := by
  rintro c hc rfl
  exact absurd (i.isLetterOrDigit _ (List.mem_of_getLast? hc)) (by decide)

mutual

theorem ClassType.closesOnce : (t : ClassType) → ClosesOnce t.print
  | .simple name args => closesOnce_angled name.closesOnce name.ne_close args.closesOnce
  | .member outer name args =>
    outer.closesOnce.append ((closesOnce_of_not_mem (s := ['.']) (by decide)).append
      (closesOnce_angled name.closesOnce name.ne_close args.closesOnce) (.inl (by decide)))
      (.inr (by simp))

theorem TypeArgs.closesOnce : (args : TypeArgs) → ∀ s ∈ args.prints, ClosesOnce s
  | .nil => by simp [TypeArgs.prints]
  | .cons arg rest => by
    rw [TypeArgs.prints, List.forall_mem_cons]
    exact ⟨arg.closesOnce, rest.closesOnce⟩

theorem TypeArg.closesOnce : (arg : TypeArg) → ClosesOnce arg.print
  | .type t => t.closesOnce
  | .any => List.isChain_singleton _
  | .upper t =>
    (closesOnce_of_not_mem (s := "? extends ".toList) (by decide)).append t.closesOnce
      (.inl (by decide))
  | .lower t =>
    (closesOnce_of_not_mem (s := "? super ".toList) (by decide)).append t.closesOnce
      (.inl (by decide))

theorem JavaType.closesOnce : (t : JavaType) → ClosesOnce t.print
  | .primitive p => closesOnce_of_not_mem (by cases p <;> decide)
  | .named t => t.closesOnce
  | .array t => t.closesOnce.append (closesOnce_of_not_mem (by decide)) (.inr (by simp))

end

def ClassType.isBare : ClassType → Bool
  | .simple _ args => args.prints.isEmpty
  | .member _ _ args => args.prints.isEmpty

def ClassType.withArgs (args : TypeArgs) : ClassType → ClassType
  | .simple name _ => .simple name args
  | .member outer name _ => .member outer name args

theorem ClassType.print_withArgs {t : ClassType} (h : t.isBare) (args : TypeArgs) :
    (t.withArgs args).print = t.print ++ angled args.prints := by
  cases t with
  | simple name own =>
    have hown : angled own.prints = [] := by simp [angled, List.isEmpty_iff.1 h]
    simp [withArgs, ClassType.print, hown]
  | member outer name own =>
    have hown : angled own.prints = [] := by simp [angled, List.isEmpty_iff.1 h]
    simp [withArgs, ClassType.print, hown]

theorem ClassType.getLast?_print {t : ClassType} (h : t.isBare = false) :
    t.print.getLast? = some '>' := by
  have hangled {ps : List (List Char)} (hps : ps.isEmpty = false) :
      ∃ r, angled ps = r ++ ['>'] := by
    refine ⟨'<' :: listed ps, ?_⟩
    rw [angled, if_neg (by simpa using hps)]
    simp
  cases t with
  | simple name args =>
    obtain ⟨r, hr⟩ := hangled h
    rw [ClassType.print, hr, ← List.append_assoc, List.getLast?_concat]
  | member outer name args =>
    obtain ⟨r, hr⟩ := hangled h
    rw [ClassType.print, hr]
    simp [List.getLast?_append, List.getLast?_cons]

theorem words_of_not_blank {u : List Char} (hne : u ≠ []) (h : ∀ c ∈ u, isBlank c = false) :
    words u = [u] := by
  fun_induction words u with
  | case1 => exact absurd rfl hne
  | case2 c hc => exact absurd hc (by simp [h c List.mem_cons_self])
  | case3 c hc => rfl
  | case4 c d cs hc ih => exact absurd hc (by simp [h c List.mem_cons_self])
  | case5 c d cs hc hd ih => exact absurd hd (by simp [h d (by simp)])
  | case6 c d cs hc hd ih =>
    rw [ih (by simp) fun e he => h e (List.mem_cons_of_mem _ he)]
    rfl

/-- A text without white space is the end of the last word or a word of its own. -/
theorem join_words_append {u : List Char} (hne : u ≠ []) (hu : ∀ c ∈ u, isBlank c = false)
    (s : List Char) : ∃ gap, (∀ c ∈ gap, c = ' ') ∧
      join [' '] (words (s ++ u)) = join [' '] (words s) ++ (gap ++ u) := by
  have hjoin (w : List Char) {ps : List (List Char)} (hps : ps ≠ []) :
      join [' '] (w :: ps) = w ++ ' ' :: join [' '] ps := by
    obtain ⟨p, ps, rfl⟩ := List.exists_cons_of_ne_nil hps
    simp [join, List.intercalate]
  have hwords := words_of_not_blank hne hu
  obtain ⟨e, es, rfl⟩ := List.exists_cons_of_ne_nil hne
  have he : isBlank e = false := hu e List.mem_cons_self
  -- By the cases of `words`: the gap is a space where white space stands at the end of the text.
  fun_induction words s with
  | case1 => exact ⟨[], by simp, by simp [hwords, join]⟩
  | case2 c hc => exact ⟨[], by simp, by simp [words, hc, hwords, join]⟩
  | case3 c hc =>
    refine ⟨[], by simp, ?_⟩
    rw [List.singleton_append, words, if_neg hc, if_neg (by simp [he]), hwords]
    simp [consFirst, join]
  | case4 c d cs hc ih =>
    obtain ⟨gap, hgap, heq⟩ := ih
    exact ⟨gap, hgap, by rwa [List.cons_append, List.cons_append, words, if_pos hc]⟩
  | case5 c d cs hc hd ih =>
    obtain ⟨gap, hgap, heq⟩ := ih
    rw [List.cons_append] at heq
    have hsome : words (d :: (cs ++ e :: es)) ≠ [] := by
      intro hnil
      rw [hnil] at heq
      simp [join] at heq
    rw [List.cons_append, List.cons_append, words, if_neg hc, if_pos hd, hjoin [c] hsome, heq]
    by_cases hnil : words (d :: cs) = []
    · exact ⟨' ' :: gap, by simpa using hgap, by simp [hnil, join]⟩
    · exact ⟨gap, hgap, by rw [hjoin [c] hnil]; simp⟩
  | case6 c d cs hc hd ih =>
    obtain ⟨gap, hgap, heq⟩ := ih
    refine ⟨gap, hgap, ?_⟩
    rw [List.cons_append, List.cons_append, words, if_neg hc, if_neg hd, join_consFirst,
      join_consFirst]
    rw [List.cons_append] at heq
    rw [heq]
    rfl

/-- What is written of a text does not depend on what follows, but for spaces at its end. -/
theorem exists_normalizeFrom (s out : List Char) (skip : Bool) : ∃ out' skip',
    normalizeFrom out skip s = out'.reverse ∧
      ∀ t, normalizeFrom out skip (s ++ t) = normalizeFrom out' skip' t := by
  induction s generalizing out skip with
  | nil => exact ⟨out, skip, rfl, fun t => rfl⟩
  | cons c s ih =>
    simp only [List.cons_append, normalizeFrom]
    split_ifs
    all_goals exact ih _ _

theorem normalizeFrom_spaces {gap : List Char} (hgap : ∀ c ∈ gap, c = ' ') (out : List Char)
    (skip : Bool) (t : List Char) : normalizeFrom out skip (gap ++ '<' :: t) =
      normalizeFrom ('<' :: out.dropWhile (· == ' ')) true t := by
  induction gap generalizing out with
  | nil => simp [normalizeFrom]
  | cons c gap ih =>
    obtain ⟨rfl, hspaces⟩ := List.forall_mem_cons.1 hgap
    rw [List.cons_append, normalizeFrom, if_neg (by decide), if_neg (by decide), if_neg (by decide)]
    split_ifs
    · exact ih hspaces out
    · rename_i hskip
      obtain rfl : skip = false := by simpa using hskip
      rw [ih hspaces (' ' :: out)]
      rfl

/-- Type arguments in normal layout stay as they are behind a text. -/
theorem normalizeType_append {w : List Char} (hs : (normalizeType s).getLast? ≠ some ' ')
    (hchain : (w ++ ['>']).IsChain Fits) (hblank : ∀ c ∈ w, isBlank c = false) :
    normalizeType (s ++ '<' :: (w ++ ['>'])) = normalizeType s ++ '<' :: (w ++ ['>']) := by
  have hbracket : ∀ c ∈ ['<', '>'], isBlank c = false := by decide
  have hu : ∀ c ∈ '<' :: (w ++ ['>']), isBlank c = false := by
    simp only [List.forall_mem_cons, List.forall_mem_append]
    exact ⟨by decide, hblank, by decide, by simp⟩
  obtain ⟨gap, hgap, hwords⟩ := join_words_append (List.cons_ne_nil _ _) hu s
  obtain ⟨out, skip, hout, hnext⟩ := exists_normalizeFrom (join [' '] (words s)) [] false
  have hhead : out.head? ≠ some ' ' := by
    rwa [normalizeType, hout, List.getLast?_reverse] at hs
  have hrest : (w ++ ['>']).dropWhile (· == ' ') = w ++ ['>'] := dropWhile_space fun h => by
    have := hu ' ' (List.mem_cons_of_mem _ (List.mem_of_head? h))
    exact absurd this (by decide)
  rw [normalizeType, normalizeType, hwords, hnext, normalizeFrom_spaces hgap, dropWhile_space hhead,
    normalizeFrom_eq hchain (by simp) (by simp), if_pos rfl, hrest, hout]
  simp

/-- A class type goes on with a type argument if it has none at its end. -/
theorem exists_type_append_iff {u t : ClassType} (hs : normalizeType s = u.print)
    (hspace : ' ' ∉ t.print) :
    (∃ v : ClassType, normalizeType (s ++ angled t.asArgs.prints) = v.print) ↔ u.isBare := by
  have hlaid := t.typeText.laid
  have hchain : (t.print ++ ['>']).IsChain Fits :=
    hlaid.chain.append (List.isChain_singleton _) fun c hc d _ =>
      fits_of_closesLayout (hlaid.last c hc) d
  have hblank : ∀ c ∈ t.print, isBlank c = false := fun c hc => by
    by_contra h
    exact hspace (hlaid.blank c hc (by simpa using h) ▸ hc)
  have hlast : (normalizeType s).getLast? ≠ some ' ' := by
    rw [hs]
    exact fun h => absurd (u.typeText.laid.last ' ' h) (by decide)
  rw [angled_asArgs, normalizeType_append hlast hchain hblank, hs]
  constructor
  · -- Behind type arguments the new ones open where those close, which no class type has.
    rintro ⟨v, hv⟩
    by_contra hbare
    have hclose := ClassType.getLast?_print (Bool.not_eq_true _ ▸ hbare)
    have honce := v.closesOnce
    rw [← hv] at honce
    exact (List.isChain_append.1 honce).2.2 '>' hclose '<' rfl ⟨rfl, rfl⟩
  · intro hbare
    exact ⟨u.withArgs t.asArgs, by rw [ClassType.print_withArgs hbare, angled_asArgs]⟩

end Java.Syntax

open Java.Syntax

variable {model : Model} {index : NameIndex model} {s : Settings} {d : Declaration}
  {c : Classification} {job : Job} {u : ClassType}

/-- The text is a class type, up to its layout. -/
def IsClassType (s : String) : Prop :=
  ∃ t : ClassType, Java.normalizeType s.toList = t.print

/-- In the text a class of that name extends the superclass. -/
def Extends (text name superclass : String) : Prop :=
  ∃ front rest, text.toList = front ++ ("class ".toList ++ (name.toList ++ (" extends ".toList ++
    (superclass.toList ++ (" \x7b".toList ++ rest)))))

theorem attributes_of_plan (hc : classify s.policy d = .ok (some c))
    (hjob : (plan s d index).1.job = some job) :
    job.attributes.variant = job.variant ∧ job.attributes.className = job.className ∧
      job.attributes.superClass = c.effectiveSuperclass ∧
      job.attributes.partnerClass = job.partner.map (·.name) := by
  rw [plan, hc] at hjob
  simp only [planClassified] at hjob
  split at hjob
  · simp at hjob
  · simp only [Option.some.injEq] at hjob
    subst hjob
    exact ⟨rfl, rfl, rfl, rfl⟩

theorem extends_companion (a : Attributes) (hp : ∀ p ∈ a.partnerClass, IsIdent p) :
    Extends (String.ofList a.companion) a.className a.superclassText := by
  refine ⟨a.lead ++ (a.javadoc ++ "\npublic abstract ".toList),
    "\n".toList ++ (a.members ++ "\x7d\n".toList), ?_⟩
  rw [String.toList_ofList, a.toList_superclassText hp]
  unfold Attributes.companion Attributes.afterName Attributes.extendsClause withBody
  simp

/-- The superclass of a companion is a class type if that of the tag has no type arguments at its
end or gets none. -/
theorem isClassType_superclassText {a : Attributes}
    (hu : Java.normalizeType a.superClass.toList = u.print) (hname : IsIdent a.className)
    (hp : ∀ p ∈ a.partnerClass, IsIdent p) : IsClassType a.superclassText ↔
      u.isBare ∨ (a.variant ≠ .event ∧ a.partnerClass = none) := by
  rw [IsClassType, a.toList_superclassText hp]
  rcases a.typeArgument_cases hname hp with ⟨hplain, hnone⟩ | ⟨hgiven, t, hspace, ht⟩
  · rw [hnone, List.append_nil]
    exact iff_of_true ⟨u, hu⟩ (.inr hplain)
  · rw [ht, exists_type_append_iff hu hspace]
    exact (or_iff_left hgiven).symm

/-- The companion of a planned declaration extends a class type if the superclass that its tag asks
for has no type arguments at its end, or if it is a message without a partner. -/
theorem extends_of_plan (hc : classify s.policy d = .ok (some c))
    (hjob : (plan s d index).1.job = some job)
    (hu : Java.normalizeType c.effectiveSuperclass.toList = u.print)
    (hname : IsIdent job.className) (hpartner : ∀ p ∈ job.partner, IsIdent p.name) :
    ∃ templates text, (∀ w, Templates.load none w = .ok templates w) ∧
      templates.render job.attributes = .ok text ∧
      Extends text job.className job.attributes.superclassText ∧
      (IsClassType job.attributes.superclassText ↔
        u.isBare ∨ (job.variant ≠ .event ∧ job.partner = none)) := by
  obtain ⟨hvariant, hclass, hsuper, hclasses⟩ := attributes_of_plan hc hjob
  have hp : ∀ p ∈ job.attributes.partnerClass, IsIdent p := by
    rw [hclasses]
    intro p hp
    obtain ⟨d, hd, rfl⟩ := Option.map_eq_some_iff.1 hp
    exact hpartner d hd
  have hiff := isClassType_superclassText (hsuper ▸ hu) (hclass ▸ hname) hp
  rw [hvariant, hclasses, Option.map_eq_none_iff] at hiff
  exact ⟨.standard, _, load_none, render_standard _, hclass ▸ extends_companion _ hp, hiff⟩

def plainRequest : Declaration :=
  ⟨"p", "FooRequest", none, [], [], [], none⟩

/-- A response whose tag asks for a superclass. -/
def respondingWith (superclass : String) : Declaration where
  package := "p"
  name := "FooResponse"
  superclass := some ⟨"BarResp", true⟩
  typeParameters := []
  tags := [⟨"response", "", [("superclass", superclass)], by simp⟩]
  constructors := []
  source := none

def exchange (superclass : String) : Model :=
  .ofList [respondingWith superclass, plainRequest]

/-- What is planned for the response. -/
def respondingJob (superclass : String) : Job where
  declaration := respondingWith superclass
  variant := .response
  className := "BarResp"
  superClass := superclass
  partner := some plainRequest
  attributes := ⟨.response, "p", "BarResp", "FooResponse", "FooResponse", [], superclass, [],
    some "FooRequest"⟩

/-- Type arguments inside a superclass are followed by those for the partner. -/
theorem extends_of_plan_member :
    let superclass := "com.rpc.Outer<T>.Response"
    let d := respondingWith superclass
    let index : NameIndex (exchange superclass) := .empty
    ∃ c job, classify .firstWins d = .ok (some c) ∧ (plan .default d index).1.job = some job ∧
      IsClassType c.effectiveSuperclass ∧ IsIdent job.className ∧
      (∀ p ∈ job.partner, IsIdent p.name) ∧
      ∃ templates text, (∀ w, Templates.load none w = .ok templates w) ∧
        templates.render job.attributes = .ok text ∧
        Extends text job.className job.attributes.superclassText ∧
        job.attributes.superclassText = "com.rpc.Outer<T>.Response<FooRequest>" ∧
        IsClassType job.attributes.superclassText := by
  intro superclass d index
  let com : Ident := ⟨"com".toList, by decide, by decide, by decide⟩
  let rpc : Ident := ⟨"rpc".toList, by decide, by decide, by decide⟩
  let outer : Ident := ⟨"Outer".toList, by decide, by decide, by decide⟩
  let var : Ident := ⟨"T".toList, by decide, by decide, by decide⟩
  let response : Ident := ⟨"Response".toList, by decide, by decide, by decide⟩
  let u : ClassType := .member (.member (.member (.simple com .nil) rpc .nil) outer
    (ClassType.simple var .nil).asArgs) response .nil
  have hc : classify .firstWins d = .ok (some ⟨.response, d.tags.head (by decide), []⟩) := by
    decide +kernel
  have hjob : (plan .default d index).1.job = some (respondingJob superclass) := by decide +kernel
  have hu : Java.normalizeType
      (Classification.effectiveSuperclass ⟨.response, d.tags.head (by decide), []⟩).toList =
        u.print := by decide +kernel
  have hname : IsIdent (respondingJob superclass).className := by decide +kernel
  have hpartner : ∀ p ∈ (respondingJob superclass).partner, IsIdent p.name := by decide +kernel
  obtain ⟨templates, text, hload, hrender, hextends, hiff⟩ :=
    extends_of_plan (s := .default) hc hjob hu hname hpartner
  exact ⟨_, _, hc, hjob, ⟨u, hu⟩, hname, hpartner, templates, text, hload, hrender, hextends,
    by decide +kernel, hiff.2 (.inl rfl)⟩

/-- Type arguments at the end of a superclass are followed by those for the partner, so the
companion extends no class type. -/
theorem extends_of_plan_fails :
    let superclass := "com.rpc.CustomResponse<T>"
    let d := respondingWith superclass
    let index : NameIndex (exchange superclass) := .empty
    ∃ c job, classify .firstWins d = .ok (some c) ∧ (plan .default d index).1.job = some job ∧
      IsClassType c.effectiveSuperclass ∧ IsIdent job.className ∧
      (∀ p ∈ job.partner, IsIdent p.name) ∧
      ∀ templates text, (∀ w, Templates.load none w = .ok templates w) →
        templates.render job.attributes = .ok text →
        ∀ clause, Extends text job.className clause → ¬IsClassType clause := by
  intro superclass d index
  let com : Ident := ⟨"com".toList, by decide, by decide, by decide⟩
  let rpc : Ident := ⟨"rpc".toList, by decide, by decide, by decide⟩
  let custom : Ident := ⟨"CustomResponse".toList, by decide, by decide, by decide⟩
  let var : Ident := ⟨"T".toList, by decide, by decide, by decide⟩
  let u : ClassType := .member (.member (.simple com .nil) rpc .nil) custom
    (ClassType.simple var .nil).asArgs
  let a : Attributes := (respondingJob superclass).attributes
  have hc : classify .firstWins d = .ok (some ⟨.response, d.tags.head (by decide), []⟩) := by
    decide +kernel
  have hjob : (plan .default d index).1.job = some (respondingJob superclass) := by decide +kernel
  have hu : Java.normalizeType
      (Classification.effectiveSuperclass ⟨.response, d.tags.head (by decide), []⟩).toList =
        u.print := by decide +kernel
  -- A clause that starts behind the name of the class holds two lists of type arguments, whichever
  -- brace it goes up to.
  have hclauses : ∀ t ∈ a.companion.tails, "class BarResp extends ".toList <+: t →
      ∀ clause ∈ (t.drop 22).inits, clause ++ " \x7b".toList <+: t.drop 22 →
        ¬ClosesOnce (Java.normalizeType clause) := by decide +kernel
  refine ⟨_, _, hc, hjob, ⟨u, hu⟩, by decide +kernel, by decide +kernel, ?_⟩
  rintro templates text hload hrender clause ⟨front, rest, htext⟩ ⟨v, hv⟩
  have hstandard := (load_none ⟨⟨[], []⟩, []⟩).symm.trans (hload ⟨⟨[], []⟩, []⟩)
  obtain rfl : Templates.standard = templates := by injection hstandard
  rw [render_standard] at hrender
  obtain rfl : String.ofList a.companion = text := by injection hrender
  have hname : (respondingJob superclass).className = "BarResp" := rfl
  rw [String.toList_ofList, hname] at htext
  have hdrop : ("class ".toList ++ ("BarResp".toList ++ (" extends ".toList ++ (clause.toList ++
      (" \x7b".toList ++ rest))))).drop 22 = clause.toList ++ (" \x7b".toList ++ rest) := rfl
  have honce := hclauses _ ((List.mem_tails _ _).2 ⟨front, htext.symm⟩) ⟨_, rfl⟩ clause.toList
  rw [hdrop, hv] at honce
  exact honce ((List.mem_inits _ _).2 (List.prefix_append _ _)) ⟨rest, by simp⟩ v.closesOnce

end Companion
