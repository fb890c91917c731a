import Companion.Proofs.CompanionMembers

/-!
# Companions are scanned back

The scanner reads one class from a companion of the standard templates (`scan_render`): the class
that the attributes describe. Nothing else in the text is taken for a class, a package clause or a
constructor.
-/

namespace Companion

open Java.Syntax
open Unicode (isBlank isWordChar)

variable {a : Attributes} {k : List Char} {i : Ident}

/-- A dotted name with type arguments at its end is a class type. -/
theorem Java.Syntax.DottedName.exists_type (n : DottedName) (args : TypeArgs) :
    ∃ t : ClassType, t.print = n.print ++ angled args.prints := by
  obtain ⟨first, rest⟩ := n
  induction rest using List.reverseRecOn generalizing args with
  | nil => exact ⟨.simple first args, by simp [ClassType.print, DottedName.print]⟩
  | append_singleton rest i ih =>
    obtain ⟨outer, houter⟩ := ih .nil
    refine ⟨.member outer i args, ?_⟩
    have hnil : angled TypeArgs.nil.prints = [] := rfl
    rw [hnil, List.append_nil] at houter
    simp [ClassType.print, houter, DottedName.print]

/-- The class type alone as type arguments. -/
def Java.Syntax.ClassType.asArgs (t : ClassType) : TypeArgs :=
  .cons (.type (.named t)) .nil

theorem angled_asArgs (t : ClassType) : angled t.asArgs.prints = '<' :: (t.print ++ ['>']) := by
  have hprints : t.asArgs.prints = [t.print] := rfl
  rw [hprints]
  simp [angled, Java.Syntax.listed, Text.join]

def handlerType (className : Ident) : ClassType :=
  .member (.simple className .nil)
    ⟨['H', 'a', 'n', 'd', 'l', 'e', 'r'], by decide, by decide, by decide⟩ .nil

namespace Attributes

theorem toList_superclassText (hp : ∀ p ∈ a.partnerClass, IsIdent p) :
    a.superclassText.toList = a.superClass.toList ++ a.typeArgument := by
  unfold superclassText typeArgument
  rw [String.toList_append]
  cases hv : a.variant with
  | event => simp
  | _ =>
    rw [partner?_eq hp (by simp [hv])]
    rcases a.partnerClass with _ | p <;> simp

/-- A companion gives its superclass no type argument or one that is a class type. -/
theorem typeArgument_cases (hname : IsIdent a.className) (hp : ∀ p ∈ a.partnerClass, IsIdent p) :
    (a.variant ≠ .event ∧ a.partnerClass = none) ∧ a.typeArgument = [] ∨
      ¬(a.variant ≠ .event ∧ a.partnerClass = none) ∧
        ∃ t : ClassType, ' ' ∉ t.print ∧ a.typeArgument = angled t.asArgs.prints := by
  have hspace (i : Ident) : ' ' ∉ i.text := fun hmem =>
    absurd (i.isLetterOrDigit _ hmem) (by decide)
  by_cases hv : a.variant = .event
  · obtain ⟨i, hi⟩ := hname
    have hprint : (handlerType i).print = i.text ++ [] ++ ".Handler".toList := rfl
    refine .inr ⟨fun h => h.1 hv, handlerType i, ?_, ?_⟩
    · rw [hprint, List.append_nil, List.mem_append, not_or]
      exact ⟨hspace i, by decide⟩
    · unfold typeArgument
      rw [hv, angled_asArgs, hprint, hi]
      simp
  · have hargument : a.typeArgument =
        a.partnerClass.elim [] fun p => "<".toList ++ (p.toList ++ ">".toList) := by
      rw [← partner?_eq hp hv]
      unfold typeArgument
      cases hvariant : a.variant with
      | event => exact absurd hvariant hv
      | _ => rfl
    rw [hargument]
    rcases hclass : a.partnerClass with _ | p
    · exact .inl ⟨⟨hv, rfl⟩, rfl⟩
    · obtain ⟨i, hi⟩ := hp p hclass
      have hprint : (ClassType.simple i .nil).print = i.text ++ [] := rfl
      refine .inr ⟨fun h => absurd h.2 (by simp), .simple i .nil, ?_, ?_⟩
      · rw [hprint, List.append_nil]
        exact hspace i
      · rw [angled_asArgs, hprint, Option.elim_some, hi]
        simp

namespace WellNamed

theorem exists_superclass (h : a.WellNamed) :
    ∃ t : ClassType, t.print = a.superClass.toList ++ a.typeArgument := by
  obtain ⟨n, hn⟩ := h.superClass
  obtain ⟨args, hargs⟩ : ∃ args : TypeArgs, angled args.prints = a.typeArgument := by
    rcases typeArgument_cases h.className h.partnerClass with ⟨-, hnone⟩ | ⟨-, t, -, ht⟩
    · exact ⟨.nil, hnone.symm⟩
    · exact ⟨t.asArgs, ht.symm⟩
  obtain ⟨t, ht⟩ := n.exists_type args
  exact ⟨t, by rw [ht, hn, hargs]⟩

theorem exists_package (h : a.WellNamed) : ∃ p : Option DottedName,
    a.packageClause = packageText p ∧
      a.packageName = String.ofList (p.elim [] DottedName.print) := by
  unfold packageClause
  rcases h.packageName with he | ⟨n, hn⟩
  · exact ⟨none, by rw [he]; rfl, he⟩
  · have hne : a.packageName.isEmpty = false := by
      rw [← Bool.not_eq_true, String.isEmpty_iff]
      intro he
      rw [he] at hn
      exact n.typeText.laid.ne hn.symm
    refine ⟨some n, ?_, ?_⟩
    · rw [if_neg (by simp [hne]), hn]
      rfl
    · rw [Option.elim_some, ← hn, String.ofList_toList]

theorem passed_imports (a : Attributes) (hk : k ∈ openers) :
    Passed k (a.imports ++ "\n".toList) := by
  refine Passed.append ?_ (between_of_forall hk (by decide)).passed
  unfold imports
  cases a.variant with
  | event => exact (between_of_forall hk (by decide +kernel)).passed
  | _ => exact passed_nil hk

theorem passed_packageText (p : Option DottedName) : Passed "class".toList (packageText p) where
  plain := by
    rcases p with _ | p
    · simp [packageText]
    · rw [packageText_some]
      exact List.forall_mem_append.2
        ⟨fun c hc => isPlain_of_isFrontChar ((frontText_package p).chars c hc), by decide⟩
  passable := passable_packageText p

theorem passed_lead (h : a.WellNamed) : Passed "class".toList a.lead := by
  obtain ⟨p, hp, -⟩ := h.exists_package
  unfold lead
  rw [hp]
  exact (passed_packageText p).append (passed_imports a class_mem_openers)

theorem exists_javadoc (h : a.WellNamed) : ∃ d : Javadoc, d.print = a.javadoc := by
  obtain ⟨i, hi⟩ := h.subclassName
  have hslash : '/' ∉ a.comment := by
    have hname : '/' ∉ i.text := fun hmem => absurd (i.isLetterOrDigit _ hmem) (by decide)
    unfold comment
    rw [hi]
    simp only [List.mem_append, not_or]
    exact ⟨by decide, hname, by decide⟩
  have hinfix {s : List Char} (hs : '/' ∈ s) : ¬s <:+: a.comment :=
    fun hi => hslash (hi.subset hs)
  have hstart : a.comment.head? ≠ some '/' := fun he => hslash (List.mem_of_head? he)
  exact ⟨⟨a.comment, hstart, hinfix (by decide), hinfix (by decide)⟩, rfl⟩

theorem not_mem_lead (h : a.WellNamed) : '@' ∉ a.lead := by
  obtain ⟨p, hp, -⟩ := h.exists_package
  have hpackage : '@' ∉ packageText p := by
    rcases p with _ | p
    · simp [packageText]
    · rw [packageText_some]
      intro hmem
      rcases List.mem_append.1 hmem with hmem | hmem
      · exact absurd ((frontText_package p).chars _ hmem) (by decide)
      · exact absurd hmem (by decide)
  have himports : '@' ∉ a.imports := by
    unfold imports
    cases a.variant <;> decide +kernel
  unfold lead
  rw [hp]
  simp only [List.mem_append, not_or]
  exact ⟨hpackage, himports, by decide⟩

theorem not_mem_javadoc (h : a.WellNamed) : '@' ∉ a.javadoc := by
  obtain ⟨i, hi⟩ := h.subclassName
  have hname : '@' ∉ i.text := fun hmem => absurd (i.isLetterOrDigit _ hmem) (by decide)
  unfold javadoc comment
  rw [hi]
  simp only [List.mem_append, not_or]
  exact ⟨by decide, ⟨by decide, hname, by decide⟩, by decide⟩

theorem classFree_afterName (h : a.WellNamed) : ClassFree a.afterName := by
  obtain ⟨t, ht⟩ := h.exists_superclass
  have hhead : Between "class".toList (a.extendsClause ++ " ".toList) := by
    unfold extendsClause
    rw [← ht, List.append_assoc]
    exact Between.append (by decide) (t.typeText.frontText class_mem_openers).codeText (by decide)
  exact hhead.passed.classFree.withBody
    ((ClassFree.of_not_word (by decide)).append h.classFree_members)

theorem passed_class (h : a.WellNamed) : Passed "package".toList
    ("\npublic abstract ".toList ++ ("class ".toList ++ (a.className.toList ++ a.afterName))) := by
  obtain ⟨i, hi⟩ := h.className
  obtain ⟨t, ht⟩ := h.exists_superclass
  have hk := package_mem_openers
  have hhead : Between "package".toList ("\npublic abstract class ".toList ++ (i.text ++
      (" extends ".toList ++ (t.print ++ " ".toList)))) :=
    Between.append (by decide) (i.codeText hk)
      (Between.append (by decide) (t.typeText.frontText hk).codeText (by decide))
  have hbody : Passed "package".toList ("\n".toList ++ a.members) :=
    (between_of_forall hk (by decide)).passed.append h.passed_members
  -- The keyword of the class stands in the code before the body here: only a package clause is
  -- looked for.
  have hclass := hhead.passed.withBody hbody hk
  unfold afterName extendsClause
  rw [hi, ← ht]
  unfold withBody at hclass ⊢
  simp only [List.append_assoc] at hclass ⊢
  exact hclass

/-- The documentation comment is blanked, and nothing else. -/
theorem mask_companion (h : a.WellNamed) :
    Java.mask a.companion = a.lead.map .keep ++ (a.javadoc.map .blank ++
      ("\npublic abstract ".toList ++ ("class ".toList ++
        (a.className.toList ++ a.afterName))).map .keep) := by
  obtain ⟨d, hd⟩ := h.exists_javadoc
  have hclass := h.passed_class.mask_append []
  rw [List.append_nil] at hclass
  unfold companion
  rw [h.passed_lead.mask_append, ← hd, mask_javadoc_append, hclass]
  simp [Java.mask, Java.maskFrom]

theorem passable_javadoc (a : Attributes) (hk : k ∈ openers) :
    Passable k (a.javadoc.map .blank) [] :=
  passable_of_no_word hk fun _ hg => outer_of_eq (code_blank hg)

theorem findPackage?_companion (h : a.WellNamed) :
    String.ofList ((Java.findPackage? (Java.maskedText (Java.mask a.companion))).getD []) =
      a.packageName := by
  obtain ⟨p, hp, hname⟩ := h.exists_package
  have hk := package_mem_openers
  rw [hname, h.mask_companion]
  unfold lead
  rw [hp]
  rcases p with _ | p
  · have hall := (passed_imports a hk).passable.append
      ((passable_javadoc a hk).append h.passed_class.passable)
    have hskip := hall.findPackage?_append (by simp) none []
    rw [List.append_nil] at hskip
    rw [packageText, Option.elim_none, Option.elim_none, List.nil_append, Java.findPackage?, hskip]
    rfl
  · rw [List.map_append, List.append_assoc, Java.maskedText_append, maskedText_keep,
      findPackage?_packageText]
    rfl

theorem classNames_companion (h : a.WellNamed) (hi : a.className.toList = i.text) :
    ∃ before, (∀ g ∈ before, g.raw ≠ '@') ∧
      Java.classNames (Java.mask a.companion) = [⟨before, i.text, a.afterName.map .keep⟩] := by
  let front := a.lead.map Java.Glyph.keep ++
    (a.javadoc.map .blank ++ "\npublic abstract ".toList.map .keep)
  have hglyphs : Java.mask a.companion = front ++ (classGlyphs i ++ a.afterName.map .keep) := by
    rw [h.mask_companion, hi]
    simp [front, classGlyphs]
  have hfront : ClassFree "\npublic abstract ".toList :=
    (Between.passed (by decide)).classFree
  have hskip (gs : List Java.Glyph) : namesFrom [] (front ++ gs) = namesFrom front.reverse gs := by
    have hlead := h.passed_lead.classFree []
    have hjavadoc := (passable_javadoc a class_mem_openers).namesFrom_append
    simp only [front, List.append_assoc, hlead, hjavadoc, hfront _ gs, List.reverse_append,
      List.append_nil]
  have hraw : front.map Java.Glyph.raw = a.lead ++ (a.javadoc ++ "\npublic abstract ".toList) := by
    have hkeep (s : List Char) : (s.map Java.Glyph.keep).map Java.Glyph.raw = s := by
      simp [Function.comp_def, Java.Glyph.keep]
    simp only [front, List.map_append, Java.map_raw_blank, hkeep]
  have hat : '@' ∉ front.map Java.Glyph.raw := by
    rw [hraw, List.mem_append, List.mem_append, not_or, not_or]
    exact ⟨h.not_mem_lead, h.not_mem_javadoc, by decide⟩
  have hnone :
      namesFrom ((classGlyphs i).reverse ++ front.reverse) (a.afterName.map .keep) = [] := by
    have hfree := h.classFree_afterName ((classGlyphs i).reverse ++ front.reverse) []
    rw [List.append_nil] at hfree
    rw [hfree]
    simp [namesFrom, Java.classNamesFrom]
  obtain ⟨r, hr⟩ : ∃ r, front.reverse = .keep ' ' :: .keep 't' :: r :=
    ⟨("\npublic abstrac".toList.map Java.Glyph.keep).reverse ++
      ((a.javadoc.map .blank).reverse ++ (a.lead.map .keep).reverse), by simp [front]⟩
  have hdot :
      (⟨front.reverse, i.text, a.afterName.map .keep⟩ : Java.ClassName).isLiteral = false := by
    rw [Java.ClassName.isLiteral, hr]
    rfl
  have hspace : ∀ g ∈ (a.afterName.map Java.Glyph.keep).head?, Java.isNameChar g.code = false := by
    obtain ⟨s, hs⟩ : ∃ s, a.afterName = ' ' :: s := ⟨_, rfl⟩
    rw [hs]
    rintro g ⟨⟩
    decide
  refine ⟨front.reverse, fun g hg he => hat ?_, ?_⟩
  · exact List.mem_map.2 ⟨g, List.mem_reverse.1 hg, he⟩
  · change namesFrom [] (Java.mask a.companion) = _
    rw [hglyphs, hskip, namesFrom_classGlyphs i hspace hdot (by rw [hr]; rfl), hnone]

end WellNamed

end Attributes

/-- A companion of well-named attributes is scanned as the one class that they describe. -/
theorem scan_companion (h : a.WellNamed) (source : Option String) :
    Java.scan source (String.ofList a.companion) = .ok [a.declaration source] := by
  obtain ⟨i, hi⟩ := h.className
  obtain ⟨t, ht⟩ := h.exists_superclass
  obtain ⟨before, hat, hnames⟩ := h.classNames_companion hi
  have hk := class_mem_openers
  let head : ClassHead := ⟨none, i, [], some t, []⟩
  have hbody : Java.Balanced '\x7b' '\x7d' 0 ('\n' :: a.members) :=
    (Java.balanced_cons_of_ne (by decide) (by decide)).2 h.passed_members.balanced
  have hafter : Java.maskedText (a.afterName.map .keep) =
      head.tail ++ '\x7b' :: ('\n' :: a.members ++ '\x7d' :: '\n' :: []) := by
    rw [maskedText_keep]
    unfold Attributes.afterName Attributes.extendsClause withBody
    rw [← ht]
    simp [head, ClassHead.tail, ClassHead.clauses, ClassHead.interfaceClause, printTypeParams,
      angled]
  have hconstructors : Java.constructors (String.ofList i.text) [] ('\n' :: a.members) =
      a.repeated.map (ConstructorDescriptor.declared a.className) := by
    obtain ⟨next, hnext⟩ := h.declares_members hi ['\n'] []
    have hend : constructorsFrom i [] next [] = [] := by simp [constructorsFrom, Java.nameCalls]
    rw [List.append_nil, hend, List.append_nil,
      ← constructorsFrom_cons i [] (by decide) (by decide)] at hnext
    rw [← hnext, constructorsFrom, Java.constructors, String.toList_ofList]
    rfl
  -- What the scanner takes for the superclass is all of the clause, up to the brace.
  have hsuperclass : String.ofList t.print = a.superclassText := by
    rw [ht, ← Attributes.toList_superclassText h.partnerClass, String.ofList_toList]
  have hread := read_headed ((Java.findPackage? (Java.maskedText (Java.mask a.companion))).getD [])
    source head hbody before hafter
  have hdeclaration : headedDeclaration
      ((Java.findPackage? (Java.maskedText (Java.mask a.companion))).getD []) source head before
        ('\n' :: a.members) = a.declaration source := by
    have hname : String.ofList i.text = a.className := by rw [← hi, String.ofList_toList]
    have hscope : head.scope = [] := rfl
    rw [hname] at hconstructors
    simp only [headedDeclaration, h.findPackage?_companion, scannedTags_eq_nil hat, hscope,
      List.map_nil, hconstructors, head, Option.map_some, typeRef, hsuperclass, hname,
      Attributes.declaration]
    simp
  rw [Java.scan, String.toList_ofList, Java.findings]
  simp only [hnames, List.map_cons, List.map_nil]
  rw [hread, hdeclaration]
  rfl

/-- What the standard templates render from well-named attributes is scanned as the one class that
they describe. -/
theorem scan_render (h : a.WellNamed) (source : Option String) :
    ∃ templates text, (∀ w, Templates.load none w = .ok templates w) ∧
      templates.render a = .ok text ∧ Java.scan source text = .ok [a.declaration source] :=
  ⟨.standard, String.ofList a.companion, load_none, render_standard a, scan_companion h source⟩

def accessorNamed : Attributes where
  variant := .request
  packageName := "com.rpc"
  className := "getResponseClass"
  subclassName := "Foo"
  eventName := "Foo"
  constructors := []
  superClass := "com.rpc.Request"
  superclassConstructors := [⟨"Request", [⟨"java.util.List<? extends T>[]...", "args"⟩]⟩]
  partnerClass := some "FooResponse"

theorem accessorNamed_wellNamed : accessorNamed.WellNamed := by
  let com : Ident := ⟨"com".toList, by decide, by decide, by decide⟩
  let rpc : Ident := ⟨"rpc".toList, by decide, by decide, by decide⟩
  let request : Ident := ⟨"Request".toList, by decide, by decide, by decide⟩
  let java : Ident := ⟨"java".toList, by decide, by decide, by decide⟩
  let util : Ident := ⟨"util".toList, by decide, by decide, by decide⟩
  let list : Ident := ⟨"List".toList, by decide, by decide, by decide⟩
  let var : Ident := ⟨"T".toList, by decide, by decide, by decide⟩
  let args : Ident := ⟨"args".toList, by decide, by decide, by decide⟩
  let listType : ClassType := .member (.member (.simple java .nil) util .nil) list
    (.cons (.upper (.named (.simple var .nil))) .nil)
  refine ⟨.inr ⟨⟨com, [rpc]⟩, by rfl⟩, by decide, by decide, by decide,
    ⟨⟨com, [rpc, request]⟩, by rfl⟩, by decide, fun c hc => ?_⟩
  obtain rfl := List.mem_singleton.1 hc
  exact ⟨[⟨.array (.named listType), true, args⟩], by rfl⟩

theorem scan_render_accessorNamed : accessorNamed.WellNamed ∧
    ∃ templates text, (∀ w, Templates.load none w = .ok templates w) ∧
      templates.render accessorNamed = .ok text ∧
        Java.scan none text = .ok [accessorNamed.declaration none] :=
  ⟨accessorNamed_wellNamed, scan_render accessorNamed_wellNamed none⟩

end Companion
