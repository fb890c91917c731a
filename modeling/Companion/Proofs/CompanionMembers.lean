import Companion.Proofs.PassedText

/-!
# Members of companions

Attributes that are made of names and parameters (`Attributes.WellNamed`) give a companion whose
members hold no class and no package clause (`classFree_members`, `passed_members`) and declare the
repeated constructors alone (`declares_members`), whatever the names are.
-/

namespace Companion

open Java.Syntax
open Unicode (isBlank isWordChar)

def IsIdent (s : String) : Prop :=
  ∃ i : Ident, s.toList = i.text

theorem isIdent_iff {s : String} : IsIdent s ↔
    s.toList.head?.any isLetter ∧ s.toList.all isLetterOrDigit ∧
      keywords.contains s.toList = false := by
  rw [← Bool.not_eq_true, List.contains_iff_mem]
  constructor
  · rintro ⟨i, hi⟩
    rw [hi]
    exact ⟨i.start, i.chars, i.free⟩
  · rintro ⟨hstart, hchars, hfree⟩
    exact ⟨⟨s.toList, hstart, hchars, hfree⟩, rfl⟩

instance (s : String) : Decidable (IsIdent s) :=
  decidable_of_iff' _ isIdent_iff

/-- The text is identifiers with dots between them. -/
def IsDottedName (s : String) : Prop :=
  ∃ n : DottedName, s.toList = n.print

def Java.Syntax.Param.argument (p : Param) : Argument where
  type := String.ofList p.typeText
  name := String.ofList p.name.text

/-- What a repeated constructor declares. -/
def ConstructorDescriptor.declared (className : String) (c : ConstructorDescriptor) :
    Constructor where
  name := className
  params := c.args.map fun x => ⟨x.name, ⟨x.type, true⟩⟩

namespace Attributes

def repeated (a : Attributes) : List ConstructorDescriptor :=
  match a.variant with
  | .event => a.constructors
  | _ => a.superclassConstructors

/-- The attributes are names, and the arguments of the repeated constructors are parameters. -/
structure WellNamed (a : Attributes) : Prop where
  packageName : a.packageName = "" ∨ IsDottedName a.packageName
  className : IsIdent a.className
  subclassName : IsIdent a.subclassName
  eventName : ∀ c ∈ a.eventName.toList, isLetterOrDigit c
  superClass : IsDottedName a.superClass
  partnerClass : ∀ p ∈ a.partnerClass, IsIdent p
  args : ∀ c ∈ a.repeated, ∃ ps : List Param, c.args = ps.map Param.argument

def superclassText (a : Attributes) : String :=
  a.superClass ++ match a.variant, a.partnerClass with
    | .event, _ => "<" ++ a.className ++ ".Handler>"
    | _, some partner => "<" ++ partner ++ ">"
    | _, none => ""

def declaration (a : Attributes) (source : Option String) : Declaration where
  package := a.packageName
  name := a.className
  superclass := some ⟨a.superclassText, true⟩
  typeParameters := []
  tags := []
  constructors := a.repeated.map (ConstructorDescriptor.declared a.className)
  source := source

end Attributes

variable {a : Attributes} {k s t u : List Char} {i : Ident} {c : ConstructorDescriptor}
  {className : String} {ps : List Param}

theorem Java.Syntax.Ident.codeText (i : Ident) (hk : k ∈ openers) : CodeText k i.text :=
  (i.frontText hk).codeText

/-- The name of the method of a handler is none of the words that the scanner looks for. -/
theorem codeText_on (hk : k ∈ openers) (hs : ∀ c ∈ s, isLetterOrDigit c) :
    CodeText k ("on".toList ++ s) := by
  have hall : ∀ k ∈ openers, k.head? ≠ some 'o' := by decide
  refine (frontText_word (List.forall_mem_append.2 ⟨by decide, hs⟩) ?_).codeText
  rintro rfl
  exact hall _ hk rfl

theorem map_print_argument (h : c.args = ps.map Param.argument) :
    c.args.map Argument.print = ps.map Param.print ∧
      c.args.map (·.name.toList) = ps.map (·.name.text) := by
  rw [h, List.map_map, List.map_map]
  constructor <;>
  · refine List.map_congr_left fun p _ => ?_
    simp [Param.argument, Argument.print, Param.print]

/-- A constant of the templates between names. -/
theorem between_of_forall (hk : k ∈ openers) (h : ∀ k ∈ openers, Between k s) : Between k s :=
  h k hk

theorem passed_superCall (hk : k ∈ openers) (h : c.args = ps.map Param.argument) :
    Passed k c.superCall := by
  have hnames : ∀ s ∈ ps.map (·.name.text), TypeText s := by
    intro s hs
    obtain ⟨p, -, rfl⟩ := List.mem_map.1 hs
    exact p.name.typeText
  unfold ConstructorDescriptor.superCall
  rw [(map_print_argument h).2]
  exact ((between_of_forall hk (by decide)).append (frontText_listed hk hnames).codeText
    (between_of_forall hk (by decide))).passed

theorem passed_constructor (hk : k ∈ openers) (hi : className.toList = i.text)
    (h : c.args = ps.map Param.argument) (hs : Passed k s) : Passed k (c.print className s) := by
  have hhead : Between k ("\n\tprotected ".toList ++ (i.text ++ ("(".toList ++
      (Java.Syntax.listed (ps.map Param.print) ++ ") ".toList)))) :=
    (between_of_forall hk (by decide)).append (i.codeText hk)
      ((between_of_forall hk (by decide)).append (frontText_listed hk (typeText_params ps)).codeText
        (between_of_forall hk (by decide)))
  unfold ConstructorDescriptor.print
  rw [hi, (map_print_argument h).1]
  exact hhead.passed.withBody ((between_of_forall hk (by decide)).passed.append
    (hs.append (between_of_forall hk (by decide)).passed)) hk

namespace Attributes

theorem repeated_event (hv : a.variant = .event) : a.repeated = a.constructors := by
  rw [repeated, hv]

theorem repeated_of_ne (hv : a.variant ≠ .event) : a.repeated = a.superclassConstructors := by
  unfold repeated
  cases hvariant : a.variant with
  | event => exact absurd hvariant hv
  | _ => rfl

theorem members_of_ne (hv : a.variant ≠ .event) : a.members = a.messageMembers := by
  unfold members
  cases hvariant : a.variant with
  | event => exact absurd hvariant hv
  | _ => rfl

theorem partner?_eq (hp : ∀ p ∈ a.partnerClass, IsIdent p) (hv : a.variant ≠ .event) :
    a.partner? = a.partnerClass := by
  rw [a.partner?_of_ne hv]
  rcases hclass : a.partnerClass with _ | p
  · rfl
  · obtain ⟨i, hi⟩ := hp p hclass
    refine if_pos ?_
    rw [Bool.not_eq_true', ← Bool.not_eq_true, String.isEmpty_iff]
    rintro rfl
    exact i.ne_nil hi.symm

theorem isLetterOrDigit_accessorName (v : Variant) :
    ∀ c ∈ (accessorName v).toList, isLetterOrDigit c := by
  cases v <;> decide

namespace WellNamed

/-- The method of a handler, declared or called. -/
theorem passed_on (h : a.WellNamed) (hk : k ∈ openers) (hs : Between k s) (ht : Between k t)
    (hu : Between k u) : Passed k (s ++ ("on".toList ++ (a.eventName.toList ++
      (t ++ (a.subclassName.toList ++ u))))) := by
  obtain ⟨i, hi⟩ := h.subclassName
  have hcode := hs.append (codeText_on hk h.eventName) (ht.append (i.codeText hk) hu)
  rw [hi]
  simpa only [List.append_assoc] using hcode.passed

theorem passed_handlerMethod (h : a.WellNamed) (hk : k ∈ openers) : Passed k a.handlerMethod := by
  unfold handlerMethod
  exact h.passed_on hk (between_of_forall hk (by decide)) (between_of_forall hk (by decide))
    (between_of_forall hk (by decide))

theorem passed_dispatchCall (h : a.WellNamed) (hk : k ∈ openers) : Passed k a.dispatchCall := by
  unfold dispatchCall
  exact h.passed_on hk (between_of_forall hk (by decide)) (between_of_forall hk (by decide))
    (between_of_forall hk (by decide))

theorem passed_repeated (h : a.WellNamed) (hk : k ∈ openers)
    {body : ConstructorDescriptor → List Char}
    (hbody : ∀ c ps, c.args = List.map Param.argument ps → Passed k (body c)) :
    Passed k (a.repeated.flatMap fun c => c.print a.className (body c)) := by
  obtain ⟨i, hi⟩ := h.className
  refine Passed.flatMap hk _ fun c hc => ?_
  obtain ⟨ps, hps⟩ := h.args c hc
  exact passed_constructor hk hi hps (hbody c ps hps)

theorem passed_eventMembers (h : a.WellNamed) (hv : a.variant = .event) (hk : k ∈ openers) :
    Passed k a.eventMembers := by
  have hword {w : List Char} (hw : ∀ c ∈ w, isLetterOrDigit c) (hne : w ∉ openers) :
      CodeText k w := (frontText_word hw fun he => hne (he ▸ hk)).codeText
  have hfield : Passed k
      ("\n\tpublic static final GwtEvent.Type<Handler> TYPE = new GwtEvent.Type<Handler>".toList ++
        "();\n".toList) :=
    (between_of_forall hk (by decide +kernel)).passed.append
      (between_of_forall hk (by decide)).passed
  have hconstructors : Passed k
      (a.constructors.flatMap (ConstructorDescriptor.print a.className [])) := by
    rw [← repeated_event hv]
    exact h.passed_repeated hk fun _ _ _ => passed_nil hk
  have htype : Between k ("\n\t@Override\n\tpublic final GwtEvent.Type<Handler> ".toList ++
      ("getAssociatedType".toList ++ "() ".toList)) :=
    (between_of_forall hk (by decide)).append (hword (by decide) (by decide))
      (between_of_forall hk (by decide))
  have hdispatch : Between k ("\n\t@Override\n\tprotected final void ".toList ++
      ("dispatch".toList ++ "(Handler handler) ".toList)) :=
    (between_of_forall hk (by decide)).append (hword (by decide) (by decide))
      (between_of_forall hk (by decide))
  have hinterface := (between_of_forall hk
    (s := "\n\tpublic interface Handler extends EventHandler ".toList) (by decide)).passed
  have hreturn := (between_of_forall hk (s := "\n\t\treturn TYPE;\n\t".toList) (by decide)).passed
  exact (hinterface.withBody (h.passed_handlerMethod hk) hk).append (hfield.append
    (hconstructors.append ((htype.passed.withBody hreturn hk).append
      (hdispatch.passed.withBody (h.passed_dispatchCall hk) hk))))

theorem passed_superclassConstructors (h : a.WellNamed) (hv : a.variant ≠ .event)
    (hk : k ∈ openers) :
    Passed k (a.superclassConstructors.flatMap fun c => c.print a.className c.superCall) := by
  rw [← repeated_of_ne hv]
  exact h.passed_repeated hk fun _ _ hps => passed_superCall hk hps

theorem between_accessor {p : String} (hi : p.toList = i.text) (hk : k ∈ openers) :
    Between k ("\n\tpublic Class<".toList ++ (p.toList ++ ("> ".toList ++
      ((accessorName a.variant).toList ++ "() ".toList)))) := by
  have hname : CodeText k (accessorName a.variant).toList := by
    have hall : ∀ v, (accessorName v).toList ∉ openers := by
      intro v
      cases v <;> decide
    exact (frontText_word (isLetterOrDigit_accessorName _) fun he => hall _ (he ▸ hk)).codeText
  rw [hi]
  exact (between_of_forall hk (by decide)).append (i.codeText hk)
    ((between_of_forall hk (by decide)).append hname (between_of_forall hk (by decide)))

theorem package_mem_openers : "package".toList ∈ openers := by decide

theorem passed_accessorBody {p : String} (hi : p.toList = i.text) : Passed "package".toList
    ("\n\t\treturn ".toList ++ (p.toList ++ (".".toList ++ "class;\n\t".toList))) := by
  have hcode : Between "package".toList
      ("\n\t\treturn ".toList ++ (i.text ++ (".".toList ++ "class;\n\t".toList))) :=
    Between.append (by decide) (i.codeText package_mem_openers) (by decide)
  rw [hi]
  exact hcode.passed

/-- No package clause stands among the members, and their braces match. -/
theorem passed_members (h : a.WellNamed) : Passed "package".toList a.members := by
  have hk := package_mem_openers
  by_cases hv : a.variant = .event
  · unfold members
    rw [hv]
    exact h.passed_eventMembers hv hk
  · rw [members_of_ne hv, messageMembers, partner?_eq h.partnerClass hv]
    refine (h.passed_superclassConstructors hv hk).append ?_
    rcases hp : a.partnerClass with _ | p
    · exact passed_nil hk
    · obtain ⟨i, hi⟩ := h.partnerClass p hp
      exact (between_accessor hi hk).passed.withBody (passed_accessorBody hi) hk

theorem classFree_members (h : a.WellNamed) : ClassFree a.members := by
  have hk := class_mem_openers
  by_cases hv : a.variant = .event
  · unfold members
    rw [hv]
    exact (h.passed_eventMembers hv hk).classFree
  · rw [members_of_ne hv, messageMembers, partner?_eq h.partnerClass hv]
    refine (h.passed_superclassConstructors hv hk).classFree.append ?_
    rcases hp : a.partnerClass with _ | p
    · exact (passed_nil hk).classFree
    · obtain ⟨i, hi⟩ := h.partnerClass p hp
      have hreturn : Between "class".toList
          ("\n\t\treturn ".toList ++ (p.toList ++ ".".toList)) := by
        rw [hi]
        exact Between.append (by decide) (i.codeText hk) (by decide)
      have hend : ClassFree "\n\t".toList := .of_not_word (by decide)
      have hbody := hreturn.passed.classFree.append (classFree_literal.append hend)
      rw [List.append_assoc, List.append_assoc] at hbody
      exact (between_accessor hi hk).passed.classFree.withBody hbody

theorem declares_print (hi : className.toList = i.text) (h : c.args = ps.map Param.argument)
    (hs : Passed k s) (hk : k ∈ openers) :
    Declares i (c.print className s) [c.declared className] := by
  have hbody : Passed k ("\n".toList ++ (s ++ "\t".toList)) :=
    (between_of_forall hk (by decide)).passed.append
      (hs.append (between_of_forall hk (by decide)).passed)
  have hconstructor : c.declared className =
      ⟨String.ofList i.text, ps.map (Param.parameter [])⟩ := by
    rw [ConstructorDescriptor.declared, ← hi, String.ofList_toList, h, List.map_map]
    simp [Param.argument, Param.parameter, typeRef, Function.comp_def]
  unfold ConstructorDescriptor.print
  rw [hi, (map_print_argument h).1, hconstructor]
  exact declares_constructor ps hbody.balanced

theorem declares_repeated (h : a.WellNamed) (hi : a.className.toList = i.text) (hk : k ∈ openers)
    {body : ConstructorDescriptor → List Char}
    (hbody : ∀ c ps, c.args = List.map Param.argument ps → Passed k (body c)) :
    Declares i (a.repeated.flatMap fun c => c.print a.className (body c))
      (a.repeated.map (ConstructorDescriptor.declared a.className)) := by
  refine Declares.flatMap _ fun c hc => ?_
  obtain ⟨ps, hps⟩ := h.args c hc
  exact declares_print hi hps (hbody c ps hps) hk

theorem declares_eventMembers (h : a.WellNamed) (hv : a.variant = .event)
    (hi : a.className.toList = i.text) : Declares i a.eventMembers
      (a.constructors.map (ConstructorDescriptor.declared a.className)) := by
  have hk := class_mem_openers
  have hinterface : Declares i (withBody
      "\n\tpublic interface Handler extends EventHandler ".toList a.handlerMethod) [] :=
    .withBody (by decide) (by decide) (h.passed_handlerMethod hk).balanced
  have hfield : Declares i
      ("\n\tpublic static final GwtEvent.Type<Handler> TYPE = new GwtEvent.Type<Handler>".toList ++
        "();\n".toList) [] := declares_statement (by decide +kernel) (by decide +kernel)
  have hconstructors : Declares i
      (a.constructors.flatMap (ConstructorDescriptor.print a.className []))
      (a.constructors.map (ConstructorDescriptor.declared a.className)) := by
    rw [← repeated_event hv]
    exact h.declares_repeated hi hk fun _ _ _ => passed_nil hk
  have htype : Declares i
      (withBody ("\n\t@Override\n\tpublic final GwtEvent.Type<Handler> ".toList ++
        ("getAssociatedType".toList ++ "() ".toList)) "\n\t\treturn TYPE;\n\t".toList) [] := by
    have hresult : EndsResult ("GwtEvent.".toList ++ ("Type".toList ++ '<' ::
        ("Handler".toList ++ ['>']))) :=
      .angle (by decide) (by decide) (by decide) (by decide)
        (Java.balanced_of_not_mem (by decide) (by decide))
    exact declares_method "\n\t@Override\n\tpublic final ".toList _ "getAssociatedType".toList
      ") ".toList (by decide +kernel) (by decide) (by decide) (by decide) hresult (by decide)
      (by decide) (by decide) (by decide) (Java.balanced_of_not_mem (by decide) (by decide))
  have hdispatch : Declares i
      (withBody ("\n\t@Override\n\tprotected final void ".toList ++
        ("dispatch".toList ++ "(Handler handler) ".toList)) a.dispatchCall) [] := by
    have hresult : EndsResult ([] ++ "void".toList) :=
      .word (by decide) (by decide) (by decide) (by decide)
    exact declares_method "\n\t@Override\n\tprotected final ".toList _ "dispatch".toList
      "Handler handler) ".toList (by decide +kernel) (by decide) (by decide) (by decide) hresult
      (by decide) (by decide) (by decide) (by decide) (h.passed_dispatchCall hk).balanced
  have hall := hinterface.append (hfield.append (hconstructors.append (htype.append hdispatch)))
  simp only [List.nil_append, List.append_nil] at hall
  exact hall

theorem declares_messageMembers (h : a.WellNamed) (hv : a.variant ≠ .event)
    (hi : a.className.toList = i.text) : Declares i a.messageMembers
      (a.superclassConstructors.map (ConstructorDescriptor.declared a.className)) := by
  have hk := class_mem_openers
  have hconstructors : Declares i
      (a.superclassConstructors.flatMap fun c => c.print a.className c.superCall)
      (a.superclassConstructors.map (ConstructorDescriptor.declared a.className)) := by
    rw [← repeated_of_ne hv]
    exact h.declares_repeated hi hk fun _ _ hps => passed_superCall hk hps
  have hpartner : Declares i (a.partner?.elim [] a.partnerMethod) [] := by
    rw [partner?_eq h.partnerClass hv]
    rcases hp : a.partnerClass with _ | p
    · exact fun before rest => ⟨before, rfl⟩
    · obtain ⟨j, hj⟩ := h.partnerClass p hp
      have hangle : ∀ z ∈ ['<', '>'], z ∉ j.text := fun z hz hmem => by
        have hletters : ∀ z ∈ ['<', '>'], isLetterOrDigit z = false := by decide
        exact absurd (j.isLetterOrDigit z hmem) (by simp [hletters z hz])
      have hresult : EndsResult ([] ++ ("Class".toList ++ '<' :: (j.text ++ ['>']))) :=
        .angle (by decide) (by decide) (by decide) (by decide)
          (Java.balanced_of_not_mem (hangle '<' (by decide)) (hangle '>' (by decide)))
      have hfront : ∀ c ∈ "\n\tpublic ".toList ++
          ([] ++ ("Class".toList ++ '<' :: (j.text ++ ['>']))), c ∉ ['(', '\x7b', '\x7d'] := by
        have hj := (j.frontText hk).not_bracket
        simp only [List.nil_append, List.forall_mem_append, List.forall_mem_cons]
        exact ⟨by decide, by decide, by decide, hj, by decide, by simp⟩
      have hbody := (passed_accessorBody hj).balanced
      unfold Option.elim partnerMethod
      refine declares_method "\n\tpublic ".toList _ (accessorName a.variant).toList ") ".toList ?_
        hfront (by decide) (by decide) hresult (isLetterOrDigit_accessorName _) ?_ (by decide)
        (by decide) hbody
      · rw [hj]
        simp
      · cases a.variant <;> decide
  have hall := hconstructors.append hpartner
  rwa [List.append_nil] at hall

theorem declares_members (h : a.WellNamed) (hi : a.className.toList = i.text) :
    Declares i a.members (a.repeated.map (ConstructorDescriptor.declared a.className)) := by
  by_cases hv : a.variant = .event
  · unfold members repeated
    rw [hv]
    exact h.declares_eventMembers hv hi
  · rw [members_of_ne hv, repeated_of_ne hv]
    exact h.declares_messageMembers hv hi

end WellNamed

end Attributes

end Companion
