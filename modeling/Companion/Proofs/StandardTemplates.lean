import Companion.Proofs.Outlines

/-!
# What the standard templates write

The standard templates are outlines (`ofText?_standardText`), so the text of a companion is known
for all attributes (`render_standard`), and no attributes make them fail.
-/

namespace Companion

/-- A member or a class: what stands before its body, and its body in braces. -/
def withBody (head body : List Char) : List Char :=
  head ++ ("\x7b".toList ++ (body ++ "\x7d\n".toList))

def Argument.print (a : Argument) : List Char :=
  a.type.toList ++ ' ' :: a.name.toList

/-- A repeated constructor, with the statements of its body. -/
def ConstructorDescriptor.print (className : String) (statements : List Char)
    (c : ConstructorDescriptor) : List Char :=
  withBody ("\n\tprotected ".toList ++ (className.toList ++ ("(".toList ++
      (Java.Syntax.listed (c.args.map Argument.print) ++ ") ".toList))))
    ("\n".toList ++ (statements ++ "\t".toList))

def ConstructorDescriptor.superCall (c : ConstructorDescriptor) : List Char :=
  "\t\tsuper(".toList ++ (Java.Syntax.listed (c.args.map (·.name.toList)) ++ ");\n".toList)

namespace Attributes

variable (a : Attributes)

/-- The partner of a request or a response, if it has one with a name. -/
def partner? : Option String :=
  match a.variant with
  | .event => none
  | _ => a.partnerClass.filter fun p => !p.isEmpty

theorem partner?_of_ne (hv : a.variant ≠ .event) :
    a.partner? = a.partnerClass.filter fun p => !p.isEmpty := by
  unfold partner?
  cases hvariant : a.variant with
  | event => exact absurd hvariant hv
  | _ => rfl

def packageClause : List Char :=
  if a.packageName.isEmpty then [] else "package ".toList ++ (a.packageName.toList ++ ";\n".toList)

def imports : List Char :=
  match a.variant with
  | .event => "\nimport com.google.gwt.event.shared.EventHandler;\n".toList ++
      "import com.google.gwt.event.shared.GwtEvent;\n".toList
  | _ => []

/-- The documentation comment, without the marks around it. -/
def comment : List Char :=
  "\n * Generated base class of ".toList ++ (a.subclassName.toList ++ ". Do not edit.\n ".toList)

def javadoc : List Char :=
  "/**".toList ++ (a.comment ++ "*/".toList)

def typeArgument : List Char :=
  match a.variant with
  | .event => "<".toList ++ (a.className.toList ++ ".Handler>".toList)
  | _ => a.partner?.elim [] fun p => "<".toList ++ (p.toList ++ ">".toList)

def extendsClause : List Char :=
  " extends ".toList ++ (a.superClass.toList ++ a.typeArgument)

/-- The method of the interface of the handlers of an event. -/
def handlerMethod : List Char :=
  "\n\t\tvoid ".toList ++ ("on".toList ++ (a.eventName.toList ++ ("(".toList ++
    (a.subclassName.toList ++ " event);\n\t".toList))))

/-- What the method that dispatches an event does. -/
def dispatchCall : List Char :=
  "\n\t\thandler.".toList ++ ("on".toList ++ (a.eventName.toList ++ ("((".toList ++
    (a.subclassName.toList ++ ") this);\n\t".toList))))

def eventMembers : List Char :=
  withBody "\n\tpublic interface Handler extends EventHandler ".toList a.handlerMethod ++
  ("\n\tpublic static final GwtEvent.Type<Handler> TYPE = new GwtEvent.Type<Handler>".toList ++
    "();\n".toList ++
  (a.constructors.flatMap (ConstructorDescriptor.print a.className []) ++
  (withBody ("\n\t@Override\n\tpublic final GwtEvent.Type<Handler> ".toList ++
    ("getAssociatedType".toList ++ "() ".toList)) "\n\t\treturn TYPE;\n\t".toList ++
  withBody ("\n\t@Override\n\tprotected final void ".toList ++
    ("dispatch".toList ++ "(Handler handler) ".toList)) a.dispatchCall)))

/-- The name of the method for the class of the partner. -/
def accessorName : Variant → String
  | .response => "getRequestClass"
  | _ => "getResponseClass"

def partnerMethod (partner : String) : List Char :=
  withBody ("\n\tpublic Class<".toList ++ (partner.toList ++ ("> ".toList ++
    ((accessorName a.variant).toList ++ "() ".toList))))
    ("\n\t\treturn ".toList ++ (partner.toList ++ (".".toList ++ "class;\n\t".toList)))

def messageMembers : List Char :=
  (a.superclassConstructors.flatMap fun c => c.print a.className c.superCall) ++
    a.partner?.elim [] a.partnerMethod

def members : List Char :=
  match a.variant with
  | .event => a.eventMembers
  | _ => a.messageMembers

def lead : List Char :=
  a.packageClause ++ (a.imports ++ "\n".toList)

def afterName : List Char :=
  withBody (a.extendsClause ++ " ".toList) ("\n".toList ++ a.members)

def companion : List Char :=
  a.lead ++ (a.javadoc ++ ("\npublic abstract ".toList ++ ("class ".toList ++
    (a.className.toList ++ a.afterName))))

end Attributes

namespace Template

def packageOutline (next : Outline) : Outline :=
  .block "if" (here "packageName")
    (.text "package " (.value (here "packageName") (.text ";\n" .done))) next

/-- A list of the arguments with commas between them. -/
def listOutline (item next : Outline) : Outline :=
  .block "each" (here "args") (.block "unless" isFirst (.text ", " .done) item) next

/-- The constructors of that member, with bodies. -/
def constructorsOutline (member : String) (body next : Outline) : Outline :=
  .block "each" (here member) (.text "\n\tprotected " (.value (outer "className") (.text "("
    (listOutline (.value (here "type") (.text " " (.value (here "name") .done))) body)))) next

def eventOutline : Outline :=
  packageOutline
    (.text ("\nimport com.google.gwt.event.shared.EventHandler;\n" ++
      "import com.google.gwt.event.shared.GwtEvent;\n" ++ "\n" ++ "/**" ++
      "\n * Generated base class of ")
    (.value (here "subclassName")
    (.text (". Do not edit.\n " ++ "*/" ++ "\npublic abstract " ++ "class ")
    (.value (here "className")
    (.text " extends "
    (.value (here "superClass")
    (.text "<"
    (.value (here "className")
    (.text (".Handler>" ++ " " ++ "\x7b" ++ "\n" ++
      "\n\tpublic interface Handler extends EventHandler " ++ "\x7b" ++ "\n\t\tvoid " ++ "on")
    (.value (here "eventName")
    (.text "("
    (.value (here "subclassName")
    (.text (" event);\n\t" ++ "\x7d\n" ++
      "\n\tpublic static final GwtEvent.Type<Handler> TYPE = new GwtEvent.Type<Handler>" ++ "();\n")
    (constructorsOutline "constructors"
      (.text (") " ++ "\x7b" ++ "\n" ++ "\t" ++ "\x7d\n") .done)
    (.text ("\n\t@Override\n\tpublic final GwtEvent.Type<Handler> " ++ "getAssociatedType" ++
      "() " ++ "\x7b" ++ "\n\t\treturn TYPE;\n\t" ++ "\x7d\n" ++
      "\n\t@Override\n\tprotected final void " ++ "dispatch" ++ "(Handler handler) " ++ "\x7b" ++
      "\n\t\thandler." ++ "on")
    (.value (here "eventName")
    (.text "(("
    (.value (here "subclassName")
    (.text (") this);\n\t" ++ "\x7d\n" ++ "\x7d\n") .done)))))))))))))))))))

def messageOutline (accessor : String) : Outline :=
  packageOutline
    (.text ("\n" ++ "/**" ++ "\n * Generated base class of ")
    (.value (here "subclassName")
    (.text (". Do not edit.\n " ++ "*/" ++ "\npublic abstract " ++ "class ")
    (.value (here "className")
    (.text " extends "
    (.value (here "superClass")
    (.block "if" (here "partnerClass")
      (.text "<" (.value (here "partnerClass") (.text ">" .done)))
    (.text (" " ++ "\x7b" ++ "\n")
    (constructorsOutline "superclassConstructors"
      (.text (") " ++ "\x7b" ++ "\n" ++ "\t\tsuper(") (listOutline (.value (here "name") .done)
        (.text (");\n" ++ "\t" ++ "\x7d\n") .done)))
    (.text ""
    (.block "if" (here "partnerClass")
      (.text "\n\tpublic Class<" (.value (here "partnerClass")
        (.text ("> " ++ accessor ++ "() " ++ "\x7b" ++ "\n\t\treturn ")
          (.value (here "partnerClass") (.text ("." ++ "class;\n\t" ++ "\x7d\n") .done)))))
    (.text "\x7d\n" .done))))))))))))

def standardOutline : Variant → Outline
  | .event => eventOutline
  | .request => messageOutline "getResponseClass"
  | .response => messageOutline "getRequestClass"

theorem ofText?_eventText : Node.ofText? eventText = some eventOutline.nodes := by
  refine ofText?_eq ?_
  simp only [Node.ofText?, eventText, ofLines, packageLines, commentLines, parameterList,
    List.cons_append, List.nil_append, String.toList_ofList, List.flatMap_cons, List.flatMap_nil,
    String.toList_append, String.reduceToList]
  decide +kernel

theorem ofText?_messageText {accessor : String}
    (h : accessor = "getResponseClass" ∨ accessor = "getRequestClass") :
    Node.ofText? (messageText accessor) = some (messageOutline accessor).nodes := by
  refine ofText?_eq ?_
  rcases h with rfl | rfl <;>
  · simp only [Node.ofText?, messageText, ofLines, packageLines, commentLines, parameterList,
      argumentList, List.cons_append, List.nil_append, String.toList_ofList, List.flatMap_cons,
      List.flatMap_nil, String.toList_append, String.reduceToList]
    decide +kernel

theorem ofText?_standardText (v : Variant) :
    Node.ofText? (standardText v) = some (standardOutline v).nodes := by
  cases v with
  | event => exact ofText?_eventText
  | request => exact ofText?_messageText (.inl rfl)
  | response => exact ofText?_messageText (.inr rfl)

variable {include? : String → Scope → Except Fault String} {scope : Scope} {o next body : Outline}
  {t u : List Char} {members : List (String × Json.Value)} {member : String}

def argumentValue (a : Argument) : Json.Value :=
  .object [("type", .string a.type), ("name", .string a.name)]

/-- A list of the arguments of a constructor, in a block of that constructor. -/
theorem Renders.list {item : Outline} {f : Argument → List Char} {c : ConstructorDescriptor}
    (hb : scope.Unbound) (hv : scope.valueAt 0 = c.toJson)
    (hitem : ∀ a ∈ c.args, ∀ inner : Scope, inner.Unbound → inner.valueAt 0 = argumentValue a →
      Renders include? inner item (f a))
    (hnext : Renders include? scope next u) :
    Renders include? scope (listOutline item next) (Java.Syntax.listed (c.args.map f) ++ u) := by
  rw [← itemsText_listed]
  have hargs : Leads scope (here "args") (some (.array (c.args.map argumentValue))) :=
    leads_here hb hv
  refine Renders.each hargs (fun a ha key first last => ?_) hnext
  have hinner := hitem a ha _ (hb.enter "index" key (argumentValue a) first last) rfl
  cases first with
  | true => exact Renders.skip ofName?_unless (leads_isFirst ..) rfl hinner
  | false =>
    exact Renders.condition ofName?_unless (leads_isFirst ..) (by decide)
      (Renders.text ", " renders_done) hinner

theorem renders_type {a : Argument} (hb : scope.Unbound) (hv : scope.valueAt 0 = argumentValue a)
    (h : Renders include? scope next t) :
    Renders include? scope (.value (here "type") next) (a.type.toList ++ t) :=
  Renders.value (leads_here hb hv) rfl h

theorem renders_name {a : Argument} (hb : scope.Unbound) (hv : scope.valueAt 0 = argumentValue a)
    (h : Renders include? scope next t) :
    Renders include? scope (.value (here "name") next) (a.name.toList ++ t) :=
  Renders.value (leads_here hb hv) rfl h

theorem Renders.constructors {className : String} {cs : List ConstructorDescriptor}
    {b : ConstructorDescriptor → List Char}
    (hcs : members.lookup member = some (.array (cs.map ConstructorDescriptor.toJson)))
    (hname : members.lookup "className" = some (.string className))
    (hbody : ∀ c ∈ cs, ∀ inner : Scope, inner.Unbound → inner.valueAt 0 = c.toJson →
      Renders include? inner body (") ".toList ++ ("\x7b".toList ++ ("\n".toList ++ (b c ++
        ("\t".toList ++ "\x7d\n".toList))))))
    (hnext : Renders include? (.ofValue (.object members)) next u) :
    Renders include? (.ofValue (.object members)) (constructorsOutline member body next)
      (cs.flatMap (fun c => c.print className (b c)) ++ u) := by
  have hb := unbound_ofValue (.object members)
  have hlist : Leads (.ofValue (.object members)) (here member)
      (some (.array (cs.map ConstructorDescriptor.toJson))) := hcs ▸ leads_here hb rfl
  rw [← itemsText_const]
  refine Renders.each hlist (fun c hc key first last => ?_) hnext
  have hinner := hb.enter "index" key c.toJson first last
  have hclass : Leads ((Scope.ofValue (.object members)).enter
      (itemBlock [] "index" key c.toJson first last)) (outer "className")
      (some (.string className)) := hname ▸ leads_outer hinner rfl
  unfold ConstructorDescriptor.print withBody
  simp only [List.append_assoc]
  refine Renders.text _ (Renders.value hclass rfl (Renders.text _ ?_))
  refine Renders.list (f := Argument.print) hinner rfl (fun x hx inner hb hv => ?_)
    (hbody c hc _ hinner rfl)
  have h : Renders include? inner _ _ :=
    renders_type hb hv (Renders.text " " (renders_name hb hv renders_done))
  simpa [Argument.print] using h

/-- The members of the attributes that every template sees. -/
structure Shows (a : Attributes) (members : List (String × Json.Value)) : Prop where
  packageName : members.lookup "packageName" = some (.string a.packageName)
  className : members.lookup "className" = some (.string a.className)
  subclassName : members.lookup "subclassName" = some (.string a.subclassName)
  superClass : members.lookup "superClass" = some (.string a.superClass)

section Standard

variable {a : Attributes} {name value : String}

theorem Renders.attribute (hname : members.lookup name = some (.string value))
    (hhelper : Helper.ofName? name = none)
    (h : Renders include? (.ofValue (.object members)) next t) :
    Renders include? (.ofValue (.object members)) (.value (here name) next) (value.toList ++ t) :=
  Renders.value (hname ▸ leads_here (unbound_ofValue _) rfl) hhelper h

theorem Renders.package (ha : Shows a members)
    (h : Renders include? (.ofValue (.object members)) next t) :
    Renders include? (.ofValue (.object members)) (packageOutline next) (a.packageClause ++ t) := by
  have hpackage : Leads (.ofValue (.object members)) (here "packageName")
      (some (.string a.packageName)) := ha.packageName ▸ leads_here (unbound_ofValue _) rfl
  unfold Attributes.packageClause
  by_cases he : a.packageName.isEmpty
  · rw [if_pos he]
    exact Renders.skip ofName?_if hpackage (by simp [isTrue, he]) h
  · rw [if_neg he]
    have hclause : Renders include? (.ofValue (.object members)) _ _ := Renders.text "package "
      (Renders.attribute ha.packageName rfl (Renders.text ";\n" renders_done))
    rw [List.append_nil] at hclause
    exact Renders.condition ofName?_if hpackage (by simp [isTrue, he]) hclause h

theorem renders_eventOutline (hv : a.variant = .event) :
    Renders include? (.ofValue a.toJson) eventOutline a.companion := by
  obtain ⟨variant, packageName, className, subclassName, eventName, constructors, superClass,
    superclassConstructors, partnerClass⟩ := a
  obtain rfl : variant = .event := hv
  let members : List (String × Json.Value) := [
    ("packageName", .string packageName), ("className", .string className),
    ("subclassName", .string subclassName), ("eventName", .string eventName),
    ("constructors", .array (constructors.map ConstructorDescriptor.toJson)),
    ("superClass", .string superClass)]
  have hshows : Shows ⟨.event, packageName, className, subclassName, eventName, constructors,
    superClass, superclassConstructors, partnerClass⟩ members := ⟨rfl, rfl, rfl, rfl⟩
  have hevent : members.lookup "eventName" = some (.string eventName) := rfl
  have hconstructors : members.lookup "constructors" =
    some (.array (constructors.map ConstructorDescriptor.toJson)) := rfl
  have h : Renders include? (.ofValue (.object members)) eventOutline _ :=
    Renders.package hshows (Renders.text _ (Renders.attribute hshows.subclassName rfl
      (Renders.text _ (Renders.attribute hshows.className rfl (Renders.text _
      (Renders.attribute hshows.superClass rfl (Renders.text _
      (Renders.attribute hshows.className rfl (Renders.text _ (Renders.attribute hevent rfl
      (Renders.text _ (Renders.attribute hshows.subclassName rfl (Renders.text _
      (Renders.constructors (b := fun _ => []) hconstructors hshows.className
        (fun _ _ _ _ _ => Renders.text _ renders_done)
      (Renders.text _ (Renders.attribute hevent rfl (Renders.text _
      (Renders.attribute hshows.subclassName rfl (Renders.text _ renders_done)))))))))))))))))))
  simp only [String.toList_append, List.append_assoc, List.append_nil] at h
  unfold Attributes.companion Attributes.lead Attributes.imports Attributes.javadoc
    Attributes.comment Attributes.afterName Attributes.extendsClause Attributes.typeArgument
    Attributes.members Attributes.eventMembers Attributes.handlerMethod Attributes.dispatchCall
  simp only [withBody, List.append_assoc]
  exact h

/-- A block for the partner is rendered if there is a partner with a name. -/
theorem Renders.partner {f : String → List Char} (hv : a.variant ≠ .event)
    (hpartner : members.lookup "partnerClass" = a.partnerClass.map .string)
    (hbody : ∀ p, members.lookup "partnerClass" = some (.string p) →
      Renders include? (.ofValue (.object members)) body (f p))
    (hnext : Renders include? (.ofValue (.object members)) next u) :
    Renders include? (.ofValue (.object members)) (.block "if" (here "partnerClass") body next)
      (a.partner?.elim [] f ++ u) := by
  have hleads : Leads (.ofValue (.object members)) (here "partnerClass")
      (a.partnerClass.map .string) := hpartner ▸ leads_here (unbound_ofValue _) rfl
  rw [a.partner?_of_ne hv]
  rcases hclass : a.partnerClass with _ | p
  · rw [hclass] at hleads
    exact Renders.skip ofName?_if hleads rfl hnext
  · rw [hclass] at hleads hpartner
    by_cases he : p.isEmpty
    · rw [Option.filter_some, if_neg (by simp [he])]
      exact Renders.skip ofName?_if hleads (by simp [isTrue, he]) hnext
    · rw [Option.filter_some, if_pos (by simp [he])]
      exact Renders.condition ofName?_if hleads (by simp [isTrue, he])
        (hbody p hpartner) hnext

theorem renders_superCall (c : ConstructorDescriptor) {inner : Scope} (hb : inner.Unbound)
    (hvalue : inner.valueAt 0 = c.toJson) :
    Renders include? inner
      (.text (") " ++ "\x7b" ++ "\n" ++ "\t\tsuper(") (listOutline (.value (here "name") .done)
        (.text (");\n" ++ "\t" ++ "\x7d\n") .done)))
      (") ".toList ++ ("\x7b".toList ++ ("\n".toList ++ (c.superCall ++
        ("\t".toList ++ "\x7d\n".toList))))) := by
  have h : Renders include? inner _ _ := Renders.text (") " ++ "\x7b" ++ "\n" ++ "\t\tsuper(")
    (Renders.list (f := (·.name.toList ++ [])) hb hvalue
      (fun _ _ _ hb hvalue => renders_name hb hvalue renders_done)
      (Renders.text (");\n" ++ "\t" ++ "\x7d\n") renders_done))
  simp only [String.toList_append, List.append_assoc, List.append_nil] at h
  unfold ConstructorDescriptor.superCall
  simp only [List.append_assoc]
  exact h

/-- The members of the attributes of a message as a template sees them. -/
def messageValues (a : Attributes) : List (String × Json.Value) :=
  [("packageName", .string a.packageName), ("className", .string a.className),
    ("subclassName", .string a.subclassName), ("eventName", .string a.eventName),
    ("constructors", .array (a.constructors.map ConstructorDescriptor.toJson)),
    ("superClass", .string a.superClass),
    ("superclassConstructors", .array (a.superclassConstructors.map ConstructorDescriptor.toJson))]
    ++ a.partnerClass.elim [] fun partner => [("partnerClass", .string partner)]

theorem toJson_of_ne (hv : a.variant ≠ .event) : a.toJson = .object (messageValues a) := by
  unfold Attributes.toJson messageValues
  cases hvariant : a.variant with
  | event => exact absurd hvariant hv
  | _ => rcases hclass : a.partnerClass with _ | p <;> rfl

theorem shows_messageValues (a : Attributes) : Shows a (messageValues a) :=
  ⟨rfl, rfl, rfl, rfl⟩

theorem lookup_partnerClass (a : Attributes) :
    (messageValues a).lookup "partnerClass" = a.partnerClass.map .string := by
  unfold messageValues
  rcases a.partnerClass with _ | p <;> rfl

theorem renders_messageOutline (hv : a.variant ≠ .event) :
    Renders include? (.ofValue a.toJson) (messageOutline (Attributes.accessorName a.variant))
      a.companion := by
  have hshows := shows_messageValues a
  have hconstructors : (messageValues a).lookup "superclassConstructors" =
    some (.array (a.superclassConstructors.map ConstructorDescriptor.toJson)) := rfl
  have hpartner := lookup_partnerClass a
  have h : Renders include? (.ofValue (.object (messageValues a)))
      (messageOutline (Attributes.accessorName a.variant)) _ :=
    Renders.package hshows (Renders.text _ (Renders.attribute hshows.subclassName rfl
      (Renders.text _ (Renders.attribute hshows.className rfl (Renders.text _
      (Renders.attribute hshows.superClass rfl
      (Renders.partner hv hpartner (fun p hp => Renders.text _ (Renders.attribute hp rfl
        (Renders.text _ renders_done)))
      (Renders.text _
      (Renders.constructors (b := ConstructorDescriptor.superCall) hconstructors hshows.className
        (fun c _ _ hb hvalue => renders_superCall c hb hvalue)
      (Renders.text _
      (Renders.partner hv hpartner (fun p hp => Renders.text _ (Renders.attribute hp rfl
        (Renders.text _ (Renders.attribute hp rfl (Renders.text _ renders_done)))))
      (Renders.text _ renders_done))))))))))))
  simp only [String.toList_append, List.append_assoc, List.append_nil] at h
  unfold Attributes.companion Attributes.lead Attributes.imports Attributes.javadoc
    Attributes.comment Attributes.afterName Attributes.extendsClause Attributes.typeArgument
    Attributes.members Attributes.messageMembers Attributes.partnerMethod
  rw [toJson_of_ne hv]
  generalize Attributes.accessorName a.variant = accessor at *
  cases hvariant : a.variant with
  | event => exact absurd hvariant hv
  | _ =>
    simp only [withBody, List.append_assoc, List.nil_append]
    exact h

theorem renders_standardOutline (a : Attributes) :
    Renders include? (.ofValue a.toJson) (standardOutline a.variant) a.companion := by
  cases hv : a.variant with
  | event => exact renders_eventOutline hv
  | request =>
    have h : Renders include? (.ofValue a.toJson) _ a.companion :=
      renders_messageOutline (by simp [hv])
    rwa [hv] at h
  | response =>
    have h : Renders include? (.ofValue a.toJson) _ a.companion :=
      renders_messageOutline (by simp [hv])
    rwa [hv] at h

end Standard

end Template

def Templates.standardEntry (v : Variant) : Variant × List Template.Node :=
  (v, (Template.standardOutline v).nodes)

def Templates.standard : Templates :=
  ⟨Variant.all.reverse.map standardEntry⟩

theorem addAll_standardText (vs : List Variant) (t : Templates) :
    t.addAll (vs.map fun v => (v, Template.standardText v)) =
      .ok ⟨vs.reverse.map Templates.standardEntry ++ t.entries⟩ := by
  induction vs generalizing t with
  | nil => rfl
  | cons v vs ih =>
    rw [List.map_cons, Templates.addAll, Template.ofText?_standardText]
    simp only [ih, List.reverse_cons, List.map_append, List.map_cons, List.map_nil,
      List.append_assoc]
    rfl

theorem load_none (w : World) : Templates.load none w = .ok .standard w := by
  simp only [Templates.load, Templates.textOf, Option.map_none, pure_bind, List.mapM_pure,
    Templates.ofTexts, addAll_standardText, List.append_nil]
  rfl

/-- The standard templates render all attributes. -/
theorem render_standard (a : Attributes) :
    Templates.standard.render a = .ok (String.ofList a.companion) := by
  have hget : Templates.standard.get? a.variant =
      some (Template.standardOutline a.variant).nodes := by
    cases a.variant <;> rfl
  have hrenders : Templates.standard.renderNodes a.variant.name
      (Template.standardOutline a.variant).nodes a.toJson = .ok (String.ofList a.companion) :=
    Template.renders_standardOutline a
  simp only [Templates.render, hget, hrenders]
  rfl

end Companion
