import Companion.Proofs.StandardTemplates

/-!
# Companions line by line

The text of a companion as a list of lines, with what the attributes put into each of them. The
standard templates write exactly these lines (`render_lines`), whatever the names are and however
many constructors and parameters there are.
-/

namespace Companion

def lineChars (lines : List String) : List Char :=
  lines.flatMap fun l => l.toList ++ ['\n']

def unlines (lines : List String) : String :=
  String.ofList (lineChars lines)

def ConstructorDescriptor.lines (className : String) (statements : List String)
    (c : ConstructorDescriptor) : List String :=
  ["", "\tprotected " ++ className ++ "(" ++
      ", ".intercalate (c.args.map fun a => a.type ++ " " ++ a.name) ++ ") \x7b"] ++
    statements ++ ["\t\x7d"]

def ConstructorDescriptor.callLine (c : ConstructorDescriptor) : String :=
  "\t\tsuper(" ++ ", ".intercalate (c.args.map (·.name)) ++ ");"

namespace Attributes

variable (a : Attributes)

def packageLines : List String :=
  if a.packageName = "" then [] else ["package " ++ a.packageName ++ ";"]

def commentLines : List String :=
  ["/**", " * Generated base class of " ++ a.subclassName ++ ". Do not edit.", " */"]

def handlerLines : List String := [
  "",
  "\tpublic interface Handler extends EventHandler \x7b",
  "\t\tvoid on" ++ a.eventName ++ "(" ++ a.subclassName ++ " event);",
  "\t\x7d",
  "",
  "\tpublic static final GwtEvent.Type<Handler> TYPE = new GwtEvent.Type<Handler>();"]

def dispatchLines : List String := [
  "",
  "\t@Override",
  "\tpublic final GwtEvent.Type<Handler> getAssociatedType() \x7b",
  "\t\treturn TYPE;",
  "\t\x7d",
  "",
  "\t@Override",
  "\tprotected final void dispatch(Handler handler) \x7b",
  "\t\thandler.on" ++ a.eventName ++ "((" ++ a.subclassName ++ ") this);",
  "\t\x7d"]

def eventLines : List String :=
  a.packageLines ++ [
    "",
    "import com.google.gwt.event.shared.EventHandler;",
    "import com.google.gwt.event.shared.GwtEvent;",
    ""] ++ a.commentLines ++ [
    "public abstract class " ++ a.className ++ " extends " ++ a.superClass ++ "<" ++ a.className ++
      ".Handler> \x7b"] ++
  a.handlerLines ++ a.constructors.flatMap (·.lines a.className []) ++ a.dispatchLines ++ ["\x7d"]

/-- The lines of a message, with a type argument and an accessor for its partner. -/
def messageLines (typeArgument : String) (accessor : List String) : List String :=
  a.packageLines ++ [""] ++ a.commentLines ++
  ["public abstract class " ++ a.className ++ " extends " ++ a.superClass ++ typeArgument ++
    " \x7b"] ++
  a.superclassConstructors.flatMap (fun c => c.lines a.className [c.callLine]) ++
  accessor ++ ["\x7d"]

def accessorLines (name partner : String) : List String := [
  "",
  "\tpublic Class<" ++ partner ++ "> " ++ name ++ "() \x7b",
  "\t\treturn " ++ partner ++ ".class;",
  "\t\x7d"]

/-- Without a partner there is neither a type argument nor an accessor. -/
def partnerLines (name : String) : List String :=
  match a.partnerClass with
  | none => a.messageLines "" []
  | some partner =>
    if partner = "" then a.messageLines "" []
    else a.messageLines ("<" ++ partner ++ ">") (accessorLines name partner)

def lines : List String :=
  match a.variant with
  | .event => a.eventLines
  | .request => a.partnerLines "getResponseClass"
  | .response => a.partnerLines "getRequestClass"

end Attributes

@[simp]
theorem lineChars_nil : lineChars [] = [] :=
  rfl

@[simp]
theorem lineChars_cons (l : String) (ls : List String) :
    lineChars (l :: ls) = l.toList ++ '\n' :: lineChars ls := by
  simp [lineChars]

@[simp]
theorem lineChars_append (ls ms : List String) :
    lineChars (ls ++ ms) = lineChars ls ++ lineChars ms :=
  List.flatMap_append

theorem lineChars_flatMap {α : Type} (f : α → List String) (xs : List α) :
    lineChars (xs.flatMap f) = xs.flatMap fun x => lineChars (f x) :=
  List.flatMap_assoc

theorem toList_intercalate_comma (pieces : List String) :
    (", ".intercalate pieces).toList = Java.Syntax.listed (pieces.map String.toList) :=
  String.toList_intercalate

namespace ConstructorDescriptor

theorem lineChars_lines (className : String) (statements : List String)
    (c : ConstructorDescriptor) :
    lineChars (c.lines className statements) = c.print className (lineChars statements) := by
  have hargs : c.args.map Argument.print =
      (c.args.map fun a => a.type ++ " " ++ a.name).map String.toList := by
    simp [Argument.print, Function.comp_def]
  simp only [lines, print, withBody, lineChars_append, lineChars_cons, lineChars_nil,
    String.toList_append, toList_intercalate_comma, hargs]
  simp

theorem lineChars_callLine (c : ConstructorDescriptor) : lineChars [c.callLine] = c.superCall := by
  have hnames : (c.args.map (·.name)).map String.toList = c.args.map (·.name.toList) := by
    rw [List.map_map]
    rfl
  unfold callLine superCall
  simp only [lineChars_cons, lineChars_nil, String.toList_append, toList_intercalate_comma, hnames,
    List.append_assoc]
  rfl

end ConstructorDescriptor

namespace Attributes

variable {a : Attributes}

theorem lineChars_packageLines : lineChars a.packageLines = a.packageClause := by
  unfold packageLines packageClause
  by_cases he : a.packageName = ""
  · simp [he]
  · simp [he]

theorem lineChars_handlerLines : lineChars a.handlerLines =
    withBody "\n\tpublic interface Handler extends EventHandler ".toList a.handlerMethod ++
      ("\n\tpublic static final GwtEvent.Type<Handler> TYPE = new GwtEvent.Type<Handler>".toList ++
        "();\n".toList) := by
  unfold handlerLines withBody handlerMethod
  simp only [lineChars_cons, lineChars_nil, String.toList_append, String.reduceToList,
    List.append_assoc, List.cons_append, List.nil_append]

theorem lineChars_dispatchLines : lineChars a.dispatchLines =
    withBody ("\n\t@Override\n\tpublic final GwtEvent.Type<Handler> ".toList ++
      ("getAssociatedType".toList ++ "() ".toList)) "\n\t\treturn TYPE;\n\t".toList ++
    withBody ("\n\t@Override\n\tprotected final void ".toList ++
      ("dispatch".toList ++ "(Handler handler) ".toList)) a.dispatchCall := by
  unfold dispatchLines withBody dispatchCall
  simp only [lineChars_cons, lineChars_nil, String.toList_append, String.reduceToList,
    List.append_assoc, List.cons_append, List.nil_append]

theorem lineChars_eventLines (hv : a.variant = .event) :
    lineChars a.eventLines = a.companion := by
  have hconstructors : lineChars (a.constructors.flatMap (·.lines a.className [])) =
      a.constructors.flatMap (ConstructorDescriptor.print a.className []) := by
    simp only [lineChars_flatMap, ConstructorDescriptor.lineChars_lines, lineChars_nil]
  have hmembers : a.members = a.eventMembers := by rw [members, hv]
  have himports : a.imports = "\nimport com.google.gwt.event.shared.EventHandler;\n".toList ++
      "import com.google.gwt.event.shared.GwtEvent;\n".toList := by rw [imports, hv]
  have hargument : a.typeArgument = "<".toList ++ (a.className.toList ++ ".Handler>".toList) := by
    rw [typeArgument, hv]
  unfold eventLines companion lead afterName extendsClause withBody
  rw [hmembers, himports, hargument]
  unfold eventMembers javadoc comment commentLines
  simp only [lineChars_append, lineChars_packageLines, lineChars_handlerLines, hconstructors,
    lineChars_dispatchLines, lineChars_cons, lineChars_nil, String.toList_append,
    String.reduceToList, List.append_assoc, List.cons_append, List.nil_append]

theorem lineChars_accessorLines (partner : String) :
    lineChars (accessorLines (accessorName a.variant) partner) = a.partnerMethod partner := by
  unfold accessorLines partnerMethod withBody
  simp only [lineChars_cons, lineChars_nil, String.toList_append, String.reduceToList,
    List.append_assoc, List.cons_append, List.nil_append]

theorem lineChars_messageLines (hv : a.variant ≠ .event) {typeArgument : String}
    {accessor : List String} (hargument : typeArgument.toList = a.typeArgument)
    (haccessor : lineChars accessor = a.partner?.elim [] a.partnerMethod) :
    lineChars (a.messageLines typeArgument accessor) = a.companion := by
  have hconstructors :
      lineChars (a.superclassConstructors.flatMap fun c => c.lines a.className [c.callLine]) =
        a.superclassConstructors.flatMap fun c => c.print a.className c.superCall := by
    simp only [lineChars_flatMap, ConstructorDescriptor.lineChars_lines,
      ConstructorDescriptor.lineChars_callLine]
  have hmembers : a.members = a.messageMembers := by
    unfold members
    cases hvariant : a.variant with
    | event => exact absurd hvariant hv
    | _ => rfl
  have himports : a.imports = [] := by
    unfold imports
    cases hvariant : a.variant with
    | event => exact absurd hvariant hv
    | _ => rfl
  unfold messageLines companion lead afterName extendsClause
  rw [hmembers, himports]
  unfold messageMembers withBody javadoc comment commentLines
  simp only [lineChars_append, lineChars_packageLines, lineChars_cons, lineChars_nil,
    hconstructors, hargument, haccessor, String.toList_append, String.reduceToList,
    List.append_assoc, List.cons_append, List.nil_append]

theorem lineChars_partnerLines (hv : a.variant ≠ .event) :
    lineChars (a.partnerLines (accessorName a.variant)) = a.companion := by
  have hargument (p : Option String) (hp : a.partner? = p) : a.typeArgument =
      p.elim [] fun p => "<".toList ++ (p.toList ++ ">".toList) := by
    subst hp
    unfold typeArgument
    cases hvariant : a.variant with
    | event => exact absurd hvariant hv
    | _ => rfl
  have hpartner := a.partner?_of_ne hv
  have habsent (hnone : a.partner? = none) : lineChars (a.messageLines "" []) = a.companion :=
    lineChars_messageLines hv (by rw [hargument none hnone]; rfl) (by rw [hnone]; rfl)
  unfold partnerLines
  rcases hclass : a.partnerClass with _ | p
  · exact habsent (by rw [hpartner, hclass]; rfl)
  · rw [hclass, Option.filter_some] at hpartner
    by_cases he : p = ""
    · simp only [he, if_true]
      exact habsent (by simpa [he] using hpartner)
    · have hsome : a.partner? = some p := by simpa [he] using hpartner
      simp only [he, if_false]
      refine lineChars_messageLines hv ?_ ?_
      · simp only [hargument _ hsome, String.toList_append, Option.elim_some, List.append_assoc]
      · rw [hsome, Option.elim_some, lineChars_accessorLines]

theorem lineChars_lines (a : Attributes) : lineChars a.lines = a.companion := by
  unfold lines
  cases hv : a.variant with
  | event => exact lineChars_eventLines hv
  | request =>
    have h : lineChars (a.partnerLines _) = a.companion := lineChars_partnerLines (by simp [hv])
    rwa [hv] at h
  | response =>
    have h : lineChars (a.partnerLines _) = a.companion := lineChars_partnerLines (by simp [hv])
    rwa [hv] at h

end Attributes

/-- Without a directory of templates companions are written in these lines, for all attributes. -/
theorem render_lines (w : World) (a : Attributes) :
    ∃ templates, Templates.load none w = .ok templates w ∧
      templates.render a = .ok (unlines a.lines) := by
  refine ⟨.standard, load_none w, ?_⟩
  rw [render_standard, ← a.lineChars_lines]
  rfl

end Companion
