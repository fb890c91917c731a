import Companion.Variant

/-!
# Standard templates

The templates of companions unless others are given. They are written with double square brackets
in place of the double braces of tags.
-/

namespace Companion.Template

/-- The text with double braces in place of double square brackets. -/
def braced : List Char → List Char
  | '⟦' :: s => '\x7b' :: '\x7b' :: braced s
  | '⟧' :: s => '\x7d' :: '\x7d' :: braced s
  | c :: s => c :: braced s
  | [] => []

def ofLines (lines : List String) : String :=
  String.ofList (lines.flatMap fun l => braced l.toList ++ ['\n'])

/-- The lines of every template that name the package. -/
def packageLines : List String := [
  "⟦#if packageName⟧",
  "package ⟦packageName⟧;",
  "⟦/if⟧",
  ""]

/-- The lines of every template before the class. -/
def commentLines : List String := [
  "/**",
  " * Generated base class of ⟦subclassName⟧. Do not edit.",
  " */"]

def parameterList : String :=
  "⟦#each args⟧⟦#unless @first⟧, ⟦/unless⟧⟦type⟧ ⟦name⟧⟦/each⟧"

def argumentList : String :=
  "⟦#each args⟧⟦#unless @first⟧, ⟦/unless⟧⟦name⟧⟦/each⟧"

def eventText : String :=
  ofLines (packageLines ++ [
    "import com.google.gwt.event.shared.EventHandler;",
    "import com.google.gwt.event.shared.GwtEvent;",
    ""] ++ commentLines ++ [
    "public abstract class ⟦className⟧ extends ⟦superClass⟧<⟦className⟧.Handler> \x7b",
    "",
    "\tpublic interface Handler extends EventHandler \x7b",
    "\t\tvoid on⟦eventName⟧(⟦subclassName⟧ event);",
    "\t\x7d",
    "",
    "\tpublic static final GwtEvent.Type<Handler> TYPE = new GwtEvent.Type<Handler>();",
    "⟦#each constructors⟧",
    "",
    "\tprotected ⟦../className⟧(" ++ parameterList ++ ") \x7b",
    "\t\x7d",
    "⟦/each⟧",
    "",
    "\t@Override",
    "\tpublic final GwtEvent.Type<Handler> getAssociatedType() \x7b",
    "\t\treturn TYPE;",
    "\t\x7d",
    "",
    "\t@Override",
    "\tprotected final void dispatch(Handler handler) \x7b",
    "\t\thandler.on⟦eventName⟧((⟦subclassName⟧) this);",
    "\t\x7d",
    "\x7d"])

/-- The template of a message, with the method that gives the class of its partner. -/
def messageText (accessor : String) : String :=
  ofLines (packageLines ++ commentLines ++ [
    "public abstract class ⟦className⟧ extends ⟦superClass⟧" ++
      "⟦#if partnerClass⟧<⟦partnerClass⟧>⟦/if⟧ \x7b",
    "⟦#each superclassConstructors⟧",
    "",
    "\tprotected ⟦../className⟧(" ++ parameterList ++ ") \x7b",
    "\t\tsuper(" ++ argumentList ++ ");",
    "\t\x7d",
    "⟦/each⟧",
    "⟦#if partnerClass⟧",
    "",
    "\tpublic Class<⟦partnerClass⟧> " ++ accessor ++ "() \x7b",
    "\t\treturn ⟦partnerClass⟧.class;",
    "\t\x7d",
    "⟦/if⟧",
    "\x7d"])

def standardText : Variant → String
  | .event => eventText
  | .request => messageText "getResponseClass"
  | .response => messageText "getRequestClass"

end Companion.Template
