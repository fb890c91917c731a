import Companion.Template.Helper
import Companion.Template.Node

/-!
# Rendering

The text of a template in a scope. Templates may include others, which see the same scope.
-/

namespace Companion.Template

mutual

def Param.value? (scope : Scope) : Param → Except Fault (Option Json.Value)
  | .literal v => .ok (some v)
  | .path p => p.value scope
  | .call name params named => do
    let params ← Param.values scope params
    let named ← Param.namedValues scope named
    match Helper.ofName? name with
    | none => .error (.unknownHelper name)
    | some (.function f) => (f.value params).map some
    | some .log => do
      checkLevel named
      .ok (some (.string ""))
    | some .raw => .ok (some (.string ""))
    | some _ =>
      if params.isEmpty then .error (.missingParameter name) else .ok (some (.string ""))

def Param.values (scope : Scope) : List Param → Except Fault (List Json.Value)
  | [] => .ok []
  | p :: ps => do
    let v ← Param.value? scope p
    let vs ← Param.values scope ps
    .ok (v.getD .null :: vs)

def Param.namedValues (scope : Scope) :
    List (String × Param) → Except Fault (List (String × Json.Value))
  | [] => .ok []
  | (name, p) :: ps => do
    let v ← Param.value? scope p
    let vs ← Param.namedValues scope ps
    .ok ((name, v.getD .null) :: vs)

end

/-- The names that a block gives to the item that it is rendered with and to the item's key. -/
def bind (names : List String) (item key : Json.Value) : List (String × Json.Value) :=
  match names with
  | [] => []
  | [name] => [(name, item)]
  | name :: other :: _ => [(other, key), (name, item)]

/-- The block of one item out of many. -/
def itemBlock (names : List String) (keyName : String) (key item : Json.Value)
    (first last : Bool) : Block where
  value := item
  locals := [("first", .bool first), ("last", .bool last), (keyName, key)]
  bound := bind names item key

/-- The blocks of the items of a value, if it has items. -/
def itemBlocks (names : List String) : Json.Value → List Block
  | .array items => items.zipIdx.map fun (item, i) =>
    itemBlock names "index" (.ofNat i) item (i == 0) (i + 1 == items.length)
  | .object members => members.zipIdx.map fun ((key, item), i) =>
    itemBlock names "key" (.string key) item (i == 0) (i + 1 == members.length)
  | _ => []

/-- The text of a name or of a call's result. -/
def Param.nameText (scope : Scope) : Param → Except Fault String
  | .path p => .ok p.text
  | p => do .ok (written ((← p.value? scope).getD .null))

/-- The text that a call of a helper without a body writes. -/
def callText (scope : Scope) (name : String) (params : List Param)
    (named : List (String × Param)) : Except Fault String := do
  .ok (written ((← Param.value? scope (.call name params named)).getD .null))

def Call.text (scope : Scope) (c : Call) : Except Fault String := do
  let name ← c.subject.nameText scope
  if c.params.isEmpty && c.named.isEmpty && (Helper.ofName? name).isNone then
    .ok (written ((← c.subject.value? scope).getD .null))
  else callText scope name c.params c.named

def joinTexts (render : Scope → Except Fault String) : List Scope → Except Fault String
  | [] => .ok ""
  | s :: ss => do
    let first ← render s
    let rest ← joinTexts render ss
    .ok (first ++ rest)

/-- The text of a block, given how its body and its else part are rendered. -/
def BlockStart.text (start : BlockStart) (scope : Scope)
    (body otherwise : Scope → Except Fault String) : Except Fault String := do
  let params ← Param.values scope start.params
  let named ← Param.namedValues scope start.named
  match Helper.ofName? start.name, params with
  | none, _ => .error (.unknownHelper start.name)
  | some (.function f), _ => do .ok (written (← f.value params))
  | some .log, _ => do
    checkLevel named
    .ok ""
  | some .raw, _ => body scope
  | some (.condition _), [] => .error (.missingParameter start.name)
  | some .each, [] => .error (.missingParameter start.name)
  | some .with_, [] => .error (.missingParameter start.name)
  | some (.condition negated), v :: _ =>
    let zeroCounts := ((named.lookup "includeZero").bind Json.Value.bool?).getD false
    if isTrue zeroCounts v != negated then body scope else otherwise scope
  | some .each, v :: _ =>
    let blocks := itemBlocks start.binders v
    if blocks.isEmpty then otherwise scope else joinTexts body (blocks.map scope.enter)
  | some .with_, v :: _ =>
    if isTrue false v then
      body (scope.enter ⟨v, [], bind (start.binders.take 1) v .null⟩)
    else otherwise scope

/-- The scope of an included template. -/
def includedScope (scope : Scope) : List Json.Value → List (String × Json.Value) → Scope
  | [], [] => scope
  | params, named =>
    let value := params.head?.getD (scope.valueAt 0)
    let value := match named, value with
      | [], v => v
      | named, .object members => .object (named ++ members)
      | named, _ => .object named
    scope.enter ⟨value, [], []⟩

mutual

/-- The text of a part of a template. `include?` renders other templates. -/
def Node.render (include? : String → Scope → Except Fault String) (scope : Scope) :
    Node → Except Fault String
  | .text s => .ok s
  | .value call => call.text scope
  | .block start body otherwise =>
    start.text scope (fun scope => Node.renderAll include? scope body)
      (fun scope => Node.renderAll include? scope otherwise)
  | .include name params named => do
    let params ← Param.values scope params
    let named ← Param.namedValues scope named
    include? name (includedScope scope params named)
  | .decorator => .error .unknownDecorator

def Node.renderAll (include? : String → Scope → Except Fault String) (scope : Scope) :
    List Node → Except Fault String
  | [] => .ok ""
  | n :: ns => do
    let first ← Node.render include? scope n
    let rest ← Node.renderAll include? scope ns
    .ok (first ++ rest)

end

end Companion.Template
