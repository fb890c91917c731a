import Companion.Templates
import Companion.Proofs.TypeText

/-!
# Templates in outline

An outline is a template of texts, of values and of blocks that take one path. It is rendered part
by part: `Renders` says what an outline writes in a scope, and each part has a rule for it
(`Renders.text`, `Renders.value`, `Renders.condition`, `Renders.each`). A block of items writes what
its body writes for each of them, with commas in between if the body puts them before all but the
first (`itemsText_listed`).
-/

namespace Companion.Template

/-- A template of texts, of values and of blocks with one path and without an else part. -/
inductive Outline where
  | done
  | text (s : String) (next : Outline)
  | value (p : Path) (next : Outline)
  | block (helper : String) (p : Path) (body next : Outline)
  deriving DecidableEq, Repr

def Call.path? : Call → Option Path
  | ⟨.path p, [], []⟩ => some p
  | _ => none

def BlockStart.path? : BlockStart → Option Path
  | ⟨_, [.path p], [], []⟩ => some p
  | _ => none

theorem Call.eq_of_path? {c : Call} {p : Path} (h : c.path? = some p) : c = ⟨.path p, [], []⟩ := by
  unfold path? at h
  split at h
  · rw [Option.some.inj h]
  · simp at h

theorem BlockStart.eq_of_path? {b : BlockStart} {p : Path} (h : b.path? = some p) :
    b = ⟨b.name, [.path p], [], []⟩ := by
  unfold path? at h
  split at h
  · rw [Option.some.inj h]
  · simp at h

namespace Outline

def nodes : Outline → List Node
  | done => []
  | text s next => .text s :: next.nodes
  | value p next => .value ⟨.path p, [], []⟩ :: next.nodes
  | block helper p body next => .block ⟨helper, [.path p], [], []⟩ body.nodes [] :: next.nodes

mutual

/-- The outline of a part and of what follows it. -/
def ofNode? (next : Outline) : Node → Option Outline
  | .text s => some (.text s next)
  | .value call => call.path?.map fun p => .value p next
  | .block start body [] => start.path?.bind fun p =>
    (ofNodes? body).map fun body => .block start.name p body next
  | _ => none

/-- The outline of parts, if they have one. -/
def ofNodes? : List Node → Option Outline
  | [] => some .done
  | n :: ns => (ofNodes? ns).bind fun next => ofNode? next n

end

mutual

theorem nodes_of_ofNode? {next o : Outline} : {n : Node} → ofNode? next n = some o →
    o.nodes = n :: next.nodes
  | .text s, h => by
    obtain rfl := Option.some.inj h
    rfl
  | .value call, h => by
    rw [ofNode?] at h
    obtain ⟨p, hp, rfl⟩ := Option.map_eq_some_iff.1 h
    rw [nodes, ← Call.eq_of_path? hp]
  | .block start body [], h => by
    rw [ofNode?] at h
    obtain ⟨p, hp, h⟩ := Option.bind_eq_some_iff.1 h
    obtain ⟨b, hb, rfl⟩ := Option.map_eq_some_iff.1 h
    rw [nodes, nodes_of_ofNodes? hb, ← BlockStart.eq_of_path? hp]
  | .block _ _ (_ :: _), h => by simp [ofNode?] at h
  | .include _ _ _, h => by simp [ofNode?] at h
  | .decorator, h => by simp [ofNode?] at h

theorem nodes_of_ofNodes? {o : Outline} : {ns : List Node} → ofNodes? ns = some o → o.nodes = ns
  | [], h => by
    obtain rfl := Option.some.inj h
    rfl
  | n :: ns, h => by
    rw [ofNodes?] at h
    obtain ⟨next, hnext, ho⟩ := Option.bind_eq_some_iff.1 h
    rw [nodes_of_ofNode? ho, nodes_of_ofNodes? hnext]

end

end Outline

theorem ofText?_eq {s : String} {o : Outline}
    (h : (Node.ofText? s).bind Outline.ofNodes? = some o) : Node.ofText? s = some o.nodes := by
  obtain ⟨nodes, hnodes, ho⟩ := Option.bind_eq_some_iff.1 h
  rw [hnodes, Outline.nodes_of_ofNodes? ho]

/-- A member of the value of the block. -/
def here (name : String) : Path :=
  ⟨name, .here, [.name name]⟩

/-- A member of the value of the block around. -/
def outer (name : String) : Path :=
  ⟨"../" ++ name, .here, [.up, .name name]⟩

/-- The item of the block is the first one. -/
def isFirst : Path :=
  ⟨"@first", .local, [.name "first"]⟩

variable {include? : String → Scope → Except Fault String} {scope : Scope} {o next body : Outline}
  {p : Path} {t u : List Char} {members : List (String × Json.Value)} {name : String}

/-- The outline is rendered as the text. -/
def Renders (include? : String → Scope → Except Fault String) (scope : Scope) (o : Outline)
    (t : List Char) : Prop :=
  Node.renderAll include? scope o.nodes = .ok (String.ofList t)

theorem renders_done : Renders include? scope .done [] :=
  rfl

theorem renders_cons {n : Node} {s : String} (hnodes : o.nodes = n :: next.nodes)
    (hn : Node.render include? scope n = .ok s) (hnext : Renders include? scope next t) :
    Renders include? scope o (s.toList ++ t) := by
  rw [Renders, hnodes, Node.renderAll, hn, hnext, String.ofList_append, String.ofList_toList]
  rfl

theorem Renders.text (s : String) (h : Renders include? scope next t) :
    Renders include? scope (.text s next) (s.toList ++ t) :=
  renders_cons rfl rfl h

def Leads (scope : Scope) (p : Path) (v : Option Json.Value) : Prop :=
  p.value scope = .ok v

theorem Renders.value {s : String} (hp : Leads scope p (some (.string s)))
    (hhelper : Helper.ofName? p.text = none) (h : Renders include? scope next t) :
    Renders include? scope (.value p next) (s.toList ++ t) := by
  have hvalue : p.value scope = .ok (some (.string s)) := hp
  refine renders_cons rfl ?_ h
  simp only [Node.render, Call.text, Param.nameText, Param.value?, hvalue, Bind.bind, Except.bind,
    List.isEmpty_nil, hhelper, Option.isNone_none, Bool.and_self, if_true, Option.getD_some,
    written]

theorem values_path {v : Option Json.Value} (hp : Leads scope p v) :
    Param.values scope [.path p] = .ok [v.getD .null] := by
  have hvalue : p.value scope = .ok v := hp
  simp only [Param.values, Param.value?, hvalue, Bind.bind, Except.bind]

section Blocks

variable {helper : String} {v : Option Json.Value} {negated : Bool}

theorem renders_block (hnext : Renders include? scope next u)
    (hblock : ∀ f g, (∀ s, g s = .ok "") →
      (∀ s t, Renders include? s body t → f s = .ok (String.ofList t)) →
      BlockStart.text ⟨helper, [.path p], [], []⟩ scope f g = .ok (String.ofList t)) :
    Renders include? scope (.block helper p body next) (t ++ u) := by
  have hrender : Node.render include? scope (.block ⟨helper, [.path p], [], []⟩ body.nodes []) =
      .ok (String.ofList t) := hblock _ _ (fun _ => rfl) fun _ _ h => h
  have h := renders_cons (o := .block helper p body next) rfl hrender hnext
  rwa [String.toList_ofList] at h

theorem ofName?_if : Helper.ofName? "if" = some (.condition false) := rfl

theorem ofName?_unless : Helper.ofName? "unless" = some (.condition true) := rfl

theorem Renders.condition (hhelper : Helper.ofName? helper = some (.condition negated))
    (hp : Leads scope p v) (htrue : isTrue false (v.getD .null) ≠ negated)
    (hbody : Renders include? scope body t) (hnext : Renders include? scope next u) :
    Renders include? scope (.block helper p body next) (t ++ u) := by
  refine renders_block hnext fun f g _ hf => ?_
  have hcondition : (isTrue false (v.getD .null) != negated) = true := by simpa using htrue
  simp only [BlockStart.text, values_path hp, hhelper, Param.namedValues, Bind.bind, Except.bind,
    List.lookup_nil, Option.bind_none, Option.getD_none, hcondition, if_true, hf scope t hbody]

theorem Renders.skip (hhelper : Helper.ofName? helper = some (.condition negated))
    (hp : Leads scope p v) (hfalse : isTrue false (v.getD .null) = negated)
    (hnext : Renders include? scope next u) :
    Renders include? scope (.block helper p body next) u := by
  refine renders_block (t := []) hnext fun f g hg _ => ?_
  have hcondition : (isTrue false (v.getD .null) != negated) = false := by simpa using hfalse
  simp only [BlockStart.text, values_path hp, hhelper, Param.namedValues, Bind.bind, Except.bind,
    List.lookup_nil, Option.bind_none, Option.getD_none, hcondition, hg]
  rfl

/-- What a block of items writes, where the text of an item depends on whether it is the first. -/
def itemsText {α : Type} (g : Bool → α → List Char) : List α → List Char
  | [] => []
  | x :: xs => g true x ++ xs.flatMap (g false)

theorem joinTexts_items {α : Type} {toValue : α → Json.Value} {g : α → List Char}
    {f : Scope → Except Fault String} (xs : List α) (i n : Nat)
    (h : ∀ x ∈ xs, ∀ key last, f (scope.enter (itemBlock [] "index" key (toValue x) false last)) =
      .ok (String.ofList (g x))) :
    joinTexts f ((((xs.map toValue).zipIdx (i + 1)).map fun x =>
      itemBlock [] "index" (.ofNat x.2) x.1 (x.2 == 0) (x.2 + 1 == n)).map scope.enter) =
        .ok (String.ofList (xs.flatMap g)) := by
  induction xs generalizing i with
  | nil => rfl
  | cons x xs ih =>
    have hx := h x List.mem_cons_self (.ofNat (i + 1)) (i + 1 + 1 == n)
    have hxs := ih (i + 1) fun y hy => h y (List.mem_cons_of_mem _ hy)
    have hfirst : (i + 1 == 0) = false := rfl
    simp only [List.map_cons, List.zipIdx_cons, joinTexts, hfirst, hx, hxs, Bind.bind, Except.bind,
      List.flatMap_cons, String.ofList_append]

/-- A block of items renders its body for each of them. -/
theorem Renders.each {α : Type} {toValue : α → Json.Value} {g : Bool → α → List Char} {xs : List α}
    (hp : Leads scope p (some (.array (xs.map toValue))))
    (hbody : ∀ x ∈ xs, ∀ key first last,
      Renders include? (scope.enter (itemBlock [] "index" key (toValue x) first last)) body
        (g first x))
    (hnext : Renders include? scope next u) :
    Renders include? scope (.block "each" p body next) (itemsText g xs ++ u) := by
  refine renders_block hnext fun f h hh hf => ?_
  have hhelper : Helper.ofName? "each" = some .each := rfl
  simp only [BlockStart.text, values_path hp, hhelper, Param.namedValues, Bind.bind, Except.bind,
    Option.getD_some, itemBlocks]
  rcases xs with _ | ⟨x, xs⟩
  · exact hh scope
  · have hx := hf _ _ (hbody x List.mem_cons_self (.ofNat 0) true (0 + 1 == (xs.length + 1)))
    have hxs := joinTexts_items xs 0 (xs.length + 1) fun y hy key last =>
      hf _ _ (hbody y (List.mem_cons_of_mem _ hy) key false last)
    have hfirst : (0 == 0) = true := rfl
    simp only [List.map_cons, List.zipIdx_cons, List.isEmpty_cons, Bool.false_eq_true, if_false,
      joinTexts, List.length_cons, List.length_map, hfirst, hx, hxs, Bind.bind, Except.bind,
      itemsText, String.ofList_append]

end Blocks

/-- No block gives names to values. -/
def Scope.Unbound (scope : Scope) : Prop :=
  ∀ name, scope.bound? name = none

theorem unbound_ofValue (v : Json.Value) : (Scope.ofValue v).Unbound :=
  fun _ => rfl

theorem Scope.Unbound.enter (h : scope.Unbound) (keyName : String) (key item : Json.Value)
    (first last : Bool) : (scope.enter (itemBlock [] keyName key item first last)).Unbound :=
  fun name => h name

theorem follow_object (name : String) (members : List (String × Json.Value)) :
    follow [name] (.object members) = .ok (members.lookup name) := by
  simp only [follow, member, Bind.bind, Except.bind]
  rcases members.lookup name with _ | v <;> rfl

/-- A path with one name leads to a member of the value of the block it starts from. -/
theorem leads_member (h : scope.Unbound) (horigin : p.origin = .here) (hnames : p.names = [name])
    (hv : scope.valueAt p.depth = .object members) : Leads scope p (members.lookup name) := by
  rw [Leads, Path.value, horigin, ← follow_object, ← hv]
  simp only [Path.valueFrom, hnames, h name]

theorem leads_here (h : scope.Unbound) (hv : scope.valueAt 0 = .object members) :
    Leads scope (here name) (members.lookup name) :=
  leads_member h rfl rfl hv

theorem leads_outer (h : scope.Unbound) (hv : scope.valueAt 1 = .object members) :
    Leads scope (outer name) (members.lookup name) :=
  leads_member h rfl rfl hv

theorem leads_isFirst (keyName : String) (key item : Json.Value) (first last : Bool) :
    Leads (scope.enter (itemBlock [] keyName key item first last)) isFirst (some (.bool first)) :=
  rfl

theorem itemsText_listed {α : Type} (f : α → List Char) (xs : List α) :
    itemsText (fun first x => (if first then [] else [',', ' ']) ++ f x) xs =
      Java.Syntax.listed (xs.map f) := by
  have hrest (x : α) (xs : List α) : f x ++ xs.flatMap (fun x => [',', ' '] ++ f x) =
      Java.Syntax.listed ((x :: xs).map f) := by
    induction xs generalizing x with
    | nil => simp [Java.Syntax.listed, Text.join]
    | cons y xs ih =>
      rw [List.map_cons, List.map_cons, Java.Syntax.listed_cons_cons, ← List.map_cons, ← ih y]
      simp
  rcases xs with _ | ⟨x, xs⟩
  · rfl
  · exact hrest x xs

theorem itemsText_const {α : Type} (f : α → List Char) (xs : List α) :
    itemsText (fun _ x => f x) xs = xs.flatMap f := by
  cases xs <;> rfl

end Companion.Template
