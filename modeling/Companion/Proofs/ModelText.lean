import Companion.Proofs.JsonRecords
import Companion.Proofs.ModelDump

/-!
# What the text of a model file holds

A model file loads if its text starts with a list of declarations, or each of its lines that is not
blank starts with a declaration, and then exactly these are loaded; otherwise the run ends with the
failure of a model (`loadModel_iff_startsModel`). Nothing is asked of the text after the list or of
what follows a declaration on its line, so declarations that stand there are left out without a
word (`loadModel_second_list`).
-/

namespace Companion

open Json

section Readers

variable {σ α : Type} {depth : Nat}

theorem takes_field {name : String} {required : Bool} {read : Nat → Reader α} {set : σ → α → σ}
    (h : Takes EndsNumber (read depth)) (x : σ) :
    Takes EndsNumber ((field name required read set).read depth x) :=
  h.map fun y => set x y

theorem takes_readName (depth : Nat) : Takes EndsNumber (readName depth) :=
  (takes_readText "a string").of_anything

theorem TypeRef.takes_read (depth : Nat) : Takes EndsNumber (TypeRef.read depth) := by
  intro s t rest h
  obtain ⟨⟨v, rest'⟩, hv, h⟩ := except_bind_eq_ok.1 h
  dsimp only at h
  split at h
  · rename_i t' hform
    obtain ⟨rfl, rfl⟩ := Prod.mk.inj (Except.ok.inj h)
    obtain ⟨gap, u, hs, hgap, hu⟩ := takes_readValue depth _ _ _ hv
    refine ⟨gap, u, hs, hgap, hu.isValue, fun gap' rest hgap' hrest => ?_⟩
    refine except_bind_eq_ok.2 ⟨(v, rest), hu.read_eq_ok gap' rest hgap' hrest, ?_⟩
    simp only [hform]
  · simp at h

theorem Tag.takes_read (depth : Nat) : Takes Anything (Tag.read depth) := by
  refine Record.takes_read (fun depth => ?_) depth _
  simp only [record, List.forall_mem_cons, List.not_mem_nil, IsEmpty.forall_iff, implies_true,
    and_true]
  exact ⟨takes_field (takes_readName depth), takes_field (takes_readName depth),
    takes_field (takes_readTextMap depth _ _).of_anything⟩

theorem Parameter.takes_read (depth : Nat) : Takes Anything (Parameter.read depth) := by
  refine Record.takes_read (fun depth => ?_) depth _
  simp only [record, List.forall_mem_cons, List.not_mem_nil, IsEmpty.forall_iff, implies_true,
    and_true]
  exact ⟨takes_field (takes_readName depth), takes_field (TypeRef.takes_read depth)⟩

theorem Constructor.takes_read (depth : Nat) : Takes Anything (Constructor.read depth) := by
  refine Record.takes_read (fun depth => ?_) depth _
  simp only [record, List.forall_mem_cons, List.not_mem_nil, IsEmpty.forall_iff, implies_true,
    and_true]
  have hparams : Takes EndsNumber (readList depth Parameter.read) :=
    (takes_readList (fun depth => (Parameter.takes_read depth).of_anything) depth).of_anything
  exact ⟨takes_field (takes_readName depth), takes_field hparams⟩

theorem Declaration.takes_read (depth : Nat) : Takes Anything (Declaration.read depth) := by
  refine Record.takes_read (fun depth => ?_) depth _
  have hlist {α : Type} {item : Nat → Reader α} (h : ∀ depth, Takes EndsNumber (item depth)) :
      Takes EndsNumber (readList depth item) := (takes_readList h depth).of_anything
  simp only [record, List.forall_mem_cons, List.not_mem_nil, IsEmpty.forall_iff, implies_true,
    and_true]
  exact ⟨takes_field (takes_readName depth), takes_field (takes_readName depth),
    takes_field (takes_readOptional (TypeRef.takes_read depth)),
    takes_field (hlist takes_readName), takes_field (hlist fun n => (Tag.takes_read n).of_anything),
    takes_field (hlist fun n => (Constructor.takes_read n).of_anything),
    takes_field (takes_readOptional (takes_readText _).of_anything)⟩

end Readers

/-- The text is a value that stands for the declaration inside as many others as leave that depth,
whatever stands around it. -/
def Declaration.IsText (depth : Nat) : List Char → Declaration → Prop :=
  Denotes Anything (Declaration.read depth)

/-- The text starts with a list of the declarations. -/
def StartsList (s : List Char) (ds : List Declaration) : Prop :=
  ∃ gap ts inner rest, s = gap ++ '[' :: (inner ++ ']' :: rest) ∧ IsGap gap ∧ Items true ts inner ∧
    List.Forall₂ (Declaration.IsText (maxDepth - 1)) ts ds

/-- The text starts with the declaration. -/
def StartsDeclaration (s : List Char) (d : Declaration) : Prop :=
  ∃ gap t rest, s = gap ++ (t ++ rest) ∧ IsGap gap ∧ Declaration.IsText maxDepth t d

/-- The text starts with a list of the declarations, or its lines that are not blank start with
them. -/
def StartsModel (lines : Bool) (s : List Char) (ds : List Declaration) : Prop :=
  if lines then
    List.Forall₂ StartsDeclaration ((Text.lines s).filter fun l => !(Text.trim l).isEmpty) ds
  else StartsList s ds

variable {s rest : List Char} {ds : List Declaration} {d : Declaration}

theorem Declaration.readAll_eq_ok_iff :
    (∃ rest, Declaration.readAll maxDepth s = .ok (ds, rest)) ↔ StartsList s ds := by
  have htakes : Takes EndsNumber (Declaration.read (maxDepth - 1)) :=
    (Declaration.takes_read _).of_anything
  constructor
  · rintro ⟨rest, h⟩
    obtain ⟨gap, ts, inner, hs, hgap, hitems, hall⟩ := (readList_eq_ok_iff htakes).1 h
    exact ⟨gap, ts, inner, rest, hs, hgap, hitems,
      hall.imp fun t d ht => ht.of_takes (Declaration.takes_read _) .nil⟩
  · rintro ⟨gap, ts, inner, rest, hs, hgap, hitems, hall⟩
    exact ⟨rest, (readList_eq_ok_iff htakes).2 ⟨gap, ts, inner, hs, hgap, hitems,
      hall.imp fun t d ht => ht.of_anything⟩⟩

theorem Declaration.read_eq_ok_iff :
    (∃ rest, Declaration.read maxDepth s = .ok (d, rest)) ↔ StartsDeclaration s d := by
  constructor
  · rintro ⟨rest, h⟩
    obtain ⟨gap, t, hs, hgap, ht⟩ := Declaration.takes_read maxDepth s d rest h
    exact ⟨gap, t, rest, hs, hgap, ht⟩
  · rintro ⟨gap, t, rest, rfl, hgap, ht⟩
    exact ⟨rest, ht.read_eq_ok gap rest hgap trivial⟩

theorem readText?_eq_ok_iff {α : Type} {read : Nat → Reader α} {text : String} {x : α} :
    readText? read text = .ok x ↔ ∃ rest, read maxDepth text.toList = .ok (x, rest) := by
  unfold readText?
  rcases read maxDepth text.toList with f | ⟨y, rest⟩
  · simp
  · simp

theorem readLine?_eq_ok_iff {n : Nat} {l : List Char} :
    Json.readLine? Declaration.read n (String.ofList l) = .ok d ↔ StartsDeclaration l d := by
  rw [Json.readLine?, mapError_eq_ok, readText?_eq_ok_iff, String.toList_ofList,
    Declaration.read_eq_ok_iff]

theorem readLines_eq_ok_iff {n : Nat} {ls : List (List Char)} : readLines n ls = .ok ds ↔
    List.Forall₂ StartsDeclaration (ls.filter fun l => !(Text.trim l).isEmpty) ds := by
  induction ls generalizing n ds with
  | nil => simp [readLines, eq_comm]
  | cons l ls ih =>
    rw [readLines]
    rcases hblank : (Text.trim l).isEmpty with _ | _
    · rw [if_neg Bool.false_ne_true, List.filter_cons_of_pos (by simp [hblank]),
        List.forall₂_cons_left_iff, except_bind_eq_ok]
      constructor
      · rintro ⟨d, hd, h⟩
        obtain ⟨ds, hds, h⟩ := except_bind_eq_ok.1 h
        exact ⟨d, ds, readLine?_eq_ok_iff.1 hd, ih.1 hds, (Except.ok.inj h).symm⟩
      · rintro ⟨d, ds, hd, hds, rfl⟩
        exact ⟨d, readLine?_eq_ok_iff.2 hd, except_bind_eq_ok.2 ⟨ds, ih.2 hds, rfl⟩⟩
    · rw [if_pos rfl, List.filter_cons_of_neg (by simp [hblank]), ih]

theorem readModel_eq_ok_iff {lines : Bool} {text : String} :
    readModel lines text = .ok ds ↔ StartsModel lines text.toList ds := by
  rcases lines with _ | _
  · rw [readModel, if_neg Bool.false_ne_true, readText?_eq_ok_iff, Declaration.readAll_eq_ok_iff,
      StartsModel, if_neg Bool.false_ne_true]
  · rw [readModel, if_pos rfl, readLines_eq_ok_iff, StartsModel, if_pos rfl]

/-- A model file loads the declarations that its text starts with, and ends the run if there are
none. -/
theorem loadModel_iff_startsModel {lines : Bool} {path text : String} {w : World}
    (h : w.files.read path = .ok text) :
    (∀ ds w', loadModel lines path w = .ok ds w' ↔ w' = w ∧
      ∃ es, StartsModel lines text.toList es ∧ ds = es.map (.withSource path)) ∧
    ((∀ es, ¬StartsModel lines text.toList es) →
      ∃ message, loadModel lines path w = .error (.model path message) w) := by
  rcases hread : readModel lines text with message | es
  · have hload := loadModel_eq_error h hread
    refine ⟨fun ds w' => ?_, fun _ => ⟨message, hload⟩⟩
    rw [hload]
    constructor
    · simp
    · rintro ⟨-, es, hes, -⟩
      rw [readModel_eq_ok_iff.2 hes] at hread
      simp at hread
  · have hload := loadModel_eq_ok h hread
    refine ⟨fun ds w' => ?_, fun hnone => absurd (readModel_eq_ok_iff.1 hread) (hnone es)⟩
    rw [hload]
    constructor
    · intro hok
      obtain ⟨rfl, rfl⟩ := EStateM.Result.ok.inj hok
      exact ⟨rfl, es, readModel_eq_ok_iff.1 hread, rfl⟩
    · rintro ⟨rfl, es', hes', rfl⟩
      rw [readModel_eq_ok_iff.2 hes'] at hread
      rw [Except.ok.inj hread]

/-- A model file with one list and nothing after it. -/
theorem loadModel_iff_startsModel_list :
    let text := "[\x7b\"name\": \"A\"\x7d]"
    let w : World := ⟨⟨[], [(["m.json".toList], .text text)]⟩, []⟩
    let d : Declaration := ⟨"", "A", none, [], [], [], some "m.json"⟩
    w.files.read "m.json" = .ok text ∧
      ∃ es, StartsModel false text.toList es ∧ [d] = es.map (.withSource "m.json") := by
  intro text w d
  have hread : w.files.read "m.json" = .ok text := by decide +kernel
  have hload : loadModel false "m.json" w = .ok [d] w := eq_ok_of_okOf (by decide +kernel)
  exact ⟨hread, (((loadModel_iff_startsModel hread).1 [d] w).1 hload).2⟩

/-- A model file with a second list, and one with a second declaration on a line: what comes second
is not loaded, and nothing says so. -/
theorem loadModel_second_list :
    let list := "[\x7b\"name\": \"A\"\x7d] [\x7b\"name\": \"B\"\x7d]"
    let line := "\x7b\"name\": \"A\"\x7d \x7b\"name\": \"B\"\x7d"
    let w : World :=
      ⟨⟨[], [(["m.json".toList], .text list), (["m.ndjson".toList], .text line)]⟩, []⟩
    loadModel false "m.json" w = .ok [⟨"", "A", none, [], [], [], some "m.json"⟩] w ∧
      loadModel true "m.ndjson" w = .ok [⟨"", "A", none, [], [], [], some "m.ndjson"⟩] w := by
  intro list line w
  exact ⟨eq_ok_of_okOf (by decide +kernel), eq_ok_of_okOf (by decide +kernel)⟩

end Companion
