import Mathlib.Data.List.TakeWhile
import Companion.Proofs.JsonNesting
import Companion.Proofs.ModelText

/-!
# Lines of declarations and lists of declarations

A value that nests less deep than readers may go is the same declaration on a line and in a list
(`Declaration.isText_iff`). So a file with a value on each line that is not blank loads the
declarations that a file with the list of these values loads, and if one of them is no declaration
the failure names the line of the first such (`loadModel_lines_iff_list`).
-/

namespace Companion

open Json

variable {n a b : Nat} {s t rest : List Char} {ls ts : List (List Char)} {d : Declaration}
  {ds : List Declaration}

section Readers

variable {σ α : Type}

theorem steady_field {name : String} {required : Bool} {read : Nat → Reader α} {set : σ → α → σ}
    (h : Steady read) (x : σ) : Steady fun depth => (field name required read set).read depth x :=
  h.map fun y => set x y

theorem steady_readName : Steady readName :=
  (takes_readName 0).steady

theorem TypeRef.steady_read : Steady TypeRef.read := by
  intro n a b ha hb
  refine ⟨TypeRef.takes_read a, TypeRef.takes_read b, fun t x ht hread => ?_⟩
  obtain ⟨⟨v, rest⟩, hv, hform⟩ := except_bind_eq_ok.1 hread
  have hrest : rest = [] := by
    dsimp only at hform
    split at hform
    · exact (Prod.mk.inj (Except.ok.inj hform)).2
    · simp at hform
  subst hrest
  exact except_bind_eq_ok.2 ⟨_, (steady_readValue n a b ha hb).same t v ht hv, hform⟩

theorem Tag.steady_read : Steady Tag.read := by
  refine Record.steady_read ?_ _
  simp only [record, List.forall_mem_cons, List.not_mem_nil, IsEmpty.forall_iff, implies_true,
    and_true]
  exact ⟨steady_field steady_readName, steady_field steady_readName,
    steady_field (steady_readTextMap _ _)⟩

theorem Parameter.steady_read : Steady Parameter.read := by
  refine Record.steady_read ?_ _
  simp only [record, List.forall_mem_cons, List.not_mem_nil, IsEmpty.forall_iff, implies_true,
    and_true]
  exact ⟨steady_field steady_readName, steady_field TypeRef.steady_read⟩

theorem Constructor.steady_read : Steady Constructor.read := by
  refine Record.steady_read ?_ _
  simp only [record, List.forall_mem_cons, List.not_mem_nil, IsEmpty.forall_iff, implies_true,
    and_true]
  exact ⟨steady_field steady_readName, steady_field Parameter.steady_read.list⟩

theorem Declaration.steady_read : Steady Declaration.read := by
  refine Record.steady_read ?_ _
  simp only [record, List.forall_mem_cons, List.not_mem_nil, IsEmpty.forall_iff, implies_true,
    and_true]
  exact ⟨steady_field steady_readName, steady_field steady_readName,
    steady_field TypeRef.steady_read.optional, steady_field steady_readName.list,
    steady_field Tag.steady_read.list, steady_field Constructor.steady_read.list,
    steady_field (takes_readOptional (takes_readText _).of_anything).steady⟩

end Readers

/-- A value stands for the same declaration at all depths that it fits in. -/
theorem Declaration.isText_iff (ht : NestsIn n t) (ha : n ≤ a) (hb : n ≤ b) :
    IsText a t d ↔ IsText b t d := by
  have himp {a b : Nat} (ha : n ≤ a) (hb : n ≤ b) (h : IsText a t d) : IsText b t d :=
    ((steady_read n a b ha hb).denotes ht h.of_anything).of_takes (takes_read b) .nil
  exact ⟨himp ha hb, himp hb ha⟩

theorem Declaration.IsText.isBracketed (h : IsText n t d) : IsBracketed t := by
  rw [← h.isValue.dropSpace_self]
  exact Record.isBracketed_of_read (h.read_self trivial)

/-- The line holds the value, which nests at most so deep, with white space around it. -/
def Holds (n : Nat) (l t : List Char) : Prop :=
  ∃ before after, l = before ++ (t ++ after) ∧ IsGap before ∧ IsGap after ∧ NestsIn n t

/-- The text of lines: each ends with a line feed or with a carriage return and a line feed, and the
last need not. -/
inductive Lays : List (List Char) → List Char → Prop where
  | nil : Lays [] []
  | last {l : List Char} : l ≠ [] → '\n' ∉ l → Lays [l] l
  | cons {l ending s : List Char} {ls : List (List Char)} : '\n' ∉ l →
    ending ∈ [['\n'], ['\r', '\n']] → Lays ls s → Lays (l :: ls) (l ++ (ending ++ s))

/-- A line as it is read: a carriage return at its end may be gone. -/
def ReadAs (l l' : List Char) : Prop :=
  l = l' ∨ l = l' ++ ['\r']

theorem lines_cons {l : List Char} (h : '\n' ∉ l) (s : List Char) :
    Text.lines (l ++ '\n' :: s) =
      (if l.getLast? = some '\r' then l.dropLast else l) :: Text.lines s := by
  rw [Text.lines, List.splitOn_append_cons_self, List.splitOn_eq_singleton h, Text.lines]
  rcases hs : (s.splitOn '\n').reverse with _ | ⟨last, ended⟩
  · simp [List.splitOn_ne_nil] at hs
  · rw [List.reverse_append, hs]
    by_cases hlast : last.isEmpty
    · simp [hlast]
    · simp [hlast]

theorem Lays.readAs_lines (h : Lays ls s) : List.Forall₂ ReadAs ls (Text.lines s) := by
  induction h with
  | nil => simp [Text.lines]
  | @last l hne hl =>
    have hlines : Text.lines l = [l] := by
      simp [Text.lines, List.splitOn_eq_singleton hl, hne]
    rw [hlines]
    exact .cons (.inl rfl) .nil
  | @cons l ending s ls hl hending _ ih =>
    simp only [List.mem_cons, List.not_mem_nil, or_false] at hending
    rcases hending with rfl | rfl
    · rw [List.singleton_append, lines_cons hl]
      refine .cons ?_ ih
      split_ifs with hlast
      · exact .inr (List.dropLast_append_getLast? '\r' hlast).symm
      · exact .inl rfl
    · have hl' : '\n' ∉ l ++ ['\r'] := by simp [hl]
      have htext : l ++ (['\r', '\n'] ++ s) = (l ++ ['\r']) ++ '\n' :: s := by simp
      rw [htext, lines_cons hl']
      refine .cons ?_ ih
      simp [ReadAs]

theorem isEmpty_trim (s : List Char) : (Text.trim s).isEmpty = s.all Unicode.isBlank := by
  rw [Bool.eq_iff_iff, List.isEmpty_iff, Text.trim, Text.trimEnd, List.reverse_eq_nil_iff,
    List.dropWhile_eq_nil_iff, List.all_eq_true]
  simp only [List.mem_reverse, Text.trimStart]
  constructor
  · intro h c hc
    rw [← List.takeWhile_append_dropWhile (p := Unicode.isBlank) (l := s)] at hc
    rcases List.mem_append.1 hc with hc | hc
    · exact List.mem_takeWhile_imp hc
    · exact h c hc
  · intro h c hc
    exact h c ((List.dropWhile_sublist _).subset hc)

section ReadAs

variable {l l' : List Char}

theorem ReadAs.isEmpty_trim (h : ReadAs l l') :
    (Text.trim l).isEmpty = (Text.trim l').isEmpty := by
  rcases h with rfl | rfl
  · rfl
  · have hreturn : Unicode.isBlank '\r' = true := by decide
    simp [Companion.isEmpty_trim, hreturn]

theorem ReadAs.startsDeclaration_iff (h : ReadAs l l') :
    StartsDeclaration l d ↔ StartsDeclaration l' d := by
  rcases h with rfl | rfl
  · rfl
  constructor
  · rintro ⟨gap, t, rest, heq, hgap, ht⟩
    rw [← List.append_assoc] at heq
    rcases List.eq_nil_or_concat rest with rfl | ⟨rest, x, rfl⟩
    · -- A declaration does not end with a carriage return.
      obtain ⟨s, c, rfl, hc⟩ := ht.isValue.exists_concat ht.isBracketed
      rw [List.append_nil, ← List.append_assoc] at heq
      obtain ⟨-, hlast⟩ := List.append_inj' heq rfl
      rw [← (List.cons.inj hlast).1] at hc
      simp at hc
    · rw [List.concat_eq_append, ← List.append_assoc] at heq
      obtain ⟨rfl, -⟩ := List.append_inj' heq rfl
      exact ⟨gap, t, rest, List.append_assoc gap t rest, hgap, ht⟩
  · rintro ⟨gap, t, rest, rfl, hgap, ht⟩
    exact ⟨gap, t, rest ++ ['\r'], by simp, hgap, ht⟩

end ReadAs

theorem Holds.nestsIn {l : List Char} (h : Holds n l t) : NestsIn n t := by
  obtain ⟨_, _, _, _, _, ht⟩ := h
  exact ht

theorem Json.NestsIn.holds (h : NestsIn n t) : Holds n t t :=
  ⟨[], [], (List.append_nil t).symm, .nil, .nil, h⟩

theorem Holds.startsDeclaration_iff {l : List Char} (h : Holds n l t) :
    StartsDeclaration l d ↔ Declaration.IsText maxDepth t d := by
  obtain ⟨before, after, rfl, hbefore, -, ht⟩ := h
  constructor
  · rintro ⟨gap, u, rest, heq, hgap, hu⟩
    have hdrop := congrArg dropSpace heq
    rw [ht.isValue.dropSpace_gap_append hbefore, hu.isValue.dropSpace_gap_append hgap] at hdrop
    have hb : IsBracketed t := by
      obtain ⟨c, s, rfl, -⟩ := ht.isValue.exists_cons
      obtain ⟨v, rfl | rfl⟩ := hu.isBracketed
      · exact ⟨s, .inl (by rw [(List.cons.inj hdrop).1])⟩
      · exact ⟨s, .inr (by rw [(List.cons.inj hdrop).1])⟩
    rwa [(ht.isValue.append_inj hu.isValue (.inl hb) (.inl hu.isBracketed) hdrop).1]
  · intro hd
    exact ⟨before, t, after, rfl, hbefore, hd⟩

/-- The lines that are not blank. -/
def written (ls : List (List Char)) : List (List Char) :=
  ls.filter fun l => !(Text.trim l).isEmpty

theorem written_cons (l : List Char) (ls : List (List Char)) :
    written (l :: ls) = if (Text.trim l).isEmpty then written ls else l :: written ls := by
  rcases h : (Text.trim l).isEmpty with _ | _
  · rw [written, List.filter_cons_of_pos (by simp [h])]
    rfl
  · rw [written, List.filter_cons_of_neg (by simp [h])]
    rfl

theorem forall₂_written {ls' : List (List Char)} (h : List.Forall₂ ReadAs ls ls') :
    List.Forall₂ ReadAs (written ls) (written ls') :=
  List.rel_filter (fun _ _ hl => by simp only [hl.isEmpty_trim]) h

section Pairs

variable {α β γ : Type} {r : α → β → Prop} {p : α → γ → Prop} {q : β → γ → Prop} {as : List α}
  {bs : List β} {cs : List γ}

theorem forall₂_iff_of_forall₂ (h : List.Forall₂ r as bs)
    (hiff : ∀ a b, r a b → ∀ c, p a c ↔ q b c) : List.Forall₂ p as cs ↔ List.Forall₂ q bs cs := by
  induction h generalizing cs with
  | nil => simp
  | cons hr _ ih =>
    rw [List.forall₂_cons_left_iff, List.forall₂_cons_left_iff]
    simp only [hiff _ _ hr, ih]

end Pairs

/-- The lines of a text that are not blank start with the declarations that the values on them stand
for. -/
theorem startsModel_lines_iff (hlays : Lays ls s) (hls : List.Forall₂ (Holds n) (written ls) ts) :
    StartsModel true s ds ↔ List.Forall₂ (Declaration.IsText maxDepth) ts ds := by
  have hread : List.Forall₂ StartsDeclaration (written ls) ds ↔
      List.Forall₂ StartsDeclaration (written (Text.lines s)) ds :=
    forall₂_iff_of_forall₂ (forall₂_written hlays.readAs_lines)
      fun _ _ h _ => h.startsDeclaration_iff
  exact hread.symm.trans (forall₂_iff_of_forall₂ hls fun _ _ h _ => h.startsDeclaration_iff)

theorem readLine?_eq_error {k : Nat} {text message : String}
    (h : Json.readLine? Declaration.read k text = .error message) :
    ∃ cause, message = "line " ++ toString k ++ ": " ++ cause := by
  rw [Json.readLine?] at h
  rcases hread : Json.readText? Declaration.read text with cause | d
  · rw [hread] at h
    exact ⟨cause, (Except.error.inj h).symm⟩
  · rw [hread] at h
    simp [Except.mapError] at h

/-- The first value that is no declaration ends the reading of lines, and the message names its
line. -/
theorem readLines_eq_error {ls' : List (List Char)} {k : Nat} {message : String}
    (hread : List.Forall₂ ReadAs ls ls') (hls : List.Forall₂ (Holds n) (written ls) ts)
    (h : readLines k ls' = .error message) :
    ∃ before l after us t vs cause, ls = before ++ l :: after ∧ ts = us ++ t :: vs ∧
      List.Forall₂ (Holds n) (written before) us ∧ Holds n l t ∧
      (∀ u ∈ us, ∃ d, Declaration.IsText maxDepth u d) ∧
      (∀ d, ¬Declaration.IsText maxDepth t d) ∧
      message = "line " ++ toString (k + before.length) ++ ": " ++ cause := by
  induction hread generalizing k ts with
  | nil => simp [readLines] at h
  | @cons l l' ls ls' hl _ ih =>
    rw [readLines, ← hl.isEmpty_trim] at h
    rw [written_cons] at hls
    rcases hblank : (Text.trim l).isEmpty with _ | _
    · rw [hblank, if_neg Bool.false_ne_true] at h hls
      obtain ⟨t, vs, ht, hvs, rfl⟩ := List.forall₂_cons_left_iff.1 hls
      have hiff {d : Declaration} : Json.readLine? Declaration.read k (String.ofList l') = .ok d ↔
          Declaration.IsText maxDepth t d :=
        readLine?_eq_ok_iff.trans (hl.startsDeclaration_iff.symm.trans ht.startsDeclaration_iff)
      rcases hd : Json.readLine? Declaration.read k (String.ofList l') with e | d
      · obtain rfl : e = message := by simpa [hd, bind, Except.bind] using h
        obtain ⟨cause, rfl⟩ := readLine?_eq_error hd
        refine ⟨[], l, ls, [], t, vs, cause, rfl, rfl, .nil, ht, by simp, fun d h => ?_, by simp⟩
        rw [hiff.2 h] at hd
        simp at hd
      · have hrest : readLines (k + 1) ls' = .error message := by
          rcases hrest : readLines (k + 1) ls' with e | ds
          · simpa [hd, hrest, bind, Except.bind] using h
          · simp [hd, hrest, bind, Except.bind] at h
        obtain ⟨before, l₁, after, us, t₁, vs, cause, rfl, rfl, hus, ht₁, hgood, hbad, rfl⟩ :=
          ih hvs hrest
        refine ⟨l :: before, l₁, after, t :: us, t₁, vs, cause, rfl, rfl, ?_, ht₁, ?_, hbad, ?_⟩
        · rw [written_cons, hblank, if_neg Bool.false_ne_true]
          exact .cons ht hus
        · exact List.forall_mem_cons.2 ⟨⟨d, hiff.1 hd⟩, hgood⟩
        · rw [List.length_cons, Nat.add_right_comm k 1, Nat.add_assoc]
    · rw [hblank, if_pos rfl] at h hls
      obtain ⟨before, l₁, after, us, t, vs, cause, rfl, rfl, hus, ht, hgood, hbad, rfl⟩ := ih hls h
      refine ⟨l :: before, l₁, after, us, t, vs, cause, rfl, rfl, ?_, ht, hgood, hbad, ?_⟩
      · rwa [written_cons, hblank, if_pos rfl]
      · rw [List.length_cons, Nat.add_right_comm k 1, Nat.add_assoc]

theorem exists_items_intercalate (t : List Char) (ts : List (List Char)) :
    ∃ more, [','].intercalate (t :: ts) = t ++ more ∧ Items false ts more := by
  induction ts generalizing t with
  | nil => exact ⟨[], by simp [List.intercalate], .nil⟩
  | cons u ts ih =>
    obtain ⟨more, hmore, hitems⟩ := ih u
    refine ⟨[','] ++ (u ++ more), ?_, [','], more, rfl, ⟨[], [], rfl, .nil, .nil⟩, hitems⟩
    rw [← hmore]
    simp [List.intercalate]

theorem items_intercalate (ts : List (List Char)) : Items true ts ([','].intercalate ts) := by
  rcases ts with _ | ⟨t, ts⟩
  · exact IsGap.nil
  · obtain ⟨more, hmore, hitems⟩ := exists_items_intercalate t ts
    exact ⟨[], more, hmore, .nil, hitems⟩

/-- A text starts with the list of the declarations that its items stand for. -/
theorem startsList_iff {inner : List Char} (hitems : Items true ts inner)
    (hts : ∀ t ∈ ts, NestsIn n t) (hn : n < maxDepth) :
    StartsList ('[' :: (inner ++ [']'])) ds ↔
      List.Forall₂ (Declaration.IsText maxDepth) ts ds := by
  have hvalues : ∀ t ∈ ts, IsValue t := fun t ht => (hts t ht).isValue
  have hdepth : List.Forall₂ (Declaration.IsText (maxDepth - 1)) ts ds ↔
      List.Forall₂ (Declaration.IsText maxDepth) ts ds := by
    have hsame : List.Forall₂ (fun t u => t = u ∧ NestsIn n t) ts ts :=
      List.forall₂_same.2 fun t ht => ⟨rfl, hts t ht⟩
    refine forall₂_iff_of_forall₂ hsame fun t u htu d => ?_
    obtain ⟨rfl, ht⟩ := htu
    exact Declaration.isText_iff ht (by omega) (by omega)
  rw [← hdepth]
  constructor
  · rintro ⟨gap, ts', inner', rest, heq, hgap, hitems', hall⟩
    have hvalue : IsValue ('[' :: (inner ++ [']'])) := .array hitems hvalues
    have hvalue' : IsValue ('[' :: (inner' ++ [']'])) := .array hitems' (forall_isValue hall)
    have hdrop := congrArg dropSpace heq
    rw [hvalue.dropSpace_self, dropSpace_gap_cons hgap rfl] at hdrop
    have hends : '[' :: (inner ++ [']']) ++ [] = '[' :: (inner' ++ [']']) ++ rest := by
      rw [List.append_nil, hdrop]
      simp
    obtain ⟨hsame, -⟩ := hvalue.append_inj hvalue' (.inl ⟨_, .inl rfl⟩) (.inl ⟨_, .inl rfl⟩) hends
    obtain rfl := List.append_cancel_right (List.cons.inj hsame).2
    rwa [hitems.unique_values hitems' hvalues (forall_isValue hall)]
  · intro hall
    exact ⟨[], ts, inner, [], rfl, .nil, hitems, hall⟩

/-- Values on the lines of one file and in a list in another load alike, as the declarations that
they stand for. If one stands for none, the failure names the line of the first such. -/
theorem loadModel_lines_iff_list {path lineText listText : String} {w w' : World}
    (hlays : Lays ls lineText.toList) (hls : List.Forall₂ (Holds n) (written ls) ts)
    (hn : n < maxDepth) (hlist : listText.toList = '[' :: ([','].intercalate ts ++ [']']))
    (h : w.files.read path = .ok lineText) (h' : w'.files.read path = .ok listText) :
    (∀ ds, (∃ w₁, loadModel true path w = .ok ds w₁) ↔ ∃ w₁, loadModel false path w' = .ok ds w₁) ∧
    (∀ ds w₁, loadModel true path w = .ok ds w₁ ↔ w₁ = w ∧
      ∃ es, List.Forall₂ (Declaration.IsText maxDepth) ts es ∧ ds = es.map (.withSource path)) ∧
    ∀ f w₁, loadModel true path w = .error f w₁ → w₁ = w ∧
      ∃ before l after us t vs cause, ls = before ++ l :: after ∧ ts = us ++ t :: vs ∧
        List.Forall₂ (Holds n) (written before) us ∧ Holds n l t ∧
        (∀ u ∈ us, ∃ d, Declaration.IsText maxDepth u d) ∧
        (∀ d, ¬Declaration.IsText maxDepth t d) ∧
        f = .model path ("line " ++ toString (before.length + 1) ++ ": " ++ cause) := by
  have hts : ∀ t ∈ ts, NestsIn n t :=
    ((List.forall₂_and_left _ _).1 (hls.flip.imp fun t l (hl : Holds n l t) =>
      ⟨hl.nestsIn, hl⟩)).1
  have hlist (es : List Declaration) : StartsModel false listText.toList es ↔
      List.Forall₂ (Declaration.IsText maxDepth) ts es := by
    rw [StartsModel, if_neg Bool.false_ne_true, hlist]
    exact startsList_iff (items_intercalate ts) hts hn
  have hlines (ds : List Declaration) (w₁ : World) : loadModel true path w = .ok ds w₁ ↔ w₁ = w ∧
      ∃ es, List.Forall₂ (Declaration.IsText maxDepth) ts es ∧ ds = es.map (.withSource path) := by
    rw [(loadModel_iff_startsModel h).1]
    simp only [startsModel_lines_iff hlays hls]
  refine ⟨fun ds => ?_, hlines, fun f w₁ hf => ?_⟩
  · simp only [hlines, (loadModel_iff_startsModel h').1, hlist, exists_eq_left]
  · rcases hread : readModel true lineText with message | es
    · rw [loadModel_eq_error h hread] at hf
      obtain ⟨rfl, rfl⟩ := EStateM.Result.error.inj hf
      obtain ⟨before, l, after, us, t, vs, cause, hbefore, hus, hpairs, ht, hgood, hbad, rfl⟩ :=
        readLines_eq_error hlays.readAs_lines hls hread
      rw [Nat.add_comm 1]
      exact ⟨rfl, before, l, after, us, t, vs, cause, hbefore, hus, hpairs, ht, hgood, hbad, rfl⟩
    · rw [loadModel_eq_ok h hread] at hf
      simp at hf

/-- Two declarations with a blank line between them, and a file that fails in its third line. -/
theorem loadModel_lines_iff_list_two :
    let lineText := "\x7b\"name\":\"A\"\x7d\r\n \t\n\x7b\"name\":\"B\",\"source\":\"b\"\x7d"
    let listText := "[\x7b\"name\":\"A\"\x7d,\x7b\"name\":\"B\",\"source\":\"b\"\x7d]"
    let badText := "\x7b\"name\":\"A\"\x7d\r\n \t\n\"B\"\n"
    let badLines := ["\x7b\"name\":\"A\"\x7d".toList, [' ', '\t'], "\"B\"".toList]
    let badList := "[\x7b\"name\":\"A\"\x7d,\"B\"]"
    let w : World := ⟨⟨[], [(["m".toList], .text lineText), (["bad".toList], .text badText)]⟩, []⟩
    let w' : World := ⟨⟨[], [(["m".toList], .text listText), (["bad".toList], .text badList)]⟩, []⟩
    let ds := [⟨"", "A", none, [], [], [], some "m"⟩, ⟨"", "B", none, [], [], [], some "b"⟩]
    (loadModel true "m" w = .ok ds w ∧ ∃ w₁, loadModel false "m" w' = .ok ds w₁) ∧
      ∃ f before l after cause, loadModel true "bad" w = .error f w ∧
        badLines = before ++ l :: after ∧
        f = .model "bad" ("line " ++ toString (before.length + 1) ++ ": " ++ cause) := by
  intro lineText listText badText badLines badList w w' ds
  let one := "\x7b\"name\":\"A\"\x7d".toList
  let two := "\x7b\"name\":\"B\",\"source\":\"b\"\x7d".toList
  have hname : IsStringBody "name\"".toList :=
    isStringBody_append_quote (s := "name".toList) (by decide)
  have hsource : IsStringBody "source\"".toList :=
    isStringBody_append_quote (s := "source".toList) (by decide)
  have ha : NestsIn 0 "\"A\"".toList :=
    .string (isStringBody_append_quote (s := ['A']) (by decide))
  have hb : NestsIn 0 "\"B\"".toList :=
    .string (isStringBody_append_quote (s := ['B']) (by decide))
  have hc : NestsIn 0 "\"b\"".toList :=
    .string (isStringBody_append_quote (s := ['b']) (by decide))
  have hone : NestsIn 1 one := by
    let a : MemberText := ⟨"name\"".toList, [], [], "\"A\"".toList⟩
    have htext : one = '\x7b' :: ([','].intercalate [a.text] ++ ['\x7d']) := by decide +kernel
    rw [htext]
    exact @NestsIn.object 0 [a] _ (items_intercalate [a.text])
      (List.forall_mem_singleton.2 ⟨hname, .nil, .nil⟩) (List.forall_mem_singleton.2 ha)
  have htwo : NestsIn 1 two := by
    let b : MemberText := ⟨"name\"".toList, [], [], "\"B\"".toList⟩
    let c : MemberText := ⟨"source\"".toList, [], [], "\"b\"".toList⟩
    have htext : two = '\x7b' :: ([','].intercalate [b.text, c.text] ++ ['\x7d']) := by
      decide +kernel
    rw [htext]
    exact @NestsIn.object 0 [b, c] _ (items_intercalate [b.text, c.text])
      (List.forall_mem_cons.2 ⟨⟨hname, .nil, .nil⟩,
        List.forall_mem_singleton.2 ⟨hsource, .nil, .nil⟩⟩)
      (List.forall_mem_cons.2 ⟨hb, List.forall_mem_singleton.2 hc⟩)
  have hlays : Lays [one, [' ', '\t'], two] lineText.toList := by
    have htext : lineText.toList = one ++ (['\r', '\n'] ++ ([' ', '\t'] ++ (['\n'] ++ two))) := by
      decide +kernel
    rw [htext]
    exact .cons (by decide +kernel) (by decide) (.cons (by decide) (by decide)
      (.last (by decide +kernel) (by decide +kernel)))
  have hbad : Lays badLines badText.toList := by
    have htext : badText.toList = one ++ (['\r', '\n'] ++ ([' ', '\t'] ++ (['\n'] ++
        ("\"B\"".toList ++ (['\n'] ++ []))))) := by decide +kernel
    rw [htext]
    exact .cons (by decide +kernel) (by decide) (.cons (by decide) (by decide)
      (.cons (by decide +kernel) (by decide) .nil))
  have hlines : loadModel true "m" w = .ok ds w := eq_ok_of_okOf (by decide +kernel)
  refine ⟨⟨hlines, ?_⟩, ?_⟩
  · have hlist : listText.toList = '[' :: ([','].intercalate [one, two] ++ [']']) := by
      decide +kernel
    have hread : w.files.read "m" = .ok lineText := by decide +kernel
    have hread' : w'.files.read "m" = .ok listText := by decide +kernel
    have hls : List.Forall₂ (Holds 1) (written [one, [' ', '\t'], two]) [one, two] := by
      have hwritten : written [one, [' ', '\t'], two] = [one, two] := by decide +kernel
      rw [hwritten]
      exact .cons hone.holds (.cons htwo.holds .nil)
    exact ((loadModel_lines_iff_list hlays hls (by decide) hlist hread hread').1 ds).1 ⟨w, hlines⟩
  · have hlist : badList.toList = '[' :: ([','].intercalate [one, "\"B\"".toList] ++ [']']) := by
      decide +kernel
    have hread : w.files.read "bad" = .ok badText := by decide +kernel
    have hread' : w'.files.read "bad" = .ok badList := by decide +kernel
    have hls : List.Forall₂ (Holds 1) (written badLines) [one, "\"B\"".toList] := by
      have hwritten : written badLines = [one, "\"B\"".toList] := by decide +kernel
      rw [hwritten]
      exact .cons hone.holds (.cons (hb.mono (Nat.zero_le 1)).holds .nil)
    have hfails : (errorOf (loadModel true "bad" w)).isSome := by decide +kernel
    rcases hload : loadModel true "bad" w with ⟨es, w₁⟩ | ⟨f, w₁⟩
    · rw [hload] at hfails
      exact absurd hfails Bool.false_ne_true
    · obtain ⟨rfl, before, l, after, us, t, vs, cause, hbefore, -, -, -, -, -, hf⟩ :=
        (loadModel_lines_iff_list hbad hls (by decide) hlist hread hread').2.2 f w₁ hload
      exact ⟨f, before, l, after, cause, rfl, hbefore, hf⟩

end Companion
