import Companion.Proofs.ParameterTokens

/-!
# Parameters in any layout

The type of a parameter is read with the spaces that the normal layout of its tokens has, and its
name is found behind the last space. So a list of parameters is read as in the layout with single
spaces if white space stands before each name, behind each `?` that a bound follows and at no dot,
and only then (`parameters_of_layout`). Where a name follows a bracket or the dots of a variadic
parameter at once, the parameter is lost (`parameters_joined`).
-/

namespace Companion.Java

open Syntax (IsOuter OnePiece commaPieces_append onePiece_nil onePiece_of_blank onePiece_of_forall
  splitTopLevel_join unangled_isOuter)
open Text
open Unicode (isBlank)

variable {t : TypeToken} {ts : List TypeToken} {p q : Piece} {ps : List Piece} {c : Char}

def isWordPart (c : Char) : Bool :=
  !isBlank c && !isMark c

/-- Behind a word stands a space or a mark. -/
theorem head?_shownBehind (hp : p.token.kind = .word) (h : (p :: ps).IsChain Parted) :
    ∀ c ∈ (shownBehind p ps).head?, isWordPart c = false := by
  rcases ps with _ | ⟨q, ps⟩
  · simp [shownBehind]
  · have hparted := (List.isChain_cons_cons.1 h).1 hp
    rw [shownBehind, hp]
    obtain ⟨t, g⟩ := q
    cases t with
    | word w =>
      rw [hparted rfl]
      rintro c ⟨⟩
      decide
    | _ => cases p.parted <;> (rintro c ⟨⟩; decide)

/-- A text that starts with a word does not start with the modifier. -/
theorem afterPiece?_shown (hp : p.token.kind = .word) (h : (p :: ps).IsChain Parted) :
    afterPiece? "final ".toList (shown (p :: ps)) = none := by
  obtain ⟨t, g⟩ := p
  cases t with
  | word w =>
    by_contra hsome
    obtain ⟨r, hr⟩ := Option.ne_none_iff_exists'.1 hsome
    have heq : w.text ++ shownBehind ⟨.word w, g⟩ ps = "final".toList ++ ' ' :: r :=
      (afterPiece?_eq_some_iff.1 hr).trans rfl
    have hword : (w.text ++ shownBehind ⟨.word w, g⟩ ps).takeWhile isWordPart = w.text := by
      rw [List.takeWhile_append_of_pos fun c hc => by simp [isWordPart, w.chars c hc]]
      have hstop := head?_shownBehind hp h
      generalize shownBehind ⟨.word w, g⟩ ps = rest at hstop
      rcases rest with _ | ⟨c, rest⟩
      · simp
      · rw [List.takeWhile_cons_of_neg (by simp [hstop c rfl]), List.append_nil]
    rw [heq, List.takeWhile_append_of_pos (by decide),
      List.takeWhile_cons_of_neg (by decide), List.append_nil] at hword
    exact w.free hword.symm
  | _ => cases hp

theorem shownBehind_append (p : Piece) (ps : List Piece) (q r : Piece) :
    shownBehind p (ps ++ [q] ++ [r]) = shownBehind p (ps ++ [q]) ++
      (spaceIf (q.token.kind.spaced q.parted r.token.kind) ++ r.token.text) := by
  induction ps generalizing p with
  | nil => simp [shownBehind]
  | cons p' ps ih =>
    rw [List.cons_append, List.cons_append, shownBehind, ih, shownBehind]
    simp

theorem shown_append_singleton (ps : List Piece) (q r : Piece) :
    shown (ps ++ [q] ++ [r]) =
      shown (ps ++ [q]) ++
        (spaceIf (q.token.kind.spaced q.parted r.token.kind) ++ r.token.text) := by
  rcases ps with _ | ⟨p, ps⟩
  · simp [shown, shownBehind]
  · rw [List.cons_append, List.cons_append, shown, shownBehind_append, shown]
    simp

theorem normalizeType_modifier {g : Blanks} (hg : g.text ≠ []) (hp : p.token.kind = .word)
    (h : ∀ q ∈ (p :: ps).getLast?, q.token.kind ≠ .comma) :
    normalizeType ("final".toList ++ (g.text ++ written (p :: ps))) =
      "final ".toList ++ shown (p :: ps) := by
  let l : TypeToken := .word ⟨['l'], by simp, by decide, by decide⟩
  have hspaced : l.kind.spaced true p.token.kind := by rw [hp]; decide
  have htoken := spacedFrom_token l p.token true (p.gap.text ++ written ps)
  rw [spacedFrom_written h, hspaced] at htoken
  have hword : spacedFrom 'f' false ("inal".toList ++ (g.text ++ written (p :: ps))) =
      "inal".toList ++ spacedFrom 'l' false (g.text ++ written (p :: ps)) :=
    spacedFrom_append (by decide) (by decide) _
  have hgap := spacedFrom_append_of_blank g.blank 'l' false (written (p :: ps))
  have hempty : (false || !g.text.isEmpty) = true := by simpa using hg
  rw [hempty, written_cons] at hgap
  have hfirst := normalizeType_cons (c := 'f') (by decide)
    ("inal".toList ++ (g.text ++ written (p :: ps)))
  rw [hword, written_cons, hgap, show 'l' = l.last from rfl, htoken] at hfirst
  rw [written_cons]
  exact hfirst

namespace Formal

variable (f : Formal)

/-- The tokens of the type and the name. -/
def pieces : List Piece :=
  f.type ++ [⟨.word f.name, .none⟩]

def core : List Char :=
  f.modifierText ++ written f.pieces

/-- White space stands between the type and the name. -/
def nameParted : Bool :=
  f.type.getLast?.any Piece.parted

theorem text_eq : f.text = f.lead.text ++ (f.core ++ f.trail.text) := by
  simp [text, core, pieces, written, TypeToken.text, Blanks.none]

theorem exists_type_eq_cons : ∃ p ps, f.type = p :: ps ∧ p.token.kind = .word := by
  have hchained := f.spells.chained
  have hne : f.type ≠ [] := fun h => hchained.ne (by rw [h]; rfl)
  obtain ⟨p, ps, hps⟩ := List.exists_cons_of_ne_nil hne
  exact ⟨p, ps, hps, by simpa [Part.starts] using hchained.first p.token (by simp [hps])⟩

theorem exists_type_eq_append :
    ∃ ps p, f.type = ps ++ [p] ∧ Part.parameter.ends p.token.kind := by
  have hchained := f.spells.chained
  have hne : f.type ≠ [] := fun h => hchained.ne (by rw [h]; rfl)
  obtain ⟨ps, p, hps⟩ := (List.eq_nil_or_concat f.type).resolve_left hne
  rw [List.concat_eq_append] at hps
  exact ⟨ps, p, hps, hchained.last p.token (by simp [hps])⟩

theorem trim_text : trim f.text = f.core := by
  rw [text_eq]
  refine trim_between f.lead.blank f.trail.blank ?_ ?_
  · obtain ⟨⟨t, g⟩, ps, hps, hp⟩ := f.exists_type_eq_cons
    obtain ⟨d, s, htext, hblank, -⟩ := t.exists_text_eq_cons
    unfold core modifierText
    cases f.modifier with
    | none =>
      rw [pieces, hps, List.cons_append, written_cons, htext]
      rintro c ⟨⟩
      exact hblank
    | some g =>
      rintro c ⟨⟩
      decide
  · have hne : written f.pieces ≠ [] := by
      simp [pieces, written, TypeToken.text, f.name.ne]
    have hlast : (written f.pieces).getLast? = f.name.text.getLast? := by
      rw [pieces, written_append, List.getLast?_append_of_ne_nil _ (by
        simp [written, TypeToken.text, f.name.ne])]
      simp [written, TypeToken.text, Blanks.none]
    intro c hc
    rw [core, List.getLast?_append_of_ne_nil _ hne, hlast] at hc
    exact (f.name.chars c (List.mem_of_getLast? hc)).1

theorem parted_pieces : f.pieces.IsChain Parted := by
  have h := f.parted
  rw [List.isChain_append] at h
  exact List.isChain_append.2 ⟨h.1, List.isChain_singleton _, fun p hp q hq => by
    obtain rfl : (⟨.word f.name, .none⟩ : Piece) = q := by simpa using hq
    exact h.2.2 p hp ⟨.word f.name, f.trail⟩ rfl⟩

/-- The parameter is laid out as its tokens are, whether it has a modifier or not. -/
theorem parameterLayout_core : parameterLayout f.core = shown f.pieces := by
  obtain ⟨p, ps, hps, hp⟩ := f.exists_type_eq_cons
  have hpieces : f.pieces = p :: (ps ++ [⟨.word f.name, .none⟩]) := by rw [pieces, hps]; rfl
  have hlast : ∀ q ∈ f.pieces.getLast?, q.token.kind ≠ .comma := by
    intro q hq
    obtain rfl : (⟨.word f.name, .none⟩ : Piece) = q := by simpa [pieces] using hq
    exact TokenKind.noConfusion
  have hannotation : '@' ∉ f.core := by
    have hmodifier : '@' ∉ f.modifierText := by
      have hblank : isBlank '@' = false := by decide
      unfold modifierText
      cases f.modifier with
      | none => simp
      | some g =>
        rw [List.mem_append, not_or]
        refine ⟨by decide, fun h => ?_⟩
        rw [g.blank _ h] at hblank
        cases hblank
    rw [core, List.mem_append, not_or]
    exact ⟨hmodifier, not_mem_written (by decide)⟩
  rw [parameterLayout, Syntax.dropAnnotations_eq hannotation]
  have hparted := f.parted_pieces
  have hmodified := f.modified
  unfold core modifierText
  rw [hpieces] at hlast hparted ⊢
  cases hm : f.modifier with
  | none =>
    rw [List.nil_append, normalizeType_written hlast, afterPiece?_shown hp hparted,
      Option.getD_none]
  | some g =>
    rw [List.append_assoc, normalizeType_modifier (hmodified g hm) hp hlast,
      afterPiece?_eq_some_iff.2 rfl, Option.getD_some]

/-- The text of the type and the name, with a space between them if white space stands there. -/
theorem shown_pieces : shown f.pieces = shown f.type ++ (spaceIf f.nameParted ++ f.name.text) := by
  obtain ⟨ps, p, hps, hp⟩ := f.exists_type_eq_append
  have hspaced : ∀ k, Part.parameter.ends k → ∀ b, k.spaced b .word = b := by decide
  have hname := hspaced _ hp p.parted
  rw [pieces, nameParted, hps, shown_append_singleton]
  simpa [TypeToken.text, TypeToken.kind] using congrArg spaceIf hname

end Formal

/-- The white space behind a token in the layout with single spaces, where the name follows the
last one. -/
def singleGap (t : TypeToken) : List TypeToken → Blanks
  | [] => .space
  | u :: _ => if t.kind.parts u.kind then .space else .none

def singleSpaced : List TypeToken → List Piece
  | [] => []
  | t :: ts => ⟨t, singleGap t ts⟩ :: singleSpaced ts

theorem map_token_singleSpaced (ts : List TypeToken) :
    (singleSpaced ts).map Piece.token = ts := by
  induction ts with
  | nil => rfl
  | cons t ts ih => rw [singleSpaced, List.map_cons, ih]

theorem parted_singleGap (t u : TypeToken) (ts : List TypeToken) :
    Piece.parted ⟨t, singleGap t (u :: ts)⟩ = t.kind.parts u.kind := by
  rw [Piece.parted, singleGap]
  cases t.kind.parts u.kind <;> rfl

theorem isChain_singleSpaced (ts : List TypeToken) (q : Piece) :
    (singleSpaced ts ++ [q]).IsChain Parted := by
  induction ts with
  | nil => exact List.isChain_singleton q
  | cons t ts ih =>
    rcases ts with _ | ⟨u, ts⟩
    · exact List.isChain_pair.2 fun _ _ => rfl
    · refine List.isChain_cons_cons.2 ⟨fun ht hu => ?_, ih⟩
      have ht : t.kind = .word := ht
      have hu : u.kind = .word := hu
      rw [parted_singleGap, ht, hu]
      rfl

theorem getLast?_singleSpaced (hts : ts ≠ []) :
    (singleSpaced ts).getLast?.any Piece.parted := by
  induction ts with
  | nil => exact absurd rfl hts
  | cons t ts ih =>
    rcases ts with _ | ⟨u, ts⟩
    · rfl
    · rw [singleSpaced, singleSpaced, List.getLast?_cons_cons, ← singleSpaced]
      exact ih (by simp)

theorem spaceIf_append_inj {x y : Bool} (t : TypeToken) {r r' : List Char} :
    spaceIf x ++ (t.text ++ r) = spaceIf y ++ (t.text ++ r') ↔ x = y ∧ r = r' := by
  obtain ⟨d, s, htext, hblank, -⟩ := t.exists_text_eq_cons
  have hne : d ≠ ' ' := by
    rintro rfl
    exact absurd hblank (by decide)
  rw [htext]
  cases x <;> cases y <;> simp [spaceIf, hne, hne.symm]

/-- Two tokens of a type have the space between them that they have in the layout with single
spaces if that layout is kept, and only then. -/
theorem spaced_parts_iff : ∀ a b : TokenKind, a.follows b →
    ∀ blank : Bool, (a = .word → b = .word → blank) →
      (a.spaced blank b = a.spaced (a.parts b) b ↔ a.keeps blank b) := by
  decide

theorem shownBehind_eq_iff
    (hchain : ((p :: ps).map Piece.token).IsChain fun a b => a.kind.follows b.kind)
    (hparted : (p :: ps).IsChain Parted) :
    shownBehind p ps = shownBehind ⟨p.token, singleGap p.token (ps.map Piece.token)⟩
      (singleSpaced (ps.map Piece.token)) ↔ (p :: ps).IsChain Kept := by
  induction ps generalizing p with
  | nil => simp [shownBehind, singleSpaced]
  | cons q ps ih =>
    obtain ⟨hfollows, hchain⟩ := List.isChain_cons_cons.1 hchain
    obtain ⟨hpq, hparted⟩ := List.isChain_cons_cons.1 hparted
    rw [List.map_cons, singleSpaced, shownBehind, shownBehind, spaceIf_append_inj, parted_singleGap,
      spaced_parts_iff _ _ hfollows _ hpq, ih hchain hparted, List.isChain_cons_cons]
    rfl

namespace Formal

variable (f : Formal) {scope : List String}

/-- The parameter with single spaces: behind its modifier, its commas and its name's type, and
between words. -/
def standard : Formal where
  lead := .none
  modifier := f.modifier.map fun _ => .space
  type := singleSpaced (f.type.map Piece.token)
  name := f.name
  trail := .none
  spells := by
    rw [map_token_singleSpaced]
    exact f.spells
  modified g hg := by
    obtain ⟨_, _, rfl⟩ := Option.map_eq_some_iff.1 hg
    exact List.cons_ne_nil _ _
  parted := isChain_singleSpaced _ _

theorem shown_eq_iff : shown f.type = shown f.standard.type ↔ f.type.IsChain Kept := by
  obtain ⟨p, ps, hps, -⟩ := f.exists_type_eq_cons
  have hchain := f.spells.chained.chain
  have hparted := (List.isChain_append.1 f.parted).1
  have hstandard : f.standard.type = singleSpaced (f.type.map Piece.token) := rfl
  rw [hstandard]
  rw [hps] at hchain hparted ⊢
  rw [List.map_cons, singleSpaced, shown, shown, List.append_cancel_left_eq,
    shownBehind_eq_iff hchain hparted]

/-- The layout with single spaces is kept: between the tokens of the type, and before the name. -/
def KeepsSpaces : Prop :=
  f.nameParted ∧ f.type.IsChain Kept

theorem nameParted_standard : f.standard.nameParted :=
  getLast?_singleSpaced f.spells.chained.ne

end Formal

/-- A parameter with its name and the text of its type, unresolved if a name in scope is meant. -/
def parameterOf (scope : List String) (type name : List Char) : Parameter :=
  { name := String.ofList name
    type := ⟨String.ofList type, !scope.contains (String.ofList (TypeRef.erase type))⟩ }

/-- A text goes on with the character that is looked for. -/
theorem eq_append_of_dropWhile_ne {x : Char} {s t : List Char}
    (h : s.dropWhile (· != x) = c :: t) : s = s.takeWhile (· != x) ++ x :: t := by
  obtain rfl : c = x := by
    have hhead := List.head?_dropWhile_not (· != x) s
    rw [h] at hhead
    simpa using hhead
  rw [← h, List.takeWhile_append_dropWhile]

theorem eq_append_of_splitAtLastSpace? {s t u : List Char}
    (h : splitAtLastSpace? s = some (t, u)) : s = t ++ ' ' :: u := by
  rw [splitAtLastSpace?] at h
  split at h
  · cases h
  · rename_i c before hdrop
    cases h
    simpa using congrArg List.reverse (eq_append_of_dropWhile_ne hdrop)

namespace Formal

def parameter (scope : List String) (f : Formal) : Parameter :=
  parameterOf scope (shown f.standard.type) f.name.text

variable (f : Formal) {scope : List String}

theorem parameter?_core (h : f.nameParted) :
    parameter? scope f.core = some (parameterOf scope (shown f.type) f.name.text) := by
  have hname : ' ' ∉ f.name.text := fun h => absurd (f.name.chars _ h).1 (by decide)
  rw [parameter?, parameterLayout_core, shown_pieces, h]
  exact congrArg (Option.map _) (Syntax.splitAtLastSpace?_append hname _)

theorem getLast?_shown : ∀ c ∈ (shown f.type).getLast?, isBlank c = false := by
  obtain ⟨ps, p, hps, -⟩ := f.exists_type_eq_append
  obtain ⟨d, s, htext, hblank, -, -, hs, -⟩ := p.token.exists_text_eq_cons
  have hne : p.token.text ≠ [] := by simp [htext]
  have hend : ∃ r, shown f.type = r ++ p.token.text := by
    rcases List.eq_nil_or_concat ps with rfl | ⟨qs, q, rfl⟩
    · exact ⟨[], by simp [hps, shown, shownBehind]⟩
    · rw [hps, List.concat_eq_append, shown_append_singleton, ← List.append_assoc]
      exact ⟨_, rfl⟩
  obtain ⟨r, hr⟩ := hend
  intro c hc
  rw [hr, List.getLast?_append_of_ne_nil _ hne, htext] at hc
  rcases List.mem_cons.1 (List.mem_of_getLast? hc) with rfl | hc
  · exact hblank
  · exact (hs c hc).1

/-- The name is read only if white space stands before it. -/
theorem nameParted_of_parameter? {q : Parameter} (h : parameter? scope f.core = some q)
    (hname : q.name = String.ofList f.name.text) : f.nameParted := by
  rw [parameter?, parameterLayout_core, shown_pieces, Option.map_eq_some_iff] at h
  obtain ⟨⟨t, n⟩, hsplit, rfl⟩ := h
  obtain rfl : n = f.name.text := String.ofList_injective hname
  have htext := eq_append_of_splitAtLastSpace? hsplit
  by_contra hparted
  rw [Bool.not_eq_true] at hparted
  have hnil : spaceIf false ++ f.name.text = f.name.text := rfl
  rw [hparted, hnil, List.append_cons t, List.append_cancel_right_eq] at htext
  have hspace := f.getLast?_shown ' ' (by simp [htext])
  exact absurd hspace (by decide)

theorem parameter?_core_eq_some_iff :
    parameter? scope f.core = some (f.parameter scope) ↔ f.KeepsSpaces := by
  constructor
  · intro h
    have hparted := f.nameParted_of_parameter? h rfl
    rw [f.parameter?_core hparted, Option.some_inj, parameter, parameterOf, parameterOf,
      Parameter.mk.injEq, TypeRef.mk.injEq] at h
    exact ⟨hparted, f.shown_eq_iff.1 (String.ofList_injective h.2.1)⟩
  · rintro ⟨hparted, hkept⟩
    rw [f.parameter?_core hparted, parameter, f.shown_eq_iff.2 hkept]

theorem onePiece : OnePiece f.text := by
  have hmodifier : OnePiece f.modifierText := by
    unfold modifierText
    cases f.modifier with
    | none => exact onePiece_nil
    | some g => exact (onePiece_of_forall (by decide)).append (onePiece_of_blank g.blank)
  have htype : OnePiece (written f.type) :=
    commaPieces_append (f.spells.shape rfl) unangled_isOuter (by simp [IsOuter]) fun c hc =>
      ⟨fun h => not_mem_written (by decide) (h ▸ hc), fun h => not_mem_written (by decide) (h ▸ hc)⟩
  have hname : OnePiece f.name.text := onePiece_of_forall fun c hc hmem => by
    have hmark := (f.name.chars c hc).2
    simp only [List.mem_cons, List.not_mem_nil, or_false] at hmem
    rcases hmem with rfl | rfl | rfl | rfl | rfl <;> exact absurd hmark (by decide)
  exact (onePiece_of_blank f.lead.blank).append
    (hmodifier.append (htype.append (hname.append (onePiece_of_blank f.trail.blank))))

theorem core_ne_nil : f.core ≠ [] := by
  simp [core, pieces, written, TypeToken.text, f.name.ne]

end Formal

/-- A list of parameters is read parameter by parameter. -/
theorem parameters_join {α : Type} {text core : α → List Char} {xs : List α}
    (h : ∀ x ∈ xs, OnePiece (text x) ∧ trim (text x) = core x ∧ core x ≠ [])
    (scope : List String) (g e : Blanks) :
    parameters scope (join (',' :: g.text) (xs.map text) ++ e.text) =
      xs.filterMap (parameter? scope ∘ core) := by
  have htrim : (xs.map text).map trim = xs.map core := by
    rw [List.map_map]
    exact List.map_congr_left fun x hx => (h x hx).2.1
  have hnonempty : ∀ s ∈ xs.map core, !s.isEmpty := by
    simp only [List.mem_map, forall_exists_index, and_imp, forall_apply_eq_imp_iff₂]
    exact fun x hx => by simpa using (h x hx).2.2
  have hpieces : ∀ s ∈ xs.map text, OnePiece s := by
    simp only [List.mem_map, forall_exists_index, and_imp, forall_apply_eq_imp_iff₂]
    exact fun x hx => (h x hx).1
  rw [parameters, splitTopLevel_join g.blank e.blank hpieces, htrim,
    List.filter_eq_self.2 hnonempty, List.filterMap_map]

theorem Formal.parameters_join (scope : List String) (fs : List Formal) (g e : Blanks) :
    parameters scope (join (',' :: g.text) (fs.map Formal.text) ++ e.text) =
      fs.filterMap (parameter? scope ∘ Formal.core) :=
  Java.parameters_join (fun f _ => ⟨f.onePiece, f.trim_text, f.core_ne_nil⟩) scope g e

/-- In the layout with single spaces every parameter is read. In any layout with white space before
the names every parameter is read too, and exactly where the layout keeps the spaces of the one with
single spaces, it is read as in that one. -/
theorem parameters_of_layout (scope : List String) (fs : List Formal) (e : Blanks) :
    parameters scope (join [',', ' '] (fs.map (·.standard.text))) =
        fs.map (Formal.parameter scope) ∧
      ((∀ f ∈ fs, f.nameParted) → parameters scope (join [','] (fs.map Formal.text) ++ e.text) =
        fs.map fun f => parameterOf scope (shown f.type) f.name.text) ∧
      (parameters scope (join [','] (fs.map Formal.text) ++ e.text) =
        fs.map (Formal.parameter scope) ↔ ∀ f ∈ fs, f.KeepsSpaces) := by
  have hany : parameters scope (join [','] (fs.map Formal.text) ++ e.text) =
      fs.filterMap (parameter? scope ∘ Formal.core) := Formal.parameters_join scope fs .none e
  refine ⟨?_, fun h => ?_, ?_⟩
  · have hsingle := Formal.parameters_join scope (fs.map Formal.standard) .space .none
    rw [List.map_map, List.filterMap_map] at hsingle
    have hnil (s : List Char) : s ++ Blanks.none.text = s := List.append_nil s
    rw [hnil] at hsingle
    exact hsingle.trans (List.filterMap_eq_map_iff_forall_eq_some.2 fun f _ =>
      f.standard.parameter?_core f.nameParted_standard)
  · rw [hany, List.filterMap_eq_map_iff_forall_eq_some]
    exact fun f hf => f.parameter?_core (h f hf)
  · rw [hany, List.filterMap_eq_map_iff_forall_eq_some]
    exact forall₂_congr fun f _ => f.parameter?_core_eq_some_iff

def Formal.broken : Formal where
  lead := .none
  modifier := none
  type := [⟨.word ⟨"String".toList, by decide, by decide, by decide⟩, .none⟩,
    ⟨.dots, ⟨['\n'], by decide⟩⟩]
  name := ⟨"args".toList, by decide, by decide, by decide⟩
  trail := .none
  spells := .variadic (.single (.raw (.word _)))
  modified := by simp
  parted := by simp [Parted, TypeToken.kind]

theorem parameters_of_layout_broken :
    parameters [] "String...\nargs".toList = [⟨"args", ⟨"String...", true⟩⟩] := by
  have hkept : Formal.broken.KeepsSpaces := by
    refine ⟨by decide, ?_⟩
    simp [Formal.broken, Kept, TypeToken.kind, TokenKind.keeps, Piece.parted, Blanks.none]
  have hread := (parameters_of_layout [] [.broken] .none).2.2.2 (by simpa using hkept)
  have hparameter : Formal.broken.parameter [] = ⟨"args", ⟨"String...", true⟩⟩ := by decide
  rw [List.map_singleton, List.map_singleton, hparameter] at hread
  exact hread

def Formal.joined : Formal where
  lead := .none
  modifier := none
  type := [⟨.word ⟨"List".toList, by decide, by decide, by decide⟩, .none⟩, ⟨.less, .none⟩,
    ⟨.word ⟨['T'], by decide, by decide, by decide⟩, .none⟩, ⟨.greater, .none⟩]
  name := ⟨"xs".toList, by decide, by decide, by decide⟩
  trail := .none
  spells := .fixed (.single (.applied (.word _) (.one (.exact (.single (.raw (.word _)))))))
  modified := by simp
  parted := by simp [Parted, TypeToken.kind]

/-- A parameter whose name follows the type arguments at once is lost. -/
theorem parameters_joined : Formal.joined.text = "List<T>xs".toList ∧
    parameters [] Formal.joined.text = [] ∧
    parameters [] Formal.joined.standard.text = [⟨"xs", ⟨"List<T>", true⟩⟩] := by
  refine ⟨by decide, ?_, ?_⟩ <;> decide +kernel

end Companion.Java
